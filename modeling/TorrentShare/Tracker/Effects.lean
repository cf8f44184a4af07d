import TorrentShare.Tracker.Running

/-!
# What a command does to the files

Every command changes the state files by a few edits. `Effect` lists, for each command, the edits
it may make and what it has checked when it makes them.
-/

namespace TorrentShare

open Program

/-! ### The edits of the commands -/

/-- The name under which an upload is stored: the one listed for its hash, if one is. -/
def storedName (filehash filename : Str) (ls : List Str) : Str :=
  if fieldOr (recordOf 0 filehash ls) 3 ≠ [] then fieldOr (recordOf 0 filehash ls) 3 else filename

lemma ite_eq_storedName (filehash filename : Str) (ls : List Str) :
    (if fieldOr (recordOf 0 filehash ls) 3 ≠ [] then fieldOr (recordOf 0 filehash ls) 3
      else filename) = storedName filehash filename ls := rfl

/-- A command, its reply and the edits it makes on a tracker. -/
inductive Effect (hashPassword : Str → Str → Str) (salt : Str) (t : Tracker) :
    Command → Reply → List (Edit Path Str) → Prop where
  | refused (c : Command) : Effect hashPassword salt t c (some ['0']) []
  | quiet (c : Command) (r : Reply) (huser : ∀ u p port ip, c ≠ .createUser u p port ip)
      (hgroup : ∀ g u, c ≠ .createGroup g u) : Effect hashPassword salt t c r []
  | login (u p port ip : Str) : Effect hashPassword salt t (.login u p port ip) (some ['1'])
      [addLine onlineFile (fields [u, ip, port])]
  | createUser (u p port ip : Str) (hnew : t.disk.credential u = none) :
      Effect hashPassword salt t (.createUser u p port ip) (some ['1'])
        [addLine onlineFile (fields [u, ip, port]),
         addLine credentialFile (fields [u, salt ++ [':'] ++ hashPassword salt p]),
         setLines (userFilesFile u) [], setLines (downloadingFile u) [],
         setLines (downloadedFile u) []]
  | logout (u : Str) : Effect hashPassword salt t (.logout u) (some ['1'])
      [dropLines onlineFile (hasField 0 u)]
  | createGroup (g u : Str) (hnew : t.disk.owner g = none) :
      Effect hashPassword salt t (.createGroup g u) (some ['1'])
        [addLine groupFile (fields [g, u]), setLines (membersFile g) [u],
         setLines (groupFilesFile g) []]
  | joinGroup (g u : Str) (hgroup : t.memory.groups.lookup g ≠ none)
      (hmember : u ∉ t.disk.lines (membersFile g)) :
      Effect hashPassword salt t (.joinGroup g u) (some ['1'])
        [addLine pendingFile (fields [u, g])]
  | acceptRequest (g u a : Str) (hgroup : t.memory.groups.lookup g = some a)
      (hmember : u ∉ t.disk.lines (membersFile g)) :
      Effect hashPassword salt t (.acceptRequest g u a) (some ['1'])
        [addLine (membersFile g) u, dropLines pendingFile (· == fields [u, g])]
  | uploadFile (h s g u f p : Str) (hgroup : t.memory.groups.lookup g ≠ none)
      (hmember : u ∈ t.disk.lines (membersFile g))
      (hclash : ∀ l ∈ t.disk.lines (groupFilesFile g),
        (split l ' ')[3]? = some (storedName h f (t.disk.lines (groupFilesFile g))) →
          (split l ' ')[0]? = some h) :
      Effect hashPassword salt t (.uploadFile h s g u f p) (some ['1'])
        [addLine (groupFilesFile g)
          (fields [h, s, u, storedName h f (t.disk.lines (groupFilesFile g))]),
         addLine (userFilesFile u)
          (fields [g, storedName h f (t.disk.lines (groupFilesFile g)), p])]
  | stopShare (g f u : Str) (hgroup : t.memory.groups.lookup g ≠ none) :
      Effect hashPassword salt t (.stopShare g f u) (some ['1'])
        [dropLines (groupFilesFile g) (fun l => hasField 3 f l && hasField 2 u l),
         dropLines (userFilesFile u) (fun l => hasField 0 g l && hasField 1 f l)]
  | leaveGroup (g u : Str) (hgroup : t.memory.groups.lookup g ≠ none) :
      Effect hashPassword salt t (.leaveGroup g u) (some ['1'])
        [dropLines (membersFile g) (hasField 0 u), dropLines (groupFilesFile g) (hasField 2 u),
         dropLines (userFilesFile u) (hasField 0 g)]
  | giveSha (g f u : Str) (r : Reply) : Effect hashPassword salt t (.giveSha g f u) r
      [addLine (downloadingFile u) (fields [g, f])]
  | addFile (g f p u : Str)
      (hnew : ∀ l ∈ t.disk.lines (userFilesFile u), (split l ' ')[1]? ≠ some f) :
      Effect hashPassword salt t (.addFile g f p u) none
        [addLine (userFilesFile u) (fields [g, f, p]),
         addLine (groupFilesFile g)
          (fields [fieldOr (recordOf 3 f (t.disk.lines (groupFilesFile g))) 0,
            fieldOr (recordOf 3 f (t.disk.lines (groupFilesFile g))) 1, u, f])]
  | complete (g f p u : Str) : Effect hashPassword salt t (.complete g f p u) none
      [dropLines (downloadingFile u) (· == fields [g, f]),
       addLine (downloadedFile u) (fields [g, f])]

/-! ### The handlers -/

/-- A run that makes the edits, and leaves the table of groups as it was or as the file says. -/
structure Session.Makes (s : Session) (es : List (Edit Path Str)) (s' : Session) : Prop where
  edited : s.disk.Edited es s'.disk
  groups : s'.memory.groups = s.memory.groups ∨
    s'.memory.groups = ownersOf (s.disk.lines groupFile) ∨
      s'.memory.groups = ownersOf (s'.disk.lines groupFile)

section Handlers

variable {hashPassword : Str → Str → Str} {salt : Str} {s s' : Session} {b : Bool}

/-- The reply of a handler that answers with a flag. -/
def flag (b : Bool) : Reply := some (if b then ['1'] else ['0'])

lemma newline_fields {fs : List Str} (h : ∀ f ∈ fs, IsWord f) : '\n' ∉ fields fs :=
  not_mem_fields (by decide) fun f hf => (h f hf).newline

/-- A run that changes no text and reloads the tables or leaves the table of groups. -/
lemma Session.Makes.none (ht : s.disk.Tidy) (htext : ∀ p, s'.disk.text p = s.disk.text p)
    (hgroups : s'.memory.groups = s.memory.groups ∨
      s'.memory.groups = ownersOf (s.disk.lines groupFile)) : s.Makes [] s' :=
  ⟨(Disk.Edited.nil ht).of_text htext, hgroups.imp id Or.inl⟩

lemma run_groupJoin {g u : Str} (hg : IsWord g) (hu : IsWord u) (ht : s.disk.Tidy)
    (h : (groupJoin g u).run callInterp s = some (b, s')) :
    ∃ es, Effect hashPassword salt s.tracker (.joinGroup g u) (flag b) es ∧ s.Makes es s' := by
  have hline : '\n' ∉ fields [u, g] := newline_fields (by simp [hg, hu])
  rw [groupJoin, run_memory_bind] at h
  cases hgroup : s.memory.groups.lookup g with
  | none =>
    simp only [hgroup] at h
    cases h
    exact ⟨[], .refused _, .none ht (fun _ => rfl) (Or.inl rfl)⟩
  | some o =>
    have hgroup' : s.tracker.memory.groups.lookup g ≠ none := by
      rw [show s.tracker.memory = s.memory from rfl, hgroup]
      exact Option.some_ne_none o
    simp only [hgroup] at h
    obtain ⟨s₁, hdisk, hgroups, hmembers, h⟩ := of_run_fetchGroupMembers h
    rw [run_memory_bind] at h
    have hedited : s.disk.Edited [addLine pendingFile (fields [u, g])]
        (s₁.disk.append pendingFile (putline (fields [u, g]))) := by
      rw [hdisk]
      exact Disk.edited_append ht (by decide) hline
    split_ifs at h with hmember honline hpending
    · cases h
      exact ⟨[], .quiet _ _ (by simp) (by simp), .none ht (by simp [hdisk]) (Or.inl hgroups)⟩
    · rw [run_modify_bind, run_lock_bind, run_append_bind, run_unlock_bind, run_modify_bind] at h
      obtain ⟨sent, h⟩ := of_run_sync h
      cases h
      exact ⟨_, .joinGroup g u hgroup' fun hu => hmember ((hmembers u).mpr hu), hedited,
        Or.inl hgroups⟩
    · obtain ⟨sent, h⟩ := of_run_sync h
      cases h
      exact ⟨[], .quiet _ _ (by simp) (by simp), .none ht (fun _ => by rw [← hdisk]; rfl)
        (Or.inl hgroups)⟩
    · rw [run_lock_bind, run_append_bind, run_modify_bind, run_unlock_bind] at h
      obtain ⟨sent, h⟩ := of_run_sync h
      cases h
      exact ⟨_, .joinGroup g u hgroup' fun hu => hmember ((hmembers u).mpr hu), hedited,
        Or.inl hgroups⟩

lemma run_userLogin {u p port ip : Str} (hu : IsWord u) (hport : IsWord port) (hip : IsWord ip)
    (ht : s.disk.Tidy) (h : (userLogin hashPassword u p port ip).run callInterp s = some (b, s')) :
    ∃ es, Effect hashPassword salt s.tracker (.login u p port ip) (flag b) es ∧
      s.Makes es s' := by
  have hline : '\n' ∉ fields [u, ip, port] := newline_fields (by simp [hu, hport, hip])
  obtain ⟨s₁, htext, hgroups, -, -, h⟩ := of_run_fetchDetails h
  rw [run_memory_bind] at h
  have hstart := (Disk.Edited.nil ht).of_text htext
  have hquiet : ∀ r, ∃ es, Effect hashPassword salt s.tracker (.login u p port ip) r es ∧
      s.Makes es s₁ :=
    fun r => ⟨[], .quiet _ _ (by simp) (by simp), hstart, Or.inr (Or.inl hgroups)⟩
  cases hstored : s₁.memory.credentials.lookup u with
  | none =>
    simp only [hstored] at h
    cases h
    exact hquiet _
  | some stored =>
    simp only [hstored] at h
    split_ifs at h with hpassword
    · rw [run_memory_bind] at h
      split_ifs at h with honline
      · cases h
        exact hquiet _
      · rw [run_modify_bind, run_lock_bind, run_append_bind, run_unlock_bind] at h
        obtain ⟨sent, h⟩ := of_run_sync h
        cases h
        exact ⟨_, .login u p port ip,
          hstart.trans (Disk.edited_append hstart.tidy (by decide) hline), Or.inr (Or.inl hgroups)⟩
    · cases h
      exact hquiet _

lemma run_userCreate {u p port ip : Str} (hu : IsWord u) (hport : IsWord port) (hip : IsWord ip)
    (hhash : '\n' ∉ fields [u, s.salt ++ [':'] ++ hashPassword s.salt p]) (ht : s.disk.Tidy)
    (h : (userCreate hashPassword u p port ip).run callInterp s = some (b, s')) :
    ∃ es, Effect hashPassword s.salt s.tracker (.createUser u p port ip) (flag b) es ∧
      s.Makes es s' := by
  have hline : '\n' ∉ fields [u, ip, port] := newline_fields (by simp [hu, hport, hip])
  obtain ⟨s₁, htext, hgroups, hcredentials, hsalt, h⟩ := of_run_fetchDetails h
  rw [run_memory_bind] at h
  have hstart := (Disk.Edited.nil ht).of_text htext
  cases hstored : s₁.memory.credentials.lookup u with
  | some stored =>
    simp only [hstored] at h
    cases h
    exact ⟨[], .refused _, hstart, Or.inr (Or.inl hgroups)⟩
  | none =>
    have hnew : s.tracker.disk.credential u = none := by rwa [hcredentials] at hstored
    simp only [hstored] at h
    rw [run_lock_bind, run_modify_bind, run_append_bind, run_generateSalt_bind, run_append_bind,
      run_create_bind, run_create_bind, run_create_bind, run_unlock_bind] at h
    obtain ⟨_, h⟩ := of_run_sync h
    obtain ⟨_, h⟩ := of_run_sync h
    obtain ⟨_, h⟩ := of_run_sync h
    obtain ⟨_, h⟩ := of_run_sync h
    obtain ⟨_, h⟩ := of_run_sync h
    obtain ⟨s₂, htext', hgroups', -, -, h⟩ := of_run_fetchDetails h
    cases h
    have h₁ := hstart.trans (Disk.edited_append hstart.tidy onlineFile_ne_temp hline)
    have h₂ := h₁.trans (Disk.edited_append h₁.tidy credentialFile_ne_temp hhash)
    have h₃ := h₂.trans (Disk.edited_create_nil h₂.tidy (userFilesFile_ne_temp u))
    have h₄ := h₃.trans (Disk.edited_create_nil h₃.tidy (downloadingFile_ne_temp u))
    have h₅ := h₄.trans (Disk.edited_create_nil h₄.tidy (downloadedFile_ne_temp u))
    refine ⟨_, .createUser u p port ip hnew, ?_, Or.inr (Or.inr ?_)⟩
    · refine h₅.of_text fun q => (htext' q).trans ?_
      rw [← hsalt]
      rfl
    · rw [hgroups', Disk.lines, Disk.lines, htext']

lemma run_logout {u : Str} (ht : s.disk.Tidy)
    (h : (logout u).run callInterp s = some (b, s')) :
    ∃ es, Effect hashPassword salt s.tracker (.logout u) (flag b) es ∧ s.Makes es s' := by
  obtain ⟨s₁, htext, hgroups, -, -, h⟩ := of_run_fetchDetails h
  rw [run_memory_bind] at h
  have hstart := (Disk.Edited.nil ht).of_text htext
  split_ifs at h with honline
  · obtain ⟨s₂, hedited, -, h⟩ := of_run_deleteLine h hstart.tidy onlineFile_ne_temp
    obtain ⟨_, h⟩ := of_run_sync h
    obtain ⟨s₃, htext', hgroups', -, -, h⟩ := of_run_fetchDetails h
    cases h
    refine ⟨_, .logout u, (hstart.trans hedited).of_text htext', Or.inr (Or.inr ?_)⟩
    rw [hgroups', Disk.lines, Disk.lines, htext']
  · cases h
    exact ⟨[], .quiet _ _ (by simp) (by simp), hstart, Or.inr (Or.inl hgroups)⟩

lemma run_groupCreate {g u : Str} (hg : IsWord g) (hu : IsWord u) (ht : s.disk.Tidy)
    (h : (groupCreate g u).run callInterp s = some (b, s')) :
    ∃ es, Effect hashPassword salt s.tracker (.createGroup g u) (flag b) es ∧ s.Makes es s' := by
  have hline : '\n' ∉ fields [g, u] := newline_fields (by simp [hg, hu])
  obtain ⟨s₁, htext, hgroups, -, -, h⟩ := of_run_fetchDetails h
  rw [run_memory_bind] at h
  have hstart := (Disk.Edited.nil ht).of_text htext
  cases howner : s₁.memory.groups.lookup g with
  | some o =>
    simp only [howner] at h
    cases h
    exact ⟨[], .refused _, hstart, Or.inr (Or.inl hgroups)⟩
  | none =>
    have hnew : s.tracker.disk.owner g = none := by rwa [hgroups] at howner
    simp only [howner] at h
    rw [run_lock_bind, run_append_bind, run_create_bind, run_create_bind, run_unlock_bind] at h
    obtain ⟨_, h⟩ := of_run_sync h
    obtain ⟨_, h⟩ := of_run_sync h
    obtain ⟨_, h⟩ := of_run_sync h
    obtain ⟨s₂, htext', hgroups', -, -, h⟩ := of_run_fetchDetails h
    cases h
    have h₁ := hstart.trans (Disk.edited_append hstart.tidy groupFile_ne_temp hline)
    have h₂ := h₁.trans (Disk.edited_create_line h₁.tidy (membersFile_ne_temp g) hu.newline)
    have h₃ := h₂.trans (Disk.edited_create_nil h₂.tidy (groupFilesFile_ne_temp g))
    refine ⟨_, .createGroup g u hnew, ?_, Or.inr (Or.inr ?_)⟩
    · exact h₃.of_text htext'
    · rw [hgroups', Disk.lines, Disk.lines, htext']

lemma run_groupAcceptRequest {g u a : Str} (hu : IsWord u) (ht : s.disk.Tidy)
    (h : (groupAcceptRequest g u a).run callInterp s = some (b, s')) :
    ∃ es, Effect hashPassword salt s.tracker (.acceptRequest g u a) (flag b) es ∧
      s.Makes es s' := by
  rw [groupAcceptRequest, run_memory_bind] at h
  split_ifs at h with htables
  · cases h
    exact ⟨[], .refused _, .none ht (fun _ => rfl) (Or.inl rfl)⟩
  · simp only [not_or, not_not] at htables
    obtain ⟨s₁, hdisk, hgroups, hmembers, h⟩ := of_run_fetchGroupMembers h
    have ht₁ : s₁.disk.Tidy := hdisk ▸ ht
    rw [run_memory_bind] at h
    split_ifs at h with hmember
    · cases h
      exact ⟨[], .quiet _ _ (by simp) (by simp), .none ht (by simp [hdisk]) (Or.inl hgroups)⟩
    · rw [run_lock_bind, run_append_bind, run_unlock_bind] at h
      have hedited := Disk.edited_append ht₁ (membersFile_ne_temp g) hu.newline
      obtain ⟨s₂, hdrop, hmemory, h⟩ := of_run_deleteWholeLine h hedited.tidy pendingFile_ne_temp
      obtain ⟨_, h⟩ := of_run_sync h
      obtain ⟨_, h⟩ := of_run_sync h
      cases h
      refine ⟨_, .acceptRequest g u a htables.1 fun hu => hmember ((hmembers u).mpr hu),
        ?_, Or.inl ?_⟩
      · rw [← hdisk]
        exact hedited.trans hdrop
      · exact (congrArg Memory.groups hmemory).trans hgroups

lemma run_groupLeave {g u : Str} (ht : s.disk.Tidy)
    (h : (groupLeave g u).run callInterp s = some (b, s')) :
    ∃ es, Effect hashPassword salt s.tracker (.leaveGroup g u) (flag b) es ∧ s.Makes es s' := by
  rw [groupLeave, run_memory_bind] at h
  cases hgroup : s.memory.groups.lookup g with
  | none =>
    simp only [hgroup] at h
    cases h
    exact ⟨[], .refused _, .none ht (fun _ => rfl) (Or.inl rfl)⟩
  | some o =>
    have hgroup' : s.tracker.memory.groups.lookup g ≠ none := by
      rw [show s.tracker.memory = s.memory from rfl, hgroup]
      exact Option.some_ne_none o
    simp only [hgroup] at h
    obtain ⟨s₁, hdisk, hgroups, -, h⟩ := of_run_fetchGroupMembers h
    have ht₁ : s₁.disk.Tidy := hdisk ▸ ht
    rw [run_memory_bind] at h
    split_ifs at h with hmember
    · cases h
      exact ⟨[], .refused _, .none ht (by simp [hdisk]) (Or.inl hgroups)⟩
    · obtain ⟨s₂, h₂, -, h⟩ := of_run_deleteLine h ht₁ (membersFile_ne_temp g)
      obtain ⟨s₃, h₃, -, h⟩ := of_run_deleteLine h h₂.tidy (groupFilesFile_ne_temp g)
      obtain ⟨s₄, h₄, -, h⟩ := of_run_deleteLine h h₃.tidy (userFilesFile_ne_temp u)
      obtain ⟨_, h⟩ := of_run_sync h
      obtain ⟨_, h⟩ := of_run_sync h
      obtain ⟨_, h⟩ := of_run_sync h
      obtain ⟨s₅, htext', hgroups', -, -, h⟩ := of_run_fetchDetails h
      cases h
      refine ⟨_, .leaveGroup g u hgroup', ?_, Or.inr (Or.inr ?_)⟩
      · rw [← hdisk]
        exact ((h₂.trans h₃).trans h₄).of_text htext'
      · rw [hgroups', Disk.lines, Disk.lines, htext']

/-- An upload changes nothing, and if it is accepted all the same the user has a record for the
    hash. Otherwise there is none, and no clash, and two records are added. -/
lemma run_groupFileUpload_cases {h z g u f p : Str} (hh : IsWord h) (hz : IsWord z) (hg : IsWord g)
    (hu : IsWord u) (hf : IsWord f) (hp : IsWord p) (ht : s.disk.Tidy)
    (hrun : (groupFileUpload h z g u f p).run callInterp s = some (b, s')) :
    (s.Makes [] s' ∧ (b = true → u ∈ s.disk.lines (membersFile g) ∧
      HasPair 0 2 h u (s.disk.lines (groupFilesFile g)))) ∨
    b = true ∧ s.memory.groups.lookup g ≠ none ∧ u ∈ s.disk.lines (membersFile g) ∧
      ¬ HasPair 0 2 h u (s.disk.lines (groupFilesFile g)) ∧
      (∀ l ∈ s.disk.lines (groupFilesFile g),
        (split l ' ')[3]? = some (storedName h f (s.disk.lines (groupFilesFile g))) →
          (split l ' ')[0]? = some h) ∧
      s.Makes [addLine (groupFilesFile g)
          (fields [h, z, u, storedName h f (s.disk.lines (groupFilesFile g))]),
        addLine (userFilesFile u)
          (fields [g, storedName h f (s.disk.lines (groupFilesFile g)), p])] s' := by
  rw [groupFileUpload, run_memory_bind] at hrun
  split_ifs at hrun with hgroup
  · cases hrun
    exact Or.inl ⟨.none ht (fun _ => rfl) (Or.inl rfl), by simp⟩
  · obtain ⟨s₁, hdisk, hgroups, hmembers, hrun⟩ := of_run_fetchGroupMembers hrun
    have ht₁ : s₁.disk.Tidy := hdisk ▸ ht
    have hquiet : s.Makes [] s₁ := .none ht (by simp [hdisk]) (Or.inl hgroups)
    rw [run_memory_bind] at hrun
    split_ifs at hrun with hmember
    · rw [hmembers] at hmember
      rw [Prog.run_bind, Option.bind_eq_some_iff] at hrun
      obtain ⟨⟨shared, s₂⟩, hshared, hrun⟩ := hrun
      obtain ⟨rfl, hshared⟩ := run_checkGroupFiles hshared
      rw [← hdisk] at hmember ⊢
      cases shared with
      | true =>
        cases hrun
        exact Or.inl ⟨hquiet, fun _ => ⟨hmember, hshared.mp rfl⟩⟩
      | false =>
        simp only [Bool.false_eq_true, if_false] at hrun
        rw [Prog.run_bind, Option.bind_eq_some_iff] at hrun
        obtain ⟨⟨stored, s₃⟩, hstored, hrun⟩ := hrun
        obtain ⟨rfl, rfl⟩ := run_getGroupFileName hstored
        simp only [ite_eq_storedName] at hrun
        rw [Prog.run_bind, Option.bind_eq_some_iff] at hrun
        obtain ⟨⟨clash, s₄⟩, hclash, hrun⟩ := hrun
        obtain ⟨rfl, hclash⟩ := run_checkIntegrity hclash
        cases clash with
        | true =>
          cases hrun
          exact Or.inl ⟨hquiet, by simp⟩
        | false =>
          simp only [Bool.false_eq_true, if_false] at hrun
          rw [run_lock_bind, run_append_bind, run_append_bind, run_unlock_bind] at hrun
          obtain ⟨_, hrun⟩ := of_run_sync hrun
          obtain ⟨_, hrun⟩ := of_run_sync hrun
          cases hrun
          have hname : '\n' ∉ storedName h f (s₄.disk.lines (groupFilesFile g)) := by
            unfold storedName
            split_ifs
            · exact newline_fieldOr _ _ _ _ _
            · exact hf.newline
          have hrecord : '\n' ∉ fields [h, z, u,
              storedName h f (s₄.disk.lines (groupFilesFile g))] :=
            not_mem_fields (by decide) (by simp [hh.newline, hz.newline, hu.newline, hname])
          have hpath : '\n' ∉ fields [g, storedName h f (s₄.disk.lines (groupFilesFile g)), p] :=
            not_mem_fields (by decide) (by simp [hg.newline, hp.newline, hname])
          have h₁ := Disk.edited_append ht₁ (groupFilesFile_ne_temp g) hrecord
          have h₂ := h₁.trans (Disk.edited_append h₁.tidy (userFilesFile_ne_temp u) hpath)
          refine Or.inr ⟨rfl, hgroup, hmember, fun hpair => ?_, hclash rfl, ?_, Or.inl hgroups⟩
          · exact Bool.false_ne_true (hshared.mpr hpair)
          · rw [← hdisk]
            exact h₂
    · cases hrun
      exact Or.inl ⟨hquiet, by simp⟩

lemma run_groupFileUpload {h z g u f p : Str} (hh : IsWord h) (hz : IsWord z) (hg : IsWord g)
    (hu : IsWord u) (hf : IsWord f) (hp : IsWord p) (ht : s.disk.Tidy)
    (hrun : (groupFileUpload h z g u f p).run callInterp s = some (b, s')) :
    ∃ es, Effect hashPassword salt s.tracker (.uploadFile h z g u f p) (flag b) es ∧
      s.Makes es s' := by
  rcases run_groupFileUpload_cases hh hz hg hu hf hp ht hrun with
    ⟨hmakes, -⟩ | ⟨rfl, hgroup, hmember, -, hclash, hmakes⟩
  · exact ⟨[], .quiet _ _ (by simp) (by simp), hmakes⟩
  · exact ⟨_, .uploadFile h z g u f p hgroup hmember hclash, hmakes⟩

lemma run_groupStopShare {g f u : Str} (ht : s.disk.Tidy)
    (h : (groupStopShare g f u).run callInterp s = some (b, s')) :
    ∃ es, Effect hashPassword salt s.tracker (.stopShare g f u) (flag b) es ∧ s.Makes es s' := by
  rw [groupStopShare, run_memory_bind] at h
  split_ifs at h with htables
  · cases h
    exact ⟨[], .refused _, .none ht (fun _ => rfl) (Or.inl rfl)⟩
  · rw [not_or] at htables
    obtain ⟨s₁, hdisk, hgroups, -, h⟩ := of_run_fetchGroupMembers h
    have ht₁ : s₁.disk.Tidy := hdisk ▸ ht
    rw [run_memory_bind] at h
    split_ifs at h with hmember
    · rw [run_lock_bind, run_rewrite_bind, Option.bind_eq_some_iff] at h
      obtain ⟨ks, hks, h⟩ := h
      have h₁ := Disk.edited_rewritten .out ht₁ (groupFilesFile_ne_temp g) hks
      rw [run_rewrite_bind, Option.bind_eq_some_iff] at h
      obtain ⟨ks', hks', h⟩ := h
      have h₂ := Disk.edited_rewritten .out h₁.tidy (userFilesFile_ne_temp u) hks'
      rw [run_unlock_bind] at h
      obtain ⟨_, h⟩ := of_run_sync h
      obtain ⟨_, h⟩ := of_run_sync h
      cases h
      refine ⟨_, .stopShare g f u htables.1, ?_, Or.inl hgroups⟩
      have hedited := h₁.trans h₂
      simp only [andThen_eq_hasField] at hedited
      rw [← hdisk]
      exact hedited
    · cases h
      exact ⟨[], .refused _, .none ht (by simp [hdisk]) (Or.inl hgroups)⟩

lemma run_sendSHA {g f u : Str} {reply : Str} (hg : IsWord g) (hf : IsWord f) (ht : s.disk.Tidy)
    (h : (sendSHA g f u).run callInterp s = some (reply, s')) :
    ∃ es, Effect hashPassword salt s.tracker (.giveSha g f u) (some reply) es ∧
      s.Makes es s' := by
  have hline : '\n' ∉ fields [g, f] := newline_fields (by simp [hg, hf])
  obtain ⟨s₁, htext, hgroups, -, -, h⟩ := of_run_fetchDetails h
  rw [run_memory_bind] at h
  have hstart := (Disk.Edited.nil ht).of_text htext
  cases howner : s₁.memory.groups.lookup g with
  | none =>
    simp only [howner] at h
    cases h
    exact ⟨[], .quiet _ _ (by simp) (by simp), hstart, Or.inr (Or.inl hgroups)⟩
  | some o =>
    simp only [howner] at h
    obtain ⟨s₂, hdisk, hgroups', -, h⟩ := of_run_fetchGroupMembers h
    rw [← hdisk] at hstart
    rw [run_memory_bind] at h
    split_ifs at h with hmember
    · rw [run_lock_bind, run_read_bind, run_checked_bind, Option.bind_eq_some_iff] at h
      obtain ⟨records, -, h⟩ := h
      rw [run_append_bind, run_unlock_bind] at h
      obtain ⟨_, h⟩ := of_run_sync h
      cases h
      exact ⟨_, .giveSha g f u _,
        hstart.trans (Disk.edited_append hstart.tidy (downloadingFile_ne_temp u) hline),
        Or.inr (Or.inl (hgroups'.trans hgroups))⟩
    · cases h
      exact ⟨[], .quiet _ _ (by simp) (by simp), hstart,
        Or.inr (Or.inl (hgroups'.trans hgroups))⟩

/-- `UpdateDownload` comes to an end if the record of the file is found, and it adds two records
    unless the user has one of the name, in whatever group. -/
lemma run_updateDownload_cases {g f p u : Str} (hg : IsWord g) (hf : IsWord f) (hp : IsWord p)
    (hu : IsWord u) (ht : s.disk.Tidy)
    (h : (updateDownload g f p u).run callInterp s = some ((), s')) :
    findRecord (fieldIs 3 f) (s.disk.lines (groupFilesFile g)) ≠ none ∧
      ((s.Makes [] s' ∧ ∃ l ∈ s.disk.lines (userFilesFile u), (split l ' ')[1]? = some f) ∨
        (∀ l ∈ s.disk.lines (userFilesFile u), (split l ' ')[1]? ≠ some f) ∧
          s.Makes [addLine (userFilesFile u) (fields [g, f, p]),
            addLine (groupFilesFile g)
              (fields [fieldOr (recordOf 3 f (s.disk.lines (groupFilesFile g))) 0,
                fieldOr (recordOf 3 f (s.disk.lines (groupFilesFile g))) 1, u, f])] s') := by
  obtain ⟨s₁, htext, hgroups, -, -, h⟩ := of_run_fetchDetails h
  have hstart := (Disk.Edited.nil ht).of_text htext
  have hlines : ∀ q, s₁.disk.lines q = s.disk.lines q := by
    intro q
    rw [Disk.lines, htext]
    rfl
  have hread : ∀ q, getlines ((s₁.disk.read q).getD []) = s.disk.lines q := hlines
  rw [run_read_bind, run_checked_bind, Option.bind_eq_some_iff, hread] at h
  obtain ⟨found, hfound, h⟩ := h
  rw [run_checked_bind, Option.bind_eq_some_iff] at h
  obtain ⟨data, hdata, h⟩ := h
  rw [run_checked_bind, Option.bind_eq_some_iff] at h
  obtain ⟨size, hsize, h⟩ := h
  rw [run_read_bind, run_checked_bind, Option.bind_eq_some_iff, hread] at h
  obtain ⟨listed, hlisted, h⟩ := h
  refine ⟨Option.ne_none_iff_exists'.mpr ⟨found, hfound⟩, ?_⟩
  cases listed with
  | some v =>
    cases h
    obtain ⟨l, hl, -, htest⟩ := findRecord_some hlisted
    exact Or.inl ⟨⟨hstart, Or.inr (Or.inl hgroups)⟩, l, hl, by simpa [fieldIs] using htest⟩
  | none =>
    right
    have hnew : ∀ l ∈ s.disk.lines (userFilesFile u), (split l ' ')[1]? ≠ some f := by
      intro l hl hname
      have htest := findRecord_none hlisted l hl
      simp [fieldIs, hname] at htest
    have hdata' := elim_eq_fieldOr hdata
    have hsize' := elim_eq_fieldOr hsize
    rw [findRecord_fieldIs hfound] at hdata' hsize'
    have hpath : '\n' ∉ fields [g, f, p] := newline_fields (by simp [hg, hf, hp])
    have hrecord : '\n' ∉ fields [data, size, u, f] := by
      refine not_mem_fields (by decide) ?_
      simp [hdata', hsize', newline_fieldOr, hu.newline, hf.newline]
    simp only [Option.isSome_none, Bool.false_eq_true, if_false] at h
    rw [run_append_bind, run_append_bind] at h
    obtain ⟨_, h⟩ := of_run_sync h
    obtain ⟨_, h⟩ := of_run_sync h
    cases h
    have h₁ := hstart.trans (Disk.edited_append hstart.tidy (userFilesFile_ne_temp u) hpath)
    have h₂ := h₁.trans (Disk.edited_append h₁.tidy (groupFilesFile_ne_temp g) hrecord)
    refine ⟨hnew, ?_, Or.inr (Or.inl hgroups)⟩
    rw [← hdata', ← hsize']
    exact h₂

lemma run_updateDownload {g f p u : Str} (hg : IsWord g) (hf : IsWord f) (hp : IsWord p)
    (hu : IsWord u) (ht : s.disk.Tidy)
    (h : (updateDownload g f p u).run callInterp s = some ((), s')) :
    ∃ es, Effect hashPassword salt s.tracker (.addFile g f p u) none es ∧ s.Makes es s' := by
  rcases (run_updateDownload_cases hg hf hp hu ht h).2 with ⟨hmakes, -⟩ | ⟨hnew, hmakes⟩
  · exact ⟨[], .quiet _ _ (by simp) (by simp), hmakes⟩
  · exact ⟨_, .addFile g f p u hnew, hmakes⟩

lemma run_completeDownload {g f p u : Str} (hg : IsWord g) (hf : IsWord f) (ht : s.disk.Tidy)
    (h : (completeDownload g f u).run callInterp s = some ((), s')) :
    ∃ es, Effect hashPassword salt s.tracker (.complete g f p u) none es ∧ s.Makes es s' := by
  have hline : '\n' ∉ fields [g, f] := newline_fields (by simp [hg, hf])
  obtain ⟨s₁, htext, hgroups, -, -, h⟩ := of_run_fetchDetails h
  have hstart := (Disk.Edited.nil ht).of_text htext
  obtain ⟨s₂, hdrop, hmemory, h⟩ := of_run_deleteWholeLine h hstart.tidy (downloadingFile_ne_temp u)
  rw [run_append_bind] at h
  obtain ⟨_, h⟩ := of_run_sync h
  obtain ⟨_, h⟩ := of_run_sync h
  cases h
  have h₁ := hstart.trans hdrop
  exact ⟨_, .complete g f p u,
    h₁.trans (Disk.edited_append h₁.tidy (downloadedFile_ne_temp u) hline),
    Or.inr (Or.inl ((congrArg Memory.groups hmemory).trans hgroups))⟩

end Handlers

/-! ### Queries -/

/-- The calls that change no text, and no table of groups except by a reload. -/
@[simp] def Call.reads : Call → Prop
  | .prim (.append _ _) => False
  | .prim (.create _ _) => False
  | .prim (.remove _)   => False
  | .prim (.rename _ _) => False
  | .prim (.modify f)   => ∀ m, (f m).groups = m.groups
  | .rewrite _ _ _      => False
  | _                   => True

/-- The commands whose handlers only read. -/
def Command.isQuery : Command → Bool
  | .listGroups         => true
  | .listRequests _ _   => true
  | .listFiles _        => true
  | .giveSeeders _ _ _  => true
  | .giveDetails _      => true
  | .sendFullPath _ _ _ => true
  | .showDownloads _    => true
  | _                   => false

lemma trackerKernel_reads (hashPassword : Str → Str → Str) {c : Command}
    (hc : c.isQuery = true) : (trackerKernel hashPassword c).Only Call.reads := by
  cases c with
  | listGroups =>
    simp [trackerKernel, answerData, Prog.Only, groupList, call, Prog.follows_bind]
  | listRequests g u =>
    refine Prog.Only.bind ?_ fun _ => trivial
    simp only [Prog.Only, groupRequestList, call, Prog.follows_bind, fetchDetails_follows,
      Prog.follows_call, Prog.follows_ret, kind_allowed, kind_admits, Call.reads, true_and]
    intro _ m _
    split
    · trivial
    · simp [Prog.follows_ite]
  | listFiles g =>
    refine Prog.Only.bind ?_ fun _ => trivial
    simp only [Prog.Only, groupFileList, call, Prog.follows_bind, fetchDetails_follows,
      Prog.follows_call, Prog.follows_ret, kind_allowed, kind_admits, Call.reads, true_and]
    intro _ m _
    split
    · trivial
    · simp [Prog.follows_bind]
  | giveSeeders g f u =>
    simp [trackerKernel, answerData, Prog.Only, sendSeeders, call, Prog.follows_bind]
  | giveDetails u =>
    simp [trackerKernel, answerData, Prog.Only, sendDetails, call, Prog.follows_bind]
  | sendFullPath u g f =>
    simp [trackerKernel, answerData, Prog.Only, getFullPath, call, Prog.follows_bind]
  | showDownloads u =>
    simp [trackerKernel, answerData, Prog.Only, showDownloads, call, Prog.follows_bind]
  | _ => cases hc

/-- One call of a query. -/
lemma Session.Makes.reads {s₀ s s' : Session} {o : Call} {a : callAns o} (ho : o.reads)
    (h : s₀.Makes [] s) (hs : callInterp o s = some (a, s')) : s₀.Makes [] s' := by
  cases o with
  | prim o =>
    rw [callInterp_prim] at hs
    cases o with
    | sync p =>
      obtain ⟨sent, rfl⟩ := primInterp_sync hs
      exact ⟨h.edited, h.groups⟩
    | modify f =>
      cases hs
      refine ⟨h.edited, ?_⟩
      rw [Session.memory_setMemory, ho s.memory]
      exact h.groups
    | append p c => exact ho.elim
    | create p c => exact ho.elim
    | remove p => exact ho.elim
    | rename p q => exact ho.elim
    | fault => cases hs
    | _ => cases hs; exact h
  | fetchDetails =>
    simp only [callInterp_fetchDetails, Option.map_eq_some_iff, Prod.mk.injEq] at hs
    obtain ⟨m, hm, -, rfl⟩ := hs
    refine ⟨h.edited.of_text s.disk.text_reloaded, Or.inr (Or.inr ?_)⟩
    rw [Session.disk_setMemory, Session.disk_setDisk, Disk.lines, Disk.text_reloaded]
    exact groups_reload hm
  | fetchGroupMembers g =>
    rw [callInterp_fetchGroupMembers] at hs
    cases hs
    exact ⟨h.edited, h.groups⟩
  | rewrite mode p drop => exact ho.elim

/-- A program of such calls. -/
lemma Session.Makes.run_reads {α : Type} {p : Prog callSig α} {a : α} {s s' : Session}
    (hp : p.Only Call.reads) (ht : s.disk.Tidy) (h : p.run callInterp s = some (a, s')) :
    s.Makes [] s' := by
  have hstart : s.Makes [] s := .none ht (fun _ => rfl) (Or.inl rfl)
  obtain ⟨-, -, h'⟩ := Prog.Follows.run (R := fun (_ : Unit) t => s.Makes [] t)
    (fun o _ t a t' ho ht hstep => ⟨trivial, ht.reads ho hstep⟩) hp hstart h
  exact h'

/-! ### Commands -/

lemma run_answer {p : Prog callSig Bool} {reply : Reply} {s s' : Session}
    (h : (answer p).run callInterp s = some (reply, s')) :
    ∃ b, p.run callInterp s = some (b, s') ∧ reply = flag b := by
  rw [run_answer_eq, Option.map_eq_some_iff] at h
  obtain ⟨⟨b, s₁⟩, hp, h⟩ := h
  cases h
  exact ⟨b, hp, rfl⟩

lemma run_answerData {p : Prog callSig Str} {reply : Reply} {s s' : Session}
    (h : (answerData p).run callInterp s = some (reply, s')) :
    ∃ data, p.run callInterp s = some (data, s') ∧ reply = some data := by
  rw [run_answerData_eq, Option.map_eq_some_iff] at h
  obtain ⟨⟨data, s₁⟩, hp, h⟩ := h
  cases h
  exact ⟨data, hp, rfl⟩

lemma run_noAnswer {p : Prog callSig Unit} {reply : Reply} {s s' : Session}
    (h : (noAnswer p).run callInterp s = some (reply, s')) :
    p.run callInterp s = some ((), s') ∧ reply = none := by
  rw [run_noAnswer_eq, Option.map_eq_some_iff] at h
  obtain ⟨⟨⟨⟩, s₁⟩, hp, h⟩ := h
  cases h
  exact ⟨hp, rfl⟩

/-- What a command does on a tracker whose files consist of whole lines. -/
theorem trackerKernel_effect {hashPassword : Str → Str → Str} {c : Command} {reply : Reply}
    {s s' : Session} (hc : ∀ w ∈ c.args, IsWord w) (hsalt : IsWord s.salt)
    (hhash : ∀ salt p, IsWord (hashPassword salt p)) (ht : s.disk.Tidy)
    (h : (trackerKernel hashPassword c).run callInterp s = some (reply, s')) :
    ∃ es, Effect hashPassword s.salt s.tracker c reply es ∧ s.Makes es s' := by
  by_cases hquery : c.isQuery = true
  · have hmakes := Session.Makes.run_reads (trackerKernel_reads hashPassword hquery) ht h
    refine ⟨[], .quiet c reply ?_ ?_, hmakes⟩
    · rintro u p port ip rfl
      cases hquery
    · rintro g u rfl
      cases hquery
  cases c with
  | login u p port ip =>
    obtain ⟨b, hrun, rfl⟩ := run_answer h
    exact run_userLogin (hc u (by simp [Command.args])) (hc port (by simp [Command.args]))
      (hc ip (by simp [Command.args])) ht hrun
  | createUser u p port ip =>
    obtain ⟨b, hrun, rfl⟩ := run_answer h
    have hu := hc u (by simp [Command.args])
    have hline : '\n' ∉ fields [u, s.salt ++ [':'] ++ hashPassword s.salt p] := by
      refine not_mem_fields (by decide) ?_
      simp [hu.newline, hsalt.newline, (hhash s.salt p).newline]
    exact run_userCreate hu (hc port (by simp [Command.args])) (hc ip (by simp [Command.args]))
      hline ht hrun
  | createGroup g u =>
    obtain ⟨b, hrun, rfl⟩ := run_answer h
    exact run_groupCreate (hc g (by simp [Command.args])) (hc u (by simp [Command.args])) ht hrun
  | joinGroup g u =>
    obtain ⟨b, hrun, rfl⟩ := run_answer h
    exact run_groupJoin (hc g (by simp [Command.args])) (hc u (by simp [Command.args])) ht hrun
  | acceptRequest g u a =>
    obtain ⟨b, hrun, rfl⟩ := run_answer h
    exact run_groupAcceptRequest (hc u (by simp [Command.args])) ht hrun
  | uploadFile hash size g u f p =>
    obtain ⟨b, hrun, rfl⟩ := run_answer h
    exact run_groupFileUpload (hc hash (by simp [Command.args])) (hc size (by simp [Command.args]))
      (hc g (by simp [Command.args])) (hc u (by simp [Command.args]))
      (hc f (by simp [Command.args])) (hc p (by simp [Command.args])) ht hrun
  | stopShare g f u =>
    obtain ⟨b, hrun, rfl⟩ := run_answer h
    exact run_groupStopShare ht hrun
  | leaveGroup g u =>
    obtain ⟨b, hrun, rfl⟩ := run_answer h
    exact run_groupLeave ht hrun
  | logout u =>
    obtain ⟨b, hrun, rfl⟩ := run_answer h
    exact run_logout ht hrun
  | giveSha g f u =>
    obtain ⟨data, hrun, rfl⟩ := run_answerData h
    exact run_sendSHA (hc g (by simp [Command.args])) (hc f (by simp [Command.args])) ht hrun
  | addFile g f p u =>
    obtain ⟨hrun, rfl⟩ := run_noAnswer h
    exact run_updateDownload (hc g (by simp [Command.args])) (hc f (by simp [Command.args]))
      (hc p (by simp [Command.args])) (hc u (by simp [Command.args])) ht hrun
  | complete g f p u =>
    obtain ⟨hrun, rfl⟩ := run_noAnswer h
    exact run_completeDownload (hc g (by simp [Command.args])) (hc f (by simp [Command.args])) ht
      hrun
  | _ => exact absurd rfl hquery

end TorrentShare
