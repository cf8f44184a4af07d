import TorrentShare.Registry.Refinement

/-!
# Shared files and downloads of a registry

The handlers that deal with shared files and downloads, on a tracker that represents a registry.
-/

namespace TorrentShare

open Program

section Scans

variable {R : Registry Str} {E : Entities} {F : Key → List Str} {P : Set Key} {m : Memory}
  {salt : Str} {s : Session} {α : Type} {Q : α → Session → Prop} {sha256 : Str → List (Fin 256)}
  {g h x u : Str}

/-- A test of two fields. -/
lemma andThen_fieldIs {i j : ℕ} {x y a b : Str} {v : List Str} (hi : v[i]? = some a)
    (hj : v[j]? = some b) :
    andThen (fieldIs i x) (fieldIs j y) v = some (decide (a = x ∧ b = y)) := by
  rw [andThen, fieldIs, hi, Option.map_some, Option.bind_some, fieldIs, hj, Option.map_some]
  by_cases hx : a = x
  · simp [hx]
  · simp [hx]

lemma Registry.Fills.shares (hF : R.Fills sha256 F) (g : Str) :
    F (.shared g) = (R.shares g).map Share.line := hF (.shared g)

lemma Registry.Fills.copies (hF : R.Fills sha256 F) (u : Str) :
    F (.files u) = (R.copies u).map Location.line := hF (.files u)

/-- The first share that passes a test is found. -/
lemma Registry.Sound.find_share (hR : R.Sound) (hF : R.Fills sha256 F)
    {test : List Str → Option Bool} {p : Share Str → Bool}
    (htest : ∀ a : Share Str, test [a.hash, a.size, a.user, a.name] = some (p a)) :
    findRecord test (F (.shared g)) =
      some (((R.shares g).find? p).map fun a => [a.hash, a.size, a.user, a.name]) := by
  rw [hF.shares, findRecord_map (p := p)]
  · cases hfound : (R.shares g).find? p with
    | none => rfl
    | some a => rw [Option.map_some, Option.map_some,
        hR.split_share (List.mem_of_find?_eq_some hfound)]
  · intro a ha
    rw [hR.split_share ha, htest]

lemma Registry.Sound.find_location (hR : R.Sound) (hF : R.Fills sha256 F)
    {test : List Str → Option Bool} {p : Location Str → Bool}
    (htest : ∀ c : Location Str, test [c.group, c.name, c.path] = some (p c)) :
    findRecord test (F (.files u)) =
      some (((R.copies u).find? p).map fun c => [c.group, c.name, c.path]) := by
  rw [hF.copies, findRecord_map (p := p)]
  · cases hfound : (R.copies u).find? p with
    | none => rfl
    | some c => rw [Option.map_some, Option.map_some,
        hR.split_location (List.mem_of_find?_eq_some hfound)]
  · intro c hc
    rw [hR.split_location hc, htest]

lemma checkGroupFiles_ends (hat : E.At F P m salt s) (hR : R.Sound) (hF : R.Fills sha256 F)
    (hg : E.group g) {f : Bool → Prog callSig α}
    (hf : ∀ b, (b = true ↔ ∃ a ∈ R.shares g, a.hash = h ∧ a.user = u) →
      (f b).Ends callInterp s Q) :
    (checkGroupFiles h (groupFilesFile g) u >>= f).Ends callInterp s Q := by
  rw [Prog.ends_bind, checkGroupFiles]
  refine hat.read (k := .shared g) hg fun c hc => ends_lock ?_
  refine ends_checked (by rw [hc, hR.find_share hF fun a => andThen_fieldIs rfl rfl])
    (ends_unlock (hf _ ?_))
  simp [List.find?_isSome]

lemma getGroupFileName_ends (hat : E.At F P m salt s) (hR : R.Sound) (hF : R.Fills sha256 F)
    (hg : E.group g) {f : Str → Prog callSig α}
    (hf : ∀ stored, stored = (((R.shares g).find? (·.hash = h)).map (·.name)).getD [] →
      (f stored).Ends callInterp s Q) :
    (getGroupFileName h (groupFilesFile g) >>= f).Ends callInterp s Q := by
  rw [Prog.ends_bind, getGroupFileName]
  refine ends_lock (hat.read (k := .shared g) hg fun c hc => ?_)
  refine ends_checked (by rw [hc, hR.find_share hF fun a => by rfl]) ?_
  refine ends_checked (b := (((R.shares g).find? (·.hash = h)).map (·.name)).getD []) ?_
    (ends_unlock ?_)
  · cases (R.shares g).find? (·.hash = h) with
    | none => rfl
    | some a => rfl
  · exact hf _ rfl

lemma checkIntegrity_ends (hat : E.At F P m salt s) (hR : R.Sound) (hF : R.Fills sha256 F)
    (hg : E.group g) {f : Bool → Prog callSig α}
    (hf : ∀ b, (b = true ↔ ∃ a ∈ R.shares g, a.hash ≠ h ∧ a.name = x) →
      (f b).Ends callInterp s Q) :
    (checkIntegrity h (groupFilesFile g) x >>= f).Ends callInterp s Q := by
  rw [Prog.ends_bind, checkIntegrity]
  refine ends_lock (hat.read (k := .shared g) hg fun c hc => ?_)
  refine ends_checked (b := ((R.shares g).find? fun a => decide (a.hash ≠ h ∧ a.name = x)).map
    fun a => [a.hash, a.size, a.user, a.name]) ?_ (ends_unlock (hf _ ?_))
  · rw [hc]
    apply hR.find_share hF
    intro a
    by_cases hh : a.hash = h
    · simp [andThen, fieldIs, hh]
    · simp [andThen, fieldIs, hh]
  · simp [List.find?_isSome]

end Scans

section Handlers

variable {sha256 : Str → List (Fin 256)} {E : Entities} {R : Registry Str} {s : Session}

/-! ### Sharing -/

lemma groupFileUpload_ends (h : s.tracker.Represents sha256 E R) {z size g u f p : Str}
    (hE : E.group g ∧ E.user u) (hz : IsToken z) (hsize : IsToken size) (hg : IsToken g)
    (hu : IsToken u) (hf : IsToken f) (hp : IsToken p) :
    (groupFileUpload z size g u f p).Ends callInterp s fun b s' =>
      s'.Shows sha256 E (R.uploadFile z size g u f p) (flag b) := by
  have hsound := h.sound.uploadFile hz hsize hg hu hf hp
  have hname := h.sound.nameFor hf g z
  have hm : R.Cached s.memory := h.cached
  obtain ⟨F, P, hat, hF, hP⟩ := h.at
  rw [groupFileUpload]
  refine hat.tables ?_
  rw [hm.groups]
  by_cases hgroup : R.owner g = none
  · have hupload : R.uploadFile z size g u f p = (.done false, R) := by
      simp [Registry.uploadFile, hgroup]
    rw [hupload]
    rw [if_pos hgroup]
    exact ⟨rfl, h⟩
  rw [if_neg hgroup]
  refine hat.fetchGroupMembers hE.1 fun s₁ us hus h₁ => h₁.tables ?_
  have hmember : u ∈ us ↔ u ∈ R.members g := (hus u).trans ((hF (.members g)).mem_iff u)
  have hm₁ : R.Cached { s.memory with groupMembers := us } := { hm with }
  have hrep := h₁.represents h.sound hF hm₁ hP
  by_cases hin : u ∈ R.members g
  · rw [if_neg (by simpa [hmember] using hin)]
    refine checkGroupFiles_ends h₁ h.sound hF hE.1 fun b hb => ?_
    cases b with
    | true =>
      have hupload : R.uploadFile z size g u f p = (.done true, R) := by
        rw [Registry.uploadFile, if_neg (by simp [hgroup, hin]), if_pos (hb.mp rfl)]
      rw [hupload]
      exact ⟨rfl, hrep⟩
    | false =>
      have hnot : ¬ ∃ a ∈ R.shares g, a.hash = z ∧ a.user = u :=
        fun hshared => Bool.false_ne_true (hb.mpr hshared)
      refine getGroupFileName_ends h₁ h.sound hF hE.1 fun stored hstored => ?_
      generalize hchosen : (if stored ≠ [] then stored else f) = chosen
      obtain rfl : chosen = R.nameFor g z f := by
        rw [← hchosen, hstored, Registry.nameFor]
        cases hfound : (R.shares g).find? (·.hash = z) with
        | none => rfl
        | some a =>
          -- the name of a record is not empty
          exact if_pos (h.sound.shares g a (List.mem_of_find?_eq_some hfound)).2.2.2.2
      refine checkIntegrity_ends h₁ h.sound hF hE.1 fun b hb' => ?_
      cases b with
      | true =>
        have hupload : R.uploadFile z size g u f p = (.done false, R) := by
          rw [Registry.uploadFile, if_neg (by simp [hgroup, hin]), if_neg hnot,
            if_pos (hb'.mp rfl)]
        rw [hupload]
        exact ⟨rfl, hrep⟩
      | false =>
        have hclash : ¬ ∃ a ∈ R.shares g, a.hash ≠ z ∧ a.name = R.nameFor g z f :=
          fun hclash => Bool.false_ne_true (hb'.mpr hclash)
        have hupload : R.uploadFile z size g u f p = (.done true, { R with
            shares := Function.update R.shares g (R.shares g ++ [⟨z, size, u, R.nameFor g z f⟩])
            copies := Function.update R.copies u
              (R.copies u ++ [⟨g, R.nameFor g z f, p⟩]) }) := by
          rw [Registry.uploadFile, if_neg (by simp [hgroup, hin]), if_neg hnot, if_neg hclash]
        have hshare : '\n' ∉ fields [z, size, u, R.nameFor g z f] :=
          newline_fields (by simp [hz.1, hsize.1, hu.1, hname.1])
        have hcopy : '\n' ∉ fields [g, R.nameFor g z f, p] :=
          newline_fields (by simp [hg.1, hname.1, hp.1])
        have hF₂ := hF.setShares (l := R.shares g ++ [⟨z, size, u, R.nameFor g z f⟩])
          (e := .append (.shared g) (fields [z, size, u, R.nameFor g z f])) rfl (by
            change F (.shared g) ++ _ = _
            rw [hF.shares, List.map_append]
            rfl)
        have hF₃ := hF₂.setCopies (l := R.copies u ++ [⟨g, R.nameFor g z f, p⟩])
          (e := .append (.files u) (fields [g, R.nameFor g z f, p])) rfl (by
            change F (.files u) ++ _ = _
            rw [hF.copies, List.map_append]
            rfl)
        rw [hupload] at hsound ⊢
        refine ends_lock (h₁.append (k := .shared g) hE.1 hshare
          fun s₂ h₂ => h₂.append (k := .files u) hE.2 hcopy
          fun s₃ h₃ => ends_unlock (h₃.sync (k := .shared g) (by simp)
          fun s₄ h₄ => h₄.sync (k := .files u) (by simp)
          fun s₅ h₅ => ⟨rfl, h₅.represents hsound hF₃ { hm₁ with } fun k hk => ?_⟩))
        exact Or.inr (Or.inr (hP k hk))
  · have hupload : R.uploadFile z size g u f p = (.done false, R) := by
      simp [Registry.uploadFile, hin]
    rw [hupload]
    rw [if_pos (by simpa [hmember] using hin)]
    exact ⟨rfl, hrep⟩

lemma groupStopShare_ends (h : s.tracker.Represents sha256 E R) {g u : Str} (f : Str)
    (hE : E.group g ∧ E.user u) : (groupStopShare g f u).Ends callInterp s fun b s' =>
      s'.Shows sha256 E (R.stopShare g f u) (flag b) := by
  have hsound := h.sound.stopShare g f u
  have hm : R.Cached s.memory := h.cached
  obtain ⟨F, P, hat, hF, hP⟩ := h.at
  rw [groupStopShare]
  refine hat.tables ?_
  by_cases hknown : R.owner g ≠ none ∧ R.account u ≠ none
  · rw [if_neg (by simpa [hm.groups, hm.accounts, not_or] using hknown)]
    refine hat.fetchGroupMembers hE.1 fun s₁ us hus h₁ => h₁.tables ?_
    have hmember : u ∈ us ↔ u ∈ R.members g := (hus u).trans ((hF (.members g)).mem_iff u)
    have hm₁ : R.Cached { s.memory with groupMembers := us } := { hm with }
    by_cases hin : u ∈ R.members g
    · have hstop : R.stopShare g f u = (.done true, { R with
          shares := Function.update R.shares g
            ((R.shares g).filter fun s => ¬ (s.name = f ∧ s.user = u))
          copies := Function.update R.copies u
            ((R.copies u).filter fun c => ¬ (c.group = g ∧ c.name = f)) }) := by
        rw [Registry.stopShare, if_pos ⟨hknown.1, hknown.2, hin⟩]
      have hF₂ := hF.setShares (l := (R.shares g).filter fun s => ¬ (s.name = f ∧ s.user = u))
        (e := .drop (.shared g) fun l =>
          andThen (fieldIs 3 f) (fieldIs 2 u) (split l ' ') == some true) rfl (by
          change (F (.shared g)).filter (fun l => !(andThen _ _ _ == some true)) = _
          rw [hF.shares, filter_map_line (p := fun a => decide (a.name = f ∧ a.user = u))]
          · simp
          · intro a ha
            rw [h.sound.split_share ha, andThen_fieldIs rfl rfl]
            simp)
      have hF₃ := hF₂.setCopies (l := (R.copies u).filter fun c => ¬ (c.group = g ∧ c.name = f))
        (e := .drop (.files u) fun l =>
          andThen (fieldIs 0 g) (fieldIs 1 f) (split l ' ') == some true) rfl (by
          change (F (.files u)).filter (fun l => !(andThen _ _ _ == some true)) = _
          rw [hF.copies, filter_map_line (p := fun c => decide (c.group = g ∧ c.name = f))]
          · simp
          · intro c hc
            rw [h.sound.split_location hc, andThen_fieldIs rfl rfl]
            simp)
      rw [hstop] at hsound ⊢
      rw [if_neg (by simpa [hmember] using hin)]
      refine ends_lock (h₁.rewrite (k := .shared g) hE.1 ?_
        fun s₂ h₂ => h₂.rewrite (k := .files u) hE.2 ?_
        fun s₃ h₃ => ends_unlock (h₃.sync (k := .shared g) (by simp)
        fun s₄ h₄ => h₄.sync (k := .files u) (by simp)
        fun s₅ h₅ => ⟨rfl, h₅.represents hsound hF₃ { hm₁ with } fun k hk => ?_⟩))
      · intro l hl
        rw [hF.shares] at hl
        obtain ⟨a, ha, rfl⟩ := List.mem_map.mp hl
        rw [h.sound.split_share ha, andThen_fieldIs rfl rfl]
        exact Option.some_ne_none _
      · intro l hl
        change l ∈ F (.files u) at hl
        rw [hF.copies] at hl
        obtain ⟨c, hc, rfl⟩ := List.mem_map.mp hl
        rw [h.sound.split_location hc, andThen_fieldIs rfl rfl]
        exact Option.some_ne_none _
      · exact Or.inr (Or.inr (hP k hk))
    · have hstop : R.stopShare g f u = (.done false, R) := by
        simp [Registry.stopShare, hin]
      rw [hstop]
      rw [if_pos (by simpa [hmember] using hin)]
      exact ⟨rfl, h₁.represents h.sound hF hm₁ hP⟩
  · have hstop : R.stopShare g f u = (.done false, R) := by
      rw [Registry.stopShare, if_neg fun hall => hknown ⟨hall.1, hall.2.1⟩]
    rw [hstop]
    rw [if_pos (by
      rw [hm.groups, hm.accounts]
      by_contra hnot
      exact hknown (by simpa only [not_or] using hnot))]
    exact ⟨rfl, h⟩

/-! ### Queries of downloading peers -/

lemma lookup_map_share (ss : List (Share Str)) (f : Str) :
    (ss.map fun a => (a.name, a.hash)).lookup f = (ss.find? (·.name = f)).map (·.hash) := by
  induction ss with
  | nil => rfl
  | cons a ss ih =>
    rw [List.map_cons, lookup_cons_ite, List.find?_cons, ih]
    by_cases hf : a.name = f
    · simp [hf]
    · simp [hf, Ne.symm hf]

lemma sendSHA_ends (h : s.tracker.Represents sha256 E R) {g f u : Str}
    (hE : E.group g ∧ E.user u) (hg : IsToken g) (hf : IsToken f) :
    (sendSHA g f u).Ends callInterp s fun data s' =>
      s'.Shows sha256 E (R.giveSha g f u) (some data) := by
  have hsound := h.sound.giveSha (u := u) hg hf
  have hline : '\n' ∉ fields [g, f] := newline_fields (by simp [hg.1, hf.1])
  obtain ⟨F, P, hat, hF, -⟩ := h.at
  rw [sendSHA]
  refine hat.reload h.sound hF fun s₁ m h₁ hm => h₁.tables ?_
  rw [hm.groups]
  cases howner : R.owner g with
  | none =>
    have hgive : R.giveSha g f u = (.word none, R.refresh) := by simp [Registry.giveSha, howner]
    rw [hgive]
    rw [show R.refresh.owner g = none from howner]
    exact ⟨rfl, h₁.represents h.sound.refresh hF.refresh hm.toCached fun _ _ => Or.inl rfl⟩
  | some o =>
    rw [show R.refresh.owner g = some o from howner]
    refine h₁.fetchGroupMembers hE.1 fun s₂ us hus h₂ => h₂.tables ?_
    have hmember : u ∈ us ↔ u ∈ R.members g := (hus u).trans ((hF (.members g)).mem_iff u)
    have hm₂ : R.refresh.Cached { m with groupMembers := us } := { hm.toCached with }
    by_cases hin : u ∈ R.members g
    · have hgive : R.giveSha g f u = (.word (((R.shares g).find? (·.name = f)).map (·.hash)),
          { R.refresh with downloading :=
              Function.update R.downloading u (R.downloading u ++ [(g, f)]) }) := by
        simp [Registry.giveSha, howner, hin]
      have hF₃ := hF.refresh.setDownloading (l := R.downloading u ++ [(g, f)])
        (e := .append (.downloading u) (fields [g, f])) rfl (by
          change F (.downloading u) ++ _ = _
          rw [show F (.downloading u) = (R.downloading u).map pairLine from hF (.downloading u),
            List.map_append]
          rfl)
      have hrecords : (F (.shared g)).mapM (fun l => (split l ' ')[3]?.bind fun name =>
          (split l ' ')[0]?.map fun hash => (name, hash)) =
            some ((R.shares g).map fun a => (a.name, a.hash)) := by
        rw [hF.shares]
        exact mapM_map_line fun a ha => by rw [h.sound.split_share ha]; rfl
      rw [hgive] at hsound ⊢
      rw [if_neg (by simpa [hmember] using hin)]
      refine ends_lock (h₂.read (k := .shared g) hE.1 fun c hc => ?_)
      refine ends_checked (by rw [hc]; exact hrecords) (h₂.append (k := .downloading u) hE.2 hline
        fun s₃ h₃ => ends_unlock (h₃.sync (k := .downloading u) (by simp)
        fun s₄ h₄ => ⟨?_, h₄.represents hsound hF₃ { hm₂ with } fun _ _ =>
          Or.inr (Or.inl rfl)⟩))
      rw [lookup_map_share]
      rfl
    · have hgive : R.giveSha g f u = (.word none, R.refresh) := by
        simp [Registry.giveSha, hin]
      rw [hgive]
      rw [if_pos (by simpa [hmember] using hin)]
      exact ⟨rfl, h₂.represents h.sound.refresh hF.refresh hm₂ fun _ _ => Or.inl rfl⟩

lemma sendSeeders_ends (h : s.tracker.Represents sha256 E R) {g : Str} (f : Str)
    (hE : E.group g) : (sendSeeders g f).Ends callInterp s fun data s' =>
      s'.Shows sha256 E (R.giveSeeders g f) (some data) := by
  obtain ⟨F, P, hat, hF, -⟩ := h.at
  have hrecords : (F (.shared g)).mapM recordFields =
      some ((R.shares g).map fun a => (a.name, a.size, a.user)) := by
    rw [hF.shares]
    exact mapM_map_line fun a ha => by rw [recordFields, h.sound.split_share ha]; rfl
  rw [sendSeeders]
  refine hat.reload h.sound hF fun s₁ m h₁ hm => ends_lock (h₁.read (k := .shared g) hE
    fun c hc => h₁.tables (ends_checked (by rw [hc]; exact hrecords) (ends_unlock ?_)))
  refine ⟨?_, h₁.represents h.sound.refresh hF.refresh hm.toCached fun _ _ => Or.inl rfl⟩
  generalize hrs : (R.shares g).map (fun a => (a.name, a.size, a.user)) = rs
  change (R.giveSeeders g f).1.Tells (some (seedersReply m.online f rs))
  have hsize : (rs.filter (·.1 = f)).getLast?.map (·.2.1) =
      ((R.shares g).filter (·.name = f)).getLast?.map (·.size) := by
    rw [← hrs, List.filter_map, List.getLast?_map, Option.map_map]
    rfl
  refine ⟨seedersOf m.online f rs, pairwise_foldl_setInsert_map _ _ List.Pairwise.nil,
    fun v => ?_, ?_⟩
  · rw [seedersOf, mem_foldl_setInsert_map fun r : Str × Str × Str => r.2.2, ← hrs]
    simp only [List.mem_filter, List.mem_map, decide_eq_true_eq, List.not_mem_nil, or_false,
      Set.mem_ofPred_eq, Registry.Sharing, hm.online]
    constructor
    · rintro ⟨r, ⟨⟨⟨a, ha, rfl⟩, hname⟩, honline⟩, rfl⟩
      exact ⟨honline, a, ha, rfl, hname⟩
    · rintro ⟨honline, a, ha, rfl, hname⟩
      exact ⟨_, ⟨⟨⟨a, ha, rfl⟩, hname⟩, honline⟩, rfl⟩
  · split_ifs with hnone
    · rw [seedersReply_eq_nil.mpr hnone]
    · rw [seedersReply_eq hnone, hsize]

lemma sendDetails_ends (h : s.tracker.Represents sha256 E R) (u : Str) :
    (sendDetails u).Ends callInterp s fun data s' =>
      s'.Shows sha256 E (R.giveDetails u) (some data) := by
  obtain ⟨F, P, hat, hF, -⟩ := h.at
  rw [sendDetails]
  refine hat.reload h.sound hF fun s₁ m h₁ hm => h₁.tables (h₁.modify fun s₂ h₂ => ⟨?_, ?_⟩)
  · rw [hm.addresses]
    rfl
  · exact h₂.represents h.sound.refresh hF.refresh { hm.toCached with } fun _ _ => Or.inl rfl

lemma getFullPath_ends (h : s.tracker.Represents sha256 E R) {u : Str} (g f : Str)
    (hE : E.user u) : (getFullPath u g f).Ends callInterp s fun data s' =>
      s'.Shows sha256 E (R.sendFullPath u g f) (some data) := by
  obtain ⟨F, P, hat, hF, hP⟩ := h.at
  rw [getFullPath]
  refine hat.read (k := .files u) hE fun c hc => ?_
  refine ends_checked (by rw [hc, h.sound.find_location hF fun a => andThen_fieldIs rfl rfl])
    (Prog.Ends.of_bind_pure (ends_checked
      (b := (((R.copies u).find? fun c => c.group = g ∧ c.name = f).map (·.path)).getD []) ?_ ?_))
  · cases (R.copies u).find? fun c => c.group = g ∧ c.name = f with
    | none => rfl
    | some c => rfl
  · exact ⟨rfl, hat.represents h.sound hF h.cached hP⟩

/-! ### Downloads -/

lemma updateDownload_ends (h : s.tracker.Represents sha256 E R) {g f p u : Str}
    (hE : E.group g ∧ E.user u) (hg : IsToken g) (hf : IsToken f) (hp : IsToken p)
    (hu : IsToken u) : (updateDownload g f p u).Ends callInterp s fun _ s' =>
      s'.Shows sha256 E (R.addFile [] g f p u) none := by
  have hsound := h.sound.addFile hg hf hp hu
  obtain ⟨F, P, hat, hF, -⟩ := h.at
  rw [updateDownload]
  refine hat.reload h.sound hF fun s₁ m h₁ hm => h₁.read (k := .shared g) hE.1 fun c hc => ?_
  refine ends_checked (by rw [hc, h.sound.find_share hF fun a => by rfl]) ?_
  generalize hfound : (R.shares g).find? (fun a => decide (a.name = f)) = found
  refine ends_checked (b := (found.map (·.hash)).getD []) (by cases found <;> rfl) ?_
  refine ends_checked (b := (found.map (·.size)).getD []) (by cases found <;> rfl) ?_
  refine h₁.read (k := .files u) hE.2 fun c hc' => ?_
  refine ends_checked (by rw [hc', h.sound.find_location hF fun a => by rfl]) ?_
  by_cases hlisted : ∃ c ∈ R.copies u, c.name = f
  · have hadd : R.addFile [] g f p u = (.silent, R.refresh) := by
      rw [Registry.addFile, if_pos hlisted]
    rw [hadd]
    rw [if_pos (by simpa [List.find?_isSome] using hlisted)]
    exact Prog.Ends.of_bind_pure (ends_unlock
      ⟨rfl, h₁.represents h.sound.refresh hF.refresh hm.toCached fun _ _ => Or.inl rfl⟩)
  · have hadd : R.addFile [] g f p u = (.silent, { R.refresh with
        copies := Function.update R.copies u (R.copies u ++ [⟨g, f, p⟩])
        shares := Function.update R.shares g (R.shares g ++
          [⟨(found.map (·.hash)).getD [], (found.map (·.size)).getD [], u, f⟩]) }) := by
      rw [Registry.addFile, if_neg hlisted, ← hfound]
    have hwords : IsWord ((found.map (·.hash)).getD []) ∧
        IsWord ((found.map (·.size)).getD []) := by
      cases found with
      | none => exact ⟨isWord_nil, isWord_nil⟩
      | some a =>
        obtain ⟨hhash, hsize, -⟩ := h.sound.shares g a (List.mem_of_find?_eq_some hfound)
        exact ⟨hhash, hsize⟩
    have hcopy : '\n' ∉ fields [g, f, p] := newline_fields (by simp [hg.1, hf.1, hp.1])
    have hshare : '\n' ∉
        fields [(found.map (·.hash)).getD [], (found.map (·.size)).getD [], u, f] :=
      newline_fields (by simp [hwords.1, hwords.2, hu.1, hf.1])
    have hF₂ := hF.refresh.setCopies (l := R.copies u ++ [⟨g, f, p⟩])
      (e := .append (.files u) (fields [g, f, p])) rfl (by
        change F (.files u) ++ _ = _
        rw [hF.copies, List.map_append]
        rfl)
    have hF₃ := hF₂.setShares (l := R.shares g ++
        [⟨(found.map (·.hash)).getD [], (found.map (·.size)).getD [], u, f⟩])
      (e := .append (.shared g)
        (fields [(found.map (·.hash)).getD [], (found.map (·.size)).getD [], u, f])) rfl (by
        change F (.shared g) ++ _ = _
        rw [hF.shares, List.map_append]
        rfl)
    rw [hadd] at hsound ⊢
    rw [if_neg (by simpa [List.find?_isSome] using hlisted)]
    refine h₁.append (k := .files u) hE.2 hcopy
      fun s₂ h₂ => h₂.append (k := .shared g) hE.1 hshare
      fun s₃ h₃ => h₃.sync (k := .shared g) (by simp)
      fun s₄ h₄ => Prog.Ends.of_bind_pure (h₄.sync (k := .files u) (by simp)
      fun s₅ h₅ => ⟨rfl, h₅.represents hsound hF₃ { hm.toCached with } fun _ _ => ?_⟩)
    exact Or.inr (Or.inr (Or.inl rfl))

lemma completeDownload_ends (h : s.tracker.Represents sha256 E R) {g f u : Str} (hE : E.user u)
    (hg : IsToken g) (hf : IsToken f) : (completeDownload g f u).Ends callInterp s fun _ s' =>
      s'.Shows sha256 E (R.complete g f u) none := by
  have hsound := h.sound.complete u hg hf
  have hline : '\n' ∉ fields [g, f] := newline_fields (by simp [hg.1, hf.1])
  obtain ⟨F, P, hat, hF, -⟩ := h.at
  have hrunning : F (.downloading u) = (R.downloading u).map pairLine := hF (.downloading u)
  have hfinished : F (.downloaded u) = (R.downloaded u).map pairLine := hF (.downloaded u)
  rw [completeDownload]
  refine hat.reload h.sound hF fun s₁ m h₁ hm => ?_
  have hF₂ := hF.refresh.setDownloading (l := (R.downloading u).filter (· ≠ (g, f)))
    (e := .drop (.downloading u) fun l => some (decide (l = fields [g, f])) == some true) rfl (by
      change (F (.downloading u)).filter (fun l => !(some _ == some true)) = _
      rw [hrunning, filter_map_line (p := fun x => decide (x = (g, f)))]
      · simp
      · intro x hx
        have hpair : pairLine x = fields [g, f] ↔ x = (g, f) := pairLine_inj (q := (g, f)) ⟨hg, hf⟩
        simp [hpair])
  have hF₃ := hF₂.setDownloaded (l := R.downloaded u ++ [(g, f)])
    (e := .append (.downloaded u) (fields [g, f])) rfl (by
      change F (.downloaded u) ++ _ = _
      rw [hfinished, List.map_append]
      rfl)
  refine h₁.deleteWholeLine (k := .downloading u) hE
    fun s₂ h₂ => h₂.append (k := .downloaded u) hE hline
    fun s₃ h₃ => h₃.sync (k := .downloaded u) (by simp)
    fun s₄ h₄ => Prog.Ends.of_bind_pure (h₄.sync (k := .downloading u) (by simp)
    fun s₅ h₅ => ⟨rfl, h₅.represents hsound hF₃ { hm.toCached with } fun _ _ => ?_⟩)
  exact Or.inr (Or.inr (Or.inl rfl))

lemma showDownloads_ends (h : s.tracker.Represents sha256 E R) {u : Str} (hE : E.user u) :
    (showDownloads u).Ends callInterp s fun data s' =>
      s'.Shows sha256 E (R.showDownloads u) (some data) := by
  obtain ⟨F, P, hat, hF, -⟩ := h.at
  rw [showDownloads]
  refine hat.reload h.sound hF fun s₁ m h₁ hm => ends_lock (h₁.read (k := .downloading u) hE
    fun c hc => h₁.read (k := .downloaded u) hE fun c' hc' => ends_unlock ⟨?_, ?_⟩)
  · rw [hc, hc', show F (.downloading u) = (R.downloading u).map pairLine from hF (.downloading u),
      show F (.downloaded u) = (R.downloaded u).map pairLine from hF (.downloaded u),
      List.flatMap_map, List.flatMap_map]
    rfl
  · exact h₁.represents h.sound.refresh hF.refresh hm.toCached fun _ _ => Or.inl rfl

end Handlers

end TorrentShare
