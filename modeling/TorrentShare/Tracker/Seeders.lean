import TorrentShare.Tracker.Sharing

/-!
# Who is listed as a seeder, and for what

Records come into the shared-files file of a group with `upload_file` and with `add_file`. The
first checks the membership of the user and brings the hash and the size, the second does neither.
-/

namespace TorrentShare

open Program

/-! ### Groups with files of their own -/

/-- No two groups have one file of a kind. -/
def Disk.Separate (d : Disk) (file : Str → Path) : Prop :=
  ∀ g k, d.owner g ≠ none → d.owner k ≠ none → cStr (file g) = cStr (file k) → g = k

section Step

variable {sha256 : Str → List (Fin 256)} {salt : Str} {t t' : Tracker} {c : Command}
  {reply : Reply} {es : List (Edit Path Str)}

lemma Tracker.initial_owner (g : Str) : Tracker.initial.disk.owner g = none := rfl

lemma Tracker.Step.separate {file : Str → Path} (h : t.Step sha256 salt c reply es t')
    (hnew : ∀ g u, c = .createGroup g u → t.disk.owner g = none → ∀ k, t.disk.owner k ≠ none →
      cStr (file k) ≠ cStr (file g))
    (hold : t.disk.Separate file) : t'.disk.Separate file := by
  intro g k hg hk hfile
  rcases h.owner_ne_none hg with hg | ⟨u, hc, hg, -⟩
  · rcases h.owner_ne_none hk with hk | ⟨u, hc, hk, -⟩
    · exact hold g k hg hk hfile
    · exact absurd hfile (hnew k u hc hk g hg)
  · rcases h.owner_ne_none hk with hk | ⟨u', hc', -⟩
    · exact absurd hfile.symm (hnew g u hc hg k hk)
    · rw [hc] at hc'
      cases hc'
      rfl

/-- A member stays one, unless the members file is that of a new group or the member leaves. -/
lemma Tracker.Step.member_stays (h : t.Step sha256 salt c reply es t') {k u : Str}
    (hblank : ' ' ∉ u) (hu : u ∈ t.disk.lines (membersFile k)) :
    u ∈ t'.disk.lines (membersFile k) ∨
      (∃ g o, c = .createGroup g o ∧ t.disk.owner g = none ∧
        (cStr (membersFile k) = cStr (membersFile g) ∨
          cStr (membersFile k) = cStr (groupFilesFile g))) ∨
      ∃ g, c = .leaveGroup g u ∧ t.memory.groups.lookup g ≠ none ∧
        cStr (membersFile k) = cStr (membersFile g) ∧
          ∀ l ∈ t'.disk.lines (groupFilesFile g), (split l ' ')[2]? ≠ some u := by
  have hother : (∀ e ∈ es, kindOf e.key = .ofGroup → e.keeps u = true) →
      u ∈ t'.disk.lines (membersFile k) := by
    intro hkeeps
    apply h.edited.mem hu
    intro e he hk
    right
    apply hkeeps e he
    rw [hk]
    exact kindOf_membersFile k
  have hedited := h.edited
  cases h.effect with
  | createGroup g o hnew =>
    by_cases hfile : cStr (membersFile k) = cStr (membersFile g) ∨
        cStr (membersFile k) = cStr (groupFilesFile g)
    · exact Or.inr (Or.inl ⟨g, o, rfl, hnew, hfile⟩)
    · left
      rw [not_or] at hfile
      apply hedited.mem hu
      intro e he hk
      simp only [List.mem_cons, List.not_mem_nil, or_false] at he
      rcases he with rfl | rfl | rfl
      · exact absurd (congrArg kindOf hk) (by simp)
      · exact absurd hk.symm hfile.1
      · exact absurd hk.symm hfile.2
  | leaveGroup g v hgroup =>
    by_cases hleft : u = v ∧ cStr (membersFile k) = cStr (membersFile g)
    · obtain ⟨rfl, hfile⟩ := hleft
      refine Or.inr (Or.inr ⟨g, rfl, hgroup, hfile, fun l hl huser => ?_⟩)
      rcases hedited.of_mem hl with ⟨e, he, -, hadd⟩ | ⟨-, hkeeps⟩
      · simp only [List.mem_cons, List.not_mem_nil, or_false] at he
        rcases he with rfl | rfl | rfl
        · simp at hadd
        · simp at hadd
        · simp at hadd
      · have hkept := hkeeps (dropLines (groupFilesFile g) (hasField 2 u)) (by simp) rfl
        rw [dropLines_keeps, hasField_iff.mpr huser] at hkept
        cases hkept
    · left
      apply hedited.mem hu
      intro e he hk
      right
      simp only [List.mem_cons, List.not_mem_nil, or_false] at he
      rcases he with rfl | rfl | rfl
      · have huv : u ≠ v := fun huv => hleft ⟨huv, hk.symm⟩
        simp [hasField, split_word hblank, fieldIs, huv]
      · simp [hasField, split_word hblank, fieldIs]
      · exact absurd (congrArg kindOf hk) (by simp)
  | stopShare g f v hgroup =>
    left
    apply hother
    simp [hasField, split_word hblank, fieldIs]
  | _ =>
    left
    apply hother
    simp

/-- A line added to a shared-files file, if it is a record, comes with an upload or a download. -/
lemma Tracker.Adds.sharer {p : Path} {l hash size u f : Str} (hwords : ∀ w ∈ c.args, IsWord w)
    (h : t.Adds c reply p l) (hrecord : IsRecord l hash size u f) :
    (∃ g f' path, c = .uploadFile hash size g u f' path ∧ reply = some ['1'] ∧
        p = groupFilesFile g ∧ t.memory.groups.lookup g ≠ none ∧
        u ∈ t.disk.lines (membersFile g) ∧
        f = storedName hash f' (t.disk.lines (groupFilesFile g))) ∨
      ∃ g path, c = .addFile g f path u ∧ p = groupFilesFile g ∧
        (∀ l ∈ t.disk.lines (userFilesFile u), (split l ' ')[1]? ≠ some f) ∧
        hash = fieldOr (recordOf 3 f (t.disk.lines (groupFilesFile g))) 0 ∧
        size = fieldOr (recordOf 3 f (t.disk.lines (groupFilesFile g))) 1 := by
  have hword : ' ' ∉ l → False := by
    intro hl
    rw [IsRecord, split_word hl] at hrecord
    cases hrecord
  cases h with
  | founder g l => exact (hword (hwords l (by simp [Command.args])).blank).elim
  | accepted g l => exact (hword (hwords l (by simp [Command.args])).blank).elim
  | upload hash' size' g u' f' path hgroup hmember =>
    left
    have hnew := isRecord_fields (hwords hash' (by simp [Command.args])).blank
      (hwords size' (by simp [Command.args])).blank (hwords u' (by simp [Command.args])).blank
      (blank_storedName (h := hash') (hwords f' (by simp [Command.args])).blank
        (t.disk.lines (groupFilesFile g)))
    rw [IsRecord, hnew] at hrecord
    cases hrecord
    exact ⟨g, f', path, rfl, rfl, rfl, hgroup, hmember, rfl⟩
  | download g f' path u' hlisted =>
    right
    have hnew := isRecord_fields (blank_fieldOr (t.disk.lines (groupFilesFile g)) 3 0 f')
      (blank_fieldOr (t.disk.lines (groupFilesFile g)) 3 1 f')
      (hwords u' (by simp [Command.args])).blank (hwords f' (by simp [Command.args])).blank
    rw [IsRecord, hnew] at hrecord
    cases hrecord
    exact ⟨g, path, rfl, rfl, hlisted, rfl, rfl⟩

end Step

/-! ### Seeders are members -/

/-- The step does not list somebody who is no member, by `add_file` or because two groups get
    one file. -/
def SharersBelong (t : Tracker) : Command → Prop
  | .addFile g f _ u =>
    (∀ l ∈ t.disk.lines (userFilesFile u), (split l ' ')[1]? ≠ some f) →
      ∀ k, t.disk.owner k ≠ none → cStr (groupFilesFile k) = cStr (groupFilesFile g) →
        u ∈ t.disk.lines (membersFile k)
  | .createGroup g _ =>
    t.disk.owner g = none → ∀ k, t.disk.owner k ≠ none →
      cStr (membersFile k) ≠ cStr (membersFile g) ∧
        cStr (membersFile k) ≠ cStr (groupFilesFile g) ∧
          cStr (groupFilesFile k) ≠ cStr (groupFilesFile g)
  | _ => True

instance (t : Tracker) (c : Command) : Decidable (SharersBelong t c) :=
  match c with
  | .addFile .. | .createGroup .. => inferInstanceAs (Decidable (_ → _))
  | .login .. | .createUser .. | .listGroups | .joinGroup .. | .listRequests ..
  | .acceptRequest .. | .uploadFile .. | .listFiles .. | .stopShare .. | .leaveGroup ..
  | .logout .. | .giveSha .. | .giveSeeders .. | .giveDetails .. | .sendFullPath ..
  | .complete .. | .showDownloads .. => isTrue trivial

/-- The users in the records of a group are its members. -/
structure Disk.MembersShare (d : Disk) : Prop where
  members : d.Separate membersFile
  shared : d.Separate groupFilesFile
  sharers : ∀ g, d.owner g ≠ none → ∀ l ∈ d.lines (groupFilesFile g), ∀ h s u f,
    IsRecord l h s u f → u ∈ d.lines (membersFile g)

section Runs

variable {sha256 : Str → List (Fin 256)} {salt : Str} {t t' : Tracker} {c : Command}
  {reply : Reply} {es : List (Edit Path Str)} {history : List (Command × Reply)}

/-- There are no records in the file of a new group. -/
lemma Tracker.Step.of_record (h : t.Step sha256 salt c reply es t') {g l hash size u f : Str}
    (hg : t'.disk.owner g ≠ none) (hl : l ∈ t'.disk.lines (groupFilesFile g))
    (hrecord : IsRecord l hash size u f) : t.disk.owner g ≠ none := by
  rcases h.owner_ne_none hg with hg | ⟨o, rfl, hnew, rfl⟩
  · exact hg
  · exfalso
    rcases h.edited.of_mem hl with ⟨e, he, hk, hadd⟩ | ⟨-, hkeeps⟩
    · simp only [List.mem_cons, List.not_mem_nil, or_false] at he
      rcases he with rfl | rfl | rfl
      · exact absurd (congrArg kindOf hk) (by simp)
      · rw [setLines_added, List.mem_singleton] at hadd
        subst hadd
        have hword := split_word (h.words l (by simp [Command.args])).blank
        rw [IsRecord, hword] at hrecord
        cases hrecord
      · simp at hadd
    · have hkept := hkeeps (setLines (groupFilesFile g) []) (by simp) rfl
      cases hkept

/-- The step lemma. -/
lemma Tracker.Step.membersShare (ht : t.Regular) (h : t.Step sha256 salt c reply es t')
    (hc : SharersBelong t c) (hold : t.disk.MembersShare) : t'.disk.MembersShare := by
  refine ⟨h.separate ?_ hold.members, h.separate ?_ hold.shared, ?_⟩
  · rintro g u rfl hnew k hk
    exact (hc hnew k hk).1
  · rintro g u rfl hnew k hk
    exact (hc hnew k hk).2.2
  intro g hg' l hl hash size u f hrecord
  have hg := h.of_record hg' hl hrecord
  -- the user was a member before the command
  have hbefore : u ∈ t.disk.lines (membersFile g) := by
    rcases h.of_mem_ofGroup (kindOf_groupFilesFile g) hl with hrecorded | ⟨p, hp, hadds⟩
    · exact hold.sharers g hg l hrecorded hash size u f hrecord
    · rcases hadds.sharer h.words hrecord with
        ⟨k, f', path, rfl, -, rfl, hk, hmember, -⟩ | ⟨k, path, rfl, rfl, hlisted, -, -⟩
      · rw [hold.shared g k hg (ht.exists_of_cached hk) hp.symm]
        exact hmember
      · exact hc hlisted g hg hp.symm
  have hblank : ' ' ∉ u := delim_not_mem_split (List.mem_of_getElem? hrecord.user)
  rcases h.member_stays hblank hbefore with
    hmember | ⟨k, o, rfl, hnew, hfile⟩ | ⟨k, rfl, hk, hfile, hdropped⟩
  · exact hmember
  · rcases hfile with hfile | hfile
    · exact absurd hfile (hc hnew g hg).1
    · exact absurd hfile (hc hnew g hg).2.1
  · have hgk := hold.members g k hg (ht.exists_of_cached hk) hfile
    subst hgk
    exact absurd hrecord.user (hdropped l hl)

/-- In runs whose steps list members only, every user in a record of a group is a member. -/
theorem only_members_listed {t : Tracker}
    (hrun : TrackerRun sha256 SharersBelong Tracker.initial history t) {g l h s u f : Str}
    (hg : t.disk.owner g ≠ none) (hl : l ∈ t.disk.lines (groupFilesFile g))
    (hrecord : IsRecord l h s u f) : u ∈ t.disk.lines (membersFile g) := by
  refine (hrun.invariant (I := fun _ t => t.disk.MembersShare) Tracker.initial_regular
    ?_ ?_).2.sharers g hg l hl h s u f hrecord
  · constructor
    · intro g k hg
      exact absurd (Tracker.initial_owner g) hg
    · intro g k hg
      exact absurd (Tracker.initial_owner g) hg
    · intro g hg
      exact absurd (Tracker.initial_owner g) hg
  · intro _ _ _ _ _ _ _ _ hregular hold hc hstep
    exact hstep.membersShare hregular hc hold

end Runs

theorem only_members_listed_shareMessages : ∃ t : Tracker,
    "h 1 u f".toList ∈ t.disk.lines (groupFilesFile "g".toList) ∧
      "u".toList ∈ t.disk.lines (membersFile "g".toList) := by
  let messages := ["create_group g u".toList, "upload_file h 1 g u f /f".toList,
    "add_file g e /e u".toList]
  let process := Tracker.process (fun _ => zerosDigest) [] (fun t c => decide (SharersBelong t c))
    messages ([], .initial)
  have hprocess : (process.any fun r => decide (r.2.disk.owner "g".toList ≠ none) &&
      decide ("h 1 u f".toList ∈ r.2.disk.lines (groupFilesFile "g".toList))) = true := by
    decide +kernel
  obtain ⟨⟨history, t⟩, hrun, hend⟩ := (Option.any_eq_true _ _).mp hprocess
  rw [Bool.and_eq_true, decide_eq_true_eq, decide_eq_true_eq] at hend
  have hrun' := Tracker.process_run (fun _ _ hc => of_decide_eq_true hc) .start hrun
  have hrecord : IsRecord "h 1 u f".toList "h".toList "1".toList "u".toList "f".toList :=
    (by decide : split _ ' ' = _)
  exact ⟨t, hend.2, only_members_listed hrun' hend.1 hend.2 hrecord⟩

/-- `u` leaves the group while it downloads the file of `o`. -/
def leaveMessages : List Str :=
  ["create_user u p 9000 ip".toList, "create_group g o".toList,
    "upload_file h 1 g o f /f".toList, "join_group g u".toList, "accept_request g u o".toList,
    "give_sha g f u".toList, "leave_group g u".toList, "add_file g f /d u".toList]

/-- The end of a download lists a user who is no member any more. -/
theorem former_member_listed : ∃ history t,
    TrackerRun (fun _ => zerosDigest) (fun _ _ => True) Tracker.initial history t ∧
      t.disk.owner "g".toList = some "o".toList ∧
      "h 1 u f".toList ∈ t.disk.lines (groupFilesFile "g".toList) ∧
      IsRecord "h 1 u f".toList "h".toList "1".toList "u".toList "f".toList ∧
      "u".toList ∉ t.disk.lines (membersFile "g".toList) := by
  let process := Tracker.process (fun _ => zerosDigest) (List.replicate 16 0) (fun _ _ => true)
    leaveMessages ([], .initial)
  have hprocess : (process.any fun r => decide (r.2.disk.owner "g".toList = some "o".toList) &&
      decide ("h 1 u f".toList ∈ r.2.disk.lines (groupFilesFile "g".toList)) &&
      decide ("u".toList ∉ r.2.disk.lines (membersFile "g".toList))) = true := by
    decide +kernel
  obtain ⟨⟨history, t⟩, hrun, hend⟩ := (Option.any_eq_true _ _).mp hprocess
  simp only [Bool.and_eq_true, decide_eq_true_eq] at hend
  obtain ⟨⟨howner, hlisted⟩, hmember⟩ := hend
  have hrun' := Tracker.process_run (fun _ _ _ => trivial) .start hrun
  exact ⟨history, t, hrun', howner, hlisted, (by decide : split _ ' ' = _), hmember⟩

end TorrentShare
