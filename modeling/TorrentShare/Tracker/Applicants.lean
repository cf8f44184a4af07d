import TorrentShare.Tracker.Seeders

/-!
# Members and applicants

`join_group` puts a request on file for somebody who is no member, and `accept_request` takes it
off again when it makes the user one.
-/

namespace TorrentShare

open Program

/-! ### What commands do to requests and members -/

section Step

variable {sha256 : Str → List (Fin 256)} {salt : Str} {t t' : Tracker} {c : Command}
  {reply : Reply} {es : List (Edit Path Str)}

/-- A request was there before, or `join_group` puts it in. -/
lemma Tracker.Step.of_mem_pending (h : t.Step sha256 salt c reply es t') {l : Str}
    (hl : l ∈ t'.disk.lines pendingFile) :
    l ∈ t.disk.lines pendingFile ∨ ∃ g u, c = .joinGroup g u ∧ l = fields [u, g] ∧
      t.memory.groups.lookup g ≠ none ∧ u ∉ t.disk.lines (membersFile g) := by
  rcases h.edited.of_mem hl with ⟨e, he, hk, hadd⟩ | ⟨hold, -⟩
  · right
    have hother : (∀ e ∈ es, kindOf e.key = .pending → e.added = []) → False := by
      intro hnone
      rw [hnone e he (by rw [hk]; exact kindOf_pendingFile)] at hadd
      cases hadd
    cases h.effect with
    | joinGroup g u hgroup hmember =>
      simp only [List.mem_cons, List.not_mem_nil, or_false] at he
      subst he
      rw [addLine_added, List.mem_singleton] at hadd
      exact ⟨g, u, rfl, hadd, hgroup, hmember⟩
    | _ =>
      refine (hother ?_).elim
      simp
  · exact Or.inl hold

/-- A new member has founded a group with this members file, or has been accepted, and then the
    request is gone. -/
lemma Tracker.Step.new_member (h : t.Step sha256 salt c reply es t') {k u : Str}
    (hblank : ' ' ∉ u) (hu : u ∈ t'.disk.lines (membersFile k))
    (hnew : u ∉ t.disk.lines (membersFile k)) :
    (∃ g, c = .createGroup g u ∧ t.disk.owner g = none ∧
        cStr (membersFile g) = cStr (membersFile k)) ∨
      ∃ g a, c = .acceptRequest g u a ∧ cStr (membersFile g) = cStr (membersFile k) ∧
        fields [u, g] ∉ t'.disk.lines pendingFile := by
  rcases h.edited.of_mem hu with ⟨e, he, hk, hadd⟩ | ⟨hold, -⟩
  · have hkind : kindOf e.key = .ofGroup := by
      rw [hk]
      exact kindOf_membersFile k
    have hother : (∀ e ∈ es, kindOf e.key = .ofGroup → u ∉ e.added) → False :=
      fun hnone => hnone e he hkind hadd
    -- the lines of uploads and downloads have blanks
    have hrecord : ∀ h s v f, u ≠ fields [h, s, v, f] := by
      rintro h s v f rfl
      simp [fields, List.intercalate] at hblank
    cases h.effect with
    | createGroup g v hfresh =>
      left
      simp only [List.mem_cons, List.not_mem_nil, or_false] at he
      rcases he with rfl | rfl | rfl
      · simp at hkind
      · rw [setLines_added, List.mem_singleton] at hadd
        subst hadd
        exact ⟨g, rfl, hfresh, hk⟩
      · simp at hadd
    | acceptRequest g v a hgroup hmember =>
      right
      simp only [List.mem_cons, List.not_mem_nil, or_false] at he
      rcases he with rfl | rfl
      · rw [addLine_added, List.mem_singleton] at hadd
        subst hadd
        refine ⟨g, a, rfl, hk, fun hpending => ?_⟩
        rcases h.edited.of_mem hpending with ⟨e, he, hk, hadd⟩ | ⟨-, hkeeps⟩
        · simp only [List.mem_cons, List.not_mem_nil, or_false] at he
          rcases he with rfl | rfl
          · exact absurd (congrArg kindOf hk) (by simp)
          · simp at hadd
        · have hkept := hkeeps (dropLines pendingFile (· == fields [u, g])) (by simp) rfl
          simp at hkept
      · simp at hadd
    | uploadFile =>
      refine (hother ?_).elim
      simp [hrecord]
    | addFile =>
      refine (hother ?_).elim
      simp [hrecord]
    | _ =>
      refine (hother ?_).elim
      simp
  · exact absurd hold hnew

end Step

/-! ### No member applies -/

/-- The step does not make somebody a member who applies to another group with the same members
    file. -/
def AppliesNowhereElse (t : Tracker) : Command → Prop
  | .createGroup g u =>
    t.disk.owner g = none → ∀ k, t.disk.owner k ≠ none →
      cStr (membersFile g) = cStr (membersFile k) → fields [u, k] ∉ t.disk.lines pendingFile
  | .acceptRequest g u _ =>
    ∀ k, t.disk.owner k ≠ none →
      k ≠ g ∧ cStr (membersFile g) = cStr (membersFile k) →
        fields [u, k] ∉ t.disk.lines pendingFile
  | _ => True

instance (t : Tracker) (c : Command) : Decidable (AppliesNowhereElse t c) :=
  match c with
  | .createGroup .. => inferInstanceAs (Decidable (_ → _))
  | .acceptRequest .. => inferInstanceAs (Decidable (∀ _ : Str, _ → _))
  | .login .. | .createUser .. | .listGroups | .joinGroup .. | .listRequests ..
  | .uploadFile .. | .listFiles .. | .stopShare .. | .leaveGroup .. | .logout ..
  | .giveSha .. | .giveSeeders .. | .giveDetails .. | .sendFullPath .. | .addFile ..
  | .complete .. | .showDownloads .. => isTrue trivial

/-- Requests are to join groups that are there, by users who are no members. -/
structure Disk.Applicants (d : Disk) : Prop where
  pending : ∀ l ∈ d.lines pendingFile, ∃ u g, ' ' ∉ u ∧ ' ' ∉ g ∧ l = fields [u, g] ∧
    d.owner g ≠ none
  outside : ∀ u g, fields [u, g] ∈ d.lines pendingFile → u ∉ d.lines (membersFile g)

section Runs

variable {sha256 : Str → List (Fin 256)} {salt : Str} {t t' : Tracker} {c : Command}
  {reply : Reply} {es : List (Edit Path Str)} {history : List (Command × Reply)}

/-- A request names a user and a group that is there. -/
lemma Disk.Applicants.of_pending {d : Disk} (h : d.Applicants) {u g : Str}
    (hpending : fields [u, g] ∈ d.lines pendingFile) : ' ' ∉ u ∧ d.owner g ≠ none := by
  obtain ⟨u', g', hu', hg', heq, howner⟩ := h.pending _ hpending
  obtain ⟨rfl, rfl⟩ := fields_pair_inj hu' hg' heq
  exact ⟨hu', howner⟩

/-- The step lemma. -/
lemma Tracker.Step.applicants (ht : t.Regular) (h : t.Step sha256 salt c reply es t')
    (hc : AppliesNowhereElse t c) (hold : t.disk.Applicants) : t'.disk.Applicants := by
  constructor
  · intro l hl
    rcases h.of_mem_pending hl with hbefore | ⟨g, u, rfl, rfl, hgroup, -⟩
    · obtain ⟨u, g, hu, hg, heq, howner⟩ := hold.pending l hbefore
      exact ⟨u, g, hu, hg, heq, h.owner_ne_none_of howner⟩
    · refine ⟨u, g, (h.words u (by simp [Command.args])).blank,
        (h.words g (by simp [Command.args])).blank, rfl, ?_⟩
      exact h.owner_ne_none_of (ht.exists_of_cached hgroup)
  · intro u g hpending hmember
    rcases h.of_mem_pending hpending with hbefore | ⟨g', u', rfl, heq, hgroup, hout⟩
    · obtain ⟨hblank, howner⟩ := hold.of_pending hbefore
      rcases h.new_member hblank hmember (hold.outside u g hbefore) with
        ⟨g', rfl, hnew, hfile⟩ | ⟨g', a, rfl, hfile, hgone⟩
      · exact hc hnew g howner hfile hbefore
      · by_cases hgg : g = g'
        · subst hgg
          exact hgone hpending
        · exact hc g howner ⟨hgg, hfile⟩ hbefore
    · have hu' := (h.words u' (by simp [Command.args])).blank
      have hg' := (h.words g' (by simp [Command.args])).blank
      obtain ⟨rfl, rfl⟩ := fields_pair_inj hu' hg' heq
      rcases h.of_mem_ofGroup (kindOf_membersFile g) hmember with hbefore | ⟨p, -, hadds⟩
      · exact hout hbefore
      · cases hadds

/-- In runs that make nobody a member who applies to another group with the same members file,
    no member of a group applies to it. -/
theorem no_member_applies (hrun : TrackerRun sha256 AppliesNowhereElse Tracker.initial history t)
    (u g : Str) :
    ¬ (fields [u, g] ∈ t.disk.lines pendingFile ∧ u ∈ t.disk.lines (membersFile g)) := by
  rintro ⟨hpending, hmember⟩
  refine (hrun.invariant (I := fun _ t => t.disk.Applicants) Tracker.initial_regular
    ?_ ?_).2.outside u g hpending hmember
  · constructor
    · intro l hl
      cases hl
    · intro u g hpending
      cases hpending
  · intro _ _ _ _ _ _ _ _ hregular hold hc hstep
    exact hstep.applicants hregular hc hold

end Runs

theorem no_member_applies_requestMessages : ∃ t : Tracker,
    fields ["u".toList, "g".toList] ∈ t.disk.lines pendingFile ∧
      ¬ (fields ["u".toList, "g".toList] ∈ t.disk.lines pendingFile ∧
        "u".toList ∈ t.disk.lines (membersFile "g".toList)) := by
  let messages := ["create_group g o".toList, "join_group g u".toList]
  let process := Tracker.process (fun _ => zerosDigest) []
    (fun t c => decide (AppliesNowhereElse t c)) messages ([], .initial)
  have hprocess : (process.any fun r =>
      decide (fields ["u".toList, "g".toList] ∈ r.2.disk.lines pendingFile)) = true := by
    decide +kernel
  obtain ⟨⟨history, t⟩, hrun, hend⟩ := (Option.any_eq_true _ _).mp hprocess
  rw [decide_eq_true_eq] at hend
  have hrun' := Tracker.process_run (fun _ _ hc => of_decide_eq_true hc) .start hrun
  exact ⟨t, hend, no_member_applies hrun' "u".toList "g".toList⟩

/-- The members file of the second group is that of the first: its name ends at the NUL. -/
def sameFileMessages : List Str :=
  ["create_user u p 9000 ip".toList, "create_group g o".toList,
    "create_group g.txt\x00 b".toList, "join_group g u".toList, "join_group g.txt\x00 u".toList,
    "accept_request g.txt\x00 u b".toList]

/-- The user is accepted by the one group and a member of the other, where the request stays. -/
theorem member_applies : ∃ history t,
    TrackerRun (fun _ => zerosDigest) (fun _ _ => True) Tracker.initial history t ∧
      fields ["u".toList, "g".toList] ∈ t.disk.lines pendingFile ∧
      "u".toList ∈ t.disk.lines (membersFile "g".toList) := by
  let process := Tracker.process (fun _ => zerosDigest) (List.replicate 16 0) (fun _ _ => true)
    sameFileMessages ([], .initial)
  have hprocess : (process.any fun r =>
      decide (fields ["u".toList, "g".toList] ∈ r.2.disk.lines pendingFile) &&
      decide ("u".toList ∈ r.2.disk.lines (membersFile "g".toList))) = true := by
    decide +kernel
  obtain ⟨⟨history, t⟩, hrun, hend⟩ := (Option.any_eq_true _ _).mp hprocess
  rw [Bool.and_eq_true, decide_eq_true_eq, decide_eq_true_eq] at hend
  exact ⟨history, t, Tracker.process_run (fun _ _ _ => trivial) .start hrun, hend⟩

end TorrentShare
