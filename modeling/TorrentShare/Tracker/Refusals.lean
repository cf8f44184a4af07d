import TorrentShare.Tracker.Queries

/-!
# Refused commands

Nine handlers answer a flag, and none of them has written anything when it answers `0`. `give_sha`
refuses with the empty string, and it writes before it looks for the hash.
-/

namespace TorrentShare

open Program

/-! ### Handlers that answer a flag -/

/-- The calls that write to a file. -/
@[simp] def Call.writes : Call → Bool
  | .prim (.append _ _) => true
  | .prim (.create _ _) => true
  | .prim (.remove _)   => true
  | .prim (.rename _ _) => true
  | .rewrite _ _ _      => true
  | _                   => false

/-- The discipline that allows everything and notes whether something has been written. -/
def written : Discipline callSig Bool where
  allowed _ _ := True
  next o _ w := w || o.writes
  admits _ _ := True

@[simp] lemma written_allowed (o : Call) (w : Bool) : written.allowed o w = True := rfl
@[simp] lemma written_next (o : Call) (a : callAns o) (w : Bool) :
    written.next o a w = (w || o.writes) := rfl
@[simp] lemma written_admits (o : Call) (a : callAns o) : written.admits o a = True := rfl

/-- A handler that has written something does not answer `false`. -/
def RefusesFirst (p : Prog callSig Bool) : Prop :=
  p.Follows written false fun b w => b = false → w = false

/-- A call that does not write changes no text. -/
lemma text_of_not_writes {o : Call} {a : callAns o} {s s' : Session} (ho : o.writes = false)
    (h : callInterp o s = some (a, s')) (q : Path) : s'.disk.text q = s.disk.text q := by
  cases o with
  | prim o =>
    rw [callInterp_prim] at h
    cases o with
    | append p c => cases ho
    | create p c => cases ho
    | remove p => cases ho
    | rename p q => cases ho
    | sync p =>
      obtain ⟨sent, rfl⟩ := primInterp_sync h
      rfl
    | fault => cases h
    | _ => cases h; rfl
  | fetchDetails =>
    rw [callInterp_fetchDetails] at h
    obtain ⟨m, -, heq⟩ := Option.map_eq_some_iff.mp h
    cases heq
    exact s.disk.text_reloaded q
  | fetchGroupMembers g =>
    rw [callInterp_fetchGroupMembers] at h
    cases h
    rfl
  | rewrite mode p drop => cases ho

/-- Such a handler leaves every file as it is when it answers `false`. -/
lemma RefusesFirst.text_of_run {p : Prog callSig Bool} (hp : RefusesFirst p) {s s' : Session}
    (h : p.run callInterp s = some (false, s')) (q : Path) : s'.disk.text q = s.disk.text q := by
  obtain ⟨w, hw, htext⟩ := hp.run
    (R := fun w s₁ => w = false → ∀ q, s₁.disk.text q = s.disk.text q)
    (fun o w s₁ a s₂ _ hs₁ hstep => ⟨trivial, fun hw q => by
      rw [written_next, Bool.or_eq_false_iff] at hw
      rw [text_of_not_writes hw.2 hstep, hs₁ hw.1]⟩)
    (fun _ _ => rfl) h
  exact htext (hw rfl) q

section Handlers

variable (hashPassword : Str → Str → Str)

@[simp] lemma deleteLine_written (p : Path) (d : Str) (i : ℕ) (w : Bool)
    (Q : Unit → Bool → Prop) : (deleteLine p d i).Follows written w Q ↔ Q () true := by
  simp [deleteLine, call, Prog.follows_bind, Unique.forall_iff]

@[simp] lemma deleteWholeLine_written (p : Path) (d : Str) (w : Bool) (Q : Unit → Bool → Prop) :
    (deleteWholeLine p d).Follows written w Q ↔ Q () true := by
  simp [deleteWholeLine, call, Prog.follows_bind, Unique.forall_iff]

lemma userLogin_refusesFirst (u p port ip : Str) :
    RefusesFirst (userLogin hashPassword u p port ip) := by
  simp only [RefusesFirst, userLogin, call, Prog.follows_bind, fetchDetails_follows,
    Prog.follows_call, Prog.follows_ret, written_allowed, true_and]
  intro _ m _
  split
  · simp
  · simp [Prog.follows_ite]

lemma userCreate_refusesFirst (u p port ip : Str) :
    RefusesFirst (userCreate hashPassword u p port ip) := by
  simp only [RefusesFirst, userCreate, call, Prog.follows_bind, fetchDetails_follows,
    Prog.follows_call, Prog.follows_ret, written_allowed, true_and]
  intro _ m _
  split
  · simp
  · simp [Prog.follows_bind]

lemma logout_refusesFirst (u : Str) : RefusesFirst (logout u) := by
  simp [RefusesFirst, logout, call, Prog.follows_bind, Prog.follows_ite]

lemma groupCreate_refusesFirst (g u : Str) : RefusesFirst (groupCreate g u) := by
  simp only [RefusesFirst, groupCreate, call, Prog.follows_bind, fetchDetails_follows,
    Prog.follows_call, Prog.follows_ret, written_allowed, true_and]
  intro _ m _
  split
  · simp
  · simp [Prog.follows_bind]

lemma groupJoin_refusesFirst (g u : Str) : RefusesFirst (groupJoin g u) := by
  simp only [RefusesFirst, groupJoin, call, Prog.follows_bind, Prog.follows_call,
    Prog.follows_ret, written_allowed, true_and]
  intro m _
  split
  · simp
  · simp [Prog.follows_bind, Prog.follows_ite]

lemma groupAcceptRequest_refusesFirst (g u a : Str) : RefusesFirst (groupAcceptRequest g u a) := by
  simp [RefusesFirst, groupAcceptRequest, call, Prog.follows_bind, Prog.follows_ite]

lemma groupLeave_refusesFirst (g u : Str) : RefusesFirst (groupLeave g u) := by
  simp only [RefusesFirst, groupLeave, call, Prog.follows_bind, Prog.follows_call,
    Prog.follows_ret, written_allowed, true_and]
  intro m _
  split
  · simp
  · simp [Prog.follows_bind, Prog.follows_ite]

lemma groupFileUpload_refusesFirst (h size g u f p : Str) :
    RefusesFirst (groupFileUpload h size g u f p) := by
  simp [RefusesFirst, groupFileUpload, call, Prog.follows_bind, Prog.follows_ite, checkGroupFiles,
    getGroupFileName, checkIntegrity]

lemma groupStopShare_refusesFirst (g f u : Str) : RefusesFirst (groupStopShare g f u) := by
  simp [RefusesFirst, groupStopShare, call, Prog.follows_bind, Prog.follows_ite]

end Handlers

/-! ### A request for a hash -/

lemma putlines_getlines (s : Str) :
    Disk.putlines (getlines s) = s ∨ Disk.putlines (getlines s) = s ++ ['\n'] := by
  induction s with
  | nil => exact Or.inl rfl
  | cons c s ih =>
    simp only [getlines]
    split_ifs with hc
    · subst hc
      exact ih.imp (congrArg ('\n' :: ·)) (congrArg ('\n' :: ·))
    · cases hs : getlines s with
      | nil =>
        rw [hs] at ih
        rcases ih with ih | ih
        · right
          rw [← ih]
          rfl
        · simp [Disk.putlines] at ih
      | cons l ls =>
        rw [hs] at ih
        exact ih.imp (congrArg (c :: ·)) (congrArg (c :: ·))

/-- A line that is appended changes the lines, whether it starts a line of its own or not. -/
lemma getlines_append_ne (s : Str) {l : Str} (hl : l ≠ []) :
    getlines (s ++ putline l) ≠ getlines s := by
  intro h
  have hpos := List.length_pos_iff.mpr hl
  have hline : (putline l).length = l.length + 1 := by simp [putline]
  have hbytes : ∀ t, t.length ≤ (Disk.putlines (getlines t)).length ∧
      (Disk.putlines (getlines t)).length ≤ t.length + 1 := by
    intro t
    rcases putlines_getlines t with ht | ht <;> simp [ht]
  have hlong := (hbytes (s ++ putline l)).1
  have hshort := (hbytes s).2
  rw [h, List.length_append, hline] at hlong
  omega

/-- A member who asks for the hash of a name that has none in the group. The group is there, and
    the list of downloads of the user can be opened. -/
def AsksInVain (t : Tracker) : Command → Prop
  | .giveSha g f u =>
    t.disk.owner g ≠ none ∧ u ∈ t.disk.lines (membersFile g) ∧
      fieldOr (recordOf 3 f (t.disk.lines (groupFilesFile g))) 0 = [] ∧
        openable (cStr (downloadingFile u)) = true
  | _ => False

/-- The reply that refuses the command. -/
def Refusal : Command → Reply → Prop
  | .login .., r | .createUser .., r | .createGroup .., r | .joinGroup .., r
  | .acceptRequest .., r | .uploadFile .., r | .stopShare .., r | .leaveGroup .., r
  | .logout .., r  => r = some ['0']
  | .giveSha .., r => r = some []
  | _, _           => False

section Commands

variable {hashPassword : Str → Str → Str} {s s' : Session} {t t' : Tracker} {c : Command}
  {reply : Reply} {online : Bool} {salt : Str} {sent : List (Path × Str)}

/-- A refused flag. -/
lemma RefusesFirst.lines_of_answer {p : Prog callSig Bool} (hp : RefusesFirst p)
    (h : (answer p).run callInterp s = some (some ['0'], s')) (q : Path) :
    s'.disk.lines q = s.disk.lines q := by
  obtain ⟨b, hrun, hb⟩ := run_answer h
  cases b with
  | true => simp [flag] at hb
  | false =>
    rw [Disk.lines, hp.text_of_run hrun]
    rfl

/-- A refused `give_sha` has changed a file just where it has been asked for a name without a hash
    by a member. -/
lemma run_sendSHA_refused {g f u : Str}
    (h : (answerData (sendSHA g f u)).run callInterp s = some (reply, s')) :
    (reply = some [] → ∀ q, s'.disk.lines q = s.disk.lines q) ↔
      ¬ AsksInVain s.tracker (.giveSha g f u) := by
  obtain ⟨hash, hrun, rfl⟩ := run_answerData h
  rcases run_sendSHA_cases hrun with ⟨hnot, -, htext⟩ | ⟨howner, hmember, hhash, htext⟩
  · constructor
    · exact fun _ hvain => hnot ⟨hvain.1, hvain.2.1⟩
    · intro _ _ q
      rw [Disk.lines, htext]
      rfl
  · constructor
    · rintro hsame ⟨-, -, hempty, hopen⟩
      have hlines := hsame (congrArg some (hhash.trans hempty)) (downloadingFile u)
      have hopen' : cStr (downloadingFile u) = cStr (downloadingFile u) ∧
          openable (cStr (downloadingFile u)) = true := ⟨rfl, hopen⟩
      rw [Disk.lines, htext, Disk.text_append, if_pos hopen'] at hlines
      exact getlines_append_ne _ (by simp [fields, List.intercalate]) hlines
    · intro hvain hreply q
      obtain rfl : hash = [] := Option.some.inj hreply
      rw [Disk.lines, htext, Disk.text_append]
      split_ifs with hq
      · exact absurd ⟨howner, hmember, hhash.symm, hq.1 ▸ hq.2⟩ hvain
      · rfl

/-- A refused command leaves the records of every file as they were, unless a member has asked for
    the hash of a name that has none. -/
theorem refused_leaves_records
    (hserve : serve hashPassword t online salt c = some (reply, t', sent)) :
    (Refusal c reply → ∀ p, t'.disk.lines p = t.disk.lines p) ↔ ¬ AsksInVain t c := by
  simp only [serve, Option.map_eq_some_iff, Prod.mk.injEq] at hserve
  obtain ⟨⟨r, s⟩, hrun, rfl, rfl, -⟩ := hserve
  have hflag : ∀ p : Prog callSig Bool, RefusesFirst p → trackerKernel hashPassword c = answer p →
      r = some ['0'] → ∀ q, s.disk.lines q = t.disk.lines q := by
    rintro p hp hc rfl q
    rw [hc] at hrun
    exact hp.lines_of_answer hrun q
  cases c with
  | giveSha g f u => exact run_sendSHA_refused hrun
  | login u p port ip =>
    exact ⟨fun _ => not_false,
      fun _ => hflag _ (userLogin_refusesFirst hashPassword u p port ip) rfl⟩
  | createUser u p port ip =>
    exact ⟨fun _ => not_false,
      fun _ => hflag _ (userCreate_refusesFirst hashPassword u p port ip) rfl⟩
  | createGroup g u =>
    exact ⟨fun _ => not_false, fun _ => hflag _ (groupCreate_refusesFirst g u) rfl⟩
  | joinGroup g u => exact ⟨fun _ => not_false, fun _ => hflag _ (groupJoin_refusesFirst g u) rfl⟩
  | acceptRequest g u a =>
    exact ⟨fun _ => not_false, fun _ => hflag _ (groupAcceptRequest_refusesFirst g u a) rfl⟩
  | uploadFile h z g u f p =>
    exact ⟨fun _ => not_false, fun _ => hflag _ (groupFileUpload_refusesFirst h z g u f p) rfl⟩
  | stopShare g f u =>
    exact ⟨fun _ => not_false, fun _ => hflag _ (groupStopShare_refusesFirst g f u) rfl⟩
  | leaveGroup g u => exact ⟨fun _ => not_false, fun _ => hflag _ (groupLeave_refusesFirst g u) rfl⟩
  | logout u => exact ⟨fun _ => not_false, fun _ => hflag _ (logout_refusesFirst u) rfl⟩
  | _ => exact ⟨fun _ => not_false, fun _ => False.elim⟩

end Commands

theorem refused_leaves_records_logout : ∃ t' sent,
    serve (fun _ p => p) .initial false [] (.logout "u".toList) = some (some ['0'], t', sent) ∧
      ∀ p, t'.disk.lines p = Tracker.initial.disk.lines p := by
  have hserve : ((serve (fun _ p => p) .initial false [] (.logout "u".toList)).any fun r =>
      decide (r.1 = some ['0'])) = true := by
    decide +kernel
  obtain ⟨⟨reply, t', sent⟩, hserve, hreply⟩ := (Option.any_eq_true _ _).mp hserve
  obtain rfl : reply = some ['0'] := of_decide_eq_true hreply
  exact ⟨t', sent, hserve, (refused_leaves_records hserve).mpr id rfl⟩

/-- A member asks for the hash of a file that the group does not have. -/
theorem request_in_vain_recorded : ∃ (history : List (Command × Reply)) (t t' : Tracker),
    TrackerRun (fun _ => zerosDigest) (fun _ _ => True) .initial history t ∧
      t.Handles (fun _ => zerosDigest) (.giveSha "g".toList "x".toList "u".toList) (some []) t' ∧
      ∃ p, t'.disk.lines p ≠ t.disk.lines p := by
  let process := Tracker.process (fun _ => zerosDigest) (List.replicate 16 0) (fun _ _ => true)
    ["create_user u p 1 ip".toList, "create_group g u".toList] ([], .initial)
  let ask (t : Tracker) := serve (hashPassword fun _ => zerosDigest) t false
    (generateSalt (List.replicate 16 0)) (.giveSha "g".toList "x".toList "u".toList)
  have hprocess : (process.any fun r => (ask r.2).any fun r' =>
      decide (r'.1 = some []) &&
        decide (r'.2.1.disk.lines (downloadingFile "u".toList) ≠
          r.2.disk.lines (downloadingFile "u".toList))) = true := by
    decide +kernel
  obtain ⟨⟨history, t⟩, hrun, hend⟩ := (Option.any_eq_true _ _).mp hprocess
  obtain ⟨⟨reply, t', sent⟩, hask, hend⟩ := (Option.any_eq_true _ _).mp hend
  rw [Bool.and_eq_true, decide_eq_true_eq, decide_eq_true_eq] at hend
  obtain rfl : reply = some [] := hend.1
  refine ⟨history, t, t', Tracker.process_run (fun _ _ _ => trivial) .start hrun, ?_, _, hend.2⟩
  exact ⟨⟨"give_sha g x u".toList, rfl⟩, false, List.replicate 16 0, sent, hask⟩

end TorrentShare
