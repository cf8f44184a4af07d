import TorrentShare.Tracker.Host

/-!
# `file_lock`

Which handlers lock and unlock in pairs, and what follows for all interleavings.
-/

namespace TorrentShare

open Program

/-- A record with the file name stands in the file of shared files of the user, so that
    `UpdateDownload` returns early. -/
def alreadyListed (filename : Str) (s : Option Str) : Bool :=
  (findRecord (fieldIs 1 filename) (getlines (s.getD []))).any Option.isSome

/-- What a handler of `c` is to read in the file of shared files: no record that makes it return
    early. -/
def Command.expects (c : Command) (p : Path) (s : Option Str) : Prop :=
  ∀ g f path u, c = .addFile g f path u → p = userFilesFile u → alreadyListed f s = false

/-- Lock when not holding, unlock when holding. -/
@[simp] def Prim.mayLock : Prim → Bool → Prop
  | .lock,   g => g = false
  | .unlock, g => g = true
  | _,       _ => True

/-- Whether a thread holds `file_lock` after an operation. -/
@[simp] def Prim.locking : Prim → Bool → Bool
  | .lock,   _ => true
  | .unlock, _ => false
  | _,       g => g

/-- What a handler of `c` is to get as answers. -/
@[simp] def Command.admits (c : Command) : (o : Prim) → primAns o → Prop
  | .read p, s => c.expects p s
  | _,       _ => True

/-- The same for calls: the functions that lock are called by a thread that does not hold. -/
@[simp] def Call.mayLock : Call → Bool → Prop
  | .prim o,        g => o.mayLock g
  | .rewrite _ _ _, _ => True
  | _,              g => g = false

@[simp] def Call.locking : Call → Bool → Bool
  | .prim o, g => o.locking g
  | _,       g => g

@[simp] def Command.admitsCall (c : Command) : (o : Call) → callAns o → Prop
  | .prim o, a => c.admits o a
  | _,       _ => True

/-- The discipline of locking for the primitive operations of a handler. -/
def pairs (c : Command) : Discipline primSig Bool :=
  ⟨Prim.mayLock, fun o _ => o.locking, c.admits⟩

/-- The discipline of locking for the calls of a handler. -/
def callPairs (c : Command) : Discipline callSig Bool :=
  ⟨Call.mayLock, fun o _ => o.locking, c.admitsCall⟩

section Simp

variable (c : Command) (g : Bool)

@[simp] lemma pairs_allowed (o : Prim) : (pairs c).allowed o g = o.mayLock g := rfl
@[simp] lemma pairs_next (o : Prim) (a : primAns o) : (pairs c).next o a g = o.locking g := rfl
@[simp] lemma pairs_admits (o : Prim) (a : primAns o) : (pairs c).admits o a = c.admits o a := rfl
@[simp] lemma callPairs_allowed (o : Call) : (callPairs c).allowed o g = o.mayLock g := rfl
@[simp] lemma callPairs_next (o : Call) (a : callAns o) :
    (callPairs c).next o a g = o.locking g := rfl
@[simp] lemma callPairs_admits (o : Call) (a : callAns o) :
    (callPairs c).admits o a = c.admitsCall o a := rfl

end Simp

/-! ### The functions under `file_lock` -/

section Bodies

variable {c : Command} {g : Bool}

/-- The operations of `loadDetails` and of a rewrite do not lock. -/
lemma loads_pairs (o : Prim) (h : o.loads) :
    (pairs c).allowed o g ∧ ∀ a, (pairs c).next o a g = g := by
  cases o <;> first | exact ⟨trivial, fun _ => rfl⟩ | exact h.elim

lemma onDisk_pairs (o : Prim) (h : o.onDisk) :
    (pairs c).allowed o g ∧ ∀ a, (pairs c).next o a g = g := by
  cases o <;> first | exact ⟨trivial, fun _ => rfl⟩ | exact h.elim

/-- The bodies keep the discipline of their calls. -/
lemma callBody_pairs (o : Call) (h : (callPairs c).allowed o g) :
    (callBody o).Follows (pairs c) g fun a g' =>
      g' = (callPairs c).next o a g ∧ (callPairs c).admits o a := by
  cases o with
  | prim o => exact ⟨h, fun a ha => ⟨rfl, ha⟩⟩
  | fetchDetails =>
    obtain rfl : g = false := h
    refine ⟨trivial, fun _ _ => ⟨rfl, fun _ _ => ?_⟩⟩
    show (loadDetails >>= fun _ => prim .unlock).Follows (pairs c) true _
    refine (loadDetails_loads.follows loads_pairs).bind fun _ g' hg' => ?_
    exact ⟨hg', fun _ _ => ⟨rfl, trivial⟩⟩
  | fetchGroupMembers group =>
    obtain rfl : g = false := h
    simp [callBody, fetchGroupMembersBody, prim]
  | rewrite mode p drop =>
    exact ((rewriteBody_onDisk mode p drop).follows onDisk_pairs).mono fun _ _ h => ⟨h, trivial⟩

end Bodies

/-! ### The handlers -/

/-- A program that starts and ends without `file_lock` and keeps the discipline in between. -/
def Balanced (c : Command) {α : Type} (p : Prog callSig α) : Prop :=
  p.Follows (callPairs c) false fun _ g => g = false

section Helpers

variable {c : Command} {g : Bool}

@[simp] lemma deleteLine_callPairs (p : Path) (d : Str) (i : ℕ) (Q : Unit → Bool → Prop) :
    (deleteLine p d i).Follows (callPairs c) g Q ↔ g = false ∧ Q () false := by
  simp [deleteLine, call, Prog.follows_bind, Unique.forall_iff]

@[simp] lemma deleteWholeLine_callPairs (p : Path) (d : Str) (Q : Unit → Bool → Prop) :
    (deleteWholeLine p d).Follows (callPairs c) g Q ↔ g = false ∧ Q () false := by
  simp [deleteWholeLine, call, Prog.follows_bind, Unique.forall_iff]

end Helpers

section Handlers

variable (hashPassword : Str → Str → Str) {c : Command}

lemma userLogin_balanced (u p port ip : Str) : Balanced c (userLogin hashPassword u p port ip) := by
  simp only [Balanced, userLogin, call, Prog.follows_bind, fetchDetails_follows,
    Prog.follows_call, Prog.follows_ret, callPairs_allowed, Call.mayLock, Prim.mayLock, true_and]
  intro m _
  split
  · simp
  · simp [Prog.follows_ite]

lemma userCreate_balanced (u p port ip : Str) :
    Balanced c (userCreate hashPassword u p port ip) := by
  simp only [Balanced, userCreate, call, Prog.follows_bind, fetchDetails_follows,
    Prog.follows_call, Prog.follows_ret, callPairs_allowed, Call.mayLock, Prim.mayLock, true_and]
  intro m _
  split
  · simp
  · simp [Prog.follows_bind]

lemma logout_balanced (u : Str) : Balanced c (logout u) := by
  simp [Balanced, logout, call, Prog.follows_bind, Prog.follows_ite]

lemma groupCreate_balanced (g u : Str) : Balanced c (groupCreate g u) := by
  simp only [Balanced, groupCreate, call, Prog.follows_bind, fetchDetails_follows,
    Prog.follows_call, Prog.follows_ret, callPairs_allowed, Call.mayLock, Prim.mayLock, true_and]
  intro m _
  split
  · simp
  · simp [Prog.follows_bind]

lemma groupList_balanced : Balanced c groupList := by
  simp [Balanced, groupList, call, Prog.follows_bind]

lemma groupRequestList_balanced (g u : Str) : Balanced c (groupRequestList g u) := by
  simp only [Balanced, groupRequestList, call, Prog.follows_bind, fetchDetails_follows,
    Prog.follows_call, Prog.follows_ret, callPairs_allowed, Call.mayLock, Prim.mayLock, true_and]
  intro m _
  split
  · simp
  · simp [Prog.follows_ite]

lemma groupFileList_balanced (g : Str) : Balanced c (groupFileList g) := by
  simp only [Balanced, groupFileList, call, Prog.follows_bind, fetchDetails_follows,
    Prog.follows_call, Prog.follows_ret, callPairs_allowed, Call.mayLock, Prim.mayLock, true_and]
  intro m _
  split
  · simp
  · simp [Prog.follows_bind]

lemma groupJoin_balanced (g u : Str) : Balanced c (groupJoin g u) := by
  simp only [Balanced, groupJoin, call, Prog.follows_bind, Prog.follows_call,
    Prog.follows_ret, callPairs_allowed, Call.mayLock, Prim.mayLock, true_and]
  intro m _
  split
  · simp
  · simp [Prog.follows_bind, Prog.follows_ite]

lemma groupAcceptRequest_balanced (g u a : Str) : Balanced c (groupAcceptRequest g u a) := by
  simp [Balanced, groupAcceptRequest, call, Prog.follows_bind, Prog.follows_ite]

lemma groupLeave_balanced (g u : Str) : Balanced c (groupLeave g u) := by
  simp only [Balanced, groupLeave, call, Prog.follows_bind, Prog.follows_call,
    Prog.follows_ret, callPairs_allowed, Call.mayLock, Prim.mayLock, true_and]
  intro m _
  split
  · simp
  · simp [Prog.follows_bind, Prog.follows_ite]

lemma groupFileUpload_balanced (h size g u f p : Str) :
    Balanced c (groupFileUpload h size g u f p) := by
  simp [Balanced, groupFileUpload, call, Prog.follows_bind, Prog.follows_ite, checkGroupFiles,
    getGroupFileName, checkIntegrity]

lemma groupStopShare_balanced (g f u : Str) : Balanced c (groupStopShare g f u) := by
  simp [Balanced, groupStopShare, call, Prog.follows_bind, Prog.follows_ite]

lemma sendSHA_balanced (g f u : Str) : Balanced c (sendSHA g f u) := by
  simp only [Balanced, sendSHA, call, Prog.follows_bind, fetchDetails_follows,
    Prog.follows_call, Prog.follows_ret, callPairs_allowed, Call.mayLock, Prim.mayLock, true_and]
  intro m _
  split
  · simp
  · simp [Prog.follows_bind, Prog.follows_ite]

lemma sendSeeders_balanced (g f : Str) : Balanced c (sendSeeders g f) := by
  simp [Balanced, sendSeeders, call, Prog.follows_bind]

lemma sendDetails_balanced (u : Str) : Balanced c (sendDetails u) := by
  simp [Balanced, sendDetails, call, Prog.follows_bind]

lemma getFullPath_balanced (u g f : Str) : Balanced c (getFullPath u g f) := by
  simp [Balanced, getFullPath, call, Prog.follows_bind]

/-- `UpdateDownload` is balanced as long as it does not find the file name listed: its early
    return unlocks what nobody locked. -/
lemma updateDownload_balanced (g f p u : Str) :
    Balanced (.addFile g f p u) (updateDownload g f p u) := by
  simp only [Balanced, updateDownload, call, Prog.follows_bind, fetchDetails_follows,
    Prog.follows_call, Prog.follows_ret, callPairs_allowed, Call.mayLock, Prim.mayLock, true_and,
    checked_follows, implies_true]
  intro _ _ _ _ _ _ _ _ _ s hs listed hlisted
  have hnot : alreadyListed f s = false := hs g f p u rfl rfl
  rw [alreadyListed, hlisted, Option.any_some] at hnot
  simp [hnot]

lemma showDownloads_balanced (u : Str) : Balanced c (showDownloads u) := by
  simp [Balanced, showDownloads, call, Prog.follows_bind]

lemma completeDownload_balanced (g f u : Str) : Balanced c (completeDownload g f u) := by
  simp [Balanced, completeDownload, call, Prog.follows_bind]

/-- Whichever branch a handler takes, its locks and unlocks come in pairs. -/
lemma trackerKernel_balanced (c : Command) : Balanced c (trackerKernel hashPassword c) := by
  cases c with
  | login u p port ip => exact follows_answer (userLogin_balanced hashPassword u p port ip)
  | createUser u p port ip => exact follows_answer (userCreate_balanced hashPassword u p port ip)
  | createGroup g u => exact follows_answer (groupCreate_balanced g u)
  | listGroups => exact follows_answerData groupList_balanced
  | joinGroup g u => exact follows_answer (groupJoin_balanced g u)
  | listRequests g u => exact follows_answerData (groupRequestList_balanced g u)
  | acceptRequest g u a => exact follows_answer (groupAcceptRequest_balanced g u a)
  | uploadFile h s g u f p => exact follows_answer (groupFileUpload_balanced h s g u f p)
  | listFiles g => exact follows_answerData (groupFileList_balanced g)
  | stopShare g f u => exact follows_answer (groupStopShare_balanced g f u)
  | leaveGroup g u => exact follows_answer (groupLeave_balanced g u)
  | logout u => exact follows_answer (logout_balanced u)
  | giveSha g f u => exact follows_answerData (sendSHA_balanced g f u)
  | giveSeeders g f u => exact follows_answerData (sendSeeders_balanced g f)
  | giveDetails u => exact follows_answerData (sendDetails_balanced u)
  | sendFullPath u g f => exact follows_answerData (getFullPath_balanced u g f)
  | addFile g f p u => exact follows_noAnswer (updateDownload_balanced g f p u)
  | complete g f p u => exact follows_noAnswer (completeDownload_balanced g f u)
  | showDownloads u => exact follows_answerData (showDownloads_balanced u)

end Handlers

/-! ### All interleavings -/

section Threads

variable {ι : Type} [DecidableEq ι] {hashPassword : Str → Str → Str} {salt : ι → Str}
  {command : ι → Command}

/-- What happens outside the handlers (files received, the sibling going on- or offline) is
    arbitrary, but it leaves the mutex alone. -/
def LeavesLock (_ : Unit) (s s' : Host ι) : Prop := s'.holder = s.holder ∧ s'.between = s.between

/-- The file of shared files that an `add_file` reads has no record with its file name. -/
def FindsUnlisted (command : ι → Command) (_ : Config primSig (Host ι) ι Reply)
    (e : Event primSig ι Unit) (_ : Config primSig (Host ι) ι Reply) : Prop :=
  ∀ i p s, e = .call i (.read p) s → (command i).expects p s

/-- The threads that have locked and not unlocked, in ghost state and history: at most the one
    that holds the mutex. -/
structure Exclusive (g : ι → Bool) (s : Host ι) : Prop where
  holder : ∀ i, g i = true ↔ s.holder = some i
  between : s.between = g

lemma Exclusive.lock {g : ι → Bool} {s : Host ι} (h : Exclusive g s) (hfree : s.holder = none)
    (i : ι) : Exclusive (Function.update g i true)
      { s with holder := some i, between := Function.update s.between i true } := by
  refine ⟨fun j => ?_, by rw [h.between]⟩
  by_cases hj : j = i
  · simp [hj]
  · have hgj : ¬ g j = true := by
      rw [h.holder j, hfree]
      simp
    simp [hj, hgj, Ne.symm hj]

lemma Exclusive.unlock {g : ι → Bool} {s : Host ι} (h : Exclusive g s) {i : ι}
    (hi : g i = true) : Exclusive (Function.update g i false)
      { s with holder := none, between := Function.update s.between i false } := by
  refine ⟨fun j => ?_, by rw [h.between]⟩
  have hholder : s.holder = some i := (h.holder i).mp hi
  by_cases hj : j = i
  · simp [hj]
  · have hgj : ¬ g j = true := by
      rw [h.holder j, hholder, Option.some.injEq]
      exact Ne.symm hj
    simp [hj, hgj]

/-- The step lemma: an operation that the discipline allows keeps the lock exclusive. -/
lemma Exclusive.step {g : ι → Bool} {s s' : Host ι} {i : ι} {o : Prim} {a : primAns o}
    (h : Exclusive g s) (ho : o.mayLock (g i)) (hs : hostInterp salt i o s = some (a, s')) :
    Exclusive (Function.update g i (o.locking (g i))) s' := by
  have hsame : Function.update g i (g i) = g := Function.update_eq_self i g
  cases o with
  | lock =>
    obtain ⟨hfree, rfl⟩ := hostInterp_lock hs
    exact h.lock hfree i
  | unlock =>
    cases hs
    exact h.unlock ho
  | sync p =>
    rw [hostInterp_sync hs]
    show Exclusive (Function.update g i (g i)) s
    rwa [hsame]
  | fault => cases hs
  | _ =>
    cases hs
    show Exclusive (Function.update g i (g i)) _
    rw [hsame]
    exact ⟨h.holder, h.between⟩

/-- Threads that keep the discipline of locking, each from its own ghost state. -/
abbrev LockKept (command : ι → Command) : Config primSig (Host ι) ι Reply → Prop :=
  Config.Disciplined (fun i => pairs (command i)) (fun _ g => g = false) Exclusive

omit [DecidableEq ι] in
lemma lockKept_start {s : Host ι} (hfree : s.holder = none) (hout : ∀ i, s.between i = false) :
    LockKept command (s.start hashPassword command) := by
  refine ⟨fun _ => false, fun i => ?_, ⟨fun i => by simp [Host.start, hfree], funext hout⟩⟩
  exact Prog.Follows.inline (fun o g h => callBody_pairs o h)
    (trackerKernel_balanced hashPassword (command i))

lemma lockKept_step {c c' : Config primSig (Host ι) ι Reply} {e : Event primSig ι Unit}
    (h : LockKept command c) (hok : FindsUnlisted command c e c')
    (hs : Config.Step (hostInterp salt) LeavesLock c e c') : LockKept command c' := by
  refine h.step (fun i o a g s' he ho hI hrun => ⟨?_, hI.step ho hrun⟩) ?_ hs
  · cases o with
    | read p => exact hok i p a he
    | _ => trivial
  · intro _ g _ hI henv
    exact ⟨fun i => by rw [henv.1]; exact hI.holder i, henv.2.trans hI.between⟩

/-- As long as no `add_file` finds its file name listed, `file_lock` gives mutual exclusion in
    every interleaving of the handlers: who unlocks holds, who has returned does not hold, and
    at most one thread is between a lock and its unlock. -/
theorem file_lock_exclusive {s : Host ι} {c : Config primSig (Host ι) ι Reply}
    (hfree : s.holder = none) (hout : ∀ i, s.between i = false)
    (hrun : Config.RunsWhen (hostInterp salt) LeavesLock (FindsUnlisted command)
      (s.start hashPassword command) c) :
    (∀ i k, c.thread i = .call .unlock k → c.shared.holder = some i) ∧
      (∀ i r, c.thread i = .ret r → c.shared.holder ≠ some i) ∧
      ∀ i j, c.shared.between i = true → c.shared.between j = true → i = j := by
  obtain ⟨g, hfol, hI⟩ : LockKept command c :=
    hrun.invariant (fun _ _ _ h hok hs => lockKept_step h hok hs) (lockKept_start hfree hout)
  refine ⟨fun i k hi => ?_, fun i r hi => ?_, fun i j hi hj => ?_⟩
  · have hfi := hfol i
    rw [hi, Prog.follows_call] at hfi
    exact (hI.holder i).mp hfi.1
  · have hfi := hfol i
    rw [hi, Prog.follows_ret] at hfi
    intro hheld
    have hgi : g i = true := (hI.holder i).mpr hheld
    rw [hfi] at hgi
    cases hgi
  · rw [hI.between] at hi hj
    have hij := ((hI.holder i).mp hi).symm.trans ((hI.holder j).mp hj)
    exact Option.some.inj hij

end Threads

/-- `Command.expects` as a test. -/
def Command.testExpects (c : Command) (p : Path) (s : Option Str) : Bool :=
  match c with
  | .addFile _ f _ u => decide (p ≠ userFilesFile u) || !alreadyListed f s
  | _ => true

lemma Command.expects_of_test {c : Command} {p : Path} {s : Option Str}
    (h : c.testExpects p s = true) : c.expects p s := by
  rintro g f path u rfl rfl
  simpa [Command.testExpects] using h

/-- `FindsUnlisted` as a test of the state before the step. -/
def testUnlisted {ι : Type} (command : ι → Command) (c : Config primSig (Host ι) ι Reply) :
    Move ι Unit → Bool
  | .call i =>
    match c.thread i with
    | .call (.read p) _ => (command i).testExpects p (c.shared.disk.read p)
    | _ => true
  | .env _ => false

lemma findsUnlisted_of_test {ι : Type} [DecidableEq ι] {salt : ι → Str} {command : ι → Command}
    {c c' : Config primSig (Host ι) ι Reply} {i : ι} {o : Prim} {a : primAns o}
    (htest : testUnlisted command c (.call i) = true)
    (hs : Config.Step (hostInterp salt) LeavesLock c (.call i o a) c') :
    FindsUnlisted command c (.call i o a) c' := by
  obtain ⟨k, hnext, hrun⟩ := hs.next_op
  rw [testUnlisted, hnext] at htest
  intro j p s he
  cases he
  obtain ⟨rfl, -⟩ := Prod.mk.inj (Option.some.inj hrun)
  exact Command.expects_of_test htest

/-- A tracker on which the user `u` shares `f`, as `p` and in the group `g`. -/
def sharing : Host (Fin 3) where
  tracker := ⟨Disk.empty.create (userFilesFile "u".toList) "g f p\n".toList, {}⟩
  siblingOnline := false

/-- Two threads that add `f2` and `f3` to the files of `u`, and one that lists them. -/
def addOthers (i : Fin 3) : Command :=
  match i with
  | 0 => .addFile "g".toList "f2".toList "p2".toList "u".toList
  | 1 => .addFile "g".toList "f3".toList "p3".toList "u".toList
  | 2 => .showDownloads "u".toList

theorem file_lock_exclusive_addOthers : ∃ c : Config primSig (Host (Fin 3)) (Fin 3) Reply,
    Config.RunsWhen (hostInterp fun _ => []) LeavesLock (FindsUnlisted addOthers)
        (sharing.start (fun _ p => p) addOthers) c ∧
      c.shared.between 2 = true ∧ c.thread 0 = .ret none ∧
      (∀ i k, c.thread i = .call .unlock k → c.shared.holder = some i) ∧
      (∀ i r, c.thread i = .ret r → c.shared.holder ≠ some i) ∧
      ∀ i j, c.shared.between i = true → c.shared.between j = true → i = j := by
  let schedule : List (Fin 3) := List.replicate 17 0 ++ List.replicate 12 1 ++ [2, 2]
  let run := (sharing.start (fun _ p => p) addOthers).play (hostInterp fun _ => [])
    (fun _ _ => none) (testUnlisted addOthers) (schedule.map .call)
  have hrun : (run.any fun c => c.shared.between 2 &&
      (match c.thread 0 with | .ret none => true | _ => false)) = true := by decide +kernel
  obtain ⟨c, hc, hend⟩ := (Option.any_eq_true _ _).mp hrun
  rw [Bool.and_eq_true] at hend
  have hruns : Config.RunsWhen (hostInterp fun _ => []) LeavesLock (FindsUnlisted addOthers)
      (sharing.start (fun _ p => p) addOthers) c :=
    Config.play_runsWhen (P := fun _ => True) (fun _ _ _ h => by cases h)
      (fun _ _ _ _ _ _ => trivial) (fun _ _ _ _ _ ht _ hs => findsUnlisted_of_test ht hs)
      (fun _ _ _ ht _ => by cases ht) hc trivial
  refine ⟨c, hruns, hend.1, ?_, file_lock_exclusive rfl (fun _ => rfl) hruns⟩
  revert hend
  rcases c.thread 0 with (_ | _) | _ <;> simp

/-- One thread that adds `f` although it is there, and two others. -/
def addAgain (i : Fin 3) : Command :=
  match i with
  | 0 => .addFile "g".toList "f".toList "p".toList "u".toList
  | _ => .showDownloads "u".toList

/-- The next operation of a handler is an `unlock`. -/
def unlocksNext : Prog primSig Reply → Bool
  | .call .unlock _ => true
  | _               => false

/-- The early return of `UpdateDownload` releases the lock that another handler holds, and lets
    a third one in. -/
theorem unlock_without_lock : ∃ c c' : Config primSig (Host (Fin 3)) (Fin 3) Reply,
    Config.Runs (hostInterp fun _ => []) LeavesLock (sharing.start (fun _ p => p) addAgain) c ∧
      (∃ k, c.thread 0 = .call .unlock k) ∧ c.shared.holder ≠ some 0 ∧
      Config.Runs (hostInterp fun _ => []) LeavesLock c c' ∧
      c'.shared.between 1 = true ∧ c'.shared.between 2 = true := by
  let act : Unit → Host (Fin 3) → Option (Host (Fin 3)) := fun _ _ => none
  let schedule : List (Fin 3) := List.replicate 13 0 ++ [1, 1]
  let schedule' : List (Fin 3) := [0, 2, 2]
  let run := (sharing.start (fun _ p => p) addAgain).play (hostInterp fun _ => []) act
    (fun _ _ => true) (schedule.map .call)
  let run' (c : Config primSig (Host (Fin 3)) (Fin 3) Reply) :=
    c.play (hostInterp fun _ => []) act (fun _ _ => true) (schedule'.map .call)
  have hrun : (run.any fun c => unlocksNext (c.thread 0) &&
      decide (c.shared.holder ≠ some 0) &&
      (run' c).any fun c' => c'.shared.between 1 && c'.shared.between 2) = true := by
    decide +kernel
  obtain ⟨c, hc, hend⟩ := (Option.any_eq_true _ _).mp hrun
  simp only [Bool.and_eq_true] at hend
  obtain ⟨⟨hunlock, hholder⟩, hnext⟩ := hend
  obtain ⟨c', hc', hend'⟩ := (Option.any_eq_true _ _).mp hnext
  rw [Bool.and_eq_true] at hend'
  have hact : ∀ m s s', act m s = some s' → LeavesLock m s s' := fun _ _ _ h => by cases h
  refine ⟨c, c', Config.play_runs hact hc, ?_, of_decide_eq_true hholder,
    Config.play_runs hact hc', hend'.1, hend'.2⟩
  revert hunlock
  rcases c.thread 0 with _ | ⟨_ | _, k⟩ <;> simp [unlocksNext]

end TorrentShare
