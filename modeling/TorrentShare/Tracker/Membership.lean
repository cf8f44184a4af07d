import TorrentShare.Tracker.Host

/-!
# The membership check

`group_members` is one table for all handler threads. A handler fills it by `FetchGroupMembers`
and tests it afterwards, when another handler may have filled it for another group.
-/

namespace TorrentShare

open Program

/-- The group and the user whose membership a command requires. -/
def Command.check : Command → Option (Str × Str)
  | .uploadFile _ _ g u _ _ => some (g, u)
  | .stopShare g _ u        => some (g, u)
  | .giveSha g _ u          => some (g, u)
  | _                       => none

/-- How far a handler is with its membership check. -/
inductive Stage where
  | unfetched
  | fetched
  | passed
  | refused
  deriving DecidableEq

/-- A call that leaves `group_members` to `FetchGroupMembers`. -/
@[simp] def Call.keepsMembers : Call → Prop
  | .prim (.modify f) => ∀ m, (f m).groupMembers = m.groupMembers
  | _ => True

/-- The stage after a call. The first look at the tables after `FetchGroupMembers` is the test. -/
@[simp] def Stage.after (check : Option (Str × Str)) :
    (o : Call) → callAns o → Stage → Stage
  | .fetchGroupMembers _, _, _ => .fetched
  | .prim .memory, m, .fetched =>
    match check with
    | some (_, u) => if u ∈ m.groupMembers then .passed else .refused
    | none => .passed
  | _, _, st => st

/-- A handler with a membership check calls `FetchGroupMembers` once, for its own group, and
    nothing at all after a test that fails. -/
def membership (c : Command) : Discipline callSig Stage where
  allowed o st := o.keepsMembers ∧ ∀ g u, c.check = some (g, u) →
    st ≠ .refused ∧ ∀ h, o = .fetchGroupMembers h → h = g ∧ st = .unfetched
  next := Stage.after c.check
  admits _ _ := True

/-! ### The programs, with each operation a step of its own -/

/-- `FetchDetails` and a rewrite are taken apart. `FetchGroupMembers` is one step. -/
def stepsOf : (o : Call) → Prog callSig (callAns o)
  | .prim o              => call o
  | .fetchDetails        => fetchDetailsBody.inline call
  | .fetchGroupMembers g => fetchGroupMembers g
  | .rewrite mode p drop => (rewriteBody mode p drop).inline call

/-- A handler thread that calls `FetchGroupMembers` in one step. -/
def memberHandler (hashPassword : Str → Str → Str) (c : Command) : Prog callSig Reply :=
  (trackerKernel hashPassword c).inline stepsOf

/-- The operations that neither look at the tables nor touch `group_members`. -/
@[simp] def Prim.quiet : Prim → Prop
  | .memory   => False
  | .modify f => ∀ m, (f m).groupMembers = m.groupMembers
  | _         => True

lemma Prim.quiet_of_loads (o : Prim) (h : o.loads) : o.quiet := by
  cases o <;> first | exact h | trivial

lemma Prim.quiet_of_onDisk (o : Prim) (h : o.onDisk) : o.quiet := by
  cases o <;> first | exact h.elim | trivial

@[simp] def Call.quiet : Call → Prop
  | .prim o => o.quiet
  | _       => False

lemma call_quiet (o : Prim) (h : o.quiet) : (call o).Only Call.quiet :=
  Prog.only_call h fun _ => trivial

lemma fetchDetailsBody_quiet : fetchDetailsBody.Only Prim.quiet := by
  refine Prog.only_call (fun _ => rfl) fun _ => Prog.only_call trivial fun _ => ?_
  show (loadDetails >>= fun _ => prim .unlock).Only Prim.quiet
  exact (loadDetails_loads.mono Prim.quiet_of_loads).bind fun _ =>
    Prog.only_call trivial fun _ => trivial

section Membership

variable {c : Command} {st : Stage}

/-- A quiet call does not move the stage. -/
lemma Stage.after_quiet {check : Option (Str × Str)} {o : Call} (h : o.quiet) (a : callAns o) :
    Stage.after check o a st = st := by
  cases o with
  | prim o =>
    cases o with
    | memory => exact h.elim
    | _ => rfl
  | _ => exact h.elim

lemma Call.keepsMembers_of_quiet {o : Call} (h : o.quiet) : o.keepsMembers := by
  cases o with
  | prim o =>
    cases o with
    | modify f => exact h
    | _ => trivial
  | _ => trivial

/-- Programs of quiet calls, for a handler that has not failed its test. -/
lemma quiet_follows {α : Type} {p : Prog callSig α} (hp : p.Only Call.quiet)
    (hst : ∀ g u, c.check = some (g, u) → st ≠ .refused) :
    p.Follows (membership c) st fun _ st' => st' = st := by
  refine Prog.Only.follows (fun o ho => ⟨?_, fun a => Stage.after_quiet ho a⟩) hp
  refine ⟨Call.keepsMembers_of_quiet ho, fun g u hc => ⟨hst g u hc, fun h he => ?_⟩⟩
  subst he
  exact ho.elim

/-- The steps of a call keep the discipline of the call. -/
lemma stepsOf_follows (o : Call) (h : (membership c).allowed o st) :
    (stepsOf o).Follows (membership c) st fun a st' =>
      st' = (membership c).next o a st ∧ (membership c).admits o a := by
  have hst : ∀ g u, c.check = some (g, u) → st ≠ .refused := fun g u hc => (h.2 g u hc).1
  cases o with
  | prim o => exact ⟨h, fun a _ => ⟨rfl, trivial⟩⟩
  | fetchGroupMembers g => exact ⟨h, fun a _ => ⟨rfl, trivial⟩⟩
  | fetchDetails =>
    have hquiet := fetchDetailsBody_quiet.inline call_quiet
    exact (quiet_follows hquiet hst).mono fun _ _ he => ⟨he, trivial⟩
  | rewrite mode p drop =>
    have hquiet := ((rewriteBody_onDisk mode p drop).mono Prim.quiet_of_onDisk).inline call_quiet
    exact (quiet_follows hquiet hst).mono fun _ _ he => ⟨he, trivial⟩

end Membership

/-! ### The handlers without a check -/

section Unchecked

variable (hashPassword : Str → Str → Str)

@[simp] lemma deleteLine_keepsMembers (p : Path) (d : Str) (i : ℕ) (Q : Unit → Unit → Prop) :
    (deleteLine p d i).Follows (kind Call.keepsMembers) () Q ↔ Q () () := by
  simp [deleteLine, call, Prog.follows_bind, Unique.forall_iff]

@[simp] lemma deleteWholeLine_keepsMembers (p : Path) (d : Str) (Q : Unit → Unit → Prop) :
    (deleteWholeLine p d).Follows (kind Call.keepsMembers) () Q ↔ Q () () := by
  simp [deleteWholeLine, call, Prog.follows_bind, Unique.forall_iff]

lemma userLogin_keepsMembers (u p port ip : Str) :
    (userLogin hashPassword u p port ip).Only Call.keepsMembers := by
  simp only [Prog.Only, userLogin, call, Prog.follows_bind, fetchDetails_follows,
    Prog.follows_call, Prog.follows_ret, kind_allowed, Call.keepsMembers, true_and]
  intro m _
  split
  · simp
  · simp [Prog.follows_ite]

lemma userCreate_keepsMembers (u p port ip : Str) :
    (userCreate hashPassword u p port ip).Only Call.keepsMembers := by
  simp only [Prog.Only, userCreate, call, Prog.follows_bind, fetchDetails_follows,
    Prog.follows_call, Prog.follows_ret, kind_allowed, Call.keepsMembers, true_and]
  intro m _
  split
  · simp
  · simp [Prog.follows_bind]

lemma logout_keepsMembers (u : Str) : (logout u).Only Call.keepsMembers := by
  simp [Prog.Only, logout, call, Prog.follows_bind, Prog.follows_ite]

lemma groupCreate_keepsMembers (g u : Str) : (groupCreate g u).Only Call.keepsMembers := by
  simp only [Prog.Only, groupCreate, call, Prog.follows_bind, fetchDetails_follows,
    Prog.follows_call, Prog.follows_ret, kind_allowed, Call.keepsMembers, true_and]
  intro m _
  split
  · simp
  · simp [Prog.follows_bind]

lemma groupList_keepsMembers : groupList.Only Call.keepsMembers := by
  simp [Prog.Only, groupList, call, Prog.follows_bind]

lemma groupRequestList_keepsMembers (g u : Str) :
    (groupRequestList g u).Only Call.keepsMembers := by
  simp only [Prog.Only, groupRequestList, call, Prog.follows_bind, fetchDetails_follows,
    Prog.follows_call, Prog.follows_ret, kind_allowed, Call.keepsMembers, true_and]
  intro m _
  split
  · simp
  · simp [Prog.follows_ite]

lemma groupFileList_keepsMembers (g : Str) : (groupFileList g).Only Call.keepsMembers := by
  simp only [Prog.Only, groupFileList, call, Prog.follows_bind, fetchDetails_follows,
    Prog.follows_call, Prog.follows_ret, kind_allowed, Call.keepsMembers, true_and]
  intro m _
  split
  · simp
  · simp [Prog.follows_bind]

lemma groupJoin_keepsMembers (g u : Str) : (groupJoin g u).Only Call.keepsMembers := by
  simp only [Prog.Only, groupJoin, call, Prog.follows_bind, Prog.follows_call,
    Prog.follows_ret, kind_allowed, Call.keepsMembers, true_and]
  intro m _
  split
  · simp
  · simp [Prog.follows_bind, Prog.follows_ite]

lemma groupAcceptRequest_keepsMembers (g u a : Str) :
    (groupAcceptRequest g u a).Only Call.keepsMembers := by
  simp [Prog.Only, groupAcceptRequest, call, Prog.follows_bind, Prog.follows_ite]

lemma groupLeave_keepsMembers (g u : Str) : (groupLeave g u).Only Call.keepsMembers := by
  simp only [Prog.Only, groupLeave, call, Prog.follows_bind, Prog.follows_call,
    Prog.follows_ret, kind_allowed, Call.keepsMembers, true_and]
  intro m _
  split
  · simp
  · simp [Prog.follows_bind, Prog.follows_ite]

lemma sendSeeders_keepsMembers (g f : Str) : (sendSeeders g f).Only Call.keepsMembers := by
  simp [Prog.Only, sendSeeders, call, Prog.follows_bind]

lemma sendDetails_keepsMembers (u : Str) : (sendDetails u).Only Call.keepsMembers := by
  simp [Prog.Only, sendDetails, call, Prog.follows_bind]

lemma getFullPath_keepsMembers (u g f : Str) : (getFullPath u g f).Only Call.keepsMembers := by
  simp [Prog.Only, getFullPath, call, Prog.follows_bind]

lemma updateDownload_keepsMembers (g f p u : Str) :
    (updateDownload g f p u).Only Call.keepsMembers := by
  simp [Prog.Only, updateDownload, call, Prog.follows_bind, Prog.follows_ite]

lemma showDownloads_keepsMembers (u : Str) : (showDownloads u).Only Call.keepsMembers := by
  simp [Prog.Only, showDownloads, call, Prog.follows_bind]

lemma completeDownload_keepsMembers (g f u : Str) :
    (completeDownload g f u).Only Call.keepsMembers := by
  simp [Prog.Only, completeDownload, call, Prog.follows_bind]

end Unchecked

/-! ### The handlers with a check -/

/-- A handler of `c` that keeps the discipline from its first line on. -/
def Guarded (c : Command) {α : Type} (p : Prog callSig α) : Prop :=
  p.Follows (membership c) .unfetched fun _ _ => True

lemma guarded_of_unchecked {c : Command} (hc : c.check = none) {α : Type} {p : Prog callSig α}
    (hp : p.Only Call.keepsMembers) : Guarded c p := by
  have hallowed : ∀ o st, o.keepsMembers → (membership c).allowed o st := by
    intro o st ho
    refine ⟨ho, fun g u he => ?_⟩
    rw [hc] at he
    cases he
  exact Prog.Only.follows_of_allowed hallowed hp

section Checked

variable {c : Command} {g u : Str}

@[simp] lemma membership_next (o : Call) (a : callAns o) (st : Stage) :
    (membership c).next o a st = Stage.after c.check o a st := rfl

@[simp] lemma membership_admits (o : Call) (a : callAns o) :
    (membership c).admits o a = True := rfl

lemma membership_allowed (hc : c.check = some (g, u)) (o : Call) (st : Stage) :
    (membership c).allowed o st ↔ o.keepsMembers ∧ st ≠ .refused ∧
      ∀ h, o = .fetchGroupMembers h → h = g ∧ st = .unfetched := by
  simp [membership, hc]

lemma groupFileUpload_guarded (h size f p : Str) :
    Guarded (.uploadFile h size g u f p) (groupFileUpload h size g u f p) := by
  have hc : (Command.uploadFile h size g u f p).check = some (g, u) := rfl
  simp only [Guarded, groupFileUpload, call, Prog.follows_bind, Prog.follows_call,
    Prog.follows_ret, membership_allowed hc, Call.keepsMembers, true_and]
  refine ⟨by simp, fun m _ => ?_⟩
  split
  · trivial
  · -- the members are fetched and looked up
    simp only [fetchGroupMembers, Prog.follows_bind, Prog.follows_call, Prog.follows_ret,
      membership_allowed hc, Call.keepsMembers, true_and]
    refine ⟨by simp, fun _ _ => ⟨by simp, fun m _ => ?_⟩⟩
    split
    · trivial
    · rename_i hmember
      -- the user is a member, and what follows neither looks at the tables nor changes them
      refine (quiet_follows ?_ ?_).mono fun _ _ _ => trivial
      · simp [Prog.Only, call, checkGroupFiles, getGroupFileName, checkIntegrity,
          Prog.follows_bind, Prog.follows_ite]
      · simp [hc, hmember]

lemma groupStopShare_guarded (f : Str) :
    Guarded (.stopShare g f u) (groupStopShare g f u) := by
  have hc : (Command.stopShare g f u).check = some (g, u) := rfl
  simp +contextual [Guarded, groupStopShare, call, Prog.follows_bind, Prog.follows_ite,
    membership_allowed hc, hc]

lemma sendSHA_guarded (f : Str) : Guarded (.giveSha g f u) (sendSHA g f u) := by
  have hc : (Command.giveSha g f u).check = some (g, u) := rfl
  simp only [Guarded, sendSHA, call, Prog.follows_bind, fetchDetails_follows,
    Prog.follows_call, Prog.follows_ret, membership_allowed hc, Call.keepsMembers, true_and]
  refine ⟨by simp, fun _ => ⟨by simp, fun m _ => ?_⟩⟩
  split
  · trivial
  · simp +contextual [Prog.follows_bind, Prog.follows_ite, membership_allowed hc, hc]

end Checked

lemma Guarded.bind {c : Command} {α β : Type} {p : Prog callSig α} (hp : Guarded c p)
    (f : α → β) : Guarded c (p >>= fun a => Prog.ret (f a)) :=
  Prog.Follows.bind hp fun _ _ _ => trivial

lemma trackerKernel_guarded (hashPassword : Str → Str → Str) (c : Command) :
    Guarded c (trackerKernel hashPassword c) := by
  cases c with
  | login u p port ip =>
    exact (guarded_of_unchecked rfl (userLogin_keepsMembers hashPassword u p port ip)).bind _
  | createUser u p port ip =>
    exact (guarded_of_unchecked rfl (userCreate_keepsMembers hashPassword u p port ip)).bind _
  | createGroup g u => exact (guarded_of_unchecked rfl (groupCreate_keepsMembers g u)).bind _
  | listGroups => exact (guarded_of_unchecked rfl groupList_keepsMembers).bind _
  | joinGroup g u => exact (guarded_of_unchecked rfl (groupJoin_keepsMembers g u)).bind _
  | listRequests g u => exact (guarded_of_unchecked rfl (groupRequestList_keepsMembers g u)).bind _
  | acceptRequest g u a =>
    exact (guarded_of_unchecked rfl (groupAcceptRequest_keepsMembers g u a)).bind _
  | uploadFile h s g u f p => exact (groupFileUpload_guarded h s f p).bind _
  | listFiles g => exact (guarded_of_unchecked rfl (groupFileList_keepsMembers g)).bind _
  | stopShare g f u => exact (groupStopShare_guarded f).bind _
  | leaveGroup g u => exact (guarded_of_unchecked rfl (groupLeave_keepsMembers g u)).bind _
  | logout u => exact (guarded_of_unchecked rfl (logout_keepsMembers u)).bind _
  | giveSha g f u => exact (sendSHA_guarded f).bind _
  | giveSeeders g f u => exact (guarded_of_unchecked rfl (sendSeeders_keepsMembers g f)).bind _
  | giveDetails u => exact (guarded_of_unchecked rfl (sendDetails_keepsMembers u)).bind _
  | sendFullPath u g f => exact (guarded_of_unchecked rfl (getFullPath_keepsMembers u g f)).bind _
  | addFile g f p u => exact (guarded_of_unchecked rfl (updateDownload_keepsMembers g f p u)).bind _
  | complete g f p u =>
    exact (guarded_of_unchecked rfl (completeDownload_keepsMembers g f u)).bind _
  | showDownloads u => exact (guarded_of_unchecked rfl (showDownloads_keepsMembers u)).bind _

/-! ### All interleavings -/

section Threads

variable {ι : Type}

/-- A tracker process with a record of the membership checks: the group for which a handler
    called `FetchGroupMembers` and what the members file held then, and which handlers have
    tested `group_members` since. -/
structure Audit (ι : Type) where
  host : Host ι
  fetched : ι → Option (Str × List Str) := fun _ => none
  tested : ι → Bool := fun _ => false

variable [DecidableEq ι]

/-- The record after a call that leaves the process as `h`. -/
def Audit.note (s : Audit ι) (i : ι) (h : Host ι) : Call → Audit ι
  | .fetchGroupMembers g =>
    { s with host := h, fetched := Function.update s.fetched i (some (g, s.host.disk.members g)) }
  | .prim .memory =>
    { s with host := h
             tested := if (s.fetched i).isSome then Function.update s.tested i true else s.tested }
  | _ => { s with host := h }

/-- The meaning of a call of thread `i`, as one step. -/
def auditInterp (salt : ι → Str) (i : ι) : Interp callSig (Audit ι) := fun o s =>
  ((callBody o).run (hostInterp salt i) s.host).map fun r => (r.1, s.note i r.2 o)

/-- Threads that are about to start with their commands. -/
def Audit.start (hashPassword : Str → Str → Str) (s : Audit ι) (command : ι → Command) :
    Config callSig (Audit ι) ι Reply :=
  ⟨s, fun i => memberHandler hashPassword (command i)⟩

/-- Outside the handlers anything may happen to the files, but not to the tables. -/
def KeepsTables (_ : Unit) (s s' : Audit ι) : Prop :=
  s'.host.tracker.memory = s.host.tracker.memory ∧ s'.fetched = s.fetched ∧ s'.tested = s.tested

/-- Whenever a handler calls `FetchGroupMembers`, and another one is between its own call and
    its test: the user of the other one is in the file that is read now only if it was in the
    file that the other one read. -/
def SparesOthers (command : ι → Command) (c : Config callSig (Audit ι) ι Reply)
    (e : Event callSig ι Unit) (_ : Config callSig (Audit ι) ι Reply) : Prop :=
  ∀ i h a, e = .call i (.fetchGroupMembers h) a → ∀ j g u ms, j ≠ i →
    (command j).check = some (g, u) → c.shared.fetched j = some (g, ms) →
    c.shared.tested j = false → u ∈ c.shared.host.disk.members h → u ∈ ms

/-- What the stage of thread `i`, with a check for `g` and `u`, says about the record. -/
def Audit.Vouched (s : Audit ι) (i : ι) (g u : Str) : Stage → Prop
  | .unfetched => s.fetched i = none ∧ s.tested i = false
  | .fetched   => s.tested i = false ∧ ∃ ms, s.fetched i = some (g, ms) ∧
      (u ∈ s.host.tracker.memory.groupMembers → u ∈ ms)
  | .passed    => ∃ ms, s.fetched i = some (g, ms) ∧ u ∈ ms
  | .refused   => True

/-- Every handler with a check is vouched for. -/
def Vouches (command : ι → Command) (st : ι → Stage) (s : Audit ι) : Prop :=
  ∀ i g u, (command i).check = some (g, u) → s.Vouched i g u (st i)

/-! What a call does to `group_members` and to the record. -/

variable {salt : ι → Str} {i j : ι} {g u : Str} {command : ι → Command}

lemma hostInterp_groupMembers {o : Prim} {a : primAns o} {h h' : Host ι}
    (ho : (Call.prim o).keepsMembers) (hs : hostInterp salt i o h = some (a, h')) :
    h'.tracker.memory.groupMembers = h.tracker.memory.groupMembers := by
  cases o with
  | lock =>
    obtain ⟨-, rfl⟩ := hostInterp_lock hs
    rfl
  | modify f =>
    cases hs
    exact ho _
  | sync p =>
    rw [hostInterp_sync hs]
  | fault => cases hs
  | _ =>
    cases hs
    rfl

/-- The record of a thread changes by its own calls only. -/
lemma Audit.note_of_ne (s : Audit ι) (hne : j ≠ i) (h : Host ι) (o : Call) :
    (s.note i h o).fetched j = s.fetched j ∧ (s.note i h o).tested j = s.tested j := by
  unfold Audit.note
  split
  · simp [hne]
  · split_ifs <;> simp [hne]
  · simp

@[simp] lemma Audit.host_note (s : Audit ι) (h : Host ι) (o : Call) : (s.note i h o).host = h := by
  unfold Audit.note
  split <;> rfl

omit [DecidableEq ι] in
/-- A thread stays vouched for while its record stays and its user does not get into
    `group_members` by a call that it cannot answer for. -/
lemma Audit.Vouched.mono {s s' : Audit ι} {st : Stage} (h : s.Vouched j g u st)
    (hf : s'.fetched j = s.fetched j) (ht : s'.tested j = s.tested j)
    (hm : ∀ ms, s.fetched j = some (g, ms) → s.tested j = false →
      u ∈ s'.host.tracker.memory.groupMembers →
      u ∈ s.host.tracker.memory.groupMembers ∨ u ∈ ms) : s'.Vouched j g u st := by
  cases st with
  | unfetched => exact ⟨hf.trans h.1, ht.trans h.2⟩
  | fetched =>
    obtain ⟨htest, ms, hms, hu⟩ := h
    refine ⟨ht.trans htest, ms, hf.trans hms, fun hu' => ?_⟩
    rcases hm ms hms htest hu' with hu' | hu'
    · exact hu hu'
    · exact hu'
  | passed =>
    obtain ⟨ms, hms, hu⟩ := h
    exact ⟨ms, hf.trans hms, hu⟩
  | refused => trivial

lemma hostRun_quiet {α : Type} {p : Prog primSig α} (hp : p.Only Prim.quiet) {h h' : Host ι}
    {a : α} (hs : p.run (hostInterp salt i) h = some (a, h')) :
    h'.tracker.memory.groupMembers = h.tracker.memory.groupMembers := by
  obtain ⟨_, _, hend⟩ := Prog.Follows.run
    (R := fun _ t => t.tracker.memory.groupMembers = h.tracker.memory.groupMembers)
    (fun o _ t b t' ho ht hrun =>
      ⟨trivial, (hostInterp_groupMembers (Call.keepsMembers_of_quiet ho) hrun).trans ht⟩) hp rfl hs
  exact hend

/-- Every call but `FetchGroupMembers` leaves `group_members` alone. -/
lemma hostRun_groupMembers {o : Call} {h h' : Host ι} {a : callAns o} (ho : o.keepsMembers)
    (hne : ∀ g, o ≠ .fetchGroupMembers g)
    (hs : (callBody o).run (hostInterp salt i) h = some (a, h')) :
    h'.tracker.memory.groupMembers = h.tracker.memory.groupMembers := by
  cases o with
  | prim o =>
    rw [hostRun_prim] at hs
    exact hostInterp_groupMembers ho hs
  | fetchDetails => exact hostRun_quiet fetchDetailsBody_quiet hs
  | fetchGroupMembers g => exact absurd rfl (hne g)
  | rewrite mode p drop =>
    exact hostRun_quiet ((rewriteBody_onDisk mode p drop).mono Prim.quiet_of_onDisk) hs

lemma hostRun_memory {h h' : Host ι} {m : Memory}
    (hs : (callBody (.prim .memory)).run (hostInterp salt i) h = some (m, h')) :
    m = h.tracker.memory ∧ h' = h := by
  cases hs
  exact ⟨rfl, rfl⟩

/-- The record of the thread that makes a call. -/
lemma Audit.Vouched.self {s : Audit ι} {h : Host ι} {o : Call} {a : callAns o} {st : Stage}
    (hv : s.Vouched i g u st) {c : Command} (hc : c.check = some (g, u))
    (ho : (membership c).allowed o st)
    (hs : (callBody o).run (hostInterp salt i) s.host = some (a, h)) :
    (s.note i h o).Vouched i g u (Stage.after c.check o a st) := by
  rw [membership_allowed hc] at ho
  obtain ⟨hkeeps, -, hfetch⟩ := ho
  cases o with
  | fetchGroupMembers g' =>
    obtain ⟨rfl, rfl⟩ := hfetch g' rfl
    refine ⟨hv.2, s.host.disk.members g', by simp [Audit.note], fun hu => ?_⟩
    rwa [Audit.host_note, (hostRun_fetchGroupMembers hs).2] at hu
  | fetchDetails =>
    refine hv.mono rfl rfl fun ms _ _ hu => Or.inl ?_
    rwa [Audit.host_note, hostRun_groupMembers hkeeps (by simp) hs] at hu
  | rewrite mode p drop =>
    refine hv.mono rfl rfl fun ms _ _ hu => Or.inl ?_
    rwa [Audit.host_note, hostRun_groupMembers hkeeps (by simp) hs] at hu
  | prim o =>
    by_cases hmem : o = .memory
    · subst hmem
      obtain ⟨rfl, rfl⟩ := hostRun_memory hs
      cases st with
      | unfetched =>
        refine ⟨hv.1, ?_⟩
        simp [Audit.note, hv.1, hv.2]
      | fetched =>
        obtain ⟨-, ms, hms, hu⟩ := hv
        simp only [Stage.after, hc]
        split_ifs with hmember
        · exact ⟨ms, hms, hu hmember⟩
        · trivial
      | passed => exact hv
      | refused => trivial
    · have hquiet : (Call.prim o).quiet := by
        cases o <;> first | exact hkeeps | exact hmem rfl
      have hnote : s.note i h (.prim o) = { s with host := h } := by
        cases o <;> first | rfl | exact absurd rfl hmem
      rw [Stage.after_quiet hquiet, hnote]
      refine hv.mono rfl rfl fun ms _ _ hu => Or.inl ?_
      rwa [hostRun_groupMembers hkeeps (by simp) hs] at hu

/-- The record of another thread. -/
lemma Audit.Vouched.other {s : Audit ι} {h : Host ι} {o : Call} {a : callAns o} {st : Stage}
    (hv : s.Vouched j g u st) (hne : j ≠ i) (ho : o.keepsMembers)
    (hspare : ∀ h, o = .fetchGroupMembers h → ∀ ms, s.fetched j = some (g, ms) →
      s.tested j = false → u ∈ s.host.disk.members h → u ∈ ms)
    (hs : (callBody o).run (hostInterp salt i) s.host = some (a, h)) :
    (s.note i h o).Vouched j g u st := by
  obtain ⟨hf, ht⟩ := s.note_of_ne hne h o
  refine hv.mono hf ht fun ms hms htest hu => ?_
  rw [Audit.host_note] at hu
  by_cases hfetch : ∃ g', o = .fetchGroupMembers g'
  · obtain ⟨g', rfl⟩ := hfetch
    rw [(hostRun_fetchGroupMembers hs).2] at hu
    exact Or.inr (hspare g' rfl ms hms htest hu)
  · have hother : ∀ g', o ≠ .fetchGroupMembers g' := fun g' he => hfetch ⟨g', he⟩
    rw [hostRun_groupMembers ho hother hs] at hu
    exact Or.inl hu

/-- Threads that keep the discipline of the membership check, and are vouched for. -/
abbrev ChecksKept (command : ι → Command) : Config callSig (Audit ι) ι Reply → Prop :=
  Config.Disciplined (fun i => membership (command i)) (fun _ _ => True) (Vouches command)

omit [DecidableEq ι] in
lemma checksKept_start {hashPassword : Str → Str → Str} {s : Audit ι}
    (hfetched : ∀ i, s.fetched i = none) (htested : ∀ i, s.tested i = false) :
    ChecksKept command (s.start hashPassword command) := by
  refine ⟨fun _ => .unfetched, fun i => ?_, fun i g u _ => ⟨hfetched i, htested i⟩⟩
  exact Prog.Follows.inline (fun o st h => stepsOf_follows o h)
    (trackerKernel_guarded hashPassword (command i))

lemma checksKept_step {c c' : Config callSig (Audit ι) ι Reply} {e : Event callSig ι Unit}
    (hc : ChecksKept command c) (hok : SparesOthers command c e c')
    (hs : Config.Step (auditInterp salt) KeepsTables c e c') : ChecksKept command c' := by
  refine hc.step (fun i o a st s' he ho hv hrun => ⟨trivial, ?_⟩) ?_ hs
  · obtain ⟨⟨b, h⟩, hbody, heq⟩ := Option.map_eq_some_iff.mp hrun
    cases heq
    intro j g u hj
    by_cases hji : j = i
    · subst hji
      rw [Function.update_self]
      exact (hv j g u hj).self hj ho hbody
    · rw [Function.update_of_ne hji]
      refine (hv j g u hj).other hji ho.1 (fun g' hg' ms hms htest hu => ?_) hbody
      subst hg'
      exact hok i g' b he j g u ms hji hj hms htest hu
  · intro _ st _ hv henv i g u hi
    exact (hv i g u hi).mono (by rw [henv.2.1]) (by rw [henv.2.2]) fun ms _ _ hu =>
      Or.inl (by rwa [henv.1] at hu)

/-- As long as nobody's `FetchGroupMembers` puts the user of a waiting handler into
    `group_members` who was not in the file it read, every handler that does anything after its
    test has a user who was in the members file of its group when it called
    `FetchGroupMembers`. -/
theorem acts_for_member {hashPassword : Str → Str → Str} {s : Audit ι}
    {c : Config callSig (Audit ι) ι Reply} (hfetched : ∀ i, s.fetched i = none)
    (htested : ∀ i, s.tested i = false)
    (hrun : Config.RunsWhen (auditInterp salt) KeepsTables (SparesOthers command)
      (s.start hashPassword command) c) :
    ∀ i g u o k, (command i).check = some (g, u) → c.thread i = .call o k →
      c.shared.tested i = true → ∃ ms, c.shared.fetched i = some (g, ms) ∧ u ∈ ms := by
  intro i g u o k hi hthread htest
  obtain ⟨st, hfol, hv⟩ : ChecksKept command c :=
    hrun.invariant (fun _ _ _ h hok hs => checksKept_step h hok hs)
      (checksKept_start hfetched htested)
  have hvi := hv i g u hi
  have hfi := hfol i
  rw [hthread, Prog.follows_call, membership_allowed hi] at hfi
  cases hst : st i with
  | unfetched =>
    rw [hst] at hvi
    rw [hvi.2] at htest
    cases htest
  | fetched =>
    rw [hst] at hvi
    rw [hvi.1] at htest
    cases htest
  | passed =>
    rw [hst] at hvi
    exact hvi
  | refused => exact absurd hst hfi.1.2.1

end Threads

section Runs

variable {n : ℕ}

/-- `SparesOthers` for one waiting handler, as a test. -/
def spared (command : Fin n → Command) (s : Audit (Fin n)) (h : Str) (j : Fin n) : Bool :=
  match (command j).check, s.fetched j with
  | some (_, u), some (_, ms) => s.tested j || decide (u ∉ s.host.disk.members h) || decide (u ∈ ms)
  | _, _ => true

/-- `SparesOthers` as a test of the state before the step. -/
def testSpares (command : Fin n → Command) (c : Config callSig (Audit (Fin n)) (Fin n) Reply) :
    Move (Fin n) Unit → Bool
  | .call i =>
    match c.thread i with
    | .call (.fetchGroupMembers h) _ => decide (∀ j, spared command c.shared h j = true)
    | _ => true
  | .env _ => false

lemma sparesOthers_of_test {salt : Fin n → Str} {command : Fin n → Command}
    {c c' : Config callSig (Audit (Fin n)) (Fin n) Reply} {i : Fin n} {o : Call} {a : callAns o}
    (htest : testSpares command c (.call i) = true)
    (hs : Config.Step (auditInterp salt) KeepsTables c (.call i o a) c') :
    SparesOthers command c (.call i o a) c' := by
  obtain ⟨k, hnext, -⟩ := hs.next_op
  rw [testSpares, hnext] at htest
  intro i' h b he j g u ms _ hj hms hwait hu
  cases he
  have hspared := of_decide_eq_true htest j
  simpa [spared, hj, hms, hwait, hu] using hspared

end Runs

/-- Two groups, `g` without and `h` with the user `u`. -/
def twoGroups : Audit (Fin 2) where
  host :=
    { tracker :=
        { disk := (Disk.empty.create (membersFile "g".toList) "o\n".toList).create
            (membersFile "h".toList) "u\n".toList
          memory := { groups := [("g".toList, "o".toList), ("h".toList, "u".toList)] } }
      siblingOnline := false }

/-- `u` uploads to `h`, and `v` asks to join `g`. -/
def uploadAndJoin (i : Fin 2) : Command :=
  match i with
  | 0 => .uploadFile "x".toList "1".toList "h".toList "u".toList "f".toList "p".toList
  | 1 => .joinGroup "g".toList "v".toList

theorem acts_for_member_uploadAndJoin : ∃ c : Config callSig (Audit (Fin 2)) (Fin 2) Reply,
    Config.RunsWhen (auditInterp fun _ => []) KeepsTables (SparesOthers uploadAndJoin)
        (twoGroups.start (fun _ p => p) uploadAndJoin) c ∧
      c.shared.tested 0 = true ∧
      ∀ i g u o k, (uploadAndJoin i).check = some (g, u) → c.thread i = .call o k →
        c.shared.tested i = true → ∃ ms, c.shared.fetched i = some (g, ms) ∧ u ∈ ms := by
  let schedule : List (Fin 2) := [1, 0, 0, 0, 1, 0]
  let run := (twoGroups.start (fun _ p => p) uploadAndJoin).play (auditInterp fun _ => [])
    (fun _ _ => none) (testSpares uploadAndJoin) (schedule.map .call)
  have hrun : (run.any fun c => c.shared.tested 0) = true := by decide +kernel
  obtain ⟨c, hc, htested⟩ := (Option.any_eq_true _ _).mp hrun
  have hruns : Config.RunsWhen (auditInterp fun _ => []) KeepsTables (SparesOthers uploadAndJoin)
      (twoGroups.start (fun _ p => p) uploadAndJoin) c :=
    Config.play_runsWhen (P := fun _ => True) (fun _ _ _ h => by cases h)
      (fun _ _ _ _ _ _ => trivial) (fun _ _ _ _ _ ht _ hs => sparesOthers_of_test ht hs)
      (fun _ _ _ ht _ => by cases ht) hc trivial
  exact ⟨c, hruns, htested, acts_for_member (fun _ => rfl) (fun _ => rfl) hruns⟩

/-- `u` uploads to `g` and to `h` at the same time. -/
def uploadTwice (i : Fin 2) : Command :=
  match i with
  | 0 => .uploadFile "x".toList "1".toList "g".toList "u".toList "f".toList "p".toList
  | 1 => .uploadFile "y".toList "1".toList "h".toList "u".toList "f".toList "p".toList

/-- The second handler fills `group_members` between the first one's call and its test, and the
    upload to a group without the user goes ahead. -/
theorem acts_for_stranger : ∃ c : Config callSig (Audit (Fin 2)) (Fin 2) Reply,
    Config.Runs (auditInterp fun _ => []) KeepsTables
        (twoGroups.start (fun _ p => p) uploadTwice) c ∧
      (uploadTwice 0).check = some ("g".toList, "u".toList) ∧
      (∃ o k, c.thread 0 = .call o k) ∧ c.shared.tested 0 = true ∧
      ¬ ∃ ms, c.shared.fetched 0 = some ("g".toList, ms) ∧ "u".toList ∈ ms := by
  let act : Unit → Audit (Fin 2) → Option (Audit (Fin 2)) := fun _ _ => none
  let schedule : List (Fin 2) := [0, 0, 1, 1, 0]
  let run := (twoGroups.start (fun _ p => p) uploadTwice).play (auditInterp fun _ => []) act
    (fun _ _ => true) (schedule.map .call)
  have hrun : (run.any fun c => !(c.thread 0).isRet && c.shared.tested 0 &&
      decide (c.shared.fetched 0 = some ("g".toList, ["o".toList]))) = true := by
    decide +kernel
  obtain ⟨c, hc, hend⟩ := (Option.any_eq_true _ _).mp hrun
  simp only [Bool.and_eq_true, Bool.not_eq_true', decide_eq_true_eq] at hend
  obtain ⟨⟨hcall, htested⟩, hfetched⟩ := hend
  have hact : ∀ m s s', act m s = some s' → KeepsTables m s s' := fun _ _ _ h => by cases h
  refine ⟨c, Config.play_runs hact hc, rfl, (Prog.not_isRet_iff _).mp hcall, htested, ?_⟩
  rintro ⟨ms, hms, hu⟩
  rw [hfetched] at hms
  cases hms
  revert hu
  decide

end TorrentShare
