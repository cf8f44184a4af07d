import TorrentShare.Program.Threads
import TorrentShare.Tracker.Session

/-!
# The handler threads of a tracker

The handlers of one tracker process run as threads, one primitive operation at a time.
-/

namespace TorrentShare

open Program

variable {ι : Type}

/-- A tracker process with handler threads `ι`: its files and tables, whether the sibling accepts
    connections, and who holds `file_lock`. `between` is a history variable: the threads that
    have called lock and not yet unlock. -/
structure Host (ι : Type) where
  tracker : Tracker
  siblingOnline : Bool
  holder : Option ι := none
  between : ι → Bool := fun _ => false

namespace Host

def disk (s : Host ι) : Disk := s.tracker.disk

def setDisk (s : Host ι) (d : Disk) : Host ι := { s with tracker := { s.tracker with disk := d } }

def setMemory (s : Host ι) (m : Memory) : Host ι :=
  { s with tracker := { s.tracker with memory := m } }

/-- `Sync` changes nothing at its own tracker. The process does not survive reading from a file
    that could not be opened. -/
def sync (s : Host ι) (p : Path) : Option (Host ι) :=
  if s.siblingOnline ∧ s.disk.read p = none then none else some s

@[simp] lemma disk_setDisk (s : Host ι) (d : Disk) : (s.setDisk d).disk = d := rfl
@[simp] lemma disk_setMemory (s : Host ι) (m : Memory) : (s.setMemory m).disk = s.disk := rfl
@[simp] lemma holder_setDisk (s : Host ι) (d : Disk) : (s.setDisk d).holder = s.holder := rfl
@[simp] lemma holder_setMemory (s : Host ι) (m : Memory) : (s.setMemory m).holder = s.holder := rfl
@[simp] lemma between_setDisk (s : Host ι) (d : Disk) : (s.setDisk d).between = s.between := rfl
@[simp] lemma between_setMemory (s : Host ι) (m : Memory) :
    (s.setMemory m).between = s.between := rfl

end Host

variable [DecidableEq ι]

/-- The meaning of an operation of thread `i`. A thread waits for `file_lock` while somebody
    holds it; an unlock releases it whoever calls. -/
def hostInterp (salt : ι → Str) (i : ι) : Interp primSig (Host ι)
  | .lock, s =>
    if s.holder = none then
      some ((), { s with holder := some i, between := Function.update s.between i true })
    else none
  | .unlock, s =>
    some ((), { s with holder := none, between := Function.update s.between i false })
  | .memory,       s => some (s.tracker.memory, s)
  | .modify f,     s => some ((), s.setMemory (f s.tracker.memory))
  | .read p,       s => some (s.disk.read p, s)
  | .append p t,   s => some ((), s.setDisk (s.disk.append p t))
  | .create p t,   s => some ((), s.setDisk (s.disk.create p t))
  | .remove p,     s => some ((), s.setDisk (s.disk.remove p))
  | .rename p q,   s => some ((), s.setDisk (s.disk.rename p q))
  | .generateSalt, s => some (salt i, s)
  | .sync p,       s => (s.sync p).map fun s' => ((), s')
  | .fault,        _ => none

/-! ### Bodies on a host -/

/-- The operations that only look at or change files and tables. -/
@[simp] def Prim.local : Prim → Prop
  | .lock         => False
  | .unlock       => False
  | .sync _       => False
  | .generateSalt => False
  | _             => True

/-- The host as one run of a handler sees it. -/
def Host.session (s : Host ι) : Session := ⟨s.tracker, [], s.siblingOnline, []⟩

/-- A run of local operations on a host is the run on its files and tables. -/
lemma run_host_of_local {α : Type} {salt : ι → Str} {i : ι} {p : Prog primSig α}
    (hp : p.Only Prim.local) {s s' : Host ι} {a : α}
    (hs : p.run (hostInterp salt i) s = some (a, s')) :
    ∃ t, p.run primInterp s.session = some (a, t) ∧ s' = { s with tracker := t.tracker } := by
  induction p generalizing s with
  | ret b =>
    cases hs
    exact ⟨_, rfl, rfl⟩
  | call o k ih =>
    rw [Prog.run_call, Option.bind_eq_some_iff] at hs
    obtain ⟨⟨b, r⟩, hb, hs⟩ := hs
    obtain ⟨t, ht, rfl⟩ := ih b (hp.2 b trivial) hs
    have hcall : primInterp o s.session = some (b, r.session) ∧
        r = { s with tracker := r.tracker } := by
      cases o with
      | lock => exact hp.1.elim
      | unlock => exact hp.1.elim
      | sync p => exact hp.1.elim
      | generateSalt => exact hp.1.elim
      | fault => cases hb
      | _ =>
        cases hb
        exact ⟨rfl, rfl⟩
    refine ⟨t, ?_, ?_⟩
    · rw [Prog.run_call, hcall.1]
      exact ht
    · rw [hcall.2]

lemma Prim.local_of_loads (o : Prim) (h : o.loads) : o.local := by
  cases o <;> first | exact h.elim | trivial

lemma Prim.local_of_onDisk (o : Prim) (h : o.onDisk) : o.local := by
  cases o <;> first | exact h.elim | trivial

section Bodies

variable {salt : ι → Str} {i : ι} {s s' : Host ι}

lemma hostInterp_lock {a : Unit} (hs : hostInterp salt i .lock s = some (a, s')) :
    s.holder = none ∧
      s' = { s with holder := some i, between := Function.update s.between i true } := by
  simp only [hostInterp] at hs
  split_ifs at hs with hfree
  cases hs
  exact ⟨hfree, rfl⟩

lemma hostInterp_sync {p : Path} {a : Unit} (hs : hostInterp salt i (.sync p) s = some (a, s')) :
    s' = s := by
  obtain ⟨t, ht, heq⟩ := Option.map_eq_some_iff.mp hs
  cases heq
  unfold Host.sync at ht
  split_ifs at ht
  cases ht
  rfl

lemma hostRun_prim (o : Prim) :
    (callBody (.prim o)).run (hostInterp salt i) s = hostInterp salt i o s := by
  cases h : hostInterp salt i o s <;> simp [callBody, prim, h]

/-- `FetchGroupMembers` makes `group_members` what the file holds. -/
lemma hostRun_fetchGroupMembers {g : Str} {a : Unit}
    (hs : (callBody (.fetchGroupMembers g)).run (hostInterp salt i) s = some (a, s')) :
    s'.disk = s.disk ∧ s'.tracker.memory.groupMembers = s.disk.members g := by
  simp only [callBody, fetchGroupMembersBody, prim, Prog.call_bind, Prog.ret_bind, Prog.run_call,
    Option.bind_eq_some_iff] at hs
  obtain ⟨⟨_, s₁⟩, hlock, ⟨_, s₂⟩, hclear, ⟨t, s₃⟩, hread, ⟨_, s₄⟩, hfill, ⟨_, s₅⟩, hunlock,
    hs⟩ := hs
  obtain ⟨-, rfl⟩ := hostInterp_lock hlock
  cases hclear
  cases hread
  cases hfill
  cases hunlock
  cases hs
  refine ⟨rfl, ?_⟩
  simp [Host.setMemory, Host.disk, Disk.members, Disk.lines, Disk.text]

/-- `FetchDetails` changes no file, except that a missing one becomes empty. -/
lemma hostRun_fetchDetails {a : Unit}
    (hs : (callBody .fetchDetails).run (hostInterp salt i) s = some (a, s')) :
    s'.disk = s.disk.reloaded := by
  simp only [callBody, fetchDetailsBody, prim, Prog.call_bind, Prog.ret_bind, Prog.run_call,
    Prog.run_bind, Option.bind_eq_some_iff] at hs
  obtain ⟨⟨_, s₁⟩, hclear, ⟨_, s₂⟩, hlock, ⟨_, s₃⟩, hload, ⟨_, s₄⟩, hunlock, hs⟩ := hs
  cases hclear
  obtain ⟨-, rfl⟩ := hostInterp_lock hlock
  obtain ⟨t, ht, rfl⟩ := run_host_of_local (loadDetails_loads.mono Prim.local_of_loads) hload
  cases hunlock
  cases hs
  rw [run_loadDetails] at ht
  obtain ⟨m, -, heq⟩ := Option.map_eq_some_iff.mp ht
  cases heq
  rfl

/-- A rewrite changes the file and the temporary file only. -/
lemma hostRun_rewrite {mode : OpenMode} {p : Path} {drop : Str → Option Bool} {a : Unit}
    (hs : (callBody (.rewrite mode p drop)).run (hostInterp salt i) s = some (a, s')) :
    ∃ ks, s'.disk = s.disk.rewritten mode p ks := by
  have hlocal := (rewriteBody_onDisk mode p drop).mono Prim.local_of_onDisk
  obtain ⟨t, ht, rfl⟩ := run_host_of_local hlocal hs
  have hrewrite := callInterp_rewrite mode p drop s.session
  rw [callInterp, callBody, ht] at hrewrite
  obtain ⟨ks, -, heq⟩ := Option.map_eq_some_iff.mp hrewrite.symm
  cases heq
  exact ⟨ks, rfl⟩

end Bodies

/-- The program of a handler thread. -/
def handler (hashPassword : Str → Str → Str) (c : Command) : Prog primSig Reply :=
  (trackerKernel hashPassword c).inline callBody

/-- A tracker process whose threads are about to start with their commands. -/
def Host.start (hashPassword : Str → Str → Str) (s : Host ι) (command : ι → Command) :
    Config primSig (Host ι) ι Reply :=
  ⟨s, fun i => handler hashPassword (command i)⟩

end TorrentShare
