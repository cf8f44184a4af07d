import Mathlib.Data.Finset.Basic
import TorrentShare.Tracker.Session

/-!
# Open files and sockets

A thread that handles a connection opens and closes files and sockets. `Sync` opens the file before
it asks whether the sibling is online, and the question opens a socket of its own.
-/

namespace TorrentShare

open Program

/-! ### Calls -/

/-- The calls of a thread, with `Sync` taken apart. Streams that are opened for one call of a
    handler are closed by it. -/
inductive Io where
  | call (o : Call)
  | accept
  | fopen (p : Path)
  | socket
  | connect (sock : ℕ)
  | handshake (sock : ℕ)
  | send (f : Option ℕ) (p : Path)
  | close (sock : ℕ)
  | fclose (f : Option ℕ)
  | exit

abbrev ioAns : Io → Type
  | .call o      => callAns o
  | .accept      => ℕ
  | .fopen _     => Option ℕ
  | .socket      => ℕ
  | .connect _   => Bool
  | .handshake _ => Bool
  | .exit        => Empty
  | _            => Unit

abbrev ioSig : Sig := ⟨Io, ioAns⟩

def io (o : Io) : Prog ioSig (ioAns o) := Prog.call (S := ioSig) o .ret

def isOnline : Prog ioSig Bool := do
  let sock ← io .socket
  if ← io (.connect sock) then
    io (.close sock)
    return true
  else
    return false

/-- `Sync` after it has found the sibling online. The process does not survive a `connect` that
    fails now. -/
def transfer (f : Option ℕ) (filename : Path) : Prog ioSig Unit := do
  let sock ← io .socket
  if ← io (.connect sock) then
    if ← io (.handshake sock) then
      io (.send f filename)
      io (.close sock)
      io (.fclose f)
    else
      io (.close sock)
      io (.fclose f)
  else
    let nothing ← io .exit
    nothing.elim

def sync (filename : Path) : Prog ioSig Unit := do
  let f ← io (.fopen filename)
  if ← isOnline then
    transfer f filename
  else
    return

def ioBody : (o : Call) → Prog ioSig (callAns o)
  | .prim (.sync p) => sync p
  | o               => io (.call o)

/-- `accept` in `TrackerServer`, and what `TrackerKernel` does with the connection. -/
def connectionThread (hashPassword : Str → Str → Str) (c : Command) : Prog ioSig Reply := do
  let newCli ← io .accept
  if ← io (.handshake newCli) then
    let reply ← (trackerKernel hashPassword c).inline ioBody
    io (.close newCli)
    return reply
  else
    io (.close newCli)
    return none

/-! ### Handles -/

/-- A tracker process: its state, the handles that are open, the number of the next one, what the
    network will answer to each question, and what has been asked of it. Handles are numbered in the
    order in which they are opened. -/
structure Process where
  session : Session
  opened : Finset ℕ
  next : ℕ
  fresh : ∀ h ∈ opened, h < next
  net : List Bool
  asked : List (Io × Bool) := []

namespace Process

def allocate (s : Process) : Process :=
  { s with
    opened := insert s.next s.opened
    next := s.next + 1
    fresh := by
      intro a ha
      rcases Finset.mem_insert.mp ha with rfl | ha
      · exact Nat.lt_succ_self _
      · exact Nat.lt_succ_of_lt (s.fresh a ha) }

def release (s : Process) (h : ℕ) : Process :=
  { s with
    opened := s.opened.erase h
    fresh := fun a ha => s.fresh a (Finset.mem_of_mem_erase ha) }

/-- The answer of the network to a question. -/
def ask (s : Process) (o : Io) : Bool × Process :=
  (s.net.headD false, { s with net := s.net.tail, asked := s.asked ++ [(o, s.net.headD false)] })

end Process

/-- The meaning of the calls. A file that is not there is not opened, and the process does not
    survive reading or closing it. -/
def ioInterp : Interp ioSig Process
  | .call o, s      => (callInterp o s.session).map fun r => (r.1, { s with session := r.2 })
  | .accept, s      => some (s.next, s.allocate)
  | .socket, s      => some (s.next, s.allocate)
  | .fopen p, s     =>
    if (s.session.disk.read p).isSome then some (some s.next, s.allocate) else some (none, s)
  | .connect h, s   => some (s.ask (.connect h))
  | .handshake h, s => some (s.ask (.handshake h))
  | .send f p, s    => f.bind fun _ => (s.session.sync p).map fun r => ((), { s with session := r })
  | .close h, s     => some ((), s.release h)
  | .fclose f, s    => f.map fun h => ((), s.release h)
  | .exit, _        => none

section Sync

variable {s s' : Process} {p : Path}

lemma Process.not_mem_opened (s : Process) {sock : ℕ} (hsock : s.next ≤ sock) :
    sock ∉ s.opened :=
  fun hmem => absurd (s.fresh sock hmem) (Nat.not_lt.mpr hsock)

lemma run_io_bind {α : Type} (o : Io) (f : ioAns o → Prog ioSig α) (s : Process) :
    (io o >>= f).run ioInterp s = (ioInterp o s).bind fun r => (f r.1).run ioInterp r.2 := by
  rw [Prog.run_bind, io, Prog.run_call]
  cases ioInterp o s <;> rfl

/-- `IsOnline` closes its socket just when it answers `true`. -/
lemma run_isOnline (s : Process) : isOnline.run ioInterp s =
    some (s.net.headD false,
      let s₁ := (s.allocate.ask (.connect s.next)).2
      if s.net.headD false then s₁.release s.next else s₁) := by
  rw [isOnline, run_io_bind]
  show (io (.connect s.next) >>= _).run ioInterp s.allocate = _
  rw [run_io_bind]
  show (if s.net.headD false then _ else _ : Prog ioSig Bool).run ioInterp _ = _
  cases s.net.headD false with
  | true => rfl
  | false => rfl

/-- The socket and the file are closed whatever the handshake gives. -/
lemma run_transfer {f : Option ℕ}
    (h : (transfer f p).run ioInterp s = some ((), s')) :
    ∃ a b, f = some a ∧ s'.opened = s.opened.erase a ∧
      s'.asked = s.asked ++ [(.connect s.next, true), (.handshake s.next, b)] := by
  have hclosed : ∀ a, ((insert s.next s.opened).erase s.next).erase a = s.opened.erase a := by
    intro a
    rw [Finset.erase_insert (s.not_mem_opened le_rfl)]
  rw [transfer, run_io_bind] at h
  simp only [ioInterp, Option.bind_some] at h
  rw [run_io_bind] at h
  simp only [ioInterp, Option.bind_some, Process.ask] at h
  split_ifs at h with hconnect
  · have hasked : ∀ b, s.allocate.net.tail.headD false = b →
        s.allocate.asked ++ [(Io.connect s.next, s.allocate.net.headD false)] ++
          [(Io.handshake s.next, s.allocate.net.tail.headD false)] =
            s.asked ++ [(.connect s.next, true), (.handshake s.next, b)] := by
      rintro b rfl
      rw [hconnect]
      exact List.append_assoc _ _ _
    rw [run_io_bind] at h
    simp only [ioInterp, Option.bind_some, Process.ask] at h
    split_ifs at h with hhandshake
    · rw [run_io_bind] at h
      simp only [ioInterp] at h
      cases f with
      | none => cases h
      | some a =>
        obtain ⟨⟨u, s₁⟩, hsend, h⟩ := Option.bind_eq_some_iff.mp h
        rw [Option.bind_some] at hsend
        obtain ⟨r, -, heq⟩ := Option.map_eq_some_iff.mp hsend
        cases heq
        rw [run_io_bind] at h
        cases h
        refine ⟨a, true, rfl, hclosed a, ?_⟩
        exact hasked true hhandshake
    · rw [run_io_bind] at h
      cases f with
      | none => cases h
      | some a =>
        cases h
        refine ⟨a, false, rfl, hclosed a, ?_⟩
        exact hasked false (Bool.eq_false_of_not_eq_true hhandshake)
  · rw [run_io_bind] at h
    cases h

/-- A `Sync` that finds the sibling offline keeps a socket, and one that finds it online keeps
    nothing. -/
lemma run_sync (h : (sync p).run ioInterp s = some ((), s')) :
    (∃ sock ∉ s.opened, insert sock s.opened ⊆ s'.opened ∧
      s'.asked = s.asked ++ [(.connect sock, false)]) ∨
    (s'.opened = s.opened ∧ ∃ sock sock' b,
      s'.asked = s.asked ++ [(.connect sock, true), (.connect sock', true),
        (.handshake sock', b)]) := by
  -- the file is open, or it is not there
  obtain ⟨f, s₀, hopen, hrun⟩ : ∃ f s₀, (f = some s.next ∧ s₀ = s.allocate ∨
      f = none ∧ s₀ = s) ∧ (isOnline >>= fun b =>
        if b then transfer f p else .ret ()).run ioInterp s₀ = some ((), s') := by
    rw [sync, run_io_bind] at h
    simp only [ioInterp] at h
    split_ifs at h with hthere
    · exact ⟨_, _, Or.inl ⟨rfl, rfl⟩, h⟩
    · exact ⟨_, _, Or.inr ⟨rfl, rfl⟩, h⟩
  have hsub : s.opened ⊆ s₀.opened := by
    rcases hopen with ⟨-, rfl⟩ | ⟨-, rfl⟩
    · exact Finset.subset_insert _ _
    · exact Finset.Subset.refl _
  have hasked : s₀.asked = s.asked := by
    rcases hopen with ⟨-, rfl⟩ | ⟨-, rfl⟩ <;> rfl
  have hsock : s₀.next ∉ s.opened := fun hmem => s₀.not_mem_opened le_rfl (hsub hmem)
  rw [Prog.run_bind, run_isOnline, Option.bind_some] at hrun
  cases hnet : s₀.net.headD false with
  | false =>
    simp only [hnet, Bool.false_eq_true, if_false] at hrun
    cases hrun
    refine Or.inl ⟨s₀.next, hsock, ?_, ?_⟩
    · exact Finset.insert_subset_insert _ hsub
    · exact congrArg₂ (fun l b => l ++ [(Io.connect s₀.next, b)]) hasked hnet
  | true =>
    simp only [hnet, if_true] at hrun
    let s₁ := (s₀.allocate.ask (.connect s₀.next)).2.release s₀.next
    have hopened : s₁.opened = s₀.opened := Finset.erase_insert (s₀.not_mem_opened le_rfl)
    obtain ⟨a, b, rfl, hopened', hasked'⟩ := run_transfer hrun
    obtain ⟨heq, rfl⟩ := hopen.resolve_right fun hnone => by cases hnone.1
    obtain rfl : a = s.next := Option.some.inj heq
    have hend : s'.opened = s.opened := by
      rw [hopened', hopened]
      exact Finset.erase_insert (s.not_mem_opened le_rfl)
    refine Or.inr ⟨hend, s₁.next - 1, s₁.next, b, ?_⟩
    rw [hasked']
    show s.allocate.asked ++ [(Io.connect s.allocate.next, s.allocate.net.headD false)] ++ _ = _
    rw [hnet]
    exact List.append_assoc _ _ _

end Sync

/-! ### Commands -/

/-- A `connect` that has been asked for did not reach the sibling. -/
def Process.FoundOffline (s : Process) : Prop := ∃ sock, (Io.connect sock, false) ∈ s.asked

/-- All handles of `held` are open, and others just if the sibling was found offline. -/
structure Holding (held : Finset ℕ) (s : Process) : Prop where
  subset : held ⊆ s.opened
  eq_iff : s.opened = held ↔ ¬ s.FoundOffline

section Commands

variable {hashPassword : Str → Str → Str} {held : Finset ℕ} {s s' : Process}

/-- A `Sync` keeps account of the handles. -/
lemma Holding.sync {p : Path} (h : Holding held s)
    (hrun : (sync p).run ioInterp s = some ((), s')) : Holding held s' := by
  rcases run_sync hrun with ⟨sock, hsock, hsub, hasked⟩ | ⟨hopened, sock, sock', b, hasked⟩
  · have hmore : s'.opened ≠ held := by
      intro he
      apply hsock
      rw [he] at hsub
      exact h.subset (hsub (Finset.mem_insert_self sock s.opened))
    have hoffline : s'.FoundOffline := by
      refine ⟨sock, ?_⟩
      rw [hasked]
      exact List.mem_append_right _ (List.mem_singleton_self _)
    exact ⟨h.subset.trans ((Finset.subset_insert _ _).trans hsub),
      iff_of_false hmore (not_not_intro hoffline)⟩
  · have hoffline : s'.FoundOffline ↔ s.FoundOffline := by
      simp [Process.FoundOffline, hasked]
    exact ⟨hopened ▸ h.subset, by rw [hopened, hoffline]; exact h.eq_iff⟩

/-- The step lemma for the calls of a handler. -/
lemma Holding.step (o : Call) {a : callAns o} (h : Holding held s)
    (hrun : (ioBody o).run ioInterp s = some (a, s')) : Holding held s' := by
  have hcall : ∀ {o : Call} {a : callAns o}, (io (.call o)).run ioInterp s = some (a, s') →
      Holding held s' := by
    intro o a hrun
    rw [io, Prog.run_call, ioInterp] at hrun
    obtain ⟨⟨b, s₁⟩, hcall, heq⟩ := Option.bind_eq_some_iff.mp hrun
    cases heq
    obtain ⟨r, -, heq⟩ := Option.map_eq_some_iff.mp hcall
    cases heq
    exact ⟨h.subset, h.eq_iff⟩
  cases o with
  | prim o =>
    cases o with
    | sync p => exact h.sync hrun
    | _ => exact hcall hrun
  | _ => exact hcall hrun

/-- The run lemma for handlers. -/
lemma Holding.kernel {c : Command} {reply : Reply} (h : Holding held s)
    (hrun : ((trackerKernel hashPassword c).inline ioBody).run ioInterp s = some (reply, s')) :
    Holding held s' := by
  rw [Prog.run_inline] at hrun
  exact Prog.run_invariant (fun o _ _ _ hs₁ hstep => hs₁.step o hstep) h hrun

/-- A connection leaves the handles as they were just if the sibling was never found offline. -/
lemma run_connectionThread {c : Command} {reply : Reply} (hasked : s.asked = [])
    (hrun : (connectionThread hashPassword c).run ioInterp s = some (reply, s')) :
    s'.opened = s.opened ↔ ¬ s'.FoundOffline := by
  have hnew := s.not_mem_opened le_rfl
  rw [connectionThread, run_io_bind] at hrun
  simp only [ioInterp, Option.bind_some] at hrun
  rw [run_io_bind] at hrun
  simp only [ioInterp, Option.bind_some, Process.ask] at hrun
  split_ifs at hrun with hhandshake
  · rw [Prog.run_bind] at hrun
    obtain ⟨⟨r, s₁⟩, hkernel, hrun⟩ := Option.bind_eq_some_iff.mp hrun
    rw [run_io_bind] at hrun
    cases hrun
    have hend : Holding (insert s.next s.opened) s₁ := by
      refine Holding.kernel ?_ hkernel
      refine ⟨Finset.Subset.refl _, iff_of_true rfl ?_⟩
      rintro ⟨sock, hsock⟩
      rw [show s.allocate.asked = [] from hasked, List.nil_append, List.mem_singleton] at hsock
      cases hsock
    refine Iff.trans ?_ hend.eq_iff
    constructor
    · intro he
      have hmem : s.next ∈ s₁.opened := hend.subset (Finset.mem_insert_self _ _)
      rw [← Finset.insert_erase hmem]
      exact congrArg (insert s.next) he
    · intro he
      show s₁.opened.erase s.next = s.opened
      rw [he]
      exact Finset.erase_insert hnew
  · rw [run_io_bind] at hrun
    cases hrun
    refine iff_of_true (Finset.erase_insert hnew) ?_
    rintro ⟨sock, hsock⟩
    have hsock' : (Io.connect sock, false) ∈
        s.asked ++ [(Io.handshake s.next, s.allocate.net.headD false)] := hsock
    rw [hasked, List.nil_append, List.mem_singleton] at hsock'
    cases hsock'

end Commands

/-! ### Sequences of commands -/

/-- A connection with a command: the salt that is drawn if one is, and what the network answers. -/
structure Arrival where
  command : Command
  salt : Str
  net : List Bool

/-- The process when a connection arrives. -/
def Process.meets (s : Process) (x : Arrival) : Process :=
  { s with session := { s.session with salt := x.salt }, net := x.net, asked := [] }

/-- Connections one at a time: the process before and after each of them, and at the end. -/
def serveEach (hashPassword : Str → Str → Str) : Process → List Arrival →
    Option (List (Process × Process) × Process)
  | s, []      => some ([], s)
  | s, x :: xs =>
    ((connectionThread hashPassword x.command).run ioInterp (s.meets x)).bind fun r =>
      (serveEach hashPassword r.2 xs).map fun l => ((s, r.2) :: l.1, l.2)

section Runs

variable {hashPassword : Str → Str → Str} {s s' : Process} {xs : List Arrival}
  {steps : List (Process × Process)}

/-- A sequence of connections leaves the handles after each of them as they were before it just if
    no command of the sequence found the sibling offline. -/
theorem handles_kept_iff (hrun : serveEach hashPassword s xs = some (steps, s')) :
    (∀ e ∈ steps, e.2.opened = e.1.opened) ↔ ∀ e ∈ steps, ¬ e.2.FoundOffline := by
  induction xs generalizing s steps with
  | nil =>
    cases hrun
    exact iff_of_true (fun e he => absurd he List.not_mem_nil)
      fun e he => absurd he List.not_mem_nil
  | cons x xs ih =>
    obtain ⟨⟨reply, s₁⟩, hthread, hrest⟩ := Option.bind_eq_some_iff.mp hrun
    obtain ⟨⟨steps', s₂⟩, hrest', heq⟩ := Option.map_eq_some_iff.mp hrest
    cases heq
    rw [List.forall_mem_cons, List.forall_mem_cons, ih hrest']
    exact and_congr_left' (run_connectionThread (s := s.meets x) rfl hthread)

end Runs

/-- A tracker without files, whose only handle is the socket that it listens on. -/
def freshProcess : Process where
  session := ⟨⟨Disk.empty, {}⟩, [], true, []⟩
  opened := {0}
  next := 1
  fresh := by simp
  net := []

/-- A `create_user` with what the network answers. -/
def createUserArrival (net : List Bool) : Arrival :=
  ⟨.createUser "u".toList "p".toList "1".toList "ip".toList, "s".toList, net⟩

theorem handles_kept_iff_online : ∃ (steps : List (Process × Process)) (s' : Process),
    serveEach (fun _ p => p) freshProcess [createUserArrival (List.replicate 16 true)] =
        some (steps, s') ∧
      ∀ e ∈ steps, e.2.opened = e.1.opened := by
  have hrun : ((serveEach (fun _ p => p) freshProcess
      [createUserArrival (List.replicate 16 true)]).any fun r =>
        r.1.all fun e => e.2.asked.all fun q => q.2) = true := by
    decide +kernel
  obtain ⟨⟨steps, s'⟩, hrun, hanswers⟩ := (Option.any_eq_true _ _).mp hrun
  refine ⟨steps, s', hrun, (handles_kept_iff hrun).mpr ?_⟩
  rintro e he ⟨sock, hsock⟩
  have hasked := List.all_eq_true.mp hanswers e he
  exact Bool.false_ne_true (List.all_eq_true.mp hasked _ hsock)

/-- The five transfers of a `create_user` find the sibling offline. -/
theorem handles_kept_not_offline : ∃ (steps : List (Process × Process)) (s' : Process),
    serveEach (fun _ p => p) freshProcess [createUserArrival [true]] = some (steps, s') ∧
      ¬ ∀ e ∈ steps, e.2.opened = e.1.opened := by
  have hrun : ((serveEach (fun _ p => p) freshProcess [createUserArrival [true]]).any fun r =>
      !r.1.all fun e => decide (e.2.opened = e.1.opened)) = true := by
    decide +kernel
  obtain ⟨⟨steps, s'⟩, hrun, hmore⟩ := (Option.any_eq_true _ _).mp hrun
  refine ⟨steps, s', hrun, fun hkept => ?_⟩
  rw [Bool.not_eq_true', List.all_eq_false] at hmore
  obtain ⟨e, he, hne⟩ := hmore
  exact hne (decide_eq_true (hkept e he))

end TorrentShare
