import Mathlib.Data.List.Basic
import Mathlib.Logic.Relation
import TorrentShare.Replication.Pair

/-!
# The accept loops of the two trackers

`TrackerServer` starts a thread for each connection it accepts, and after every 51st it accepts
none until all 51 threads have returned. A handler that performs a `Sync` connects to the sibling
twice: `IsOnline` connects and closes at once, and the second connection waits in its TLS handshake
until the sibling has accepted it and started a thread for it.
-/

namespace TorrentShare

/-- A connection at a tracker's port: a client whose command performs `syncs` transfers, the one
    of `IsOnline`, or the one of a `Sync` of the sibling's thread `tid[slot]`. -/
inductive Connection where
  | client (syncs : ℕ)
  | isOnline
  | sync (slot : ℕ)
  deriving DecidableEq

/-- What a thread of `TrackerKernel` is about to do, with the number of `Sync` calls that come after
    the current one. -/
inductive Handler where
  | serving (syncs : ℕ)
  | online (syncs : ℕ)
  | handshake (syncs : ℕ)
  | sending (syncs : ℕ)
  | receiving
  | refusing
  | returned
  deriving DecidableEq

/-- `TrackerServer` of one tracker: the connections not yet accepted, the threads
    `tid[0],...,tid[counter-1]`, and whether the loop is joining them. -/
structure Server where
  queue : List Connection := []
  tid : List Handler := []
  joining : Bool := false
  deriving DecidableEq

abbrev Servers := Side → Server

/-- The thread that is started for a connection. -/
def Connection.handler : Connection → Handler
  | .client syncs => .serving syncs
  | .isOnline     => .refusing
  | .sync _       => .receiving

/-- The handshake of a thread is completed. -/
def Handler.shake : Handler → Handler
  | .handshake syncs => .sending syncs
  | h                => h

/-- The next step of the thread `tid[slot]`, and the connection it makes to the sibling. A thread
    in its handshake waits. -/
def Handler.advance (slot : ℕ) : Handler → Option (Handler × List Connection)
  | .serving 0           => some (.returned, [])
  | .serving (syncs + 1) => some (.online syncs, [.isOnline])
  | .online syncs        => some (.handshake syncs, [.sync slot])
  | .handshake _         => none
  | .sending syncs       => some (.serving syncs, [])
  | .receiving           => some (.returned, [])
  | .refusing            => some (.returned, [])
  | .returned            => none

/-- The threads of the sibling when a connection is accepted. -/
def Connection.accepted : Connection → List Handler → List Handler
  | .sync slot, tid => tid.modify slot Handler.shake
  | _,          tid => tid

/-- A client connects, a loop accepts a connection, a thread goes on, a loop has joined all. -/
inductive Server.Event where
  | connects (i : Side) (syncs : ℕ)
  | accepts (i : Side)
  | proceeds (i : Side) (slot : ℕ)
  | joins (i : Side)

/-- The loop after it has accepted the connection: `if(counter>50)` it joins. -/
def Server.accept (s : Server) (c : Connection) (rest : List Connection) : Server where
  queue := rest
  tid := s.tid ++ [c.handler]
  joining := decide (50 < s.tid.length + 1)

def Servers.act (s : Servers) : Server.Event → Option Servers
  | .connects i syncs => some (Function.update s i
      { s i with queue := (s i).queue ++ [.client syncs] })
  | .accepts i =>
    match (s i).joining, (s i).queue with
    | false, c :: rest =>
      some (Function.update (Function.update s i ((s i).accept c rest)) i.sibling
        { s i.sibling with tid := c.accepted (s i.sibling).tid })
    | _, _ => none
  | .proceeds i slot => ((s i).tid[slot]?.bind (Handler.advance slot)).map fun x =>
      Function.update (Function.update s i { s i with tid := (s i).tid.set slot x.1 }) i.sibling
        { s i.sibling with queue := (s i.sibling).queue ++ x.2 }
  | .joins i =>
    if (s i).joining ∧ ∀ h ∈ (s i).tid, h = .returned then
      some (Function.update s i { s i with tid := [], joining := false })
    else none

/-- The loop of tracker `i` is joining a thread that waits for its handshake with the sibling. -/
def Servers.Waits (s : Servers) (i : Side) : Prop :=
  (s i).joining = true ∧ ∃ syncs, Handler.handshake syncs ∈ (s i).tid

/-- The two trackers wait for each other. -/
def Servers.Deadlocked (s : Servers) : Prop := ∀ i, s.Waits i

/-- The thread has a handshake to make or to wait for. -/
def Handler.needsSibling : Handler → Bool
  | .serving syncs => syncs ≠ 0
  | .online _      => true
  | .handshake _   => true
  | .sending syncs => syncs ≠ 0
  | _              => false

/-- The step on which the loops lock each other: a loop accepts its 51st connection while the
    sibling's is joining, and among the threads of each one needs the other tracker. -/
def Servers.locks (s : Servers) : Server.Event → Bool
  | .accepts i =>
    match (s i).queue with
    | []     => false
    | c :: _ => 50 < (s i).tid.length + 1 && (s i.sibling).joining &&
        ((s i).tid ++ [c.handler]).any Handler.needsSibling &&
        (c.accepted (s i.sibling).tid).any Handler.needsSibling
  | _ => false

/-- A step of a run whose events meet a condition. -/
def Servers.StepWhen (C : Servers → Server.Event → Prop) (s s' : Servers) : Prop :=
  ∃ e, C s e ∧ s.act e = some s'

/-- Two trackers that have just been started. -/
def Servers.start : Servers := fun _ => {}

/-! ### Blocked loops -/

/-- The loop is joining, and one of its threads needs the sibling. -/
def Server.Blocked (s : Server) : Prop := s.joining = true ∧ s.tid.any Handler.needsSibling = true

variable {s s' : Servers}

/-- Neither loop gets out when both are blocked, so at most one may be. -/
def Servers.Free (s : Servers) : Prop := ∃ i, ¬ (s i).Blocked

lemma Servers.Deadlocked.blocked (h : s.Deadlocked) (i : Side) : (s i).Blocked := by
  obtain ⟨hjoining, syncs, hmem⟩ := h i
  exact ⟨hjoining, List.any_eq_true.mpr ⟨_, hmem, rfl⟩⟩

lemma Handler.needsSibling_shake {h : Handler} (hn : h.shake.needsSibling = true) :
    h.needsSibling = true := by
  cases h <;> simp_all [Handler.shake, Handler.needsSibling]

/-- A step of a thread, other than its return, keeps what it needs. -/
lemma Handler.needsSibling_advance {slot : ℕ} {h h' : Handler} {cs : List Connection}
    (ha : h.advance slot = some (h', cs)) : h'.needsSibling = h.needsSibling := by
  cases h with
  | serving syncs =>
    cases syncs with
    | zero =>
      cases ha
      rfl
    | succ syncs =>
      cases ha
      simp [Handler.needsSibling]
  | handshake syncs => cases ha
  | returned => cases ha
  | _ =>
    cases ha
    rfl

lemma any_needsSibling_set {tid : List Handler} {slot : ℕ} {h h' : Handler}
    (hh : tid[slot]? = some h) (hn : h'.needsSibling = h.needsSibling) :
    (tid.set slot h').any Handler.needsSibling = tid.any Handler.needsSibling := by
  induction tid generalizing slot with
  | nil => simp
  | cons g tid ih =>
    cases slot with
    | zero =>
      obtain rfl : g = h := by simpa using hh
      simp [hn]
    | succ slot =>
      rw [List.getElem?_cons_succ] at hh
      rw [List.set_cons_succ, List.any_cons, List.any_cons, ih hh]

lemma any_needsSibling_accepted {c : Connection} {tid : List Handler}
    (h : (c.accepted tid).any Handler.needsSibling = true) :
    tid.any Handler.needsSibling = true := by
  cases c with
  | sync slot =>
    obtain ⟨g, hg, hn⟩ := List.any_eq_true.mp h
    obtain ⟨k, hk⟩ := List.mem_iff_getElem?.mp hg
    simp only [Connection.accepted, List.getElem?_modify] at hk
    obtain ⟨g', hg', rfl⟩ := Option.map_eq_some_iff.mp hk
    refine List.any_eq_true.mpr ⟨g', List.mem_of_getElem? hg', ?_⟩
    split_ifs at hn
    · exact Handler.needsSibling_shake hn
    · exact hn
  | client syncs => exact h
  | isOnline => exact h

/-- A loop is not blocked by a step that is not an acceptance of its own. -/
lemma Servers.blocked_of_act {e : Server.Event} (hs : s.act e = some s') {j : Side}
    (he : e ≠ .accepts j) (hj : (s' j).Blocked) : (s j).Blocked := by
  cases e with
  | connects i syncs =>
    cases hs
    by_cases hji : j = i
    · subst hji
      rwa [Function.update_self] at hj
    · rwa [Function.update_of_ne hji] at hj
  | accepts i =>
    obtain rfl : j = i.sibling := by
      rcases Side.eq_or_eq_sibling i j with rfl | h
      · exact absurd rfl he
      · exact h
    simp only [Servers.act] at hs
    split at hs
    · cases hs
      rw [Function.update_self] at hj
      exact ⟨hj.1, any_needsSibling_accepted hj.2⟩
    · cases hs
  | proceeds i slot =>
    simp only [Servers.act, Option.map_eq_some_iff, Option.bind_eq_some_iff] at hs
    obtain ⟨⟨h', cs⟩, ⟨h, hh, ha⟩, rfl⟩ := hs
    rcases Side.eq_or_eq_sibling i j with rfl | rfl
    · rw [Function.update_of_ne (Side.sibling_ne j).symm, Function.update_self] at hj
      refine ⟨hj.1, ?_⟩
      rw [← any_needsSibling_set hh (Handler.needsSibling_advance ha)]
      exact hj.2
    · rwa [Function.update_self] at hj
  | joins i =>
    simp only [Servers.act] at hs
    split_ifs at hs
    cases hs
    by_cases hji : j = i
    · subst hji
      rw [Function.update_self] at hj
      cases hj.1
    · rwa [Function.update_of_ne hji] at hj

/-- The step lemma: a step that does not lock the loops leaves one of them free. -/
lemma Servers.Free.act {e : Server.Event} (h : s.Free) (hl : s.locks e = false)
    (hs : s.act e = some s') : s'.Free := by
  by_contra hblocked
  have hall : ∀ i, (s' i).Blocked := by
    intro i
    by_contra hi
    exact hblocked ⟨i, hi⟩
  obtain ⟨j, hj⟩ := h
  by_cases he : e = .accepts j
  · -- the loop that accepts is the free one, and it blocks on its 51st connection
    subst he
    have hsibling := hall j.sibling
    have hown := hall j
    simp only [Servers.act] at hs
    split at hs
    · rename_i c rest hjoining hqueue
      cases hs
      rw [Function.update_self] at hsibling
      rw [Function.update_of_ne (Side.sibling_ne j).symm, Function.update_self] at hown
      have hfull : 50 < (s j).tid.length + 1 := of_decide_eq_true hown.1
      have hlocks : s.locks (.accepts j) = true := by
        simp only [Servers.locks, hqueue, hfull, decide_true, Bool.true_and, Bool.and_eq_true]
        exact ⟨⟨hsibling.1, hown.2⟩, hsibling.2⟩
      rw [hlocks] at hl
      cases hl
    · cases hs
  · exact hj (Servers.blocked_of_act hs he (hall j))

/-- If no step locks the loops, the trackers never wait for each other. -/
theorem accept_loops_never_deadlocked
    (hrun : Relation.ReflTransGen (Servers.StepWhen fun s e => s.locks e = false)
      Servers.start s) : ¬ s.Deadlocked := by
  have hfree : s.Free := by
    induction hrun with
    | refl => exact ⟨.first, fun h => absurd h.1 (by simp [Servers.start])⟩
    | tail _ hs ih =>
      obtain ⟨e, hl, hs⟩ := hs
      exact ih.act hl hs
  obtain ⟨i, hi⟩ := hfree
  exact fun hdead => hi (hdead.blocked i)

/-! ### Locked loops -/

/-- A step of a thread keeps a blocked loop blocked. -/
lemma Servers.blocked_act {e : Server.Event} (hs : s.act e = some s')
    (h : ∀ i, (s i).Blocked) (j : Side) : (s' j).Blocked := by
  cases e with
  | connects i syncs =>
    cases hs
    by_cases hji : j = i
    · subst hji
      rw [Function.update_self]
      exact h j
    · rw [Function.update_of_ne hji]
      exact h j
  | accepts i =>
    simp only [Servers.act, (h i).1] at hs
    cases hs
  | proceeds i slot =>
    simp only [Servers.act, Option.map_eq_some_iff, Option.bind_eq_some_iff] at hs
    obtain ⟨⟨h', cs⟩, ⟨g, hg, ha⟩, rfl⟩ := hs
    rcases Side.eq_or_eq_sibling i j with rfl | rfl
    · rw [Function.update_of_ne (Side.sibling_ne j).symm, Function.update_self]
      refine ⟨(h j).1, ?_⟩
      rw [any_needsSibling_set hg (Handler.needsSibling_advance ha)]
      exact (h j).2
    · rw [Function.update_self]
      exact h i.sibling
  | joins i =>
    simp only [Servers.act] at hs
    split_ifs at hs with hall
    obtain ⟨g, hg, hn⟩ := List.any_eq_true.mp (h i).2
    rw [hall.2 g hg] at hn
    cases hn

/-- A step of any run. -/
abbrev Servers.Step : Servers → Servers → Prop := Servers.StepWhen fun _ _ => True

/-- How far a thread is from its next handshake. -/
def Handler.distance : Handler → ℕ
  | .sending _ => 3
  | .serving _ => 2
  | .online _  => 1
  | _          => 0

lemma Handler.advance_distance {h : Handler} (slot : ℕ) (hn : h.needsSibling = true) :
    (∃ syncs, h = .handshake syncs) ∨ ∃ h' cs, h.advance slot = some (h', cs) ∧
      h'.needsSibling = true ∧ h'.distance < h.distance := by
  cases h with
  | serving syncs =>
    cases syncs with
    | zero => cases hn
    | succ syncs => exact Or.inr ⟨_, _, rfl, rfl, by simp [Handler.distance]⟩
  | online syncs => exact Or.inr ⟨_, _, rfl, rfl, by simp [Handler.distance]⟩
  | handshake syncs => exact Or.inl ⟨syncs, rfl⟩
  | sending syncs => exact Or.inr ⟨_, _, rfl, hn, by simp [Handler.distance]⟩
  | receiving => cases hn
  | refusing => cases hn
  | returned => cases hn

/-- A step of the thread `tid[slot]` of tracker `i`. -/
lemma Servers.proceeds {i : Side} {slot : ℕ} {h h' : Handler} {cs : List Connection}
    (hh : (s i).tid[slot]? = some h) (ha : h.advance slot = some (h', cs)) :
    ∃ s', Servers.Step s s' ∧ (s' i).tid[slot]? = some h' ∧
      (s' i.sibling).tid = (s i.sibling).tid := by
  let s' : Servers := Function.update (Function.update s i
    { s i with tid := (s i).tid.set slot h' }) i.sibling
      { s i.sibling with queue := (s i.sibling).queue ++ cs }
  have hact : s.act (.proceeds i slot) = some s' := by
    simp only [Servers.act, hh, Option.bind_some, ha, Option.map_some]
    rfl
  refine ⟨s', ⟨.proceeds i slot, trivial, hact⟩, ?_, ?_⟩
  · simp only [s']
    rw [Function.update_of_ne (Side.sibling_ne i).symm, Function.update_self,
      List.getElem?_set_self (List.getElem?_eq_some_iff.mp hh).1]
  · simp only [s', Function.update_self]

/-- A thread that needs the sibling goes on by itself as far as its next handshake, and no thread
    of the sibling moves. -/
lemma Servers.reaches_handshake {i : Side} {slot : ℕ} {h : Handler}
    (hh : (s i).tid[slot]? = some h) (hn : h.needsSibling = true) :
    ∃ s', Relation.ReflTransGen Servers.Step s s' ∧ (∃ syncs, .handshake syncs ∈ (s' i).tid) ∧
      (s' i.sibling).tid = (s i.sibling).tid := by
  induction hd : h.distance using Nat.strong_induction_on generalizing s h with
  | _ d ih =>
    rcases Handler.advance_distance slot hn with ⟨syncs, rfl⟩ | ⟨h', cs, ha, hn', hlt⟩
    · exact ⟨s, .refl, ⟨syncs, List.mem_of_getElem? hh⟩, rfl⟩
    · obtain ⟨s₁, hs₁, hh₁, hsib₁⟩ := Servers.proceeds hh ha
      obtain ⟨s₂, hs₂, hw, hsib₂⟩ := ih _ (hd ▸ hlt) hh₁ hn' rfl
      exact ⟨s₂, .head hs₁ hs₂, hw, hsib₂.trans hsib₁⟩

lemma Servers.blocked_reaches (h : ∀ i, (s i).Blocked)
    (hrun : Relation.ReflTransGen Servers.Step s s') (i : Side) : (s' i).Blocked := by
  induction hrun generalizing i with
  | refl => exact h i
  | tail _ hs ih =>
    obtain ⟨e, -, hs⟩ := hs
    exact Servers.blocked_act hs ih i

/-- Two blocked loops never get out, and a deadlock can be reached from them. -/
theorem blocked_loops_deadlock (h : ∀ i, (s i).Blocked) :
    (∀ s', Relation.ReflTransGen Servers.Step s s' → ∀ i, (s' i).Blocked) ∧
      ∃ s', Relation.ReflTransGen Servers.Step s s' ∧ s'.Deadlocked := by
  refine ⟨fun s' hrun => Servers.blocked_reaches h hrun, ?_⟩
  obtain ⟨g, hg, hn⟩ := List.any_eq_true.mp (h .first).2
  obtain ⟨k, hk⟩ := List.mem_iff_getElem?.mp hg
  obtain ⟨s₁, hs₁, ⟨n, hwait₁⟩, -⟩ := Servers.reaches_handshake hk hn
  obtain ⟨g', hg', hn'⟩ := List.any_eq_true.mp (Servers.blocked_reaches h hs₁ .second).2
  obtain ⟨k', hk'⟩ := List.mem_iff_getElem?.mp hg'
  obtain ⟨s₂, hs₂, ⟨n', hwait₂⟩, hsame⟩ := Servers.reaches_handshake hk' hn'
  have hblocked := Servers.blocked_reaches h (hs₁.trans hs₂)
  refine ⟨s₂, hs₁.trans hs₂, fun i => ⟨(hblocked i).1, ?_⟩⟩
  cases i with
  | first => exact ⟨n, show _ ∈ (s₂ .first).tid from hsame ▸ hwait₁⟩
  | second => exact ⟨n', hwait₂⟩

/-! ### Schedules -/

/-- Follow a schedule as long as its events pass a test. -/
def Servers.play (test : Servers → Server.Event → Bool) (s : Servers) :
    List Server.Event → Option Servers
  | []      => some s
  | e :: es => if test s e then (s.act e).bind fun s' => s'.play test es else none

lemma Servers.play_run {C : Servers → Server.Event → Prop}
    {test : Servers → Server.Event → Bool} {es : List Server.Event}
    (hC : ∀ s e, test s e = true → C s e) (h : s.play test es = some s') :
    Relation.ReflTransGen (Servers.StepWhen C) s s' := by
  induction es generalizing s with
  | nil =>
    cases h
    exact .refl
  | cons e es ih =>
    simp only [Servers.play] at h
    split_ifs at h with htest
    obtain ⟨s₁, hs₁, h⟩ := Option.bind_eq_some_iff.mp h
    exact .head ⟨e, hC s e htest, hs₁⟩ (ih h)

/-- A command with one transfer at the first tracker, whose two connections the second accepts. -/
def oneSync : List Server.Event :=
  [.connects .first 1, .accepts .first, .proceeds .first 0, .proceeds .first 0, .accepts .second,
   .accepts .second, .proceeds .first 0, .proceeds .first 0, .proceeds .second 1]

theorem accept_loops_never_deadlocked_oneSync : ∃ s : Servers,
    Relation.ReflTransGen (Servers.StepWhen fun s e => s.locks e = false) Servers.start s ∧
      (s .first).tid = [.returned] ∧ ¬ s.Deadlocked := by
  have hcheck : ((Servers.start.play (fun s e => !s.locks e) oneSync).any fun s =>
      decide ((s .first).tid = [.returned])) = true := by
    decide +kernel
  obtain ⟨s, hs, hreturned⟩ := (Option.any_eq_true _ _).mp hcheck
  have hrun := Servers.play_run (C := fun s e => s.locks e = false)
    (fun s e h => by simpa using h) hs
  exact ⟨s, hrun, of_decide_eq_true hreturned, accept_loops_never_deadlocked hrun⟩

/-- 51 clients at each tracker, with a transfer in the first command of each, and both loops accept
    all of them before a transfer begins. -/
def fullBatches : List Server.Event :=
  [Side.first, Side.second].flatMap (fun i =>
    .connects i 1 :: List.replicate 50 (.connects i 0) ++ List.replicate 51 (.accepts i)) ++
  [Side.first, Side.second].flatMap fun i => [.proceeds i 0, .proceeds i 0]

/-- Both loops join a thread that waits for the other tracker. -/
theorem full_batches_deadlock : ∃ s : Servers,
    Relation.ReflTransGen Servers.Step Servers.start s ∧ s.Deadlocked := by
  have hcheck : ((Servers.start.play (fun _ _ => true) fullBatches).any fun s =>
      decide ((s .first).joining = true ∧ .handshake 0 ∈ (s .first).tid ∧
        (s .second).joining = true ∧ .handshake 0 ∈ (s .second).tid)) = true := by
    decide +kernel
  obtain ⟨s, hs, hcheck⟩ := (Option.any_eq_true _ _).mp hcheck
  obtain ⟨hjoin₁, hwait₁, hjoin₂, hwait₂⟩ := of_decide_eq_true hcheck
  refine ⟨s, Servers.play_run (fun _ _ _ => trivial) hs, fun i => ?_⟩
  cases i with
  | first => exact ⟨hjoin₁, 0, hwait₁⟩
  | second => exact ⟨hjoin₂, 0, hwait₂⟩

end TorrentShare
