import Mathlib.Logic.Relation
import TorrentShare.Program.Basic

/-!
# Threads

Any number of threads execute programs over one shared state, one call at a time. The
environment may also move between two calls, for messages in flight.
-/

namespace Program

variable {S : Sig} {σ γ ι ε α : Type}

/-- Threads `ι`, each with what is left of its program, over a shared state. -/
structure Config (S : Sig) (σ ι α : Type) where
  shared : σ
  thread : ι → Prog S α

/-- What a step does: a thread makes a call and gets its answer, or the environment makes one of
    its moves. -/
inductive Event (S : Sig) (ι ε : Type) where
  | call : ι → (o : S.Op) → S.Ans o → Event S ι ε
  | env : ε → Event S ι ε

section Steps

variable [DecidableEq ι]

/-- One step of the interleaving. The meaning of a call may depend on who makes it, and a
    call whose meaning is `none` is not executed: the thread waits. -/
inductive Config.Step (h : ι → Interp S σ) (env : ε → σ → σ → Prop) :
    Config S σ ι α → Event S ι ε → Config S σ ι α → Prop where
  | call (c : Config S σ ι α) (i : ι) (o : S.Op) (k : S.Ans o → Prog S α) (a : S.Ans o) (s : σ)
      (hc : c.thread i = .call o k) (hs : h i o c.shared = some (a, s)) :
      Step h env c (.call i o a) ⟨s, Function.update c.thread i (k a)⟩
  | env (c : Config S σ ι α) (m : ε) (s : σ) (hs : env m c.shared s) :
      Step h env c (.env m) ⟨s, c.thread⟩

/-- Runs whose steps all meet the condition `ok`, a condition on the state before the step and
    on the step. -/
def Config.RunsWhen (h : ι → Interp S σ) (env : ε → σ → σ → Prop)
    (ok : Config S σ ι α → Event S ι ε → Config S σ ι α → Prop) :
    Config S σ ι α → Config S σ ι α → Prop :=
  Relation.ReflTransGen fun c c' => ∃ e, ok c e c' ∧ Config.Step h env c e c'

/-- All runs. -/
abbrev Config.Runs (h : ι → Interp S σ) (env : ε → σ → σ → Prop) :
    Config S σ ι α → Config S σ ι α → Prop :=
  Config.RunsWhen h env fun _ _ _ => True

variable {h : ι → Interp S σ} {env : ε → σ → σ → Prop}

/-- The run lemma: what every step keeps holds in every state of a run. -/
lemma Config.RunsWhen.invariant {ok : Config S σ ι α → Event S ι ε → Config S σ ι α → Prop}
    {P : Config S σ ι α → Prop} {c c' : Config S σ ι α} (hrun : Config.RunsWhen h env ok c c')
    (hstep : ∀ c e c', P c → ok c e c' → Config.Step h env c e c' → P c') (hc : P c) : P c' := by
  induction hrun with
  | refl => exact hc
  | tail _ hlast ih =>
    obtain ⟨e, hok, he⟩ := hlast
    exact hstep _ _ _ ih hok he

lemma Config.RunsWhen.mono {ok ok' : Config S σ ι α → Event S ι ε → Config S σ ι α → Prop}
    (hok : ∀ c e c', ok c e c' → ok' c e c') {c c' : Config S σ ι α}
    (hrun : Config.RunsWhen h env ok c c') : Config.RunsWhen h env ok' c c' := by
  apply Relation.ReflTransGen.mono _ _ _ hrun
  rintro c₁ c₂ ⟨e, he, hs⟩
  exact ⟨e, hok c₁ e c₂ he, hs⟩

/-- A step of a thread is the next operation of its program. -/
lemma Config.Step.next_op {c c' : Config S σ ι α} {i : ι} {o : S.Op} {a : S.Ans o}
    (hs : Config.Step h env c (.call i o a) c') :
    ∃ k, c.thread i = .call o k ∧ h i o c.shared = some (a, c'.shared) := by
  cases hs with
  | call i o k a s hc hs => exact ⟨k, hc, hs⟩

/-! ### Schedules -/

/-- A move of a schedule. -/
inductive Move (ι ε : Type) where
  | call (i : ι)
  | env (m : ε)

/-- Make a move, where the moves of the environment are given by a function. -/
def Config.move (h : ι → Interp S σ) (act : ε → σ → Option σ) (c : Config S σ ι α) :
    Move ι ε → Option (Config S σ ι α)
  | .call i =>
    match c.thread i with
    | .ret _    => none
    | .call o k => (h i o c.shared).map fun r => ⟨r.2, Function.update c.thread i (k r.1)⟩
  | .env m => (act m c.shared).map fun s => ⟨s, c.thread⟩

/-- Follow a schedule, while a test passes. -/
def Config.play (h : ι → Interp S σ) (act : ε → σ → Option σ)
    (test : Config S σ ι α → Move ι ε → Bool) :
    Config S σ ι α → List (Move ι ε) → Option (Config S σ ι α)
  | c, []      => some c
  | c, m :: ms => if test c m then (c.move h act m).bind fun c' => c'.play h act test ms else none

variable {act : ε → σ → Option σ}

lemma Config.call_step_of {c c' : Config S σ ι α} {i : ι} {o : S.Op} {k : S.Ans o → Prog S α}
    (ho : c.thread i = .call o k) (hc : c.move h act (.call i) = some c') :
    ∃ a, Config.Step h env c (.call i o a) c' := by
  rw [Config.move, ho] at hc
  obtain ⟨⟨a, s⟩, hs, rfl⟩ := Option.map_eq_some_iff.mp hc
  exact ⟨a, Config.Step.call c i o k a s ho hs⟩

lemma Config.call_step {c c' : Config S σ ι α} {i : ι} (hc : c.move h act (.call i) = some c') :
    ∃ o a, Config.Step h env c (.call i o a) c' := by
  cases ho : c.thread i with
  | ret a =>
    rw [Config.move, ho] at hc
    cases hc
  | call o k => exact ⟨o, Config.call_step_of ho hc⟩

/-- A schedule that can be followed is a run. Its steps meet what the test ensures of a state in
    which an invariant of such runs holds. -/
lemma Config.play_runsWhen {ok : Config S σ ι α → Event S ι ε → Config S σ ι α → Prop}
    {test : Config S σ ι α → Move ι ε → Bool} {P : Config S σ ι α → Prop}
    (hact : ∀ m s s', act m s = some s' → env m s s')
    (hP : ∀ c e c', P c → ok c e c' → Config.Step h env c e c' → P c')
    (hcall : ∀ c i o a c', test c (.call i) = true → P c →
      Config.Step h env c (.call i o a) c' → ok c (.call i o a) c')
    (henv : ∀ c m c', test c (.env m) = true → P c → ok c (.env m) c')
    {c c' : Config S σ ι α} {ms : List (Move ι ε)} (hc : c.play h act test ms = some c')
    (hstart : P c) : Config.RunsWhen h env ok c c' := by
  induction ms generalizing c with
  | nil =>
    cases hc
    exact Relation.ReflTransGen.refl
  | cons m ms ih =>
    unfold Config.play at hc
    split_ifs at hc with htest
    obtain ⟨d, hd, hc⟩ := Option.bind_eq_some_iff.mp hc
    have hstep : ∃ e, ok c e d ∧ Config.Step h env c e d := by
      cases m with
      | call i =>
        obtain ⟨o, a, hs⟩ := Config.call_step hd
        exact ⟨_, hcall c i o a d htest hstart hs, hs⟩
      | env m =>
        obtain ⟨s, hs, rfl⟩ := Option.map_eq_some_iff.mp hd
        exact ⟨_, henv c m _ htest hstart, Config.Step.env c m s (hact m _ s hs)⟩
    obtain ⟨e, hok, hs⟩ := hstep
    exact Relation.ReflTransGen.head ⟨e, hok, hs⟩ (ih hc (hP c e d hstart hok hs))

/-- A schedule that can be followed is a run. -/
lemma Config.play_runs {test : Config S σ ι α → Move ι ε → Bool}
    (hact : ∀ m s s', act m s = some s' → env m s s') {c c' : Config S σ ι α}
    {ms : List (Move ι ε)} (hc : c.play h act test ms = some c') : Config.Runs h env c c' :=
  Config.play_runsWhen hact (P := fun _ => True) (fun _ _ _ _ _ _ => trivial)
    (fun _ _ _ _ _ _ _ _ => trivial) (fun _ _ _ _ _ => trivial) hc trivial

/-! ### Disciplined threads -/

/-- Every thread follows its discipline from its own ghost state, and the ghost states
    together are related to the shared state by `I`. -/
def Config.Disciplined (D : ι → Discipline S γ) (Q : α → γ → Prop) (I : (ι → γ) → σ → Prop)
    (c : Config S σ ι α) : Prop :=
  ∃ g : ι → γ, (∀ i, (c.thread i).Follows (D i) (g i) Q) ∧ I g c.shared

/-- A step keeps the discipline of all threads when the move of one ghost state leads from the
    relation `I` to `I'`, and the answer given to the thread is one it expects. -/
lemma Config.Disciplined.step {D : ι → Discipline S γ} {Q : α → γ → Prop}
    {I I' : (ι → γ) → σ → Prop} {c c' : Config S σ ι α} {e : Event S ι ε}
    (hcall : ∀ (i : ι) (o : S.Op) (a : S.Ans o) (g : ι → γ) (s' : σ), e = .call i o a →
      (D i).allowed o (g i) → I g c.shared → h i o c.shared = some (a, s') →
      (D i).admits o a ∧ I' (Function.update g i ((D i).next o a (g i))) s')
    (henv : ∀ m g, e = .env m → I g c.shared → env m c.shared c'.shared → I' g c'.shared)
    (hd : c.Disciplined D Q I) (hs : Config.Step h env c e c') : c'.Disciplined D Q I' := by
  obtain ⟨g, hfol, hI⟩ := hd
  cases hs with
  | call i o k a s hc hs =>
    have hi := hfol i
    rw [hc, Prog.follows_call] at hi
    obtain ⟨hadm, hI'⟩ := hcall i o a g s rfl hi.1 hI hs
    refine ⟨Function.update g i ((D i).next o a (g i)), fun j => ?_, hI'⟩
    by_cases hj : j = i
    · subst hj
      simpa using hi.2 a hadm
    · simpa [hj] using hfol j
  | env m s hs => exact ⟨g, hfol, henv m g rfl hI hs⟩

end Steps

end Program
