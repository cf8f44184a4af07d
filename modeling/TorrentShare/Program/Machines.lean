import Mathlib.Logic.Relation
import Mathlib.Tactic.Common

/-!
# Machines

A machine takes a step when one of its events happens; in some states an event cannot happen.
-/

namespace Program.Machine

variable {σ ε : Type}

/-- A step whose event meets a condition on the state before it. -/
def StepWhen (step : σ → ε → Option σ) (ok : σ → ε → Prop) (s s' : σ) : Prop :=
  ∃ e, ok s e ∧ step s e = some s'

/-- Runs whose steps all meet the condition. -/
abbrev RunsWhen (step : σ → ε → Option σ) (ok : σ → ε → Prop) : σ → σ → Prop :=
  Relation.ReflTransGen (StepWhen step ok)

variable {step : σ → ε → Option σ} {ok : σ → ε → Prop} {s s' : σ}

/-- The run lemma: what every step keeps holds in every state of a run. -/
lemma RunsWhen.invariant {P : σ → Prop} (hrun : RunsWhen step ok s s')
    (hstep : ∀ s e s', P s → ok s e → step s e = some s' → P s') (hs : P s) : P s' := by
  induction hrun with
  | refl => exact hs
  | tail _ hlast ih =>
    obtain ⟨e, hok, he⟩ := hlast
    exact hstep _ e _ ih hok he

/-- States that follow each other without end. -/
def Forever (step : σ → ε → Option σ) (run : ℕ → σ) : Prop :=
  ∀ i, ∃ e, step (run i) e = some (run (i + 1))

/-- The rule of termination: a rank goes down with every step from states that keep a property. -/
lemma not_forever {P : σ → Prop} {rank : σ → ℕ}
    (hstep : ∀ s e s', P s → step s e = some s' → P s' ∧ rank s' < rank s) {run : ℕ → σ}
    (hs : P (run 0)) : ¬ Forever step run := by
  intro hforever
  have hsteps : ∀ i, P (run i) ∧ rank (run i) + i ≤ rank (run 0) := by
    intro i
    induction i with
    | zero => exact ⟨hs, Nat.le_refl _⟩
    | succ i ih =>
      obtain ⟨e, he⟩ := hforever i
      obtain ⟨hP, hlt⟩ := hstep _ e _ ih.1 he
      have hle := ih.2
      exact ⟨hP, by omega⟩
  have hlast := (hsteps (rank (run 0) + 1)).2
  omega

/-- Every run has come to the goal after at most so many steps, and cannot get stuck before. -/
def Inevitable (step : σ → ε → Option σ) (ok : σ → ε → Prop) (goal : σ → Prop) : ℕ → σ → Prop
  | 0, s     => goal s
  | n + 1, s => goal s ∨ (∃ s', StepWhen step ok s s') ∧
      ∀ s', StepWhen step ok s s' → Inevitable step ok goal n s'

/-- The rule of progress: what is kept leaves a step as long as the goal is ahead, and a rank goes
    down with every step. -/
lemma inevitable_of_rank {P goal : σ → Prop} {rank : σ → ℕ}
    (hstep : ∀ s e s', P s → ok s e → step s e = some s' → P s' ∧ rank s' < rank s)
    (hgo : ∀ s, P s → goal s ∨ ∃ s', StepWhen step ok s s') {n : ℕ} (hs : P s)
    (hn : rank s ≤ n) : Inevitable step ok goal n s := by
  induction n generalizing s with
  | zero =>
    rcases hgo s hs with hgoal | ⟨s', e, hok, he⟩
    · exact hgoal
    · have hlt := (hstep s e s' hs hok he).2
      omega
  | succ n ih =>
    apply (hgo s hs).imp_right
    refine fun hnext => ⟨hnext, fun s' ⟨e, hok, he⟩ => ?_⟩
    obtain ⟨hs', hlt⟩ := hstep s e s' hs hok he
    exact ih hs' (by omega)

/-- Follow events as long as they pass a test. -/
def play (step : σ → ε → Option σ) (test : σ → ε → Bool) : σ → List ε → Option σ
  | s, []      => some s
  | s, e :: es => if test s e then (step s e).bind fun s' => play step test s' es else none

/-- Events that can be followed make a run. -/
lemma play_runsWhen {test : σ → ε → Bool} (htest : ∀ s e, test s e = true → ok s e)
    {es : List ε} (h : play step test s es = some s') : RunsWhen step ok s s' := by
  induction es generalizing s with
  | nil =>
    cases h
    exact Relation.ReflTransGen.refl
  | cons e es ih =>
    rw [play] at h
    split_ifs at h with ht
    obtain ⟨s₁, hs₁, h⟩ := Option.bind_eq_some_iff.mp h
    exact Relation.ReflTransGen.head ⟨e, htest s e ht, hs₁⟩ (ih h)

end Program.Machine
