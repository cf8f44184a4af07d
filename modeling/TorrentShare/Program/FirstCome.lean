import Mathlib.Logic.Function.Basic
import Mathlib.Tactic.Common

/-!
# Looking and recording

Parties that want the same name look into a list of records, and the ones that do not find the
name add a record of their own. Nothing keeps others from looking in between. If every look that
finds nothing is made while there is no record of the name and nobody else is about to add one,
there is at most one winner.
-/

namespace Program

variable {ι ρ : Type}

/-- How far the attempt of a party is. -/
inductive Attempt where
  | looking
  | missed
  | recorded
  | refused
  deriving DecidableEq

/-- The party has a record, or is about to add one. -/
def Attempt.claims : Attempt → Bool
  | missed   => true
  | recorded => true
  | _        => false

/-- At most one party has won or may still win, and the records are those of the start with the
    record of the winner behind them. -/
structure OneWinner (named : ρ → Bool) (record : ι → ρ) (start : List ρ) (stage : ι → Attempt)
    (records : List ρ) : Prop where
  alone : ∀ i j, (stage i).claims = true → (stage j).claims = true → i = j
  fresh : ∀ i, (stage i).claims = true → ∀ r ∈ start, named r = false
  unwon : (∀ i, stage i ≠ .recorded) → records = start
  won : ∀ i, stage i = .recorded → records = start ++ [record i]

namespace OneWinner

variable {named : ρ → Bool} {record : ι → ρ} {start records : List ρ} {stage : ι → Attempt} {i : ι}

lemma looking (h : ∀ i, stage i = .looking) : OneWinner named record start stage start := by
  constructor
  · intro i j hi
    rw [h i] at hi
    cases hi
  · intro i hi
    rw [h i] at hi
    cases hi
  · exact fun _ => rfl
  · intro i hi
    rw [h i] at hi
    cases hi

/-- There is at most one record of the name, if there was at most one. -/
lemma countP_le (h : OneWinner named record start stage records)
    (hstart : start.countP named ≤ 1) : records.countP named ≤ 1 := by
  by_cases hwon : ∃ i, stage i = .recorded
  · obtain ⟨i, hi⟩ := hwon
    have hnone : start.countP named = 0 := by
      rw [List.countP_eq_zero]
      intro r hr
      rw [h.fresh i (by rw [hi]; rfl) r hr]
      exact Bool.false_ne_true
    rw [h.won i hi, List.countP_append, hnone, Nat.zero_add]
    exact List.countP_le_length
  · rw [h.unwon fun i hi => hwon ⟨i, hi⟩]
    exact hstart

variable [DecidableEq ι]

/-- A party finds the name. -/
lemma refuse (h : OneWinner named record start stage records) (hi : stage i = .looking) :
    OneWinner named record start (Function.update stage i .refused) records := by
  have hstage : ∀ j, (Function.update stage i .refused j).claims = true →
      (stage j).claims = true := by
    intro j hj
    by_cases hji : j = i
    · subst hji
      rw [Function.update_self] at hj
      cases hj
    · rwa [Function.update_of_ne hji] at hj
  constructor
  · exact fun j k hj hk => h.alone j k (hstage j hj) (hstage k hk)
  · exact fun j hj => h.fresh j (hstage j hj)
  · intro hopen
    apply h.unwon
    intro j hj
    by_cases hji : j = i
    · rw [hji, hi] at hj
      cases hj
    · exact hopen j (by rw [Function.update_of_ne hji, hj])
  · intro j hj
    by_cases hji : j = i
    · subst hji
      rw [Function.update_self] at hj
      cases hj
    · exact h.won j (by rwa [Function.update_of_ne hji] at hj)

/-- A party does not find the name, while there is no record of it and nobody else is about to
    add one. -/
lemma miss (h : OneWinner named record start stage records) (hi : stage i = .looking)
    (hrecord : ∀ j, named (record j) = true) (hnone : ∀ r ∈ records, named r = false)
    (hothers : ∀ j, stage j ≠ .missed) :
    OneWinner named record start (Function.update stage i .missed) records := by
  have hopen : ∀ j, stage j ≠ .recorded := by
    intro j hj
    have hlast := hnone (record j) (by simp [h.won j hj])
    rw [hrecord j] at hlast
    cases hlast
  have hclaims : ∀ j, (Function.update stage i .missed j).claims = true → j = i := by
    intro j hj
    by_contra hji
    rw [Function.update_of_ne hji] at hj
    cases hstage : stage j with
    | looking => rw [hstage] at hj; cases hj
    | missed => exact hothers j hstage
    | recorded => exact hopen j hstage
    | refused => rw [hstage] at hj; cases hj
  constructor
  · exact fun j k hj hk => (hclaims j hj).trans (hclaims k hk).symm
  · intro j _
    rw [← h.unwon hopen]
    exact hnone
  · exact fun _ => h.unwon hopen
  · intro j hj
    by_cases hji : j = i
    · subst hji
      rw [Function.update_self] at hj
      cases hj
    · rw [Function.update_of_ne hji] at hj
      exact absurd hj (hopen j)

/-- A party that has not found the name adds its record. -/
lemma add (h : OneWinner named record start stage records) (hi : stage i = .missed) :
    OneWinner named record start (Function.update stage i .recorded) (records ++ [record i]) := by
  have hclaim : (stage i).claims = true := by rw [hi]; rfl
  have hclaims : ∀ j, (Function.update stage i .recorded j).claims = true → j = i := by
    intro j hj
    by_contra hji
    rw [Function.update_of_ne hji] at hj
    exact hji (h.alone j i hj hclaim)
  have hopen : ∀ j, stage j ≠ .recorded := by
    intro j hj
    have hji : j = i := h.alone j i (by rw [hj]; rfl) hclaim
    rw [hji, hi] at hj
    cases hj
  constructor
  · exact fun j k hj hk => (hclaims j hj).trans (hclaims k hk).symm
  · exact fun _ _ => h.fresh i hclaim
  · exact fun hnone => absurd (Function.update_self i Attempt.recorded stage) (hnone i)
  · intro j hj
    have hji : j = i := hclaims j (by rw [hj]; rfl)
    rw [hji, h.unwon hopen]

end OneWinner

end Program
