import Mathlib.Tactic.Common

/-!
# Asking servers in turn

A client asks one of several servers until an attempt passes. After a refusal it goes on to the next
server, after a failure it asks the same one again, and it gives up when it has been refused as
often as there are servers.
-/

namespace Retrying

/-- What comes of an attempt. From a lost one the client does not come back. -/
inductive Outcome where
  | refused
  | failed
  | passed
  | lost
  deriving DecidableEq

/-- A client, while it asks with its server and the refusals so far. -/
inductive Client where
  | asking (server refusals : ℕ)
  | served
  | gaveUp
  | waiting
  deriving DecidableEq

def Client.returned : Client → Bool
  | .served => true
  | .gaveUp => true
  | _       => false

/-- The client after an attempt, where there are `n` servers. -/
def Client.next (n : ℕ) : Client → Outcome → Client
  | .asking x a, .refused => if n ≤ a + 1 then .gaveUp else .asking ((x + 1) % n) (a + 1)
  | .asking x a, .failed  => .asking x a
  | .asking _ _, .passed  => .served
  | .asking _ _, .lost    => .waiting
  | c, _                  => c

/-- The client after its first attempts. -/
def after (n : ℕ) (c : Client) (outcomes : ℕ → Outcome) : ℕ → Client
  | 0     => c
  | m + 1 => (after n c outcomes m).next n (outcomes m)

/-- How many of the first attempts are refused. -/
def refusals (outcomes : ℕ → Outcome) : ℕ → ℕ
  | 0     => 0
  | m + 1 => refusals outcomes m + if outcomes m = .refused then 1 else 0

section Runs

variable {n x y a m : ℕ} {outcomes : ℕ → Outcome}

/-- The server has refused one of the first attempts, at the given count. -/
def Refused (n x : ℕ) (outcomes : ℕ → Outcome) (m y b : ℕ) : Prop :=
  ∃ i < m, after n (.asking x 0) outcomes i = .asking y b ∧ outcomes i = .refused

lemma Refused.succ {b : ℕ} (h : Refused n x outcomes m y b) : Refused n x outcomes (m + 1) y b := by
  obtain ⟨i, hi, hasked⟩ := h
  exact ⟨i, Nat.lt_succ_of_lt hi, hasked⟩

/-- While the client asks, it has been refused by the servers before the one it is at. -/
structure Asks (n x : ℕ) (outcomes : ℕ → Outcome) (m y a : ℕ) : Prop where
  server : y = (x + a) % n
  count : refusals outcomes m = a
  lt : a < n
  noneLost : ∀ i < m, outcomes i ≠ .lost
  nonePassed : ∀ i < m, outcomes i ≠ .passed
  before : ∀ b < a, Refused n x outcomes m ((x + b) % n) b

/-- An attempt has passed, or as many as there are servers have been refused, and none before has
    been lost. -/
def Returns (n : ℕ) (outcomes : ℕ → Outcome) (m : ℕ) : Prop :=
  (∀ i < m, outcomes i ≠ .lost) ∧
    ((∃ i < m, outcomes i = .passed) ∨ n ≤ refusals outcomes m)

lemma asks_zero (hx : x < n) : Asks n x outcomes 0 x 0 where
  server := (Nat.mod_eq_of_lt hx).symm
  count := rfl
  lt := Nat.zero_lt_of_lt hx
  noneLost := by simp
  nonePassed := by simp
  before := by simp

lemma forall_lt_succ_ne {o : Outcome} (h : ∀ i < m, outcomes i ≠ o) (hm : outcomes m ≠ o) :
    ∀ i < m + 1, outcomes i ≠ o := by
  intro i hi
  rcases Nat.lt_succ_iff_lt_or_eq.mp hi with hi | rfl
  · exact h i hi
  · exact hm

/-- An attempt that fails changes nothing. -/
lemma Asks.failed (h : Asks n x outcomes m y a) (hm : outcomes m = .failed) :
    Asks n x outcomes (m + 1) y a where
  server := h.server
  count := by
    rw [refusals, hm, h.count]
    rfl
  lt := h.lt
  noneLost := forall_lt_succ_ne h.noneLost (by simp [hm])
  nonePassed := forall_lt_succ_ne h.nonePassed (by simp [hm])
  before b hb := (h.before b hb).succ

lemma Asks.refusals_succ (h : Asks n x outcomes m y a) (hm : outcomes m = .refused) :
    refusals outcomes (m + 1) = a + 1 := by
  rw [refusals, hm, h.count]
  rfl

/-- The servers up to the one that has just refused. -/
lemma Asks.refused_le (h : Asks n x outcomes m y a)
    (hafter : after n (.asking x 0) outcomes m = .asking y a) (hm : outcomes m = .refused) :
    ∀ b ≤ a, Refused n x outcomes (m + 1) ((x + b) % n) b := by
  intro b hb
  rcases Nat.lt_or_eq_of_le hb with hlt | rfl
  · exact (h.before b hlt).succ
  · exact ⟨m, Nat.lt_succ_self m, h.server ▸ hafter, hm⟩

/-- After a refusal that is not the last one the client asks the next server. -/
lemma Asks.next (h : Asks n x outcomes m y a)
    (hafter : after n (.asking x 0) outcomes m = .asking y a) (hm : outcomes m = .refused)
    (hlt : a + 1 < n) : Asks n x outcomes (m + 1) ((y + 1) % n) (a + 1) where
  server := by rw [h.server, Nat.mod_add_mod, Nat.add_assoc]
  count := h.refusals_succ hm
  lt := hlt
  noneLost := forall_lt_succ_ne h.noneLost (by simp [hm])
  nonePassed := forall_lt_succ_ne h.nonePassed (by simp [hm])
  before b hb := h.refused_le hafter hm b (Nat.le_of_lt_succ hb)

/-- Going on from `x` one comes to every server. -/
lemma exists_turn (hx : x < n) (hy : y < n) : ∃ b < n, (x + b) % n = y := by
  by_cases h : x ≤ y
  · refine ⟨y - x, by omega, ?_⟩
    rw [Nat.add_sub_of_le h, Nat.mod_eq_of_lt hy]
  · refine ⟨n - x + y, by omega, ?_⟩
    have hround : x + (n - x + y) = n + y := by omega
    rw [hround, Nat.add_mod_left, Nat.mod_eq_of_lt hy]

variable (outcomes) in
/-- What can be said of the client after any number of attempts. -/
lemma after_spec (hx : x < n) (m : ℕ) :
    match after n (.asking x 0) outcomes m with
    | .asking y a => Asks n x outcomes m y a
    | .served     => ∃ m' ≤ m, Returns n outcomes m'
    | .gaveUp     => (∃ m' ≤ m, Returns n outcomes m') ∧
        ∀ y < n, ∃ b, Refused n x outcomes m y b
    | .waiting    => ∃ i < m, outcomes i = .lost := by
  induction m with
  | zero => exact asks_zero hx
  | succ m ih =>
    rw [after]
    cases hafter : after n (.asking x 0) outcomes m with
    | asking y a =>
      rw [hafter] at ih
      cases hm : outcomes m with
      | refused =>
        rw [Client.next]
        split_ifs with hlast
        · have hnone := forall_lt_succ_ne ih.noneLost (by simp [hm])
          refine ⟨⟨m + 1, Nat.le_refl _, hnone, Or.inr ?_⟩, ?_⟩
          · rw [ih.refusals_succ hm]
            exact hlast
          · intro z hz
            obtain ⟨b, hb, rfl⟩ := exists_turn hx hz
            exact ⟨b, ih.refused_le hafter hm b (by omega)⟩
        · exact ih.next hafter hm (by omega)
      | failed => exact ih.failed hm
      | passed =>
        exact ⟨m + 1, Nat.le_refl _, forall_lt_succ_ne ih.noneLost (by simp [hm]),
          Or.inl ⟨m, Nat.lt_succ_self m, hm⟩⟩
      | lost => exact ⟨m, Nat.lt_succ_self m, hm⟩
    | served =>
      rw [hafter] at ih
      obtain ⟨m', hm', h⟩ := ih
      exact ⟨m', Nat.le_succ_of_le hm', h⟩
    | gaveUp =>
      rw [hafter] at ih
      obtain ⟨⟨m', hm', h⟩, hall⟩ := ih
      refine ⟨⟨m', Nat.le_succ_of_le hm', h⟩, fun y hy => ?_⟩
      obtain ⟨b, hb⟩ := hall y hy
      exact ⟨b, hb.succ⟩
    | waiting =>
      rw [hafter] at ih
      obtain ⟨i, hi, h⟩ := ih
      exact ⟨i, Nat.lt_succ_of_lt hi, h⟩

/-- A client that gives up has been refused by every server. -/
lemma refused_of_gaveUp (hx : x < n) (h : after n (.asking x 0) outcomes m = .gaveUp) (hy : y < n) :
    ∃ b, Refused n x outcomes m y b := by
  have hspec := after_spec outcomes hx m
  rw [h] at hspec
  exact hspec.2 y hy

/-- When the client returns. -/
lemma returned_iff (hx : x < n) : (∃ m, (after n (.asking x 0) outcomes m).returned = true) ↔
    ∃ m, Returns n outcomes m := by
  constructor
  · rintro ⟨m, hm⟩
    have hspec := after_spec outcomes hx m
    cases hafter : after n (.asking x 0) outcomes m with
    | asking y a =>
      rw [hafter] at hm
      cases hm
    | served =>
      rw [hafter] at hspec
      obtain ⟨m', -, h⟩ := hspec
      exact ⟨m', h⟩
    | gaveUp =>
      rw [hafter] at hspec
      obtain ⟨⟨m', -, h⟩, -⟩ := hspec
      exact ⟨m', h⟩
    | waiting =>
      rw [hafter] at hm
      cases hm
  · rintro ⟨m, hlost, hreturns⟩
    refine ⟨m, ?_⟩
    have hspec := after_spec outcomes hx m
    cases hafter : after n (.asking x 0) outcomes m with
    | asking y a =>
      rw [hafter] at hspec
      rcases hreturns with ⟨i, hi, hpassed⟩ | henough
      · exact absurd hpassed (hspec.nonePassed i hi)
      · rw [hspec.count] at henough
        exact absurd hspec.lt (Nat.not_lt.mpr henough)
    | served => rfl
    | gaveUp => rfl
    | waiting =>
      rw [hafter] at hspec
      obtain ⟨i, hi, h⟩ := hspec
      exact absurd h (hlost i hi)

end Runs

end Retrying
