import Mathlib.Data.List.Infix
import Mathlib.Tactic.Common

/-!
# Lists in pieces

A list is cut into pieces of a given length, of which only the last may be shorter.
-/

namespace Blocks

variable {α : Type} {n m : ℕ} {s p : List α}

/-- At most `m` pieces. -/
def piecesUpTo (n : ℕ) : ℕ → List α → List (List α)
  | 0,     _      => []
  | _ + 1, []     => []
  | m + 1, a :: s => (a :: s).take n :: piecesUpTo n m ((a :: s).drop n)

/-- The pieces of a list, of `n` items each. There are not more of them than items. -/
def pieces (n : ℕ) (s : List α) : List (List α) := piecesUpTo n s.length s

@[simp] lemma pieces_nil : pieces n ([] : List α) = [] := rfl

/-- A larger bound makes no difference. -/
lemma piecesUpTo_eq (hn : 0 < n) (h : s.length ≤ m) : piecesUpTo n m s = pieces n s := by
  induction m using Nat.strong_induction_on generalizing s with
  | h m ih =>
    cases s with
    | nil => cases m <;> rfl
    | cons a s =>
      have hdrop : ((a :: s).drop n).length ≤ s.length := by
        rw [List.length_drop, List.length_cons]
        omega
      cases m with
      | zero => cases h
      | succ m =>
        have hm : s.length ≤ m := Nat.succ_le_succ_iff.mp h
        rw [pieces, List.length_cons, piecesUpTo, piecesUpTo,
          ih m (Nat.lt_succ_self m) (hdrop.trans hm),
          ih s.length (Nat.lt_succ_of_le hm) hdrop]

/-- The first piece, and the others. -/
lemma pieces_of_ne_nil (hn : 0 < n) (hs : s ≠ []) :
    pieces n s = s.take n :: pieces n (s.drop n) := by
  obtain ⟨a, s, rfl⟩ := List.exists_cons_of_ne_nil hs
  have hdrop : ((a :: s).drop n).length ≤ s.length := by
    rw [List.length_drop, List.length_cons]
    omega
  rw [← piecesUpTo_eq hn hdrop]
  rfl

/-- What holds of a list without items, and of a list if it holds of what is behind its first
    piece. -/
lemma drop_induction {P : List α → Prop} (hn : 0 < n) (hnil : P [])
    (hdrop : ∀ s, s ≠ [] → P (s.drop n) → P s) (s : List α) : P s := by
  induction hlength : s.length using Nat.strong_induction_on generalizing s with
  | h m ih =>
    by_cases hs : s = []
    · rw [hs]
      exact hnil
    · refine hdrop s hs (ih _ ?_ _ rfl)
      have hpos := List.length_pos_iff.mpr hs
      rw [List.length_drop]
      omega

lemma flatten_pieces (hn : 0 < n) (s : List α) : (pieces n s).flatten = s := by
  induction s using drop_induction hn with
  | hnil => rfl
  | hdrop s hs ih => rw [pieces_of_ne_nil hn hs, List.flatten_cons, ih, List.take_append_drop]

/-- Pieces are full, apart from the last. -/
lemma full_or_last (hn : 0 < n) (hp : p ∈ pieces n s) :
    p.length = n ∨ p <:+ s ∧ p.length % n = s.length % n := by
  induction s using drop_induction hn with
  | hnil => cases hp
  | hdrop s hs ih =>
    rw [pieces_of_ne_nil hn hs] at hp
    rcases List.mem_cons.mp hp with rfl | hp
    · rcases Nat.le_total n s.length with hle | hle
      · exact Or.inl (List.length_take_of_le hle)
      · right
        rw [List.take_of_length_le hle]
        exact ⟨List.suffix_refl s, rfl⟩
    · rcases Nat.le_total n s.length with hle | hle
      · refine (ih hp).imp_right fun h => ⟨h.1.trans (List.drop_suffix n s), ?_⟩
        rw [h.2, List.length_drop, Nat.mod_eq_sub_mod hle]
      · rw [List.drop_eq_nil_of_le hle] at hp
        cases hp

lemma pieces_ne_nil (hn : 0 < n) (hs : s ≠ []) : pieces n s ≠ [] := by
  rw [pieces_of_ne_nil hn hs]
  exact List.cons_ne_nil _ _

lemma length_pieces_le (hn : 0 < n) (s : List α) : (pieces n s).length ≤ s.length := by
  induction s using drop_induction hn with
  | hnil => exact le_refl 0
  | hdrop s hs ih =>
    have hpos := List.length_pos_iff.mpr hs
    rw [List.length_drop] at ih
    rw [pieces_of_ne_nil hn hs, List.length_cons]
    omega

end Blocks
