import Mathlib.Data.List.Nodup
import Mathlib.Data.Set.Insert
import Mathlib.Logic.Function.Basic
import Mathlib.Tactic.Common

/-!
# Sets and tables kept in records

A set is kept as a list of records, one for each of its elements or more. A table is kept as a list
of records with one for each key that has a value.
-/

namespace Program

variable {α κ ν ρ : Type}

/-! ### Sets -/

/-- The records are those of the elements of the set. -/
def KeepsSet (record : α → ρ) (S : Set α) (rs : List ρ) : Prop :=
  ∃ as : List α, rs = as.map record ∧ ∀ a, a ∈ as ↔ a ∈ S

section Sets

variable {record : α → ρ} {S : Set α} {rs : List ρ} {test : ρ → Bool}

lemma keepsSet_empty (record : α → ρ) : KeepsSet record ∅ [] :=
  ⟨[], rfl, by simp⟩

/-- Elements that are their own records. -/
lemma KeepsSet.mem_iff {S : Set ρ} (h : KeepsSet id S rs) (r : ρ) : r ∈ rs ↔ r ∈ S := by
  obtain ⟨as, rfl, has⟩ := h
  rw [List.map_id, has]

/-- One more record. It may be there already. -/
lemma KeepsSet.insert (h : KeepsSet record S rs) (a : α) :
    KeepsSet record (insert a S) (rs ++ [record a]) := by
  obtain ⟨as, rfl, has⟩ := h
  refine ⟨as ++ [a], by simp, fun b => ?_⟩
  rw [List.mem_append, List.mem_singleton, has, Set.mem_insert_iff, or_comm]

/-- The records that pass a test are dropped. -/
lemma KeepsSet.drop (h : KeepsSet record S rs) {T : Set α}
    (htest : ∀ a ∈ S, a ∈ T ↔ test (record a) = false) (hT : T ⊆ S) :
    KeepsSet record T (rs.filter (!test ·)) := by
  obtain ⟨as, rfl, has⟩ := h
  refine ⟨as.filter fun a => !test (record a), List.filter_map, fun a => ?_⟩
  rw [List.mem_filter, has, Bool.not_eq_true']
  constructor
  · rintro ⟨ha, hdrop⟩
    exact (htest a ha).mpr hdrop
  · intro ha
    exact ⟨hT ha, (htest a (hT ha)).mp ha⟩

end Sets

/-! ### Tables -/

/-- The records are those of the entries of the table, one for each key. -/
def KeepsTable (record : κ × ν → ρ) (T : κ → Option ν) (rs : List ρ) : Prop :=
  ∃ es : List (κ × ν), rs = es.map record ∧ (es.map Prod.fst).Nodup ∧
    ∀ k v, T k = some v ↔ (k, v) ∈ es

section Tables

variable {record : κ × ν → ρ} {T : κ → Option ν} {rs : List ρ} {test : ρ → Bool}

lemma keepsTable_empty (record : κ × ν → ρ) : KeepsTable record (fun _ => none) [] :=
  ⟨[], rfl, List.nodup_nil, by simp⟩

variable [DecidableEq κ]

/-- A record for a key that has none. -/
lemma KeepsTable.insert (h : KeepsTable record T rs) {k : κ} (hk : T k = none) (v : ν) :
    KeepsTable record (Function.update T k (some v)) (rs ++ [record (k, v)]) := by
  obtain ⟨es, rfl, hes, hT⟩ := h
  have hnew : k ∉ es.map Prod.fst := by
    intro hmem
    obtain ⟨⟨k', w⟩, he, rfl⟩ := List.mem_map.mp hmem
    have hw := (hT _ w).mpr he
    rw [hk] at hw
    cases hw
  refine ⟨es ++ [(k, v)], by simp, ?_, fun k' w => ?_⟩
  · rw [List.map_append, List.nodup_append]
    refine ⟨hes, by simp, ?_⟩
    rintro a ha b hb rfl
    simp only [List.map_cons, List.map_nil, List.mem_singleton] at hb
    exact hnew (hb ▸ ha)
  · rw [Function.update_apply, List.mem_append, List.mem_singleton, ← hT]
    split_ifs with hkk
    · subst hkk
      simp [hk, eq_comm]
    · simp [hkk]

/-- The record of one key is dropped. -/
lemma KeepsTable.erase (h : KeepsTable record T rs) (k : κ)
    (htest : ∀ k' v, T k' = some v → (test (record (k', v)) = true ↔ k' = k)) :
    KeepsTable record (Function.update T k none) (rs.filter (!test ·)) := by
  obtain ⟨es, rfl, hes, hT⟩ := h
  refine ⟨es.filter fun e => !test (record e), List.filter_map, ?_, fun k' w => ?_⟩
  · exact hes.sublist (List.filter_sublist.map Prod.fst)
  · rw [Function.update_apply, List.mem_filter, Bool.not_eq_true', ← hT]
    split_ifs with hkk
    · subst hkk
      simp only [false_iff, not_and]
      intro hw
      simp [(htest _ w hw).mpr rfl]
    · constructor
      · intro hw
        refine ⟨hw, ?_⟩
        rw [← Bool.not_eq_true, htest k' w hw]
        exact hkk
      · exact And.left

end Tables

end Program
