import Mathlib.Data.List.Induction
import Mathlib.Tactic.Common

/-!
# What has begun and not ended since

Events begin something and others end it. Whether it still goes on after a history, and what has
come since the last event of a kind, follows the history event by event.
-/

namespace Program

variable {ε : Type} {begins : List ε → ε → Prop} {ends : ε → Prop} {history : List ε}

/-- It has begun with an event after those before it, and nothing since has ended it. -/
def Since (begins : List ε → ε → Prop) (ends : ε → Prop) (history : List ε) : Prop :=
  ∃ before e after, history = before ++ e :: after ∧ begins before e ∧ ∀ e' ∈ after, ¬ ends e'

variable (begins ends) in
@[simp] lemma not_since_nil : ¬ Since begins ends [] := by
  rintro ⟨before, e, after, h, -⟩
  simp at h

/-- One more event. -/
lemma since_concat {e : ε} : Since begins ends (history ++ [e]) ↔
    begins history e ∨ Since begins ends history ∧ ¬ ends e := by
  constructor
  · rintro ⟨before, e', after, hsplit, hbegins, hends⟩
    rcases List.eq_nil_or_concat after with rfl | ⟨after', last, rfl⟩
    · obtain ⟨rfl, he⟩ := List.append_inj' hsplit rfl
      cases he
      exact Or.inl hbegins
    · rw [List.concat_eq_append, ← List.cons_append, ← List.append_assoc] at hsplit
      obtain ⟨rfl, he⟩ := List.append_inj' hsplit rfl
      cases he
      refine Or.inr ⟨⟨before, e', after', rfl, hbegins, fun x hx => hends x ?_⟩, hends e ?_⟩
      · simp [hx]
      · simp
  · rintro (hbegins | ⟨⟨before, e', after, rfl, hbegins, hends⟩, he⟩)
    · exact ⟨history, e, [], rfl, hbegins, by simp⟩
    · refine ⟨before, e', after ++ [e], by simp, hbegins, fun x hx => ?_⟩
      rcases List.mem_append.mp hx with hx | hx
      · exact hends x hx
      · rw [List.mem_singleton.mp hx]
        exact he

/-- The events since the last one of a kind. -/
def sinceLast (kind : ε → Prop) [DecidablePred kind] (history : List ε) : List ε :=
  (history.reverse.takeWhile fun e => ¬ kind e).reverse

variable {kind : ε → Prop} [DecidablePred kind]

@[simp] lemma sinceLast_nil : sinceLast kind [] = [] := rfl

lemma sinceLast_concat (e : ε) :
    sinceLast kind (history ++ [e]) = if kind e then [] else sinceLast kind history ++ [e] := by
  rw [sinceLast, List.reverse_append, List.reverse_singleton, List.singleton_append,
    List.takeWhile_cons]
  split_ifs with h₁ h₂ h₂
  · exact absurd h₂ (by simpa using h₁)
  · exact List.reverse_cons
  · rfl
  · exact absurd h₂ (by simpa using h₁)

end Program
