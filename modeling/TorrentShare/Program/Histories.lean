import Mathlib.Data.List.Induction
import Mathlib.Tactic.Common

/-!
# Histories of events

Which events may come next depends on the events so far. A history is in order if each of its
events might come after those before it.
-/

namespace Program

variable {ε : Type} {ok : List ε → ε → Prop} {history : List ε} {e : ε}

/-- Each event is allowed after those before it. -/
def InOrder (ok : List ε → ε → Prop) (history : List ε) : Prop :=
  ∀ before e after, history = before ++ e :: after → ok before e

lemma inOrder_nil : InOrder ok [] := by
  intro before e after h
  simp at h

/-- An event is added that is allowed. -/
lemma InOrder.concat (h : InOrder ok history) (he : ok history e) :
    InOrder ok (history ++ [e]) := by
  intro before e' after hsplit
  rcases List.eq_nil_or_concat after with rfl | ⟨after', last, rfl⟩
  · obtain ⟨rfl, hlast⟩ := List.append_inj' hsplit rfl
    cases hlast
    exact he
  · rw [List.concat_eq_append, ← List.cons_append, ← List.append_assoc] at hsplit
    obtain ⟨rfl, -⟩ := List.append_inj' hsplit rfl
    exact h before e' after' rfl

lemma InOrder.of_prefix {before : List ε} (h : InOrder ok history) (hbefore : before <+: history) :
    InOrder ok before := by
  obtain ⟨rest, rfl⟩ := hbefore
  rintro before' e after rfl
  exact h before' e (after ++ rest) (by simp)

/-- What holds at the start and is kept by allowed events holds after every history in order. -/
lemma InOrder.invariant {P : List ε → Prop} (hnil : P [])
    (hstep : ∀ history e, ok history e → P history → P (history ++ [e]))
    (h : InOrder ok history) : P history := by
  induction history using List.reverseRecOn with
  | nil => exact hnil
  | append_singleton history e ih =>
    exact hstep history e (h history e [] rfl) (ih (h.of_prefix (List.prefix_append history [e])))

end Program
