import Mathlib.Logic.Function.Basic
import Mathlib.Tactic.Common

/-!
# Files of records

Named files, each a list of records, and the three ways in which a program changes one of them:
a record is added at the end, the whole file is written anew, or the records that pass a test are
dropped. What a sequence of such edits leaves is described by what it adds and what it keeps.
-/

namespace Program

variable {κ ρ : Type}

/-- One change of one file. -/
inductive Edit (κ ρ : Type) where
  | append (k : κ) (r : ρ)
  | create (k : κ) (rs : List ρ)
  | drop (k : κ) (test : ρ → Bool)

namespace Edit

/-- The file that is changed. -/
def key : Edit κ ρ → κ
  | append k _ => k
  | create k _ => k
  | drop k _   => k

/-- The records that are put in. -/
def added : Edit κ ρ → List ρ
  | append _ r  => [r]
  | create _ rs => rs
  | drop _ _    => []

/-- The records that stay if they are there. -/
def keeps : Edit κ ρ → ρ → Bool
  | append _ _,  _ => true
  | create _ _,  _ => false
  | drop _ test, r => !test r

/-- The records of the file afterwards. -/
def after : Edit κ ρ → List ρ → List ρ
  | append _ r,  rs => rs ++ [r]
  | create _ rs, _  => rs
  | drop _ test, rs => rs.filter (!test ·)

lemma mem_after (e : Edit κ ρ) (rs : List ρ) (r : ρ) :
    r ∈ e.after rs ↔ r ∈ e.added ∨ r ∈ rs ∧ e.keeps r = true := by
  cases e with
  | append k r' => simp [after, added, keeps, or_comm]
  | create k rs' => simp [after, added, keeps]
  | drop k test => simp [after, added, keeps]

variable [DecidableEq κ]

/-- All files after the change. -/
def apply (e : Edit κ ρ) (F : κ → List ρ) : κ → List ρ :=
  Function.update F e.key (e.after (F e.key))

lemma apply_of_ne (e : Edit κ ρ) (F : κ → List ρ) {k : κ} (h : k ≠ e.key) :
    e.apply F k = F k :=
  Function.update_of_ne h _ _

lemma apply_key (e : Edit κ ρ) (F : κ → List ρ) : e.apply F e.key = e.after (F e.key) :=
  Function.update_self _ _ _

end Edit

variable [DecidableEq κ]

/-- The files after a sequence of edits. -/
def applyAll (es : List (Edit κ ρ)) (F : κ → List ρ) : κ → List ρ :=
  es.foldl (fun F e => e.apply F) F

variable {es : List (Edit κ ρ)} {F : κ → List ρ} {k : κ} {r : ρ}

@[simp] lemma applyAll_nil (F : κ → List ρ) : applyAll [] F = F := rfl

@[simp] lemma applyAll_cons (e : Edit κ ρ) (es : List (Edit κ ρ)) (F : κ → List ρ) :
    applyAll (e :: es) F = applyAll es (e.apply F) := rfl

lemma applyAll_append (es es' : List (Edit κ ρ)) (F : κ → List ρ) :
    applyAll (es ++ es') F = applyAll es' (applyAll es F) :=
  List.foldl_append ..

/-- Edits of other files. -/
lemma applyAll_of_ne (h : ∀ e ∈ es, k ≠ e.key) : applyAll es F k = F k := by
  induction es generalizing F with
  | nil => rfl
  | cons e es ih =>
    rw [List.forall_mem_cons] at h
    rw [applyAll_cons, ih h.2, e.apply_of_ne F h.1]

/-- What a file becomes depends on that file only. -/
lemma applyAll_congr {G : κ → List ρ} (h : F k = G k) : applyAll es F k = applyAll es G k := by
  induction es generalizing F G with
  | nil => exact h
  | cons e es ih =>
    refine ih (F := e.apply F) (G := e.apply G) ?_
    by_cases hk : e.key = k
    · subst hk
      rw [e.apply_key, e.apply_key, h]
    · rw [e.apply_of_ne F (Ne.symm hk), e.apply_of_ne G (Ne.symm hk), h]

/-- A record that is found was there and has been kept, or has been put in. -/
lemma of_mem_applyAll (h : r ∈ applyAll es F k) :
    (∃ e ∈ es, e.key = k ∧ r ∈ e.added) ∨
      r ∈ F k ∧ ∀ e ∈ es, e.key = k → e.keeps r = true := by
  induction es generalizing F with
  | nil => exact Or.inr ⟨h, by simp⟩
  | cons e es ih =>
    rcases ih h with ⟨e', he', hk, hr⟩ | ⟨hr, hkeeps⟩
    · exact Or.inl ⟨e', List.mem_cons_of_mem _ he', hk, hr⟩
    · change r ∈ e.apply F k at hr
      by_cases hk : e.key = k
      · subst hk
        rw [e.apply_key, e.mem_after] at hr
        rcases hr with hr | ⟨hr, hkeep⟩
        · exact Or.inl ⟨e, List.mem_cons_self .., rfl, hr⟩
        · exact Or.inr ⟨hr, List.forall_mem_cons.mpr ⟨fun _ => hkeep, hkeeps⟩⟩
      · rw [e.apply_of_ne F (Ne.symm hk)] at hr
        exact Or.inr ⟨hr, List.forall_mem_cons.mpr ⟨fun he => absurd he hk, hkeeps⟩⟩

/-- A record that every edit keeps or puts in. -/
lemma mem_applyAll (hr : r ∈ F k)
    (h : ∀ e ∈ es, e.key = k → r ∈ e.added ∨ e.keeps r = true) : r ∈ applyAll es F k := by
  induction es generalizing F with
  | nil => exact hr
  | cons e es ih =>
    rw [List.forall_mem_cons] at h
    refine ih (F := e.apply F) ?_ h.2
    by_cases hk : e.key = k
    · subst hk
      rw [e.apply_key, e.mem_after]
      exact (h.1 rfl).imp id fun hkeep => ⟨hr, hkeep⟩
    · rw [e.apply_of_ne F (Ne.symm hk)]
      exact hr

end Program
