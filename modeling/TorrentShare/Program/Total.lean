import TorrentShare.Program.Basic

/-!
# Total correctness

A program ends in a state when its run comes to a result there, and the result and the last state
are as they should be. The rules go through a program call by call.
-/

namespace Program

variable {S : Sig} {σ α β : Type}

/-- The run of the program comes to an end, with a result and a state that satisfy `Q`. -/
def Prog.Ends (h : Interp S σ) : Prog S α → σ → (α → σ → Prop) → Prop
  | .ret a,    s, Q => Q a s
  | .call o k, s, Q => ∃ r, h o s = some r ∧ (k r.1).Ends h r.2 Q

section Ends

variable {h : Interp S σ} {s : σ} {Q : α → σ → Prop}

@[simp] lemma Prog.ends_ret (a : α) : (Prog.ret a : Prog S α).Ends h s Q ↔ Q a s := Iff.rfl

@[simp] lemma Prog.ends_call (o : S.Op) (k : S.Ans o → Prog S α) :
    (Prog.call o k).Ends h s Q ↔ ∃ r, h o s = some r ∧ (k r.1).Ends h r.2 Q := Iff.rfl

/-- To end is to have a run. -/
lemma Prog.ends_iff {p : Prog S α} :
    p.Ends h s Q ↔ ∃ a s', p.run h s = some (a, s') ∧ Q a s' := by
  induction p generalizing s with
  | ret a => simp
  | call o k ih =>
    simp only [Prog.ends_call, Prog.run_call, Option.bind_eq_some_iff, ih]
    constructor
    · rintro ⟨r, hr, a, s', hrun, hQ⟩
      exact ⟨a, s', ⟨r, hr, hrun⟩, hQ⟩
    · rintro ⟨a, s', ⟨r, hr, hrun⟩, hQ⟩
      exact ⟨r, hr, a, s', hrun, hQ⟩

/-- The rule of consequence. -/
lemma Prog.Ends.mono {p : Prog S α} {Q' : α → σ → Prop} (hp : p.Ends h s Q)
    (hQ : ∀ a s', Q a s' → Q' a s') : p.Ends h s Q' := by
  obtain ⟨a, s', hrun, ha⟩ := Prog.ends_iff.mp hp
  exact Prog.ends_iff.mpr ⟨a, s', hrun, hQ a s' ha⟩

/-- The rule of composition. -/
lemma Prog.ends_bind (p : Prog S α) (f : α → Prog S β) {Q : β → σ → Prop} :
    (p >>= f).Ends h s Q ↔ p.Ends h s fun a s' => (f a).Ends h s' Q := by
  induction p generalizing s with
  | ret a => rfl
  | call o k ih => simp only [Prog.call_bind, Prog.ends_call, ih]

lemma Prog.Ends.bind {p : Prog S α} {f : α → Prog S β} {R : α → σ → Prop} {Q : β → σ → Prop}
    (hp : p.Ends h s R) (hf : ∀ a s', R a s' → (f a).Ends h s' Q) : (p >>= f).Ends h s Q :=
  (Prog.ends_bind p f).mpr (hp.mono hf)

/-- A last call. -/
lemma Prog.Ends.of_bind_pure {p : Prog S α} (hp : (p >>= pure).Ends h s Q) : p.Ends h s Q :=
  (Prog.ends_bind p pure).mp hp

end Ends

end Program
