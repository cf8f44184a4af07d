import TorrentShare.Program.Basic

/-!
# Two runs of one program

Two runs of a program may get different answers to the same calls. They have the same result as
long as the program does not tell their answers apart.
-/

namespace Program

variable {S : Sig} {σ τ γ α β : Type}

/-- Which answers of the two runs are alike. It may depend on a ghost state, which an operation
    and its two answers move. -/
structure Likeness (S : Sig) (γ : Type) where
  alike : (o : S.Op) → γ → S.Ans o → S.Ans o → Prop
  next : (o : S.Op) → S.Ans o → S.Ans o → γ → γ

/-- After like answers the program, started in `g`, goes on in the same way, and it returns a
    value and ghost state satisfying `Q`. -/
def Prog.Uniform (L : Likeness S γ) : Prog S α → γ → (α → γ → Prop) → Prop
  | .ret a,    g, Q => Q a g
  | .call o k, g, Q => ∀ a b, L.alike o g a b → k a = k b ∧ (k a).Uniform L (L.next o a b g) Q

section Uniform

variable {L : Likeness S γ}

@[simp] lemma Prog.uniform_ret (a : α) (g : γ) (Q : α → γ → Prop) :
    (Prog.ret a : Prog S α).Uniform L g Q ↔ Q a g := Iff.rfl

@[simp] lemma Prog.uniform_call (o : S.Op) (k : S.Ans o → Prog S α) (g : γ)
    (Q : α → γ → Prop) :
    (Prog.call o k).Uniform L g Q ↔
      ∀ a b, L.alike o g a b → k a = k b ∧ (k a).Uniform L (L.next o a b g) Q := Iff.rfl

/-- The rule of choice. -/
lemma Prog.uniform_ite (c : Prop) [Decidable c] (p q : Prog S α) (g : γ) (Q : α → γ → Prop) :
    (if c then p else q).Uniform L g Q ↔
      (c → p.Uniform L g Q) ∧ (¬ c → q.Uniform L g Q) := by
  split_ifs with h <;> simp [h]

/-- The rule of composition. -/
lemma Prog.Uniform.bind {p : Prog S α} {f : α → Prog S β} {g : γ} {R : α → γ → Prop}
    {Q : β → γ → Prop} (hp : p.Uniform L g R)
    (hf : ∀ a g', R a g' → (f a).Uniform L g' Q) : (p >>= f).Uniform L g Q := by
  induction p generalizing g with
  | ret a => exact hf a g hp
  | call o k ih =>
    intro a b hab
    obtain ⟨hk, hka⟩ := hp a b hab
    exact ⟨congrArg (· >>= f) hk, ih a hka⟩

/-- If every operation takes related states to related states and answers alike, the whole
    program takes related states to related states and returns the same value. -/
lemma Prog.Uniform.run {ok : S.Op → Prop} {h : Interp S σ} {h' : Interp S τ}
    {R : γ → σ → τ → Prop}
    (hstep : ∀ o g s t a s', ok o → R g s t → h o s = some (a, s') →
      ∃ b t', h' o t = some (b, t') ∧ L.alike o g a b ∧ R (L.next o a b g) s' t')
    {p : Prog S α} {g : γ} {Q : α → γ → Prop} (hp : p.Only ok) (hu : p.Uniform L g Q)
    {s s' : σ} {t : τ} {a : α} (hR : R g s t) (hrun : p.run h s = some (a, s')) :
    ∃ g' t', p.run h' t = some (a, t') ∧ R g' s' t' := by
  induction p generalizing g s t with
  | ret b =>
    cases hrun
    exact ⟨g, t, rfl, hR⟩
  | call o k ih =>
    simp only [Prog.run_call, Option.bind_eq_some_iff] at hrun
    obtain ⟨⟨b, s₁⟩, hb, hrun⟩ := hrun
    obtain ⟨b', t₁, hb', hlike, hR₁⟩ := hstep o g s t b s₁ hp.1 hR hb
    obtain ⟨hk, hkb⟩ := hu b b' hlike
    obtain ⟨g', t', hrun', hR'⟩ := ih b (hp.2 b trivial) hkb hR₁ hrun
    refine ⟨g', t', ?_, hR'⟩
    rw [Prog.run_call, hb', Option.bind_some]
    exact hk ▸ hrun'

end Uniform

end Program
