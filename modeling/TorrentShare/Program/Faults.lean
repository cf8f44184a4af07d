import TorrentShare.Program.Basic

/-!
# What a run comes to

A program may come to an operation that it should not, at once or after some calls. A discipline
that never allows such an operation rules it out, and a simulation carries it to another state.
-/

namespace Program

variable {S T : Sig} {σ γ α β : Type}

/-- A run of the program comes to an operation in a state that are `bad` together. -/
def Prog.Reaches (h : Interp S σ) (bad : S.Op → σ → Prop) : Prog S α → σ → Prop
  | .ret _,    _ => False
  | .call o k, s => bad o s ∨ ∃ r, h o s = some r ∧ (k r.1).Reaches h bad r.2

section Reaches

variable {h : Interp S σ} {bad : S.Op → σ → Prop} {s : σ}

@[simp] lemma Prog.reaches_ret (a : α) : (Prog.ret a).Reaches h bad s ↔ False := Iff.rfl

@[simp] lemma Prog.reaches_call (o : S.Op) (k : S.Ans o → Prog S α) :
    (Prog.call o k).Reaches h bad s ↔
      bad o s ∨ ∃ r, h o s = some r ∧ (k r.1).Reaches h bad r.2 := Iff.rfl

instance Prog.decidableReaches [∀ o s, Decidable (bad o s)] :
    (p : Prog S α) → (s : σ) → Decidable (p.Reaches h bad s)
  | .ret _,    _ => isFalse id
  | .call o k, s =>
    match hs : h o s with
    | none   => decidable_of_iff (bad o s) (by simp [hs])
    | some r =>
      have := Prog.decidableReaches (k r.1) r.2
      decidable_of_iff (bad o s ∨ (k r.1).Reaches h bad r.2) (by simp [hs])

/-- A sequence comes to what its first part comes to, or its second part after the first. -/
lemma Prog.reaches_bind (p : Prog S α) (f : α → Prog S β) :
    (p >>= f).Reaches h bad s ↔
      p.Reaches h bad s ∨ ∃ r, p.run h s = some r ∧ (f r.1).Reaches h bad r.2 := by
  induction p generalizing s with
  | ret a => simp
  | call o k ih =>
    simp only [Prog.call_bind, Prog.reaches_call, ih, Prog.run_call, Option.bind_eq_some_iff]
    constructor
    · rintro (hbad | ⟨r, hr, hreach | ⟨r', hr', hreach⟩⟩)
      · exact Or.inl (Or.inl hbad)
      · exact Or.inl (Or.inr ⟨r, hr, hreach⟩)
      · exact Or.inr ⟨r', ⟨r, hr, hr'⟩, hreach⟩
    · rintro ((hbad | ⟨r, hr, hreach⟩) | ⟨r', ⟨r, hr, hr'⟩, hreach⟩)
      · exact Or.inl hbad
      · exact Or.inr ⟨r, hr, Or.inl hreach⟩
      · exact Or.inr ⟨r, hr, Or.inr ⟨r', hr', hreach⟩⟩

/-- With its calls replaced by their bodies, a program comes to what the bodies come to. -/
lemma Prog.reaches_inline {h : Interp T σ} {bad : T.Op → σ → Prop}
    (body : (o : S.Op) → Prog T (S.Ans o)) (p : Prog S α) :
    (p.inline body).Reaches h bad s ↔
      p.Reaches (fun o => (body o).run h) (fun o s => (body o).Reaches h bad s) s := by
  induction p generalizing s with
  | ret a => rfl
  | call o k ih =>
    simp only [Prog.inline, Prog.reaches_bind, Prog.reaches_call, ih]

/-- A run that ends has come to no operation without a result. -/
lemma Prog.not_reaches_of_run (hbad : ∀ o s, bad o s → h o s = none) {p : Prog S α}
    (hrun : p.run h s ≠ none) : ¬ p.Reaches h bad s := by
  induction p generalizing s with
  | ret a => exact id
  | call o k ih =>
    rw [Prog.run_call] at hrun
    rintro (hnow | ⟨r, hr, hlater⟩)
    · rw [hbad o s hnow] at hrun
      exact hrun rfl
    · rw [hr] at hrun
      exact ih r.1 hrun hlater

/-- A program that keeps a discipline comes to nothing bad, if the discipline does not allow bad
    operations. -/
lemma Prog.Follows.not_reaches {D : Discipline S γ} {R : γ → σ → Prop}
    (hstep : ∀ o g s a s', D.allowed o g → R g s → h o s = some (a, s') →
      D.admits o a ∧ R (D.next o a g) s')
    (hbad : ∀ o g s, D.allowed o g → R g s → ¬ bad o s)
    {p : Prog S α} {g : γ} {Q : α → γ → Prop} (hp : p.Follows D g Q) (hg : R g s) :
    ¬ p.Reaches h bad s := by
  induction p generalizing g s with
  | ret a => exact id
  | call o k ih =>
    rintro (hnow | ⟨⟨a, s'⟩, ha, hlater⟩)
    · exact hbad o g s hp.1 hg hnow
    · obtain ⟨hadm, hg'⟩ := hstep o g s a s' hp.1 hg ha
      exact ih a (hp.2 a hadm) hg' hlater

/-- The rule of simulation: from a related state, a run comes to something bad as well. -/
lemma Prog.Reaches.simulate {τ : Type} {h' : Interp S τ} {bad' : S.Op → τ → Prop}
    {R : σ → τ → Prop} (hbad : ∀ o s t, R s t → bad o s → bad' o t)
    (hstep : ∀ o s t a s', R s t → h o s = some (a, s') →
      bad' o t ∨ ∃ t', h' o t = some (a, t') ∧ R s' t')
    {p : Prog S α} {t : τ} (hst : R s t) (hp : p.Reaches h bad s) : p.Reaches h' bad' t := by
  induction p generalizing s t with
  | ret a => exact hp
  | call o k ih =>
    rcases hp with hnow | ⟨⟨a, s'⟩, ha, hlater⟩
    · exact Or.inl (hbad o s t hst hnow)
    · rcases hstep o s t a s' hst ha with hnow | ⟨t', ht', hst'⟩
      · exact Or.inl hnow
      · exact Or.inr ⟨(a, t'), ht', ih a hst' hlater⟩

end Reaches

/-- Whatever the calls answer, the program returns a value with the property. -/
def Prog.Returns (P : α → Prop) (p : Prog S α) : Prop :=
  p.Follows (kind fun _ => True) () fun a _ => P a

lemma Prog.Returns.of_run {h : Interp S σ} {P : α → Prop} {p : Prog S α} (hp : p.Returns P)
    {s s' : σ} {a : α} (hrun : p.run h s = some (a, s')) : P a := by
  obtain ⟨-, ha, -⟩ := Prog.Follows.run (R := fun _ _ => True)
    (fun _ _ _ _ _ _ _ _ => ⟨trivial, trivial⟩) hp trivial hrun
  exact ha

/-- A program runs the same under two meanings of its operations that agree on them. -/
lemma Prog.Only.run_congr {h h' : Interp S σ} {p : Prog S α} (hp : p.Only fun o => h o = h' o)
    (s : σ) : p.run h s = p.run h' s := by
  induction p generalizing s with
  | ret a => rfl
  | call o k ih =>
    have ho : h o = h' o := hp.1
    rw [Prog.run_call, Prog.run_call, ho]
    congr 1
    funext r
    exact ih r.1 (hp.2 r.1 trivial) r.2

/-! ### Stopping in the middle -/

/-- A run of the program is in a state before one of its operations or at its end. -/
def Prog.Passes (h : Interp S σ) : Prog S α → σ → σ → Prop
  | .ret _,    s, t => t = s
  | .call o k, s, t => t = s ∨ ∃ r, h o s = some r ∧ (k r.1).Passes h r.2 t

section Passes

variable {h : Interp S σ} {s t : σ}

@[simp] lemma Prog.passes_ret (a : α) : (Prog.ret a : Prog S α).Passes h s t ↔ t = s := Iff.rfl

@[simp] lemma Prog.passes_call (o : S.Op) (k : S.Ans o → Prog S α) :
    (Prog.call o k).Passes h s t ↔ t = s ∨ ∃ r, h o s = some r ∧ (k r.1).Passes h r.2 t :=
  Iff.rfl

lemma Prog.passes_start (p : Prog S α) : p.Passes h s s := by
  cases p with
  | ret a => exact rfl
  | call o k => exact Or.inl rfl

lemma Prog.passes_of_run {p : Prog S α} {a : α} (hrun : p.run h s = some (a, t)) :
    p.Passes h s t := by
  induction p generalizing s with
  | ret b =>
    cases hrun
    exact rfl
  | call o k ih =>
    obtain ⟨r, hr, hrun⟩ := Option.bind_eq_some_iff.mp hrun
    exact Or.inr ⟨r, hr, ih r.1 hrun⟩

/-- A sequence passes what its first part passes, and what its second part passes after it. -/
lemma Prog.passes_bind (p : Prog S α) (f : α → Prog S β) :
    (p >>= f).Passes h s t ↔
      p.Passes h s t ∨ ∃ r, p.run h s = some r ∧ (f r.1).Passes h r.2 t := by
  induction p generalizing s with
  | ret a =>
    simp only [Prog.ret_bind, Prog.passes_ret, Prog.run_ret, Option.some.injEq, exists_eq_left']
    constructor
    · exact Or.inr
    · rintro (rfl | ht)
      · exact (f a).passes_start
      · exact ht
  | call o k ih =>
    simp only [Prog.call_bind, Prog.passes_call, ih, Prog.run_call, Option.bind_eq_some_iff]
    constructor
    · rintro (rfl | ⟨r, hr, ht | ⟨r', hr', ht⟩⟩)
      · exact Or.inl (Or.inl rfl)
      · exact Or.inl (Or.inr ⟨r, hr, ht⟩)
      · exact Or.inr ⟨r', ⟨r, hr, hr'⟩, ht⟩
    · rintro ((rfl | ⟨r, hr, ht⟩) | ⟨r', ⟨r, hr, hr'⟩, ht⟩)
      · exact Or.inl rfl
      · exact Or.inr ⟨r, hr, Or.inl ht⟩
      · exact Or.inr ⟨r, hr, Or.inr ⟨r', hr', ht⟩⟩

/-- What the operations of a kind keep holds wherever a program of them stops. -/
lemma Prog.Only.passes {ok : S.Op → Prop} {R : σ → Prop}
    (hstep : ∀ o s a s', ok o → R s → h o s = some (a, s') → R s') {p : Prog S α} (hp : p.Only ok)
    (hs : R s) (ht : p.Passes h s t) : R t := by
  induction p generalizing s with
  | ret a => exact ht ▸ hs
  | call o k ih =>
    rcases ht with rfl | ⟨⟨a, s'⟩, ha, ht⟩
    · exact hs
    · exact ih a (hp.2 a trivial) (hstep o s a s' hp.1 hs ha) ht

end Passes

end Program
