import Mathlib.Logic.Function.Basic
import Mathlib.Tactic.Common

/-!
# Programs over a signature of operations

A program makes calls and continues with their answers. It is the common source of the two
readings used below: run to completion on a state (`Prog.run`), or executed one call at a
time between the calls of other threads (`Program.Threads`).
-/

namespace Program

/-- A signature: the operations a program may call, and the type of the answer to each. -/
structure Sig where
  Op : Type
  Ans : Op → Type

/-- Programs over `S`: return a value, or make a call and continue with its answer. -/
inductive Prog (S : Sig) (α : Type) : Type where
  | ret : α → Prog S α
  | call : (o : S.Op) → (S.Ans o → Prog S α) → Prog S α

variable {S T : Sig} {σ γ α β : Type}

/-- Sequencing: graft `f` onto the returns of a program. -/
def Prog.bind (p : Prog S α) (f : α → Prog S β) : Prog S β :=
  match p with
  | .ret a    => f a
  | .call o k => .call o fun a => (k a).bind f

instance : Monad (Prog S) where
  pure := Prog.ret
  bind := Prog.bind

@[simp] lemma Prog.pure_eq (a : α) : (pure a : Prog S α) = .ret a := rfl

@[simp] lemma Prog.ret_bind (a : α) (f : α → Prog S β) : (Prog.ret a >>= f) = f a := rfl

@[simp] lemma Prog.call_bind (o : S.Op) (k : S.Ans o → Prog S α) (f : α → Prog S β) :
    (Prog.call o k >>= f) = .call o fun a => k a >>= f := rfl

/-- The program has returned. -/
def Prog.isRet : Prog S α → Bool
  | .ret _    => true
  | .call _ _ => false

lemma Prog.isRet_iff (p : Prog S α) : p.isRet = true ↔ ∃ a, p = .ret a := by
  cases p with
  | ret a => simp [Prog.isRet]
  | call o k => simp [Prog.isRet]

lemma Prog.not_isRet_iff (p : Prog S α) : p.isRet = false ↔ ∃ o k, p = .call o k := by
  cases p with
  | ret a => simp [Prog.isRet]
  | call o k => simp [Prog.isRet]

/-- What the program has returned. -/
def Prog.returned : Prog S α → Option α
  | .ret a    => some a
  | .call _ _ => none

lemma Prog.returned_eq_some (p : Prog S α) (a : α) : p.returned = some a ↔ p = .ret a := by
  cases p with
  | ret b => simp [Prog.returned]
  | call o k => simp [Prog.returned]

lemma Prog.bind_assoc {δ : Type} (p : Prog S α) (f : α → Prog S β) (f' : β → Prog S δ) :
    (p >>= f >>= f') = p >>= fun a => f a >>= f' := by
  induction p with
  | ret a => rfl
  | call o k ih => exact congrArg (Prog.call o) (funext ih)

/-! ### Running a program to completion -/

/-- A meaning for the operations on states `σ`. An operation without a result (`none`) is one
    the program does not survive. -/
abbrev Interp (S : Sig) (σ : Type) := (o : S.Op) → σ → Option (S.Ans o × σ)

/-- Run a program to completion, without interruption. -/
def Prog.run (h : Interp S σ) : Prog S α → σ → Option (α × σ)
  | .ret a,    s => some (a, s)
  | .call o k, s => (h o s).bind fun r => (k r.1).run h r.2

@[simp] lemma Prog.run_ret (h : Interp S σ) (a : α) (s : σ) :
    (Prog.ret a).run h s = some (a, s) := rfl

@[simp] lemma Prog.run_call (h : Interp S σ) (o : S.Op) (k : S.Ans o → Prog S α) (s : σ) :
    (Prog.call o k).run h s = (h o s).bind fun r => (k r.1).run h r.2 := rfl

/-- A sequence runs its parts in turn. -/
lemma Prog.run_bind (h : Interp S σ) (p : Prog S α) (f : α → Prog S β) (s : σ) :
    (p >>= f).run h s = (p.run h s).bind fun r => (f r.1).run h r.2 := by
  induction p generalizing s with
  | ret a => rfl
  | call o k ih =>
    simp only [Prog.call_bind, Prog.run_call, Option.bind_assoc]
    congr 1
    funext r
    exact ih r.1 r.2

/-- What every operation keeps is kept by a whole run. -/
lemma Prog.run_invariant {h : Interp S σ} {R : σ → Prop}
    (hstep : ∀ o s a s', R s → h o s = some (a, s') → R s') {p : Prog S α} {s s' : σ} {a : α}
    (hs : R s) (hrun : p.run h s = some (a, s')) : R s' := by
  induction p generalizing s with
  | ret b =>
    cases hrun
    exact hs
  | call o k ih =>
    obtain ⟨⟨b, t⟩, hb, hrun⟩ := Option.bind_eq_some_iff.mp hrun
    exact ih b (hstep o s b t hs hb) hrun

/-! ### Replacing calls by their bodies -/

/-- Replace every call of a program by a program over another signature. -/
def Prog.inline (body : (o : S.Op) → Prog T (S.Ans o)) : Prog S α → Prog T α
  | .ret a    => .ret a
  | .call o k => body o >>= fun a => (k a).inline body

lemma Prog.inline_bind (body : (o : S.Op) → Prog T (S.Ans o)) (p : Prog S α) (f : α → Prog S β) :
    (p >>= f).inline body = p.inline body >>= fun a => (f a).inline body := by
  induction p with
  | ret a => rfl
  | call o k ih =>
    rw [Prog.call_bind, Prog.inline, Prog.inline, Prog.bind_assoc]
    exact congrArg (body o >>= ·) (funext ih)

/-- To replace calls twice is to replace them by their bodies with the calls replaced. -/
lemma Prog.inline_inline {U : Sig} (body : (o : S.Op) → Prog T (S.Ans o))
    (body' : (o : T.Op) → Prog U (T.Ans o)) (p : Prog S α) :
    (p.inline body).inline body' = p.inline fun o => (body o).inline body' := by
  induction p with
  | ret a => rfl
  | call o k ih =>
    rw [Prog.inline, Prog.inline_bind, Prog.inline]
    exact congrArg ((body o).inline body' >>= ·) (funext ih)

/-- A program with its calls replaced runs as the program whose calls mean their bodies. -/
lemma Prog.run_inline (h : Interp T σ) (body : (o : S.Op) → Prog T (S.Ans o)) (p : Prog S α)
    (s : σ) : (p.inline body).run h s = p.run (fun o => (body o).run h) s := by
  induction p generalizing s with
  | ret a => rfl
  | call o k ih =>
    rw [Prog.inline, Prog.run_bind, Prog.run_call]
    exact congrArg (((body o).run h s).bind ·) (funext fun r => ih r.1 r.2)

/-! ### Disciplines -/

/-- A discipline on the calls of a program: a ghost state, which operations it allows, how an
    operation and its answer move it, and which answers are to be expected. -/
structure Discipline (S : Sig) (γ : Type) where
  allowed : S.Op → γ → Prop
  next : (o : S.Op) → S.Ans o → γ → γ
  admits : (o : S.Op) → S.Ans o → Prop

/-- On every path along admitted answers, `p` started in `g` only makes allowed calls, and
    returns a value and ghost state satisfying `Q`. -/
def Prog.Follows (D : Discipline S γ) : Prog S α → γ → (α → γ → Prop) → Prop
  | .ret a,    g, Q => Q a g
  | .call o k, g, Q => D.allowed o g ∧ ∀ a, D.admits o a → (k a).Follows D (D.next o a g) Q

section Follows

variable {D : Discipline S γ}

@[simp] lemma Prog.follows_ret (a : α) (g : γ) (Q : α → γ → Prop) :
    (Prog.ret a : Prog S α).Follows D g Q ↔ Q a g := Iff.rfl

@[simp] lemma Prog.follows_call (o : S.Op) (k : S.Ans o → Prog S α) (g : γ)
    (Q : α → γ → Prop) :
    (Prog.call o k).Follows D g Q ↔
      D.allowed o g ∧ ∀ a, D.admits o a → (k a).Follows D (D.next o a g) Q := Iff.rfl

/-- The rule of choice. -/
lemma Prog.follows_ite (c : Prop) [Decidable c] (p q : Prog S α) (g : γ) (Q : α → γ → Prop) :
    (if c then p else q).Follows D g Q ↔
      (c → p.Follows D g Q) ∧ (¬ c → q.Follows D g Q) := by
  split_ifs with h <;> simp [h]

/-- The rule of consequence. -/
lemma Prog.Follows.mono {p : Prog S α} {g : γ} {Q Q' : α → γ → Prop}
    (h : p.Follows D g Q) (hQ : ∀ a g', Q a g' → Q' a g') : p.Follows D g Q' := by
  induction p generalizing g with
  | ret a => exact hQ a g h
  | call o k ih => exact ⟨h.1, fun a ha => ih a (h.2 a ha)⟩

/-- The rule of composition. -/
lemma Prog.follows_bind (p : Prog S α) (f : α → Prog S β) (g : γ) (Q : β → γ → Prop) :
    (p >>= f).Follows D g Q ↔ p.Follows D g fun a g' => (f a).Follows D g' Q := by
  induction p generalizing g with
  | ret a => rfl
  | call o k ih => simp only [Prog.call_bind, Prog.follows_call, ih]

lemma Prog.Follows.bind {p : Prog S α} {f : α → Prog S β} {g : γ} {R : α → γ → Prop}
    {Q : β → γ → Prop} (hp : p.Follows D g R)
    (hf : ∀ a g', R a g' → (f a).Follows D g' Q) : (p >>= f).Follows D g Q :=
  (Prog.follows_bind p f g Q).mpr (hp.mono hf)

/-- Bodies that keep the discipline of their calls keep that of the program. -/
lemma Prog.Follows.inline {E : Discipline T γ} {body : (o : S.Op) → Prog T (S.Ans o)}
    (hbody : ∀ o g, D.allowed o g →
      (body o).Follows E g fun a g' => g' = D.next o a g ∧ D.admits o a)
    {p : Prog S α} {g : γ} {Q : α → γ → Prop} (h : p.Follows D g Q) :
    (p.inline body).Follows E g Q := by
  induction p generalizing g with
  | ret a => exact h
  | call o k ih =>
    refine (hbody o g h.1).bind fun a g' ha => ?_
    obtain ⟨rfl, ha⟩ := ha
    exact ih a (h.2 a ha)

/-- A relation between ghost and actual states that every allowed operation keeps is kept by
    a whole run. -/
lemma Prog.Follows.run {h : Interp S σ} {R : γ → σ → Prop}
    (hstep : ∀ o g s a s', D.allowed o g → R g s → h o s = some (a, s') →
      D.admits o a ∧ R (D.next o a g) s')
    {p : Prog S α} {g : γ} {Q : α → γ → Prop} (hp : p.Follows D g Q) {s s' : σ} {a : α}
    (hg : R g s) (hrun : p.run h s = some (a, s')) : ∃ g', Q a g' ∧ R g' s' := by
  induction p generalizing g s with
  | ret b =>
    simp only [Prog.run_ret, Option.some.injEq, Prod.mk.injEq] at hrun
    obtain ⟨rfl, rfl⟩ := hrun
    exact ⟨g, hp, hg⟩
  | call o k ih =>
    simp only [Prog.run_call, Option.bind_eq_some_iff] at hrun
    obtain ⟨⟨b, t⟩, hb, hrun⟩ := hrun
    obtain ⟨hadm, ht⟩ := hstep o g s b t hp.1 hg hb
    exact ih b (hp.2 b hadm) ht hrun

/-- The discipline that allows the operations of a kind, in any order. -/
def kind (ok : S.Op → Prop) : Discipline S Unit :=
  ⟨fun o _ => ok o, fun _ _ g => g, fun _ _ => True⟩

@[simp] lemma kind_allowed (ok : S.Op → Prop) (o : S.Op) (g : Unit) :
    (kind ok).allowed o g = ok o := rfl
@[simp] lemma kind_next (ok : S.Op → Prop) (o : S.Op) (a : S.Ans o) (g : Unit) :
    (kind ok).next o a g = g := rfl
@[simp] lemma kind_admits (ok : S.Op → Prop) (o : S.Op) (a : S.Ans o) :
    (kind ok).admits o a = True := rfl

/-- Every operation of a program is of the kind `ok`. -/
def Prog.Only (ok : S.Op → Prop) (p : Prog S α) : Prop := p.Follows (kind ok) () fun _ _ => True

lemma Prog.only_call {ok : S.Op → Prop} {o : S.Op} {k : S.Ans o → Prog S α} (ho : ok o)
    (hk : ∀ a, (k a).Only ok) : (Prog.call o k).Only ok :=
  ⟨ho, fun a _ => hk a⟩

lemma Prog.Only.bind {ok : S.Op → Prop} {p : Prog S α} {f : α → Prog S β} (hp : p.Only ok)
    (hf : ∀ a, (f a).Only ok) : (p >>= f).Only ok :=
  Prog.Follows.bind hp fun a _ _ => hf a

lemma Prog.Only.mono {ok ok' : S.Op → Prop} (h : ∀ o, ok o → ok' o) {p : Prog S α}
    (hp : p.Only ok) : p.Only ok' := by
  induction p with
  | ret a => trivial
  | call o k ih => exact Prog.only_call (h o hp.1) fun a => ih a (hp.2 a trivial)

lemma Prog.Only.inline {ok : S.Op → Prop} {ok' : T.Op → Prop}
    {body : (o : S.Op) → Prog T (S.Ans o)} (h : ∀ o, ok o → (body o).Only ok') {p : Prog S α}
    (hp : p.Only ok) : (p.inline body).Only ok' := by
  induction p with
  | ret a => trivial
  | call o k ih => exact (h o hp.1).bind fun a => ih a (hp.2 a trivial)

/-- Forget the order in which a discipline allows operations. -/
lemma Prog.Follows.only {ok : S.Op → Prop} (hok : ∀ o g, D.allowed o g → ok o)
    (hadmits : ∀ o a, D.admits o a) {p : Prog S α} {g : γ} {Q : α → γ → Prop}
    (hp : p.Follows D g Q) : p.Only ok := by
  induction p generalizing g with
  | ret a => trivial
  | call o k ih => exact Prog.only_call (hok o g hp.1) fun a => ih a (hp.2 a (hadmits o a))

/-- Operations that a discipline allows and that do not move the ghost state. -/
lemma Prog.Only.follows {ok : S.Op → Prop} {g : γ}
    (hok : ∀ o, ok o → D.allowed o g ∧ ∀ a, D.next o a g = g) {p : Prog S α} (hp : p.Only ok) :
    p.Follows D g fun _ g' => g' = g := by
  induction p with
  | ret a => rfl
  | call o k ih =>
    obtain ⟨hallowed, hnext⟩ := hok o hp.1
    refine ⟨hallowed, fun a _ => ?_⟩
    rw [hnext a]
    exact ih a (hp.2 a trivial)

/-- Operations that a discipline always allows. -/
lemma Prog.Only.follows_of_allowed {ok : S.Op → Prop} (hok : ∀ o g, ok o → D.allowed o g)
    {p : Prog S α} {g : γ} (hp : p.Only ok) : p.Follows D g fun _ _ => True := by
  induction p generalizing g with
  | ret a => trivial
  | call o k ih => exact ⟨hok o g hp.1, fun a _ => ih a (hp.2 a trivial)⟩

end Follows

end Program
