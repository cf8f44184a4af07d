import Mathlib.Data.List.Forall2
import Mathlib.Data.List.Induction
import Mathlib.Tactic.Common

/-!
# Services

A service answers requests one after another and keeps a state in between. Here are the rules by
which one service is compared with another, or with itself on other requests: step by step, and
then for all sequences of requests.
-/

namespace Program.Service

variable {σ τ ι ο ω : Type}

/-- The state after a sequence of requests. -/
def after (f : σ → ι → ο × σ) : σ → List ι → σ
  | s, []      => s
  | s, i :: is => after f (f s i).2 is

/-- The requests with their replies. -/
def history (f : σ → ι → ο × σ) : σ → List ι → List (ι × ο)
  | _, []      => []
  | s, i :: is => (i, (f s i).1) :: history f (f s i).2 is

/-- The history and the last state of a service that may not survive a request. -/
def attempt (f : σ → ι → Option (ο × σ)) : σ → List ι → Option (List (ι × ο) × σ)
  | s, []      => some ([], s)
  | s, i :: is => (f s i).bind fun r => (attempt f r.2 is).map fun rs => ((i, r.1) :: rs.1, rs.2)

section Sequences

variable {f : σ → ι → ο × σ}

@[simp] lemma after_nil (s : σ) : after f s [] = s := rfl

@[simp] lemma after_cons (s : σ) (i : ι) (is : List ι) :
    after f s (i :: is) = after f (f s i).2 is := rfl

@[simp] lemma history_nil (s : σ) : history f s [] = [] := rfl

@[simp] lemma history_cons (s : σ) (i : ι) (is : List ι) :
    history f s (i :: is) = (i, (f s i).1) :: history f (f s i).2 is := rfl

end Sequences

/-! ### A service and its implementation -/

/-- One service implements another: from related states it survives every request, its reply tells
    what the other one answers, and the states stay related. -/
def Implements (ok : ι → Prop) (tells : ω → ο → Prop) (related : τ → σ → Prop)
    (f : σ → ι → Option (ο × σ)) (g : τ → ι → ω × τ) : Prop :=
  ∀ t s i, ok i → related t s →
    ∃ o s', f s i = some (o, s') ∧ tells (g t i).1 o ∧ related (g t i).2 s'

/-- Each request is allowed when it is made. What is allowed depends on the requests before. -/
def Allowed {δ : Type} (allows : δ → ι → Prop) (next : δ → ι → δ) : δ → List ι → Prop
  | _, []      => True
  | d, i :: is => allows d i ∧ Allowed allows next (next d i) is

instance Allowed.decidable {δ : Type} {allows : δ → ι → Prop} {next : δ → ι → δ}
    [∀ d i, Decidable (allows d i)] : ∀ d is, Decidable (Allowed allows next d is)
  | _, []      => .isTrue trivial
  | d, i :: is =>
    have : Decidable (Allowed allows next (next d i) is) := Allowed.decidable (next d i) is
    inferInstanceAs (Decidable (allows d i ∧ Allowed allows next (next d i) is))

/-- Requests, each with others that are made right after it. -/
def repeated (is : List (ι × List ι)) : List ι := is.flatMap fun i => i.1 :: i.2

/-- What belongs to the first of each of them. -/
def firsts {ρ : Type} : List (ι × List ι) → List ρ → List ρ
  | [], _       => []
  | i :: is, rs => rs.take 1 ++ firsts is (rs.drop (i.2.length + 1))

section Implementations

variable {ok : ι → Prop} {tells : ω → ο → Prop} {related : τ → σ → Prop}
  {f : σ → ι → Option (ο × σ)} {g : τ → ι → ω × τ} {s s' : σ} {t t' : τ} {is : List ι}

/-- Fewer requests. -/
lemma Implements.mono (h : Implements ok tells related f g) {ok' : ι → Prop}
    (hok : ∀ i, ok' i → ok i) : Implements ok' tells related f g :=
  fun t s i hi => h t s i (hok i hi)

lemma attempt_cons {i : ι} {o : ο} (hf : f s i = some (o, s')) {rs : List (ι × ο)} {s'' : σ}
    (hrest : attempt f s' is = some (rs, s'')) :
    attempt f s (i :: is) = some ((i, o) :: rs, s'') := by
  rw [attempt, hf, Option.bind_some, hrest]
  rfl

lemma attempt_append {js : List ι} {rs rs' : List (ι × ο)} {s'' : σ}
    (his : attempt f s is = some (rs, s')) (hjs : attempt f s' js = some (rs', s'')) :
    attempt f s (is ++ js) = some (rs ++ rs', s'') := by
  induction is generalizing s rs with
  | nil =>
    cases his
    exact hjs
  | cons i is ih =>
    simp only [attempt, Option.bind_eq_some_iff, Option.map_eq_some_iff] at his
    obtain ⟨⟨o, s₁⟩, hf, ⟨rs₁, s₂⟩, hrest, heq⟩ := his
    cases heq
    exact attempt_cons hf (ih hrest)

/-- A history is of the requests that were made. -/
lemma map_fst_of_attempt {rs : List (ι × ο)} (his : attempt f s is = some (rs, s')) :
    rs.map Prod.fst = is := by
  induction is generalizing s rs with
  | nil =>
    cases his
    rfl
  | cons i is ih =>
    simp only [Service.attempt, Option.bind_eq_some_iff, Option.map_eq_some_iff] at his
    obtain ⟨⟨o, s₁⟩, hf, ⟨rs₁, s₂⟩, hrest, heq⟩ := his
    cases heq
    rw [List.map_cons, ih hrest]

/-- Every reply tells what the other service answers. -/
lemma Implements.attempt (h : Implements ok tells related f g) (hok : ∀ i ∈ is, ok i)
    (hst : related t s) : ∃ hist s', Service.attempt f s is = some (hist, s') ∧
      List.Forall₂ (fun a c => a.1 = c.1 ∧ tells a.2 c.2) (history g t is) hist ∧
      related (after g t is) s' := by
  induction is generalizing s t with
  | nil => exact ⟨[], s, rfl, .nil, hst⟩
  | cons i is ih =>
    rw [List.forall_mem_cons] at hok
    obtain ⟨o, s', hf, htell, hst'⟩ := h t s i hok.1 hst
    obtain ⟨hist, s'', hattempt, htold, hst''⟩ := ih hok.2 hst'
    exact ⟨(i, o) :: hist, s'', attempt_cons hf hattempt, .cons ⟨rfl, htell⟩ htold, hst''⟩

/-- The same where one service implements another as long as each request is allowed when it is
    made. -/
lemma attempt_allowed {δ : Type} {allows : δ → ι → Prop} {next : δ → ι → δ}
    {kept : δ → τ → σ → Prop} {d : δ}
    (h : ∀ d t s i, ok i → allows d i → kept d t s →
      ∃ o s', f s i = some (o, s') ∧ tells (g t i).1 o ∧ kept (next d i) (g t i).2 s')
    (hok : ∀ i ∈ is, ok i) (hallowed : Allowed allows next d is) (hst : kept d t s) :
    ∃ hist s', Service.attempt f s is = some (hist, s') ∧
      List.Forall₂ (fun a c => a.1 = c.1 ∧ tells a.2 c.2) (history g t is) hist ∧
      kept (is.foldl next d) (after g t is) s' := by
  induction is generalizing d s t with
  | nil => exact ⟨[], s, rfl, .nil, hst⟩
  | cons i is ih =>
    rw [List.forall_mem_cons] at hok
    obtain ⟨o, s', hf, htell, hst'⟩ := h d t s i hok.1 hallowed.1 hst
    obtain ⟨hist, s'', hattempt, htold, hst''⟩ := ih hok.2 hallowed.2 hst'
    exact ⟨(i, o) :: hist, s'', attempt_cons hf hattempt, .cons ⟨rfl, htell⟩ htold, hst''⟩

/-- The rule of histories: what every request keeps, of the replies and the state of the other
    service, holds after every sequence of requests. -/
lemma Implements.attempt_rule (h : Implements ok tells related f g)
    {P : List (ι × ο) → τ → Prop} (hok : ∀ i ∈ is, ok i) (hstart : P [] t)
    (hstep : ∀ hist t i o, ok i → P hist t → tells (g t i).1 o →
      P (hist ++ [(i, o)]) (g t i).2) (hst : related t s) :
    ∃ hist s', Service.attempt f s is = some (hist, s') ∧ P hist (after g t is) ∧
      related (after g t is) s' := by
  suffices hgoal : ∀ before s t, P before t → related t s → ∃ hist s',
      Service.attempt f s is = some (hist, s') ∧ P (before ++ hist) (after g t is) ∧
        related (after g t is) s' from hgoal [] s t hstart hst
  clear hst hstart
  induction is with
  | nil => exact fun before s t hP hst => ⟨[], s, rfl, by rwa [List.append_nil], hst⟩
  | cons i is ih =>
    intro before s t hP hst
    rw [List.forall_mem_cons] at hok
    obtain ⟨o, s', hf, htell, hst'⟩ := h t s i hok.1 hst
    obtain ⟨hist, s'', hattempt, hP', hst''⟩ := ih hok.2 (before ++ [(i, o)]) s' _
      (hstep before t i o hok.1 hP htell) hst'
    exact ⟨(i, o) :: hist, s'', attempt_cons hf hattempt, by rwa [List.append_cons], hst''⟩

/-- Some requests are hidden: they do not show in the states as far as these are compared. Then
    the others are answered as if these had not been made. -/
lemma Implements.attempt_filter (h : Implements ok tells related f g) {alike : τ → τ → Prop}
    {agree : ι → ω → ω → Prop} {visible : ι → Bool}
    (hvisible : ∀ t t' i, ok i → visible i = true → alike t t' →
      agree i (g t i).1 (g t' i).1 ∧ alike (g t i).2 (g t' i).2)
    (hhidden : ∀ t t' i, ok i → visible i = false → alike t t' → alike (g t i).2 t')
    (hok : ∀ i ∈ is, ok i) (hst : related t s) (hst' : related t' s') (ht : alike t t') :
    ∃ hist s₁ hist' s₂, Service.attempt f s is = some (hist, s₁) ∧
      Service.attempt f s' (is.filter visible) = some (hist', s₂) ∧
      List.Forall₂ (fun x y => x.1 = y.1 ∧
        ∃ a a', tells a x.2 ∧ tells a' y.2 ∧ agree x.1 a a') (hist.filter (visible ·.1)) hist' ∧
      alike (after g t is) (after g t' (is.filter visible)) ∧ related (after g t is) s₁ ∧
        related (after g t' (is.filter visible)) s₂ := by
  induction is generalizing s s' t t' with
  | nil => exact ⟨[], s, [], s', rfl, rfl, .nil, ht, hst, hst'⟩
  | cons i is ih =>
    rw [List.forall_mem_cons] at hok
    obtain ⟨o, s₁, hf, htell, hst₁⟩ := h t s i hok.1 hst
    cases hi : visible i with
    | true =>
      obtain ⟨o', s₁', hf', htell', hst₁'⟩ := h t' s' i hok.1 hst'
      obtain ⟨hagree, halike⟩ := hvisible t t' i hok.1 hi ht
      obtain ⟨hist, s₂, hist', s₂', hrun, hrun', hall, hrest⟩ := ih hok.2 hst₁ hst₁' halike
      rw [List.filter_cons_of_pos hi]
      refine ⟨(i, o) :: hist, s₂, (i, o') :: hist', s₂', attempt_cons hf hrun,
        attempt_cons hf' hrun', ?_, hrest⟩
      rw [List.filter_cons_of_pos (by simpa using hi)]
      exact .cons ⟨rfl, _, _, htell, htell', hagree⟩ hall
    | false =>
      obtain ⟨hist, s₂, hist', s₂', hrun, hrun', hall, hrest⟩ :=
        ih hok.2 hst₁ hst' (hhidden t t' i hok.1 hi ht)
      rw [List.filter_cons_of_neg (by simp [hi])]
      refine ⟨(i, o) :: hist, s₂, hist', s₂', attempt_cons hf hrun, hrun', ?_, hrest⟩
      rwa [List.filter_cons_of_neg (by simp [hi])]

/-- Requests that change nothing. -/
lemma Implements.attempt_unchanged (h : Implements ok tells related f g) {js : List ι}
    (hjs : ∀ j ∈ js, ok j ∧ (g t j).2 = t) (hst : related t s) :
    ∃ hist s', Service.attempt f s js = some (hist, s') ∧ hist.length = js.length ∧
      related t s' := by
  induction js generalizing s with
  | nil => exact ⟨[], s, rfl, rfl, hst⟩
  | cons j js ih =>
    rw [List.forall_mem_cons] at hjs
    obtain ⟨o, s', hf, -, hst'⟩ := h t s j hjs.1.1 hst
    rw [hjs.1.2] at hst'
    obtain ⟨hist, s'', hrun, hlength, hst''⟩ := ih hjs.2 hst'
    exact ⟨(j, o) :: hist, s'', attempt_cons hf hrun, by simp [hlength], hst''⟩

/-- Requests that change nothing the second time can be made again. -/
lemma Implements.attempt_repeated (h : Implements ok tells related f g) {again : ι → ι → Prop}
    (hagain : ∀ t i j, again i j → (g (g t i).2 j).2 = (g t i).2) {is : List (ι × List ι)}
    (hok : ∀ i ∈ is, ok i.1 ∧ ∀ j ∈ i.2, ok j ∧ again i.1 j) (hst : related t s)
    (hst' : related t s') : ∃ hist s₁ hist' s₂,
      Service.attempt f s (is.map Prod.fst) = some (hist, s₁) ∧
      Service.attempt f s' (repeated is) = some (hist', s₂) ∧
      List.Forall₂ (fun x y => x.1 = y.1 ∧ ∃ a, tells a x.2 ∧ tells a y.2) hist (firsts is hist') ∧
      ∃ t', related t' s₁ ∧ related t' s₂ := by
  induction is generalizing s s' t with
  | nil => exact ⟨[], s, [], s', rfl, rfl, .nil, t, hst, hst'⟩
  | cons i is ih =>
    rw [List.forall_mem_cons] at hok
    obtain ⟨⟨hi, hmore⟩, hok⟩ := hok
    obtain ⟨o, s₁, hf, htell, hst₁⟩ := h t s i.1 hi hst
    obtain ⟨o', s₁', hf', htell', hst₁'⟩ := h t s' i.1 hi hst'
    obtain ⟨more, s₂', hrun', hlength, hst₂'⟩ := h.attempt_unchanged
      (fun j hj => ⟨(hmore j hj).1, hagain t i.1 j (hmore j hj).2⟩) hst₁'
    obtain ⟨hist, s₃, hist', s₃', hrest, hrest', hall, hend⟩ := ih hok hst₁ hst₂'
    refine ⟨(i.1, o) :: hist, s₃, ((i.1, o') :: more) ++ hist', s₃', attempt_cons hf hrest,
      attempt_append (attempt_cons hf' hrun') hrest', ?_, hend⟩
    have hdrop : (((i.1, o') :: more) ++ hist').drop (i.2.length + 1) = hist' :=
      List.drop_left' (by simp [hlength])
    rw [firsts, hdrop]
    exact .cons ⟨rfl, _, htell, htell'⟩ hall

end Implementations

end Program.Service
