import Mathlib.Logic.Relation
import TorrentShare.Replication.Pair

/-!
# Crossing transfers

Both trackers accept commands, and the transfers of the one may cross those of the other. A
command is the local update of its handler, followed by one `Sync` for each file it lists. `Sync`
sends the file as it is when it is read, and the sibling replaces its own file by what arrives.
There are no versions and nothing is merged, so that the later arrival wins.
-/

namespace TorrentShare

open Program

/-- A file on its way from a tracker to its sibling. -/
structure Snapshot where
  sender : Side
  file : Path
  content : Str
  deriving DecidableEq

/-- The two trackers, the files they have still to read for a `Sync`, the files on their way, and
    the records that commands answered with `1` have appended and no later command has removed. -/
structure Crossing where
  pair : Pair
  toSend : List (Side × Path) := []
  inFlight : List Snapshot := []
  records : List (Path × Str) := []

/-- The records that a command adds to the files it lists, if its answer is `1`. -/
def acknowledged (reply : Reply) (d d' : Disk) (listed : List Path) : List (Path × Str) :=
  if reply = some ['1'] then
    listed.flatMap fun p => ((d'.lines p).filter (· ∉ d.lines p)).map fun l => (p, l)
  else []

/-- A record that was in its file before a command is there afterwards. -/
def survives (d d' : Disk) (r : Path × Str) : Bool := r.2 ∉ d.lines r.1 || r.2 ∈ d'.lines r.1

/-- What happens next: a command is processed, a listed file is read and sent, or a file arrives. -/
inductive Crossing.Event where
  | command (r : Turn)
  | send (n : ℕ)
  | deliver (n : ℕ)

/-- The local update of a command at tracker `i`, which has become `t`. -/
def Crossing.update (s : Crossing) (i : Side) (reply : Reply) (t : Tracker) (listed : List Path) :
    Crossing where
  pair := Function.update s.pair i t
  toSend := s.toSend ++ listed.map fun p => (i, p)
  inFlight := s.inFlight
  records := s.records.filter (survives (s.pair i).disk t.disk) ++
    acknowledged reply (s.pair i).disk t.disk listed

/-- The `n`-th waiting file is read and sent. -/
def Crossing.send (s : Crossing) (n : ℕ) (f : Snapshot) : Crossing :=
  { s with toSend := s.toSend.eraseIdx n, inFlight := s.inFlight ++ [f] }

/-- The `n`-th file on its way arrives. -/
def Crossing.deliver (s : Crossing) (n : ℕ) (f : Snapshot) : Crossing where
  pair := Function.update s.pair f.sender.sibling
    ((s.pair f.sender.sibling).receive [(f.file, f.content)])
  toSend := s.toSend
  inFlight := s.inFlight.eraseIdx n
  records := s.records

def Crossing.act (hashPassword : Str → Str → Str) (s : Crossing) : Event → Option Crossing
  | .command r => (serve hashPassword (s.pair r.side) true r.salt r.command).map fun x =>
      s.update r.side x.1 x.2.1 (x.2.2.map Prod.fst)
  | .send n    => s.toSend[n]?.bind fun f => ((s.pair f.1).disk.read f.2).map fun c =>
      s.send n ⟨f.1, f.2, c⟩
  | .deliver n => s.inFlight[n]?.map fun f => s.deliver n f

/-- No `Sync` is waiting or under way. -/
def Crossing.Quiet (s : Crossing) : Prop := s.toSend = [] ∧ s.inFlight = []

/-- The condition on commands: none of the files that a command lists is on its way, and none is
    still to be sent by the sibling. -/
def Crossing.Undisturbed (hashPassword : Str → Str → Str) (s : Crossing) : Event → Prop
  | .command r => ∀ x, serve hashPassword (s.pair r.side) true r.salt r.command = some x →
      ∀ p ∈ x.2.2.map Prod.fst, (∀ f ∈ s.inFlight, cStr f.file ≠ cStr p) ∧
        ∀ f ∈ s.toSend, f.1 = r.side.sibling → cStr f.2 ≠ cStr p
  | _          => True

/-- A step of a run whose events meet a condition. -/
def Crossing.StepWhen (hashPassword : Str → Str → Str) (C : Crossing → Event → Prop)
    (s s' : Crossing) : Prop :=
  ∃ e, C s e ∧ s.act hashPassword e = some s'

/-- A step of a run in which commands do not disturb the transfers of the files they list. -/
abbrev Crossing.Step (hashPassword : Str → Str → Str) : Crossing → Crossing → Prop :=
  Crossing.StepWhen hashPassword (Crossing.Undisturbed hashPassword)

/-! ### Which tracker is ahead -/

/-- Tracker `i` has the last version of a file: only it sends the file, all that is on its way is
    that version, and the sibling has it too unless it is still to come. -/
structure Crossing.Ahead (s : Crossing) (i : Side) (p : Path) : Prop where
  toSend : ∀ f ∈ s.toSend, cStr f.2 = cStr p → f.1 = i
  inFlight : ∀ f ∈ s.inFlight, cStr f.file = cStr p →
    f.sender = i ∧ f.content = (s.pair i).disk.text p
  comes : (s.pair i.sibling).disk.text p = (s.pair i).disk.text p ∨
    (∃ f ∈ s.toSend, cStr f.2 = cStr p) ∨ ∃ f ∈ s.inFlight, cStr f.file = cStr p
  records : ∀ r ∈ s.records, cStr r.1 = cStr p → r.2 ∈ (s.pair i).disk.lines p

/-- Of every file one of the trackers has the last version. -/
def Crossing.Ordered (s : Crossing) : Prop := ∀ p, cStr p ≠ tempFile → ∃ i, s.Ahead i p

variable {hashPassword : Str → Str → Str} {s s' : Crossing}

/-- A command leaves the files alone that it does not list. -/
lemma serve_unlisted {t t' : Tracker} {salt : Str} {c : Command} {reply : Reply}
    {sent : List (Path × Str)} (h : serve hashPassword t true salt c = some (reply, t', sent))
    {p : Path} (hp : cStr p ≠ tempFile) (hsent : ∀ q ∈ sent.map Prod.fst, cStr q ≠ cStr p) :
    t'.disk.text p = t.disk.text p := by
  obtain ⟨hagree, -⟩ := serve_agree h (fun q _ => rfl : t.disk.Agree t.disk)
  rw [← hagree p hp]
  refine Disk.text_receive_of_ne _ fun f hf => ?_
  exact (hsent f.1 (List.mem_map_of_mem hf)).symm

/-- When nothing of a file is waiting or on its way, either tracker is ahead. -/
lemma Crossing.Ahead.switch {i : Side} {p : Path} (h : s.Ahead i p)
    (hsend : ∀ f ∈ s.toSend, cStr f.2 ≠ cStr p) (hflight : ∀ f ∈ s.inFlight, cStr f.file ≠ cStr p)
    (j : Side) : s.Ahead j p := by
  have hsame : (s.pair i.sibling).disk.text p = (s.pair i).disk.text p := by
    rcases h.comes with hc | ⟨f, hf, he⟩ | ⟨f, hf, he⟩
    · exact hc
    · exact absurd he (hsend f hf)
    · exact absurd he (hflight f hf)
  refine ⟨fun f hf he => absurd he (hsend f hf), fun f hf he => absurd he (hflight f hf), ?_, ?_⟩
  · left
    rcases Side.eq_or_eq_sibling i j with rfl | rfl
    · exact hsame
    · rw [Side.sibling_sibling, hsame]
  · intro r hr he
    have hl := h.records r hr he
    rcases Side.eq_or_eq_sibling i j with rfl | rfl
    · exact hl
    · rwa [Disk.lines, hsame]

/-! ### The steps -/

lemma mem_eraseIdx_of_ne {α : Type} {l : List α} {n : ℕ} {x y : α} (hx : x ∈ l)
    (hy : l[n]? = some y) (hne : x ≠ y) : x ∈ l.eraseIdx n := by
  obtain ⟨j, hj⟩ := List.mem_iff_getElem?.mp hx
  refine List.mem_eraseIdx_iff_getElem?.mpr ⟨j, ?_, hj⟩
  rintro rfl
  rw [hj] at hy
  exact hne (Option.some.inj hy)

/-- The file keeps its last version when nothing is added to what is waiting or on its way, and
    no tracker changes its contents. -/
lemma Crossing.Ahead.of_text {i : Side} {p : Path} (h : s.Ahead i p)
    (htext : ∀ j, (s'.pair j).disk.text p = (s.pair j).disk.text p)
    (hsend : ∀ f, cStr f.2 = cStr p → (f ∈ s'.toSend ↔ f ∈ s.toSend))
    (hflight : ∀ f, cStr f.file = cStr p → (f ∈ s'.inFlight ↔ f ∈ s.inFlight))
    (hrecords : ∀ r, cStr r.1 = cStr p → r ∈ s'.records → r ∈ s.records) : s'.Ahead i p := by
  refine ⟨fun f hf he => h.toSend f ((hsend f he).mp hf) he, fun f hf he => ?_, ?_,
    fun r hr he => ?_⟩
  · rw [htext]
    exact h.inFlight f ((hflight f he).mp hf) he
  · rw [htext, htext]
    rcases h.comes with hc | ⟨f, hf, he⟩ | ⟨f, hf, he⟩
    · exact Or.inl hc
    · exact Or.inr (Or.inl ⟨f, (hsend f he).mpr hf, he⟩)
    · exact Or.inr (Or.inr ⟨f, (hflight f he).mpr hf, he⟩)
  · rw [Disk.lines, htext]
    exact h.records r (hrecords r he hr) he

lemma Crossing.update_pair_self (i : Side) (reply : Reply) (t : Tracker) (listed : List Path) :
    (s.update i reply t listed).pair i = t :=
  Function.update_self ..

lemma Crossing.update_pair_of_ne {i j : Side} (reply : Reply) (t : Tracker) (listed : List Path)
    (hj : j ≠ i) : (s.update i reply t listed).pair j = s.pair j :=
  Function.update_of_ne hj _ _

/-- The records after a command are in its files, or were records before. -/
lemma Crossing.mem_records_update {i : Side} {reply : Reply} {t : Tracker} {listed : List Path}
    {x : Path × Str} (hx : x ∈ (s.update i reply t listed).records) :
    (x ∈ s.records ∧ (x.2 ∈ (s.pair i).disk.lines x.1 → x.2 ∈ t.disk.lines x.1)) ∨
      (x.1 ∈ listed ∧ x.2 ∈ t.disk.lines x.1) := by
  rcases List.mem_append.mp hx with hx | hx
  · obtain ⟨hx, hsurvives⟩ := List.mem_filter.mp hx
    have hgone : x.2 ∉ (s.pair i).disk.lines x.1 ∨ x.2 ∈ t.disk.lines x.1 := by
      simpa [survives] using hsurvives
    exact Or.inl ⟨hx, fun hold => hgone.resolve_left fun hn => hn hold⟩
  · right
    simp only [acknowledged] at hx
    split_ifs at hx
    · obtain ⟨q, hq, hx⟩ := List.mem_flatMap.mp hx
      obtain ⟨l, hl, rfl⟩ := List.mem_map.mp hx
      exact ⟨hq, (List.mem_filter.mp hl).1⟩
    · cases hx

lemma Crossing.mem_toSend_update {i : Side} {reply : Reply} {t : Tracker} {listed : List Path}
    {f : Side × Path} :
    f ∈ (s.update i reply t listed).toSend ↔ f ∈ s.toSend ∨ (f.1 = i ∧ f.2 ∈ listed) := by
  simp only [Crossing.update, List.mem_append, List.mem_map]
  refine or_congr_right ⟨?_, fun h => ⟨f.2, h.2, Prod.ext h.1.symm rfl⟩⟩
  rintro ⟨q, hq, rfl⟩
  exact ⟨rfl, hq⟩

/-- A command, with nothing of its files on the way. -/
lemma Crossing.Ordered.command {r : Turn} (h : s.Ordered)
    (hu : s.Undisturbed hashPassword (.command r))
    (hs : s.act hashPassword (.command r) = some s') : s'.Ordered := by
  obtain ⟨⟨reply, t, sent⟩, hserve, rfl⟩ := Option.map_eq_some_iff.mp hs
  intro p hp
  obtain ⟨i, hi⟩ := h p hp
  by_cases hlisted : ∃ q ∈ sent.map Prod.fst, cStr q = cStr p
  · obtain ⟨q, hq, hqp⟩ := hlisted
    obtain ⟨hflight, hsend⟩ := hu _ hserve q hq
    rw [hqp] at hflight hsend
    have hahead : s.Ahead r.side p := by
      rcases Side.eq_or_eq_sibling r.side i with rfl | rfl
      · exact hi
      · exact hi.switch (fun f hf he => hsend f hf (hi.toSend f hf he) he) hflight _
    refine ⟨r.side, fun f hf he => ?_, fun f hf he => absurd he (hflight f hf), ?_,
      fun x hx he => ?_⟩
    · rcases Crossing.mem_toSend_update.mp hf with hf | hf
      · exact hahead.toSend f hf he
      · exact hf.1
    · refine Or.inr (Or.inl ⟨(r.side, q), ?_, hqp⟩)
      exact Crossing.mem_toSend_update.mpr (Or.inr ⟨rfl, hq⟩)
    · rw [Crossing.update_pair_self, Disk.lines, ← Disk.text_congr _ he]
      rcases Crossing.mem_records_update hx with ⟨hx, hkeep⟩ | ⟨-, hnew⟩
      · have hold := hahead.records x hx he
        rw [Disk.lines, ← Disk.text_congr _ he] at hold
        exact hkeep hold
      · exact hnew
  · have hne : ∀ q ∈ sent.map Prod.fst, cStr q ≠ cStr p := fun q hq he => hlisted ⟨q, hq, he⟩
    refine ⟨i, hi.of_text (fun j => ?_) (fun f he => ?_) (fun f _ => Iff.rfl) fun x he hx => ?_⟩
    · by_cases hj : j = r.side
      · rw [hj, Crossing.update_pair_self]
        exact serve_unlisted hserve hp hne
      · rw [Crossing.update_pair_of_ne _ _ _ hj]
    · rw [Crossing.mem_toSend_update]
      exact or_iff_left fun hf => hne f.2 hf.2 he
    · rcases Crossing.mem_records_update hx with ⟨hx, -⟩ | ⟨hx, -⟩
      · exact hx
      · exact absurd he (hne x.1 hx)

/-- A file is read and sent: it is the last version, since its sender is ahead. -/
lemma Crossing.Ordered.send {n : ℕ} (h : s.Ordered)
    (hs : s.act hashPassword (.send n) = some s') : s'.Ordered := by
  simp only [Crossing.act, Option.bind_eq_some_iff, Option.map_eq_some_iff] at hs
  obtain ⟨⟨j, q⟩, hq, c, hc, rfl⟩ := hs
  have hmem : (j, q) ∈ s.toSend := List.mem_of_getElem? hq
  intro p hp
  obtain ⟨i, hi⟩ := h p hp
  by_cases hqp : cStr q = cStr p
  · obtain rfl : j = i := hi.toSend _ hmem hqp
    refine ⟨j, fun f hf he => hi.toSend f (List.mem_of_mem_eraseIdx hf) he, fun f hf he => ?_, ?_,
      hi.records⟩
    · rcases List.mem_append.mp hf with hf | hf
      · exact hi.inFlight f hf he
      · obtain rfl := List.mem_singleton.mp hf
        have htext : (s.pair j).disk.text q = c := by rw [Disk.text, hc, Option.getD_some]
        exact ⟨rfl, htext.symm.trans (Disk.text_congr _ hqp)⟩
    · exact Or.inr (Or.inr ⟨⟨j, q, c⟩, List.mem_append_right _ (List.mem_singleton_self _), hqp⟩)
  · refine ⟨i, hi.of_text (fun _ => rfl) (fun f he => ?_) (fun f he => ?_) fun _ _ hr => hr⟩
    · refine ⟨List.mem_of_mem_eraseIdx, fun hf => mem_eraseIdx_of_ne hf hq ?_⟩
      rintro rfl
      exact hqp he
    · refine ⟨fun hf => ?_, fun hf => List.mem_append_left _ hf⟩
      rcases List.mem_append.mp hf with hf | hf
      · exact hf
      · obtain rfl := List.mem_singleton.mp hf
        exact absurd he hqp

/-- A file arrives: it is the last version. -/
lemma Crossing.Ordered.deliver {n : ℕ} (h : s.Ordered)
    (hs : s.act hashPassword (.deliver n) = some s') : s'.Ordered := by
  obtain ⟨f, hf, rfl⟩ := Option.map_eq_some_iff.mp hs
  have hmem : f ∈ s.inFlight := List.mem_of_getElem? hf
  have harrives : (s.deliver n f).pair f.sender.sibling =
      (s.pair f.sender.sibling).receive [(f.file, f.content)] := Function.update_self ..
  have hother : ∀ j, j ≠ f.sender.sibling → (s.deliver n f).pair j = s.pair j :=
    fun j hj => Function.update_of_ne hj _ _
  intro p hp
  obtain ⟨i, hi⟩ := h p hp
  by_cases hfp : cStr f.file = cStr p
  · obtain ⟨rfl, hcontent⟩ := hi.inFlight f hmem hfp
    have hown := hother f.sender (Side.sibling_ne _).symm
    refine ⟨f.sender, hi.toSend, fun g hg he => ?_, Or.inl ?_, fun r hr he => ?_⟩
    · rw [hown]
      exact hi.inFlight g (List.mem_of_mem_eraseIdx hg) he
    · rw [hown, harrives]
      have htext := Disk.text_create (s.pair f.sender.sibling).disk f.file p f.content
      refine htext.trans ?_
      split_ifs with hopen
      · exact hcontent
      · have hclosed : openable (cStr p) = false := by
          simpa using fun ho => hopen ⟨hfp.symm, ho⟩
        rw [Disk.text_of_not_openable _ hclosed, Disk.text_of_not_openable _ hclosed]
    · rw [hown]
      exact hi.records r hr he
  · refine ⟨i, hi.of_text (fun j => ?_) (fun g _ => Iff.rfl) (fun g he => ?_) fun _ _ hr => hr⟩
    · by_cases hj : j = f.sender.sibling
      · rw [hj, harrives]
        exact Disk.text_create_of_ne _ _ fun he => hfp he.symm
      · rw [hother j hj]
    · refine ⟨List.mem_of_mem_eraseIdx, fun hg => mem_eraseIdx_of_ne hg hf ?_⟩
      rintro rfl
      exact hfp he

/-- The step lemma. -/
lemma Crossing.Ordered.step (h : s.Ordered) (hs : s.Step hashPassword s') : s'.Ordered := by
  obtain ⟨e, hu, he⟩ := hs
  cases e with
  | command r => exact h.command hu he
  | send n => exact h.send he
  | deliver n => exact h.deliver he

/-- The run lemma. -/
lemma Crossing.Ordered.run (h : s.Ordered)
    (hrun : Relation.ReflTransGen (Crossing.Step hashPassword) s s') : s'.Ordered := by
  induction hrun with
  | refl => exact h
  | tail _ hs ih => exact ih.step hs

/-- Two trackers with equal files between which nothing is under way. -/
lemma Crossing.ordered_start {P : Pair} (hP : (P .first).disk.Agree (P .second).disk) :
    (⟨P, [], [], []⟩ : Crossing).Ordered := by
  intro p hp
  exact ⟨.first, by simp, by simp, Or.inl (hP p hp).symm, by simp⟩

/-- If commands do not disturb the transfers of the files they list, then once no `Sync` is waiting
    or under way both trackers hold the same files, and every record that was appended by a command
    answered with `1` and not removed since is in its file at both. -/
theorem no_record_lost {P : Pair} (hP : (P .first).disk.Agree (P .second).disk)
    (hrun : Relation.ReflTransGen (Crossing.Step hashPassword) ⟨P, [], [], []⟩ s)
    (hquiet : s.Quiet) :
    (s.pair .first).disk.Agree (s.pair .second).disk ∧
      ∀ r ∈ s.records, cStr r.1 ≠ tempFile → ∀ i, r.2 ∈ (s.pair i).disk.lines r.1 := by
  have hordered := (Crossing.ordered_start hP).run hrun
  have hnone : ∀ p j, cStr p ≠ tempFile → s.Ahead j p := by
    intro p j hp
    obtain ⟨i, hi⟩ := hordered p hp
    exact hi.switch (by simp [hquiet.1]) (by simp [hquiet.2]) j
  refine ⟨fun p hp => ?_, fun r hr hp i => (hnone r.1 i hp).records r hr rfl⟩
  rcases (hnone p .second hp).comes with hc | ⟨f, hf, -⟩ | ⟨f, hf, -⟩
  · exact hc
  · rw [hquiet.1] at hf
    cases hf
  · rw [hquiet.2] at hf
    cases hf

/-! ### Schedules -/

/-- Follow a schedule. -/
def Crossing.play (hashPassword : Str → Str → Str) (s : Crossing) : List Event → Option Crossing
  | []      => some s
  | e :: es => (s.act hashPassword e).bind fun s' => s'.play hashPassword es

/-- A schedule whose events meet a condition in every state. -/
lemma Crossing.play_run {C : Crossing → Event → Prop} {es : List Event}
    (hes : ∀ e ∈ es, ∀ s, C s e) (h : s.play hashPassword es = some s') :
    Relation.ReflTransGen (Crossing.StepWhen hashPassword C) s s' := by
  induction es generalizing s with
  | nil =>
    cases h
    exact .refl
  | cons e es ih =>
    obtain ⟨s₁, hs₁, h⟩ := Option.bind_eq_some_iff.mp h
    exact .head ⟨e, hes e (List.mem_cons_self ..) s, hs₁⟩
      (ih (fun e' he' => hes e' (List.mem_cons_of_mem _ he')) h)

/-- A group that is created, and its files sent. -/
def groupSent : List Crossing.Event :=
  [.send 0, .send 0, .send 0, .deliver 2, .deliver 1, .deliver 0]

theorem no_record_lost_group : ∃ s : Crossing, s.Quiet ∧
    ((groupFile, "g u".toList) ∈ s.records) ∧
      (s.pair .first).disk.Agree (s.pair .second).disk ∧
      ∀ r ∈ s.records, cStr r.1 ≠ tempFile → ∀ i, r.2 ∈ (s.pair i).disk.lines r.1 := by
  let create : Crossing.Event := .command ⟨.first, .createGroup "g".toList "u".toList, []⟩
  have hcheck : ((Crossing.play (fun _ p => p) ⟨freshTrackers, [], [], []⟩
      (create :: groupSent)).any fun s => decide (s.toSend = [] ∧ s.inFlight = [] ∧
        (groupFile, "g u".toList) ∈ s.records)) = true := by
    decide +kernel
  obtain ⟨s, hs, hcheck⟩ := (Option.any_eq_true _ _).mp hcheck
  rw [decide_eq_true_eq] at hcheck
  obtain ⟨s₁, hs₁, hrest⟩ := Option.bind_eq_some_iff.mp hs
  have hfirst : Crossing.Undisturbed (fun _ p => p) ⟨freshTrackers, [], [], []⟩ create :=
    fun _ _ _ _ => ⟨by simp, by simp⟩
  have hes : ∀ e ∈ groupSent, ∀ s : Crossing, s.Undisturbed (fun _ p => p) e := by
    intro e he s
    simp only [groupSent, List.mem_cons, List.not_mem_nil, or_false] at he
    rcases he with rfl | rfl | rfl | rfl | rfl | rfl <;> trivial
  have hrun := Relation.ReflTransGen.head ⟨create, hfirst, hs₁⟩ (Crossing.play_run hes hrest)
  have hquiet : s.Quiet := ⟨hcheck.1, hcheck.2.1⟩
  exact ⟨s, hquiet, hcheck.2.2, no_record_lost (fun _ _ => rfl) hrun hquiet⟩

/-- Two groups created at the two trackers, whose records are sent before either arrives. -/
def crossingRun : List Crossing.Event :=
  [.command ⟨.first, .createGroup "g".toList "u".toList, []⟩,
   .command ⟨.second, .createGroup "h".toList "v".toList, []⟩,
   .send 0, .send 2, .deliver 0, .deliver 0,
   .send 0, .send 0, .send 0, .send 0, .deliver 0, .deliver 0, .deliver 0, .deliver 0]

/-- The two trackers exchange their files of groups: each loses its own group, and they stay
    apart. -/
theorem crossing_loses_record : ∃ s : Crossing,
    Relation.ReflTransGen (Crossing.StepWhen (fun _ p => p) fun _ _ => True)
      ⟨freshTrackers, [], [], []⟩ s ∧ s.Quiet ∧
      ¬ (s.pair .first).disk.Agree (s.pair .second).disk ∧
      (groupFile, "g u".toList) ∈ s.records ∧
      "g u".toList ∉ (s.pair .first).disk.lines groupFile := by
  have hcheck : ((Crossing.play (fun _ p => p) ⟨freshTrackers, [], [], []⟩ crossingRun).any
      fun s => decide (s.toSend = [] ∧ s.inFlight = [] ∧
        (s.pair .first).disk.text groupFile ≠ (s.pair .second).disk.text groupFile ∧
        (groupFile, "g u".toList) ∈ s.records ∧
        "g u".toList ∉ (s.pair .first).disk.lines groupFile)) = true := by
    decide +kernel
  obtain ⟨s, hs, hcheck⟩ := (Option.any_eq_true _ _).mp hcheck
  rw [decide_eq_true_eq] at hcheck
  obtain ⟨hsend, hflight, hne, hrecord, hlost⟩ := hcheck
  refine ⟨s, Crossing.play_run (fun _ _ _ => trivial) hs,
    ⟨hsend, hflight⟩, fun hagree => ?_, hrecord, hlost⟩
  exact hne (hagree groupFile (by decide))

end TorrentShare
