import TorrentShare.Tracker.RewriteThreads

/-!
# Appends beside rewrites

`UpdateDownload` and `CompleteDownload` append to files without `file_lock`, while other handlers
rewrite files under it. An append that falls between the read of a file and its replacement is lost.
-/

namespace TorrentShare

open Program

variable {ι : Type}

/-! ### A record -/

/-- The record is in the file; but if a thread has removed the file to replace it, it is in the
    copy, and a thread that has read the file has read the record. -/
structure Kept (q : Path) (r : Str) (g : ι → Position) (s : ScanHost ι) : Prop where
  copying : ∀ i c, g i = .copying c → cStr c.path = cStr q → r ∈ c.lines ∧ c.drop r ≠ some true
  removed : ∀ i c, g i = .removed c → cStr c.path = cStr q → r ∈ c.written
  present : (∀ i c, g i = .removed c → cStr c.path ≠ cStr q) → r ∈ s.host.disk.lines q

section Records

variable {g : ι → Position} {s s' : ScanHost ι} {salt : ι → Str} {i : ι} {p q : Path} {r t : Str}

lemma Kept.mem_lines (h : Kept q r g s) (hg : ∀ j c, g j ≠ .removed c) :
    r ∈ s.host.disk.lines q :=
  h.present fun j c hj => absurd hj (hg j c)

/-- No position changes. -/
lemma Kept.of_lines (h : Kept q r g s)
    (hr : r ∈ s.host.disk.lines q → r ∈ s'.host.disk.lines q) : Kept q r g s' :=
  ⟨h.copying, h.removed, fun hg => hr (h.present hg)⟩

lemma AtPositions.not_removed (h : AtPositions g s) (hi : g i ≠ .idle) (hi' : ∀ c, g i ≠ .removed c)
    (j : ι) (c : Copy) : g j ≠ .removed c := by
  intro hj
  by_cases hji : j = i
  · subst hji
    exact hi' c hj
  · rw [h.idle_of_ne hi hji] at hj
    cases hj

lemma Disk.mem_lines_of_text {d d' : Disk} (h : d'.text q = d.text q) (hr : r ∈ d.lines q) :
    r ∈ d'.lines q := by
  rw [Disk.lines, h]
  exact hr

lemma Kept.append (h : Kept q r g s) (hwhole : Terminated (s.host.disk.text q))
    (sc : ι → Option Path) : Kept q r g ⟨s.host.setDisk (s.host.disk.append p t), sc⟩ := by
  apply h.of_lines
  intro hr
  show r ∈ getlines ((s.host.disk.append p t).text q)
  rw [Disk.text_append]
  split_ifs
  · rw [hwhole.getlines_append]
    exact List.mem_append_left _ hr
  · exact hr

lemma Kept.create (h : Kept q r g s) (hne : cStr p ≠ cStr q) (sc : ι → Option Path) :
    Kept q r g ⟨s.host.setDisk (s.host.disk.create p t), sc⟩ := by
  apply h.of_lines
  exact Disk.mem_lines_of_text (Disk.text_create_of_ne _ _ (Ne.symm hne))

variable [DecidableEq ι]

/-- Nobody is in a rewrite, before and after. -/
lemma Kept.switch (h : Kept q r g s) (hcopy : ∀ j, (g j).copy = none) {x : Position}
    (hx : x.copy = none) (hdisk : s'.host.disk = s.host.disk) :
    Kept q r (Function.update g i x) s' := by
  have hcopy' := copy_update (fun j (_ : j ≠ i) => hcopy j) hx
  refine ⟨fun j c hj => ?_, fun j c hj => ?_, fun _ => ?_⟩
  · have hnone := hcopy' j
    rw [hj] at hnone
    cases hnone
  · have hnone := hcopy' j
    rw [hj] at hnone
    cases hnone
  · rw [hdisk]
    apply h.mem_lines
    intro j c hj
    have hnone := hcopy j
    rw [hj] at hnone
    cases hnone

/-- Thread `i`, which holds `file_lock`, moves on. -/
lemma AtPositions.kept_move (h : AtPositions g s) (hi : g i ≠ .idle) {x : Position}
    (hcopying : ∀ c, x = .copying c → cStr c.path = cStr q → r ∈ c.lines ∧ c.drop r ≠ some true)
    (hremoved : ∀ c, x = .removed c → cStr c.path = cStr q → r ∈ c.written)
    (hpresent : (∀ c, x = .removed c → cStr c.path ≠ cStr q) → r ∈ s'.host.disk.lines q) :
    Kept q r (Function.update g i x) s' := by
  have hother : ∀ j, j ≠ i → Function.update g i x j = .idle := by
    intro j hj
    rw [Function.update_of_ne hj]
    exact h.idle_of_ne hi hj
  constructor
  · intro j c hj
    by_cases hji : j = i
    · subst hji
      rw [Function.update_self] at hj
      exact hcopying c hj
    · rw [hother j hji] at hj
      cases hj
  · intro j c hj
    by_cases hji : j = i
    · subst hji
      rw [Function.update_self] at hj
      exact hremoved c hj
    · rw [hother j hji] at hj
      cases hj
  · intro hg
    apply hpresent
    intro c hc
    apply hg i c
    rw [Function.update_self]
    exact hc

/-- Thread `i` goes on with a copy. -/
lemma Kept.copy {c c' : Copy} (h : Kept q r g s) (hg : AtPositions g s) (hi : g i = .copying c)
    (hpath : c'.path = c.path) (hdrop : c'.drop = c.drop) (hlines : c'.lines = c.lines)
    (htext : s'.host.disk.text q = s.host.disk.text q) :
    Kept q r (Function.update g i (.copying c')) s' := by
  have hbusy : g i ≠ .idle := by simp [hi]
  apply hg.kept_move hbusy
  · rintro _ ⟨⟩ hq
    rw [hdrop, hlines]
    exact h.copying i c hi (hpath ▸ hq)
  · exact fun _ hx => nomatch hx
  · intro _
    refine Disk.mem_lines_of_text htext (h.mem_lines ?_)
    exact hg.not_removed hbusy (by simp [hi])

/-- What a thread that removes the file has copied includes the record. -/
lemma Kept.remove {c : Copy} (h : Kept q r g s) (hg : AtPositions g s) (hi : g i = .copying c)
    (hwritten : ∀ l ∈ c.lines, c.drop l ≠ some true → l ∈ c.written) :
    Kept q r (Function.update g i (.removed c))
      ⟨s.host.setDisk (s.host.disk.remove c.path), s.scanning⟩ := by
  have hbusy : g i ≠ .idle := by simp [hi]
  apply hg.kept_move hbusy
  · exact fun _ hx => nomatch hx
  · rintro _ ⟨⟩ hq
    obtain ⟨hr, hdrop⟩ := h.copying i c hi hq
    exact hwritten r hr hdrop
  · intro hother
    have hne : cStr q ≠ cStr c.path := Ne.symm (hother c rfl)
    refine Disk.mem_lines_of_text (Disk.text_remove_of_ne _ hne) (h.mem_lines ?_)
    exact hg.not_removed hbusy (by simp [hi])

/-- The copy gets the name of the file. -/
lemma Kept.rename {c : Copy} (h : Kept q r g s) (hg : AtPositions g s) (hi : g i = .removed c)
    (hq : cStr q ≠ tempFile) (hopen : openable (cStr q) = true) (sc : ι → Option Path) :
    Kept q r (Function.update g i .locked)
      ⟨s.host.setDisk (s.host.disk.rename tempFile c.path), sc⟩ := by
  have hbusy : g i ≠ .idle := by simp [hi]
  apply hg.kept_move hbusy
  · exact fun _ hx => nomatch hx
  · exact fun _ hx => nomatch hx
  · intro _
    by_cases hpath : cStr c.path = cStr q
    · have hcopy : (g i).copy = some c := by rw [hi]; rfl
      have hr := hg.written i c hcopy r (h.removed i c hi hpath)
      obtain ⟨t, ht⟩ : ∃ t, s.host.disk.read tempFile = some t := by
        cases hread : s.host.disk.read tempFile with
        | some t => exact ⟨t, rfl⟩
        | none =>
          rw [Disk.lines, Disk.text, hread] at hr
          cases hr
      rw [Disk.lines, Disk.text, ht] at hr
      show r ∈ getlines ((s.host.disk.rename tempFile c.path).text q)
      rw [Disk.text_rename_self _ ht hpath.symm (hpath ▸ hopen)]
      exact hr
    · have htext : (s.host.disk.rename tempFile c.path).text q = s.host.disk.text q :=
        Disk.text_rename_of_ne _ hq (Ne.symm hpath)
      refine Disk.mem_lines_of_text htext (h.present fun j c' hj => ?_)
      by_cases hji : j = i
      · subst hji
        obtain rfl : c = c' := by simpa [hi] using hj
        exact hpath
      · rw [hg.idle_of_ne hbusy hji] at hj
        cases hj

/-- Who reads the file reads the record. -/
lemma Kept.scan {drop : Str → Option Bool} (h : Kept q r g s) (hg : AtPositions g s)
    (hi : g i = .locked) (hdrop : cStr p = cStr q → drop r ≠ some true) (sc : ι → Option Path) :
    Kept q r
      (Function.update g i (.copying ⟨p, drop, getlines ((s.host.disk.read p).getD []), []⟩))
      ⟨s.host, sc⟩ := by
  have hbusy : g i ≠ .idle := by simp [hi]
  have hr : r ∈ s.host.disk.lines q := h.mem_lines (hg.not_removed hbusy (by simp [hi]))
  apply hg.kept_move hbusy
  · rintro _ ⟨⟩ hpq
    refine ⟨?_, hdrop hpq⟩
    show r ∈ s.host.disk.lines p
    rwa [Disk.lines_congr _ hpq]
  · exact fun _ hx => nomatch hx
  · exact fun _ => hr

/-- The step lemma: the record is dropped by no other operation than a rewrite that drops it, or a
    file that is created anew. -/
lemma Kept.step {o : FileOp} {a : fileAns o} (h : Kept q r g s) (hg : AtPositions g s)
    (hq : cStr q ≠ tempFile) (hq' : cStr q ≠ credentialFile) (hopen : openable (cStr q) = true)
    (ho : (g i).allows o)
    (hunlock : o = .prim .unlock → s.host.holder = none ∨ s.host.holder = some i)
    (hcreate : ∀ p t, o = .prim (.create p t) → cStr p ≠ cStr q)
    (hscan : ∀ p drop, o = .scan p drop → cStr p = cStr q → drop r ≠ some true)
    (hs : scanInterp salt i o s = some (a, s')) :
    Kept q r (Function.update g i ((g i).next o a)) s' := by
  have hsame : Function.update g i (g i) = g := Function.update_eq_self i g
  cases o with
  | scan p drop =>
    cases hs
    exact h.scan hg ho.1 (hscan p drop rfl) _
  | prim o =>
    obtain ⟨⟨b, u⟩, hu, heq⟩ := Option.map_eq_some_iff.mp hs
    cases heq
    cases o with
    | lock =>
      obtain ⟨hfree, rfl⟩ := hostInterp_lock hu
      have hi : (g i).copy = none := by rw [show g i = .idle from ho]; rfl
      exact h.switch (hg.copy_eq_none (Or.inl hfree) hi) rfl rfl
    | unlock =>
      cases hu
      have hi : (g i).copy = none := by rcases ho with hi | hi <;> rw [hi] <;> rfl
      exact h.switch (hg.copy_eq_none (hunlock rfl) hi) rfl rfl
    | append p t =>
      cases hu
      cases hi : g i with
      | idle | locked =>
        rw [hi] at hsame
        exact (congrArg (Kept q r · _) hsame).mpr (h.append (hg.whole q hq') _)
      | copying c =>
        rw [hi] at ho
        obtain ⟨rfl, -⟩ := ho
        exact h.copy hg hi rfl rfl rfl (Disk.text_append_of_ne _ _ hq)
      | removed c =>
        rw [hi] at ho
        exact ho.elim
    | create p t =>
      cases hu
      cases hi : g i with
      | idle | locked =>
        rw [hi] at hsame
        exact (congrArg (Kept q r · _) hsame).mpr (h.create (hcreate p t rfl) _)
      | copying c =>
        rw [hi] at ho
        obtain ⟨rfl, -⟩ := ho
        exact h.copy hg hi rfl rfl rfl (Disk.text_create_of_ne _ _ hq)
      | removed c =>
        rw [hi] at ho
        exact ho.elim
    | remove p =>
      cases hu
      obtain ⟨c, hi, rfl, hwritten⟩ := ho
      rw [hi]
      exact h.remove hg hi hwritten
    | rename p q =>
      cases hu
      obtain ⟨c, hi, rfl, rfl⟩ := ho
      exact h.rename hg hi hq hopen _
    | sync p =>
      obtain rfl := hostInterp_sync hu
      exact (congrArg (Kept q r · _) hsame).mpr (h.of_lines fun hr => hr)
    | fault => cases hu
    | _ =>
      cases hu
      exact (congrArg (Kept q r · _) hsame).mpr (h.of_lines fun hr => hr)

end Records

/-! ### All interleavings -/

/-- The step begins no rewrite of the file that drops the record, and does not create the file
    anew. -/
structure Spared (q : Path) (r : Str) (e : Event fileSig ι Unit) : Prop where
  rewrites : ∀ i p drop a, e = .call i (.scan p drop) a → cStr p = cStr q → drop r ≠ some true
  creates : ∀ i p s a, e = .call i (.prim (.create p s)) a → cStr p ≠ cStr q

section Runs

variable {hashPassword : Str → Str → Str} {salt : ι → Str} {command : ι → Command}
  {c c' c'' : Config fileSig (ScanHost ι) ι Reply} {e : Event fileSig ι Unit} {q : Path} {r t : Str}

/-- Threads that keep the discipline of rewrites, each from its own position. -/
abbrev InPosition : Config fileSig (ScanHost ι) ι Reply → Prop :=
  Config.Disciplined (fun _ => positions) (fun _ g => g = .idle) AtPositions

/-- The same, with the record kept. -/
abbrev Keeping (q : Path) (r : Str) : Config fileSig (ScanHost ι) ι Reply → Prop :=
  Config.Disciplined (fun _ => positions) (fun _ g => g = .idle)
    fun g s => AtPositions g s ∧ Kept q r g s

lemma inPosition_start {s : Host ι} (hfree : s.holder = none)
    (hwhole : ∀ p, Terminated (s.disk.text p))
    (hreceived : ∀ i, ∃ message, Request.parse message = .client (command i)) :
    InPosition (ScanHost.start hashPassword s command) := by
  refine ⟨fun _ => .idle, fun i => ?_, ?_⟩
  · obtain ⟨message, hmessage⟩ := hreceived i
    have hkernel := trackerKernel_positioned hashPassword (Request.isWord_args hmessage)
    exact hkernel.inline fun o g ho => fileBody_positions o ho
  · refine ⟨fun i => ?_, fun _ => rfl, (fun _ _ hnone => nomatch hnone),
      (fun _ _ hnone => nomatch hnone), fun p _ => hwhole p⟩
    simp [ScanHost.start, hfree]

lemma AtPositions.env {g : ι → Position} {m : Unit} {s s' : ScanHost ι} (h : AtPositions g s)
    (hs : KeepsFiles m s s') : AtPositions g s' := by
  obtain ⟨htracker, hholder, hscanning⟩ := hs
  have hdisk : s'.host.disk = s.host.disk := congrArg Tracker.disk htracker
  refine ⟨fun i => ?_, fun i => ?_, h.regular, ?_, ?_⟩
  · rw [hholder]
    exact h.holder i
  · rw [hscanning]
    exact h.scanning i
  · rw [hdisk]
    exact h.written
  · rw [hdisk]
    exact h.whole

/-- Nobody rewrites the file, and a record is put in. -/
lemma AtPositions.kept {g : ι → Position} {s : ScanHost ι} (h : AtPositions g s)
    (hcalm : ∀ j p, s.scanning j = some p → cStr p ≠ cStr q) (hr : r ∈ s.host.disk.lines q) :
    Kept q r g s := by
  have hcopy : ∀ j c, (g j).copy = some c → cStr c.path ≠ cStr q := by
    intro j c hc
    apply hcalm j
    rw [h.scanning j, hc, Option.map_some]
  refine ⟨fun j c hj hpath => ?_, fun j c hj hpath => ?_, fun _ => hr⟩
  · exact absurd hpath (hcopy j c (by rw [hj]; rfl))
  · exact absurd hpath (hcopy j c (by rw [hj]; rfl))

variable [DecidableEq ι]

lemma InPosition.step (h : InPosition c) (hlawful : Lawful c e c')
    (hs : Config.Step (scanInterp salt) KeepsFiles c e c') : InPosition c' := by
  refine Config.Disciplined.step (fun i o a g s' he ho hI hrun => ⟨trivial, ?_⟩) ?_ h hs
  · apply hI.step ho _ hrun
    rintro rfl
    exact hlawful i a he
  · exact fun _ _ _ hI henv => hI.env henv

lemma Keeping.step (h : Keeping q r c) (hq : cStr q ≠ tempFile) (hq' : cStr q ≠ credentialFile)
    (hopen : openable (cStr q) = true) (hlawful : Lawful c e c') (hspared : Spared q r e)
    (hs : Config.Step (scanInterp salt) KeepsFiles c e c') : Keeping q r c' := by
  refine Config.Disciplined.step (fun i o a g s' he ho hI hrun => ⟨trivial, ?_⟩) ?_ h hs
  · have hunlock : o = .prim .unlock →
        c.shared.host.holder = none ∨ c.shared.host.holder = some i := by
      rintro rfl
      exact hlawful i a he
    refine ⟨hI.1.step ho hunlock hrun, hI.2.step hI.1 hq hq' hopen ho hunlock ?_ ?_ hrun⟩
    · rintro p t rfl
      exact hspared.creates i p t a he
    · rintro p drop rfl
      exact hspared.rewrites i p drop a he
  · intro _ g _ hI henv
    have hdisk : c'.shared.host.disk = c.shared.host.disk := congrArg Tracker.disk henv.1
    refine ⟨hI.1.env henv, hI.2.of_lines fun hr => ?_⟩
    rw [hdisk]
    exact hr

/-- A record is appended while nobody rewrites the file. -/
lemma InPosition.append {i : ι} {a : Unit} (h : InPosition c) (hq' : cStr q ≠ credentialFile)
    (hopen : openable (cStr q) = true) (hr : r ∈ getlines t)
    (hcalm : ∀ j p, c.shared.scanning j = some p → cStr p ≠ cStr q)
    (hs : Config.Step (scanInterp salt) KeepsFiles c (.call i (.prim (.append q t)) a) c') :
    Keeping q r c' := by
  refine Config.Disciplined.step (fun j o b g s' he ho hI hrun => ⟨trivial, ?_⟩) ?_ h hs
  · cases he
    have hI' := hI.step ho (fun hunlock => nomatch hunlock) hrun
    cases hrun
    refine ⟨hI', hI'.kept hcalm ?_⟩
    show r ∈ getlines ((c.shared.host.disk.append q t).text q)
    rw [Disk.text_append, if_pos ⟨rfl, hopen⟩, (hI.whole q hq').getlines_append]
    exact List.mem_append_right _ hr
  · exact fun _ _ he => nomatch he

/-- A record that is appended while nobody rewrites the file is there when all threads have
    returned, if no rewrite that begins later drops it. -/
theorem appended_record_stays {s : Host ι} (hfree : s.holder = none)
    (hwhole : ∀ p, Terminated (s.disk.text p))
    (hreceived : ∀ i, ∃ message, Request.parse message = .client (command i))
    (hbefore : Config.RunsWhen (scanInterp salt) KeepsFiles Lawful
      (ScanHost.start hashPassword s command) c) {i : ι} {a : Unit}
    (hs : Config.Step (scanInterp salt) KeepsFiles c (.call i (.prim (.append q t)) a) c')
    (hq : kindOf (cStr q) = .ofGroup ∨ kindOf (cStr q) = .ofUser)
    (hopen : openable (cStr q) = true) (hr : r ∈ getlines t)
    (hcalm : ∀ j p, c.shared.scanning j = some p → cStr p ≠ cStr q)
    (hafter : Config.RunsWhen (scanInterp salt) KeepsFiles
      (fun c e c' => Lawful c e c' ∧ Spared q r e) c' c'')
    (hdone : ∀ j, (c''.thread j).isRet = true) : r ∈ c''.shared.host.disk.lines q := by
  have hq₁ : cStr q ≠ tempFile := by
    intro heq
    have hkind : kindOf tempFile = .other := rfl
    rw [heq, hkind] at hq
    rcases hq with hq | hq <;> cases hq
  have hq₂ : cStr q ≠ credentialFile := by
    intro heq
    have hkind : kindOf credentialFile = .credential := rfl
    rw [heq, hkind] at hq
    rcases hq with hq | hq <;> cases hq
  have hposition : InPosition c :=
    hbefore.invariant (fun _ _ _ h hok hstep => h.step hok hstep)
      (inPosition_start hfree hwhole hreceived)
  have hkeeping : Keeping q r c'' :=
    hafter.invariant (fun _ _ _ h hok hstep => h.step hq₁ hq₂ hopen hok.1 hok.2 hstep)
      (hposition.append hq₂ hopen hr hcalm hs)
  obtain ⟨g, hfollows, -, hkept⟩ := hkeeping
  apply hkept.mem_lines
  intro j c hj
  obtain ⟨reply, hreply⟩ := (Prog.isRet_iff _).mp (hdone j)
  have hidle := hfollows j
  rw [hreply, Prog.follows_ret, hj] at hidle
  cases hidle

end Runs

/-! ### Two threads -/

section Schedules

variable (salt : ι → Str) (q : Path) (r : Str)

/-- The next operation appends the record. -/
def appendsNext {α : Type} : Prog fileSig α → Bool
  | .call (.prim (.append p s)) _ => p = q && s = putline r
  | _                             => false

lemma appendsNext_iff {α : Type} {p : Prog fileSig α} (h : appendsNext q r p = true) :
    ∃ k, p = .call (.prim (.append q (putline r))) k := by
  unfold appendsNext at h
  split at h
  · rename_i p s k
    rw [Bool.and_eq_true, decide_eq_true_eq, decide_eq_true_eq] at h
    obtain ⟨rfl, rfl⟩ := h
    exact ⟨k, rfl⟩
  · cases h

/-- `Spared` as a test of the state before the step. -/
def testSpared (c : Config fileSig (ScanHost ι) ι Reply) : Move ι Unit → Bool
  | .call i =>
    match c.thread i with
    | .call (.scan p drop) _         => decide (cStr p = cStr q → drop r ≠ some true)
    | .call (.prim (.create p _)) _  => decide (cStr p ≠ cStr q)
    | _ => true
  | .env _ => false

variable [DecidableEq ι]

/-- `Lawful` as a test of the state before the step. -/
def testLawful (c : Config fileSig (ScanHost ι) ι Reply) : Move ι Unit → Bool
  | .call i =>
    match c.thread i with
    | .call (.prim .unlock) _ =>
      decide (c.shared.host.holder = none ∨ c.shared.host.holder = some i)
    | _ => true
  | .env _ => false

variable {salt q r} {c c' : Config fileSig (ScanHost ι) ι Reply} {i : ι} {o : FileOp}
  {a : fileAns o}

lemma lawful_of_test (htest : testLawful c (.call i) = true)
    (hs : Config.Step (scanInterp salt) KeepsFiles c (.call i o a) c') :
    Lawful c (.call i o a) c' := by
  obtain ⟨k, hnext, -⟩ := hs.next_op
  rw [testLawful, hnext] at htest
  intro j b he
  cases he
  exact of_decide_eq_true htest

lemma spared_of_test (htest : testSpared q r c (.call i) = true)
    (hs : Config.Step (scanInterp salt) KeepsFiles c (.call i o a) c') :
    Spared q r (.call i o a) := by
  obtain ⟨k, hnext, -⟩ := hs.next_op
  rw [testSpared, hnext] at htest
  constructor
  · intro j p drop b he
    cases he
    exact of_decide_eq_true htest
  · intro j p s b he
    cases he
    exact of_decide_eq_true htest

/-- Follow a schedule. -/
def playScans (salt : ι → Str) (test : Config fileSig (ScanHost ι) ι Reply → Move ι Unit → Bool)
    (c : Config fileSig (ScanHost ι) ι Reply) (schedule : List ι) :
    Option (Config fileSig (ScanHost ι) ι Reply) :=
  c.play (scanInterp salt) (fun _ _ => none) test (schedule.map .call)

lemma spared_of_play {schedule : List ι}
    (h : playScans salt (fun c m => testLawful c m && testSpared q r c m) c schedule = some c') :
    Config.RunsWhen (scanInterp salt) KeepsFiles
      (fun c e c' => Lawful c e c' ∧ Spared q r e) c c' := by
  refine Config.play_runsWhen (P := fun _ => True) (fun _ _ _ h => by cases h)
    (fun _ _ _ _ _ _ => trivial) (fun _ _ _ _ _ ht _ hs => ?_) (fun _ _ _ ht _ => by cases ht) h
    trivial
  rw [Bool.and_eq_true] at ht
  exact ⟨lawful_of_test ht.1 hs, spared_of_test ht.2 hs⟩

end Schedules

/-- A tracker with a group of two members, one of whom shares a file. -/
def twoMembers : Host (Fin 2) where
  tracker := ⟨((Disk.empty.create groupFile "g o\n".toList).create (membersFile "g".toList)
    "o\nv\n".toList).create (groupFilesFile "g".toList) "h 1 o f\n".toList, {}⟩
  siblingOnline := false

/-- The new user `u` has got the file, and `v` leaves the group. -/
def addAndLeave (i : Fin 2) : Command :=
  match i with
  | 0 => .addFile "g".toList "f".toList "p".toList "u".toList
  | 1 => .leaveGroup "g".toList "v".toList

def newSeeder : Str := "h 1 u f".toList

section TwoThreads

/-- States of the two threads. -/
abbrev TwoThreads := Config fileSig (ScanHost (Fin 2)) (Fin 2) Reply

variable {c c' c'' : TwoThreads}

def twoThreads : TwoThreads := ScanHost.start (fun _ p => p) twoMembers addAndLeave

/-- Thread 0 appends the record between two schedules. -/
def playAppend (before after : List (Fin 2)) : Option (TwoThreads × TwoThreads × TwoThreads) :=
  let test (c : TwoThreads) (m : Move (Fin 2) Unit) :=
    testLawful c m && testSpared (groupFilesFile "g".toList) newSeeder c m
  (playScans (fun _ => []) test twoThreads before).bind fun c =>
    (c.move (scanInterp fun _ => []) (fun (_ : Unit) _ => none) (.call 0)).bind fun c' =>
      (playScans (fun _ => []) test c' after).map fun c'' => (c, c', c'')

/-- The append is one of the new seeder, and both threads return. -/
def appendsAndReturns (r : TwoThreads × TwoThreads × TwoThreads) : Bool :=
  appendsNext (groupFilesFile "g".toList) newSeeder (r.1.thread 0) &&
    (r.2.2.thread 0).isRet && (r.2.2.thread 1).isRet

lemma runs_of_playAppend {before after : List (Fin 2)}
    (h : playAppend before after = some (c, c', c''))
    (happends : appendsAndReturns (c, c', c'') = true) :
    Config.RunsWhen (scanInterp fun _ => []) KeepsFiles (fun c e c' => Lawful c e c' ∧
        Spared (groupFilesFile "g".toList) newSeeder e) twoThreads c ∧
      (∃ a, Config.Step (scanInterp fun _ => []) KeepsFiles c (.call 0
        (.prim (.append (groupFilesFile "g".toList) (putline newSeeder))) a) c') ∧
      Config.RunsWhen (scanInterp fun _ => []) KeepsFiles (fun c e c' => Lawful c e c' ∧
        Spared (groupFilesFile "g".toList) newSeeder e) c' c'' ∧
      ∀ j, (c''.thread j).isRet = true := by
  obtain ⟨c₀, hbefore, h⟩ := Option.bind_eq_some_iff.mp h
  obtain ⟨c₁, hmove, h⟩ := Option.bind_eq_some_iff.mp h
  obtain ⟨c₂, hafter, heq⟩ := Option.map_eq_some_iff.mp h
  cases heq
  rw [appendsAndReturns, Bool.and_eq_true, Bool.and_eq_true] at happends
  obtain ⟨⟨hnext, hfirst⟩, hsecond⟩ := happends
  obtain ⟨k, hk⟩ := appendsNext_iff _ _ hnext
  refine ⟨spared_of_play hbefore, Config.call_step_of hk hmove, spared_of_play hafter, fun j => ?_⟩
  match j with
  | 0 => exact hfirst
  | 1 => exact hsecond

lemma terminated_twoMembers (p : Path) : Terminated (twoMembers.disk.text p) := by
  show Terminated (Disk.text (((Disk.empty.create groupFile _).create _ _).create _ _) p)
  rw [Disk.text_create, Disk.text_create, Disk.text_create]
  split_ifs <;> rfl

lemma addAndLeave_received (i : Fin 2) :
    ∃ message, Request.parse message = .client (addAndLeave i) := by
  match i with
  | 0 => exact ⟨"add_file g f p u".toList, rfl⟩
  | 1 => exact ⟨"leave_group g v".toList, rfl⟩

/-- The member leaves after the append. -/
theorem appended_record_stays_leave : ∃ c'' : TwoThreads,
    (∀ j, (c''.thread j).isRet = true) ∧
      newSeeder ∈ c''.shared.host.disk.lines (groupFilesFile "g".toList) := by
  have hplayed : ((playAppend (List.replicate 14 0) ([0, 0] ++ List.replicate 42 1)).any fun r =>
      appendsAndReturns r && decide (∀ j, r.1.shared.scanning j = none)) = true := by
    decide +kernel
  obtain ⟨⟨c, c', c''⟩, hrun, hend⟩ := (Option.any_eq_true _ _).mp hplayed
  rw [Bool.and_eq_true] at hend
  obtain ⟨hbefore, ⟨a, hs⟩, hafter, hdone⟩ := runs_of_playAppend hrun hend.1
  have hscanning : ∀ j, c.shared.scanning j = none := of_decide_eq_true hend.2
  have hlawful : Config.RunsWhen (scanInterp fun _ => []) KeepsFiles Lawful twoThreads c :=
    hbefore.mono fun _ _ _ hok => hok.1
  refine ⟨c'', hdone, appended_record_stays rfl terminated_twoMembers addAndLeave_received
    hlawful hs (Or.inl (kindOf_groupFilesFile _)) rfl ?_ (fun j p hj => ?_) hafter hdone⟩
  · decide
  · rw [hscanning j] at hj
    cases hj

/-- `leave_group`, which drops no record of `u`, has read the file of the group when `add_file`
    appends, and replaces it without the record. -/
theorem append_lost : ∃ (c c' c'' : TwoThreads) (a : Unit),
    Config.RunsWhen (scanInterp fun _ => []) KeepsFiles (fun c e c' => Lawful c e c' ∧
        Spared (groupFilesFile "g".toList) newSeeder e) twoThreads c ∧
      Config.Step (scanInterp fun _ => []) KeepsFiles c (.call 0
        (.prim (.append (groupFilesFile "g".toList) (putline newSeeder))) a) c' ∧
      Config.RunsWhen (scanInterp fun _ => []) KeepsFiles (fun c e c' => Lawful c e c' ∧
        Spared (groupFilesFile "g".toList) newSeeder e) c' c'' ∧
      (∀ j, (c''.thread j).isRet = true) ∧
      newSeeder ∉ c''.shared.host.disk.lines (groupFilesFile "g".toList) := by
  have hplayed : ((playAppend (List.replicate 14 0 ++ List.replicate 16 1)
      (List.replicate 25 1 ++ [0, 0])).any fun r => appendsAndReturns r &&
        decide (newSeeder ∉ r.2.2.shared.host.disk.lines (groupFilesFile "g".toList))) = true := by
    decide +kernel
  obtain ⟨⟨c, c', c''⟩, hrun, hend⟩ := (Option.any_eq_true _ _).mp hplayed
  rw [Bool.and_eq_true] at hend
  obtain ⟨hbefore, ⟨a, hs⟩, hafter, hdone⟩ := runs_of_playAppend hrun hend.1
  exact ⟨c, c', c'', a, hbefore, hs, hafter, hdone, of_decide_eq_true hend.2⟩

end TwoThreads

end TorrentShare
