import TorrentShare.Tracker.Rewriting

/-!
# Rewrites in threads

The handlers of one tracker run as threads, one operation at a time. As long as nobody unlocks
`file_lock` while another thread holds it, one thread at most is in a rewrite, and what it has
copied stands in the temporary file.
-/

namespace TorrentShare

open Program

variable {ι : Type}

/-! ### Threads -/

/-- A tracker process. `scanning` is a history variable: the file that a thread has read to rewrite
    it and not yet replaced. -/
structure ScanHost (ι : Type) where
  host : Host ι
  scanning : ι → Option Path := fun _ => none

/-- Whether the sibling accepts connections may change at any time. -/
def KeepsFiles (_ : Unit) (s s' : ScanHost ι) : Prop :=
  s'.host.tracker = s.host.tracker ∧ s'.host.holder = s.host.holder ∧ s'.scanning = s.scanning

/-- A rewrite ends when the temporary file is renamed. -/
def ScanHost.afterPrim [DecidableEq ι] (s : ScanHost ι) (i : ι) : Prim → ι → Option Path
  | .rename _ _ => Function.update s.scanning i none
  | _           => s.scanning

/-- The meaning of an operation of thread `i`. -/
def scanInterp [DecidableEq ι] (salt : ι → Str) (i : ι) : Interp fileSig (ScanHost ι)
  | .prim o, s   => (hostInterp salt i o s.host).map fun r => (r.1, ⟨r.2, s.afterPrim i o⟩)
  | .scan p _, s => some (s.host.disk.read p, ⟨s.host, Function.update s.scanning i (some p)⟩)

/-- The threads of a tracker process about to start with their commands. -/
def ScanHost.start (hashPassword : Str → Str → Str) (s : Host ι) (command : ι → Command) :
    Config fileSig (ScanHost ι) ι Reply :=
  ⟨⟨s, fun _ => none⟩, fun i => (trackerKernel hashPassword (command i)).inline fileBody⟩

/-- With the scans forgotten, a thread is the handler of its command. -/
lemma start_unscan (hashPassword : Str → Str → Str) (s : Host ι) (command : ι → Command) (i : ι) :
    ((ScanHost.start hashPassword s command).thread i).inline unscan =
      handler hashPassword (command i) := by
  have hbody : (fun o => (fileBody o).inline unscan) = callBody := funext fileBody_unscan
  rw [ScanHost.start, Prog.inline_inline, hbody, handler]

/-- Nobody unlocks while another thread holds `file_lock`. -/
def Lawful (c : Config fileSig (ScanHost ι) ι Reply) (e : Event fileSig ι Unit)
    (_ : Config fileSig (ScanHost ι) ι Reply) : Prop :=
  ∀ i a, e = .call i (.prim .unlock) a →
    c.shared.host.holder = none ∨ c.shared.host.holder = some i

/-! ### Positions and files -/

/-- The positions of the threads, and the state they are in. -/
structure AtPositions (g : ι → Position) (s : ScanHost ι) : Prop where
  holder : ∀ i, s.host.holder = some i ↔ g i ≠ .idle
  scanning : ∀ i, s.scanning i = (g i).copy.map Copy.path
  regular : ∀ i c, (g i).copy = some c → cStr c.path ≠ tempFile
  written : ∀ i c, (g i).copy = some c → ∀ l ∈ c.written, l ∈ s.host.disk.lines tempFile
  whole : ∀ p, cStr p ≠ credentialFile → Terminated (s.host.disk.text p)

section Steps

variable {g : ι → Position} {s s' : ScanHost ι} {salt : ι → Str} {i j : ι} {p q : Path} {t : Str}

/-- Only who holds `file_lock` is not idle. -/
lemma AtPositions.idle_of_ne (h : AtPositions g s) (hi : g i ≠ .idle) (hj : j ≠ i) :
    g j = .idle := by
  by_contra hidle
  have hholder := ((h.holder j).mpr hidle).symm.trans ((h.holder i).mpr hi)
  exact hj (Option.some.inj hholder)

lemma AtPositions.idle_others (h : AtPositions g s)
    (hheld : s.host.holder = none ∨ s.host.holder = some i) (j : ι) (hj : j ≠ i) :
    g j = .idle := by
  by_contra hne
  have hholder := (h.holder j).mpr hne
  rcases hheld with hnone | hsome
  · rw [hnone] at hholder
    cases hholder
  · exact hj (Option.some.inj (hholder.symm.trans hsome))

lemma AtPositions.copy_of_ne (h : AtPositions g s) (hi : g i ≠ .idle) (hj : j ≠ i) :
    (g j).copy = none := by
  rw [h.idle_of_ne hi hj]
  rfl

/-- A file other than the temporary one is written. -/
lemma AtPositions.setDisk (h : AtPositions g s) {d : Disk} (hp : cStr p ≠ tempFile)
    (hother : ∀ q, cStr q ≠ cStr p → d.text q = s.host.disk.text q)
    (hself : ∀ q, cStr q = cStr p → cStr q ≠ credentialFile → Terminated (d.text q)) :
    AtPositions g ⟨s.host.setDisk d, s.scanning⟩ := by
  refine ⟨h.holder, h.scanning, h.regular, fun j c hc l hl => ?_, fun q hq => ?_⟩
  · have htemp : d.text tempFile = s.host.disk.text tempFile := hother tempFile (Ne.symm hp)
    show l ∈ getlines (d.text tempFile)
    rw [htemp]
    exact h.written j c hc l hl
  · by_cases hqp : cStr q = cStr p
    · exact hself q hqp hq
    · show Terminated (d.text q)
      rw [hother q hqp]
      exact h.whole q hq

lemma AtPositions.append (h : AtPositions g s) (ht : WholeLines p t) :
    AtPositions g ⟨s.host.setDisk (s.host.disk.append p t), s.scanning⟩ := by
  apply h.setDisk ht.1
  · exact fun q hq => Disk.text_append_of_ne _ _ hq
  · intro q hq hcredential
    have hwhole := ht.2.resolve_left fun hp => hcredential (hq.trans hp)
    rw [Disk.text_append]
    split_ifs
    · exact (h.whole q hcredential).append hwhole
    · exact h.whole q hcredential

lemma AtPositions.create (h : AtPositions g s) (ht : WholeLines p t) :
    AtPositions g ⟨s.host.setDisk (s.host.disk.create p t), s.scanning⟩ := by
  apply h.setDisk ht.1
  · exact fun q hq => Disk.text_create_of_ne _ _ hq
  · intro q hq hcredential
    have hwhole := ht.2.resolve_left fun hp => hcredential (hq.trans hp)
    rw [Disk.text_create]
    split_ifs
    · exact hwhole
    · exact h.whole q hcredential

/-- Nobody is in a rewrite. -/
lemma AtPositions.copy_eq_none (h : AtPositions g s)
    (hheld : s.host.holder = none ∨ s.host.holder = some i) (hi : (g i).copy = none) (j : ι) :
    (g j).copy = none := by
  by_cases hj : j = i
  · subst hj
    exact hi
  · rw [h.idle_others hheld j hj]
    rfl

variable [DecidableEq ι]

/-- A step in a rewrite of thread `i`, which holds `file_lock`. -/
lemma AtPositions.move (h : AtPositions g s) (hi : g i ≠ .idle) {x : Position} (hx : x ≠ .idle)
    (d : Disk) (hregular : ∀ c, x.copy = some c → cStr c.path ≠ tempFile)
    (hwritten : ∀ c, x.copy = some c → ∀ l ∈ c.written, l ∈ d.lines tempFile)
    (hwhole : ∀ p, cStr p ≠ credentialFile → Terminated (d.text p)) :
    AtPositions (Function.update g i x)
      ⟨s.host.setDisk d, Function.update s.scanning i (x.copy.map Copy.path)⟩ := by
  constructor
  · intro j
    show s.host.holder = some j ↔ _
    by_cases hj : j = i
    · subst hj
      simp [(h.holder j).mpr hi, hx]
    · rw [Function.update_of_ne hj]
      exact h.holder j
  · intro j
    dsimp only
    by_cases hj : j = i
    · subst hj
      simp
    · rw [Function.update_of_ne hj, Function.update_of_ne hj]
      exact h.scanning j
  · intro j c hc
    by_cases hj : j = i
    · subst hj
      rw [Function.update_self] at hc
      exact hregular c hc
    · rw [Function.update_of_ne hj, h.copy_of_ne hi hj] at hc
      cases hc
  · intro j c hc
    by_cases hj : j = i
    · subst hj
      rw [Function.update_self] at hc
      exact hwritten c hc
    · rw [Function.update_of_ne hj, h.copy_of_ne hi hj] at hc
      cases hc
  · exact hwhole

lemma AtPositions.scanning_self {c : Copy} (h : AtPositions g s) (hi : (g i).copy = some c) :
    Function.update s.scanning i (some c.path) = s.scanning := by
  apply Function.update_eq_self_iff.mpr
  rw [h.scanning i, hi, Option.map_some]

/-- Thread `i` copies whole lines to the temporary file. -/
lemma AtPositions.copy_append {c : Copy} (h : AtPositions g s) (hi : g i = .copying c)
    (ht : Terminated t) :
    AtPositions (Function.update g i (.copying { c with written := c.written ++ getlines t }))
      ⟨s.host.setDisk (s.host.disk.append tempFile t), s.scanning⟩ := by
  have hcopy : (g i).copy = some c := by rw [hi]; rfl
  have htemp : Terminated (s.host.disk.text tempFile) := h.whole tempFile (by decide)
  have htext : (s.host.disk.append tempFile t).text tempFile = s.host.disk.text tempFile ++ t := by
    rw [Disk.text_append, if_pos ⟨rfl, rfl⟩]
  rw [← h.scanning_self hcopy]
  apply h.move (by simp [hi]) (by simp)
  · rintro _ ⟨⟩
    exact h.regular i c hcopy
  · rintro _ ⟨⟩ l hl
    show l ∈ getlines ((s.host.disk.append tempFile t).text tempFile)
    rw [htext, htemp.getlines_append]
    rcases List.mem_append.mp hl with hl | hl
    · exact List.mem_append_left _ (h.written i c hcopy l hl)
    · exact List.mem_append_right _ hl
  · intro p hp
    show Terminated ((s.host.disk.append tempFile t).text p)
    rw [Disk.text_append]
    split_ifs
    · exact (h.whole p hp).append ht
    · exact h.whole p hp

/-- Thread `i` empties the temporary file. -/
lemma AtPositions.copy_create {c : Copy} (h : AtPositions g s) (hi : g i = .copying c)
    (hc : c.written = []) : AtPositions (Function.update g i (.copying c))
      ⟨s.host.setDisk (s.host.disk.create tempFile []), s.scanning⟩ := by
  have hcopy : (g i).copy = some c := by rw [hi]; rfl
  rw [← h.scanning_self hcopy]
  apply h.move (by simp [hi]) (by simp)
  · rintro _ ⟨⟩
    exact h.regular i c hcopy
  · rintro _ ⟨⟩ l hl
    rw [hc] at hl
    cases hl
  · intro p hp
    show Terminated ((s.host.disk.create tempFile []).text p)
    rw [Disk.text_create]
    split_ifs
    · exact terminated_nil
    · exact h.whole p hp

/-- Thread `i` removes the file that it rewrites. -/
lemma AtPositions.remove {c : Copy} (h : AtPositions g s) (hi : g i = .copying c) :
    AtPositions (Function.update g i (.removed c))
      ⟨s.host.setDisk (s.host.disk.remove c.path), s.scanning⟩ := by
  have hcopy : (g i).copy = some c := by rw [hi]; rfl
  have hpath := h.regular i c hcopy
  rw [← h.scanning_self hcopy]
  apply h.move (by simp [hi]) (by simp)
  · rintro _ ⟨⟩
    exact hpath
  · rintro _ ⟨⟩ l hl
    have htemp : (s.host.disk.remove c.path).text tempFile = s.host.disk.text tempFile :=
      Disk.text_remove_of_ne _ (Ne.symm hpath)
    show l ∈ getlines ((s.host.disk.remove c.path).text tempFile)
    rw [htemp]
    exact h.written i c hcopy l hl
  · intro p hp
    show Terminated ((s.host.disk.remove c.path).text p)
    by_cases hq : cStr p = cStr c.path
    · rw [Disk.text_remove_self _ hq]
      exact terminated_nil
    · rw [Disk.text_remove_of_ne _ hq]
      exact h.whole p hp

/-- Thread `i` renames the temporary file. -/
lemma AtPositions.rename {c : Copy} (h : AtPositions g s) (hi : g i = .removed c) :
    AtPositions (Function.update g i .locked)
      ⟨s.host.setDisk (s.host.disk.rename tempFile c.path), Function.update s.scanning i none⟩ := by
  apply h.move (by simp [hi]) (by simp)
  · exact fun _ hnone => nomatch hnone
  · exact fun _ hnone => nomatch hnone
  · intro p hp
    show Terminated ((s.host.disk.rename tempFile c.path).text p)
    rcases Disk.text_rename_cases s.host.disk tempFile c.path p with htext | htext | htext
    · rw [htext]
      exact h.whole p hp
    · rw [htext]
      exact h.whole tempFile (by decide)
    · rw [htext]
      exact terminated_nil

/-- Thread `i` reads a file to rewrite it. -/
lemma AtPositions.scan (h : AtPositions g s) (hi : g i = .locked) (hp : cStr p ≠ tempFile)
    (drop : Str → Option Bool) (ls : List Str) :
    AtPositions (Function.update g i (.copying ⟨p, drop, ls, []⟩))
      ⟨s.host, Function.update s.scanning i (some p)⟩ := by
  apply h.move (by simp [hi]) (by simp) s.host.disk
  · rintro _ ⟨⟩
    exact hp
  · rintro _ ⟨⟩ l hl
    cases hl
  · exact h.whole

/-- Nobody is in a rewrite when the others are not and thread `i` moves to a position outside. -/
lemma copy_update (hother : ∀ j, j ≠ i → (g j).copy = none) {x : Position} (hx : x.copy = none)
    (j : ι) : (Function.update g i x j).copy = none := by
  by_cases hj : j = i
  · subst hj
    rw [Function.update_self]
    exact hx
  · rw [Function.update_of_ne hj]
    exact hother j hj

/-- Thread `i` takes or gives back `file_lock`, while all others are idle. -/
lemma AtPositions.switch (h : AtPositions g s) (hidle : ∀ j, j ≠ i → g j = .idle)
    (hi : (g i).copy = none) {x : Position} (hx : x.copy = none) {u : Host ι}
    (hdisk : u.disk = s.host.disk) (hholder : ∀ j, u.holder = some j ↔ j = i ∧ x ≠ .idle) :
    AtPositions (Function.update g i x) ⟨u, s.scanning⟩ := by
  have hother : ∀ j, j ≠ i → (g j).copy = none := by
    intro j hj
    rw [hidle j hj]
    rfl
  have hcopy : ∀ j, (g j).copy = none := by
    intro j
    by_cases hj : j = i
    · subst hj
      exact hi
    · exact hother j hj
  have hcopy' := copy_update hother hx
  refine ⟨fun j => ?_, fun j => ?_, fun j c hc => ?_, fun j c hc => ?_, fun p hp => ?_⟩
  · rw [hholder j]
    by_cases hj : j = i
    · subst hj
      simp
    · rw [Function.update_of_ne hj, hidle j hj]
      simp [hj]
  · rw [hcopy' j]
    show s.scanning j = none
    rw [h.scanning j, hcopy j]
    rfl
  · rw [hcopy' j] at hc
    cases hc
  · rw [hcopy' j] at hc
    cases hc
  · show Terminated (u.disk.text p)
    rw [hdisk]
    exact h.whole p hp

lemma AtPositions.lock (h : AtPositions g s) (hfree : s.host.holder = none) (hi : g i = .idle) :
    AtPositions (Function.update g i .locked)
      ⟨{ s.host with
          holder := some i, between := Function.update s.host.between i true }, s.scanning⟩ := by
  refine h.switch (h.idle_others (Or.inl hfree)) (by simp [hi, Position.copy]) rfl ?_ fun j => ?_
  · rfl
  · simp [eq_comm]

/-- Nobody else holds `file_lock`. -/
lemma AtPositions.unlock (h : AtPositions g s)
    (hheld : s.host.holder = none ∨ s.host.holder = some i) (hi : (g i).copy = none) :
    AtPositions (Function.update g i .idle)
      ⟨{ s.host with
          holder := none, between := Function.update s.host.between i false }, s.scanning⟩ := by
  refine h.switch (h.idle_others hheld) hi rfl ?_ fun j => ?_
  · rfl
  · simp

/-- The step lemma: operations that the discipline allows keep the positions and the files. -/
lemma AtPositions.step {o : FileOp} {a : fileAns o} (h : AtPositions g s) (ho : (g i).allows o)
    (hunlock : o = .prim .unlock → s.host.holder = none ∨ s.host.holder = some i)
    (hs : scanInterp salt i o s = some (a, s')) :
    AtPositions (Function.update g i ((g i).next o a)) s' := by
  have hsame : Function.update g i (g i) = g := Function.update_eq_self i g
  cases o with
  | scan p drop =>
    cases hs
    exact h.scan ho.1 ho.2 drop _
  | prim o =>
    obtain ⟨⟨b, u⟩, hu, heq⟩ := Option.map_eq_some_iff.mp hs
    cases heq
    cases o with
    | lock =>
      obtain ⟨hfree, rfl⟩ := hostInterp_lock hu
      exact h.lock hfree ho
    | unlock =>
      cases hu
      refine h.unlock (hunlock rfl) ?_
      rcases ho with hi | hi <;> rw [hi] <;> rfl
    | append p t =>
      cases hu
      cases hi : g i with
      | idle | locked =>
        rw [hi] at ho
        rw [hi] at hsame
        exact (congrArg (AtPositions · _) hsame).mpr (h.append ho)
      | copying c =>
        rw [hi] at ho
        obtain ⟨rfl, ht⟩ := ho
        exact h.copy_append hi ht
      | removed c =>
        rw [hi] at ho
        exact ho.elim
    | create p t =>
      cases hu
      cases hi : g i with
      | idle | locked =>
        rw [hi] at ho
        rw [hi] at hsame
        exact (congrArg (AtPositions · _) hsame).mpr (h.create ho)
      | copying c =>
        rw [hi] at ho
        obtain ⟨rfl, rfl, hc⟩ := ho
        exact h.copy_create hi hc
      | removed c =>
        rw [hi] at ho
        exact ho.elim
    | remove p =>
      cases hu
      obtain ⟨c, hi, rfl, -⟩ := ho
      rw [hi]
      exact h.remove hi
    | rename p q =>
      cases hu
      obtain ⟨c, hi, rfl, rfl⟩ := ho
      exact h.rename hi
    | sync p =>
      obtain rfl := hostInterp_sync hu
      show AtPositions (Function.update g i (g i)) s
      rwa [hsame]
    | fault => cases hu
    | _ =>
      cases hu
      show AtPositions (Function.update g i (g i)) _
      rw [hsame]
      exact ⟨h.holder, h.scanning, h.regular, h.written, h.whole⟩

end Steps

end TorrentShare
