import TorrentShare.Tracker.Writes

/-!
# The groups and their owners

The last record of a group in `.group.txt` names its owner. A run of a command adds to the files
of groups only what the command may write, and the table of groups in memory stays part of what
the file says.
-/

namespace TorrentShare

open Program

/-! ### Owners -/

/-- The table of owners that the lines of `.group.txt` give. -/
def ownersOf (ls : List Str) : List (Str × Str) :=
  (ls.filterMap fun l => groupFields (split l ' ')).foldl (fun t e => tableSet e.1 e.2 t) []

/-- The owner of a group, if the group is there. -/
def Disk.owner (d : Disk) (group : Str) : Option Str :=
  (ownersOf (d.lines groupFile)).lookup group

lemma filterMap_of_mapM {α β : Type} {f : α → Option β} {l : List α} {bs : List β}
    (h : l.mapM f = some bs) : l.filterMap f = bs := by
  induction l generalizing bs with
  | nil =>
    cases h
    rfl
  | cons a l ih =>
    simp only [List.mapM_cons, Option.bind_eq_bind, Option.bind_eq_some_iff, Option.pure_def,
      Option.some.injEq] at h
    obtain ⟨b, hb, bs', hbs', rfl⟩ := h
    rw [List.filterMap_cons, hb, ih hbs']

lemma Memory.groups_addCredential (m : Memory) (e : Str × Str) :
    (m.addCredential e).groups = m.groups := rfl

lemma Memory.groups_addOnline (m : Memory) (e : Str × Str × Str) :
    (m.addOnline e).groups = m.groups := rfl

lemma Memory.groups_addPending (m : Memory) (e : Str × Str) :
    (m.addPending e).groups = m.groups := rfl

lemma foldl_addGroup (es : List (Str × Str)) (m : Memory) :
    (es.foldl Memory.addGroup m).groups = es.foldl (fun t e => tableSet e.1 e.2 t) m.groups := by
  induction es generalizing m with
  | nil => rfl
  | cons e es ih => exact ih (m.addGroup e)

/-- The table of groups after `FetchDetails` is the one the file gives. -/
lemma groups_reload {m m' : Memory} {d : Disk} (h : m.reload d = some m') :
    m'.groups = ownersOf (d.lines groupFile) := by
  simp only [Memory.reload, Memory.load, Option.bind_eq_some_iff, Option.map_eq_some_iff] at h
  obtain ⟨online, -, groups, hgroups, rfl⟩ := h
  rw [foldl_keep Memory.groups Memory.groups_addPending, foldl_addGroup,
    foldl_keep Memory.groups Memory.groups_addOnline,
    foldl_keep Memory.groups Memory.groups_addCredential, ownersOf, filterMap_of_mapM hgroups]
  rfl

/-- Records of one group with one owner, behind those of other groups. -/
lemma lookup_ownersOf_append {ls ls' : List Str} {g u : Str}
    (h : ∀ l ∈ ls', groupFields (split l ' ') = some (g, u)) (k : Str) :
    (ownersOf (ls ++ ls')).lookup k =
      if k = g ∧ ls' ≠ [] then some u else (ownersOf ls).lookup k := by
  have hrecords : ls'.filterMap (fun l => groupFields (split l ' ')) =
      List.replicate ls'.length (g, u) := by
    induction ls' with
    | nil => rfl
    | cons l ls' ih =>
      rw [List.filterMap_cons, h l (List.mem_cons_self ..),
        ih fun l' hl' => h l' (List.mem_cons_of_mem _ hl')]
      rfl
  have hfold : ∀ (n : ℕ) (t : List (Str × Str)),
      ((List.replicate n (g, u)).foldl (fun t e => tableSet e.1 e.2 t) t).lookup k =
        if k = g ∧ n ≠ 0 then some u else t.lookup k := by
    intro n
    induction n with
    | zero => simp
    | succ n ih =>
      intro t
      rw [List.replicate_succ, List.foldl_cons, ih, lookup_tableSet]
      by_cases hk : k = g <;> simp [hk]
  rw [ownersOf, List.filterMap_append, List.foldl_append, hrecords, hfold]
  simp [ownersOf, List.length_eq_zero_iff]

/-! ### What a command writes -/

/-- The line may be written in the file, whatever name the file has been given. -/
def mayAt (may : Path → Str → Prop) (p : Path) (l : Str) : Prop := ∃ q, cStr q = cStr p ∧ may q l

/-- What a run that may write the lines `may` has made of the files of groups of `d`. -/
structure Written (may : Path → Str → Prop) (d : Disk) (s : Session) : Prop where
  terminated : ∀ p, ofGroups p → Terminated (s.disk.text p)
  lines : ∀ p, ofGroups p → ∀ l ∈ s.disk.lines p, l ∈ d.lines p ∨ mayAt may p l
  records : ∃ ls, s.disk.lines groupFile = d.lines groupFile ++ ls ∧
    ∀ l ∈ ls, mayAt may groupFile l
  temp : s.disk.text tempFile = []
  cached : ∀ g o, s.memory.groups.lookup g = some o → s.disk.owner g = some o

/-- Further records leave the owners that there are. -/
def KeepsOwners (may : Path → Str → Prop) (d : Disk) : Prop :=
  ∀ ls ls', (∀ l ∈ ls ++ ls', mayAt may groupFile l) → ∀ g o,
    (ownersOf (d.lines groupFile ++ ls)).lookup g = some o →
      (ownersOf (d.lines groupFile ++ ls ++ ls')).lookup g = some o

section Written

variable {may : Path → Str → Prop} {d : Disk} {s : Session}

/-- A change of one file by whole lines. -/
lemma Written.setDisk {p : Path} {e : Disk} (hd : KeepsOwners may d) (h : Written may d s)
    (htemp : e.text tempFile = [])
    (hother : ∀ q, cStr q ≠ cStr p → cStr q ≠ tempFile → e.text q = s.disk.text q)
    (hterm : ∀ q, cStr q = cStr p → ofGroups p → Terminated (e.text q))
    (hlines : ∀ q, cStr q = cStr p → ofGroups p →
      ∀ l ∈ e.lines q, l ∈ s.disk.lines q ∨ mayAt may q l)
    (hrecords : cStr p = groupFile → ∃ ls, e.lines groupFile = s.disk.lines groupFile ++ ls ∧
      ∀ l ∈ ls, mayAt may groupFile l) : Written may d (s.setDisk e) := by
  have hgroup : ∀ {q : Path}, ofGroups q → cStr q ≠ tempFile := by
    intro q hq he
    rw [ofGroups, he] at hq
    exact absurd hq (by decide)
  have hsame : ∀ {q : Path}, cStr q = cStr p → ofGroups q → ofGroups p := by
    intro q hqp hq
    rwa [ofGroups, hqp] at hq
  have hnew : ∃ ls, e.lines groupFile = s.disk.lines groupFile ++ ls ∧
      ∀ l ∈ ls, mayAt may groupFile l := by
    by_cases hp : cStr p = groupFile
    · exact hrecords hp
    · refine ⟨[], ?_, by simp⟩
      rw [Disk.lines, hother groupFile (fun he => hp he.symm) (by decide), List.append_nil]
      rfl
  obtain ⟨old, hold, hmay⟩ := h.records
  obtain ⟨new, hnew, hmay'⟩ := hnew
  refine ⟨fun q hq => ?_, fun q hq l hl => ?_, ⟨old ++ new, ?_, ?_⟩, htemp, fun g o hg => ?_⟩
  · by_cases hqp : cStr q = cStr p
    · exact hterm q hqp (hsame hqp hq)
    · rw [Session.disk_setDisk, hother q hqp (hgroup hq)]
      exact h.terminated q hq
  · by_cases hqp : cStr q = cStr p
    · rcases hlines q hqp (hsame hqp hq) l hl with hl | hl
      · exact h.lines q hq l hl
      · exact Or.inr hl
    · rw [Session.disk_setDisk, Disk.lines, hother q hqp (hgroup hq)] at hl
      exact h.lines q hq l hl
  · rw [Session.disk_setDisk, hnew, hold, List.append_assoc]
  · intro l hl
    rcases List.mem_append.mp hl with hl | hl
    · exact hmay l hl
    · exact hmay' l hl
  · have howner := h.cached g o hg
    rw [Disk.owner, hold] at howner
    rw [Session.disk_setDisk, Disk.owner, hnew, hold]
    refine hd old new (fun l hl => ?_) g o howner
    rcases List.mem_append.mp hl with hl | hl
    · exact hmay l hl
    · exact hmay' l hl

lemma Written.setMemory {m : Memory} (h : Written may d s)
    (hm : ∀ g o, m.groups.lookup g = some o → s.disk.owner g = some o) :
    Written may d (s.setMemory m) :=
  ⟨h.terminated, h.lines, h.records, h.temp, hm⟩

/-- Appending a line to a file. -/
lemma Written.append {p : Path} {c : Str} (hd : KeepsOwners may d) (h : Written may d s)
    (hp : cStr p ≠ tempFile) (hc : ofGroups p → ∃ l, c = putline l ∧ '\n' ∉ l ∧ may p l) :
    Written may d (s.setDisk (s.disk.append p c)) := by
  have hlines : ∀ q, cStr q = cStr p → ofGroups p → ∃ ls,
      (s.disk.append p c).lines q = s.disk.lines q ++ ls ∧
        Terminated ((s.disk.append p c).text q) ∧ ∀ l ∈ ls, mayAt may q l := by
    intro q hq hgroup
    have hterm : Terminated (s.disk.text q) := by
      rw [Disk.text_congr _ hq]
      exact h.terminated p hgroup
    rw [Disk.lines, Disk.text_append]
    split_ifs
    · obtain ⟨l, rfl, hl, hmay⟩ := hc hgroup
      refine ⟨[l], ?_, hterm.append (terminated_putline hl), fun l' hl' => ?_⟩
      · rw [hterm.getlines_append, getlines_putline_self hl]
        rfl
      · obtain rfl := List.mem_singleton.mp hl'
        exact ⟨p, hq.symm, hmay⟩
    · exact ⟨[], (List.append_nil _).symm, hterm, by simp⟩
  refine h.setDisk hd ?_ (fun q hq _ => Disk.text_append_of_ne _ _ hq) ?_ ?_ ?_
  · rw [Disk.text_append_of_ne _ _ fun he => hp he.symm]
    exact h.temp
  · intro q hq hgroup
    obtain ⟨ls, -, hterm, -⟩ := hlines q hq hgroup
    exact hterm
  · intro q hq hgroup l hl
    obtain ⟨ls, hls, -, hmay⟩ := hlines q hq hgroup
    rw [hls] at hl
    rcases List.mem_append.mp hl with hl | hl
    · exact Or.inl hl
    · exact Or.inr (hmay l hl)
  · intro hgroup
    have hof : ofGroups p := by rw [ofGroups, hgroup]; exact ofGroups_groupFile
    obtain ⟨ls, hls, -, hmay⟩ := hlines groupFile hgroup.symm hof
    exact ⟨ls, hls, hmay⟩

/-- Creating a file, empty or with one line. -/
lemma Written.create {p : Path} {c : Str} (hd : KeepsOwners may d) (h : Written may d s)
    (hp : cStr p ≠ tempFile) (hc : ofGroups p →
      cStr p ≠ groupFile ∧ (c = [] ∨ ∃ l, c = putline l ∧ '\n' ∉ l ∧ may p l)) :
    Written may d (s.setDisk (s.disk.create p c)) := by
  have hnew : ∀ q, cStr q = cStr p → ofGroups p →
      Terminated c ∧ ∀ l ∈ getlines c, mayAt may q l := by
    intro q hq hgroup
    rcases (hc hgroup).2 with rfl | ⟨l, rfl, hl, hmay⟩
    · exact ⟨terminated_nil, by simp [getlines]⟩
    · refine ⟨terminated_putline hl, fun l' hl' => ?_⟩
      rw [getlines_putline_self hl, List.mem_singleton] at hl'
      exact ⟨p, hq.symm, hl' ▸ hmay⟩
  refine h.setDisk hd ?_ (fun q hq _ => Disk.text_create_of_ne _ _ hq) ?_ ?_ ?_
  · rw [Disk.text_create_of_ne _ _ fun he => hp he.symm]
    exact h.temp
  · intro q hq hgroup
    rw [Disk.text_create]
    split_ifs
    · exact (hnew q hq hgroup).1
    · rw [Disk.text_congr _ hq]
      exact h.terminated p hgroup
  · intro q hq hgroup l hl
    rw [Disk.lines, Disk.text_create] at hl
    split_ifs at hl
    · exact Or.inr ((hnew q hq hgroup).2 l hl)
    · exact Or.inl hl
  · intro hgroup
    have hof : ofGroups p := by rw [ofGroups, hgroup]; exact ofGroups_groupFile
    exact absurd hgroup (hc hof).1

/-- Dropping lines of a file. -/
lemma Written.rewritten {mode : OpenMode} {p : Path} {drop : Str → Option Bool} {kept : List Str}
    (hd : KeepsOwners may d) (h : Written may d s) (hp : cStr p ≠ tempFile)
    (hgroup : cStr p ≠ groupFile) (hkept : keptLines drop (s.disk.lines p) = some kept) :
    Written may d (s.setDisk (s.disk.rewritten mode p kept)) := by
  have hold : ∀ l ∈ kept, l ∈ s.disk.lines p := keptLines_subset hkept
  have hnl : ∀ l ∈ kept, '\n' ∉ l := fun l hl => not_mem_of_mem_getlines (hold l hl)
  refine h.setDisk hd (Disk.text_rewritten_temp _ _ hp hkept h.temp)
    (fun q hq ht => Disk.text_rewritten_of_ne _ _ _ hq ht) ?_ ?_ fun he => absurd he hgroup
  · intro q hq _
    rw [Disk.text_rewritten_self _ _ hq hp h.temp]
    split_ifs
    · exact terminated_putlines hnl
    · exact terminated_nil
  · intro q hq _ l hl
    rw [Disk.lines, Disk.text_rewritten_self _ _ hq hp h.temp] at hl
    split_ifs at hl
    · have hlines := getlines_putlines hnl []
      rw [List.append_nil] at hlines
      rw [hlines] at hl
      rw [Disk.lines, Disk.text_congr _ hq]
      exact Or.inl (hold l (by simpa [getlines] using hl))
    · cases hl

/-- The step lemma. -/
lemma Written.step (hd : KeepsOwners may d) (o : Call) {a : callAns o} {s' : Session}
    (ho : o.regular may) (h : Written may d s) (hs : callInterp o s = some (a, s')) :
    Written may d s' := by
  cases o with
  | prim o =>
    rw [callInterp_prim] at hs
    cases o with
    | sync p =>
      obtain ⟨sent, rfl⟩ := primInterp_sync hs
      exact ⟨h.terminated, h.lines, h.records, h.temp, h.cached⟩
    | append p c =>
      cases hs
      exact h.append hd ho.1 ho.2
    | create p c =>
      cases hs
      exact h.create hd ho.1 ho.2
    | modify f =>
      cases hs
      refine h.setMemory fun g o hg => h.cached g o ?_
      rwa [ho] at hg
    | remove p => exact ho.elim
    | rename p q => exact ho.elim
    | fault => cases hs
    | _ => cases hs; exact h
  | fetchDetails =>
    simp only [callInterp_fetchDetails, Option.map_eq_some_iff, Prod.mk.injEq] at hs
    obtain ⟨m, hm, -, rfl⟩ := hs
    refine ⟨fun p hp => ?_, fun p hp => ?_, ?_, ?_, fun g o hg => ?_⟩
    all_goals simp only [Session.disk_setMemory, Session.disk_setDisk, Disk.lines, Disk.owner,
      Disk.text_reloaded]
    · exact h.terminated p hp
    · exact h.lines p hp
    · exact h.records
    · exact h.temp
    · rw [Session.memory_setMemory, groups_reload hm] at hg
      exact hg
  | fetchGroupMembers g =>
    rw [callInterp_fetchGroupMembers] at hs
    cases hs
    exact h.setMemory h.cached
  | rewrite mode p drop =>
    simp only [callInterp_rewrite, Option.map_eq_some_iff, Prod.mk.injEq] at hs
    obtain ⟨ks, hks, -, rfl⟩ := hs
    exact h.rewritten hd ho.1 ho.2 hks

/-- The run lemma. -/
lemma Written.run {α : Type} {p : Prog callSig α} {a : α} {s' : Session}
    (hd : KeepsOwners may d) (hp : p.Only (Call.regular may)) (h : Written may d s)
    (hrun : p.run callInterp s = some (a, s')) : Written may d s' := by
  obtain ⟨-, -, h'⟩ := Prog.Follows.run (R := fun (_ : Unit) s => Written may d s)
    (fun o _ s a s' ho hs hstep => ⟨trivial, hs.step hd o ho hstep⟩) hp h hrun
  exact h'

end Written

end TorrentShare
