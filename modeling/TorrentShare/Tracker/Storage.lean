import TorrentShare.Program.Faults
import TorrentShare.Replication.Pushes
import TorrentShare.Tracker.Runs

/-!
# Names that cannot be stored

The name of a file is made from the name of a group or of a user. It cannot be opened if it has a
slash, since `.all_files` has no subdirectories, or if it is longer than the file system allows.
The handlers write on and send the file as if it were there.
-/

namespace TorrentShare

open Program

/-! ### Long names -/

/-- `NAME_MAX`, the length of the longest name in a directory. `openable` does not look at it. -/
def nameMax : ℕ := 255

/-- A file can be created under the name. -/
def storable (p : Path) : Bool :=
  openable (cStr p) && (cStr p).length ≤ allFiles.length + nameMax

/-- The name as the file system sees it: one that it does not take is as good as the empty one. -/
def clip (p : Path) : Path := if storable p then p else []

/-- The meaning of the primitive operations where names can be too long. -/
def limitedPrim : Interp primSig Session
  | .read p,     s => primInterp (.read (clip p)) s
  | .append p t, s => primInterp (.append (clip p) t) s
  | .create p t, s => primInterp (.create (clip p) t) s
  | .remove p,   s => primInterp (.remove (clip p)) s
  | .rename p q, s => primInterp (.rename (clip p) (clip q)) s
  | .sync p,     s => primInterp (.sync (clip p)) s
  | o,           s => primInterp o s

/-- The meaning of the calls of a handler where names can be too long. -/
def limitedInterp : Interp callSig Session := fun o => (callBody o).run limitedPrim

/-- The call opens a file that is not there. -/
def Call.opensNothing : Call → Session → Bool
  | .prim (.sync p), s => (s.disk.read (clip p)).isNone
  | _,               _ => false

/-- `Sync` has no file to read from. -/
def nullHandle (o : Call) (s : Session) : Prop := o.opensNothing s = true

instance (o : Call) (s : Session) : Decidable (nullHandle o s) :=
  inferInstanceAs (Decidable (o.opensNothing s = true))

lemma nullHandle_iff (o : Call) (s : Session) :
    nullHandle o s ↔ ∃ p, o = .prim (.sync p) ∧ s.disk.read (clip p) = none := by
  unfold nullHandle Call.opensNothing
  split
  · simp
  · rename_i hne
    simp only [Bool.false_eq_true, false_iff]
    rintro ⟨p, rfl, -⟩
    exact hne p rfl

lemma openable_clip (p : Path) : openable (cStr (clip p)) = storable p := by
  unfold clip
  split_ifs with h
  · rw [h]
    exact (Bool.and_eq_true_iff.mp h).1
  · rw [Bool.not_eq_true] at h
    rw [h]
    rfl

@[simp] lemma clip_of_storable {p : Path} (h : storable p = true) : clip p = p := if_pos h

/-- What can be read is stored. -/
lemma storable_of_read {d : Disk} {p : Path} (h : d.read (clip p) ≠ none) : storable p = true := by
  by_contra hne
  rw [Bool.not_eq_true, ← openable_clip] at hne
  exact h (d.read_of_not_openable hne)

lemma clip_ne_temp {p : Path} (hp : cStr p ≠ tempFile) : cStr (clip p) ≠ tempFile := by
  unfold clip
  split_ifs
  · exact hp
  · decide

@[simp] lemma storable_credentialFile : storable credentialFile = true := by decide
@[simp] lemma storable_onlineFile : storable onlineFile = true := by decide
@[simp] lemma storable_groupFile : storable groupFile = true := by decide
@[simp] lemma storable_pendingFile : storable pendingFile = true := by decide
@[simp] lemma storable_tempFile : storable tempFile = true := by decide

/-! ### Names of groups and users -/

/-- A name glued between fixed parts can be stored if it has no slash and is not too long. -/
lemma storable_glued {c : Char} {pre post name : Str} (hc : c ≠ '.')
    (hpre : '/' ∉ c :: pre ∧ '\x00' ∉ c :: pre) (hpost : '/' ∉ post ∧ '\x00' ∉ post)
    (hnul : '\x00' ∉ name) :
    storable (allFiles ++ '.' :: c :: pre ++ name ++ post) = true ↔
      '/' ∉ name ∧ name.length + (pre.length + post.length + 2) ≤ nameMax := by
  have hpath : allFiles ++ '.' :: c :: pre ++ name ++ post =
      allFiles ++ '.' :: c :: (pre ++ name ++ post) := by
    simp
  have hwhole : cStr (allFiles ++ '.' :: c :: (pre ++ name ++ post)) =
      allFiles ++ '.' :: c :: (pre ++ name ++ post) := by
    apply cStr_eq_self
    have hstart : '\x00' ∉ allFiles ++ ['.'] := by decide
    simp only [List.mem_append, List.mem_cons, List.not_mem_nil, or_false, not_or] at hstart hpre ⊢
    exact ⟨hstart.1, hstart.2, hpre.2.1, ⟨hpre.2.2, hnul⟩, hpost.2⟩
  have hslash : '/' ∉ c :: (pre ++ name ++ post) ↔ '/' ∉ name := by
    simp only [List.mem_append, List.mem_cons, not_or] at hpre ⊢
    tauto
  have hlength : (allFiles ++ '.' :: c :: (pre ++ name ++ post)).length =
      allFiles.length + (name.length + (pre.length + post.length + 2)) := by
    simp only [List.length_append, List.length_cons]
    omega
  rw [hpath, storable, hwhole, Bool.and_eq_true, openable_cons_cons hc, hslash, hlength,
    decide_eq_true_eq, Nat.add_le_add_iff_left]

/-- The files of a group can be stored if its name has no slash and is not too long. -/
lemma storable_groupPaths {g : Str} (hnul : '\x00' ∉ g) :
    (∀ p ∈ groupPaths g, storable p = true) ↔ '/' ∉ g ∧ g.length + 17 ≤ nameMax := by
  have hmembers : storable (membersFile g) = true ↔ '/' ∉ g ∧ g.length + 11 ≤ nameMax :=
    storable_glued (by decide) (by decide) (by decide) hnul
  have hfiles : storable (groupFilesFile g) = true ↔ '/' ∉ g ∧ g.length + 17 ≤ nameMax :=
    storable_glued (by decide) (by decide) (by decide) hnul
  simp only [groupPaths, List.forall_mem_cons, List.not_mem_nil, false_implies, implies_true,
    and_true, hmembers, hfiles]
  constructor
  · exact And.right
  · rintro ⟨hslash, hlength⟩
    exact ⟨⟨hslash, by omega⟩, hslash, hlength⟩

/-- The files of a user can be stored if the name has no slash and is not too long. -/
lemma storable_userPaths {u : Str} (hnul : '\x00' ∉ u) :
    (∀ p ∈ userPaths u, storable p = true) ↔ '/' ∉ u ∧ u.length + 23 ≤ nameMax := by
  have hfiles : storable (userFilesFile u) = true ↔ '/' ∉ u ∧ u.length + 11 ≤ nameMax :=
    storable_glued (by decide) (by decide) (by decide) hnul
  have hdownloading : storable (downloadingFile u) = true ↔ '/' ∉ u ∧ u.length + 23 ≤ nameMax :=
    storable_glued (by decide) (by decide) (by decide) hnul
  have hdownloaded : storable (downloadedFile u) = true ↔ '/' ∉ u ∧ u.length + 22 ≤ nameMax :=
    storable_glued (by decide) (by decide) (by decide) hnul
  simp only [userPaths, List.forall_mem_cons, List.not_mem_nil, false_implies, implies_true,
    and_true, hfiles, hdownloading, hdownloaded]
  constructor
  · exact fun h => h.2.1
  · rintro ⟨hslash, hlength⟩
    exact ⟨⟨hslash, by omega⟩, ⟨hslash, hlength⟩, hslash, by omega⟩

/-! ### What the calls do -/

section Calls

@[simp] lemma limitedInterp_prim (o : Prim) : limitedInterp (.prim o) = limitedPrim o := by
  funext s
  cases h : limitedPrim o s <;> simp [limitedInterp, callBody, TorrentShare.prim, h]

lemma limitedPrim_read {p : Path} (hp : storable p = true) :
    limitedPrim (.read p) = primInterp (.read p) := by
  funext s
  rw [limitedPrim, clip_of_storable hp]

lemma limitedPrim_create {p : Path} (hp : storable p = true) (t : Str) :
    limitedPrim (.create p t) = primInterp (.create p t) := by
  funext s
  rw [limitedPrim, clip_of_storable hp]

lemma limitedPrim_append {p : Path} (hp : storable p = true) (t : Str) :
    limitedPrim (.append p t) = primInterp (.append p t) := by
  funext s
  rw [limitedPrim, clip_of_storable hp]

/-- The operations for which the length of names makes no difference. -/
def Prim.short (o : Prim) : Prop := limitedPrim o = primInterp o

lemma short_fault : Prim.short .fault := rfl

lemma loadPairs_short {p : Path} (hp : storable p = true) (target : Str × Str)
    (add : Memory → Str × Str → Memory) : (loadPairs p target add).Only Prim.short := by
  refine Prog.only_call (limitedPrim_read hp) fun s => ?_
  cases s with
  | some s => exact Prog.only_call rfl fun _ => trivial
  | none => exact Prog.only_call (limitedPrim_create hp []) fun _ => trivial

lemma loadRecords_short {β : Type} {p : Path} (hp : storable p = true)
    (fs : List Str → Option β) (add : Memory → β → Memory) :
    (loadRecords p fs add).Only Prim.short := by
  refine Prog.only_call (limitedPrim_read hp) fun s => ?_
  cases s with
  | some s =>
    refine (orFault_only short_fault _).bind fun es => ?_
    exact Prog.only_call rfl fun _ => trivial
  | none => exact Prog.only_call (limitedPrim_create hp []) fun _ => trivial

/-- `FetchDetails` reads files with short names. -/
lemma limitedInterp_fetchDetails : limitedInterp .fetchDetails = callInterp .fetchDetails := by
  funext s
  have hload : loadDetails.Only Prim.short := by
    unfold loadDetails
    refine (loadPairs_short storable_credentialFile _ _).bind fun target => ?_
    refine (loadRecords_short storable_onlineFile _ _).bind fun _ => ?_
    refine (loadRecords_short storable_groupFile _ _).bind fun _ => ?_
    exact (loadPairs_short storable_pendingFile _ _).bind fun _ => trivial
  have hbody : fetchDetailsBody.Only Prim.short :=
    Prog.only_call rfl fun _ => Prog.only_call rfl fun _ =>
      hload.bind fun _ => Prog.only_call rfl fun _ => trivial
  exact hbody.run_congr s

/-- The members of a group as its file lists them, if there can be such a file. -/
def Disk.limitedMembers (d : Disk) (group : Str) : List Str :=
  (d.lines (clip (membersFile group))).foldl (fun t l => setInsert strLt l t) []

lemma Disk.lines_reloaded (d : Disk) (p : Path) : d.reloaded.lines p = d.lines p := by
  rw [Disk.lines, Disk.text_reloaded, Disk.lines]

lemma Disk.limitedMembers_reloaded (d : Disk) (group : Str) :
    d.reloaded.limitedMembers group = d.limitedMembers group := by
  rw [Disk.limitedMembers, Disk.lines_reloaded, Disk.limitedMembers]

lemma limitedInterp_fetchGroupMembers (group : Str) (s : Session) :
    limitedInterp (.fetchGroupMembers group) s =
      some ((), s.setMemory { s.memory with groupMembers := s.disk.limitedMembers group }) := by
  simp [limitedInterp, callBody, fetchGroupMembersBody, prim, limitedPrim, primInterp, Disk.lines,
    Disk.text, Disk.limitedMembers]

lemma copyLines_short (drop : Str → Option Bool) (ls : List Str) :
    (copyLines drop ls).Only Prim.short := by
  induction ls with
  | nil => exact trivial
  | cons l ls ih =>
    refine (orFault_only short_fault _).bind fun b => ?_
    cases b with
    | true => exact ih
    | false => exact Prog.only_call (limitedPrim_append storable_tempFile _) fun _ => ih

/-- A rewrite of a file whose name is too long reads no lines, and leaves the temporary file. -/
lemma limitedInterp_rewrite (mode : OpenMode) (p : Path) (drop : Str → Option Bool) :
    limitedInterp (.rewrite mode p drop) = callInterp (.rewrite mode (clip p) drop) := by
  funext s
  have hrest : ∀ ls (s : Session), (copyLines drop ls >>= fun _ =>
      prim (.remove p) >>= fun _ => prim (.rename tempFile p)).run limitedPrim s =
        (copyLines drop ls >>= fun _ =>
          prim (.remove (clip p)) >>= fun _ => prim (.rename tempFile (clip p))).run
            primInterp s := by
    intro ls s
    rw [Prog.run_bind, Prog.run_bind, (copyLines_short drop ls).run_congr]
    rfl
  cases mode with
  | out => exact hrest _ _
  | app => exact hrest _ _

end Calls

/-! ### Files that stay -/

namespace Disk

lemma read_touch_ne_none {d : Disk} {p q : Path} (h : d.read q ≠ none) :
    (d.touch p).read q ≠ none := by
  unfold touch
  split
  · exact h
  · rw [read_create]
    split_ifs
    · exact Option.some_ne_none _
    · exact h

/-- A file that is touched is there. -/
lemma read_touch_self {d : Disk} {p : Path} (h : openable (cStr p) = true) :
    (d.touch p).read p ≠ none := by
  unfold touch
  split
  · rename_i hread
    rw [hread]
    exact Option.some_ne_none _
  · rw [read_create, if_pos ⟨rfl, h⟩]
    exact Option.some_ne_none _

lemma read_reloaded_ne_none {d : Disk} {q : Path} (h : d.read q ≠ none) :
    d.reloaded.read q ≠ none :=
  read_touch_ne_none (read_touch_ne_none (read_touch_ne_none (read_touch_ne_none h)))

/-- The renamed file takes the place of the one that is removed. -/
lemma read_rewritten_ne_none {d : Disk} {p q : Path} (mode : OpenMode) (ks : List Str)
    (hp : cStr p ≠ tempFile) (hq : cStr q ≠ tempFile)
    (h : d.read q ≠ none ∨ cStr q = cStr p ∧ openable (cStr q) = true) :
    (d.rewritten mode p ks).read q ≠ none := by
  have hopen : cStr q = cStr p → openable (cStr p) = true := by
    intro he
    by_contra hne
    rcases h with h | h
    · exact h (d.read_of_not_openable (by simpa [he] using hne))
    · exact hne (he ▸ h.2)
  have hq' : cStr q ≠ cStr tempFile := hq
  rw [rewritten, rename, d.read_copied mode ks hp]
  dsimp only
  by_cases he : cStr q = cStr p
  · rw [if_pos (hopen he)]
    exact read_create_ne_none _ (Or.inr ⟨he, he ▸ hopen he⟩)
  · have hread : d.read q ≠ none := h.resolve_right fun hsame => he hsame.1
    split_ifs
    · rw [read_create, if_neg fun hsame => he hsame.1, read_remove, if_neg hq', read_remove,
        if_neg he]
      exact read_create_ne_none _ (Or.inl hread)
    · rw [read_remove, if_neg he]
      exact read_create_ne_none _ (Or.inl hread)

end Disk

/-- What handlers call: they spare the temporary file, and leave the table of groups to
    `FetchDetails`. -/
@[simp] def Call.tame : Call → Prop
  | .prim (.sync _)   => True
  | .prim (.modify f) => ∀ m, (f m).groups = m.groups
  | o                 => o.sparesTemp

/-- The file that a call writes. -/
@[simp] def Call.output : Call → Option Path
  | .prim (.append p _) => some p
  | .prim (.create p _) => some p
  | .rewrite _ p _      => some p
  | _                   => none

/-- Files stay, and the file that is written is there, unless its name cannot be stored. -/
lemma read_step (o : Call) {a : callAns o} {s s' : Session} {q : Path} (ho : o.tame)
    (hq : cStr q ≠ tempFile) (h : s.disk.read q ≠ none ∨ o.output = some q ∧ storable q = true)
    (hs : limitedInterp o s = some (a, s')) : s'.disk.read q ≠ none := by
  have hwritten : ∀ p, s.disk.read q ≠ none ∨ some p = some q ∧ storable q = true →
      s.disk.read q ≠ none ∨ cStr q = cStr (clip p) ∧ openable (cStr q) = true := by
    rintro p (hread | ⟨he, hstored⟩)
    · exact Or.inl hread
    · cases he
      rw [clip_of_storable hstored]
      exact Or.inr ⟨rfl, (Bool.and_eq_true_iff.mp hstored).1⟩
  cases o with
  | prim o =>
    rw [limitedInterp_prim] at hs
    cases o with
    | append p c =>
      cases hs
      exact Disk.read_create_ne_none _ (hwritten p h)
    | create p c =>
      cases hs
      exact Disk.read_create_ne_none _ (hwritten p h)
    | sync p =>
      obtain ⟨sent, rfl⟩ := primInterp_sync hs
      exact h.resolve_right (by simp)
    | remove p => exact ho.elim
    | rename p q => exact ho.elim
    | fault => cases hs
    | _ =>
      cases hs
      exact h.resolve_right (by simp)
  | fetchDetails =>
    simp only [limitedInterp_fetchDetails, callInterp_fetchDetails, Option.map_eq_some_iff,
      Prod.mk.injEq] at hs
    obtain ⟨m, -, -, rfl⟩ := hs
    exact Disk.read_reloaded_ne_none (h.resolve_right (by simp))
  | fetchGroupMembers g =>
    rw [limitedInterp_fetchGroupMembers] at hs
    cases hs
    exact h.resolve_right (by simp)
  | rewrite mode p drop =>
    simp only [limitedInterp_rewrite, callInterp_rewrite, Option.map_eq_some_iff,
      Prod.mk.injEq] at hs
    obtain ⟨ks, -, -, rfl⟩ := hs
    exact Disk.read_rewritten_ne_none mode ks (clip_ne_temp ho) hq (hwritten p h)

end TorrentShare
