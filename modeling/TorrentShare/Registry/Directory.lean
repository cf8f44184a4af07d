import TorrentShare.Program.Total
import TorrentShare.Tracker.Indexes
import TorrentShare.Tracker.Storage

/-!
# The directory as a family of record lists

Each state file has a key: what is kept in it, and of which group or user. As long as no two state
files have one path, an edit of the file of a key changes the records of that key only.
-/

namespace TorrentShare

open Program

/-- What the state files are for. -/
inductive Key where
  | accounts
  | sessions
  | groups
  | requests
  | members (group : Str)
  | shared (group : Str)
  | files (user : Str)
  | downloading (user : Str)
  | downloaded (user : Str)
  deriving DecidableEq

namespace Key

def path : Key → Path
  | accounts      => credentialFile
  | sessions      => onlineFile
  | groups        => groupFile
  | requests      => pendingFile
  | members g     => membersFile g
  | shared g      => groupFilesFile g
  | files u       => userFilesFile u
  | downloading u => downloadingFile u
  | downloaded u  => downloadedFile u

/-- The file is one of those of all, or that of a group or user among them. -/
@[simp] def of (E : Entities) : Key → Prop
  | members g     => E.group g
  | shared g      => E.group g
  | files u       => E.user u
  | downloading u => E.user u
  | downloaded u  => E.user u
  | _             => True

lemma path_ne_temp (k : Key) : cStr k.path ≠ tempFile := by
  cases k with
  | accounts => exact credentialFile_ne_temp
  | sessions => exact onlineFile_ne_temp
  | groups => exact groupFile_ne_temp
  | requests => exact pendingFile_ne_temp
  | members g => exact membersFile_ne_temp g
  | shared g => exact groupFilesFile_ne_temp g
  | files u => exact userFilesFile_ne_temp u
  | downloading u => exact downloadingFile_ne_temp u
  | downloaded u => exact downloadedFile_ne_temp u

/-- The key of the state file of a group or of a user. -/
def ofStateFile : StateFile → Key
  | .members g     => members g
  | .shared g      => shared g
  | .files u       => files u
  | .downloading u => downloading u
  | .downloaded u  => downloaded u

@[simp] lemma path_ofStateFile (a : StateFile) : (ofStateFile a).path = a.path := by
  cases a <;> rfl

@[simp] lemma of_ofStateFile {E : Entities} (a : StateFile) :
    (ofStateFile a).of E ↔ a.of E := by
  cases a <;> rfl

/-- A key is that of one of the four files of all, or of a state file of a group or user. -/
lemma kindOf_or (k : Key) : (∃ a, k = ofStateFile a) ∨
    k ∈ [accounts, sessions, groups, requests] ∧ kindOf (cStr k.path) ≠ .ofGroup ∧
      kindOf (cStr k.path) ≠ .ofUser := by
  cases k with
  | members g => exact Or.inl ⟨.members g, rfl⟩
  | shared g => exact Or.inl ⟨.shared g, rfl⟩
  | files u => exact Or.inl ⟨.files u, rfl⟩
  | downloading u => exact Or.inl ⟨.downloading u, rfl⟩
  | downloaded u => exact Or.inl ⟨.downloaded u, rfl⟩
  | _ => exact Or.inr (by simp [path])

/-- The four files of all are of different kinds. -/
lemma eq_of_kindOf {j k : Key} (hj : j ∈ [accounts, sessions, groups, requests])
    (hk : k ∈ [accounts, sessions, groups, requests])
    (h : kindOf (cStr j.path) = kindOf (cStr k.path)) : j = k := by
  simp only [List.mem_cons, List.not_mem_nil, or_false] at hj hk
  rcases hj with rfl | rfl | rfl | rfl <;> rcases hk with rfl | rfl | rfl | rfl <;>
    simp [path] at h ⊢

section Paths

variable {E : Entities} {j k : Key}

/-- Files of different keys have different paths. -/
lemma path_injective (hE : E.Separate) (hj : j.of E) (hk : k.of E)
    (h : cStr j.path = cStr k.path) : j = k := by
  have hkind := congrArg kindOf h
  rcases kindOf_or j with ⟨a, rfl⟩ | ⟨hj', hjkind⟩
  · rcases kindOf_or k with ⟨b, rfl⟩ | ⟨-, hkkind⟩
    · rw [path_ofStateFile, path_ofStateFile] at h
      rw [hE a b ((of_ofStateFile a).mp hj) ((of_ofStateFile b).mp hk) h]
    · rw [path_ofStateFile] at hkind
      rw [← hkind] at hkkind
      exact (a.kindOf_path.elim hkkind.1 hkkind.2).elim
  · rcases kindOf_or k with ⟨b, rfl⟩ | ⟨hk', -⟩
    · rw [path_ofStateFile] at hkind
      rw [hkind] at hjkind
      exact (b.kindOf_path.elim hjkind.1 hjkind.2).elim
    · exact eq_of_kindOf hj' hk' hkind

lemma openable_path (hopen : E.Openable) (hk : k.of E) : openable (cStr k.path) = true := by
  have hgroup : ∀ {g post : Str}, '/' ∉ g → '/' ∉ post →
      openable (allFiles ++ ".group_".toList ++ cStr (g ++ post)) = true := by
    intro g post hg hpost
    rw [List.append_assoc]
    refine (openable_cons_cons (by decide)).mpr (?_ : '/' ∉ "group_".toList ++ _)
    exact List.not_mem_append (by decide) (slash_not_mem_cStr (List.not_mem_append hg hpost))
  have huser : ∀ {u post : Str}, '/' ∉ u → '/' ∉ post →
      openable (allFiles ++ ".files_".toList ++ cStr (u ++ post)) = true := by
    intro u post hu hpost
    rw [List.append_assoc]
    refine (openable_cons_cons (by decide)).mpr (?_ : '/' ∉ "files_".toList ++ _)
    exact List.not_mem_append (by decide) (slash_not_mem_cStr (List.not_mem_append hu hpost))
  cases k with
  | members g =>
    rw [path, cStr_membersFile]
    exact hgroup (hopen.1 g hk) (by decide)
  | shared g =>
    rw [path, cStr_groupFilesFile]
    exact hgroup (hopen.1 g hk) (by decide)
  | files u =>
    rw [path, cStr_userFilesFile]
    exact huser (hopen.2 u hk) (by decide)
  | downloading u =>
    rw [path, cStr_downloadingFile]
    exact huser (hopen.2 u hk) (by decide)
  | downloaded u =>
    rw [path, cStr_downloadedFile]
    exact huser (hopen.2 u hk) (by decide)
  | _ => decide

end Paths

end Key

/-! ### What the directory holds -/

/-- The edit of the file of a key. -/
def Key.edit : Edit Key Str → Edit Path Str
  | .append k l  => addLine k.path l
  | .create k ls => setLines k.path ls
  | .drop k test => dropLines k.path test

/-- The files of the entities are apart and can be opened. Those of the keys hold the records of a
    family, and some of the files are there. -/
structure Entities.Holds (E : Entities) (F : Key → List Str) (P : Set Key) (d : Disk) : Prop where
  separate : E.Separate
  openable : E.Openable
  tidy : d.Tidy
  lines : ∀ k, k.of E → d.lines k.path = F k
  there : ∀ k ∈ P, d.read k.path ≠ none

section Holds

variable {E : Entities} {F : Key → List Str} {P : Set Key} {d d' : Disk} {k : Key} {l : Str}

/-- An edit of a file changes the records of its key. -/
lemma Entities.Holds.lines_edited (h : E.Holds F P d) {e : Edit Key Str} (he : e.key.of E)
    (hedited : d.Edited [Key.edit e] d') : ∀ k, k.of E → d'.lines k.path = e.apply F k := by
  have hkey : (Key.edit e).key = cStr e.key.path := by
    cases e <;> rfl
  have hafter : ∀ ls, (Key.edit e).after ls = e.after ls := by
    cases e <;> exact fun _ => rfl
  intro k hk
  by_cases hke : k = e.key
  · subst hke
    rw [e.apply_key, ← h.lines _ he, ← hafter]
    exact hedited.lines_of_one (b := []) (a := []) (Key.openable_path h.openable he) hkey (by simp)
      (by simp)
  · rw [e.apply_of_ne F hke, ← h.lines k hk]
    apply hedited.lines_of_ne
    simp only [List.mem_singleton, forall_eq, hkey]
    exact fun hp => hke (Key.path_injective h.separate hk he hp)

/-- A file that is edited is there, and no other file has gone. -/
lemma Entities.Holds.edited (h : E.Holds F P d) {e : Edit Key Str} (he : e.key.of E)
    (hedited : d.Edited [Key.edit e] d') (hself : d'.read e.key.path ≠ none)
    (hthere : ∀ k ∈ P, d.read k.path ≠ none → d'.read k.path ≠ none) :
    E.Holds (e.apply F) (insert e.key P) d' := by
  refine ⟨h.separate, h.openable, hedited.tidy, h.lines_edited he hedited, fun k hk => ?_⟩
  rcases hk with rfl | hk
  · exact hself
  · exact hthere k hk (h.there k hk)

lemma Entities.Holds.append (h : E.Holds F P d) (hk : k.of E) (hl : '\n' ∉ l) :
    E.Holds ((Edit.append k l).apply F) (insert k P) (d.append k.path (putline l)) :=
  h.edited (e := .append k l) hk (Disk.edited_append h.tidy k.path_ne_temp hl)
    (Disk.read_append_ne_none _ (Or.inr ⟨rfl, Key.openable_path h.openable hk⟩))
    (fun _ _ hj => Disk.read_append_ne_none _ (Or.inl hj))

lemma Entities.Holds.create (h : E.Holds F P d) (hk : k.of E) {ls : List Str}
    (hls : ∀ l ∈ ls, '\n' ∉ l) :
    E.Holds ((Edit.create k ls).apply F) (insert k P) (d.create k.path (Disk.putlines ls)) :=
  h.edited (e := .create k ls) hk (Disk.edited_create h.tidy k.path_ne_temp hls)
    (Disk.read_create_ne_none _ (Or.inr ⟨rfl, Key.openable_path h.openable hk⟩))
    (fun _ _ hj => Disk.read_create_ne_none _ (Or.inl hj))

lemma Entities.Holds.rewritten (h : E.Holds F P d) (hk : k.of E) (mode : OpenMode)
    {drop : Str → Option Bool} {kept : List Str} (hkept : keptLines drop (F k) = some kept) :
    E.Holds ((Edit.drop k fun l => drop l == some true).apply F) (insert k P)
      (d.rewritten mode k.path kept) := by
  rw [← h.lines k hk] at hkept
  refine h.edited (e := .drop k _) hk (Disk.edited_rewritten mode h.tidy k.path_ne_temp hkept) ?_ ?_
  · exact Disk.read_rewritten_ne_none mode kept k.path_ne_temp k.path_ne_temp
      (Or.inr ⟨rfl, Key.openable_path h.openable hk⟩)
  · exact fun j _ hj =>
      Disk.read_rewritten_ne_none mode kept k.path_ne_temp j.path_ne_temp (Or.inl hj)

/-- A reload changes no records, and the file of requests is there. -/
lemma Entities.Holds.reloaded (h : E.Holds F P d) :
    E.Holds F (insert .requests P) d.reloaded := by
  refine ⟨h.separate, h.openable, ((Disk.Edited.nil h.tidy).of_text d.text_reloaded).tidy,
    fun k hk => ?_, fun k hk => ?_⟩
  · rw [Disk.lines, d.text_reloaded]
    exact h.lines k hk
  · rcases hk with rfl | hk
    · exact Disk.read_touch_self (by decide)
    · exact Disk.read_reloaded_ne_none (h.there k hk)

end Holds

/-! ### Running handlers on a directory -/

/-- A handler runs on a tracker with these records and these tables. -/
structure Entities.At (E : Entities) (F : Key → List Str) (P : Set Key) (m : Memory) (salt : Str)
    (s : Session) : Prop where
  holds : E.Holds F P s.disk
  memory : s.memory = m
  salt : s.salt = salt

section At

variable {E : Entities} {F : Key → List Str} {P : Set Key} {m : Memory} {salt : Str}
  {s : Session} {k : Key} {l : Str} {α : Type} {Q : α → Session → Prop} {f : Unit → Prog callSig α}

lemma ends_of_run {p q : Prog callSig α} {s' : Session}
    (h : p.run callInterp s = q.run callInterp s') (hq : q.Ends callInterp s' Q) :
    p.Ends callInterp s Q := by
  rw [Prog.ends_iff, h]
  exact Prog.ends_iff.mp hq

lemma ends_lock (hf : (f ()).Ends callInterp s Q) : (call .lock >>= f).Ends callInterp s Q :=
  ends_of_run (run_lock_bind s f) hf

lemma ends_unlock (hf : (f ()).Ends callInterp s Q) : (call .unlock >>= f).Ends callInterp s Q :=
  ends_of_run (run_unlock_bind s f) hf

lemma ends_checked {β : Type} {x : Option β} {b : β} {f : β → Prog callSig α} (hx : x = some b)
    (hf : (f b).Ends callInterp s Q) : (checked x >>= f).Ends callInterp s Q := by
  refine ends_of_run ?_ hf
  rw [run_checked_bind, hx, Option.bind_some]

namespace Entities.At

lemma tables (h : E.At F P m salt s) {f : Memory → Prog callSig α}
    (hf : (f m).Ends callInterp s Q) : (call .memory >>= f).Ends callInterp s Q := by
  refine ends_of_run (run_memory_bind s f) ?_
  rw [h.memory]
  exact hf

lemma modify (h : E.At F P m salt s) {change : Memory → Memory}
    (hf : ∀ s', E.At F P (change m) salt s' → (f ()).Ends callInterp s' Q) :
    (call (.modify change) >>= f).Ends callInterp s Q := by
  refine ends_of_run (run_modify_bind s change f) (hf _ ⟨h.holds, ?_, h.salt⟩)
  rw [Session.memory_setMemory, h.memory]

lemma generateSalt (h : E.At F P m salt s) {f : Str → Prog callSig α}
    (hf : (f salt).Ends callInterp s Q) : (call .generateSalt >>= f).Ends callInterp s Q := by
  refine ends_of_run (run_generateSalt_bind s f) ?_
  rw [h.salt]
  exact hf

/-- The lines that are read are the records. -/
lemma read (h : E.At F P m salt s) (hk : k.of E) {f : Option Str → Prog callSig α}
    (hf : ∀ c : Option Str, getlines (c.getD []) = F k → (f c).Ends callInterp s Q) :
    (call (.read k.path) >>= f).Ends callInterp s Q :=
  ends_of_run (run_read_bind s k.path f) (hf _ (h.holds.lines k hk))

lemma append (h : E.At F P m salt s) (hk : k.of E) (hl : '\n' ∉ l)
    (hf : ∀ s', E.At ((Edit.append k l).apply F) (insert k P) m salt s' →
      (f ()).Ends callInterp s' Q) :
    (call (.append k.path (putline l)) >>= f).Ends callInterp s Q :=
  ends_of_run (run_append_bind s k.path (putline l) f)
    (hf _ ⟨h.holds.append hk hl, h.memory, h.salt⟩)

lemma create (h : E.At F P m salt s) (hk : k.of E) {t : List Str} (ht : ∀ l ∈ t, '\n' ∉ l)
    (hf : ∀ s', E.At ((Edit.create k t).apply F) (insert k P) m salt s' →
      (f ()).Ends callInterp s' Q) :
    (call (.create k.path (Disk.putlines t)) >>= f).Ends callInterp s Q :=
  ends_of_run (run_create_bind s k.path (Disk.putlines t) f)
    (hf _ ⟨h.holds.create hk ht, h.memory, h.salt⟩)

lemma createLine (h : E.At F P m salt s) (hk : k.of E) (hl : '\n' ∉ l)
    (hf : ∀ s', E.At ((Edit.create k [l]).apply F) (insert k P) m salt s' →
      (f ()).Ends callInterp s' Q) :
    (call (.create k.path (putline l)) >>= f).Ends callInterp s Q := by
  rw [show putline l = Disk.putlines [l] from (List.append_nil _).symm]
  exact h.create hk (by simpa using hl) hf

lemma rewrite (h : E.At F P m salt s) (hk : k.of E) {mode : OpenMode} {drop : Str → Option Bool}
    (hdrop : ∀ l ∈ F k, drop l ≠ none)
    (hf : ∀ s', E.At ((Edit.drop k fun l => drop l == some true).apply F) (insert k P) m salt s' →
      (f ()).Ends callInterp s' Q) :
    (rewrite mode k.path drop >>= f).Ends callInterp s Q := by
  obtain ⟨kept, hkept⟩ := Option.ne_none_iff_exists'.mp (keptLines_ne_none hdrop)
  refine ends_of_run ?_ (hf (s.setDisk (s.disk.rewritten mode k.path kept))
    ⟨h.holds.rewritten hk mode hkept, h.memory, h.salt⟩)
  rw [run_rewrite_bind, h.holds.lines k hk, hkept]
  rfl

/-- A file that is there is sent if the sibling is online. -/
lemma sync (h : E.At F P m salt s) (hk : k ∈ P)
    (hf : ∀ s', E.At F P m salt s' → (f ()).Ends callInterp s' Q) :
    (call (.sync k.path) >>= f).Ends callInterp s Q := by
  obtain ⟨sent, hrun⟩ := run_sync_of_read f (h.holds.there k hk)
  exact ends_of_run hrun (hf _ ⟨h.holds, h.memory, h.salt⟩)

lemma fetchDetails (h : E.At F P m salt s) {m' : Memory} (hm : m.reload s.disk = some m')
    (hf : ∀ s', E.At F (insert .requests P) m' salt s' → (f ()).Ends callInterp s' Q) :
    (fetchDetails >>= f).Ends callInterp s Q := by
  refine ends_of_run ?_ (hf ((s.setDisk s.disk.reloaded).setMemory m')
    ⟨h.holds.reloaded, rfl, h.salt⟩)
  rw [run_fetchDetails_bind, h.memory, hm]
  rfl

lemma fetchGroupMembers (h : E.At F P m salt s) {g : Str} (hg : E.group g)
    (hf : ∀ s' us, (∀ u, u ∈ us ↔ u ∈ F (.members g)) →
      E.At F P { m with groupMembers := us } salt s' → (f ()).Ends callInterp s' Q) :
    (fetchGroupMembers g >>= f).Ends callInterp s Q := by
  refine ends_of_run (run_fetchGroupMembers_bind s g f) (hf _ (s.disk.members g) (fun u => ?_)
    ⟨h.holds, ?_, h.salt⟩)
  · rw [Disk.mem_members, ← h.holds.lines (.members g) hg]
    rfl
  · rw [Session.memory_setMemory, h.memory]

/-- `DeleteLine` drops the records with the field. -/
lemma deleteLine (h : E.At F P m salt s) (hk : k.of E) {x : Str} {i : ℕ}
    (hfield : ∀ l ∈ F k, (split l ' ')[i]? ≠ none)
    (hf : ∀ s', E.At ((Edit.drop k (hasField i x)).apply F) (insert k P) m salt s' →
      (f ()).Ends callInterp s' Q) : (deleteLine k.path x i >>= f).Ends callInterp s Q := by
  rw [Prog.ends_bind, TorrentShare.deleteLine]
  refine ends_lock (h.rewrite hk (fun l hl => fieldIs_ne_none (hfield l hl)) fun s' h' => ?_)
  simpa [call, primInterp] using hf s' h'

lemma deleteWholeLine (h : E.At F P m salt s) (hk : k.of E) {x : Str}
    (hf : ∀ s', E.At ((Edit.drop k fun l => some (decide (l = x)) == some true).apply F)
      (insert k P) m salt s' → (f ()).Ends callInterp s' Q) :
    (deleteWholeLine k.path x >>= f).Ends callInterp s Q := by
  rw [Prog.ends_bind, TorrentShare.deleteWholeLine]
  refine ends_lock (h.rewrite hk (fun _ _ => Option.some_ne_none _) fun s' h' => ?_)
  simpa [call, primInterp] using hf s' h'

end Entities.At

end At

end TorrentShare
