import TorrentShare.Program.Faults
import TorrentShare.Tracker.Host
import TorrentShare.Tracker.Queries

/-!
# Records are well formed where they are indexed

Handlers look at fields of records by number. Each line of a file has the fields that are looked
at, as long as no two state files have one path, and so no handler reads past the end of a record.
-/

namespace TorrentShare

open Program

/-! ### Groups and users with state files of their own -/

/-- The state files of groups and users. -/
inductive StateFile where
  | members (group : Str)
  | shared (group : Str)
  | files (user : Str)
  | downloading (user : Str)
  | downloaded (user : Str)

def StateFile.path : StateFile → Path
  | members g     => membersFile g
  | shared g      => groupFilesFile g
  | files u       => userFilesFile u
  | downloading u => downloadingFile u
  | downloaded u  => downloadedFile u

/-- The groups and the users of a tracker. -/
structure Entities where
  group : Str → Prop
  user : Str → Prop

/-- The state file of a group or of a user among them. -/
def StateFile.of (E : Entities) : StateFile → Prop
  | members g     => E.group g
  | shared g      => E.group g
  | files u       => E.user u
  | downloading u => E.user u
  | downloaded u  => E.user u

/-- No two of the state files have one path. -/
def Entities.Separate (E : Entities) : Prop :=
  ∀ a b : StateFile, a.of E → b.of E → cStr a.path = cStr b.path → a = b

/-- What the file is for can be told from its path. -/
lemma StateFile.kindOf_path (a : StateFile) :
    kindOf (cStr a.path) = .ofGroup ∨ kindOf (cStr a.path) = .ofUser := by
  cases a with
  | members g => exact Or.inl (kindOf_membersFile g)
  | shared g => exact Or.inl (kindOf_groupFilesFile g)
  | files u => exact Or.inr (kindOf_userFilesFile u)
  | downloading u => exact Or.inr (kindOf_downloadingFile u)
  | downloaded u => exact Or.inr (kindOf_downloadedFile u)

/-- Names without NUL, none of them another one with a fixed end, have files of their own. -/
lemma Entities.separate_of_apart {E : Entities} (hgroup : ∀ g, E.group g → '\x00' ∉ g)
    (huser : ∀ u, E.user u → '\x00' ∉ u)
    (hgroups : ∀ g h, E.group g → E.group h → g ≠ h ++ "_files".toList)
    (hdownloading : ∀ u v, E.user u → E.user v → u ≠ v ++ "_downloading".toList)
    (hdownloaded : ∀ u v, E.user u → E.user v → u ≠ v ++ "_downloaded".toList) :
    E.Separate := by
  have hpath : ∀ a : StateFile, a.of E → cStr a.path = a.path := by
    intro a ha
    cases a with
    | members g => exact membersFile_nul (hgroup g ha)
    | shared g => exact groupFilesFile_nul (hgroup g ha)
    | files u => exact userFilesFile_nul (huser u ha)
    | downloading u => exact downloadingFile_nul (huser u ha)
    | downloaded u => exact downloadedFile_nul (huser u ha)
  intro a b ha hb h
  have hkind := congrArg kindOf h
  rw [hpath a ha, hpath b hb] at h
  cases a with
  | members g =>
    cases b with
    | members g' => exact congrArg StateFile.members (membersFile_injective h)
    | shared g' => exact absurd (membersFile_eq_iff.mp h) (hgroups g g' ha hb)
    | _ => simp [StateFile.path] at hkind
  | shared g =>
    cases b with
    | members g' => exact absurd (membersFile_eq_iff.mp h.symm) (hgroups g' g hb ha)
    | shared g' => exact congrArg StateFile.shared (groupFilesFile_injective h)
    | _ => simp [StateFile.path] at hkind
  | files u =>
    cases b with
    | files v => exact congrArg StateFile.files (userFilesFile_injective h)
    | downloading v =>
      exact absurd (userFilesFile_eq_downloadingFile_iff.mp h) (hdownloading u v ha hb)
    | downloaded v =>
      exact absurd (userFilesFile_eq_downloadedFile_iff.mp h) (hdownloaded u v ha hb)
    | _ => simp [StateFile.path] at hkind
  | downloading u =>
    cases b with
    | files v =>
      exact absurd (userFilesFile_eq_downloadingFile_iff.mp h.symm) (hdownloading v u hb ha)
    | downloading v => exact congrArg StateFile.downloading (downloadingFile_injective h)
    | downloaded v => exact absurd h (downloadingFile_ne_downloadedFile u v)
    | _ => simp [StateFile.path] at hkind
  | downloaded u =>
    cases b with
    | files v =>
      exact absurd (userFilesFile_eq_downloadedFile_iff.mp h.symm) (hdownloaded v u hb ha)
    | downloading v => exact absurd h.symm (downloadingFile_ne_downloadedFile v u)
    | downloaded v => exact congrArg StateFile.downloaded (downloadedFile_injective h)
    | _ => simp [StateFile.path] at hkind

/-- The groups that a command names. -/
def Command.groups : Command → List Str
  | .createGroup g _          => [g]
  | .joinGroup g _            => [g]
  | .listRequests g _         => [g]
  | .acceptRequest g _ _      => [g]
  | .uploadFile _ _ g _ _ _   => [g]
  | .listFiles g              => [g]
  | .stopShare g _ _          => [g]
  | .leaveGroup g _           => [g]
  | .giveSha g _ _            => [g]
  | .giveSeeders g _ _        => [g]
  | .sendFullPath _ g _       => [g]
  | .addFile g _ _ _          => [g]
  | .complete g _ _ _         => [g]
  | _                         => []

/-- The users that a command names. -/
def Command.users : Command → List Str
  | .login u _ _ _            => [u]
  | .createUser u _ _ _       => [u]
  | .createGroup _ u          => [u]
  | .joinGroup _ u            => [u]
  | .listRequests _ u         => [u]
  | .acceptRequest _ u a      => [u, a]
  | .uploadFile _ _ _ u _ _   => [u]
  | .stopShare _ _ u          => [u]
  | .leaveGroup _ u           => [u]
  | .logout u                 => [u]
  | .giveSha _ _ u            => [u]
  | .giveSeeders _ _ u        => [u]
  | .giveDetails u            => [u]
  | .sendFullPath u _ _       => [u]
  | .addFile _ _ _ u          => [u]
  | .complete _ _ _ u         => [u]
  | .showDownloads u          => [u]
  | _                         => []

/-- The command names groups and users among them. -/
def Entities.Name (E : Entities) (c : Command) : Prop :=
  (∀ g ∈ c.groups, E.group g) ∧ ∀ u ∈ c.users, E.user u

/-! ### The fields that are looked at -/

/-- The number of fields that the lines of a file need. -/
inductive Entities.Needs (E : Entities) (q : Path) : ℕ → Prop where
  | online (h : cStr q = cStr onlineFile) : E.Needs q 3
  | group (h : cStr q = cStr groupFile) : E.Needs q 2
  | shared (g : Str) (hg : E.group g) (h : cStr q = cStr (groupFilesFile g)) : E.Needs q 4
  | files (u : Str) (hu : E.user u) (h : cStr q = cStr (userFilesFile u)) : E.Needs q 3

/-- The line has the fields that are looked at. -/
def Entities.LineOk (E : Entities) (q : Path) (l : Str) : Prop :=
  ∀ n, E.Needs q n → n ≤ (split l ' ').length

/-- All lines have the fields that are looked at. -/
def Entities.WellFormed (E : Entities) (d : Disk) : Prop := ∀ q, ∀ l ∈ d.lines q, E.LineOk q l

/-- Blanks in the fields only make more of them. -/
lemma length_le_split_fields (fs : List Str) (hfs : fs ≠ []) :
    fs.length ≤ (split (fields fs) ' ').length := by
  induction fs with
  | nil => exact absurd rfl hfs
  | cons f fs ih =>
    cases fs with
    | nil => exact List.length_pos_iff.mpr (List.splitOn_ne_nil ' ' _)
    | cons f' fs =>
      have htail := ih (by simp)
      have hhead : 0 < (f.splitOn ' ').length := List.length_pos_iff.mpr (List.splitOn_ne_nil ' ' f)
      rw [fields_cons_cons, split, List.splitOn_append_cons_self, List.length_append]
      rw [split] at htail
      simp only [List.length_cons] at htail ⊢
      omega

section Needs

variable {E : Entities} {n : ℕ} {g u : Str}

lemma Entities.Needs.congr {p q : Path} (h : cStr p = cStr q) (hn : E.Needs p n) : E.Needs q n := by
  cases hn with
  | online hp => exact .online (h ▸ hp)
  | group hp => exact .group (h ▸ hp)
  | shared g hg hp => exact .shared g hg (h ▸ hp)
  | files u hu hp => exact .files u hu (h ▸ hp)

/-- Files of another kind than these need nothing. -/
lemma Entities.not_needs {q : Path} (h : kindOf (cStr q) ≠ .online ∧ kindOf (cStr q) ≠ .group ∧
    kindOf (cStr q) ≠ .ofGroup ∧ kindOf (cStr q) ≠ .ofUser) : ¬ E.Needs q n := by
  obtain ⟨honline, hgroup, hofGroup, hofUser⟩ := h
  intro hn
  cases hn with
  | online hq => exact honline (by rw [hq]; exact kindOf_onlineFile)
  | group hq => exact hgroup (by rw [hq]; exact kindOf_groupFile)
  | shared g hg hq => exact hofGroup (by rw [hq]; exact kindOf_groupFilesFile g)
  | files u hu hq => exact hofUser (by rw [hq]; exact kindOf_userFilesFile u)

lemma Entities.needs_onlineFile (h : E.Needs onlineFile n) : n = 3 := by
  cases h with
  | online hq => rfl
  | group hq => exact absurd (congrArg kindOf hq) (by decide)
  | shared g hg hq => exact absurd (congrArg kindOf hq) (by simp)
  | files u hu hq => exact absurd (congrArg kindOf hq) (by simp)

lemma Entities.needs_groupFile (h : E.Needs groupFile n) : n = 2 := by
  cases h with
  | online hq => exact absurd (congrArg kindOf hq) (by decide)
  | group hq => rfl
  | shared g hg hq => exact absurd (congrArg kindOf hq) (by simp)
  | files u hu hq => exact absurd (congrArg kindOf hq) (by simp)

/-- The state files need what their kind needs. -/
lemma Entities.Separate.needs (hE : E.Separate) {a : StateFile} (ha : a.of E)
    (h : E.Needs a.path n) : (∃ g, a = .shared g ∧ n = 4) ∨ ∃ u, a = .files u ∧ n = 3 := by
  have hkind := a.kindOf_path
  cases h with
  | online hq =>
    rw [hq, kindOf_onlineFile] at hkind
    simp at hkind
  | group hq =>
    rw [hq, kindOf_groupFile] at hkind
    simp at hkind
  | shared g hg hq => exact Or.inl ⟨g, hE a (.shared g) ha hg hq, rfl⟩
  | files u hu hq => exact Or.inr ⟨u, hE a (.files u) ha hu hq, rfl⟩

lemma Entities.Separate.lineOk_members (hE : E.Separate) (hg : E.group g) (l : Str) :
    E.LineOk (membersFile g) l := by
  intro n hn
  rcases hE.needs (a := .members g) hg hn with ⟨_, ha, -⟩ | ⟨_, ha, -⟩
  · cases ha
  · cases ha

lemma Entities.Separate.lineOk_downloading (hE : E.Separate) (hu : E.user u) (l : Str) :
    E.LineOk (downloadingFile u) l := by
  intro n hn
  rcases hE.needs (a := .downloading u) hu hn with ⟨_, ha, -⟩ | ⟨_, ha, -⟩
  · cases ha
  · cases ha

lemma Entities.Separate.lineOk_downloaded (hE : E.Separate) (hu : E.user u) (l : Str) :
    E.LineOk (downloadedFile u) l := by
  intro n hn
  rcases hE.needs (a := .downloaded u) hu hn with ⟨_, ha, -⟩ | ⟨_, ha, -⟩
  · cases ha
  · cases ha

lemma Entities.Separate.lineOk_shared (hE : E.Separate) (hg : E.group g) (h s u f : Str) :
    E.LineOk (groupFilesFile g) (fields [h, s, u, f]) := by
  intro n hn
  have hlength := length_le_split_fields [h, s, u, f] (by simp)
  rcases hE.needs (a := .shared g) hg hn with ⟨_, -, rfl⟩ | ⟨_, ha, -⟩
  · exact hlength
  · cases ha

lemma Entities.Separate.lineOk_files (hE : E.Separate) (hu : E.user u) (g f p : Str) :
    E.LineOk (userFilesFile u) (fields [g, f, p]) := by
  intro n hn
  have hlength := length_le_split_fields [g, f, p] (by simp)
  rcases hE.needs (a := .files u) hu hn with ⟨_, ha, -⟩ | ⟨_, -, rfl⟩
  · cases ha
  · exact hlength

lemma Entities.lineOk_online (u ip port : Str) : E.LineOk onlineFile (fields [u, ip, port]) := by
  intro n hn
  have hlength := length_le_split_fields [u, ip, port] (by simp)
  rw [needs_onlineFile hn]
  exact hlength

lemma Entities.lineOk_group (g u : Str) : E.LineOk groupFile (fields [g, u]) := by
  intro n hn
  have hlength := length_le_split_fields [g, u] (by simp)
  rw [needs_groupFile hn]
  exact hlength

lemma Entities.lineOk_credential (l : Str) : E.LineOk credentialFile l :=
  fun _ hn => absurd hn (not_needs (by decide))

lemma Entities.lineOk_pending (l : Str) : E.LineOk pendingFile l :=
  fun _ hn => absurd hn (not_needs (by decide))

/-- A field that is looked at is there. -/
lemma Entities.LineOk.getElem? {q : Path} {l : Str} (h : E.LineOk q l) (hn : E.Needs q n) {i : ℕ}
    (hi : i < n) : (split l ' ')[i]? ≠ none := by
  have hlength := h n hn
  rw [ne_eq, List.getElem?_eq_none_iff, not_le]
  omega

end Needs

/-! ### Reading records in bounds -/

lemma fieldIs_ne_none {i : ℕ} {x : Str} {v : List Str} (h : v[i]? ≠ none) :
    fieldIs i x v ≠ none := by
  rwa [fieldIs, ne_eq, Option.map_eq_none_iff]

lemma andThen_ne_none {p q : List Str → Option Bool} {v : List Str} (hp : p v ≠ none)
    (hq : q v ≠ none) : andThen p q v ≠ none := by
  obtain ⟨b, hb⟩ := Option.ne_none_iff_exists'.mp hp
  rw [andThen, hb, Option.bind_some]
  cases b with
  | true => exact hq
  | false => exact Option.some_ne_none false

lemma findRecord_ne_none {test : List Str → Option Bool} {ls : List Str}
    (h : ∀ l ∈ ls, test (split l ' ') ≠ none) : findRecord test ls ≠ none := by
  induction ls with
  | nil => exact Option.some_ne_none none
  | cons l ls ih =>
    obtain ⟨b, hb⟩ := Option.ne_none_iff_exists'.mp (h l (List.mem_cons_self ..))
    rw [findRecord, hb, Option.bind_some]
    cases b with
    | true => exact Option.some_ne_none _
    | false => exact ih fun l' hl' => h l' (List.mem_cons_of_mem _ hl')

lemma mapM_ne_none {α β : Type} {f : α → Option β} {as : List α} (h : ∀ a ∈ as, f a ≠ none) :
    as.mapM f ≠ none := by
  induction as with
  | nil => exact Option.some_ne_none []
  | cons a as ih =>
    obtain ⟨b, hb⟩ := Option.ne_none_iff_exists'.mp (h a (List.mem_cons_self ..))
    obtain ⟨bs, hbs⟩ :=
      Option.ne_none_iff_exists'.mp (ih fun a' ha' => h a' (List.mem_cons_of_mem _ ha'))
    simp [hb, hbs]

lemma keptLines_ne_none {drop : Str → Option Bool} {ls : List Str}
    (h : ∀ l ∈ ls, drop l ≠ none) : keptLines drop ls ≠ none := by
  induction ls with
  | nil => exact Option.some_ne_none []
  | cons l ls ih =>
    obtain ⟨b, hb⟩ := Option.ne_none_iff_exists'.mp (h l (List.mem_cons_self ..))
    obtain ⟨ks, hks⟩ :=
      Option.ne_none_iff_exists'.mp (ih fun l' hl' => h l' (List.mem_cons_of_mem _ hl'))
    rw [keptLines, hb, hks]
    exact Option.some_ne_none _

/-! ### What handlers may do -/

/-- The calls of handlers: lines that are added have the fields that are looked at, the tests of
    rewrites look at fields that are there, and there is no access past the end. -/
@[simp] def Entities.May (E : Entities) : Call → Prop
  | .prim (.append p s) => cStr p ≠ tempFile ∧ ∃ l, s = putline l ∧ '\n' ∉ l ∧ E.LineOk p l
  | .prim (.create p s) =>
    cStr p ≠ tempFile ∧ (s = [] ∨ ∃ l, s = putline l ∧ '\n' ∉ l ∧ E.LineOk p l)
  | .prim (.remove _)   => False
  | .prim (.rename _ _) => False
  | .prim .fault        => False
  | .rewrite _ p drop   => cStr p ≠ tempFile ∧ ∀ l, E.LineOk p l → drop l ≠ none
  | _                   => True

/-- What the calls answer: files of lines with the fields that are looked at. -/
@[simp] def Entities.Tells (E : Entities) : (o : Call) → callAns o → Prop
  | .prim (.read p), (s : Option Str)    => ∀ l ∈ getlines (s.getD []), E.LineOk p l
  | .prim .generateSalt, (salt : Str)    => IsWord salt
  | _, _                                 => True

def Entities.tidily (E : Entities) : Discipline callSig Unit where
  allowed o _ := E.May o
  next _ _ g := g
  admits o a := E.Tells o a

@[simp] lemma Entities.tidily_allowed (E : Entities) (o : Call) (g : Unit) :
    E.tidily.allowed o g = E.May o := rfl
@[simp] lemma Entities.tidily_next (E : Entities) (o : Call) (a : callAns o) (g : Unit) :
    E.tidily.next o a g = g := rfl
@[simp] lemma Entities.tidily_admits (E : Entities) (o : Call) (a : callAns o) :
    E.tidily.admits o a = E.Tells o a := rfl

/-- A state in which a handler runs. -/
structure Entities.Ready (E : Entities) (s : Session) : Prop where
  tidy : s.disk.Tidy
  wellFormed : E.WellFormed s.disk
  salt : IsWord s.salt

section Ready

variable {E : Entities} {s : Session}

/-- Edits that put in lines with the fields that are looked at. -/
lemma Entities.WellFormed.edited {d d' : Disk} {es : List (Edit Path Str)} (h : E.WellFormed d)
    (hedited : d.Edited es d')
    (hadded : ∀ e ∈ es, ∀ q, e.key = cStr q → ∀ l ∈ e.added, E.LineOk q l) :
    E.WellFormed d' := by
  intro q l hl
  rcases hedited.of_mem hl with ⟨e, he, hk, hadd⟩ | ⟨hold, -⟩
  · exact hadded e he q hk l hadd
  · exact h q l hold

lemma Entities.LineOk.congr {p q : Path} (h : cStr p = cStr q) {l : Str} (hl : E.LineOk p l) :
    E.LineOk q l :=
  fun n hn => hl n (hn.congr h.symm)

lemma Entities.Ready.setDisk (h : E.Ready s) {d : Disk} {es : List (Edit Path Str)}
    (hedited : s.disk.Edited es d)
    (hadded : ∀ e ∈ es, ∀ q, e.key = cStr q → ∀ l ∈ e.added, E.LineOk q l) :
    E.Ready (s.setDisk d) :=
  ⟨hedited.tidy, h.wellFormed.edited hedited hadded, h.salt⟩

lemma Entities.Ready.of_text (h : E.Ready s) {s' : Session}
    (htext : ∀ p, s'.disk.text p = s.disk.text p) (hsalt : s'.salt = s.salt) : E.Ready s' := by
  refine ⟨((Disk.Edited.nil h.tidy).of_text htext).tidy, ?_, hsalt ▸ h.salt⟩
  intro q l hl
  rw [Disk.lines, htext] at hl
  exact h.wellFormed q l hl

/-- The step lemma: a handler that keeps to these calls stays in such states. -/
lemma Entities.tidily_step (o : Call) (g : Unit) (s : Session) (a : callAns o) (s' : Session)
    (ho : E.tidily.allowed o g) (hs : E.Ready s) (hstep : callInterp o s = some (a, s')) :
    E.tidily.admits o a ∧ E.Ready s' := by
  cases o with
  | prim o =>
    rw [callInterp_prim] at hstep
    cases o with
    | lock =>
      cases hstep
      exact ⟨trivial, hs⟩
    | unlock =>
      cases hstep
      exact ⟨trivial, hs⟩
    | memory =>
      cases hstep
      exact ⟨trivial, hs⟩
    | modify f =>
      cases hstep
      exact ⟨trivial, hs.of_text (fun _ => rfl) rfl⟩
    | read p =>
      cases hstep
      exact ⟨fun l hl => hs.wellFormed p l hl, hs⟩
    | append p t =>
      obtain ⟨hp, l, rfl, hnl, hl⟩ := ho
      cases hstep
      refine ⟨trivial, hs.setDisk (Disk.edited_append hs.tidy hp hnl) ?_⟩
      intro e he q hk l' hl'
      rw [List.mem_singleton] at he
      subst he
      rw [addLine_added, List.mem_singleton] at hl'
      subst hl'
      exact hl.congr hk
    | create p t =>
      obtain ⟨hp, rfl | ⟨l, rfl, hnl, hl⟩⟩ := ho
      · cases hstep
        refine ⟨trivial, hs.setDisk (Disk.edited_create_nil hs.tidy hp) ?_⟩
        intro e he q hk l' hl'
        rw [List.mem_singleton] at he
        subst he
        cases hl'
      · cases hstep
        refine ⟨trivial, hs.setDisk (Disk.edited_create_line hs.tidy hp hnl) ?_⟩
        intro e he q hk l' hl'
        rw [List.mem_singleton] at he
        subst he
        rw [setLines_added, List.mem_singleton] at hl'
        subst hl'
        exact hl.congr hk
    | remove p => exact ho.elim
    | rename p q => exact ho.elim
    | generateSalt =>
      cases hstep
      exact ⟨hs.salt, hs⟩
    | sync p =>
      obtain ⟨sent, rfl⟩ := primInterp_sync hstep
      exact ⟨trivial, hs.of_text (fun _ => rfl) rfl⟩
    | fault => exact ho.elim
  | fetchDetails =>
    simp only [callInterp_fetchDetails, Option.map_eq_some_iff, Prod.mk.injEq] at hstep
    obtain ⟨m, hm, -, rfl⟩ := hstep
    exact ⟨trivial, hs.of_text (fun p => Disk.text_reloaded _ p) rfl⟩
  | fetchGroupMembers g =>
    rw [callInterp_fetchGroupMembers] at hstep
    cases hstep
    exact ⟨trivial, hs.of_text (fun _ => rfl) rfl⟩
  | rewrite mode p drop =>
    obtain ⟨hp, hdrop⟩ := ho
    simp only [callInterp_rewrite, Option.map_eq_some_iff, Prod.mk.injEq] at hstep
    obtain ⟨ks, hks, -, rfl⟩ := hstep
    refine ⟨trivial, hs.setDisk (Disk.edited_rewritten mode hs.tidy hp hks) ?_⟩
    intro e he q hk l' hl'
    rw [List.mem_singleton] at he
    subst he
    cases hl'

/-- An access past the end of a vector. -/
def isFault (o : Prim) (_ : Session) : Prop := o = .fault

/-- The tables are loaded to their end if the lines have the fields that are put into them. -/
lemma reload_ne_none {d : Disk} (m : Memory)
    (honline : ∀ l ∈ d.lines onlineFile, 3 ≤ (split l ' ').length)
    (hgroup : ∀ l ∈ d.lines groupFile, 2 ≤ (split l ' ').length) : m.reload d ≠ none := by
  have honlines : (d.lines onlineFile).mapM (fun l => onlineFields (split l ' ')) ≠ none := by
    apply mapM_ne_none
    intro l hl
    have hlength := honline l hl
    simp [onlineFields, List.getElem?_eq_getElem (show 0 < (split l ' ').length by omega),
      List.getElem?_eq_getElem (show 1 < (split l ' ').length by omega),
      List.getElem?_eq_getElem (show 2 < (split l ' ').length by omega)]
  have hgroups : (d.lines groupFile).mapM (fun l => groupFields (split l ' ')) ≠ none := by
    apply mapM_ne_none
    intro l hl
    have hlength := hgroup l hl
    simp [groupFields, List.getElem?_eq_getElem (show 0 < (split l ' ').length by omega),
      List.getElem?_eq_getElem (show 1 < (split l ' ').length by omega)]
  obtain ⟨online, honline⟩ := Option.ne_none_iff_exists'.mp honlines
  obtain ⟨groups, hgroups⟩ := Option.ne_none_iff_exists'.mp hgroups
  rw [Memory.reload, Memory.load, honline, hgroups]
  exact Option.some_ne_none _

lemma Entities.Ready.reload (hs : E.Ready s) : s.memory.reload s.disk ≠ none :=
  reload_ne_none s.memory (fun l hl => hs.wellFormed onlineFile l hl 3 (.online rfl))
    fun l hl => hs.wellFormed groupFile l hl 2 (.group rfl)

/-- A call that is allowed does not come to an access past the end. -/
lemma Entities.tidily_not_fault (o : Call) (g : Unit) (s : Session)
    (ho : E.tidily.allowed o g) (hs : E.Ready s) :
    ¬ (callBody o).Reaches primInterp isFault s := by
  have hfault : ∀ o s, isFault o s → primInterp o s = none := by
    rintro o s rfl
    rfl
  cases o with
  | prim o =>
    rintro (hnow | ⟨r, -, hlater⟩)
    · rw [isFault] at hnow
      subst hnow
      exact ho
    · exact hlater
  | fetchDetails =>
    apply Prog.not_reaches_of_run hfault
    obtain ⟨m, hm⟩ := Option.ne_none_iff_exists'.mp hs.reload
    have hrun := callInterp_fetchDetails s
    rw [hm] at hrun
    rw [callInterp] at hrun
    rw [hrun]
    exact Option.some_ne_none _
  | fetchGroupMembers g =>
    apply Prog.not_reaches_of_run hfault
    have hrun := callInterp_fetchGroupMembers g s
    rw [callInterp] at hrun
    rw [hrun]
    exact Option.some_ne_none _
  | rewrite mode p drop =>
    apply Prog.not_reaches_of_run hfault
    have hrun := callInterp_rewrite mode p drop s
    obtain ⟨ks, hks⟩ := Option.ne_none_iff_exists'.mp
      (keptLines_ne_none fun l hl => ho.2 l (hs.wellFormed p l hl))
    rw [hks, callInterp] at hrun
    rw [hrun]
    exact Option.some_ne_none _

end Ready

/-! ### Handlers keep to that -/

@[simp] lemma putline_inj (l l' : Str) : putline l = putline l' ↔ l = l' := by
  simp [putline]

section Handlers

variable {E : Entities} {hashPassword : Str → Str → Str} {g u f h z p a password port ip : Str}

/-- Every field of the lines of a shared-files file. -/
lemma Entities.LineOk.of_shared {l : Str} (hl : E.LineOk (groupFilesFile g) l) (hg : E.group g)
    {i : ℕ} (hi : i < 4) : (split l ' ')[i]? ≠ none :=
  hl.getElem? (.shared g hg rfl) hi

/-- Every field of the lines of the file of a user. -/
lemma Entities.LineOk.of_files {l : Str} (hl : E.LineOk (userFilesFile u) l) (hu : E.user u)
    {i : ℕ} (hi : i < 3) : (split l ' ')[i]? ≠ none :=
  hl.getElem? (.files u hu rfl) hi

/-- There is always a first field. -/
lemma first_field_ne_none (l : Str) : (split l ' ')[0]? ≠ none := by
  obtain ⟨v, hv⟩ := exists_first_field l ' '
  rw [hv]
  exact Option.some_ne_none v

lemma deleteLine_tidily {q : Path} {x : Str} {i : ℕ} (hq : cStr q ≠ tempFile)
    (hi : ∀ l, E.LineOk q l → (split l ' ')[i]? ≠ none) :
    (deleteLine q x i).Follows E.tidily () fun _ _ => True := by
  have hdrop : ∀ l, E.LineOk q l → fieldIs i x (split l ' ') ≠ none :=
    fun l hl => fieldIs_ne_none (hi l hl)
  simpa [deleteLine, call, Prog.follows_bind, hq] using hdrop

lemma deleteWholeLine_tidily {q : Path} {x : Str} (hq : cStr q ≠ tempFile) :
    (deleteWholeLine q x).Follows E.tidily () fun _ _ => True := by
  simp [deleteWholeLine, call, Prog.follows_bind, hq]

lemma checkGroupFiles_tidily (hg : E.group g) :
    (checkGroupFiles h (groupFilesFile g) u).Follows E.tidily () fun _ _ => True := by
  simp only [checkGroupFiles, call, Prog.follows_bind, Prog.follows_call, Prog.pure_eq,
    Prog.follows_ret, checked_follows, Entities.tidily_allowed, Entities.tidily_admits,
    Entities.May, Entities.Tells, true_and, implies_true, and_true]
  intro s hs _ _ hnone
  refine absurd hnone (findRecord_ne_none fun l hl => ?_)
  exact andThen_ne_none (fieldIs_ne_none ((hs l hl).of_shared hg (by omega)))
    (fieldIs_ne_none ((hs l hl).of_shared hg (by omega)))

/-- The name that is found is a field of a line. -/
lemma getGroupFileName_tidily (hg : E.group g) :
    (getGroupFileName h (groupFilesFile g)).Follows E.tidily () fun name _ => '\n' ∉ name := by
  simp only [getGroupFileName, call, Prog.follows_bind, Prog.follows_call, Prog.pure_eq,
    Prog.follows_ret, checked_follows, Entities.tidily_allowed, Entities.tidily_admits,
    Entities.May, Entities.Tells, true_and]
  intro _ _ s hs
  constructor
  · intro hnone
    refine absurd hnone (findRecord_ne_none fun l hl => ?_)
    exact fieldIs_ne_none ((hs l hl).of_shared hg (by omega))
  · intro found hfound
    cases found with
    | none => simp
    | some v =>
      obtain ⟨l, hl, rfl, -⟩ := findRecord_some hfound
      constructor
      · intro hnone
        exact absurd hnone ((hs l hl).of_shared hg (by omega))
      · intro name hname _ _
        exact not_mem_of_mem_split (List.mem_of_getElem? hname) (not_mem_of_mem_getlines hl)

lemma checkIntegrity_tidily (hg : E.group g) :
    (checkIntegrity h (groupFilesFile g) f).Follows E.tidily () fun _ _ => True := by
  simp only [checkIntegrity, call, Prog.follows_bind, Prog.follows_call, Prog.pure_eq,
    Prog.follows_ret, checked_follows, Entities.tidily_allowed, Entities.tidily_admits,
    Entities.May, Entities.Tells, true_and, implies_true, and_true]
  intro _ _ s hs hnone
  refine absurd hnone (findRecord_ne_none fun l hl => andThen_ne_none ?_ ?_)
  · rw [ne_eq, Option.map_eq_none_iff]
    exact fieldIs_ne_none ((hs l hl).of_shared hg (by omega))
  · exact fieldIs_ne_none ((hs l hl).of_shared hg (by omega))

lemma userLogin_tidily (hu : IsWord u) (hport : IsWord port) (hip : IsWord ip) :
    (userLogin hashPassword u password port ip).Follows E.tidily () fun _ _ => True := by
  have hline : '\n' ∉ fields [u, ip, port] := newline_fields (by simp [hu, hport, hip])
  simp only [userLogin, call, Prog.follows_bind, Prog.follows_call, Prog.follows_ret,
    fetchDetails_follows, Entities.tidily_allowed, Entities.May, true_and]
  intro _ m _
  split
  · trivial
  · simp [Prog.follows_ite, hline, E.lineOk_online]

lemma userCreate_tidily (hu : IsWord u) (hport : IsWord port) (hip : IsWord ip)
    (hhash : ∀ salt, IsWord (hashPassword salt password)) :
    (userCreate hashPassword u password port ip).Follows E.tidily () fun _ _ => True := by
  have hline : '\n' ∉ fields [u, ip, port] := newline_fields (by simp [hu, hport, hip])
  have hcredential : ∀ salt, IsWord salt →
      '\n' ∉ fields [u, salt ++ ':' :: hashPassword salt password] := by
    intro salt hsalt
    refine not_mem_fields (by decide) ?_
    simp [hu.newline, hsalt.newline, (hhash salt).newline]
  simp only [userCreate, call, Prog.follows_bind, Prog.follows_call, Prog.follows_ret,
    fetchDetails_follows, Entities.tidily_allowed, Entities.May, true_and]
  intro _ m _
  split
  · trivial
  · simpa [Prog.follows_bind, hline, E.lineOk_online, E.lineOk_credential] using hcredential

lemma logout_tidily : (logout u).Follows E.tidily () fun _ _ => True := by
  have hdelete := deleteLine_tidily (E := E) (q := onlineFile) (x := u) (i := 0)
    onlineFile_ne_temp fun l _ => first_field_ne_none l
  simp [logout, call, Prog.follows_bind, Prog.follows_ite, hdelete]

lemma groupCreate_tidily (hE : E.Separate) (hgroup : E.group g) (hg : IsWord g) (hu : IsWord u) :
    (groupCreate g u).Follows E.tidily () fun _ _ => True := by
  have hline : '\n' ∉ fields [g, u] := newline_fields (by simp [hg, hu])
  simp only [groupCreate, call, Prog.follows_bind, Prog.follows_call, Prog.follows_ret,
    fetchDetails_follows, Entities.tidily_allowed, Entities.May, true_and]
  intro _ m _
  split
  · trivial
  · simp [Prog.follows_bind, hline, hu.newline, E.lineOk_group, hE.lineOk_members hgroup]

lemma groupJoin_tidily (hg : IsWord g) (hu : IsWord u) :
    (groupJoin g u).Follows E.tidily () fun _ _ => True := by
  have hline : '\n' ∉ fields [u, g] := newline_fields (by simp [hg, hu])
  simp only [groupJoin, call, Prog.follows_bind, Prog.follows_call, Prog.follows_ret,
    Entities.tidily_allowed, Entities.May, true_and]
  intro m _
  split
  · trivial
  · simp [Prog.follows_bind, Prog.follows_ite, hline, E.lineOk_pending]

lemma groupAcceptRequest_tidily (hE : E.Separate) (hgroup : E.group g) (hu : IsWord u) :
    (groupAcceptRequest g u a).Follows E.tidily () fun _ _ => True := by
  have hdelete := deleteWholeLine_tidily (E := E) (q := pendingFile) (x := fields [u, g])
    pendingFile_ne_temp
  simp [groupAcceptRequest, call, Prog.follows_bind, Prog.follows_ite, hdelete, hu.newline,
    hE.lineOk_members hgroup]

lemma groupLeave_tidily (hgroup : E.group g) :
    (groupLeave g u).Follows E.tidily () fun _ _ => True := by
  have h₁ := deleteLine_tidily (E := E) (q := membersFile g) (x := u) (i := 0)
    (membersFile_ne_temp g) fun l _ => first_field_ne_none l
  have h₂ := deleteLine_tidily (E := E) (q := groupFilesFile g) (x := u) (i := 2)
    (groupFilesFile_ne_temp g) fun l hl => hl.of_shared hgroup (by omega)
  have h₃ := deleteLine_tidily (E := E) (q := userFilesFile u) (x := g) (i := 0)
    (userFilesFile_ne_temp u) fun l _ => first_field_ne_none l
  simp only [groupLeave, call, Prog.follows_bind, Prog.follows_call, Prog.follows_ret,
    Entities.tidily_allowed, Entities.May, true_and]
  intro m _
  split
  · trivial
  · simp [Prog.follows_bind, Prog.follows_ite, h₁, h₂, h₃]

lemma groupFileUpload_tidily (hE : E.Separate) (hgroup : E.group g) (huser : E.user u)
    (hh : IsWord h) (hz : IsWord z) (hg : IsWord g) (hu : IsWord u) (hf : IsWord f)
    (hp : IsWord p) : (groupFileUpload h z g u f p).Follows E.tidily () fun _ _ => True := by
  have hrecord : ∀ name, '\n' ∉ name → '\n' ∉ fields [h, z, u, name] := by
    intro name hname
    exact not_mem_fields (by decide) (by simp [hh.newline, hz.newline, hu.newline, hname])
  have hpath : ∀ name, '\n' ∉ name → '\n' ∉ fields [g, name, p] := by
    intro name hname
    exact not_mem_fields (by decide) (by simp [hg.newline, hp.newline, hname])
  simp only [groupFileUpload, call, Prog.follows_bind, Prog.follows_call, Prog.pure_eq,
    Prog.follows_ret, Prog.follows_ite, fetchGroupMembers_follows, Entities.tidily_allowed,
    Entities.tidily_admits, Entities.May, Entities.Tells, true_and, implies_true]
  intro _ _ _ _ _ _ _
  refine (checkGroupFiles_tidily hgroup).mono fun _ _ _ _ => ?_
  refine (getGroupFileName_tidily hgroup).mono fun stored _ hstored => ?_
  refine (checkIntegrity_tidily hgroup).mono fun _ _ _ _ _ _ => ?_
  have hname : '\n' ∉ if stored = [] then f else stored := by
    split_ifs
    · exact hf.newline
    · exact hstored
  simp [hrecord _ hname, hpath _ hname, hE.lineOk_shared hgroup, hE.lineOk_files huser]

lemma groupStopShare_tidily (hgroup : E.group g) (huser : E.user u) :
    (groupStopShare g f u).Follows E.tidily () fun _ _ => True := by
  have hshared : ∀ l, E.LineOk (groupFilesFile g) l →
      andThen (fieldIs 3 f) (fieldIs 2 u) (split l ' ') ≠ none := by
    intro l hl
    exact andThen_ne_none (fieldIs_ne_none (hl.of_shared hgroup (by omega)))
      (fieldIs_ne_none (hl.of_shared hgroup (by omega)))
  have hfiles : ∀ l, E.LineOk (userFilesFile u) l →
      andThen (fieldIs 0 g) (fieldIs 1 f) (split l ' ') ≠ none := by
    intro l hl
    exact andThen_ne_none (fieldIs_ne_none (hl.of_files huser (by omega)))
      (fieldIs_ne_none (hl.of_files huser (by omega)))
  simp only [groupStopShare, call, Prog.follows_bind, Prog.follows_call, Prog.pure_eq,
    Prog.follows_ret, Prog.follows_ite, fetchGroupMembers_follows, rewrite_follows,
    Entities.tidily_allowed, Entities.May, true_and, implies_true, and_true]
  intro _ _ _ _ _ _ _ _ _
  exact ⟨⟨groupFilesFile_ne_temp g, hshared⟩, fun _ => ⟨userFilesFile_ne_temp u, hfiles⟩⟩

lemma sendSHA_tidily (hE : E.Separate) (hgroup : E.group g) (huser : E.user u) (hg : IsWord g)
    (hf : IsWord f) : (sendSHA g f u).Follows E.tidily () fun _ _ => True := by
  have hline : '\n' ∉ fields [g, f] := newline_fields (by simp [hg, hf])
  simp only [sendSHA, call, Prog.follows_bind, Prog.follows_call, Prog.pure_eq, Prog.follows_ret,
    fetchDetails_follows, Entities.tidily_allowed, Entities.May, true_and]
  intro _ m _
  split
  · trivial
  · simp only [Prog.follows_bind, Prog.follows_call, Prog.follows_ret, Prog.follows_ite,
      fetchGroupMembers_follows, checked_follows, Entities.tidily_allowed, Entities.tidily_admits,
      Entities.May, Entities.Tells, true_and, implies_true, and_true]
    intro _ _ _ _ _ _ s hs
    refine ⟨fun hnone => ?_, fun _ _ => ⟨downloadingFile_ne_temp u, ?_⟩⟩
    · refine absurd hnone (mapM_ne_none fun l hl => ?_)
      obtain ⟨name, hname⟩ := Option.ne_none_iff_exists'.mp
        ((hs l hl).of_shared hgroup (show 3 < 4 by omega))
      obtain ⟨hash, hhash⟩ := exists_first_field l ' '
      simp [hname, hhash]
    · exact ⟨_, rfl, hline, hE.lineOk_downloading huser _⟩

lemma updateDownload_tidily (hE : E.Separate) (hgroup : E.group g) (huser : E.user u)
    (hg : IsWord g) (hf : IsWord f) (hp : IsWord p) (hu : IsWord u) :
    (updateDownload g f p u).Follows E.tidily () fun _ _ => True := by
  have hpath : '\n' ∉ fields [g, f, p] := newline_fields (by simp [hg, hf, hp])
  simp only [updateDownload, call, Prog.follows_bind, Prog.follows_call, Prog.follows_ret,
    Prog.follows_ite, fetchDetails_follows, checked_follows,
    Entities.tidily_allowed, Entities.tidily_admits, Entities.May, Entities.Tells, true_and,
    implies_true, and_true]
  intro _ s hs
  refine ⟨fun hnone => ?_, fun found hfound => ?_⟩
  · refine absurd hnone (findRecord_ne_none fun l hl => ?_)
    exact fieldIs_ne_none ((hs l hl).of_shared hgroup (by omega))
  -- a field of the record that is found, or nothing
  have hfield : ∀ i, i < 4 → found.elim (some []) (·[i]?) ≠ none ∧
      ∀ w, found.elim (some []) (·[i]?) = some w → '\n' ∉ w := by
    intro i hi
    cases found with
    | none => simp
    | some v =>
      obtain ⟨l, hl, rfl, -⟩ := findRecord_some hfound
      refine ⟨(hs l hl).of_shared hgroup hi, fun w hw => ?_⟩
      exact not_mem_of_mem_split (List.mem_of_getElem? hw) (not_mem_of_mem_getlines hl)
  refine ⟨fun hnone => absurd hnone (hfield 0 (by omega)).1, fun data hdata => ?_⟩
  refine ⟨fun hnone => absurd hnone (hfield 1 (by omega)).1, fun size hsize s' hs' => ?_⟩
  have hrecord : '\n' ∉ fields [data, size, u, f] := by
    refine not_mem_fields (by decide) ?_
    simp [(hfield 0 (by omega)).2 data hdata, (hfield 1 (by omega)).2 size hsize, hu.newline,
      hf.newline]
  refine ⟨fun hnone => ?_, fun listed _ _ => ⟨⟨userFilesFile_ne_temp u, ?_⟩, fun _ _ =>
    ⟨groupFilesFile_ne_temp g, ?_⟩⟩⟩
  · refine absurd hnone (findRecord_ne_none fun l hl => ?_)
    exact fieldIs_ne_none ((hs' l hl).of_files huser (by omega))
  · exact ⟨_, rfl, hpath, hE.lineOk_files huser _ _ _⟩
  · exact ⟨_, rfl, hrecord, hE.lineOk_shared hgroup _ _ _ _⟩

lemma completeDownload_tidily (hE : E.Separate) (huser : E.user u) (hg : IsWord g)
    (hf : IsWord f) : (completeDownload g f u).Follows E.tidily () fun _ _ => True := by
  have hline : '\n' ∉ fields [g, f] := newline_fields (by simp [hg, hf])
  have hdelete := deleteWholeLine_tidily (E := E) (q := downloadingFile u) (x := fields [g, f])
    (downloadingFile_ne_temp u)
  simp [completeDownload, call, Prog.follows_bind, hline, hE.lineOk_downloaded huser, hdelete]

lemma groupList_tidily : groupList.Follows E.tidily () fun _ _ => True := by
  simp [groupList, call, Prog.follows_bind]

lemma groupRequestList_tidily : (groupRequestList g u).Follows E.tidily () fun _ _ => True := by
  simp only [groupRequestList, call, Prog.follows_bind, Prog.follows_call, Prog.pure_eq,
    Prog.follows_ret, fetchDetails_follows, Entities.tidily_allowed, Entities.May, true_and]
  intro _ m _
  split
  · trivial
  · simp [Prog.follows_ite]

lemma groupFileList_tidily (hgroup : E.group g) :
    (groupFileList g).Follows E.tidily () fun _ _ => True := by
  simp only [groupFileList, call, Prog.follows_bind, Prog.follows_call, Prog.pure_eq,
    Prog.follows_ret, fetchDetails_follows, Entities.tidily_allowed, Entities.May, true_and]
  intro _ m _
  split
  · trivial
  · simp only [Prog.follows_bind, Prog.follows_call, Prog.follows_ret, checked_follows,
      Entities.tidily_allowed, Entities.tidily_admits, Entities.May, Entities.Tells, true_and,
      implies_true, and_true]
    intro _ _ s hs hnone
    exact absurd hnone (mapM_ne_none fun l hl => (hs l hl).of_shared hgroup (by omega))

lemma sendSeeders_tidily (hgroup : E.group g) :
    (sendSeeders g f).Follows E.tidily () fun _ _ => True := by
  simp only [sendSeeders, call, Prog.follows_bind, Prog.follows_call, Prog.pure_eq,
    Prog.follows_ret, fetchDetails_follows, checked_follows, Entities.tidily_allowed,
    Entities.tidily_admits, Entities.May, Entities.Tells, true_and, implies_true, and_true]
  intro _ _ _ s hs _ _ hnone
  refine absurd hnone (mapM_ne_none fun l hl => ?_)
  obtain ⟨name, hname⟩ := Option.ne_none_iff_exists'.mp
    ((hs l hl).of_shared hgroup (show 3 < 4 by omega))
  obtain ⟨size, hsize⟩ := Option.ne_none_iff_exists'.mp
    ((hs l hl).of_shared hgroup (show 1 < 4 by omega))
  obtain ⟨user, huser⟩ := Option.ne_none_iff_exists'.mp
    ((hs l hl).of_shared hgroup (show 2 < 4 by omega))
  simp [hname, hsize, huser]

lemma sendDetails_tidily : (sendDetails u).Follows E.tidily () fun _ _ => True := by
  simp [sendDetails, call, Prog.follows_bind]

lemma getFullPath_tidily (huser : E.user u) :
    (getFullPath u g f).Follows E.tidily () fun _ _ => True := by
  simp only [getFullPath, call, Prog.follows_bind, Prog.follows_call, Prog.follows_ret,
    checked_follows, Entities.tidily_allowed, Entities.tidily_admits, Entities.May,
    Entities.Tells, true_and, implies_true, and_true]
  intro s hs
  refine ⟨fun hnone => ?_, fun found hfound hnone => ?_⟩
  · refine absurd hnone (findRecord_ne_none fun l hl => ?_)
    exact andThen_ne_none (fieldIs_ne_none ((hs l hl).of_files huser (by omega)))
      (fieldIs_ne_none ((hs l hl).of_files huser (by omega)))
  · cases found with
    | none => cases hnone
    | some v =>
      obtain ⟨l, hl, rfl, -⟩ := findRecord_some hfound
      exact absurd hnone ((hs l hl).of_files huser (by omega))

lemma showDownloads_tidily : (showDownloads u).Follows E.tidily () fun _ _ => True := by
  simp [showDownloads, call, Prog.follows_bind]

/-- Every handler keeps to that, for words that name groups and users with files of their own. -/
lemma trackerKernel_tidily {c : Command} (hE : E.Separate) (hc : E.Name c)
    (hwords : ∀ w ∈ c.args, IsWord w) (hhash : ∀ salt p, IsWord (hashPassword salt p)) :
    (trackerKernel hashPassword c).Follows E.tidily () fun _ _ => True := by
  obtain ⟨hgroups, husers⟩ := hc
  have hanswer : ∀ {q : Prog callSig Bool}, q.Follows E.tidily () (fun _ _ => True) →
      (answer q).Follows E.tidily () fun _ _ => True :=
    fun hq => hq.bind fun _ _ _ => trivial
  have hanswerData : ∀ {q : Prog callSig Str}, q.Follows E.tidily () (fun _ _ => True) →
      (answerData q).Follows E.tidily () fun _ _ => True :=
    fun hq => hq.bind fun _ _ _ => trivial
  have hnoAnswer : ∀ {q : Prog callSig Unit}, q.Follows E.tidily () (fun _ _ => True) →
      (noAnswer q).Follows E.tidily () fun _ _ => True :=
    fun hq => hq.bind fun _ _ _ => trivial
  cases c <;> simp only [Command.groups, Command.users, Command.args, List.mem_cons,
    List.not_mem_nil, or_false, forall_eq_or_imp, forall_eq] at hgroups husers hwords
  case login u p port ip =>
    exact hanswer (userLogin_tidily hwords.1 hwords.2.2.1 hwords.2.2.2)
  case createUser u p port ip =>
    exact hanswer (userCreate_tidily hwords.1 hwords.2.2.1 hwords.2.2.2 fun salt => hhash salt p)
  case createGroup g u =>
    exact hanswer (groupCreate_tidily hE hgroups hwords.1 hwords.2)
  case listGroups => exact hanswerData groupList_tidily
  case joinGroup g u => exact hanswer (groupJoin_tidily hwords.1 hwords.2)
  case listRequests g u => exact hanswerData groupRequestList_tidily
  case acceptRequest g u a => exact hanswer (groupAcceptRequest_tidily hE hgroups hwords.2.1)
  case uploadFile h s g u f p =>
    exact hanswer (groupFileUpload_tidily hE hgroups husers hwords.1 hwords.2.1 hwords.2.2.1
      hwords.2.2.2.1 hwords.2.2.2.2.1 hwords.2.2.2.2.2)
  case listFiles g => exact hanswerData (groupFileList_tidily hgroups)
  case stopShare g f u => exact hanswer (groupStopShare_tidily hgroups husers)
  case leaveGroup g u => exact hanswer (groupLeave_tidily hgroups)
  case logout u => exact hanswer logout_tidily
  case giveSha g f u =>
    exact hanswerData (sendSHA_tidily hE hgroups husers hwords.1 hwords.2.1)
  case giveSeeders g f u => exact hanswerData (sendSeeders_tidily hgroups)
  case giveDetails u => exact hanswerData sendDetails_tidily
  case sendFullPath u g f => exact hanswerData (getFullPath_tidily husers)
  case addFile g f p u =>
    exact hnoAnswer (updateDownload_tidily hE hgroups husers hwords.1 hwords.2.1 hwords.2.2.1
      hwords.2.2.2)
  case complete g f p u =>
    exact hnoAnswer (completeDownload_tidily hE husers hwords.1 hwords.2.1)
  case showDownloads u => exact hanswerData showDownloads_tidily

end Handlers

/-! ### Runs -/

section Runs

variable {sha256 : Str → List (Fin 256)} {E : Entities} {C : Tracker → Command → Prop}
  {t t' : Tracker} {c : Command} {reply : Reply} {history : List (Command × Reply)}

lemma Tracker.initial_wellFormed : E.WellFormed Tracker.initial.disk := by
  intro q l hl
  cases hl

/-- A handler starts in such a state. -/
lemma Entities.WellFormed.ready (ht : t.Regular) (h : E.WellFormed t.disk)
    (salt : List (Fin 256)) (online : Bool) : E.Ready ⟨t, generateSalt salt, online, []⟩ :=
  ⟨ht.tidy, h, isWord_hex salt⟩

/-- The step lemma. -/
lemma Entities.WellFormed.step (hE : E.Separate) (hc : E.Name c) (ht : t.Regular)
    (h : E.WellFormed t.disk) (hstep : t.Handles sha256 c reply t') : E.WellFormed t'.disk := by
  obtain ⟨⟨message, hmessage⟩, online, salt, sent, hserve⟩ := hstep
  have hwords := Request.isWord_args hmessage
  simp only [serve, Option.map_eq_some_iff, Prod.mk.injEq] at hserve
  obtain ⟨⟨r, s⟩, hrun, rfl, rfl, -⟩ := hserve
  have hhash : ∀ salt p, IsWord (hashPassword sha256 salt p) :=
    fun salt p => isWord_hex (sha256 (salt ++ p))
  have htidily := trackerKernel_tidily hE hc hwords hhash
  obtain ⟨-, -, hready⟩ := htidily.run (R := fun _ s => E.Ready s) Entities.tidily_step
    (h.ready ht salt online) hrun
  exact hready.wellFormed

/-- The run lemma. -/
lemma TrackerRun.wellFormed (hE : E.Separate) (hC : ∀ t c, C t c → E.Name c)
    (hrun : TrackerRun sha256 C Tracker.initial history t) : E.WellFormed t.disk := by
  induction hrun with
  | start => exact Tracker.initial_wellFormed
  | step hrun hc hhandles ih =>
    exact ih.step hE (hC _ _ hc) (hrun.regular Tracker.initial_regular) hhandles

/-- In a reachable state every line has the fields that are looked at, and no handler comes to an
    access past the end of a record. -/
theorem records_wellFormed (hE : E.Separate)
    (hrun : TrackerRun sha256 (fun _ c => E.Name c) Tracker.initial history t) :
    (∀ l ∈ t.disk.lines onlineFile, 3 ≤ (split l ' ').length) ∧
      (∀ l ∈ t.disk.lines groupFile, 2 ≤ (split l ' ').length) ∧
      (∀ g, E.group g → ∀ l ∈ t.disk.lines (groupFilesFile g), 4 ≤ (split l ' ').length) ∧
      (∀ u, E.user u → ∀ l ∈ t.disk.lines (userFilesFile u), 3 ≤ (split l ' ').length) ∧
      ∀ message c online salt, Request.parse message = .client c → E.Name c →
        ¬ (handler (hashPassword sha256) c).Reaches primInterp isFault
          ⟨t, generateSalt salt, online, []⟩ := by
  have hwell := hrun.wellFormed hE fun _ _ hc => hc
  refine ⟨?_, ?_, ?_, ?_, ?_⟩
  · intro l hl
    exact hwell onlineFile l hl 3 (.online rfl)
  · intro l hl
    exact hwell groupFile l hl 2 (.group rfl)
  · intro g hg l hl
    exact hwell (groupFilesFile g) l hl 4 (.shared g hg rfl)
  · intro u hu l hl
    exact hwell (userFilesFile u) l hl 3 (.files u hu rfl)
  · intro message c online salt hmessage hc
    have hwords := Request.isWord_args hmessage
    have hhash : ∀ salt p, IsWord (hashPassword sha256 salt p) :=
      fun salt p => isWord_hex (sha256 (salt ++ p))
    have htidily := trackerKernel_tidily hE hc hwords hhash
    rw [handler, Prog.reaches_inline]
    exact htidily.not_reaches (R := fun _ s => E.Ready s) Entities.tidily_step
      Entities.tidily_not_fault
      (hwell.ready (hrun.regular Tracker.initial_regular) salt online)

end Runs

/-- One group and two users. -/
def oneGroup : Entities := ⟨(· = "g".toList), (· ∈ ["o".toList, "u".toList])⟩

instance : DecidablePred oneGroup.group := fun g => inferInstanceAs (Decidable (g = "g".toList))

instance : DecidablePred oneGroup.user :=
  fun u => inferInstanceAs (Decidable (u ∈ ["o".toList, "u".toList]))

instance (c : Command) : Decidable (oneGroup.Name c) :=
  inferInstanceAs (Decidable ((∀ g ∈ c.groups, oneGroup.group g) ∧
    ∀ u ∈ c.users, oneGroup.user u))

lemma oneGroup_separate : oneGroup.Separate := by
  have husers : ∀ u, oneGroup.user u → u = "o".toList ∨ u = "u".toList := by
    intro u hu
    simpa [oneGroup] using hu
  apply Entities.separate_of_apart
  · rintro g rfl
    decide
  · intro u hu
    rcases husers u hu with rfl | rfl <;> decide
  · rintro g h rfl rfl
    decide
  · intro u v hu hv
    rcases husers u hu with rfl | rfl <;> rcases husers v hv with rfl | rfl <;> decide
  · intro u v hu hv
    rcases husers u hu with rfl | rfl <;> rcases husers v hv with rfl | rfl <;> decide

theorem records_wellFormed_oneGroup : ∃ t : Tracker,
    "h 1 o f".toList ∈ t.disk.lines (groupFilesFile "g".toList) ∧
      (∀ l ∈ t.disk.lines (groupFilesFile "g".toList), 4 ≤ (split l ' ').length) ∧
      ¬ (handler (hashPassword fun _ => zerosDigest) (.listFiles "g".toList)).Reaches primInterp
        isFault ⟨t, generateSalt [], false, []⟩ := by
  let messages := ["create_group g o".toList, "upload_file h 1 g o f /f".toList]
  let process := Tracker.process (fun _ => zerosDigest) [] (fun _ c => decide (oneGroup.Name c))
    messages ([], .initial)
  have hprocess : (process.any fun r =>
      decide ("h 1 o f".toList ∈ r.2.disk.lines (groupFilesFile "g".toList))) = true := by
    decide +kernel
  obtain ⟨⟨history, t⟩, hrun, hend⟩ := (Option.any_eq_true _ _).mp hprocess
  rw [decide_eq_true_eq] at hend
  have hrun' := Tracker.process_run (C := fun _ c => oneGroup.Name c)
    (fun _ _ hc => of_decide_eq_true hc) .start hrun
  obtain ⟨-, -, hshared, -, hfault⟩ := records_wellFormed oneGroup_separate hrun'
  exact ⟨t, hend, hshared _ rfl,
    hfault "list_files g".toList (.listFiles "g".toList) false [] rfl (by decide)⟩

end TorrentShare
