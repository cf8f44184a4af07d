import TorrentShare.Tracker.Sharing
import TorrentShare.Tracker.WellFormed

/-!
# The two indexes of shared files

Who shares what in a group is recorded twice: under the group, with the hash and the size, and
under the user, with the path. Every command changes both in the same way.
-/

namespace TorrentShare

open Program

/-! ### Accounts stay -/

lemma lookup_foldl_tableSet {es t : List (Str × Str)} {k : Str} (h : t.lookup k ≠ none) :
    (es.foldl (fun t e => tableSet e.1 e.2 t) t).lookup k ≠ none := by
  induction es generalizing t with
  | nil => exact h
  | cons e es ih =>
    apply ih
    rw [lookup_tableSet]
    split_ifs
    · exact Option.some_ne_none e.2
    · exact h

section Step

variable {sha256 : Str → List (Fin 256)} {salt : Str} {t t' : Tracker} {c : Command}
  {reply : Reply} {es : List (Edit Path Str)}

/-- Users that are registered stay. -/
lemma Tracker.Step.credential_ne_none (h : t.Step sha256 salt c reply es t') {u : Str}
    (hu : t.disk.credential u ≠ none) : t'.disk.credential u ≠ none := by
  have hedited := h.edited
  cases h.effect with
  | createUser v p port ip hnew =>
    have hlines : t'.disk.lines credentialFile = t.disk.lines credentialFile ++
        [fields [v, salt ++ [':'] ++ hashPassword sha256 salt p]] := by
      refine hedited.lines_of_one (b := [addLine onlineFile (fields [v, ip, port])])
        (by decide) rfl ?_ ?_
      · simp only [List.mem_singleton, forall_eq]
        exact cStr_ne_of_kind (by decide)
      · intro e he hk
        have hkind := congrArg kindOf hk
        simp only [List.mem_cons, List.not_mem_nil, or_false] at he
        rcases he with rfl | rfl | rfl <;> simp at hkind
    rw [Disk.credential, credentialsOf, hlines, readPairs_append, List.foldl_append]
    exact lookup_foldl_tableSet hu
  | _ =>
    rw [Disk.credential, hedited.lines_of_kind]
    · exact hu
    · simp

end Step

/-! ### Pairs of fields -/

/-- The user shares the file in the group, says the file of the group. -/
def Disk.Shared (d : Disk) (g u f : Str) : Prop := HasPair 2 3 u f (d.lines (groupFilesFile g))

/-- The user shares the file in the group, says the file of the user. -/
def Disk.Listed (d : Disk) (g u f : Str) : Prop := HasPair 0 1 g f (d.lines (userFilesFile u))

/-! ### State files that can be opened -/

lemma openable_groupFilesFile {g : Str} (hg : '/' ∉ g) :
    openable (cStr (groupFilesFile g)) = true := by
  have hname : '/' ∉ cStr (g ++ "_files.txt".toList) := slash_not_mem_cStr (by simp [hg])
  rw [cStr_groupFilesFile, List.append_assoc]
  refine (openable_cons_cons (by decide)).mpr (?_ : '/' ∉ "group_".toList ++ _)
  exact List.not_mem_append (by decide) hname

lemma openable_userFilesFile {u : Str} (hu : '/' ∉ u) :
    openable (cStr (userFilesFile u)) = true := by
  have hname : '/' ∉ cStr (u ++ ".txt".toList) := slash_not_mem_cStr (by simp [hu])
  rw [cStr_userFilesFile, List.append_assoc]
  refine (openable_cons_cons (by decide)).mpr (?_ : '/' ∉ "files_".toList ++ _)
  exact List.not_mem_append (by decide) hname

/-! ### The changes of both indexes -/

/-- What both indexes rely on: commands name entities, users that share files are registered, and
    downloads end in groups that are there. -/
def Entities.Proper (E : Entities) (t : Tracker) (c : Command) : Prop :=
  E.Name c ∧ match c with
    | .uploadFile _ _ _ u _ _ => t.disk.credential u ≠ none
    | .addFile g _ _ u => t.disk.credential u ≠ none ∧ t.disk.owner g ≠ none
    | _ => True

/-- No slash in the names, and so every state file can be opened. -/
def Entities.Openable (E : Entities) : Prop :=
  (∀ g, E.group g → '/' ∉ g) ∧ ∀ u, E.user u → '/' ∉ u

/-- The two indexes agree, and shared files are those of registered users in groups that are
    there. -/
structure Entities.Agree (E : Entities) (d : Disk) : Prop where
  known : ∀ g, E.group g → ∀ l ∈ d.lines (groupFilesFile g), ∀ u, (split l ' ')[2]? = some u →
    E.user u ∧ d.owner g ≠ none ∧ d.credential u ≠ none
  agree : ∀ g u f, E.group g → E.user u → (d.Shared g u f ↔ d.Listed g u f)

section Changes

variable {E : Entities} {d d' : Disk} {g u f : Str}

lemma Entities.Separate.path_ne (hE : E.Separate) {a b : StateFile} (ha : a.of E) (hb : b.of E)
    (hab : a ≠ b) : cStr a.path ≠ cStr b.path :=
  fun h => hab (hE a b ha hb h)

/-- One edit of a file of one kind. -/
lemma Entities.Separate.lines_one {F : Str → StateFile} {P : Str → Prop}
    {b a : List (Edit Path Str)} {e : Edit Path Str} {x : Str} (hE : E.Separate)
    (hof : ∀ y, P y → (F y).of E) (hinj : F.Injective)
    (hopen : ∀ y, P y → openable (cStr (F y).path) = true) (hx : P x)
    (h : d.Edited (b ++ e :: a) d') (he : e.key = cStr (F x).path)
    (hother : ∀ e' ∈ b ++ a, ∀ y, P y → cStr (F y).path ≠ e'.key) :
    ∀ y, P y → d'.lines (F y).path =
      if y = x then e.after (d.lines (F y).path) else d.lines (F y).path := by
  intro y hy
  by_cases hyx : y = x
  · subst hyx
    rw [if_pos rfl]
    exact h.lines_of_one (hopen y hy) he (fun e' he' => hother e' (List.mem_append_left _ he') y hy)
      (fun e' he' => hother e' (List.mem_append_right _ he') y hy)
  · rw [if_neg hyx]
    apply h.lines_of_ne
    intro e' he'
    rcases List.mem_append.mp he' with he' | he'
    · exact hother e' (List.mem_append_left _ he') y hy
    · rcases List.mem_cons.mp he' with rfl | he'
      · rw [he]
        exact hE.path_ne (hof y hy) (hof x hx) fun hF => hyx (hinj hF)
      · exact hother e' (List.mem_append_right _ he') y hy

/-- One edit of a shared-files file. -/
lemma Entities.Separate.lines_shared {b a : List (Edit Path Str)} {e : Edit Path Str}
    (hE : E.Separate) (hopen : E.Openable) (hg : E.group g) (h : d.Edited (b ++ e :: a) d')
    (he : e.key = cStr (groupFilesFile g))
    (hother : ∀ e' ∈ b ++ a, ∀ k, E.group k → cStr (groupFilesFile k) ≠ e'.key) :
    ∀ k, E.group k → d'.lines (groupFilesFile k) =
      if k = g then e.after (d.lines (groupFilesFile k)) else d.lines (groupFilesFile k) :=
  hE.lines_one (F := .shared) (fun _ hk => hk) (fun _ _ => StateFile.shared.inj)
    (fun k hk => openable_groupFilesFile (hopen.1 k hk)) hg h he hother

/-- One edit of the file of a user. -/
lemma Entities.Separate.lines_files {b a : List (Edit Path Str)} {e : Edit Path Str}
    (hE : E.Separate) (hopen : E.Openable) (hu : E.user u) (h : d.Edited (b ++ e :: a) d')
    (he : e.key = cStr (userFilesFile u))
    (hother : ∀ e' ∈ b ++ a, ∀ v, E.user v → cStr (userFilesFile v) ≠ e'.key) :
    ∀ v, E.user v → d'.lines (userFilesFile v) =
      if v = u then e.after (d.lines (userFilesFile v)) else d.lines (userFilesFile v) :=
  hE.lines_one (F := .files) (fun _ hv => hv) (fun _ _ => StateFile.files.inj)
    (fun v hv => openable_userFilesFile (hopen.2 v hv)) hu h he hother

/-- One edit of a shared-files file and one of the file of a user, in either order, after edits of
    lists of members. -/
lemma Entities.Separate.lines_both {b es : List (Edit Path Str)} {e₁ e₂ : Edit Path Str}
    (hE : E.Separate) (hopen : E.Openable) (hg : E.group g) (hu : E.user u) (h : d.Edited es d')
    (hes : es = b ++ [e₁, e₂] ∨ es = b ++ [e₂, e₁])
    (he₁ : e₁.key = cStr (groupFilesFile g)) (he₂ : e₂.key = cStr (userFilesFile u))
    (hb : ∀ e ∈ b, ∃ k, E.group k ∧ e.key = cStr (membersFile k)) :
    (∀ k, E.group k → d'.lines (groupFilesFile k) =
      if k = g then e₁.after (d.lines (groupFilesFile k)) else d.lines (groupFilesFile k)) ∧
    ∀ v, E.user v → d'.lines (userFilesFile v) =
      if v = u then e₂.after (d.lines (userFilesFile v)) else d.lines (userFilesFile v) := by
  have hshared : ∀ e ∈ b ++ [e₂], ∀ k, E.group k → cStr (groupFilesFile k) ≠ e.key := by
    intro e he k hk
    rcases List.mem_append.mp he with he | he
    · obtain ⟨k', hk', hkey⟩ := hb e he
      rw [hkey]
      exact hE.path_ne (a := .shared k) (b := .members k') hk hk' (by simp)
    · rw [List.mem_singleton.mp he, he₂]
      exact hE.path_ne (a := .shared k) (b := .files u) hk hu (by simp)
  have hfiles : ∀ e ∈ b ++ [e₁], ∀ v, E.user v → cStr (userFilesFile v) ≠ e.key := by
    intro e he v hv
    rcases List.mem_append.mp he with he | he
    · obtain ⟨k', hk', hkey⟩ := hb e he
      rw [hkey]
      exact hE.path_ne (a := .files v) (b := .members k') hv hk' (by simp)
    · rw [List.mem_singleton.mp he, he₁]
      exact hE.path_ne (a := .files v) (b := .shared g) hv hg (by simp)
  have hsplit : ∀ x y : Edit Path Str, b ++ [x, y] = (b ++ [x]) ++ y :: [] := by simp
  rcases hes with rfl | rfl
  · refine ⟨hE.lines_shared hopen hg h he₁ hshared, ?_⟩
    rw [hsplit] at h
    exact hE.lines_files hopen hu h he₂ (by simpa using hfiles)
  · refine ⟨?_, hE.lines_files hopen hu h he₂ hfiles⟩
    rw [hsplit] at h
    exact hE.lines_shared hopen hg h he₁ (by simpa using hshared)

/-- A line for the pair is added to both files. -/
lemma Entities.Agree.grow {record path : Str} (h : E.Agree d)
    (hshared : ∀ k, E.group k → d'.lines (groupFilesFile k) =
      if k = g then d.lines (groupFilesFile k) ++ [record] else d.lines (groupFilesFile k))
    (hlisted : ∀ v, E.user v → d'.lines (userFilesFile v) =
      if v = u then d.lines (userFilesFile v) ++ [path] else d.lines (userFilesFile v))
    (hrecord : (split record ' ')[2]? = some u ∧ (split record ' ')[3]? = some f)
    (hpath : (split path ' ')[0]? = some g ∧ (split path ' ')[1]? = some f)
    {k v n : Str} (hk : E.group k) (hv : E.user v) : d'.Shared k v n ↔ d'.Listed k v n := by
  have hold := h.agree k v n hk hv
  rw [Disk.Shared, Disk.Listed] at hold ⊢
  rw [hshared k hk, hlisted v hv]
  by_cases hkg : k = g
  · subst hkg
    by_cases hvu : v = u
    · subst hvu
      simp [hasPair_append, hold, hrecord, hpath]
    · simp [hasPair_append, hold, hrecord, hvu, Ne.symm hvu]
  · by_cases hvu : v = u
    · subst hvu
      simp [hasPair_append, hold, hpath, hkg, Ne.symm hkg]
    · simp [hold, hkg, hvu]

/-- The lines for the same pairs are dropped from both files. -/
lemma Entities.Agree.shrink {test test' : Str → Bool} {P : Str → Prop} (h : E.Agree d)
    (hshared : ∀ k, E.group k → d'.lines (groupFilesFile k) =
      if k = g then (d.lines (groupFilesFile k)).filter (!test ·) else d.lines (groupFilesFile k))
    (hlisted : ∀ v, E.user v → d'.lines (userFilesFile v) =
      if v = u then (d.lines (userFilesFile v)).filter (!test' ·) else d.lines (userFilesFile v))
    (htest : ∀ v n l, (split l ' ')[2]? = some v → (split l ' ')[3]? = some n →
      (test l = true ↔ v = u ∧ P n))
    (htest' : ∀ k n l, (split l ' ')[0]? = some k → (split l ' ')[1]? = some n →
      (test' l = true ↔ k = g ∧ P n))
    {k v n : Str} (hk : E.group k) (hv : E.user v) : d'.Shared k v n ↔ d'.Listed k v n := by
  have hold := h.agree k v n hk hv
  rw [Disk.Shared, Disk.Listed] at hold ⊢
  rw [hshared k hk, hlisted v hv]
  by_cases hkg : k = g
  · subst hkg
    by_cases hvu : v = u
    · subst hvu
      simp [hasPair_filter (htest v n), hasPair_filter (htest' k n), hold]
    · simp [hasPair_filter (htest v n), hold, hvu]
  · by_cases hvu : v = u
    · subst hvu
      simp [hasPair_filter (htest' k n), hold, hkg]
    · simp [hold, hkg, hvu]

/-- The file of a group, or of a user, without shared files is emptied. -/
lemma Entities.Agree.reset (h : E.Agree d)
    (hshared : ∀ k, E.group k → d'.lines (groupFilesFile k) = d.lines (groupFilesFile k) ∨
      d'.lines (groupFilesFile k) = [] ∧ ∀ v n, E.user v → ¬ d.Shared k v n)
    (hlisted : ∀ v, E.user v → d'.lines (userFilesFile v) = d.lines (userFilesFile v) ∨
      d'.lines (userFilesFile v) = [] ∧ ∀ k n, E.group k → ¬ d.Shared k v n)
    {k v n : Str} (hk : E.group k) (hv : E.user v) : d'.Shared k v n ↔ d'.Listed k v n := by
  have hold := h.agree k v n hk hv
  have hnone : ∀ i j x y, ¬ HasPair i j x y [] := by
    rintro i j x y ⟨l, hl, -⟩
    cases hl
  have hshared' : d'.Shared k v n ↔ d.Shared k v n := by
    rcases hshared k hk with hlines | ⟨hlines, hshare⟩
    · rw [Disk.Shared, Disk.Shared, hlines]
    · rw [Disk.Shared, hlines]
      exact iff_of_false (hnone _ _ _ _) (hshare v n hv)
  have hlisted' : d'.Listed k v n ↔ d.Listed k v n := by
    rcases hlisted v hv with hlines | ⟨hlines, hshare⟩
    · rw [Disk.Listed, Disk.Listed, hlines]
    · rw [Disk.Listed, hlines]
      exact iff_of_false (hnone _ _ _ _) fun hl => hshare k n hk (hold.mpr hl)
  rw [hshared', hlisted', hold]

/-- A group that is created has no shared files yet. -/
lemma Entities.Agree.newGroup {record : Str} {members : List Str} (hE : E.Separate)
    (hopen : E.Openable) (h : E.Agree d) (hg : E.group g) (hnew : d.owner g = none)
    (hedited : d.Edited [addLine groupFile record, setLines (membersFile g) members,
      setLines (groupFilesFile g) []] d')
    {k v n : Str} (hk : E.group k) (hv : E.user v) : d'.Shared k v n ↔ d'.Listed k v n := by
  refine h.reset (fun k hk => ?_) (fun v hv => Or.inl (hedited.lines_of_kind (by simp))) hk hv
  have hother : ∀ e ∈ [addLine groupFile record, setLines (membersFile g) members] ++ [],
      ∀ k, E.group k → cStr (groupFilesFile k) ≠ e.key := by
    simp only [List.append_nil, List.mem_cons, List.not_mem_nil, or_false, forall_eq_or_imp,
      forall_eq]
    exact ⟨fun k hk => cStr_ne_of_kind (by simp),
      fun k hk => hE.path_ne (a := .shared k) (b := .members g) hk hg (by simp)⟩
  have hlines := hE.lines_shared hopen hg hedited rfl hother k hk
  by_cases hkg : k = g
  · rw [if_pos hkg] at hlines
    refine Or.inr ⟨hlines, ?_⟩
    rintro v n hv ⟨l, hl, huser, -⟩
    subst hkg
    exact (h.known k hk l hl v huser).2.1 hnew
  · rw [if_neg hkg] at hlines
    exact Or.inl hlines

/-- A user who registers shares nothing yet. -/
lemma Entities.Agree.newUser {record credential : Str} (hE : E.Separate) (hopen : E.Openable)
    (h : E.Agree d) (hu : E.user u) (hnew : d.credential u = none)
    (hedited : d.Edited [addLine onlineFile record, addLine credentialFile credential,
      setLines (userFilesFile u) [], setLines (downloadingFile u) [],
      setLines (downloadedFile u) []] d')
    {k v n : Str} (hk : E.group k) (hv : E.user v) : d'.Shared k v n ↔ d'.Listed k v n := by
  refine h.reset (fun k hk => Or.inl (hedited.lines_of_kind (by simp))) (fun v hv => ?_) hk hv
  have hother : ∀ e ∈ [addLine onlineFile record, addLine credentialFile credential] ++
      [setLines (downloadingFile u) [], setLines (downloadedFile u) []],
      ∀ v, E.user v → cStr (userFilesFile v) ≠ e.key := by
    simp only [List.cons_append, List.nil_append, List.mem_cons, List.not_mem_nil, or_false,
      forall_eq_or_imp, forall_eq]
    exact ⟨fun v hv => cStr_ne_of_kind (by simp), fun v hv => cStr_ne_of_kind (by simp),
      fun v hv => hE.path_ne (a := .files v) (b := .downloading u) hv hu (by simp),
      fun v hv => hE.path_ne (a := .files v) (b := .downloaded u) hv hu (by simp)⟩
  have hlines := hE.lines_files hopen hu hedited rfl hother v hv
  by_cases hvu : v = u
  · rw [if_pos hvu] at hlines
    refine Or.inr ⟨hlines, ?_⟩
    rintro k n hk ⟨l, hl, huser, -⟩
    subst hvu
    exact (h.known k hk l hl v huser).2.2 hnew
  · rw [if_neg hvu] at hlines
    exact Or.inl hlines

end Changes

section Step

variable {sha256 : Str → List (Fin 256)} {salt : Str} {t t' : Tracker} {c : Command}
  {reply : Reply} {es : List (Edit Path Str)} {E : Entities}

/-- Users in the records of groups are registered. -/
lemma Entities.Agree.known_step (hE : E.Separate) (ht : t.Regular)
    (h : t.Step sha256 salt c reply es t') (hc : E.Proper t c) (hold : E.Agree t.disk) {g l u : Str}
    (hg : E.group g) (hl : l ∈ t'.disk.lines (groupFilesFile g))
    (hu : (split l ' ')[2]? = some u) :
    E.user u ∧ t'.disk.owner g ≠ none ∧ t'.disk.credential u ≠ none := by
  have hbefore : E.user u ∧ t.disk.owner g ≠ none ∧ t.disk.credential u ≠ none := by
    rcases h.of_mem_ofGroup (kindOf_groupFilesFile g) hl with hbefore | ⟨p, hp, hadds⟩
    · exact hold.known g hg l hbefore u hu
    obtain ⟨⟨hgroups, husers⟩, hproper⟩ := hc
    have hsame : ∀ k, k ∈ c.groups → p = groupFilesFile k → k = g := by
      rintro k hk rfl
      exact (StateFile.shared.inj (hE (.shared k) (.shared g) (hgroups k hk) hg hp))
    have hword : ' ' ∉ l → False := by
      intro hl
      rw [split_word hl] at hu
      cases hu
    cases hadds with
    | founder k v => exact (hword (h.words l (by simp [Command.args])).blank).elim
    | accepted k v => exact (hword (h.words l (by simp [Command.args])).blank).elim
    | upload hash size k v f path hgroup hmember =>
      have hrecord := isRecord_fields (h.words hash (by simp [Command.args])).blank
        (h.words size (by simp [Command.args])).blank (h.words v (by simp [Command.args])).blank
        (blank_storedName (h := hash) (h.words f (by simp [Command.args])).blank
          (t.disk.lines (groupFilesFile k)))
      rw [hrecord.user, Option.some.injEq] at hu
      subst hu
      obtain rfl := hsame k (by simp [Command.groups]) rfl
      exact ⟨husers v (by simp [Command.users]), ht.exists_of_cached hgroup, hproper⟩
    | download k f path v =>
      have hrecord := isRecord_fields (blank_fieldOr (t.disk.lines (groupFilesFile k)) 3 0 f)
        (blank_fieldOr (t.disk.lines (groupFilesFile k)) 3 1 f)
        (h.words v (by simp [Command.args])).blank (h.words f (by simp [Command.args])).blank
      rw [hrecord.user, Option.some.injEq] at hu
      subst hu
      obtain rfl := hsame k (by simp [Command.groups]) rfl
      exact ⟨husers v (by simp [Command.users]), hproper.2, hproper.1⟩
  obtain ⟨huser, howner, hcredential⟩ := hbefore
  exact ⟨huser, h.owner_ne_none_of howner, h.credential_ne_none hcredential⟩

/-- The step lemma. -/
lemma Entities.Agree.step (hE : E.Separate) (hopen : E.Openable) (ht : t.Regular)
    (h : t.Step sha256 salt c reply es t') (hc : E.Proper t c) (hold : E.Agree t.disk) :
    E.Agree t'.disk := by
  refine ⟨fun g hg l hl u hu => hold.known_step hE ht h hc hg hl hu, fun k v n hk hv => ?_⟩
  obtain ⟨⟨hgroups, husers⟩, -⟩ := hc
  have hwords := h.words
  have hedited := h.edited
  cases h.effect with
  | uploadFile hash size g u f p hgroup hmember hclash =>
    have hg : E.group g := hgroups g (by simp [Command.groups])
    have hu : E.user u := husers u (by simp [Command.users])
    have hname := blank_storedName (h := hash) (hwords f (by simp [Command.args])).blank
      (t.disk.lines (groupFilesFile g))
    have hrecord := isRecord_fields (hwords hash (by simp [Command.args])).blank
      (hwords size (by simp [Command.args])).blank (hwords u (by simp [Command.args])).blank hname
    have hpath : split (fields [g, storedName hash f (t.disk.lines (groupFilesFile g)), p]) ' ' =
        [g, storedName hash f (t.disk.lines (groupFilesFile g)), p] := by
      refine split_fields (by simp) ?_
      simp [(hwords g (by simp [Command.args])).blank, (hwords p (by simp [Command.args])).blank,
        hname]
    obtain ⟨hshared, hlisted⟩ := hE.lines_both (b := []) hopen hg hu hedited (Or.inl rfl) rfl rfl
      (List.forall_mem_nil _)
    exact hold.grow hshared hlisted ⟨hrecord.user, hrecord.name⟩ (by rw [hpath]; exact ⟨rfl, rfl⟩)
      hk hv
  | addFile g f p u hnew =>
    have hg : E.group g := hgroups g (by simp [Command.groups])
    have hu : E.user u := husers u (by simp [Command.users])
    have hrecord := isRecord_fields (blank_fieldOr (t.disk.lines (groupFilesFile g)) 3 0 f)
      (blank_fieldOr (t.disk.lines (groupFilesFile g)) 3 1 f)
      (hwords u (by simp [Command.args])).blank (hwords f (by simp [Command.args])).blank
    have hpath : split (fields [g, f, p]) ' ' = [g, f, p] := by
      refine split_fields (by simp) ?_
      simp [(hwords g (by simp [Command.args])).blank, (hwords p (by simp [Command.args])).blank,
        (hwords f (by simp [Command.args])).blank]
    obtain ⟨hshared, hlisted⟩ := hE.lines_both (b := []) hopen hg hu hedited (Or.inr rfl) rfl rfl
      (List.forall_mem_nil _)
    exact hold.grow hshared hlisted ⟨hrecord.user, hrecord.name⟩ (by rw [hpath]; exact ⟨rfl, rfl⟩)
      hk hv
  | stopShare g f u hgroup =>
    have hg : E.group g := hgroups g (by simp [Command.groups])
    have hu : E.user u := husers u (by simp [Command.users])
    obtain ⟨hshared, hlisted⟩ := hE.lines_both (b := []) hopen hg hu hedited (Or.inl rfl) rfl rfl
      (List.forall_mem_nil _)
    refine hold.shrink (P := (· = f)) hshared hlisted ?_ ?_ hk hv
    · intro v n l hv hn
      simp [hv, hn, and_comm]
    · intro k n l hk hn
      simp [hk, hn]
  | leaveGroup g u hgroup =>
    have hg : E.group g := hgroups g (by simp [Command.groups])
    have hu : E.user u := husers u (by simp [Command.users])
    have hmembers : ∀ e ∈ [dropLines (membersFile g) (hasField 0 u)],
        ∃ k, E.group k ∧ e.key = cStr (membersFile k) :=
      List.forall_mem_singleton.mpr ⟨g, hg, rfl⟩
    obtain ⟨hshared, hlisted⟩ := hE.lines_both hopen hg hu hedited (Or.inl rfl) rfl rfl hmembers
    refine hold.shrink (P := fun _ => True) hshared hlisted ?_ ?_ hk hv
    · intro v n l hv hn
      simp [hv]
    · intro k n l hk hn
      simp [hk]
  | createGroup g u hnew =>
    exact hold.newGroup hE hopen (hgroups g (by simp [Command.groups])) hnew hedited hk hv
  | createUser u p port ip hnew =>
    exact hold.newUser hE hopen (husers u (by simp [Command.users])) hnew hedited hk hv
  | acceptRequest g u a hgroup hmember =>
    have hg : E.group g := hgroups g (by simp [Command.groups])
    refine hold.reset (fun k hk => Or.inl (hedited.lines_of_ne ?_))
      (fun v hv => Or.inl (hedited.lines_of_kind (by simp))) hk hv
    simp only [List.mem_cons, List.not_mem_nil, or_false, forall_eq_or_imp, forall_eq]
    constructor
    · exact hE.path_ne (a := .shared k) (b := .members g) hk hg (by simp)
    · exact cStr_ne_of_kind (by simp)
  | giveSha g f u r =>
    have hu : E.user u := husers u (by simp [Command.users])
    refine hold.reset (fun k hk => Or.inl (hedited.lines_of_kind (by simp)))
      (fun v hv => Or.inl (hedited.lines_of_ne ?_)) hk hv
    simp only [List.mem_singleton, forall_eq]
    exact hE.path_ne (a := .files v) (b := .downloading u) hv hu (by simp)
  | complete g f p u =>
    have hu : E.user u := husers u (by simp [Command.users])
    refine hold.reset (fun k hk => Or.inl (hedited.lines_of_kind (by simp)))
      (fun v hv => Or.inl (hedited.lines_of_ne ?_)) hk hv
    simp only [List.mem_cons, List.not_mem_nil, or_false, forall_eq_or_imp, forall_eq]
    constructor
    · exact hE.path_ne (a := .files v) (b := .downloading u) hv hu (by simp)
    · exact hE.path_ne (a := .files v) (b := .downloaded u) hv hu (by simp)
  | _ =>
    refine hold.reset (fun k hk => Or.inl (hedited.lines_of_kind (by simp)))
      (fun v hv => Or.inl (hedited.lines_of_kind (by simp))) hk hv

end Step

/-! ### Runs -/

section Runs

variable {sha256 : Str → List (Fin 256)} {E : Entities} {t : Tracker}
  {history : List (Command × Reply)}

lemma TrackerRun.agree (hE : E.Separate) (hopen : E.Openable)
    (hrun : TrackerRun sha256 E.Proper Tracker.initial history t) : E.Agree t.disk := by
  refine (hrun.invariant (I := fun _ t => E.Agree t.disk) Tracker.initial_regular ?_ ?_).2
  · constructor
    · intro g hg l hl
      cases hl
    · intro g u f hg hu
      constructor
      · rintro ⟨l, hl, -⟩
        cases hl
      · rintro ⟨l, hl, -⟩
        cases hl
  · intro _ _ _ _ _ _ _ _ hregular hold hc hstep
    exact hold.step hE hopen hregular hstep hc

/-- A path is always found where every record has one. -/
lemma Entities.WellFormed.run_getFullPath {s : Session} (h : E.WellFormed s.disk) {g f u : Str}
    (hu : E.user u) : ∃ path, (getFullPath u g f).run callInterp s = some (path, s) := by
  have hread : getlines ((s.disk.read (userFilesFile u)).getD []) =
      s.disk.lines (userFilesFile u) := rfl
  have hline : ∀ l ∈ s.disk.lines (userFilesFile u), ∀ i < 3, (split l ' ')[i]? ≠ none :=
    fun l hl i hi => (h (userFilesFile u) l hl).of_files hu hi
  have hfind : findRecord (andThen (fieldIs 0 g) (fieldIs 1 f))
      (s.disk.lines (userFilesFile u)) ≠ none := by
    apply findRecord_ne_none
    intro l hl
    exact andThen_ne_none (fieldIs_ne_none (hline l hl 0 (by omega)))
      (fieldIs_ne_none (hline l hl 1 (by omega)))
  obtain ⟨found, hfound⟩ := Option.ne_none_iff_exists'.mp hfind
  have hpath : found.elim (some []) (·[2]?) ≠ none := by
    cases found with
    | none => exact Option.some_ne_none []
    | some v =>
      obtain ⟨l, hl, rfl, -⟩ := findRecord_some hfound
      exact hline l hl 2 (by omega)
  obtain ⟨path, hpath⟩ := Option.ne_none_iff_exists'.mp hpath
  refine ⟨path, ?_⟩
  rw [getFullPath, run_read_bind, hread, run_checked_bind, hfound, Option.bind_some, hpath]
  rfl

end Runs

instance (t : Tracker) (c : Command) : Decidable (oneGroup.Proper t c) :=
  match c with
  | .uploadFile .. => inferInstanceAs (Decidable (_ ∧ _ ≠ _))
  | .addFile .. => inferInstanceAs (Decidable (_ ∧ _ ∧ _))
  | .login .. | .createUser .. | .createGroup .. | .listGroups | .joinGroup ..
  | .listRequests .. | .acceptRequest .. | .listFiles .. | .stopShare .. | .leaveGroup ..
  | .logout .. | .giveSha .. | .giveSeeders .. | .giveDetails .. | .sendFullPath ..
  | .complete .. | .showDownloads .. =>
    inferInstanceAs (Decidable (_ ∧ True))

end TorrentShare
