import TorrentShare.Tracker.Running

/-!
# The names of the state files

File names are glued together from fixed parts and the name of a group or of a user, and the
operating system cuts them off at a NUL. The beginning tells what a file is for. Two groups, or
two users, may share a file name.
-/

namespace TorrentShare

/-! ### What a file is for -/

inductive FileKind where
  | credential
  | online
  | group
  | pending
  | ofGroup
  | ofUser
  | other
  deriving DecidableEq

/-- The kind of a file, by the letter that follows `.all_files/.`. -/
def kindOf (name : Path) : FileKind :=
  match name.drop 12 with
  | 'c' :: _ => .credential
  | 'o' :: _ => .online
  | 'p' :: _ => .pending
  | 'f' :: _ => .ofUser
  | 'g' :: _ :: _ :: _ :: _ :: '_' :: _ => .ofGroup
  | 'g' :: _ => .group
  | _ => .other

lemma cStr_membersFile (g : Str) :
    cStr (membersFile g) = allFiles ++ ".group_".toList ++ cStr (g ++ ".txt".toList) := by
  rw [← cStr_append _ (by decide)]
  simp [membersFile]

lemma cStr_groupFilesFile (g : Str) :
    cStr (groupFilesFile g) = allFiles ++ ".group_".toList ++ cStr (g ++ "_files.txt".toList) := by
  rw [← cStr_append _ (by decide)]
  simp [groupFilesFile]

lemma cStr_userFilesFile (u : Str) :
    cStr (userFilesFile u) = allFiles ++ ".files_".toList ++ cStr (u ++ ".txt".toList) := by
  rw [← cStr_append _ (by decide)]
  simp [userFilesFile]

lemma cStr_downloadingFile (u : Str) : cStr (downloadingFile u) =
    allFiles ++ ".files_".toList ++ cStr (u ++ "_downloading.txt".toList) := by
  rw [← cStr_append _ (by decide)]
  simp [downloadingFile]

lemma cStr_downloadedFile (u : Str) : cStr (downloadedFile u) =
    allFiles ++ ".files_".toList ++ cStr (u ++ "_downloaded.txt".toList) := by
  rw [← cStr_append _ (by decide)]
  simp [downloadedFile]

@[simp] lemma kindOf_credentialFile : kindOf (cStr credentialFile) = .credential := by decide
@[simp] lemma kindOf_onlineFile : kindOf (cStr onlineFile) = .online := by decide
@[simp] lemma kindOf_groupFile : kindOf (cStr groupFile) = .group := by decide
@[simp] lemma kindOf_pendingFile : kindOf (cStr pendingFile) = .pending := by decide

@[simp] lemma kindOf_membersFile (g : Str) : kindOf (cStr (membersFile g)) = .ofGroup := by
  rw [cStr_membersFile]
  rfl

@[simp] lemma kindOf_groupFilesFile (g : Str) : kindOf (cStr (groupFilesFile g)) = .ofGroup := by
  rw [cStr_groupFilesFile]
  rfl

@[simp] lemma kindOf_userFilesFile (u : Str) : kindOf (cStr (userFilesFile u)) = .ofUser := by
  rw [cStr_userFilesFile]
  rfl

@[simp] lemma kindOf_downloadingFile (u : Str) : kindOf (cStr (downloadingFile u)) = .ofUser := by
  rw [cStr_downloadingFile]
  rfl

@[simp] lemma kindOf_downloadedFile (u : Str) : kindOf (cStr (downloadedFile u)) = .ofUser := by
  rw [cStr_downloadedFile]
  rfl

/-- Files of different kinds have different names. -/
lemma cStr_ne_of_kind {p q : Path} (h : kindOf (cStr p) ≠ kindOf (cStr q)) : cStr p ≠ cStr q :=
  fun he => h (congrArg kindOf he)

/-- A file of a kind that no edit is of stays as it is. -/
lemma Disk.Edited.lines_of_kind {d d' : Disk} {es : List (Program.Edit Path Str)} {q : Path}
    (h : d.Edited es d') (hkind : ∀ e ∈ es, kindOf e.key ≠ kindOf (cStr q)) :
    d'.lines q = d.lines q := by
  apply h.lines_of_ne
  intro e he hk
  exact hkind e he (congrArg kindOf hk).symm

/-! ### Names that can be opened -/

lemma slash_not_mem_cStr {s : Str} (h : '/' ∉ s) : '/' ∉ cStr s :=
  fun hs => h ((List.takeWhile_sublist _).subset hs)

/-- A name in the directory that starts with a dot and a letter. -/
lemma openable_cons_cons {c : Char} {rest : Str} (hc : c ≠ '.') :
    openable (allFiles ++ '.' :: c :: rest) = true ↔ '/' ∉ c :: rest := by
  have hprefix : allFiles.isPrefixOf (allFiles ++ '.' :: c :: rest) = true := by simp
  have hdrop : (allFiles ++ '.' :: c :: rest).drop allFiles.length = '.' :: c :: rest :=
    List.drop_left ..
  have hcontains : ('.' :: c :: rest).contains '/' = (c :: rest).contains '/' := by
    rw [List.contains_cons]
    rfl
  rw [openable, hprefix, hdrop]
  simp only [hcontains, List.contains_eq_mem]
  simp [hc]

/-! ### Shared names -/

/-- The files of a group. -/
def groupPaths (g : Str) : List Path := [membersFile g, groupFilesFile g]

/-- The files of a user. -/
def userPaths (u : Str) : List Path := [userFilesFile u, downloadingFile u, downloadedFile u]

/-- Two group names that give their groups no common file. -/
structure GroupsApart (g h : Str) : Prop where
  left_nul : '\x00' ∉ g
  right_nul : '\x00' ∉ h
  left : g ≠ h ++ "_files".toList
  right : h ≠ g ++ "_files".toList

/-- Two user names that give their users no common file. -/
structure UsersApart (u v : Str) : Prop where
  left_nul : '\x00' ∉ u
  right_nul : '\x00' ∉ v
  left_downloading : u ≠ v ++ "_downloading".toList
  left_downloaded : u ≠ v ++ "_downloaded".toList
  right_downloading : v ≠ u ++ "_downloading".toList
  right_downloaded : v ≠ u ++ "_downloaded".toList

lemma cStr_eq_self {s : Str} (h : '\x00' ∉ s) : cStr s = s := by
  apply List.takeWhile_eq_self_iff.mpr
  intro c hc
  rw [decide_eq_true_eq]
  rintro rfl
  exact h hc

/-- A name with a NUL is cut off before the fixed end. -/
lemma cStr_append_of_nul {s : Str} (h : '\x00' ∈ s) (t t' : Str) :
    cStr (s ++ t) = cStr (s ++ t') := by
  induction s with
  | nil => cases h
  | cons c s ih =>
    by_cases hc : c = '\x00'
    · simp [cStr, hc]
    · have hs : '\x00' ∈ s := by simpa [Ne.symm hc] using h
      have htail := ih hs
      simp only [cStr] at htail
      simp only [cStr, List.cons_append, List.takeWhile_cons, htail]

/-- Two names glued between the same parts, one of them with a longer end. -/
lemma glue_eq_iff (pre post a b t : Str) :
    pre ++ a ++ post = pre ++ b ++ (t ++ post) ↔ a = b ++ t := by
  rw [← List.append_assoc, List.append_left_inj, List.append_assoc, List.append_right_inj]

/-- A name does not end in more than itself. -/
lemma ne_append_self (s : Str) {t : Str} (ht : t ≠ []) : s ≠ s ++ t := by
  intro he
  exact ht (List.self_eq_append_right.mp he)

section Groups

variable {g h : Str}

lemma membersFile_nul (hg : '\x00' ∉ g) : cStr (membersFile g) = membersFile g := by
  apply cStr_eq_self
  simp only [membersFile, List.mem_append, hg, or_false]
  decide

lemma groupFilesFile_nul (hg : '\x00' ∉ g) : cStr (groupFilesFile g) = groupFilesFile g := by
  apply cStr_eq_self
  simp only [groupFilesFile, List.mem_append, hg, or_false]
  decide

/-- The two files of a group with a NUL in its name are one. -/
lemma membersFile_eq_groupFilesFile (hg : '\x00' ∈ g) :
    cStr (membersFile g) = cStr (groupFilesFile g) := by
  rw [cStr_membersFile, cStr_groupFilesFile, cStr_append_of_nul hg]

lemma membersFile_injective : Function.Injective membersFile := by
  intro g h he
  simpa [membersFile] using he

lemma groupFilesFile_injective : Function.Injective groupFilesFile := by
  intro g h he
  simpa [groupFilesFile] using he

lemma membersFile_eq_iff : membersFile g = groupFilesFile h ↔ g = h ++ "_files".toList := by
  have hend : "_files.txt".toList = "_files".toList ++ ".txt".toList := by decide
  rw [membersFile, groupFilesFile, hend, glue_eq_iff]

/-- The files of two groups all have different names exactly if the names are apart. -/
lemma groupPaths_nodup (hne : g ≠ h) :
    ((groupPaths g ++ groupPaths h).map cStr).Nodup ↔ GroupsApart g h := by
  have hself : ∀ k : Str, k ≠ k ++ "_files".toList := fun k => ne_append_self k (by decide)
  constructor
  · intro hnodup
    simp only [groupPaths, List.cons_append, List.nil_append, List.map_cons, List.map_nil,
      List.nodup_cons, List.mem_cons, List.not_mem_nil, or_false, not_or] at hnodup
    obtain ⟨⟨hg, -, hgh⟩, ⟨hhg, -⟩, hh, -⟩ := hnodup
    have hgnul : '\x00' ∉ g := fun hnul => hg (membersFile_eq_groupFilesFile hnul)
    have hhnul : '\x00' ∉ h := fun hnul => hh (membersFile_eq_groupFilesFile hnul)
    refine ⟨hgnul, hhnul, fun he => ?_, fun he => ?_⟩
    · exact hgh (congrArg cStr (membersFile_eq_iff.mpr he))
    · exact hhg (congrArg cStr (membersFile_eq_iff.mpr he)).symm
  · intro hapart
    simp only [groupPaths, List.cons_append, List.nil_append, List.map_cons, List.map_nil,
      membersFile_nul hapart.left_nul, membersFile_nul hapart.right_nul,
      groupFilesFile_nul hapart.left_nul, groupFilesFile_nul hapart.right_nul,
      List.nodup_cons, List.mem_cons, List.not_mem_nil, or_false, not_or]
    refine ⟨⟨?_, ?_, ?_⟩, ⟨?_, ?_⟩, ?_, by simp⟩
    · exact fun he => hself g (membersFile_eq_iff.mp he)
    · exact fun he => hne (membersFile_injective he)
    · exact fun he => hapart.left (membersFile_eq_iff.mp he)
    · exact fun he => hapart.right (membersFile_eq_iff.mp he.symm)
    · exact fun he => hne (groupFilesFile_injective he)
    · exact fun he => hself h (membersFile_eq_iff.mp he)

end Groups

section Users

variable {u v : Str}

lemma userFilesFile_nul (hu : '\x00' ∉ u) : cStr (userFilesFile u) = userFilesFile u := by
  apply cStr_eq_self
  simp only [userFilesFile, List.mem_append, hu, or_false]
  decide

lemma downloadingFile_nul (hu : '\x00' ∉ u) : cStr (downloadingFile u) = downloadingFile u := by
  apply cStr_eq_self
  simp only [downloadingFile, List.mem_append, hu, or_false]
  decide

lemma downloadedFile_nul (hu : '\x00' ∉ u) : cStr (downloadedFile u) = downloadedFile u := by
  apply cStr_eq_self
  simp only [downloadedFile, List.mem_append, hu, or_false]
  decide

/-- The files of a user with a NUL in its name are one. -/
lemma userFilesFile_eq_downloadingFile (hu : '\x00' ∈ u) :
    cStr (userFilesFile u) = cStr (downloadingFile u) := by
  rw [cStr_userFilesFile, cStr_downloadingFile, cStr_append_of_nul hu]

lemma userFilesFile_injective : Function.Injective userFilesFile := by
  intro u v he
  simpa [userFilesFile] using he

lemma downloadingFile_injective : Function.Injective downloadingFile := by
  intro u v he
  simpa [downloadingFile] using he

lemma downloadedFile_injective : Function.Injective downloadedFile := by
  intro u v he
  simpa [downloadedFile] using he

lemma userFilesFile_eq_downloadingFile_iff :
    userFilesFile u = downloadingFile v ↔ u = v ++ "_downloading".toList := by
  have hend : "_downloading.txt".toList = "_downloading".toList ++ ".txt".toList := by decide
  rw [userFilesFile, downloadingFile, hend, glue_eq_iff]

lemma userFilesFile_eq_downloadedFile_iff :
    userFilesFile u = downloadedFile v ↔ u = v ++ "_downloaded".toList := by
  have hend : "_downloaded.txt".toList = "_downloaded".toList ++ ".txt".toList := by decide
  rw [userFilesFile, downloadedFile, hend, glue_eq_iff]

/-- The last letter before `.txt` tells the two files apart. -/
lemma downloadingFile_ne_downloadedFile (u v : Str) : downloadingFile u ≠ downloadedFile v := by
  intro he
  have hreverse := congrArg List.reverse he
  simp [downloadingFile, downloadedFile] at hreverse

/-- The files of two users all have different names exactly if the names are apart. -/
lemma userPaths_nodup (hne : u ≠ v) :
    ((userPaths u ++ userPaths v).map cStr).Nodup ↔ UsersApart u v := by
  constructor
  · intro hnodup
    simp only [userPaths, List.cons_append, List.nil_append, List.map_cons, List.map_nil,
      List.nodup_cons, List.mem_cons, List.not_mem_nil, or_false, not_or] at hnodup
    obtain ⟨⟨hu, -, -, huv, huv'⟩, ⟨-, hvu, -⟩, ⟨hvu', -⟩, ⟨hv, -⟩, -⟩ := hnodup
    refine ⟨fun hnul => ?_, fun hnul => ?_, fun he => ?_, fun he => ?_, fun he => ?_, fun he => ?_⟩
    · exact hu (userFilesFile_eq_downloadingFile hnul)
    · exact hv (userFilesFile_eq_downloadingFile hnul)
    · exact huv (congrArg cStr (userFilesFile_eq_downloadingFile_iff.mpr he))
    · exact huv' (congrArg cStr (userFilesFile_eq_downloadedFile_iff.mpr he))
    · exact hvu (congrArg cStr (userFilesFile_eq_downloadingFile_iff.mpr he)).symm
    · exact hvu' (congrArg cStr (userFilesFile_eq_downloadedFile_iff.mpr he)).symm
  · intro hapart
    simp only [userPaths, List.cons_append, List.nil_append, List.map_cons, List.map_nil,
      userFilesFile_nul hapart.left_nul, userFilesFile_nul hapart.right_nul,
      downloadingFile_nul hapart.left_nul, downloadingFile_nul hapart.right_nul,
      downloadedFile_nul hapart.left_nul, downloadedFile_nul hapart.right_nul,
      List.nodup_cons, List.mem_cons, List.not_mem_nil, or_false, not_or]
    refine ⟨⟨?_, ?_, ?_, ?_, ?_⟩, ⟨?_, ?_, ?_, ?_⟩, ⟨?_, ?_, ?_⟩, ⟨?_, ?_⟩, ?_, by simp⟩
    · exact fun he => ne_append_self u (by decide) (userFilesFile_eq_downloadingFile_iff.mp he)
    · exact fun he => ne_append_self u (by decide) (userFilesFile_eq_downloadedFile_iff.mp he)
    · exact fun he => hne (userFilesFile_injective he)
    · exact fun he => hapart.left_downloading (userFilesFile_eq_downloadingFile_iff.mp he)
    · exact fun he => hapart.left_downloaded (userFilesFile_eq_downloadedFile_iff.mp he)
    · exact downloadingFile_ne_downloadedFile u u
    · exact fun he => hapart.right_downloading (userFilesFile_eq_downloadingFile_iff.mp he.symm)
    · exact fun he => hne (downloadingFile_injective he)
    · exact downloadingFile_ne_downloadedFile u v
    · exact fun he => hapart.right_downloaded (userFilesFile_eq_downloadedFile_iff.mp he.symm)
    · exact fun he => downloadingFile_ne_downloadedFile v u he.symm
    · exact fun he => hne (downloadedFile_injective he)
    · exact fun he => ne_append_self v (by decide) (userFilesFile_eq_downloadingFile_iff.mp he)
    · exact fun he => ne_append_self v (by decide) (userFilesFile_eq_downloadedFile_iff.mp he)
    · exact downloadingFile_ne_downloadedFile v v

end Users

end TorrentShare
