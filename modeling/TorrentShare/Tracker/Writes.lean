import TorrentShare.Tracker.Session

/-!
# What handlers write in the files of groups

The files of groups are `.group.txt`, the members files and the shared-files files. Handlers add
whole lines to them, drop lines of all but the first, and only three commands write a line that
has no blank or that goes to `.group.txt`.
-/

namespace TorrentShare

open Program

/-! ### Lines -/

lemma not_mem_of_mem_getlines {s l : Str} (h : l ∈ getlines s) : '\n' ∉ l := by
  induction s generalizing l with
  | nil => simp [getlines] at h
  | cons c s ih =>
    simp only [getlines] at h
    split_ifs at h with hc
    · rcases List.mem_cons.mp h with rfl | h
      · simp
      · exact ih h
    · have hc' : '\n' ≠ c := fun he => hc he.symm
      cases hs : getlines s with
      | nil =>
        rw [hs, consLine, List.mem_singleton] at h
        simp [h, hc']
      | cons l' ls =>
        rw [hs, consLine] at h
        rw [hs] at ih
        rcases List.mem_cons.mp h with rfl | h
        · simp [hc', ih (List.mem_cons_self ..)]
        · exact ih (List.mem_cons_of_mem _ h)

lemma getlines_putline {l : Str} (h : '\n' ∉ l) (t : Str) :
    getlines (putline l ++ t) = l :: getlines t := by
  induction l with
  | nil => simp [putline, getlines]
  | cons c l ih =>
    rw [List.mem_cons, not_or] at h
    have hc : c ≠ '\n' := fun he => h.1 he.symm
    have hl : getlines (l ++ '\n' :: t) = l :: getlines t := by simpa [putline] using ih h.2
    simp [putline, getlines, hc, hl, consLine]

lemma getlines_putlines {ls : List Str} (h : ∀ l ∈ ls, '\n' ∉ l) (t : Str) :
    getlines (Disk.putlines ls ++ t) = ls ++ getlines t := by
  induction ls with
  | nil => rfl
  | cons l ls ih =>
    have hl : Disk.putlines (l :: ls) ++ t = putline l ++ (Disk.putlines ls ++ t) := by
      simp [Disk.putlines]
    rw [hl, getlines_putline (h l (List.mem_cons_self ..)),
      ih fun l' hl' => h l' (List.mem_cons_of_mem _ hl')]
    rfl

/-- Every line of a text, also the last, is ended by a newline. -/
def Terminated (s : Str) : Prop := Disk.putlines (getlines s) = s

lemma terminated_nil : Terminated [] := rfl

lemma terminated_putlines {ls : List Str} (h : ∀ l ∈ ls, '\n' ∉ l) :
    Terminated (Disk.putlines ls) := by
  have hls := getlines_putlines h []
  rw [List.append_nil] at hls
  rw [Terminated, hls]
  simp [getlines]

/-- What is appended to a terminated text starts a line of its own. -/
lemma Terminated.getlines_append {s : Str} (h : Terminated s) (t : Str) :
    getlines (s ++ t) = getlines s ++ getlines t := by
  have hs := getlines_putlines (fun l => not_mem_of_mem_getlines (s := s) (l := l)) t
  rwa [h] at hs

lemma Terminated.append {s t : Str} (hs : Terminated s) (ht : Terminated t) :
    Terminated (s ++ t) := by
  rw [Terminated, hs.getlines_append, Disk.putlines, List.flatMap_append]
  exact congrArg₂ (· ++ ·) hs ht

lemma getlines_putline_self {l : Str} (h : '\n' ∉ l) : getlines (putline l) = [l] := by
  have hl := getlines_putline h []
  rwa [List.append_nil] at hl

lemma terminated_putline {l : Str} (h : '\n' ∉ l) : Terminated (putline l) := by
  rw [Terminated, getlines_putline_self h]
  simp [Disk.putlines]

lemma keptLines_subset {drop : Str → Option Bool} {ls ks : List Str}
    (h : keptLines drop ls = some ks) : ∀ l ∈ ks, l ∈ ls := by
  induction ls generalizing ks with
  | nil =>
    cases h
    intro l hl
    exact hl
  | cons l ls ih =>
    simp only [keptLines, Option.bind_eq_some_iff, Option.map_eq_some_iff] at h
    obtain ⟨b, -, ks', hks', rfl⟩ := h
    intro l' hl'
    cases b with
    | true => exact List.mem_cons_of_mem _ (ih hks' l' hl')
    | false =>
      rcases List.mem_cons.mp hl' with rfl | hl'
      · exact List.mem_cons_self ..
      · exact List.mem_cons_of_mem _ (ih hks' l' hl')

/-! ### Fields -/

lemma fields_cons_cons (f f' : Str) (fs : List Str) :
    fields (f :: f' :: fs) = f ++ ' ' :: fields (f' :: fs) := by
  simp [fields, List.intercalate]

lemma not_mem_fields {c : Char} (hc : c ≠ ' ') {fs : List Str} (h : ∀ f ∈ fs, c ∉ f) :
    c ∉ fields fs := by
  induction fs with
  | nil => simp [fields, List.intercalate]
  | cons f fs ih =>
    have hf := h f (List.mem_cons_self ..)
    have hfs := ih fun f' hf' => h f' (List.mem_cons_of_mem _ hf')
    cases fs with
    | nil => simpa [fields, List.intercalate] using hf
    | cons f' fs =>
      rw [fields_cons_cons]
      simp [hf, hc, hfs]

lemma mem_fields_of_mem {c : Char} {f : Str} {fs : List Str} (hf : f ∈ fs) (hc : c ∈ f) :
    c ∈ fields fs := by
  induction fs with
  | nil => cases hf
  | cons g fs ih =>
    cases fs with
    | nil =>
      obtain rfl := List.mem_singleton.mp hf
      simpa [fields, List.intercalate] using hc
    | cons g' fs =>
      rw [fields_cons_cons]
      rcases List.mem_cons.mp hf with rfl | hf
      · exact List.mem_append_left _ hc
      · exact List.mem_append_right _ (List.mem_cons_of_mem _ (ih hf))

/-- The fields of a line have only characters of the line. -/
lemma not_mem_of_mem_split {l w : Str} {c : Char} (hw : w ∈ split l ' ') (h : c ∉ l) : c ∉ w := by
  intro hc
  have hl : fields (split l ' ') = l := List.intercalate_splitOn ' '
  exact h (hl ▸ mem_fields_of_mem hw hc)

lemma split_fields {fs : List Str} (hfs : fs ≠ []) (h : ∀ f ∈ fs, ' ' ∉ f) :
    split (fields fs) ' ' = fs :=
  List.splitOn_intercalate ' ' h hfs

/-- Two fields can be told apart. -/
lemma fields_pair_inj {u g u' g' : Str} (hu : ' ' ∉ u') (hg : ' ' ∉ g')
    (h : fields [u, g] = fields [u', g']) : u = u' ∧ g = g' := by
  have hcons : u ++ ' ' :: g = u' ++ ' ' :: g' := by simpa [fields, List.intercalate] using h
  rcases List.append_eq_append_iff.mp hcons with ⟨as, hu', hrest⟩ | ⟨as, rfl, hrest⟩
  · cases as with
    | nil => simpa [eq_comm] using And.intro hu' hrest
    | cons c as =>
      rw [List.cons_append, List.cons.injEq] at hrest
      rw [hu', ← hrest.1] at hu
      simp at hu
  · cases as with
    | nil => simpa [eq_comm] using hrest
    | cons c as =>
      rw [List.cons_append, List.cons.injEq] at hrest
      rw [hrest.2] at hg
      simp at hg

/-- The record a scan stops at is a line of the file. -/
lemma findRecord_mem {test : List Str → Option Bool} {ls : List Str} {v : List Str}
    (h : findRecord test ls = some (some v)) : ∃ l ∈ ls, v = split l ' ' := by
  induction ls with
  | nil => cases h
  | cons l ls ih =>
    simp only [findRecord, Option.bind_eq_some_iff] at h
    obtain ⟨b, -, hb⟩ := h
    cases b with
    | true =>
      simp only [if_true, Option.some.injEq] at hb
      exact ⟨l, List.mem_cons_self .., hb.symm⟩
    | false =>
      obtain ⟨l', hl', hv⟩ := ih hb
      exact ⟨l', List.mem_cons_of_mem _ hl', hv⟩

/-- A field of the record that a scan of a file stops at has no newline. -/
lemma not_mem_field {test : List Str → Option Bool} {s : Option Str} {found : Option (List Str)}
    {i : ℕ} {w : Str} (hfound : findRecord test (getlines (s.getD [])) = some found)
    (hw : found.elim (some []) (·[i]?) = some w) : '\n' ∉ w := by
  cases found with
  | none =>
    cases hw
    simp
  | some v =>
    obtain ⟨l, hl, rfl⟩ := findRecord_mem hfound
    exact not_mem_of_mem_split (List.mem_of_getElem? hw) (not_mem_of_mem_getlines hl)

/-! ### Writes to the files of groups -/

/-- The beginning of the names of `.group.txt` and of the files of the single groups. -/
def groupPrefix : Path := allFiles ++ ".group".toList

/-- A file that says which groups there are, or what a group has. -/
def ofGroups (p : Path) : Prop := groupPrefix <+: cStr p

lemma not_ofGroups {p : Path} (pre rest : Str) (hp : p = pre ++ rest)
    (hnul : '\x00' ∉ pre) (hlen : groupPrefix.length ≤ pre.length)
    (hpre : ¬ groupPrefix <+: pre) : ¬ ofGroups p := by
  rw [ofGroups, hp, cStr_append rest hnul]
  intro h
  exact hpre (List.prefix_of_prefix_length_le h (List.prefix_append _ _) hlen)

@[simp] lemma userFilesFile_not_ofGroups (u : Str) : ¬ ofGroups (userFilesFile u) :=
  not_ofGroups (allFiles ++ ".files_".toList) (u ++ ".txt".toList)
    (by simp [userFilesFile]) (by decide) (by decide) (by decide)

@[simp] lemma downloadingFile_not_ofGroups (u : Str) : ¬ ofGroups (downloadingFile u) :=
  not_ofGroups (allFiles ++ ".files_".toList) (u ++ "_downloading.txt".toList)
    (by simp [downloadingFile]) (by decide) (by decide) (by decide)

@[simp] lemma downloadedFile_not_ofGroups (u : Str) : ¬ ofGroups (downloadedFile u) :=
  not_ofGroups (allFiles ++ ".files_".toList) (u ++ "_downloaded.txt".toList)
    (by simp [downloadedFile]) (by decide) (by decide) (by decide)

instance : DecidablePred ofGroups := fun p => inferInstanceAs (Decidable (groupPrefix <+: cStr p))

@[simp] lemma onlineFile_not_ofGroups : ¬ ofGroups onlineFile := by decide
@[simp] lemma credentialFile_not_ofGroups : ¬ ofGroups credentialFile := by decide
@[simp] lemma pendingFile_not_ofGroups : ¬ ofGroups pendingFile := by decide

lemma ofGroups_groupFile : ofGroups groupFile := by decide

lemma ofGroups_membersFile (g : Str) : ofGroups (membersFile g) := by
  have hp : membersFile g = (groupPrefix ++ ['_']) ++ (g ++ ".txt".toList) := by
    simp [membersFile, groupPrefix]
  rw [ofGroups, hp, cStr_append _ (by decide), List.append_assoc]
  exact List.prefix_append _ _

/-- Other files have other names than `.group.txt`. -/
@[simp] lemma cStr_ne_groupFile {p : Path} (h : ¬ ofGroups p) : cStr p ≠ groupFile := by
  intro he
  rw [ofGroups, he] at h
  exact h (by decide)

@[simp] lemma membersFile_ne_groupFile (g : Str) : cStr (membersFile g) ≠ groupFile :=
  cStr_ne (allFiles ++ ".group_".toList) (g ++ ".txt".toList)
    (by simp [membersFile]) (by decide) (by decide)

@[simp] lemma groupFilesFile_ne_groupFile (g : Str) : cStr (groupFilesFile g) ≠ groupFile :=
  cStr_ne (allFiles ++ ".group_".toList) (g ++ "_files.txt".toList)
    (by simp [groupFilesFile]) (by decide) (by decide)

/-- The arguments of a command. -/
def Command.args : Command → List Str
  | .login u p port ip      => [u, p, port, ip]
  | .createUser u p port ip => [u, p, port, ip]
  | .createGroup g u        => [g, u]
  | .listGroups             => []
  | .joinGroup g u          => [g, u]
  | .listRequests g u       => [g, u]
  | .acceptRequest g u a    => [g, u, a]
  | .uploadFile h s g u f p => [h, s, g, u, f, p]
  | .listFiles g            => [g]
  | .stopShare g f u        => [g, f, u]
  | .leaveGroup g u         => [g, u]
  | .logout u               => [u]
  | .giveSha g f u          => [g, f, u]
  | .giveSeeders g f u      => [g, f, u]
  | .giveDetails u          => [u]
  | .sendFullPath u g f     => [u, g, f]
  | .addFile g f p u        => [g, f, p, u]
  | .complete g f p u       => [g, f, p, u]
  | .showDownloads u        => [u]

/-- The words of a message have no blanks. -/
def IsWord (w : Str) : Prop := ∀ c ∈ w, isspace c = false

instance : DecidablePred IsWord := fun w =>
  List.decidableBAll (fun c => isspace c = false) w

lemma IsWord.newline {w : Str} (h : IsWord w) : '\n' ∉ w := fun hc => absurd (h _ hc) (by decide)

lemma IsWord.blank {w : Str} (h : IsWord w) : ' ' ∉ w := fun hc => absurd (h _ hc) (by decide)

lemma isWord_nil : IsWord [] := by simp [IsWord]

lemma isWord_of_all {w : Str} (h : w.all (fun c => !isspace c) = true) : IsWord w := by
  intro c hc
  have hblank := List.all_eq_true.mp h c hc
  rwa [Bool.not_eq_true'] at hblank

lemma isWord_extractWords (n : ℕ) (s : Str) : ∀ w ∈ extractWords n s, IsWord w := by
  induction n generalizing s with
  | zero => simp [extractWords]
  | succ n ih =>
    intro w hw
    simp only [extractWords, extract] at hw
    split_ifs at hw with hs
    · rw [List.mem_replicate] at hw
      exact hw.2 ▸ isWord_nil
    · rcases List.mem_cons.mp hw with rfl | hw
      · intro c hc
        simpa using List.mem_takeWhile_imp hc
      · exact ih _ w hw

/-- All arguments are words. -/
def Request.HasWords : Request → Prop
  | .client c => ∀ w ∈ c.args, IsWord w
  | _         => True

lemma Request.hasWords_ite {p : Prop} [Decidable p] {q r : Request} (hq : q.HasWords)
    (hr : r.HasWords) : (if p then q else r).HasWords := by
  split_ifs
  · exact hq
  · exact hr

/-- The arguments of a command that is received are words. -/
lemma Request.parse_hasWords (message : Str) : (Request.parse message).HasWords := by
  unfold Request.parse
  extract_lets ws arg
  have harg : ∀ i, IsWord (arg i) := by
    intro i
    simp only [arg, List.getD_eq_getElem?_getD]
    cases hi : ws[i]? with
    | none => exact isWord_nil
    | some w => exact isWord_extractWords 7 message w (List.mem_of_getElem? hi)
  clear_value arg
  repeat' apply Request.hasWords_ite
  all_goals simp [Request.HasWords, Command.args, harg]

lemma Request.isWord_args {message : Str} {c : Command} (h : Request.parse message = .client c) :
    ∀ w ∈ c.args, IsWord w := by
  have hwords := Request.parse_hasWords message
  rwa [h] at hwords

/-- The lines a command may write in the files of groups. -/
def Command.mayWrite : Command → Path → Str → Prop
  | .createGroup g u, p, l          => p = groupFile ∧ l = fields [g, u] ∨ p = membersFile g ∧ l = u
  | .acceptRequest g u _, p, l      => p = membersFile g ∧ l = u
  | .uploadFile _ _ g _ _ _, p, l   => p = groupFilesFile g ∧ ' ' ∈ l
  | .addFile g _ _ _, p, l          => p = groupFilesFile g ∧ ' ' ∈ l
  | _, _, _                         => False

/-- What a handler may call if it may write the lines `may`: no file operation of its own on the
    temporary file, whole lines in the files of groups, and only additions to `.group.txt`. -/
@[simp] def Call.regular (may : Path → Str → Prop) : Call → Prop
  | .prim (.modify f)   => ∀ m, (f m).groups = m.groups
  | .prim (.append p s) => cStr p ≠ tempFile ∧
      (ofGroups p → ∃ l, s = putline l ∧ '\n' ∉ l ∧ may p l)
  | .prim (.create p s) => cStr p ≠ tempFile ∧
      (ofGroups p → cStr p ≠ groupFile ∧ (s = [] ∨ ∃ l, s = putline l ∧ '\n' ∉ l ∧ may p l))
  | .rewrite _ p _      => cStr p ≠ tempFile ∧ cStr p ≠ groupFile
  | .prim (.remove _)   => False
  | .prim (.rename _ _) => False
  | _                   => True

section Handlers

variable {may : Path → Str → Prop} (hashPassword : Str → Str → Str)

@[simp] lemma deleteLine_follows_regular (p : Path) (d : Str) (i : ℕ) (Q : Unit → Unit → Prop) :
    (deleteLine p d i).Follows (kind (Call.regular may)) () Q ↔
      (cStr p ≠ tempFile ∧ cStr p ≠ groupFile) ∧ Q () () := by
  simp [deleteLine, call, Prog.follows_bind, Unique.forall_iff]

@[simp] lemma deleteWholeLine_follows_regular (p : Path) (d : Str) (Q : Unit → Unit → Prop) :
    (deleteWholeLine p d).Follows (kind (Call.regular may)) () Q ↔
      (cStr p ≠ tempFile ∧ cStr p ≠ groupFile) ∧ Q () () := by
  simp [deleteWholeLine, call, Prog.follows_bind, Unique.forall_iff]

lemma userLogin_regular (u p port ip : Str) :
    (userLogin hashPassword u p port ip).Only (Call.regular may) := by
  simp only [Prog.Only, userLogin, call, Prog.follows_bind, fetchDetails_follows,
    Prog.follows_call, Prog.follows_ret, kind_allowed, kind_admits, Call.regular, true_and]
  intro _ m _
  split
  · trivial
  · simp [Prog.follows_ite]

lemma userCreate_regular (u p port ip : Str) :
    (userCreate hashPassword u p port ip).Only (Call.regular may) := by
  simp only [Prog.Only, userCreate, call, Prog.follows_bind, fetchDetails_follows,
    Prog.follows_call, Prog.follows_ret, kind_allowed, kind_admits, Call.regular, true_and]
  intro _ m _
  split
  · trivial
  · simp [Prog.follows_bind]

lemma logout_regular (u : Str) : (logout u).Only (Call.regular may) := by
  simp [Prog.Only, logout, call, Prog.follows_bind, Prog.follows_ite]

lemma groupCreate_regular {g u : Str} (hg : IsWord g) (hu : IsWord u) :
    (groupCreate g u).Only (Call.regular (Command.createGroup g u).mayWrite) := by
  have hline : '\n' ∉ fields [g, u] :=
    not_mem_fields (by decide) (by simp [hg.newline, hu.newline])
  simp only [Prog.Only, groupCreate, call, Prog.follows_bind, fetchDetails_follows,
    Prog.follows_call, Prog.follows_ret, kind_allowed, kind_admits, Call.regular, true_and]
  intro _ m _
  split
  · trivial
  · have hrecord : ∃ l, putline (fields [g, u]) = putline l ∧ '\n' ∉ l ∧
        (Command.createGroup g u).mayWrite groupFile l :=
      ⟨_, rfl, hline, Or.inl ⟨rfl, rfl⟩⟩
    have hmember : ∃ l, putline u = putline l ∧ '\n' ∉ l ∧
        (Command.createGroup g u).mayWrite (membersFile g) l :=
      ⟨_, rfl, hu.newline, Or.inr ⟨rfl, rfl⟩⟩
    simp [Prog.follows_bind, hrecord, hmember]

lemma groupList_regular : groupList.Only (Call.regular may) := by
  simp [Prog.Only, groupList, call, Prog.follows_bind]

lemma groupRequestList_regular (g u : Str) : (groupRequestList g u).Only (Call.regular may) := by
  simp only [Prog.Only, groupRequestList, call, Prog.follows_bind, fetchDetails_follows,
    Prog.follows_call, Prog.follows_ret, kind_allowed, kind_admits, Call.regular, true_and]
  intro _ m _
  split
  · trivial
  · simp [Prog.follows_ite]

lemma groupFileList_regular (g : Str) : (groupFileList g).Only (Call.regular may) := by
  simp only [Prog.Only, groupFileList, call, Prog.follows_bind, fetchDetails_follows,
    Prog.follows_call, Prog.follows_ret, kind_allowed, kind_admits, Call.regular, true_and]
  intro _ m _
  split
  · trivial
  · simp [Prog.follows_bind]

lemma groupJoin_regular (g u : Str) : (groupJoin g u).Only (Call.regular may) := by
  simp only [Prog.Only, groupJoin, call, Prog.follows_bind, Prog.follows_call, Prog.follows_ret,
    kind_allowed, kind_admits, Call.regular, true_and]
  intro m _
  split
  · trivial
  · simp [Prog.follows_bind, Prog.follows_ite, Memory.addPending]

lemma groupAcceptRequest_regular {g u : Str} (hu : IsWord u) (a : Str) :
    (groupAcceptRequest g u a).Only (Call.regular (Command.acceptRequest g u a).mayWrite) := by
  have hmember : ∃ l, putline u = putline l ∧ '\n' ∉ l ∧
      (Command.acceptRequest g u a).mayWrite (membersFile g) l :=
    ⟨_, rfl, hu.newline, rfl, rfl⟩
  simp [Prog.Only, groupAcceptRequest, call, Prog.follows_bind, Prog.follows_ite, hmember]

lemma groupLeave_regular (g u : Str) : (groupLeave g u).Only (Call.regular may) := by
  simp only [Prog.Only, groupLeave, call, Prog.follows_bind, Prog.follows_call, Prog.follows_ret,
    kind_allowed, kind_admits, Call.regular, true_and]
  intro m _
  split
  · trivial
  · simp [Prog.follows_bind, Prog.follows_ite]

lemma groupStopShare_regular (g f u : Str) : (groupStopShare g f u).Only (Call.regular may) := by
  simp [Prog.Only, groupStopShare, call, Prog.follows_bind, Prog.follows_ite]

lemma sendSHA_regular (g f u : Str) : (sendSHA g f u).Only (Call.regular may) := by
  simp only [Prog.Only, sendSHA, call, Prog.follows_bind, fetchDetails_follows,
    Prog.follows_call, Prog.follows_ret, kind_allowed, kind_admits, Call.regular, true_and]
  intro _ m _
  split
  · trivial
  · simp [Prog.follows_bind, Prog.follows_ite]

lemma sendSeeders_regular (g f : Str) : (sendSeeders g f).Only (Call.regular may) := by
  simp [Prog.Only, sendSeeders, call, Prog.follows_bind]

lemma sendDetails_regular (u : Str) : (sendDetails u).Only (Call.regular may) := by
  simp [Prog.Only, sendDetails, call, Prog.follows_bind]

lemma getFullPath_regular (u g f : Str) : (getFullPath u g f).Only (Call.regular may) := by
  simp [Prog.Only, getFullPath, call, Prog.follows_bind]

lemma showDownloads_regular (u : Str) : (showDownloads u).Only (Call.regular may) := by
  simp [Prog.Only, showDownloads, call, Prog.follows_bind]

lemma completeDownload_regular (g f u : Str) :
    (completeDownload g f u).Only (Call.regular may) := by
  simp [Prog.Only, completeDownload, call, Prog.follows_bind]

lemma checkGroupFiles_regular (h : Str) (p : Path) (u : Str) :
    (checkGroupFiles h p u).Only (Call.regular may) := by
  simp [Prog.Only, checkGroupFiles, call, Prog.follows_bind]

lemma checkIntegrity_regular (h : Str) (p : Path) (f : Str) :
    (checkIntegrity h p f).Only (Call.regular may) := by
  simp [Prog.Only, checkIntegrity, call, Prog.follows_bind]

/-- The name of a stored file is a field of a line. -/
lemma getGroupFileName_regular (h : Str) (p : Path) :
    (getGroupFileName h p).Follows (kind (Call.regular may)) () fun f _ => '\n' ∉ f := by
  simp only [getGroupFileName, call, Prog.follows_bind, Prog.follows_call, Prog.follows_ret,
    checked_follows, kind_allowed, kind_admits, Call.regular, true_and]
  intro _ _ s _
  refine ⟨fun _ => trivial, fun found hfound => ⟨fun _ => trivial, fun name hname _ _ => ?_⟩⟩
  exact not_mem_field hfound hname

lemma groupFileUpload_regular {h size g u f p : Str} (hh : IsWord h) (hsize : IsWord size)
    (hu : IsWord u) (hf : IsWord f) :
    (groupFileUpload h size g u f p).Only
      (Call.regular (Command.uploadFile h size g u f p).mayWrite) := by
  have hline : ∀ f', '\n' ∉ f' → ∃ l, putline (fields [h, size, u, f']) = putline l ∧ '\n' ∉ l ∧
      (Command.uploadFile h size g u f p).mayWrite (groupFilesFile g) l := by
    intro f' hf'
    refine ⟨_, rfl, not_mem_fields (by decide) ?_, rfl, ?_⟩
    · simp [hh.newline, hsize.newline, hu.newline, hf']
    · simp [fields_cons_cons]
  simp only [Prog.Only, groupFileUpload, call, Prog.follows_bind, Prog.follows_call,
    Prog.follows_ret, kind_allowed, kind_admits, Call.regular, Prog.follows_ite, true_and]
  intro m _
  refine ⟨fun _ => trivial, fun _ => (fetchGroupMembers_follows _ _).mpr ⟨trivial, fun _ m _ => ?_⟩⟩
  refine ⟨fun _ => trivial, fun _ =>
    Prog.Follows.mono (checkGroupFiles_regular ..) fun found _ _ => ?_⟩
  refine ⟨fun _ => trivial, fun _ =>
    Prog.Follows.mono (getGroupFileName_regular ..) fun stored _ hs => ?_⟩
  refine Prog.Follows.mono (checkIntegrity_regular ..) fun wrong _ _ => ?_
  refine ⟨fun _ => trivial, fun _ => ?_⟩
  generalize hname : (if stored ≠ [] then stored else f) = name
  have hnew : '\n' ∉ name := by
    rw [← hname]
    split_ifs
    · exact hs
    · exact hf.newline
  simp [hline name hnew]

lemma updateDownload_regular {g f p u : Str} (hf : IsWord f) (hu : IsWord u) :
    (updateDownload g f p u).Only (Call.regular (Command.addFile g f p u).mayWrite) := by
  simp only [Prog.Only, updateDownload, call, Prog.follows_bind, fetchDetails_follows,
    Prog.follows_call, Prog.follows_ret, checked_follows, kind_allowed, kind_admits, Call.regular,
    true_and]
  intro _ s _
  refine ⟨fun _ => trivial, fun found hfound => ⟨fun _ => trivial, fun data hdata => ?_⟩⟩
  refine ⟨fun _ => trivial, fun size hsize s' _ => ⟨fun _ => trivial, fun listed _ => ?_⟩⟩
  have hline : ∃ l, putline (fields [data, size, u, f]) = putline l ∧ '\n' ∉ l ∧
      (Command.addFile g f p u).mayWrite (groupFilesFile g) l := by
    refine ⟨_, rfl, not_mem_fields (by decide) ?_, rfl, ?_⟩
    · simp [not_mem_field hfound hdata, not_mem_field hfound hsize, hu.newline, hf.newline]
    · simp [fields_cons_cons]
  simp [Prog.follows_ite, hline]

/-- A command writes whole lines in the files of groups, and only those it may write. -/
lemma trackerKernel_regular {c : Command} (hc : ∀ w ∈ c.args, IsWord w) :
    (trackerKernel hashPassword c).Only (Call.regular c.mayWrite) := by
  cases c with
  | login u p port ip => exact follows_answer (userLogin_regular hashPassword u p port ip)
  | createUser u p port ip => exact follows_answer (userCreate_regular hashPassword u p port ip)
  | createGroup g u =>
    exact follows_answer (groupCreate_regular (hc g (by simp [Command.args]))
      (hc u (by simp [Command.args])))
  | listGroups => exact follows_answerData groupList_regular
  | joinGroup g u => exact follows_answer (groupJoin_regular g u)
  | listRequests g u => exact follows_answerData (groupRequestList_regular g u)
  | acceptRequest g u a =>
    exact follows_answer (groupAcceptRequest_regular (hc u (by simp [Command.args])) a)
  | uploadFile h s g u f p =>
    exact follows_answer (groupFileUpload_regular (hc h (by simp [Command.args]))
      (hc s (by simp [Command.args])) (hc u (by simp [Command.args]))
      (hc f (by simp [Command.args])))
  | listFiles g => exact follows_answerData (groupFileList_regular g)
  | stopShare g f u => exact follows_answer (groupStopShare_regular g f u)
  | leaveGroup g u => exact follows_answer (groupLeave_regular g u)
  | logout u => exact follows_answer (logout_regular u)
  | giveSha g f u => exact follows_answerData (sendSHA_regular g f u)
  | giveSeeders g f u => exact follows_answerData (sendSeeders_regular g f)
  | giveDetails u => exact follows_answerData (sendDetails_regular u)
  | sendFullPath u g f => exact follows_answerData (getFullPath_regular u g f)
  | addFile g f p u =>
    exact follows_noAnswer (updateDownload_regular (hc f (by simp [Command.args]))
      (hc u (by simp [Command.args])))
  | complete g f p u => exact follows_noAnswer (completeDownload_regular g f u)
  | showDownloads u => exact follows_answerData (showDownloads_regular u)

end Handlers

end TorrentShare
