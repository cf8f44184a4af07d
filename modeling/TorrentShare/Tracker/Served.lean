import TorrentShare.Tracker.Indexes

/-!
# The paths that are served

`GetFullPath` sends the path in the first record of a user for a file of a group. `add_file` and
`upload_file` add such records, but not for a name that the user has in another group, and not for
content that the user shares already.
-/

namespace TorrentShare

open Program

/-! ### Records in reachable states -/

/-- The fields that every line of a file of the kind has. -/
def FileKind.fields : FileKind → ℕ
  | .online => 3
  | .group  => 2
  | .ofUser => 2
  | _       => 0

/-- All lines have the fields that are looked at in every command. -/
def Disk.Readable (d : Disk) : Prop :=
  ∀ q, ∀ l ∈ d.lines q, (kindOf (cStr q)).fields ≤ (split l ' ').length

section Reachable

variable {sha256 : Str → List (Fin 256)} {salt : Str} {t t' : Tracker} {c : Command}
  {reply : Reply} {es : List (Edit Path Str)} {history : List (Command × Reply)} {d : Disk}
  {m : Memory} {g u l : Str}

lemma Effect.fields_le {hp : Str → Str → Str} (h : Effect hp salt t c reply es) :
    ∀ e ∈ es, ∀ l ∈ e.added, (kindOf e.key).fields ≤ (split l ' ').length := by
  have hlength : ∀ n (fs : List Str), n ≤ fs.length → fs ≠ [] →
      n ≤ (split (fields fs) ' ').length :=
    fun n fs hn hfs => hn.trans (length_le_split_fields fs hfs)
  cases h with
  | refused => simp
  | quiet => simp
  | _ => simp [FileKind.fields, hlength]

/-- The step lemma. -/
lemma Tracker.Step.readable (h : t.Step sha256 salt c reply es t') (hold : t.disk.Readable) :
    t'.disk.Readable := by
  intro q l hl
  rcases h.edited.of_mem hl with ⟨e, he, hk, hadd⟩ | ⟨hbefore, -⟩
  · rw [← hk]
    exact h.effect.fields_le e he l hadd
  · exact hold q l hbefore

/-- The run lemma. -/
lemma TrackerRun.readable {C : Tracker → Command → Prop}
    (hrun : TrackerRun sha256 C Tracker.initial history t) : t.disk.Readable := by
  refine (hrun.invariant (I := fun _ t => t.disk.Readable) Tracker.initial_regular ?_ ?_).2
  · intro q l hl
    cases hl
  · intro _ _ _ _ _ _ _ _ _ hold _ hstep
    exact hstep.readable hold

lemma Disk.Readable.reload (h : d.Readable) (m : Memory) : m.reload d ≠ none :=
  reload_ne_none m (h onlineFile) (h groupFile)

/-- The second field of a line of a user is always found. -/
lemma Disk.Readable.scan_name (h : d.Readable) (u f : Str) :
    findRecord (fieldIs 1 f) (d.lines (userFilesFile u)) ≠ none := by
  apply findRecord_ne_none
  intro l hl
  have hlength := h (userFilesFile u) l hl
  rw [kindOf_userFilesFile, FileKind.fields] at hlength
  exact fieldIs_ne_none (mt List.getElem?_eq_none_iff.mp (by omega))

/-- Only a slash in the name itself is one in the name of its file. -/
lemma slash_mem_cStr_append {suffix : Str} (hsuffix : '/' ∉ suffix) (g : Str) :
    '/' ∈ cStr (g ++ suffix) ↔ '/' ∈ cStr g := by
  induction g with
  | nil => exact iff_of_false (slash_not_mem_cStr hsuffix) (slash_not_mem_cStr List.not_mem_nil)
  | cons c g ih =>
    rw [cStr] at ih ⊢
    rw [List.cons_append, cStr, List.takeWhile_cons, List.takeWhile_cons]
    split_ifs
    · rw [List.mem_cons, List.mem_cons, ih, cStr]
    · rfl

/-- If the file of the members of a group can be opened, so can that of its shared files. -/
lemma openable_of_membersFile (h : openable (cStr (membersFile g)) = true) :
    openable (cStr (groupFilesFile g)) = true := by
  have hmembers : '/' ∉ cStr (g ++ ".txt".toList) := by
    rw [cStr_membersFile, openable] at h
    simpa using (Bool.and_eq_true_iff.mp h).2
  have hname : '/' ∉ cStr (g ++ "_files.txt".toList) := by
    rw [slash_mem_cStr_append (by decide)] at hmembers ⊢
    exact hmembers
  rw [cStr_groupFilesFile, List.append_assoc]
  refine (openable_cons_cons (by decide)).mpr (?_ : '/' ∉ "group_".toList ++ _)
  exact List.not_mem_append (by decide) hname

end Reachable

/-! ### The path of a record -/

/-- The path that `GetFullPath` sends, empty without a record. There is none if the record has no
    path. -/
def fullPath (g f : Str) (ls : List Str) : Option Str :=
  (findRecord (andThen (fieldIs 0 g) (fieldIs 1 f)) ls).bind (·.elim (some []) (·[2]?))

/-- `send_full_path` is answered with the path. -/
def SendsPath (hashPassword : Str → Str → Str) (t : Tracker) (u g f path : Str) : Prop :=
  ∀ online salt, ∃ t' sent, serve hashPassword t online salt (.sendFullPath u g f) =
    some (some path, t', sent)

section Paths

variable {hashPassword : Str → Str → Str} {t : Tracker} {d : Disk} {g f u p path l : Str}
  {ls : List Str} {test : List Str → Option Bool}

lemma sendsPath_iff : SendsPath hashPassword t u g f path ↔
    fullPath g f (t.disk.lines (userFilesFile u)) = some path := by
  have hserve : ∀ online salt, serve hashPassword t online salt (.sendFullPath u g f) =
      (fullPath g f (t.disk.lines (userFilesFile u))).map fun path => (some path, t, []) := by
    intro online salt
    have hread : getlines ((Session.disk ⟨t, salt, online, []⟩ |>.read (userFilesFile u)).getD []) =
        t.disk.lines (userFilesFile u) := rfl
    rw [serve, trackerKernel, answerData, Prog.run_bind, getFullPath, run_read_bind,
      run_checked_bind, hread, fullPath]
    cases findRecord (andThen (fieldIs 0 g) (fieldIs 1 f)) (t.disk.lines (userFilesFile u)) with
    | none => rfl
    | some found =>
      rw [Option.bind_some, Option.bind_some]
      cases found.elim (some []) (·[2]?) with
      | none => rfl
      | some path => rfl
  simp only [SendsPath, hserve, Option.map_eq_some_iff, Prod.mk.injEq, Option.some.injEq]
  constructor
  · intro h
    obtain ⟨t', sent, path', hpath, rfl, -⟩ := h false []
    exact hpath
  · intro h _ _
    exact ⟨t, [], path, h, rfl, rfl, rfl⟩

/-- A scan goes on behind lines that do not pass. -/
lemma findRecord_append (ls' : List Str) (h : findRecord test ls = some none) :
    findRecord test (ls ++ ls') = findRecord test ls' := by
  induction ls with
  | nil => rfl
  | cons l ls ih =>
    simp only [findRecord, Option.bind_eq_some_iff] at h
    obtain ⟨b, hb, h⟩ := h
    cases b with
    | true => cases h
    | false =>
      rw [List.cons_append, findRecord, hb]
      exact ih h

/-- A scan that stops does not see what comes behind. -/
lemma findRecord_append_of_ne (ls' : List Str) (h : findRecord test ls ≠ some none) :
    findRecord test (ls ++ ls') = findRecord test ls := by
  induction ls with
  | nil => exact absurd rfl h
  | cons l ls ih =>
    rw [List.cons_append]
    simp only [findRecord] at h ⊢
    cases htest : test (split l ' ') with
    | none => rfl
    | some b =>
      cases b with
      | true => rfl
      | false =>
        rw [htest] at h
        exact ih h

/-- A path that is not empty is that of a record. -/
lemma record_of_fullPath (h : fullPath g f ls = some path) (hne : path ≠ []) :
    ∃ l ∈ ls, (split l ' ')[0]? = some g ∧ (split l ' ')[1]? = some f ∧
      (split l ' ')[2]? = some path := by
  obtain ⟨found, hfound, hpath⟩ := Option.bind_eq_some_iff.mp h
  cases found with
  | none => exact absurd (Option.some.inj hpath).symm hne
  | some v =>
    obtain ⟨l, hl, rfl, htest⟩ := findRecord_some hfound
    obtain ⟨hgroup, hname⟩ := andThen_eq_true.mp htest
    exact ⟨l, hl, hgroup, hname, hpath⟩

/-- The scan for a record of the user finds none just if there is none. -/
lemma Disk.Readable.scan_pair (h : d.Readable) (u g f : Str) :
    findRecord (andThen (fieldIs 0 g) (fieldIs 1 f)) (d.lines (userFilesFile u)) = some none ↔
      ¬ d.Listed g u f := by
  constructor
  · rintro hnone ⟨l, hl, hpair⟩
    have htest := findRecord_none hnone l hl
    rw [andThen_eq_true.mpr hpair] at htest
    cases htest
  · intro hnot
    have hscan : findRecord (andThen (fieldIs 0 g) (fieldIs 1 f)) (d.lines (userFilesFile u)) ≠
        none := by
      apply findRecord_ne_none
      intro l hl
      have hlength := h (userFilesFile u) l hl
      rw [kindOf_userFilesFile, FileKind.fields] at hlength
      have hfield : ∀ i < 2, (split l ' ')[i]? ≠ none :=
        fun i hi => mt List.getElem?_eq_none_iff.mp (by omega)
      exact andThen_ne_none (fieldIs_ne_none (hfield 0 (by decide)))
        (fieldIs_ne_none (hfield 1 (by decide)))
    obtain ⟨found, hfound⟩ := Option.ne_none_iff_exists'.mp hscan
    cases found with
    | none => exact hfound
    | some v =>
      obtain ⟨l, hl, -, htest⟩ := findRecord_some hfound
      exact absurd ⟨l, hl, andThen_eq_true.mp htest⟩ hnot

/-- A new record is found where there was none. -/
lemma Disk.Readable.fullPath_append (h : d.Readable) (hnot : ¬ d.Listed g u f) (hg : ' ' ∉ g)
    (hf : ' ' ∉ f) (hp : ' ' ∉ p) :
    fullPath g f (d.lines (userFilesFile u) ++ [fields [g, f, p]]) = some p := by
  have hsplit : split (fields [g, f, p]) ' ' = [g, f, p] :=
    split_fields (List.cons_ne_nil _ _) (by simp [hg, hf, hp])
  rw [fullPath, findRecord_append _ ((h.scan_pair u g f).mpr hnot), findRecord, hsplit,
    andThen_eq_true.mpr ⟨rfl, rfl⟩]
  rfl

/-- Where there was one it is still found. -/
lemma Disk.Readable.fullPath_append_of_listed (h : d.Readable) (hlisted : d.Listed g u f)
    (l : Str) : fullPath g f (d.lines (userFilesFile u) ++ [l]) =
      fullPath g f (d.lines (userFilesFile u)) := by
  rw [fullPath, findRecord_append_of_ne _ fun hnone => (h.scan_pair u g f).mp hnone hlisted]
  rfl

end Paths

/-! ### The end of a download -/

/-- After `add_file` the user is one of those who share the file in the group, and
    `send_full_path` sends a path that is not empty. -/
def Registers (hashPassword : Str → Str → Str) (t : Tracker) (g f p u : Str) : Prop :=
  ∀ online salt, ∃ reply t' sent,
    serve hashPassword t online salt (.addFile g f p u) = some (reply, t', sent) ∧
      t'.disk.Shared g u f ∧ ∃ path, path ≠ [] ∧ SendsPath hashPassword t' u g f path

/-- The record of the file is found, and the user either shares it in the group already, with a path
    that is found, or has no file of the name in any group and a list that can be opened. -/
def Tracker.Registrable (t : Tracker) (g f u : Str) : Prop :=
  findRecord (fieldIs 3 f) (t.disk.lines (groupFilesFile g)) ≠ none ∧
    (t.disk.Shared g u f ∧
      (∃ path, path ≠ [] ∧ fullPath g f (t.disk.lines (userFilesFile u)) = some path) ∨
    (∀ l ∈ t.disk.lines (userFilesFile u), (split l ' ')[1]? ≠ some f) ∧
      openable (cStr (userFilesFile u)) = true)

section Registering

variable {sha256 : Str → List (Fin 256)} {hash : Str → Str → Str} {s s' : Session}
  {t t' : Tracker} {g f p u : Str} {history : List (Command × Reply)} {message : Str}

/-- The fields that `UpdateDownload` copies are there in a record that is found. -/
lemma elim_ne_none {ls : List Str} {found : Option (List Str)}
    (h : findRecord (fieldIs 3 f) ls = some found) {i : ℕ} (hi : i ≤ 3) :
    found.elim (some []) (·[i]?) ≠ none := by
  cases found with
  | none => exact Option.some_ne_none []
  | some v =>
    obtain ⟨l, hl, rfl, htest⟩ := findRecord_some h
    have hlength : 3 < (split l ' ').length := by
      by_contra hshort
      rw [fieldIs, List.getElem?_eq_none (by omega)] at htest
      cases htest
    exact mt List.getElem?_eq_none_iff.mp (by omega)

/-- `UpdateDownload` returns if its scans come to their ends and the files that it writes to can be
    opened. -/
lemma run_updateDownload_returns (p : Str) (hread : s.disk.Readable)
    (hscan : findRecord (fieldIs 3 f) (s.disk.lines (groupFilesFile g)) ≠ none)
    (hgroup : openable (cStr (groupFilesFile g)) = true)
    (huser : (∀ l ∈ s.disk.lines (userFilesFile u), (split l ' ')[1]? ≠ some f) →
      openable (cStr (userFilesFile u)) = true) :
    ∃ s', (updateDownload g f p u).run callInterp s = some ((), s') := by
  obtain ⟨m, hm⟩ := Option.ne_none_iff_exists'.mp (hread.reload s.memory)
  obtain ⟨found, hfound⟩ := Option.ne_none_iff_exists'.mp hscan
  obtain ⟨data, hdata⟩ := Option.ne_none_iff_exists'.mp (elim_ne_none hfound (show 0 ≤ 3 by omega))
  obtain ⟨size, hsize⟩ := Option.ne_none_iff_exists'.mp (elim_ne_none hfound (show 1 ≤ 3 by omega))
  obtain ⟨listed, hlisted⟩ := Option.ne_none_iff_exists'.mp (hread.scan_name u f)
  have hlines : ∀ q, getlines ((s.disk.reloaded.read q).getD []) = s.disk.lines q :=
    fun q => congrArg getlines (s.disk.text_reloaded q)
  rw [updateDownload, run_fetchDetails_bind, hm, Option.bind_some, run_read_bind,
    run_checked_bind, Session.disk_setMemory, Session.disk_setDisk, hlines, hfound,
    Option.bind_some, run_checked_bind, hdata, Option.bind_some, run_checked_bind, hsize,
    Option.bind_some, run_read_bind, run_checked_bind, Session.disk_setMemory,
    Session.disk_setDisk, hlines, hlisted, Option.bind_some]
  cases listed with
  | some v => exact ⟨_, rfl⟩
  | none =>
    have hopen := huser fun l hl hname => by
      have htest := findRecord_none hlisted l hl
      simp [fieldIs, hname] at htest
    simp only [Option.isSome_none, Bool.false_eq_true, if_false]
    rw [run_append_bind, run_append_bind]
    generalize hs₁ : Session.setDisk _ _ = s₁
    -- both files have just been written, and so they can be sent
    have hgroupRead : s₁.disk.read (groupFilesFile g) ≠ none := by
      rw [← hs₁]
      exact Disk.read_append_ne_none _ (Or.inr ⟨rfl, hgroup⟩)
    have huserRead : s₁.disk.read (userFilesFile u) ≠ none := by
      rw [← hs₁]
      exact Disk.read_append_ne_none _ (Or.inl (Disk.read_append_ne_none _ (Or.inr ⟨rfl, hopen⟩)))
    obtain ⟨sent, hsent⟩ := run_sync_of_read (s := s₁)
      (fun _ => call (.sync (userFilesFile u))) hgroupRead
    obtain ⟨sent', hsent'⟩ := run_sync_of_read (s := { s₁ with sent := sent })
      (fun a => .ret a) huserRead
    exact ⟨_, hsent.trans hsent'⟩

/-- A record in the file of a group and one in the list of a user come behind the others. -/
lemma Disk.Edited.record_lines {d d' : Disk} {es : List (Edit Path Str)} {r l : Str}
    (h : d.Edited es d')
    (hes : es = [addLine (userFilesFile u) l, addLine (groupFilesFile g) r] ∨
      es = [addLine (groupFilesFile g) r, addLine (userFilesFile u) l]) :
    (openable (cStr (groupFilesFile g)) = true →
        d'.lines (groupFilesFile g) = d.lines (groupFilesFile g) ++ [r]) ∧
      (openable (cStr (userFilesFile u)) = true →
        d'.lines (userFilesFile u) = d.lines (userFilesFile u) ++ [l]) := by
  have hne : cStr (groupFilesFile g) ≠ cStr (userFilesFile u) := cStr_ne_of_kind (by simp)
  rcases hes with rfl | rfl
  · exact ⟨fun hopen => h.lines_of_one (b := [_]) hopen rfl (by simpa using hne) (by simp),
      fun hopen => h.lines_of_one (b := []) hopen rfl (by simp) (by simpa using hne.symm)⟩
  · exact ⟨fun hopen => h.lines_of_one (b := []) hopen rfl (by simp) (by simpa using hne),
      fun hopen => h.lines_of_one (b := [_]) hopen rfl (by simpa using hne.symm) (by simp)⟩

/-- What `add_file` leaves: the files as they are, for a user who has a file of the name, or two
    more records. -/
lemma serve_addFile_cases (ht : t.Regular) (hwords : ∀ w ∈ (Command.addFile g f p u).args, IsWord w)
    {online : Bool} {salt : Str} {reply : Reply} {sent : List (Path × Str)}
    (hserve : serve hash t online salt (.addFile g f p u) = some (reply, t', sent)) :
    findRecord (fieldIs 3 f) (t.disk.lines (groupFilesFile g)) ≠ none ∧
      (((∀ q, t'.disk.lines q = t.disk.lines q) ∧
          ∃ l ∈ t.disk.lines (userFilesFile u), (split l ' ')[1]? = some f) ∨
        (∀ l ∈ t.disk.lines (userFilesFile u), (split l ' ')[1]? ≠ some f) ∧
          ∃ data size, ' ' ∉ data ∧ ' ' ∉ size ∧
            t.disk.Edited [addLine (userFilesFile u) (fields [g, f, p]),
              addLine (groupFilesFile g) (fields [data, size, u, f])] t'.disk) := by
  simp only [serve, Option.map_eq_some_iff, Prod.mk.injEq] at hserve
  obtain ⟨⟨r, s⟩, hrun, -, rfl, -⟩ := hserve
  obtain ⟨hrun, -⟩ := run_noAnswer hrun
  simp only [Command.args, List.forall_mem_cons] at hwords
  obtain ⟨hg, hf, hp, hu, -⟩ := hwords
  obtain ⟨hscan, hcases⟩ :=
    run_updateDownload_cases (s := ⟨t, salt, online, []⟩) hg hf hp hu ht.tidy hrun
  refine ⟨hscan, ?_⟩
  rcases hcases with ⟨hmakes, hlisted⟩ | ⟨hnew, hmakes⟩
  · exact Or.inl ⟨fun q => hmakes.edited.lines_of_ne (by simp), hlisted⟩
  · exact Or.inr ⟨hnew, _, _, blank_fieldOr _ _ _ _, blank_fieldOr _ _ _ _, hmakes.edited⟩

/-- In every state that is reached, and for every user, `add_file` for a file that is listed in the
    group registers the user just if the scan of the group comes to the record of the file, and the
    user is registered already or has no file of the name in any group. -/
theorem add_file_registers_iff
    (hrun : TrackerRun sha256 (fun _ _ => True) Tracker.initial history t)
    (hmessage : Request.parse message = .client (.addFile g f p u)) (hp : p ≠ [])
    (hfile : ∃ l ∈ t.disk.lines (groupFilesFile g), (split l ' ')[3]? = some f) :
    Registers (hashPassword sha256) t g f p u ↔ t.Registrable g f u := by
  have hregular := hrun.regular Tracker.initial_regular
  have hread := hrun.readable
  have hwords := Request.isWord_args hmessage
  obtain ⟨l, hl, -⟩ := hfile
  have hgroup := Disk.openable_of_mem_lines hl
  simp only [Registers, sendsPath_iff]
  constructor
  · intro h
    obtain ⟨reply, t', sent, hserve, hshared, path, hpath, hsent⟩ := h false []
    obtain ⟨hscan, ⟨hlines, -⟩ | ⟨hnew, data, size, -, -, hedited⟩⟩ :=
      serve_addFile_cases hregular hwords hserve
    · rw [Disk.Shared, hlines] at hshared
      rw [hlines] at hsent
      exact ⟨hscan, Or.inl ⟨hshared, path, hpath, hsent⟩⟩
    · refine ⟨hscan, Or.inr ⟨hnew, ?_⟩⟩
      by_contra hclosed
      rw [Disk.lines_of_not_openable _ (by simpa using hclosed)] at hsent
      exact hpath (Option.some.inj hsent).symm
  · rintro ⟨hscan, hcases⟩ online salt
    have huser : (∀ l ∈ t.disk.lines (userFilesFile u), (split l ' ')[1]? ≠ some f) →
        openable (cStr (userFilesFile u)) = true := by
      intro hnew
      rcases hcases with ⟨-, path, hpath, hfound⟩ | ⟨-, hopen⟩
      · obtain ⟨l', hl', -, hname, -⟩ := record_of_fullPath hfound hpath
        exact absurd hname (hnew l' hl')
      · exact hopen
    obtain ⟨s', hrun'⟩ :=
      run_updateDownload_returns (s := ⟨t, salt, online, []⟩) p hread hscan hgroup huser
    have hserve : serve (hashPassword sha256) t online salt (.addFile g f p u) =
        some (none, s'.tracker, s'.sent) := by
      rw [serve, trackerKernel, noAnswer, Prog.run_bind, hrun']
      rfl
    refine ⟨none, s'.tracker, s'.sent, hserve, ?_⟩
    obtain ⟨-, ⟨hlines, l', hl', hname⟩ | ⟨hnew, data, size, hdata, hsize, hedited⟩⟩ :=
      serve_addFile_cases hregular hwords hserve
    · rw [Disk.Shared, hlines, hlines]
      rcases hcases with hregistered | ⟨hnew, -⟩
      · exact hregistered
      · exact absurd hname (hnew l' hl')
    · simp only [Command.args, List.forall_mem_cons] at hwords
      obtain ⟨hgw, hfw, hpw, huw, -⟩ := hwords
      obtain ⟨hgroupLines, huserLines⟩ := hedited.record_lines (Or.inl rfl)
      have hnot : ¬ t.disk.Listed g u f := by
        rintro ⟨l', hl', -, hname⟩
        exact hnew l' hl' hname
      refine ⟨?_, p, hp, ?_⟩
      · rw [Disk.Shared, hgroupLines hgroup, hasPair_append]
        right
        rw [split_fields (List.cons_ne_nil _ _) (by simp [hdata, hsize, huw.blank, hfw.blank])]
        exact ⟨rfl, rfl⟩
      · rw [huserLines (huser hnew)]
        exact hread.fullPath_append hnot hgw.blank hfw.blank hpw.blank

end Registering

/-- The owner of a group has uploaded a file, and somebody has joined. -/
def joinMessages : List Str :=
  ["create_user u p 9000 ip".toList, "create_group g o".toList,
    "upload_file h 1 g o f /f".toList, "join_group g u".toList, "accept_request g u o".toList]

/-- Uploads of the content of that file: by the member under another name, and by the owner from
    another path. -/
def uploads : List Command :=
  [.uploadFile "h".toList "1".toList "g".toList "u".toList "e".toList "/e".toList,
    .uploadFile "h".toList "1".toList "g".toList "o".toList "f".toList "/n".toList]

/-- The files after these messages. The uploads would be accepted. -/
lemma joined_run : ∃ history t,
    TrackerRun (fun _ => zerosDigest) (fun _ _ => True) Tracker.initial history t ∧
      t.disk.lines (groupFilesFile "g".toList) = ["h 1 o f".toList] ∧
      t.disk.lines (userFilesFile "u".toList) = [] ∧
      t.disk.lines (userFilesFile "o".toList) = ["g f /f".toList] ∧
      ∀ c ∈ uploads, ∃ t' sent,
        serve (hashPassword fun _ => zerosDigest) t false [] c = some (some ['1'], t', sent) := by
  let process := Tracker.process (fun _ => zerosDigest) (List.replicate 16 0) (fun _ _ => true)
    joinMessages ([], .initial)
  have hprocess : (process.any fun r =>
      decide (r.2.disk.lines (groupFilesFile "g".toList) = ["h 1 o f".toList]) &&
      decide (r.2.disk.lines (userFilesFile "u".toList) = []) &&
      decide (r.2.disk.lines (userFilesFile "o".toList) = ["g f /f".toList]) &&
      uploads.all fun c => (serve (hashPassword fun _ => zerosDigest) r.2 false [] c).any
        fun a => decide (a.1 = some ['1'])) = true := by
    decide +kernel
  obtain ⟨⟨history, t⟩, hrun, hend⟩ := (Option.any_eq_true _ _).mp hprocess
  simp only [Bool.and_eq_true, decide_eq_true_eq, List.all_eq_true] at hend
  obtain ⟨⟨⟨hgroup, huser⟩, howner⟩, huploads⟩ := hend
  refine ⟨history, t, Tracker.process_run (fun _ _ _ => trivial) .start hrun, hgroup, huser, howner,
    fun c hc => ?_⟩
  obtain ⟨⟨reply, t', sent⟩, hserve, hreply⟩ := (Option.any_eq_true _ _).mp (huploads c hc)
  obtain rfl : reply = some ['1'] := of_decide_eq_true hreply
  exact ⟨t', sent, hserve⟩

theorem add_file_registers_iff_joined : ∃ history t,
    TrackerRun (fun _ => zerosDigest) (fun _ _ => True) Tracker.initial history t ∧
      Registers (hashPassword fun _ => zerosDigest) t "g".toList "f".toList "/d".toList
        "u".toList := by
  obtain ⟨history, t, hrun, hgroup, huser, -⟩ := joined_run
  have hmessage : Request.parse "add_file g f /d u".toList =
      .client (.addFile "g".toList "f".toList "/d".toList "u".toList) := rfl
  have hfile : ∃ l ∈ t.disk.lines (groupFilesFile "g".toList),
      (split l ' ')[3]? = some "f".toList := by
    rw [hgroup]
    exact ⟨_, List.mem_singleton_self _, by decide⟩
  refine ⟨history, t, hrun, (add_file_registers_iff hrun hmessage (by decide) hfile).mpr
    ⟨?_, Or.inr ⟨?_, by decide⟩⟩⟩
  · rw [hgroup]
    decide
  · rw [huser]
    simp

/-- A member has a file of the same name in another group: the download is not registered. -/
theorem download_not_registered : ∃ history t,
    TrackerRun (fun _ => zerosDigest) (fun _ _ => True) Tracker.initial history t ∧
      "h 1 o f".toList ∈ t.disk.lines (groupFilesFile "g".toList) ∧
      "u".toList ∈ t.disk.lines (membersFile "g".toList) ∧
      ¬ Registers (hashPassword fun _ => zerosDigest) t "g".toList "f".toList "/d".toList
        "u".toList := by
  let process := Tracker.process (fun _ => zerosDigest) (List.replicate 16 0) (fun _ _ => true)
    (joinMessages ++ ["create_group k u".toList, "upload_file i 1 k u f /x".toList])
    ([], .initial)
  let add (t : Tracker) := serve (hashPassword fun _ => zerosDigest) t false []
    (.addFile "g".toList "f".toList "/d".toList "u".toList)
  have hprocess : (process.any fun r =>
      decide ("h 1 o f".toList ∈ r.2.disk.lines (groupFilesFile "g".toList)) &&
        decide ("u".toList ∈ r.2.disk.lines (membersFile "g".toList)) &&
        (add r.2).any fun a => decide (∀ l ∈ a.2.1.disk.lines (groupFilesFile "g".toList),
          (split l ' ')[2]? ≠ some "u".toList)) = true := by
    decide +kernel
  obtain ⟨⟨history, t⟩, hrun, hend⟩ := (Option.any_eq_true _ _).mp hprocess
  simp only [Bool.and_eq_true, decide_eq_true_eq] at hend
  obtain ⟨⟨hfile, hmember⟩, hend⟩ := hend
  obtain ⟨a, ha, hnone⟩ := (Option.any_eq_true _ _).mp hend
  refine ⟨history, t, Tracker.process_run (fun _ _ _ => trivial) .start hrun, hfile, hmember, ?_⟩
  intro h
  obtain ⟨reply, t', sent, hserve, ⟨l, hl, huser, -⟩, -⟩ := h false []
  obtain rfl := Option.some.inj (ha.symm.trans hserve)
  exact of_decide_eq_true hnone l hl huser

/-! ### Uploads -/

/-- The user shares the content in the group under the name. -/
def Disk.SharedAs (d : Disk) (g h u n : Str) : Prop :=
  ∃ l ∈ d.lines (groupFilesFile g), (split l ' ')[0]? = some h ∧ (split l ' ')[2]? = some u ∧
    (split l ' ')[3]? = some n

/-- The user shares the content already under a name for which the path is found; or does not share
    it, has a list that can be opened, and no record for the group and the name that the content
    gets, or one with the path. -/
def Tracker.ServesUpload (t : Tracker) (h g u f p : Str) : Prop :=
  (∃ n, t.disk.SharedAs g h u n ∧ fullPath g n (t.disk.lines (userFilesFile u)) = some p) ∨
  ¬ HasPair 0 2 h u (t.disk.lines (groupFilesFile g)) ∧ openable (cStr (userFilesFile u)) = true ∧
    (t.disk.Listed g u (storedName h f (t.disk.lines (groupFilesFile g))) →
      fullPath g (storedName h f (t.disk.lines (groupFilesFile g)))
        (t.disk.lines (userFilesFile u)) = some p)

section Uploading

variable {sha256 : Str → List (Fin 256)} {hash : Str → Str → Str} {t t' : Tracker}
  {h z g u f p n salt : Str} {history : List (Command × Reply)} {message : Str} {online : Bool}
  {sent : List (Path × Str)} {d d' : Disk}

lemma Disk.SharedAs.hasPair (hshared : d.SharedAs g h u n) :
    HasPair 0 2 h u (d.lines (groupFilesFile g)) := by
  obtain ⟨l, hl, hhash, huser, -⟩ := hshared
  exact ⟨l, hl, hhash, huser⟩

/-- What an upload that is accepted leaves: the files as they are, for a user who shares the content
    already, or two more records. -/
lemma serve_uploadFile_cases (ht : t.Regular)
    (hwords : ∀ w ∈ (Command.uploadFile h z g u f p).args, IsWord w)
    (hserve : serve hash t online salt (.uploadFile h z g u f p) = some (some ['1'], t', sent)) :
    u ∈ t.disk.lines (membersFile g) ∧
      (((∀ q, t'.disk.lines q = t.disk.lines q) ∧
          HasPair 0 2 h u (t.disk.lines (groupFilesFile g))) ∨
        ¬ HasPair 0 2 h u (t.disk.lines (groupFilesFile g)) ∧
          t.disk.Edited [addLine (groupFilesFile g)
              (fields [h, z, u, storedName h f (t.disk.lines (groupFilesFile g))]),
            addLine (userFilesFile u)
              (fields [g, storedName h f (t.disk.lines (groupFilesFile g)), p])] t'.disk) := by
  simp only [serve, Option.map_eq_some_iff, Prod.mk.injEq] at hserve
  obtain ⟨⟨r, s⟩, hrun, hreply, rfl, -⟩ := hserve
  obtain ⟨b, hupload, rfl⟩ := run_answer hrun
  obtain rfl : b = true := by simpa [flag] using hreply
  simp only [Command.args, List.forall_mem_cons] at hwords
  obtain ⟨hh, hz, hg, hu, hf, hp, -⟩ := hwords
  rcases run_groupFileUpload_cases (s := ⟨t, salt, online, []⟩) hh hz hg hu hf hp ht.tidy
    hupload with
    ⟨hmakes, hshared⟩ | ⟨-, -, hmember, hnot, -, hmakes⟩
  · obtain ⟨hmember, hpair⟩ := hshared rfl
    exact ⟨hmember, Or.inl ⟨fun q => hmakes.edited.lines_of_ne (by simp), hpair⟩⟩
  · exact ⟨hmember, Or.inr ⟨hnot, hmakes.edited⟩⟩

/-- After an upload of content that the user has not shared there is one name for it. -/
lemma sharedAs_append_iff (hnot : ¬ HasPair 0 2 h u (d.lines (groupFilesFile g))) {r w : Str}
    (hlines : d'.lines (groupFilesFile g) = d.lines (groupFilesFile g) ++ [r])
    (hrecord : split r ' ' = [h, z, u, w]) : d'.SharedAs g h u n ↔ n = w := by
  constructor
  · rintro ⟨l, hl, hhash, huser, hname⟩
    rw [hlines] at hl
    rcases List.mem_append.mp hl with hl | hl
    · exact absurd ⟨l, hl, hhash, huser⟩ hnot
    · rw [List.mem_singleton.mp hl, hrecord] at hname
      exact (Option.some.inj hname).symm
  · rintro rfl
    refine ⟨r, by simp [hlines], ?_⟩
    rw [hrecord]
    exact ⟨rfl, rfl, rfl⟩

end Uploading

end TorrentShare
