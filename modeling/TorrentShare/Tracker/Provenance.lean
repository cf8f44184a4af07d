import TorrentShare.Tracker.Seeders

/-!
# Where records come from

An upload brings the hash and the size of its record along. At the end of a download they are
looked up in the file of the group.
-/

namespace TorrentShare

open Program

/-- The step does not make a record of what it did not find, and gives no two groups one file. -/
def RecordsFound (t : Tracker) : Command → Prop
  | .addFile g f _ u =>
    (∀ l ∈ t.disk.lines (userFilesFile u), (split l ' ')[1]? ≠ some f) →
      ∀ k, t.disk.owner k ≠ none → cStr (groupFilesFile k) = cStr (groupFilesFile g) →
        ∃ l ∈ t.disk.lines (groupFilesFile k), (split l ' ')[3]? = some f
  | .createGroup g _ =>
    t.disk.owner g = none → ∀ k, t.disk.owner k ≠ none →
      cStr (groupFilesFile k) ≠ cStr (groupFilesFile g)
  | _ => True

instance (t : Tracker) (c : Command) : Decidable (RecordsFound t c) :=
  match c with
  | .addFile .. | .createGroup .. => inferInstanceAs (Decidable (_ → _))
  | .login .. | .createUser .. | .listGroups | .joinGroup .. | .listRequests ..
  | .acceptRequest .. | .uploadFile .. | .listFiles .. | .stopShare .. | .leaveGroup ..
  | .logout .. | .giveSha .. | .giveSeeders .. | .giveDetails .. | .sendFullPath ..
  | .complete .. | .showDownloads .. => isTrue trivial

/-- The step does not store an upload of a member under another name with a size of its own. -/
def SizesFound (t : Tracker) : Command → Prop
  | .uploadFile h s g u f _ =>
    u ∈ t.disk.lines (membersFile g) →
      storedName h f (t.disk.lines (groupFilesFile g)) ≠ f →
        ∃ l ∈ t.disk.lines (groupFilesFile g), (split l ' ')[0]? = some h ∧
          (split l ' ')[1]? = some s ∧
            (split l ' ')[3]? = some (storedName h f (t.disk.lines (groupFilesFile g)))
  | _ => True

instance (t : Tracker) (c : Command) : Decidable (SizesFound t c) :=
  match c with
  | .uploadFile .. => inferInstanceAs (Decidable (_ → _))
  | .login .. | .createUser .. | .createGroup .. | .listGroups | .joinGroup ..
  | .listRequests .. | .acceptRequest .. | .listFiles .. | .stopShare .. | .leaveGroup ..
  | .logout .. | .giveSha .. | .giveSeeders .. | .giveDetails .. | .sendFullPath ..
  | .addFile .. | .complete .. | .showDownloads .. => isTrue trivial

/-- An upload to the group with the hash and the size has been accepted and stored under the
    name. -/
def Uploaded (sha256 : Str → List (Fin 256)) (C : Tracker → Command → Prop)
    (history : List (Command × Reply)) (g h s f : Str) : Prop :=
  ∃ before after t u f' p, history = before ++ (.uploadFile h s g u f' p, some ['1']) :: after ∧
    TrackerRun sha256 C Tracker.initial before t ∧
      storedName h f' (t.disk.lines (groupFilesFile g)) = f

/-- What is said of the hash, the size and the name in each record of a group. -/
structure Disk.Traced (P : Str → Str → Str → Str → Prop) (d : Disk) : Prop where
  shared : d.Separate groupFilesFile
  shapes : ∀ q, kindOf (cStr q) = .ofGroup → ∀ l ∈ d.lines q,
    ' ' ∉ l ∨ ∃ h s u f, IsRecord l h s u f
  records : ∀ g, d.owner g ≠ none → ∀ l ∈ d.lines (groupFilesFile g), ∀ h s u f,
    IsRecord l h s u f → P g h s f

section Step

variable {sha256 : Str → List (Fin 256)} {salt : Str} {t t' : Tracker} {c : Command}
  {reply : Reply} {es : List (Edit Path Str)} {P : Str → Str → Str → Str → Prop}

lemma Disk.Traced.mono {Q : Str → Str → Str → Str → Prop} {d : Disk} (h : d.Traced P)
    (hP : ∀ g h s f, P g h s f → Q g h s f) : d.Traced Q :=
  ⟨h.shared, h.shapes, fun g hg l hl _ _ u _ hrecord =>
    hP _ _ _ _ (h.records g hg l hl _ _ u _ hrecord)⟩

/-- A line with four fields or more is a record. -/
lemma Disk.Traced.of_name {d : Disk} (h : d.Traced P) {g l f : Str}
    (hl : l ∈ d.lines (groupFilesFile g)) (hname : (split l ' ')[3]? = some f) :
    ∃ hash size user, IsRecord l hash size user f := by
  rcases h.shapes _ (kindOf_groupFilesFile g) l hl with hword | ⟨hash, size, user, f', hrecord⟩
  · rw [split_word hword] at hname
    cases hname
  · rw [hrecord.name, Option.some.injEq] at hname
    subst hname
    exact ⟨hash, size, user, hrecord⟩

/-- The lines that are added are words and records. -/
lemma Tracker.Adds.shape {p : Path} {l : Str} (hwords : ∀ w ∈ c.args, IsWord w)
    (h : t.Adds c reply p l) : ' ' ∉ l ∨ ∃ h s u f, IsRecord l h s u f := by
  cases h with
  | founder g l => exact Or.inl (hwords l (by simp [Command.args])).blank
  | accepted g l => exact Or.inl (hwords l (by simp [Command.args])).blank
  | upload hash size g u f =>
    exact Or.inr ⟨_, _, _, _, isRecord_fields (hwords hash (by simp [Command.args])).blank
      (hwords size (by simp [Command.args])).blank (hwords u (by simp [Command.args])).blank
      (blank_storedName (hwords f (by simp [Command.args])).blank _)⟩
  | download g f path u =>
    exact Or.inr ⟨_, _, _, _, isRecord_fields (blank_fieldOr _ _ _ _) (blank_fieldOr _ _ _ _)
      (hwords u (by simp [Command.args])).blank (hwords f (by simp [Command.args])).blank⟩

/-- The step lemma: it is enough to look at uploads. -/
lemma Tracker.Step.traced (ht : t.Regular) (h : t.Step sha256 salt c reply es t')
    (hc : RecordsFound t c) (hold : t.disk.Traced P)
    (hupload : ∀ hash size g u f p, c = .uploadFile hash size g u f p → reply = some ['1'] →
      t.disk.owner g ≠ none → u ∈ t.disk.lines (membersFile g) →
        P g hash size (storedName hash f (t.disk.lines (groupFilesFile g)))) :
    t'.disk.Traced P := by
  constructor
  · apply h.separate _ hold.shared
    rintro g u rfl hnew k hk
    exact hc hnew k hk
  · intro q hq l hl
    rcases h.of_mem_ofGroup hq hl with hbefore | ⟨p, -, hadds⟩
    · exact hold.shapes q hq l hbefore
    · exact hadds.shape h.words
  · intro g hg' l hl hash size u f hrecord
    have hg := h.of_record hg' hl hrecord
    rcases h.of_mem_ofGroup (kindOf_groupFilesFile g) hl with hbefore | ⟨p, hp, hadds⟩
    · exact hold.records g hg l hbefore hash size u f hrecord
    · rcases hadds.sharer h.words hrecord with
        ⟨k, f', path, rfl, hreply, rfl, hk, hmember, rfl⟩ | ⟨k, path, rfl, rfl, hlisted, rfl, rfl⟩
      · have hexists := ht.exists_of_cached hk
        rw [hold.shared g k hg hexists hp.symm]
        exact hupload hash size k u f' path rfl hreply hexists hmember
      · -- the hash and the size are those of the first record of the name
        obtain ⟨l₁, hl₁, hname₁⟩ := hc hlisted g hg hp.symm
        rw [t.disk.lines_congr hp.symm] at hl₁
        cases hfound : recordOf 3 f (t.disk.lines (groupFilesFile k)) with
        | none => exact absurd hname₁ (recordOf_eq_none hfound l₁ hl₁)
        | some v =>
          obtain ⟨l₀, hl₀, rfl, hname₀⟩ := recordOf_eq_some hfound
          rw [t.disk.lines_congr hp] at hl₀
          obtain ⟨hash, size, user, hrecord₀⟩ := hold.of_name hl₀ hname₀
          have hP := hold.records g hg l₀ hl₀ hash size user f hrecord₀
          rwa [fieldOr, fieldOr, Option.bind_some, Option.bind_some, hrecord₀.hash,
            hrecord₀.size]

end Step

section Runs

variable {sha256 : Str → List (Fin 256)} {C : Tracker → Command → Prop} {t : Tracker}
  {history : List (Command × Reply)}

lemma Tracker.initial_traced (P : Str → Str → Str → Str → Prop) :
    Tracker.initial.disk.Traced P := by
  constructor
  · intro g k hg
    exact absurd (Tracker.initial_owner g) hg
  · intro q hq l hl
    cases hl
  · intro g hg
    exact absurd (Tracker.initial_owner g) hg

lemma Uploaded.append {g h s f : Str} (hup : Uploaded sha256 C history g h s f)
    (e : Command × Reply) : Uploaded sha256 C (history ++ [e]) g h s f := by
  obtain ⟨before, after, t, u, f', p, rfl, hrun, hname⟩ := hup
  exact ⟨before, after ++ [e], t, u, f', p, by simp, hrun, hname⟩

/-- Every record has been stored by an upload. -/
lemma TrackerRun.uploaded (hC : ∀ t c, C t c → RecordsFound t c)
    (hrun : TrackerRun sha256 C Tracker.initial history t) :
    t.disk.Traced (Uploaded sha256 C history) := by
  refine (hrun.invariant (I := fun history t => t.disk.Traced (Uploaded sha256 C history))
    Tracker.initial_regular (Tracker.initial_traced _) ?_).2
  intro history t c salt reply es t' hrun hregular hold hc hstep
  apply hstep.traced hregular (hC t c hc)
  · apply hold.mono
    intro g h s f hup
    exact hup.append _
  · rintro h s g u f p rfl rfl - -
    exact ⟨history, [], t, u, f, p, rfl, hrun, rfl⟩

/-- Where uploads keep the size of the name they are stored under, every record has been uploaded
    with its name. -/
lemma TrackerRun.uploaded_as (hC : ∀ t c, C t c → RecordsFound t c)
    (hsize : ∀ t c, C t c → SizesFound t c)
    (hrun : TrackerRun sha256 C Tracker.initial history t) :
    t.disk.Traced fun g h s f => ∃ u p, (.uploadFile h s g u f p, some ['1']) ∈ history := by
  refine (hrun.invariant (I := fun history t => t.disk.Traced fun g h s f =>
    ∃ u p, (.uploadFile h s g u f p, some ['1']) ∈ history)
    Tracker.initial_regular (Tracker.initial_traced _) ?_).2
  intro history t c salt reply es t' hrun hregular hold hc hstep
  have hmono := hold.mono (Q := fun g h s f =>
    ∃ u p, (.uploadFile h s g u f p, some ['1']) ∈ history ++ [(c, reply)]) (by
      rintro g h s f ⟨u, p, hup⟩
      exact ⟨u, p, List.mem_append_left _ hup⟩)
  apply hstep.traced hregular (hC t c hc) hmono
  rintro h s g u f p rfl rfl hg hmember
  by_cases hname : storedName h f (t.disk.lines (groupFilesFile g)) = f
  · rw [hname]
    exact ⟨u, p, by simp⟩
  · obtain ⟨l, hl, hhash, hsize, hstored⟩ := hsize t _ hc hmember hname
    obtain ⟨h', s', u', hrecord⟩ := hmono.of_name hl hstored
    rw [hrecord.hash, Option.some.injEq] at hhash
    rw [hrecord.size, Option.some.injEq] at hsize
    subst hhash hsize
    exact hmono.records g hg l hl _ _ u' _ hrecord

/-- In runs whose steps find what they record, the hash and the size of every record come from an
    upload that was stored under its name, and from one that had its name if sizes are found. -/
theorem no_fabricated_records (hC : ∀ t c, C t c → RecordsFound t c)
    (hrun : TrackerRun sha256 C Tracker.initial history t) {g l h s u f : Str}
    (hg : t.disk.owner g ≠ none) (hl : l ∈ t.disk.lines (groupFilesFile g))
    (hrecord : IsRecord l h s u f) :
    Uploaded sha256 C history g h s f ∧
      ((∀ t c, C t c → SizesFound t c) →
        ∃ u p, (.uploadFile h s g u f p, some ['1']) ∈ history) := by
  constructor
  · exact (hrun.uploaded hC).records g hg l hl h s u f hrecord
  · intro hsize
    exact (hrun.uploaded_as hC hsize).records g hg l hl h s u f hrecord

end Runs

theorem no_fabricated_records_shareMessages : ∃ (history : List (Command × Reply)) (t : Tracker),
    "h 1 v f".toList ∈ t.disk.lines (groupFilesFile "g".toList) ∧
      ∃ u p, (.uploadFile "h".toList "1".toList "g".toList u "f".toList p, some ['1']) ∈
        history := by
  let C := fun t c => RecordsFound t c ∧ SizesFound t c
  let messages := ["create_group g u".toList, "upload_file h 1 g u f /f".toList,
    "add_file g f /v v".toList]
  let process := Tracker.process (fun _ => zerosDigest) [] (fun t c => decide (C t c))
    messages ([], .initial)
  have hprocess : (process.any fun r => decide (r.2.disk.owner "g".toList ≠ none) &&
      decide ("h 1 v f".toList ∈ r.2.disk.lines (groupFilesFile "g".toList))) = true := by
    decide +kernel
  obtain ⟨⟨history, t⟩, hrun, hend⟩ := (Option.any_eq_true _ _).mp hprocess
  rw [Bool.and_eq_true, decide_eq_true_eq, decide_eq_true_eq] at hend
  have hrun' := Tracker.process_run (C := C) (fun _ _ hc => of_decide_eq_true hc) .start hrun
  have hrecord : IsRecord "h 1 v f".toList "h".toList "1".toList "v".toList "f".toList :=
    (by decide : split _ ' ' = _)
  exact ⟨history, t, hend.2, (no_fabricated_records (C := C) (fun _ _ hc => hc.1) hrun' hend.1
    hend.2 hrecord).2 fun _ _ hc => hc.2⟩

/-- `o` stops sharing while `u` downloads. -/
def stopMessages : List Str :=
  ["create_user o p 9000 ip".toList, "create_user u p 9000 ip".toList,
    "create_group g o".toList, "upload_file h 1 g o f /f".toList, "join_group g u".toList,
    "accept_request g u o".toList, "stop_share g f o".toList, "add_file g f /d u".toList]

/-- The end of a download makes a record without a hash and a size, which no upload has had, and
    `o` cannot share the file again. -/
theorem record_without_hash : ∃ history t t',
    TrackerRun (fun _ => zerosDigest) (fun _ _ => True) Tracker.initial history t ∧
      t.disk.owner "g".toList = some "o".toList ∧
      "  u f".toList ∈ t.disk.lines (groupFilesFile "g".toList) ∧
      IsRecord "  u f".toList [] [] "u".toList "f".toList ∧
      (∀ s g u f p, (.uploadFile [] s g u f p, some ['1']) ∉ history) ∧
      t.Handles (fun _ => zerosDigest)
        (.uploadFile "h".toList "1".toList "g".toList "o".toList "f".toList "/f".toList)
        (some ['0']) t' := by
  let salt : List (Fin 256) := List.replicate 16 0
  let process := Tracker.process (fun _ => zerosDigest) salt (fun _ _ => true)
    stopMessages ([], .initial)
  let again := Command.uploadFile "h".toList "1".toList "g".toList "o".toList "f".toList
    "/f".toList
  have hprocess : (process.any fun r => decide (r.2.disk.owner "g".toList = some "o".toList) &&
      decide ("  u f".toList ∈ r.2.disk.lines (groupFilesFile "g".toList)) &&
      (r.1.all fun e => match e.1 with
        | .uploadFile h _ _ _ _ _ => decide (h ≠ [])
        | _ => true) &&
      (serve (hashPassword fun _ => zerosDigest) r.2 false (generateSalt salt) again).any
        fun x => decide (x.1 = some ['0'])) = true := by
    decide +kernel
  obtain ⟨⟨history, t⟩, hrun, hend⟩ := (Option.any_eq_true _ _).mp hprocess
  simp only [Bool.and_eq_true, decide_eq_true_eq, List.all_eq_true] at hend
  obtain ⟨⟨⟨howner, hlisted⟩, hhashes⟩, hagain⟩ := hend
  obtain ⟨⟨r, t', sent⟩, hserve, hreply⟩ := (Option.any_eq_true _ _).mp hagain
  rw [decide_eq_true_eq] at hreply
  subst hreply
  have hrun' := Tracker.process_run (fun _ _ _ => trivial) .start hrun
  refine ⟨history, t, t', hrun', howner, hlisted, (by decide : split _ ' ' = _), ?_,
    ⟨"upload_file h 1 g o f /f".toList, rfl⟩, false, salt, sent, hserve⟩
  intro s g u f p hmem
  have hhash := hhashes _ hmem
  simp at hhash

end TorrentShare
