import TorrentShare.Tracker.Queries

/-!
# The shared files of groups

A record of a shared-files file gives the hash, the size, the user and the name of a file.
-/

namespace TorrentShare

open Program

/-! ### Records -/

/-- The line of a record. -/
def IsRecord (l hash size user name : Str) : Prop := split l ' ' = [hash, size, user, name]

lemma IsRecord.hash {l h s u f : Str} (hl : IsRecord l h s u f) : (split l ' ')[0]? = some h := by
  rw [hl]
  rfl

lemma IsRecord.size {l h s u f : Str} (hl : IsRecord l h s u f) : (split l ' ')[1]? = some s := by
  rw [hl]
  rfl

lemma IsRecord.user {l h s u f : Str} (hl : IsRecord l h s u f) : (split l ' ')[2]? = some u := by
  rw [hl]
  rfl

lemma IsRecord.name {l h s u f : Str} (hl : IsRecord l h s u f) : (split l ' ')[3]? = some f := by
  rw [hl]
  rfl

/-- The line that is written is a record. -/
lemma isRecord_fields {h s u f : Str} (hh : ' ' ∉ h) (hs : ' ' ∉ s) (hu : ' ' ∉ u) (hf : ' ' ∉ f) :
    IsRecord (fields [h, s, u, f]) h s u f :=
  split_fields (by simp) (by simp [hh, hs, hu, hf])

lemma blank_storedName {h f : Str} (hf : ' ' ∉ f) (ls : List Str) : ' ' ∉ storedName h f ls := by
  unfold storedName
  split_ifs
  · exact blank_fieldOr ls 0 3 h
  · exact hf

/-! ### The lines that commands add -/

/-- A line that a command adds to a file of a group, its reply, and what it has checked then. -/
inductive Tracker.Adds (t : Tracker) : Command → Reply → Path → Str → Prop where
  | founder (g u : Str) (hnew : t.disk.owner g = none) :
      t.Adds (.createGroup g u) (some ['1']) (membersFile g) u
  | accepted (g u a : Str) (hgroup : t.memory.groups.lookup g = some a)
      (hmember : u ∉ t.disk.lines (membersFile g)) :
      t.Adds (.acceptRequest g u a) (some ['1']) (membersFile g) u
  | upload (h s g u f p : Str) (hgroup : t.memory.groups.lookup g ≠ none)
      (hmember : u ∈ t.disk.lines (membersFile g))
      (hclash : ∀ l ∈ t.disk.lines (groupFilesFile g),
        (split l ' ')[3]? = some (storedName h f (t.disk.lines (groupFilesFile g))) →
          (split l ' ')[0]? = some h) :
      t.Adds (.uploadFile h s g u f p) (some ['1']) (groupFilesFile g)
        (fields [h, s, u, storedName h f (t.disk.lines (groupFilesFile g))])
  | download (g f p u : Str)
      (hnew : ∀ l ∈ t.disk.lines (userFilesFile u), (split l ' ')[1]? ≠ some f) :
      t.Adds (.addFile g f p u) none (groupFilesFile g)
        (fields [fieldOr (recordOf 3 f (t.disk.lines (groupFilesFile g))) 0,
          fieldOr (recordOf 3 f (t.disk.lines (groupFilesFile g))) 1, u, f])

section Step

variable {sha256 : Str → List (Fin 256)} {salt : Str} {t t' : Tracker} {c : Command}
  {reply : Reply} {es : List (Edit Path Str)} {p q : Path} {l : Str}

/-- The lines in the files of groups were there before, or the command adds them. -/
lemma Tracker.Step.of_mem_ofGroup (h : t.Step sha256 salt c reply es t')
    (hq : kindOf (cStr q) = .ofGroup) (hl : l ∈ t'.disk.lines q) :
    l ∈ t.disk.lines q ∨ ∃ p, cStr p = cStr q ∧ t.Adds c reply p l := by
  rcases h.edited.of_mem hl with ⟨e, he, hk, hadd⟩ | ⟨hold, -⟩
  · right
    rw [← hk] at hq
    have hother : (∀ e ∈ es, kindOf e.key = .ofGroup → e.added = []) → False := by
      intro hnone
      rw [hnone e he hq] at hadd
      cases hadd
    cases h.effect with
    | createGroup g u hnew =>
      simp only [List.mem_cons, List.not_mem_nil, or_false] at he
      rcases he with rfl | rfl | rfl
      · simp at hq
      · rw [setLines_added, List.mem_singleton] at hadd
        subst hadd
        exact ⟨_, hk, .founder g l hnew⟩
      · simp at hadd
    | acceptRequest g u a hgroup hmember =>
      simp only [List.mem_cons, List.not_mem_nil, or_false] at he
      rcases he with rfl | rfl
      · rw [addLine_added, List.mem_singleton] at hadd
        subst hadd
        exact ⟨_, hk, .accepted g l a hgroup hmember⟩
      · simp at hadd
    | uploadFile hash s g u f p hgroup hmember hclash =>
      simp only [List.mem_cons, List.not_mem_nil, or_false] at he
      rcases he with rfl | rfl
      · rw [addLine_added, List.mem_singleton] at hadd
        subst hadd
        exact ⟨_, hk, .upload hash s g u f p hgroup hmember hclash⟩
      · simp at hq
    | addFile g f p u hnew =>
      simp only [List.mem_cons, List.not_mem_nil, or_false] at he
      rcases he with rfl | rfl
      · simp at hq
      · rw [addLine_added, List.mem_singleton] at hadd
        subst hadd
        exact ⟨_, hk, .download g f p u hnew⟩
    | _ =>
      refine (hother ?_).elim
      simp
  · exact Or.inl hold

end Step

/-! ### One content for a name -/

/-- Records of one name have one hash. -/
def Disk.OneContent (d : Disk) (p : Path) : Prop :=
  ∀ l ∈ d.lines p, ∀ l' ∈ d.lines p, ∀ f, (split l ' ')[3]? = some f →
    (split l' ' ')[3]? = some f → (split l ' ')[0]? = (split l' ' ')[0]?

/-- A line without a name, or with the hash of the records of its name. -/
def Disk.Fits (d : Disk) (p : Path) (l : Str) : Prop :=
  ∀ f, (split l ' ')[3]? = some f → ∀ l' ∈ d.lines p, (split l' ' ')[3]? = some f →
    (split l ' ')[0]? = (split l' ' ')[0]?

lemma Disk.fits_word (d : Disk) (p : Path) {w : Str} (hw : ' ' ∉ w) : d.Fits p w := by
  intro f hf
  rw [split_word hw] at hf
  cases hf

section Step

variable {sha256 : Str → List (Fin 256)} {salt : Str} {t t' : Tracker} {c : Command}
  {reply : Reply} {es : List (Edit Path Str)}

/-- A line that is added fits. -/
lemma Tracker.Adds.fits (hwords : ∀ w ∈ c.args, IsWord w) (h : t.Adds c reply p l)
    (hone : t.disk.OneContent p) : t.disk.Fits p l := by
  cases h with
  | founder g u hnew => exact t.disk.fits_word _ (hwords l (by simp [Command.args])).blank
  | accepted g u a hgroup hmember =>
    exact t.disk.fits_word _ (hwords l (by simp [Command.args])).blank
  | upload hash s g u f path hgroup hmember hclash =>
    intro name hname l' hl' hname'
    have hrecord := isRecord_fields (hwords hash (by simp [Command.args])).blank
      (hwords s (by simp [Command.args])).blank (hwords u (by simp [Command.args])).blank
      (blank_storedName (h := hash) (hwords f (by simp [Command.args])).blank
        (t.disk.lines (groupFilesFile g)))
    rw [hrecord.name, Option.some.injEq] at hname
    subst hname
    rw [hrecord.hash, hclash l' hl' hname']
  | download g f path u hnew =>
    intro name hname l' hl' hname'
    have hrecord := isRecord_fields (blank_fieldOr (t.disk.lines (groupFilesFile g)) 3 0 f)
      (blank_fieldOr (t.disk.lines (groupFilesFile g)) 3 1 f)
      (hwords u (by simp [Command.args])).blank (hwords f (by simp [Command.args])).blank
    rw [hrecord.name, Option.some.injEq] at hname
    subst hname
    -- the new record repeats the hash of the first record of the name
    cases hfound : recordOf 3 f (t.disk.lines (groupFilesFile g)) with
    | none => exact absurd hname' (recordOf_eq_none hfound l' hl')
    | some v =>
      obtain ⟨l₀, hl₀, rfl, hname₀⟩ := recordOf_eq_some hfound
      rw [hfound] at hrecord
      have hzero : (split l₀ ' ')[0]? = (split l' ' ')[0]? := hone l₀ hl₀ l' hl' f hname₀ hname'
      rw [hrecord.hash, fieldOr, Option.bind_some, ← hzero]
      obtain ⟨h, hhash⟩ := exists_first_field l₀ ' '
      rw [hhash]
      rfl

/-- A command adds one line to a file of a group at most. -/
lemma Tracker.Adds.unique {p' : Path} {l' : Str} (h : t.Adds c reply p l)
    (h' : t.Adds c reply p' l') : l = l' := by
  cases h with
  | founder =>
    cases h'
    rfl
  | accepted =>
    cases h'
    rfl
  | upload =>
    cases h'
    rfl
  | download =>
    cases h'
    rfl

/-- Every command keeps one content for a name. -/
lemma Tracker.Step.oneContent (h : t.Step sha256 salt c reply es t') {g : Str}
    (hold : t.disk.OneContent (groupFilesFile g)) : t'.disk.OneContent (groupFilesFile g) := by
  have hfits : ∀ p l, cStr p = cStr (groupFilesFile g) → t.Adds c reply p l →
      t.disk.Fits (groupFilesFile g) l := by
    intro p l hp hadds
    have hlines := t.disk.lines_congr hp
    have hone : t.disk.OneContent p := by rwa [Disk.OneContent, hlines]
    have hfits := hadds.fits h.words hone
    rwa [Disk.Fits, hlines] at hfits
  intro l hl l' hl' f hf hf'
  rcases h.of_mem_ofGroup (kindOf_groupFilesFile g) hl with hold₁ | ⟨p, hp, hadds⟩
  · rcases h.of_mem_ofGroup (kindOf_groupFilesFile g) hl' with hold₂ | ⟨p', hp', hadds'⟩
    · exact hold l hold₁ l' hold₂ f hf hf'
    · exact (hfits p' l' hp' hadds' f hf' l hold₁ hf).symm
  · rcases h.of_mem_ofGroup (kindOf_groupFilesFile g) hl' with hold₂ | ⟨p', hp', hadds'⟩
    · exact hfits p l hp hadds f hf l' hold₂ hf'
    · rw [hadds.unique hadds']

end Step

/-! ### What a downloading peer is told -/

section Peers

variable {sha256 : Str → List (Fin 256)} {t t' : Tracker}

/-- The hash that is given goes with every seeder that is listed. -/
lemma Disk.OneContent.seeders {g f u w hash data : Str} {t₁ t₂ : Tracker}
    (hone : t.disk.OneContent (groupFilesFile g))
    (hsha : t.Handles sha256 (.giveSha g f u) (some hash) t₁)
    (hgiven : hash ≠ [] ∨ t.disk.owner g ≠ none ∧ u ∈ t.disk.lines (membersFile g))
    (hseeders : t.Handles sha256 (.giveSeeders g f w) (some data) t₂) :
    ∀ v ∈ (split data ' ').dropLast, ∃ l ∈ t.disk.lines (groupFilesFile g),
      (split l ' ')[0]? = some hash ∧ (split l ' ')[2]? = some v ∧ (split l ' ')[3]? = some f := by
  obtain ⟨_, _, s₁, hrun₁, -⟩ := hsha.run
  obtain ⟨_, hrun₁, hreply₁⟩ := run_answerData hrun₁
  cases hreply₁
  obtain ⟨_, _, s₂, hrun₂, -⟩ := hseeders.run
  obtain ⟨_, hrun₂, hreply₂⟩ := run_answerData hrun₂
  cases hreply₂
  obtain ⟨seeders, size, hsplit, hlisted⟩ := run_sendSeeders_reply hrun₂
  rw [hsplit, List.dropLast_concat]
  intro v hv
  obtain ⟨l, hl, huser, hname⟩ := hlisted v hv
  refine ⟨l, hl, ?_, huser, hname⟩
  rcases run_sendSHA_reply hrun₁ with ⟨rfl, hrefused⟩ | ⟨l', hl', hname', hhash⟩ | hnone
  · rcases hgiven with hempty | hmember
    · exact absurd rfl hempty
    · exact absurd hmember hrefused
  · rw [hone l hl l' hl' f hname hname', hhash]
  · exact absurd hname (hnone l hl)

end Peers

/-- In a group a file name stands for one content, and the hash that a peer is given is that of
    all seeders it is told of. -/
theorem name_denotes_content {sha256 : Str → List (Fin 256)} {history : List (Command × Reply)}
    {t : Tracker} (hrun : TrackerRun sha256 (fun _ _ => True) Tracker.initial history t) (g : Str) :
    (∀ l ∈ t.disk.lines (groupFilesFile g), ∀ l' ∈ t.disk.lines (groupFilesFile g),
      ∀ h s u h' s' u' f, IsRecord l h s u f → IsRecord l' h' s' u' f → h = h') ∧
    ∀ f u w hash data t₁ t₂, t.Handles sha256 (.giveSha g f u) (some hash) t₁ →
      hash ≠ [] ∨ t.disk.owner g ≠ none ∧ u ∈ t.disk.lines (membersFile g) →
      t.Handles sha256 (.giveSeeders g f w) (some data) t₂ →
      ∀ v ∈ (split data ' ').dropLast, ∃ l ∈ t.disk.lines (groupFilesFile g),
        (split l ' ')[0]? = some hash ∧ (split l ' ')[2]? = some v ∧
          (split l ' ')[3]? = some f := by
  have hone : t.disk.OneContent (groupFilesFile g) := by
    refine (hrun.invariant (I := fun _ t => t.disk.OneContent (groupFilesFile g))
      Tracker.initial_regular ?_ ?_).2
    · intro l hl
      cases hl
    · intro _ _ _ _ _ _ _ _ _ hold _ hstep
      exact hstep.oneContent hold
  constructor
  · intro l hl l' hl' h s u h' s' u' f hrecord hrecord'
    have hhash := hone l hl l' hl' f hrecord.name hrecord'.name
    rw [hrecord.hash, hrecord'.hash] at hhash
    exact Option.some.inj hhash
  · intro f u w hash data t₁ t₂ hsha hgiven hseeders
    exact hone.seeders hsha hgiven hseeders

/-- `u` registers, creates `g` and shares `f`. -/
def shareMessages : List Str :=
  ["create_user u p 9000 ip".toList, "create_group g u".toList,
    "upload_file h 1 g u f /f".toList]

theorem name_denotes_content_shareMessages : ∃ t t₁ t₂ : Tracker,
    t.Handles (fun _ => zerosDigest) (.giveSha "g".toList "f".toList "u".toList)
      (some "h".toList) t₁ ∧
    t.Handles (fun _ => zerosDigest) (.giveSeeders "g".toList "f".toList "u".toList)
      (some "u 1".toList) t₂ ∧
    ∃ l ∈ t.disk.lines (groupFilesFile "g".toList), (split l ' ')[0]? = some "h".toList ∧
      (split l ' ')[2]? = some "u".toList ∧ (split l ' ')[3]? = some "f".toList := by
  let salt : List (Fin 256) := List.replicate 16 0
  let process := Tracker.process (fun _ => zerosDigest) salt (fun _ _ => true) shareMessages
    ([], .initial)
  let serve := fun (t : Tracker) (c : Command) =>
    serve (hashPassword fun _ => zerosDigest) t false (generateSalt salt) c
  have hprocess : (process.any fun r =>
      ((serve r.2 (.giveSha "g".toList "f".toList "u".toList)).any
        fun x => decide (x.1 = some "h".toList)) &&
      ((serve r.2 (.giveSeeders "g".toList "f".toList "u".toList)).any
        fun x => decide (x.1 = some "u 1".toList))) = true := by
    decide +kernel
  obtain ⟨⟨history, t⟩, hrun, hreplies⟩ := (Option.any_eq_true _ _).mp hprocess
  rw [Bool.and_eq_true] at hreplies
  obtain ⟨⟨r₁, t₁, sent₁⟩, hsha, hreply₁⟩ := (Option.any_eq_true _ _).mp hreplies.1
  obtain ⟨⟨r₂, t₂, sent₂⟩, hseeders, hreply₂⟩ := (Option.any_eq_true _ _).mp hreplies.2
  rw [decide_eq_true_eq] at hreply₁ hreply₂
  subst hreply₁ hreply₂
  have hgiveSha : t.Handles (fun _ => zerosDigest) _ _ t₁ :=
    ⟨⟨"give_sha g f u".toList, rfl⟩, false, salt, sent₁, hsha⟩
  have hgiveSeeders : t.Handles (fun _ => zerosDigest) _ _ t₂ :=
    ⟨⟨"give_seeders g f u".toList, rfl⟩, false, salt, sent₂, hseeders⟩
  refine ⟨t, t₁, t₂, hgiveSha, hgiveSeeders, ?_⟩
  have hrun' := Tracker.process_run (C := fun _ _ => True) (fun _ _ _ => trivial) .start hrun
  exact (name_denotes_content hrun' "g".toList).2 _ _ _ _ _ t₁ t₂ hgiveSha
    (Or.inl (by decide)) hgiveSeeders "u".toList (by decide)

end TorrentShare
