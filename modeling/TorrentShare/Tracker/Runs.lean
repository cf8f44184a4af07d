import TorrentShare.Tracker.Effects
import TorrentShare.Tracker.FileNames

/-!
# Runs of a tracker

The messages of clients are processed one at a time. Whatever holds at the start and is kept by
the edits of every command holds in every state that is reached.
-/

namespace TorrentShare

open Program

/-- `GenerateSalt`, from the random bytes it draws. -/
def generateSalt (salt : List (Fin 256)) : Str := hex salt

/-- `HashPassword`, from the SHA-256 of OpenSSL. -/
def hashPassword (sha256 : Str → List (Fin 256)) (salt password : Str) : Str :=
  hex (sha256 (salt ++ password))

lemma isWord_hex (bytes : List (Fin 256)) : IsWord (hex bytes) :=
  fun _ hc => isspace_of_mem_hex hc

/-- A tracker without files. -/
def Tracker.initial : Tracker := ⟨Disk.empty, {}⟩

/-- The message of a client is processed. Which salt is drawn, and whether the sibling accepts
    connections, is open. -/
def Tracker.Handles (sha256 : Str → List (Fin 256)) (t : Tracker) (c : Command) (reply : Reply)
    (t' : Tracker) : Prop :=
  (∃ message, Request.parse message = .client c) ∧ ∃ online salt sent,
    serve (hashPassword sha256) t online (generateSalt salt) c = some (reply, t', sent)

/-- The states that are reached from `t₀` by commands that meet a condition, with the commands
    and the replies to them. -/
inductive TrackerRun (sha256 : Str → List (Fin 256)) (C : Tracker → Command → Prop)
    (t₀ : Tracker) : List (Command × Reply) → Tracker → Prop where
  | start : TrackerRun sha256 C t₀ [] t₀
  | step {history : List (Command × Reply)} {t t' : Tracker} {c : Command} {reply : Reply}
      (hrun : TrackerRun sha256 C t₀ history t) (hc : C t c)
      (hstep : t.Handles sha256 c reply t') :
      TrackerRun sha256 C t₀ (history ++ [(c, reply)]) t'

/-! ### One command -/

/-- The files consist of whole lines, and the table of groups is part of what the file says. -/
structure Tracker.Regular (t : Tracker) : Prop where
  tidy : t.disk.Tidy
  cached : ∀ g o, t.memory.groups.lookup g = some o → t.disk.owner g = some o

/-- A group of the table is in the file. -/
lemma Tracker.Regular.exists_of_cached {t : Tracker} (ht : t.Regular) {g : Str}
    (hg : t.memory.groups.lookup g ≠ none) : t.disk.owner g ≠ none := by
  obtain ⟨o, ho⟩ := Option.ne_none_iff_exists'.mp hg
  rw [ht.cached g o ho]
  exact Option.some_ne_none o

/-- What is known of a command that has been processed on a regular tracker. -/
structure Tracker.Step (sha256 : Str → List (Fin 256)) (salt : Str) (t : Tracker) (c : Command)
    (reply : Reply) (es : List (Edit Path Str)) (t' : Tracker) : Prop where
  words : ∀ w ∈ c.args, IsWord w
  isWord_salt : IsWord salt
  effect : Effect (hashPassword sha256) salt t c reply es
  edited : t.disk.Edited es t'.disk
  groups : t'.memory.groups = t.memory.groups ∨
    t'.memory.groups = ownersOf (t.disk.lines groupFile) ∨
      t'.memory.groups = ownersOf (t'.disk.lines groupFile)

section Step

variable {sha256 : Str → List (Fin 256)} {salt : Str} {t t' : Tracker} {c : Command}
  {reply : Reply} {es : List (Edit Path Str)}

lemma Tracker.Handles.step (ht : t.Regular) (h : t.Handles sha256 c reply t') :
    ∃ salt es, t.Step sha256 salt c reply es t' := by
  obtain ⟨⟨message, hmessage⟩, online, bytes, sent, hserve⟩ := h
  have hwords := Request.isWord_args hmessage
  simp only [serve, Option.map_eq_some_iff, Prod.mk.injEq] at hserve
  obtain ⟨⟨r, s⟩, hrun, rfl, rfl, -⟩ := hserve
  have hhash : ∀ salt p, IsWord (hashPassword sha256 salt p) :=
    fun salt p => isWord_hex (sha256 (salt ++ p))
  obtain ⟨es, heffect, hmakes⟩ := trackerKernel_effect hwords
    (s := ⟨t, generateSalt bytes, online, []⟩) (isWord_hex bytes) hhash ht.tidy hrun
  exact ⟨_, es, hwords, isWord_hex bytes, heffect, hmakes.edited, hmakes.groups⟩

/-- The run of the handler. -/
lemma Tracker.Handles.run {c : Command} {reply : Reply} (h : t.Handles sha256 c reply t') :
    ∃ salt online s', (trackerKernel (hashPassword sha256) c).run callInterp ⟨t, salt, online, []⟩ =
      some (reply, s') ∧ s'.tracker = t' := by
  obtain ⟨-, online, bytes, sent, hserve⟩ := h
  simp only [serve, Option.map_eq_some_iff, Prod.mk.injEq] at hserve
  obtain ⟨⟨r, s⟩, hrun, rfl, rfl, -⟩ := hserve
  exact ⟨generateSalt bytes, online, s, hrun, rfl⟩

/-- Only `create_group` gives a group an owner. -/
lemma Tracker.Step.owner (h : t.Step sha256 salt c reply es t') :
    (∀ k, t'.disk.owner k = t.disk.owner k) ∨ ∃ g u, c = .createGroup g u ∧
      t.disk.owner g = none ∧ es = [addLine groupFile (fields [g, u]),
        setLines (membersFile g) [u], setLines (groupFilesFile g) []] ∧
      ∀ k, t'.disk.owner k = if k = g then some u else t.disk.owner k := by
  obtain ⟨hwords, -, heffect, hedited, -⟩ := h
  cases heffect with
  | createGroup g u hnew =>
    refine Or.inr ⟨g, u, rfl, hnew, rfl, fun k => ?_⟩
    have hg : ' ' ∉ g := (hwords g (by simp [Command.args])).blank
    have hu : ' ' ∉ u := (hwords u (by simp [Command.args])).blank
    have hrecord : groupFields (split (fields [g, u]) ' ') = some (g, u) := by
      rw [split_fields (by simp) (by simp [hg, hu])]
      rfl
    have hlines : t'.disk.lines groupFile = t.disk.lines groupFile ++ [fields [g, u]] := by
      have hopen : Disk.effective (addLine groupFile (fields [g, u])) = true := by
        rw [Disk.effective, addLine_key]
        decide
      rw [hedited.lines, List.filter_cons_of_pos hopen, applyAll_cons, applyAll_of_ne]
      · rw [← addLine_key groupFile (fields [g, u]), Edit.apply_key]
        exact congrArg (· ++ [fields [g, u]]) (t.disk.lines_cStr groupFile)
      · intro e he hk
        have hkind := congrArg kindOf hk
        have he' := List.mem_of_mem_filter he
        simp only [List.mem_cons, List.not_mem_nil, or_false] at he'
        rcases he' with rfl | rfl
        · simp at hkind
        · simp at hkind
    rw [Disk.owner, hlines, lookup_ownersOf_append (by simpa using hrecord)]
    simp [Disk.owner]
  | _ =>
    left
    intro k
    rw [Disk.owner, Disk.owner, hedited.lines_of_kind]
    simp

/-- Groups stay and keep their owners. -/
lemma Tracker.Step.owner_of_some (h : t.Step sha256 salt c reply es t') {g o : Str}
    (hg : t.disk.owner g = some o) : t'.disk.owner g = some o := by
  rcases h.owner with hsame | ⟨g', u, -, hnew, -, howner⟩
  · rw [hsame]
    exact hg
  · have hne : g ≠ g' := by
      rintro rfl
      rw [hnew] at hg
      cases hg
    rw [howner, if_neg hne]
    exact hg

/-- Groups stay. -/
lemma Tracker.Step.owner_ne_none_of (h : t.Step sha256 salt c reply es t') {g : Str}
    (hg : t.disk.owner g ≠ none) : t'.disk.owner g ≠ none := by
  obtain ⟨o, ho⟩ := Option.ne_none_iff_exists'.mp hg
  rw [h.owner_of_some ho]
  exact Option.some_ne_none o

/-- A group was there before, or it is the one that is created. -/
lemma Tracker.Step.owner_ne_none (h : t.Step sha256 salt c reply es t') {g : Str}
    (hg : t'.disk.owner g ≠ none) :
    t.disk.owner g ≠ none ∨ ∃ u, c = .createGroup g u ∧ t.disk.owner g = none ∧
      es = [addLine groupFile (fields [g, u]), setLines (membersFile g) [u],
        setLines (groupFilesFile g) []] := by
  rcases h.owner with hsame | ⟨g', u, hc, hnew, hes, howner⟩
  · rw [hsame] at hg
    exact Or.inl hg
  · by_cases hgg : g = g'
    · subst hgg
      exact Or.inr ⟨u, hc, hnew, hes⟩
    · rw [howner, if_neg hgg] at hg
      exact Or.inl hg

/-- A regular tracker stays regular. -/
lemma Tracker.Step.regular (ht : t.Regular) (h : t.Step sha256 salt c reply es t') :
    t'.Regular := by
  refine ⟨h.edited.tidy, fun g o hg => ?_⟩
  rcases h.groups with hgroups | hgroups | hgroups
  · rw [hgroups] at hg
    exact h.owner_of_some (ht.cached g o hg)
  · rw [hgroups] at hg
    exact h.owner_of_some hg
  · rw [hgroups] at hg
    exact hg

end Step

/-! ### Runs -/

lemma Tracker.initial_regular : Tracker.initial.Regular := by
  refine ⟨⟨fun p => terminated_nil, rfl⟩, fun g o hg => ?_⟩
  cases hg

section Runs

variable {sha256 : Str → List (Fin 256)} {C : Tracker → Command → Prop} {t₀ t : Tracker}
  {history : List (Command × Reply)}

/-- The rule of invariants: what a command keeps on a regular tracker holds in every state that
    is reached. -/
lemma TrackerRun.invariant {I : List (Command × Reply) → Tracker → Prop} (h₀ : t₀.Regular)
    (hstart : I [] t₀)
    (hstep : ∀ history t c salt reply es t', TrackerRun sha256 C t₀ history t → t.Regular →
      I history t → C t c → t.Step sha256 salt c reply es t' → I (history ++ [(c, reply)]) t')
    (h : TrackerRun sha256 C t₀ history t) : t.Regular ∧ I history t := by
  induction h with
  | start => exact ⟨h₀, hstart⟩
  | step hrun hc hhandles ih =>
    obtain ⟨hregular, hI⟩ := ih
    obtain ⟨salt, es, hstep'⟩ := hhandles.step hregular
    exact ⟨hstep'.regular hregular, hstep _ _ _ _ _ _ _ hrun hregular hI hc hstep'⟩

/-- Trackers that are reached are regular. -/
lemma TrackerRun.regular (h₀ : t₀.Regular) (h : TrackerRun sha256 C t₀ history t) : t.Regular :=
  (h.invariant (I := fun _ _ => True) h₀ trivial fun _ _ _ _ _ _ _ _ _ _ _ _ => trivial).1

end Runs

/-! ### Runs on given messages -/

/-- The groups that are there can be gone through. -/
instance Disk.decidableForallOwner (d : Disk) (P : Str → Prop) [DecidablePred P] :
    Decidable (∀ g, d.owner g ≠ none → P g) := by
  refine decidable_of_iff (∀ e ∈ ownersOf (d.lines groupFile), d.owner e.1 ≠ none → P e.1) ?_
  constructor
  · intro h g hg
    obtain ⟨o, ho⟩ := Option.ne_none_iff_exists'.mp hg
    obtain ⟨as, bs, hsplit, -⟩ := List.lookup_eq_some_iff.mp ho
    exact h (g, o) (by simp [hsplit]) hg
  · intro h e he
    exact h e.1

/-- The SHA-256 of thirty-two times `0` and `p`. -/
def zerosDigest : List (Fin 256) :=
  [103, 251, 62, 228, 37, 4, 49, 204, 146, 26, 69, 84, 153, 101, 28, 33,
    224, 62, 66, 45, 108, 54, 157, 171, 84, 77, 191, 148, 237, 69, 183, 44]

/-- Process messages one after another, alone, with one salt, as long as the commands pass a
    test. -/
def Tracker.process (sha256 : Str → List (Fin 256)) (salt : List (Fin 256))
    (test : Tracker → Command → Bool) :
    List Str → List (Command × Reply) × Tracker → Option (List (Command × Reply) × Tracker)
  | [], r => some r
  | message :: messages, (history, t) =>
    match Request.parse message with
    | .client c =>
      if test t c then
        (serve (hashPassword sha256) t false (generateSalt salt) c).bind fun r =>
          Tracker.process sha256 salt test messages (history ++ [(c, r.1)], r.2.1)
      else none
    | _ => none

lemma Tracker.process_run {sha256 : Str → List (Fin 256)} {salt : List (Fin 256)}
    {test : Tracker → Command → Bool} {C : Tracker → Command → Prop} {t₀ : Tracker}
    (htest : ∀ t c, test t c = true → C t c) {messages : List Str}
    {r r' : List (Command × Reply) × Tracker} (hr : TrackerRun sha256 C t₀ r.1 r.2)
    (h : Tracker.process sha256 salt test messages r = some r') :
    TrackerRun sha256 C t₀ r'.1 r'.2 := by
  induction messages generalizing r with
  | nil =>
    cases h
    exact hr
  | cons message messages ih =>
    obtain ⟨history, t⟩ := r
    rw [Tracker.process] at h
    split at h
    · rename_i c hparse
      split_ifs at h with hc
      rw [Option.bind_eq_some_iff] at h
      obtain ⟨⟨reply, t', sent⟩, hserve, h⟩ := h
      exact ih (hr.step (htest t c hc) ⟨⟨message, hparse⟩, false, salt, sent, hserve⟩) h
    · cases h

end TorrentShare
