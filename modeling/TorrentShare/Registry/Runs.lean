import TorrentShare.Registry.Sharing

/-!
# A tracker acts like a registry

Commands with all their arguments are processed one after another, from the empty store, and the
tracker is started again between any two of them. Replies, files and tables are those of a registry
that is told of the same acts.
-/

namespace TorrentShare

open Program

/-- What a tracker does to which its sibling sends no files. A start loads the files into new
    tables. -/
def Tracker.act (sha256 : Str → List (Fin 256)) (t : Tracker) : Act → Option (Reply × Tracker)
  | .command c salt siblingOnline =>
    (serve (hashPassword sha256) t siblingOnline (generateSalt salt) c).map fun r => (r.1, r.2.1)
  | .restart =>
    (fetchDetails.run callInterp ⟨⟨t.disk, {}⟩, [], false, []⟩).map fun r => (none, r.2.tracker)

/-- The command names groups and users among those given, and no argument is missing. -/
def Act.Proper (E : Entities) : Act → Prop
  | .command c _ _ => E.Name c ∧ ∀ w ∈ c.args, IsToken w
  | .restart       => True

section Acts

variable {sha256 : Str → List (Fin 256)} {E : Entities} {R : Registry Str} {s : Session}

lemma answer_ends {p : Prog callSig Bool} {r : Answer Str × Registry Str}
    (h : p.Ends callInterp s fun b s' => s'.Shows sha256 E r (flag b)) :
    (answer p).Ends callInterp s fun reply s' => s'.Shows sha256 E r reply :=
  h.bind fun _ _ hb => hb

lemma answerData_ends {p : Prog callSig Str} {r : Answer Str × Registry Str}
    (h : p.Ends callInterp s fun data s' => s'.Shows sha256 E r (some data)) :
    (answerData p).Ends callInterp s fun reply s' => s'.Shows sha256 E r reply :=
  h.bind fun _ _ hdata => hdata

lemma noAnswer_ends {p : Prog callSig Unit} {r : Answer Str × Registry Str}
    (h : p.Ends callInterp s fun _ s' => s'.Shows sha256 E r none) :
    (noAnswer p).Ends callInterp s fun reply s' => s'.Shows sha256 E r reply :=
  h.bind fun _ _ hnone => hnone

/-- The dispatcher comes to its end and does what the command means. -/
lemma trackerKernel_ends {salt : List (Fin 256)} {c : Command}
    (h : s.tracker.Represents sha256 E R) (hsalt : s.salt = generateSalt salt) (hE : E.Name c)
    (hc : ∀ w ∈ c.args, IsToken w) :
    (trackerKernel (hashPassword sha256) c).Ends callInterp s fun reply s' =>
      s'.Shows sha256 E (R.command sha256 (generateSalt salt) c) reply := by
  obtain ⟨hgroup, huser⟩ := hE
  cases c with
  | login u p port ip =>
    exact answer_ends (userLogin_ends h (hc u (by simp [Command.args]))
      (hc port (by simp [Command.args])) (hc ip (by simp [Command.args])))
  | createUser u p port ip =>
    rw [Registry.command, ← hsalt]
    exact answer_ends (userCreate_ends h (huser u (by simp [Command.users]))
      (hc u (by simp [Command.args])) (hc port (by simp [Command.args]))
      (hc ip (by simp [Command.args])) (hsalt ▸ isHex_hex salt))
  | createGroup g u =>
    exact answer_ends (groupCreate_ends h (hgroup g (by simp [Command.groups]))
      (hc g (by simp [Command.args])) (hc u (by simp [Command.args])))
  | listGroups => exact answerData_ends (groupList_ends h)
  | joinGroup g u =>
    exact answer_ends (groupJoin_ends h (hgroup g (by simp [Command.groups]))
      (hc g (by simp [Command.args])) (hc u (by simp [Command.args])))
  | listRequests g u => exact answerData_ends (groupRequestList_ends h g u)
  | acceptRequest g u a =>
    exact answer_ends (groupAcceptRequest_ends h a (hgroup g (by simp [Command.groups]))
      (hc u (by simp [Command.args])))
  | uploadFile z size g u f p =>
    exact answer_ends (groupFileUpload_ends h
      ⟨hgroup g (by simp [Command.groups]), huser u (by simp [Command.users])⟩
      (hc z (by simp [Command.args])) (hc size (by simp [Command.args]))
      (hc g (by simp [Command.args])) (hc u (by simp [Command.args]))
      (hc f (by simp [Command.args])) (hc p (by simp [Command.args])))
  | listFiles g =>
    exact answerData_ends (groupFileList_ends h (hgroup g (by simp [Command.groups])))
  | stopShare g f u =>
    exact answer_ends (groupStopShare_ends h f
      ⟨hgroup g (by simp [Command.groups]), huser u (by simp [Command.users])⟩)
  | leaveGroup g u =>
    exact answer_ends (groupLeave_ends h (hgroup g (by simp [Command.groups]))
      (huser u (by simp [Command.users])))
  | logout u => exact answer_ends (logout_ends h u)
  | giveSha g f u =>
    exact answerData_ends (sendSHA_ends h
      ⟨hgroup g (by simp [Command.groups]), huser u (by simp [Command.users])⟩
      (hc g (by simp [Command.args])) (hc f (by simp [Command.args])))
  | giveSeeders g f u =>
    exact answerData_ends (sendSeeders_ends h f (hgroup g (by simp [Command.groups])))
  | giveDetails u => exact answerData_ends (sendDetails_ends h u)
  | sendFullPath u g f =>
    exact answerData_ends (getFullPath_ends h g f (huser u (by simp [Command.users])))
  | addFile g f p u =>
    exact noAnswer_ends (updateDownload_ends h
      ⟨hgroup g (by simp [Command.groups]), huser u (by simp [Command.users])⟩
      (hc g (by simp [Command.args])) (hc f (by simp [Command.args]))
      (hc p (by simp [Command.args])) (hc u (by simp [Command.args])))
  | complete g f p u =>
    exact noAnswer_ends (completeDownload_ends h (huser u (by simp [Command.users]))
      (hc g (by simp [Command.args])) (hc f (by simp [Command.args])))
  | showDownloads u =>
    exact answerData_ends (showDownloads_ends h (huser u (by simp [Command.users])))

/-- A tracker that is started again represents what it represented, refreshed. -/
lemma restart_ends {t : Tracker} (h : t.Represents sha256 E R) :
    fetchDetails.Ends callInterp ⟨⟨t.disk, {}⟩, [], false, []⟩ fun _ s' =>
      s'.tracker.Represents sha256 E R.refresh := by
  obtain ⟨F, P, hd, hF, -⟩ := h.filed
  have hat : E.At F P {} [] ⟨⟨t.disk, {}⟩, [], false, []⟩ := ⟨hd, rfl, rfl⟩
  refine Prog.Ends.of_bind_pure (hat.reload h.sound hF fun s' m h' hm => ?_)
  exact h'.represents h.sound.refresh hF.refresh hm.toCached fun _ _ => Or.inl rfl

/-- A tracker implements a registry. -/
lemma Tracker.implements (sha256 : Str → List (Fin 256)) (E : Entities) :
    Service.Implements (Act.Proper E) Answer.Tells (fun R t => Tracker.Represents sha256 E R t)
      (Tracker.act sha256) (Registry.act sha256) := by
  intro R t a ha h
  cases a with
  | command c salt online =>
    obtain ⟨reply, s', hrun, htells, hafter⟩ := Prog.ends_iff.mp
      (trackerKernel_ends (s := ⟨t, generateSalt salt, online, []⟩) h rfl ha.1 ha.2)
    refine ⟨reply, s'.tracker, ?_, htells, hafter⟩
    rw [Tracker.act, serve, hrun]
    rfl
  | restart =>
    obtain ⟨_, s', hrun, hafter⟩ := Prog.ends_iff.mp (restart_ends h)
    refine ⟨none, s'.tracker, ?_, rfl, hafter⟩
    rw [Tracker.act, hrun]
    rfl

/-- A tracker without files represents a registry of nothing. -/
lemma Tracker.initial_represents (hE : E.Separate) (hopen : E.Openable) :
    Tracker.initial.Represents sha256 E .empty := by
  refine ⟨Registry.empty_sound, ?_, fun _ => [], ∅, ?_, ?_, ?_⟩
  · constructor <;> simp [Tracker.initial, Registry.empty]
  · exact ⟨hE, hopen, ⟨fun p => terminated_nil, rfl⟩, fun k _ => rfl, fun k hk => hk.elim⟩
  · intro k
    cases k with
    | accounts => exact keepsTable_empty _
    | sessions => exact keepsTable_empty _
    | groups => exact keepsTable_empty _
    | requests => exact keepsSet_empty _
    | members g => exact keepsSet_empty _
    | _ => rfl
  · exact fun g hg => absurd rfl hg

end Acts

/-! ### One group -/

lemma oneGroup_openable : oneGroup.Openable := by
  constructor
  · rintro g rfl
    decide
  · intro u hu
    rcases List.mem_pair.mp hu with rfl | rfl <;> decide

instance : DecidablePred IsToken := fun w => inferInstanceAs (Decidable (IsWord w ∧ w ≠ []))

instance : DecidablePred (Act.Proper oneGroup)
  | .command c _ _ => inferInstanceAs (Decidable (oneGroup.Name c ∧ ∀ w ∈ c.args, IsToken w))
  | .restart       => .isTrue trivial

/-- Two users get accounts. One makes a group, the other one asks to join it, the tracker is started
    again, the request is granted, and the new member asks for the hash of a file. -/
def admission : List Act :=
  [.command (.createUser "o".toList "p".toList "1".toList "i".toList) [] false,
    .command (.createUser "u".toList "q".toList "2".toList "i".toList) [] true,
    .command (.createGroup "g".toList "o".toList) [] false,
    .command (.joinGroup "g".toList "u".toList) [] false, .restart,
    .command .listGroups [] false,
    .command (.acceptRequest "g".toList "u".toList "o".toList) [] true,
    .command (.giveSha "g".toList "f".toList "u".toList) [] false]

lemma admission_proper : ∀ a ∈ admission, a.Proper oneGroup := by decide

end TorrentShare
