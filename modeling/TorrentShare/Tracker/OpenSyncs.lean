import TorrentShare.Replication.Pair
import TorrentShare.Tracker.Storage

/-!
# What is sent can be opened

A handler calls `Sync` on files that it has written before. They are there, unless their names
cannot be stored.
-/

namespace TorrentShare

open Program

/-! ### Writing before sending -/

/-- The files that a command may pass to `Sync`. -/
def Command.synced : Command → List Path
  | .login ..               => [onlineFile]
  | .createUser u _ _ _     => [onlineFile, credentialFile, userFilesFile u, downloadingFile u,
                                downloadedFile u]
  | .createGroup g _        => [groupFile, membersFile g, groupFilesFile g]
  | .joinGroup ..           => [pendingFile]
  | .acceptRequest g _ _    => [pendingFile, membersFile g]
  | .uploadFile _ _ g u _ _ => [groupFilesFile g, userFilesFile u]
  | .stopShare g _ u        => [groupFilesFile g, userFilesFile u]
  | .leaveGroup g u         => [membersFile g, groupFilesFile g, userFilesFile u]
  | .logout _               => [onlineFile]
  | .giveSha _ _ u          => [downloadingFile u]
  | .addFile g _ _ u        => [groupFilesFile g, userFilesFile u]
  | .complete _ _ _ u       => [downloadedFile u, downloadingFile u]
  | _                       => []

/-- What a handler may call once it has written some files: `Sync` on one of them. -/
@[simp] def Call.inOrder (files : List Path) : Call → Set Path → Prop
  | .prim (.sync p), W => p ∈ files ∧ p ∈ W
  | o, _               => o.tame

/-- How a call changes the set of files that have been written. -/
@[simp] def Call.writing : Call → Set Path → Set Path
  | .prim (.append p _), W => insert p W
  | .prim (.create p _), W => insert p W
  | .rewrite _ p _,      W => insert p W
  | _,                   W => W

/-- The discipline of writing and sending. -/
def writesFirst (files : List Path) : Discipline callSig (Set Path) where
  allowed o W := o.inOrder files W
  next o _ W := o.writing W
  admits _ _ := True

@[simp] lemma writesFirst_allowed (files : List Path) (o : Call) (W : Set Path) :
    (writesFirst files).allowed o W = o.inOrder files W := rfl
@[simp] lemma writesFirst_next (files : List Path) (o : Call) (a : callAns o) (W : Set Path) :
    (writesFirst files).next o a W = o.writing W := rfl
@[simp] lemma writesFirst_admits (files : List Path) (o : Call) (a : callAns o) :
    (writesFirst files).admits o a = True := rfl

/-- A program that sends only what has been written. -/
def WritesFirst {α : Type} (files : List Path) (W : Set Path) (p : Prog callSig α) : Prop :=
  p.Follows (writesFirst files) W fun _ _ => True

section Helpers

variable {files : List Path} {W : Set Path}

@[simp] lemma deleteLine_writesFirst (p : Path) (d : Str) (i : ℕ) (Q : Unit → Set Path → Prop) :
    (deleteLine p d i).Follows (writesFirst files) W Q ↔
      cStr p ≠ tempFile ∧ Q () (insert p W) := by
  simp [deleteLine, call, Prog.follows_bind, Unique.forall_iff]

@[simp] lemma deleteWholeLine_writesFirst (p : Path) (d : Str) (Q : Unit → Set Path → Prop) :
    (deleteWholeLine p d).Follows (writesFirst files) W Q ↔
      cStr p ≠ tempFile ∧ Q () (insert p W) := by
  simp [deleteWholeLine, call, Prog.follows_bind, Unique.forall_iff]

end Helpers

section Handlers

variable (hashPassword : Str → Str → Str) (W : Set Path)

lemma userLogin_writesFirst (u p port ip : Str) :
    WritesFirst [onlineFile] W (userLogin hashPassword u p port ip) := by
  simp only [WritesFirst, userLogin, call, Prog.follows_bind, fetchDetails_follows,
    Prog.follows_call, Prog.follows_ret, writesFirst_allowed, Call.inOrder, Call.tame,
    Call.sparesTemp, true_and]
  intro m _
  split
  · simp
  · simp [Prog.follows_ite]

lemma userCreate_writesFirst (u p port ip : Str) :
    WritesFirst [onlineFile, credentialFile, userFilesFile u, downloadingFile u,
      downloadedFile u] W (userCreate hashPassword u p port ip) := by
  simp only [WritesFirst, userCreate, call, Prog.follows_bind, fetchDetails_follows,
    Prog.follows_call, Prog.follows_ret, writesFirst_allowed, Call.inOrder, Call.tame,
    Call.sparesTemp, true_and]
  intro m _
  split
  · simp
  · simp [Prog.follows_bind]

lemma logout_writesFirst (u : Str) : WritesFirst [onlineFile] W (logout u) := by
  simp [WritesFirst, logout, call, Prog.follows_bind, Prog.follows_ite]

lemma groupCreate_writesFirst (g u : Str) :
    WritesFirst [groupFile, membersFile g, groupFilesFile g] W (groupCreate g u) := by
  simp only [WritesFirst, groupCreate, call, Prog.follows_bind, fetchDetails_follows,
    Prog.follows_call, Prog.follows_ret, writesFirst_allowed, Call.inOrder, Call.tame,
    Call.sparesTemp, true_and]
  intro m _
  split
  · simp
  · simp [Prog.follows_bind]

lemma groupList_writesFirst : WritesFirst [] W groupList := by
  simp [WritesFirst, groupList, call, Prog.follows_bind]

lemma groupRequestList_writesFirst (g u : Str) : WritesFirst [] W (groupRequestList g u) := by
  simp only [WritesFirst, groupRequestList, call, Prog.follows_bind, fetchDetails_follows,
    Prog.follows_call, Prog.follows_ret, writesFirst_allowed, Call.inOrder, Call.tame,
    Call.sparesTemp, true_and]
  intro m _
  split
  · simp
  · simp [Prog.follows_ite]

lemma groupFileList_writesFirst (g : Str) : WritesFirst [] W (groupFileList g) := by
  simp only [WritesFirst, groupFileList, call, Prog.follows_bind, fetchDetails_follows,
    Prog.follows_call, Prog.follows_ret, writesFirst_allowed, Call.inOrder, Call.tame,
    Call.sparesTemp, true_and]
  intro m _
  split
  · simp
  · simp [Prog.follows_bind]

/-- A request that is pending is not written again, but the file is sent all the same. -/
lemma groupJoin_writesFirst (hW : pendingFile ∈ W) (g u : Str) :
    WritesFirst [pendingFile] W (groupJoin g u) := by
  simp only [WritesFirst, groupJoin, call, Prog.follows_bind, Prog.follows_call,
    Prog.follows_ret, writesFirst_allowed, Call.inOrder, Call.tame, Call.sparesTemp,
    true_and]
  intro m _
  split
  · simp
  · simp [Prog.follows_bind, Prog.follows_ite, Memory.addPending, hW]

lemma groupAcceptRequest_writesFirst (g u a : Str) :
    WritesFirst [pendingFile, membersFile g] W (groupAcceptRequest g u a) := by
  simp [WritesFirst, groupAcceptRequest, call, Prog.follows_bind, Prog.follows_ite]

lemma groupLeave_writesFirst (g u : Str) :
    WritesFirst [membersFile g, groupFilesFile g, userFilesFile u] W (groupLeave g u) := by
  simp only [WritesFirst, groupLeave, call, Prog.follows_bind, Prog.follows_call,
    Prog.follows_ret, writesFirst_allowed, Call.inOrder, Call.tame, Call.sparesTemp,
    true_and]
  intro m _
  split
  · simp
  · simp [Prog.follows_bind, Prog.follows_ite]

lemma groupFileUpload_writesFirst (h size g u f p : Str) :
    WritesFirst [groupFilesFile g, userFilesFile u] W (groupFileUpload h size g u f p) := by
  simp [WritesFirst, groupFileUpload, call, Prog.follows_bind, Prog.follows_ite, checkGroupFiles,
    getGroupFileName, checkIntegrity]

lemma groupStopShare_writesFirst (g f u : Str) :
    WritesFirst [groupFilesFile g, userFilesFile u] W (groupStopShare g f u) := by
  simp [WritesFirst, groupStopShare, call, Prog.follows_bind, Prog.follows_ite]

lemma sendSHA_writesFirst (g f u : Str) : WritesFirst [downloadingFile u] W (sendSHA g f u) := by
  simp only [WritesFirst, sendSHA, call, Prog.follows_bind, fetchDetails_follows,
    Prog.follows_call, Prog.follows_ret, writesFirst_allowed, Call.inOrder, Call.tame,
    Call.sparesTemp, true_and]
  intro m _
  split
  · simp
  · simp [Prog.follows_bind, Prog.follows_ite]

lemma sendSeeders_writesFirst (g f : Str) : WritesFirst [] W (sendSeeders g f) := by
  simp [WritesFirst, sendSeeders, call, Prog.follows_bind]

lemma sendDetails_writesFirst (u : Str) : WritesFirst [] W (sendDetails u) := by
  simp [WritesFirst, sendDetails, call, Prog.follows_bind]

lemma getFullPath_writesFirst (u g f : Str) : WritesFirst [] W (getFullPath u g f) := by
  simp [WritesFirst, getFullPath, call, Prog.follows_bind]

lemma updateDownload_writesFirst (g f p u : Str) :
    WritesFirst [groupFilesFile g, userFilesFile u] W (updateDownload g f p u) := by
  simp [WritesFirst, updateDownload, call, Prog.follows_bind, Prog.follows_ite]

lemma showDownloads_writesFirst (u : Str) : WritesFirst [] W (showDownloads u) := by
  simp [WritesFirst, showDownloads, call, Prog.follows_bind]

lemma completeDownload_writesFirst (g f u : Str) :
    WritesFirst [downloadedFile u, downloadingFile u] W (completeDownload g f u) := by
  simp [WritesFirst, completeDownload, call, Prog.follows_bind]

/-- Whichever branch a handler takes, what it sends it has written, apart from the file of
    pending requests. -/
lemma trackerKernel_writesFirst (c : Command) (hW : ∀ g u, c = .joinGroup g u → pendingFile ∈ W) :
    WritesFirst c.synced W (trackerKernel hashPassword c) := by
  cases c with
  | login u p port ip => exact follows_answer (userLogin_writesFirst hashPassword _ u p port ip)
  | createUser u p port ip =>
    exact follows_answer (userCreate_writesFirst hashPassword _ u p port ip)
  | createGroup g u => exact follows_answer (groupCreate_writesFirst _ g u)
  | listGroups => exact follows_answerData (groupList_writesFirst _)
  | joinGroup g u => exact follows_answer (groupJoin_writesFirst _ (hW g u rfl) g u)
  | listRequests g u => exact follows_answerData (groupRequestList_writesFirst _ g u)
  | acceptRequest g u a => exact follows_answer (groupAcceptRequest_writesFirst _ g u a)
  | uploadFile h s g u f p => exact follows_answer (groupFileUpload_writesFirst _ h s g u f p)
  | listFiles g => exact follows_answerData (groupFileList_writesFirst _ g)
  | stopShare g f u => exact follows_answer (groupStopShare_writesFirst _ g f u)
  | leaveGroup g u => exact follows_answer (groupLeave_writesFirst _ g u)
  | logout u => exact follows_answer (logout_writesFirst _ u)
  | giveSha g f u => exact follows_answerData (sendSHA_writesFirst _ g f u)
  | giveSeeders g f u => exact follows_answerData (sendSeeders_writesFirst _ g f)
  | giveDetails u => exact follows_answerData (sendDetails_writesFirst _ u)
  | sendFullPath u g f => exact follows_answerData (getFullPath_writesFirst _ u g f)
  | addFile g f p u => exact follows_noAnswer (updateDownload_writesFirst _ g f p u)
  | complete g f p u => exact follows_noAnswer (completeDownload_writesFirst _ g f u)
  | showDownloads u => exact follows_answerData (showDownloads_writesFirst _ u)

end Handlers

/-! ### Files that have been written are there -/

lemma Call.tame_of_inOrder {files : List Path} {W : Set Path} {o : Call}
    (h : o.inOrder files W) : o.tame := by
  cases o with
  | prim o =>
    cases o with
    | sync p => trivial
    | _ => exact h
  | _ => exact h

lemma Call.mem_writing {o : Call} {W : Set Path} {p : Path} :
    p ∈ o.writing W ↔ p ∈ W ∨ o.output = some p := by
  cases o with
  | prim o => cases o <;> simp [eq_comm, or_comm]
  | rewrite mode q drop => simp [eq_comm, or_comm]
  | _ => simp

lemma Call.tame.output_ne_temp {o : Call} {p : Path} (h : o.tame) (hp : o.output = some p) :
    cStr p ≠ tempFile := by
  cases o with
  | prim o =>
    cases o with
    | append q c =>
      cases hp
      exact h
    | create q c =>
      cases hp
      exact h
    | _ => cases hp
  | rewrite mode q drop =>
    cases hp
    exact h
  | _ => cases hp

/-- The files that have been written are there if their names can be stored. -/
def StillThere (W : Set Path) (s : Session) : Prop :=
  ∀ p ∈ W, cStr p ≠ tempFile ∧ (storable p = true → s.disk.read p ≠ none)

section StillThere

variable {files : List Path} {W : Set Path} {s s' : Session}

/-- The step lemma: what has been written stays, and what is written is added. -/
lemma StillThere.step (o : Call) {a : callAns o} (ho : o.tame) (h : StillThere W s)
    (hs : limitedInterp o s = some (a, s')) : StillThere (o.writing W) s' := by
  intro p hp
  rcases Call.mem_writing.mp hp with hold | hnew
  · exact ⟨(h p hold).1, fun hstored =>
      read_step o ho (h p hold).1 (Or.inl ((h p hold).2 hstored)) hs⟩
  · have hne := ho.output_ne_temp hnew
    exact ⟨hne, fun hstored => read_step o ho hne (Or.inr ⟨hnew, hstored⟩) hs⟩

lemma StillThere.not_nullHandle {o : Call} (hfiles : ∀ p ∈ files, storable p = true)
    (ho : o.inOrder files W) (h : StillThere W s) : ¬ nullHandle o s := by
  rw [nullHandle_iff]
  rintro ⟨p, rfl, hread⟩
  rw [clip_of_storable (hfiles p ho.1)] at hread
  exact (h p ho.2).2 (hfiles p ho.1) hread

/-- A program that sends only what it has written comes to no file that is not there, if all
    names can be stored. -/
lemma WritesFirst.not_reaches {α : Type} {p : Prog callSig α} (hp : WritesFirst files W p)
    (hfiles : ∀ p ∈ files, storable p = true) (h : StillThere W s) :
    ¬ p.Reaches limitedInterp nullHandle s :=
  Prog.Follows.not_reaches (R := StillThere)
    (fun o _ _ _ _ ho hs hstep => ⟨trivial, hs.step o (Call.tame_of_inOrder ho) hstep⟩)
    (fun _ _ _ ho hs => hs.not_nullHandle hfiles ho) hp h

end StillThere

/-! ### The file of pending requests -/

/-- The states of a tracker process. It starts with empty tables on the files it finds, processes
    messages of clients, and receives files from its sibling. -/
inductive Tracker.Reachable (sha256 : Str → List (Fin 256)) : Tracker → Prop where
  | start (d : Disk) : Reachable sha256 ⟨d, {}⟩
  | client {t : Tracker} {s : Session} {c : Command} {message : Str} {salt : List (Fin 256)}
      {online : Bool} {reply : Reply} (ht : Reachable sha256 t)
      (hmessage : Request.parse message = .client c)
      (hrun : (trackerKernel (hashPassword sha256) c).run limitedInterp
        ⟨t, generateSalt salt, online, []⟩ = some (reply, s)) : Reachable sha256 s.tracker
  | receive {t : Tracker} (ht : Reachable sha256 t) (p : Path) (c : Str) :
      Reachable sha256 (t.receive [(clip p, c)])

/-- With groups in the table the file of pending requests has been read, and is there. -/
def Tracker.PendingThere (t : Tracker) : Prop :=
  t.memory.groups ≠ [] → t.disk.read pendingFile ≠ none

/-- Only `FetchDetails` changes the table of groups. -/
lemma groups_step (o : Call) {a : callAns o} {s s' : Session} (ho : o.tame)
    (hload : o ≠ .fetchDetails) (hs : limitedInterp o s = some (a, s')) :
    s'.memory.groups = s.memory.groups := by
  cases o with
  | prim o =>
    rw [limitedInterp_prim] at hs
    cases o with
    | modify f =>
      cases hs
      exact ho s.memory
    | sync p =>
      obtain ⟨sent, rfl⟩ := primInterp_sync hs
      rfl
    | remove p => exact ho.elim
    | rename p q => exact ho.elim
    | fault => cases hs
    | _ => cases hs; rfl
  | fetchDetails => exact absurd rfl hload
  | fetchGroupMembers g =>
    rw [limitedInterp_fetchGroupMembers] at hs
    cases hs
    rfl
  | rewrite mode p drop =>
    simp only [limitedInterp_rewrite, callInterp_rewrite, Option.map_eq_some_iff,
      Prod.mk.injEq] at hs
    obtain ⟨ks, -, -, rfl⟩ := hs
    rfl

/-- The step lemma. -/
lemma Tracker.PendingThere.step (o : Call) {a : callAns o} {s s' : Session} (ho : o.tame)
    (h : s.tracker.PendingThere) (hs : limitedInterp o s = some (a, s')) :
    s'.tracker.PendingThere := by
  by_cases hload : o = .fetchDetails
  · subst hload
    simp only [limitedInterp_fetchDetails, callInterp_fetchDetails, Option.map_eq_some_iff,
      Prod.mk.injEq] at hs
    obtain ⟨m, -, -, rfl⟩ := hs
    exact fun _ => Disk.read_touch_self (by decide)
  · intro hgroups
    have hsame : s'.memory.groups = s.memory.groups := groups_step o ho hload hs
    have hthere : s.disk.read pendingFile ≠ none := h fun hnil => hgroups (hsame.trans hnil)
    exact read_step o ho pendingFile_ne_temp (Or.inl hthere) hs

/-- In every state that is reached, the file is there as soon as there are groups. -/
lemma Tracker.Reachable.pendingThere {sha256 : Str → List (Fin 256)} {t : Tracker}
    (h : t.Reachable sha256) : t.PendingThere := by
  induction h with
  | start d => exact fun hgroups => absurd rfl hgroups
  | @client t s c message salt online reply ht hmessage hrun ih =>
    have htame : (trackerKernel (hashPassword sha256) c).Only Call.tame :=
      Prog.Follows.only (fun _ _ ho => Call.tame_of_inOrder ho) (fun _ _ => trivial)
        (trackerKernel_writesFirst (hashPassword sha256) {pendingFile} c fun _ _ _ => rfl)
    obtain ⟨-, -, hthere⟩ := Prog.Follows.run (R := fun (_ : Unit) s => s.tracker.PendingThere)
      (fun o _ _ _ _ ho hs hstep => ⟨trivial, hs.step o ho hstep⟩) htame ih hrun
    exact hthere
  | receive ht p c ih => exact fun hgroups => Disk.read_create_ne_none c (Or.inl (ih hgroups))

/-! ### No file that is not there -/

/-- The state with the sibling online. -/
def Session.withSibling (s : Session) (sent : List (Path × Str)) : Session :=
  { s with siblingOnline := true, sent := sent }

/-- The sibling makes a difference to nothing but `Sync`. -/
lemma limitedInterp_withSibling (o : Call) {a : callAns o} {s s' : Session}
    (sent : List (Path × Str)) (hs : limitedInterp o s = some (a, s')) :
    nullHandle o (s.withSibling sent) ∨
      ∃ sent', limitedInterp o (s.withSibling sent) = some (a, s'.withSibling sent') := by
  cases o with
  | prim o =>
    rw [limitedInterp_prim] at hs ⊢
    cases o with
    | sync p =>
      cases hread : s.disk.read (clip p) with
      | none => exact Or.inl ((nullHandle_iff _ _).mpr ⟨p, rfl, hread⟩)
      | some c =>
        have hs' : s'.withSibling (sent ++ [(clip p, c)]) =
            s.withSibling (sent ++ [(clip p, c)]) := by
          simp only [limitedPrim, primInterp, Session.sync, hread] at hs
          split_ifs at hs
          · cases hs
            rfl
          · cases hs
            rfl
        refine Or.inr ⟨sent ++ [(clip p, c)], ?_⟩
        have hread' : (s.withSibling sent).disk.read (clip p) = some c := hread
        rw [hs']
        simp only [limitedPrim, primInterp, Session.sync, hread']
        rfl
    | fault => cases hs
    | _ =>
      cases hs
      exact Or.inr ⟨sent, rfl⟩
  | fetchDetails =>
    right
    rw [limitedInterp_fetchDetails, callInterp_fetchDetails] at hs ⊢
    obtain ⟨m, hm, heq⟩ := Option.map_eq_some_iff.mp hs
    cases heq
    exact ⟨sent, Option.map_eq_some_iff.mpr ⟨m, hm, rfl⟩⟩
  | fetchGroupMembers g =>
    right
    rw [limitedInterp_fetchGroupMembers] at hs ⊢
    cases hs
    exact ⟨sent, rfl⟩
  | rewrite mode p drop =>
    right
    rw [limitedInterp_rewrite, callInterp_rewrite] at hs ⊢
    obtain ⟨ks, hks, heq⟩ := Option.map_eq_some_iff.mp hs
    cases heq
    exact ⟨sent, Option.map_eq_some_iff.mpr ⟨ks, hks, rfl⟩⟩

/-- A handler that gets through with the sibling online sends no file that is not there, whether
    the sibling is online or not. -/
lemma not_reaches_of_run_online {α : Type} {p : Prog callSig α} {t : Tracker} {salt : Str}
    {online : Bool} (hrun : p.run limitedInterp ⟨t, salt, true, []⟩ ≠ none) :
    ¬ p.Reaches limitedInterp nullHandle ⟨t, salt, online, []⟩ := by
  have hnone : ∀ o s, nullHandle o s ∧ s.siblingOnline = true → limitedInterp o s = none := by
    rintro o s ⟨hbad, honline⟩
    obtain ⟨p, rfl, hread⟩ := (nullHandle_iff o s).mp hbad
    simp [limitedPrim, primInterp, Session.sync, honline, hread]
  intro hreach
  refine Prog.not_reaches_of_run hnone hrun (hreach.simulate
    (R := fun s s' => ∃ sent, s' = s.withSibling sent) ?_ ?_ ⟨[], rfl⟩)
  · rintro o s _ ⟨sent, rfl⟩ hbad
    rw [nullHandle_iff] at hbad ⊢
    exact ⟨hbad, rfl⟩
  · rintro o s _ a s' ⟨sent, rfl⟩ hs
    rcases limitedInterp_withSibling o sent hs with hbad | ⟨sent', hs'⟩
    · exact Or.inl ⟨hbad, rfl⟩
    · exact Or.inr ⟨_, hs', sent', rfl⟩

end TorrentShare
