import Mathlib.Data.Set.Insert
import TorrentShare.Tracker.Session

/-!
# Every handler pushes what it changes

A handler may change a file only if it calls `Sync` on it afterwards. The files it still has to
send are the ghost state of a discipline, and each handler starts and ends without any.
-/

namespace TorrentShare

open Program

/-- What a handler may call: no file operation of its own on the temporary file. -/
@[simp] def Call.sparesTemp : Call → Prop
  | .prim (.append p _) => cStr p ≠ tempFile
  | .prim (.create p _) => cStr p ≠ tempFile
  | .prim (.sync p)     => cStr p ≠ tempFile
  | .rewrite _ p _      => cStr p ≠ tempFile
  | .prim (.remove _)   => False
  | .prim (.rename _ _) => False
  | _                   => True

/-- How a call changes the set of files still to be sent. -/
@[simp] def Call.owing : Call → Set Path → Set Path
  | .prim (.append p _), D => insert (cStr p) D
  | .prim (.create p _), D => insert (cStr p) D
  | .rewrite _ p _,      D => insert (cStr p) D
  | .prim (.sync p),     D => D \ {cStr p}
  | _,                   D => D

/-- The discipline of changing and sending. -/
def owes : Discipline callSig (Set Path) where
  allowed o _ := o.sparesTemp
  next o _ D := o.owing D
  admits _ _ := True

@[simp] lemma owes_allowed (o : Call) (D : Set Path) : owes.allowed o D = o.sparesTemp := rfl
@[simp] lemma owes_next (o : Call) (a : callAns o) (D : Set Path) :
    owes.next o a D = o.owing D := rfl
@[simp] lemma owes_admits (o : Call) (a : callAns o) : owes.admits o a = True := rfl

/-- A program that starts with nothing to send and has nothing left to send at its end. -/
def SendsAll {α : Type} (p : Prog callSig α) : Prop :=
  p.Follows owes ∅ fun _ D => ∀ q, q ∉ D

section Helpers

variable {D : Set Path}

@[simp] lemma deleteLine_owes (p : Path) (d : Str) (i : ℕ) (Q : Unit → Set Path → Prop) :
    (deleteLine p d i).Follows owes D Q ↔ cStr p ≠ tempFile ∧ Q () (insert (cStr p) D) := by
  simp [deleteLine, call, Prog.follows_bind, Unique.forall_iff]

@[simp] lemma deleteWholeLine_owes (p : Path) (d : Str) (Q : Unit → Set Path → Prop) :
    (deleteWholeLine p d).Follows owes D Q ↔ cStr p ≠ tempFile ∧ Q () (insert (cStr p) D) := by
  simp [deleteWholeLine, call, Prog.follows_bind, Unique.forall_iff]

end Helpers

section Handlers

variable (hashPassword : Str → Str → Str)

lemma userLogin_sendsAll (u p port ip : Str) : SendsAll (userLogin hashPassword u p port ip) := by
  simp only [SendsAll, userLogin, call, Prog.follows_bind, fetchDetails_follows,
    Prog.follows_call, Prog.follows_ret, owes_allowed, Call.sparesTemp, true_and]
  intro m _
  split
  · simp
  · simp [Prog.follows_ite]

lemma userCreate_sendsAll (u p port ip : Str) : SendsAll (userCreate hashPassword u p port ip) := by
  simp only [SendsAll, userCreate, call, Prog.follows_bind, fetchDetails_follows,
    Prog.follows_call, Prog.follows_ret, owes_allowed, Call.sparesTemp, true_and]
  intro m _
  split
  · simp
  · simp [Prog.follows_bind]

lemma logout_sendsAll (u : Str) : SendsAll (logout u) := by
  simp [SendsAll, logout, call, Prog.follows_bind, Prog.follows_ite]

lemma groupCreate_sendsAll (g u : Str) : SendsAll (groupCreate g u) := by
  simp only [SendsAll, groupCreate, call, Prog.follows_bind, fetchDetails_follows,
    Prog.follows_call, Prog.follows_ret, owes_allowed, Call.sparesTemp, true_and]
  intro m _
  split
  · simp
  · simp [Prog.follows_bind]

lemma groupList_sendsAll : SendsAll groupList := by
  simp [SendsAll, groupList, call, Prog.follows_bind]

lemma groupRequestList_sendsAll (g u : Str) : SendsAll (groupRequestList g u) := by
  simp only [SendsAll, groupRequestList, call, Prog.follows_bind, fetchDetails_follows,
    Prog.follows_call, Prog.follows_ret, owes_allowed, Call.sparesTemp, true_and]
  intro m _
  split
  · simp
  · simp [Prog.follows_ite]

lemma groupFileList_sendsAll (g : Str) : SendsAll (groupFileList g) := by
  simp only [SendsAll, groupFileList, call, Prog.follows_bind, fetchDetails_follows,
    Prog.follows_call, Prog.follows_ret, owes_allowed, Call.sparesTemp, true_and]
  intro m _
  split
  · simp
  · simp [Prog.follows_bind]

lemma groupJoin_sendsAll (g u : Str) : SendsAll (groupJoin g u) := by
  simp only [SendsAll, groupJoin, call, Prog.follows_bind, Prog.follows_call,
    Prog.follows_ret, owes_allowed, Call.sparesTemp, true_and]
  intro m _
  split
  · simp
  · simp [Prog.follows_bind, Prog.follows_ite]

lemma groupAcceptRequest_sendsAll (g u a : Str) : SendsAll (groupAcceptRequest g u a) := by
  simp [SendsAll, groupAcceptRequest, call, Prog.follows_bind, Prog.follows_ite]

lemma groupLeave_sendsAll (g u : Str) : SendsAll (groupLeave g u) := by
  simp only [SendsAll, groupLeave, call, Prog.follows_bind, Prog.follows_call,
    Prog.follows_ret, owes_allowed, Call.sparesTemp, true_and]
  intro m _
  split
  · simp
  · simp [Prog.follows_bind, Prog.follows_ite]

lemma groupFileUpload_sendsAll (h size g u f p : Str) :
    SendsAll (groupFileUpload h size g u f p) := by
  simp [SendsAll, groupFileUpload, call, Prog.follows_bind, Prog.follows_ite, checkGroupFiles,
    getGroupFileName, checkIntegrity]

lemma groupStopShare_sendsAll (g f u : Str) : SendsAll (groupStopShare g f u) := by
  simp [SendsAll, groupStopShare, call, Prog.follows_bind, Prog.follows_ite]

lemma sendSHA_sendsAll (g f u : Str) : SendsAll (sendSHA g f u) := by
  simp only [SendsAll, sendSHA, call, Prog.follows_bind, fetchDetails_follows,
    Prog.follows_call, Prog.follows_ret, owes_allowed, Call.sparesTemp, true_and]
  intro m _
  split
  · simp
  · simp [Prog.follows_bind, Prog.follows_ite]

lemma sendSeeders_sendsAll (g f : Str) : SendsAll (sendSeeders g f) := by
  simp [SendsAll, sendSeeders, call, Prog.follows_bind]

lemma sendDetails_sendsAll (u : Str) : SendsAll (sendDetails u) := by
  simp [SendsAll, sendDetails, call, Prog.follows_bind]

lemma getFullPath_sendsAll (u g f : Str) : SendsAll (getFullPath u g f) := by
  simp [SendsAll, getFullPath, call, Prog.follows_bind]

lemma updateDownload_sendsAll (g f p u : Str) : SendsAll (updateDownload g f p u) := by
  simp [SendsAll, updateDownload, call, Prog.follows_bind, Prog.follows_ite]

lemma showDownloads_sendsAll (u : Str) : SendsAll (showDownloads u) := by
  simp [SendsAll, showDownloads, call, Prog.follows_bind]

lemma completeDownload_sendsAll (g f u : Str) : SendsAll (completeDownload g f u) := by
  simp [SendsAll, completeDownload, call, Prog.follows_bind]

/-- Whichever branch a handler takes, every file it changes is sent after its last change. -/
lemma trackerKernel_sendsAll (c : Command) : SendsAll (trackerKernel hashPassword c) := by
  cases c with
  | login u p port ip => exact follows_answer (userLogin_sendsAll hashPassword u p port ip)
  | createUser u p port ip => exact follows_answer (userCreate_sendsAll hashPassword u p port ip)
  | createGroup g u => exact follows_answer (groupCreate_sendsAll g u)
  | listGroups => exact follows_answerData groupList_sendsAll
  | joinGroup g u => exact follows_answer (groupJoin_sendsAll g u)
  | listRequests g u => exact follows_answerData (groupRequestList_sendsAll g u)
  | acceptRequest g u a => exact follows_answer (groupAcceptRequest_sendsAll g u a)
  | uploadFile h s g u f p => exact follows_answer (groupFileUpload_sendsAll h s g u f p)
  | listFiles g => exact follows_answerData (groupFileList_sendsAll g)
  | stopShare g f u => exact follows_answer (groupStopShare_sendsAll g f u)
  | leaveGroup g u => exact follows_answer (groupLeave_sendsAll g u)
  | logout u => exact follows_answer (logout_sendsAll u)
  | giveSha g f u => exact follows_answerData (sendSHA_sendsAll g f u)
  | giveSeeders g f u => exact follows_answerData (sendSeeders_sendsAll g f)
  | giveDetails u => exact follows_answerData (sendDetails_sendsAll u)
  | sendFullPath u g f => exact follows_answerData (getFullPath_sendsAll u g f)
  | addFile g f p u => exact follows_noAnswer (updateDownload_sendsAll g f p u)
  | complete g f p u => exact follows_noAnswer (completeDownload_sendsAll g f u)
  | showDownloads u => exact follows_answerData (showDownloads_sendsAll u)

end Handlers

end TorrentShare
