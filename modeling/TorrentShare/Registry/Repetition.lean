import TorrentShare.Registry.Histories

/-!
# Commands that are sent again

A client that has not heard of a command may send it again at once. Most commands change nothing
the second time.
-/

namespace TorrentShare

open Program

/-- Commands that can be sent again. `give_sha` and `complete` add a line each time. -/
def Command.Repeatable : Command → Prop
  | .giveSha ..  => False
  | .complete .. => False
  | _            => True

/-- The same command, processed again. -/
def Act.Again : Act → Act → Prop
  | .command c _ _, .command c' _ _ => c' = c ∧ c.Repeatable
  | .restart, .restart              => True
  | _, _                            => False

namespace Registry

variable {sha256 : Str → List (Fin 256)} {R : Registry Str} {c : Command}

lemma command_again (hc : c.Repeatable) (salt salt' : Str) :
    ((R.command sha256 salt c).2.command sha256 salt' c).2 = (R.command sha256 salt c).2 := by
  cases c with
  | giveSha g f u => exact hc.elim
  | complete g f p u => exact hc.elim
  | login u p port ip =>
    change ((R.login (hashPassword sha256) u p port ip).2.login (hashPassword sha256)
      u p port ip).2 = (R.login (hashPassword sha256) u p port ip).2
    generalize hlogin : (R.login (hashPassword sha256) u p port ip).2 = R'
    rw [login] at hlogin
    split_ifs at hlogin with hknows haddress
    · have hknows' : R'.Knows (hashPassword sha256) u p := by
        rw [← hlogin]
        exact hknows
      rw [login, if_pos hknows', if_neg (by simp [← hlogin]), ← hlogin]
      rfl
    · have hknows' : R'.Knows (hashPassword sha256) u p := by
        rw [← hlogin]
        exact hknows
      rw [login, if_pos hknows', if_neg (by rw [← hlogin]; exact haddress), ← hlogin]
      rfl
    · have hknows' : ¬ R'.Knows (hashPassword sha256) u p := by
        rw [← hlogin]
        exact hknows
      rw [login, if_neg hknows', ← hlogin]
      rfl
  | createUser u p port ip =>
    change ((R.createUser salt u p port ip).2.createUser salt' u p port ip).2 =
      (R.createUser salt u p port ip).2
    generalize hcreate : (R.createUser salt u p port ip).2 = R'
    rw [createUser] at hcreate
    split_ifs at hcreate with hnew
    · rw [createUser, if_neg (by simp [← hcreate]), ← hcreate]
      rfl
    · rw [createUser, if_neg (by rw [← hcreate]; exact hnew), ← hcreate]
      rfl
  | logout u =>
    change ((R.logout u).2.logout u).2 = (R.logout u).2
    generalize hlogout : (R.logout u).2 = R'
    rw [logout] at hlogout
    split_ifs at hlogout with haddress
    · rw [logout, if_pos (by rw [← hlogout]; exact haddress), ← hlogout]
      rfl
    · rw [logout, if_pos (by simp [← hlogout]), ← hlogout]
      rfl
  | createGroup g u =>
    change ((R.createGroup g u).2.createGroup g u).2 = (R.createGroup g u).2
    generalize hcreate : (R.createGroup g u).2 = R'
    rw [createGroup] at hcreate
    split_ifs at hcreate with hnew
    · rw [createGroup, if_neg (by simp [← hcreate]), ← hcreate]
      rfl
    · rw [createGroup, if_neg (by rw [← hcreate]; exact hnew), ← hcreate]
      rfl
  | joinGroup g u =>
    change ((R.joinGroup g u).2.joinGroup g u).2 = (R.joinGroup g u).2
    generalize hjoin : (R.joinGroup g u).2 = R'
    rw [joinGroup] at hjoin
    split_ifs at hjoin with hgroup hmember
    · rw [joinGroup, if_pos (by rw [← hjoin]; exact hgroup)]
    · rw [joinGroup, if_neg (by rw [← hjoin]; exact hgroup),
        if_pos (by rw [← hjoin]; exact hmember)]
    · rw [joinGroup, if_neg (by rw [← hjoin]; exact hgroup),
        if_neg (by rw [← hjoin]; exact hmember), ← hjoin]
      simp
  | acceptRequest g u a =>
    change ((R.acceptRequest g u a).2.acceptRequest g u a).2 = (R.acceptRequest g u a).2
    generalize haccept : (R.acceptRequest g u a).2 = R'
    rw [acceptRequest] at haccept
    split_ifs at haccept with hgranted hmember
    · rw [acceptRequest, if_pos (by rw [← haccept]; exact hgranted),
        if_pos (by rw [← haccept]; exact hmember)]
    · rw [acceptRequest, if_pos (by rw [← haccept]; exact hgranted), if_pos (by simp [← haccept])]
    · rw [acceptRequest, if_neg (by rw [← haccept]; exact hgranted)]
  | uploadFile z size g u f p =>
    change ((R.uploadFile z size g u f p).2.uploadFile z size g u f p).2 =
      (R.uploadFile z size g u f p).2
    generalize hupload : (R.uploadFile z size g u f p).2 = R'
    rw [uploadFile] at hupload
    split_ifs at hupload with hmember hshared hclash
    · rw [uploadFile, if_pos (by rw [← hupload]; exact hmember)]
    · rw [uploadFile, if_neg (by rw [← hupload]; exact hmember),
        if_pos (by rw [← hupload]; exact hshared)]
    · rw [uploadFile, if_neg (by rw [← hupload]; exact hmember),
        if_neg (by rw [← hupload]; exact hshared), if_pos (by rw [← hupload]; exact hclash)]
    · rw [uploadFile, if_neg (by rw [← hupload]; exact hmember), if_pos]
      rw [← hupload]
      exact ⟨⟨z, size, u, R.nameFor g z f⟩, by simp, rfl, rfl⟩
  | stopShare g f u =>
    change ((R.stopShare g f u).2.stopShare g f u).2 = (R.stopShare g f u).2
    generalize hstop : (R.stopShare g f u).2 = R'
    rw [stopShare] at hstop
    split_ifs at hstop with hmember
    · rw [stopShare, if_pos (by rw [← hstop]; exact hmember), ← hstop]
      simp
    · rw [stopShare, if_neg (by rw [← hstop]; exact hmember)]
  | leaveGroup g u =>
    change ((R.leaveGroup g u).2.leaveGroup g u).2 = (R.leaveGroup g u).2
    generalize hleft : (R.leaveGroup g u).2 = R'
    rw [leaveGroup] at hleft
    split_ifs at hleft with hleave
    · rw [leaveGroup, if_neg (by simp [← hleft])]
    · rw [leaveGroup, if_neg (by rw [← hleft]; exact hleave)]
  | addFile g f p u =>
    change ((R.addFile [] g f p u).2.addFile [] g f p u).2 = (R.addFile [] g f p u).2
    generalize hadd : (R.addFile [] g f p u).2 = R'
    rw [addFile] at hadd
    split_ifs at hadd with hlisted
    · rw [addFile, if_pos (by rw [← hadd]; exact hlisted), ← hadd]
      rfl
    · rw [addFile, if_pos]
      · rw [← hadd]
        rfl
      · rw [← hadd]
        exact ⟨⟨g, f, p⟩, by simp, rfl⟩
  | _ => rfl

lemma act_again {a b : Act} (h : a.Again b) :
    ((R.act sha256 a).2.act sha256 b).2 = (R.act sha256 a).2 := by
  cases a with
  | restart =>
    cases b with
    | restart => rfl
    | command c salt online => exact h.elim
  | command c salt online =>
    cases b with
    | restart => exact h.elim
    | command c' salt' online' =>
      obtain ⟨rfl, hc⟩ := h
      exact command_again hc (generateSalt salt) (generateSalt salt')

end Registry

end TorrentShare
