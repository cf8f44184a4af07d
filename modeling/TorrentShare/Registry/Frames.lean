import TorrentShare.Program.Since
import TorrentShare.Registry.Runs

/-!
# What commands leave alone

For each part of a registry the few commands that change it, and what the files of a tracker say
about it.
-/

namespace TorrentShare

open Program

namespace Registry

section Frames

variable {sha256 : Str → List (Fin 256)} {R : Registry Str} {salt : Str} {c : Command}

lemma command_account (h : ∀ u p port ip, c ≠ .createUser u p port ip) :
    (R.command sha256 salt c).2.account = R.account := by
  cases c with
  | createUser u p port ip => exact absurd rfl (h u p port ip)
  | _ =>
    simp only [command, login, createGroup, logout, joinGroup, acceptRequest, uploadFile, stopShare,
      leaveGroup, giveSha, addFile]
    first | rfl | (split_ifs <;> rfl)

lemma command_owner (h : ∀ g u, c ≠ .createGroup g u) :
    (R.command sha256 salt c).2.owner = R.owner := by
  cases c with
  | createGroup g u => exact absurd rfl (h g u)
  | _ =>
    simp only [command, login, createUser, logout, joinGroup, acceptRequest, uploadFile, stopShare,
      leaveGroup, giveSha, addFile]
    first | rfl | (split_ifs <;> rfl)

lemma command_members (hcreate : ∀ g u, c ≠ .createGroup g u)
    (haccept : ∀ g u a, c ≠ .acceptRequest g u a) (hleave : ∀ g u, c ≠ .leaveGroup g u) :
    (R.command sha256 salt c).2.members = R.members := by
  cases c with
  | createGroup g u => exact absurd rfl (hcreate g u)
  | acceptRequest g u a => exact absurd rfl (haccept g u a)
  | leaveGroup g u => exact absurd rfl (hleave g u)
  | _ =>
    simp only [command, login, createUser, logout, joinGroup, uploadFile, stopShare, giveSha,
      addFile]
    first | rfl | (split_ifs <;> rfl)

lemma command_requests (hjoin : ∀ g u, c ≠ .joinGroup g u)
    (haccept : ∀ g u a, c ≠ .acceptRequest g u a) :
    (R.command sha256 salt c).2.requests = R.requests := by
  cases c with
  | joinGroup g u => exact absurd rfl (hjoin g u)
  | acceptRequest g u a => exact absurd rfl (haccept g u a)
  | _ =>
    simp only [command, login, createUser, createGroup, logout, uploadFile, stopShare, leaveGroup,
      giveSha, addFile]
    first | rfl | (split_ifs <;> rfl)

lemma command_downloading (hcreate : ∀ u p port ip, c ≠ .createUser u p port ip)
    (hgive : ∀ g f u, c ≠ .giveSha g f u) (hcomplete : ∀ g f p u, c ≠ .complete g f p u) :
    (R.command sha256 salt c).2.downloading = R.downloading := by
  cases c with
  | createUser u p port ip => exact absurd rfl (hcreate u p port ip)
  | giveSha g f u => exact absurd rfl (hgive g f u)
  | complete g f p u => exact absurd rfl (hcomplete g f p u)
  | _ =>
    simp only [command, login, createGroup, logout, joinGroup, acceptRequest, uploadFile, stopShare,
      leaveGroup, addFile]
    first | rfl | (split_ifs <;> rfl)

lemma command_downloaded (hcreate : ∀ u p port ip, c ≠ .createUser u p port ip)
    (hcomplete : ∀ g f p u, c ≠ .complete g f p u) :
    (R.command sha256 salt c).2.downloaded = R.downloaded := by
  cases c with
  | createUser u p port ip => exact absurd rfl (hcreate u p port ip)
  | complete g f p u => exact absurd rfl (hcomplete g f p u)
  | _ =>
    simp only [command, login, createGroup, logout, joinGroup, acceptRequest, uploadFile, stopShare,
      leaveGroup, giveSha, addFile]
    first | rfl | (split_ifs <;> rfl)

end Frames

end Registry

/-! ### What the files of a tracker hold -/

section Files

variable {sha256 : Str → List (Fin 256)} {E : Entities} {R : Registry Str} {t : Tracker}
  {g u : Str}

lemma Tracker.Represents.mem_members (h : t.Represents sha256 E R) (hg : E.group g) :
    u ∈ t.disk.lines (membersFile g) ↔ u ∈ R.members g := by
  obtain ⟨F, P, hd, hF, -⟩ := h.filed
  rw [show t.disk.lines (membersFile g) = F (.members g) from hd.lines (.members g) hg]
  exact (hF (.members g)).mem_iff u

lemma Tracker.Represents.owner (h : t.Represents sha256 E R) (g : Str) :
    t.disk.owner g = R.owner g := by
  obtain ⟨F, P, hd, hF, -⟩ := h.filed
  obtain ⟨m, hm⟩ := hF.reload hd {}
  rw [Disk.owner, ← groups_reload hm]
  exact (hF.lookup_groups h.sound hd hm).2 g

lemma Tracker.Represents.mem_requests (h : t.Represents sha256 E R) {l : Str} :
    l ∈ t.disk.lines pendingFile ↔ ∃ q ∈ R.requests, pairLine q = l := by
  obtain ⟨F, P, hd, hF, -⟩ := h.filed
  obtain ⟨ps, hps, hpsS⟩ := hF .requests
  rw [show t.disk.lines pendingFile = F .requests from hd.lines .requests trivial, hps]
  simp [hpsS]

lemma Tracker.Represents.shares (h : t.Represents sha256 E R) (hg : E.group g) :
    t.disk.lines (groupFilesFile g) = (R.shares g).map Share.line := by
  obtain ⟨F, P, hd, hF, -⟩ := h.filed
  exact (hd.lines (.shared g) hg).trans (hF.shares g)

lemma Tracker.Represents.copies (h : t.Represents sha256 E R) (hu : E.user u) :
    t.disk.lines (userFilesFile u) = (R.copies u).map Location.line := by
  obtain ⟨F, P, hd, hF, -⟩ := h.filed
  exact (hd.lines (.files u) hu).trans (hF.copies u)

lemma Tracker.Represents.downloading (h : t.Represents sha256 E R) (hu : E.user u) :
    t.disk.lines (downloadingFile u) = (R.downloading u).map pairLine := by
  obtain ⟨F, P, hd, hF, -⟩ := h.filed
  exact (hd.lines (.downloading u) hu).trans (hF (.downloading u))

lemma Tracker.Represents.downloaded (h : t.Represents sha256 E R) (hu : E.user u) :
    t.disk.lines (downloadedFile u) = (R.downloaded u).map pairLine := by
  obtain ⟨F, P, hd, hF, -⟩ := h.filed
  exact (hd.lines (.downloaded u) hu).trans (hF (.downloaded u))

end Files

end TorrentShare
