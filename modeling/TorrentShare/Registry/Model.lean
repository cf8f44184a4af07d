import Mathlib.Data.Set.Insert
import Mathlib.Logic.Function.Basic
import TorrentShare.Tracker.Handlers

/-!
# What a tracker is for

Accounts, sessions, groups, requests to join them, and who shares which file where: a registry
keeps them as tables and sets, without files and without copies of files in memory. Its operations
say what the commands of clients mean.
-/

namespace TorrentShare

/-- A user shares a file in a group, with the hash and the size given for it. -/
structure Share (ν : Type) where
  hash : ν
  size : ν
  user : ν
  name : ν

/-- Where a user keeps a file of a group. -/
structure Location (ν : Type) where
  group : ν
  name : ν
  path : ν

/-- The state of a registry. `remembered` are the requests that have been there since the registry
    was last refreshed. -/
structure Registry (ν : Type) where
  account : ν → Option (ν × ν)
  address : ν → Option (ν × ν)
  owner : ν → Option ν
  members : ν → Set ν
  requests : Set (ν × ν)
  remembered : Set (ν × ν)
  shares : ν → List (Share ν)
  copies : ν → List (Location ν)
  downloading : ν → List (ν × ν)
  downloaded : ν → List (ν × ν)

/-- What a registry answers. Names are told in ascending order, or in an order that is left open. -/
inductive Answer (ν : Type) where
  | done (b : Bool)
  | names (S : Set ν)
  | ascending (S : Set ν)
  | word (w : Option ν)
  | seeders (S : Set ν) (size : Option ν)
  | address (a : Option (ν × ν))
  | transfers (running finished : List (ν × ν))
  | silent

namespace Registry

variable {ν δ : Type}

/-- A registry of nothing. -/
def empty : Registry ν where
  account _ := none
  address _ := none
  owner _ := none
  members _ := ∅
  requests := ∅
  remembered := ∅
  shares _ := []
  copies _ := []
  downloading _ := []
  downloaded _ := []

/-- Only the requests that are there are remembered. -/
def refresh (R : Registry ν) : Registry ν := { R with remembered := R.requests }

/-- The password is that of the account, as far as digests tell. -/
def Knows (R : Registry ν) (digest : ν → ν → δ) (u p : ν) : Prop :=
  ∃ password salt, R.account u = some (password, salt) ∧ digest salt p = digest salt password

/-- A user shares the file in the group. -/
def Sharing (R : Registry ν) (g u f : ν) : Prop := ∃ s ∈ R.shares g, s.user = u ∧ s.name = f

variable [DecidableEq ν]

open Classical

/-! ### Accounts -/

noncomputable def login (R : Registry ν) (digest : ν → ν → δ) (u p port ip : ν) :
    Answer ν × Registry ν :=
  if R.Knows digest u p then
    (.done true, if R.address u = none then
      { R.refresh with address := Function.update R.address u (some (ip, port)) } else R.refresh)
  else (.done false, R.refresh)

noncomputable def createUser (R : Registry ν) (salt u p port ip : ν) : Answer ν × Registry ν :=
  if R.account u = none then
    (.done true, { R.refresh with
      account := Function.update R.account u (some (p, salt))
      address := Function.update R.address u (some (ip, port))
      copies := Function.update R.copies u []
      downloading := Function.update R.downloading u []
      downloaded := Function.update R.downloaded u [] })
  else (.done false, R.refresh)

noncomputable def logout (R : Registry ν) (u : ν) : Answer ν × Registry ν :=
  if R.address u = none then (.done false, R.refresh)
  else (.done true, { R.refresh with address := Function.update R.address u none })

/-! ### Groups -/

noncomputable def createGroup (R : Registry ν) (g u : ν) : Answer ν × Registry ν :=
  if R.owner g = none then
    (.done true, { R.refresh with
      owner := Function.update R.owner g (some u)
      members := Function.update R.members g {u}
      shares := Function.update R.shares g [] })
  else (.done false, R.refresh)

def listGroups (R : Registry ν) : Answer ν × Registry ν :=
  (.names {g | R.owner g ≠ none}, R.refresh)

/-- The applicants of a group are for its owner to see. -/
def listRequests (R : Registry ν) (g u : ν) : Answer ν × Registry ν :=
  (.ascending {v | R.owner g = some u ∧ (v, g) ∈ R.requests}, R.refresh)

def listFiles (R : Registry ν) (g : ν) : Answer ν × Registry ν :=
  (.ascending {f | R.owner g ≠ none ∧ ∃ s ∈ R.shares g, s.name = f}, R.refresh)

noncomputable def joinGroup (R : Registry ν) (g u : ν) : Answer ν × Registry ν :=
  if R.owner g = none then (.done false, R)
  else if u ∈ R.members g then (.done true, R)
  else (.done true, { R with
    requests := insert (u, g) R.requests
    remembered := insert (u, g) R.remembered })

noncomputable def acceptRequest (R : Registry ν) (g u a : ν) : Answer ν × Registry ν :=
  if R.owner g = some a ∧ R.account u ≠ none ∧ (u, g) ∈ R.remembered then
    (.done true, if u ∈ R.members g then R else { R with
      members := Function.update R.members g (insert u (R.members g))
      requests := R.requests \ {(u, g)} })
  else (.done false, R)

noncomputable def leaveGroup (R : Registry ν) (g u : ν) : Answer ν × Registry ν :=
  if R.owner g ≠ none ∧ u ∈ R.members g ∧ R.owner g ≠ some u then
    (.done true, { R.refresh with
      members := Function.update R.members g (R.members g \ {u})
      shares := Function.update R.shares g ((R.shares g).filter (·.user ≠ u))
      copies := Function.update R.copies u ((R.copies u).filter (·.group ≠ g)) })
  else (.done false, R)

/-! ### Shared files -/

/-- The name under which an upload is recorded: that of the first record of its hash. -/
def nameFor (R : Registry ν) (g h f : ν) : ν :=
  (((R.shares g).find? (·.hash = h)).map (·.name)).getD f

noncomputable def uploadFile (R : Registry ν) (h z g u f p : ν) : Answer ν × Registry ν :=
  if R.owner g = none ∨ u ∉ R.members g then (.done false, R)
  else if ∃ s ∈ R.shares g, s.hash = h ∧ s.user = u then (.done true, R)
  else if ∃ s ∈ R.shares g, s.hash ≠ h ∧ s.name = R.nameFor g h f then (.done false, R)
  else (.done true, { R with
    shares := Function.update R.shares g (R.shares g ++ [⟨h, z, u, R.nameFor g h f⟩])
    copies := Function.update R.copies u (R.copies u ++ [⟨g, R.nameFor g h f, p⟩]) })

noncomputable def stopShare (R : Registry ν) (g f u : ν) : Answer ν × Registry ν :=
  if R.owner g ≠ none ∧ R.account u ≠ none ∧ u ∈ R.members g then
    (.done true, { R with
      shares := Function.update R.shares g
        ((R.shares g).filter fun s => ¬ (s.name = f ∧ s.user = u))
      copies := Function.update R.copies u
        ((R.copies u).filter fun c => ¬ (c.group = g ∧ c.name = f)) })
  else (.done false, R)

noncomputable def giveSha (R : Registry ν) (g f u : ν) : Answer ν × Registry ν :=
  if R.owner g ≠ none ∧ u ∈ R.members g then
    (.word (((R.shares g).find? (·.name = f)).map (·.hash)), { R.refresh with
      downloading := Function.update R.downloading u (R.downloading u ++ [(g, f)]) })
  else (.word none, R.refresh)

def giveSeeders (R : Registry ν) (g f : ν) : Answer ν × Registry ν :=
  (.seeders {u | R.address u ≠ none ∧ R.Sharing g u f}
    (((R.shares g).filter (·.name = f)).getLast?.map (·.size)), R.refresh)

def giveDetails (R : Registry ν) (u : ν) : Answer ν × Registry ν :=
  (.address (R.address u), R.refresh)

def sendFullPath (R : Registry ν) (u g f : ν) : Answer ν × Registry ν :=
  (.word (((R.copies u).find? fun c => c.group = g ∧ c.name = f).map (·.path)), R)

/-! ### Downloads -/

/-- A user who has a file of the name, in whatever group, is not recorded again. Hash and size are
    those of the first record of the name; `blank` stands for them if there is none. -/
noncomputable def addFile (R : Registry ν) (blank g f p u : ν) : Answer ν × Registry ν :=
  if ∃ c ∈ R.copies u, c.name = f then (.silent, R.refresh)
  else
    let s := (R.shares g).find? (·.name = f)
    (.silent, { R.refresh with
      copies := Function.update R.copies u (R.copies u ++ [⟨g, f, p⟩])
      shares := Function.update R.shares g (R.shares g ++
        [⟨(s.map (·.hash)).getD blank, (s.map (·.size)).getD blank, u, f⟩]) })

def complete (R : Registry ν) (g f u : ν) : Answer ν × Registry ν :=
  (.silent, { R.refresh with
    downloading := Function.update R.downloading u ((R.downloading u).filter (· ≠ (g, f)))
    downloaded := Function.update R.downloaded u (R.downloaded u ++ [(g, f)]) })

def showDownloads (R : Registry ν) (u : ν) : Answer ν × Registry ν :=
  (.transfers (R.downloading u) (R.downloaded u), R.refresh)

end Registry

end TorrentShare
