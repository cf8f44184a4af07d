import TorrentShare.Tracker.Calls

/-!
# The handlers of a tracker

One definition for each function of `tracker.cpp`, with the parameters `command1`, `command2`, ...
of the source named by what the dispatcher passes in them. `hashPassword` is the salted SHA-256
of OpenSSL.
-/

namespace TorrentShare

open Program

def call (o : Prim) : Prog callSig (primAns o) := Prog.call (S := callSig) (.prim o) .ret

def fetchDetails : Prog callSig Unit := Prog.call (S := callSig) .fetchDetails .ret

def fetchGroupMembers (groupName : Str) : Prog callSig Unit :=
  Prog.call (S := callSig) (.fetchGroupMembers groupName) .ret

def rewrite (mode : OpenMode) (p : Path) (drop : Str → Option Bool) : Prog callSig Unit :=
  Prog.call (S := callSig) (.rewrite mode p drop) .ret

/-- Continue with a value that was read in bounds. -/
def checked {α : Type} : Option α → Prog callSig α
  | some a => .ret a
  | none   => .call (.prim .fault) Empty.elim

section Rules

variable {γ : Type} {D : Discipline callSig γ} {g : γ}

@[simp] lemma fetchDetails_follows (Q : Unit → γ → Prop) :
    fetchDetails.Follows D g Q ↔ D.allowed .fetchDetails g ∧
      (D.admits .fetchDetails () → Q () (D.next .fetchDetails () g)) := by
  simp [fetchDetails, Unique.forall_iff]

@[simp] lemma fetchGroupMembers_follows (group : Str) (Q : Unit → γ → Prop) :
    (fetchGroupMembers group).Follows D g Q ↔ D.allowed (.fetchGroupMembers group) g ∧
      (D.admits (.fetchGroupMembers group) () → Q () (D.next (.fetchGroupMembers group) () g)) := by
  simp [fetchGroupMembers, Unique.forall_iff]

@[simp] lemma rewrite_follows (mode : OpenMode) (p : Path) (drop : Str → Option Bool)
    (Q : Unit → γ → Prop) :
    (rewrite mode p drop).Follows D g Q ↔ D.allowed (.rewrite mode p drop) g ∧
      (D.admits (.rewrite mode p drop) () → Q () (D.next (.rewrite mode p drop) () g)) := by
  simp [rewrite, Unique.forall_iff]

@[simp] lemma checked_follows {β : Type} (x : Option β) (Q : β → γ → Prop) :
    (checked x).Follows D g Q ↔
      (x = none → D.allowed (.prim .fault) g) ∧ ∀ b, x = some b → Q b g := by
  cases x with
  | some b => simp [checked]
  | none => simp [checked, IsEmpty.forall_iff]

end Rules

/-- Fields of a record, with a blank between two of them. -/
def fields (fs : List Str) : Str := List.intercalate [' '] fs

/-! ### Scans and deletions -/

/-- `DeleteLine(filename,data,index)`. -/
def deleteLine (filename : Path) (data : Str) (index : ℕ) : Prog callSig Unit := do
  call .lock
  rewrite .app filename fun line => fieldIs index data (split line ' ')
  call .unlock

/-- `DeleteLine(filename,data)`. -/
def deleteWholeLine (filename : Path) (data : Str) : Prog callSig Unit := do
  call .lock
  rewrite .app filename fun line => some (line = data)
  call .unlock

def checkGroupFiles (filehash : Str) (filename : Path) (username : Str) : Prog callSig Bool := do
  -- the file is opened before the lock is taken
  let s ← call (.read filename)
  call .lock
  let found ← checked
    (findRecord (andThen (fieldIs 0 filehash) (fieldIs 2 username)) (getlines (s.getD [])))
  call .unlock
  return found.isSome

def getGroupFileName (filehash : Str) (filename : Path) : Prog callSig Str := do
  call .lock
  let s ← call (.read filename)
  let found ← checked (findRecord (fieldIs 0 filehash) (getlines (s.getD [])))
  let name ← checked (found.elim (some []) (·[3]?))
  call .unlock
  return name

def checkIntegrity (filehash : Str) (filename : Path) (uploadFile : Str) :
    Prog callSig Bool := do
  call .lock
  let s ← call (.read filename)
  let found ← checked
    (findRecord (andThen (fun v => (fieldIs 0 filehash v).map not) (fieldIs 3 uploadFile))
      (getlines (s.getD [])))
  call .unlock
  return found.isSome

/-! ### Accounts -/

/-- The salt of a stored credential: what stands before its first colon. -/
def storedSalt (stored : Str) : Str := stored.takeWhile (· ≠ ':')

/-- The hash of a stored credential. Without a colon `substr(sep+1)` is the whole string. -/
def storedHash (stored : Str) : Str :=
  if ':' ∈ stored then (stored.dropWhile (· ≠ ':')).tail else stored

def userLogin (hashPassword : Str → Str → Str) (user password port ip : Str) :
    Prog callSig Bool := do
  fetchDetails
  let m ← call .memory
  match m.credentials.lookup user with
  | none => return false
  | some stored =>
    if hashPassword (storedSalt stored) password = storedHash stored then
      let m ← call .memory
      if user ∉ m.online then
        call (.modify fun m => { m with online := setInsert strLt user m.online })
        call .lock
        call (.append onlineFile (putline (fields [user, ip, port])))
        call .unlock
        call (.sync onlineFile)
      return true
    else
      return false

def userCreate (hashPassword : Str → Str → Str) (user password port ip : Str) :
    Prog callSig Bool := do
  fetchDetails
  let m ← call .memory
  match m.credentials.lookup user with
  | some _ => return false
  | none =>
    call .lock
    call (.modify fun m => { m with online := setInsert strLt user m.online })
    call (.append onlineFile (putline (fields [user, ip, port])))
    let salt ← call .generateSalt
    call (.append credentialFile
      (putline (fields [user, salt ++ [':'] ++ hashPassword salt password])))
    call (.create (userFilesFile user) [])
    call (.create (downloadingFile user) [])
    call (.create (downloadedFile user) [])
    call .unlock
    call (.sync onlineFile)
    call (.sync credentialFile)
    call (.sync (userFilesFile user))
    call (.sync (downloadingFile user))
    call (.sync (downloadedFile user))
    fetchDetails
    return true

def logout (user : Str) : Prog callSig Bool := do
  fetchDetails
  let m ← call .memory
  if user ∈ m.online then
    deleteLine onlineFile user 0
    call (.sync onlineFile)
    fetchDetails
    return true
  else
    return false

/-! ### Groups -/

def groupCreate (group user : Str) : Prog callSig Bool := do
  fetchDetails
  let m ← call .memory
  match m.groups.lookup group with
  | some _ => return false
  | none =>
    call .lock
    call (.append groupFile (putline (fields [group, user])))
    call (.create (membersFile group) (putline user))
    call (.create (groupFilesFile group) [])
    call .unlock
    call (.sync groupFile)
    call (.sync (membersFile group))
    call (.sync (groupFilesFile group))
    fetchDetails
    return true

def groupList : Prog callSig Str := do
  fetchDetails
  let m ← call .memory
  return m.groups.flatMap fun i => putline i.1

def groupRequestList (group user : Str) : Prog callSig Str := do
  fetchDetails
  let m ← call .memory
  match m.groups.lookup group with
  | none => return []
  | some owner =>
    if user ≠ owner then
      return []
    else
      return (m.pendingGroupRequests.filter (·.2 = group)).flatMap fun i => putline i.1

def groupFileList (group : Str) : Prog callSig Str := do
  fetchDetails
  let m ← call .memory
  match m.groups.lookup group with
  | none => return []
  | some _ =>
    call .lock
    let s ← call (.read (groupFilesFile group))
    let names ← checked ((getlines (s.getD [])).mapM fun l => (split l ' ')[3]?)
    call .unlock
    return (names.foldl (fun t f => setInsert strLt f t) []).flatMap putline

def groupJoin (group user : Str) : Prog callSig Bool := do
  let m ← call .memory
  match m.groups.lookup group with
  | none => return false
  | some owner =>
    fetchGroupMembers group
    let m ← call .memory
    if user ∈ m.groupMembers then
      return true
    else
      if owner ∉ m.online then
        if (user, group) ∉ m.pendingGroupRequests then
          call .lock
          call (.append pendingFile (putline (fields [user, group])))
          call (.modify (·.addPending (user, group)))
          call .unlock
      else
        -- `online_users[*iter2]` enters the owner if it is not there
        call (.modify fun m => { m with
          onlineUsers := tableSet owner ((m.onlineUsers.lookup owner).getD ([], []))
            m.onlineUsers })
        call .lock
        call (.append pendingFile (putline (fields [user, group])))
        call .unlock
        call (.modify (·.addPending (user, group)))
      call (.sync pendingFile)
      return true

def groupAcceptRequest (group user acceptor : Str) : Prog callSig Bool := do
  let m ← call .memory
  if m.groups.lookup group ≠ some acceptor ∨ m.credentials.lookup user = none ∨
      (user, group) ∉ m.pendingGroupRequests then
    return false
  else
    fetchGroupMembers group
    let m ← call .memory
    if user ∈ m.groupMembers then
      return true
    else
      call .lock
      call (.append (membersFile group) (putline user))
      call .unlock
      deleteWholeLine pendingFile (fields [user, group])
      call (.sync pendingFile)
      call (.sync (membersFile group))
      return true

def groupLeave (group user : Str) : Prog callSig Bool := do
  let m ← call .memory
  match m.groups.lookup group with
  | none => return false
  | some owner =>
    fetchGroupMembers group
    let m ← call .memory
    if user ∉ m.groupMembers ∨ owner = user then
      return false
    else
      deleteLine (membersFile group) user 0
      deleteLine (groupFilesFile group) user 2
      deleteLine (userFilesFile user) group 0
      call (.sync (membersFile group))
      call (.sync (groupFilesFile group))
      call (.sync (userFilesFile user))
      fetchDetails
      return true

/-! ### Shared files -/

def groupFileUpload (filehash size group user filename path : Str) : Prog callSig Bool := do
  let m ← call .memory
  if m.groups.lookup group = none then
    return false
  else
    fetchGroupMembers group
    let m ← call .memory
    if user ∉ m.groupMembers then
      return false
    else if ← checkGroupFiles filehash (groupFilesFile group) user then
      return true
    else
      let stored ← getGroupFileName filehash (groupFilesFile group)
      let filename := if stored ≠ [] then stored else filename
      if ← checkIntegrity filehash (groupFilesFile group) filename then
        return false
      else
        call .lock
        call (.append (groupFilesFile group) (putline (fields [filehash, size, user, filename])))
        call (.append (userFilesFile user) (putline (fields [group, filename, path])))
        call .unlock
        call (.sync (groupFilesFile group))
        call (.sync (userFilesFile user))
        return true

def groupStopShare (group filename user : Str) : Prog callSig Bool := do
  let m ← call .memory
  if m.groups.lookup group = none ∨ m.credentials.lookup user = none then
    return false
  else
    fetchGroupMembers group
    let m ← call .memory
    if user ∉ m.groupMembers then
      return false
    else
      call .lock
      rewrite .out (groupFilesFile group) fun line =>
        andThen (fieldIs 3 filename) (fieldIs 2 user) (split line ' ')
      rewrite .out (userFilesFile user) fun line =>
        andThen (fieldIs 0 group) (fieldIs 1 filename) (split line ' ')
      call .unlock
      call (.sync (groupFilesFile group))
      call (.sync (userFilesFile user))
      return true

def sendSHA (group filename user : Str) : Prog callSig Str := do
  fetchDetails
  let m ← call .memory
  match m.groups.lookup group with
  | none => return []
  | some _ =>
    fetchGroupMembers group
    let m ← call .memory
    if user ∉ m.groupMembers then
      return []
    else
      call .lock
      let s ← call (.read (groupFilesFile group))
      let records ← checked ((getlines (s.getD [])).mapM fun l =>
        let v := split l ' '
        v[3]?.bind fun name => v[0]?.map fun hash => (name, hash))
      call (.append (downloadingFile user) (putline (fields [group, filename])))
      call .unlock
      call (.sync (downloadingFile user))
      -- `file_hash.insert` keeps the first hash of a name
      return (records.lookup filename).getD []

def sendSeeders (group filename : Str) : Prog callSig Str := do
  fetchDetails
  call .lock
  let s ← call (.read (groupFilesFile group))
  let m ← call .memory
  let records ← checked ((getlines (s.getD [])).mapM fun l =>
    let v := split l ' '
    v[3]?.bind fun name => v[1]?.bind fun size => v[2]?.map fun user => (name, size, user))
  call .unlock
  let shared := records.filter (·.1 = filename)
  let size := (shared.getLast?.map (·.2.1)).getD []
  let seeders := (shared.filter (·.2.2 ∈ m.online)).foldl (fun t r => setInsert strLt r.2.2 t) []
  let data := seeders.flatMap (· ++ [' '])
  return if data ≠ [] then data ++ size else data

def sendDetails (user : Str) : Prog callSig Str := do
  fetchDetails
  let m ← call .memory
  let entry := (m.onlineUsers.lookup user).getD ([], [])
  call (.modify fun m => { m with onlineUsers := tableSet user entry m.onlineUsers })
  return fields [entry.1, entry.2]

def getFullPath (user group filename : Str) : Prog callSig Str := do
  let s ← call (.read (userFilesFile user))
  let found ← checked
    (findRecord (andThen (fieldIs 0 group) (fieldIs 1 filename)) (getlines (s.getD [])))
  checked (found.elim (some []) (·[2]?))

/-! ### Downloads -/

def updateDownload (group filename path user : Str) : Prog callSig Unit := do
  fetchDetails
  -- the lock and the final unlock are commented out in the source
  let s ← call (.read (groupFilesFile group))
  let found ← checked (findRecord (fieldIs 3 filename) (getlines (s.getD [])))
  let data ← checked (found.elim (some []) (·[0]?))
  let size ← checked (found.elim (some []) (·[1]?))
  let s ← call (.read (userFilesFile user))
  let listed ← checked (findRecord (fieldIs 1 filename) (getlines (s.getD [])))
  if listed.isSome then
    call .unlock
  else
    call (.append (userFilesFile user) (putline (fields [group, filename, path])))
    call (.append (groupFilesFile group) (putline (fields [data, size, user, filename])))
    call (.sync (groupFilesFile group))
    call (.sync (userFilesFile user))

def showDownloads (user : Str) : Prog callSig Str := do
  fetchDetails
  call .lock
  let s ← call (.read (downloadingFile user))
  let s' ← call (.read (downloadedFile user))
  call .unlock
  return ((getlines (s.getD [])).flatMap fun l => "[D] ".toList ++ putline l) ++
    ((getlines (s'.getD [])).flatMap fun l => "[C] ".toList ++ putline l)

def completeDownload (group filename user : Str) : Prog callSig Unit := do
  fetchDetails
  let target := fields [group, filename]
  deleteWholeLine (downloadingFile user) target
  call (.append (downloadedFile user) (putline target))
  call (.sync (downloadedFile user))
  call (.sync (downloadingFile user))

/-! ### Dispatch -/

/-- The commands of clients, with the arguments `command_split[1]`, ... that are read. -/
inductive Command where
  | login (user password port ip : Str)
  | createUser (user password port ip : Str)
  | createGroup (group user : Str)
  | listGroups
  | joinGroup (group user : Str)
  | listRequests (group user : Str)
  | acceptRequest (group user acceptor : Str)
  | uploadFile (filehash size group user filename path : Str)
  | listFiles (group : Str)
  | stopShare (group filename user : Str)
  | leaveGroup (group user : Str)
  | logout (user : Str)
  | giveSha (group filename user : Str)
  | giveSeeders (group filename user : Str)
  | giveDetails (user : Str)
  | sendFullPath (user group filename : Str)
  | addFile (group filename path user : Str)
  | complete (group filename path user : Str)
  | showDownloads (user : Str)
  deriving DecidableEq

/-- What a message asks for. -/
inductive Request where
  | client (c : Command)
  | sync (filename : Path)
  | syncAll
  | unknown

/-- The dispatch on the first word of a message. Missing words are read as empty strings. -/
def Request.parse (message : Str) : Request :=
  let w := (extractWords 7 message)
  let arg i := w.getD i []
  if arg 0 = "login".toList then .client (.login (arg 1) (arg 2) (arg 3) (arg 4))
  else if arg 0 = "create_user".toList then .client (.createUser (arg 1) (arg 2) (arg 3) (arg 4))
  else if arg 0 = "create_group".toList then .client (.createGroup (arg 1) (arg 2))
  else if arg 0 = "list_groups".toList then .client .listGroups
  else if arg 0 = "join_group".toList then .client (.joinGroup (arg 1) (arg 2))
  else if arg 0 = "list_requests".toList then .client (.listRequests (arg 1) (arg 2))
  else if arg 0 = "accept_request".toList then .client (.acceptRequest (arg 1) (arg 2) (arg 3))
  else if arg 0 = "upload_file".toList then
    .client (.uploadFile (arg 1) (arg 2) (arg 3) (arg 4) (arg 5) (arg 6))
  else if arg 0 = "list_files".toList then .client (.listFiles (arg 1))
  else if arg 0 = "stop_share".toList then .client (.stopShare (arg 1) (arg 2) (arg 3))
  else if arg 0 = "leave_group".toList then .client (.leaveGroup (arg 1) (arg 2))
  else if arg 0 = "logout".toList then .client (.logout (arg 1))
  else if arg 0 = "Sync".toList then .sync (arg 1)
  else if arg 0 = "SyncAll".toList then .syncAll
  else if arg 0 = "give_sha".toList then .client (.giveSha (arg 1) (arg 2) (arg 3))
  else if arg 0 = "give_seeders".toList then .client (.giveSeeders (arg 1) (arg 2) (arg 3))
  else if arg 0 = "give_details".toList then .client (.giveDetails (arg 1))
  else if arg 0 = "send_full_path".toList then .client (.sendFullPath (arg 1) (arg 2) (arg 3))
  else if arg 0 = "add_file".toList then .client (.addFile (arg 1) (arg 2) (arg 3) (arg 4))
  else if arg 0 = "complete".toList then .client (.complete (arg 1) (arg 2) (arg 3) (arg 4))
  else if arg 0 = "show_downloads".toList then .client (.showDownloads (arg 1))
  else .unknown

/-- The message sent back, if one is. -/
abbrev Reply := Option Str

def answer (p : Prog callSig Bool) : Prog callSig Reply := do
  return some (if ← p then ['1'] else ['0'])

def answerData (p : Prog callSig Str) : Prog callSig Reply := do
  return some (← p)

def noAnswer (p : Prog callSig Unit) : Prog callSig Reply := do
  p
  return none

section Replies

variable {σ γ : Type} {D : Discipline callSig γ} {g : γ} {Q : γ → Prop}

lemma run_answer_eq (h : Interp callSig σ) (p : Prog callSig Bool) (s : σ) :
    (answer p).run h s =
      (p.run h s).map fun r => (some (if r.1 then ['1'] else ['0']), r.2) := by
  rw [answer, Prog.run_bind]
  cases p.run h s with
  | none => rfl
  | some r => rfl

lemma run_answerData_eq (h : Interp callSig σ) (p : Prog callSig Str) (s : σ) :
    (answerData p).run h s = (p.run h s).map fun r => (some r.1, r.2) := by
  rw [answerData, Prog.run_bind]
  cases p.run h s with
  | none => rfl
  | some r => rfl

lemma run_noAnswer_eq (h : Interp callSig σ) (p : Prog callSig Unit) (s : σ) :
    (noAnswer p).run h s = (p.run h s).map fun r => (none, r.2) := by
  rw [noAnswer, Prog.run_bind]
  cases p.run h s with
  | none => rfl
  | some r => rfl

/-- No call is made for a reply, so what a handler keeps to is kept. -/
lemma follows_answer {p : Prog callSig Bool} (h : p.Follows D g fun _ g' => Q g') :
    (answer p).Follows D g fun _ g' => Q g' :=
  h.bind fun _ _ hQ => hQ

lemma follows_answerData {p : Prog callSig Str} (h : p.Follows D g fun _ g' => Q g') :
    (answerData p).Follows D g fun _ g' => Q g' :=
  h.bind fun _ _ hQ => hQ

lemma follows_noAnswer {p : Prog callSig Unit} (h : p.Follows D g fun _ g' => Q g') :
    (noAnswer p).Follows D g fun _ g' => Q g' :=
  h.bind fun _ _ hQ => hQ

end Replies

/-- What `TrackerKernel` does for a command of a client. -/
def trackerKernel (hashPassword : Str → Str → Str) : Command → Prog callSig Reply
  | .login u p port ip       => answer (userLogin hashPassword u p port ip)
  | .createUser u p port ip  => answer (userCreate hashPassword u p port ip)
  | .createGroup g u         => answer (groupCreate g u)
  | .listGroups              => answerData groupList
  | .joinGroup g u           => answer (groupJoin g u)
  | .listRequests g u        => answerData (groupRequestList g u)
  | .acceptRequest g u a     => answer (groupAcceptRequest g u a)
  | .uploadFile h s g u f p  => answer (groupFileUpload h s g u f p)
  | .listFiles g             => answerData (groupFileList g)
  | .stopShare g f u         => answer (groupStopShare g f u)
  | .leaveGroup g u          => answer (groupLeave g u)
  | .logout u                => answer (logout u)
  | .giveSha g f u           => answerData (sendSHA g f u)
  | .giveSeeders g f _       => answerData (sendSeeders g f)
  | .giveDetails u           => answerData (sendDetails u)
  | .sendFullPath u g f      => answerData (getFullPath u g f)
  | .addFile g f p u         => noAnswer (updateDownload g f p u)
  | .complete g f _ u        => noAnswer (completeDownload g f u)
  | .showDownloads u         => answerData (showDownloads u)

end TorrentShare
