import TorrentShare.Peer.ChunkNumbers
import TorrentShare.Program.Framing

/-!
# What a peer makes of replies

Nine functions of a peer send a command to the tracker and answer whether it has succeeded. They
take every reply for a success that does not begin with `0`, the empty one too, which stands for
all that goes wrong while a reply is read.
-/

namespace TorrentShare

open Framing

/-- The byte of a character. -/
def byteOf (c : Char) : Byte := ⟨c.toNat % 256, Nat.mod_lt _ (Nat.succ_pos 255)⟩

/-- What the tracker's side of a connection delivers: whether the handshake succeeds, and the bytes
    that come after it. -/
structure TrackerSide where
  handshake : Bool
  stream : List Byte

def maxMsgSize : ℕ := 16 * 1024 * 1024

/-- `SSLReadAll`. -/
def sslReadAll (len : ℕ) (stream : List Byte) : Option (List Byte × List Byte) :=
  readAll len stream

/-- `TLSRecvMsg`. -/
def tlsRecvMsg (stream : List Byte) : List Byte :=
  match sslReadAll 4 stream with
  | none => []
  | some (lenNet, rest) =>
    let len := ofBigEndian lenNet
    if len > maxMsgSize then []
    else if len = 0 then []
    else
      match sslReadAll len rest with
      | none => []
      | some (result, _) => result

/-- A message of one byte or more is received just when the stream starts with all of it and it is
    not too long. -/
lemma tlsRecvMsg_eq_iff {stream data : List Byte} (hdata : data ≠ []) :
    tlsRecvMsg stream = data ↔ StartsWith 4 stream data ∧ data.length ≤ maxMsgSize := by
  have hframe : tlsRecvMsg stream = data ↔
      readFrame 4 stream = some data ∧ data.length ≤ maxMsgSize := by
    rw [tlsRecvMsg, readFrame, sslReadAll]
    cases hlen : readAll 4 stream with
    | none => simp [hdata.symm]
    | some r =>
      obtain ⟨len, rest⟩ := r
      simp only [Option.bind_some, sslReadAll]
      cases hread : readAll (ofBigEndian len) rest with
      | none =>
        split_ifs <;> simp [hdata.symm]
      | some r =>
        obtain ⟨result, rest'⟩ := r
        have hlength : result.length = ofBigEndian len := (readAll_eq_some.mp hread).2
        split_ifs with hlong hempty
        · simp only [hdata.symm, Option.map_some, Option.some.injEq, false_iff, not_and]
          rintro rfl
          omega
        · have hresult : result = [] := List.length_eq_zero_iff.mp (hlength.trans hempty)
          simp [hresult, hdata.symm]
        · simp only [Option.map_some, Option.some.injEq]
          constructor
          · rintro rfl
            exact ⟨rfl, by omega⟩
          · exact And.left
  rw [hframe, readFrame_eq_some]

/-! ### Requests -/

def maxSize : ℕ := 65535

/-- The characters of `output` that are written. -/
def outputOf (outputStr : List Byte) : List Byte :=
  outputStr.take (min outputStr.length (maxSize - 1)) ++ [byteOf '\x00']

/-- What the functions have in common: the message that is sent, if one is, and the answer. -/
def request (data : Str) (conn : TrackerSide) : Option Str × Bool :=
  if conn.handshake then
    (some data, !decide ((outputOf (tlsRecvMsg conn.stream)).head? = some (byteOf '0')))
  else
    (none, false)

section Functions

-- `myip` and `to_string(myport_i)`
variable (myip myport : Str)

namespace Client

def userLogin (username password : Str) : TrackerSide → Option Str × Bool :=
  request ("login ".toList ++ username ++ [' '] ++ password ++ [' '] ++ myport ++ [' '] ++ myip)

def userCreate (username password : Str) : TrackerSide → Option Str × Bool :=
  request ("create_user ".toList ++ username ++ [' '] ++ password ++ [' '] ++ myport ++ [' '] ++
    myip)

def groupCreate (groupname username : Str) : TrackerSide → Option Str × Bool :=
  request ("create_group ".toList ++ groupname ++ [' '] ++ username)

def groupJoin (groupname username : Str) : TrackerSide → Option Str × Bool :=
  request ("join_group ".toList ++ groupname ++ [' '] ++ username)

def groupAcceptRequest (groupname username1 username : Str) : TrackerSide → Option Str × Bool :=
  request ("accept_request ".toList ++ groupname ++ [' '] ++ username1 ++ [' '] ++ username)

def fileUpload (fileMetadata : Str × ℕ) (groupname username filename path : Str) :
    TrackerSide → Option Str × Bool :=
  request ("upload_file ".toList ++ fileMetadata.1 ++ [' '] ++ toStr fileMetadata.2 ++ [' '] ++
    groupname ++ [' '] ++ username ++ [' '] ++ filename ++ [' '] ++ path)

def groupStopShare (groupname filename username : Str) : TrackerSide → Option Str × Bool :=
  request ("stop_share ".toList ++ groupname ++ [' '] ++ filename ++ [' '] ++ username)

def groupLeave (groupname username : Str) : TrackerSide → Option Str × Bool :=
  request ("leave_group ".toList ++ groupname ++ [' '] ++ username)

def logout (username : Str) : TrackerSide → Option Str × Bool :=
  request ("logout ".toList ++ username)

end Client

/-- The nine functions with their arguments. -/
inductive ClientRequest where
  | userLogin (username password : Str)
  | userCreate (username password : Str)
  | groupCreate (groupname username : Str)
  | groupJoin (groupname username : Str)
  | groupAcceptRequest (groupname username1 username : Str)
  | fileUpload (fileMetadata : Str × ℕ) (groupname username filename path : Str)
  | groupStopShare (groupname filename username : Str)
  | groupLeave (groupname username : Str)
  | logout (username : Str)

/-- What the function answers. -/
def ClientRequest.answer (conn : TrackerSide) : ClientRequest → Bool
  | .userLogin u p              => (Client.userLogin myip myport u p conn).2
  | .userCreate u p             => (Client.userCreate myip myport u p conn).2
  | .groupCreate g u            => (Client.groupCreate g u conn).2
  | .groupJoin g u              => (Client.groupJoin g u conn).2
  | .groupAcceptRequest g v u   => (Client.groupAcceptRequest g v u conn).2
  | .fileUpload m g u f p       => (Client.fileUpload m g u f p conn).2
  | .groupStopShare g f u       => (Client.groupStopShare g f u conn).2
  | .groupLeave g u             => (Client.groupLeave g u conn).2
  | .logout u                   => (Client.logout u conn).2

end Functions

/-- A complete reply has been received. -/
def TrackerSide.Receives (conn : TrackerSide) (reply : List Byte) : Prop :=
  conn.handshake = true ∧ StartsWith 4 conn.stream reply

/-- The connection tells what the tracker has decided: there is none, or the stream starts with a
    complete reply that the peer takes and that begins with `0` or is `1`. -/
def TrackerSide.Telling (conn : TrackerSide) : Prop :=
  conn.handshake = false ∨ ∃ reply, StartsWith 4 conn.stream reply ∧ reply.length ≤ maxMsgSize ∧
    (reply = [byteOf '1'] ∨ reply.head? = some (byteOf '0'))

section Answers

variable {data : Str} {conn : TrackerSide}

lemma head?_outputOf (reply : List Byte) :
    (outputOf reply).head? = some (byteOf '0') ↔ reply.head? = some (byteOf '0') := by
  have hnul : byteOf '\x00' ≠ byteOf '0' := by decide
  cases reply with
  | nil => simp [outputOf, hnul]
  | cons b reply =>
    have hmin : min (b :: reply).length (maxSize - 1) = min reply.length (maxSize - 2) + 1 := by
      rw [List.length_cons, maxSize]
      omega
    rw [outputOf, hmin]
    rfl

/-- A request fails just without a handshake or with a complete reply that begins with `0`. -/
lemma request_eq_false : (request data conn).2 = false ↔ conn.handshake = false ∨
    ∃ reply, StartsWith 4 conn.stream reply ∧ reply.length ≤ maxMsgSize ∧
      reply.head? = some (byteOf '0') := by
  cases hconn : conn.handshake with
  | false => simp [request, hconn]
  | true =>
    simp only [request, hconn, if_true, Bool.not_eq_false', decide_eq_true_eq, head?_outputOf,
      Bool.true_eq_false, false_or]
    constructor
    · intro hhead
      have hne : tlsRecvMsg conn.stream ≠ [] := by
        intro he
        rw [he] at hhead
        cases hhead
      obtain ⟨hstart, hlength⟩ := (tlsRecvMsg_eq_iff hne).mp rfl
      exact ⟨_, hstart, hlength, hhead⟩
    · rintro ⟨reply, hstart, hlength, hhead⟩
      have hne : reply ≠ [] := by
        rintro rfl
        cases hhead
      rw [(tlsRecvMsg_eq_iff hne).mpr ⟨hstart, hlength⟩]
      exact hhead

variable (data conn) in
/-- A request that succeeds has been accepted just when the connection tells the decision. -/
lemma request_truthful_iff :
    ((request data conn).2 = true → conn.Receives [byteOf '1']) ↔ conn.Telling := by
  constructor
  · intro htrue
    cases hanswer : (request data conn).2 with
    | true =>
      obtain ⟨-, hone⟩ := htrue hanswer
      exact Or.inr ⟨_, hone, by decide, Or.inl rfl⟩
    | false =>
      refine (request_eq_false.mp hanswer).imp_right ?_
      rintro ⟨reply, hstart, hlength, hhead⟩
      exact ⟨reply, hstart, hlength, Or.inr hhead⟩
  · rintro (hnone | ⟨reply, hstart, hlength, rfl | hhead⟩) htrue
    · rw [request_eq_false.mpr (Or.inl hnone)] at htrue
      cases htrue
    · refine ⟨?_, hstart⟩
      by_contra hnone
      rw [request_eq_false.mpr (Or.inl (by simpa using hnone))] at htrue
      cases htrue
    · rw [request_eq_false.mpr (Or.inr ⟨reply, hstart, hlength, hhead⟩)] at htrue
      cases htrue

lemma ClientRequest.truthful_iff (myip myport : Str) (r : ClientRequest) :
    (r.answer myip myport conn = true → conn.Receives [byteOf '1']) ↔ conn.Telling := by
  cases r with
  | _ => exact request_truthful_iff _ _

end Answers

/-! ### The command loop -/

/-- What `main` keeps from command to command. -/
structure Prompt where
  loginFlag : Bool := false
  username : Str := []
  commandSplit : List Str := List.replicate 10 []

/-- A line that is typed, and what the peer meets with while it is dealt with: whether
    `CheckTracker` finds a tracker, the connection to it, and what `GetFileHash` says about the file
    of an `upload_file`. -/
structure Typed where
  line : Str
  checkTracker : Bool
  connection : TrackerSide
  fileMetadata : Str × ℕ

/-- `command_object>>command_split[i]`, one after the other. Without a word the rest stays. -/
def readWords : List ℕ → Str → List Str → List Str
  | [], _, commandSplit           => commandSplit
  | i :: is, stream, commandSplit =>
    match extract stream with
    | none => commandSplit
    | some (word, rest) => readWords is rest (commandSplit.set i word)

/-- The command that a line is read as. An empty line leaves the last one. -/
def Prompt.word (s : Prompt) (x : Typed) : Str := (readWords [0] x.line s.commandSplit).getD 0 []

section Loop

variable (myip myport : Str)

/-- `login` and `create_user`. -/
def Prompt.signIn (s : Prompt) (x : Typed)
    (function : Str → Str → TrackerSide → Option Str × Bool) : Prompt × List Str :=
  if s.loginFlag then
    ({ s with commandSplit := readWords [0] x.line s.commandSplit }, ["Already Logged in".toList])
  else
    let commandSplit := readWords [0, 1, 2] x.line s.commandSplit
    let arg i := commandSplit.getD i []
    if (function (arg 1) (arg 2) x.connection).2 then
      (⟨true, arg 1, commandSplit⟩, ["Successful".toList])
    else
      (⟨false, s.username, commandSplit⟩, ["Failed".toList])

/-- A command whose function is called with `n` words, and what is printed. -/
def Prompt.ask (s : Prompt) (x : Typed) (n : ℕ)
    (function : (ℕ → Str) → TrackerSide → Option Str × Bool) (success failure : List Str) :
    Prompt × List Str :=
  let commandSplit := readWords (List.range (n + 1)) x.line s.commandSplit
  let arg i := commandSplit.getD i []
  ({ s with commandSplit }, if (function arg x.connection).2 then success else failure)

/-- A command that only shows or fetches something, after `n` words. What it prints is left out. -/
def Prompt.show (s : Prompt) (x : Typed) (n : ℕ) : Prompt × List Str :=
  ({ s with commandSplit := readWords (List.range (n + 1)) x.line s.commandSplit }, [])

/-- The commands of a user who is logged in. -/
def Prompt.perform (s : Prompt) (x : Typed) : Prompt × List Str :=
  let word := s.word x
  let s₀ := { s with commandSplit := readWords [0] x.line s.commandSplit }
  if word = "create_group".toList then
    s.ask x 1 (fun arg => Client.groupCreate (arg 1) s.username) ["Successful".toList]
      ["Failed".toList]
  else if word = "list_groups".toList then s.show x 0
  else if word = "join_group".toList then
    s.ask x 1 (fun arg => Client.groupJoin (arg 1) s.username) []
      ["Group Doesn't exists".toList]
  else if word = "list_requests".toList then s.show x 1
  else if word = "accept_request".toList then
    s.ask x 2 (fun arg => Client.groupAcceptRequest (arg 1) (arg 2) s.username)
      ["Successful".toList] ["Invalid Request".toList]
  else if word = "upload_file".toList then
    if x.fileMetadata.1 = [] then
      ((s.show x 2).1, ["Cannot open file".toList])
    else
      s.ask x 2 (fun arg => Client.fileUpload x.fileMetadata (arg 2) s.username
        ((split (arg 1) '/').getLastD []) (arg 1)) ["Successful".toList] ["Invalid Request".toList]
  else if word = "list_files".toList then s.show x 1
  else if word = "stop_share".toList then
    s.ask x 2 (fun arg => Client.groupStopShare (arg 1) (arg 2) s.username)
      ["Successful".toList] ["Invalid Request".toList]
  else if word = "leave_group".toList then
    s.ask x 1 (fun arg => Client.groupLeave (arg 1) s.username) ["Successful".toList]
      ["Invalid Request".toList]
  else if word = "download_file".toList then s.show x 3
  else if word = "show_downloads".toList then s.show x 0
  else if word = "logout".toList then
    if (Client.logout s.username x.connection).2 then
      ({ s₀ with loginFlag := false }, ["Successful".toList])
    else (s₀, ["Failed".toList])
  else (s₀, ["Invalid command".toList])

/-- One turn of the loop of `main`, with the messages it prints, or `none` if the loop ends. -/
def mainLoop (s : Prompt) (x : Typed) : Option (Prompt × List Str) :=
  let word := s.word x
  let s₀ := { s with commandSplit := readWords [0] x.line s.commandSplit }
  if word = "quit".toList then none
  else if !x.checkTracker then some (s₀, ["No tracker online".toList])
  else if word = "login".toList then some (s.signIn x (Client.userLogin myip myport))
  else if word = "create_user".toList then some (s.signIn x (Client.userCreate myip myport))
  else if !s.loginFlag then some (s₀, ["Log in first".toList])
  else some (s.perform x)

/-- The turn asks the tracker to let the user in. -/
def Prompt.SigningIn (s : Prompt) (x : Typed) : Prop :=
  s.loginFlag = false ∧ x.checkTracker = true ∧
    (s.word x = "login".toList ∨ s.word x = "create_user".toList)

variable {myip myport} {s s' : Prompt} {x : Typed} {out : List Str}

variable (myip myport) in
/-- A turn that asks to let the user in answers what the function does. -/
lemma mainLoop_of_signingIn (h : s.SigningIn x) : ∃ data s' out,
    mainLoop myip myport s x = some (s', out) ∧ s'.loginFlag = (request data x.connection).2 := by
  obtain ⟨hflag, htracker, hword⟩ := h
  have hsign : ∀ f : Str → Str → TrackerSide → Option Str × Bool,
      (∀ u p, ∃ data, f u p = request data) → ∃ data s' out,
        some (s.signIn x f) = some (s', out) ∧ s'.loginFlag = (request data x.connection).2 := by
    intro f hf
    let arg i := (readWords [0, 1, 2] x.line s.commandSplit).getD i []
    obtain ⟨data, hdata⟩ := hf (arg 1) (arg 2)
    refine ⟨data, (s.signIn x f).1, (s.signIn x f).2, rfl, ?_⟩
    rw [← hdata]
    simp only [Prompt.signIn, hflag, Bool.false_eq_true, if_false]
    split_ifs with hanswer
    · exact hanswer.symm
    · exact (Bool.eq_false_of_not_eq_true hanswer).symm
  rw [mainLoop]
  rcases hword with hword | hword
  · have hquit : s.word x ≠ "quit".toList := by rw [hword]; decide
    rw [if_neg hquit, if_neg (by simp [htracker]), if_pos hword]
    exact hsign _ fun u p => ⟨_, rfl⟩
  · have hquit : s.word x ≠ "quit".toList := by rw [hword]; decide
    have hlogin : s.word x ≠ "login".toList := by rw [hword]; decide
    rw [if_neg hquit, if_neg (by simp [htracker]), if_neg hlogin, if_pos hword]
    exact hsign _ fun u p => ⟨_, rfl⟩

/-- No other turn sets the flag. -/
lemma loginFlag_of_not_signingIn (h : ¬ s.SigningIn x)
    (hturn : mainLoop myip myport s x = some (s', out)) (hflag : s'.loginFlag = true) :
    s.loginFlag = true := by
  by_contra hout
  have hout' : s.loginFlag = false := by simpa using hout
  simp only [mainLoop] at hturn
  split_ifs at hturn with hquit htracker hlogin hcreate hfirst
  · cases hturn
    exact hout hflag
  · exact h ⟨hout', by simpa using htracker, Or.inl hlogin⟩
  · exact h ⟨hout', by simpa using htracker, Or.inr hcreate⟩
  · cases hturn
    exact hout hflag
  · exact absurd hout' (by simpa using hfirst)

/-- What the nine functions answer, and what the loop notes, is what a tracker has decided just for
    connections that tell it. -/
theorem reports_truthful_iff :
    (∀ (r : ClientRequest) (conn : TrackerSide),
      (r.answer myip myport conn = true → conn.Receives [byteOf '1']) ↔ conn.Telling) ∧
    ∀ (s : Prompt) (x : Typed),
      (∀ s' out, mainLoop myip myport s x = some (s', out) → s'.loginFlag = true →
        s.loginFlag = true ∨ x.connection.Receives [byteOf '1']) ↔
      ¬ s.SigningIn x ∨ x.connection.Telling := by
  refine ⟨fun r conn => r.truthful_iff myip myport, fun s x => ?_⟩
  by_cases hsign : s.SigningIn x
  · obtain ⟨data, s', out, hturn, hflag⟩ := mainLoop_of_signingIn myip myport hsign
    rw [← request_truthful_iff data, ← hflag, hturn]
    constructor
    · intro htruthful
      right
      intro htrue
      refine (htruthful s' out rfl htrue).resolve_left ?_
      rw [hsign.1]
      exact Bool.false_ne_true
    · rintro htruthful _ _ heq htrue
      cases heq
      exact Or.inr (htruthful.resolve_left (not_not_intro hsign) htrue)
  · constructor
    · exact fun _ => Or.inl hsign
    · intro _ s' out hturn hflag
      exact Or.inl (loginFlag_of_not_signingIn hsign hturn hflag)

end Loop

/-- The connection breaks before the reply to a `login`. -/
theorem login_reported_unanswered : ∃ (s s' : Prompt) (x : Typed) (out : List Str),
    (∀ reply, ¬ x.connection.Receives reply) ∧
      ClientRequest.answer [] [] x.connection (.userLogin "u".toList "p".toList) = true ∧
      mainLoop [] [] s x = some (s', out) ∧ s.loginFlag = false ∧ s'.loginFlag = true := by
  refine ⟨{}, _, ⟨"login u p".toList, true, ⟨true, []⟩, [], 0⟩, _, ?_, rfl, rfl, rfl, rfl⟩
  rintro reply ⟨-, hstart⟩
  have hread : readFrame 4 [] = some reply := readFrame_eq_some.mpr hstart
  cases hread

end TorrentShare
