import TorrentShare.Peer.Requests

/-!
# A peer that serves requests

A peer reads a request to its end, answers it and closes the connection. For a chunk it asks a
tracker for the path of the file. It looks at nine words of the request without counting them, and
at the file without asking whether it could be opened.
-/

namespace TorrentShare

/-! ### Serving a request -/

/-- What a peer meets while it serves a request: which trackers take the connection of
    `CheckTracker`, and which that of `GetFilePath`; whether the handshake succeeds; what the
    tracker replies, where the empty reply is that of a failing connection too; and its files. -/
structure Surroundings where
  reachable : Str × ℤ → Bool
  accepts : Str × ℤ → Bool
  handshake : Bool
  reply : Str → Str
  files : Str → Option Str

/-- How a thread of `ClientServerKernel` may end: with the connection closed after these bytes; with
    `exit`; beyond the words of a request; with a null handle for a file. -/
inductive Served where
  | closed (sent : Str)
  | exited
  | outOfRange
  | nullFile
  deriving DecidableEq

namespace Surroundings

/-- `CheckTracker`: the first tracker that takes a connection, or an address without a name. -/
def checkTracker (w : Surroundings) (trackerData : List (Str × ℤ)) : Str × ℤ :=
  (trackerData.find? w.reachable).getD ([], 0)

/-- What `GetFilePath` makes of the reply, in a buffer of `MAX_SIZE2` bytes. -/
def fullPath (w : Surroundings) (groupname filename username : Str) : Str :=
  if w.handshake then
    cStr ((w.reply ("send_full_path ".toList ++ username ++ " ".toList ++ groupname ++
      " ".toList ++ filename)).take 65534)
  else []

/-- `GetFilePath`. There is no value if the tracker refuses the connection: the program ends. -/
def getFilePath (w : Surroundings) (serverFinal : Str × ℤ) (groupname filename username : Str) :
    Option Str :=
  if w.accepts serverFinal then some (w.fullPath groupname filename username) else none

/-- `fopen`. There is no file without a name. -/
def fopen (w : Surroundings) (path : Str) : Option Str := if path = [] then none else w.files path

/-- `TransferFunction`. -/
def transferFunction (w : Surroundings) (splitVector : List Str) : Served :=
  match chunkRequest splitVector with
  | none => .outOfRange
  | some r =>
    match w.getFilePath (w.checkTracker r.trackerData) r.groupname r.filename r.username with
    | none => .exited
    | some path =>
      match w.fopen path with
      | none => .nullFile
      | some s => .closed (transferChunk s r.chunkNum)

end Surroundings

/-- The first word of a request, which is empty for a request of blanks. -/
def firstWord (command : Str) : Str := (extractWords 1 command).headD []

/-- The second word. -/
def secondWord (command : Str) : Str := ((extractWords 2 command)[1]?).getD []

/-- `ClientServerKernel`. -/
def clientServerKernel (w : Surroundings) (filechunksMap : Str → Option (List ℕ)) (command : Str) :
    Served :=
  if firstWord command = "join_group".toList then .closed []
  else if firstWord command = "Hello".toList then .closed []
  else if firstWord command = "send_chunk".toList then w.transferFunction (split command ' ')
  else if firstWord command = "chunk_numbers".toList then
    .closed (getChunkInfo (filechunksMap (secondWord command)))
  else .closed []

/-! ### Which requests a peer survives -/

/-- The peer comes to the end of the request and closes the connection. It has sent a part of the
    file for a chunk, the numbers of chunks where it is asked for these, and nothing otherwise. -/
def SurvivesRequest (w : Surroundings) (filechunksMap : Str → Option (List ℕ)) (command : Str) :
    Prop :=
  ∃ sent, clientServerKernel w filechunksMap command = .closed sent ∧
    (firstWord command = "send_chunk".toList → ∃ path s, w.files path = some s ∧ sent <:+: s) ∧
    (firstWord command = "chunk_numbers".toList →
      sent = getChunkInfo (filechunksMap (secondWord command))) ∧
    (firstWord command ∉ ["send_chunk".toList, "chunk_numbers".toList] → sent = [])

/-- There are words enough, the tracker takes the second connection as well, and the path that it
    replies can be opened. -/
def Servable (w : Surroundings) (splitVector : List Str) : Prop :=
  9 ≤ splitVector.length ∧ ∀ r, chunkRequest splitVector = some r →
    w.accepts (w.checkTracker r.trackerData) = true ∧
    w.fopen (w.fullPath r.groupname r.filename r.username) ≠ none

section Survival

variable {w : Surroundings} {filechunksMap : Str → Option (List ℕ)} {command : Str}

lemma transferChunk_part (s field : Str) : transferChunk s field <:+: s :=
  (transferLoop_part _ _).isInfix.trans (List.drop_suffix _ s).isInfix

lemma Surroundings.transferFunction_closed {v : List Str} {sent : Str} :
    w.transferFunction v = .closed sent ↔ ∃ r s, chunkRequest v = some r ∧
      w.accepts (w.checkTracker r.trackerData) = true ∧
      w.fopen (w.fullPath r.groupname r.filename r.username) = some s ∧
      sent = transferChunk s r.chunkNum := by
  constructor
  · intro h
    rw [transferFunction] at h
    split at h
    · cases h
    · rename_i r hr
      split at h
      · cases h
      · rename_i path hpath
        rw [getFilePath] at hpath
        split_ifs at hpath with haccepts
        cases hpath
        split at h
        · cases h
        · rename_i s hs
          cases h
          exact ⟨r, s, hr, haccepts, hs, rfl⟩
  · rintro ⟨r, s, hr, haccepts, hs, rfl⟩
    simp only [transferFunction, hr, getFilePath, if_pos haccepts, hs]

/-- A request for a chunk ends well just if it is servable. -/
lemma Surroundings.transferFunction_closed_iff {v : List Str} :
    (∃ sent, w.transferFunction v = .closed sent) ↔ Servable w v := by
  constructor
  · rintro ⟨sent, hsent⟩
    obtain ⟨r, s, hr, haccepts, hs, -⟩ := transferFunction_closed.mp hsent
    refine ⟨le_length_of_chunkRequest hr, fun r' hr' => ?_⟩
    obtain rfl := Option.some.inj (hr'.symm.trans hr)
    exact ⟨haccepts, Option.ne_none_iff_exists'.mpr ⟨s, hs⟩⟩
  · rintro ⟨hlength, hserve⟩
    obtain ⟨r, hr⟩ := chunkRequest_eq_some hlength
    obtain ⟨haccepts, hne⟩ := hserve r hr
    obtain ⟨s, hs⟩ := Option.ne_none_iff_exists'.mp hne
    exact ⟨_, transferFunction_closed.mpr ⟨r, s, hr, haccepts, hs, rfl⟩⟩

/-- What is sent for a chunk comes from a file. -/
lemma Surroundings.transferFunction_part {v : List Str} {sent : Str}
    (h : w.transferFunction v = .closed sent) :
    ∃ path s, w.files path = some s ∧ sent <:+: s := by
  obtain ⟨r, s, -, -, hs, rfl⟩ := transferFunction_closed.mp h
  rw [fopen] at hs
  split_ifs at hs
  exact ⟨_, s, hs, transferChunk_part s _⟩

lemma clientServerKernel_send_chunk (h : firstWord command = "send_chunk".toList) :
    clientServerKernel w filechunksMap command = w.transferFunction (split command ' ') := by
  rw [clientServerKernel, h, if_neg (by decide), if_neg (by decide), if_pos rfl]

lemma clientServerKernel_chunk_numbers (h : firstWord command = "chunk_numbers".toList) :
    clientServerKernel w filechunksMap command =
      .closed (getChunkInfo (filechunksMap (secondWord command))) := by
  rw [clientServerKernel, h, if_neg (by decide), if_neg (by decide), if_neg (by decide), if_pos rfl]

lemma clientServerKernel_other
    (h : firstWord command ∉ ["send_chunk".toList, "chunk_numbers".toList]) :
    clientServerKernel w filechunksMap command = .closed [] := by
  rw [List.mem_pair, not_or] at h
  rw [clientServerKernel, if_neg h.1, if_neg h.2, ite_self, ite_self]

/-- A peer survives just the requests that do not ask for a chunk and those that can be served. -/
theorem request_survived_iff (w : Surroundings) (filechunksMap : Str → Option (List ℕ))
    (command : Str) : SurvivesRequest w filechunksMap command ↔
      firstWord command ≠ "send_chunk".toList ∨ Servable w (split command ' ') := by
  by_cases hchunk : firstWord command = "send_chunk".toList
  · have hnumbers : firstWord command ≠ "chunk_numbers".toList := by
      rw [hchunk]
      decide
    rw [or_iff_right (not_not.mpr hchunk), ← Surroundings.transferFunction_closed_iff]
    constructor
    · rintro ⟨sent, hsent, -⟩
      exact ⟨sent, clientServerKernel_send_chunk hchunk ▸ hsent⟩
    · rintro ⟨sent, hsent⟩
      refine ⟨sent, (clientServerKernel_send_chunk hchunk).trans hsent, fun _ => ?_, ?_, ?_⟩
      · exact Surroundings.transferFunction_part hsent
      · exact fun h => absurd h hnumbers
      · exact fun h => absurd (List.mem_pair.mpr (Or.inl hchunk)) h
  · refine iff_of_true ?_ (Or.inl hchunk)
    by_cases hnumbers : firstWord command = "chunk_numbers".toList
    · exact ⟨_, clientServerKernel_chunk_numbers hnumbers, fun h => absurd h hchunk, fun _ => rfl,
        fun h => absurd (List.mem_pair.mpr (Or.inr hnumbers)) h⟩
    · have hother : firstWord command ∉ ["send_chunk".toList, "chunk_numbers".toList] := by
        rw [List.mem_pair, not_or]
        exact ⟨hchunk, hnumbers⟩
      exact ⟨[], clientServerKernel_other hother, fun h => absurd h hchunk,
        fun h => absurd h hnumbers, fun _ => rfl⟩

end Survival

/-- A tracker that answers with the empty path, for a file that is not shared any more. -/
def unshared : Surroundings where
  reachable _ := true
  accepts _ := true
  handshake := true
  reply _ := []
  files _ := some ['a']

/-- A request of one word, and one for a file that is not shared any more. -/
theorem request_not_survived :
    clientServerKernel unshared (fun _ => none) "send_chunk".toList = .outOfRange ∧
    clientServerKernel unshared (fun _ => none)
      "send_chunk g f 0 172.28.0.11 10000 172.28.0.12 10000 s".toList = .nullFile ∧
    ¬ ∀ w filechunksMap command, SurvivesRequest w filechunksMap command := by
  have hshort : clientServerKernel unshared (fun _ => none) "send_chunk".toList = .outOfRange := by
    decide
  refine ⟨hshort, by decide, fun h => ?_⟩
  obtain ⟨sent, hsent, -⟩ := h unshared (fun _ => none) "send_chunk".toList
  cases hshort.symm.trans hsent

end TorrentShare
