import TorrentShare.Program.Fragments
import TorrentShare.Peer.Replies

/-!
# Messages over TLS

`SSL_write` and `SSL_read` may move fewer bytes than they are asked for. The messages that one side
sends arrive at the other one by one all the same, and what follows them on the connection is left
there.
-/

namespace TorrentShare

open Framing

namespace Tls

/-! ### Sending and receiving -/

/-- `SSLWriteAll`, where `writes` says how many bytes each `SSL_write` may take. -/
def sslWriteAll (writes : ℕ → ℕ) (data : List Byte) (s : Stream Byte) : Bool × Stream Byte :=
  s.writeLoop writes data 0

/-- `SSLReadAll`, where `reads` says how many bytes each `SSL_read` may deliver. -/
def sslReadAll (reads : ℕ → ℕ) (len : ℕ) (s : Stream Byte) : Option (List Byte) × Stream Byte :=
  s.readLoop reads len []

def tlsSendMsg (writes : ℕ → ℕ) (data : List Byte) (s : Stream Byte) : Bool × Stream Byte :=
  let header := sslWriteAll writes (bigEndian 4 data.length) s
  if header.1 then
    if data.length > 0 then sslWriteAll writes data header.2 else (true, header.2)
  else (false, header.2)

def tlsRecvMsg (reads : ℕ → ℕ) (s : Stream Byte) : List Byte × Stream Byte :=
  match sslReadAll reads 4 s with
  | (none, s₁) => ([], s₁)
  | (some lenNet, s₁) =>
    let len := ofBigEndian lenNet
    if len > maxMsgSize then ([], s₁)
    else if len = 0 then ([], s₁)
    else
      match sslReadAll reads len s₁ with
      | (none, s₂) => ([], s₂)
      | (some result, s₂) => (result, s₂)

/-- One `TLSSendMsg` after another, until one fails. -/
def sendMsgs (writes : ℕ → ℕ) : List (List Byte) → Stream Byte → Bool × Stream Byte
  | [], s => (true, s)
  | m :: ms, s =>
    let r := tlsSendMsg writes m s
    if r.1 then sendMsgs writes ms r.2 else (false, r.2)

/-- `n` times `TLSRecvMsg`. -/
def recvMsgs (reads : ℕ → ℕ) : ℕ → Stream Byte → List (List Byte) × Stream Byte
  | 0, s => ([], s)
  | n + 1, s =>
    let r := tlsRecvMsg reads s
    let rs := recvMsgs reads n r.2
    (r.1 :: rs.1, rs.2)

/-- The bytes of messages that are sent one after another. -/
def frames (ms : List (List Byte)) : List Byte := ms.flatMap (frame 4)

section Frames

variable {writes reads : ℕ → ℕ} {m : List Byte} {ms : List (List Byte)} {s : Stream Byte}

lemma tlsSendMsg_eq (hwrites : ∀ k, 0 < writes k) (m : List Byte) (s : Stream Byte) :
    ∃ calls, tlsSendMsg writes m s = (true, ⟨s.items ++ frame 4 m, calls⟩) := by
  obtain ⟨calls, hheader⟩ := s.writeLoop_eq hwrites (bigEndian 4 m.length) 0
  rw [tlsSendMsg, sslWriteAll, hheader, List.drop_zero]
  by_cases hm : m.length > 0
  · obtain ⟨calls', hdata⟩ :=
      (⟨s.items ++ bigEndian 4 m.length, calls⟩ : Stream Byte).writeLoop_eq hwrites m 0
    refine ⟨calls', ?_⟩
    rw [if_pos rfl, if_pos hm, sslWriteAll, hdata, List.drop_zero, frame, List.append_assoc]
  · have hnil : m = [] := List.length_eq_zero_iff.mp (Nat.eq_zero_of_not_pos hm)
    refine ⟨calls, ?_⟩
    rw [if_pos rfl, if_neg hm, hnil, frame, List.append_nil]

/-- All messages are written, however the bytes are split. -/
lemma sendMsgs_eq (hwrites : ∀ k, 0 < writes k) (ms : List (List Byte)) (s : Stream Byte) :
    ∃ calls, sendMsgs writes ms s = (true, ⟨s.items ++ frames ms, calls⟩) := by
  induction ms generalizing s with
  | nil => exact ⟨s.calls, by rw [frames, List.flatMap_nil, List.append_nil]; rfl⟩
  | cons m ms ih =>
    obtain ⟨calls, hm⟩ := tlsSendMsg_eq hwrites m s
    obtain ⟨calls', hms⟩ := ih ⟨s.items ++ frame 4 m, calls⟩
    refine ⟨calls', ?_⟩
    rw [sendMsgs, hm, if_pos rfl, hms, List.append_assoc]
    rfl

/-- What is received does not depend on how the bytes are split. -/
lemma tlsRecvMsg_eq (hreads : ∀ k, 0 < reads k) (s : Stream Byte) :
    (tlsRecvMsg reads s).1 = TorrentShare.tlsRecvMsg s.items := by
  have hread : ∀ (len : ℕ) (s : Stream Byte), (∃ data rest calls,
      sslReadAll reads len s = (some data, ⟨rest, calls⟩) ∧
        readAll len s.items = some (data, rest)) ∨
      (sslReadAll reads len s).1 = none ∧ readAll len s.items = none := by
    intro len s
    by_cases hlen : len ≤ s.items.length
    · obtain ⟨calls, hcalls⟩ := s.readLoop_eq_some hreads len [] (Nat.zero_le len) hlen
      exact Or.inl ⟨_, _, calls, hcalls, if_pos hlen⟩
    · exact Or.inr ⟨s.readLoop_eq_none reads (not_le.mp hlen), if_neg hlen⟩
  rw [tlsRecvMsg, TorrentShare.tlsRecvMsg]
  rcases hread 4 s with ⟨lenNet, rest, calls, hloop, hall⟩ | ⟨hloop, hall⟩
  · rw [hloop, TorrentShare.sslReadAll, hall]
    dsimp only
    split_ifs with hlong hempty
    · rfl
    · rfl
    · rcases hread (ofBigEndian lenNet) ⟨rest, calls⟩ with
        ⟨data, rest', calls', hloop', hall'⟩ | ⟨hloop', hall'⟩
      · rw [hloop', TorrentShare.sslReadAll, hall']
      · rw [TorrentShare.sslReadAll, hall', ← Prod.mk.eta (p := sslReadAll reads _ _), hloop']
  · rw [TorrentShare.sslReadAll, hall, ← Prod.mk.eta (p := sslReadAll reads 4 s), hloop]

/-- A complete message is taken off the stream, and nothing behind it. -/
lemma tlsRecvMsg_frame (hreads : ∀ k, 0 < reads k) (hm : 1 ≤ m.length)
    (hlong : m.length ≤ maxMsgSize) (rest : List Byte) (calls : ℕ) :
    ∃ calls', tlsRecvMsg reads ⟨frame 4 m ++ rest, calls⟩ = (m, ⟨rest, calls'⟩) := by
  have hfits : m.length < 256 ^ 4 := lt_of_le_of_lt hlong (by decide)
  have hheader := length_bigEndian 4 m.length
  obtain ⟨calls₁, hlen⟩ := (⟨frame 4 m ++ rest, calls⟩ : Stream Byte).readLoop_eq_some hreads
    4 [] (Nat.zero_le 4) (by simp [frame])
  obtain ⟨calls₂, hdata⟩ := (⟨m ++ rest, calls₁⟩ : Stream Byte).readLoop_eq_some hreads
    m.length [] (Nat.zero_le _) (by simp)
  refine ⟨calls₂, ?_⟩
  have htake : (frame 4 m ++ rest).take 4 = bigEndian 4 m.length := by
    rw [frame, List.append_assoc, List.take_left' hheader]
  have hdrop : (frame 4 m ++ rest).drop 4 = m ++ rest := by
    rw [frame, List.append_assoc, List.drop_left' hheader]
  simp only [List.length_nil, Nat.sub_zero, List.nil_append, htake, hdrop] at hlen
  simp only [List.length_nil, Nat.sub_zero, List.nil_append, List.take_left, List.drop_left]
    at hdata
  rw [tlsRecvMsg, sslReadAll, hlen]
  dsimp only
  rw [ofBigEndian_bigEndian hfits, if_neg (not_lt.mpr hlong), if_neg (by omega), sslReadAll, hdata]

/-- A message that is cut off is received as an empty one. -/
lemma tlsRecvMsg_cut (hreads : ∀ k, 0 < reads k) (hlong : m.length ≤ maxMsgSize) {cut : List Byte}
    (hcut : cut <+: frame 4 m) (hne : cut ≠ frame 4 m) (calls : ℕ) :
    (tlsRecvMsg reads ⟨cut, calls⟩).1 = [] := by
  rw [tlsRecvMsg_eq hreads]
  by_contra hdata
  obtain ⟨⟨hlength, rest, hstart⟩, -⟩ := (tlsRecvMsg_eq_iff hdata).mp rfl
  obtain ⟨missing, hmissing⟩ := hcut
  set data := TorrentShare.tlsRecvMsg cut
  have hfits : m.length < 256 ^ 4 := lt_of_le_of_lt hlong (by decide)
  have hbytes : bigEndian 4 data.length ++ (data ++ (rest ++ missing)) =
      bigEndian 4 m.length ++ m := by
    rw [← frame, ← hmissing]
    rw [show cut = frame 4 data ++ rest from hstart, frame]
    simp only [List.append_assoc]
  obtain ⟨hheader, hbody⟩ := List.append_inj hbytes (by simp)
  have hsame : data.length = m.length := by
    rw [← ofBigEndian_bigEndian hlength, hheader, ofBigEndian_bigEndian hfits]
  have hnil : missing = [] := by
    have htotal := congrArg List.length hbody
    simp only [List.length_append] at htotal
    exact List.length_eq_zero_iff.mp (by omega)
  rw [hnil, List.append_nil] at hmissing
  exact hne hmissing

/-- The first messages are received, and the others stay on the stream with what follows them. -/
lemma recvMsgs_frames (hreads : ∀ k, 0 < reads k)
    (hms : ∀ m ∈ ms, 1 ≤ m.length ∧ m.length ≤ maxMsgSize) (rest : List Byte) (calls : ℕ) :
    ∃ calls', recvMsgs reads ms.length ⟨frames ms ++ rest, calls⟩ = (ms, ⟨rest, calls'⟩) := by
  induction ms generalizing calls with
  | nil => exact ⟨calls, rfl⟩
  | cons m ms ih =>
    obtain ⟨hm, hrest⟩ := List.forall_mem_cons.mp hms
    obtain ⟨calls₁, hrecv⟩ := tlsRecvMsg_frame hreads hm.1 hm.2 (frames ms ++ rest) calls
    obtain ⟨calls₂, hrecvs⟩ := ih hrest calls₁
    refine ⟨calls₂, ?_⟩
    rw [List.length_cons, recvMsgs, frames, List.flatMap_cons, List.append_assoc, ← frames, hrecv,
      hrecvs]

/-- One more message is received. -/
lemma recvMsgs_succ (reads : ℕ → ℕ) (n : ℕ) (s : Stream Byte) :
    recvMsgs reads (n + 1) s =
      ((recvMsgs reads n s).1 ++ [(tlsRecvMsg reads (recvMsgs reads n s).2).1],
        (tlsRecvMsg reads (recvMsgs reads n s).2).2) := by
  induction n generalizing s with
  | zero => rfl
  | succ n ih =>
    rw [recvMsgs, ih]
    rfl

/-- However `SSL_write` and `SSL_read` split the bytes: the messages that are sent are received one
    after another, what follows is left on the stream, and a message that is cut off is received as
    an empty one. -/
theorem messages_received (hwrites : ∀ k, 0 < writes k) (hreads : ∀ k, 0 < reads k)
    (hms : ∀ m ∈ ms, 1 ≤ m.length ∧ m.length ≤ maxMsgSize) :
    ((sendMsgs writes ms {}).1 = true ∧
      ∀ before after, ms = before ++ after → ∀ raw calls, ∃ calls',
        recvMsgs reads before.length ⟨(sendMsgs writes ms {}).2.items ++ raw, calls⟩ =
          (before, ⟨frames after ++ raw, calls'⟩)) ∧
    ∀ before m after, ms = before ++ m :: after → ∀ cut, cut <+: frame 4 m → cut ≠ frame 4 m →
      ∀ calls, (recvMsgs reads (before.length + 1) ⟨frames before ++ cut, calls⟩).1 =
        before ++ [[]] := by
  obtain ⟨calls₀, hsend⟩ := sendMsgs_eq hwrites ms {}
  refine ⟨⟨by rw [hsend], ?_⟩, ?_⟩
  · rintro before after rfl raw calls
    have hbefore := (List.forall_mem_append.mp hms).1
    have hbytes : frames (before ++ after) ++ raw = frames before ++ (frames after ++ raw) := by
      rw [frames, List.flatMap_append, List.append_assoc]
      rfl
    rw [hsend, List.nil_append, hbytes]
    exact recvMsgs_frames hreads hbefore _ calls
  · rintro before m after rfl cut hcut hne calls
    obtain ⟨hbefore, hafter⟩ := List.forall_mem_append.mp hms
    obtain ⟨calls', hrecv⟩ := recvMsgs_frames hreads hbefore cut calls
    rw [recvMsgs_succ, hrecv, tlsRecvMsg_cut hreads (hafter m List.mem_cons_self).2 hcut hne]

end Frames

/-- Two messages and a byte that follows them, one byte at a time. -/
theorem messages_received_two : ∃ calls, recvMsgs (fun _ => 1) 2
    ⟨(sendMsgs (fun _ => 1) [[7], [8, 9]] {}).2.items ++ [5], 0⟩ = ([[7], [8, 9]], ⟨[5], calls⟩) :=
  (messages_received (fun _ => Nat.one_pos) (fun _ => Nat.one_pos) (by decide)).1.2
    [[7], [8, 9]] [] rfl [5] 0

end Tls

end TorrentShare
