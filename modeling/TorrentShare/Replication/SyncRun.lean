import TorrentShare.Program.Blocks
import TorrentShare.Program.Machines
import TorrentShare.Replication.Startup

/-!
# The transfer of a file

`Sync` sends a file in blocks of `MAX_SIZE` bytes, each after an answer, and a mark for the end.
`SyncRecv` answers whatever it reads, and writes it down until it reads the mark. TLS cuts the
blocks into records, and one record is read at a time.
-/

namespace TorrentShare

open Program

/-! ### The loop of the receiver -/

/-- `TLSRecvRaw`, from what the reads of a connection yield before it is finished. -/
def tlsRecvRaw (reads : List Str) : Str × List Str := (reads.headD [], reads.tail)

/-- The loop of `SyncRecv`: what has been passed to `outfile`, and the reads to come. -/
inductive SyncLoop where
  | reading (outfile : Str) (reads : List Str)
  | left (outfile : Str)
  deriving DecidableEq

/-- An iteration. -/
def SyncLoop.next : SyncLoop → SyncLoop
  | .reading outfile reads =>
    if (tlsRecvRaw reads).1 = syncOver then .left outfile
    else .reading (outfile ++ (tlsRecvRaw reads).1) (tlsRecvRaw reads).2
  | .left outfile          => .left outfile

/-- The loop after some iterations. -/
def syncRecvLoop (reads : List Str) (n : ℕ) : SyncLoop := SyncLoop.next^[n] (.reading [] reads)

section Loop

variable {outfile written : Str} {reads : List Str} {n : ℕ}

lemma SyncLoop.next_cons (line : Str) : (SyncLoop.reading outfile (line :: reads)).next =
    if line = syncOver then .left outfile else .reading (outfile ++ line) reads := rfl

/-- A finished connection yields nothing. -/
lemma SyncLoop.next_nil : (SyncLoop.reading outfile []).next = .reading outfile [] := by
  rw [SyncLoop.next, if_neg (by decide)]
  exact congrArg (SyncLoop.reading · []) (List.append_nil outfile)

lemma SyncLoop.iterate_left : SyncLoop.next^[n] (.left outfile) = .left outfile :=
  Function.iterate_fixed rfl n

lemma SyncLoop.iterate_nil : SyncLoop.next^[n] (.reading outfile []) = .reading outfile [] :=
  Function.iterate_fixed SyncLoop.next_nil n

/-- The loop is left with what `syncRecv` says, if that comes to the end. -/
lemma SyncLoop.iterate_eq_left_iff :
    (∃ n, SyncLoop.next^[n] (.reading outfile reads) = .left written) ↔
      (syncRecv reads).2 = true ∧ written = outfile ++ (syncRecv reads).1 := by
  induction reads generalizing outfile with
  | nil =>
    refine iff_of_false ?_ fun h => by cases h.1
    rintro ⟨n, hn⟩
    rw [SyncLoop.iterate_nil] at hn
    cases hn
  | cons line reads ih =>
    -- the loop is not left before the first iteration
    have hfirst : (∃ n, SyncLoop.next^[n] (.reading outfile (line :: reads)) = .left written) ↔
        ∃ n, SyncLoop.next^[n] (SyncLoop.reading outfile (line :: reads)).next = .left written := by
      constructor
      · rintro ⟨n, hn⟩
        cases n with
        | zero => cases hn
        | succ n => exact ⟨n, hn⟩
      · rintro ⟨n, hn⟩
        exact ⟨n + 1, hn⟩
    rw [hfirst, SyncLoop.next_cons, syncRecv]
    split_ifs with hover
    · simp only [SyncLoop.iterate_left, exists_const, SyncLoop.left.injEq, List.append_nil,
        true_and, eq_comm]
    · rw [ih, List.append_assoc]

lemma syncRecv_ended_iff : (syncRecv reads).2 = true ↔ syncOver ∈ reads := by
  induction reads with
  | nil => simp [syncRecv]
  | cons line reads ih =>
    rw [syncRecv, List.mem_cons, eq_comm (a := syncOver)]
    split_ifs with hover
    · simp [hover]
    · simp [hover, ih]

/-- `SyncRecv` leaves its loop just if one read yields the mark, neither more nor less. -/
theorem sync_recv_ends_iff (reads : List Str) :
    (∃ n written, syncRecvLoop reads n = .left written) ↔ syncOver ∈ reads := by
  rw [← syncRecv_ended_iff]
  constructor
  · rintro ⟨n, written, hn⟩
    exact (SyncLoop.iterate_eq_left_iff.mp ⟨n, hn⟩).1
  · intro hended
    have hwhole : (syncRecv reads).1 = [] ++ (syncRecv reads).1 := rfl
    obtain ⟨n, hn⟩ := SyncLoop.iterate_eq_left_iff.mpr ⟨hended, hwhole⟩
    exact ⟨n, _, hn⟩

/-- Nothing is delivered. -/
theorem empty_stream_never_ends : ¬ ∃ n written, syncRecvLoop [] n = .left written := by
  rintro ⟨n, written, hn⟩
  rw [syncRecvLoop, SyncLoop.iterate_nil] at hn
  cases hn

end Loop

/-! ### Both sides -/

/-- What `Sync` is about to do: to wait in `TLSRecvRaw`, to read a block, or to write the records
    of a block. -/
inductive Sender where
  | waiting
  | sending
  | writing (records : List Str)
  | closed
  deriving DecidableEq

/-- What `SyncRecv` is about to do. -/
inductive Receiver where
  | opening
  | answering
  | reading
  | closed
  deriving DecidableEq

/-- The records of the block that have still to be written. -/
def Sender.outgoing : Sender → List Str
  | .waiting         => []
  | .sending         => []
  | .writing records => records
  | .closed          => []

/-- The steps that are left, beside those for what has to be read. -/
def Sender.rank : Sender → ℕ
  | .waiting         => 11
  | .sending         => 10
  | .writing records => 4 * records.length + 12
  | .closed          => 0

def Receiver.rank : Receiver → ℕ
  | .opening   => 3
  | .answering => 2
  | .reading   => 1
  | .closed    => 0

/-- A transfer, from the message that asks for it: the part of the file that has not been read,
    the records and the answers on their way, and what has been passed to `outfile`. -/
structure SyncRun where
  unread : Str
  sender : Sender := .waiting
  data : List Str := []
  answers : ℕ := 0
  receiver : Receiver := .opening
  outfile : Str := []
  deriving DecidableEq

/-- Who goes on. -/
inductive Party where
  | sender
  | receiver
  deriving DecidableEq

namespace SyncRun

/-- The size of a full record of TLS. -/
def recordSize : ℕ := 16384

/-- The records in which a block arrives. -/
def records (block : Str) : List Str := Blocks.pieces recordSize block

/-- `Sync` -/
def sync (s : SyncRun) : Option SyncRun :=
  match s.sender with
  | .waiting =>
    if 0 < s.answers then some { s with answers := s.answers - 1, sender := .sending }
    else if s.receiver = .closed then some { s with sender := .sending }
    else none
  | .sending =>
    if s.unread = [] then some { s with data := s.data ++ [syncOver], sender := .closed }
    else some { s with
      unread := s.unread.drop Startup.maxSize
      sender := .writing (records (s.unread.take Startup.maxSize)) }
  | .writing []                => some { s with sender := .waiting }
  | .writing (record :: rest) => some { s with
    data := s.data ++ [record], sender := .writing rest }
  | .closed => none

/-- `SyncRecv`. A read waits until there is a record, or the other side has closed. -/
def syncRecv (s : SyncRun) : Option SyncRun :=
  match s.receiver with
  | .opening   => some { s with receiver := .answering }
  | .answering => some { s with answers := s.answers + 1, receiver := .reading }
  | .reading   =>
    if s.data = [] ∧ s.sender ≠ .closed then none
    else match (SyncLoop.reading s.outfile s.data).next with
      | .left outfile         => some { s with
        data := s.data.tail, outfile := outfile, receiver := .closed }
      | .reading outfile data => some { s with
        data := data, outfile := outfile, receiver := .answering }
  | .closed    => none

def step (s : SyncRun) : Party → Option SyncRun
  | .sender   => s.sync
  | .receiver => s.syncRecv

/-- `Sync` has sent its first message and waits for an answer. -/
def start (content : Str) : SyncRun := { unread := content }

/-- Runs, whoever goes on. -/
abbrev Runs : SyncRun → SyncRun → Prop := Machine.RunsWhen step fun _ _ => True

/-! ### Records -/

lemma recordSize_pos : 0 < recordSize := Nat.succ_pos 16383

lemma maxSize_pos : 0 < Startup.maxSize := Nat.succ_pos 65534

lemma flatten_records (block : Str) : (records block).flatten = block :=
  Blocks.flatten_pieces recordSize_pos block

/-- What is left of a text of whole lines ends with a newline. -/
lemma getLast?_of_suffix {content rest : Str} (hcontent : Terminated content)
    (hrest : rest <:+ content) (hne : rest ≠ []) : rest.getLast? = some '\n' := by
  obtain ⟨before, rfl⟩ := hrest
  rcases List.eq_nil_or_concat (getlines (before ++ rest)) with hnil | ⟨ls, l, hls⟩
  · rw [Terminated, hnil] at hcontent
    exact absurd (List.append_eq_nil_iff.mp hcontent.symm).2 hne
  · have hlast : (before ++ rest).getLast? = some '\n' := by
      rw [← hcontent, hls]
      simp [Disk.putlines, putline]
    rwa [List.getLast?_append_of_ne_nil _ hne] at hlast

/-- No record of a file of whole lines is the mark: the records of a full block are longer, and the
    last record of the file ends with a newline. -/
lemma syncOver_not_mem_records {content rest : Str} (hcontent : Terminated content)
    (hrest : rest <:+ content) : syncOver ∉ records (rest.take Startup.maxSize) := by
  intro hmem
  rcases Blocks.full_or_last recordSize_pos hmem with hfull | ⟨hlast, hlength⟩
  · cases hfull
  · rcases Nat.le_total Startup.maxSize rest.length with hle | hle
    · rw [List.length_take_of_le hle] at hlength
      cases hlength
    · rw [List.take_of_length_le hle] at hlast
      have hnewline := getLast?_of_suffix hcontent (hlast.trans hrest) (by decide)
      cases hnewline

/-- In a directory of such files the mark is clear, as the start of a tracker needs it. -/
lemma clear_records {S : Directory} (h : ∀ p c, S.disk.file p = some c → Terminated c) :
    S.Clear records :=
  fun p c _ hc => syncOver_not_mem_records (h p c hc) (List.drop_suffix _ c)

/-! ### Steps -/

/-- What a step can be. -/
inductive Moves (s : SyncRun) : SyncRun → Prop where
  | answered (hsender : s.sender = .waiting) (hanswers : 0 < s.answers) :
      Moves s { s with answers := s.answers - 1, sender := .sending }
  | abandoned (hsender : s.sender = .waiting) (hreceiver : s.receiver = .closed) :
      Moves s { s with sender := .sending }
  | block (hsender : s.sender = .sending) (hunread : s.unread ≠ []) :
      Moves s { s with
        unread := s.unread.drop Startup.maxSize
        sender := .writing (records (s.unread.take Startup.maxSize)) }
  | record (record : Str) (rest : List Str) (hsender : s.sender = .writing (record :: rest)) :
      Moves s { s with data := s.data ++ [record], sender := .writing rest }
  | written (hsender : s.sender = .writing []) : Moves s { s with sender := .waiting }
  | mark (hsender : s.sender = .sending) (hunread : s.unread = []) :
      Moves s { s with data := s.data ++ [syncOver], sender := .closed }
  | opens (hreceiver : s.receiver = .opening) : Moves s { s with receiver := .answering }
  | answers (hreceiver : s.receiver = .answering) :
      Moves s { s with answers := s.answers + 1, receiver := .reading }
  | nothing (hreceiver : s.receiver = .reading) (hdata : s.data = [])
      (hsender : s.sender = .closed) : Moves s { s with receiver := .answering }
  | writes (line : Str) (data : List Str) (hreceiver : s.receiver = .reading)
      (hdata : s.data = line :: data) (hline : line ≠ syncOver) :
      Moves s { s with data := data, outfile := s.outfile ++ line, receiver := .answering }
  | ends (data : List Str) (hreceiver : s.receiver = .reading) (hdata : s.data = syncOver :: data) :
      Moves s { s with data := data, receiver := .closed }

section Step

variable {content : Str} {s s' : SyncRun}

lemma moves_of_sync (h : s.sync = some s') : Moves s s' := by
  unfold sync at h
  split at h
  · rename_i hsender
    split_ifs at h with hanswers hreceiver
    · cases h
      exact .answered hsender hanswers
    · cases h
      exact .abandoned hsender hreceiver
  · rename_i hsender
    split_ifs at h with hunread
    · cases h
      exact .mark hsender hunread
    · cases h
      exact .block hsender hunread
  · rename_i hsender
    cases h
    exact .written hsender
  · rename_i hsender
    cases h
    exact .record _ _ hsender
  · cases h

lemma moves_of_syncRecv (h : s.syncRecv = some s') : Moves s s' := by
  unfold syncRecv at h
  split at h
  · rename_i hreceiver
    cases h
    exact .opens hreceiver
  · rename_i hreceiver
    cases h
    exact .answers hreceiver
  · rename_i hreceiver
    split_ifs at h with hwait
    cases hdata : s.data with
    | nil =>
      have hsender : s.sender = .closed := by
        by_contra hne
        exact hwait ⟨hdata, hne⟩
      rw [hdata, SyncLoop.next_nil] at h
      cases h
      exact hdata ▸ .nothing hreceiver hdata hsender
    | cons line data =>
      rw [hdata, SyncLoop.next_cons] at h
      by_cases hline : line = syncOver
      · rw [if_pos hline] at h
        cases h
        exact .ends data hreceiver (hline ▸ hdata)
      · rw [if_neg hline] at h
        cases h
        exact .writes line data hreceiver hdata hline
  · cases h

lemma moves_of_step {e : Party} (h : s.step e = some s') : Moves s s' := by
  cases e with
  | sender => exact moves_of_sync h
  | receiver => exact moves_of_syncRecv h

end Step

/-! ### What holds on the way -/

/-- What has been written is a beginning of the file. Until the receiver has closed, what is on its
    way and what has not been sent follow, and the mark comes after them; a sender that waits for
    an answer will get one. With a file of whole lines the receiver closes at the mark. -/
structure Sound (content : Str) (s : SyncRun) : Prop where
  outfile : s.outfile <+: content
  flows : s.receiver ≠ .closed → ∃ pending,
    s.outfile ++ pending.flatten ++ s.unread = content ∧
    (Terminated content → syncOver ∉ pending) ∧
    (s.sender ≠ .closed ∧ s.data ++ s.sender.outgoing = pending ∨
      s.sender = .closed ∧ s.unread = [] ∧ s.data = pending ++ [syncOver])
  ended : Terminated content → s.receiver = .closed →
    s.sender = .closed ∧ s.data = [] ∧ s.outfile = content
  answered : s.sender = .waiting ∨ s.sender = .writing [] → s.answers = 0 → s.data = [] →
    s.receiver ≠ .reading

section Sound

variable {content : Str} {s s' : SyncRun}

lemma sound_start : Sound content (start content) := by
  refine ⟨List.nil_prefix, fun _ => ⟨[], rfl, fun _ => ?_, Or.inl ⟨nofun, rfl⟩⟩, fun _ => nofun,
    fun _ _ _ => nofun⟩
  exact List.not_mem_nil

/-- Until the sender has closed, nothing on its way is the mark. -/
lemma Sound.of_open (h : Sound content s) (hsender : s.sender ≠ .closed)
    (hopen : s.receiver ≠ .closed) :
    s.outfile ++ (s.data ++ s.sender.outgoing).flatten ++ s.unread = content ∧
      (Terminated content → syncOver ∉ s.data ++ s.sender.outgoing) := by
  obtain ⟨pending, hcontent, hclear, ⟨-, rfl⟩ | ⟨hclosed, -⟩⟩ := h.flows hopen
  · exact ⟨hcontent, hclear⟩
  · exact absurd hclosed hsender

/-- The receiver does not close first. -/
lemma Sound.receiver_open (h : Sound content s) (hsender : s.sender ≠ .closed)
    (hwhole : Terminated content) : s.receiver ≠ .closed :=
  fun hclosed => hsender (h.ended hwhole hclosed).1

/-- A step of the sender that does not close: the records that are on their way or are going to be
    stay the same, or those of a block come after them. -/
lemma Sound.send (h : Sound content s) {data new : List Str} {sender : Sender} {answers : ℕ}
    (hside : s.sender ≠ .closed) (hside' : sender ≠ .closed) {unread : Str}
    (hdata : data ++ sender.outgoing = s.data ++ s.sender.outgoing ++ new)
    (hunread : new.flatten ++ unread = s.unread)
    (hclear : Terminated content → s.unread <:+ content → syncOver ∉ new)
    (hanswered : sender = .waiting ∨ sender = .writing [] → answers = 0 → data = [] →
      s.receiver ≠ .reading) :
    Sound content { s with unread, sender, data, answers } := by
  refine ⟨h.outfile, fun hopen => ?_, fun hwhole hclosed => ?_, hanswered⟩
  · obtain ⟨hcontent, hold⟩ := h.of_open hside hopen
    refine ⟨_, ?_, fun hwhole => ?_, Or.inl ⟨hside', hdata⟩⟩
    · rw [List.flatten_append, ← List.append_assoc, List.append_assoc _ new.flatten, hunread,
        hcontent]
    · have hsuffix : s.unread <:+ content := hcontent ▸ List.suffix_append _ _
      rw [List.mem_append, not_or]
      exact ⟨hold hwhole, hclear hwhole hsuffix⟩
  · exact absurd hclosed (h.receiver_open hside hwhole)

/-- A step that sends nothing. -/
lemma Sound.wait (h : Sound content s) {sender : Sender} {answers : ℕ} (hside : s.sender ≠ .closed)
    (hside' : sender ≠ .closed) (hsame : sender.outgoing = s.sender.outgoing)
    (hanswered : sender = .waiting ∨ sender = .writing [] → answers = 0 → s.data = [] →
      s.receiver ≠ .reading) : Sound content { s with sender, answers } := by
  refine h.send hside hside' ?_ (List.nil_append _) (fun _ _ => List.not_mem_nil) hanswered
  rw [hsame, List.append_nil]

lemma Sound.step (h : Sound content s) (hmoves : Moves s s') : Sound content s' := by
  cases hmoves with
  | answered hsender hanswers =>
    refine h.wait (hsender ▸ nofun) ?_ (hsender ▸ rfl) ?_
    · exact nofun
    · exact nofun
  | abandoned hsender hreceiver =>
    refine h.wait (hsender ▸ nofun) ?_ (hsender ▸ rfl) ?_
    · exact nofun
    · exact nofun
  | block hsender hunread =>
    have hside : s.sender ≠ .closed := hsender ▸ nofun
    have hne : s.unread.take Startup.maxSize ≠ [] := by
      rw [Ne, List.take_eq_nil_iff]
      exact fun hnil => hnil.elim maxSize_pos.ne' hunread
    refine h.send hside ?_ ?_ ?_ syncOver_not_mem_records ?_
    · exact nofun
    · rw [hsender, Sender.outgoing, Sender.outgoing, List.append_nil]
    · rw [flatten_records, List.take_append_drop]
    · rintro (hwait | hwait)
      · cases hwait
      · exact absurd (Sender.writing.inj hwait) (Blocks.pieces_ne_nil recordSize_pos hne)
  | record record rest hsender =>
    have hside : s.sender ≠ .closed := hsender ▸ nofun
    refine h.send hside ?_ ?_ (List.nil_append _) (fun _ _ => List.not_mem_nil) ?_
    · exact nofun
    · rw [hsender, Sender.outgoing, Sender.outgoing, List.append_nil, List.append_assoc,
        List.singleton_append]
    · intro _ _ hdata
      exact absurd hdata (List.append_ne_nil_of_right_ne_nil _ (List.cons_ne_nil _ _))
  | written hsender =>
    refine h.wait (hsender ▸ nofun) ?_ (hsender ▸ rfl) ?_
    · exact nofun
    · exact fun _ => h.answered (Or.inr hsender)
  | mark hsender hunread =>
    have hside : s.sender ≠ .closed := hsender ▸ nofun
    refine ⟨h.outfile, fun hopen => ?_, fun hwhole hclosed => ?_, nofun⟩
    · obtain ⟨hcontent, hclear⟩ := h.of_open hside hopen
      rw [hsender, Sender.outgoing, List.append_nil] at hcontent hclear
      exact ⟨s.data, hcontent, hclear, Or.inr ⟨rfl, hunread, rfl⟩⟩
    · exact absurd hclosed (h.receiver_open hside hwhole)
  | opens hreceiver =>
    exact ⟨h.outfile, fun _ => h.flows (hreceiver ▸ nofun), nofun, nofun⟩
  | answers hreceiver =>
    exact ⟨h.outfile, fun _ => h.flows (hreceiver ▸ nofun), nofun, fun _ => nofun⟩
  | nothing hreceiver hdata hsender =>
    exact ⟨h.outfile, fun _ => h.flows (hreceiver ▸ nofun), nofun, fun _ _ _ => nofun⟩
  | writes line data hreceiver hdata hline =>
    obtain ⟨pending, hcontent, hclear, hside⟩ := h.flows (hreceiver ▸ nofun)
    obtain ⟨rest, rfl, hrest⟩ : ∃ rest, pending = line :: rest ∧
        (s.sender ≠ .closed ∧ data ++ s.sender.outgoing = rest ∨
          s.sender = .closed ∧ s.unread = [] ∧ data = rest ++ [syncOver]) := by
      rw [hdata] at hside
      rcases hside with ⟨hopen, heq⟩ | ⟨hclosed, hunread, heq⟩
      · exact ⟨_, heq.symm, Or.inl ⟨hopen, rfl⟩⟩
      · cases pending with
        | nil => exact absurd (List.cons.inj heq).1 hline
        | cons l rest =>
          obtain ⟨rfl, hdata'⟩ := List.cons.inj heq
          exact ⟨rest, rfl, Or.inr ⟨hclosed, hunread, hdata'⟩⟩
    rw [List.flatten_cons, ← List.append_assoc] at hcontent
    refine ⟨?_, fun _ => ⟨rest, hcontent, fun hwhole hmem => ?_, hrest⟩, nofun, nofun⟩
    · rw [← hcontent, List.append_assoc (s.outfile ++ line)]
      exact List.prefix_append _ _
    · exact hclear hwhole (List.mem_cons_of_mem _ hmem)
  | ends data hreceiver hdata =>
    obtain ⟨pending, hcontent, hclear, hside⟩ := h.flows (hreceiver ▸ nofun)
    refine ⟨h.outfile, fun hopen => absurd rfl hopen, fun hwhole _ => ?_, fun _ _ _ => nofun⟩
    -- the mark is not the file's
    rw [hdata] at hside
    rcases hside with ⟨-, heq⟩ | ⟨hclosed, hunread, heq⟩
    · exact absurd (heq ▸ List.mem_cons_self) (hclear hwhole)
    · cases pending with
      | nil =>
        refine ⟨hclosed, (List.cons.inj heq).2, ?_⟩
        rw [← hcontent, hunread, List.flatten_nil, List.append_nil, List.append_nil]
      | cons l rest =>
        obtain ⟨rfl, -⟩ := List.cons.inj heq
        exact absurd List.mem_cons_self (hclear hwhole)

lemma sound_of_runs (hrun : Runs (start content) s) : Sound content s :=
  hrun.invariant (fun _ _ _ h _ hstep => h.step (moves_of_step hstep)) sound_start

/-- What both sides have still to do. -/
def rank (s : SyncRun) : ℕ :=
  20 * s.unread.length + 3 * s.data.length + s.sender.rank + s.receiver.rank

lemma Sound.rank_lt (h : Sound content s) (hmoves : Moves s s') : s'.rank < s.rank := by
  cases hmoves with
  | block hsender hunread =>
    have hpieces := Blocks.length_pieces_le recordSize_pos (s.unread.take Startup.maxSize)
    have hpos := List.length_pos_iff.mpr hunread
    have hmax := maxSize_pos
    rw [List.length_take] at hpieces
    simp only [rank, records, hsender, Sender.rank, List.length_drop]
    omega
  | record record rest hsender =>
    simp only [rank, hsender, Sender.rank, List.length_append, List.length_cons, List.length_nil]
    omega
  | written hsender => simp [rank, hsender, Sender.rank]
  | nothing hreceiver hdata hsender =>
    -- the mark is still on its way
    obtain ⟨pending, -, -, ⟨hopen, -⟩ | ⟨-, -, heq⟩⟩ := h.flows (hreceiver ▸ nofun)
    · exact absurd hsender hopen
    · rw [hdata] at heq
      exact absurd heq.symm (List.append_ne_nil_of_right_ne_nil _ (List.cons_ne_nil _ _))
  | answered hsender => simp [rank, hsender, Sender.rank]
  | abandoned hsender => simp [rank, hsender, Sender.rank]
  | mark hsender hunread =>
    simp only [rank, hsender, Sender.rank, List.length_append, List.length_singleton]
    omega
  | opens hreceiver => simp [rank, hreceiver, Receiver.rank]
  | answers hreceiver => simp [rank, hreceiver, Receiver.rank]
  | writes line data hreceiver hdata hline =>
    simp only [rank, hreceiver, hdata, Receiver.rank, List.length_cons]
    omega
  | ends data hreceiver hdata =>
    simp only [rank, hreceiver, hdata, Receiver.rank, List.length_cons]
    omega

/-- Both sides wait only when the receiver has closed. -/
lemma Sound.closed_of_stuck (h : Sound content s) (hstuck : ∀ e, s.step e = none) :
    s.receiver = .closed := by
  have hrecv : s.syncRecv = none := hstuck .receiver
  have hsync : s.sync = none := hstuck .sender
  cases hreceiver : s.receiver with
  | closed => rfl
  | opening =>
    rw [syncRecv, hreceiver] at hrecv
    cases hrecv
  | answering =>
    rw [syncRecv, hreceiver] at hrecv
    cases hrecv
  | reading =>
    rw [syncRecv, hreceiver] at hrecv
    simp only at hrecv
    split_ifs at hrecv with hwait
    · -- the sender waits for an answer, and there is one
      obtain ⟨hdata, hopen⟩ := hwait
      cases hsender : s.sender with
      | closed => exact absurd hsender hopen
      | sending =>
        rw [sync, hsender] at hsync
        simp only at hsync
        split_ifs at hsync
      | waiting =>
        rw [sync, hsender] at hsync
        simp only at hsync
        split_ifs at hsync with hanswers
        exact absurd hreceiver (h.answered (Or.inl hsender) (Nat.eq_zero_of_not_pos hanswers) hdata)
      | writing records =>
        rw [sync, hsender] at hsync
        cases records <;> cases hsync
    · split at hrecv
      · cases hrecv
      · cases hrecv

end Sound

/-! ### Whole and broken transfers -/

section Transfers

variable {content : Str} {s : SyncRun}

/-- A transfer of a file of whole lines comes to an end, and then the receiver has read the mark,
    which is the last thing sent, and has written the file. -/
theorem sync_reproduces (hcontent : Terminated content) :
    (∀ run : ℕ → SyncRun, run 0 = start content → ¬ Machine.Forever step run) ∧
    ∀ s, Runs (start content) s →
      ((∀ e, s.step e = none) → s.receiver = .closed) ∧
      (s.receiver = .closed → s.sender = .closed ∧ s.data = [] ∧ s.outfile = content) := by
  constructor
  · intro run hstart
    have hrank : ∀ s e s', Sound content s → step s e = some s' →
        Sound content s' ∧ s'.rank < s.rank := by
      intro s e s' hs hstep
      have hmoves := moves_of_step hstep
      exact ⟨hs.step hmoves, hs.rank_lt hmoves⟩
    exact Machine.not_forever hrank (hstart ▸ sound_start)
  · intro s hrun
    have hs := sound_of_runs hrun
    exact ⟨hs.closed_of_stuck, hs.ended hcontent⟩

theorem sync_reproduces_line : ∃ s, Runs (start "a\n".toList) s ∧ s.receiver = .closed ∧
    s.sender = .closed ∧ s.data = [] ∧ s.outfile = "a\n".toList := by
  let events : List Party := [.receiver, .receiver, .sender, .sender, .sender, .sender, .receiver,
    .receiver, .sender, .sender, .receiver]
  have hplayed : ((Machine.play step (fun _ _ => true) (start "a\n".toList) events).any
      fun s => decide (s.receiver = .closed)) = true := by
    decide +kernel
  obtain ⟨s, hs, hclosed⟩ := (Option.any_eq_true _ _).mp hplayed
  have hrun : Runs (start "a\n".toList) s := Machine.play_runsWhen (fun _ _ _ => trivial) hs
  have hcontent : Terminated "a\n".toList := rfl
  exact ⟨s, hrun, of_decide_eq_true hclosed,
    ((sync_reproduces hcontent).2 s hrun).2 (of_decide_eq_true hclosed)⟩

/-- What the file may hold from then on if the connection breaks before the mark has been read:
    `SyncRecv` has emptied it, or is about to, and a beginning of what has been passed to `outfile`
    has got there. The file is not closed any more. -/
def MayLeave (s : SyncRun) (file : Str) : Prop := s.receiver ≠ .closed ∧ file <+: s.outfile

/-- A transfer that breaks is sure to leave the old file or the new one just if nothing has been
    received and one of them is empty, or the old one is and the new one has only one byte. -/
theorem broken_sync_keeps_iff {old new : Str} (hrun : Runs (start new) s)
    (hbroken : s.receiver ≠ .closed) :
    (∀ file, s.MayLeave file → file = old ∨ file = new) ↔
      s.outfile = [] ∧ (old = [] ∨ new = []) ∨ old = [] ∧ new.length = 1 := by
  have hprefix : s.outfile <+: new := (sound_of_runs hrun).outfile
  constructor
  · intro hkeeps
    have hempty : old = [] ∨ new = [] :=
      (hkeeps [] ⟨hbroken, List.nil_prefix⟩).imp Eq.symm Eq.symm
    cases houtfile : s.outfile with
    | nil => exact Or.inl ⟨rfl, hempty⟩
    | cons c rest =>
      rw [houtfile] at hprefix
      have hnew : new ≠ [] := by
        rintro rfl
        cases List.prefix_nil.mp hprefix
      have hold := hempty.resolve_right hnew
      have hfirst : s.MayLeave [c] := by
        rw [MayLeave, houtfile]
        exact ⟨hbroken, List.prefix_append [c] rest⟩
      rcases hkeeps [c] hfirst with heq | heq
      · rw [hold] at heq
        cases heq
      · exact Or.inr ⟨hold, heq ▸ rfl⟩
  · rintro (⟨hnothing, hempty⟩ | ⟨hold, hlength⟩) file ⟨-, hfile⟩
    · rw [hnothing, List.prefix_nil] at hfile
      exact hempty.imp (hfile.trans ·.symm) (hfile.trans ·.symm)
    · cases file with
      | nil => exact Or.inl hold.symm
      | cons c rest =>
        right
        refine (hfile.trans hprefix).eq_of_length_le ?_
        rw [hlength, List.length_cons]
        exact Nat.succ_pos _

theorem broken_sync_keeps_iff_empty :
    (∀ file, (start "a\n".toList).MayLeave file → file = [] ∨ file = "a\n".toList) ↔
      (start "a\n".toList).outfile = [] ∧ (([] : Str) = [] ∨ "a\n".toList = []) ∨
        ([] : Str) = [] ∧ "a\n".toList.length = 1 :=
  broken_sync_keeps_iff .refl nofun

/-- The connection breaks when the file has been opened, and neither of two lines is left. -/
theorem broken_sync_empties : ∃ s, Runs (start "a\nb\n".toList) s ∧ s.receiver ≠ .closed ∧
    ∃ file, s.MayLeave file ∧ file ≠ "a\n".toList ∧ file ≠ "a\nb\n".toList := by
  let s : SyncRun := { start "a\nb\n".toList with receiver := .answering }
  have hopens : Runs (start "a\nb\n".toList) s := .single ⟨.receiver, trivial, rfl⟩
  exact ⟨s, hopens, nofun, [], ⟨nofun, List.nil_prefix⟩, by decide, by decide⟩

end Transfers

end SyncRun

end TorrentShare
