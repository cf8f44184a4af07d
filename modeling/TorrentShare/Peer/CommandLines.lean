import Mathlib.Algebra.Order.BigOperators.Group.List
import Mathlib.Algebra.Order.Group.Nat
import TorrentShare.Peer.Notified
import TorrentShare.Peer.Replies

/-!
# Command lines

The words of a line are read into strings that keep what was typed before. What a line asks the
tracker for depends on the earlier lines where it leaves a word out.
-/

namespace TorrentShare

/-! ### Requests -/

/-- What a command meets with: whether `CheckTracker` finds a tracker; its connections to the
    tracker in their order; what `GetFileHash` says about a file; and, in a download, how many times
    `UpdateServer` comes through and whether `UpdateServerComplete` does. -/
structure Situation where
  checkTracker : Bool
  connections : ℕ → TrackerSide
  getFileHash : Str → Str × ℕ
  updates : ℕ
  completes : Bool

namespace Situation

/-- What one of the nine functions sends. -/
def sent (e : Situation) (function : TrackerSide → Option Str × Bool) : List Str :=
  (function (e.connections 0)).1.toList

/-- The reply over connection `n`, if the handshake succeeds. -/
def reply (e : Situation) (n : ℕ) : Option Str :=
  if (e.connections n).handshake then
    some ((tlsRecvMsg (e.connections n).stream).map fun b => Char.ofNat b.val)
  else none

/-- The messages `give_details` from connection `n` on, and whether every reply has two words. -/
def giveDetails (e : Situation) : ℕ → List Str → List Str × Bool
  | _, []           => ([], true)
  | n, i :: seeders =>
    match e.reply n with
    | none => e.giveDetails (n + 1) seeders
    | some cred =>
      let data := "give_details ".toList ++ i
      if 2 ≤ (split cred ' ').length then
        let rest := e.giveDetails (n + 1) seeders
        (data :: rest.1, rest.2)
      else ([data], false)

/-- What a download tells the tracker about itself. -/
def notices (e : Situation) (filemeta : FileData) (username : Str) : List Str :=
  List.replicate e.updates (addFile filemeta username) ++
    if e.completes then
      ["complete ".toList ++ filemeta.group ++ [' '] ++ filemeta.name ++ [' '] ++ filemeta.path ++
        [' '] ++ username]
    else []

/-- `DownloadFile`. -/
def download (e : Situation) (groupname filename filepath username : Str) : List Str :=
  match e.reply 0 with
  | none => []
  | some filehash =>
    ("give_sha ".toList ++ groupname ++ [' '] ++ filename ++ [' '] ++ username) ::
      if filehash = [] then []
      else
        match e.reply 1 with
        | none => []
        | some output =>
          ("give_seeders ".toList ++ groupname ++ [' '] ++ filename ++ [' '] ++ username) ::
            match downloadFile groupname filename filepath filehash output with
            | none => []
            | some d =>
              let details := e.giveDetails 2 d.filemeta.seeders
              details.1 ++ if details.2 then e.notices d.filemeta username else []

end Situation

/-- A branch of `main`: the command, how many words it reads, and what it sends to the tracker, from
    the username and `command_split`. -/
structure Branch where
  word : Str
  words : ℕ
  send : Situation → Str → (ℕ → Str) → List Str

section Main

variable (myip myport : Str)

/-- The branches that ask the tracker for something. -/
def branches : Bool → List Branch
  | false =>
    [⟨"login".toList, 2, fun e _ arg => e.sent (Client.userLogin myip myport (arg 1) (arg 2))⟩,
      ⟨"create_user".toList, 2, fun e _ arg =>
        e.sent (Client.userCreate myip myport (arg 1) (arg 2))⟩]
  | true =>
    [⟨"create_group".toList, 1, fun e username arg =>
        e.sent (Client.groupCreate (arg 1) username)⟩,
      ⟨"list_groups".toList, 0, fun e _ _ => e.sent (request "list_groups".toList)⟩,
      ⟨"join_group".toList, 1, fun e username arg => e.sent (Client.groupJoin (arg 1) username)⟩,
      ⟨"list_requests".toList, 1, fun e username arg =>
        e.sent (request ("list_requests ".toList ++ arg 1 ++ [' '] ++ username))⟩,
      ⟨"accept_request".toList, 2, fun e username arg =>
        e.sent (Client.groupAcceptRequest (arg 1) (arg 2) username)⟩,
      ⟨"upload_file".toList, 2, fun e username arg =>
        if (e.getFileHash (arg 1)).1 = [] then []
        else e.sent (Client.fileUpload (e.getFileHash (arg 1)) (arg 2) username
          ((split (arg 1) '/').getLastD []) (arg 1))⟩,
      ⟨"list_files".toList, 1, fun e _ arg =>
        e.sent (request ("list_files ".toList ++ arg 1))⟩,
      ⟨"stop_share".toList, 2, fun e username arg =>
        e.sent (Client.groupStopShare (arg 1) (arg 2) username)⟩,
      ⟨"leave_group".toList, 1, fun e username arg => e.sent (Client.groupLeave (arg 1) username)⟩,
      ⟨"download_file".toList, 3, fun e username arg =>
        e.download (arg 1) (arg 2) (arg 3) username⟩,
      ⟨"show_downloads".toList, 0, fun e username _ =>
        e.sent (request ("show_downloads ".toList ++ username))⟩,
      ⟨"logout".toList, 0, fun e username _ => e.sent (Client.logout username)⟩]

/-- The requests that a turn of the loop of `main` sends to the tracker. -/
def Prompt.requests (s : Prompt) (line : Str) (e : Situation) : List Str :=
  if e.checkTracker then
    match (branches myip myport s.loginFlag).find? fun b =>
        b.word = (readWords [0] line s.commandSplit).getD 0 [] with
    | none => []
    | some b => b.send e s.username fun i =>
      (readWords (List.range (b.words + 1)) line s.commandSplit).getD i []
  else []

/-- The prompt after these lines, if the loop goes on after each of them. -/
def Prompt.after (s : Prompt) : List Typed → Option Prompt
  | []      => some s
  | x :: xs => (mainLoop myip myport s x).bind fun r => Prompt.after r.1 xs

/-- The first words of a line, at most `n`. -/
def takeWords : ℕ → Str → List Str
  | 0, _ => []
  | n + 1, line =>
    match extract line with
    | none => []
    | some (word, rest) => word :: takeWords n rest

/-- The line has a command, and if the command is one that asks the tracker for something in this
    state, all of its words. -/
def SpelledOut (loginFlag : Bool) (line : Str) : Prop :=
  ∃ word, takeWords 1 line = [word] ∧ ∀ b,
    (branches myip myport loginFlag).find? (fun b => b.word = word) = some b →
      (takeWords (b.words + 1) line).length = b.words + 1

end Main

/-! ### Words that are read -/

section Words

variable {line : Str} {commandSplit : List Str}

lemma length_readWords (is : List ℕ) (line : Str) (commandSplit : List Str) :
    (readWords is line commandSplit).length = commandSplit.length := by
  induction is generalizing line commandSplit with
  | nil => rfl
  | cons i is ih =>
    rw [readWords]
    cases extract line with
    | none => rfl
    | some r => exact (ih _ _).trans (List.length_set ..)

lemma length_takeWords_le (n : ℕ) (line : Str) : (takeWords n line).length ≤ n := by
  induction n generalizing line with
  | zero => exact le_rfl
  | succ n ih =>
    rw [takeWords]
    cases extract line with
    | none => exact Nat.zero_le _
    | some r => exact Nat.succ_le_succ (ih r.2)

/-- Fewer words are the first of them. -/
lemma takeWords_eq_take (n m : ℕ) (line : Str) :
    takeWords n line = (takeWords (n + m) line).take n := by
  induction n generalizing line with
  | zero => rfl
  | succ n ih =>
    rw [Nat.add_right_comm, takeWords, takeWords]
    cases extract line with
    | none => rfl
    | some r => exact congrArg (r.1 :: ·) (ih r.2)

/-- Each string has the word for it, or what it had. -/
lemma getD_readWords (j n i : ℕ) (line : Str) (h : j + n ≤ commandSplit.length) :
    (readWords (List.range' j n) line commandSplit).getD i [] =
      if j ≤ i then ((takeWords n line)[i - j]?).getD (commandSplit.getD i [])
      else commandSplit.getD i [] := by
  induction n generalizing j line commandSplit with
  | zero => simp [readWords, takeWords]
  | succ n ih =>
    rw [List.range'_succ, readWords, takeWords]
    cases extract line with
    | none => simp
    | some r =>
      have hset : (commandSplit.set j r.1).getD i [] =
          if j = i then r.1 else commandSplit.getD i [] := by
        rw [List.getD_eq_getElem?_getD, List.getD_eq_getElem?_getD, List.getElem?_set,
          if_pos (show j < commandSplit.length by omega)]
        split_ifs <;> rfl
      simp only
      rw [ih (j + 1) r.2 (by rw [List.length_set]; omega), hset]
      rcases lt_trichotomy i j with hlt | rfl | hgt
      · rw [if_neg (by omega), if_neg (by omega), if_neg (by omega)]
      · rw [if_neg (by omega), if_pos rfl, if_pos le_rfl, Nat.sub_self, List.getElem?_cons_zero]
        rfl
      · obtain ⟨k, rfl⟩ := Nat.exists_eq_add_of_lt hgt
        have hk : j + k + 1 - j = k + 1 := by omega
        have hk' : j + k + 1 - (j + 1) = k := by omega
        rw [if_pos (by omega), if_neg (by omega), if_pos (by omega), hk, hk',
          List.getElem?_cons_succ]

end Words

/-! ### Branches -/

/-- Everything succeeds: the tracker replies `1`, and files can be read. -/
def obliging : Situation where
  checkTracker := true
  connections _ := ⟨true, [0, 0, 0, 1, byteOf '1']⟩
  getFileHash _ := ("h".toList, 1)
  updates := 0
  completes := true

lemma obliging_sent (data : Str) : obliging.sent (request data) = [data] := rfl

lemma obliging_download (groupname filename filepath username : Str) :
    obliging.download groupname filename filepath username =
      ["give_sha ".toList ++ groupname ++ [' '] ++ filename ++ [' '] ++ username,
        "give_seeders ".toList ++ groupname ++ [' '] ++ filename ++ [' '] ++ username,
        "complete ".toList ++ groupname ++ [' '] ++ filename ++ [' '] ++ filepath ++ [' '] ++
          username] := by
  have hreply : ∀ n, obliging.reply n = some ['1'] := fun _ => rfl
  rw [Situation.download, hreply, hreply]
  rfl

/-- A word is the same or has become longer. -/
def Grown (w w' : Str) : Prop := w' = w ∨ w = ['a'] ∧ w' = ['a', 'a']

lemma Grown.length_le {w w' : Str} (h : Grown w w') : w.length ≤ w'.length := by
  rcases h with rfl | ⟨rfl, rfl⟩
  · exact le_rfl
  · decide

/-- The number of characters of the words that are read. -/
def wordsLength (arg : ℕ → Str) (n : ℕ) : ℕ :=
  ((List.range n).map fun i => (arg (i + 1)).length).sum

@[simp] lemma wordsLength_zero (arg : ℕ → Str) : wordsLength arg 0 = 0 := rfl

@[simp] lemma wordsLength_succ (arg : ℕ → Str) (n : ℕ) :
    wordsLength arg (n + 1) = wordsLength arg n + (arg (n + 1)).length := by
  simp [wordsLength, List.range_succ]

lemma wordsLength_lt {arg arg' : ℕ → Str} {n i : ℕ}
    (h : ∀ i < n, Grown (arg (i + 1)) (arg' (i + 1))) (hi : i < n)
    (hlt : (arg (i + 1)).length < (arg' (i + 1)).length) :
    wordsLength arg n < wordsLength arg' n := by
  refine List.sum_lt_sum _ _ (fun i hi => (h i (List.mem_range.mp hi)).length_le) ?_
  exact ⟨i, List.mem_range.mpr hi, hlt⟩

/-- What is sent to the tracker depends on the words that are read, and on each of them. -/
structure Branch.Reads (b : Branch) : Prop where
  congr : ∀ e username (arg arg' : ℕ → Str), (∀ i < b.words, arg (i + 1) = arg' (i + 1)) →
    b.send e username arg = b.send e username arg'
  grows : ∀ username (arg arg' : ℕ → Str), (∀ i < b.words, Grown (arg (i + 1)) (arg' (i + 1))) →
    ∀ i < b.words, (arg (i + 1)).length < (arg' (i + 1)).length →
      b.send obliging username arg ≠ b.send obliging username arg'

/-- A branch with a single request. -/
lemma reads_request {word : Str} {n : ℕ} {data : Str → (ℕ → Str) → Str}
    (hcongr : ∀ username arg arg', (∀ i < n, arg (i + 1) = arg' (i + 1)) →
      data username arg = data username arg')
    (hlength : ∀ username arg, (data username arg).length =
      (data username fun _ => []).length + wordsLength arg n) :
    Branch.Reads ⟨word, n, fun e username arg => e.sent (request (data username arg))⟩ := by
  constructor
  · intro e username arg arg' h
    simp only [hcongr username arg arg' h]
  · intro username arg arg' hgrown i hi hlt heq
    have hdata : data username arg = data username arg' := by simpa [obliging_sent] using heq
    have hsum : wordsLength arg n < wordsLength arg' n := wordsLength_lt hgrown hi hlt
    have hsame := congrArg List.length hdata
    rw [hlength username arg, hlength username arg'] at hsame
    omega

lemma reads_upload_file : Branch.Reads ⟨"upload_file".toList, 2, fun e username arg =>
    if (e.getFileHash (arg 1)).1 = [] then []
    else e.sent (Client.fileUpload (e.getFileHash (arg 1)) (arg 2) username
      ((split (arg 1) '/').getLastD []) (arg 1))⟩ := by
  constructor
  · intro e username arg arg' h
    simp only [h 0 (by decide), h 1 (by decide)]
  · intro username arg arg' hgrown i hi hlt heq
    have hdata : ∀ arg : ℕ → Str, obliging.sent (Client.fileUpload ("h".toList, 1) (arg 2) username
        ((split (arg 1) '/').getLastD []) (arg 1)) =
        ["upload_file ".toList ++ "h".toList ++ [' '] ++ toStr 1 ++ [' '] ++ arg 2 ++ [' '] ++
          username ++ [' '] ++ (split (arg 1) '/').getLastD [] ++ [' '] ++ arg 1] := fun _ => rfl
    have hname : ((split (arg 1) '/').getLastD []).length ≤
        ((split (arg' 1) '/').getLastD []).length := by
      rcases hgrown 0 (by decide) with hsame | ⟨hold, hnew⟩
      · rw [hsame]
      · rw [hold, hnew]
        decide
    have hsum := wordsLength_lt hgrown hi hlt
    have hlength := congrArg (fun ms => ms.flatten.length)
      ((hdata arg).symm.trans (heq.trans (hdata arg')))
    simp only [List.flatten_cons, List.flatten_nil, List.append_nil, List.length_append] at hlength
    simp at hsum
    omega

lemma reads_download_file : Branch.Reads ⟨"download_file".toList, 3, fun e username arg =>
    e.download (arg 1) (arg 2) (arg 3) username⟩ := by
  constructor
  · intro e username arg arg' h
    simp only [h 0 (by decide), h 1 (by decide), h 2 (by decide)]
  · intro username arg arg' hgrown i hi hlt heq
    simp only [obliging_download] at heq
    have h₁ : (arg 1).length ≤ (arg' 1).length := (hgrown 0 (by decide)).length_le
    have h₂ : (arg 2).length ≤ (arg' 2).length := (hgrown 1 (by decide)).length_le
    have hsum := wordsLength_lt hgrown hi hlt
    have hlength := congrArg (fun ms => ms.flatten.length) heq
    simp only [List.flatten_cons, List.flatten_nil, List.append_nil, List.length_append] at hlength
    simp at hsum
    omega

section Branches

variable {myip myport : Str} {loginFlag : Bool} {b : Branch}

lemma branch_reads (hb : b ∈ branches myip myport loginFlag) : b.Reads := by
  cases loginFlag with
  | false =>
    simp only [branches, List.mem_cons, List.not_mem_nil, or_false] at hb
    rcases hb with rfl | rfl
    all_goals
      refine reads_request (fun username arg arg' h => ?_) fun username arg => ?_
      · rw [h 0 (by decide), h 1 (by decide)]
      · simp
        omega
  | true =>
    simp only [branches, List.mem_cons, List.not_mem_nil, or_false] at hb
    rcases hb with rfl | rfl | rfl | rfl | rfl | rfl | rfl | rfl | rfl | rfl | rfl | rfl
    on_goal 6 => exact reads_upload_file
    on_goal 9 => exact reads_download_file
    all_goals
      refine reads_request (fun username arg arg' h => ?_) fun username arg => ?_
      · first
          | rfl
          | rw [h 0 (by decide), h 1 (by decide)]
          | rw [h 0 (by decide)]
      · simp
        try omega

/-- How many words the commands read in a state. -/
def mostWords (loginFlag : Bool) : ℕ := if loginFlag then 3 else 2

lemma words_le (hb : b ∈ branches myip myport loginFlag) : b.words ≤ mostWords loginFlag := by
  cases loginFlag with
  | false =>
    simp only [branches, List.mem_cons, List.not_mem_nil, or_false] at hb
    rcases hb with rfl | rfl <;> exact le_rfl
  | true =>
    simp only [branches, List.mem_cons, List.not_mem_nil, or_false] at hb
    rcases hb with rfl | rfl | rfl | rfl | rfl | rfl | rfl | rfl | rfl | rfl | rfl | rfl <;>
      simp [mostWords]

lemma mostWords_le (loginFlag : Bool) : mostWords loginFlag ≤ 3 := by
  cases loginFlag with
  | _ => decide

end Branches

/-! ### Histories -/

section Histories

variable {myip myport : Str} {s s' s₁ s₂ : Prompt} {x : Typed} {out : List Str} {line : Str}
  {history : List Typed}

/-- The strings after a turn have been read from its line. -/
def ReadFrom (s : Prompt) (x : Typed) (r : Prompt × List Str) : Prop :=
  ∃ is, r.1.commandSplit = readWords is x.line s.commandSplit

lemma readFrom_ite {p : Prop} [Decidable p] {r r' : Prompt × List Str} (h : ReadFrom s x r)
    (h' : ReadFrom s x r') : ReadFrom s x (if p then r else r') := by
  split_ifs
  · exact h
  · exact h'

lemma perform_readFrom (s : Prompt) (x : Typed) : ReadFrom s x (s.perform x) := by
  unfold Prompt.perform
  repeat' first
    | exact ⟨_, rfl⟩
    | apply readFrom_ite

lemma signIn_readFrom (s : Prompt) (x : Typed)
    (function : Str → Str → TrackerSide → Option Str × Bool) :
    ReadFrom s x (s.signIn x function) := by
  unfold Prompt.signIn
  repeat' first
    | exact ⟨_, rfl⟩
    | apply readFrom_ite

lemma mainLoop_readFrom (h : mainLoop myip myport s x = some (s', out)) :
    ReadFrom s x (s', out) := by
  rw [mainLoop] at h
  split_ifs at h
  all_goals rw [← Option.some.inj h]
  · exact ⟨_, rfl⟩
  · exact signIn_readFrom s x _
  · exact signIn_readFrom s x _
  · exact ⟨_, rfl⟩
  · exact perform_readFrom s x

lemma length_of_after (h : s.after myip myport history = some s') :
    s'.commandSplit.length = s.commandSplit.length := by
  induction history generalizing s with
  | nil =>
    cases h
    rfl
  | cons x history ih =>
    obtain ⟨r, hr, hrest⟩ := Option.bind_eq_some_iff.mp h
    obtain ⟨is, his⟩ := mainLoop_readFrom hr
    rw [ih hrest, his, length_readWords]

lemma after_concat (h : s.after myip myport history = some s')
    (hx : mainLoop myip myport s' x = some (s₁, out)) :
    s.after myip myport (history ++ [x]) = some s₁ := by
  induction history generalizing s with
  | nil =>
    cases h
    exact Option.bind_eq_some_iff.mpr ⟨_, hx, rfl⟩
  | cons y history ih =>
    obtain ⟨r, hr, hrest⟩ := Option.bind_eq_some_iff.mp h
    exact Option.bind_eq_some_iff.mpr ⟨r, hr, ih hrest⟩

/-- The command, and the words that it is called with. -/
lemma getD_words (hlength : s.commandSplit.length = 10) {n : ℕ} (hn : n ≤ 3) (i : ℕ) :
    (readWords (List.range (n + 1)) line s.commandSplit).getD i [] =
      ((takeWords (n + 1) line)[i]?).getD (s.commandSplit.getD i []) := by
  rw [List.range_eq_range', getD_readWords 0 (n + 1) i line (by omega), if_pos (Nat.zero_le i),
    Nat.sub_zero]

/-- Without a tracker a line leaves its command and nothing else. -/
lemma mainLoop_offline (myip myport : Str) (s : Prompt) {x : Typed}
    (hoffline : x.checkTracker = false) (hquit : s.word x ≠ "quit".toList) :
    ∃ out, mainLoop myip myport s x =
      some ({ s with commandSplit := readWords [0] x.line s.commandSplit }, out) := by
  refine ⟨["No tracker online".toList], ?_⟩
  rw [mainLoop, if_neg hquit, if_pos (by rw [hoffline]; rfl)]

/-- A line that comes to nothing over a broken connection. -/
def fruitless (loginFlag : Bool) (w : Str) : Typed where
  line := (if loginFlag then "download_file ".toList else "login ".toList) ++
    w ++ [' '] ++ w ++ [' '] ++ w
  checkTracker := true
  connection := ⟨false, []⟩
  fileMetadata := ([], 0)

/-- The words that such a line may have. -/
def fillers : List Str := [['a'], ['a', 'a']]

lemma takeWords_fruitless (loginFlag : Bool) {w : Str} (hw : w ∈ fillers) :
    takeWords 4 (fruitless loginFlag w).line =
      [if loginFlag then "download_file".toList else "login".toList, w, w, w] := by
  rcases List.mem_pair.mp hw with rfl | rfl
  all_goals
    cases loginFlag with
    | _ => decide

lemma getD_fruitless (hlength : s.commandSplit.length = 10) {w : Str} (hw : w ∈ fillers) {n i : ℕ}
    (hn : n ≤ 3) (hi : i < n) :
    (readWords (List.range (n + 1)) (fruitless s.loginFlag w).line s.commandSplit).getD (i + 1) [] =
      w := by
  rw [getD_words hlength hn, takeWords_eq_take (n + 1) (3 - n),
    List.getElem?_take_of_lt (Nat.succ_lt_succ hi), show n + 1 + (3 - n) = 4 by omega,
    takeWords_fruitless _ hw, List.getElem?_cons_succ]
  obtain rfl | rfl | rfl : i = 0 ∨ i = 1 ∨ i = 2 := by omega
  all_goals rfl

lemma word_fruitless (hlength : s.commandSplit.length = 10) {w : Str} (hw : w ∈ fillers) :
    s.word (fruitless s.loginFlag w) =
      if s.loginFlag then "download_file".toList else "login".toList := by
  show (readWords (List.range (0 + 1)) _ s.commandSplit).getD 0 [] = _
  rw [getD_words hlength (Nat.zero_le 3), takeWords_eq_take (0 + 1) 3, takeWords_fruitless _ hw]
  rfl

lemma perform_of_download_file (h : s.word x = "download_file".toList) :
    s.perform x = s.show x 3 := by
  unfold Prompt.perform
  rw [h]
  rfl

/-- It leaves its words, and nothing else. -/
lemma mainLoop_fruitless (myip myport : Str) (hlength : s.commandSplit.length = 10) {w : Str}
    (hw : w ∈ fillers) : ∃ s₁ out,
      mainLoop myip myport s (fruitless s.loginFlag w) = some (s₁, out) ∧
      s₁.loginFlag = s.loginFlag ∧ s₁.username = s.username ∧
      ∀ i < mostWords s.loginFlag, s₁.commandSplit.getD (i + 1) [] = w := by
  have hword := word_fruitless hlength hw
  have hread := fun n i hn hi => getD_fruitless (n := n) (i := i) hlength hw hn hi
  cases hflag : s.loginFlag with
  | false =>
    rw [hflag] at hword hread
    refine ⟨⟨false, s.username, readWords [0, 1, 2] (fruitless false w).line s.commandSplit⟩,
      ["Failed".toList], ?_, rfl, rfl, fun i hi => hread 2 i (by decide) hi⟩
    rw [mainLoop, hword, if_neg (by decide), if_neg (by exact Bool.false_ne_true),
      if_pos (by decide)]
    simp only [Prompt.signIn, hflag]
    rfl
  | true =>
    rw [hflag] at hword hread
    refine ⟨{ s with
      commandSplit := readWords [0, 1, 2, 3] (fruitless true w).line s.commandSplit }, [], ?_,
      hflag, rfl, fun i hi => hread 3 i le_rfl hi⟩
    rw [mainLoop, hword, if_neg (by decide), if_neg (by exact Bool.false_ne_true),
      if_neg (by decide), if_neg (by decide), if_neg (by rw [hflag]; decide),
      perform_of_download_file hword]
    rfl

/-! ### The same requests -/

/-- Whatever has been typed before, in this state the line asks for the same. -/
def SameRequests (myip myport : Str) (loginFlag : Bool) (username line : Str) : Prop :=
  ∀ history₁ history₂ s₁ s₂, Prompt.after myip myport {} history₁ = some s₁ →
    Prompt.after myip myport {} history₂ = some s₂ →
    s₁.loginFlag = loginFlag → s₁.username = username →
    s₂.loginFlag = loginFlag → s₂.username = username →
    ∀ e, s₁.requests myip myport line e = s₂.requests myip myport line e

lemma length_after (h : Prompt.after myip myport {} history = some s) :
    s.commandSplit.length = 10 := length_of_after h

/-- Without a word of its own a line repeats the last command. -/
lemma word_of_takeWords (hlength : s.commandSplit.length = 10) (h : takeWords 1 line = []) :
    (readWords [0] line s.commandSplit).getD 0 [] = s.commandSplit.getD 0 [] := by
  show (readWords (List.range (0 + 1)) line s.commandSplit).getD 0 [] = _
  rw [getD_words hlength (Nat.zero_le 3), h]
  rfl

lemma word_of_takeWords_cons (hlength : s.commandSplit.length = 10) {word : Str}
    (h : takeWords 1 line = [word]) : (readWords [0] line s.commandSplit).getD 0 [] = word := by
  show (readWords (List.range (0 + 1)) line s.commandSplit).getD 0 [] = _
  rw [getD_words hlength (Nat.zero_le 3), h]
  rfl

/-- What is sent for a line with a command. -/
lemma requests_eq (hlength : s.commandSplit.length = 10) {word : Str}
    (h : takeWords 1 line = [word]) (e : Situation) : s.requests myip myport line e =
      if e.checkTracker then
        match (branches myip myport s.loginFlag).find? fun b => b.word = word with
        | none => []
        | some b => b.send e s.username fun i =>
          (readWords (List.range (b.words + 1)) line s.commandSplit).getD i []
      else [] := by
  rw [Prompt.requests, word_of_takeWords_cons hlength h]

/-- A line that is spelled out does not ask for anything that an earlier line has left. -/
lemma requests_of_spelledOut (h : SpelledOut myip myport s₁.loginFlag line)
    (hlength₁ : s₁.commandSplit.length = 10) (hlength₂ : s₂.commandSplit.length = 10)
    (hflag : s₂.loginFlag = s₁.loginFlag) (husername : s₂.username = s₁.username) (e : Situation) :
    s₁.requests myip myport line e = s₂.requests myip myport line e := by
  obtain ⟨word, hword, hwords⟩ := h
  rw [requests_eq hlength₁ hword, requests_eq hlength₂ hword, hflag, husername]
  cases hfind : (branches myip myport s₁.loginFlag).find? fun b => b.word = word with
  | none => rfl
  | some b =>
    have hb := List.mem_of_find?_eq_some hfind
    have hle : b.words ≤ 3 := (words_le hb).trans (mostWords_le _)
    have hsend := (branch_reads hb).congr e s₁.username
      (fun i => (readWords (List.range (b.words + 1)) line s₁.commandSplit).getD i [])
      (fun i => (readWords (List.range (b.words + 1)) line s₂.commandSplit).getD i [])
      fun i hi => ?_
    · simp only [hsend]
    · have hget : i + 1 < (takeWords (b.words + 1) line).length := by
        rw [hwords b hfind]
        exact Nat.succ_lt_succ hi
      rw [getD_words hlength₁ hle, getD_words hlength₂ hle, List.getElem?_eq_getElem hget]
      rfl

/-- What is sent for a blank line. -/
lemma requests_blank (hlength : s.commandSplit.length = 10) (h : takeWords 1 line = [])
    (e : Situation) : s.requests myip myport line e =
      if e.checkTracker then
        match (branches myip myport s.loginFlag).find? fun b =>
            b.word = s.commandSplit.getD 0 [] with
        | none => []
        | some b => b.send e s.username fun i =>
          (readWords (List.range (b.words + 1)) line s.commandSplit).getD i []
      else [] := by
  rw [Prompt.requests, word_of_takeWords hlength h]

/-- A command that is typed while no tracker is online. -/
lemma mainLoop_unheeded (myip myport : Str) (hlength : s.commandSplit.length = 10) {word : Str}
    (hword : takeWords 1 word = [word]) (hquit : word ≠ "quit".toList) : ∃ x s₁ out,
      mainLoop myip myport s x = some (s₁, out) ∧ s₁.loginFlag = s.loginFlag ∧
      s₁.username = s.username ∧ s₁.commandSplit.getD 0 [] = word := by
  have hread := word_of_takeWords_cons hlength hword
  obtain ⟨out, hout⟩ := mainLoop_offline myip myport s
    (x := ⟨word, false, ⟨false, []⟩, ([], 0)⟩) rfl (hread.trans_ne hquit)
  exact ⟨_, _, out, hout, rfl, rfl, hread⟩

/-- A command without words that asks the tracker for something. -/
def wordless (loginFlag : Bool) : Str :=
  if loginFlag then "list_groups".toList else "login".toList

/-- A blank line asks for what the last command has asked for. -/
lemma requests_blank_ne (hs : Prompt.after myip myport {} history = some s)
    (h : takeWords 1 line = []) : ¬ SameRequests myip myport s.loginFlag s.username line := by
  intro hsame
  have hlength := length_after hs
  have hwordless : takeWords 1 (wordless s.loginFlag) = [wordless s.loginFlag] ∧
      wordless s.loginFlag ≠ "quit".toList := by
    cases s.loginFlag with
    | _ => decide
  obtain ⟨x₁, s₁, out₁, hs₁, hflag₁, husername₁, hword₁⟩ :=
    mainLoop_unheeded myip myport hlength hwordless.1 hwordless.2
  obtain ⟨x₂, s₂, out₂, hs₂, hflag₂, husername₂, hword₂⟩ :=
    mainLoop_unheeded myip myport hlength (show takeWords 1 ['x'] = [['x']] by decide) (by decide)
  have heq := hsame _ _ s₁ s₂ (after_concat hs hs₁) (after_concat hs hs₂) hflag₁ husername₁ hflag₂
    husername₂ obliging
  rw [requests_blank (length_after (after_concat hs hs₁)) h,
    requests_blank (length_after (after_concat hs hs₂)) h, hflag₁, hflag₂, hword₁, hword₂] at heq
  cases hflag : s.loginFlag with
  | false =>
    rw [hflag] at heq
    cases heq
  | true =>
    rw [hflag] at heq
    cases heq

/-- A line without all of its words takes those that are missing from earlier lines. -/
lemma requests_missing_ne (hs : Prompt.after myip myport {} history = some s) {word : Str}
    (hword : takeWords 1 line = [word]) {b : Branch}
    (hfind : (branches myip myport s.loginFlag).find? (fun b => b.word = word) = some b)
    (hmissing : (takeWords (b.words + 1) line).length ≤ b.words) :
    ¬ SameRequests myip myport s.loginFlag s.username line := by
  intro hsame
  have hlength := length_after hs
  have hb := List.mem_of_find?_eq_some hfind
  have hle : b.words ≤ 3 := (words_le hb).trans (mostWords_le _)
  have hpos : 0 < b.words := by
    have hfirst := takeWords_eq_take 1 b.words line
    rw [hword, Nat.add_comm] at hfirst
    have hone := congrArg List.length hfirst
    rw [List.length_take, List.length_singleton] at hone
    omega
  obtain ⟨s₁, out₁, hs₁, hflag₁, husername₁, hargs₁⟩ :=
    mainLoop_fruitless myip myport hlength (w := ['a']) (by decide)
  obtain ⟨s₂, out₂, hs₂, hflag₂, husername₂, hargs₂⟩ :=
    mainLoop_fruitless myip myport hlength (w := ['a', 'a']) (by decide)
  have hlength₁ := length_after (after_concat hs hs₁)
  have hlength₂ := length_after (after_concat hs hs₂)
  have heq := hsame _ _ s₁ s₂ (after_concat hs hs₁) (after_concat hs hs₂) hflag₁ husername₁ hflag₂
    husername₂ obliging
  rw [requests_eq hlength₁ hword, requests_eq hlength₂ hword, hflag₁, hflag₂, husername₁,
    husername₂, hfind] at heq
  have hwords : ∀ i < b.words, i < mostWords s.loginFlag := fun i hi => hi.trans_le (words_le hb)
  refine (branch_reads hb).grows s.username
    (fun i => (readWords (List.range (b.words + 1)) line s₁.commandSplit).getD i [])
    (fun i => (readWords (List.range (b.words + 1)) line s₂.commandSplit).getD i [])
    (fun i hi => ?_) (b.words - 1) (by omega) ?_ heq
  · rw [getD_words hlength₁ hle, getD_words hlength₂ hle, hargs₁ i (hwords i hi),
      hargs₂ i (hwords i hi)]
    cases (takeWords (b.words + 1) line)[i + 1]? with
    | none => exact Or.inr ⟨rfl, rfl⟩
    | some w => exact Or.inl rfl
  · have hlast : b.words - 1 < b.words := by omega
    rw [getD_words hlength₁ hle, getD_words hlength₂ hle, hargs₁ _ (hwords _ hlast),
      hargs₂ _ (hwords _ hlast), List.getElem?_eq_none (by omega)]
    decide

/-- A line asks for the same whatever has been typed before just if it is spelled out. -/
theorem same_requests_iff (hs : Prompt.after myip myport {} history = some s) (line : Str) :
    SameRequests myip myport s.loginFlag s.username line ↔
      SpelledOut myip myport s.loginFlag line := by
  constructor
  · intro hsame
    cases hwords : takeWords 1 line with
    | nil => exact absurd hsame (requests_blank_ne hs hwords)
    | cons word rest =>
      have hrest : rest = [] := by
        have hle := length_takeWords_le 1 line
        rw [hwords, List.length_cons] at hle
        exact List.eq_nil_of_length_eq_zero (by omega)
      subst hrest
      refine ⟨word, hwords, fun b hfind => ?_⟩
      by_contra hne
      have hle := length_takeWords_le (b.words + 1) line
      exact requests_missing_ne hs hwords hfind (by omega) hsame
  · intro hspelled history₁ history₂ s₁ s₂ hs₁ hs₂ hflag₁ husername₁ hflag₂ husername₂ e
    exact requests_of_spelledOut (hflag₁ ▸ hspelled) (length_after hs₁) (length_after hs₂)
      (hflag₂.trans hflag₁.symm) (husername₂.trans husername₁.symm) e

end Histories

/-- The first line that is typed. -/
theorem same_requests_iff_start : SameRequests [] [] false [] "create_user u p".toList ↔
    SpelledOut [] [] false "create_user u p".toList := by
  have hstart : Prompt.after [] [] {} [] = some {} := rfl
  exact same_requests_iff hstart _

/-- A line that is typed while a tracker replies `1`. -/
def typedOnline (line : Str) : Typed := ⟨line, true, obliging.connections 0, ([], 0)⟩

/-- A user of the name `u` who has logged in and typed two lines. -/
def afterLeaving (g : Str) : Prompt :=
  ⟨true, "u".toList, ["leave_group".toList, g, "p".toList] ++ List.replicate 7 []⟩

/-- The blank line and the command alone leave the group of the line before. -/
theorem leave_group_repeated :
    Prompt.after [] [] {} [typedOnline "login u p".toList, typedOnline "leave_group g".toList] =
      some (afterLeaving "g".toList) ∧
    Prompt.after [] [] {} [typedOnline "login u p".toList, typedOnline "leave_group h".toList] =
      some (afterLeaving "h".toList) ∧
    (afterLeaving "g".toList).requests [] [] [] obliging = ["leave_group g u".toList] ∧
    (afterLeaving "h".toList).requests [] [] [] obliging = ["leave_group h u".toList] ∧
    (afterLeaving "g".toList).requests [] [] "leave_group".toList obliging =
      ["leave_group g u".toList] ∧
    ¬ ∀ loginFlag username line, SameRequests [] [] loginFlag username line := by
  have hg : Prompt.after [] [] {} [typedOnline "login u p".toList,
      typedOnline "leave_group g".toList] = some (afterLeaving "g".toList) := rfl
  have hh : Prompt.after [] [] {} [typedOnline "login u p".toList,
      typedOnline "leave_group h".toList] = some (afterLeaving "h".toList) := rfl
  refine ⟨hg, hh, by decide, by decide, by decide, fun h => ?_⟩
  have heq := h true "u".toList [] _ _ _ _ hg hh rfl rfl rfl rfl obliging
  revert heq
  decide

end TorrentShare
