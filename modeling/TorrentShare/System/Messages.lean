import TorrentShare.Peer.CommandLines
import TorrentShare.Registry.Users

/-!
# Messages of peers

A peer writes a command as a word and its arguments, with a blank between two of them. The tracker
reads the command that was written, and who acts in it is the user of the peer.
-/

namespace TorrentShare

/-! ### Messages -/

/-- The word of a command. -/
def Command.word : Command → Str
  | .login ..         => "login".toList
  | .createUser ..    => "create_user".toList
  | .createGroup ..   => "create_group".toList
  | .listGroups       => "list_groups".toList
  | .joinGroup ..     => "join_group".toList
  | .listRequests ..  => "list_requests".toList
  | .acceptRequest .. => "accept_request".toList
  | .uploadFile ..    => "upload_file".toList
  | .listFiles ..     => "list_files".toList
  | .stopShare ..     => "stop_share".toList
  | .leaveGroup ..    => "leave_group".toList
  | .logout ..        => "logout".toList
  | .giveSha ..       => "give_sha".toList
  | .giveSeeders ..   => "give_seeders".toList
  | .giveDetails ..   => "give_details".toList
  | .sendFullPath ..  => "send_full_path".toList
  | .addFile ..       => "add_file".toList
  | .complete ..      => "complete".toList
  | .showDownloads .. => "show_downloads".toList

/-- The message that peers write for a command. -/
def Command.message (c : Command) : Str := fields (c.word :: c.args)

/-- The same command with other arguments. -/
def Command.withArgs (a : ℕ → Str) : Command → Command
  | .login ..         => .login (a 0) (a 1) (a 2) (a 3)
  | .createUser ..    => .createUser (a 0) (a 1) (a 2) (a 3)
  | .createGroup ..   => .createGroup (a 0) (a 1)
  | .listGroups       => .listGroups
  | .joinGroup ..     => .joinGroup (a 0) (a 1)
  | .listRequests ..  => .listRequests (a 0) (a 1)
  | .acceptRequest .. => .acceptRequest (a 0) (a 1) (a 2)
  | .uploadFile ..    => .uploadFile (a 0) (a 1) (a 2) (a 3) (a 4) (a 5)
  | .listFiles ..     => .listFiles (a 0)
  | .stopShare ..     => .stopShare (a 0) (a 1) (a 2)
  | .leaveGroup ..    => .leaveGroup (a 0) (a 1)
  | .logout ..        => .logout (a 0)
  | .giveSha ..       => .giveSha (a 0) (a 1) (a 2)
  | .giveSeeders ..   => .giveSeeders (a 0) (a 1) (a 2)
  | .giveDetails ..   => .giveDetails (a 0)
  | .sendFullPath ..  => .sendFullPath (a 0) (a 1) (a 2)
  | .addFile ..       => .addFile (a 0) (a 1) (a 2) (a 3)
  | .complete ..      => .complete (a 0) (a 1) (a 2) (a 3)
  | .showDownloads .. => .showDownloads (a 0)

section Messages

variable {c c' : Command} {ws : List Str} {m : Str}

lemma Command.withArgs_args (c : Command) : c.withArgs (fun i => c.args.getD i []) = c := by
  cases c <;> rfl

lemma Command.args_withArgs (a : ℕ → Str) (c : Command) :
    (c.withArgs a).args = (List.range c.args.length).map a := by
  cases c <;> rfl

lemma Command.length_args_le (c : Command) : c.args.length ≤ 6 := by
  cases c <;> simp [Command.args]

lemma Command.isToken_word (c : Command) : IsToken c.word := by
  cases c <;> dsimp only [Command.word] <;> decide +kernel

lemma fields_cons (w : Str) (ws : List Str) : fields (w :: ws) = w ++ ws.flatMap (' ' :: ·) := by
  induction ws generalizing w with
  | nil => simp [fields, List.intercalate]
  | cons w' ws ih => rw [fields_cons_cons, ih w', List.flatMap_cons, List.cons_append]

/-- Words are joined one after another. -/
lemma Command.message_eq (c : Command) :
    c.args.foldl (fun s w => s ++ [' '] ++ w) c.word = c.message := by
  have hfold : ∀ (ws : List Str) (s : Str),
      ws.foldl (fun s w => s ++ [' '] ++ w) s = s ++ ws.flatMap (' ' :: ·) := by
    intro ws
    induction ws with
    | nil => simp
    | cons w ws ih =>
      intro s
      rw [List.foldl_cons, ih]
      simp
  rw [hfold, message, fields_cons]

lemma extractWords_blank (n : ℕ) (s : Str) : extractWords n (' ' :: s) = extractWords n s := by
  cases n with
  | zero => rfl
  | succ n => rw [extractWords, extractWords, extract_blank]

lemma extractWords_append {w : Str} (hw : IsToken w) (n : ℕ) (ws : List Str) :
    extractWords (n + 1) (w ++ ws.flatMap (' ' :: ·)) =
      w :: extractWords n (ws.flatMap (' ' :: ·)) := by
  rw [extractWords, hw.extract_append]
  intro c hc
  cases ws with
  | nil => simp at hc
  | cons w' ws =>
    cases hc
    decide

/-- Words that are joined are read again, but for the empty ones. -/
lemma extractWords_flatMap (h : ∀ w ∈ ws, IsWord w) (n : ℕ) :
    extractWords n (ws.flatMap (' ' :: ·)) =
      (ws.filter (· ≠ []) ++ List.replicate n []).take n := by
  induction ws generalizing n with
  | nil => cases n <;> simp [extractWords, extract]
  | cons w ws ih =>
    rw [List.forall_mem_cons] at h
    rw [List.flatMap_cons, List.cons_append, extractWords_blank]
    by_cases hw : w = []
    · rw [hw, List.nil_append, ih h.2, List.filter_cons_of_neg (by simp)]
    · cases n with
      | zero => rfl
      | succ n =>
        have hmin : min (n - (ws.filter (· ≠ [])).length) (n + 1) =
            min (n - (ws.filter (· ≠ [])).length) n := by omega
        rw [extractWords_append ⟨h.1, hw⟩, ih h.2, List.filter_cons_of_pos (by simpa using hw),
          List.cons_append, List.take_succ_cons, List.take_append, List.take_append,
          List.take_replicate, List.take_replicate, hmin]

/-- A message with the word of a command is read as this command. -/
lemma Command.parse_of_word (c : Command) (h : (extractWords 7 m).getD 0 [] = c.word) :
    Request.parse m = .client (c.withArgs fun i => (extractWords 7 m).getD (i + 1) []) := by
  unfold Request.parse
  cases c <;> dsimp only [word] at h <;>
    simp only [h, withArgs, String.toList_inj, String.reduceEq, if_true, if_false, zero_add,
      Nat.reduceAdd]

/-- What the tracker makes of a message: the arguments that are not empty take the places of those
    that are. -/
lemma Command.parse_message_words (hc : ∀ w ∈ c.args, IsWord w) : Request.parse c.message =
    .client (c.withArgs fun i => (c.args.filter (· ≠ [])).getD i []) := by
  have hwords : extractWords 7 c.message =
      c.word :: (c.args.filter (· ≠ []) ++ List.replicate 6 []).take 6 := by
    rw [message, fields_cons, extractWords_append c.isToken_word, extractWords_flatMap hc]
  have hargs : (fun i => (extractWords 7 c.message).getD (i + 1) []) =
      fun i => (c.args.filter (· ≠ [])).getD i [] := by
    funext i
    have hlength : (c.args.filter (· ≠ [])).length ≤ 6 :=
      (List.length_filter_le _ _).trans c.length_args_le
    rw [hwords, List.getD_cons_succ, List.getD_eq_getElem?_getD, List.getD_eq_getElem?_getD,
      List.getElem?_take, List.getElem?_append, List.getElem?_replicate]
    split_ifs with hi hlt
    · rfl
    · rw [List.getElem?_eq_none (by omega)]
      rfl
    · rw [List.getElem?_eq_none (by omega)]
    · rw [List.getElem?_eq_none (by omega)]
  rw [c.parse_of_word (by rw [hwords]; rfl), hargs]

/-- If all arguments are there, none has changed its place. -/
lemma Command.withArgs_filter
    (h : ∀ w ∈ (c.withArgs fun i => (c.args.filter (· ≠ [])).getD i []).args, w ≠ []) :
    (c.withArgs fun i => (c.args.filter (· ≠ [])).getD i []) = c := by
  have hlength : c.args.length ≤ (c.args.filter (· ≠ [])).length := by
    by_contra hlt
    refine h ((c.args.filter (· ≠ [])).getD (c.args.filter (· ≠ [])).length []) ?_
      (by simp)
    rw [c.args_withArgs]
    exact List.mem_map_of_mem (List.mem_range.mpr (Nat.lt_of_not_le hlt))
  have hfilter : c.args.filter (· ≠ []) = c.args :=
    List.filter_sublist.eq_of_length_le hlength
  rw [hfilter, c.withArgs_args]

end Messages

/-! ### What a peer asks for -/

/-- What a peer asks a tracker for: before a user has signed in, to be let in from the address of
    the peer; afterwards, something for this user. -/
def Prompt.Asks (myip myport : Str) (s : Prompt) (c : Command) : Prop :=
  if s.loginFlag then c.actor = none ∨ c.actor = some s.username
  else ∃ u p, c = .login u p myport myip ∨ c = .createUser u p myport myip

/-- What a line meets with in the loop of `main`. -/
def Prompt.typed (s : Prompt) (line : Str) (e : Situation) : Typed :=
  ⟨line, e.checkTracker, e.connections 0,
    e.getFileHash ((readWords (List.range 3) line s.commandSplit).getD 1 [])⟩

/-- The words of the message can be told apart. In the request for an address only the first one
    counts. -/
def Command.Legible (c : Command) : Prop := (∃ u, c = .giveDetails u) ∨ ∀ w ∈ c.args, IsWord w

/-- All that a prompt keeps has been read from lines. -/
structure Prompt.Words (s : Prompt) : Prop where
  username : IsWord s.username
  commandSplit : ∀ w ∈ s.commandSplit, IsWord w

section Requests

variable {myip myport line m : Str} {s s' : Prompt} {x : Typed} {e : Situation}
  {out : List Str}

lemma isWord_extract {word rest : Str} (h : extract line = some (word, rest)) : IsWord word := by
  refine isWord_extractWords 1 line word ?_
  rw [extractWords, h]
  exact List.mem_cons_self ..

lemma isWord_readWords {is : List ℕ} {commandSplit : List Str}
    (h : ∀ w ∈ commandSplit, IsWord w) : ∀ w ∈ readWords is line commandSplit, IsWord w := by
  induction is generalizing line commandSplit with
  | nil => exact h
  | cons i is ih =>
    rw [readWords]
    cases hline : extract line with
    | none => exact h
    | some r =>
      refine ih fun w hw => ?_
      rcases List.mem_or_eq_of_mem_set hw with hw | rfl
      · exact h w hw
      · exact isWord_extract hline

lemma isWord_getD {ws : List Str} (h : ∀ w ∈ ws, IsWord w) (i : ℕ) : IsWord (ws.getD i []) := by
  rw [List.getD_eq_getElem?_getD]
  cases hi : ws[i]? with
  | none => exact isWord_nil
  | some w => exact h w (List.mem_of_getElem? hi)

lemma isWord_toStr (n : ℕ) : IsWord (toStr n) := by
  intro c hc
  have hne : ∀ d : Char, d.isDigit = false → c ≠ d := by
    rintro d hd rfl
    exact not_mem_toStr hd hc
  simp [isspace, hne ' ' rfl, hne '\t' rfl, hne '\n' rfl, hne '\x0b' rfl, hne '\x0c' rfl,
    hne '\r' rfl]

lemma isWord_of_mem_split {l w : Str} {d : Char} (h : IsWord l) (hw : w ∈ split l d) :
    IsWord w := by
  induction l generalizing w with
  | nil =>
    rw [split, List.splitOn_nil, List.mem_singleton] at hw
    exact hw ▸ isWord_nil
  | cons c l ih =>
    have hl : IsWord l := fun c' hc' => h c' (List.mem_cons_of_mem _ hc')
    rw [split, List.splitOn_cons_eq_if_modifyHead] at hw
    split_ifs at hw
    · rcases List.mem_cons.mp hw with rfl | hw
      · exact isWord_nil
      · exact ih hl hw
    · obtain ⟨v, vs, hsplit⟩ := List.exists_cons_of_ne_nil (List.splitOn_ne_nil d l)
      rw [hsplit, List.modifyHead_cons] at hw
      have hmem : ∀ v' ∈ v :: vs, IsWord v' := fun v' hv' => ih hl (by rwa [split, hsplit])
      rcases List.mem_cons.mp hw with rfl | hw
      · intro c' hc'
        rcases List.mem_cons.mp hc' with rfl | hc'
        · exact h _ (List.mem_cons_self ..)
        · exact hmem v (List.mem_cons_self ..) c' hc'
      · exact hmem w (List.mem_cons_of_mem _ hw)

lemma mem_sent {data : Str} (h : m ∈ e.sent (request data)) : m = data := by
  rw [Situation.sent, request] at h
  split_ifs at h
  · exact List.mem_singleton.mp h
  · cases h

lemma mem_giveDetails {n : ℕ} {seeders : List Str} (h : m ∈ (e.giveDetails n seeders).1) :
    ∃ u, m = (Command.giveDetails u).message := by
  have hmessage : ∀ u, "give_details ".toList ++ u = (Command.giveDetails u).message :=
    fun u => Command.message_eq (.giveDetails u)
  induction seeders generalizing n with
  | nil => cases h
  | cons u seeders ih =>
    rw [Situation.giveDetails] at h
    cases hreply : e.reply n with
    | none =>
      rw [hreply] at h
      exact ih h
    | some cred =>
      simp only [hreply] at h
      split_ifs at h
      · rcases List.mem_cons.mp h with rfl | h
        · exact ⟨u, hmessage u⟩
        · exact ih h
      · exact ⟨u, (List.mem_singleton.mp h).trans (hmessage u)⟩

lemma mem_notices {d : FileData} {u : Str} (h : m ∈ e.notices d u) :
    m = (Command.addFile d.group d.name d.path u).message ∨
      m = (Command.complete d.group d.name d.path u).message := by
  rcases List.mem_append.mp h with h | h
  · exact Or.inl ((List.eq_of_mem_replicate h).trans
      (Command.message_eq (.addFile d.group d.name d.path u)))
  · split_ifs at h
    · exact Or.inr ((List.mem_singleton.mp h).trans
        (Command.message_eq (.complete d.group d.name d.path u)))
    · cases h

lemma downloadFile_filemeta {g f p filehash output : Str} {d : Download}
    (h : downloadFile g f p filehash output = some d) :
    d.filemeta.group = g ∧ d.filemeta.name = f ∧ d.filemeta.path = p := by
  rw [downloadFile] at h
  split_ifs at h
  cases h
  exact ⟨rfl, rfl, rfl⟩

/-- The requests of a download. -/
lemma mem_download {g f p u : Str} (h : m ∈ e.download g f p u) (hg : IsWord g) (hf : IsWord f)
    (hp : IsWord p) (hu : IsWord u) : ∃ c : Command, m = c.message ∧
      (c.actor = none ∨ c.actor = some u) ∧ c.Legible := by
  rw [Situation.download] at h
  cases hsha : e.reply 0 with
  | none => simp [hsha] at h
  | some filehash =>
    simp only [hsha] at h
    rcases List.mem_cons.mp h with rfl | h
    · exact ⟨.giveSha g f u, Command.message_eq (.giveSha g f u), Or.inr rfl,
        Or.inr (by simp [Command.args, hg, hf, hu])⟩
    · split_ifs at h with hempty
      · cases h
      · cases hseeders : e.reply 1 with
        | none => simp [hseeders] at h
        | some output =>
          simp only [hseeders] at h
          rcases List.mem_cons.mp h with rfl | h
          · exact ⟨.giveSeeders g f u, Command.message_eq (.giveSeeders g f u), Or.inr rfl,
              Or.inr (by simp [Command.args, hg, hf, hu])⟩
          · cases hd : downloadFile g f p filehash output with
            | none => simp [hd] at h
            | some d =>
              simp only [hd] at h
              rcases List.mem_append.mp h with hdetails | hnotices
              · obtain ⟨v, hv⟩ := mem_giveDetails hdetails
                exact ⟨.giveDetails v, hv, Or.inl rfl, Or.inl ⟨v, rfl⟩⟩
              · split_ifs at hnotices with hall
                · obtain ⟨rfl, rfl, rfl⟩ := downloadFile_filemeta hd
                  rcases mem_notices hnotices with hm | hm
                  · exact ⟨_, hm, Or.inr rfl, Or.inr (by simp [Command.args, hg, hf, hp, hu])⟩
                  · exact ⟨_, hm, Or.inr rfl, Or.inr (by simp [Command.args, hg, hf, hp, hu])⟩
                · cases hnotices

/-- What a branch sends is the message of a command. -/
lemma asks_of_mem_send {arg : ℕ → Str} {b : Branch}
    (hb : b ∈ branches myip myport s.loginFlag) (hm : m ∈ b.send e s.username arg)
    (hmyip : IsWord myip) (hmyport : IsWord myport) (hs : IsWord s.username)
    (harg : ∀ i, IsWord (arg i)) (hhash : ∀ f, IsWord (e.getFileHash f).1) :
    ∃ c : Command, m = c.message ∧ s.Asks myip myport c ∧ c.Legible := by
  have hname : IsWord ((split (arg 1) '/').getLast?.getD []) := by
    cases hlast : (split (arg 1) '/').getLast? with
    | none => exact isWord_nil
    | some w => exact isWord_of_mem_split (harg 1) (List.mem_of_getLast? hlast)
  have hask : ∀ {data : Str} (c : Command), m ∈ e.sent (request data) →
      data = c.args.foldl (fun s w => s ++ [' '] ++ w) c.word →
      s.Asks myip myport c → (∀ w ∈ c.args, IsWord w) →
      ∃ c : Command, m = c.message ∧ s.Asks myip myport c ∧ c.Legible :=
    fun c hm hdata hasks hc => ⟨c, (mem_sent hm).trans (hdata.trans c.message_eq), hasks, Or.inr hc⟩
  unfold Prompt.Asks at hask ⊢
  cases hflag : s.loginFlag with
  | false =>
    simp only [hflag, Bool.false_eq_true, if_false] at hask
    simp only [hflag, branches, List.mem_cons, List.not_mem_nil, or_false] at hb
    rcases hb with rfl | rfl
    · exact hask (.login (arg 1) (arg 2) myport myip) hm rfl ⟨_, _, Or.inl rfl⟩
        (by simp [Command.args, harg, hmyip, hmyport])
    · exact hask (.createUser (arg 1) (arg 2) myport myip) hm rfl ⟨_, _, Or.inr rfl⟩
        (by simp [Command.args, harg, hmyip, hmyport])
  | true =>
    simp only [hflag, if_true] at hask ⊢
    simp only [hflag, branches, List.mem_cons, List.not_mem_nil, or_false] at hb
    rcases hb with rfl | rfl | rfl | rfl | rfl | rfl | rfl | rfl | rfl | rfl | rfl | rfl
    · exact hask (.createGroup (arg 1) s.username) hm rfl (Or.inr rfl)
        (by simp [Command.args, harg, hs])
    · exact hask .listGroups hm rfl (Or.inl rfl) (by simp [Command.args])
    · exact hask (.joinGroup (arg 1) s.username) hm rfl (Or.inr rfl)
        (by simp [Command.args, harg, hs])
    · exact hask (.listRequests (arg 1) s.username) hm rfl (Or.inr rfl)
        (by simp [Command.args, harg, hs])
    · exact hask (.acceptRequest (arg 1) (arg 2) s.username) hm rfl (Or.inr rfl)
        (by simp [Command.args, harg, hs])
    · simp only at hm
      split_ifs at hm with hempty
      · cases hm
      · exact hask (.uploadFile (e.getFileHash (arg 1)).1 (toStr (e.getFileHash (arg 1)).2) (arg 2)
          s.username ((split (arg 1) '/').getLastD []) (arg 1)) hm rfl (Or.inr rfl)
          (by simp [Command.args, harg, hs, hhash, hname, isWord_toStr])
    · exact hask (.listFiles (arg 1)) hm rfl (Or.inl rfl) (by simp [Command.args, harg])
    · exact hask (.stopShare (arg 1) (arg 2) s.username) hm rfl (Or.inr rfl)
        (by simp [Command.args, harg, hs])
    · exact hask (.leaveGroup (arg 1) s.username) hm rfl (Or.inr rfl)
        (by simp [Command.args, harg, hs])
    · exact mem_download hm (harg 1) (harg 2) (harg 3) hs
    · exact hask (.showDownloads s.username) hm rfl (Or.inr rfl) (by simp [Command.args, hs])
    · exact hask (.logout s.username) hm rfl (Or.inr rfl) (by simp [Command.args, hs])

/-- A peer only asks for what is its own, in messages of commands. -/
lemma Prompt.asks_of_mem_requests (h : m ∈ s.requests myip myport line e) (hs : s.Words)
    (hmyip : IsWord myip) (hmyport : IsWord myport) (hhash : ∀ f, IsWord (e.getFileHash f).1) :
    ∃ c : Command, m = c.message ∧ s.Asks myip myport c ∧ c.Legible := by
  rw [requests] at h
  split_ifs at h
  · cases hfind : (branches myip myport s.loginFlag).find? fun b =>
        b.word = (readWords [0] line s.commandSplit).getD 0 [] with
    | none =>
      rw [hfind] at h
      cases h
    | some b =>
      rw [hfind] at h
      exact asks_of_mem_send (List.mem_of_find?_eq_some hfind) h hmyip hmyport hs.username
        (fun i => isWord_getD (isWord_readWords hs.commandSplit) i) hhash
  · cases h

/-- The tracker reads a command from each such message, and if no argument is missing it is the
    command that was written, or another request for an address. -/
lemma Command.Legible.parse {c : Command} (h : c.Legible) : ∃ c', Request.parse c.message =
    .client c' ∧ ((∀ w ∈ c'.args, w ≠ []) → c' = c ∨ c.actor = none ∧ c'.actor = none) := by
  rcases h with ⟨u, rfl⟩ | hc
  · refine ⟨_, parse_of_word (.giveDetails u) ?_, fun _ => Or.inr ⟨rfl, rfl⟩⟩
    rw [message, fields_cons, extractWords_append (Command.isToken_word _)]
    rfl
  · exact ⟨_, parse_message_words hc, fun hargs => Or.inl (withArgs_filter hargs)⟩

lemma Prompt.words_initial : Prompt.Words {} := by
  constructor
  · exact isWord_nil
  · intro w hw
    exact List.eq_of_mem_replicate hw ▸ isWord_nil

lemma username_ite {p : Prop} [Decidable p] {r r' : Prompt × List Str} {username : Str}
    (h : r.1.username = username) (h' : r'.1.username = username) :
    (if p then r else r').1.username = username := by
  split_ifs
  · exact h
  · exact h'

lemma username_perform (s : Prompt) (x : Typed) : (s.perform x).1.username = s.username := by
  unfold Prompt.perform
  repeat' first
    | exact rfl
    | apply username_ite

/-- Only a turn that asks to let a user in changes the name. -/
lemma username_of_not_signingIn (h : ¬ s.SigningIn x)
    (hturn : mainLoop myip myport s x = some (s', out)) : s'.username = s.username := by
  simp only [mainLoop] at hturn
  split_ifs at hturn with hquit htracker hlogin hcreate hfirst
  all_goals
    have hnext : _ = s' := congrArg Prod.fst (Option.some.inj hturn)
    rw [← hnext]
  · cases hflag : s.loginFlag with
    | true => simp [Prompt.signIn, hflag]
    | false => exact absurd ⟨hflag, by simpa using htracker, Or.inl hlogin⟩ h
  · cases hflag : s.loginFlag with
    | true => simp [Prompt.signIn, hflag]
    | false => exact absurd ⟨hflag, by simpa using htracker, Or.inr hcreate⟩ h
  · exact username_perform s x

/-- The name after a turn that lets a user in is among the words that have been read. -/
lemma username_of_signingIn (h : s.SigningIn x)
    (hturn : mainLoop myip myport s x = some (s', out)) :
    s'.username = s.username ∨ s'.username = s'.commandSplit.getD 1 [] := by
  obtain ⟨hflag, htracker, hword⟩ := h
  have hsign : ∀ f, (s.signIn x f).1.username = s.username ∨
      (s.signIn x f).1.username = (s.signIn x f).1.commandSplit.getD 1 [] := by
    intro f
    simp only [Prompt.signIn, hflag, Bool.false_eq_true, if_false]
    split_ifs
    · exact Or.inr rfl
    · exact Or.inl rfl
  simp only [mainLoop] at hturn
  split_ifs at hturn with hquit hnone hlogin hcreate hfirst
  all_goals
    have hnext : _ = s' := congrArg Prod.fst (Option.some.inj hturn)
    rw [← hnext]
  · exact Or.inl rfl
  · exact hsign _
  · exact hsign _
  · exact Or.inl rfl
  · exact Or.inl (username_perform s x)

variable (myip myport) in
/-- A peer that asks to let a user in. What it answers is noted, and the name if it is positive. -/
lemma requests_of_signingIn (hs : s.Words) (h : s.SigningIn (s.typed line e)) :
    ∃ u p, ∃ c : Command, IsWord u ∧ IsWord p ∧
    (c = .login u p myport myip ∨ c = .createUser u p myport myip) ∧
    s.requests myip myport line e = e.sent (request c.message) ∧
    ∃ s' out, mainLoop myip myport s (s.typed line e) = some (s', out) ∧
      s'.loginFlag = (request c.message (e.connections 0)).2 ∧
      (s'.loginFlag = true → s'.username = u ∧ s'.commandSplit.getD 2 [] = p) := by
  obtain ⟨hflag, htracker, hword⟩ := h
  have htracker' : e.checkTracker = true := htracker
  let arg i := (readWords [0, 1, 2] line s.commandSplit).getD i []
  have hsign : ∀ (c : Command) f, f (arg 1) (arg 2) = request c.message →
      (s.signIn (s.typed line e) f).1.loginFlag = (request c.message (e.connections 0)).2 ∧
      ((s.signIn (s.typed line e) f).1.loginFlag = true →
        (s.signIn (s.typed line e) f).1.username = arg 1 ∧
        (s.signIn (s.typed line e) f).1.commandSplit.getD 2 [] = arg 2) := by
    intro c f hf
    have hturn : s.signIn (s.typed line e) f =
        if (f (arg 1) (arg 2) (e.connections 0)).2 then
          (⟨true, arg 1, readWords [0, 1, 2] line s.commandSplit⟩, ["Successful".toList])
        else (⟨false, s.username, readWords [0, 1, 2] line s.commandSplit⟩, ["Failed".toList]) := by
      rw [Prompt.signIn, if_neg (by rw [hflag]; exact Bool.false_ne_true)]
      rfl
    rw [hturn, hf]
    split_ifs with hanswer
    · exact ⟨hanswer.symm, fun _ => ⟨rfl, rfl⟩⟩
    · exact ⟨(Bool.eq_false_of_not_eq_true hanswer).symm, fun htrue => by cases htrue⟩
  have hword' : (readWords [0] line s.commandSplit).getD 0 [] = s.word (s.typed line e) := rfl
  have harg : ∀ i, IsWord (arg i) := fun i => isWord_getD (isWord_readWords hs.commandSplit) i
  rw [Prompt.requests, if_pos htracker', hflag, hword']
  rcases hword with hword | hword
  · have hrequest := congrArg request
      (Command.message_eq (.login (arg 1) (arg 2) myport myip))
    refine ⟨arg 1, arg 2, _, harg 1, harg 2, Or.inl rfl, ?_, _,
      (s.signIn (s.typed line e) (Client.userLogin myip myport)).2, ?_,
      hsign _ (Client.userLogin myip myport) hrequest⟩
    · rw [hword]
      exact congrArg e.sent hrequest
    · rw [mainLoop, if_neg (by rw [hword]; decide), if_neg (by simp [htracker]), if_pos hword]
  · have hrequest := congrArg request
      (Command.message_eq (.createUser (arg 1) (arg 2) myport myip))
    refine ⟨arg 1, arg 2, _, harg 1, harg 2, Or.inr rfl, ?_, _,
      (s.signIn (s.typed line e) (Client.userCreate myip myport)).2, ?_,
      hsign _ (Client.userCreate myip myport) hrequest⟩
    · rw [hword]
      exact congrArg e.sent hrequest
    · rw [mainLoop, if_neg (by rw [hword]; decide), if_neg (by simp [htracker]),
        if_neg (by rw [hword]; decide), if_pos hword]

lemma Prompt.Words.mainLoop (hs : s.Words)
    (h : TorrentShare.mainLoop myip myport s x = some (s', out)) : s'.Words := by
  obtain ⟨is, his⟩ := mainLoop_readFrom h
  have hwords : ∀ w ∈ s'.commandSplit, IsWord w := by
    rw [his]
    exact isWord_readWords hs.commandSplit
  refine ⟨?_, hwords⟩
  by_cases hsign : s.SigningIn x
  · rcases username_of_signingIn hsign h with hname | hname
    · exact hname ▸ hs.username
    · exact hname ▸ isWord_getD hwords 1
  · exact username_of_not_signingIn hsign h ▸ hs.username

lemma Prompt.Words.after {history : List Typed} (hs : s.Words)
    (h : s.after myip myport history = some s') : s'.Words := by
  induction history generalizing s with
  | nil =>
    cases h
    exact hs
  | cons x history ih =>
    obtain ⟨r, hr, hrest⟩ := Option.bind_eq_some_iff.mp h
    exact ih (hs.mainLoop hr) hrest

/-- What the tracker reads from a message of a peer is what the peer may ask for. -/
lemma Prompt.Words.parse_requests (hs : s.Words) (hmyip : IsWord myip) (hmyport : IsWord myport)
    (hhash : ∀ f, IsWord (e.getFileHash f).1) (hm : m ∈ s.requests myip myport line e) :
    ∃ c : Command, Request.parse m = .client c ∧
      ((∀ w ∈ c.args, w ≠ []) → s.Asks myip myport c ∧ (c.actor ≠ none → m = c.message)) := by
  obtain ⟨c, rfl, hasks, hlegible⟩ := Prompt.asks_of_mem_requests hm hs hmyip hmyport hhash
  obtain ⟨c', hparse, hsame⟩ := hlegible.parse
  refine ⟨c', hparse, fun hargs => ?_⟩
  rcases hsame hargs with rfl | ⟨hnone, hnone'⟩
  · exact ⟨hasks, fun _ => rfl⟩
  · refine ⟨?_, fun hsome => absurd hnone' hsome⟩
    rw [Prompt.Asks] at hasks ⊢
    split_ifs at hasks ⊢
    · exact Or.inl hnone'
    · obtain ⟨u, p, rfl | rfl⟩ := hasks <;> cases hnone

/-- A line that lets a user in. -/
def admitted : List Typed :=
  [⟨"login u p".toList, true, ⟨true, [0, 0, 0, 1, byteOf '1']⟩, ([], 0)⟩]

end Requests

end TorrentShare
