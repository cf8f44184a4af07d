import TorrentShare.Registry.Warrants
import TorrentShare.System.Messages

/-!
# Peers and their tracker

Peers send messages to a tracker, where they are processed one after another in any order. Messages
are delayed and lost, and the tracker and the peers are started again. What the files of the tracker
hold has been typed at peers where the user was signed in with the password of the account.
-/

namespace TorrentShare

open Program

/-- A message that a peer has sent for the user who was signed in there. -/
structure Asking (ι : Type) where
  peer : ι
  user : Str
  message : Str

/-- A tracker, its peers, and the messages that are on their way. `asked` are the messages that have
    been sent for users, and `signIns` the names and passwords with which a peer has been told that
    the user is let in. -/
structure Network (ι : Type) where
  tracker : Tracker
  peer : ι → Prompt
  messages : List Str
  asked : List (Asking ι)
  signIns : List (ι × Str × Str)

/-- What happens: a line is typed at a peer, where a line that asks to let a user in is dealt with
    at once, if it is dealt with at all; a peer asks for a path while it serves a request; a message
    is processed or lost; the tracker or a peer is started again. -/
inductive Network.Event (ι : Type) where
  | turn (i : ι) (line : Str) (e : Situation)
  | signIn (i : ι) (line : Str) (e : Situation) (salt : List (Fin 256)) (siblingOnline : Bool)
  | serve (username groupname filename : Str)
  | deliver (k : ℕ) (salt : List (Fin 256)) (siblingOnline : Bool)
  | lose (k : ℕ)
  | restart
  | reboot (i : ι)

namespace Network

section Steps

variable {ι : Type} [DecidableEq ι]

/-- Nothing has happened yet. -/
def initial : Network ι := ⟨.initial, fun _ => {}, [], [], []⟩

variable (sha256 : Str → List (Fin 256)) (myip myport : ι → Str)

/-- The messages for a line that is typed at a peer. -/
def requests (w : Network ι) (i : ι) (line : Str) (e : Situation) : List Str :=
  (w.peer i).requests (myip i) (myport i) line e

/-- The turn of the loop of a peer. -/
def mainLoop (w : Network ι) (i : ι) (line : Str) (e : Situation) : Option Prompt :=
  (TorrentShare.mainLoop (myip i) (myport i) (w.peer i) ((w.peer i).typed line e)).map Prod.fst

/-- The tracker deals with a message that is a command. -/
def process (w : Network ι) (message : Str) (salt : List (Fin 256)) (siblingOnline : Bool) :
    Option (Reply × Tracker) :=
  match Request.parse message with
  | .client c => Tracker.act sha256 w.tracker (.command c salt siblingOnline)
  | _         => none

def step (w : Network ι) : Event ι → Option (Network ι)
  | .turn i line e =>
    (w.mainLoop myip myport i line e).map fun s =>
      { w with
        peer := Function.update w.peer i s
        messages := w.messages ++ w.requests myip myport i line e
        asked := w.asked ++ if (w.peer i).loginFlag then
          (w.requests myip myport i line e).map fun m => ⟨i, (w.peer i).username, m⟩ else [] }
  | .signIn i line e salt siblingOnline =>
    (w.requests myip myport i line e).head?.bind fun m =>
      (w.process sha256 m salt siblingOnline).bind fun r =>
        (w.mainLoop myip myport i line e).map fun s =>
          { w with
            tracker := r.2
            peer := Function.update w.peer i s
            signIns := w.signIns ++
              if s.loginFlag then [(i, s.username, s.commandSplit.getD 2 [])] else [] }
  | .serve username groupname filename =>
    some { w with
      messages := w.messages ++ [(Command.sendFullPath username groupname filename).message] }
  | .deliver k salt siblingOnline =>
    w.messages[k]?.bind fun m => (w.process sha256 m salt siblingOnline).map fun r =>
      { w with tracker := r.2, messages := w.messages.eraseIdx k }
  | .lose k  => some { w with messages := w.messages.eraseIdx k }
  | .restart => (Tracker.act sha256 w.tracker .restart).map fun r => { w with tracker := r.2 }
  | .reboot i => some { w with peer := Function.update w.peer i {} }

/-- The events that are considered. `GetFileHash` gives words; a peer that asks to let a user in
    cannot reach the tracker, or receives its reply; and what the tracker processes names groups and
    users of `E` and has all its arguments. -/
def Regular (E : Entities) (w : Network ι) : Event ι → Prop
  | .turn i line e =>
    (∀ f, IsWord (e.getFileHash f).1) ∧
      ((w.peer i).SigningIn ((w.peer i).typed line e) → (e.connections 0).handshake = false)
  | .signIn i line e salt siblingOnline =>
    (w.peer i).SigningIn ((w.peer i).typed line e) ∧
      ∀ m ∈ w.requests myip myport i line e, ∀ c, Request.parse m = .client c →
        (Act.command c salt siblingOnline).Proper E ∧
        ∀ reply t, Tracker.act sha256 w.tracker (.command c salt siblingOnline) = some (reply, t) →
          (e.connections 0).Receives ((reply.getD []).map byteOf)
  | .deliver k salt siblingOnline =>
    ∀ m ∈ w.messages[k]?, ∀ c, Request.parse m = .client c →
      (Act.command c salt siblingOnline).Proper E
  | _ => True

/-- A peer at which the user was signed in has asked for the command of the user. -/
def Asked (w : Network ι) (c : Command) : Prop :=
  ∃ x ∈ w.asked, c.actor = some x.user ∧ x.message = c.message

/-- The command acts for nobody, or it lets a user in, or it has been asked for. -/
def Did (w : Network ι) (c : Command) : Prop :=
  c.actor = none ∨ (∃ u p port ip, c = .login u p port ip ∨ c = .createUser u p port ip) ∨ w.Asked c

/-- The invariant of the network. -/
structure Holds (E : Entities) (w : Network ι) (R : Registry Str) : Prop where
  represents : w.tracker.Represents sha256 E R
  warranted : R.Warranted w.Did
  words : ∀ i, (w.peer i).Words
  signedIn : ∀ i, (w.peer i).loginFlag = true → ∃ p, (i, (w.peer i).username, p) ∈ w.signIns
  knows : ∀ x ∈ w.signIns, R.Knows (hashPassword sha256) x.2.1 x.2.2
  asked : ∀ x ∈ w.asked, ∃ p, (x.peer, x.user, p) ∈ w.signIns
  messages : ∀ m ∈ w.messages, ∃ c, Request.parse m = .client c ∧
    ((∀ a ∈ c.args, a ≠ []) → w.Did c)

end Steps

/-! ### Steps -/

section Invariant

variable {ι : Type} {sha256 : Str → List (Fin 256)} {myip myport : ι → Str}
  {E : Entities} {w w' : Network ι} {R : Registry Str} {c : Command} {m line : Str} {i : ι}
  {e : Situation} {s : Prompt} {a : Act} {reply : Reply} {t : Tracker}

lemma initial_holds (hE : E.Separate) (hopen : E.Openable) :
    (initial : Network ι).Holds sha256 E .empty where
  represents := Tracker.initial_represents hE hopen
  warranted := Registry.empty_warranted _
  words _ := Prompt.words_initial
  signedIn i hi := by cases hi
  knows x hx := by cases hx
  asked x hx := by cases hx
  messages m hm := by cases hm

lemma Did.mono (h : w.Did c) (hasked : ∀ x ∈ w.asked, x ∈ w'.asked) : w'.Did c :=
  h.imp_right (Or.imp_right fun ⟨x, hx, hc⟩ => ⟨x, hasked x hx, hc⟩)

/-- What enters something for a user has been asked for where the user was signed in. -/
lemma Did.asked (h : w.Did c) (hc : c.Enters) : w.Asked c := by
  rcases h with hnone | ⟨u, p, port, ip, rfl | rfl⟩ | hasked
  · cases c with
    | _ => first
      | exact False.elim hc
      | cases hnone
  · exact False.elim hc
  · exact False.elim hc
  · exact hasked

/-- The tracker goes from one registry to the next. -/
lemma act_spec (h : w.tracker.Represents sha256 E R) (ha : a.Proper E)
    (hact : Tracker.act sha256 w.tracker a = some (reply, t)) :
    (R.act sha256 a).1.Tells reply ∧ t.Represents sha256 E (R.act sha256 a).2 := by
  obtain ⟨reply', t', hact', htells, ht⟩ := Tracker.implements sha256 E R w.tracker a ha h
  cases hact.symm.trans hact'
  exact ⟨htells, ht⟩

/-- A command is processed, or the tracker is started again. Peers and messages stay. -/
lemma Holds.act (h : w.Holds sha256 E R) (ha : a.Proper E)
    (hact : Tracker.act sha256 w.tracker a = some (reply, t))
    (hdid : ∀ c salt online, a = .command c salt online → w.Did c) :
    { w with tracker := t }.Holds sha256 E (R.act sha256 a).2 := by
  refine { h with represents := (act_spec h.represents ha hact).2, warranted := ?_, knows := ?_ }
  · cases a with
    | restart => exact h.warranted.refresh
    | command c salt online => exact h.warranted.command (hdid c salt online rfl)
  · exact fun x hx => (h.knows x hx).act

/-- Messages get lost. -/
lemma Holds.eraseIdx (h : w.Holds sha256 E R) (k : ℕ) :
    { w with messages := w.messages.eraseIdx k }.Holds sha256 E R :=
  { h with messages := fun m hm => h.messages m (List.mem_of_mem_eraseIdx hm) }

/-- Messages are sent, some of them for users who are signed in. -/
lemma Holds.send (h : w.Holds sha256 E R) {ms : List Str} {xs : List (Asking ι)}
    (hxs : ∀ x ∈ xs, ∃ p, (x.peer, x.user, p) ∈ w.signIns)
    (hms : ∀ m ∈ ms, ∃ c, Request.parse m = .client c ∧ ((∀ a ∈ c.args, a ≠ []) →
      { w with messages := w.messages ++ ms, asked := w.asked ++ xs }.Did c)) :
    { w with messages := w.messages ++ ms, asked := w.asked ++ xs }.Holds sha256 E R := by
  have hmono : ∀ c, w.Did c →
      { w with messages := w.messages ++ ms, asked := w.asked ++ xs }.Did c :=
    fun c hc => hc.mono fun x hx => List.mem_append_left _ hx
  refine { h with
    warranted := h.warranted.mono fun c _ => hmono c
    asked := List.forall_mem_append.mpr ⟨h.asked, hxs⟩
    messages := List.forall_mem_append.mpr ⟨fun m hm => ?_, hms⟩ }
  obtain ⟨c, hparse, hdid⟩ := h.messages m hm
  exact ⟨c, hparse, fun hargs => hmono c (hdid hargs)⟩

/-- A peer asks for a path. -/
lemma Holds.serve (h : w.Holds sha256 E R) (u g f : Str) :
    { w with messages := w.messages ++ [(Command.sendFullPath u g f).message] }.Holds
      sha256 E R := by
  refine { h with messages := List.forall_mem_append.mpr ⟨h.messages, ?_⟩ }
  refine List.forall_mem_singleton.mpr ⟨_, Command.parse_of_word (.sendFullPath u g f) ?_,
    fun _ => Or.inl rfl⟩
  rw [Command.message, fields_cons, extractWords_append (Command.isToken_word _)]
  rfl

/-- Users are let in. -/
lemma Holds.letIn (h : w.Holds sha256 E R) {xs : List (ι × Str × Str)}
    (hxs : ∀ x ∈ xs, R.Knows (hashPassword sha256) x.2.1 x.2.2) :
    { w with signIns := w.signIns ++ xs }.Holds sha256 E R :=
  { h with
    signedIn := fun i hi => (h.signedIn i hi).imp fun _ hp => List.mem_append_left _ hp
    knows := List.forall_mem_append.mpr ⟨h.knows, hxs⟩
    asked := fun x hx => (h.asked x hx).imp fun _ hp => List.mem_append_left _ hp }

variable [DecidableEq ι]

/-- A peer is somewhere else in its loop. -/
lemma Holds.update (h : w.Holds sha256 E R) (hs : s.Words)
    (hflag : s.loginFlag = true → ∃ p, (i, s.username, p) ∈ w.signIns) :
    { w with peer := Function.update w.peer i s }.Holds sha256 E R := by
  refine { h with words := fun j => ?_, signedIn := fun j hj => ?_ }
  · simp only [Function.update_apply]
    split_ifs
    · exact hs
    · exact h.words j
  · simp only [Function.update_apply] at hj ⊢
    split_ifs at hj ⊢ with hji
    · exact hji ▸ hflag hj
    · exact h.signedIn j hj

/-- A line is typed at a peer that does not let a user in. -/
lemma Holds.turn (h : w.Holds sha256 E R) (hmyip : IsWord (myip i)) (hmyport : IsWord (myport i))
    (hhash : ∀ f, IsWord (e.getFileHash f).1)
    (hsign : (w.peer i).SigningIn ((w.peer i).typed line e) → (e.connections 0).handshake = false)
    (hstep : w.step sha256 myip myport (.turn i line e) = some w') : w'.Holds sha256 E R := by
  simp only [step, mainLoop, Option.map_map, Option.map_eq_some_iff, Function.comp_apply] at hstep
  obtain ⟨⟨s, out⟩, hturn, rfl⟩ := hstep
  have hflag : s.loginFlag = true → (w.peer i).loginFlag = true ∧
      s.username = (w.peer i).username := by
    intro htrue
    by_cases hsigning : (w.peer i).SigningIn ((w.peer i).typed line e)
    · obtain ⟨u, p, c, -, -, -, -, s', out', hturn', hanswer, -⟩ :=
        requests_of_signingIn (myip i) (myport i) (h.words i) hsigning
      cases hturn.symm.trans hturn'
      rw [htrue, request_eq_false.mpr (Or.inl (hsign hsigning))] at hanswer
      cases hanswer
    · exact ⟨loginFlag_of_not_signingIn hsigning hturn htrue,
        username_of_not_signingIn hsigning hturn⟩
  refine (h.send (fun x hx => ?_) fun m hm => ?_).update ((h.words i).mainLoop hturn)
    fun htrue => ?_
  · split_ifs at hx with hin
    · obtain ⟨m, -, rfl⟩ := List.mem_map.mp hx
      exact h.signedIn i hin
    · cases hx
  · obtain ⟨c, hparse, hasks⟩ := (h.words i).parse_requests hmyip hmyport hhash hm
    refine ⟨c, hparse, fun hargs => ?_⟩
    obtain ⟨hask, hmessage⟩ := hasks hargs
    rw [Prompt.Asks] at hask
    split_ifs at hask with hin
    · rcases hask with hnone | hactor
      · exact Or.inl hnone
      · refine Or.inr (Or.inr ⟨⟨i, (w.peer i).username, m⟩, List.mem_append_right _ ?_, hactor,
          hmessage (by simp [hactor])⟩)
        rw [if_pos hin]
        exact List.mem_map_of_mem hm
    · obtain ⟨u, p, hc⟩ := hask
      exact Or.inr (Or.inl ⟨u, p, _, _, hc⟩)
  · obtain ⟨hin, hname⟩ := hflag htrue
    exact hname ▸ h.signedIn i hin

/-- A peer is told whether a user is let in. -/
lemma Holds.signIn {salt : List (Fin 256)} {online : Bool} (h : w.Holds sha256 E R)
    (hmyip : IsWord (myip i)) (hmyport : IsWord (myport i))
    (hregular : w.Regular sha256 myip myport E (.signIn i line e salt online))
    (hstep : w.step sha256 myip myport (.signIn i line e salt online) = some w') :
    ∃ R', w'.Holds sha256 E R' := by
  obtain ⟨hsigning, hregular⟩ := hregular
  obtain ⟨u, p, c, hu, hp, hc, hrequests, s', out, hturn, hanswer, hname⟩ :=
    requests_of_signingIn (myip i) (myport i) (h.words i) hsigning
  simp only [step, mainLoop, hturn, Option.map_some, Option.bind_eq_some_iff,
    Option.some.injEq] at hstep
  obtain ⟨m, hm, ⟨reply, t⟩, hprocess, rfl⟩ := hstep
  have hmem : m ∈ w.requests myip myport i line e := List.mem_of_mem_head? hm
  obtain rfl : m = c.message := mem_sent (hrequests ▸ (show m ∈ Prompt.requests .. from hmem))
  have hargs : ∀ a ∈ c.args, IsWord a := by
    rcases hc with rfl | rfl <;> simp [Command.args, hu, hp, hmyip, hmyport]
  obtain ⟨hproper, hreceives⟩ := hregular _ hmem _ (Command.parse_message_words hargs)
  have hsame := Command.withArgs_filter (c := c) fun a ha => (hproper.2 a ha).2
  rw [hsame] at hproper hreceives
  rw [process, Command.parse_message_words hargs, hsame] at hprocess
  obtain ⟨hhandshake, hstart⟩ := hreceives reply t hprocess
  obtain ⟨htells, -⟩ := act_spec h.represents hproper hprocess
  have hact := h.act hproper hprocess fun c' salt' online' heq => by
    cases heq
    exact Or.inr (Or.inl ⟨u, p, _, _, hc⟩)
  obtain ⟨b, hdone⟩ := Registry.command_signIn sha256 R (generateSalt salt) hc
  obtain rfl : reply = flag b := by
    rw [Registry.act, hdone] at htells
    exact htells
  -- the peer notes what the tracker has decided
  have hflag : s'.loginFlag = true → b = true := by
    intro htrue
    by_contra hb
    obtain rfl : b = false := by simpa using hb
    have hrefused : (request c.message (e.connections 0)).2 = false :=
      request_eq_false.mpr (Or.inr ⟨_, hstart, by decide, rfl⟩)
    rw [htrue, hrefused] at hanswer
    cases hanswer
  refine ⟨_, (hact.letIn fun x hx => ?_).update ((h.words i).mainLoop hturn) fun htrue => ?_⟩
  · split_ifs at hx with htrue
    · obtain ⟨hu', hp'⟩ := hname htrue
      obtain rfl := hflag htrue
      rw [List.mem_singleton.mp hx, hu', hp']
      exact Registry.knows_of_granted hc htells
    · cases hx
  · rw [if_pos htrue]
    exact ⟨_, List.mem_append_right _ (List.mem_singleton_self _)⟩

lemma Holds.step {v : Event ι} (h : w.Holds sha256 E R) (hmyip : ∀ i, IsWord (myip i))
    (hmyport : ∀ i, IsWord (myport i)) (hregular : w.Regular sha256 myip myport E v)
    (hstep : w.step sha256 myip myport v = some w') : ∃ R', w'.Holds sha256 E R' := by
  cases v with
  | turn i line e =>
    exact ⟨R, h.turn (hmyip i) (hmyport i) hregular.1 hregular.2 hstep⟩
  | signIn i line e salt online => exact h.signIn (hmyip i) (hmyport i) hregular hstep
  | serve u g f =>
    cases hstep
    exact ⟨R, h.serve u g f⟩
  | deliver k salt online =>
    simp only [Network.step, Option.bind_eq_some_iff, Option.map_eq_some_iff] at hstep
    obtain ⟨m, hm, ⟨reply, t⟩, hprocess, rfl⟩ := hstep
    obtain ⟨c, hparse, hdid⟩ := h.messages m (List.mem_of_getElem? hm)
    have hproper := hregular m hm c hparse
    rw [process, hparse] at hprocess
    have hact := h.act hproper hprocess fun c' salt' online' heq => by
      cases heq
      exact hdid fun a ha => (hproper.2 a ha).2
    exact ⟨_, hact.eraseIdx k⟩
  | lose k =>
    cases hstep
    exact ⟨R, h.eraseIdx k⟩
  | restart =>
    obtain ⟨⟨reply, t⟩, hact, rfl⟩ := Option.map_eq_some_iff.mp hstep
    exact ⟨_, h.act (a := .restart) trivial hact fun c salt online heq => by cases heq⟩
  | reboot i =>
    cases hstep
    exact ⟨R, h.update Prompt.words_initial fun htrue => by cases htrue⟩

end Invariant

/-! ### One peer -/

/-- A network of one peer. -/
def onePeer : Network Unit → Event Unit → Option (Network Unit) :=
  step (fun _ => zerosDigest) (fun _ => "i".toList) fun _ => "1".toList

/-- A user gets an account at the peer and makes a group. -/
def founding : List (Event Unit) :=
  [.signIn () "create_user o p".toList obliging [] false, .turn () "create_group g".toList obliging,
    .deliver 0 [] false]

/-- The network after the first of these events. -/
def founded : ℕ → Option (Network Unit)
  | 0     => some initial
  | n + 1 => (founded n).bind fun w => founding[n]?.bind (onePeer w)

/-- Each of these events is regular. -/
lemma founding_regular {w : Network Unit} {n : ℕ} {v : Event Unit} (hw : founded n = some w)
    (hv : v ∈ founding[n]?) :
    Regular (fun _ => zerosDigest) (fun _ => "i".toList) (fun _ => "1".toList) oneGroup w v := by
  have hword : IsWord "h".toList := by decide
  match n with
  | 0 =>
    cases hw
    cases hv
    refine ⟨⟨rfl, rfl, Or.inr (by decide)⟩, fun m hm c hc => ?_⟩
    obtain rfl : m = "create_user o p 1 i".toList := List.mem_singleton.mp hm
    obtain rfl : Command.createUser "o".toList "p".toList "1".toList "i".toList = c := by
      cases hc
      rfl
    refine ⟨by decide, fun reply t hact => ?_⟩
    have hreply : (Tracker.act (fun _ => zerosDigest) Tracker.initial (.command (.createUser
        "o".toList "p".toList "1".toList "i".toList) [] false)).map Prod.fst =
          some (some ['1']) := by decide +kernel
    rw [show Tracker.act _ Tracker.initial _ = _ from hact] at hreply
    obtain rfl : reply = some ['1'] := Option.some.inj hreply
    exact ⟨rfl, Framing.readFrame_eq_some.mp rfl⟩
  | 1 =>
    cases hv
    have hflag : (founded 1).map (fun w => (w.peer ()).loginFlag) = some true := by decide +kernel
    rw [hw, Option.map_some, Option.some.injEq] at hflag
    refine ⟨fun _ => hword, fun hsigning => ?_⟩
    rw [hsigning.1] at hflag
    cases hflag
  | 2 =>
    cases hv
    have hmessages : (founded 2).map (·.messages) = some ["create_group g o".toList] := by
      decide +kernel
    rw [hw, Option.map_some, Option.some.injEq] at hmessages
    intro m hm c hc
    rw [hmessages] at hm
    cases hm
    cases hc
    decide
  | n + 3 => cases hv

lemma founded_runs {w : Network Unit} {n : ℕ} (hw : founded n = some w) :
    Machine.RunsWhen onePeer
      (Regular (fun _ => zerosDigest) (fun _ => "i".toList) (fun _ => "1".toList) oneGroup)
      initial w := by
  induction n generalizing w with
  | zero =>
    cases hw
    exact .refl
  | succ n ih =>
    simp only [founded, Option.bind_eq_some_iff] at hw
    obtain ⟨w', hw', v, hv, hstep⟩ := hw
    exact (ih hw').tail ⟨v, founding_regular hw' hv, hstep⟩

end Network

end TorrentShare
