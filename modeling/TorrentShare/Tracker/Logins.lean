import TorrentShare.Tracker.Queries
import TorrentShare.Tracker.Reloading

/-!
# Logins

`create_user` and `login` put a user into `.online.txt`, `logout` takes the user out again, and the
handlers of all three read the files before they look at the tables. What the files hold follows
the commands that have been accepted.
-/

namespace TorrentShare

open Program

/-- Hexadecimal digits, which is what `GenerateSalt` and `HashPassword` return. -/
def IsHex (s : Str) : Prop := ∀ c ∈ s, c ∈ "0123456789abcdef".toList

lemma IsHex.isWord {s : Str} (h : IsHex s) : IsWord s := by
  have hdigits : ("0123456789abcdef".toList.all fun c => !isspace c) = true := rfl
  intro c hc
  have hc' := List.all_eq_true.mp hdigits c (h c hc)
  rwa [Bool.not_eq_true'] at hc'

lemma IsHex.colon {s : Str} (h : IsHex s) : ':' ∉ s := by
  intro hc
  have hcolon : ':' ∉ "0123456789abcdef".toList := by decide
  exact hcolon (h ':' hc)

lemma IsHex.ne_colon {s : Str} (h : IsHex s) : ∀ c ∈ s, decide (c ≠ ':') = true := by
  intro c hc
  apply decide_eq_true
  rintro rfl
  exact h.colon hc

/-! ### Histories -/

/-- A command that has been processed, the salt for it and the reply. -/
structure Exchange where
  command : Command
  salt : Str
  reply : Reply

namespace Exchange

/-- An accepted `login` or `create_user` of the user. -/
def SignsIn (e : Exchange) (u : Str) : Prop :=
  e.reply = some ['1'] ∧
    ∃ p port ip, e.command = .login u p port ip ∨ e.command = .createUser u p port ip

/-- An accepted `login` or `create_user` of the user, with the address and the port. -/
def SignsInAt (e : Exchange) (u : Str) (address : Str × Str) : Prop :=
  e.reply = some ['1'] ∧ ∃ p, e.command = .login u p address.2 address.1 ∨
    e.command = .createUser u p address.2 address.1

/-- An accepted `logout` of the user. -/
def SignsOut (e : Exchange) (u : Str) : Prop := e.reply = some ['1'] ∧ e.command = .logout u

/-- The account that the exchange creates, if it does. -/
def account (e : Exchange) : Option Account :=
  match e.command, e.reply with
  | .createUser u p _ _, some ['1'] => some ⟨u, p, e.salt⟩
  | _, _                            => none

lemma account_eq_some {e : Exchange} {a : Account} :
    e.account = some a ↔ ∃ port ip, e.command = .createUser a.user a.password port ip ∧
      e.reply = some ['1'] ∧ e.salt = a.salt := by
  obtain ⟨c, salt, reply⟩ := e
  obtain ⟨u, p, salt'⟩ := a
  constructor
  · intro h
    unfold account at h
    split at h
    · rename_i hc hr
      cases h
      exact ⟨_, _, hc, hr, rfl⟩
    · cases h
  · rintro ⟨port, ip, hc, hr, hs⟩
    simp only at hc hr hs
    subst hc hr hs
    rfl

end Exchange

/-- The last accepted `login` or `create_user` of the user has not been followed by an accepted
    `logout`. -/
def SignedIn (history : List Exchange) (u : Str) : Prop :=
  ∃ before e after, history = before ++ e :: after ∧ e.SignsIn u ∧ ∀ e' ∈ after, ¬ e'.SignsOut u

/-- The user has come in with the address and not left since. -/
def CameIn (history : List Exchange) (u : Str) (address : Str × Str) : Prop :=
  ∃ before e after, history = before ++ e :: after ∧ e.SignsInAt u address ∧
    ¬ SignedIn before u ∧ ∀ e' ∈ after, ¬ e'.SignsOut u

/-- The accounts that have been created. -/
def accountsOf (history : List Exchange) : List Account := history.filterMap Exchange.account

lemma not_signedIn_nil (u : Str) : ¬ SignedIn [] u := by
  rintro ⟨before, e, after, h, -⟩
  simp at h

/-- One more exchange. -/
lemma signedIn_append_iff {history : List Exchange} {e : Exchange} {u : Str} :
    SignedIn (history ++ [e]) u ↔ e.SignsIn u ∨ SignedIn history u ∧ ¬ e.SignsOut u := by
  constructor
  · rintro ⟨before, e', after, hsplit, hin, hout⟩
    rcases List.eq_nil_or_concat after with rfl | ⟨after', e'', rfl⟩
    · obtain ⟨rfl, he⟩ := List.append_inj' hsplit rfl
      obtain rfl : e = e' := by simpa using he
      exact Or.inl hin
    · right
      rw [List.concat_eq_append, ← List.cons_append, ← List.append_assoc] at hsplit
      obtain ⟨rfl, he⟩ := List.append_inj' hsplit rfl
      obtain rfl : e = e'' := by simpa using he
      rw [List.concat_eq_append] at hout
      refine ⟨⟨before, e', after', rfl, hin, fun x hx => hout x ?_⟩, hout e ?_⟩
      · exact List.mem_append_left _ hx
      · simp
  · rintro (hin | ⟨⟨before, e', after, rfl, hin, hout⟩, hnot⟩)
    · exact ⟨history, e, [], rfl, hin, by simp⟩
    · refine ⟨before, e', after ++ [e], by simp, hin, fun x hx => ?_⟩
      rcases List.mem_append.mp hx with hx | hx
      · exact hout x hx
      · rw [List.mem_singleton.mp hx]
        exact hnot

/-- Who has come in stays until an exchange that signs out. -/
lemma CameIn.append {history : List Exchange} {e : Exchange} {u : Str} {address : Str × Str}
    (h : CameIn history u address) (hout : ¬ e.SignsOut u) :
    CameIn (history ++ [e]) u address := by
  obtain ⟨before, e', after, rfl, hin, hnot, hstays⟩ := h
  refine ⟨before, e', after ++ [e], by simp, hin, hnot, fun x hx => ?_⟩
  rcases List.mem_append.mp hx with hx | hx
  · exact hstays x hx
  · rw [List.mem_singleton.mp hx]
    exact hout

lemma accountsOf_append (history : List Exchange) (e : Exchange) :
    accountsOf (history ++ [e]) = accountsOf history ++ e.account.toList := by
  rw [accountsOf, List.filterMap_append]
  cases h : e.account with
  | none => simp [accountsOf, h]
  | some a => simp [accountsOf, h]

/-- The states that a tracker without files reaches when messages of clients are processed one at
    a time. Every message has all the arguments of its command. -/
inductive ClientRun (hashPassword : Str → Str → Str) : List Exchange → Tracker → Prop where
  | start : ClientRun hashPassword [] .initial
  | step {history : List Exchange} {t t' : Tracker} {message salt : Str} {c : Command}
      {reply : Reply} {online : Bool} {sent : List (Path × Str)}
      (hrun : ClientRun hashPassword history t) (hmessage : Request.parse message = .client c)
      (hargs : ∀ w ∈ c.args, w ≠ []) (hsalt : IsHex salt)
      (hserve : serve hashPassword t online salt c = some (reply, t', sent)) :
      ClientRun hashPassword (history ++ [⟨c, salt, reply⟩]) t'

/-! ### The files -/

/-- What is stored of a password. -/
def Account.credential (hashPassword : Str → Str → Str) (a : Account) : Str :=
  a.salt ++ [':'] ++ hashPassword a.salt a.password

/-- The line of a user who is online. -/
def onlineRecord (e : Str × Str × Str) : Str := fields [e.1, e.2.1, e.2.2]

/-- The accounts are those that have been created, and `.online.txt` has one line for each user
    who is signed in. -/
structure Follows (hashPassword : Str → Str → Str) (history : List Exchange)
    (sessions : List (Str × Str × Str)) (d : Disk) : Prop where
  tidy : d.Tidy
  groups : ∀ l ∈ d.lines groupFile, groupFields (split l ' ') ≠ none
  credential : d.lines credentialFile =
    ((accountsOf history).map fun a => (a.user, a.credential hashPassword)).map
      fun p => fields [p.1, p.2]
  tokens : ∀ a ∈ accountsOf history, IsToken a.user ∧ IsHex a.salt
  different : ((accountsOf history).map Account.user).Nodup
  online : d.lines onlineFile = sessions.map onlineRecord
  words : ∀ e ∈ sessions, IsWord e.1 ∧ IsWord e.2.1 ∧ IsWord e.2.2
  single : (sessions.map Prod.fst).Nodup
  registered : ∀ u ∈ sessions.map Prod.fst, u ∈ (accountsOf history).map Account.user
  signedIn : ∀ u, u ∈ sessions.map Prod.fst ↔ SignedIn history u

/-- What an exchange makes of the users who are signed in. -/
inductive SessionStep (history : List Exchange) (sessions : List (Str × Str × Str))
    (e : Exchange) : List (Str × Str × Str) → Prop where
  | idle (hout : ∀ u, ¬ e.SignsOut u) : SessionStep history sessions e sessions
  | signIn (u : Str) (address : Str × Str) (hin : e.SignsInAt u address)
      (hnot : ¬ SignedIn history u) (hout : ∀ v, ¬ e.SignsOut v) :
      SessionStep history sessions e (sessions ++ [(u, address)])
  | signOut (u : Str) (hout : ∀ v, e.SignsOut v ↔ v = u) :
      SessionStep history sessions e (sessions.filter fun x => x.1 ≠ u)

/-- The entry of a key, if there is one entry for each. -/
lemma filter_fst_of_nodup {β : Type} {es : List (Str × β)} (h : (es.map Prod.fst).Nodup) {k : Str}
    {v : β} (he : (k, v) ∈ es) : es.filter (fun e => decide (e.1 = k)) = [(k, v)] := by
  induction es with
  | nil => cases he
  | cons e es ih =>
    rw [List.map_cons, List.nodup_cons] at h
    rcases List.mem_cons.mp he with rfl | he
    · rw [List.filter_cons_of_pos (by simp), List.filter_eq_nil_iff.mpr]
      intro e he hk
      have hkey : e.1 ∈ es.map Prod.fst := List.mem_map_of_mem he
      rw [of_decide_eq_true hk] at hkey
      exact h.1 hkey
    · have hkey : k ∈ es.map Prod.fst := List.mem_map_of_mem he
      have hne : e.1 ≠ k := by
        rintro rfl
        exact h.1 hkey
      rw [List.filter_cons_of_neg (by simp [hne])]
      exact ih h.2 he

lemma split_onlineRecord {e : Str × Str × Str} (h : IsWord e.1 ∧ IsWord e.2.1 ∧ IsWord e.2.2) :
    split (onlineRecord e) ' ' = [e.1, e.2.1, e.2.2] := by
  apply split_fields (List.cons_ne_nil _ _)
  simp [h.1.blank, h.2.1.blank, h.2.2.blank]

lemma hasField_onlineRecord {e : Str × Str × Str} (h : IsWord e.1 ∧ IsWord e.2.1 ∧ IsWord e.2.2)
    (u : Str) : hasField 0 u (onlineRecord e) = true ↔ e.1 = u := by
  rw [hasField_iff, split_onlineRecord h]
  simp

/-- Everybody who is signed in has come in with the address of the entry. -/
lemma SessionStep.cameIn {history : List Exchange} {sessions sessions' : List (Str × Str × Str)}
    {e : Exchange} (h : SessionStep history sessions e sessions')
    (hcame : ∀ x ∈ sessions, CameIn history x.1 x.2) :
    ∀ x ∈ sessions', CameIn (history ++ [e]) x.1 x.2 := by
  intro x hx
  cases h with
  | idle hout => exact (hcame x hx).append (hout x.1)
  | signIn u address hin hnot hout =>
    rcases List.mem_append.mp hx with hx | hx
    · exact (hcame x hx).append (hout x.1)
    · rw [List.mem_singleton.mp hx]
      exact ⟨history, e, [], rfl, hin, hnot, by simp⟩
  | signOut u hout =>
    obtain ⟨hx, hne⟩ := List.mem_filter.mp hx
    exact (hcame x hx).append (mt (hout x.1).mp (of_decide_eq_true hne))

/-! ### Reloading -/

lemma mem_foldl_addOnline (u : Str) (es : List (Str × Str × Str)) (m : Memory) :
    u ∈ (es.foldl Memory.addOnline m).online ↔ u ∈ es.map Prod.fst ∨ u ∈ m.online := by
  induction es generalizing m with
  | nil => simp
  | cons e es ih =>
    rw [List.foldl_cons, ih, Memory.addOnline, mem_setInsert_strLt, List.map_cons, List.mem_cons]
    tauto

lemma Memory.online_addGroup (m : Memory) (e : Str × Str) : (m.addGroup e).online = m.online := rfl

lemma Memory.online_addPending (m : Memory) (e : Str × Str) :
    (m.addPending e).online = m.online := rfl

lemma Memory.online_addCredential (m : Memory) (e : Str × Str) :
    (m.addCredential e).online = m.online := rfl

/-- The users that `FetchDetails` takes for online are those of the first fields. -/
lemma mem_online_reload {m m' : Memory} {d : Disk} (h : m.reload d = some m') (u : Str) :
    u ∈ m'.online ↔ ∃ l ∈ d.lines onlineFile, (split l ' ')[0]? = some u := by
  simp only [Memory.reload, Memory.load, Option.bind_eq_some_iff, Option.map_eq_some_iff] at h
  obtain ⟨online, honline, groups, -, rfl⟩ := h
  rw [foldl_keep Memory.online Memory.online_addPending,
    foldl_keep Memory.online Memory.online_addGroup, mem_foldl_addOnline,
    foldl_keep Memory.online Memory.online_addCredential]
  have hmem := mem_of_mapM honline
  constructor
  · rintro (hu | hu)
    · obtain ⟨e, he, rfl⟩ := List.mem_map.mp hu
      obtain ⟨l, hl, hfields⟩ := (hmem e).mp he
      simp only [onlineFields, Option.bind_eq_some_iff, Option.map_eq_some_iff] at hfields
      obtain ⟨v, hv, ip, -, port, -, rfl⟩ := hfields
      exact ⟨l, hl, hv⟩
    · cases hu
  · rintro ⟨l, hl, hu⟩
    left
    obtain ⟨e, he⟩ := Option.ne_none_iff_exists'.mp (ne_none_of_mapM honline l hl)
    refine List.mem_map.mpr ⟨e, (hmem e).mpr ⟨l, hl, he⟩, ?_⟩
    simp only [onlineFields, Option.bind_eq_some_iff, Option.map_eq_some_iff] at he
    obtain ⟨v, hv, ip, -, port, -, rfl⟩ := he
    rw [hv] at hu
    exact Option.some.inj hu

section Follows

variable {hashPassword : Str → Str → Str} {history : List Exchange}
  {sessions : List (Str × Str × Str)} {d d' : Disk} {e : Exchange}

lemma Account.storedSalt_credential {a : Account} (ha : IsHex a.salt) :
    storedSalt (a.credential hashPassword) = a.salt := by
  rw [storedSalt, Account.credential, List.append_assoc,
    List.takeWhile_append_of_pos ha.ne_colon]
  simp

lemma Account.storedHash_credential {a : Account} (ha : IsHex a.salt) :
    storedHash (a.credential hashPassword) = hashPassword a.salt a.password := by
  have hcolon : ':' ∈ a.credential hashPassword := by simp [Account.credential]
  rw [storedHash, if_pos hcolon, Account.credential, List.append_assoc,
    List.dropWhile_append_of_pos ha.ne_colon]
  simp

lemma isToken_credential (hhash : ∀ salt p, IsHex (hashPassword salt p)) {a : Account}
    (ha : IsHex a.salt) : IsToken (a.credential hashPassword) := by
  refine ⟨fun c hc => ?_, by simp [Account.credential]⟩
  simp only [Account.credential, List.mem_append, List.mem_singleton] at hc
  rcases hc with (hc | rfl) | hc
  · exact ha.isWord c hc
  · rfl
  · exact (hhash a.salt a.password).isWord c hc

/-- What is looked up in the table of credentials. -/
lemma Follows.credential_iff (hhash : ∀ salt p, IsHex (hashPassword salt p))
    (h : Follows hashPassword history sessions d) (u v : Str) :
    d.credential u = some v ↔
      ∃ a ∈ accountsOf history, a.user = u ∧ a.credential hashPassword = v := by
  have htokens : ∀ p ∈ (accountsOf history).map (fun a => (a.user, a.credential hashPassword)),
      IsToken p.1 ∧ IsToken p.2 := by
    intro p hp
    obtain ⟨a, ha, rfl⟩ := List.mem_map.mp hp
    exact ⟨(h.tokens a ha).1, isToken_credential hhash (h.tokens a ha).2⟩
  have hkeys : (((accountsOf history).map fun a =>
      (a.user, a.credential hashPassword)).map Prod.fst).Nodup := by
    rw [List.map_map]
    exact h.different
  rw [Disk.credential, credentialsOf, h.credential, readPairs_fields htokens,
    lookup_foldl_tableSet_iff hkeys]
  simp

/-- Nobody is called like a user who has no credential. -/
lemma Follows.not_mem_users (hhash : ∀ salt p, IsHex (hashPassword salt p))
    (h : Follows hashPassword history sessions d) {u : Str} (hu : d.credential u = none) :
    u ∉ (accountsOf history).map Account.user := by
  intro hmem
  obtain ⟨a, ha, rfl⟩ := List.mem_map.mp hmem
  have hsome := (h.credential_iff hhash a.user (a.credential hashPassword)).mpr ⟨a, ha, rfl, rfl⟩
  rw [hu] at hsome
  cases hsome

/-- Who has no credential is not signed in. -/
lemma Follows.not_signedIn (hhash : ∀ salt p, IsHex (hashPassword salt p))
    (h : Follows hashPassword history sessions d) {u : Str} (hu : d.credential u = none) :
    ¬ SignedIn history u :=
  fun hin => h.not_mem_users hhash hu (h.registered u ((h.signedIn u).mpr hin))

lemma Follows.onlineFields (h : Follows hashPassword history sessions d) :
    ∀ l ∈ d.lines onlineFile, onlineFields (split l ' ') ≠ none := by
  rw [h.online]
  intro l hl
  obtain ⟨e, he, rfl⟩ := List.mem_map.mp hl
  rw [split_onlineRecord (h.words e he)]
  exact Option.some_ne_none _

/-- Tables can be loaded from the files. -/
lemma Follows.reload (h : Follows hashPassword history sessions d) (m : Memory) :
    ∃ m', m.reload d = some m' := by
  obtain ⟨online, honline⟩ := Option.ne_none_iff_exists'.mp (mapM_ne_none h.onlineFields)
  obtain ⟨groups, hgroups⟩ := Option.ne_none_iff_exists'.mp (mapM_ne_none h.groups)
  rw [Memory.reload, Memory.load, honline, hgroups]
  exact ⟨_, rfl⟩

/-- The table of the users who are online. -/
lemma Follows.mem_online (h : Follows hashPassword history sessions d) {m m' : Memory}
    (hm : m.reload d = some m') (u : Str) : u ∈ m'.online ↔ SignedIn history u := by
  rw [mem_online_reload hm, h.online, ← h.signedIn]
  constructor
  · rintro ⟨l, hl, hu⟩
    obtain ⟨e, he, rfl⟩ := List.mem_map.mp hl
    rw [← hasField_iff, hasField_onlineRecord (h.words e he)] at hu
    exact List.mem_map.mpr ⟨e, he, hu⟩
  · intro hu
    obtain ⟨e, he, rfl⟩ := List.mem_map.mp hu
    refine ⟨onlineRecord e, List.mem_map_of_mem he, ?_⟩
    rw [← hasField_iff, hasField_onlineRecord (h.words e he)]

/-- The files of a tracker that has not processed anything. -/
lemma follows_initial : Follows hashPassword [] [] Tracker.initial.disk := by
  constructor
  · exact Tracker.initial_regular.tidy
  · intro l hl
    cases hl
  · rfl
  · simp [accountsOf]
  · exact List.nodup_nil
  · rfl
  · simp
  · exact List.nodup_nil
  · simp
  · simp [not_signedIn_nil]

/-- An exchange that neither signs in or out nor creates an account. -/
lemma Follows.idle (h : Follows hashPassword history sessions d)
    (hin : ∀ u, e.SignsIn u → SignedIn history u) (hout : ∀ u, ¬ e.SignsOut u)
    (haccount : e.account = none) (htidy : d'.Tidy)
    (hgroups : ∀ l ∈ d'.lines groupFile, groupFields (split l ' ') ≠ none)
    (hcredential : d'.lines credentialFile = d.lines credentialFile)
    (honline : d'.lines onlineFile = d.lines onlineFile) :
    Follows hashPassword (history ++ [e]) sessions d' := by
  have haccounts : accountsOf (history ++ [e]) = accountsOf history := by
    rw [accountsOf_append, haccount]
    exact List.append_nil _
  have hsigned : ∀ u, SignedIn (history ++ [e]) u ↔ SignedIn history u := by
    intro u
    rw [signedIn_append_iff]
    exact ⟨fun hu => hu.elim (hin u) And.left, fun hu => Or.inr ⟨hu, hout u⟩⟩
  constructor
  · exact htidy
  · exact hgroups
  · rw [hcredential, haccounts]
    exact h.credential
  · rw [haccounts]
    exact h.tokens
  · rw [haccounts]
    exact h.different
  · rw [honline]
    exact h.online
  · exact h.words
  · exact h.single
  · rw [haccounts]
    exact h.registered
  · intro u
    rw [hsigned]
    exact h.signedIn u

/-- A user who is not online signs in. -/
lemma Follows.signIn (h : Follows hashPassword history sessions d) {u ip port : Str}
    (hwords : IsWord u ∧ IsWord ip ∧ IsWord port) (hnot : ¬ SignedIn history u)
    (hin : ∀ v, e.SignsIn v ↔ v = u) (hout : ∀ v, ¬ e.SignsOut v)
    (haccount : e.account = none) (hregistered : u ∈ (accountsOf history).map Account.user)
    (hedited : d.Edited [addLine onlineFile (fields [u, ip, port])] d') :
    Follows hashPassword (history ++ [e]) (sessions ++ [(u, ip, port)]) d' := by
  have haccounts : accountsOf (history ++ [e]) = accountsOf history := by
    rw [accountsOf_append, haccount]
    exact List.append_nil _
  have honline : d'.lines onlineFile = d.lines onlineFile ++ [fields [u, ip, port]] :=
    hedited.lines_of_one (b := []) (by decide) rfl (by simp) (by simp)
  constructor
  · exact hedited.tidy
  · rw [hedited.lines_of_kind (by simp)]
    exact h.groups
  · rw [hedited.lines_of_kind (by simp), haccounts]
    exact h.credential
  · rw [haccounts]
    exact h.tokens
  · rw [haccounts]
    exact h.different
  · rw [honline, h.online, List.map_append]
    rfl
  · intro x hx
    rcases List.mem_append.mp hx with hx | hx
    · exact h.words x hx
    · rw [List.mem_singleton.mp hx]
      exact hwords
  · rw [List.map_append, List.nodup_append]
    refine ⟨h.single, by simp, ?_⟩
    rintro v hv w hw rfl
    simp only [List.map_cons, List.map_nil, List.mem_singleton] at hw
    subst hw
    exact hnot ((h.signedIn v).mp hv)
  · intro v hv
    rw [haccounts]
    rw [List.map_append, List.mem_append] at hv
    rcases hv with hv | hv
    · exact h.registered v hv
    · simp only [List.map_cons, List.map_nil, List.mem_singleton] at hv
      subst hv
      exact hregistered
  · intro v
    rw [List.map_append, List.mem_append, signedIn_append_iff, h.signedIn, hin]
    simp [hout, or_comm]

/-- A user signs out. -/
lemma Follows.signOut (h : Follows hashPassword history sessions d) {u : Str}
    (hin : ∀ v, ¬ e.SignsIn v) (hout : ∀ v, e.SignsOut v ↔ v = u) (haccount : e.account = none)
    (hedited : d.Edited [dropLines onlineFile (hasField 0 u)] d') :
    Follows hashPassword (history ++ [e]) (sessions.filter fun x => x.1 ≠ u) d' := by
  have haccounts : accountsOf (history ++ [e]) = accountsOf history := by
    rw [accountsOf_append, haccount]
    exact List.append_nil _
  have honline : d'.lines onlineFile = (d.lines onlineFile).filter (!hasField 0 u ·) :=
    hedited.lines_of_one (b := []) (by decide) rfl (by simp) (by simp)
  constructor
  · exact hedited.tidy
  · rw [hedited.lines_of_kind (by simp)]
    exact h.groups
  · rw [hedited.lines_of_kind (by simp), haccounts]
    exact h.credential
  · rw [haccounts]
    exact h.tokens
  · rw [haccounts]
    exact h.different
  · rw [honline, h.online, List.filter_map]
    congr 1
    apply List.filter_congr
    intro x hx
    have hfield := hasField_onlineRecord (h.words x hx) u
    by_cases hxu : x.1 = u
    · simp [hxu, hfield.mpr hxu]
    · simp [hxu, Bool.eq_false_iff.mpr fun ht => hxu (hfield.mp ht)]
  · exact fun x hx => h.words x (List.mem_of_mem_filter hx)
  · exact h.single.sublist (List.filter_sublist.map _)
  · intro v hv
    rw [haccounts]
    obtain ⟨x, hx, rfl⟩ := List.mem_map.mp hv
    exact h.registered _ (List.mem_map_of_mem (List.mem_of_mem_filter hx))
  · intro v
    rw [signedIn_append_iff, hout, ← h.signedIn]
    simp only [hin, false_or, List.mem_map, List.mem_filter, decide_eq_true_eq]
    constructor
    · rintro ⟨x, ⟨hx, hne⟩, rfl⟩
      exact ⟨⟨x, hx, rfl⟩, hne⟩
    · rintro ⟨⟨x, hx, rfl⟩, hne⟩
      exact ⟨x, ⟨hx, hne⟩, rfl⟩

/-- A new account. Its user is online at once. -/
lemma Follows.create (hhash : ∀ salt p, IsHex (hashPassword salt p))
    (h : Follows hashPassword history sessions d) {a : Account} {ip port : Str}
    (hwords : IsWord ip ∧ IsWord port) (htoken : IsToken a.user) (hsalt : IsHex a.salt)
    (hin : ∀ v, e.SignsIn v ↔ v = a.user) (hout : ∀ v, ¬ e.SignsOut v)
    (haccount : e.account = some a) (hnew : d.credential a.user = none)
    (hedited : d.Edited [addLine onlineFile (fields [a.user, ip, port]),
      addLine credentialFile (fields [a.user, a.credential hashPassword]),
      setLines (userFilesFile a.user) [], setLines (downloadingFile a.user) [],
      setLines (downloadedFile a.user) []] d') :
    Follows hashPassword (history ++ [e]) (sessions ++ [(a.user, ip, port)]) d' := by
  have haccounts : accountsOf (history ++ [e]) = accountsOf history ++ [a] := by
    rw [accountsOf_append, haccount]
    rfl
  have hfresh := h.not_mem_users hhash hnew
  obtain ⟨honline, hcredential⟩ := hedited.account_lines
  constructor
  · exact hedited.tidy
  · rw [hedited.lines_of_kind (by simp)]
    exact h.groups
  · rw [hcredential, h.credential, haccounts]
    simp
  · intro b hb
    rw [haccounts] at hb
    rcases List.mem_append.mp hb with hb | hb
    · exact h.tokens b hb
    · rw [List.mem_singleton.mp hb]
      exact ⟨htoken, hsalt⟩
  · rw [haccounts, List.map_append, List.nodup_append]
    refine ⟨h.different, by simp, ?_⟩
    rintro v hv w hw rfl
    rw [List.map_singleton, List.mem_singleton] at hw
    exact hfresh (hw ▸ hv)
  · rw [honline, h.online, List.map_append]
    rfl
  · intro x hx
    rcases List.mem_append.mp hx with hx | hx
    · exact h.words x hx
    · rw [List.mem_singleton.mp hx]
      exact ⟨htoken.1, hwords⟩
  · rw [List.map_append, List.nodup_append]
    refine ⟨h.single, by simp, ?_⟩
    rintro v hv w hw rfl
    rw [List.map_singleton, List.mem_singleton] at hw
    have hv' := h.registered v hv
    rw [hw] at hv'
    exact hfresh hv'
  · intro v hv
    rw [haccounts, List.map_append]
    rw [List.map_append, List.map_singleton] at hv
    rcases List.mem_append.mp hv with hv | hv
    · exact List.mem_append_left _ (h.registered v hv)
    · exact List.mem_append_right _ hv
  · intro v
    rw [List.map_append, List.mem_append, signedIn_append_iff, h.signedIn, hin]
    simp [hout, or_comm]

end Follows

/-! ### The handlers -/

section Handlers

variable {hashPassword : Str → Str → Str} {s s' : Session} {m : Memory} {b : Bool}

/-- The test of `UserLogin`. -/
def passes (hashPassword : Str → Str → Str) (m : Memory) (user password : Str) : Bool :=
  (m.credentials.lookup user).any fun stored =>
    hashPassword (storedSalt stored) password = storedHash stored

variable (hashPassword) in
/-- `login` returns, and it enters a user who is not online if the password passes. -/
lemma run_userLogin_of_reload (hm : s.memory.reload s.disk = some m) (u p port ip : Str) :
    ∃ s', (userLogin hashPassword u p port ip).run callInterp s =
        some (passes hashPassword m u p, s') ∧
      s'.disk = if passes hashPassword m u p = true ∧ u ∉ m.online then
        s.disk.reloaded.append onlineFile (putline (fields [u, ip, port]))
      else s.disk.reloaded := by
  have hopen : openable (cStr onlineFile) = true := rfl
  rw [userLogin, run_fetchDetails_bind, hm, Option.bind_some, run_memory_bind,
    Session.memory_setMemory]
  cases hstored : m.credentials.lookup u with
  | none =>
    have hpasses : passes hashPassword m u p = false := by
      rw [passes, hstored]
      rfl
    exact ⟨_, by rw [hpasses]; rfl, by simp [hpasses]⟩
  | some stored =>
    by_cases hpassword : hashPassword (storedSalt stored) p = storedHash stored
    · have hpasses : passes hashPassword m u p = true := by
        rw [passes, hstored, Option.any_some, decide_eq_true hpassword]
      simp only [if_pos hpassword, hpasses, true_and]
      rw [run_memory_bind, Session.memory_setMemory]
      by_cases honline : u ∈ m.online
      · exact ⟨_, by rw [if_neg (not_not.mpr honline)]; rfl, by simp [honline]⟩
      · rw [if_pos honline, if_pos honline, run_modify_bind, run_lock_bind, run_append_bind,
          run_unlock_bind]
        generalize hs₁ : (Session.setMemory _ _).setDisk _ = s₁
        have hdisk : s₁.disk =
            s.disk.reloaded.append onlineFile (putline (fields [u, ip, port])) := by
          rw [← hs₁]
          rfl
        -- the file has just been written, and so it can be sent
        have hread : s₁.disk.read onlineFile ≠ none := by
          rw [hdisk]
          exact Disk.read_append_ne_none _ (Or.inr ⟨rfl, hopen⟩)
        obtain ⟨sent, hsent⟩ :=
          run_sync_of_read (fun _ => (pure true : Prog callSig Bool)) hread
        exact ⟨_, hsent, hdisk⟩
    · have hpasses : passes hashPassword m u p = false := by
        rw [passes, hstored, Option.any_some, decide_eq_false hpassword]
      simp only [if_neg hpassword, hpasses]
      exact ⟨_, rfl, by simp⟩

/-- `logout` takes a user out who is online. -/
lemma run_logout_of_reload (hm : s.memory.reload s.disk = some m) (ht : s.disk.Tidy) {u : Str}
    (h : (logout u).run callInterp s = some (b, s')) :
    (b = true ∧ u ∈ m.online ∧ s.disk.Edited [dropLines onlineFile (hasField 0 u)] s'.disk) ∨
      (b = false ∧ u ∉ m.online ∧ s.disk.Edited [] s'.disk) := by
  have hstart : s.disk.Edited [] s.disk.reloaded :=
    (Disk.Edited.nil ht).of_text s.disk.text_reloaded
  rw [logout, run_fetchDetails_bind, hm, Option.bind_some, run_memory_bind,
    Session.memory_setMemory] at h
  split_ifs at h with honline
  · obtain ⟨s₂, hedited, -, h⟩ := of_run_deleteLine h hstart.tidy onlineFile_ne_temp
    obtain ⟨_, h⟩ := of_run_sync h
    obtain ⟨s₃, htext, -, -, -, h⟩ := of_run_fetchDetails h
    cases h
    exact Or.inl ⟨rfl, honline, (hstart.trans hedited).of_text htext⟩
  · cases h
    exact Or.inr ⟨rfl, honline, hstart⟩

end Handlers

/-! ### Runs -/

section Runs

variable {hashPassword : Str → Str → Str} {history : List Exchange}
  {sessions : List (Str × Str × Str)} {t t' : Tracker} {c : Command} {salt : Str} {reply : Reply}
  {online : Bool} {sent : List (Path × Str)}

lemma flag_eq_accepted (b : Bool) : flag b = some ['1'] ↔ b = true := by
  cases b <;> simp [flag]

variable (online salt) in
/-- The reply to `login`, and what it leaves. -/
lemma serve_login (h : Follows hashPassword history sessions t.disk) (u p port ip : Str) :
    ∃ m t' sent, t.memory.reload t.disk = some m ∧
      serve hashPassword t online salt (.login u p port ip) =
        some (flag (passes hashPassword m u p), t', sent) ∧
      t'.disk = if passes hashPassword m u p = true ∧ u ∉ m.online then
        t.disk.reloaded.append onlineFile (putline (fields [u, ip, port]))
      else t.disk.reloaded := by
  obtain ⟨m, hm⟩ := h.reload t.memory
  obtain ⟨s', hrun, hdisk⟩ :=
    run_userLogin_of_reload hashPassword (s := ⟨t, salt, online, []⟩) hm u p port ip
  refine ⟨m, s'.tracker, s'.sent, hm, ?_, hdisk⟩
  rw [serve, trackerKernel, answer, Prog.run_bind, hrun]
  rfl

/-- A user with a credential is one of those that have been created. -/
lemma Follows.mem_users_of_passes (hhash : ∀ salt p, IsHex (hashPassword salt p))
    (h : Follows hashPassword history sessions t.disk) {m : Memory}
    (hm : t.memory.reload t.disk = some m) {u p : Str}
    (hpasses : passes hashPassword m u p = true) :
    u ∈ (accountsOf history).map Account.user := by
  rw [passes, Option.any_eq_true, credentials_reload hm] at hpasses
  obtain ⟨stored, hstored, -⟩ := hpasses
  obtain ⟨a, ha, rfl, -⟩ := (h.credential_iff hhash u stored).mp hstored
  exact List.mem_map_of_mem ha

lemma Follows.login (hhash : ∀ salt p, IsHex (hashPassword salt p))
    (h : Follows hashPassword history sessions t.disk) {u p port ip : Str}
    (hwords : IsWord u ∧ IsWord ip ∧ IsWord port)
    (hserve : serve hashPassword t online salt (.login u p port ip) = some (reply, t', sent)) :
    ∃ sessions', Follows hashPassword (history ++ [⟨.login u p port ip, salt, reply⟩]) sessions'
      t'.disk ∧ SessionStep history sessions ⟨.login u p port ip, salt, reply⟩ sessions' := by
  obtain ⟨m, t₁, sent₁, hm, hserve₁, hdisk⟩ := serve_login salt online h u p port ip
  rw [hserve₁] at hserve
  cases hserve
  have hstart : t.disk.Edited [] t.disk.reloaded :=
    (Disk.Edited.nil h.tidy).of_text t.disk.text_reloaded
  have hout : ∀ v, ¬ Exchange.SignsOut
      ⟨.login u p port ip, salt, flag (passes hashPassword m u p)⟩ v := by
    simp [Exchange.SignsOut]
  have hin : ∀ v, Exchange.SignsIn ⟨.login u p port ip, salt, flag (passes hashPassword m u p)⟩ v ↔
      passes hashPassword m u p = true ∧ v = u := by
    intro v
    simp only [Exchange.SignsIn, flag_eq_accepted]
    constructor
    · rintro ⟨hp, _, _, _, heq | heq⟩
      · cases heq
        exact ⟨hp, rfl⟩
      · cases heq
    · rintro ⟨hp, rfl⟩
      exact ⟨hp, p, port, ip, Or.inl rfl⟩
  split_ifs at hdisk with hnew
  · have hedited : t.disk.Edited [addLine onlineFile (fields [u, ip, port])] t'.disk := by
      rw [hdisk]
      exact hstart.trans (Disk.edited_append hstart.tidy onlineFile_ne_temp
        (newline_fields (by simp [hwords])))
    have hnot : ¬ SignedIn history u := by
      rw [← h.mem_online hm]
      exact hnew.2
    refine ⟨_, h.signIn hwords hnot (fun v => ?_) hout rfl (h.mem_users_of_passes hhash hm hnew.1)
      hedited, .signIn u (ip, port) ⟨?_, p, Or.inl rfl⟩ hnot hout⟩
    · rw [hin]
      simp [hnew.1]
    · rw [hnew.1]
      rfl
  · have hlines : ∀ q, t'.disk.lines q = t.disk.lines q := by
      intro q
      rw [hdisk, Disk.lines, Disk.text_reloaded]
      rfl
    refine ⟨sessions, h.idle (fun v hv => ?_) hout rfl (hdisk ▸ hstart.tidy) ?_ (hlines _)
      (hlines _), .idle hout⟩
    · obtain ⟨hp, rfl⟩ := (hin v).mp hv
      rw [← h.mem_online hm]
      by_contra hnot
      exact hnew ⟨hp, hnot⟩
    · rw [hlines]
      exact h.groups

lemma Follows.logout (h : Follows hashPassword history sessions t.disk) {u : Str}
    (hserve : serve hashPassword t online salt (.logout u) = some (reply, t', sent)) :
    ∃ sessions', Follows hashPassword (history ++ [⟨.logout u, salt, reply⟩]) sessions'
      t'.disk ∧ SessionStep history sessions ⟨.logout u, salt, reply⟩ sessions' := by
  simp only [serve, Option.map_eq_some_iff, Prod.mk.injEq] at hserve
  obtain ⟨⟨r, s⟩, hrun, rfl, rfl, -⟩ := hserve
  obtain ⟨b, hlogout, rfl⟩ := run_answer hrun
  obtain ⟨m, hm⟩ := h.reload t.memory
  have hin : ∀ v, ¬ Exchange.SignsIn ⟨.logout u, salt, flag b⟩ v := by
    rintro v ⟨-, _, _, _, heq | heq⟩
    · cases heq
    · cases heq
  rcases run_logout_of_reload (s := ⟨t, salt, online, []⟩) hm h.tidy hlogout with
    ⟨rfl, -, hedited⟩ | ⟨rfl, -, hedited⟩
  · have hout : ∀ v, Exchange.SignsOut ⟨.logout u, salt, flag true⟩ v ↔ v = u := by
      simp [Exchange.SignsOut, flag, eq_comm]
    exact ⟨_, h.signOut hin hout rfl hedited, .signOut u hout⟩
  · have hlines : ∀ q, s.tracker.disk.lines q = t.disk.lines q :=
      fun q => hedited.lines_of_ne (by simp)
    have hout : ∀ v, ¬ Exchange.SignsOut ⟨.logout u, salt, flag false⟩ v := by
      simp [Exchange.SignsOut, flag]
    refine ⟨sessions, h.idle (fun v hv => absurd hv (hin v)) hout rfl hedited.tidy ?_ (hlines _)
      (hlines _), .idle hout⟩
    simp only [hlines]
    exact h.groups

/-- The commands whose edits are not of the credentials and not of the list of users online. -/
lemma Effect.spares {hp : Str → Str → Str} {es : List (Edit Path Str)}
    (h : Effect hp salt t c reply es) (hlogin : ∀ u p port ip, c ≠ .login u p port ip)
    (hcreate : ∀ u p port ip, c ≠ .createUser u p port ip) (hlogout : ∀ u, c ≠ .logout u) :
    ∀ e ∈ es, kindOf e.key ≠ .credential ∧ kindOf e.key ≠ .online := by
  cases h with
  | login u p port ip => exact absurd rfl (hlogin u p port ip)
  | createUser u p port ip => exact absurd rfl (hcreate u p port ip)
  | logout u => exact absurd rfl (hlogout u)
  | _ => simp

lemma Effect.spares_group {hp : Str → Str → Str} {es : List (Edit Path Str)}
    (h : Effect hp salt t c reply es) (hgroup : ∀ g u, c ≠ .createGroup g u) :
    ∀ e ∈ es, kindOf e.key ≠ .group := by
  cases h with
  | createGroup g u => exact absurd rfl (hgroup g u)
  | _ => simp

/-- A line of `.group.txt` is an old one or that of a group which is created. -/
lemma Effect.groupFields {hp : Str → Str → Str} {es : List (Edit Path Str)} {d : Disk}
    (hwords : ∀ w ∈ c.args, IsWord w) (h : Effect hp salt t c reply es)
    (hedited : t.disk.Edited es d)
    (hgroups : ∀ l ∈ t.disk.lines groupFile, groupFields (split l ' ') ≠ none) :
    ∀ l ∈ d.lines groupFile, groupFields (split l ' ') ≠ none := by
  by_cases hcreate : ∃ g u, c = .createGroup g u
  · obtain ⟨g, u, rfl⟩ := hcreate
    intro l hl
    rcases hedited.of_mem hl with ⟨e, he, hk, hadd⟩ | ⟨hold, -⟩
    · have hkind := congrArg kindOf hk
      cases h with
      | refused => cases he
      | quiet _ _ _ hgroup => cases he
      | createGroup _ _ hnew =>
        simp only [List.mem_cons, List.not_mem_nil, or_false] at he
        rcases he with rfl | rfl | rfl
        · obtain rfl : l = fields [g, u] := by simpa using hadd
          rw [split_fields (by simp) (by simp [(hwords g (by simp [Command.args])).blank,
            (hwords u (by simp [Command.args])).blank])]
          exact Option.some_ne_none _
        · simp at hkind
        · simp at hkind
    · exact hgroups l hold
  · simp only [not_exists] at hcreate
    rw [hedited.lines_of_kind fun e he => by
      rw [kindOf_groupFile]
      exact h.spares_group hcreate e he]
    exact hgroups

/-- The step lemma. -/
lemma Follows.step (hhash : ∀ salt p, IsHex (hashPassword salt p))
    (h : Follows hashPassword history sessions t.disk) (hwords : ∀ w ∈ c.args, IsToken w)
    (hsalt : IsHex salt) (hserve : serve hashPassword t online salt c = some (reply, t', sent)) :
    ∃ sessions', Follows hashPassword (history ++ [⟨c, salt, reply⟩]) sessions' t'.disk ∧
      SessionStep history sessions ⟨c, salt, reply⟩ sessions' := by
  by_cases hlogin : ∃ u p port ip, c = .login u p port ip
  · obtain ⟨u, p, port, ip, rfl⟩ := hlogin
    exact h.login hhash ⟨(hwords u (by simp [Command.args])).1,
      (hwords ip (by simp [Command.args])).1, (hwords port (by simp [Command.args])).1⟩ hserve
  by_cases hlogout : ∃ u, c = .logout u
  · obtain ⟨u, rfl⟩ := hlogout
    exact h.logout hserve
  simp only [not_exists] at hlogin hlogout
  simp only [serve, Option.map_eq_some_iff, Prod.mk.injEq] at hserve
  obtain ⟨⟨r, s⟩, hrun, rfl, rfl, -⟩ := hserve
  obtain ⟨es, heffect, hmakes⟩ := trackerKernel_effect (fun w hw => (hwords w hw).1)
    (s := ⟨t, salt, online, []⟩) hsalt.isWord (fun salt p => (hhash salt p).isWord) h.tidy hrun
  have hedited : t.disk.Edited es s.tracker.disk := hmakes.edited
  have hgroups := heffect.groupFields (fun w hw => (hwords w hw).1) hedited h.groups
  have hout : ∀ v, ¬ Exchange.SignsOut ⟨c, salt, r⟩ v := by
    rintro v ⟨-, heq⟩
    exact hlogout v heq
  have hidle : (∀ u p port ip, c ≠ .createUser u p port ip) ∨ r ≠ some ['1'] →
      (∀ e ∈ es, kindOf e.key ≠ .credential ∧ kindOf e.key ≠ .online) →
      ∃ sessions', Follows hashPassword (history ++ [⟨c, salt, r⟩]) sessions' s.tracker.disk ∧
        SessionStep history sessions ⟨c, salt, r⟩ sessions' := by
    intro hnot hspares
    refine ⟨sessions, h.idle ?_ hout ?_ hedited.tidy hgroups (hedited.lines_of_kind ?_)
      (hedited.lines_of_kind ?_), .idle hout⟩
    · rintro v ⟨hreply, p, port, ip, heq | heq⟩
      · exact absurd heq (hlogin v p port ip)
      · rcases hnot with hnot | hnot
        · exact absurd heq (hnot v p port ip)
        · exact absurd hreply hnot
    · cases haccount : Exchange.account ⟨c, salt, r⟩ with
      | none => rfl
      | some a =>
        obtain ⟨port, ip, heq, hreply, -⟩ := Exchange.account_eq_some.mp haccount
        rcases hnot with hnot | hnot
        · exact absurd heq (hnot _ _ port ip)
        · exact absurd hreply hnot
    · rw [kindOf_credentialFile]
      exact fun e he => (hspares e he).1
    · rw [kindOf_onlineFile]
      exact fun e he => (hspares e he).2
  by_cases hcreate : ∃ u p port ip, c = .createUser u p port ip
  · obtain ⟨u, p, port, ip, rfl⟩ := hcreate
    cases heffect with
    | refused => exact hidle (Or.inr (by simp)) (by simp)
    | quiet _ _ huser => exact absurd rfl (huser u p port ip)
    | createUser _ _ _ _ hnew =>
      refine ⟨_, h.create hhash (a := ⟨u, p, salt⟩) ⟨(hwords ip (by simp [Command.args])).1,
        (hwords port (by simp [Command.args])).1⟩ (hwords u (by simp [Command.args])) hsalt
        (fun v => ?_) hout rfl hnew hedited,
        .signIn u (ip, port) ⟨rfl, p, Or.inr rfl⟩ (h.not_signedIn hhash hnew) hout⟩
      simp [Exchange.SignsIn, eq_comm]
  · simp only [not_exists] at hcreate
    exact hidle (Or.inl hcreate) (heffect.spares hlogin hcreate hlogout)

/-- The run lemma. -/
lemma ClientRun.follows (hhash : ∀ salt p, IsHex (hashPassword salt p))
    (h : ClientRun hashPassword history t) :
    ∃ sessions, Follows hashPassword history sessions t.disk ∧
      ∀ x ∈ sessions, CameIn history x.1 x.2 := by
  induction h with
  | start => exact ⟨[], follows_initial, by simp⟩
  | @step history t t' message salt c reply online sent hrun hmessage hargs hsalt hserve ih =>
    obtain ⟨sessions, hfollows, hcame⟩ := ih
    have hwords := Request.isWord_args hmessage
    obtain ⟨sessions', hfollows', hstep⟩ :=
      hfollows.step hhash (fun w hw => ⟨hwords w hw, hargs w hw⟩) hsalt hserve
    exact ⟨sessions', hfollows', hstep.cameIn hcame⟩

/-- `login` is answered, and it is accepted just with a password that has the hash of the one with
    which the user has been registered. -/
theorem login_accepts_registered (hhash : ∀ salt p, IsHex (hashPassword salt p))
    (hrun : ClientRun hashPassword history t) (u p port ip salt : Str) (online : Bool) :
    ∃ reply t' sent, serve hashPassword t online salt (.login u p port ip) =
        some (reply, t', sent) ∧
      (reply = some ['1'] ↔ ∃ e ∈ history, ∃ q port' ip',
        e.command = .createUser u q port' ip' ∧ e.reply = some ['1'] ∧
          hashPassword e.salt p = hashPassword e.salt q) := by
  obtain ⟨sessions, h, -⟩ := hrun.follows hhash
  obtain ⟨m, t', sent, hm, hserve, -⟩ := serve_login salt online h u p port ip
  refine ⟨_, t', sent, hserve, ?_⟩
  rw [flag_eq_accepted, passes, Option.any_eq_true, credentials_reload hm]
  have hlookup : ∀ stored, (credentialsOf (t.disk.lines credentialFile)).lookup u = some stored ↔
      ∃ a ∈ accountsOf history, a.user = u ∧ a.credential hashPassword = stored :=
    fun stored => h.credential_iff hhash u stored
  constructor
  · rintro ⟨stored, hstored, hpassword⟩
    obtain ⟨a, ha, rfl, rfl⟩ := (hlookup stored).mp hstored
    have hhex := (h.tokens a ha).2
    rw [decide_eq_true_eq, Account.storedSalt_credential hhex,
      Account.storedHash_credential hhex] at hpassword
    obtain ⟨e, he, haccount⟩ := List.mem_filterMap.mp ha
    obtain ⟨port', ip', hc, hreply, hsalt⟩ := Exchange.account_eq_some.mp haccount
    refine ⟨e, he, a.password, port', ip', hc, hreply, ?_⟩
    rw [hsalt]
    exact hpassword
  · rintro ⟨e, he, q, port', ip', hc, hreply, hpassword⟩
    have ha : ⟨u, q, e.salt⟩ ∈ accountsOf history :=
      List.mem_filterMap.mpr ⟨e, he, Exchange.account_eq_some.mpr ⟨port', ip', hc, hreply, rfl⟩⟩
    have hhex := (h.tokens _ ha).2
    refine ⟨_, (hlookup _).mpr ⟨_, ha, rfl, rfl⟩, ?_⟩
    rw [decide_eq_true_eq, Account.storedSalt_credential hhex,
      Account.storedHash_credential hhex]
    exact hpassword

/-- `.online.txt` has one line for each user who is signed in and none for anybody else, and
    `FetchDetails` takes just these users for online. -/
theorem online_follows_history (hhash : ∀ salt p, IsHex (hashPassword salt p))
    (hrun : ClientRun hashPassword history t) :
    (∀ u, SignedIn history u → ∃ ip port,
        (t.disk.lines onlineFile).filter (hasField 0 u) = [fields [u, ip, port]]) ∧
      (∀ l ∈ t.disk.lines onlineFile, ∃ u, (split l ' ')[0]? = some u ∧ SignedIn history u) ∧
      ∀ (online : Bool) (salt : Str), ∃ s : Session,
        fetchDetails.run callInterp ⟨t, salt, online, []⟩ = some ((), s) ∧
          ∀ u, u ∈ s.memory.online ↔ SignedIn history u := by
  obtain ⟨sessions, h, -⟩ := hrun.follows hhash
  refine ⟨fun u hu => ?_, fun l hl => ?_, fun online salt => ?_⟩
  · obtain ⟨⟨v, ip, port⟩, he, rfl⟩ := List.mem_map.mp ((h.signedIn u).mpr hu)
    refine ⟨ip, port, ?_⟩
    have hfields : ∀ x ∈ sessions, (hasField 0 v ∘ onlineRecord) x = decide (x.1 = v) := by
      intro x hx
      have hfield := hasField_onlineRecord (h.words x hx) v
      by_cases hxv : x.1 = v
      · simp [hxv, hfield.mpr hxv]
      · simp [hxv, Bool.eq_false_iff.mpr fun ht => hxv (hfield.mp ht)]
    rw [h.online, List.filter_map, List.filter_congr hfields, filter_fst_of_nodup h.single he]
    rfl
  · rw [h.online] at hl
    obtain ⟨e, he, rfl⟩ := List.mem_map.mp hl
    refine ⟨e.1, ?_, (h.signedIn e.1).mp (List.mem_map_of_mem he)⟩
    rw [← hasField_iff, hasField_onlineRecord (h.words e he)]
  · obtain ⟨m, hm⟩ := h.reload t.memory
    refine ⟨(Session.setDisk ⟨t, salt, online, []⟩ t.disk.reloaded).setMemory m, ?_, fun u => ?_⟩
    · rw [fetchDetails, Prog.run_call, callInterp_fetchDetails]
      show ((t.memory.reload t.disk).map _).bind _ = _
      rw [hm]
      rfl
    · rw [Session.memory_setMemory]
      exact h.mem_online hm u

end Runs

/-! ### One user -/

/-- A hash that tells passwords of different lengths apart. -/
def lengthHash (_ password : Str) : Str := List.replicate password.length 'a'

lemma isHex_lengthHash (salt p : Str) : IsHex (lengthHash salt p) := by
  intro c hc
  rw [List.eq_of_mem_replicate hc]
  decide

/-- The registration of a user. -/
def registration : Exchange :=
  ⟨.createUser "u".toList "pw".toList "1".toList "i".toList, "5e".toList, some ['1']⟩

lemma clientRun_registration : ∃ t, ClientRun lengthHash [registration] t := by
  have hserve : ((serve lengthHash .initial false "5e".toList registration.command).any fun r =>
      decide (r.1 = some ['1'])) = true := by
    decide +kernel
  obtain ⟨⟨reply, t, sent⟩, hserve, hreply⟩ := (Option.any_eq_true _ _).mp hserve
  obtain rfl : reply = some ['1'] := of_decide_eq_true hreply
  have hmessage : Request.parse "create_user u pw 1 i".toList = .client registration.command :=
    rfl
  exact ⟨t, .step .start hmessage (by simp [Command.args]) (by simp [IsHex]) hserve⟩

theorem login_accepts_registered_oneUser : ∃ t reply t' sent,
    ClientRun lengthHash [registration] t ∧
      serve lengthHash t true [] (.login "u".toList "pw".toList "2".toList "i".toList) =
        some (reply, t', sent) ∧ reply = some ['1'] := by
  obtain ⟨t, hrun⟩ := clientRun_registration
  obtain ⟨reply, t', sent, hserve, hreply⟩ := login_accepts_registered isHex_lengthHash hrun
    "u".toList "pw".toList "2".toList "i".toList [] true
  refine ⟨t, reply, t', sent, hrun, hserve, hreply.mpr ?_⟩
  exact ⟨registration, List.mem_singleton_self _, _, _, _, rfl, rfl, rfl⟩

theorem online_follows_history_oneUser : ∃ t ip port, ClientRun lengthHash [registration] t ∧
    (t.disk.lines onlineFile).filter (hasField 0 "u".toList) =
      [fields ["u".toList, ip, port]] := by
  obtain ⟨t, hrun⟩ := clientRun_registration
  obtain ⟨hone, -, -⟩ := online_follows_history isHex_lengthHash hrun
  have hin : registration.SignsIn "u".toList := ⟨rfl, _, _, _, Or.inr rfl⟩
  obtain ⟨ip, port, hline⟩ := hone "u".toList ⟨[], registration, [], rfl, hin, by simp⟩
  exact ⟨t, ip, port, hrun, hline⟩

end TorrentShare
