import TorrentShare.Tracker.Runs
import TorrentShare.Tracker.WellFormed

/-!
# Accounts and requests across reloads

Handlers join the fields of a record with one blank, and `FetchDetails` reads them back by stream
extraction, into variables that keep their values when an extraction fails. Records of two tokens
are read back as they were written.
-/

namespace TorrentShare

open Program

/-! ### Two tokens on a line -/

/-- What one extraction reads: a word of at least one character. -/
def IsToken (w : Str) : Prop := IsWord w ∧ w ≠ []

lemma IsToken.isspace_append {w : Str} (h : IsToken w) (rest : Str) :
    (w ++ rest).dropWhile isspace = w ++ rest := by
  obtain ⟨hw, hne⟩ := h
  cases w with
  | nil => exact absurd rfl hne
  | cons c w => simp [hw c (List.mem_cons_self ..)]

/-- A token that is followed by a blank, or by nothing. -/
lemma IsToken.extract_append {w r : Str} (h : IsToken w)
    (hrest : ∀ c ∈ r.head?, isspace c = true) : extract (w ++ r) = some (w, r) := by
  have hword : ∀ c ∈ w, (!isspace c) = true := fun c hc => by simp [h.1 c hc]
  have htake : r.takeWhile (!isspace ·) = [] := by
    cases r with
    | nil => rfl
    | cons c r => simp [hrest c rfl]
  have hdrop : r.dropWhile (!isspace ·) = r := by
    cases r with
    | nil => rfl
    | cons c r => simp [hrest c rfl]
  rw [extract, h.isspace_append, if_neg (by simp [h.2]), List.takeWhile_append_of_pos hword,
    List.dropWhile_append_of_pos hword, htake, hdrop, List.append_nil]

lemma extract_blank (s : Str) : extract (' ' :: s) = extract s := by
  have hblank : isspace ' ' = true := by decide
  rw [extract, extract, List.dropWhile_cons_of_pos hblank]

lemma fields_pair (a b : Str) : fields [a, b] = a ++ ' ' :: b := by
  simp [fields, List.intercalate]

/-- Two tokens joined by a blank are read back. -/
lemma extractPair_fields {a b : Str} (ha : IsToken a) (hb : IsToken b) (target : Str × Str) :
    extractPair target (fields [a, b]) = (a, b) := by
  have hfirst : extract (fields [a, b]) = some (a, ' ' :: b) := by
    rw [fields_pair]
    apply ha.extract_append
    simp [isspace]
  have hsecond : extract (' ' :: b) = some (b, []) := by
    have hb' := hb.extract_append (r := []) (by simp)
    rwa [List.append_nil, ← extract_blank] at hb'
  simp only [extractPair, hfirst, hsecond]

/-- Records of two tokens are read back, whatever the variables held before. -/
lemma readPairs_fields {ps : List (Str × Str)} (h : ∀ p ∈ ps, IsToken p.1 ∧ IsToken p.2)
    (target : Str × Str) : (readPairs target (ps.map fun p => fields [p.1, p.2])).1 = ps := by
  induction ps generalizing target with
  | nil => rfl
  | cons p ps ih =>
    rw [List.forall_mem_cons] at h
    rw [List.map_cons, readPairs, extractPair_fields h.1.1 h.1.2]
    exact congrArg (p :: ·) (ih h.2 _)

/-- A table that is filled with different keys. -/
lemma lookup_foldl_tableSet_iff {β : Type} {es t : List (Str × β)} (h : (es.map Prod.fst).Nodup)
    (k : Str) (v : β) : (es.foldl (fun t e => tableSet e.1 e.2 t) t).lookup k = some v ↔
      (k, v) ∈ es ∨ k ∉ es.map Prod.fst ∧ t.lookup k = some v := by
  induction es generalizing t with
  | nil => simp
  | cons e es ih =>
    obtain ⟨k', v'⟩ := e
    rw [List.map_cons, List.nodup_cons] at h
    rw [List.foldl_cons, ih h.2, lookup_tableSet]
    by_cases hk : k = k'
    · subst hk
      have hnot : (k, v) ∉ es := fun hmem => h.1 (List.mem_map.mpr ⟨_, hmem, rfl⟩)
      simp [hnot, h.1, eq_comm]
    · simp [hk]

/-! ### The table of requests -/

/-- The pairs that `FetchDetails` puts into `pending_group_requests`. -/
def Disk.requests (d : Disk) : List (Str × Str) :=
  (readPairs (readPairs ([], []) (d.lines credentialFile)).2 (d.lines pendingFile)).1

lemma mem_foldl_addPending (p : Str × Str) (es : List (Str × Str)) (m : Memory) :
    p ∈ (es.foldl Memory.addPending m).pendingGroupRequests ↔
      p ∈ es ∨ p ∈ m.pendingGroupRequests := by
  induction es generalizing m with
  | nil => simp
  | cons e es ih =>
    rw [List.foldl_cons, ih, Memory.addPending, mem_setInsert_pairLt, List.mem_cons]
    tauto

lemma Memory.pendingGroupRequests_addGroup (m : Memory) (e : Str × Str) :
    (m.addGroup e).pendingGroupRequests = m.pendingGroupRequests := rfl

lemma Memory.pendingGroupRequests_addOnline (m : Memory) (e : Str × Str × Str) :
    (m.addOnline e).pendingGroupRequests = m.pendingGroupRequests := rfl

lemma Memory.pendingGroupRequests_addCredential (m : Memory) (e : Str × Str) :
    (m.addCredential e).pendingGroupRequests = m.pendingGroupRequests := rfl

lemma mem_requests_reload {m m' : Memory} {d : Disk} (h : m.reload d = some m') (p : Str × Str) :
    p ∈ m'.pendingGroupRequests ↔ p ∈ d.requests := by
  simp only [Memory.reload, Memory.load, Option.bind_eq_some_iff, Option.map_eq_some_iff] at h
  obtain ⟨online, -, groups, -, rfl⟩ := h
  rw [mem_foldl_addPending,
    foldl_keep Memory.pendingGroupRequests Memory.pendingGroupRequests_addGroup,
    foldl_keep Memory.pendingGroupRequests Memory.pendingGroupRequests_addOnline,
    foldl_keep Memory.pendingGroupRequests Memory.pendingGroupRequests_addCredential]
  simp [Memory.clear, Disk.requests]

lemma Disk.requests_congr {d d' : Disk} (h : ∀ p, d'.text p = d.text p) :
    d'.requests = d.requests := by
  simp only [Disk.requests, Disk.lines, h]

section Handlers

variable {hashPassword : Str → Str → Str} {s s' : Session} {b : Bool}

/-- `FetchDetails` makes `pending_group_requests` what the files say. -/
lemma of_run_fetchDetails_requests {α : Type} {f : Unit → Prog callSig α} {r : α × Session}
    (h : (fetchDetails >>= f).run callInterp s = some r) :
    ∃ s₁ : Session, (∀ q, q ∈ s₁.memory.pendingGroupRequests ↔ q ∈ s₁.disk.requests) ∧
      (f ()).run callInterp s₁ = some r := by
  rw [run_fetchDetails_bind, Option.bind_eq_some_iff] at h
  obtain ⟨m, hm, h⟩ := h
  refine ⟨_, fun q => ?_, h⟩
  rw [Session.memory_setMemory, mem_requests_reload hm, Session.disk_setMemory,
    Session.disk_setDisk, Disk.requests_congr s.disk.text_reloaded]

/-- `create_user` leaves the requests that the files say. -/
lemma run_userCreate_requests {u p port ip : Str}
    (h : (userCreate hashPassword u p port ip).run callInterp s = some (b, s')) (q : Str × Str) :
    q ∈ s'.memory.pendingGroupRequests ↔ q ∈ s'.disk.requests := by
  obtain ⟨s₁, hrequests, h⟩ := of_run_fetchDetails_requests h
  rw [run_memory_bind] at h
  cases hstored : s₁.memory.credentials.lookup u with
  | some stored =>
    simp only [hstored] at h
    cases h
    exact hrequests q
  | none =>
    simp only [hstored] at h
    rw [run_lock_bind, run_modify_bind, run_append_bind, run_generateSalt_bind, run_append_bind,
      run_create_bind, run_create_bind, run_create_bind, run_unlock_bind] at h
    obtain ⟨_, h⟩ := of_run_sync h
    obtain ⟨_, h⟩ := of_run_sync h
    obtain ⟨_, h⟩ := of_run_sync h
    obtain ⟨_, h⟩ := of_run_sync h
    obtain ⟨_, h⟩ := of_run_sync h
    obtain ⟨s₂, hrequests', h⟩ := of_run_fetchDetails_requests h
    cases h
    exact hrequests' q

/-- `join_group` records the request, or it has nothing to record. -/
lemma run_groupJoin_requests {g u : Str}
    (h : (groupJoin g u).run callInterp s = some (b, s')) :
    (s'.disk = s.disk ∧ s'.memory.pendingGroupRequests = s.memory.pendingGroupRequests ∧
      (b = true → u ∉ s.disk.lines (membersFile g) →
        (u, g) ∈ s.memory.pendingGroupRequests)) ∨
    (b = true ∧ u ∉ s.disk.lines (membersFile g) ∧ s.memory.groups.lookup g ≠ none ∧
      s'.disk = s.disk.append pendingFile (putline (fields [u, g])) ∧
      ∀ q, q ∈ s'.memory.pendingGroupRequests ↔
        q = (u, g) ∨ q ∈ s.memory.pendingGroupRequests) := by
  rw [groupJoin, run_memory_bind] at h
  cases hgroup : s.memory.groups.lookup g with
  | none =>
    simp only [hgroup] at h
    cases h
    exact Or.inl ⟨rfl, rfl, by simp⟩
  | some o =>
    simp only [hgroup] at h
    rw [run_fetchGroupMembers_bind, run_memory_bind] at h
    have hmembers := s.disk.mem_members g u
    generalize hs₁ : s.setMemory { s.memory with groupMembers := s.disk.members g } = s₁ at h
    have hdisk : s₁.disk = s.disk := by rw [← hs₁, Session.disk_setMemory]
    have hmemory : s₁.memory = { s.memory with groupMembers := s.disk.members g } := by
      rw [← hs₁, Session.memory_setMemory]
    rw [← hdisk, show s.memory.pendingGroupRequests = s₁.memory.pendingGroupRequests by
      rw [hmemory]]
    rw [← hdisk, show s₁.disk.members g = s₁.memory.groupMembers by rw [hdisk, hmemory]]
      at hmembers
    split_ifs at h with hmember honline hpending
    · cases h
      exact Or.inl ⟨rfl, rfl, fun _ hnot => absurd (hmembers.mp hmember) hnot⟩
    · rw [run_modify_bind, run_lock_bind, run_append_bind, run_unlock_bind, run_modify_bind] at h
      obtain ⟨sent, h⟩ := of_run_sync h
      cases h
      refine Or.inr ⟨rfl, fun hu => hmember (hmembers.mpr hu), Option.some_ne_none o, rfl,
        fun q => ?_⟩
      exact mem_setInsert_pairLt (u, g) q _
    · obtain ⟨sent, h⟩ := of_run_sync h
      cases h
      exact Or.inl ⟨rfl, rfl, fun _ _ => hpending⟩
    · rw [run_lock_bind, run_append_bind, run_modify_bind, run_unlock_bind] at h
      obtain ⟨sent, h⟩ := of_run_sync h
      cases h
      refine Or.inr ⟨rfl, fun hu => hmember (hmembers.mpr hu), Option.some_ne_none o, rfl,
        fun q => ?_⟩
      exact mem_setInsert_pairLt (u, g) q _

end Handlers

/-! ### Runs -/

/-- An account: the user, the password given and the salt drawn. -/
structure Account where
  user : Str
  password : Str
  salt : Str

/-- What is stored of a password. -/
def Account.stored (sha256 : Str → List (Fin 256)) (a : Account) : Str :=
  a.salt ++ [':'] ++ hashPassword sha256 a.salt a.password

/-- The users and passwords that `create_user` has accepted. -/
def createdAccounts (history : List (Command × Reply)) : List (Str × Str) :=
  history.filterMap fun e =>
    match e with
    | (.createUser u p _ _, some ['1']) => some (u, p)
    | _ => none

lemma createdAccounts_append (history : List (Command × Reply)) (e : Command × Reply) :
    createdAccounts (history ++ [e]) = createdAccounts history ++ createdAccounts [e] :=
  List.filterMap_append ..

/-- Accounts are created and requests made, and what is recorded has names. -/
def NamesGiven (t : Tracker) : Command → Prop
  | .createUser u _ _ _ => u ≠ []
  | .joinGroup g u => t.memory.groups.lookup g ≠ none → u ∉ t.disk.lines (membersFile g) →
      u ≠ [] ∧ g ≠ []
  | _ => False

/-- A tracker without accounts and requests. There may be groups. -/
structure Tracker.Fresh (t : Tracker) : Prop where
  accounts : t.disk.lines credentialFile = []
  pending : t.disk.lines pendingFile = []
  requests : t.memory.pendingGroupRequests = []
  online : ∀ l ∈ t.disk.lines onlineFile, onlineFields (split l ' ') ≠ none
  groups : ∀ l ∈ t.disk.lines groupFile, groupFields (split l ' ') ≠ none

/-- The files hold the accounts and the requests, in records of two tokens. -/
structure Disk.Holds (sha256 : Str → List (Fin 256)) (d : Disk) (accounts : List Account)
    (requests : List (Str × Str)) : Prop where
  online : ∀ l ∈ d.lines onlineFile, onlineFields (split l ' ') ≠ none
  groups : ∀ l ∈ d.lines groupFile, groupFields (split l ' ') ≠ none
  credential : d.lines credentialFile = (accounts.map fun a => (a.user, a.stored sha256)).map
    fun p => fields [p.1, p.2]
  accountTokens : ∀ a ∈ accounts, IsToken a.user ∧ IsToken (a.stored sha256)
  different : (accounts.map Account.user).Nodup
  pending : d.lines pendingFile = requests.map fun p => fields [p.1, p.2]
  requestTokens : ∀ p ∈ requests, IsToken p.1 ∧ IsToken p.2

section Holds

variable {sha256 : Str → List (Fin 256)} {d d' : Disk} {accounts : List Account}
  {requests : List (Str × Str)}

lemma Disk.Holds.readPairs (h : d.Holds sha256 accounts requests) (target : Str × Str) :
    (readPairs target (d.lines credentialFile)).1 =
      accounts.map fun a => (a.user, a.stored sha256) := by
  rw [h.credential]
  apply readPairs_fields
  intro p hp
  obtain ⟨a, ha, rfl⟩ := List.mem_map.mp hp
  exact h.accountTokens a ha

lemma Disk.Holds.requests_eq (h : d.Holds sha256 accounts requests) : d.requests = requests := by
  rw [Disk.requests, h.pending]
  exact readPairs_fields h.requestTokens _

/-- What is looked up in the table of credentials. -/
lemma Disk.Holds.credential_iff (h : d.Holds sha256 accounts requests) (u v : Str) :
    d.credential u = some v ↔ ∃ a ∈ accounts, a.user = u ∧ a.stored sha256 = v := by
  have hkeys : ((accounts.map fun a => (a.user, a.stored sha256)).map Prod.fst).Nodup := by
    rw [List.map_map]
    exact h.different
  rw [Disk.credential, credentialsOf, h.readPairs, lookup_foldl_tableSet_iff hkeys]
  simp

/-- Tables can be loaded from the files. -/
lemma Disk.Holds.reload (h : d.Holds sha256 accounts requests) (m : Memory) :
    ∃ m', m.reload d = some m' := by
  obtain ⟨online, honline⟩ := Option.ne_none_iff_exists'.mp (mapM_ne_none h.online)
  obtain ⟨groups, hgroups⟩ := Option.ne_none_iff_exists'.mp (mapM_ne_none h.groups)
  rw [Memory.reload, Memory.load, honline, hgroups]
  exact ⟨_, rfl⟩

/-- The records of a new account. -/
lemma Disk.Edited.account_lines {u ip port stored : Str}
    (h : d.Edited [addLine onlineFile (fields [u, ip, port]),
      addLine credentialFile (fields [u, stored]), setLines (userFilesFile u) [],
      setLines (downloadingFile u) [], setLines (downloadedFile u) []] d') :
    d'.lines onlineFile = d.lines onlineFile ++ [fields [u, ip, port]] ∧
      d'.lines credentialFile = d.lines credentialFile ++ [fields [u, stored]] := by
  constructor
  · refine h.lines_of_one (b := []) (by decide) rfl (by simp) fun e he hk => ?_
    have hkind := congrArg kindOf hk
    simp only [List.mem_cons, List.not_mem_nil, or_false] at he
    rcases he with rfl | rfl | rfl | rfl <;> simp at hkind
  · refine h.lines_of_one (b := [addLine onlineFile (fields [u, ip, port])])
      (by decide) rfl ?_ fun e he hk => ?_
    · simp only [List.mem_singleton, forall_eq]
      exact cStr_ne_of_kind (by decide)
    · have hkind := congrArg kindOf hk
      simp only [List.mem_cons, List.not_mem_nil, or_false] at he
      rcases he with rfl | rfl | rfl <;> simp at hkind

/-- A new account. -/
lemma Disk.Holds.create (h : d.Holds sha256 accounts requests) {a : Account} {ip port : Str}
    (hu : IsToken a.user) (hsalt : IsWord a.salt) (hip : IsWord ip) (hport : IsWord port)
    (hnew : d.credential a.user = none)
    (hedited : d.Edited [addLine onlineFile (fields [a.user, ip, port]),
      addLine credentialFile (fields [a.user, a.stored sha256]),
      setLines (userFilesFile a.user) [], setLines (downloadingFile a.user) [],
      setLines (downloadedFile a.user) []] d') :
    d'.Holds sha256 (accounts ++ [a]) requests := by
  have hstored : IsToken (a.stored sha256) := by
    constructor
    · intro c hc
      simp only [Account.stored, List.mem_append, List.mem_singleton] at hc
      rcases hc with (hc | rfl) | hc
      · exact hsalt c hc
      · decide
      · exact isspace_of_mem_hex hc
    · simp [Account.stored]
  obtain ⟨honline, hcredential⟩ := hedited.account_lines
  constructor
  · rw [honline]
    intro l hl
    rcases List.mem_append.mp hl with hl | hl
    · exact h.online l hl
    · rw [List.mem_singleton.mp hl, split_fields (by simp) (by
        simp [hu.1.blank, hip.blank, hport.blank])]
      exact Option.some_ne_none _
  · rw [hedited.lines_of_kind (by simp)]
    exact h.groups
  · rw [hcredential, h.credential]
    simp
  · intro b hb
    rcases List.mem_append.mp hb with hb | hb
    · exact h.accountTokens b hb
    · rw [List.mem_singleton.mp hb]
      exact ⟨hu, hstored⟩
  · rw [List.map_append, List.nodup_append]
    refine ⟨h.different, by simp, ?_⟩
    rintro u hold v hv rfl
    obtain ⟨b, hb, rfl⟩ := List.mem_map.mp hold
    have hv' := (h.credential_iff b.user (b.stored sha256)).mpr ⟨b, hb, rfl, rfl⟩
    simp only [List.map_cons, List.map_nil, List.mem_singleton] at hv
    rw [hv, hnew] at hv'
    cases hv'
  · rw [hedited.lines_of_kind (by simp)]
    exact h.pending
  · exact h.requestTokens

/-- A new request. -/
lemma Disk.Holds.join (h : d.Holds sha256 accounts requests) {u g : Str} (hu : IsToken u)
    (hg : IsToken g) (hedited : d.Edited [addLine pendingFile (fields [u, g])] d') :
    d'.Holds sha256 accounts (requests ++ [(u, g)]) := by
  have hpending : d'.lines pendingFile = d.lines pendingFile ++ [fields [u, g]] :=
    hedited.lines_of_one (b := []) (by decide) rfl (by simp) (by simp)
  constructor
  · rw [hedited.lines_of_kind (by simp)]
    exact h.online
  · rw [hedited.lines_of_kind (by simp)]
    exact h.groups
  · rw [hedited.lines_of_kind (by simp)]
    exact h.credential
  · exact h.accountTokens
  · exact h.different
  · rw [hpending, h.pending]
    simp
  · intro p hp
    rcases List.mem_append.mp hp with hp | hp
    · exact h.requestTokens p hp
    · rw [List.mem_singleton.mp hp]
      exact ⟨hu, hg⟩

/-- Only the lines count. -/
lemma Disk.Holds.congr (h : d.Holds sha256 accounts requests)
    (hlines : ∀ p, d'.lines p = d.lines p) : d'.Holds sha256 accounts requests := by
  constructor
  · rw [hlines]
    exact h.online
  · rw [hlines]
    exact h.groups
  · rw [hlines]
    exact h.credential
  · exact h.accountTokens
  · exact h.different
  · rw [hlines]
    exact h.pending
  · exact h.requestTokens

end Holds

/-- What has been accepted since the start is what the files hold. -/
structure Recorded (sha256 : Str → List (Fin 256)) (t₀ : Tracker) (accounts : List Account)
    (requests : List (Str × Str)) (history : List (Command × Reply)) (t : Tracker) : Prop where
  holds : t.disk.Holds sha256 accounts requests
  created : accounts.map (fun a => (a.user, a.password)) = createdAccounts history
  accepted : ∀ u g, (u, g) ∈ requests ↔
    (.joinGroup g u, some ['1']) ∈ history ∧ u ∉ t₀.disk.lines (membersFile g)
  table : ∀ q ∈ t.memory.pendingGroupRequests, q ∈ requests
  members : ∀ g, t.disk.lines (membersFile g) = t₀.disk.lines (membersFile g)

section Runs

variable {sha256 : Str → List (Fin 256)} {t₀ t t' : Tracker} {accounts : List Account}
  {requests : List (Str × Str)} {history : List (Command × Reply)}
  {reply : Reply}

lemma Tracker.Fresh.recorded (h : t₀.Fresh) : Recorded sha256 t₀ [] [] [] t₀ := by
  constructor
  · constructor
    · exact h.online
    · exact h.groups
    · exact h.accounts
    · simp
    · exact List.nodup_nil
    · exact h.pending
    · simp
  · rfl
  · simp
  · rw [h.requests]
    simp
  · exact fun g => rfl

/-- `create_user` adds an account or does nothing. -/
lemma Recorded.createUser {u p port ip : Str} (h : Recorded sha256 t₀ accounts requests history t)
    (ht : t.Regular) (hu : u ≠ []) (hstep : t.Handles sha256 (.createUser u p port ip) reply t') :
    ∃ accounts', Recorded sha256 t₀ accounts' requests
      (history ++ [(.createUser u p port ip, reply)]) t' := by
  obtain ⟨_, _, s', hkernel, rfl⟩ := hstep.run
  obtain ⟨b, hrun, rfl⟩ := run_answer hkernel
  clear hkernel
  have htable := run_userCreate_requests hrun
  obtain ⟨salt, es, hwords, hsalt, heffect, hedited, -⟩ := hstep.step ht
  have haccepted : ∀ v g, (v, g) ∈ requests ↔ (Command.joinGroup g v, some ['1']) ∈
      history ++ [(.createUser u p port ip, flag b)] ∧ v ∉ t₀.disk.lines (membersFile g) := by
    simpa using h.accepted
  generalize hreply : flag b = reply at *
  cases heffect with
  | refused =>
    have hholds := h.holds.congr fun p => hedited.lines_of_ne (q := p) (by simp)
    refine ⟨accounts, hholds, ?_, haccepted, fun q hq => ?_, fun g => ?_⟩
    · rw [createdAccounts_append, ← h.created]
      exact (List.append_nil _).symm
    · rw [← hholds.requests_eq]
      exact (htable q).mp hq
    · rw [← h.members, hedited.lines_of_ne (by simp)]
  | quiet _ _ huser => exact absurd rfl (huser u p port ip)
  | createUser _ _ _ _ hnew =>
    have hholds := h.holds.create (a := ⟨u, p, salt⟩) ⟨hwords u (by simp [Command.args]), hu⟩
      hsalt (hwords ip (by simp [Command.args])) (hwords port (by simp [Command.args])) hnew hedited
    refine ⟨accounts ++ [⟨u, p, salt⟩], hholds, ?_, haccepted, fun q hq => ?_, fun g => ?_⟩
    · rw [createdAccounts_append, ← h.created, List.map_append]
      rfl
    · rw [← hholds.requests_eq]
      exact (htable q).mp hq
    · rw [← h.members, hedited.lines_of_kind (by simp)]

/-- `join_group` adds a request or does nothing. -/
lemma Recorded.joinGroup {g u : Str} (h : Recorded sha256 t₀ accounts requests history t)
    (ht : t.Regular) (hc : NamesGiven t (.joinGroup g u))
    (hstep : t.Handles sha256 (.joinGroup g u) reply t') :
    ∃ requests', Recorded sha256 t₀ accounts requests'
      (history ++ [(.joinGroup g u, reply)]) t' := by
  obtain ⟨_, _, s', hkernel, rfl⟩ := hstep.run
  obtain ⟨b, hrun, rfl⟩ := run_answer hkernel
  clear hkernel
  obtain ⟨salt, es, hwords, -, -, -, -⟩ := hstep.step ht
  have hword : IsWord u ∧ IsWord g :=
    ⟨hwords u (by simp [Command.args]), hwords g (by simp [Command.args])⟩
  have hcreated : accounts.map (fun a => (a.user, a.password)) =
      createdAccounts (history ++ [(.joinGroup g u, flag b)]) := by
    rw [createdAccounts_append, ← h.created]
    exact (List.append_nil _).symm
  -- the command is new in the history if it has been accepted
  have hmem : ∀ v k, (Command.joinGroup k v, some ['1']) ∈ history ++ [(.joinGroup g u, flag b)] ↔
      (.joinGroup k v, some ['1']) ∈ history ∨ (v, k) = (u, g) ∧ b = true := by
    intro v k
    cases b <;> simp [flag, and_comm]
  rcases run_groupJoin_requests hrun with
    ⟨hdisk, hpending, hknown⟩ | ⟨rfl, hmember, hgroup, hdisk, hpending⟩
  · refine ⟨requests, h.holds.congr fun p => congrArg (Disk.lines · p) hdisk, hcreated,
      fun v k => ?_, fun q hq => ?_, fun k => ?_⟩
    · rw [h.accepted, hmem]
      constructor
      · rintro ⟨hin, hnot⟩
        exact ⟨Or.inl hin, hnot⟩
      · rintro ⟨hin | ⟨heq, hb⟩, hnot⟩
        · exact ⟨hin, hnot⟩
        · obtain ⟨rfl, rfl⟩ := Prod.mk.inj heq
          rw [← h.members] at hnot
          exact (h.accepted v k).mp (h.table _ (hknown hb hnot))
    · rw [show s'.tracker.memory = s'.memory from rfl, hpending] at hq
      exact h.table q hq
    · rw [← h.members]
      exact congrArg (Disk.lines · _) hdisk
  · have hnames := hc hgroup hmember
    have hedited : t.disk.Edited [addLine pendingFile (fields [u, g])] s'.disk := by
      rw [hdisk]
      exact Disk.edited_append ht.tidy pendingFile_ne_temp
        (newline_fields (by simp [hword.1, hword.2]))
    refine ⟨requests ++ [(u, g)], h.holds.join ⟨hword.1, hnames.1⟩ ⟨hword.2, hnames.2⟩ hedited,
      hcreated, fun v k => ?_, fun q hq => ?_, fun k => ?_⟩
    · rw [List.mem_append, List.mem_singleton, h.accepted, hmem]
      constructor
      · rintro (⟨hin, hnot⟩ | heq)
        · exact ⟨Or.inl hin, hnot⟩
        · refine ⟨Or.inr ⟨heq, rfl⟩, ?_⟩
          obtain ⟨rfl, rfl⟩ := Prod.mk.inj heq
          rw [← h.members]
          exact hmember
      · rintro ⟨hin | ⟨heq, -⟩, hnot⟩
        · exact Or.inl ⟨hin, hnot⟩
        · exact Or.inr heq
    · rw [List.mem_append, List.mem_singleton]
      rcases (hpending q).mp hq with rfl | hq
      · exact Or.inr rfl
      · exact Or.inl (h.table q hq)
    · rw [← h.members]
      exact hedited.lines_of_kind (by simp)

/-- The run lemma. -/
lemma TrackerRun.recorded (ht₀ : t₀.Regular) (hfresh : t₀.Fresh)
    (hrun : TrackerRun sha256 NamesGiven t₀ history t) :
    ∃ accounts requests, Recorded sha256 t₀ accounts requests history t := by
  induction hrun with
  | start => exact ⟨[], [], hfresh.recorded⟩
  | @step history t t' c reply hrun hc hstep ih =>
    obtain ⟨accounts, requests, h⟩ := ih
    have ht := hrun.regular ht₀
    cases c with
    | createUser u p port ip =>
      obtain ⟨accounts', h'⟩ := h.createUser ht hc hstep
      exact ⟨accounts', requests, h'⟩
    | joinGroup g u =>
      obtain ⟨requests', h'⟩ := h.joinGroup ht hc hstep
      exact ⟨accounts, requests', h'⟩
    | _ => exact hc.elim

/-- Where what is recorded has names, `FetchDetails` returns with the accounts that have been
    accepted and the requests that have been recorded, and no others. -/
theorem accounts_and_requests_reload (ht₀ : t₀.Regular) (hfresh : t₀.Fresh)
    (hrun : TrackerRun sha256 NamesGiven t₀ history t) (online : Bool) (salt : Str) :
    ∃ (accounts : List Account) (s : Session),
      accounts.map (fun a => (a.user, a.password)) = createdAccounts history ∧
      t.disk.lines credentialFile = accounts.map (fun a => fields [a.user, a.stored sha256]) ∧
      fetchDetails.run callInterp ⟨t, salt, online, []⟩ = some ((), s) ∧
      (∀ u v, s.memory.credentials.lookup u = some v ↔
        ∃ a ∈ accounts, a.user = u ∧ a.stored sha256 = v) ∧
      ∀ u g, (u, g) ∈ s.memory.pendingGroupRequests ↔
        (.joinGroup g u, some ['1']) ∈ history ∧ u ∉ t₀.disk.lines (membersFile g) := by
  obtain ⟨accounts, requests, h⟩ := hrun.recorded ht₀ hfresh
  obtain ⟨m, hm⟩ := h.holds.reload t.memory
  let s : Session := ⟨t, salt, online, []⟩
  refine ⟨accounts, (s.setDisk s.disk.reloaded).setMemory m, h.created, ?_, ?_, fun u v => ?_,
    fun u g => ?_⟩
  · rw [h.holds.credential, List.map_map]
    rfl
  · rw [fetchDetails, Prog.run_call, callInterp_fetchDetails,
      show s.memory.reload s.disk = some m from hm]
    rfl
  · rw [Session.memory_setMemory, credentials_reload hm]
    exact h.holds.credential_iff u v
  · rw [Session.memory_setMemory, mem_requests_reload hm, h.holds.requests_eq]
    exact h.accepted u g

end Runs

instance (t : Tracker) (c : Command) : Decidable (NamesGiven t c) :=
  match c with
  | .createUser .. => inferInstanceAs (Decidable (_ ≠ _))
  | .joinGroup .. => inferInstanceAs (Decidable (_ → _))
  | .login .. | .createGroup .. | .listGroups | .listRequests .. | .acceptRequest ..
  | .uploadFile .. | .listFiles .. | .stopShare .. | .leaveGroup .. | .logout ..
  | .giveSha .. | .giveSeeders .. | .giveDetails .. | .sendFullPath .. | .addFile ..
  | .complete .. | .showDownloads .. => isFalse not_false

/-- A tracker with one group. -/
def Tracker.withGroup : Tracker :=
  ⟨Disk.empty.append groupFile (putline (fields ["g".toList, "o".toList])), {}⟩

lemma Tracker.withGroup_regular : Tracker.withGroup.Regular := by
  constructor
  · exact (Disk.edited_append Tracker.initial_regular.tidy groupFile_ne_temp (by decide)).tidy
  · intro g o hg
    cases hg

theorem accounts_and_requests_reload_twoMessages : ∃ (t : Tracker) (s : Session),
    TrackerRun (fun _ => zerosDigest) NamesGiven .withGroup
      [(.createUser "o".toList "p".toList "1".toList "ip".toList, some ['1']),
        (.joinGroup "g".toList "u".toList, some ['1'])] t ∧
      fetchDetails.run callInterp ⟨t, [], false, []⟩ = some ((), s) ∧
      s.memory.credentials.lookup "o".toList ≠ none ∧
      ("u".toList, "g".toList) ∈ s.memory.pendingGroupRequests := by
  let messages := ["create_user o p 1 ip".toList, "join_group g u".toList]
  let process := Tracker.process (fun _ => zerosDigest) (List.replicate 16 0)
    (fun t c => decide (NamesGiven t c)) messages ([], .withGroup)
  have hprocess : (process.any fun r => decide (r.1 =
      [(.createUser "o".toList "p".toList "1".toList "ip".toList, some ['1']),
        (.joinGroup "g".toList "u".toList, some ['1'])])) = true := by
    decide +kernel
  obtain ⟨⟨history, t⟩, hprocessed, hend⟩ := (Option.any_eq_true _ _).mp hprocess
  have hrun : TrackerRun (fun _ => zerosDigest) NamesGiven .withGroup history t :=
    Tracker.process_run (fun _ _ hc => of_decide_eq_true hc) .start hprocessed
  obtain rfl : history = _ := of_decide_eq_true hend
  have hfresh : Tracker.withGroup.Fresh := by
    constructor
    · decide
    · decide
    · rfl
    · decide
    · decide
  obtain ⟨accounts, s, hcreated, -, hfetch, haccounts, hrequests⟩ :=
    accounts_and_requests_reload Tracker.withGroup_regular hfresh hrun false []
  obtain ⟨a, ha, haccount⟩ : ∃ a ∈ accounts, (a.user, a.password) = ("o".toList, "p".toList) := by
    apply List.mem_map.mp
    rw [hcreated]
    decide
  refine ⟨t, s, hrun, hfetch, ?_, (hrequests _ _).mpr ⟨by simp, by decide⟩⟩
  rw [(haccounts _ _).mpr ⟨a, ha, (Prod.mk.inj haccount).1, rfl⟩]
  exact Option.some_ne_none _

/-- Without a name the stored value becomes one. -/
theorem nameless_account_lost : ∃ (history : List (Command × Reply)) (t : Tracker) (s : Session),
    TrackerRun (fun _ => zerosDigest) (fun _ _ => True) .initial history t ∧
      history = [(.createUser [] [] [] [], some ['1'])] ∧
      fetchDetails.run callInterp ⟨t, [], false, []⟩ = some ((), s) ∧
      s.memory.credentials.lookup [] = none ∧
      s.memory.credentials.lookup (generateSalt (List.replicate 16 0) ++ [':'] ++
        hashPassword (fun _ => zerosDigest) (generateSalt (List.replicate 16 0)) []) =
        some [] := by
  let process := Tracker.process (fun _ => zerosDigest) (List.replicate 16 0)
    (fun _ _ => true) ["create_user".toList] ([], .initial)
  have hprocess : (process.any fun r =>
      decide (r.1 = [(.createUser [] [] [] [], some ['1'])]) &&
      (fetchDetails.run callInterp ⟨r.2, [], false, []⟩).any fun x =>
        decide (x.2.memory.credentials.lookup [] = none) &&
        decide (x.2.memory.credentials.lookup (generateSalt (List.replicate 16 0) ++ [':'] ++
          hashPassword (fun _ => zerosDigest) (generateSalt (List.replicate 16 0)) []) =
          some [])) = true := by
    decide +kernel
  obtain ⟨⟨history, t⟩, hrun, hend⟩ := (Option.any_eq_true _ _).mp hprocess
  rw [Bool.and_eq_true, decide_eq_true_eq] at hend
  obtain ⟨⟨⟨⟩, s⟩, hfetch, hend'⟩ := (Option.any_eq_true _ _).mp hend.2
  rw [Bool.and_eq_true, decide_eq_true_eq, decide_eq_true_eq] at hend'
  exact ⟨history, t, s, Tracker.process_run (fun _ _ _ => trivial) .start hrun, hend.1, hfetch,
    hend'.1, hend'.2⟩

end TorrentShare
