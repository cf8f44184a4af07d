import TorrentShare.Tracker.Logins

/-!
# Addresses

`UserLogin` writes down the address of a user who is not online, and does not write again for a
user who is. `give_details` sends what has been written down.
-/

namespace TorrentShare

open Program

section Histories

variable {before before' after after' history : List Exchange} {e e' : Exchange} {u : Str}
  {address address' : Str × Str}

lemma Exchange.SignsInAt.signsIn (h : e.SignsInAt u address) : e.SignsIn u := by
  obtain ⟨hreply, p, hc⟩ := h
  exact ⟨hreply, p, address.2, address.1, hc⟩

lemma Exchange.SignsInAt.unique (h : e.SignsInAt u address) (h' : e.SignsInAt u address') :
    address = address' := by
  obtain ⟨ip, port⟩ := address
  obtain ⟨ip', port'⟩ := address'
  obtain ⟨-, p, hc⟩ := h
  obtain ⟨-, p', hc'⟩ := h'
  rcases hc with hc | hc
  · rcases hc' with hc' | hc'
    · cases hc.symm.trans hc'
      rfl
    · cases hc.symm.trans hc'
  · rcases hc' with hc' | hc'
    · cases hc.symm.trans hc'
    · cases hc.symm.trans hc'
      rfl

/-- Who has signed in and stays is signed in at a later exchange. -/
lemma signedIn_of_split (heq : before ++ e :: after = before' ++ e' :: after')
    (hlt : before.length < before'.length) (hin : e.SignsIn u)
    (hstays : ∀ x ∈ after, ¬ x.SignsOut u) : SignedIn before' u := by
  rcases List.append_eq_append_iff.mp heq with ⟨mid, rfl, hmid⟩ | ⟨mid, rfl, -⟩
  · cases mid with
    | nil => simp at hlt
    | cons x mid =>
      obtain ⟨rfl, rfl⟩ := List.cons_eq_cons.mp hmid
      exact ⟨before, e, mid, rfl, hin, fun x hx => hstays x (List.mem_append_left _ hx)⟩
  · rw [List.length_append] at hlt
    omega

/-- There is one address with which a user has come in. -/
lemma CameIn.unique (h : CameIn history u address) (h' : CameIn history u address') :
    address = address' := by
  obtain ⟨before, e, after, rfl, hin, hnot, hstays⟩ := h
  obtain ⟨before', e', after', heq, hin', hnot', hstays'⟩ := h'
  rcases lt_trichotomy before.length before'.length with hlt | hlen | hlt
  · exact absurd (signedIn_of_split heq hlt hin.signsIn hstays) hnot'
  · obtain ⟨-, hrest⟩ := List.append_inj heq hlen
    cases hrest
    exact hin.unique hin'
  · exact absurd (signedIn_of_split heq.symm hlt hin'.signsIn hstays') hnot

end Histories

section Details

variable {hashPassword : Str → Str → Str} {history : List Exchange}
  {sessions : List (Str × Str × Str)} {d : Disk} {t : Tracker} {m m' : Memory} {s : Session}
  {e : Exchange} {u : Str} {address : Str × Str}

lemma Memory.onlineUsers_addPending (m : Memory) (e : Str × Str) :
    (m.addPending e).onlineUsers = m.onlineUsers := rfl

lemma Memory.onlineUsers_addGroup (m : Memory) (e : Str × Str) :
    (m.addGroup e).onlineUsers = m.onlineUsers := rfl

lemma Memory.onlineUsers_addCredential (m : Memory) (e : Str × Str) :
    (m.addCredential e).onlineUsers = m.onlineUsers := rfl

lemma foldl_addOnline (es : List (Str × Str × Str)) (m : Memory) :
    (es.foldl Memory.addOnline m).onlineUsers =
      es.foldl (fun t e => tableSet e.1 e.2 t) m.onlineUsers := by
  induction es generalizing m with
  | nil => rfl
  | cons e es ih => exact ih (m.addOnline e)

/-- The lines of the users who are online are read back. -/
lemma mapM_onlineRecord (h : ∀ e ∈ sessions, IsWord e.1 ∧ IsWord e.2.1 ∧ IsWord e.2.2) :
    (sessions.map onlineRecord).mapM (fun l => onlineFields (split l ' ')) = some sessions := by
  induction sessions with
  | nil => rfl
  | cons e es ih =>
    rw [List.forall_mem_cons] at h
    rw [List.map_cons, List.mapM_cons, split_onlineRecord h.1, ih h.2]
    rfl

/-- The table of addresses after a reload. -/
lemma Follows.lookup_onlineUsers (h : Follows hashPassword history sessions d)
    (hm : m.reload d = some m') :
    m'.onlineUsers.lookup u = some address ↔ (u, address) ∈ sessions := by
  simp only [Memory.reload, Memory.load, Option.bind_eq_some_iff, Option.map_eq_some_iff] at hm
  obtain ⟨online, honline, groups, -, rfl⟩ := hm
  rw [h.online, mapM_onlineRecord h.words, Option.some.injEq] at honline
  subst honline
  rw [foldl_keep Memory.onlineUsers Memory.onlineUsers_addPending,
    foldl_keep Memory.onlineUsers Memory.onlineUsers_addGroup, foldl_addOnline,
    foldl_keep Memory.onlineUsers Memory.onlineUsers_addCredential,
    lookup_foldl_tableSet_iff h.single]
  simp [Memory.clear]

variable (u) in
/-- `give_details` sends the entry of the user. -/
lemma run_sendDetails_of_reload (hm : s.memory.reload s.disk = some m) :
    ∃ s', (sendDetails u).run callInterp s =
      some (fields [((m.onlineUsers.lookup u).getD ([], [])).1,
        ((m.onlineUsers.lookup u).getD ([], [])).2], s') := by
  rw [sendDetails, run_fetchDetails_bind, hm, Option.bind_some, run_memory_bind,
    Session.memory_setMemory, run_modify_bind]
  exact ⟨_, rfl⟩

/-- In a run `give_details` sends the address with which a user has come in who is signed in. -/
lemma serve_giveDetails (hhash : ∀ salt p, IsHex (hashPassword salt p))
    (hrun : ClientRun hashPassword history t) (hin : SignedIn history u) (online : Bool)
    (salt : Str) : ∃ address t' sent, CameIn history u address ∧
      serve hashPassword t online salt (.giveDetails u) =
        some (some (fields [address.1, address.2]), t', sent) := by
  obtain ⟨sessions, h, hcame⟩ := hrun.follows hhash
  obtain ⟨⟨v, address⟩, hentry, rfl⟩ := List.mem_map.mp ((h.signedIn u).mpr hin)
  obtain ⟨m, hm⟩ := h.reload t.memory
  obtain ⟨s', hdetails⟩ := run_sendDetails_of_reload v (s := ⟨t, salt, online, []⟩) hm
  refine ⟨address, s'.tracker, s'.sent, hcame _ hentry, ?_⟩
  rw [(h.lookup_onlineUsers hm).mpr hentry, Option.getD_some] at hdetails
  rw [serve, trackerKernel, answerData, Prog.run_bind, hdetails]
  rfl

/-- Arguments of commands that have been processed are tokens. -/
lemma ClientRun.isToken_args (hrun : ClientRun hashPassword history t) (he : e ∈ history) :
    ∀ w ∈ e.command.args, IsToken w := by
  induction hrun with
  | start => cases he
  | @step history t t' message salt c reply online sent hrun hmessage hargs hsalt hserve ih =>
    rcases List.mem_append.mp he with he | he
    · exact ih he
    · rw [List.mem_singleton.mp he]
      have hwords := Request.isWord_args hmessage
      exact fun w hw => ⟨hwords w hw, hargs w hw⟩

lemma ClientRun.blank_address (hrun : ClientRun hashPassword history t) (he : e ∈ history)
    (hin : e.SignsInAt u address) : ' ' ∉ address.1 ∧ ' ' ∉ address.2 := by
  have htokens := hrun.isToken_args he
  obtain ⟨-, p, hc | hc⟩ := hin
  · rw [hc] at htokens
    exact ⟨(htokens _ (by simp [Command.args])).1.blank,
      (htokens _ (by simp [Command.args])).1.blank⟩
  · rw [hc] at htokens
    exact ⟨(htokens _ (by simp [Command.args])).1.blank,
      (htokens _ (by simp [Command.args])).1.blank⟩

end Details

section Runs

variable {hashPassword : Str → Str → Str} {before after : List Exchange} {t : Tracker}
  {e : Exchange} {u ip port : Str}

/-- After an accepted `login` or `create_user` with an address, and before the next one and before
    the next accepted `logout`, `give_details` sends this address just if the user has come in with
    it. -/
theorem details_sent_iff (hhash : ∀ salt p, IsHex (hashPassword salt p))
    (hrun : ClientRun hashPassword (before ++ e :: after) t) (hin : e.SignsInAt u (ip, port))
    (hafter : ∀ x ∈ after, ¬ x.SignsIn u ∧ ¬ x.SignsOut u) (online : Bool) (salt : Str) :
    (∃ t' sent, serve hashPassword t online salt (.giveDetails u) =
      some (some (ip ++ [' '] ++ port), t', sent)) ↔
        CameIn (before ++ e :: after) u (ip, port) := by
  have hsigned : SignedIn (before ++ e :: after) u :=
    ⟨before, e, after, rfl, hin.signsIn, fun x hx => (hafter x hx).2⟩
  obtain ⟨address, t₁, sent₁, hcame, hserve⟩ := serve_giveDetails hhash hrun hsigned online salt
  have hfields : ip ++ [' '] ++ port = fields [ip, port] := by simp [fields, List.intercalate]
  rw [hserve, hfields]
  constructor
  · rintro ⟨t', sent, heq⟩
    simp only [Option.some.injEq, Prod.mk.injEq] at heq
    obtain ⟨hblankIp, hblankPort⟩ := hrun.blank_address (by simp) hin
    obtain ⟨hip, hport⟩ := fields_pair_inj hblankIp hblankPort heq.1
    obtain rfl : address = (ip, port) := Prod.ext hip hport
    exact hcame
  · intro hcame'
    obtain rfl := hcame.unique hcame'
    exact ⟨t₁, sent₁, rfl⟩

end Runs

theorem details_sent_iff_oneUser : ∃ t t' sent, ClientRun lengthHash [registration] t ∧
    serve lengthHash t false [] (.giveDetails "u".toList) =
      some (some "i 1".toList, t', sent) := by
  obtain ⟨t, hrun⟩ := clientRun_registration
  have hrun' : ClientRun lengthHash ([] ++ registration :: []) t := hrun
  have hin : registration.SignsInAt "u".toList ("i".toList, "1".toList) := ⟨rfl, _, Or.inr rfl⟩
  obtain ⟨t', sent, hserve⟩ := (details_sent_iff isHex_lengthHash hrun' hin (by simp) false []).mpr
    ⟨[], registration, [], rfl, hin, not_signedIn_nil _, by simp⟩
  exact ⟨t, t', sent, hrun, hserve⟩

/-- A user logs in from another port while still marked online: the old one is given. -/
theorem old_address_given : ∃ (e : Exchange) (t t' : Tracker) (sent : List (Path × Str)),
    ClientRun lengthHash [registration, e] t ∧ e.SignsInAt "u".toList ("i".toList, "2".toList) ∧
      serve lengthHash t false [] (.giveDetails "u".toList) =
        some (some "i 1".toList, t', sent) := by
  let login : Command := .login "u".toList "pw".toList "2".toList "i".toList
  have hserved : ((serve lengthHash .initial false "5e".toList registration.command).any fun r =>
      decide (r.1 = some ['1']) && (serve lengthHash r.2.1 false [] login).any fun r' =>
        decide (r'.1 = some ['1']) && (serve lengthHash r'.2.1 false []
          (.giveDetails "u".toList)).any fun r'' => decide (r''.1 = some "i 1".toList)) = true := by
    decide +kernel
  simp only [Option.any_eq_true, Bool.and_eq_true, decide_eq_true_eq] at hserved
  obtain ⟨⟨_, t₁, sent₁⟩, hserve₁, rfl, hserved⟩ := hserved
  obtain ⟨⟨_, t₂, sent₂⟩, hserve₂, rfl, ⟨_, t₃, sent₃⟩, hserve₃, rfl⟩ := hserved
  have hregister : Request.parse "create_user u pw 1 i".toList = .client registration.command :=
    rfl
  have hlogin : Request.parse "login u pw 2 i".toList = .client login := rfl
  have hrun₁ : ClientRun lengthHash [registration] t₁ :=
    .step .start hregister (by simp [Command.args]) (by simp [IsHex]) hserve₁
  have hrun₂ : ClientRun lengthHash [registration, ⟨login, [], some ['1']⟩] t₂ :=
    hrun₁.step hlogin (by simp [Command.args, login]) (by simp [IsHex]) hserve₂
  exact ⟨_, t₂, t₃, sent₃, hrun₂, ⟨rfl, _, Or.inl rfl⟩, hserve₃⟩

end TorrentShare
