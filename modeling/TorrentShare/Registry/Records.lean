import TorrentShare.Program.Tables
import TorrentShare.Registry.Directory
import TorrentShare.Registry.Sound
import TorrentShare.Tracker.Addresses

/-!
# A registry in files and tables

The state files hold the tables and sets of a registry as lines of fields, and the tables in memory
hold what the files have said when they were loaded.
-/

namespace TorrentShare

open Program

/-! ### Scans of records -/

section Scans

variable {α β : Type} {line : α → Str} {as : List α}

/-- A scan of lines that were written for a list. -/
lemma findRecord_map {test : List Str → Option Bool} {p : α → Bool}
    (h : ∀ a ∈ as, test (split (line a) ' ') = some (p a)) :
    findRecord test (as.map line) = some ((as.find? p).map fun a => split (line a) ' ') := by
  induction as with
  | nil => rfl
  | cons a as ih =>
    rw [List.forall_mem_cons] at h
    rw [List.map_cons, findRecord, h.1, Option.bind_some, List.find?_cons]
    cases p a with
    | true => rfl
    | false => exact ih h.2

lemma filter_map_line {test : Str → Bool} {p : α → Bool} (h : ∀ a ∈ as, test (line a) = p a) :
    (as.map line).filter (!test ·) = (as.filter (!p ·)).map line := by
  rw [List.filter_map]
  congr 1
  exact List.filter_congr fun a ha => congrArg (!·) (h a ha)

lemma mapM_map_line {f : Str → Option β} {r : α → β} (h : ∀ a ∈ as, f (line a) = some (r a)) :
    (as.map line).mapM f = some (as.map r) := by
  induction as with
  | nil => rfl
  | cons a as ih =>
    rw [List.forall_mem_cons] at h
    rw [List.map_cons, List.mapM_cons, h.1, ih h.2]
    rfl

/-- Entries with different keys make the table they are. -/
lemma foldl_tableSet_of_nodup {es t : List (Str × β)} (h : ((t ++ es).map Prod.fst).Nodup) :
    es.foldl (fun t e => tableSet e.1 e.2 t) t = t ++ es := by
  have hset : ∀ {t : List (Str × β)} {e : Str × β}, e.1 ∉ t.map Prod.fst →
      tableSet e.1 e.2 t = t ++ [e] := by
    intro t e he
    induction t with
    | nil => rfl
    | cons e' t ih =>
      rw [List.map_cons, List.mem_cons, not_or] at he
      rw [tableSet, if_neg (Ne.symm he.1), ih he.2]
      rfl
  induction es generalizing t with
  | nil => exact (List.append_nil t).symm
  | cons e es ih =>
    rw [List.append_cons] at h
    have hnew : e.1 ∉ t.map Prod.fst := by
      rw [List.map_append, List.map_append, List.append_assoc, List.nodup_append] at h
      exact fun he => h.2.2 e.1 he e.1 (by simp) rfl
    rw [List.foldl_cons, hset hnew, ih h, ← List.append_cons]

lemma lookup_of_nodup {es : List (Str × β)} (h : (es.map Prod.fst).Nodup) (k : Str) (v : β) :
    es.lookup k = some v ↔ (k, v) ∈ es := by
  have htable := lookup_foldl_tableSet_iff (t := []) h k v
  rw [foldl_tableSet_of_nodup (by simpa using h), List.nil_append] at htable
  rw [htable]
  simp

/-- Inserting one element for each member of a list keeps the order. -/
lemma pairwise_foldl_setInsert_map (f : α → Str) (as : List α) {t : List Str}
    (h : t.Pairwise (· < ·)) :
    (as.foldl (fun t a => setInsert strLt (f a) t) t).Pairwise (· < ·) := by
  induction as generalizing t with
  | nil => exact h
  | cons a as ih => exact ih (pairwise_setInsert_strLt (f a) h)

end Scans

/-! ### Pairs in order -/

lemma pairLt_iff {p q : Str × Str} : pairLt p q = true ↔ p.1 < q.1 ∨ p.1 = q.1 ∧ p.2 < q.2 := by
  simp only [pairLt, strLt, Bool.or_eq_true, Bool.and_eq_true, decide_eq_true_eq,
    Bool.not_eq_true', decide_eq_false_iff_not, not_lt]
  constructor
  · rintro (h | ⟨h, h'⟩)
    · exact Or.inl h
    · exact h.lt_or_eq.imp_right fun heq => ⟨heq, h'⟩
  · rintro (h | ⟨h, h'⟩)
    · exact Or.inl h
    · exact Or.inr ⟨h.le, h'⟩

lemma pairLt_trans {p q r : Str × Str} (h : pairLt p q = true) (h' : pairLt q r = true) :
    pairLt p r = true := by
  rw [pairLt_iff] at *
  rcases h with h | ⟨h, hlt⟩
  · rcases h' with h' | ⟨h', -⟩
    · exact Or.inl (h.trans h')
    · exact Or.inl (h' ▸ h)
  · rcases h' with h' | ⟨h', hlt'⟩
    · exact Or.inl (h ▸ h')
    · exact Or.inr ⟨h.trans h', hlt.trans hlt'⟩

/-- A set of pairs stays in order. -/
lemma pairwise_setInsert_pairLt (p : Str × Str) {S : List (Str × Str)}
    (h : S.Pairwise fun p q => pairLt p q = true) :
    (setInsert pairLt p S).Pairwise fun p q => pairLt p q = true := by
  induction S with
  | nil => exact List.pairwise_singleton _ p
  | cons q S ih =>
    obtain ⟨hq, hS⟩ := List.pairwise_cons.mp h
    rw [setInsert]
    split_ifs with hpq hqp
    · refine List.pairwise_cons.mpr ⟨fun x hx => ?_, h⟩
      rcases List.mem_cons.mp hx with rfl | hx
      · exact hpq
      · exact pairLt_trans hpq (hq x hx)
    · refine List.pairwise_cons.mpr ⟨fun x hx => ?_, ih hS⟩
      rcases (mem_setInsert_pairLt p x S).mp hx with rfl | hx
      · exact hqp
      · exact hq x hx
    · exact h

lemma pairwise_foldl_addPending {es : List (Str × Str)} {m : Memory}
    (h : m.pendingGroupRequests.Pairwise fun p q => pairLt p q = true) :
    (es.foldl Memory.addPending m).pendingGroupRequests.Pairwise fun p q => pairLt p q = true := by
  induction es generalizing m with
  | nil => exact h
  | cons e es ih => exact ih (pairwise_setInsert_pairLt e h)

/-! ### Lines -/

/-- The line of an account. -/
def accountLine (sha256 : Str → List (Fin 256)) (e : Str × Str × Str) : Str :=
  fields [e.1, (⟨e.1, e.2.1, e.2.2⟩ : Account).credential (hashPassword sha256)]

/-- The line of two names. -/
def pairLine (e : Str × Str) : Str := fields [e.1, e.2]

def Share.line (s : Share Str) : Str := fields [s.hash, s.size, s.user, s.name]

def Location.line (c : Location Str) : Str := fields [c.group, c.name, c.path]

lemma pairLine_inj {p q : Str × Str} (hq : IsToken q.1 ∧ IsToken q.2) :
    pairLine p = pairLine q ↔ p = q := by
  constructor
  · intro h
    obtain ⟨h₁, h₂⟩ := fields_pair_inj hq.1.1.blank hq.2.1.blank h
    exact Prod.ext h₁ h₂
  · exact congrArg pairLine

namespace Registry

lemma Sound.split_share {R : Registry Str} (h : R.Sound) {g : Str} {s : Share Str}
    (hs : s ∈ R.shares g) : split s.line ' ' = [s.hash, s.size, s.user, s.name] := by
  obtain ⟨hhash, hsize, huser, hname⟩ := h.shares g s hs
  apply split_fields (by simp)
  simp [hhash.blank, hsize.blank, huser.1.blank, hname.1.blank]

lemma Sound.split_location {R : Registry Str} (h : R.Sound) {u : Str} {c : Location Str}
    (hc : c ∈ R.copies u) : split c.line ' ' = [c.group, c.name, c.path] := by
  obtain ⟨hgroup, hname, hpath⟩ := h.copies u c hc
  apply split_fields (by simp)
  simp [hgroup.1.blank, hname.1.blank, hpath.1.blank]

/-- What the file of a key holds. -/
def Recorded (sha256 : Str → List (Fin 256)) (R : Registry Str) : Key → List Str → Prop
  | .accounts, ls      => KeepsTable (accountLine sha256) R.account ls
  | .sessions, ls      => KeepsTable onlineRecord R.address ls
  | .groups, ls        => KeepsTable pairLine R.owner ls
  | .requests, ls      => KeepsSet pairLine R.requests ls
  | .members g, ls     => KeepsSet id (R.members g) ls
  | .shared g, ls      => ls = (R.shares g).map Share.line
  | .files u, ls       => ls = (R.copies u).map Location.line
  | .downloading u, ls => ls = (R.downloading u).map pairLine
  | .downloaded u, ls  => ls = (R.downloaded u).map pairLine

/-- The records are those of the registry. -/
def Fills (sha256 : Str → List (Fin 256)) (R : Registry Str) (F : Key → List Str) : Prop :=
  ∀ k, R.Recorded sha256 k (F k)

/-- What handlers look up in the tables in memory without loading them is right. -/
structure Cached (R : Registry Str) (m : Memory) : Prop where
  groups : ∀ g, m.groups.lookup g = R.owner g
  accounts : ∀ u, m.credentials.lookup u = none ↔ R.account u = none
  online : ∀ u, u ∈ m.online ↔ R.address u ≠ none
  requests : ∀ q, q ∈ m.pendingGroupRequests ↔ q ∈ R.remembered

/-- The tables as they are when they have just been loaded. -/
structure Loaded (sha256 : Str → List (Fin 256)) (R : Registry Str) (m : Memory) : Prop extends
    R.refresh.Cached m where
  credentials : ∀ u, m.credentials.lookup u = (R.account u).map fun a =>
    (⟨u, a.1, a.2⟩ : Account).credential (hashPassword sha256)
  addresses : ∀ u, m.onlineUsers.lookup u = R.address u
  groupNames : (m.groups.map Prod.fst).Nodup
  sorted : m.pendingGroupRequests.Pairwise fun p q => pairLt p q = true

/-! ### Loading the tables -/

section Loading

variable {sha256 : Str → List (Fin 256)} {R : Registry Str} {F : Key → List Str} {E : Entities}
  {P : Set Key} {d : Disk} {m m' : Memory}

/-- The tables are loaded to their end. -/
lemma Fills.reload (h : R.Fills sha256 F) (hd : E.Holds F P d) (m : Memory) :
    ∃ m', m.reload d = some m' := by
  obtain ⟨ss, hss, -, -⟩ := h .sessions
  obtain ⟨gs, hgs, -, -⟩ := h .groups
  apply Option.ne_none_iff_exists'.mp
  apply reload_ne_none
  · intro l hl
    rw [show d.lines onlineFile = F .sessions from hd.lines .sessions trivial, hss] at hl
    obtain ⟨e, -, rfl⟩ := List.mem_map.mp hl
    exact length_le_split_fields [_, _, _] (by simp)
  · intro l hl
    rw [show d.lines groupFile = F .groups from hd.lines .groups trivial, hgs] at hl
    obtain ⟨e, -, rfl⟩ := List.mem_map.mp hl
    exact length_le_split_fields [_, _] (by simp)

lemma Fills.lookup_credentials (h : R.Fills sha256 F) (hR : R.Sound) (hd : E.Holds F P d)
    (hm : m.reload d = some m') (u : Str) : m'.credentials.lookup u = (R.account u).map fun a =>
      (⟨u, a.1, a.2⟩ : Account).credential (hashPassword sha256) := by
  obtain ⟨as, has, hkeys, hasT⟩ := h .accounts
  have hlines : d.lines credentialFile = (as.map fun e =>
      (e.1, (⟨e.1, e.2.1, e.2.2⟩ : Account).credential (hashPassword sha256))).map
        fun p => fields [p.1, p.2] := by
    rw [show d.lines credentialFile = F .accounts from hd.lines .accounts trivial, has,
      List.map_map]
    rfl
  have hread : (readPairs ([], []) (d.lines credentialFile)).1 = as.map fun e =>
      (e.1, (⟨e.1, e.2.1, e.2.2⟩ : Account).credential (hashPassword sha256)) := by
    rw [hlines]
    apply readPairs_fields
    intro p hp
    obtain ⟨⟨u, q, salt⟩, he, rfl⟩ := List.mem_map.mp hp
    obtain ⟨hu, hsalt⟩ := hR.accounts u q salt ((hasT _ _).mpr he)
    exact ⟨hu, isToken_credential (fun _ _ => isHex_hex _) hsalt⟩
  ext v
  rw [credentials_reload hm, credentialsOf, hread, lookup_foldl_tableSet_iff]
  · simp only [List.lookup_nil, reduceCtorEq, and_false, or_false, List.mem_map,
      Option.map_eq_some_iff, Prod.mk.injEq]
    constructor
    · rintro ⟨⟨u', a⟩, he, rfl, rfl⟩
      exact ⟨a, (hasT _ _).mpr he, rfl⟩
    · rintro ⟨a, ha, rfl⟩
      exact ⟨(u, a), (hasT _ _).mp ha, rfl, rfl⟩
  · rw [List.map_map]
    exact hkeys

/-- The table of groups has one entry for each group. -/
lemma Fills.lookup_groups (h : R.Fills sha256 F) (hR : R.Sound) (hd : E.Holds F P d)
    (hm : m.reload d = some m') : (m'.groups.map Prod.fst).Nodup ∧
      ∀ g, m'.groups.lookup g = R.owner g := by
  obtain ⟨gs, hgs, hkeys, hgsT⟩ := h .groups
  have hfields : ∀ e ∈ gs, groupFields (split (pairLine e) ' ') = some e := by
    rintro ⟨g, o⟩ he
    obtain ⟨hg, ho⟩ := hR.owners g o ((hgsT g o).mpr he)
    rw [pairLine, split_fields (by simp) (by simp [hg.1.blank, ho.1.blank])]
    rfl
  have htable : m'.groups = gs := by
    rw [groups_reload hm, show d.lines groupFile = F .groups from hd.lines .groups trivial, hgs,
      ownersOf, filterMap_of_mapM (mapM_map_line (r := id) hfields), List.map_id,
      foldl_tableSet_of_nodup (by simpa using hkeys), List.nil_append]
  rw [htable]
  refine ⟨hkeys, fun g => ?_⟩
  ext o
  rw [lookup_of_nodup hkeys, hgsT]

lemma Fills.lookup_sessions (h : R.Fills sha256 F) (hR : R.Sound) (hd : E.Holds F P d)
    (hm : m.reload d = some m') (u : Str) :
    (u ∈ m'.online ↔ R.address u ≠ none) ∧ m'.onlineUsers.lookup u = R.address u := by
  obtain ⟨ss, hss, hkeys, hssT⟩ := h .sessions
  have hwords : ∀ e ∈ ss, IsWord e.1 ∧ IsWord e.2.1 ∧ IsWord e.2.2 := by
    rintro ⟨v, ip, port⟩ he
    obtain ⟨hv, hip, hport, -⟩ := hR.addresses v ip port ((hssT v _).mpr he)
    exact ⟨hv.1, hip.1, hport.1⟩
  have hlines : d.lines onlineFile = ss.map onlineRecord :=
    (hd.lines .sessions trivial : d.lines onlineFile = F .sessions).trans hss
  constructor
  · rw [mem_online_reload hm, hlines, Option.ne_none_iff_exists']
    constructor
    · rintro ⟨l, hl, hu⟩
      obtain ⟨e, he, rfl⟩ := List.mem_map.mp hl
      rw [split_onlineRecord (hwords e he)] at hu
      obtain rfl : e.1 = u := Option.some.inj hu
      exact ⟨e.2, (hssT _ _).mpr he⟩
    · rintro ⟨a, ha⟩
      have he := (hssT u a).mp ha
      refine ⟨onlineRecord (u, a), List.mem_map_of_mem he, ?_⟩
      rw [split_onlineRecord (hwords _ he)]
      rfl
  · simp only [Memory.reload, Memory.load, Option.bind_eq_some_iff, Option.map_eq_some_iff] at hm
    obtain ⟨online, honline, groups, -, rfl⟩ := hm
    rw [hlines, mapM_onlineRecord hwords, Option.some.injEq] at honline
    subst honline
    ext a
    rw [foldl_keep Memory.onlineUsers Memory.onlineUsers_addPending,
      foldl_keep Memory.onlineUsers Memory.onlineUsers_addGroup, foldl_addOnline,
      foldl_keep Memory.onlineUsers Memory.onlineUsers_addCredential,
      lookup_foldl_tableSet_iff hkeys, hssT]
    simp [Memory.clear]

lemma Fills.mem_pending (h : R.Fills sha256 F) (hR : R.Sound) (hd : E.Holds F P d)
    (hm : m.reload d = some m') (q : Str × Str) :
    q ∈ m'.pendingGroupRequests ↔ q ∈ R.requests := by
  obtain ⟨ps, hps, hpsS⟩ := h .requests
  have hread : d.requests = ps := by
    rw [Disk.requests, show d.lines pendingFile = F .requests from hd.lines .requests trivial, hps]
    apply readPairs_fields
    intro p hp
    exact hR.requests p.1 p.2 ((hpsS p).mp hp)
  rw [mem_requests_reload hm, hread, hpsS]

/-- The requests are in order. -/
lemma pairwise_pending (hm : m.reload d = some m') :
    m'.pendingGroupRequests.Pairwise fun p q => pairLt p q = true := by
  simp only [Memory.reload, Memory.load, Option.bind_eq_some_iff, Option.map_eq_some_iff] at hm
  obtain ⟨online, -, groups, -, rfl⟩ := hm
  apply pairwise_foldl_addPending
  rw [foldl_keep Memory.pendingGroupRequests Memory.pendingGroupRequests_addGroup,
    foldl_keep Memory.pendingGroupRequests Memory.pendingGroupRequests_addOnline,
    foldl_keep Memory.pendingGroupRequests Memory.pendingGroupRequests_addCredential]
  exact List.Pairwise.nil

/-- The tables are what the registry says. -/
lemma Fills.loaded (h : R.Fills sha256 F) (hR : R.Sound) (hd : E.Holds F P d)
    (hm : m.reload d = some m') : R.Loaded sha256 m' where
  groups := (h.lookup_groups hR hd hm).2
  accounts u := by
    rw [h.lookup_credentials hR hd hm, Option.map_eq_none_iff]
    rfl
  online u := (h.lookup_sessions hR hd hm u).1
  requests := h.mem_pending hR hd hm
  credentials := h.lookup_credentials hR hd hm
  addresses u := (h.lookup_sessions hR hd hm u).2
  groupNames := (h.lookup_groups hR hd hm).1
  sorted := pairwise_pending hm

end Loading

/-! ### Edits -/

section Edits

variable {sha256 : Str → List (Fin 256)} {R R' : Registry Str} {F : Key → List Str}
  {e : Edit Key Str}

/-- An edit of the file of one key, for a change of what is kept in it. -/
lemma Fills.edit (h : R.Fills sha256 F) (hself : R'.Recorded sha256 e.key (e.after (F e.key)))
    (hother : ∀ k, k ≠ e.key → R'.Recorded sha256 k = R.Recorded sha256 k) :
    R'.Fills sha256 (e.apply F) := by
  intro k
  by_cases hk : k = e.key
  · rw [hk, e.apply_key]
    exact hself
  · rw [e.apply_of_ne F hk, hother k hk]
    exact h k

lemma Fills.setAccounts (h : R.Fills sha256 F) {T : Str → Option (Str × Str)}
    (he : e.key = .accounts) (hT : KeepsTable (accountLine sha256) T (e.after (F .accounts))) :
    ({ R with account := T } : Registry Str).Fills sha256 (e.apply F) := by
  refine h.edit (by rw [he]; exact hT) fun k hk => ?_
  rw [he] at hk
  cases k <;> first | rfl | exact absurd rfl hk

lemma Fills.setSessions (h : R.Fills sha256 F) {T : Str → Option (Str × Str)}
    (he : e.key = .sessions) (hT : KeepsTable onlineRecord T (e.after (F .sessions))) :
    ({ R with address := T } : Registry Str).Fills sha256 (e.apply F) := by
  refine h.edit (by rw [he]; exact hT) fun k hk => ?_
  rw [he] at hk
  cases k <;> first | rfl | exact absurd rfl hk

lemma Fills.setGroups (h : R.Fills sha256 F) {T : Str → Option Str} (he : e.key = .groups)
    (hT : KeepsTable pairLine T (e.after (F .groups))) :
    ({ R with owner := T } : Registry Str).Fills sha256 (e.apply F) := by
  refine h.edit (by rw [he]; exact hT) fun k hk => ?_
  rw [he] at hk
  cases k <;> first | rfl | exact absurd rfl hk

lemma Fills.setRequests (h : R.Fills sha256 F) {S : Set (Str × Str)} (he : e.key = .requests)
    (hS : KeepsSet pairLine S (e.after (F .requests))) :
    ({ R with requests := S } : Registry Str).Fills sha256 (e.apply F) := by
  refine h.edit (by rw [he]; exact hS) fun k hk => ?_
  rw [he] at hk
  cases k <;> first | rfl | exact absurd rfl hk

lemma Fills.setMembers (h : R.Fills sha256 F) {g : Str} {S : Set Str} (he : e.key = .members g)
    (hS : KeepsSet id S (e.after (F (.members g)))) :
    ({ R with members := Function.update R.members g S } : Registry Str).Fills sha256
      (e.apply F) := by
  refine h.edit (by simpa [he, Recorded] using hS) fun k hk => ?_
  rw [he] at hk
  cases k with
  | members g' =>
    funext ls
    simp only [Recorded]
    rw [Function.update_of_ne fun hg => hk (congrArg Key.members hg)]
  | _ => rfl

lemma Fills.setShares (h : R.Fills sha256 F) {g : Str} {l : List (Share Str)}
    (he : e.key = .shared g) (hl : e.after (F (.shared g)) = l.map Share.line) :
    ({ R with shares := Function.update R.shares g l } : Registry Str).Fills sha256
      (e.apply F) := by
  refine h.edit (by simpa [he, Recorded] using hl) fun k hk => ?_
  rw [he] at hk
  cases k with
  | shared g' =>
    funext ls
    simp only [Recorded]
    rw [Function.update_of_ne fun hg => hk (congrArg Key.shared hg)]
  | _ => rfl

lemma Fills.setCopies (h : R.Fills sha256 F) {u : Str} {l : List (Location Str)}
    (he : e.key = .files u) (hl : e.after (F (.files u)) = l.map Location.line) :
    ({ R with copies := Function.update R.copies u l } : Registry Str).Fills sha256
      (e.apply F) := by
  refine h.edit (by simpa [he, Recorded] using hl) fun k hk => ?_
  rw [he] at hk
  cases k with
  | files u' =>
    funext ls
    simp only [Recorded]
    rw [Function.update_of_ne fun hu => hk (congrArg Key.files hu)]
  | _ => rfl

lemma Fills.setDownloading (h : R.Fills sha256 F) {u : Str} {l : List (Str × Str)}
    (he : e.key = .downloading u) (hl : e.after (F (.downloading u)) = l.map pairLine) :
    ({ R with downloading := Function.update R.downloading u l } : Registry Str).Fills sha256
      (e.apply F) := by
  refine h.edit (by simpa [he, Recorded] using hl) fun k hk => ?_
  rw [he] at hk
  cases k with
  | downloading u' =>
    funext ls
    simp only [Recorded]
    rw [Function.update_of_ne fun hu => hk (congrArg Key.downloading hu)]
  | _ => rfl

lemma Fills.setDownloaded (h : R.Fills sha256 F) {u : Str} {l : List (Str × Str)}
    (he : e.key = .downloaded u) (hl : e.after (F (.downloaded u)) = l.map pairLine) :
    ({ R with downloaded := Function.update R.downloaded u l } : Registry Str).Fills sha256
      (e.apply F) := by
  refine h.edit (by simpa [he, Recorded] using hl) fun k hk => ?_
  rw [he] at hk
  cases k with
  | downloaded u' =>
    funext ls
    simp only [Recorded]
    rw [Function.update_of_ne fun hu => hk (congrArg Key.downloaded hu)]
  | _ => rfl

/-- What is remembered is in no file. -/
lemma Fills.remember (h : R.Fills sha256 F) (S : Set (Str × Str)) :
    ({ R with remembered := S } : Registry Str).Fills sha256 F := by
  intro k
  have hk := h k
  cases k <;> exact hk

lemma Fills.refresh (h : R.Fills sha256 F) : R.refresh.Fills sha256 F := h.remember R.requests

end Edits

end Registry

end TorrentShare
