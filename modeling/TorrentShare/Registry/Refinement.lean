import TorrentShare.Program.Services
import TorrentShare.Registry.Records

/-!
# A tracker keeps a registry

Each handler that runs on a tracker whose files and tables are those of a registry comes to its
end, answers what the registry answers, and leaves files and tables of the registry afterwards.
-/

namespace TorrentShare

open Program

/-! ### What replies tell -/

/-- The reply tells the answer. -/
def Answer.Tells : Answer Str → Reply → Prop
  | .done b, r                => r = flag b
  | .names S, r               => ∃ xs : List Str,
      r = some (xs.flatMap putline) ∧ xs.Nodup ∧ ∀ x, x ∈ xs ↔ x ∈ S
  | .ascending S, r           => ∃ xs : List Str,
      r = some (xs.flatMap putline) ∧ xs.Pairwise (· < ·) ∧ ∀ x, x ∈ xs ↔ x ∈ S
  | .word w, r                => r = some (w.getD [])
  | .seeders S size, r        => ∃ xs : List Str, xs.Pairwise (· < ·) ∧ (∀ x, x ∈ xs ↔ x ∈ S) ∧
      r = some (if xs = [] then [] else fields (xs ++ [size.getD []]))
  | .address a, r             => r = some (fields [(a.getD ([], [])).1, (a.getD ([], [])).2])
  | .transfers running finished, r => r = some
      ((running.flatMap fun x => "[D] ".toList ++ putline (pairLine x)) ++
        finished.flatMap fun x => "[C] ".toList ++ putline (pairLine x))
  | .silent, r                => r = none

/-- The files and the tables in memory are those of the registry. -/
structure Tracker.Represents (sha256 : Str → List (Fin 256)) (E : Entities) (R : Registry Str)
    (t : Tracker) : Prop where
  sound : R.Sound
  cached : R.Cached t.memory
  filed : ∃ F P, E.Holds F P t.disk ∧ R.Fills sha256 F ∧ ∀ g, R.owner g ≠ none → .requests ∈ P

section Handlers

variable {sha256 : Str → List (Fin 256)} {E : Entities} {R : Registry Str} {s : Session}
  {F : Key → List Str} {P : Set Key} {m : Memory} {salt : Str} {α : Type}
  {Q : α → Session → Prop} {f : Unit → Prog callSig α}

lemma Tracker.Represents.at (h : s.tracker.Represents sha256 E R) :
    ∃ F P, E.At F P s.memory s.salt s ∧ R.Fills sha256 F ∧
      ∀ g, R.owner g ≠ none → .requests ∈ P := by
  obtain ⟨F, P, hd, hF, hP⟩ := h.filed
  exact ⟨F, P, ⟨hd, rfl, rfl⟩, hF, hP⟩

lemma Entities.At.represents (h : E.At F P m salt s) (hR : R.Sound) (hF : R.Fills sha256 F)
    (hm : R.Cached m) (hP : ∀ g, R.owner g ≠ none → .requests ∈ P) :
    s.tracker.Represents sha256 E R := by
  rw [← h.memory] at hm
  exact ⟨hR, hm, F, P, h.holds, hF, hP⟩

/-- `FetchDetails` loads the tables of the registry. -/
lemma Entities.At.reload (h : E.At F P m salt s) (hR : R.Sound) (hF : R.Fills sha256 F)
    (hf : ∀ s' m', E.At F (insert .requests P) m' salt s' → R.Loaded sha256 m' →
      (f ()).Ends callInterp s' Q) : (TorrentShare.fetchDetails >>= f).Ends callInterp s Q := by
  obtain ⟨m', hm⟩ := hF.reload h.holds m
  exact h.fetchDetails hm fun s' h' => hf s' m' h' (hF.loaded hR h.holds hm)

/-- What a registry answers and becomes is what a handler returns and leaves. -/
def Session.Shows (sha256 : Str → List (Fin 256)) (E : Entities) (r : Answer Str × Registry Str)
    (reply : Reply) (s : Session) : Prop :=
  r.1.Tells reply ∧ s.tracker.Represents sha256 E r.2

/-! ### Accounts -/

lemma userLogin_ends (h : s.tracker.Represents sha256 E R) {u p port ip : Str} (hu : IsToken u)
    (hport : IsToken port) (hip : IsToken ip) :
    (userLogin (hashPassword sha256) u p port ip).Ends callInterp s fun b s' =>
      s'.Shows sha256 E (R.login (hashPassword sha256) u p port ip) (flag b) := by
  have hsound : (R.login (hashPassword sha256) u p port ip).2.Sound := h.sound.login hu hport hip
  obtain ⟨F, P, hat, hF, -⟩ := h.at
  rw [userLogin]
  refine hat.reload h.sound hF fun s₁ m h₁ hm => h₁.tables ?_
  rw [hm.credentials]
  cases haccount : R.account u with
  | none =>
    have hlogin : R.login (hashPassword sha256) u p port ip = (.done false, R.refresh) := by
      simp [Registry.login, Registry.Knows, haccount]
    rw [hlogin] at hsound ⊢
    exact ⟨rfl, h₁.represents hsound hF.refresh hm.toCached fun _ _ => Or.inl rfl⟩
  | some a =>
    obtain ⟨password, salt⟩ := a
    obtain ⟨-, hsalt⟩ := h.sound.accounts u password salt haccount
    have hknows : R.Knows (hashPassword sha256) u p ↔
        hashPassword sha256 salt p = hashPassword sha256 salt password := by
      simp [Registry.Knows, haccount]
    simp only [Option.map_some, Account.storedSalt_credential (a := ⟨u, password, salt⟩) hsalt,
      Account.storedHash_credential (a := ⟨u, password, salt⟩) hsalt]
    split_ifs with hpassword
    · refine h₁.tables ?_
      have hline : '\n' ∉ fields [u, ip, port] := newline_fields (by simp [hu.1, hip.1, hport.1])
      have honline : u ∈ m.online ↔ R.address u ≠ none := hm.online u
      by_cases haddress : R.address u = none
      · have hlogin : R.login (hashPassword sha256) u p port ip = (.done true, { R.refresh with
            address := Function.update R.address u (some (ip, port)) }) := by
          simp [Registry.login, hknows, hpassword, haddress]
        rw [hlogin] at hsound ⊢
        rw [if_pos (by simp [honline, haddress])]
        refine h₁.modify fun s₂ h₂ => ends_lock (h₂.append (k := .sessions) trivial hline
          fun s₃ h₃ => ends_unlock (h₃.sync (k := .sessions) (Or.inl rfl) fun s₄ h₄ => ⟨rfl, ?_⟩))
        refine h₄.represents hsound (hF.refresh.setSessions rfl
          ((hF .sessions).insert haddress (ip, port))) ?_ fun _ _ => Or.inr (Or.inl rfl)
        refine { hm.toCached with online := fun v => ?_ }
        simp only [mem_setInsert_strLt, hm.online, Function.update_apply]
        split_ifs with hvu
        · simp [hvu]
        · simp [hvu, Registry.refresh]
      · have hlogin : R.login (hashPassword sha256) u p port ip = (.done true, R.refresh) := by
          simp [Registry.login, hknows, hpassword, haddress]
        rw [hlogin] at hsound ⊢
        rw [if_neg (by simp [honline, haddress])]
        exact ⟨rfl, h₁.represents hsound hF.refresh hm.toCached fun _ _ => Or.inl rfl⟩
    · have hlogin : R.login (hashPassword sha256) u p port ip = (.done false, R.refresh) := by
        simp [Registry.login, hknows, hpassword]
      rw [hlogin] at hsound ⊢
      exact ⟨rfl, h₁.represents hsound hF.refresh hm.toCached fun _ _ => Or.inl rfl⟩

lemma userCreate_ends (h : s.tracker.Represents sha256 E R) {u p port ip : Str} (hE : E.user u)
    (hu : IsToken u) (hport : IsToken port) (hip : IsToken ip) (hsalt : IsHex s.salt) :
    (userCreate (hashPassword sha256) u p port ip).Ends callInterp s fun b s' =>
      s'.Shows sha256 E (R.createUser s.salt u p port ip) (flag b) := by
  have hsound := h.sound.createUser (p := p) hu hport hip hsalt
  obtain ⟨F, P, hat, hF, -⟩ := h.at
  rw [userCreate]
  refine hat.reload h.sound hF fun s₁ m h₁ hm => h₁.tables ?_
  rw [hm.credentials]
  by_cases hnew : R.account u = none
  · have hcreate : R.createUser s.salt u p port ip = (.done true, { R.refresh with
        account := Function.update R.account u (some (p, s.salt))
        address := Function.update R.address u (some (ip, port))
        copies := Function.update R.copies u []
        downloading := Function.update R.downloading u []
        downloaded := Function.update R.downloaded u [] }) := by
      rw [Registry.createUser, if_pos hnew]
    have haddress : R.address u = none := by
      by_contra hsome
      obtain ⟨⟨a, b⟩, hab⟩ := Option.ne_none_iff_exists'.mp hsome
      exact (h.sound.addresses u a b hab).2.2.2 hnew
    have hline : '\n' ∉ fields [u, ip, port] := newline_fields (by simp [hu.1, hip.1, hport.1])
    have hcredential : '\n' ∉
        fields [u, s.salt ++ [':'] ++ hashPassword sha256 s.salt p] := by
      refine not_mem_fields (by decide) ?_
      simp [hu.1.newline, hsalt.isWord.newline, hashPassword, (isWord_hex _).newline]
    rw [hcreate] at hsound ⊢
    rw [hnew]
    refine ends_lock (h₁.modify fun s₂ h₂ => h₂.append (k := .sessions) trivial hline
      fun s₃ h₃ => h₃.generateSalt (h₃.append (k := .accounts) trivial hcredential
      fun s₄ h₄ => h₄.create (k := .files u) (t := []) hE (by simp)
      fun s₅ h₅ => h₅.create (k := .downloading u) (t := []) hE (by simp)
      fun s₆ h₆ => h₆.create (k := .downloaded u) (t := []) hE (by simp)
      fun s₇ h₇ => ends_unlock ?_))
    have hF₃ := hF.refresh.setSessions (e := .append .sessions (fields [u, ip, port])) rfl
      ((hF .sessions).insert haddress (ip, port))
    have hF₄ := hF₃.setAccounts (e := .append .accounts
      (fields [u, s.salt ++ [':'] ++ hashPassword sha256 s.salt p])) rfl
      ((hF .accounts).insert hnew (p, s.salt))
    have hF₅ := hF₄.setCopies (e := .create (.files u) []) (l := []) rfl rfl
    have hF₆ := hF₅.setDownloading (e := .create (.downloading u) []) (l := []) rfl rfl
    have hF₇ := hF₆.setDownloaded (e := .create (.downloaded u) []) (l := []) rfl rfl
    refine h₇.sync (k := .sessions) (by simp) fun s₈ h₈ => h₈.sync (k := .accounts) (by simp)
      fun s₉ h₉ => h₉.sync (k := .files u) (by simp)
      fun s₁₀ h₁₀ => h₁₀.sync (k := .downloading u) (by simp)
      fun s₁₁ h₁₁ => h₁₁.sync (k := .downloaded u) (by simp)
      fun s₁₂ h₁₂ => h₁₂.reload hsound hF₇ fun s₁₃ m' h₁₃ hm' => ⟨rfl, ?_⟩
    exact h₁₃.represents hsound hF₇ hm'.toCached fun _ _ => Or.inl rfl
  · have hcreate : R.createUser s.salt u p port ip = (.done false, R.refresh) := by
      rw [Registry.createUser, if_neg hnew]
    obtain ⟨a, ha⟩ := Option.ne_none_iff_exists'.mp hnew
    rw [hcreate] at hsound ⊢
    rw [ha]
    exact ⟨rfl, h₁.represents hsound hF.refresh hm.toCached fun _ _ => Or.inl rfl⟩

lemma logout_ends (h : s.tracker.Represents sha256 E R) (u : Str) :
    (logout u).Ends callInterp s fun b s' => s'.Shows sha256 E (R.logout u) (flag b) := by
  have hsound := h.sound.logout u
  obtain ⟨F, P, hat, hF, -⟩ := h.at
  rw [logout]
  refine hat.reload h.sound hF fun s₁ m h₁ hm => h₁.tables ?_
  have honline : u ∈ m.online ↔ R.address u ≠ none := hm.online u
  by_cases haddress : R.address u = none
  · have hlogout : R.logout u = (.done false, R.refresh) := by
      rw [Registry.logout, if_pos haddress]
    rw [hlogout] at hsound ⊢
    rw [if_neg (by simp [honline, haddress])]
    exact ⟨rfl, h₁.represents hsound hF.refresh hm.toCached fun _ _ => Or.inl rfl⟩
  · have hlogout : R.logout u = (.done true, { R.refresh with
        address := Function.update R.address u none }) := by
      rw [Registry.logout, if_neg haddress]
    have hF₂ := hF.refresh.setSessions (e := .drop .sessions (hasField 0 u)) rfl
      ((hF .sessions).erase u fun v a ha => by
        obtain ⟨hv, hip, hport, -⟩ := h.sound.addresses v a.1 a.2 ha
        exact hasField_onlineRecord ⟨hv.1, hip.1, hport.1⟩ u)
    rw [hlogout] at hsound ⊢
    rw [if_pos (honline.mpr haddress)]
    refine h₁.deleteLine (k := .sessions) trivial (fun l _ => first_field_ne_none l)
      fun s₂ h₂ => h₂.sync (k := .sessions) (by simp)
      fun s₃ h₃ => h₃.reload hsound hF₂ fun s₄ m' h₄ hm' => ⟨rfl, ?_⟩
    exact h₄.represents hsound hF₂ hm'.toCached fun _ _ => Or.inl rfl

/-! ### Groups -/

lemma groupCreate_ends (h : s.tracker.Represents sha256 E R) {g u : Str} (hE : E.group g)
    (hg : IsToken g) (hu : IsToken u) : (groupCreate g u).Ends callInterp s fun b s' =>
      s'.Shows sha256 E (R.createGroup g u) (flag b) := by
  have hsound := h.sound.createGroup hg hu
  obtain ⟨F, P, hat, hF, -⟩ := h.at
  rw [groupCreate]
  refine hat.reload h.sound hF fun s₁ m h₁ hm => h₁.tables ?_
  rw [hm.groups]
  by_cases hnew : R.owner g = none
  · have hcreate : R.createGroup g u = (.done true, { R.refresh with
        owner := Function.update R.owner g (some u)
        members := Function.update R.members g {u}
        shares := Function.update R.shares g [] }) := by
      rw [Registry.createGroup, if_pos hnew]
    have hline : '\n' ∉ fields [g, u] := newline_fields (by simp [hg.1, hu.1])
    have hF₂ := hF.refresh.setGroups (e := .append .groups (fields [g, u])) rfl
      ((hF .groups).insert hnew u)
    have hF₃ := hF₂.setMembers (e := .create (.members g) [u]) (S := {u}) rfl
      ⟨[u], rfl, by simp⟩
    have hF₄ := hF₃.setShares (e := .create (.shared g) []) (l := []) rfl rfl
    rw [hcreate] at hsound ⊢
    rw [show R.refresh.owner g = none from hnew]
    refine ends_lock (h₁.append (k := .groups) trivial hline
      fun s₂ h₂ => h₂.createLine (k := .members g) hE hu.1.newline
      fun s₃ h₃ => h₃.create (k := .shared g) (t := []) hE (by simp)
      fun s₄ h₄ => ends_unlock (h₄.sync (k := .groups) (by simp)
      fun s₅ h₅ => h₅.sync (k := .members g) (by simp)
      fun s₆ h₆ => h₆.sync (k := .shared g) (by simp)
      fun s₇ h₇ => h₇.reload hsound hF₄ fun s₈ m' h₈ hm' => ⟨rfl, ?_⟩))
    exact h₈.represents hsound hF₄ hm'.toCached fun _ _ => Or.inl rfl
  · have hcreate : R.createGroup g u = (.done false, R.refresh) := by
      rw [Registry.createGroup, if_neg hnew]
    obtain ⟨o, ho⟩ := Option.ne_none_iff_exists'.mp hnew
    rw [hcreate] at hsound ⊢
    rw [show R.refresh.owner g = some o from ho]
    exact ⟨rfl, h₁.represents hsound hF.refresh hm.toCached fun _ _ => Or.inl rfl⟩

lemma groupList_ends (h : s.tracker.Represents sha256 E R) :
    groupList.Ends callInterp s fun data s' => s'.Shows sha256 E R.listGroups (some data) := by
  obtain ⟨F, P, hat, hF, -⟩ := h.at
  rw [groupList]
  refine hat.reload h.sound hF fun s₁ m h₁ hm => h₁.tables ⟨?_, ?_⟩
  · refine ⟨m.groups.map Prod.fst, by rw [List.flatMap_map], hm.groupNames, fun g => ?_⟩
    rw [Set.mem_ofPred_eq, ← show R.refresh.owner g = R.owner g from rfl, ← hm.groups]
    constructor
    · intro hg
      obtain ⟨⟨g, o⟩, he, rfl⟩ := List.mem_map.mp hg
      rw [(lookup_of_nodup hm.groupNames g o).mpr he]
      exact Option.some_ne_none o
    · intro hg
      obtain ⟨o, ho⟩ := Option.ne_none_iff_exists'.mp hg
      exact List.mem_map_of_mem ((lookup_of_nodup hm.groupNames g o).mp ho)
  · exact h₁.represents h.sound.refresh hF.refresh hm.toCached fun _ _ => Or.inl rfl

lemma groupRequestList_ends (h : s.tracker.Represents sha256 E R) (g u : Str) :
    (groupRequestList g u).Ends callInterp s fun data s' =>
      s'.Shows sha256 E (R.listRequests g u) (some data) := by
  obtain ⟨F, P, hat, hF, -⟩ := h.at
  rw [groupRequestList]
  refine hat.reload h.sound hF fun s₁ m h₁ hm => h₁.tables ?_
  have hrep := h₁.represents h.sound.refresh hF.refresh hm.toCached fun _ _ => Or.inl rfl
  have hnone : R.owner g ≠ some u → (R.listRequests g u).1.Tells (some []) := by
    intro howner
    exact ⟨[], rfl, List.Pairwise.nil, by simp [howner]⟩
  rw [hm.groups]
  cases howner : R.owner g with
  | none =>
    rw [show R.refresh.owner g = none from howner]
    exact ⟨hnone (by simp [howner]), hrep⟩
  | some o =>
    rw [show R.refresh.owner g = some o from howner]
    dsimp only
    split_ifs with huser
    · exact ⟨hnone (by simpa [howner, eq_comm] using huser), hrep⟩
    · rw [not_not] at huser
      subst huser
      refine ⟨⟨(m.pendingGroupRequests.filter (·.2 = g)).map Prod.fst, ?_, ?_, fun v => ?_⟩, hrep⟩
      · rw [List.flatMap_map]
      · -- of two requests for the group the first user is the smaller one
        rw [List.pairwise_map]
        refine (hm.sorted.filter _).imp_of_mem fun {p q} hp hq hpq => ?_
        have hpg := of_decide_eq_true (List.mem_filter.mp hp).2
        have hqg := of_decide_eq_true (List.mem_filter.mp hq).2
        rcases pairLt_iff.mp hpq with hlt | ⟨-, hlt⟩
        · exact hlt
        · rw [hpg, hqg] at hlt
          exact absurd hlt (lt_irrefl g)
      · simp only [List.mem_map, List.mem_filter, decide_eq_true_eq, Set.mem_ofPred_eq, howner,
          true_and]
        constructor
        · rintro ⟨p, ⟨hp, rfl⟩, rfl⟩
          exact (hm.requests p).mp hp
        · intro hv
          exact ⟨(v, g), ⟨(hm.requests _).mpr hv, rfl⟩, rfl⟩

lemma groupFileList_ends (h : s.tracker.Represents sha256 E R) {g : Str} (hE : E.group g) :
    (groupFileList g).Ends callInterp s fun data s' =>
      s'.Shows sha256 E (R.listFiles g) (some data) := by
  obtain ⟨F, P, hat, hF, -⟩ := h.at
  rw [groupFileList]
  refine hat.reload h.sound hF fun s₁ m h₁ hm => h₁.tables ?_
  have hrep := h₁.represents h.sound.refresh hF.refresh hm.toCached fun _ _ => Or.inl rfl
  rw [hm.groups]
  cases howner : R.owner g with
  | none =>
    rw [show R.refresh.owner g = none from howner]
    exact ⟨⟨[], rfl, List.Pairwise.nil, by simp [howner]⟩, hrep⟩
  | some o =>
    rw [show R.refresh.owner g = some o from howner]
    refine ends_lock (h₁.read (k := .shared g) hE fun c hc => ?_)
    have hnames : (getlines (c.getD [])).mapM (fun l => (split l ' ')[3]?) =
        some ((R.shares g).map (·.name)) := by
      rw [hc, show F (.shared g) = (R.shares g).map Share.line from hF (.shared g)]
      exact mapM_map_line fun a ha => by rw [h.sound.split_share ha]; rfl
    refine ends_checked hnames (ends_unlock ⟨⟨_, rfl, ?_, fun f => ?_⟩, hrep⟩)
    · exact pairwise_foldl_setInsert_map id _ List.Pairwise.nil
    · rw [mem_foldl_setInsert, List.mem_map]
      simp [howner]

lemma groupJoin_ends (h : s.tracker.Represents sha256 E R) {g u : Str} (hE : E.group g)
    (hg : IsToken g) (hu : IsToken u) : (groupJoin g u).Ends callInterp s fun b s' =>
      s'.Shows sha256 E (R.joinGroup g u) (flag b) := by
  have hsound := h.sound.joinGroup hg hu
  have hm : R.Cached s.memory := h.cached
  have hline : '\n' ∉ fields [u, g] := newline_fields (by simp [hg.1, hu.1])
  obtain ⟨F, P, hat, hF, hP⟩ := h.at
  rw [groupJoin]
  refine hat.tables ?_
  rw [hm.groups]
  cases howner : R.owner g with
  | none =>
    have hjoin : R.joinGroup g u = (.done false, R) := by simp [Registry.joinGroup, howner]
    rw [hjoin]
    exact ⟨rfl, h⟩
  | some o =>
    have hgroup : R.owner g ≠ none := by simp [howner]
    refine hat.fetchGroupMembers hE fun s₁ us hus h₁ => h₁.tables ?_
    have hmember : u ∈ us ↔ u ∈ R.members g := (hus u).trans ((hF (.members g)).mem_iff u)
    have hm₁ : R.Cached { s.memory with groupMembers := us } := { hm with }
    by_cases hin : u ∈ R.members g
    · have hjoin : R.joinGroup g u = (.done true, R) := by
        simp [Registry.joinGroup, howner, hin]
      rw [hjoin]
      rw [if_pos (hmember.mpr hin)]
      exact ⟨rfl, h₁.represents h.sound hF hm₁ hP⟩
    · have hjoin : R.joinGroup g u = (.done true, { R with
          requests := insert (u, g) R.requests
          remembered := insert (u, g) R.remembered }) := by
        simp [Registry.joinGroup, howner, hin]
      have hF₂ := (hF.remember (insert (u, g) R.remembered)).setRequests
        (e := .append .requests (fields [u, g])) rfl ((hF .requests).insert (u, g))
      have hremembered : ∀ q, q ∈ setInsert pairLt (u, g) s.memory.pendingGroupRequests ↔
          q ∈ insert (u, g) R.remembered := by
        intro q
        rw [mem_setInsert_pairLt, hm.requests, Set.mem_insert_iff]
      rw [hjoin] at hsound ⊢
      rw [if_neg (mt hmember.mp hin)]
      split_ifs with honline hpending
      · refine h₁.modify fun s₂ h₂ => ends_lock (h₂.append (k := .requests) trivial hline
          fun s₃ h₃ => ends_unlock (h₃.modify fun s₄ h₄ => h₄.sync (k := .requests) (by simp)
          fun s₅ h₅ => ⟨rfl, h₅.represents hsound hF₂ ?_ fun _ _ => Or.inl rfl⟩))
        exact { hm₁ with requests := hremembered }
      · -- a request that is remembered, of a user who is no member, is there
        have hthere : (u, g) ∈ R.remembered := (hm.requests _).mp hpending
        have hrequest : (u, g) ∈ R.requests := (h.sound.remembered u g hthere).resolve_right hin
        rw [Set.insert_eq_of_mem hrequest, Set.insert_eq_of_mem hthere]
        exact h₁.sync (k := .requests) (hP g hgroup) fun s₂ h₂ =>
          ⟨rfl, h₂.represents h.sound hF hm₁ hP⟩
      · refine ends_lock (h₁.append (k := .requests) trivial hline
          fun s₃ h₃ => h₃.modify fun s₄ h₄ => ends_unlock (h₄.sync (k := .requests) (by simp)
          fun s₅ h₅ => ⟨rfl, h₅.represents hsound hF₂ ?_ fun _ _ => Or.inl rfl⟩))
        exact { hm₁ with requests := hremembered }

lemma groupAcceptRequest_ends (h : s.tracker.Represents sha256 E R) {g u : Str} (a : Str)
    (hE : E.group g) (hu : IsToken u) : (groupAcceptRequest g u a).Ends callInterp s fun b s' =>
      s'.Shows sha256 E (R.acceptRequest g u a) (flag b) := by
  have hsound := h.sound.acceptRequest (g := g) a hu
  have hm : R.Cached s.memory := h.cached
  obtain ⟨F, P, hat, hF, hP⟩ := h.at
  rw [groupAcceptRequest]
  refine hat.tables ?_
  by_cases hgranted : R.owner g = some a ∧ R.account u ≠ none ∧ (u, g) ∈ R.remembered
  · have hgroup : R.owner g ≠ none := by simp [hgranted.1]
    rw [if_neg (by simpa [hm.groups, hm.accounts, hm.requests, not_or] using hgranted)]
    refine hat.fetchGroupMembers hE fun s₁ us hus h₁ => h₁.tables ?_
    have hmember : u ∈ us ↔ u ∈ R.members g := (hus u).trans ((hF (.members g)).mem_iff u)
    have hm₁ : R.Cached { s.memory with groupMembers := us } := { hm with }
    by_cases hin : u ∈ R.members g
    · have haccept : R.acceptRequest g u a = (.done true, R) := by
        simp [Registry.acceptRequest, hgranted, hin]
      rw [haccept]
      rw [if_pos (hmember.mpr hin)]
      exact ⟨rfl, h₁.represents h.sound hF hm₁ hP⟩
    · have haccept : R.acceptRequest g u a = (.done true, { R with
          members := Function.update R.members g (insert u (R.members g))
          requests := R.requests \ {(u, g)} }) := by
        simp [Registry.acceptRequest, hgranted, hin]
      have hF₂ := hF.setMembers (e := .append (.members g) u) rfl ((hF (.members g)).insert u)
      have hthere := (h.sound.remembered u g hgranted.2.2).resolve_right hin
      have hrequest := h.sound.requests u g hthere
      have hF₃ := hF₂.setRequests (S := R.requests \ {(u, g)})
        (e := .drop .requests fun l => some (decide (l = fields [u, g])) == some true) rfl
        ((hF .requests).drop (fun p hp => by
          have hline : pairLine p = fields [u, g] ↔ p = (u, g) :=
            pairLine_inj (q := (u, g)) hrequest
          simp [hp, hline]) fun _ hp => hp.1)
      rw [haccept] at hsound ⊢
      rw [if_neg (mt hmember.mp hin)]
      refine ends_lock (h₁.append (k := .members g) hE hu.1.newline
        fun s₂ h₂ => ends_unlock (h₂.deleteWholeLine (k := .requests) trivial
        fun s₃ h₃ => h₃.sync (k := .requests) (by simp)
        fun s₄ h₄ => h₄.sync (k := .members g) (by simp)
        fun s₅ h₅ => ⟨rfl, h₅.represents hsound hF₃ { hm₁ with } fun _ _ => Or.inl rfl⟩))
  · have haccept : R.acceptRequest g u a = (.done false, R) := by
      rw [Registry.acceptRequest, if_neg hgranted]
    rw [haccept]
    rw [if_pos (by
      rw [hm.groups, hm.accounts, hm.requests]
      by_contra hnot
      simp only [not_or, not_not] at hnot
      exact hgranted hnot)]
    exact ⟨rfl, h⟩

lemma groupLeave_ends (h : s.tracker.Represents sha256 E R) {g u : Str} (hg : E.group g)
    (hu : E.user u) : (groupLeave g u).Ends callInterp s fun b s' =>
      s'.Shows sha256 E (R.leaveGroup g u) (flag b) := by
  have hsound := h.sound.leaveGroup g u
  have hm : R.Cached s.memory := h.cached
  obtain ⟨F, P, hat, hF, hP⟩ := h.at
  rw [groupLeave]
  refine hat.tables ?_
  rw [hm.groups]
  cases howner : R.owner g with
  | none =>
    have hleave : R.leaveGroup g u = (.done false, R) := by simp [Registry.leaveGroup, howner]
    rw [hleave]
    exact ⟨rfl, h⟩
  | some o =>
    refine hat.fetchGroupMembers hg fun s₁ us hus h₁ => h₁.tables ?_
    have hmember : u ∈ us ↔ u ∈ R.members g := (hus u).trans ((hF (.members g)).mem_iff u)
    have hm₁ : R.Cached { s.memory with groupMembers := us } := { hm with }
    by_cases hin : u ∈ R.members g ∧ o ≠ u
    · have hleave : R.leaveGroup g u = (.done true, { R.refresh with
          members := Function.update R.members g (R.members g \ {u})
          shares := Function.update R.shares g ((R.shares g).filter (·.user ≠ u))
          copies := Function.update R.copies u ((R.copies u).filter (·.group ≠ g)) }) := by
        simp [Registry.leaveGroup, howner, hin]
      have hF₂ := hF.refresh.setMembers (S := R.members g \ {u})
        (e := .drop (.members g) (hasField 0 u)) rfl
        ((hF (.members g)).drop (fun v hv => by
          have hfield := hasField_iff (i := 0) (x := u) (l := v)
          rw [split_word (h.sound.members g v hv).1.blank] at hfield
          simpa [hv, ← Bool.not_eq_true] using (not_congr hfield).symm) fun _ hv => hv.1)
      have hF₃ := hF₂.setShares (l := (R.shares g).filter (·.user ≠ u))
        (e := .drop (.shared g) (hasField 2 u)) rfl (by
          change (F (.shared g)).filter (!hasField 2 u ·) = _
          rw [show F (.shared g) = (R.shares g).map Share.line from hF (.shared g),
            filter_map_line (p := fun a => decide (a.user = u))]
          · simp
          · intro a ha
            simp [hasField, fieldIs, h.sound.split_share ha])
      have hF₄ := hF₃.setCopies (l := (R.copies u).filter (·.group ≠ g))
        (e := .drop (.files u) (hasField 0 g)) rfl (by
          change (F (.files u)).filter (!hasField 0 g ·) = _
          rw [show F (.files u) = (R.copies u).map Location.line from hF (.files u),
            filter_map_line (p := fun c => decide (c.group = g))]
          · simp
          · intro c hc
            simp [hasField, fieldIs, h.sound.split_location hc])
      rw [hleave] at hsound ⊢
      rw [if_neg (by simp [hmember, hin])]
      refine h₁.deleteLine (k := .members g) hg (fun l _ => first_field_ne_none l)
        fun s₂ h₂ => h₂.deleteLine (k := .shared g) hg ?_
        fun s₃ h₃ => h₃.deleteLine (k := .files u) hu (fun l _ => first_field_ne_none l)
        fun s₄ h₄ => h₄.sync (k := .members g) (by simp)
        fun s₅ h₅ => h₅.sync (k := .shared g) (by simp)
        fun s₆ h₆ => h₆.sync (k := .files u) (by simp)
        fun s₇ h₇ => h₇.reload hsound hF₄ fun s₈ m' h₈ hm' => ⟨rfl, ?_⟩
      · intro l hl
        change l ∈ F (.shared g) at hl
        rw [show F (.shared g) = (R.shares g).map Share.line from hF (.shared g)] at hl
        obtain ⟨a, ha, rfl⟩ := List.mem_map.mp hl
        simp [h.sound.split_share ha]
      · exact h₈.represents hsound hF₄ hm'.toCached fun _ _ => Or.inl rfl
    · have hleave : R.leaveGroup g u = (.done false, R) := by
        simpa [Registry.leaveGroup, howner] using hin
      rw [hleave]
      rw [if_pos (by rw [hmember]; by_contra hnot; exact hin (by simpa [not_or] using hnot))]
      exact ⟨rfl, h₁.represents h.sound hF hm₁ hP⟩

end Handlers

end TorrentShare
