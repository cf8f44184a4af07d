import TorrentShare.Registry.Histories

/-!
# What does not show

A tracker that is started again between two commands goes on as if it had not been, and what is
done in other groups does not show in a group.
-/

namespace TorrentShare

open Program

/-- The files are those of the registry. -/
def Tracker.Stores (sha256 : Str → List (Fin 256)) (E : Entities) (R : Registry Str) (t : Tracker) :
    Prop :=
  ∃ F P, E.Holds F P t.disk ∧ R.Fills sha256 F

/-- The act is a command. -/
def Act.isCommand : Act → Bool
  | .command .. => true
  | .restart    => false

/-- `add_file` looks at copies of files in all groups. -/
def Act.Confined (G : Str → Bool) : Act → Prop
  | .command (.addFile g _ _ _) _ _ => G g = true → ∀ k, G k = true
  | _                               => True

/-- All groups that the command names are among these. -/
def Act.visible (G : Str → Bool) : Act → Bool
  | .command c _ _ => c.groups.all G
  | .restart       => false

/-- The answers are the same. But `accept_request` may be refused in the first place, and what is
    listed of all groups is not compared unless they are all among these. -/
def Act.Agree (G : Str → Bool) : Act → Answer Str → Answer Str → Prop
  | .command (.acceptRequest ..) _ _, x, y => x = y ∨ x = .done false
  | .command .listGroups _ _, x, y         => (∀ g, G g = true) → x = y
  | .command (.showDownloads _) _ _, x, y  => (∀ g, G g = true) → x = y
  | _, x, y                                => x = y

namespace Registry

variable {sha256 : Str → List (Fin 256)} {R R' : Registry Str} {salt : Str} {c : Command}

/-- Requests are remembered, and what is remembered besides has been granted. -/
structure Remembers (R : Registry Str) : Prop where
  requests : R.requests ⊆ R.remembered
  remembered : ∀ u g, (u, g) ∈ R.remembered → (u, g) ∈ R.requests ∨ u ∈ R.members g

lemma remembers_refresh (R : Registry Str) : R.refresh.Remembers :=
  ⟨subset_rfl, fun _ _ => Or.inl⟩

lemma Remembers.command (h : R.Remembers) : (R.command sha256 salt c).2.Remembers := by
  have hrefreshed : ∀ R' : Registry Str, R'.remembered = R'.requests → R'.Remembers := by
    intro R' heq
    exact ⟨heq.ge, fun u g hu => Or.inl (heq ▸ hu)⟩
  cases c with
  | joinGroup g u =>
    rw [Registry.command, joinGroup]
    split_ifs with hgroup hmember
    · exact h
    · exact h
    · refine ⟨Set.insert_subset_insert h.requests, fun v k hv => ?_⟩
      rcases hv with hv | hv
      · exact Or.inl (Or.inl hv)
      · exact (h.remembered v k hv).imp_left Or.inr
  | acceptRequest g u a =>
    rw [Registry.command, acceptRequest]
    split_ifs with hgranted hmember
    · exact h
    · refine ⟨fun q hq => h.requests hq.1, fun v k hv => ?_⟩
      simp only [Function.update_apply, Set.mem_sdiff, Set.mem_singleton_iff, Prod.mk.injEq]
      by_cases hkg : k = g
      · by_cases hvu : v = u
        · simp [hkg, hvu]
        · subst hkg
          simpa [hvu] using h.remembered v k hv
      · simpa [hkg] using h.remembered v k hv
    · exact h
  | uploadFile z size g u f p =>
    rw [Registry.command, uploadFile]
    split_ifs <;> exact ⟨h.requests, h.remembered⟩
  | stopShare g f u =>
    rw [Registry.command, stopShare]
    split_ifs <;> exact ⟨h.requests, h.remembered⟩
  | leaveGroup g u =>
    rw [Registry.command, leaveGroup]
    split_ifs with hleave
    · exact hrefreshed _ rfl
    · exact h
  | sendFullPath u g f => exact h
  | login u p port ip =>
    rw [Registry.command, login]
    split_ifs <;> exact hrefreshed _ rfl
  | createUser u p port ip =>
    rw [Registry.command, createUser]
    split_ifs <;> exact hrefreshed _ rfl
  | createGroup g u =>
    rw [Registry.command, createGroup]
    split_ifs <;> exact hrefreshed _ rfl
  | logout u =>
    rw [Registry.command, logout]
    split_ifs <;> exact hrefreshed _ rfl
  | giveSha g f u =>
    rw [Registry.command, giveSha]
    split_ifs <;> exact hrefreshed _ rfl
  | addFile g f p u =>
    rw [Registry.command, addFile]
    split_ifs <;> exact hrefreshed _ rfl
  | _ => exact hrefreshed _ rfl

/-! ### Some of the groups -/

/-- Two registries say the same of some groups, and the first one does not remember more. -/
structure AlikeIn (G : Str → Bool) (R R' : Registry Str) : Prop where
  account : R.account = R'.account
  address : R.address = R'.address
  owner : ∀ g, G g = true → R.owner g = R'.owner g
  members : ∀ g, G g = true → R.members g = R'.members g
  requests : ∀ u g, G g = true → ((u, g) ∈ R.requests ↔ (u, g) ∈ R'.requests)
  remembered : ∀ u g, G g = true → (u, g) ∈ R.remembered → (u, g) ∈ R'.remembered
  shares : ∀ g, G g = true → R.shares g = R'.shares g
  copies : ∀ u, (R.copies u).filter (G ·.group) = (R'.copies u).filter (G ·.group)
  downloading : ∀ u, (R.downloading u).filter (G ·.1) = (R'.downloading u).filter (G ·.1)
  downloaded : ∀ u, (R.downloaded u).filter (G ·.1) = (R'.downloaded u).filter (G ·.1)

section AlikeIn

variable {G : Str → Bool}

lemma AlikeIn.refl (G : Str → Bool) (R : Registry Str) : AlikeIn G R R := by
  constructor <;> simp

lemma AlikeIn.refresh (h : AlikeIn G R R') : AlikeIn G R.refresh R'.refresh :=
  { h with remembered := fun u g hg hu => (h.requests u g hg).mp hu }

/-- A refresh of the first one does not show. -/
lemma AlikeIn.refresh_left (h : AlikeIn G R R') (hR' : R'.Remembers) : AlikeIn G R.refresh R' :=
  { h with remembered := fun u g hg hu => hR'.requests ((h.requests u g hg).mp hu) }

lemma filter_update {α : Type} {q : α → Bool} {f f' : Str → List α} {k : Str} {l l' : List α}
    (h : ∀ u, (f u).filter q = (f' u).filter q) (hl : l.filter q = l'.filter q) (u : Str) :
    (Function.update f k l u).filter q = (Function.update f' k l' u).filter q := by
  rw [Function.update_apply, Function.update_apply]
  split_ifs
  · exact hl
  · exact h u

lemma filter_update_left {α : Type} {q : α → Bool} {f : Str → List α} {k : Str} {l : List α}
    (hl : l.filter q = (f k).filter q) (u : Str) :
    (Function.update f k l u).filter q = (f u).filter q := by
  rw [Function.update_apply]
  split_ifs with hu
  · rw [hl, hu]
  · rfl

/-- A filter that drops only what another one drops as well. -/
lemma filter_filter_of_imp {α : Type} {p q : α → Bool} (l : List α)
    (h : ∀ a, q a = true → p a = true) : (l.filter p).filter q = l.filter q := by
  rw [List.filter_filter]
  refine List.filter_congr fun a _ => ?_
  cases hq : q a with
  | true => rw [h a hq, Bool.and_true]
  | false => exact Bool.false_and _

lemma filter_filter_congr {α : Type} {q : α → Bool} {l l' : List α} (p : α → Bool)
    (h : l.filter q = l'.filter q) : (l.filter p).filter q = (l'.filter p).filter q := by
  rw [List.filter_filter, List.filter_congr fun _ _ => Bool.and_comm .., ← List.filter_filter, h,
    List.filter_filter, List.filter_congr fun _ _ => Bool.and_comm .., ← List.filter_filter]

/-- A command on some of the groups means the same for registries that are alike in them. Only
    `add_file` looks at copies of other groups. -/
lemma AlikeIn.command (h : AlikeIn G R R') (hR : R.Remembers) (hR' : R'.Remembers)
    (hc : c.groups.all G = true)
    (hadd : ∀ g f p u, c = .addFile g f p u → ∀ k, G k = true) (salt : Str)
    (bytes : List (Fin 256)) (online : Bool) :
    Act.Agree G (.command c bytes online) (R.command sha256 salt c).1 (R'.command sha256 salt c).1 ∧
      AlikeIn G (R.command sha256 salt c).2 (R'.command sha256 salt c).2 := by
  cases c with
  | login u p port ip =>
    have hknows : R.Knows (hashPassword sha256) u p ↔ R'.Knows (hashPassword sha256) u p := by
      rw [Knows, Knows, h.account]
    rw [Registry.command, Registry.command, login, login, h.address]
    by_cases hpassword : R'.Knows (hashPassword sha256) u p
    · rw [if_pos hpassword, if_pos (hknows.mpr hpassword)]
      split_ifs
      · exact ⟨rfl, { h.refresh with address := rfl }⟩
      · exact ⟨rfl, h.refresh⟩
    · rw [if_neg hpassword, if_neg (mt hknows.mp hpassword)]
      exact ⟨rfl, h.refresh⟩
  | createUser u p port ip =>
    rw [Registry.command, Registry.command, createUser, createUser, h.account, h.address]
    split_ifs
    · refine ⟨rfl, { h.refresh with
        account := rfl, address := rfl, copies := ?_, downloading := ?_, downloaded := ?_ }⟩
      · exact filter_update h.copies rfl
      · exact filter_update h.downloading rfl
      · exact filter_update h.downloaded rfl
    · exact ⟨rfl, h.refresh⟩
  | logout u =>
    rw [Registry.command, Registry.command, logout, logout, h.address]
    split_ifs
    · exact ⟨rfl, h.refresh⟩
    · exact ⟨rfl, { h.refresh with address := rfl }⟩
  | createGroup k u =>
    have hk : G k = true := by simpa [Command.groups] using hc
    rw [Registry.command, Registry.command, createGroup, createGroup, h.owner k hk]
    split_ifs
    · refine ⟨rfl, { h.refresh with
        owner := fun g hg => ?_, members := fun g hg => ?_, shares := fun g hg => ?_ }⟩
      · simp only [Function.update_apply, h.owner g hg]
      · simp only [Function.update_apply, h.members g hg]
      · simp only [Function.update_apply, h.shares g hg]
    · exact ⟨rfl, h.refresh⟩
  | listGroups =>
    refine ⟨fun hall => ?_, h.refresh⟩
    have howner : R.owner = R'.owner := funext fun g => h.owner g (hall g)
    simp only [Registry.command, listGroups, howner]
  | listRequests k u =>
    have hk : G k = true := by simpa [Command.groups] using hc
    refine ⟨?_, h.refresh⟩
    simp only [Act.Agree, Registry.command, listRequests, h.owner k hk, h.requests _ k hk]
  | listFiles k =>
    have hk : G k = true := by simpa [Command.groups] using hc
    refine ⟨?_, h.refresh⟩
    simp only [Act.Agree, Registry.command, listFiles, h.owner k hk, h.shares k hk]
  | joinGroup k u =>
    have hk : G k = true := by simpa [Command.groups] using hc
    rw [Registry.command, Registry.command, joinGroup, joinGroup, h.owner k hk, h.members k hk]
    split_ifs
    · exact ⟨rfl, h⟩
    · exact ⟨rfl, h⟩
    · refine ⟨rfl, { h with requests := fun v g hg => ?_, remembered := fun v g hg => ?_ }⟩
      · exact or_congr_right (h.requests v g hg)
      · exact Or.imp_right (h.remembered v g hg)
  | acceptRequest k u a =>
    have hk : G k = true := by simpa [Command.groups] using hc
    rw [Registry.command, Registry.command, acceptRequest, acceptRequest, h.account, h.owner k hk,
      h.members k hk]
    by_cases hgranted : R'.owner k = some a ∧ R'.account u ≠ none ∧ (u, k) ∈ R.remembered
    · have hgranted' : R'.owner k = some a ∧ R'.account u ≠ none ∧ (u, k) ∈ R'.remembered :=
        ⟨hgranted.1, hgranted.2.1, h.remembered u k hk hgranted.2.2⟩
      rw [if_pos hgranted, if_pos hgranted']
      refine ⟨Or.inl rfl, ?_⟩
      split_ifs
      · exact h
      · refine { h with
          account := rfl, members := fun g hg => ?_, requests := fun v g hg => ?_ }
        · simp only [Function.update_apply, h.members g hg]
        · exact and_congr_left fun _ => h.requests v g hg
    · rw [if_neg hgranted]
      refine ⟨Or.inr rfl, ?_⟩
      split_ifs with hgranted' hmember
      · exact h
      · -- the request is not there, as it is not remembered
        have hrequest : (u, k) ∉ R.requests := fun hu =>
          hgranted ⟨hgranted'.1, hgranted'.2.1, hR.requests hu⟩
        rw [h.requests u k hk] at hrequest
        exact absurd ((hR'.remembered u k hgranted'.2.2).resolve_left hrequest) hmember
      · exact h
  | uploadFile z size k u f p =>
    have hk : G k = true := by simpa [Command.groups] using hc
    have hname : R.nameFor k z f = R'.nameFor k z f := by rw [nameFor, nameFor, h.shares k hk]
    rw [Registry.command, Registry.command, uploadFile, uploadFile, hname, h.owner k hk,
      h.members k hk, h.shares k hk]
    split_ifs
    · exact ⟨rfl, h⟩
    · exact ⟨rfl, h⟩
    · exact ⟨rfl, h⟩
    · refine ⟨rfl, { h with shares := fun g hg => ?_, copies := ?_ }⟩
      · simp only [Function.update_apply, h.shares g hg]
      · refine filter_update h.copies ?_
        simp only [List.filter_append, h.copies]
  | stopShare k f u =>
    have hk : G k = true := by simpa [Command.groups] using hc
    rw [Registry.command, Registry.command, stopShare, stopShare, h.account, h.owner k hk,
      h.members k hk, h.shares k hk]
    split_ifs
    · refine ⟨rfl, { h with account := rfl, shares := fun g hg => ?_, copies := ?_ }⟩
      · simp only [Function.update_apply, h.shares g hg]
      · exact filter_update h.copies (filter_filter_congr _ (h.copies u))
    · exact ⟨rfl, h⟩
  | leaveGroup k u =>
    have hk : G k = true := by simpa [Command.groups] using hc
    rw [Registry.command, Registry.command, leaveGroup, leaveGroup, h.owner k hk, h.members k hk,
      h.shares k hk]
    split_ifs
    · refine ⟨rfl, { h.refresh with
        members := fun g hg => ?_, shares := fun g hg => ?_, copies := ?_ }⟩
      · simp only [Function.update_apply, h.members g hg]
      · simp only [Function.update_apply, h.shares g hg]
      · exact filter_update h.copies (filter_filter_congr _ (h.copies u))
    · exact ⟨rfl, h⟩
  | giveSha k f u =>
    have hk : G k = true := by simpa [Command.groups] using hc
    rw [Registry.command, Registry.command, giveSha, giveSha, h.owner k hk, h.members k hk,
      h.shares k hk]
    split_ifs
    · refine ⟨rfl, { h.refresh with downloading := ?_ }⟩
      refine filter_update h.downloading ?_
      simp only [List.filter_append, h.downloading]
    · exact ⟨rfl, h.refresh⟩
  | giveSeeders k f u =>
    have hk : G k = true := by simpa [Command.groups] using hc
    refine ⟨?_, h.refresh⟩
    simp only [Act.Agree, Registry.command, giveSeeders, Sharing, h.address, h.shares k hk]
  | giveDetails u =>
    refine ⟨?_, h.refresh⟩
    simp only [Act.Agree, Registry.command, giveDetails, h.address]
  | sendFullPath u k f =>
    have hk : G k = true := by simpa [Command.groups] using hc
    refine ⟨?_, h⟩
    have hfind : ∀ l : List (Location Str), l.find? (fun c => c.group = k ∧ c.name = f) =
        (l.filter (G ·.group)).find? fun c => c.group = k ∧ c.name = f := by
      intro l
      rw [List.find?_filter]
      congr 1
      funext c
      by_cases hgroup : c.group = k
      · simp [hgroup, hk]
      · simp [hgroup]
    simp only [Act.Agree, Registry.command, sendFullPath]
    rw [hfind (R.copies u), hfind (R'.copies u), h.copies]
  | addFile k f p u =>
    have hall := hadd k f p u rfl
    have hcopies : R.copies u = R'.copies u := by simpa [hall] using h.copies u
    rw [Registry.command, Registry.command, addFile, addFile, h.shares k (hall k), hcopies]
    split_ifs
    · exact ⟨rfl, h.refresh⟩
    · refine ⟨rfl, { h.refresh with shares := fun g hg => ?_, copies := ?_ }⟩
      · simp only [Function.update_apply, h.shares g hg]
      · exact filter_update h.copies rfl
  | complete k f p u =>
    refine ⟨rfl, { h.refresh with downloading := ?_, downloaded := ?_ }⟩
    · exact filter_update h.downloading (filter_filter_congr _ (h.downloading u))
    · refine filter_update h.downloaded ?_
      simp only [List.filter_append, h.downloaded]
  | showDownloads u =>
    refine ⟨fun hall => ?_, h.refresh⟩
    have hrunning : R.downloading u = R'.downloading u := by simpa [hall] using h.downloading u
    have hfinished : R.downloaded u = R'.downloaded u := by simpa [hall] using h.downloaded u
    simp only [Registry.command, showDownloads, hrunning, hfinished]

/-- A command on another group does not show. -/
lemma AlikeIn.hidden (h : AlikeIn G R R') (hR' : R'.Remembers) (hc : c.groups.all G = false) :
    AlikeIn G (R.command sha256 salt c).2 R' := by
  have hother : ∀ {α : Type} {f : Str → α} {k : Str} {x : α} {g : Str}, G k = false → G g = true →
      Function.update f k x g = f g := by
    intro α f k x g hk hg
    refine Function.update_of_ne ?_ x f
    rintro rfl
    rw [hg] at hk
    cases hk
  have hleft := h.refresh_left hR'
  cases c with
  | createGroup k u =>
    have hk : G k = false := by simpa [Command.groups] using hc
    rw [Registry.command, createGroup]
    split_ifs
    · exact { hleft with
        owner := fun g hg => (hother hk hg).trans (h.owner g hg)
        members := fun g hg => (hother hk hg).trans (h.members g hg)
        shares := fun g hg => (hother hk hg).trans (h.shares g hg) }
    · exact hleft
  | joinGroup k u =>
    have hk : G k = false := by simpa [Command.groups] using hc
    rw [Registry.command, joinGroup]
    split_ifs
    · exact h
    · exact h
    · have hne : ∀ v g, G g = true → (v, g) ≠ (u, k) := by
        rintro v g hg heq
        cases heq
        rw [hg] at hk
        cases hk
      refine { h with requests := fun v g hg => ?_, remembered := fun v g hg hv => ?_ }
      · rw [Set.mem_insert_iff, or_iff_right (hne v g hg)]
        exact h.requests v g hg
      · exact h.remembered v g hg (hv.resolve_left (hne v g hg))
  | acceptRequest k u a =>
    have hk : G k = false := by simpa [Command.groups] using hc
    rw [Registry.command, acceptRequest]
    split_ifs
    · exact h
    · refine { h with
        members := fun g hg => (hother hk hg).trans (h.members g hg), requests := fun v g hg => ?_ }
      rw [← h.requests v g hg, Set.mem_sdiff, and_iff_left]
      rintro heq
      cases heq
      rw [hg] at hk
      cases hk
    · exact h
  | uploadFile z size k u f p =>
    have hk : G k = false := by simpa [Command.groups] using hc
    rw [Registry.command, uploadFile]
    split_ifs
    · exact h
    · exact h
    · exact h
    · refine { h with
        shares := fun g hg => (hother hk hg).trans (h.shares g hg), copies := fun v => ?_ }
      refine (filter_update_left ?_ v).trans (h.copies v)
      simp [hk]
  | stopShare k f u =>
    have hk : G k = false := by simpa [Command.groups] using hc
    rw [Registry.command, stopShare]
    split_ifs
    · refine { h with
        shares := fun g hg => (hother hk hg).trans (h.shares g hg), copies := fun v => ?_ }
      refine (filter_update_left (filter_filter_of_imp _ fun x hx => ?_) v).trans (h.copies v)
      refine decide_eq_true fun heq => ?_
      rw [heq.1, hk] at hx
      cases hx
    · exact h
  | leaveGroup k u =>
    have hk : G k = false := by simpa [Command.groups] using hc
    rw [Registry.command, leaveGroup]
    split_ifs
    · refine { hleft with
        members := fun g hg => (hother hk hg).trans (h.members g hg)
        shares := fun g hg => (hother hk hg).trans (h.shares g hg), copies := fun v => ?_ }
      refine (filter_update_left (filter_filter_of_imp _ fun x hx => ?_) v).trans (h.copies v)
      refine decide_eq_true fun heq => ?_
      rw [heq, hk] at hx
      cases hx
    · exact h
  | giveSha k f u =>
    have hk : G k = false := by simpa [Command.groups] using hc
    rw [Registry.command, giveSha]
    split_ifs
    · refine { hleft with downloading := fun v => ?_ }
      refine (filter_update_left ?_ v).trans (h.downloading v)
      simp [hk]
    · exact hleft
  | sendFullPath u k f => exact h
  | addFile k f p u =>
    have hk : G k = false := by simpa [Command.groups] using hc
    rw [Registry.command, addFile]
    split_ifs
    · exact hleft
    · refine { hleft with
        shares := fun g hg => (hother hk hg).trans (h.shares g hg), copies := fun v => ?_ }
      refine (filter_update_left ?_ v).trans (h.copies v)
      simp [hk]
  | complete k f p u =>
    have hk : G k = false := by simpa [Command.groups] using hc
    refine { hleft with downloading := fun v => ?_, downloaded := fun v => ?_ }
    · refine (filter_update_left (filter_filter_of_imp _ fun x hx => ?_) v).trans (h.downloading v)
      refine decide_eq_true fun heq => ?_
      rw [heq, hk] at hx
      cases hx
    · refine (filter_update_left ?_ v).trans (h.downloaded v)
      simp [hk]
  | listRequests k u => exact hleft
  | listFiles k => exact hleft
  | giveSeeders k f u => exact hleft
  | _ => simp [Command.groups] at hc

/-- Registries that say the same of all groups differ in what they remember. -/
lemma AlikeIn.eq_remembered (h : AlikeIn (fun _ => true) R R') :
    R = { R' with remembered := R.remembered } := by
  have howner : R.owner = R'.owner := funext fun g => h.owner g rfl
  have hmembers : R.members = R'.members := funext fun g => h.members g rfl
  have hrequests : R.requests = R'.requests := Set.ext fun q => h.requests q.1 q.2 rfl
  have hshares : R.shares = R'.shares := funext fun g => h.shares g rfl
  have hcopies : R.copies = R'.copies := funext fun u => by simpa using h.copies u
  have hdownloading : R.downloading = R'.downloading :=
    funext fun u => by simpa using h.downloading u
  have hdownloaded : R.downloaded = R'.downloaded := funext fun u => by simpa using h.downloaded u
  rw [← h.account, ← h.address, ← howner, ← hmembers, ← hrequests, ← hshares, ← hcopies,
    ← hdownloading, ← hdownloaded]

end AlikeIn

end Registry

section Acts

variable {sha256 : Str → List (Fin 256)} {E : Entities} {R R' : Registry Str} {t t' : Tracker}
  {G : Str → Bool} {acts : List Act}

/-- From one store a tracker is told of all acts, and another one only of the commands on some of
    the groups. -/
lemma attempt_visible (hacts : ∀ a ∈ acts, a.Proper E ∧ a.Confined G)
    (h : t.Represents sha256 E R) (hR : R.Remembers) :
    ∃ history t₁ history' t₂ R₁ R₂, Service.attempt (Tracker.act sha256) t acts =
        some (history, t₁) ∧
      Service.attempt (Tracker.act sha256) t (acts.filter (Act.visible G)) = some (history', t₂) ∧
      List.Forall₂ (fun x y => x.1 = y.1 ∧
        ∃ a a', Answer.Tells a x.2 ∧ Answer.Tells a' y.2 ∧ x.1.Agree G a a')
        (history.filter fun x => x.1.visible G) history' ∧
      R₁.AlikeIn G R₂ ∧ t₁.Represents sha256 E R₁ ∧ t₂.Represents sha256 E R₂ := by
  have himplements : Service.Implements (fun a => a.Proper E ∧ a.Confined G) Answer.Tells
      (fun R t => Tracker.Represents sha256 E R t) (Tracker.act sha256) (Registry.act sha256) :=
    (Tracker.implements sha256 E).mono fun a ha => ha.1
  have hshown : ∀ R R' a, a.Proper E ∧ a.Confined G → a.visible G = true →
      Registry.AlikeIn G R R' ∧ R.Remembers ∧ R'.Remembers →
      a.Agree G (R.act sha256 a).1 (R'.act sha256 a).1 ∧
        (R.act sha256 a).2.AlikeIn G (R'.act sha256 a).2 ∧ (R.act sha256 a).2.Remembers ∧
          (R'.act sha256 a).2.Remembers := by
    rintro R R' a ⟨-, ha⟩ hvisible ⟨halike, hR, hR'⟩
    cases a with
    | restart => cases hvisible
    | command c bytes online =>
      have hadd : ∀ g f p u, c = .addFile g f p u → ∀ k, G k = true := by
        rintro g f p u rfl
        exact ha (by simpa [Act.visible, Command.groups] using hvisible)
      obtain ⟨hagree, hafter⟩ :=
        halike.command hR hR' hvisible hadd (generateSalt bytes) bytes online
      exact ⟨hagree, hafter, hR.command, hR'.command⟩
  have hhidden : ∀ R R' a, a.Proper E ∧ a.Confined G → a.visible G = false →
      Registry.AlikeIn G R R' ∧ R.Remembers ∧ R'.Remembers →
      (R.act sha256 a).2.AlikeIn G R' ∧ (R.act sha256 a).2.Remembers ∧ R'.Remembers := by
    rintro R R' a - hvisible ⟨halike, hR, hR'⟩
    cases a with
    | restart => exact ⟨halike.refresh_left hR', Registry.remembers_refresh R, hR'⟩
    | command c bytes online => exact ⟨halike.hidden hR' hvisible, hR.command, hR'⟩
  obtain ⟨history, t₁, history', t₂, hrun, hrun', hall, ⟨halike, -, -⟩, h₁, h₂⟩ :=
    himplements.attempt_filter hshown hhidden hacts h h ⟨.refl G R, hR, hR⟩
  exact ⟨history, t₁, history', t₂, _, _, hrun, hrun', hall, halike, h₁, h₂⟩

lemma Registry.empty_remembers : (empty : Registry Str).Remembers :=
  ⟨subset_rfl, fun _ _ => Or.inl⟩

end Acts

end TorrentShare
