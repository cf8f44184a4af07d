import TorrentShare.Registry.Interference

/-!
# What others can do to a user

As long as a user sends no commands, nobody else changes what the user has: the others can only let
the user into groups that the user has asked to join.
-/

namespace TorrentShare

open Program

/-- The user who acts, as far as the command says so. -/
def Command.actor : Command → Option Str
  | .login u _ _ _          => some u
  | .createUser u _ _ _     => some u
  | .createGroup _ u        => some u
  | .joinGroup _ u          => some u
  | .listRequests _ u       => some u
  | .acceptRequest _ _ a    => some a
  | .uploadFile _ _ _ u _ _ => some u
  | .stopShare _ _ u        => some u
  | .leaveGroup _ u         => some u
  | .logout u               => some u
  | .giveSha _ _ u          => some u
  | .giveSeeders _ _ u      => some u
  | .addFile _ _ _ u        => some u
  | .complete _ _ _ u       => some u
  | .showDownloads u        => some u
  | _                       => none

/-- The act is not one of the user. -/
def Act.ByOthers (u : Str) : Act → Prop
  | .command c _ _ => c.actor ≠ some u
  | .restart       => True

instance (u : Str) : DecidablePred (Act.ByOthers u)
  | .command c _ _ => inferInstanceAs (Decidable (c.actor ≠ some u))
  | .restart       => .isTrue trivial

namespace Registry

/-- What a user has in a registry is there in another one, and no more than that but for groups
    that the user has asked to join. -/
structure Keeps (u : Str) (R R' : Registry Str) : Prop where
  account : R'.account u = R.account u
  address : R'.address u = R.address u
  copies : R'.copies u = R.copies u
  downloading : R'.downloading u = R.downloading u
  downloaded : R'.downloaded u = R.downloaded u
  group : ∀ g, R.owner g ≠ none → R'.owner g ≠ none
  owner : ∀ g, R'.owner g = some u ↔ R.owner g = some u
  shares : ∀ g, R.owner g ≠ none →
    (R'.shares g).filter (·.user = u) = (R.shares g).filter (·.user = u)
  member : ∀ g, u ∈ R.members g → u ∈ R'.members g
  admitted : ∀ g, u ∈ R'.members g → u ∈ R.members g ∨ (u, g) ∈ R.requests
  requests : ∀ g, (u, g) ∈ R'.requests → (u, g) ∈ R.requests

section Keeps

variable {sha256 : Str → List (Fin 256)} {R R' R'' : Registry Str} {u : Str} {c : Command}
  {salt : Str}

lemma Keeps.refl (u : Str) (R : Registry Str) : Keeps u R R := by
  constructor <;> simp +contextual

lemma Keeps.trans (h : Keeps u R R') (h' : Keeps u R' R'') : Keeps u R R'' where
  account := h'.account.trans h.account
  address := h'.address.trans h.address
  copies := h'.copies.trans h.copies
  downloading := h'.downloading.trans h.downloading
  downloaded := h'.downloaded.trans h.downloaded
  group g hg := h'.group g (h.group g hg)
  owner g := (h'.owner g).trans (h.owner g)
  shares g hg := (h'.shares g (h.group g hg)).trans (h.shares g hg)
  member g hg := h'.member g (h.member g hg)
  admitted g hg := (h'.admitted g hg).elim (h.admitted g) fun hu => Or.inr (h.requests g hu)
  requests g hg := h.requests g (h'.requests g hg)

lemma keeps_refresh (u : Str) (R : Registry Str) : Keeps u R R.refresh :=
  { Keeps.refl u R with }

lemma mem_update_iff {f : Str → Set Str} {k : Str} {S : Set Str} (h : u ∈ S ↔ u ∈ f k) (g : Str) :
    u ∈ Function.update f k S g ↔ u ∈ f g := by
  rw [Function.update_apply]
  split_ifs with hg
  · rw [h, hg]
  · rfl

/-- A command of somebody else. -/
lemma keeps_command (hc : c.actor ≠ some u) (hnone : ∀ g, R.owner g = none → R.members g = ∅)
    (hR : R.Remembers) : Keeps u R (R.command sha256 salt c).2 := by
  have hother : ∀ {α : Type} {f : Str → α} {v : Str} {x : α}, v ≠ u →
      Function.update f v x u = f u := fun hv => Function.update_of_ne hv.symm _ _
  have hrefl := Keeps.refl u R
  have hrefresh := keeps_refresh u R
  cases c with
  | login v p port ip =>
    have hv : v ≠ u := by simpa [Command.actor] using hc
    rw [command, login]
    split_ifs
    · exact { hrefresh with address := hother hv }
    · exact hrefresh
    · exact hrefresh
  | createUser v p port ip =>
    have hv : v ≠ u := by simpa [Command.actor] using hc
    rw [command, createUser]
    split_ifs
    · exact { hrefresh with
        account := hother hv, address := hother hv, copies := hother hv
        downloading := hother hv, downloaded := hother hv }
    · exact hrefresh
  | logout v =>
    have hv : v ≠ u := by simpa [Command.actor] using hc
    rw [command, logout]
    split_ifs
    · exact hrefresh
    · exact { hrefresh with address := hother hv }
  | createGroup k v =>
    have hv : v ≠ u := by simpa [Command.actor] using hc
    rw [command, createGroup]
    split_ifs with hnew
    · have hk : ∀ {α : Type} {f : Str → α} {g : Str} {x : α}, R.owner g ≠ none →
          Function.update f k x g = f g := by
        intro α f g x hg
        refine Function.update_of_ne ?_ x f
        rintro rfl
        exact hg hnew
      have hmember : u ∈ ({v} : Set Str) ↔ u ∈ R.members k := by simp [hnone k hnew, hv.symm]
      refine { hrefresh with
        group := fun g hg => ?_, owner := fun g => ?_, shares := fun g hg => ?_
        member := fun g hg => (mem_update_iff hmember g).mpr hg
        admitted := fun g hg => Or.inl ((mem_update_iff hmember g).mp hg) }
      · exact (congrArg (· ≠ none) (hk hg)).mpr hg
      · simp only [Function.update_apply]
        split_ifs with hgk
        · simp [hgk, hnew, hv]
        · rfl
      · exact congrArg (List.filter _) (hk hg)
    · exact hrefresh
  | joinGroup k v =>
    have hv : v ≠ u := by simpa [Command.actor] using hc
    rw [command, joinGroup]
    split_ifs
    · exact hrefl
    · exact hrefl
    · refine { hrefl with requests := fun g hg => hg.resolve_left fun heq => ?_ }
      cases heq
      exact hv rfl
  | acceptRequest k v a =>
    rw [command, acceptRequest]
    split_ifs with hgranted hmember
    · exact hrefl
    · refine { hrefl with
        member := fun g hg => ?_, admitted := fun g hg => ?_, requests := fun g hg => hg.1 }
      · simp only [Function.update_apply]
        split_ifs with hgk
        · exact Or.inr (hgk ▸ hg)
        · exact hg
      · simp only [Function.update_apply] at hg
        split_ifs at hg with hgk
        · subst hgk
          rcases hg with rfl | hg
          · -- what is remembered of a user who is no member is a request
            exact Or.inr ((hR.remembered u g hgranted.2.2).resolve_right hmember)
          · exact Or.inl hg
        · exact Or.inl hg
    · exact hrefl
  | uploadFile z size k v f p =>
    have hv : v ≠ u := by simpa [Command.actor] using hc
    rw [command, uploadFile]
    split_ifs
    · exact hrefl
    · exact hrefl
    · exact hrefl
    · refine { hrefl with copies := hother hv, shares := fun g hg => ?_ }
      exact filter_update_left (by simp [hv]) g
  | stopShare k f v =>
    have hv : v ≠ u := by simpa [Command.actor] using hc
    rw [command, stopShare]
    split_ifs
    · refine { hrefl with copies := hother hv, shares := fun g hg => ?_ }
      exact filter_update_left (filter_filter_of_imp _ (by simp +contextual [hv.symm])) g
    · exact hrefl
  | leaveGroup k v =>
    have hv : v ≠ u := by simpa [Command.actor] using hc
    rw [command, leaveGroup]
    split_ifs
    · have hmember : u ∈ R.members k \ {v} ↔ u ∈ R.members k := by simp [hv.symm]
      refine { hrefresh with
        copies := hother hv, shares := fun g hg => ?_
        member := fun g hg => (mem_update_iff hmember g).mpr hg
        admitted := fun g hg => Or.inl ((mem_update_iff hmember g).mp hg) }
      exact filter_update_left (filter_filter_of_imp _ (by simp +contextual [hv.symm])) g
    · exact hrefl
  | giveSha k f v =>
    have hv : v ≠ u := by simpa [Command.actor] using hc
    rw [command, giveSha]
    split_ifs
    · exact { hrefresh with downloading := hother hv }
    · exact hrefresh
  | addFile k f p v =>
    have hv : v ≠ u := by simpa [Command.actor] using hc
    rw [command, addFile]
    split_ifs
    · exact hrefresh
    · refine { hrefresh with copies := hother hv, shares := fun g hg => ?_ }
      exact filter_update_left (by simp [hv]) g
  | complete k f p v =>
    have hv : v ≠ u := by simpa [Command.actor] using hc
    exact { hrefresh with downloading := hother hv, downloaded := hother hv }
  | sendFullPath v k f => exact hrefl
  | _ => exact hrefresh

lemma keeps_act {a : Act} (ha : a.ByOthers u) (hnone : ∀ g, R.owner g = none → R.members g = ∅)
    (hR : R.Remembers) : Keeps u R (R.act sha256 a).2 := by
  cases a with
  | restart => exact keeps_refresh u R
  | command c salt online => exact keeps_command ha hnone hR

lemma Remembers.act (hR : R.Remembers) (a : Act) : (R.act sha256 a).2.Remembers := by
  cases a with
  | restart => exact remembers_refresh R
  | command c salt online => exact hR.command

end Keeps

end Registry

section Files

variable {sha256 : Str → List (Fin 256)} {E : Entities} {R R' : Registry Str} {t t' : Tracker}
  {u : Str}

/-- The lines of a table that begin with a key are the same if the table has the same for it. -/
lemma mem_lines_of_table {ν : Type} {record : Str × ν → Str} {T T' : Str → Option ν}
    {ls ls' : List Str} (h : KeepsTable record T ls) (h' : KeepsTable record T' ls')
    (hsame : T' u = T u)
    (hkey : ∀ k v, T k = some v → (split (record (k, v)) ' ')[0]? = some k) {l : Str}
    (hl : (split l ' ')[0]? = some u) (hmem : l ∈ ls) : l ∈ ls' := by
  obtain ⟨es, rfl, -, hT⟩ := h
  obtain ⟨es', rfl, -, hT'⟩ := h'
  obtain ⟨e, he, rfl⟩ := List.mem_map.mp hmem
  have hentry : T e.1 = some e.2 := (hT e.1 e.2).mpr he
  obtain rfl : e.1 = u := Option.some.inj ((hkey e.1 e.2 hentry).symm.trans hl)
  exact List.mem_map_of_mem ((hT' e.1 e.2).mp (hsame.trans hentry))

/-- The lines of the user in the files of accounts and of sessions. -/
lemma Tracker.Represents.lines_of_user (h : t.Represents sha256 E R)
    (h' : t'.Represents sha256 E R') (haccount : R'.account u = R.account u)
    (haddress : R'.address u = R.address u) {l : Str} (hl : (split l ' ')[0]? = some u) :
    (l ∈ t.disk.lines credentialFile → l ∈ t'.disk.lines credentialFile) ∧
      (l ∈ t.disk.lines onlineFile → l ∈ t'.disk.lines onlineFile) := by
  obtain ⟨F, P, hd, hF, -⟩ := h.filed
  obtain ⟨F', P', hd', hF', -⟩ := h'.filed
  rw [show t.disk.lines credentialFile = F .accounts from hd.lines .accounts trivial,
    show t'.disk.lines credentialFile = F' .accounts from hd'.lines .accounts trivial,
    show t.disk.lines onlineFile = F .sessions from hd.lines .sessions trivial,
    show t'.disk.lines onlineFile = F' .sessions from hd'.lines .sessions trivial]
  constructor
  · refine mem_lines_of_table (hF .accounts) (hF' .accounts) haccount (fun k v hv => ?_) hl
    obtain ⟨hk, hsalt⟩ := h.sound.accounts k v.1 v.2 hv
    have hcredential : IsToken ((⟨k, v.1, v.2⟩ : Account).credential (hashPassword sha256)) :=
      isToken_credential (fun _ _ => isHex_hex _) hsalt
    rw [accountLine, split_fields (by simp) (by simp [hk.1.blank, hcredential.1.blank])]
    rfl
  · refine mem_lines_of_table (hF .sessions) (hF' .sessions) haddress (fun k v hv => ?_) hl
    obtain ⟨hk, hip, hport, -⟩ := h.sound.addresses k v.1 v.2 hv
    rw [split_onlineRecord ⟨hk.1, hip.1, hport.1⟩]
    rfl

lemma Tracker.Represents.shares_of_user (h : t.Represents sha256 E R) {g : Str} (hg : E.group g)
    (u : Str) : (t.disk.lines (groupFilesFile g)).filter (hasField 2 u) =
      ((R.shares g).filter (·.user = u)).map Share.line := by
  rw [h.shares hg, List.filter_map]
  congr 1
  refine List.filter_congr fun a ha => ?_
  simp [hasField, fieldIs, h.sound.split_share ha]

end Files

end TorrentShare
