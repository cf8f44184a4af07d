import TorrentShare.Peer.Delivery
import TorrentShare.Registry.Contents
import TorrentShare.Registry.Users

/-!
# From upload to download

A user uploads a file to a group and stays signed in. Whatever others do then, a member of the group
who asks the tracker for the hash and the seeders of the file gets what the download needs, and the
download delivers the file.
-/

namespace TorrentShare

open Program

section Runs

variable {sha256 : Str → List (Fin 256)} {E : Entities} {R : Registry Str} {t : Tracker}
  {h z v : Str} {history : List (Act × Reply)} {acts : List Act} {a : Act} {reply : Reply}

namespace Registry

/-! ### An upload and two questions -/

/-- A record of an upload that has been answered with success. -/
lemma shared_of_uploaded {g f p : Str} {salt : List (Fin 256)} {online : Bool}
    (htells : (R.act sha256 (.command (.uploadFile h z g v f p) salt online)).1.Tells
      (some ['1'])) : R.owner g ≠ none ∧
    ∃ s ∈ (R.act sha256 (.command (.uploadFile h z g v f p) salt online)).2.shares g,
      s.user = v ∧ s.hash = h := by
  rw [act, command, uploadFile] at htells ⊢
  split_ifs at htells ⊢ with hgroup hthere
  · cases htells
  · obtain ⟨s, hs, hhash, huser⟩ := hthere
    exact ⟨fun hnone => hgroup (Or.inl hnone), s, hs, huser, hhash⟩
  · cases htells
  · refine ⟨fun hnone => hgroup (Or.inl hnone), ⟨h, z, v, R.nameFor g h f⟩, ?_, rfl, rfl⟩
    show _ ∈ Function.update R.shares g _ g
    rw [Function.update_self]
    exact List.mem_append_right _ (List.mem_singleton_self _)

/-- A record of the name and the hash with which `give_sha` has been answered. -/
lemma named_of_asked {g n u : Str} (hh : h ≠ [])
    (htells : (R.giveSha g n u).1.Tells (some h)) :
    ∃ s ∈ R.shares g, s.name = n ∧ s.hash = h := by
  rw [giveSha] at htells
  split_ifs at htells
  · obtain ⟨s, hs⟩ : ∃ s, (R.shares g).find? (·.name = n) = some s := by
      cases hfound : (R.shares g).find? (·.name = n) with
      | none =>
        rw [hfound] at htells
        cases htells
        exact absurd rfl hh
      | some s => exact ⟨s, rfl⟩
    rw [hs] at htells
    cases htells
    exact ⟨s, List.mem_of_find?_eq_some hs, by simpa using List.find?_some hs, rfl⟩
  · cases htells
    exact absurd rfl hh

/-- `give_seeders` is answered with a user who shares the file and is signed in, and with the size
    that goes with the hash. -/
lemma seeders_of_looked {g n : Str} {s : Share Str} (hR : R.Sound) (hcat : R.Catalogued h z)
    (hs : s ∈ R.shares g) (hname : s.name = n) (hhash : s.hash = h) (huser : s.user = v)
    (hv : R.address v ≠ none) (htells : (R.giveSeeders g n).1.Tells reply) :
    ∃ xs : List Str, v ∈ xs ∧ (∀ x ∈ xs, ' ' ∉ x) ∧ reply = some (fields (xs ++ [z])) := by
  obtain ⟨xs, -, hxs, hreply⟩ := htells
  have hmem : v ∈ xs := (hxs v).mpr ⟨hv, s, hs, huser, hname⟩
  have hnamed : s ∈ (R.shares g).filter (·.name = n) :=
    List.mem_filter.mpr ⟨hs, decide_eq_true hname⟩
  obtain ⟨last, hlast⟩ : ∃ last, ((R.shares g).filter (·.name = n)).getLast? = some last :=
    ⟨_, List.getLast?_eq_some_getLast (List.ne_nil_of_mem hnamed)⟩
  have hin := List.mem_filter.mp (List.mem_of_getLast? hlast)
  have hlastname : last.name = n := of_decide_eq_true hin.2
  -- the last record of the name has the same hash
  have hlasthash := (hcat g).hashes last hin.1 s hs (hlastname.trans hname.symm)
  have hsize := (hcat g).sizes last hin.1 (hlasthash.trans hhash)
  refine ⟨xs, hmem, fun x hx => ?_, ?_⟩
  · obtain ⟨haddress, -⟩ := (hxs x).mp hx
    obtain ⟨⟨ip, port⟩, ha⟩ := Option.ne_none_iff_exists'.mp haddress
    exact (hR.addresses x ip port ha).1.1.blank
  · rw [hreply, if_neg (List.ne_nil_of_mem hmem), hlast, Option.map_some, Option.getD_some, hsize]

lemma giveSha_shares (R : Registry Str) (g n u : Str) :
    (R.giveSha g n u).2.shares = R.shares := by
  rw [giveSha]
  split_ifs <;> rfl

/-- A record of a user stays while only others send commands. -/
lemma Keeps.mem_shares {R' : Registry Str} {g : Str} {s : Share Str} (hkeeps : Keeps v R R')
    (hg : R.owner g ≠ none) (hs : s ∈ R.shares g) (huser : s.user = v) : s ∈ R'.shares g := by
  have hmine : s ∈ (R.shares g).filter (·.user = v) :=
    List.mem_filter.mpr ⟨hs, decide_eq_true huser⟩
  rw [← hkeeps.shares g hg] at hmine
  exact List.mem_of_mem_filter hmine

/-! ### Acts of others -/

/-- What is needed of a registry and the history it comes from. -/
structure Follows (h z : Str) (history : List (Act × Reply)) (R : Registry Str) : Prop where
  groups : Groups history R
  remembers : R.Remembers
  catalogued : R.Catalogued h z
  attended : Attended history R

lemma empty_follows (h z : Str) : Follows h z [] empty :=
  ⟨empty_groups, empty_remembers, empty_catalogued h z, empty_attended⟩

lemma Follows.act (hR : Follows h z history R) (hh : h ≠ []) (ha : a.Announces h z)
    (htells : (R.act sha256 a).1.Tells reply) :
    Follows h z (history ++ [(a, reply)]) (R.act sha256 a).2 :=
  ⟨hR.groups.act htells, hR.remembers.act a, hR.catalogued.act hh ha, hR.attended.act htells⟩

end Registry

/-- Acts of others, after a history. -/
lemma Tracker.Represents.others_act (ht : t.Represents sha256 E R)
    (hR : R.Follows h z history) (hh : h ≠ [])
    (hacts : ∀ a ∈ acts, a.Proper E ∧ a.Announces h z ∧ a.ByOthers v) :
    ∃ history' t' R', Service.attempt (Tracker.act sha256) t acts = some (history', t') ∧
      t'.Represents sha256 E R' ∧ R'.Follows h z (history ++ history') ∧
      Registry.Keeps v R R' := by
  have hstep : ∀ history' R' a reply, a.Proper E ∧ a.Announces h z ∧ a.ByOthers v →
      Registry.Follows h z (history ++ history') R' ∧ Registry.Keeps v R R' →
      (R'.act sha256 a).1.Tells reply →
      Registry.Follows h z (history ++ (history' ++ [(a, reply)])) (R'.act sha256 a).2 ∧
        Registry.Keeps v R (R'.act sha256 a).2 := by
    rintro history' R' a reply ⟨-, hsize, ha⟩ ⟨hR', hkeeps⟩ htells
    rw [← List.append_assoc]
    exact ⟨hR'.act hh hsize htells,
      hkeeps.trans (Registry.keeps_act ha hR'.groups.none hR'.remembers)⟩
  obtain ⟨history', t', hrun, ⟨hR', hkeeps⟩, ht'⟩ :=
    ((Tracker.implements sha256 E).mono fun a ha => ha.1).attempt_rule hacts
      ⟨by simpa using hR, .refl v R⟩ hstep ht
  exact ⟨history', t', _, hrun, ht', hR', hkeeps⟩

end Runs

/-! ### The download -/

lemma split_replies {z : Str} {xs : List Str} (hz : ' ' ∉ z) (hxs : ∀ x ∈ xs, ' ' ∉ x) :
    split (fields (xs ++ [z])) ' ' = xs ++ [z] := by
  refine split_fields (List.append_ne_nil_of_right_ne_nil xs (List.cons_ne_nil z [])) fun x hx => ?_
  rcases List.mem_append.mp hx with hx | hx
  · exact hxs x hx
  · rw [List.mem_singleton.mp hx]
    exact hz

/-- A download starts from such replies. -/
lemma downloadFile_of_replies {h z : Str} {xs : List Str} (hh : h ≠ []) (hz : ' ' ∉ z)
    (hne : xs ≠ []) (hxs : ∀ x ∈ xs, ' ' ∉ x) (g n path : Str) :
    downloadFile g n path h (fields (xs ++ [z])) =
      some ⟨⟨g, n, path, h, z, xs⟩, filler z, [], 0, false⟩ := by
  have hsplit := split_replies hz hxs
  have houtput : fields (xs ++ [z]) ≠ [] := by
    intro hnil
    rw [hnil] at hsplit
    have hlength := congrArg List.length hsplit
    have hpos := List.length_pos_of_ne_nil hne
    rw [List.length_append, List.length_singleton, show split [] ' ' = [[]] from rfl,
      List.length_singleton] at hlength
    omega
  rw [downloadFile, if_neg hh, if_neg houtput, hsplit]
  simp

/-- The act is this command. -/
def Act.Sends (c : Command) (a : Act) : Prop := ∃ salt online, a = .command c salt online

/-- Two users get accounts. One makes a group and lets the other one in. -/
def gathering : List Act :=
  [.command (.createUser "o".toList "p".toList "1".toList "i".toList) [] false,
    .command (.createUser "u".toList "q".toList "2".toList "i".toList) [] false,
    .command (.createGroup "g".toList "o".toList) [] false,
    .command (.joinGroup "g".toList "u".toList) [] false,
    .command (.acceptRequest "g".toList "u".toList "o".toList) [] false]

/-- The owner uploads a file of one byte. -/
def offer : Act := .command (.uploadFile (piece oneByteSha1 ['a']) (toStr 1) "g".toList "o".toList
  "f".toList "/f".toList) [] false

/-- The other member looks at the files of the group, and the tracker is started again. -/
def listing : List Act := [.command (.listFiles "g".toList) [] true, .restart]

def askHash : Act := .command (.giveSha "g".toList "f".toList "u".toList) [] false

def askSeeders : Act := .command (.giveSeeders "g".toList "f".toList "u".toList) [] false

/-- All is answered as it should be. -/
lemma gathering_replies : (Service.attempt (Tracker.act fun _ => zerosDigest) .initial
      (gathering ++ offer :: (listing ++ askHash :: ([.restart] ++ [askSeeders])))).map
        (·.1.map Prod.snd) =
    some (List.replicate 5 (some ['1']) ++ some ['1'] :: ([some "f\n".toList, none] ++
      some (piece oneByteSha1 ['a']) :: ([none] ++ [some "o 1".toList]))) := by
  decide +kernel

lemma getFileHash_oneByte :
    getFileHash oneByteDigest (some ['a']) = (piece oneByteSha1 ['a'], 1) := by
  rw [getFileHash_some, getFileHash2_eq _ (n := 1) (by decide) (by decide)]
  decide

end TorrentShare
