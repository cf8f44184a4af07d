import TorrentShare.Program.Machines
import TorrentShare.Tracker.Credentials

/-!
# Startup

A tracker that starts asks its sibling for all files, and begins to listen later. The sibling walks
through its directory and sends each file for which it finds the tracker online. The handler of the
sibling and the threads of the tracker, one for each file, take steps in any order.
-/

namespace TorrentShare

open Program

/-! ### The trackers -/

/-- A directory `.all_files`, with its entries in the order of `readdir`. -/
structure Directory where
  disk : Disk
  names : List Str
  nodup : names.Nodup
  mem_names : ∀ name, name ∈ names ↔
    name = ".".toList ∨ name = "..".toList ∨ disk.file (allFiles ++ name) ≠ none

/-- A run of `Sync` and of the `SyncRecv` that answers it: what `fread` has not delivered, the
    answers `"1"` the sender has not read, what the receiver has not read, and the name and the
    position in the file that the receiver has opened. -/
structure Channel where
  unread : Str
  answers : ℕ := 0
  coming : List Str := []
  target : Option (Path × ℕ) := none

/-- The tracker that starts, and its sibling. `walk` is what `SyncAllHandler` has still to go
    through, and `sending` the file it sends at the moment. -/
structure Startup where
  sibling : Directory
  disk : Disk
  requested : Bool := false
  listening : Bool := false
  walk : Option (List Str) := none
  sending : Option Path := none
  channel : Path → Option Channel := fun _ => none
  finished : Bool := false

namespace Startup

/-- `MAX_SIZE` in `trackersync.h`. -/
def maxSize : ℕ := 65535

/-- `SyncAllHandler` does not look at these. -/
def isDots (name : Str) : Bool := name = ".".toList || name = "..".toList

/-- What can happen: `SyncAll` and `listen` in the tracker; the start of `SyncAllHandler` in the
    sibling, its next entry, its next message in `Sync` and its end; a thread of the tracker opens
    a file, or reads a message, in `SyncRecv`. -/
inductive Event where
  | syncAll
  | listen
  | handler
  | entry
  | send
  | finish
  | opens (p : Path)
  | recv (p : Path)

def setChannel (s : Startup) (p : Path) (t : Option Channel) : Startup :=
  { s with channel := Function.update s.channel p t }

def setSending (s : Startup) (p : Option Path) : Startup := { s with sending := p }

def setDisk (s : Startup) (d : Disk) : Startup := { s with disk := d }

def setWalk (s : Startup) (names : List Str) : Startup := { s with walk := some names }

/-- `IsOnline` and, if the tracker listens, the first message of `Sync`. -/
def sync (s : Startup) (p : Path) : Startup :=
  if s.listening then
    (s.setChannel p (some { unread := (s.sibling.disk.file p).getD [] })).setSending (some p)
  else s

/-- The next message of `Sync`. `pieces` is how a block of bytes arrives. -/
def sendNext (pieces : Str → List Str) (s : Startup) (p : Path) (t : Channel) : Startup :=
  if t.unread = [] then
    (s.setChannel p (some { t with
      answers := t.answers - 1
      coming := t.coming ++ [syncOver] })).setSending none
  else
    s.setChannel p (some { t with
      unread := t.unread.drop maxSize
      answers := t.answers - 1
      coming := t.coming ++ pieces (t.unread.take maxSize) })

/-- `SyncRecv` reads a message, writes it at its position and answers, or closes the file. -/
def syncRecv (s : Startup) (p : Path) (t : Channel) (q : Path) (pos : ℕ) :
    List Str → Option Startup
  | []            => none
  | line :: lines =>
    if line = syncOver then some (s.setChannel p none)
    else some ((s.setChannel p (some { t with
        answers := t.answers + 1
        coming := lines
        target := some (q, pos + line.length) })).setDisk
      (s.disk.create q (overwrite '\x00' (s.disk.text q) pos line)))

def act (pieces : Str → List Str) (s : Startup) : Event → Option Startup
  | .syncAll => if s.requested then none else some { s with requested := true }
  | .listen  => if s.requested then some { s with listening := true } else none
  | .handler =>
    if s.requested ∧ s.walk = none then some (s.setWalk s.sibling.names) else none
  | .entry   =>
    match s.walk, s.sending with
    | some (name :: names), none =>
      some (if isDots name then s.setWalk names else (s.setWalk names).sync (allFiles ++ name))
    | _, _ => none
  | .send    => s.sending.bind fun p => (s.channel p).bind fun t =>
    if 0 < t.answers then some (s.sendNext pieces p t) else none
  | .finish  =>
    if s.walk = some [] ∧ s.sending = none then some { s with finished := true } else none
  | .opens p => (s.channel p).bind fun t =>
    match t.target, Request.parse ("Sync ".toList ++ p) with
    | none, .sync q =>
      some ((s.setChannel p (some { t with answers := 1, target := some (q, 0) })).setDisk
        (s.disk.create q []))
    | _, _ => none
  | .recv p  => (s.channel p).bind fun t => t.target.bind fun r =>
    s.syncRecv p t r.1 r.2 t.coming

/-- The tracker has its own files, and nothing has happened. -/
def start (S : Directory) (d : Disk) : Startup := { sibling := S, disk := d }

/-- A file is skipped only when the tracker has the same one, and the walk through the directory
    ends only when the tracker has closed all files. -/
def Caught (s : Startup) : Event → Prop
  | .entry  => ∀ name names, s.walk = some (name :: names) → isDots name = false →
      s.listening = true ∨ s.disk.file (allFiles ++ name) = s.sibling.disk.file (allFiles ++ name)
  | .finish => ∀ name ∈ s.sibling.names, s.channel (allFiles ++ name) = none
  | _       => True

end Startup

/-- The names have no blanks and no NUL. -/
def Directory.Plain (S : Directory) : Prop :=
  ∀ name ∈ S.names, IsWord name ∧ '\x00' ∉ name

/-- No part of a file arrives as the mark for the end. -/
def Directory.Clear (pieces : Str → List Str) (S : Directory) : Prop :=
  ∀ p c k, S.disk.file p = some c →
    syncOver ∉ pieces ((c.drop (k * Startup.maxSize)).take Startup.maxSize)

/-! ### What holds on the way -/

section Names

variable {S : Directory} {p : Path}

lemma Directory.openable_of_file (h : S.disk.file p ≠ none) : openable p = true := by
  by_contra hp
  exact h (S.disk.closed p (by simpa using hp))

/-- The files of a directory are its entries. -/
lemma Directory.exists_name (h : S.disk.file p ≠ none) :
    ∃ name ∈ S.names, Startup.isDots name = false ∧ p = allFiles ++ name := by
  have hopen := Directory.openable_of_file h
  simp only [openable, Bool.and_eq_true, decide_eq_true_eq] at hopen
  obtain ⟨hbegin, ⟨⟨-, hdot⟩, hdots⟩, -⟩ := hopen
  obtain ⟨name, rfl⟩ := List.isPrefixOf_iff_prefix.mp hbegin
  rw [List.drop_left] at hdot hdots
  refine ⟨name, (S.mem_names name).mpr (Or.inr (Or.inr h)), ?_, rfl⟩
  rw [Startup.isDots, Bool.or_eq_false_iff]
  exact ⟨decide_eq_false hdot, decide_eq_false hdots⟩

lemma Directory.Plain.nul_notMem (hS : S.Plain) (h : S.disk.file p ≠ none) : '\x00' ∉ p := by
  obtain ⟨name, hname, -, rfl⟩ := Directory.exists_name h
  rw [List.mem_append]
  rintro (hc | hc)
  · exact absurd hc (by decide)
  · exact (hS name hname).2 hc

lemma Directory.Plain.cStr_eq (hS : S.Plain) (h : S.disk.file p ≠ none) : cStr p = p := by
  apply List.takeWhile_eq_self_iff.mpr
  intro c hc
  apply decide_eq_true
  rintro rfl
  exact hS.nul_notMem h hc

lemma Directory.Plain.file_create (hS : S.Plain) (h : S.disk.file p ≠ none) (d : Disk) (text : Str)
    (q : Path) : (d.create p text).file q = if q = p then some text else d.file q := by
  have hopen := Directory.openable_of_file h
  simp only [Disk.create, hS.cStr_eq h]
  by_cases hq : q = p
  · subst hq
    rw [if_pos ⟨rfl, hopen⟩, if_pos rfl]
  · rw [if_neg fun hq' => hq hq'.1, if_neg hq]

/-- The tracker reads the name from the first message. -/
lemma Directory.Plain.parse_sync (hS : S.Plain) (h : S.disk.file p ≠ none) :
    Request.parse ("Sync ".toList ++ p) = .sync p := by
  obtain ⟨name, hname, -, rfl⟩ := Directory.exists_name h
  have htoken : IsToken (allFiles ++ name) := by
    have hne : allFiles ≠ [] := List.cons_ne_nil _ _
    refine ⟨fun c hc => ?_, List.append_ne_nil_of_left_ne_nil hne _⟩
    rcases List.mem_append.mp hc with hc | hc
    · exact isWord_of_all rfl c hc
    · exact (hS name hname).1 c hc
  have hfirst : extract ("Sync ".toList ++ (allFiles ++ name)) =
      some ("Sync".toList, ' ' :: (allFiles ++ name)) := by
    have hsync : IsToken "Sync".toList := ⟨isWord_of_all rfl, by simp⟩
    apply hsync.extract_append (r := ' ' :: (allFiles ++ name))
    simp [isspace]
  have hsecond : extract (' ' :: (allFiles ++ name)) = some (allFiles ++ name, []) := by
    have hpath := htoken.extract_append (r := []) (by simp)
    rwa [List.append_nil, ← extract_blank] at hpath
  have hwords : extractWords 7 ("Sync ".toList ++ (allFiles ++ name)) =
      "Sync".toList :: (allFiles ++ name) :: extractWords 5 [] := by
    rw [extractWords, hfirst]
    simp only [extractWords, hsecond]
  unfold Request.parse
  rw [hwords]
  rfl

end Names

namespace Startup

/-- What `SyncAllHandler` has not come to. -/
def ahead (s : Startup) : List Str := s.walk.getD s.sibling.names

/-- No entry ahead has this path. -/
def Passed (s : Startup) (p : Path) : Prop :=
  ∀ name ∈ s.ahead, isDots name = false → p ≠ allFiles ++ name

/-- A file that is sent: what the tracker has written, what is on the way and what has not been
    read make up the contents. -/
structure Carries (content : Str) (file : Option Str) (ended : Prop) (p : Path) (t : Channel) :
    Prop where
  unread : ∃ k, t.unread = content.drop (k * maxSize)
  asked : t.target = none → t.unread = content ∧ t.coming = [] ∧ t.answers = 0
  opened : ∀ q pos, t.target = some (q, pos) → q = p ∧ ∃ written pending, file = some written ∧
    pos = written.length ∧ syncOver ∉ pending ∧
    written ++ pending.flatten ++ t.unread = content ∧
    (t.coming = pending ∨ ended ∧ t.unread = [] ∧ t.coming = pending ++ [syncOver])

/-- Files ahead have no channel. One that is passed and has no channel is what the sibling has. -/
structure CatchingUp (s : Startup) : Prop where
  walks : s.ahead <:+ s.sibling.names
  waiting : ∀ name ∈ s.ahead, isDots name = false → s.channel (allFiles ++ name) = none
  carried : ∀ p t, s.channel p = some t → ∃ content, s.sibling.disk.file p = some content ∧
    Carries content (s.disk.file p) (s.sending ≠ some p) p t
  settled : ∀ p, s.channel p = none → s.Passed p → s.disk.file p = s.sibling.disk.file p
  finished : s.finished = true → s.walk = some [] ∧ s.sending = none ∧ ∀ p, s.channel p = none

variable {pieces : Str → List Str} {s s' : Startup}

/-- At the start nothing is passed but what neither tracker has. -/
lemma catchingUp_start {S : Directory} {d : Disk}
    (hd : ∀ p, S.disk.file p = none → d.file p = none) : (start S d).CatchingUp where
  walks := List.suffix_rfl
  waiting := fun _ _ _ => rfl
  carried := fun _ _ h => nomatch h
  finished := fun h => nomatch h
  settled := by
    intro p _ hpassed
    have hnone : S.disk.file p = none := by
      by_contra hp
      obtain ⟨name, hname, hdots, rfl⟩ := Directory.exists_name hp
      exact hpassed name hname hdots rfl
    show d.file p = S.disk.file p
    rw [hnone, hd p hnone]

/-- A step on one channel changes the file it leads to. -/
lemma CatchingUp.update {p : Path} {t₀ : Channel} {t : Option Channel} (h : s.CatchingUp)
    (hp : s.channel p = some t₀) (d : Disk) (o : Option Path)
    (hdisk : ∀ q, q ≠ p → d.file q = s.disk.file q)
    (hsending : ∀ q, s.sending ≠ some q → o ≠ some q)
    (hclosed : t = none → d.file p = s.sibling.disk.file p)
    (hopen : ∀ t', t = some t' → ∃ content, s.sibling.disk.file p = some content ∧
      Carries content (d.file p) (o ≠ some p) p t') :
    (((s.setChannel p t).setDisk d).setSending o).CatchingUp := by
  constructor
  · exact h.walks
  · intro name hname hdots
    have hnone := h.waiting name hname hdots
    have hne : allFiles ++ name ≠ p := by
      rintro rfl
      rw [hp] at hnone
      cases hnone
    exact (Function.update_of_ne hne _ _).trans hnone
  · intro q t' ht'
    by_cases hq : q = p
    · subst hq
      exact hopen t' ((Function.update_self q _ s.channel).symm.trans ht')
    · have ht : s.channel q = some t' := (Function.update_of_ne hq _ s.channel).symm.trans ht'
      obtain ⟨content, hcontent, hcarries⟩ := h.carried q t' ht
      refine ⟨content, hcontent, hcarries.unread, hcarries.asked, fun r pos htarget => ?_⟩
      obtain ⟨hr, written, pending, hw, hpos, hclear, hwhole, hcoming⟩ :=
        hcarries.opened r pos htarget
      exact ⟨hr, written, pending, (hdisk q hq).trans hw, hpos, hclear, hwhole,
        hcoming.imp_right fun hended => ⟨hsending q hended.1, hended.2⟩⟩
  · intro q hnone hpassed
    by_cases hq : q = p
    · subst hq
      exact hclosed ((Function.update_self q _ s.channel).symm.trans hnone)
    · have hnone' : s.channel q = none := (Function.update_of_ne hq _ s.channel).symm.trans hnone
      exact (hdisk q hq).trans (h.settled q hnone' hpassed)
  · intro hend
    have hnone := (h.finished hend).2.2 p
    rw [hp] at hnone
    cases hnone

section Entry

variable {name : Str} {names : List Str}

lemma CatchingUp.suffix (h : s.CatchingUp) (hwalk : s.walk = some (name :: names)) :
    name :: names <:+ s.sibling.names := by
  have hwalks := h.walks
  rwa [ahead, hwalk] at hwalks

lemma CatchingUp.notMem (h : s.CatchingUp) (hwalk : s.walk = some (name :: names)) :
    name ∉ names := by
  have hnodup := s.sibling.nodup.sublist (h.suffix hwalk).sublist
  exact (List.nodup_cons.mp hnodup).1

lemma CatchingUp.unfinished (h : s.CatchingUp) (hwalk : s.walk = some (name :: names)) :
    s.finished ≠ true := by
  intro hend
  have hwalked := (h.finished hend).1
  rw [hwalk] at hwalked
  cases hwalked

lemma CatchingUp.waiting_tail (h : s.CatchingUp) (hwalk : s.walk = some (name :: names)) {n : Str}
    (hn : n ∈ names) (hdots : isDots n = false) : s.channel (allFiles ++ n) = none := by
  apply h.waiting n _ hdots
  rw [ahead, hwalk]
  exact List.mem_cons_of_mem _ hn

/-- What is passed with the entry was passed before, or is the entry. -/
lemma passed_cons {p : Path} (hwalk : s.walk = some (name :: names))
    (hpassed : ∀ n ∈ names, isDots n = false → p ≠ allFiles ++ n) :
    s.Passed p ∨ isDots name = false ∧ p = allFiles ++ name := by
  by_cases hentry : isDots name = false ∧ p = allFiles ++ name
  · exact Or.inr hentry
  · refine Or.inl fun n hn hdots hp => ?_
    rw [ahead, hwalk] at hn
    rcases List.mem_cons.mp hn with rfl | hn
    · exact hentry ⟨hdots, hp⟩
    · exact hpassed n hn hdots hp

/-- The entry is passed over. -/
lemma CatchingUp.skip (h : s.CatchingUp) (hwalk : s.walk = some (name :: names))
    (hsame : isDots name = false →
      s.disk.file (allFiles ++ name) = s.sibling.disk.file (allFiles ++ name)) :
    (s.setWalk names).CatchingUp where
  walks := (List.suffix_cons name names).trans (h.suffix hwalk)
  waiting := fun _ hn hdots => h.waiting_tail hwalk hn hdots
  carried := h.carried
  finished := fun hend => absurd hend (h.unfinished hwalk)
  settled := by
    intro p hnone hpassed
    rcases passed_cons hwalk hpassed with hbefore | ⟨hdots, rfl⟩
    · exact h.settled p hnone hbefore
    · exact hsame hdots

/-- The file of the entry is sent. -/
lemma CatchingUp.send_entry (h : s.CatchingUp) (hwalk : s.walk = some (name :: names))
    (hdots : isDots name = false) (hlistening : s.listening = true) :
    ((s.setWalk names).sync (allFiles ++ name)).CatchingUp := by
  have hmem : name ∈ s.sibling.names := (h.suffix hwalk).mem (List.mem_cons_self ..)
  obtain ⟨content, hcontent⟩ : ∃ c, s.sibling.disk.file (allFiles ++ name) = some c := by
    apply Option.ne_none_iff_exists'.mp
    rw [isDots, Bool.or_eq_false_iff] at hdots
    rcases (s.sibling.mem_names name).mp hmem with hdot | hdot | hfile
    · exact absurd hdot (of_decide_eq_false hdots.1)
    · exact absurd hdot (of_decide_eq_false hdots.2)
    · exact hfile
  have hsync : (s.setWalk names).sync (allFiles ++ name) =
      ((s.setWalk names).setChannel (allFiles ++ name)
        (some { unread := content })).setSending (some (allFiles ++ name)) := by
    have hread : (s.setWalk names).sibling.disk.file (allFiles ++ name) = some content := hcontent
    rw [sync, hread]
    exact if_pos hlistening
  rw [hsync]
  constructor
  · exact (List.suffix_cons name names).trans (h.suffix hwalk)
  · intro n hn hn'
    have hne : allFiles ++ n ≠ allFiles ++ name := by
      intro heq
      exact h.notMem hwalk (List.append_cancel_left heq ▸ hn)
    rw [← h.waiting_tail hwalk hn hn']
    exact Function.update_of_ne hne _ _
  · intro p t ht
    by_cases hp : p = allFiles ++ name
    · subst hp
      have ht' := (Function.update_self (allFiles ++ name) _ s.channel).symm.trans ht
      cases ht'
      exact ⟨content, hcontent, ⟨0, (Nat.zero_mul maxSize).symm ▸ rfl⟩, fun _ => ⟨rfl, rfl, rfl⟩,
        fun q pos hq => nomatch hq⟩
    · have ht' : s.channel p = some t := (Function.update_of_ne hp _ _).symm.trans ht
      obtain ⟨c, hc, hcarries⟩ := h.carried p t ht'
      refine ⟨c, hc, hcarries.unread, hcarries.asked, fun q pos hq => ?_⟩
      obtain ⟨hr, written, pending, hw, hpos, hclear, hwhole, hcoming⟩ := hcarries.opened q pos hq
      refine ⟨hr, written, pending, hw, hpos, hclear, hwhole, hcoming.imp_right fun hended => ?_⟩
      exact ⟨fun heq => hp (Option.some.inj heq).symm, hended.2⟩
  · intro p hnone hpassed
    by_cases hp : p = allFiles ++ name
    · subst hp
      have hsome := (Function.update_self (allFiles ++ name) _ s.channel).symm.trans hnone
      cases hsome
    · have hnone' : s.channel p = none := (Function.update_of_ne hp _ _).symm.trans hnone
      rcases passed_cons hwalk hpassed with hbefore | ⟨-, heq⟩
      · exact h.settled p hnone' hbefore
      · exact absurd heq hp
  · intro hend
    exact absurd hend (h.unfinished hwalk)

/-- The next entry is sent, or the tracker has the same file. -/
lemma CatchingUp.entry (h : s.CatchingUp) (hcaught : s.Caught .entry)
    (hact : s.act pieces .entry = some s') : s'.CatchingUp := by
  rw [act] at hact
  split at hact
  · rename_i name names hwalk hsending
    cases hact
    split_ifs with hdots
    · apply h.skip hwalk
      intro hno
      rw [hdots] at hno
      cases hno
    · have hdots' : isDots name = false := by simpa using hdots
      by_cases hlistening : s.listening = true
      · exact h.send_entry hwalk hdots' hlistening
      · have hsync : (s.setWalk names).sync (allFiles ++ name) = s.setWalk names :=
          if_neg hlistening
        rw [hsync]
        apply h.skip hwalk
        intro _
        exact (hcaught name names hwalk hdots').resolve_left hlistening
  · cases hact

end Entry

section Transfer

variable {p : Path} {content : Str} {t : Channel} {ended : Prop}

/-- Nothing has been read of the file, and the tracker opens it. -/
lemma Carries.opens {file : Option Str} (h : Carries content file ended p t)
    (htarget : t.target = none) :
    Carries content (some []) ended p { t with answers := 1, target := some (p, 0) } := by
  obtain ⟨hunread, hcoming, -⟩ := h.asked htarget
  refine ⟨h.unread, (fun hnone => nomatch hnone), ?_⟩
  rintro _ _ ⟨⟩
  exact ⟨rfl, [], [], rfl, rfl, List.not_mem_nil, hunread, Or.inl hcoming⟩

lemma CatchingUp.opens (h : s.CatchingUp) (hplain : s.sibling.Plain)
    (hact : s.act pieces (.opens p) = some s') : s'.CatchingUp := by
  obtain ⟨t, ht, hact⟩ := Option.bind_eq_some_iff.mp hact
  obtain ⟨content, hcontent, hcarries⟩ := h.carried p t ht
  have hfile : s.sibling.disk.file p ≠ none := by simp [hcontent]
  rw [hplain.parse_sync hfile] at hact
  cases htarget : t.target with
  | some r =>
    rw [htarget] at hact
    cases hact
  | none =>
    rw [htarget] at hact
    cases hact
    apply h.update ht (s.disk.create p []) s.sending
    · intro q hq
      rw [hplain.file_create hfile, if_neg hq]
    · exact fun _ hne => hne
    · exact fun hnone => nomatch hnone
    · rintro _ ⟨⟩
      rw [hplain.file_create hfile, if_pos rfl]
      exact ⟨content, hcontent, hcarries.opens htarget⟩

/-- The end comes when everything is written. -/
lemma Carries.closes {file : Option Str} {q : Path} {pos : ℕ} {lines : List Str}
    (h : Carries content file ended p t) (htarget : t.target = some (q, pos))
    (hcoming : t.coming = syncOver :: lines) : file = some content := by
  obtain ⟨-, written, pending, hw, -, hclear, hwhole, hlines⟩ := h.opened q pos htarget
  rw [hcoming] at hlines
  rcases hlines with rfl | ⟨-, hunread, heq⟩
  · exact absurd (List.mem_cons_self ..) hclear
  · cases pending with
    | nil =>
      rw [hunread] at hwhole
      simpa [hw] using hwhole
    | cons x xs =>
      obtain rfl := (List.cons.inj heq).1
      exact absurd (List.mem_cons_self ..) hclear

/-- The next part is written behind what is there. -/
lemma Carries.writes {written : Str} {q : Path} {pos : ℕ} {line : Str} {lines : List Str}
    (h : Carries content (some written) ended p t) (htarget : t.target = some (q, pos))
    (hcoming : t.coming = line :: lines) (hline : line ≠ syncOver) :
    Carries content (some (overwrite '\x00' written pos line)) ended p
      { t with
        answers := t.answers + 1
        coming := lines
        target := some (q, pos + line.length) } := by
  obtain ⟨hq, _, pending, hw, rfl, hclear, hwhole, hlines⟩ := h.opened q pos htarget
  cases hw
  rw [hcoming] at hlines
  rw [overwrite_of_length '\x00' line rfl]
  obtain ⟨rest, rfl, hrest⟩ : ∃ rest, pending = line :: rest ∧
      (lines = rest ∨ ended ∧ t.unread = [] ∧ lines = rest ++ [syncOver]) := by
    rcases hlines with rfl | ⟨hended, hunread, heq⟩
    · exact ⟨lines, rfl, Or.inl rfl⟩
    · cases pending with
      | nil => exact absurd (List.cons.inj heq).1 hline
      | cons x xs =>
        obtain ⟨rfl, rfl⟩ := List.cons.inj heq
        exact ⟨xs, rfl, Or.inr ⟨hended, hunread, rfl⟩⟩
  refine ⟨h.unread, (fun hnone => nomatch hnone), ?_⟩
  rintro _ _ ⟨⟩
  refine ⟨hq, written ++ line, rest, rfl, ?_, ?_, ?_, hrest⟩
  · rw [List.length_append]
  · exact fun hmem => hclear (List.mem_cons_of_mem _ hmem)
  · rw [← hwhole, List.flatten_cons, List.append_assoc written]

/-- The tracker reads one part: the end, or what it writes to the open file. -/
lemma recv_cases (hact : s.act pieces (.recv p) = some s') : ∃ t q pos line lines,
    s.channel p = some t ∧ t.target = some (q, pos) ∧ t.coming = line :: lines ∧
      (line = syncOver ∧ s' = s.setChannel p none ∨
        line ≠ syncOver ∧ s' = (s.setChannel p (some { t with
            answers := t.answers + 1
            coming := lines
            target := some (q, pos + line.length) })).setDisk
          (s.disk.create q (overwrite '\x00' (s.disk.text q) pos line))) := by
  obtain ⟨t, ht, hact⟩ := Option.bind_eq_some_iff.mp hact
  obtain ⟨⟨q, pos⟩, htarget, hact⟩ := Option.bind_eq_some_iff.mp hact
  cases hlines : t.coming with
  | nil =>
    rw [hlines] at hact
    cases hact
  | cons line lines =>
    rw [hlines] at hact
    simp only [syncRecv] at hact
    refine ⟨t, q, pos, line, lines, ht, htarget, hlines, ?_⟩
    split_ifs at hact with hended
    · cases hact
      exact Or.inl ⟨hended, rfl⟩
    · cases hact
      exact Or.inr ⟨hended, rfl⟩

lemma CatchingUp.recv (h : s.CatchingUp) (hplain : s.sibling.Plain)
    (hact : s.act pieces (.recv p) = some s') : s'.CatchingUp := by
  obtain ⟨t, q, pos, line, lines, ht, htarget, hlines, hact⟩ := recv_cases hact
  obtain ⟨content, hcontent, hcarries⟩ := h.carried p t ht
  have hfile : s.sibling.disk.file p ≠ none := by simp [hcontent]
  obtain ⟨rfl, written, -, hwritten, -⟩ := hcarries.opened q pos htarget
  rcases hact with ⟨rfl, rfl⟩ | ⟨hended, rfl⟩
  · apply h.update ht s.disk s.sending
    · exact fun _ _ => rfl
    · exact fun _ hne => hne
    · intro _
      rw [hcontent]
      exact hcarries.closes htarget hlines
    · intro _ hsome
      cases hsome
  · have htext : s.disk.text q = written := by
      rw [Disk.text, Disk.read, hplain.cStr_eq hfile, hwritten, Option.getD_some]
    rw [htext]
    apply h.update ht (s.disk.create q (overwrite '\x00' written pos line)) s.sending
    · intro r hr
      rw [hplain.file_create hfile, if_neg hr]
    · exact fun _ hne => hne
    · intro hnone
      cases hnone
    · rintro _ ⟨⟩
      rw [hplain.file_create hfile, if_pos rfl]
      rw [hwritten] at hcarries
      exact ⟨content, hcontent, hcarries.writes htarget hlines hended⟩

/-- An answer has come, so that the tracker has opened the file. -/
lemma Carries.opened_of_answers {file : Option Str} (h : Carries content file ended p t)
    (hanswers : 0 < t.answers) (hended : ¬ ended) : ∃ written, file = some written ∧
      t.target = some (p, written.length) ∧ syncOver ∉ t.coming ∧
      written ++ t.coming.flatten ++ t.unread = content := by
  cases htarget : t.target with
  | none =>
    have hzero := (h.asked htarget).2.2
    rw [hzero] at hanswers
    exact absurd hanswers (Nat.lt_irrefl 0)
  | some r =>
    obtain ⟨hq, written, pending, hw, hpos, hclear, hwhole, hcoming⟩ := h.opened r.1 r.2 htarget
    obtain rfl := hcoming.resolve_right fun hlast => hended hlast.1
    exact ⟨written, hw, by rw [← hq, ← hpos], hclear, hwhole⟩

/-- The next block of the file is sent. -/
lemma Carries.sends (hpieces : ∀ block, (pieces block).flatten = block) {file : Option Str}
    (h : Carries content file ended p t) (hanswers : 0 < t.answers) (hended : ¬ ended)
    (hclear : ∀ k, syncOver ∉ pieces ((content.drop (k * maxSize)).take maxSize)) :
    Carries content file ended p
      { t with
        unread := t.unread.drop maxSize
        answers := t.answers - 1
        coming := t.coming ++ pieces (t.unread.take maxSize) } := by
  obtain ⟨k, hk⟩ := h.unread
  obtain ⟨written, hw, htarget, hnot, hwhole⟩ := h.opened_of_answers hanswers hended
  refine ⟨⟨k + 1, ?_⟩, ?_, ?_⟩
  · rw [hk, List.drop_drop, Nat.succ_mul]
  · intro hnone
    rw [htarget] at hnone
    cases hnone
  · intro q pos hq
    rw [htarget] at hq
    cases hq
    refine ⟨rfl, written, _, hw, rfl, ?_, ?_, Or.inl rfl⟩
    · rw [List.mem_append, not_or]
      exact ⟨hnot, hk ▸ hclear k⟩
    · rw [List.flatten_append, hpieces, ← hwhole]
      simp only [List.append_assoc, List.take_append_drop]

/-- The end is sent. -/
lemma Carries.ends {file : Option Str} (h : Carries content file ended p t)
    (hanswers : 0 < t.answers) (hended : ¬ ended) (hunread : t.unread = []) :
    Carries content file True p
      { t with answers := t.answers - 1, coming := t.coming ++ [syncOver] } := by
  obtain ⟨written, hw, htarget, hnot, hwhole⟩ := h.opened_of_answers hanswers hended
  refine ⟨h.unread, ?_, ?_⟩
  · intro hnone
    rw [htarget] at hnone
    cases hnone
  · intro q pos hq
    rw [htarget] at hq
    cases hq
    exact ⟨rfl, written, t.coming, hw, rfl, hnot, hwhole, Or.inr ⟨trivial, hunread, rfl⟩⟩

lemma CatchingUp.send (hpieces : ∀ block, (pieces block).flatten = block) (h : s.CatchingUp)
    (hclear : s.sibling.Clear pieces) (hact : s.act pieces .send = some s') : s'.CatchingUp := by
  obtain ⟨p, hsending, hact⟩ := Option.bind_eq_some_iff.mp hact
  obtain ⟨t, ht, hact⟩ := Option.bind_eq_some_iff.mp hact
  obtain ⟨content, hcontent, hcarries⟩ := h.carried p t ht
  have hended : ¬ s.sending ≠ some p := not_not_intro hsending
  split_ifs at hact with hanswers
  cases hact
  rw [sendNext]
  split_ifs with hunread
  · apply h.update ht s.disk none
    · exact fun _ _ => rfl
    · exact fun _ _ hnone => nomatch hnone
    · exact fun hnone => nomatch hnone
    · rintro _ ⟨⟩
      have hends := hcarries.ends hanswers hended hunread
      refine ⟨content, hcontent, ?_⟩
      simpa using hends
  · apply h.update ht s.disk s.sending
    · exact fun _ _ => rfl
    · exact fun _ hne => hne
    · exact fun hnone => nomatch hnone
    · rintro _ ⟨⟩
      refine ⟨content, hcontent, hcarries.sends hpieces hanswers hended fun k => ?_⟩
      exact hclear p content k hcontent

end Transfer

/-! ### Catching up -/

lemma CatchingUp.act (hpieces : ∀ block, (pieces block).flatten = block) (h : s.CatchingUp)
    (hplain : s.sibling.Plain) (hclear : s.sibling.Clear pieces) {e : Event}
    (hcaught : s.Caught e) (hact : s.act pieces e = some s') : s'.CatchingUp := by
  cases e with
  | syncAll =>
    rw [Startup.act] at hact
    split_ifs at hact
    cases hact
    exact ⟨h.walks, h.waiting, h.carried, h.settled, h.finished⟩
  | listen =>
    rw [Startup.act] at hact
    split_ifs at hact
    cases hact
    exact ⟨h.walks, h.waiting, h.carried, h.settled, h.finished⟩
  | handler =>
    rw [Startup.act] at hact
    split_ifs at hact with hstart
    cases hact
    have hahead : s.ahead = s.sibling.names := by rw [ahead, hstart.2, Option.getD_none]
    refine ⟨List.suffix_rfl, ?_, h.carried, ?_, ?_⟩
    · exact fun name hname => h.waiting name (hahead ▸ hname)
    · exact fun p hnone hpassed => h.settled p hnone fun name hname => hpassed name (hahead ▸ hname)
    · intro hend
      have hwalk := (h.finished hend).1
      rw [hstart.2] at hwalk
      cases hwalk
  | entry => exact h.entry hcaught hact
  | send => exact h.send hpieces hclear hact
  | finish =>
    rw [Startup.act] at hact
    split_ifs at hact with hend
    cases hact
    refine ⟨h.walks, h.waiting, h.carried, h.settled, fun _ => ⟨hend.1, hend.2, fun p => ?_⟩⟩
    -- a channel leads to a file of the sibling
    cases hp : s.channel p with
    | none => rfl
    | some t =>
      obtain ⟨content, hcontent, -⟩ := h.carried p t hp
      have hfile : s.sibling.disk.file p ≠ none := by simp [hcontent]
      obtain ⟨name, hname, -, rfl⟩ := Directory.exists_name hfile
      rw [← hp]
      exact hcaught name hname
  | opens p => exact h.opens hplain hact
  | recv p => exact h.recv hplain hact

/-- The sibling's directory stays as it is. -/
lemma sibling_act {e : Event} (hact : s.act pieces e = some s') : s'.sibling = s.sibling := by
  cases e with
  | syncAll | listen | handler | finish =>
    rw [Startup.act] at hact
    split_ifs at hact
    cases hact
    rfl
  | entry =>
    rw [Startup.act] at hact
    split at hact
    · cases hact
      unfold sync
      split_ifs <;> rfl
    · cases hact
  | send =>
    obtain ⟨p, -, hact⟩ := Option.bind_eq_some_iff.mp hact
    obtain ⟨t, -, hact⟩ := Option.bind_eq_some_iff.mp hact
    split_ifs at hact
    cases hact
    unfold sendNext
    split_ifs <;> rfl
  | opens p =>
    obtain ⟨t, -, hact⟩ := Option.bind_eq_some_iff.mp hact
    split at hact
    · cases hact
      rfl
    · cases hact
  | recv p =>
    obtain ⟨t, q, pos, line, lines, -, -, -, ⟨-, rfl⟩ | ⟨-, rfl⟩⟩ := recv_cases hact
    · rfl
    · rfl

/-- A tracker that listens before its sibling comes to a file that differs has the sibling's files
    once the sibling's handler has come to its end. -/
theorem catches_up {S : Directory} {d : Disk}
    (hpieces : ∀ block, (pieces block).flatten = block) (hplain : S.Plain) (hclear : S.Clear pieces)
    (hd : ∀ p, S.disk.file p = none → d.file p = none)
    (hrun : Machine.RunsWhen (Startup.act pieces) Caught (start S d) s)
    (hfinished : s.finished = true) : s.disk = S.disk := by
  obtain ⟨hsibling, hcatching⟩ : s.sibling = S ∧ s.CatchingUp := by
    refine hrun.invariant (P := fun s => s.sibling = S ∧ s.CatchingUp) ?_
      ⟨rfl, catchingUp_start hd⟩
    rintro s e s' ⟨rfl, h⟩ hcaught hact
    exact ⟨sibling_act hact, h.act hpieces hplain hclear hcaught hact⟩
  obtain ⟨hwalk, -, hclosed⟩ := hcatching.finished hfinished
  apply Disk.ext
  funext p
  rw [← hsibling]
  apply hcatching.settled p (hclosed p)
  intro name hname
  rw [ahead, hwalk] at hname
  cases hname

end Startup

/-! ### One account -/

lemma Disk.file_create_entry (d : Disk) (n text name : Str)
    (hn : cStr (allFiles ++ n) = allFiles ++ n) (hopen : openable (allFiles ++ n) = true) :
    (d.create (allFiles ++ n) text).file (allFiles ++ name) =
      if name = n then some text else d.file (allFiles ++ name) := by
  simp only [Disk.create, hn, List.append_cancel_left_eq]
  by_cases hname : name = n
  · subst hname
    rw [if_pos ⟨rfl, hopen⟩, if_pos rfl]
  · rw [if_neg fun h => hname h.1, if_neg hname]

/-- The files that `FetchDetails` creates. -/
def fetchedFiles (accounts : Str) : Disk :=
  (((Disk.empty.create credentialFile accounts).create onlineFile []).create groupFile []).create
    pendingFile []

lemma fetchedFiles_file (accounts name : Str) :
    (fetchedFiles accounts).file (allFiles ++ name) =
      if name = ".pending.txt".toList then some []
      else if name = ".group.txt".toList then some []
      else if name = ".online.txt".toList then some []
      else if name = ".credential.txt".toList then some accounts
      else none := by
  simp only [fetchedFiles, credentialFile, onlineFile, groupFile, pendingFile]
  rw [Disk.file_create_entry _ _ _ _ rfl rfl, Disk.file_create_entry _ _ _ _ rfl rfl,
    Disk.file_create_entry _ _ _ _ rfl rfl, Disk.file_create_entry _ _ _ _ rfl rfl]
  rfl

/-- A sibling with one account. -/
def oneAccount : Directory where
  disk := fetchedFiles "u s:p\n".toList
  names := [".".toList, "..".toList, ".credential.txt".toList, ".online.txt".toList,
    ".group.txt".toList, ".pending.txt".toList]
  nodup := by decide
  mem_names := by
    intro name
    rw [fetchedFiles_file]
    split_ifs <;> simp_all

/-- Blocks arrive as they are sent. -/
def wholeBlock (block : Str) : List Str := if block = [] then [] else [block]

lemma flatten_wholeBlock (block : Str) : (wholeBlock block).flatten = block := by
  unfold wholeBlock
  split_ifs with h
  · exact h.symm
  · exact List.flatten_singleton

lemma fetchedFiles_none_iff (accounts accounts' : Str) (p : Path) :
    (fetchedFiles accounts).file p = none ↔ (fetchedFiles accounts').file p = none := by
  simp only [fetchedFiles, Disk.create]
  split_ifs <;> simp

lemma oneAccount_plain : oneAccount.Plain := by
  have hall : (oneAccount.names.all fun name => name.all fun c => !isspace c && c ≠ '\x00') =
    true := rfl
  intro name hname
  have hchars := List.all_eq_true.mp (List.all_eq_true.mp hall name hname)
  refine ⟨fun c hc => ?_, fun hc => ?_⟩
  · have hblank := (Bool.and_eq_true _ _ ▸ hchars c hc).1
    rwa [Bool.not_eq_true'] at hblank
  · have hnul := (Bool.and_eq_true _ _ ▸ hchars _ hc).2
    exact of_decide_eq_true hnul rfl

/-- The files are too short for the mark. -/
lemma oneAccount_clear : oneAccount.Clear wholeBlock := by
  intro p c k hc hmem
  have hlength : c.length ≤ 6 := by
    simp only [oneAccount, fetchedFiles, Disk.create] at hc
    split_ifs at hc <;> cases hc <;> decide
  unfold wholeBlock at hmem
  split_ifs at hmem
  · cases hmem
  · have hlong := congrArg List.length (List.mem_singleton.mp hmem)
    rw [List.length_take, List.length_drop] at hlong
    have hnine : syncOver.length = 9 := rfl
    omega

namespace Startup

/-- `Caught` as a test. -/
def testCaught (s : Startup) : Event → Bool
  | .entry  =>
    match s.walk with
    | some (name :: _) => isDots name || s.listening ||
        decide (s.disk.file (allFiles ++ name) = s.sibling.disk.file (allFiles ++ name))
    | _ => true
  | .finish => s.sibling.names.all fun name => (s.channel (allFiles ++ name)).isNone
  | _       => true

lemma caught_of_test {s : Startup} {e : Event} (h : s.testCaught e = true) : s.Caught e := by
  cases e with
  | entry =>
    intro name names hwalk hdots
    rw [testCaught, hwalk] at h
    simp only [hdots, Bool.false_or, Bool.or_eq_true, decide_eq_true_eq] at h
    exact h
  | finish =>
    intro name hname
    exact Option.isNone_iff_eq_none.mp (List.all_eq_true.mp h name hname)
  | _ => trivial

/-- The sibling sends the file at the head of its walk, of one block at most. -/
def oneTransfer (p : Path) (blocks : ℕ) : List Event :=
  [.entry, .opens p] ++ (List.replicate (blocks + 1) [.send, .recv p]).flatten

/-- The tracker listens when the first file is sent. -/
theorem catches_up_oneAccount : ∃ s : Startup,
    Machine.RunsWhen (Startup.act wholeBlock) Caught (start oneAccount (fetchedFiles [])) s ∧
      s.finished = true ∧ s.listening = true ∧ s.disk = oneAccount.disk := by
  let events : List Event := [.syncAll, .handler, .entry, .listen, .entry] ++
    oneTransfer credentialFile 1 ++ oneTransfer onlineFile 0 ++ oneTransfer groupFile 0 ++
      oneTransfer pendingFile 0 ++ [.finish]
  have hplayed : ((Machine.play (Startup.act wholeBlock) testCaught
      (start oneAccount (fetchedFiles [])) events).any
        fun s => s.finished && s.listening) = true := by
    decide +kernel
  obtain ⟨s, hs, hend⟩ := (Option.any_eq_true _ _).mp hplayed
  rw [Bool.and_eq_true] at hend
  have hrun : Machine.RunsWhen (Startup.act wholeBlock) Caught
      (start oneAccount (fetchedFiles [])) s :=
    Machine.play_runsWhen (fun _ _ h => caught_of_test h) hs
  refine ⟨s, hrun, hend.1, hend.2, ?_⟩
  exact catches_up flatten_wholeBlock oneAccount_plain oneAccount_clear
    (fun p => (fetchedFiles_none_iff _ _ p).mp) hrun hend.1

/-- The sibling goes through its directory before the tracker listens. -/
theorem walk_before_listening : ∃ s : Startup,
    Machine.RunsWhen (Startup.act wholeBlock) (fun _ _ => True)
      (start oneAccount (fetchedFiles [])) s ∧
      s.finished = true ∧ s.listening = true ∧ (∀ p, s.channel p = none) ∧
      s.disk.text credentialFile = [] ∧ oneAccount.disk.text credentialFile = "u s:p\n".toList := by
  let events : List Event := [.syncAll, .handler] ++ List.replicate 6 .entry ++ [.finish, .listen]
  have hplayed : Machine.play (Startup.act wholeBlock) (fun _ _ => true)
      (start oneAccount (fetchedFiles [])) events =
        some { start oneAccount (fetchedFiles []) with
          requested := true, walk := some [], finished := true, listening := true } := rfl
  exact ⟨_, Machine.play_runsWhen (fun _ _ _ => trivial) hplayed, rfl, rfl, fun _ => rfl, rfl, rfl⟩

end Startup

end TorrentShare
