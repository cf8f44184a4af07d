import TorrentShare.Registry.Interference
import TorrentShare.Replication.Pair
import TorrentShare.Replication.Startup

/-!
# Failover

Commands go to one of two trackers. Either of them may stop, and when it starts again the other one
sends it all files. As long as a tracker that has missed a command is started only while the other
one runs, and a tracker that takes over is first sent a command that loads the tables, outages do
not show.
-/

namespace TorrentShare

open Program

/-! ### Files of a registry, whatever the tables -/

/-- The registry can be loaded from the files. -/
structure Disk.Restores (sha256 : Str → List (Fin 256)) (E : Entities) (R : Registry Str)
    (d : Disk) : Prop where
  sound : R.Sound
  filed : ∃ F, E.Holds F ∅ d ∧ R.Fills sha256 F

namespace Disk

lemma touch_of_read {d : Disk} {p : Path} (h : d.read p ≠ none) : d.touch p = d := by
  unfold touch
  split
  · rfl
  · rename_i hnone
    exact absurd hnone h

/-- A second reload changes no file. -/
lemma reloaded_reloaded (d : Disk) : d.reloaded.reloaded = d.reloaded := by
  have hpending : d.reloaded.read pendingFile ≠ none := read_touch_self (by decide)
  have hgroup : d.reloaded.read groupFile ≠ none :=
    read_touch_ne_none (read_touch_self (by decide))
  have honline : d.reloaded.read onlineFile ≠ none :=
    read_touch_ne_none (read_touch_ne_none (read_touch_self (by decide)))
  have hcredential : d.reloaded.read credentialFile ≠ none :=
    read_touch_ne_none (read_touch_ne_none (read_touch_ne_none (read_touch_self (by decide))))
  show (((d.reloaded.touch credentialFile).touch onlineFile).touch groupFile).touch pendingFile = _
  rw [touch_of_read hcredential, touch_of_read honline, touch_of_read hgroup,
    touch_of_read hpending]

end Disk

/-- Nor does it change a table. -/
lemma Memory.reload_reloaded {m m' : Memory} {d : Disk} (h : m.reload d = some m') :
    m'.reload d.reloaded = some m' := by
  have hcredential : ∀ m e, (Memory.addCredential m e).groupMembers = m.groupMembers :=
    fun _ _ => rfl
  have honline : ∀ m e, (Memory.addOnline m e).groupMembers = m.groupMembers := fun _ _ => rfl
  have hgroup : ∀ m e, (Memory.addGroup m e).groupMembers = m.groupMembers := fun _ _ => rfl
  have hclear : m'.clear = m.clear := by
    simp only [Memory.reload, Memory.load, Option.bind_eq_some_iff, Option.map_eq_some_iff] at h
    obtain ⟨online, -, groups, -, rfl⟩ := h
    rw [Memory.clear, Memory.clear, foldl_keep Memory.groupMembers Memory.groupMembers_addPending,
      foldl_keep Memory.groupMembers hgroup, foldl_keep Memory.groupMembers honline,
      foldl_keep Memory.groupMembers hcredential]
  rw [← h, Memory.reload, Memory.reload, hclear]
  simp only [Memory.load, Disk.lines_reloaded]

/-- The handler of the command begins with `FetchDetails`. -/
def Command.reloads : Command → Bool
  | .joinGroup .. | .acceptRequest .. | .uploadFile .. | .stopShare .. | .leaveGroup ..
  | .sendFullPath .. => false
  | _                => true

/-- The handler of the command looks at no table. -/
def Command.tableless : Command → Bool
  | .sendFullPath .. => true
  | _                => false

section Files

variable {sha256 : Str → List (Fin 256)} {E : Entities} {R : Registry Str} {d d' : Disk}
  {t : Tracker} {hashPassword : Str → Str → Str} {online : Bool} {salt : Str} {c : Command}

lemma Tracker.Represents.restores (h : t.Represents sha256 E R) : t.disk.Restores sha256 E R := by
  obtain ⟨F, P, hd, hF, -⟩ := h.filed
  exact ⟨h.sound, F, ⟨hd.separate, hd.openable, hd.tidy, hd.lines, fun k hk => hk.elim⟩, hF⟩

lemma Disk.Restores.tidy (h : d.Restores sha256 E R) : d.Tidy := by
  obtain ⟨F, hd, -⟩ := h.filed
  exact hd.tidy

lemma Disk.Restores.stores (h : t.disk.Restores sha256 E R) : t.Stores sha256 E R := by
  obtain ⟨F, hd, hF⟩ := h.filed
  exact ⟨F, ∅, hd, hF⟩

/-- Only the texts of the files count. -/
lemma Disk.Restores.of_text (h : d.Restores sha256 E R) (htext : ∀ p, d'.text p = d.text p) :
    d'.Restores sha256 E R := by
  obtain ⟨F, hd, hF⟩ := h.filed
  refine ⟨h.sound, F, ⟨hd.separate, hd.openable, ((Disk.Edited.nil hd.tidy).of_text htext).tidy,
    fun k hk => ?_, fun k hk => hk.elim⟩, hF⟩
  rw [Disk.lines, htext]
  exact hd.lines k hk

/-- From such files the tables of the registry are loaded. -/
lemma Disk.Restores.reload (h : d.Restores sha256 E R) (m : Memory) : ∃ m', m.reload d = some m' ∧
    Tracker.Represents sha256 E R.refresh ⟨d.reloaded, m'⟩ := by
  obtain ⟨F, hd, hF⟩ := h.filed
  obtain ⟨m', hm⟩ := hF.reload hd m
  exact ⟨m', hm, h.sound.refresh, (hF.loaded h.sound hd hm).toCached, F, _, hd.reloaded,
    hF.refresh, fun _ _ => Or.inl rfl⟩

lemma trackerKernel_reloads (hc : c.reloads = true) :
    ∃ k, trackerKernel hashPassword c = fetchDetails >>= k := by
  cases c <;> first | exact (Bool.false_ne_true hc).elim | exact ⟨_, rfl⟩

/-- A command that loads the tables is served as if they had been loaded before. -/
lemma serve_reloaded {m : Memory} (hc : c.reloads = true)
    (hm : t.memory.reload t.disk = some m) :
    serve hashPassword t online salt c =
      serve hashPassword ⟨t.disk.reloaded, m⟩ online salt c := by
  obtain ⟨k, hk⟩ : ∃ k, trackerKernel hashPassword c = fetchDetails >>= k :=
    trackerKernel_reloads hc
  simp only [serve, hk, run_fetchDetails_bind, Session.memory, Session.disk]
  rw [hm, Memory.reload_reloaded hm, Option.bind_some, Option.bind_some, Disk.reloaded_reloaded]
  rfl

/-- For such a command it does not matter whether the registry has been refreshed. -/
lemma Registry.command_refresh (hc : c.reloads = true) :
    R.refresh.command sha256 salt c = R.command sha256 salt c := by
  cases c <;> first | exact (Bool.false_ne_true hc).elim | rfl

/-- `send_full_path` reads a file, needs no table and changes nothing. -/
lemma serve_sendFullPath {u g f : Str} (h : t.disk.Restores sha256 E R) (hu : E.user u) :
    ∃ reply, serve hashPassword t online salt (.sendFullPath u g f) = some (reply, t, []) ∧
      (R.sendFullPath u g f).1.Tells reply := by
  obtain ⟨F, hd, hF⟩ := h.filed
  refine ⟨some _, ?_, rfl⟩
  have hread : getlines ((t.disk.read (userFilesFile u)).getD []) = F (.files u) :=
    hd.lines (.files u) hu
  have hfound := h.sound.find_location hF (u := u) (p := fun c => c.group = g ∧ c.name = f)
    fun c => andThen_fieldIs (i := 0) (j := 1) (x := g) (y := f) rfl rfl
  have hpath : (((R.copies u).find? fun c => c.group = g ∧ c.name = f).map
      fun c => [c.group, c.name, c.path]).elim (some []) (·[2]?) =
      some ((((R.copies u).find? fun c => c.group = g ∧ c.name = f).map (·.path)).getD []) := by
    cases (R.copies u).find? fun c => c.group = g ∧ c.name = f with
    | none => rfl
    | some c => rfl
  rw [serve, trackerKernel, run_answerData_eq, getFullPath, run_read_bind, run_checked_bind,
    Session.disk, hread, hfound, Option.bind_some, hpath]
  rfl

end Files

/-! ### Files stay -/

/-- No call takes a file away but the temporary one. -/
lemma read_ne_none_step (o : Call) {a : callAns o} {s s' : Session} {q : Path} (ho : o.sparesTemp)
    (hq : cStr q ≠ tempFile) (h : s.disk.read q ≠ none) (hs : callInterp o s = some (a, s')) :
    s'.disk.read q ≠ none := by
  cases o with
  | prim o =>
    rw [callInterp_prim] at hs
    cases o with
    | sync p =>
      obtain ⟨sent, rfl⟩ := primInterp_sync hs
      exact h
    | append p c =>
      cases hs
      exact Disk.read_append_ne_none _ (Or.inl h)
    | create p c =>
      cases hs
      exact Disk.read_create_ne_none _ (Or.inl h)
    | remove p => exact ho.elim
    | rename p q => exact ho.elim
    | fault => cases hs
    | _ => cases hs; exact h
  | fetchDetails =>
    simp only [callInterp_fetchDetails, Option.map_eq_some_iff, Prod.mk.injEq] at hs
    obtain ⟨m, -, -, rfl⟩ := hs
    exact Disk.read_reloaded_ne_none h
  | fetchGroupMembers g =>
    rw [callInterp_fetchGroupMembers] at hs
    cases hs
    exact h
  | rewrite mode p drop =>
    simp only [callInterp_rewrite, Option.map_eq_some_iff, Prod.mk.injEq] at hs
    obtain ⟨ks, -, -, rfl⟩ := hs
    exact Disk.read_rewritten_ne_none mode ks ho hq (Or.inl h)

lemma read_ne_none_of_serve {hashPassword : Str → Str → Str} {t t' : Tracker} {online : Bool}
    {salt : Str} {c : Command} {reply : Reply} {sent : List (Path × Str)} {q : Path}
    (h : serve hashPassword t online salt c = some (reply, t', sent)) (hq : cStr q ≠ tempFile)
    (hread : t.disk.read q ≠ none) : t'.disk.read q ≠ none := by
  simp only [serve, Option.map_eq_some_iff, Prod.mk.injEq] at h
  obtain ⟨⟨r, s⟩, hrun, rfl, rfl, rfl⟩ := h
  obtain ⟨D, -, hs⟩ := (trackerKernel_sendsAll hashPassword c).run
    (R := fun _ s => s.disk.read q ≠ none)
    (fun o D s a s' ho hs hrun => ⟨trivial, read_ne_none_step o ho hq hs hrun⟩) hread hrun
  exact hs

/-! ### All files of a tracker -/

/-- What `SyncAllHandler` sends: the entries of the directory one after another. -/
def syncAllHandler (d : Disk) (names : List Str) : List (Path × Str) :=
  (names.filter fun name => !Startup.isDots name).filterMap fun name =>
    (d.read (allFiles ++ name)).map fun c => (allFiles ++ name, c)

/-- The files of another tracker in place of those of the same names. -/
def Disk.receiveAll (d e : Disk) : Disk where
  file p := (e.file p).or (d.file p)
  closed p hp := by rw [e.closed p hp, d.closed p hp]; rfl

lemma Disk.read_receiveAll (d e : Disk) (p : Path) :
    (d.receiveAll e).read p = (e.read p).or (d.read p) := rfl

section Receiving

variable {S : Directory}

lemma Directory.Plain.cStr_entry (hS : S.Plain) {name : Str} (hname : name ∈ S.names) :
    cStr (allFiles ++ name) = allFiles ++ name := by
  apply List.takeWhile_eq_self_iff.mpr
  intro c hc
  apply decide_eq_true
  rintro rfl
  rcases List.mem_append.mp hc with hc | hc
  · exact absurd hc (by decide)
  · exact (hS name hname).2 hc

lemma Directory.Plain.mem_syncAllHandler (hS : S.Plain) {p : Path} {c : Str} :
    (p, c) ∈ syncAllHandler S.disk S.names ↔ S.disk.file p = some c := by
  simp only [syncAllHandler, List.mem_filterMap, List.mem_filter, Option.map_eq_some_iff,
    Prod.mk.injEq]
  constructor
  · rintro ⟨name, ⟨hname, -⟩, c, hread, rfl, rfl⟩
    rwa [Disk.read, hS.cStr_entry hname] at hread
  · intro hp
    obtain ⟨name, hname, hdots, rfl⟩ :=
      Directory.exists_name (hp ▸ Option.some_ne_none c : S.disk.file p ≠ none)
    refine ⟨name, ⟨hname, by rw [hdots]; rfl⟩, c, ?_, rfl, rfl⟩
    rw [Disk.read, hS.cStr_entry hname, hp]

/-- Files that are received one after another take the places of what was there. -/
lemma Directory.Plain.file_receive (hS : S.Plain) {sent : List (Path × Str)}
    (hsent : ∀ f ∈ sent, S.disk.file f.1 = some f.2) (d : Disk) (p : Path) :
    (d.receive sent).file p = if p ∈ sent.map Prod.fst then S.disk.file p else d.file p := by
  induction sent generalizing d with
  | nil => rfl
  | cons f sent ih =>
    obtain ⟨hf, hsent⟩ := List.forall_mem_cons.mp hsent
    show ((d.create f.1 f.2).receive sent).file p = _
    rw [ih hsent, hS.file_create (hf ▸ Option.some_ne_none f.2)]
    by_cases hp : p = f.1
    · subst hp
      simp [hf]
    · rw [if_neg hp]
      simp only [List.map_cons, List.mem_cons, hp, false_or]

/-- In the end all files of the sibling are there. -/
lemma Directory.Plain.receive_syncAllHandler (hS : S.Plain) (d : Disk) :
    d.receive (syncAllHandler S.disk S.names) = d.receiveAll S.disk := by
  apply Disk.ext
  funext p
  rw [hS.file_receive fun f hf => hS.mem_syncAllHandler.mp hf]
  show _ = (S.disk.file p).or (d.file p)
  cases hp : S.disk.file p with
  | none =>
    rw [if_neg]
    · rfl
    · intro hmem
      obtain ⟨⟨q, c⟩, hsent, rfl⟩ := List.mem_map.mp hmem
      cases hp.symm.trans (hS.mem_syncAllHandler.mp hsent)
  | some c =>
    rw [if_pos (List.mem_map_of_mem (hS.mem_syncAllHandler.mpr hp))]
    rfl

end Receiving

/-! ### Two trackers and their outages -/

/-- Two trackers, and which of them run. -/
structure Trackers where
  pair : Pair
  up : Side → Bool

namespace Trackers

/-- A command at one of the trackers, the end of its process, and a start. -/
inductive Event where
  | command (i : Side) (c : Command) (salt : List (Fin 256))
  | stop (i : Side)
  | start (i : Side)

/-- A command comes to its end with all transfers, and a start with all files of the sibling, before
    anything else happens. Nobody answers at a tracker that does not run. -/
def act (sha256 : Str → List (Fin 256)) (T : Trackers) : Event → Option (Reply × Trackers)
  | .command i c salt =>
    if T.up i = false then some (none, T)
    else if T.up i.sibling then
      (process (hashPassword sha256) T.pair ⟨i, c, generateSalt salt⟩).map fun r =>
        (r.1, { T with pair := r.2 })
    else
      ((T.pair i).act sha256 (.command c salt false)).map fun r =>
        (r.1, { T with pair := Function.update T.pair i r.2 })
  | .stop i => some (none, { T with up := Function.update T.up i false })
  | .start i =>
    ((T.pair i).act sha256 .restart).map fun r =>
      let disk := if T.up i.sibling then r.2.disk.receiveAll (T.pair i.sibling).disk else r.2.disk
      (r.1, ⟨Function.update T.pair i { r.2 with disk := disk }, Function.update T.up i true⟩)

/-- Two trackers without files that do not run. -/
def initial : Trackers := ⟨fun _ => .initial, fun _ => false⟩

/-- The command names groups and users among those given, and no argument is missing. -/
def Event.Proper (E : Entities) : Event → Prop
  | .command _ c _ => E.Name c ∧ ∀ w ∈ c.args, IsToken w
  | _              => True

/-- What an operator knows: which trackers run, which have missed commands, and which one has the
    tables of the last command. -/
structure Watch where
  up : Side → Bool
  behind : Side → Bool
  current : Option Side

namespace Watch

/-- Nothing runs, and nothing has been missed. -/
def initial : Watch := ⟨fun _ => false, fun _ => false, none⟩

/-- A tracker that takes over is first sent a command that loads the tables, and one that has missed
    commands is started only when the other one runs. -/
def Allows (w : Watch) : Event → Prop
  | .command i c _ =>
    w.up i = true ∧ (c.reloads = true ∨ c.tableless = true ∨ w.current = some i)
  | .stop i  => w.up i = true
  | .start i => w.up i = false ∧ (w.behind i = true → w.up i.sibling = true)

def next (w : Watch) : Event → Watch
  | .command i c _ =>
    if c.tableless then w
    else { w with
      behind := if w.up i.sibling then w.behind else Function.update w.behind i.sibling true
      current := some i }
  | .stop i  => { w with
      up := Function.update w.up i false
      current := if w.current = some i then none else w.current }
  | .start i => { w with
      up := Function.update w.up i true
      behind := Function.update w.behind i false }

end Watch

/-- The two trackers keep a registry. One that has missed commands has files of a registry before,
    and the other one has all files that it has. -/
structure Keep (sha256 : Str → List (Fin 256)) (E : Entities) (w : Watch) (R : Registry Str)
    (T : Trackers) : Prop where
  up : T.up = w.up
  restores : ∀ i, w.behind i = false → (T.pair i).disk.Restores sha256 E R
  same : ∀ i, w.behind i = false → w.behind i.sibling = false →
    ∀ p, (T.pair i.sibling).disk.text p = (T.pair i).disk.text p
  missed : ∀ i, w.behind i = true → w.up i = false ∧ w.behind i.sibling = false ∧
    (∃ R', (T.pair i).disk.Restores sha256 E R') ∧
    ∀ p, (T.pair i).disk.text p ≠ [] → (T.pair i.sibling).disk.read p ≠ none
  tables : ∀ i, w.current = some i → w.up i = true ∧ (T.pair i).Represents sha256 E R

end Trackers

/-- A registry hears the commands, wherever they are sent. -/
noncomputable def Registry.hears (sha256 : Str → List (Fin 256)) (R : Registry Str) :
    Trackers.Event → Answer Str × Registry Str
  | .command _ c salt => R.command sha256 (generateSalt salt) c
  | _                 => (.silent, R)

section Steps

variable {sha256 : Str → List (Fin 256)} {E : Entities} {R : Registry Str} {t : Tracker}
  {w : Trackers.Watch} {T : Trackers} {i j : Side} {c : Command} {salt : List (Fin 256)}
  {online : Bool}

/-- A tracker with files and tables of the registry serves a command as the registry answers it. -/
lemma Tracker.Represents.serve (h : t.Represents sha256 E R)
    (hproper : (Act.command c salt online).Proper E) : ∃ reply t' sent,
      TorrentShare.serve (hashPassword sha256) t online (generateSalt salt) c =
        some (reply, t', sent) ∧
      (R.command sha256 (generateSalt salt) c).1.Tells reply ∧
      t'.Represents sha256 E (R.command sha256 (generateSalt salt) c).2 := by
  obtain ⟨reply, t', hact, htells, hafter⟩ := Tracker.implements sha256 E R t _ hproper h
  obtain ⟨⟨reply, t', sent⟩, hserve, heq⟩ := Option.map_eq_some_iff.mp hact
  cases heq
  exact ⟨reply, t', sent, hserve, htells, hafter⟩

/-- So does one with such files and any tables, where the command loads them. -/
lemma Disk.Restores.serve (h : t.disk.Restores sha256 E R) (hc : c.reloads = true)
    (hproper : (Act.command c salt online).Proper E) : ∃ reply t' sent,
      TorrentShare.serve (hashPassword sha256) t online (generateSalt salt) c =
        some (reply, t', sent) ∧
      (R.command sha256 (generateSalt salt) c).1.Tells reply ∧
      t'.Represents sha256 E (R.command sha256 (generateSalt salt) c).2 := by
  obtain ⟨m, hm, hrep⟩ := h.reload t.memory
  rw [serve_reloaded hc hm, ← Registry.command_refresh hc]
  exact hrep.serve hproper

/-- A start with such files. -/
lemma Disk.Restores.restart (h : t.disk.Restores sha256 E R) :
    ∃ m, t.act sha256 .restart = some (none, ⟨t.disk.reloaded, m⟩) := by
  obtain ⟨m, hm, -⟩ := h.reload {}
  refine ⟨m, ?_⟩
  have hrun : fetchDetails.run callInterp ⟨⟨t.disk, {}⟩, [], false, []⟩ =
      some ((), ⟨⟨t.disk.reloaded, m⟩, [], false, []⟩) := by
    rw [fetchDetails, Prog.run_call, callInterp_fetchDetails, Session.memory, Session.disk, hm]
    rfl
  rw [Tracker.act, hrun]
  rfl

lemma Disk.text_receiveAll {d e : Disk} {p : Path} (h : d.text p ≠ [] → e.read p ≠ none) :
    (d.receiveAll e).text p = e.text p := by
  rw [Disk.text, Disk.text, Disk.read_receiveAll]
  cases hread : e.read p with
  | some x => rfl
  | none => exact not_not.mp fun hne => h hne hread

namespace Trackers

lemma Keep.not_behind (h : T.Keep sha256 E w R) (hup : w.up i = true) : w.behind i = false := by
  by_contra hbehind
  have hdown := (h.missed i (by simpa using hbehind)).1
  rw [hup] at hdown
  cases hdown

/-- What one tracker has and the other one lacks is empty. -/
lemma Keep.read_of_text (h : T.Keep sha256 E w R) (hbehind : w.behind i.sibling = false) {p : Path}
    (hp : (T.pair i).disk.text p ≠ []) : (T.pair i.sibling).disk.read p ≠ none := by
  cases hmissed : w.behind i with
  | true => exact (h.missed i hmissed).2.2.2 p hp
  | false =>
    intro hnone
    rw [← h.same i hmissed hbehind p, Disk.text, hnone] at hp
    exact hp rfl

/-- The same from the other side. -/
lemma Keep.read_back (h : T.Keep sha256 E w R) (hbehind : w.behind i = false) {p : Path}
    (hp : (T.pair i.sibling).disk.text p ≠ []) : (T.pair i).disk.read p ≠ none := by
  have hread := h.read_of_text (i := i.sibling) (by rwa [Side.sibling_sibling]) hp
  rwa [Side.sibling_sibling] at hread

lemma Keep.restores_some (h : T.Keep sha256 E w R) (i : Side) :
    ∃ R', (T.pair i).disk.Restores sha256 E R' := by
  cases hbehind : w.behind i with
  | true => exact (h.missed i hbehind).2.2.1
  | false => exact ⟨R, h.restores i hbehind⟩

/-- Both trackers run. -/
lemma Keep.agree (h : T.Keep sha256 E w R) (hup : w.up i = true) (hother : w.up i.sibling = true) :
    T.pair.Agree True := by
  have hi := h.not_behind hup
  have hsibling := h.not_behind hother
  have hsame := h.same i hi hsibling
  refine ⟨?_, fun _ j => ?_⟩
  · cases i with
    | first => exact fun p _ => (hsame p).symm
    | second => exact fun p _ => hsame p
  · rcases Side.eq_or_eq_sibling i j with rfl | rfl
    · exact (h.restores j hi).tidy.temp
    · exact (h.restores _ hsibling).tidy.temp

/-- Only one tracker runs, and serves a command. The other one misses it. -/
lemma Keep.served_alone (h : T.Keep sha256 E w R) (hup : w.up i = true)
    (hother : w.up i.sibling = false) {R' : Registry Str} {reply : Reply}
    {sent : List (Path × Str)}
    (hserve : serve (hashPassword sha256) (T.pair i) false (generateSalt salt) c =
      some (reply, t, sent)) (ht : t.Represents sha256 E R') :
    Keep sha256 E ⟨w.up, Function.update w.behind i.sibling true, some i⟩ R'
      { T with pair := Function.update T.pair i t } := by
  have hi := h.not_behind hup
  have hpair : Function.update T.pair i t i.sibling = T.pair i.sibling :=
    Function.update_of_ne i.sibling_ne ..
  have hbehind : Function.update w.behind i.sibling true i = false := by
    rw [Function.update_of_ne i.sibling_ne.symm, hi]
  refine ⟨h.up, fun j hj => ?_, fun j hj hj' => ?_, fun j hj => ?_, fun j hj => ?_⟩
  · rcases Side.eq_or_eq_sibling i j with rfl | rfl
    · dsimp only
      rw [Function.update_self]
      exact ht.restores
    · simp at hj
  · rcases Side.eq_or_eq_sibling i j with rfl | rfl
    · simp at hj'
    · simp at hj
  · rcases Side.eq_or_eq_sibling i j with rfl | rfl
    · cases hj.symm.trans hbehind
    · refine ⟨hother, by rwa [Side.sibling_sibling], ?_, fun p hp => ?_⟩
      · dsimp only
        rw [hpair]
        exact h.restores_some i.sibling
      · dsimp only at hp ⊢
        rw [hpair] at hp
        rw [Side.sibling_sibling, Function.update_self]
        -- only the temporary file may go, and it is empty
        refine read_ne_none_of_serve hserve (fun htemp => ?_) (h.read_back hi hp)
        obtain ⟨R', hold⟩ := h.restores_some i.sibling
        rw [Disk.text_congr (q := tempFile) _ htemp, hold.tidy.temp] at hp
        exact hp rfl
  · cases hj
    dsimp only
    rw [Function.update_self]
    exact ⟨hup, ht⟩

/-- Both trackers run, and one of them serves a command. The other one receives the files. -/
lemma Keep.served_both (h : T.Keep sha256 E w R) (hup : w.up i = true)
    (hother : w.up i.sibling = true) {R' : Registry Str} {reply : Reply}
    {sent : List (Path × Str)}
    (hserve : serve (hashPassword sha256) (T.pair i) true (generateSalt salt) c =
      some (reply, t, sent)) (ht : t.Represents sha256 E R') : ∃ P,
    process (hashPassword sha256) T.pair ⟨i, c, generateSalt salt⟩ = some (reply, P) ∧
      Keep sha256 E ⟨w.up, w.behind, some i⟩ R' ⟨P, T.up⟩ := by
  obtain ⟨P, hprocess⟩ : ∃ P, process (hashPassword sha256) T.pair ⟨i, c, generateSalt salt⟩ =
      some (reply, P) := by
    rw [process, hserve]
    exact ⟨_, rfl⟩
  have hagree := process_agree (h.agree hup hother) hprocess
  obtain rfl : P i = t := by
    obtain ⟨sent', hserve', -⟩ := process_routed hprocess
    exact (Prod.mk.inj (Prod.mk.inj (Option.some.inj (hserve'.symm.trans hserve))).2).1
  refine ⟨P, hprocess, h.up, fun j _ => ?_, fun j _ _ => hagree.text _ _, fun j hj => ?_,
    fun j hj => ?_⟩
  · exact ht.restores.of_text (hagree.text j i)
  · rcases Side.eq_or_eq_sibling i j with rfl | rfl
    · cases hj.symm.trans (h.not_behind hup)
    · cases hj.symm.trans (h.not_behind hother)
  · cases hj
    exact ⟨hup, ht⟩

/-- The step lemma for commands. -/
lemma Keep.command (h : T.Keep sha256 E w R) (hproper : (Event.command i c salt).Proper E)
    (hallowed : w.Allows (.command i c salt)) :
    ∃ reply T', T.act sha256 (.command i c salt) = some (reply, T') ∧
      (R.command sha256 (generateSalt salt) c).1.Tells reply ∧
      T'.Keep sha256 E (w.next (.command i c salt)) (R.command sha256 (generateSalt salt) c).2 := by
  obtain ⟨hup, hc⟩ := hallowed
  have hrunning : T.up i ≠ false := by
    rw [h.up, hup]
    exact Bool.true_eq_false_eq_False
  rw [act, if_neg hrunning, Watch.next]
  by_cases htableless : c.tableless = true
  · rw [if_pos htableless]
    cases c with
    | sendFullPath u g f =>
      have hu : E.user u := hproper.1.2 u (by simp [Command.users])
      have hserve : ∀ online, ∃ reply, serve (hashPassword sha256) (T.pair i) online
          (generateSalt salt) (.sendFullPath u g f) = some (reply, T.pair i, []) ∧
          (R.sendFullPath u g f).1.Tells reply :=
        fun online => serve_sendFullPath (h.restores i (h.not_behind hup)) hu
      split_ifs
      · obtain ⟨reply, hserve, htells⟩ := hserve true
        have hprocess : process (hashPassword sha256) T.pair
            ⟨i, .sendFullPath u g f, generateSalt salt⟩ = some (reply, T.pair) := by
          rw [process, hserve, Option.map_some, Function.update_eq_self]
          exact congrArg (fun P => some (reply, P)) (Function.update_eq_self i.sibling T.pair)
        rw [hprocess]
        exact ⟨reply, T, rfl, htells, h⟩
      · obtain ⟨reply, hserve, htells⟩ := hserve false
        rw [Tracker.act, hserve]
        refine ⟨reply, T, ?_, htells, h⟩
        rw [Option.map_some, Option.map_some, Function.update_eq_self]
    | _ => cases htableless
  · rw [if_neg htableless]
    have hserve : ∀ online, ∃ reply t' sent, serve (hashPassword sha256) (T.pair i) online
        (generateSalt salt) c = some (reply, t', sent) ∧
        (R.command sha256 (generateSalt salt) c).1.Tells reply ∧
        t'.Represents sha256 E (R.command sha256 (generateSalt salt) c).2 := by
      intro online
      rcases hc with hreloads | htl | hcurrent
      · exact (h.restores i (h.not_behind hup)).serve hreloads hproper
      · exact absurd htl htableless
      · exact (h.tables i hcurrent).2.serve hproper
    rw [congrFun h.up i.sibling]
    cases hother : w.up i.sibling with
    | true =>
      obtain ⟨reply, t', sent, hserve, htells, hrep⟩ := hserve true
      obtain ⟨P, hprocess, hkeep⟩ := h.served_both hup hother hserve hrep
      rw [if_pos rfl, if_pos rfl, hprocess]
      exact ⟨reply, _, rfl, htells, hkeep⟩
    | false =>
      obtain ⟨reply, t', sent, hserve, htells, hrep⟩ := hserve false
      rw [if_neg Bool.false_ne_true, if_neg Bool.false_ne_true, Tracker.act, hserve]
      exact ⟨reply, _, rfl, htells, h.served_alone hup hother hserve hrep⟩

lemma Keep.stop (h : T.Keep sha256 E w R) (i : Side) :
    Keep sha256 E (w.next (.stop i)) R { T with up := Function.update T.up i false } := by
  refine ⟨by rw [h.up]; rfl, h.restores, h.same, fun j hj => ?_, fun j hj => ?_⟩
  · obtain ⟨hdown, hrest⟩ := h.missed j hj
    refine ⟨?_, hrest⟩
    by_cases hji : j = i
    · subst hji
      exact Function.update_self ..
    · exact (Function.update_of_ne hji ..).trans hdown
  · by_cases hcurrent : w.current = some i
    · exact nomatch hj.symm.trans (if_pos hcurrent)
    · have hj' : w.current = some j := (if_neg hcurrent).symm.trans hj
      obtain ⟨hup, hrep⟩ := h.tables j hj'
      have hji : j ≠ i := fun hji => hcurrent (hji ▸ hj')
      exact ⟨(Function.update_of_ne hji ..).trans hup, hrep⟩

/-- The files that a tracker has when it has started. -/
def started (T : Trackers) (i : Side) : Disk :=
  if T.up i.sibling then (T.pair i).disk.reloaded.receiveAll (T.pair i.sibling).disk
  else (T.pair i).disk.reloaded

/-- Where the sibling runs, they are what `SyncAllHandler` sends, on top of its own. -/
lemma started_eq_receive {S : Directory} (hS : S.Plain) (hother : T.up i.sibling = true)
    (hdisk : S.disk = (T.pair i.sibling).disk) :
    T.started i = (T.pair i).disk.reloaded.receive (syncAllHandler S.disk S.names) := by
  rw [started, if_pos hother, hS.receive_syncAllHandler, hdisk]

lemma read_started {p : Path} (hread : (T.pair i).disk.read p ≠ none) :
    (T.started i).read p ≠ none := by
  have hreloaded := Disk.read_reloaded_ne_none hread
  rw [started]
  split_ifs
  · rw [Disk.read_receiveAll]
    cases (T.pair i.sibling).disk.read p with
    | none => exact hreloaded
    | some c => exact Option.some_ne_none c
  · exact hreloaded

/-- Two trackers that have missed nothing have the same files after a start of one of them. -/
lemma Keep.text_started (h : T.Keep sha256 E w R) (hallowed : w.Allows (.start i))
    (hbehind : w.behind i.sibling = false) (p : Path) :
    (T.started i).text p = (T.pair i.sibling).disk.text p := by
  rw [started, congrFun h.up i.sibling]
  split_ifs with hother
  · apply Disk.text_receiveAll
    rw [Disk.text_reloaded]
    exact h.read_of_text hbehind
  · -- the tracker starts alone, so it has missed nothing
    have hmissed : w.behind i = false := by
      by_contra hmissed
      exact hother (hallowed.2 (by simpa using hmissed))
    rw [Disk.text_reloaded, h.same i hmissed hbehind]

/-- What a start leaves are the files of the registry. -/
lemma Keep.restores_started (h : T.Keep sha256 E w R) (hallowed : w.Allows (.start i)) :
    (T.started i).Restores sha256 E R := by
  cases hbehind : w.behind i.sibling with
  | false => exact (h.restores _ hbehind).of_text (h.text_started hallowed hbehind)
  | true =>
    obtain ⟨hother, hmissed, -⟩ := h.missed _ hbehind
    rw [Side.sibling_sibling] at hmissed
    rw [started, congrFun h.up i.sibling, hother, if_neg Bool.false_ne_true]
    exact (h.restores i hmissed).of_text (Disk.text_reloaded _)

lemma Keep.start (h : T.Keep sha256 E w R) (hallowed : w.Allows (.start i)) :
    ∃ T', T.act sha256 (.start i) = some (none, T') ∧
      T'.Keep sha256 E (w.next (.start i)) R := by
  obtain ⟨R', hold⟩ := h.restores_some i
  obtain ⟨m, hrestart⟩ := hold.restart
  rw [act, hrestart]
  refine ⟨⟨Function.update T.pair i ⟨T.started i, m⟩, Function.update T.up i true⟩, rfl, ?_⟩
  have hpair : Function.update T.pair i ⟨T.started i, m⟩ i.sibling = T.pair i.sibling :=
    Function.update_of_ne i.sibling_ne ..
  have hbehind : (w.next (.start i)).behind i.sibling = w.behind i.sibling :=
    Function.update_of_ne i.sibling_ne ..
  refine ⟨by rw [h.up]; rfl, fun j hj => ?_, fun j hj hj' => ?_, fun j hj => ?_, fun j hj => ?_⟩
  · rcases Side.eq_or_eq_sibling i j with rfl | rfl
    · dsimp only
      rw [Function.update_self]
      exact h.restores_started hallowed
    · dsimp only
      rw [hpair]
      exact h.restores _ (hbehind.symm.trans hj)
  · rcases Side.eq_or_eq_sibling i j with rfl | rfl
    · dsimp only
      rw [hpair, Function.update_self]
      exact fun p => (h.text_started hallowed (hbehind.symm.trans hj') p).symm
    · dsimp only
      rw [Side.sibling_sibling, hpair, Function.update_self]
      exact h.text_started hallowed (hbehind.symm.trans hj)
  · rcases Side.eq_or_eq_sibling i j with rfl | rfl
    · have hnow : (w.next (.start j)).behind j = false := Function.update_self ..
      cases hj.symm.trans hnow
    · obtain ⟨hdown, hmissed, hold', -⟩ := h.missed _ (hbehind.symm.trans hj)
      rw [Side.sibling_sibling] at hmissed
      refine ⟨(Function.update_of_ne i.sibling_ne ..).trans hdown, ?_, ?_, fun p hp => ?_⟩
      · rw [Side.sibling_sibling]
        exact Function.update_self ..
      · dsimp only
        rwa [hpair]
      · dsimp only at hp ⊢
        rw [hpair] at hp
        rw [Side.sibling_sibling, Function.update_self]
        exact read_started (h.read_back hmissed hp)
  · obtain ⟨hup, hrep⟩ := h.tables j hj
    have hji : j ≠ i := by
      rintro rfl
      cases hup.symm.trans hallowed.1
    refine ⟨(Function.update_of_ne hji ..).trans hup, ?_⟩
    dsimp only
    rwa [Function.update_of_ne hji]

/-- The step lemma. -/
lemma Keep.act {e : Event} (h : T.Keep sha256 E w R) (hproper : e.Proper E)
    (hallowed : w.Allows e) : ∃ reply T', T.act sha256 e = some (reply, T') ∧
      (R.hears sha256 e).1.Tells reply ∧ T'.Keep sha256 E (w.next e) (R.hears sha256 e).2 := by
  cases e with
  | command i c salt => exact h.command hproper hallowed
  | stop i => exact ⟨none, _, rfl, rfl, h.stop i⟩
  | start i =>
    obtain ⟨T', hact, hkeep⟩ := h.start hallowed
    exact ⟨none, T', hact, rfl, hkeep⟩

/-- Two trackers without files keep a registry of nothing. -/
lemma initial_keep (hE : E.Separate) (hopen : E.Openable) :
    initial.Keep sha256 E .initial .empty where
  up := rfl
  restores _ _ := (Tracker.initial_represents hE hopen).restores
  same _ _ _ _ := rfl
  missed _ h := nomatch h
  tables _ h := nomatch h

end Trackers

end Steps

/-! ### One group -/

/-- Two users get accounts, and the tracker where they got them stops. The other one is told of a
    group and of a request to join it. When the first one is back, the second one stops, and the
    request is granted. -/
def outage : List Trackers.Event :=
  [.start .first, .start .second,
    .command .first (.createUser "o".toList "p".toList "1".toList "i".toList) [],
    .command .first (.createUser "u".toList "q".toList "2".toList "i".toList) [], .stop .first,
    .command .second (.createGroup "g".toList "o".toList) [],
    .command .second (.joinGroup "g".toList "u".toList) [], .start .first, .stop .second,
    .command .first (.listRequests "g".toList "o".toList) [],
    .command .first (.acceptRequest "g".toList "u".toList "o".toList) []]

instance : DecidablePred (Trackers.Event.Proper oneGroup)
  | .command _ c _ => inferInstanceAs (Decidable (oneGroup.Name c ∧ ∀ w ∈ c.args, IsToken w))
  | .stop _        => .isTrue trivial
  | .start _       => .isTrue trivial

instance (w : Trackers.Watch) : DecidablePred w.Allows
  | .command i c _ => inferInstanceAs (Decidable
      (w.up i = true ∧ (c.reloads = true ∨ c.tableless = true ∨ w.current = some i)))
  | .stop i        => inferInstanceAs (Decidable (w.up i = true))
  | .start i       => inferInstanceAs (Decidable
      (w.up i = false ∧ (w.behind i = true → w.up i.sibling = true)))

lemma outage_proper : ∀ e ∈ outage, e.Proper oneGroup := by decide

lemma outage_allowed :
    Service.Allowed Trackers.Watch.Allows Trackers.Watch.next .initial outage := by
  decide

/-- The second tracker has not loaded the group that the first one has sent, and refuses a request
    to join it. -/
example : (Service.attempt (Trackers.act fun _ => zerosDigest) .initial
      [.start .first, .start .second,
        .command .first (.createUser "o".toList "p".toList "1".toList "i".toList) [],
        .command .first (.createGroup "g".toList "o".toList) [],
        .command .second (.joinGroup "g".toList "o".toList) []]).map (·.1.map Prod.snd) =
    some [none, none, some ['1'], some ['1'], some ['0']] := by
  decide +kernel

end TorrentShare
