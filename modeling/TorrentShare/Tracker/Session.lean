import TorrentShare.Tracker.Handlers

/-!
# One command on one tracker

The meaning of the operations for a handler that runs from its first to its last line without
another handler in between.
-/

namespace TorrentShare

open Program

/-- A tracker process: its files and its tables. -/
@[ext] structure Tracker where
  disk : Disk
  memory : Memory

/-- What one run of a handler works on: the tracker, the salt that `GenerateSalt` draws, whether
    the sibling accepts connections, and the files sent to it so far. -/
structure Session where
  tracker : Tracker
  salt : Str
  siblingOnline : Bool
  sent : List (Path × Str) := []

namespace Session

def disk (s : Session) : Disk := s.tracker.disk

def memory (s : Session) : Memory := s.tracker.memory

def setDisk (s : Session) (d : Disk) : Session := { s with tracker := { s.tracker with disk := d } }

def setMemory (s : Session) (m : Memory) : Session :=
  { s with tracker := { s.tracker with memory := m } }

/-- `Sync`: nothing happens if the sibling is offline, and the process does not survive reading
    from a file that could not be opened. -/
def sync (s : Session) (p : Path) : Option Session :=
  if s.siblingOnline then
    (s.disk.read p).map fun c => { s with sent := s.sent ++ [(p, c)] }
  else some s

end Session

/-- The meaning of the primitive operations. A default mutex that nobody else holds is locked and
    unlocked without effect. -/
def primInterp : Interp primSig Session
  | .lock,         s => some ((), s)
  | .unlock,       s => some ((), s)
  | .memory,       s => some (s.memory, s)
  | .modify f,     s => some ((), s.setMemory (f s.memory))
  | .read p,       s => some (s.disk.read p, s)
  | .append p t,   s => some ((), s.setDisk (s.disk.append p t))
  | .create p t,   s => some ((), s.setDisk (s.disk.create p t))
  | .remove p,     s => some ((), s.setDisk (s.disk.remove p))
  | .rename p q,   s => some ((), s.setDisk (s.disk.rename p q))
  | .generateSalt, s => some (s.salt, s)
  | .sync p,       s => (s.sync p).map fun s' => ((), s')
  | .fault,        _ => none

/-- The meaning of the calls of a handler: their bodies, run to the end. -/
def callInterp : Interp callSig Session := fun o => (callBody o).run primInterp

@[simp] lemma callInterp_prim (o : Prim) : callInterp (.prim o) = primInterp o := by
  funext s
  cases h : primInterp o s <;> simp [callInterp, callBody, TorrentShare.prim, h]

/-- A command on a tracker: the reply, the tracker afterwards and the files sent. There is no
    result if the process crashes. -/
def serve (hashPassword : Str → Str → Str) (t : Tracker) (siblingOnline : Bool) (salt : Str)
    (c : Command) : Option (Reply × Tracker × List (Path × Str)) :=
  ((trackerKernel hashPassword c).run callInterp ⟨t, salt, siblingOnline, []⟩).map
    fun r => (r.1, r.2.tracker, r.2.sent)

/-! ### What the calls do -/

namespace Session

@[simp] lemma disk_setDisk (s : Session) (d : Disk) : (s.setDisk d).disk = d := rfl
@[simp] lemma memory_setDisk (s : Session) (d : Disk) : (s.setDisk d).memory = s.memory := rfl
@[simp] lemma disk_setMemory (s : Session) (m : Memory) : (s.setMemory m).disk = s.disk := rfl
@[simp] lemma memory_setMemory (s : Session) (m : Memory) : (s.setMemory m).memory = m := rfl

@[simp] lemma setDisk_self (s : Session) : s.setDisk s.disk = s := rfl
@[simp] lemma setMemory_self (s : Session) : s.setMemory s.memory = s := rfl

@[simp] lemma setDisk_setDisk (s : Session) (d e : Disk) :
    (s.setDisk d).setDisk e = s.setDisk e := rfl

@[simp] lemma setMemory_setMemory (s : Session) (m n : Memory) :
    (s.setMemory m).setMemory n = s.setMemory n := rfl

@[simp] lemma sent_setDisk (s : Session) (d : Disk) : (s.setDisk d).sent = s.sent := rfl
@[simp] lemma sent_setMemory (s : Session) (m : Memory) : (s.setMemory m).sent = s.sent := rfl

@[simp] lemma siblingOnline_setDisk (s : Session) (d : Disk) :
    (s.setDisk d).siblingOnline = s.siblingOnline := rfl
@[simp] lemma siblingOnline_setMemory (s : Session) (m : Memory) :
    (s.setMemory m).siblingOnline = s.siblingOnline := rfl

end Session

/-- A transfer changes nothing but the list of what was sent. -/
lemma primInterp_sync {s s' : Session} {p : Path} {a : Unit}
    (h : primInterp (.sync p) s = some (a, s')) : ∃ sent, s' = { s with sent := sent } := by
  obtain ⟨t, ht, heq⟩ := Option.map_eq_some_iff.mp h
  cases heq
  unfold Session.sync at ht
  split_ifs at ht
  · obtain ⟨c, -, rfl⟩ := Option.map_eq_some_iff.mp ht
    exact ⟨_, rfl⟩
  · cases ht
    exact ⟨_, rfl⟩

namespace Disk

/-- The bytes of a list of lines. -/
def putlines (ls : List Str) : Str := ls.flatMap putline

/-- What the copy loop leaves in the temporary file. -/
def temporary (d : Disk) : OpenMode → Str
  | .out => []
  | .app => d.text tempFile

/-- A rewrite as one change of the directory. -/
def rewritten (d : Disk) (mode : OpenMode) (p : Path) (kept : List Str) : Disk :=
  let d' := d.create tempFile (d.temporary mode ++ putlines kept)
  (d'.remove p).rename tempFile p

end Disk

/-- The lines that stay in a rewrite. -/
def keptLines (drop : Str → Option Bool) : List Str → Option (List Str)
  | []      => some []
  | l :: ls => (drop l).bind fun b => (keptLines drop ls).map fun ks => if b then ks else l :: ks

lemma tempFile_openable : openable (cStr tempFile) = true := by decide

namespace Disk

lemma create_create (d : Disk) (p : Path) (s t : Str) :
    (d.create p s).create p t = d.create p t := by
  ext q
  simp only [create]
  split_ifs <;> rfl

lemma append_create (d : Disk) {p : Path} (s t : Str) (h : openable (cStr p)) :
    (d.create p s).append p t = d.create p (s ++ t) := by
  rw [append, text_create_self d s h, create_create]

end Disk

/-- Filling a table from two-token lines. -/
lemma run_loadPairs (p : Path) (target : Str × Str) (add : Memory → Str × Str → Memory)
    (s : Session) :
    (loadPairs p target add).run primInterp s =
      some ((readPairs target (s.disk.lines p)).2, (s.setDisk (s.disk.touch p)).setMemory
        ((readPairs target (s.disk.lines p)).1.foldl add s.memory)) := by
  cases h : s.disk.read p with
  | some c =>
    simp [loadPairs, prim, primInterp, h, Disk.lines, Disk.text, Disk.touch]
  | none =>
    simp [loadPairs, prim, primInterp, h, Disk.lines, Disk.text, Disk.touch, getlines, readPairs]
    rfl

lemma run_orFault_bind {α β : Type} (x : Option α) (f : α → Prog primSig β) (s : Session) :
    (orFault x >>= f).run primInterp s = x.bind fun a => (f a).run primInterp s := by
  cases x <;> simp [orFault, primInterp]

/-- Filling a table from lines split at blanks. -/
lemma run_loadRecords {β : Type} (p : Path) (fs : List Str → Option β)
    (add : Memory → β → Memory) (s : Session) :
    (loadRecords p fs add).run primInterp s =
      ((s.disk.lines p).mapM fun l => fs (split l ' ')).map fun rs =>
        ((), (s.setDisk (s.disk.touch p)).setMemory (rs.foldl add s.memory)) := by
  cases h : s.disk.read p with
  | some c =>
    simp only [loadRecords, prim, Prog.call_bind, Prog.ret_bind, Prog.run_call, primInterp, h,
      Option.bind_some, run_orFault_bind, Disk.lines, Disk.text, Option.getD_some, Disk.touch]
    cases (getlines c).mapM fun l => fs (split l ' ') with
    | none => rfl
    | some rs => rfl
  | none =>
    simp [loadRecords, prim, primInterp, h, Disk.lines, Disk.text, Disk.touch, getlines]
    rfl

/-- The files that a reload leaves: the four it reads are there. -/
def Disk.reloaded (d : Disk) : Disk :=
  (((d.touch credentialFile).touch onlineFile).touch groupFile).touch pendingFile

@[simp] lemma Disk.text_reloaded (d : Disk) (p : Path) : d.reloaded.text p = d.text p := by
  simp [Disk.reloaded]

/-- The tables with what the files say added, if every line has enough fields. -/
def Memory.load (m : Memory) (d : Disk) : Option Memory :=
  let credentials := readPairs ([], []) (d.lines credentialFile)
  ((d.lines onlineFile).mapM fun l => onlineFields (split l ' ')).bind fun online =>
  ((d.lines groupFile).mapM fun l => groupFields (split l ' ')).map fun groups =>
    let pending := readPairs credentials.2 (d.lines pendingFile)
    pending.1.foldl Memory.addPending (groups.foldl Memory.addGroup
      (online.foldl Memory.addOnline (credentials.1.foldl Memory.addCredential m)))

/-- The tables that `FetchDetails` leaves. -/
def Memory.reload (m : Memory) (d : Disk) : Option Memory := m.clear.load d

/-- Loading adds what the files say to the tables, and no file changes but that a missing one
    becomes empty. -/
lemma run_loadDetails (s : Session) :
    loadDetails.run primInterp s = (s.memory.load s.disk).map fun m =>
      ((), (s.setDisk s.disk.reloaded).setMemory m) := by
  simp only [loadDetails, Prog.run_bind, run_loadPairs, run_loadRecords, Option.bind_some,
    Session.disk_setMemory, Session.disk_setDisk, Session.memory_setMemory, Disk.lines_touch,
    Memory.load]
  cases (s.disk.lines onlineFile).mapM fun l => onlineFields (split l ' ') with
  | none => rfl
  | some online =>
    simp only [Option.map_some, Option.bind_some, Session.disk_setMemory, Session.disk_setDisk,
      Disk.lines_touch]
    cases (s.disk.lines groupFile).mapM fun l => groupFields (split l ' ') with
    | none => rfl
    | some groups =>
      simp only [Option.map_some, Option.bind_some, Session.disk_setMemory,
        Session.disk_setDisk, Disk.lines_touch]
      rfl

/-- `FetchDetails` replaces the tables by what the files say. -/
lemma callInterp_fetchDetails (s : Session) :
    callInterp .fetchDetails s = (s.memory.reload s.disk).map fun m =>
      ((), (s.setDisk s.disk.reloaded).setMemory m) := by
  simp only [callInterp, callBody, fetchDetailsBody, prim, Prog.call_bind, Prog.ret_bind,
    Prog.run_call, primInterp, Option.bind_some, Prog.run_bind, run_loadDetails,
    Session.disk_setMemory, Session.memory_setMemory, Memory.reload]
  cases s.memory.clear.load s.disk with
  | none => rfl
  | some m => rfl

/-- The members of a group as its file lists them. -/
def Disk.members (d : Disk) (group : Str) : List Str :=
  (d.lines (membersFile group)).foldl (fun t l => setInsert strLt l t) []

lemma mem_foldl_setInsert (x : Str) (ls t : List Str) :
    x ∈ ls.foldl (fun t l => setInsert strLt l t) t ↔ x ∈ ls ∨ x ∈ t := by
  induction ls generalizing t with
  | nil => simp
  | cons l ls ih =>
    rw [List.foldl_cons, ih, mem_setInsert_strLt, List.mem_cons]
    tauto

/-- The members of a group are the lines of its file. -/
@[simp] lemma Disk.mem_members (d : Disk) (group x : Str) :
    x ∈ d.members group ↔ x ∈ d.lines (membersFile group) := by
  rw [Disk.members, mem_foldl_setInsert]
  simp

@[simp] lemma foldl_addMember (ls : List Str) (m : Memory) :
    ls.foldl Memory.addMember m =
      { m with groupMembers := ls.foldl (fun t l => setInsert strLt l t) m.groupMembers } := by
  induction ls generalizing m with
  | nil => rfl
  | cons l ls ih => rw [List.foldl_cons, ih]; rfl

/-- `FetchGroupMembers` makes `group_members` the members of the group. -/
lemma callInterp_fetchGroupMembers (group : Str) (s : Session) :
    callInterp (.fetchGroupMembers group) s =
      some ((), s.setMemory { s.memory with groupMembers := s.disk.members group }) := by
  simp [callInterp, callBody, fetchGroupMembersBody, prim, primInterp, Disk.members, Disk.lines,
    Disk.text]

/-- The copy loop appends the lines that stay to the temporary file. -/
lemma run_copyLines (drop : Str → Option Bool) (ls : List Str) (s : Session) (d : Disk)
    (c : Str) (hd : s.disk = d.create tempFile c) :
    (copyLines drop ls).run primInterp s = (keptLines drop ls).map fun ks =>
      ((), s.setDisk (d.create tempFile (c ++ Disk.putlines ks))) := by
  induction ls generalizing s c with
  | nil =>
    obtain ⟨⟨_, _⟩, _, _, _⟩ := s
    simp_all [copyLines, keptLines, Disk.putlines, Session.setDisk, Session.disk]
  | cons l ls ih =>
    simp only [copyLines, run_orFault_bind, keptLines]
    cases hl : drop l with
    | none => rfl
    | some b =>
      cases b with
      | true => simpa using ih s c hd
      | false =>
        have happ : s.disk.append tempFile (putline l)
            = d.create tempFile (c ++ putline l) := by
          rw [hd, Disk.append_create _ _ _ tempFile_openable]
        simp only [Option.bind_some, Bool.false_eq_true, if_false, prim, Prog.call_bind,
          Prog.ret_bind, Prog.run_call, primInterp, happ]
        rw [ih (s.setDisk (d.create tempFile (c ++ putline l))) (c ++ putline l) rfl]
        cases keptLines drop ls with
        | none => rfl
        | some ks => simp [Disk.putlines, Session.setDisk]

/-- A rewrite drops the lines that pass the test and changes nothing else, except that what the
    temporary file held comes first if it was opened for appending. -/
lemma callInterp_rewrite (mode : OpenMode) (p : Path) (drop : Str → Option Bool) (s : Session) :
    callInterp (.rewrite mode p drop) s = (keptLines drop (s.disk.lines p)).map fun ks =>
      ((), s.setDisk (s.disk.rewritten mode p ks)) := by
  have hlines : getlines ((s.disk.read p).getD []) = s.disk.lines p := rfl
  have key : ∀ c, s.disk.temporary mode = c →
      ((copyLines drop (s.disk.lines p) >>= fun _ =>
        (prim (.remove p) >>= fun _ => prim (.rename tempFile p))).run primInterp
          (s.setDisk (s.disk.create tempFile c)))
        = (keptLines drop (s.disk.lines p)).map fun ks =>
          ((), s.setDisk (s.disk.rewritten mode p ks)) := by
    rintro c rfl
    rw [Prog.run_bind, run_copyLines drop _ _ s.disk _ rfl]
    cases keptLines drop (s.disk.lines p) with
    | none => rfl
    | some ks => simp [prim, primInterp, Disk.rewritten, Session.setDisk, Session.disk]
  cases mode with
  | out =>
    simpa [callInterp, callBody, rewriteBody, prim, primInterp, hlines] using key [] rfl
  | app =>
    have happ : s.disk.append tempFile [] = s.disk.create tempFile (s.disk.text tempFile) := by
      simp [Disk.append]
    simpa [callInterp, callBody, rewriteBody, prim, primInterp, hlines, happ] using
      key (s.disk.text tempFile) rfl

/-! ### The first calls of handlers -/

section Run

variable {α : Type} (s : Session)

lemma run_memory_bind (f : Memory → Prog callSig α) :
    (call .memory >>= f).run callInterp s = (f s.memory).run callInterp s := by
  simp [call, primInterp]

lemma run_fetchDetails_bind (f : Unit → Prog callSig α) :
    (fetchDetails >>= f).run callInterp s = (s.memory.reload s.disk).bind fun m =>
      (f ()).run callInterp ((s.setDisk s.disk.reloaded).setMemory m) := by
  simp only [fetchDetails, Prog.call_bind, Prog.ret_bind, Prog.run_call, callInterp_fetchDetails]
  cases s.memory.reload s.disk with
  | none => rfl
  | some m => rfl

lemma run_fetchGroupMembers_bind (group : Str) (f : Unit → Prog callSig α) :
    (fetchGroupMembers group >>= f).run callInterp s = (f ()).run callInterp
      (s.setMemory { s.memory with groupMembers := s.disk.members group }) := by
  simp [fetchGroupMembers, callInterp_fetchGroupMembers]

end Run

namespace Disk

lemma text_congr (d : Disk) {p q : Path} (h : cStr p = cStr q) : d.text p = d.text q := by
  rw [text, text, read, read, h]

lemma text_create (d : Disk) (p q : Path) (s : Str) :
    (d.create p s).text q = if cStr q = cStr p ∧ openable (cStr q) then s else d.text q := by
  simp only [text, read_create]
  split_ifs <;> rfl

lemma text_append (d : Disk) (p q : Path) (s : Str) :
    (d.append p s).text q =
      if cStr q = cStr p ∧ openable (cStr q) then d.text q ++ s else d.text q := by
  rw [append, text_create]
  split_ifs with h
  · rw [text_congr d h.1]
  · rfl

lemma text_append_of_ne (d : Disk) {p q : Path} (s : Str) (h : cStr q ≠ cStr p) :
    (d.append p s).text q = d.text q :=
  text_create_of_ne d _ h

lemma text_rename_of_ne (d : Disk) {p q r : Path} (hp : cStr r ≠ cStr p) (hq : cStr r ≠ cStr q) :
    (d.rename p q).text r = d.text r := by
  unfold rename
  split
  · rfl
  · split_ifs
    · rw [text_create_of_ne _ _ hq, text_remove_of_ne _ hp]
    · rfl

lemma text_remove_self (d : Disk) {p q : Path} (h : cStr q = cStr p) :
    (d.remove p).text q = [] := by
  rw [text, read_remove, if_pos h, Option.getD_none]

lemma text_rename_self (d : Disk) {p q r : Path} {t : Str} (ht : d.read p = some t)
    (hr : cStr r = cStr q) (hopen : openable (cStr q) = true) : (d.rename p q).text r = t := by
  rw [rename, ht]
  simp only [hopen, if_true]
  rw [text_create, if_pos ⟨hr, hr ▸ hopen⟩]

/-- After a rename a file holds what it held, what the renamed file held, or nothing. -/
lemma text_rename_cases (d : Disk) (p q r : Path) :
    (d.rename p q).text r = d.text r ∨ (d.rename p q).text r = d.text p ∨
      (d.rename p q).text r = [] := by
  by_cases hr : cStr r = cStr q ∨ cStr r = cStr p
  · unfold rename
    cases hp : d.read p with
    | none => exact Or.inl rfl
    | some t =>
      dsimp only
      split_ifs with hopen
      · rw [text_create]
        split_ifs with hq
        · refine Or.inr (Or.inl ?_)
          rw [text, hp, Option.getD_some]
        · have hremoved : cStr r = cStr p := by
            refine hr.resolve_left fun hrq => hq ⟨hrq, ?_⟩
            rw [hrq]
            exact hopen
          exact Or.inr (Or.inr (text_remove_self d hremoved))
      · exact Or.inl rfl
  · rw [not_or] at hr
    exact Or.inl (text_rename_of_ne d hr.2 hr.1)

/-- Before the rename the temporary file holds what it held and the lines that stay. -/
lemma read_copied (d : Disk) (mode : OpenMode) {p : Path} (kept : List Str)
    (hp : cStr p ≠ tempFile) :
    ((d.create tempFile (d.temporary mode ++ putlines kept)).remove p).read tempFile =
      some (d.temporary mode ++ putlines kept) := by
  have hname : cStr tempFile ≠ cStr p := Ne.symm hp
  rw [read_remove, if_neg hname, read_create, if_pos ⟨rfl, tempFile_openable⟩]

lemma temporary_of_empty {d : Disk} (mode : OpenMode) (h : d.text tempFile = []) :
    d.temporary mode = [] := by
  cases mode with
  | out => rfl
  | app => exact h

/-- A rewrite changes the file and the temporary file only. -/
lemma text_rewritten_of_ne (d : Disk) (mode : OpenMode) {p q : Path} (kept : List Str)
    (hp : cStr q ≠ cStr p) (ht : cStr q ≠ tempFile) :
    (d.rewritten mode p kept).text q = d.text q := by
  have ht' : cStr q ≠ cStr tempFile := ht
  rw [rewritten, text_rename_of_ne _ ht' hp, text_remove_of_ne _ hp, text_create_of_ne _ _ ht']

/-- A rewrite that finds the temporary file empty leaves it so. -/
lemma text_rewritten_temp (d : Disk) (mode : OpenMode) {p : Path} {drop : Str → Option Bool}
    {kept : List Str} (hp : cStr p ≠ tempFile) (hkept : keptLines drop (d.lines p) = some kept)
    (h : d.text tempFile = []) : (d.rewritten mode p kept).text tempFile = [] := by
  have hne : cStr tempFile ≠ cStr p := Ne.symm hp
  have hread := d.read_copied mode kept hp
  rw [temporary_of_empty mode h, List.nil_append] at hread
  rw [rewritten, temporary_of_empty mode h, List.nil_append, rename, hread]
  by_cases hopen : openable (cStr p)
  · simp only [hopen, if_true]
    rw [text_create_of_ne _ _ hne]
    simp [text]
  · -- nothing can be read from a name that cannot be opened, and nothing is kept
    have hlines : d.lines p = [] := by
      simp [lines, text_of_not_openable d (by simpa using hopen : openable (cStr p) = false),
        getlines]
    rw [hlines] at hkept
    obtain rfl : kept = [] := by simpa [keptLines, eq_comm] using hkept
    simp only [hopen, Bool.false_eq_true, if_false]
    rw [text, hread]
    rfl

/-- What a file holds after a rewrite; a name that cannot be opened is left without a file. -/
lemma text_rewritten (d : Disk) (mode : OpenMode) {p q : Path} (kept : List Str)
    (hq : cStr q = cStr p) (hp : cStr p ≠ tempFile) :
    (d.rewritten mode p kept).text q =
      if openable (cStr q) then d.temporary mode ++ putlines kept else [] := by
  split_ifs with hopen
  · exact text_rename_self _ (d.read_copied mode kept hp) hq (hq ▸ hopen)
  · exact text_of_not_openable _ (by simpa using hopen)

/-- A rewrite that finds the temporary file empty leaves the lines that stay. -/
lemma text_rewritten_self (d : Disk) (mode : OpenMode) {p q : Path} {kept : List Str}
    (hq : cStr q = cStr p) (hp : cStr p ≠ tempFile) (h : d.text tempFile = []) :
    (d.rewritten mode p kept).text q = if openable (cStr q) then putlines kept else [] := by
  rw [text_rewritten d mode kept hq hp, temporary_of_empty mode h, List.nil_append]

end Disk

end TorrentShare
