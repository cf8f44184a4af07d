import TorrentShare.Program.Basic
import TorrentShare.Tracker.Store

/-!
# What a handler thread of a tracker does

The operations of the handler threads on the mutex `file_lock`, the in-memory tables, the state
files and the sibling tracker, and the functions of `tracker.cpp` that hold `file_lock` from
their first to their last line.
-/

namespace TorrentShare

open Program

/-- The tables a tracker keeps in memory, global to all its threads. -/
@[ext] structure Memory where
  credentials : List (Str × Str) := []
  onlineUsers : List (Str × Str × Str) := []
  online : List Str := []
  groupMembers : List Str := []
  groups : List (Str × Str) := []
  pendingGroupRequests : List (Str × Str) := []

/-- The primitive operations. `fault` stands for an access past the end of a vector. -/
inductive Prim where
  | lock
  | unlock
  | memory
  | modify (f : Memory → Memory)
  | read (p : Path)
  | append (p : Path) (s : Str)
  | create (p : Path) (s : Str)
  | remove (p : Path)
  | rename (p q : Path)
  | generateSalt
  | sync (p : Path)
  | fault

abbrev primAns : Prim → Type
  | .memory       => Memory
  | .read _       => Option Str
  | .generateSalt => Str
  | .fault        => Empty
  | _             => Unit

abbrev primSig : Sig := ⟨Prim, primAns⟩

def prim (o : Prim) : Prog primSig (primAns o) := Prog.call (S := primSig) o .ret

/-- Continue with a value that was read in bounds. -/
def orFault {α : Type} : Option α → Prog primSig α
  | some a => .ret a
  | none   => .call .fault Empty.elim

/-! ### Reading the records of a file -/

/-- The values that `line_object>>line1; line_object>>line2;` leaves behind, line by line, and
    the last of them. The variables outlive the lines. -/
def readPairs (target : Str × Str) : List Str → List (Str × Str) × (Str × Str)
  | []      => ([], target)
  | l :: ls =>
    let t := extractPair target l
    let r := readPairs t ls
    (t :: r.1, r.2)

/-- Test `v[i]==x`. -/
def fieldIs (i : ℕ) (x : Str) (v : List Str) : Option Bool := v[i]?.map (· = x)

/-- `p&&q`, which looks at `q` only after `p`. -/
def andThen (p q : List Str → Option Bool) (v : List Str) : Option Bool :=
  (p v).bind fun b => if b then q v else some false

/-- The fields of the first line that passes a test. The lines after it are not looked at. -/
def findRecord (test : List Str → Option Bool) : List Str → Option (Option (List Str))
  | []      => some none
  | l :: ls =>
    let v := split l ' '
    (test v).bind fun b => if b then some (some v) else findRecord test ls

/-! ### The functions under `file_lock` -/

/-- Fill a table from a file of two-token lines, or create the file. -/
def loadPairs (p : Path) (target : Str × Str) (add : Memory → Str × Str → Memory) :
    Prog primSig (Str × Str) := do
  match ← prim (.read p) with
  | some s =>
    let r := readPairs target (getlines s)
    prim (.modify fun m => r.1.foldl add m)
    return r.2
  | none =>
    prim (.create p [])
    return target

/-- Fill a table from a file of lines split at blanks, or create the file. -/
def loadRecords {β : Type} (p : Path) (fields : List Str → Option β)
    (add : Memory → β → Memory) : Prog primSig Unit := do
  match ← prim (.read p) with
  | some s =>
    let records ← orFault ((getlines s).mapM fun l => fields (split l ' '))
    prim (.modify fun m => records.foldl add m)
  | none => prim (.create p [])

def Memory.clear (m : Memory) : Memory := { groupMembers := m.groupMembers }

def Memory.addCredential (m : Memory) (e : Str × Str) : Memory :=
  { m with credentials := tableSet e.1 e.2 m.credentials }

def Memory.addOnline (m : Memory) (e : Str × Str × Str) : Memory :=
  { m with online := setInsert strLt e.1 m.online
           onlineUsers := tableSet e.1 e.2 m.onlineUsers }

def Memory.addGroup (m : Memory) (e : Str × Str) : Memory :=
  { m with groups := tableSet e.1 e.2 m.groups }

def Memory.addPending (m : Memory) (e : Str × Str) : Memory :=
  { m with pendingGroupRequests := setInsert pairLt e m.pendingGroupRequests }

@[simp] lemma Memory.groupMembers_addPending (m : Memory) (e : Str × Str) :
    (m.addPending e).groupMembers = m.groupMembers := rfl

def Memory.addMember (m : Memory) (line : Str) : Memory :=
  { m with groupMembers := setInsert strLt line m.groupMembers }

def onlineFields (v : List Str) : Option (Str × Str × Str) :=
  v[0]?.bind fun user => v[1]?.bind fun ip => v[2]?.map fun port => (user, ip, port)

def groupFields (v : List Str) : Option (Str × Str) :=
  v[0]?.bind fun group => v[1]?.map fun owner => (group, owner)

/-- Fill the four tables from their files. -/
def loadDetails : Prog primSig Unit := do
  let target ← loadPairs credentialFile ([], []) Memory.addCredential
  loadRecords onlineFile onlineFields Memory.addOnline
  loadRecords groupFile groupFields Memory.addGroup
  -- `line1` and `line2` still hold what the last credential line left in them
  let _ ← loadPairs pendingFile target Memory.addPending

def fetchDetailsBody : Prog primSig Unit := do
  prim (.modify Memory.clear)
  prim .lock
  loadDetails
  prim .unlock

def fetchGroupMembersBody (groupName : Str) : Prog primSig Unit := do
  prim .lock
  prim (.modify fun m => { m with groupMembers := [] })
  let s ← prim (.read (membersFile groupName))
  prim (.modify fun m => (getlines (s.getD [])).foldl Memory.addMember m)
  prim .unlock

/-- How the temporary file is opened: emptied, or with what it holds kept. -/
inductive OpenMode where
  | out
  | app

/-- Copy the lines that are not to be dropped to the temporary file. -/
def copyLines (drop : Str → Option Bool) : List Str → Prog primSig Unit
  | []      => return
  | l :: ls => do
    if ← orFault (drop l) then
      copyLines drop ls
    else
      prim (.append tempFile (putline l))
      copyLines drop ls

/-- The loop of `DeleteLine` and of `GroupStopShare`: copy the lines that stay to the temporary
    file, remove the file and rename the temporary one. -/
def rewriteBody (mode : OpenMode) (p : Path) (drop : Str → Option Bool) : Prog primSig Unit := do
  let s ← prim (.read p)
  match mode with
  | .out => prim (.create tempFile [])
  | .app => prim (.append tempFile [])
  copyLines drop (getlines (s.getD []))
  prim (.remove p)
  prim (.rename tempFile p)

/-! ### Calls -/

/-- What a handler calls: a primitive operation, or one of the functions above. -/
inductive Call where
  | prim (o : Prim)
  | fetchDetails
  | fetchGroupMembers (groupName : Str)
  | rewrite (mode : OpenMode) (p : Path) (drop : Str → Option Bool)

abbrev callAns : Call → Type
  | .prim o => primAns o
  | _       => Unit

abbrev callSig : Sig := ⟨Call, callAns⟩

def callBody : (o : Call) → Prog primSig (callAns o)
  | .prim o                => prim o
  | .fetchDetails          => fetchDetailsBody
  | .fetchGroupMembers g   => fetchGroupMembersBody g
  | .rewrite mode p drop   => rewriteBody mode p drop

/-! ### What the bodies do -/

/-- The operations of `loadDetails`: it leaves `group_members` alone. -/
@[simp] def Prim.loads : Prim → Prop
  | .read _     => True
  | .create _ _ => True
  | .modify f   => ∀ m, (f m).groupMembers = m.groupMembers
  | .fault      => True
  | _           => False

/-- The operations of a rewrite. -/
@[simp] def Prim.onDisk : Prim → Prop
  | .read _     => True
  | .create _ _ => True
  | .append _ _ => True
  | .remove _   => True
  | .rename _ _ => True
  | .fault      => True
  | _           => False

lemma orFault_only {α : Type} {ok : Prim → Prop} (hfault : ok .fault) (x : Option α) :
    (orFault x).Only ok := by
  cases x with
  | some a => exact trivial
  | none => exact Prog.only_call hfault fun a => a.elim

/-- Adding the records of a file, one by one, leaves alone what adding one leaves alone. -/
lemma foldl_keep {β γ : Type} (f : Memory → γ) {add : Memory → β → Memory}
    (hadd : ∀ m e, f (add m e) = f m) (es : List β) (m : Memory) :
    f (es.foldl add m) = f m := by
  induction es generalizing m with
  | nil => rfl
  | cons e es ih => exact (ih (add m e)).trans (hadd m e)

lemma loadPairs_loads (p : Path) (target : Str × Str) (add : Memory → Str × Str → Memory)
    (hadd : ∀ m e, (add m e).groupMembers = m.groupMembers) :
    (loadPairs p target add).Only Prim.loads := by
  refine Prog.only_call trivial fun s => ?_
  cases s with
  | some s => exact Prog.only_call (foldl_keep Memory.groupMembers hadd _) fun _ => trivial
  | none => exact Prog.only_call trivial fun _ => trivial

lemma loadRecords_loads {β : Type} (p : Path) (fs : List Str → Option β)
    (add : Memory → β → Memory) (hadd : ∀ m e, (add m e).groupMembers = m.groupMembers) :
    (loadRecords p fs add).Only Prim.loads := by
  refine Prog.only_call trivial fun s => ?_
  cases s with
  | some s =>
    refine (orFault_only trivial _).bind fun es => ?_
    exact Prog.only_call (foldl_keep Memory.groupMembers hadd es) fun _ => trivial
  | none => exact Prog.only_call trivial fun _ => trivial

lemma loadDetails_loads : loadDetails.Only Prim.loads := by
  unfold loadDetails
  refine (loadPairs_loads _ _ Memory.addCredential fun _ _ => rfl).bind fun target => ?_
  refine (loadRecords_loads _ _ Memory.addOnline fun _ _ => rfl).bind fun _ => ?_
  refine (loadRecords_loads _ _ Memory.addGroup fun _ _ => rfl).bind fun _ => ?_
  exact (loadPairs_loads _ _ Memory.addPending fun _ _ => rfl).bind fun _ => trivial

lemma copyLines_onDisk (drop : Str → Option Bool) (ls : List Str) :
    (copyLines drop ls).Only Prim.onDisk := by
  induction ls with
  | nil => exact trivial
  | cons l ls ih =>
    refine (orFault_only trivial _).bind fun b => ?_
    cases b with
    | true => exact ih
    | false => exact Prog.only_call trivial fun _ => ih

lemma rewriteBody_onDisk (mode : OpenMode) (p : Path) (drop : Str → Option Bool) :
    (rewriteBody mode p drop).Only Prim.onDisk := by
  refine Prog.only_call trivial fun s => ?_
  have hrest : (copyLines drop (getlines (s.getD [])) >>= fun _ =>
      (prim (.remove p) >>= fun _ => prim (.rename tempFile p))).Only Prim.onDisk :=
    (copyLines_onDisk drop _).bind fun _ =>
      Prog.only_call trivial fun _ => Prog.only_call trivial fun _ => trivial
  cases mode with
  | out => exact Prog.only_call trivial fun _ => hrest
  | app => exact Prog.only_call trivial fun _ => hrest

end TorrentShare
