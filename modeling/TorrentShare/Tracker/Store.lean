import Mathlib.Data.List.TakeWhile
import TorrentShare.Text

/-!
# The state files

A tracker keeps its state as text files in the directory `.all_files`.
-/

namespace TorrentShare

abbrev Path := Str

def allFiles : Path := ".all_files/".toList

def credentialFile : Path := allFiles ++ ".credential.txt".toList
def onlineFile : Path := allFiles ++ ".online.txt".toList
def groupFile : Path := allFiles ++ ".group.txt".toList
def pendingFile : Path := allFiles ++ ".pending.txt".toList
def tempFile : Path := allFiles ++ ".temp.txt".toList

/-- The members file of a group. -/
def membersFile (group : Str) : Path := allFiles ++ ".group_".toList ++ group ++ ".txt".toList

/-- The shared-files file of a group. -/
def groupFilesFile (group : Str) : Path :=
  allFiles ++ ".group_".toList ++ group ++ "_files.txt".toList

/-- The shared files of a user. -/
def userFilesFile (user : Str) : Path := allFiles ++ ".files_".toList ++ user ++ ".txt".toList

def downloadingFile (user : Str) : Path :=
  allFiles ++ ".files_".toList ++ user ++ "_downloading.txt".toList

def downloadedFile (user : Str) : Path :=
  allFiles ++ ".files_".toList ++ user ++ "_downloaded.txt".toList

/-- The file names that can be opened: those of entries of `.all_files`, which has no
    subdirectories. Entries may have names of any length. -/
def openable (p : Path) : Bool :=
  allFiles.isPrefixOf p &&
    (let name := p.drop allFiles.length
     name ≠ [] && name ≠ ".".toList && name ≠ "..".toList && !name.contains '/')

/-- The contents of the directory. There is nothing under a name that cannot be opened. -/
@[ext] structure Disk where
  file : Path → Option Str
  closed : ∀ p, openable p = false → file p = none

namespace Disk

def empty : Disk := ⟨fun _ => none, fun _ _ => rfl⟩

/-- What `ifstream infile(p)` delivers, or `none` if the file cannot be opened. -/
def read (d : Disk) (p : Path) : Option Str := d.file (cStr p)

/-- The contents of a file, where a missing file counts as empty. -/
def text (d : Disk) (p : Path) : Str := (d.read p).getD []

def lines (d : Disk) (p : Path) : List Str := getlines (d.text p)

/-- `ofstream outfile(p,ios::out)` and writing `s`. Without an open file nothing happens. -/
def create (d : Disk) (p : Path) (s : Str) : Disk where
  file q := if q = cStr p ∧ openable q then some s else d.file q
  closed q hq := by simp [hq, d.closed q hq]

/-- `ofstream outfile(p,ios::out|ios::app)` and writing `s`. -/
def append (d : Disk) (p : Path) (s : Str) : Disk := d.create p (d.text p ++ s)

def remove (d : Disk) (p : Path) : Disk where
  file q := if q = cStr p then none else d.file q
  closed q hq := by simp [d.closed q hq]

/-- `rename(p,q)`. It fails if there is no `p`, or if `q` is no name of a file. -/
def rename (d : Disk) (p q : Path) : Disk :=
  match d.read p with
  | none => d
  | some s => if openable (cStr q) then (d.remove p).create q s else d

@[simp] lemma cStr_idem (p : Path) : cStr (cStr p) = cStr p :=
  List.takeWhile_idem

@[simp] lemma read_create (d : Disk) (p q : Path) (s : Str) :
    (d.create p s).read q = if cStr q = cStr p ∧ openable (cStr q) then some s else d.read q :=
  rfl

@[simp] lemma read_remove (d : Disk) (p q : Path) :
    (d.remove p).read q = if cStr q = cStr p then none else d.read q := rfl

lemma read_of_not_openable (d : Disk) {p : Path} (h : openable (cStr p) = false) :
    d.read p = none := d.closed _ h

@[simp] lemma text_of_not_openable (d : Disk) {p : Path} (h : openable (cStr p) = false) :
    d.text p = [] := by
  simp [text, d.read_of_not_openable h]

/-- Writing a file changes no other. -/
lemma text_create_of_ne (d : Disk) {p q : Path} (s : Str) (h : cStr q ≠ cStr p) :
    (d.create p s).text q = d.text q := by
  simp [text, h]

lemma text_create_self (d : Disk) {p : Path} (s : Str) (h : openable (cStr p)) :
    (d.create p s).text p = s := by
  simp [text, h]

lemma text_remove_of_ne (d : Disk) {p q : Path} (h : cStr q ≠ cStr p) :
    (d.remove p).text q = d.text q := by
  simp [text, h]

/-- Create a file that is not there. -/
def touch (d : Disk) (p : Path) : Disk :=
  match d.read p with
  | some _ => d
  | none => d.create p []

@[simp] lemma text_touch (d : Disk) (p q : Path) : (d.touch p).text q = d.text q := by
  unfold touch
  split
  · rfl
  · rename_i h
    by_cases hq : cStr q = cStr p
    · have hq' : d.read q = none := by rw [read, hq]; exact h
      simp only [text, read_create, hq']
      split_ifs <;> rfl
    · exact text_create_of_ne d [] hq

@[simp] lemma lines_touch (d : Disk) (p q : Path) : (d.touch p).lines q = d.lines q := by
  simp [lines]

end Disk

/-! ### File names -/

/-- A file name with a beginning that another name does not have. -/
lemma cStr_ne {p q : Path} (pre rest : Str) (hp : p = pre ++ rest)
    (hnul : '\x00' ∉ pre) (hpre : ¬ pre <+: q) : cStr p ≠ q := by
  rw [hp, cStr_append rest hnul]
  intro h
  exact hpre ⟨_, h⟩

@[simp] lemma membersFile_ne_temp (g : Str) : cStr (membersFile g) ≠ tempFile :=
  cStr_ne (allFiles ++ ".group_".toList) (g ++ ".txt".toList)
    (by simp [membersFile]) (by decide) (by decide)

@[simp] lemma groupFilesFile_ne_temp (g : Str) : cStr (groupFilesFile g) ≠ tempFile :=
  cStr_ne (allFiles ++ ".group_".toList) (g ++ "_files.txt".toList)
    (by simp [groupFilesFile]) (by decide) (by decide)

@[simp] lemma userFilesFile_ne_temp (u : Str) : cStr (userFilesFile u) ≠ tempFile :=
  cStr_ne (allFiles ++ ".files_".toList) (u ++ ".txt".toList)
    (by simp [userFilesFile]) (by decide) (by decide)

@[simp] lemma downloadingFile_ne_temp (u : Str) : cStr (downloadingFile u) ≠ tempFile :=
  cStr_ne (allFiles ++ ".files_".toList) (u ++ "_downloading.txt".toList)
    (by simp [downloadingFile]) (by decide) (by decide)

@[simp] lemma downloadedFile_ne_temp (u : Str) : cStr (downloadedFile u) ≠ tempFile :=
  cStr_ne (allFiles ++ ".files_".toList) (u ++ "_downloaded.txt".toList)
    (by simp [downloadedFile]) (by decide) (by decide)

@[simp] lemma onlineFile_ne_temp : cStr onlineFile ≠ tempFile := by decide
@[simp] lemma credentialFile_ne_temp : cStr credentialFile ≠ tempFile := by decide
@[simp] lemma groupFile_ne_temp : cStr groupFile ≠ tempFile := by decide
@[simp] lemma pendingFile_ne_temp : cStr pendingFile ≠ tempFile := by decide

end TorrentShare
