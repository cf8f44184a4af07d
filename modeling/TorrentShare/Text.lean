import Mathlib.Data.Char
import Mathlib.Data.List.Lex
import Mathlib.Tactic.Common

/-!
# Strings, lines, tokens and tables

The parts of the C++ standard library the program is written with: strings as sequences of
bytes, `getline`, stream extraction, `std::set` and `std::unordered_map`.
-/

namespace TorrentShare

/-- C++ strings. Every character stands for one byte. -/
abbrev Str := List Char

instance : LawfulBEq Str := inferInstance

-- the literals of `Fin` refer to this zero of the natural numbers
instance neZero_two : @NeZero ℕ Zero.ofOfNat0 2 := ⟨Nat.succ_ne_zero 1⟩

instance neZero_byte : @NeZero ℕ Zero.ofOfNat0 256 := ⟨Nat.succ_ne_zero 255⟩

/-- The characters a file name passed to the operating system has: those before a NUL. -/
def cStr (s : Str) : Str := s.takeWhile (· ≠ '\x00')

/-- A beginning without NUL is not cut off. -/
lemma cStr_append {pre : Str} (rest : Str) (hnul : '\x00' ∉ pre) :
    cStr (pre ++ rest) = pre ++ cStr rest := by
  apply List.takeWhile_append_of_pos
  intro c hc
  apply decide_eq_true
  rintro rfl
  exact hnul hc

/-- The fields between the delimiters; there is always at least one. -/
def split (data : Str) (delim : Char) : List Str := data.splitOn delim

/-- Put a character in front of the first line. -/
def consLine (c : Char) : List Str → List Str
  | []      => [[c]]
  | l :: ls => (c :: l) :: ls

/-- The lines that `while(getline(infile,line))` goes through. A last line needs no newline. -/
def getlines : Str → List Str
  | []     => []
  | c :: s => if c = '\n' then [] :: getlines s else consLine c (getlines s)

/-- The bytes that `outfile<<line<<endl` writes. -/
def putline (line : Str) : Str := line ++ ['\n']

def isspace (c : Char) : Bool :=
  c = ' ' || c = '\t' || c = '\n' || c = '\x0b' || c = '\x0c' || c = '\r'

/-- `stream>>target`: skip blanks, take the characters up to the next blank. Without a token
    the extraction fails. -/
def extract (s : Str) : Option (Str × Str) :=
  let t := s.dropWhile isspace
  if t = [] then none
  else some (t.takeWhile (!isspace ·), t.dropWhile (!isspace ·))

/-- Two extractions in a row into the same two variables. A failed one leaves its target, and
    the second fails after the first. -/
def extractPair (target : Str × Str) (line : Str) : Str × Str :=
  match extract line with
  | none => target
  | some (first, rest) =>
    match extract rest with
    | none => (first, target.2)
    | some (second, _) => (first, second)

/-- Extraction into `n` fresh strings. -/
def extractWords : ℕ → Str → List Str
  | 0,     _ => []
  | n + 1, s =>
    match extract s with
    | none => List.replicate (n + 1) []
    | some (word, rest) => word :: extractWords n rest

/-! ### Hexadecimal digits -/

/-- What `sprintf` writes for the bytes of a digest, each with the format `%02x`. -/
def hex (bytes : List (Fin 256)) : Str :=
  bytes.flatMap fun b => [Nat.digitChar (b.val / 16), Nat.digitChar (b.val % 16)]

lemma isspace_digitChar {n : ℕ} (h : n < 16) : isspace (Nat.digitChar n) = false := by
  have hall : ∀ i : Fin 16, isspace (Nat.digitChar i) = false := by decide
  exact hall ⟨n, h⟩

lemma isspace_of_mem_hex {bytes : List (Fin 256)} {c : Char} (h : c ∈ hex bytes) :
    isspace c = false := by
  obtain ⟨b, -, hc⟩ := List.mem_flatMap.mp h
  have hb := b.isLt
  simp only [List.mem_cons, List.not_mem_nil, or_false] at hc
  rcases hc with rfl | rfl
  · exact isspace_digitChar (by omega)
  · exact isspace_digitChar (by omega)

/-! ### Writing in the middle of a file -/

/-- Write at a position of a file. A gap before it is filled up, and what is beyond the data
    stays. -/
def overwrite {α : Type} (fill : α) (s : List α) (pos : ℕ) (data : List α) : List α :=
  s.take pos ++ List.replicate (pos - s.length) fill ++ data ++ s.drop (pos + data.length)

/-- Writing on at the end. -/
lemma overwrite_of_length {α : Type} (fill : α) {s : List α} {pos : ℕ} (data : List α)
    (h : s.length = pos) : overwrite fill s pos data = s ++ data := by
  simp [overwrite, ← h]

/-! ### Containers -/

/-- Insertion into a `std::set` ordered by `lt`. -/
def setInsert {α : Type} (lt : α → α → Bool) (a : α) : List α → List α
  | []     => [a]
  | b :: s => if lt a b then a :: b :: s else if lt b a then b :: setInsert lt a s else b :: s

/-- The order of `std::string`. -/
def strLt (a b : Str) : Bool := decide (a < b)

/-- The order of `std::pair<string,string>`. -/
def pairLt (a b : Str × Str) : Bool := strLt a.1 b.1 || (!strLt b.1 a.1 && strLt a.2 b.2)

/-- `table[key]=value` on a `std::unordered_map`. Entries stand in the order of their first
    assignment; the standard leaves the order of iteration open. -/
def tableSet {β : Type} (key : Str) (value : β) : List (Str × β) → List (Str × β)
  | []     => [(key, value)]
  | e :: t => if e.1 = key then (key, value) :: t else e :: tableSet key value t

lemma strLt_trichotomy {a b : Str} (h : strLt a b = false) (h' : strLt b a = false) : a = b := by
  simp only [strLt, decide_eq_false_iff_not, not_lt] at h h'
  exact le_antisymm h' h

lemma pairLt_trichotomy {a b : Str × Str} (h : pairLt a b = false) (h' : pairLt b a = false) :
    a = b := by
  simp only [pairLt, Bool.or_eq_false_iff, Bool.and_eq_false_iff, Bool.not_eq_false'] at h h'
  have h₁ : a.1 = b.1 := strLt_trichotomy h.1 h'.1
  have hirr : strLt b.1 b.1 = false := by simp [strLt]
  rw [h₁, hirr] at h h'
  simp only [Bool.false_eq_true, false_or] at h h'
  exact Prod.ext h₁ (strLt_trichotomy h.2 h'.2)

/-- A set insertion adds the element, whatever the order, as long as incomparable elements
    are equal. -/
lemma mem_setInsert {α : Type} {lt : α → α → Bool}
    (hlt : ∀ a b, lt a b = false → lt b a = false → a = b) (a x : α) (s : List α) :
    x ∈ setInsert lt a s ↔ x = a ∨ x ∈ s := by
  induction s with
  | nil => simp [setInsert]
  | cons b s ih =>
    simp only [setInsert]
    split_ifs with hab hba
    · simp
    · simp only [List.mem_cons, ih]
      tauto
    · have := hlt a b (by simpa using hab) (by simpa using hba)
      subst this
      simp

@[simp] lemma mem_setInsert_strLt (a x : Str) (s : List Str) :
    x ∈ setInsert strLt a s ↔ x = a ∨ x ∈ s :=
  mem_setInsert (fun _ _ => strLt_trichotomy) a x s

@[simp] lemma mem_setInsert_pairLt (a x : Str × Str) (s : List (Str × Str)) :
    x ∈ setInsert pairLt a s ↔ x = a ∨ x ∈ s :=
  mem_setInsert (fun _ _ => pairLt_trichotomy) a x s

/-- A set insertion keeps the order. -/
lemma pairwise_setInsert_strLt (a : Str) {s : List Str} (h : s.Pairwise (· < ·)) :
    (setInsert strLt a s).Pairwise (· < ·) := by
  induction s with
  | nil => exact List.pairwise_singleton _ a
  | cons b s ih =>
    obtain ⟨hb, hs⟩ := List.pairwise_cons.mp h
    rw [setInsert]
    split_ifs with hab hba
    · rw [strLt, decide_eq_true_eq] at hab
      refine List.pairwise_cons.mpr ⟨fun x hx => ?_, h⟩
      rcases List.mem_cons.mp hx with rfl | hx
      · exact hab
      · exact hab.trans (hb x hx)
    · rw [strLt, decide_eq_true_eq] at hba
      refine List.pairwise_cons.mpr ⟨fun x hx => ?_, ih hs⟩
      rcases (mem_setInsert_strLt a x s).mp hx with rfl | hx
      · exact hba
      · exact hb x hx
    · exact h

/-- Looking up in a table goes by equality of keys. -/
lemma lookup_cons_ite {β : Type} (k k' : Str) (v : β) (t : List (Str × β)) :
    ((k', v) :: t).lookup k = if k = k' then some v else t.lookup k := by
  by_cases h : k = k'
  · simp [h]
  · have hb : (k == k') = false := by simpa using h
    simp [List.lookup_cons, hb, h]

/-- An assignment changes the value of its key only. -/
@[simp] lemma lookup_tableSet {β : Type} (key k : Str) (value : β) (t : List (Str × β)) :
    (tableSet key value t).lookup k = if k = key then some value else t.lookup k := by
  induction t with
  | nil => simp [tableSet, lookup_cons_ite]
  | cons e t ih =>
    obtain ⟨k', v⟩ := e
    simp only [tableSet]
    by_cases hk' : k' = key
    · subst hk'
      simp only [if_true, lookup_cons_ite]
      split_ifs <;> rfl
    · simp only [hk', if_false, lookup_cons_ite, ih]
      split_ifs with h h' h'
      · exact absurd (h.symm.trans h') hk'
      all_goals rfl

end TorrentShare
