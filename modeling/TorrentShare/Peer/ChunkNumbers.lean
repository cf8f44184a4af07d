import Mathlib.Data.List.TakeWhile
import TorrentShare.Peer.Chunks

/-!
# Chunk numbers

A peer that is asked for the chunks it has of a file answers `-1` for all of them, `-2` for none, or
with their numbers.
-/

namespace TorrentShare

/-- `to_string`. -/
def toStr (n : ℕ) : Str := Nat.toDigits 10 n

/-- `GetChunkInfo`, from the entry of `filechunks_map` for the name. -/
def getChunkInfo : Option (List ℕ) → Str
  | none => "-1".toList
  | some itr =>
    if itr = [] then "-2".toList
    else (itr.flatMap fun x => toStr x ++ [' ']).dropLast

/-- The chunks that `CalcChunk` takes a reply for. -/
def chunkNumbers (nchunks : ℕ) (output : Str) : List ℤ :=
  if output = "-1".toList then (List.range nchunks).map Nat.cast
  else if output = "-2".toList then []
  else (split output ' ').map atoi

/-- What the loop of `CalcChunk` takes from a reply: whether it sets `flag`, and `temp`. -/
def decodeChunks (nchunks : ℕ) (output : Str) : Bool × List ℤ :=
  (output ≠ "-1".toList, (chunkNumbers nchunks output).map (· + 1))

/-! ### Numbers as text -/

lemma isDigit_of_mem_toStr {n : ℕ} {c : Char} (h : c ∈ toStr n) : c.isDigit = true :=
  Nat.isDigit_of_mem_toDigits (by decide) (by decide) h

lemma not_mem_toStr {n : ℕ} {c : Char} (h : c.isDigit = false) : c ∉ toStr n := by
  intro hc
  rw [isDigit_of_mem_toStr hc] at h
  cases h

lemma isspace_of_isDigit {c : Char} (h : c.isDigit = true) : isspace c = false := by
  by_contra hspace
  simp only [isspace, Bool.or_eq_true, decide_eq_true_eq, Bool.not_eq_false] at hspace
  rcases hspace with ((((rfl | rfl) | rfl) | rfl) | rfl) | rfl <;> cases h

lemma digits_eq {s : Str} (h : ∀ c ∈ s, c.isDigit = true) : digits s = Nat.ofDigitChars 10 s 0 := by
  have hall : s.takeWhile Char.isDigit = s := List.takeWhile_eq_self_iff.mpr h
  rw [digits, hall]
  rfl

/-- Digits are read as the number they stand for, as far as a `long` goes. -/
lemma strtol_digits {s : Str} (hne : s ≠ []) (h : ∀ c ∈ s, c.isDigit = true) :
    strtol s = min (Nat.ofDigitChars 10 s 0 : ℤ) (2 ^ 63 - 1) := by
  have hdigits := digits_eq h
  have hlow : ∀ n : ℕ, max (-2 ^ 63) (min (n : ℤ) (2 ^ 63 - 1)) = min (n : ℤ) (2 ^ 63 - 1) := by
    intro n
    omega
  rw [strtol]
  cases s with
  | nil => exact absurd rfl hne
  | cons c t =>
    have hc := h c List.mem_cons_self
    rw [List.dropWhile_cons, isspace_of_isDigit hc]
    split
    · rename_i heq
      cases heq
      cases hc
    · rename_i heq
      cases heq
      cases hc
    · rw [if_neg Bool.false_ne_true, hdigits]
      exact hlow _

/-- A number that is written is read again, as far as a `long` goes. -/
lemma strtol_toStr (n : ℕ) : strtol (toStr n) = min (n : ℤ) (2 ^ 63 - 1) := by
  have hne : toStr n ≠ [] := Nat.toDigits_ne_nil
  rw [strtol_digits hne fun c hc => isDigit_of_mem_toStr hc]
  exact congrArg (fun m : ℕ => min (m : ℤ) (2 ^ 63 - 1)) Nat.ofDigitChars_ten_toDigits

/-- An `int` that is written is read again. -/
lemma atoi_toStr {n : ℕ} (h : n < 2 ^ 31) : atoi (toStr n) = n := by
  have hlong : min (n : ℤ) (2 ^ 63 - 1) = n := by omega
  rw [atoi, strtol_toStr, hlong, Int.bmod_eq_of_le_mul_two (by omega) (by omega)]

/-! ### Replies -/

/-- The reply for some chunks consists of their numbers, with blanks between them. -/
lemma dropLast_flatMap_toStr {itr : List ℕ} (h : itr ≠ []) :
    (itr.flatMap fun x => toStr x ++ [' ']).dropLast = [' '].intercalate (itr.map toStr) := by
  induction itr with
  | nil => exact absurd rfl h
  | cons x itr ih =>
    cases itr with
    | nil => simp [List.intercalate]
    | cons y itr =>
      have hrest : ((y :: itr).flatMap fun x => toStr x ++ [' ']) ≠ [] := by simp
      rw [List.flatMap_cons, List.dropLast_append_of_ne_nil hrest, ih (by simp)]
      simp [List.intercalate]

/-- A list of numbers has no sign. -/
lemma not_mem_flatMap_toStr (itr : List ℕ) :
    '-' ∉ (itr.flatMap fun x => toStr x ++ [' ']).dropLast := by
  intro hmem
  obtain ⟨x, -, hx⟩ := List.mem_flatMap.mp (List.dropLast_subset _ hmem)
  rcases List.mem_append.mp hx with hx | hx
  · exact not_mem_toStr rfl hx
  · cases List.mem_singleton.mp hx

/-- The numbers of a reply are those of the entry. -/
lemma chunkNumbers_getChunkInfo_some (nchunks : ℕ) {itr : List ℕ} (h : ∀ x ∈ itr, x < 2 ^ 31) :
    chunkNumbers nchunks (getChunkInfo (some itr)) = itr.map Nat.cast := by
  by_cases hnil : itr = []
  · subst hnil
    rfl
  · have hsplit : split ([' '].intercalate (itr.map toStr)) ' ' = itr.map toStr := by
      apply List.splitOn_intercalate
      · intro l hl
        obtain ⟨x, -, rfl⟩ := List.mem_map.mp hl
        exact not_mem_toStr rfl
      · simpa using hnil
    have hsign : '-' ∉ [' '].intercalate (itr.map toStr) :=
      dropLast_flatMap_toStr hnil ▸ not_mem_flatMap_toStr itr
    have hall : [' '].intercalate (itr.map toStr) ≠ "-1".toList := by
      intro heq
      rw [heq] at hsign
      exact hsign List.mem_cons_self
    have hnone : [' '].intercalate (itr.map toStr) ≠ "-2".toList := by
      intro heq
      rw [heq] at hsign
      exact hsign List.mem_cons_self
    rw [getChunkInfo, if_neg hnil, dropLast_flatMap_toStr hnil, chunkNumbers, if_neg hall,
      if_neg hnone, hsplit, List.map_map]
    apply List.map_congr_left
    intro x hx
    exact atoi_toStr (h x hx)

/-- Without an entry the reply stands for all chunks. -/
lemma chunkNumbers_getChunkInfo_none (nchunks : ℕ) :
    chunkNumbers nchunks (getChunkInfo none) = (List.range nchunks).map Nat.cast := by
  rw [getChunkInfo, chunkNumbers, if_pos rfl]

/-- The reply for all chunks. -/
lemma getChunkInfo_eq_all {entry : Option (List ℕ)} :
    getChunkInfo entry = "-1".toList ↔ entry = none := by
  cases entry with
  | none => exact iff_of_true rfl rfl
  | some itr =>
    refine iff_of_false (fun hall => ?_) (by simp)
    by_cases hnil : itr = []
    · rw [hnil] at hall
      revert hall
      decide
    · rw [getChunkInfo, if_neg hnil] at hall
      exact not_mem_flatMap_toStr itr (hall ▸ List.mem_cons_self)

/-- The reply for no chunks. -/
lemma getChunkInfo_eq_nothing {entry : Option (List ℕ)} :
    getChunkInfo entry = "-2".toList ↔ entry = some [] := by
  constructor
  · intro hnothing
    cases entry with
    | none =>
      revert hnothing
      decide
    | some itr =>
      by_cases hnil : itr = []
      · rw [hnil]
      · rw [getChunkInfo, if_neg hnil] at hnothing
        exact absurd (hnothing ▸ List.mem_cons_self) (not_mem_flatMap_toStr itr)
  · rintro rfl
    rfl

/-- What a peer has of a file arrives as it is: all chunks, none, or those that are listed, in their
    order. The three kinds of replies are told apart. -/
theorem decodeChunks_getChunkInfo {nchunks : ℕ} (hn : nchunks ≤ 2 ^ 31)
    {filechunksMap : Str → Option (List ℕ)} {name : Str}
    (hmap : ∀ itr, filechunksMap name = some itr → ∀ x ∈ itr, x < nchunks) :
    (filechunksMap name = none → decodeChunks nchunks (getChunkInfo (filechunksMap name)) =
      (false, (List.range nchunks).map fun i : ℕ => (i + 1 : ℤ))) ∧
    (filechunksMap name = some [] →
      decodeChunks nchunks (getChunkInfo (filechunksMap name)) = (true, [])) ∧
    (∀ itr, itr ≠ [] → filechunksMap name = some itr →
      decodeChunks nchunks (getChunkInfo (filechunksMap name)) =
        (true, itr.map fun x : ℕ => (x + 1 : ℤ))) ∧
    (getChunkInfo (filechunksMap name) = "-1".toList ↔ filechunksMap name = none) ∧
    (getChunkInfo (filechunksMap name) = "-2".toList ↔ filechunksMap name = some []) := by
  have hlist : ∀ itr, filechunksMap name = some itr →
      decodeChunks nchunks (getChunkInfo (filechunksMap name)) =
        (true, itr.map fun x : ℕ => (x + 1 : ℤ)) := by
    intro itr hitr
    have hint : ∀ x ∈ itr, x < 2 ^ 31 := fun x hx => (hmap itr hitr x hx).trans_le hn
    have hpartial : getChunkInfo (some itr) ≠ "-1".toList := by
      rw [ne_eq, getChunkInfo_eq_all]
      exact Option.some_ne_none itr
    rw [hitr, decodeChunks, decide_eq_true hpartial, chunkNumbers_getChunkInfo_some nchunks hint,
      List.map_map]
    rfl
  refine ⟨fun hnone => ?_, hlist [], fun itr _ => hlist itr, getChunkInfo_eq_all,
    getChunkInfo_eq_nothing⟩
  rw [hnone, decodeChunks, chunkNumbers_getChunkInfo_none, List.map_map]
  rfl

/-- A download under way with two chunks. -/
def twoVerified (name : Str) : Option (List ℕ) := if name = "f".toList then some [1, 0] else none

theorem decodeChunks_getChunkInfo_two :
    (twoVerified "f".toList = none →
      decodeChunks 2 (getChunkInfo (twoVerified "f".toList)) =
        (false, (List.range 2).map fun i : ℕ => (i + 1 : ℤ))) ∧
    (twoVerified "f".toList = some [] →
      decodeChunks 2 (getChunkInfo (twoVerified "f".toList)) = (true, [])) ∧
    (∀ itr, itr ≠ [] → twoVerified "f".toList = some itr →
      decodeChunks 2 (getChunkInfo (twoVerified "f".toList)) =
        (true, itr.map fun x : ℕ => (x + 1 : ℤ))) ∧
    (getChunkInfo (twoVerified "f".toList) = "-1".toList ↔ twoVerified "f".toList = none) ∧
    (getChunkInfo (twoVerified "f".toList) = "-2".toList ↔ twoVerified "f".toList = some []) := by
  have hn : 2 ≤ 2 ^ 31 := by decide
  refine decodeChunks_getChunkInfo hn fun itr hitr => ?_
  cases hitr
  decide

end TorrentShare
