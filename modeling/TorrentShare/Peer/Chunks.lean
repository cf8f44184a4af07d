import Mathlib.Algebra.Order.Ring.Int
import TorrentShare.Text

/-!
# Chunks of a file

A file is checked by the first twenty hexadecimal digits of the SHA-1 of each of its chunks.
-/

namespace TorrentShare

/-- `CHUNK_SIZE1` and `CHUNK_SIZE2`. -/
def chunkSize : ℕ := 524288

/-- `SMALL_CHUNK_SIZE1` and `SMALL_CHUNK_SIZE2`. -/
def smallChunkSize : ℕ := 1024

/-! ### Sizes -/

/-- The number that leading digits stand for. -/
def digits (s : Str) : ℕ :=
  (s.takeWhile Char.isDigit).foldl (fun n c => 10 * n + (c.toNat - '0'.toNat)) 0

/-- `strtol`: blanks, a sign and digits. What does not fit into a `long` becomes the nearest one. -/
def strtol (s : Str) : ℤ :=
  let n : ℤ := match s.dropWhile isspace with
    | '-' :: t => -digits t
    | '+' :: t => digits t
    | t        => digits t
  max (-2 ^ 63) (min n (2 ^ 63 - 1))

/-- `atoi`: the low 32 bits of what `strtol` returns, as an `int`. -/
def atoi (s : Str) : ℤ := (strtol s).bmod (2 ^ 32)

lemma atoi_lt (s : Str) : atoi s < 2 ^ 31 := by
  have hlt := Int.bmod_lt (x := strtol s) (m := 2 ^ 32) (by decide)
  rw [atoi]
  omega

/-- The number of chunks that `GetChunks` goes through. -/
def nchunks (size : Str) : ℕ :=
  let nchunks1 := atoi size
  let n := nchunks1.tdiv chunkSize
  (if nchunks1.tmod chunkSize ≠ 0 then n + 1 else n).toNat

/-- What `DownloadFile` writes into the destination before it starts. -/
def filler (size : Str) : Str := List.replicate (atoi size).toNat '5'

/-- The filler does not go beyond the last chunk, and reaches as far as its beginning. -/
lemma nchunks_spec (size : Str) : (filler size).length ≤ nchunks size * chunkSize ∧
    nchunks size * chunkSize ≤ (filler size).length + chunkSize := by
  simp only [filler, List.length_replicate, nchunks, chunkSize, Nat.cast_ofNat]
  generalize atoi size = n
  rcases le_or_gt 0 n with h | h
  · have hdiv : n.tdiv 524288 = n / 524288 := Int.tdiv_eq_ediv_of_nonneg h
    have hmod : n.tmod 524288 = n % 524288 := Int.tmod_eq_emod_of_nonneg h
    split_ifs <;> omega
  · have hdiv : n.tdiv 524288 ≤ 0 := by
      have hneg : 0 ≤ (-n).tdiv 524288 := Int.tdiv_nonneg (by omega) (by omega)
      rw [Int.neg_tdiv] at hneg
      omega
    split_ifs <;> omega

/-- An `int` of bytes has at most this many chunks. -/
lemma nchunks_le (size : Str) : nchunks size ≤ 4096 := by
  have hlt := atoi_lt size
  have hspec := nchunks_spec size
  rw [filler, List.length_replicate, chunkSize] at hspec
  omega

/-! ### Hashes -/

/-- Chunk `k` of a file. The last chunk may be shorter. -/
def chunk (k : ℕ) (s : Str) : Str := (s.drop (k * chunkSize)).take chunkSize

/-- The twenty digits that are kept of the hash of a chunk. -/
def piece (sha1 : Str → List (Fin 256)) (data : Str) : Str := (hex (sha1 data)).take 20

/-- The loop of `GetFileHash2`: a piece for every chunk that can be read. -/
def getFileHash2 (sha1 : Str → List (Fin 256)) (s : Str) : Str :=
  if s = [] then []
  else piece sha1 (s.take chunkSize) ++ getFileHash2 sha1 (s.drop chunkSize)
termination_by s.length
decreasing_by
  rename_i h
  have hpos := List.length_pos_of_ne_nil h
  rw [List.length_drop, chunkSize]
  omega

/-- `s.substr(pos,n)`, which throws if `pos` is beyond the end. -/
def substr (s : Str) (pos n : ℕ) : Option Str :=
  if pos ≤ s.length then some ((s.drop pos).take n) else none

/-- `GetFileHashsmall`: chunk `k` of the file has its piece of the expected hash. -/
def getFileHashsmall (sha1 : Str → List (Fin 256)) (s : Str) (k : ℕ) (fullhash : Str) :
    Option Bool :=
  (substr fullhash (k * 20) 20).map fun x => piece sha1 (chunk k s) = x

lemma chunkSize_pos : 0 < chunkSize := by decide

lemma getElem?_chunk {k i : ℕ} (h : i < chunkSize) (s : Str) :
    (chunk k s)[i]? = s[k * chunkSize + i]? := by
  rw [chunk, List.getElem?_take_of_lt h, List.getElem?_drop]

/-- The bytes of a chunk end with the file. -/
lemma chunk_eq_take (k : ℕ) (s : Str) : chunk k s =
    (s.drop (k * chunkSize)).take (min ((k + 1) * chunkSize) s.length - k * chunkSize) := by
  have hsucc : (k + 1) * chunkSize = k * chunkSize + chunkSize := Nat.succ_mul k chunkSize
  rw [chunk, List.take_eq_take_iff, List.length_drop]
  omega

lemma chunk_succ (k : ℕ) (s : Str) : chunk (k + 1) s = chunk k (s.drop chunkSize) := by
  rw [chunk, chunk, List.drop_drop, Nat.succ_mul, Nat.add_comm]

/-- The hash of a file is made of the pieces of its chunks. -/
lemma getFileHash2_eq (sha1 : Str → List (Fin 256)) {s : Str} {n : ℕ}
    (hle : s.length ≤ n * chunkSize) (hlt : n * chunkSize < s.length + chunkSize) :
    getFileHash2 sha1 s = (List.range n).flatMap fun k => piece sha1 (chunk k s) := by
  induction n generalizing s with
  | zero =>
    have hnil : s = [] := List.eq_nil_of_length_eq_zero (by omega)
    rw [getFileHash2, if_pos hnil]
    rfl
  | succ n ih =>
    rw [Nat.succ_mul] at hle hlt
    have hne : s ≠ [] := by
      rintro rfl
      rw [List.length_nil] at hlt
      omega
    have hrest := ih (s := s.drop chunkSize) (by rw [List.length_drop]; omega)
      (by rw [List.length_drop]; omega)
    rw [getFileHash2, if_neg hne, hrest, List.range_succ_eq_map, List.flatMap_cons,
      List.flatMap_map]
    simp only [chunk_succ]
    simp [chunk]

/-- A string of at most `n` pieces is made of its pieces. -/
lemma flatMap_pieces {hash : Str} {n : ℕ} (h : hash.length ≤ n * 20) :
    ((List.range n).flatMap fun k => (hash.drop (k * 20)).take 20) = hash := by
  induction n generalizing hash with
  | zero =>
    have hnil : hash = [] := List.eq_nil_of_length_eq_zero (by omega)
    rw [hnil]
    rfl
  | succ n ih =>
    have hrest := @ih (hash.drop 20) (by rw [List.length_drop]; omega)
    have hdrop : ∀ k, (hash.drop 20).drop (k * 20) = hash.drop ((k + 1) * 20) := by
      intro k
      rw [List.drop_drop, Nat.succ_mul, Nat.add_comm]
    simp only [hdrop] at hrest
    rw [List.range_succ_eq_map, List.flatMap_cons, List.flatMap_map, hrest]
    simp

lemma getFileHashsmall_iff {sha1 : Str → List (Fin 256)} {s fullhash : Str} {k : ℕ} :
    getFileHashsmall sha1 s k fullhash = some true ↔
      k * 20 ≤ fullhash.length ∧ piece sha1 (chunk k s) = (fullhash.drop (k * 20)).take 20 := by
  rw [getFileHashsmall, substr]
  split_ifs with h
  · simp [h]
  · simp [h]

lemma getFileHashsmall_congr {sha1 : Str → List (Fin 256)} {s s' : Str} {k : ℕ} (fullhash : Str)
    (h : chunk k s' = chunk k s) :
    getFileHashsmall sha1 s' k fullhash = getFileHashsmall sha1 s k fullhash := by
  rw [getFileHashsmall, getFileHashsmall, h]

/-- A file all of whose chunks are accepted has the expected hash. -/
lemma getFileHash2_of_pieces {sha1 : Str → List (Fin 256)} {s hash : Str} {n : ℕ}
    (hle : s.length ≤ n * chunkSize) (hlt : n * chunkSize < s.length + chunkSize)
    (hhash : hash.length ≤ n * 20)
    (h : ∀ k < n, getFileHashsmall sha1 s k hash = some true) : getFileHash2 sha1 s = hash := by
  calc
    getFileHash2 sha1 s = (List.range n).flatMap fun k => piece sha1 (chunk k s) :=
      getFileHash2_eq sha1 hle hlt
    _ = (List.range n).flatMap fun k => (hash.drop (k * 20)).take 20 := by
      apply List.flatMap_congr
      intro k hk
      exact (getFileHashsmall_iff.mp (h k (List.mem_range.mp hk))).2
    _ = hash := flatMap_pieces hhash

/-! ### Writing into a file -/

section Overwrite

variable {s data : Str} {pos n j : ℕ}

lemma length_overwrite (h : pos ≤ s.length) :
    (overwrite '\x00' s pos data).length = max s.length (pos + data.length) := by
  simp [overwrite]
  omega

/-- What is before the data stays. -/
lemma take_overwrite (h : pos ≤ s.length) (hn : n ≤ pos) :
    (overwrite '\x00' s pos data).take n = s.take n := by
  have hlen : (s.take pos).length = pos := by
    rw [List.length_take]
    omega
  rw [overwrite, Nat.sub_eq_zero_of_le h, List.replicate_zero, List.append_nil, List.append_assoc,
    List.take_append_of_le_length (by omega), List.take_take, min_eq_left hn]

/-- What is behind the data stays. -/
lemma drop_overwrite (h : pos ≤ s.length) (hn : pos + data.length ≤ n) :
    (overwrite '\x00' s pos data).drop n = s.drop n := by
  have hlen : (s.take pos ++ data).length = pos + data.length := by
    rw [List.length_append, List.length_take]
    omega
  rw [overwrite, Nat.sub_eq_zero_of_le h, List.replicate_zero, List.append_nil, List.drop_append,
    hlen, List.drop_of_length_le (by omega), List.nil_append, List.drop_drop]
  congr 1
  omega

lemma getElem?_overwrite (h : pos ≤ s.length) (i : ℕ) : (overwrite '\x00' s pos data)[i]? =
    if i < pos then s[i]? else if i < pos + data.length then data[i - pos]? else s[i]? := by
  have hlen : (s.take pos).length = pos := by
    rw [List.length_take]
    omega
  rw [overwrite, Nat.sub_eq_zero_of_le h, List.replicate_zero, List.append_nil, List.append_assoc]
  split_ifs with hbefore hin
  · rw [List.getElem?_append_left (by omega), List.getElem?_take_of_lt hbefore]
  · rw [List.getElem?_append_right (by omega), List.getElem?_append_left (by omega), hlen]
  · rw [List.getElem?_append_right (by omega), List.getElem?_append_right (by omega), hlen,
      List.getElem?_drop]
    congr 1
    omega

/-- A chunk before the data stays. -/
lemma chunk_overwrite_of_lt (h : pos ≤ s.length) (hj : (j + 1) * chunkSize ≤ pos) :
    chunk j (overwrite '\x00' s pos data) = chunk j s := by
  have hsum : j * chunkSize + chunkSize = (j + 1) * chunkSize := (Nat.succ_mul j chunkSize).symm
  rw [chunk, chunk, List.take_drop, List.take_drop, hsum, take_overwrite h hj]

/-- A chunk in a part of the file that is as before. -/
lemma chunk_of_drop_eq {s' : Str} (h : s'.drop n = s.drop n) (hj : n ≤ j * chunkSize) :
    chunk j s' = chunk j s := by
  have hdrop : ∀ t : Str, t.drop (j * chunkSize) = (t.drop n).drop (j * chunkSize - n) := by
    intro t
    rw [List.drop_drop]
    congr 1
    omega
  rw [chunk, chunk, hdrop s', hdrop s, h]

end Overwrite

end TorrentShare
