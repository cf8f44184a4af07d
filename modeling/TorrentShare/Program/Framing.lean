import Mathlib.Algebra.Group.Nat.Defs
import Mathlib.Data.List.Induction
import Mathlib.Tactic.Common

/-!
# Messages on a stream of bytes

A message on a stream is preceded by its length, written with a fixed number of bytes. The reader
knows a message just when the stream starts with all of it.
-/

namespace Framing

abbrev Byte := Fin 256

/-! ### Numbers as bytes, the most significant first -/

/-- The lowest `w` bytes of a number. -/
def bigEndian : ℕ → ℕ → List Byte
  | 0, _     => []
  | w + 1, n => bigEndian w (n / 256) ++ [⟨n % 256, Nat.mod_lt n (Nat.succ_pos 255)⟩]

/-- The number that bytes stand for. -/
def ofBigEndian (bs : List Byte) : ℕ := bs.foldl (fun (n : ℕ) (b : Byte) => 256 * n + b) 0

@[simp] lemma ofBigEndian_nil : ofBigEndian [] = 0 := rfl

@[simp] lemma ofBigEndian_concat (bs : List Byte) (b : Byte) :
    ofBigEndian (bs ++ [b]) = 256 * ofBigEndian bs + b := by
  simp [ofBigEndian]

@[simp] lemma length_bigEndian (w n : ℕ) : (bigEndian w n).length = w := by
  induction w generalizing n with
  | zero => rfl
  | succ w ih => rw [bigEndian, List.length_append, ih, List.length_singleton]

lemma ofBigEndian_lt (bs : List Byte) : ofBigEndian bs < 256 ^ bs.length := by
  induction bs using List.reverseRecOn with
  | nil => exact Nat.one_pos
  | append_singleton bs b ih =>
    have hb := b.isLt
    rw [ofBigEndian_concat, List.length_append, List.length_singleton, Nat.pow_succ]
    omega

/-- A number that fits is read again. -/
lemma ofBigEndian_bigEndian {w n : ℕ} (h : n < 256 ^ w) : ofBigEndian (bigEndian w n) = n := by
  induction w generalizing n with
  | zero => exact (Nat.lt_one_iff.mp h).symm
  | succ w ih =>
    have hdiv : n / 256 < 256 ^ w := Nat.div_lt_of_lt_mul (by rwa [Nat.pow_succ'] at h)
    rw [bigEndian, ofBigEndian_concat, ih hdiv]
    exact Nat.div_add_mod n 256

/-- Bytes are the bytes of their number. -/
lemma bigEndian_ofBigEndian (bs : List Byte) : bigEndian bs.length (ofBigEndian bs) = bs := by
  induction bs using List.reverseRecOn with
  | nil => rfl
  | append_singleton bs b ih =>
    have hb := b.isLt
    have hdiv : (256 * ofBigEndian bs + b) / 256 = ofBigEndian bs := by omega
    have hmod : (256 * ofBigEndian bs + (b : ℕ)) % 256 = b := by omega
    rw [List.length_append, List.length_singleton, bigEndian, ofBigEndian_concat, hdiv, ih]
    exact congrArg (fun c => bs ++ [c]) (Fin.ext hmod)

/-! ### Reading -/

/-- Read a number of items, if the stream has as many. -/
def readAll {α : Type} (n : ℕ) (stream : List α) : Option (List α × List α) :=
  if n ≤ stream.length then some (stream.take n, stream.drop n) else none

lemma readAll_eq_some {α : Type} {n : ℕ} {stream data rest : List α} :
    readAll n stream = some (data, rest) ↔ stream = data ++ rest ∧ data.length = n := by
  constructor
  · intro h
    unfold readAll at h
    split_ifs at h with hn
    cases h
    exact ⟨(List.take_append_drop n stream).symm, List.length_take_of_le hn⟩
  · rintro ⟨rfl, rfl⟩
    simp [readAll]

/-- A message as it is sent: its length, and its bytes. -/
def frame (w : ℕ) (data : List Byte) : List Byte := bigEndian w data.length ++ data

/-- The stream starts with a complete message. -/
def StartsWith (w : ℕ) (stream data : List Byte) : Prop :=
  data.length < 256 ^ w ∧ ∃ rest, stream = frame w data ++ rest

/-- Read a message. -/
def readFrame (w : ℕ) (stream : List Byte) : Option (List Byte) :=
  (readAll w stream).bind fun len => (readAll (ofBigEndian len.1) len.2).map Prod.fst

/-- What is read is the message that the stream starts with. -/
lemma readFrame_eq_some {w : ℕ} {stream data : List Byte} :
    readFrame w stream = some data ↔ StartsWith w stream data := by
  constructor
  · intro h
    obtain ⟨⟨len, rest⟩, hlen, hdata⟩ := Option.bind_eq_some_iff.mp h
    obtain ⟨⟨data', rest'⟩, hread, rfl⟩ := Option.map_eq_some_iff.mp hdata
    obtain ⟨rfl, rfl⟩ := readAll_eq_some.mp hlen
    obtain ⟨hrest, hlength⟩ := readAll_eq_some.mp hread
    have hrest' : rest = data' ++ rest' := hrest
    have hlength' : data'.length = ofBigEndian len := hlength
    refine ⟨hlength' ▸ ofBigEndian_lt len, rest', ?_⟩
    rw [frame, hlength', bigEndian_ofBigEndian, hrest', List.append_assoc]
  · rintro ⟨hlength, rest, rfl⟩
    have hlen : readAll w (frame w data ++ rest) =
        some (bigEndian w data.length, data ++ rest) :=
      readAll_eq_some.mpr ⟨List.append_assoc _ _ _, length_bigEndian w _⟩
    have hdata : readAll (ofBigEndian (bigEndian w data.length)) (data ++ rest) =
        some (data, rest) :=
      readAll_eq_some.mpr ⟨rfl, (ofBigEndian_bigEndian hlength).symm⟩
    rw [readFrame, hlen, Option.bind_some, hdata]
    rfl

end Framing
