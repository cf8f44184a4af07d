import Mathlib.Algebra.Order.Floor.Div
import TorrentShare.Peer.Received

/-!
# Hashes of files

The uploader hashes a file in one pass that counts its bytes, the downloader in another one, and
each chunk again as it arrives. All three take twenty characters of the digits of a digest, which
are forty.
-/

namespace TorrentShare

/-- `SHA_DIGEST_LENGTH` -/
def shaDigestLength : ℕ := 20

/-- What SHA-1 makes of some data. -/
abbrev Digest := {d : List (Fin 256) // d.length = shaDigestLength}

/-- The part of a digest that is kept: `string temp_hash(result,result+20)`. -/
def entry (d : Digest) : Str := (hex d.1).take 20

/-- The loop of `GetFileHash`. -/
def hashLoop (sha1 : Str → Digest) (final_hash : Str) (file_size : ℕ) (s : Str) : Str × ℕ :=
  if s = [] then (final_hash, file_size)
  else
    let data := s.take chunkSize
    hashLoop sha1 (final_hash ++ entry (sha1 data)) (file_size + data.length) (s.drop chunkSize)
termination_by s.length
decreasing_by
  rename_i h
  have hpos := List.length_pos_of_ne_nil h
  rw [List.length_drop, chunkSize]
  omega

/-- `GetFileHash`, from the content of the file, if it can be opened. -/
def getFileHash (sha1 : Str → Digest) : Option Str → Str × ℕ
  | none   => ([], 0)
  | some s => hashLoop sha1 [] 0 s

/-- What `GetFileHashsmall` reads after `fseek`. -/
def readChunk (s : Str) (k : ℕ) : Str := (s.drop (seek k)).take chunkSize

/-- `GetFileHashsmall` with the position as it is computed. -/
def checkChunk (sha1 : Str → Digest) (s : Str) (k : ℕ) (fullhash : Str) : Option Bool :=
  (substr fullhash (k * 20) 20).map fun x => entry (sha1 (readChunk s k)) = x

/-! ### Digits of a digest -/

lemma digitChar_injective {m n : ℕ} (hm : m < 16) (hn : n < 16)
    (h : Nat.digitChar m = Nat.digitChar n) : m = n := by
  have hall : ∀ i j : Fin 16, Nat.digitChar i = Nat.digitChar j → i = j := by decide
  exact congrArg Fin.val (hall ⟨m, hm⟩ ⟨n, hn⟩ h)

lemma hex_cons (b : Fin 256) (bytes : List (Fin 256)) : hex (b :: bytes) =
    Nat.digitChar (b.val / 16) :: Nat.digitChar (b.val % 16) :: hex bytes := rfl

lemma length_hex (bytes : List (Fin 256)) : (hex bytes).length = 2 * bytes.length := by
  induction bytes with
  | nil => rfl
  | cons b bytes ih =>
    rw [hex_cons, List.length_cons, List.length_cons, ih, List.length_cons]
    omega

/-- The digits determine the bytes. -/
lemma hex_injective {bytes bytes' : List (Fin 256)} (h : hex bytes = hex bytes') :
    bytes = bytes' := by
  induction bytes generalizing bytes' with
  | nil =>
    cases bytes' with
    | nil => rfl
    | cons b' bytes' => cases h
  | cons b bytes ih =>
    cases bytes' with
    | nil => cases h
    | cons b' bytes' =>
      rw [hex_cons, hex_cons, List.cons.injEq, List.cons.injEq] at h
      obtain ⟨hhigh, hlow, hrest⟩ := h
      have hdiv := digitChar_injective (by omega) (by omega) hhigh
      have hmod := digitChar_injective (by omega) (by omega) hlow
      have hb : b = b' := Fin.ext (by omega)
      rw [hb, ih hrest]

lemma take_hex (n : ℕ) (bytes : List (Fin 256)) :
    (hex bytes).take (2 * n) = hex (bytes.take n) := by
  induction n generalizing bytes with
  | zero => rfl
  | succ n ih =>
    cases bytes with
    | nil => rfl
    | cons b bytes =>
      rw [Nat.mul_succ, hex_cons, List.take_succ_cons, List.take_succ_cons, ih, List.take_succ_cons,
        hex_cons]

/-- Twenty digits are ten bytes. -/
lemma entry_eq_hex (d : Digest) : entry d = hex (d.1.take 10) := take_hex 10 d.1

lemma length_entry (d : Digest) : (entry d).length = 20 := by
  rw [entry_eq_hex, length_hex, List.length_take, d.2]
  rfl

lemma entry_eq_iff {d₁ d₂ : Digest} : entry d₁ = entry d₂ ↔ d₁.1.take 10 = d₂.1.take 10 := by
  rw [entry_eq_hex, entry_eq_hex]
  exact ⟨hex_injective, congrArg hex⟩

/-! ### Three ways of hashing -/

/-- The model of the check that the downloads are stated with. -/
lemma checkChunk_eq (sha1 : Str → Digest) (s fullhash : Str) {k : ℕ} (h : k * chunkSize < 2 ^ 31) :
    checkChunk sha1 s k fullhash = getFileHashsmall (fun s => (sha1 s).1) s k fullhash := by
  rw [checkChunk, readChunk, seek_natCast h]
  rfl

/-- The two passes cut the file at the same places. -/
lemma hashLoop_eq (sha1 : Str → Digest) (final_hash : Str) (file_size : ℕ) (s : Str) :
    hashLoop sha1 final_hash file_size s =
      (final_hash ++ getFileHash2 (fun s => (sha1 s).1) s, file_size + s.length) := by
  fun_induction hashLoop sha1 final_hash file_size s with
  | case1 final_hash file_size =>
    rw [getFileHash2, if_pos rfl, List.append_nil]
    rfl
  | case2 final_hash file_size s hne data ih =>
    have hlength : data.length + (s.length - chunkSize) = s.length := by
      rw [List.length_take]
      omega
    have hfirst : getFileHash2 (fun s => (sha1 s).1) s =
        entry (sha1 data) ++ getFileHash2 (fun s => (sha1 s).1) (s.drop chunkSize) := by
      rw [getFileHash2, if_neg hne]
      rfl
    rw [ih, hfirst, List.append_assoc, List.length_drop, Nat.add_assoc, hlength]

lemma getFileHash_some (sha1 : Str → Digest) (s : Str) :
    getFileHash sha1 (some s) = (getFileHash2 (fun s => (sha1 s).1) s, s.length) := by
  rw [getFileHash, hashLoop_eq, List.nil_append, Nat.zero_add]

lemma length_flatMap_range {p : ℕ → Str} (hp : ∀ k, (p k).length = 20) (n : ℕ) :
    ((List.range n).flatMap p).length = n * 20 := by
  simp [List.length_flatMap, hp]

/-- Entries of twenty characters are found again in the string they make up. -/
lemma drop_flatMap_range {p : ℕ → Str} (hp : ∀ k, (p k).length = 20) {n k : ℕ} (hk : k < n) :
    (((List.range n).flatMap p).drop (k * 20)).take 20 = p k := by
  obtain ⟨m, rfl⟩ : ∃ m, n = k + (m + 1) := ⟨n - k - 1, by omega⟩
  rw [List.range_add, List.flatMap_append, List.drop_left' (length_flatMap_range hp k),
    List.range_succ_eq_map,
    List.map_cons, List.flatMap_cons, Nat.add_zero, List.take_left' (hp k)]

/-- Rounded up, the chunks reach the end of the file, and the last one begins before it. -/
lemma ceilDiv_spec (size : ℕ) : size ≤ (size ⌈/⌉ chunkSize) * chunkSize ∧
    (size ⌈/⌉ chunkSize) * chunkSize < size + chunkSize := by
  rw [Nat.ceilDiv_eq_add_pred_div, chunkSize]
  omega

/-- The chunks of a file of an `int` of bytes begin at positions that are an `int`. -/
lemma mul_chunkSize_lt {size k : ℕ} (hsize : size ≤ 2 ^ 31 - 1) (hk : k < size ⌈/⌉ chunkSize) :
    k * chunkSize < 2 ^ 31 := by
  have hspec := (ceilDiv_spec size).2
  have hsucc : (k + 1) * chunkSize ≤ (size ⌈/⌉ chunkSize) * chunkSize :=
    Nat.mul_le_mul_right chunkSize hk
  rw [Nat.succ_mul] at hsucc
  omega

section Agree

variable {sha1 : Str → Digest} {f hash : Str} {k : ℕ}

/-- The entry of a chunk in the hash of its file. -/
lemma drop_getFileHash2 (sha1 : Str → Digest) (hk : k < f.length ⌈/⌉ chunkSize) :
    k * 20 ≤ (getFileHash2 (fun s => (sha1 s).1) f).length ∧
    ((getFileHash2 (fun s => (sha1 s).1) f).drop (k * 20)).take 20 = entry (sha1 (chunk k f)) := by
  obtain ⟨hle, hlt⟩ := ceilDiv_spec f.length
  have hlength : ∀ k, (piece (fun s => (sha1 s).1) (chunk k f)).length = 20 :=
    fun k => length_entry (sha1 (chunk k f))
  rw [getFileHash2_eq (fun s => (sha1 s).1) hle hlt, length_flatMap_range hlength,
    drop_flatMap_range hlength hk]
  exact ⟨Nat.mul_le_mul_right 20 hk.le, rfl⟩

/-- A file of an `int` of bytes passes the checks of all its chunks just if it has the expected
    hash, and the uploader computes the same hash, and the length. -/
theorem checks_agree (sha1 : Str → Digest) (hF : f.length ≤ 2 ^ 31 - 1)
    (hhash : hash.length = 20 * (f.length ⌈/⌉ chunkSize)) :
    ((∀ k < f.length ⌈/⌉ chunkSize, checkChunk sha1 f k hash = some true) ↔
      getFileHash2 (fun s => (sha1 s).1) f = hash) ∧
    getFileHash2 (fun s => (sha1 s).1) f = (getFileHash sha1 (some f)).1 ∧
    (getFileHash sha1 (some f)).2 = f.length := by
  obtain ⟨hle, hlt⟩ := ceilDiv_spec f.length
  rw [getFileHash_some]
  refine ⟨⟨fun hall => ?_, fun hsame k hk => ?_⟩, rfl, rfl⟩
  · apply getFileHash2_of_pieces hle hlt (by omega)
    intro k hk
    rw [← checkChunk_eq sha1 f hash (mul_chunkSize_lt hF hk)]
    exact hall k hk
  · obtain ⟨hthere, hentry⟩ := drop_getFileHash2 sha1 hk
    rw [checkChunk_eq sha1 f hash (mul_chunkSize_lt hF hk), getFileHashsmall_iff, ← hsame, hentry]
    exact ⟨hthere, rfl⟩

end Agree

/-- SHA-1 of `a` and of `5` as digests. -/
def oneByteDigest (s : Str) : Digest :=
  if h : (oneByteSha1 s).length = shaDigestLength then ⟨oneByteSha1 s, h⟩
  else ⟨List.replicate shaDigestLength 0, rfl⟩

theorem checks_agree_oneByte :
    ((∀ k < ['a'].length ⌈/⌉ chunkSize,
      checkChunk oneByteDigest ['a'] k (entry (oneByteDigest ['a'])) = some true) ↔
        getFileHash2 (fun s => (oneByteDigest s).1) ['a'] = entry (oneByteDigest ['a'])) ∧
    getFileHash2 (fun s => (oneByteDigest s).1) ['a'] = (getFileHash oneByteDigest (some ['a'])).1 ∧
    (getFileHash oneByteDigest (some ['a'])).2 = ['a'].length :=
  checks_agree oneByteDigest (by decide) (by decide)

/-! ### What an entry tells about its digest -/

/-- The first ten bytes differ, or the other ten do not. -/
def Told (d₁ d₂ : Digest) : Prop := d₁.1.take 10 ≠ d₂.1.take 10 ∨ d₁.1.drop 10 = d₂.1.drop 10

lemma eq_iff_told {d₁ d₂ : Digest} (h : d₁.1.take 10 = d₂.1.take 10) : d₁ = d₂ ↔ Told d₁ d₂ := by
  constructor
  · rintro rfl
    exact Or.inr rfl
  · rintro (hne | hrest)
    · exact absurd h hne
    · apply Subtype.ext
      rw [← List.take_append_drop 10 d₁.1, h, hrest, List.take_append_drop]

lemma entry_eq_imp_iff {d₁ d₂ : Digest} : (entry d₁ = entry d₂ → d₁ = d₂) ↔ Told d₁ d₂ := by
  rw [entry_eq_iff]
  by_cases h : d₁.1.take 10 = d₂.1.take 10
  · rw [← eq_iff_told h]
    exact ⟨fun himp => himp h, fun heq _ => heq⟩
  · exact ⟨fun _ => Or.inl h, fun _ heq => absurd heq h⟩

/-- A chunk is accepted just if its entry is the uploader's. -/
lemma checkChunk_getFileHash {sha1 : Str → Digest} {F : Str} {k : ℕ} (f : Str)
    (hF : F.length ≤ 2 ^ 31 - 1) (hk : k < F.length ⌈/⌉ chunkSize) :
    checkChunk sha1 f k (getFileHash sha1 (some F)).1 = some true ↔
      entry (sha1 (chunk k f)) = entry (sha1 (chunk k F)) := by
  obtain ⟨hthere, hentry⟩ := drop_getFileHash2 sha1 hk
  rw [getFileHash_some, checkChunk_eq sha1 f _ (mul_chunkSize_lt hF hk), getFileHashsmall_iff,
    hentry]
  exact ⟨fun h => h.2, fun h => ⟨hthere, h⟩⟩

/-- An entry determines its digest, and an accepted chunk has the digest of the uploader's, where
    the digests do not differ in the last ten bytes alone. -/
theorem entry_determines_iff {sha1 : Str → Digest} {F : Str} {k : ℕ} (f : Str)
    (hF : F.length ≤ 2 ^ 31 - 1) (hk : k < F.length ⌈/⌉ chunkSize) :
    (∀ d₁ d₂ : Digest, (entry d₁ = entry d₂ → d₁ = d₂) ↔ Told d₁ d₂) ∧
    ((checkChunk sha1 f k (getFileHash sha1 (some F)).1 = some true →
      sha1 (chunk k f) = sha1 (chunk k F)) ↔ Told (sha1 (chunk k f)) (sha1 (chunk k F))) := by
  refine ⟨fun d₁ d₂ => entry_eq_imp_iff, ?_⟩
  rw [checkChunk_getFileHash f hF hk]
  exact entry_eq_imp_iff

theorem entry_determines_iff_oneByte :
    (∀ d₁ d₂ : Digest, (entry d₁ = entry d₂ → d₁ = d₂) ↔ Told d₁ d₂) ∧
    ((checkChunk oneByteDigest ['5'] 0 (getFileHash oneByteDigest (some ['a'])).1 = some true →
      oneByteDigest (chunk 0 ['5']) = oneByteDigest (chunk 0 ['a'])) ↔
        Told (oneByteDigest (chunk 0 ['5'])) (oneByteDigest (chunk 0 ['a']))) :=
  entry_determines_iff ['5'] (by decide) (by decide)

/-- Two digests that differ in their last bytes. -/
theorem entry_of_two_digests : ∃ d₁ d₂ : Digest, entry d₁ = entry d₂ ∧ d₁ ≠ d₂ :=
  ⟨⟨List.replicate 19 0 ++ [0], rfl⟩, ⟨List.replicate 19 0 ++ [1], rfl⟩, by decide, by decide⟩

end TorrentShare
