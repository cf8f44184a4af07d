import TorrentShare.Peer.Hashing

/-!
# Sizes of files

The uploader counts the bytes of a file in a `long long`. The downloader reads the size with `atoi`
and multiplies chunk numbers as `int`, before it puts the results into variables that are large
enough.
-/

namespace TorrentShare

/-! ### Positions -/

/-- `pos` in `DownloadKernel`. -/
def kernelPos (chunk_num : ℕ) : ℤ := chunkPos chunk_num

/-- `pos` in `GetFileHashsmall`. -/
def hashPos (nchunks : ℕ) : ℤ := chunkPos nchunks

/-- `pos` in `TransferFunction`, from the field of the request that names the chunk. -/
def transferPos (field : Str) : ℤ := chunkPos (atoi field)

/-! ### A size in decimal -/

/-- A size that is an `int` is rounded up to chunks. -/
lemma nchunks_toStr {size : ℕ} (h : size < 2 ^ 31) : nchunks (toStr size) = size ⌈/⌉ chunkSize := by
  have hdiv : (size : ℤ).tdiv 524288 = (size : ℤ) / 524288 :=
    Int.tdiv_eq_ediv_of_nonneg (Int.natCast_nonneg size)
  have hmod : (size : ℤ).tmod 524288 = (size : ℤ) % 524288 :=
    Int.tmod_eq_emod_of_nonneg (Int.natCast_nonneg size)
  rw [nchunks, atoi_toStr h, Nat.ceilDiv_eq_add_pred_div]
  simp only [chunkSize, Nat.cast_ofNat, hdiv, hmod]
  split_ifs <;> omega

lemma length_filler_toStr {size : ℕ} (h : size < 2 ^ 31) : (filler (toStr size)).length = size := by
  rw [filler, List.length_replicate, atoi_toStr h, Int.toNat_natCast]

lemma length_filler_lt (size : Str) : (filler size).length < 2 ^ 31 := by
  have hlt := atoi_lt size
  rw [filler, List.length_replicate]
  omega

lemma length_getFileHash (sha1 : Str → Digest) (F : Str) :
    (getFileHash sha1 (some F)).1.length = 20 * (F.length ⌈/⌉ chunkSize) := by
  obtain ⟨hle, hlt⟩ := ceilDiv_spec F.length
  have hlength : ∀ k, (piece (fun s => (sha1 s).1) (chunk k F)).length = 20 :=
    fun k => length_entry (sha1 (chunk k F))
  rw [getFileHash_some, getFileHash2_eq (fun s => (sha1 s).1) hle hlt,
    length_flatMap_range hlength, Nat.mul_comm]

namespace Download

/-- What `DownloadFile` and the three functions compute for a file of this size is right. -/
structure Sized (d : Download) (size : ℕ) : Prop where
  tasks : d.nchunks = size ⌈/⌉ chunkSize
  entries : d.filemeta.hash.length = 20 * d.nchunks
  filled : d.file.length = size
  kernel : ∀ k < size ⌈/⌉ chunkSize, kernelPos k = k * chunkSize
  hash : ∀ k < size ⌈/⌉ chunkSize, hashPos k = k * chunkSize
  transfer : ∀ k < size ⌈/⌉ chunkSize, transferPos (toStr k) = k * chunkSize

/-- Where the size comes back as the uploader has sent it, all is right just if it is an `int`. -/
theorem sized_iff {sha1 : Str → Digest} {F group name path output : Str} {d : Download}
    (hstart : downloadFile group name path (getFileHash sha1 (some F)).1 output = some d)
    (hsize : (split output ' ').getLast? = some (toStr (getFileHash sha1 (some F)).2)) :
    d.Sized F.length ↔ F.length < 2 ^ 31 := by
  have hd : d.filemeta.hash = (getFileHash sha1 (some F)).1 ∧
      d.filemeta.size = toStr F.length ∧ d.file = filler (toStr F.length) := by
    rw [getFileHash_some] at hsize
    rw [downloadFile] at hstart
    split_ifs at hstart
    cases hstart
    simp only [hsize, Option.getD_some, and_self]
  obtain ⟨hhash, hfield, hfile⟩ := hd
  constructor
  · intro h
    have hlt := length_filler_lt (toStr F.length)
    rwa [← hfile, h.filled] at hlt
  · intro hlt
    have htasks : d.nchunks = F.length ⌈/⌉ chunkSize := by
      rw [nchunks, hfield, nchunks_toStr hlt]
    have hpos : ∀ k < F.length ⌈/⌉ chunkSize, k * chunkSize < 2 ^ 31 :=
      fun k hk => mul_chunkSize_lt (by omega) hk
    refine ⟨htasks, ?_, ?_, fun k hk => chunkPos_natCast (hpos k hk),
      fun k hk => chunkPos_natCast (hpos k hk), fun k hk => ?_⟩
    · rw [hhash, htasks, length_getFileHash]
    · rw [hfile, length_filler_toStr hlt]
    · have hint : k < 2 ^ 31 := by
        have hk' := hpos k hk
        rw [chunkSize] at hk'
        omega
      rw [transferPos, atoi_toStr hint, chunkPos_natCast (hpos k hk)]

end Download

lemma getFileHash_ne_nil (sha1 : Str → Digest) {F : Str} (hF : F ≠ []) :
    (getFileHash sha1 (some F)).1 ≠ [] := by
  have hpos := List.length_pos_of_ne_nil hF
  have hspec := (ceilDiv_spec F.length).1
  apply List.ne_nil_of_length_pos
  rw [length_getFileHash]
  rw [chunkSize] at hspec ⊢
  omega

theorem sized_iff_oneByte : ∃ d, downloadFile "g".toList "f".toList "/d".toList
      (getFileHash oneByteDigest (some ['a'])).1 "s 1".toList = some d ∧
    (d.Sized ['a'].length ↔ ['a'].length < 2 ^ 31) := by
  have hhash := getFileHash_ne_nil oneByteDigest (F := ['a']) (by decide)
  refine ⟨_, (if_neg hhash).trans (if_neg (by decide)), Download.sized_iff
    ((if_neg hhash).trans (if_neg (by decide))) ?_⟩
  rw [getFileHash_some]
  decide

/-- A file of two gigabytes: the downloader takes the size to be negative. -/
theorem two_gigabytes_not_sized : ∃ (F output : Str) (d : Download), F.length = 2 ^ 31 ∧
    downloadFile "g".toList "f".toList "/d".toList (getFileHash oneByteDigest (some F)).1 output =
      some d ∧
    (split output ' ').getLast? = some (toStr (getFileHash oneByteDigest (some F)).2) ∧
    d.nchunks = 0 ∧ d.file = [] ∧ ¬ d.Sized F.length := by
  obtain ⟨F, hF⟩ : ∃ F : Str, F.length = 2 ^ 31 := ⟨List.replicate (2 ^ 31) 'a',
    List.length_replicate⟩
  have hne : F ≠ [] := List.ne_nil_of_length_pos (by omega)
  have hhash := getFileHash_ne_nil oneByteDigest hne
  have hfile : filler ((split "s 2147483648".toList ' ').getLast?.getD []) = [] := by decide
  refine ⟨F, "s 2147483648".toList, _, hF, (if_neg hhash).trans (if_neg (by decide)), ?_, ?_,
    hfile, fun h => ?_⟩
  · rw [getFileHash_some, hF]
    show (split "s 2147483648".toList ' ').getLast? = some (toStr (2 ^ 31))
    decide
  · show nchunks ((split "s 2147483648".toList ' ').getLast?.getD []) = 0
    decide
  · have hlength := (congrArg List.length hfile).symm.trans h.filled
    rw [hF] at hlength
    cases hlength

end TorrentShare
