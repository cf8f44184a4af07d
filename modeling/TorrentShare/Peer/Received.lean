import TorrentShare.Peer.ChunkNumbers
import TorrentShare.Peer.Verified

/-!
# Received chunks

`TransferFunction` and the loop of `DownloadKernel` count down separately: the sender until it has
sent more than a chunk, the receiver until it has written a chunk. What is read last is written
whole, or dropped.
-/

namespace TorrentShare

open Program

/-- Where `fseek` goes for chunk `n`: the product is an `int`, and a negative position leaves the
    file at its beginning. -/
def seek (n : ℤ) : ℕ := ((n * chunkSize).bmod (2 ^ 32)).toNat

/-- `TransferFunction`, from the field of the request that names the chunk. -/
def transferChunk (s : Str) (field : Str) : Str :=
  transferLoop (chunkSize + 1) (s.drop (seek (atoi field)))

/-- The loop of `DownloadKernel`, on the results of `recv`: what is in the file at its end. -/
def receiveLoop (fs : Str) (pos : ℕ) (file_size : ℤ) : List Str → Str
  | []                => fs
  | output :: outputs =>
    if output ≠ [] ∧ 0 < file_size then
      receiveLoop (overwrite '\x00' fs pos output) (pos + output.length)
        (file_size - output.length) outputs
    else fs

/-- What `DownloadKernel` makes of its destination from `fopen` to `fclose`. -/
def receiveChunk (fs : Str) (k : ℕ) (outputs : List Str) : Str :=
  receiveLoop fs (seek k) chunkSize outputs

/-! ### The sender -/

/-- The product of a chunk number and the size of a chunk, as an `int`. -/
def chunkPos (n : ℤ) : ℤ := (n * chunkSize).bmod (2 ^ 32)

lemma seek_eq_toNat (n : ℤ) : seek n = (chunkPos n).toNat := rfl

/-- Positions below two gigabytes are computed right. -/
lemma chunkPos_natCast {k : ℕ} (h : k * chunkSize < 2 ^ 31) : chunkPos k = k * chunkSize := by
  have hprod : ((k : ℤ) * chunkSize) = ((k * chunkSize : ℕ) : ℤ) := (Nat.cast_mul k chunkSize).symm
  rw [chunkPos, hprod, Int.bmod_eq_of_le_mul_two (by omega) (by omega)]

lemma seek_natCast {k : ℕ} (h : k * chunkSize < 2 ^ 31) : seek k = k * chunkSize := by
  rw [seek_eq_toNat, chunkPos_natCast h, ← Nat.cast_mul, Int.toNat_natCast]

/-- The sender looks where the receiver wants it to. -/
lemma transferChunk_toStr (s : Str) {k : ℕ} (h : k * chunkSize < 2 ^ 31) :
    transferChunk s (toStr k) = transferFunction s k := by
  have hint : k < 2 ^ 31 := by
    rw [chunkSize] at h
    omega
  rw [transferChunk, atoi_toStr hint, seek_natCast h, transferFunction]

/-- The sender stops at the end of the file, or when it has sent `total`. -/
lemma le_length_transferLoop (total : ℤ) (s : Str) :
    transferLoop total s = s ∨ total ≤ (transferLoop total s).length := by
  fun_induction transferLoop total s with
  | case1 total s hend =>
    rcases hend with rfl | htotal
    · exact Or.inl rfl
    · exact Or.inr (by simpa using htotal)
  | case2 total s hend data ih =>
    rcases ih with hall | henough
    · left
      rw [hall, List.take_append_drop]
    · right
      rw [List.length_append]
      omega

/-! ### The receiver -/

section Receiver

variable {fs : Str} {pos : ℕ}

lemma le_length_overwrite (a : Str) (h : pos ≤ fs.length) :
    pos + a.length ≤ (overwrite '\x00' fs pos a).length := by
  rw [length_overwrite h]
  exact le_max_right _ _

/-- Writing on is writing everything at once. -/
lemma overwrite_overwrite (a b : Str) (h : pos ≤ fs.length) :
    overwrite '\x00' (overwrite '\x00' fs pos a) (pos + a.length) b =
      overwrite '\x00' fs pos (a ++ b) := by
  apply List.ext_getElem?
  intro i
  rw [getElem?_overwrite (le_length_overwrite a h), getElem?_overwrite h, getElem?_overwrite h,
    List.length_append, List.getElem?_append]
  split_ifs <;> first | rfl | omega | (congr 1; omega)

lemma overwrite_nil (h : pos ≤ fs.length) : overwrite '\x00' fs pos [] = fs := by
  apply List.ext_getElem?
  intro i
  rw [getElem?_overwrite h, List.length_nil]
  split_ifs <;> first | rfl | omega

/-- The receiver writes a beginning of the stream: all of it, or at least as much as it wants. -/
lemma receiveLoop_eq (file_size : ℤ) {outputs : List Str} (h : pos ≤ fs.length)
    (hne : ∀ output ∈ outputs, output ≠ []) : ∃ got, got <+: outputs.flatten ∧
      receiveLoop fs pos file_size outputs = overwrite '\x00' fs pos got ∧
      (got = outputs.flatten ∨ file_size ≤ got.length) := by
  induction outputs generalizing fs pos file_size with
  | nil => exact ⟨[], List.nil_prefix, (overwrite_nil h).symm, Or.inl rfl⟩
  | cons output outputs ih =>
    rw [receiveLoop, List.flatten_cons]
    split_ifs with hgo
    · obtain ⟨got, hpart, hfile, hend⟩ := ih (file_size - output.length)
        (le_length_overwrite output h) fun o ho => hne o (List.mem_cons_of_mem _ ho)
      refine ⟨output ++ got, (List.prefix_append_right_inj output).mpr hpart, ?_, ?_⟩
      · rw [hfile, overwrite_overwrite output got h]
      · rcases hend with rfl | hend
        · exact Or.inl rfl
        · right
          rw [List.length_append]
          omega
    · refine ⟨[], List.nil_prefix, (overwrite_nil h).symm, Or.inr ?_⟩
      have hfull : ¬ 0 < file_size := fun hpos => hgo ⟨hne _ List.mem_cons_self, hpos⟩
      simpa using hfull

end Receiver

/-- The loop is what a thread of a download does that writes each block as it comes. -/
lemma Download.receive_runs {sha1 : Str → List (Fin 256)} {d : Download} {k x a : ℕ} {got : Str}
    {outputs : List Str} (ht : d.threads[k]? = some (.receiving x a got got.length))
    (hparts : ∀ output ∈ outputs, 1 ≤ output.length ∧ output.length ≤ smallChunkSize) :
    ∃ got', Machine.RunsWhen (step sha1) (fun _ _ => True) d { d with
      threads := d.threads.set k (.receiving x a got' got'.length)
      file := receiveLoop d.file (k * chunkSize + got.length) (chunkSize - got.length)
        outputs } := by
  induction outputs generalizing d got with
  | nil =>
    obtain ⟨hlt, hthread⟩ := List.getElem?_eq_some_iff.mp ht
    refine ⟨got, ?_⟩
    rw [receiveLoop, ← hthread, List.set_getElem_self]
  | cons output outputs ih =>
    obtain ⟨hlow, hhigh⟩ := hparts output List.mem_cons_self
    rw [receiveLoop]
    split_ifs with hgo
    · have hlt := (List.getElem?_eq_some_iff.mp ht).1
      have hroom : got.length < chunkSize := by omega
      let d₁ : Download :=
        { d with threads := d.threads.set k (.receiving x a (got ++ output) got.length) }
      have hrecv : d.step sha1 (.kernel k (.recv output)) = some d₁ :=
        kernel_step ht (if_pos ⟨hroom, hgo.1, hhigh⟩)
      have hwrite : d₁.step sha1 (.kernel k (.write output.length)) = some { d₁ with
          threads := d₁.threads.set k
            (.receiving x a (got ++ output) (got.length + output.length))
          file := d₁.written k (got ++ output) got.length output.length } :=
        kernel_step (List.getElem?_set_self hlt) (if_pos (by rw [List.length_append]))
      have hdata : ((got ++ output).drop got.length).take output.length = output := by
        rw [List.drop_left, List.take_length]
      rw [written, hdata, List.set_set, ← List.length_append] at hwrite
      obtain ⟨got', hrest⟩ := ih (d := { d₁ with
          threads := d.threads.set k (.receiving x a (got ++ output) (got ++ output).length)
          file := overwrite '\x00' d₁.file (k * chunkSize + got.length) output })
        (List.getElem?_set_self hlt) fun o ho => hparts o (List.mem_cons_of_mem _ ho)
      have hpos : k * chunkSize + (got ++ output).length =
          k * chunkSize + got.length + output.length := by
        rw [List.length_append, Nat.add_assoc]
      have hleft : (chunkSize : ℤ) - (got ++ output).length =
          chunkSize - got.length - output.length := by
        rw [List.length_append]
        omega
      rw [List.set_set, hpos, hleft] at hrest
      exact ⟨got', .head ⟨_, trivial, hrecv⟩ (.head ⟨_, trivial, hwrite⟩ hrest)⟩
    · obtain ⟨hlt, hthread⟩ := List.getElem?_eq_some_iff.mp ht
      refine ⟨got, ?_⟩
      rw [← hthread, List.set_getElem_self]

/-- After a pass in which everything arrives, in parts of any sizes, the chunk is the one of the
    file, other bytes are as before or as in the file, and the length has not changed. -/
theorem received_chunk_right {F dest : Str} {k : ℕ} {outputs : List Str}
    (hk : k * chunkSize < F.length) (hF : F.length ≤ 2 ^ 31 - 1) (hdest : dest.length = F.length)
    (hparts : ∀ output ∈ outputs, 1 ≤ output.length ∧ output.length ≤ smallChunkSize)
    (hall : outputs.flatten = transferChunk F (toStr k)) :
    (∀ i, k * chunkSize ≤ i → i < min ((k + 1) * chunkSize) F.length →
      (receiveChunk dest k outputs)[i]? = F[i]?) ∧
    (∀ i, i < k * chunkSize ∨ min ((k + 1) * chunkSize) F.length ≤ i →
      (receiveChunk dest k outputs)[i]? = dest[i]? ∨ (receiveChunk dest k outputs)[i]? = F[i]?) ∧
    (receiveChunk dest k outputs).length = F.length := by
  have hsmall : k * chunkSize < 2 ^ 31 := by omega
  have hpos : k * chunkSize ≤ dest.length := by omega
  have hsucc : (k + 1) * chunkSize = k * chunkSize + chunkSize := Nat.succ_mul k chunkSize
  have hne : ∀ output ∈ outputs, output ≠ [] :=
    fun output ho => List.ne_nil_of_length_pos (hparts output ho).1
  rw [transferChunk_toStr F hsmall] at hall
  obtain ⟨got, hpart, hfile, hend⟩ := receiveLoop_eq chunkSize hpos hne
  rw [hall] at hpart hend
  -- what is written is a part of the file from the chunk on
  have hcopy := hpart.trans (transferFunction_part F k)
  have hbyte : ∀ i, k * chunkSize ≤ i → i < k * chunkSize + got.length →
      got[i - k * chunkSize]? = F[i]? := by
    intro i hi hlt
    obtain ⟨rest, hrest⟩ := hcopy
    have hindex : k * chunkSize + (i - k * chunkSize) = i := by omega
    rw [← hindex, ← List.getElem?_drop, ← hrest, List.getElem?_append_left (by omega), hindex]
  have hfits : k * chunkSize + got.length ≤ F.length := by
    have hle := hcopy.length_le
    rw [List.length_drop] at hle
    omega
  have henough : min ((k + 1) * chunkSize) F.length ≤ k * chunkSize + got.length := by
    rcases hend with rfl | hend
    · rcases le_length_transferLoop (chunkSize + 1) (F.drop (k * chunkSize)) with hsent | hsent
      · rw [transferFunction, hsent, List.length_drop]
        omega
      · rw [transferFunction]
        omega
    · omega
  rw [receiveChunk, seek_natCast hsmall, hfile]
  refine ⟨fun i hlow hhigh => ?_, fun i hout => ?_, ?_⟩
  · rw [getElem?_overwrite hpos, if_neg (by omega), if_pos (by omega)]
    exact hbyte i hlow (by omega)
  · rw [getElem?_overwrite hpos]
    split_ifs with hbefore hin
    · exact Or.inl rfl
    · exact Or.inr (hbyte i (by omega) hin)
    · exact Or.inl rfl
  · rw [length_overwrite hpos, hdest, max_eq_left hfits]

theorem received_chunk_right_oneByte :
    (∀ i, 0 * chunkSize ≤ i → i < min ((0 + 1) * chunkSize) ['a'].length →
      (receiveChunk ['5'] 0 [['a']])[i]? = ['a'][i]?) ∧
    (∀ i, i < 0 * chunkSize ∨ min ((0 + 1) * chunkSize) ['a'].length ≤ i →
      (receiveChunk ['5'] 0 [['a']])[i]? = ['5'][i]? ∨
        (receiveChunk ['5'] 0 [['a']])[i]? = ['a'][i]?) ∧
    (receiveChunk ['5'] 0 [['a']]).length = ['a'].length := by
  have hsent : transferChunk ['a'] (toStr 0) = ['a'] := by
    rw [transferChunk_toStr _ (by decide)]
    exact transferLoop_eq_self (by decide)
  exact received_chunk_right (by decide) (by decide) rfl (by decide) hsent.symm

end TorrentShare
