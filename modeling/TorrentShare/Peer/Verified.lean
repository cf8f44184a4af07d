import TorrentShare.Peer.Completion

/-!
# Verified chunks

`TransferFunction` offers up to 1024 bytes more than a chunk, and `DownloadKernel` writes them. They
belong to the next chunk, and a seeder that has a partial copy may have only `5` there.
-/

namespace TorrentShare

open Program

/-! ### What a seeder sends -/

/-- The loop of `TransferFunction`: blocks of 1024 bytes until `total` is used up. -/
def transferLoop (total : ℤ) (s : Str) : Str :=
  if s = [] ∨ total ≤ 0 then []
  else
    let data := s.take smallChunkSize
    data ++ transferLoop (total - data.length) (s.drop smallChunkSize)
termination_by s.length
decreasing_by
  rename_i h
  have hpos := List.length_pos_of_ne_nil (not_or.mp h).1
  rw [List.length_drop, smallChunkSize]
  omega

/-- `TransferFunction`: what is sent of chunk `k` of a file. -/
def transferFunction (s : Str) (k : ℕ) : Str :=
  transferLoop (chunkSize + 1) (s.drop (k * chunkSize))

lemma transferLoop_part (total : ℤ) (s : Str) : transferLoop total s <+: s := by
  fun_induction transferLoop total s with
  | case1 => exact List.nil_prefix
  | case2 total s h data ih =>
    have hall := (List.prefix_append_right_inj data).mpr ih
    rw [List.take_append_drop] at hall
    exact hall

/-- Where there is no more than `total`, everything is sent. -/
lemma transferLoop_eq_self {total : ℤ} {s : Str} (h : s.length ≤ total) :
    transferLoop total s = s := by
  fun_induction transferLoop total s with
  | case1 total s hend =>
    rcases hend with rfl | htotal
    · rfl
    · exact (List.eq_nil_of_length_eq_zero (by omega)).symm
  | case2 total s hend data ih =>
    have hrest : ((s.drop smallChunkSize).length : ℤ) ≤ total - data.length := by
      have hsum : data.length + (s.drop smallChunkSize).length = s.length := by
        rw [← List.length_append, List.take_append_drop]
      omega
    rw [ih hrest, List.take_append_drop]

/-- Only bytes of the file from the beginning of the chunk are sent. -/
lemma transferFunction_part (s : Str) (k : ℕ) : transferFunction s k <+: s.drop (k * chunkSize) :=
  transferLoop_part _ _

/-- A copy whose missing chunks are filled with `5`. -/
structure PartialCopy (F s : Str) : Prop where
  length_eq : s.length = F.length
  chunks : ∀ k, chunk k s = chunk k F ∨ chunk k s = List.replicate (chunk k F).length '5'

namespace Download

/-! ### Verified chunks -/

/-- What a thread writes behind its chunk is there already, if the chunk there is verified. -/
def Unchanged (d : Download) : Event → Prop
  | .kernel k (.write n) => ∀ x a got w t, d.threads[k]? = some (.receiving x a got w) →
      d.threads[k + 1]? = some t → t.verified = true →
        (d.written k got w n).drop ((k + 1) * chunkSize) = d.file.drop ((k + 1) * chunkSize)
  | _ => True

/-- The chunks of the threads that have verified theirs are as expected. -/
structure Checked (sha1 : Str → List (Fin 256)) (d : Download) : Prop where
  regular : d.Regular
  placed : d.Placed
  verified : ∀ (k : ℕ) (t : Kernel), d.threads[k]? = some t → t.verified = true →
    getFileHashsmall sha1 d.file k d.filemeta.hash = some true

section Step

variable {sha1 : Str → List (Fin 256)} {d d' : Download} {k : ℕ} {e : Event}

/-- The chunk of a thread that has verified it is as expected. -/
lemma Moves.verified {e : Kernel.Event} {t t' : Kernel} {s : Str} (h : Moves sha1 d k e t t' s)
    (hd : d.Checked sha1) (ht : d.threads[k]? = some t) (ht' : t'.verified = true) :
    getFileHashsmall sha1 s k d.filemeta.hash = some true := by
  cases h with
  | accept x a hsha => exact hsha
  | push => exact hd.verified k _ ht rfl
  | _ => cases ht'

/-- The verified chunks of the other threads stay. -/
lemma Moves.chunk_verified {e : Kernel.Event} {t t' : Kernel} {s : Str}
    (h : Moves sha1 d k e t t' s) (hd : d.Checked sha1) (ht : d.threads[k]? = some t)
    (hc : d.Unchanged (.kernel k e)) {j : ℕ} {u : Kernel} (hj : j ≠ k)
    (hu : d.threads[j]? = some u) (hverified : u.verified = true) :
    chunk j s = chunk j d.file := by
  cases h with
  | write x a got w n hle =>
    apply chunk_written hd.regular hd.placed ht hle hj
    rintro rfl
    exact hc x a got w u ht hu hverified
  | _ => rfl

/-- The step lemma. -/
lemma Checked.step (hd : d.Checked sha1) (hc : d.Unchanged e) (h : d.step sha1 e = some d') :
    d'.Checked sha1 := by
  have hregular := hd.regular.step h
  have hplaced := hd.placed.step hd.regular h
  rcases step_cases h with ⟨k, e, t, t', s, rfl, ht, hmoves, rfl⟩ | ⟨hfile, hmeta, hthreads⟩
  · refine ⟨hregular, hplaced, fun j u hj hu => ?_⟩
    rcases getElem?_set_cases hj with ⟨rfl, heq⟩ | ⟨hne, hj⟩
    · subst heq
      exact hmoves.verified hd ht hu
    · have hchunk := hmoves.chunk_verified hd ht hc hne hj hu
      exact (getFileHashsmall_congr _ hchunk).trans (hd.verified j u hj hu)
  · refine ⟨hregular, hplaced, fun j u hj hu => ?_⟩
    rw [hfile, hmeta]
    rcases hthreads j u hj with hj | ⟨x, rfl⟩
    · exact hd.verified j u hj hu
    · cases hu

end Step

lemma checked_of_downloadFile {sha1 : Str → List (Fin 256)}
    {group name path filehash output : Str} {d : Download}
    (h : downloadFile group name path filehash output = some d) : d.Checked sha1 := by
  refine ⟨regular_of_downloadFile h, placed_of_downloadFile h, ?_⟩
  obtain ⟨size, seeders, rfl⟩ := eq_of_downloadFile h
  simp

/-! ### Runs with seeders -/

/-- What a thread receives is what its seeder sends, cut anywhere. -/
def FromSeeders (held : ℕ → Str) (d : Download) : Event → Prop
  | .kernel k (.recv output) => ∀ x a got w, d.threads[k]? = some (.receiving x a got w) →
      got ++ output <+: transferFunction (held x) k
  | _ => True

/-- No thread writes bytes behind its chunk, where the chunk there is verified, that come from a
    seeder who has something else in that chunk. -/
def Unspoiled (held : ℕ → Str) (d : Download) : Event → Prop
  | .kernel k (.write n) => ∀ x a got w t, d.threads[k]? = some (.receiving x a got w) →
      chunkSize < w + n → d.threads[k + 1]? = some t → t.verified = true →
        chunk (k + 1) (held x) = chunk (k + 1) d.file
  | _ => True

/-- What a thread has received is a part of what its seeder sends of its copy of `F`. -/
structure Fed (held : ℕ → Str) (F : Str) (d : Download) : Prop where
  whole : d.file.length = F.length
  streamed : ∀ (k x a : ℕ) (got : Str) (w : ℕ), d.threads[k]? = some (.receiving x a got w) →
    got <+: transferFunction (held x) k

section Step

variable {sha1 : Str → List (Fin 256)} {held : ℕ → Str} {F : Str} {d d' : Download} {k : ℕ}
  {e : Event}

/-- What a thread has received fits into the file. -/
lemma Fed.fits (hf : d.Fed held F) (hd : d.Checked sha1)
    (hheld : ∀ x, (held x).length = F.length) {x a : ℕ} {got : Str} {w : ℕ}
    (ht : d.threads[k]? = some (.receiving x a got w)) :
    k * chunkSize + got.length ≤ d.file.length := by
  have hle := ((hf.streamed k x a got w ht).trans (transferFunction_part _ k)).length_le
  have hbegin := hd.placed.le_length hd.regular ht
  have hwhole := hf.whole
  rw [List.length_drop, hheld] at hle
  omega

/-- Bytes behind the chunk that are the same as those there change nothing. -/
lemma drop_written {s got : Str} {w n : ℕ} (hpos : k * chunkSize + w ≤ d.file.length)
    (hle : w + n ≤ got.length) (hgot : got.length < chunkSize + smallChunkSize)
    (hpart : got <+: s.drop (k * chunkSize))
    (hnext : chunkSize < w + n → chunk (k + 1) s = chunk (k + 1) d.file) :
    (d.written k got w n).drop ((k + 1) * chunkSize) = d.file.drop ((k + 1) * chunkSize) := by
  have hsmall : smallChunkSize ≤ chunkSize := by decide
  have hsucc : (k + 1) * chunkSize = k * chunkSize + chunkSize := Nat.succ_mul k chunkSize
  have hdata : ((got.drop w).take n).length = n := by
    rw [List.length_take, List.length_drop]
    omega
  apply List.ext_getElem?
  intro i
  rw [List.getElem?_drop, List.getElem?_drop, written, getElem?_overwrite hpos, hdata]
  split_ifs with hbefore hin
  · rfl
  · -- the bytes that belong to the next chunk
    have hi : i < chunkSize := by omega
    have hindex : w + ((k + 1) * chunkSize + i - (k * chunkSize + w)) = chunkSize + i := by omega
    have hgot' : got[chunkSize + i]? = (s.drop (k * chunkSize))[chunkSize + i]? := by
      obtain ⟨rest, hrest⟩ := hpart
      rw [← hrest, List.getElem?_append_left (by omega)]
    calc
      ((got.drop w).take n)[(k + 1) * chunkSize + i - (k * chunkSize + w)]?
          = got[chunkSize + i]? := by
        rw [List.getElem?_take_of_lt (by omega), List.getElem?_drop, hindex]
      _ = s[(k + 1) * chunkSize + i]? := by
        rw [hgot', List.getElem?_drop, hsucc, Nat.add_assoc]
      _ = d.file[(k + 1) * chunkSize + i]? := by
        rw [← getElem?_chunk hi, hnext (by omega), getElem?_chunk hi]
  · rfl

/-- Surplus from a seeder who has in the next chunk what is there changes nothing. -/
lemma Unspoiled.unchanged (hun : d.Unspoiled held e) (hf : d.Fed held F) (hd : d.Checked sha1)
    (h : d.step sha1 e = some d') : d.Unchanged e := by
  cases e with
  | kernel k e =>
    obtain ⟨t, t', s, ht, hmoves, -⟩ := step_kernel h
    cases kernelStep_moves hmoves with
    | write x a got w n hle =>
      intro x' a' got' w' u ht' hu hverified
      cases ht.symm.trans ht'
      apply drop_written (hd.placed.reached k x a got w ht) hle
        (hd.regular.received k x a got w ht).1
        ((hf.streamed k x a got w ht).trans (transferFunction_part _ k))
      intro hsurplus
      exact hun x a got w u ht hsurplus hu hverified
    | _ => trivial
  | _ => trivial

/-- The destination keeps its length. -/
lemma Moves.whole {e : Kernel.Event} {t t' : Kernel} {s : Str} (h : Moves sha1 d k e t t' s)
    (hf : d.Fed held F) (hd : d.Checked sha1) (hheld : ∀ x, (held x).length = F.length)
    (ht : d.threads[k]? = some t) : s.length = F.length := by
  cases h with
  | write x a got w n hle =>
    have hfits := hf.fits hd hheld ht
    rw [length_written (hd.placed.reached k x a got w ht) hle, max_eq_left (by omega)]
    exact hf.whole
  | _ => exact hf.whole

/-- What has been received is a part of what is sent. -/
lemma Moves.streamed {e : Kernel.Event} {t t' : Kernel} {s : Str} (h : Moves sha1 d k e t t' s)
    (hf : d.Fed held F) (ht : d.threads[k]? = some t)
    (hfrom : d.FromSeeders held (.kernel k e)) {x a : ℕ} {got : Str} {w : ℕ}
    (ht' : t' = .receiving x a got w) : got <+: transferFunction (held x) k := by
  cases h with
  | connect =>
    cases ht'
    exact List.nil_prefix
  | recv x a got w output =>
    cases ht'
    exact hfrom x a got w ht
  | write x a got w =>
    cases ht'
    exact hf.streamed k x a got w ht
  | _ => cases ht'

lemma Fed.step (hf : d.Fed held F) (hd : d.Checked sha1)
    (hheld : ∀ x, (held x).length = F.length) (hfrom : d.FromSeeders held e)
    (h : d.step sha1 e = some d') : d'.Fed held F := by
  rcases step_cases h with ⟨k, e, t, t', s, rfl, ht, hmoves, rfl⟩ | ⟨hfile, -, hthreads⟩
  · refine ⟨hmoves.whole hf hd hheld ht, fun j x a got w hj => ?_⟩
    rcases getElem?_set_cases hj with ⟨rfl, heq⟩ | ⟨-, hj⟩
    · exact hmoves.streamed hf ht hfrom heq.symm
    · exact hf.streamed j x a got w hj
  · refine ⟨hfile ▸ hf.whole, fun j x a got w hj => ?_⟩
    rcases hthreads j _ hj with hj | ⟨x, hj⟩
    · exact hf.streamed j _ a got w hj
    · cases hj

/-- A chunk that has been pushed stays in the map. -/
lemma step_pushed (h : d.step sha1 e = some d') (hk : d.threads[k]? = some .pushed) :
    d'.threads[k]? = some .pushed := by
  cases e with
  | create x =>
    rw [Download.step] at h
    split_ifs at h
    cases h
    have hlt := (List.getElem?_eq_some_iff.mp hk).1
    rw [List.getElem?_append_left hlt]
    exact hk
  | kernel j e =>
    obtain ⟨t, t', s, ht, hmoves, rfl⟩ := step_kernel h
    have hne : j ≠ k := by
      rintro rfl
      have hreturned := (kernelStep_moves hmoves).not_returned
      cases ht.symm.trans hk
      cases hreturned
    rw [List.getElem?_set_ne hne]
    exact hk
  | _ =>
    rw [Download.step] at h
    split_ifs at h
    cases h
    exact hk

lemma step_push (h : d.step sha1 (.kernel k .push) = some d') : d'.threads[k]? = some .pushed := by
  obtain ⟨t, t', s, ht, hmoves, rfl⟩ := step_kernel h
  cases kernelStep_moves hmoves with
  | push => exact List.getElem?_set_self (List.getElem?_eq_some_iff.mp ht).1

end Step

lemma fed_of_downloadFile {group name path filehash output : Str} {held : ℕ → Str} {F : Str}
    {d : Download} (h : downloadFile group name path filehash output = some d)
    (hsize : atoi d.filemeta.size = F.length) : d.Fed held F := by
  obtain ⟨size, seeders, rfl⟩ := eq_of_downloadFile h
  constructor
  · rw [filler, List.length_replicate, hsize, Int.toNat_natCast]
  · simp

end Download

open Download in
/-- Where no surplus comes from a seeder who has something else in the next chunk, the bytes of a
    chunk keep the expected hash from the time it is pushed. -/
theorem verified_chunks_stay {sha1 : Str → List (Fin 256)}
    {group name path filehash output F : Str} {held : ℕ → Str} {d₀ d d' : Download} {k : ℕ}
    (hstart : downloadFile group name path filehash output = some d₀)
    (hsize : atoi d₀.filemeta.size = F.length) (hheld : ∀ x, PartialCopy F (held x))
    (hrun : Machine.RunsWhen (step sha1) (fun d e => d.FromSeeders held e ∧ d.Unspoiled held e)
      d₀ d)
    (hpushed : d.threads[k]? = some .pushed)
    (hlater : Machine.RunsWhen (step sha1) (fun d e => d.FromSeeders held e ∧ d.Unspoiled held e)
      d d') :
    piece sha1 ((d'.file.drop (k * chunkSize)).take
      (min ((k + 1) * chunkSize) F.length - k * chunkSize)) =
        (filehash.drop (k * 20)).take 20 := by
  have hlength : ∀ x, (held x).length = F.length := fun x => (hheld x).length_eq
  obtain ⟨hchecked, hfed, hmeta⟩ :
      d'.Checked sha1 ∧ d'.Fed held F ∧ d'.filemeta = d₀.filemeta := by
    refine Machine.RunsWhen.invariant
      (P := fun d => d.Checked sha1 ∧ d.Fed held F ∧ d.filemeta = d₀.filemeta)
      (hrun.trans hlater) ?_
      ⟨checked_of_downloadFile hstart, fed_of_downloadFile hstart hsize, rfl⟩
    rintro d e d' ⟨hchecked, hfed, hmeta⟩ ⟨hfrom, hun⟩ hstep
    exact ⟨hchecked.step (hun.unchanged hfed hchecked hstep) hstep,
      hfed.step hchecked hlength hfrom hstep, (step_filemeta hstep).trans hmeta⟩
  have hstill : d'.threads[k]? = some .pushed :=
    hlater.invariant (P := fun d => d.threads[k]? = some .pushed)
      (fun _ _ _ hk _ hstep => step_pushed hstep hk) hpushed
  have hexpected : d'.filemeta.hash = filehash := by
    rw [hmeta]
    exact hash_of_downloadFile hstart
  have hsha := (getFileHashsmall_iff.mp (hchecked.verified k _ hstill rfl)).2
  rw [hexpected, chunk_eq_take, hfed.whole] at hsha
  exact hsha

/-! ### A file of one byte -/

/-- Every seeder has the file. -/
def heldByte (_ : ℕ) : Str := ['a']

lemma transferFunction_heldByte (x : ℕ) : transferFunction (heldByte x) 0 = ['a'] := by
  rw [transferFunction, heldByte]
  apply transferLoop_eq_self
  decide

open Download in
/-- The conditions on a run as a test, where `a` is sent and only the first thread writes. -/
def testOneByte (d : Download) : Event → Bool
  | .kernel k (.recv output) =>
    match d.threads[k]? with
    | some (.receiving _ _ got _) => decide (k = 0 ∧ got ++ output = ['a'])
    | _ => true
  | .kernel k (.write _) => decide (d.threads[k + 1]? = none)
  | _ => true

open Download in
lemma ok_of_testOneByte {d : Download} {e : Event} (h : testOneByte d e = true) :
    d.FromSeeders heldByte e ∧ d.Unspoiled heldByte e := by
  cases e with
  | kernel k e =>
    cases e with
    | recv output =>
      refine ⟨fun x a got w ht => ?_, trivial⟩
      rw [testOneByte, ht] at h
      obtain ⟨rfl, hgot⟩ := of_decide_eq_true h
      rw [hgot]
      exact (transferFunction_heldByte x).symm ▸ List.prefix_refl _
    | write n =>
      refine ⟨trivial, fun x a got w t _ _ ht => ?_⟩
      rw [testOneByte] at h
      cases (of_decide_eq_true h).symm.trans ht
    | _ => exact ⟨trivial, trivial⟩
  | _ => exact ⟨trivial, trivial⟩

open Download in
theorem verified_chunks_stay_oneByte : ∃ d d' : Download,
    Machine.RunsWhen (step oneByteSha1)
        (fun d e => d.FromSeeders heldByte e ∧ d.Unspoiled heldByte e) oneByte d ∧
      d.threads[0]? = some .pushed ∧ d.step oneByteSha1 .complete = some d' ∧
      piece oneByteSha1 ((d'.file.drop (0 * chunkSize)).take
        (min ((0 + 1) * chunkSize) ['a'].length - 0 * chunkSize)) =
          ((piece oneByteSha1 ['a']).drop (0 * 20)).take 20 := by
  let events : List Event := [.create 0, .kernel 0 .connect, .kernel 0 (.recv ['a']),
    .kernel 0 (.write 1), .kernel 0 .close, .kernel 0 .updateServer, .kernel 0 .check,
    .kernel 0 .push]
  have hplayed : ((Machine.play (step oneByteSha1) testOneByte oneByte events).any fun d =>
      decide (d.threads[0]? = some .pushed) && (d.step oneByteSha1 .complete).isSome) = true := by
    decide +kernel
  obtain ⟨d, hd, hend⟩ := (Option.any_eq_true _ _).mp hplayed
  rw [Bool.and_eq_true, decide_eq_true_eq] at hend
  obtain ⟨d', hd'⟩ := Option.isSome_iff_exists.mp hend.2
  have hrun := Machine.play_runsWhen (fun _ _ h => ok_of_testOneByte h) hd
  have hwhole : ∀ x, PartialCopy ['a'] (heldByte x) := fun x => ⟨rfl, fun k => Or.inl rfl⟩
  exact ⟨d, d', hrun, hend.1, hd', verified_chunks_stay oneByte_start (by decide) hwhole hrun hend.1
    (Relation.ReflTransGen.single ⟨.complete, ⟨trivial, trivial⟩, hd'⟩)⟩

/-! ### One byte more than a chunk -/

/-- SHA-1 of `a`, of `5`, and of a chunk full of `a`. -/
def chunkSha1 (s : Str) : List (Fin 256) :=
  if s = List.replicate chunkSize 'a' then
    [247, 254, 193, 40, 215, 252, 213, 146, 34, 186, 55, 54, 141, 59, 114, 16, 212, 199, 182, 239]
  else oneByteSha1 s

lemma chunkSha1_singleton (c : Char) : chunkSha1 [c] = oneByteSha1 [c] := by
  rw [chunkSha1, if_neg]
  intro h
  have hlength := congrArg List.length h
  rw [List.length_replicate, List.length_singleton, chunkSize] at hlength
  omega

/-- A chunk full of `a`, and one byte. -/
def chunkAnd (c : Char) : Str := List.replicate chunkSize 'a' ++ [c]

lemma length_chunkAnd (c : Char) : (chunkAnd c).length = chunkSize + 1 := by
  rw [chunkAnd, List.length_append, List.length_replicate, List.length_singleton]

lemma chunk_one_append {t : Str} (ht : t.length = chunkSize) (c : Char) :
    chunk 1 (t ++ [c]) = [c] := by
  rw [chunk, Nat.one_mul, ← ht, List.drop_left, ht, chunkSize]
  rfl

lemma chunk_zero_chunkAnd (c : Char) : chunk 0 (chunkAnd c) = List.replicate chunkSize 'a' := by
  rw [chunk, Nat.zero_mul, List.drop_zero, chunkAnd, List.take_append_of_le_length (by simp),
    List.take_of_length_le (by simp)]

lemma chunk_one_chunkAnd (c : Char) : chunk 1 (chunkAnd c) = [c] :=
  chunk_one_append List.length_replicate c

lemma getFileHash2_chunkAnd (c : Char) : getFileHash2 chunkSha1 (chunkAnd c) =
    piece chunkSha1 (List.replicate chunkSize 'a') ++ piece oneByteSha1 [c] := by
  have hpos := chunkSize_pos
  rw [getFileHash2_eq chunkSha1 (n := 2) (by rw [length_chunkAnd]; omega)
    (by rw [length_chunkAnd]; omega)]
  have hrange : List.range 2 = [0, 1] := rfl
  rw [hrange, List.flatMap_cons, List.flatMap_cons, List.flatMap_nil, List.append_nil,
    chunk_zero_chunkAnd, chunk_one_chunkAnd, piece, piece, piece, chunkSha1_singleton]

/-- The second piece of that hash. -/
lemma drop_getFileHash2_chunkAnd (c : Char) :
    ((getFileHash2 chunkSha1 (chunkAnd c)).drop 20).take 20 = piece oneByteSha1 [c] := by
  have hfirst : (piece chunkSha1 (List.replicate chunkSize 'a')).length = 20 := by
    rw [piece, chunkSha1, if_pos rfl]
    rfl
  rw [getFileHash2_chunkAnd, List.drop_left' hfirst, piece, List.take_take, min_self]

/-- The second seeder lacks the second chunk. -/
def heldChunks (x : ℕ) : Str := if x = 1 then chunkAnd '5' else chunkAnd 'a'

lemma partialCopy_heldChunks (x : ℕ) : PartialCopy (chunkAnd 'a') (heldChunks x) := by
  rw [heldChunks]
  split_ifs
  · refine ⟨by rw [length_chunkAnd, length_chunkAnd], fun k => ?_⟩
    match k with
    | 0 =>
      left
      rw [chunk_zero_chunkAnd, chunk_zero_chunkAnd]
    | 1 =>
      right
      rw [chunk_one_chunkAnd, chunk_one_chunkAnd]
      rfl
    | k + 2 =>
      left
      have hbehind : ∀ c, chunk (k + 2) (chunkAnd c) = [] := by
        intro c
        have hle : 2 * chunkSize ≤ (k + 2) * chunkSize := Nat.mul_le_mul_right _ (by omega)
        have hpos := chunkSize_pos
        rw [chunk, List.drop_of_length_le (by rw [length_chunkAnd]; omega), List.take_nil]
      rw [hbehind, hbehind]
  · exact ⟨rfl, fun k => Or.inl rfl⟩

/-- What the download of that file is about. -/
def chunkAndMeta : FileData :=
  ⟨"g".toList, "f".toList, "/d".toList, getFileHash2 chunkSha1 (chunkAnd 'a'), "524289".toList,
    ["s".toList, "t".toList]⟩

/-- The download with its two threads. -/
def chunkAndRun (t₀ t₁ : Kernel) (file : Str) : Download :=
  ⟨chunkAndMeta, file, [t₀, t₁], 2, false⟩

lemma chunkAnd_start : downloadFile "g".toList "f".toList "/d".toList
    (getFileHash2 chunkSha1 (chunkAnd 'a')) "s t 524289".toList =
      some ⟨chunkAndMeta, filler "524289".toList, [], 0, false⟩ := by
  have hne : getFileHash2 chunkSha1 (chunkAnd 'a') ≠ [] := by
    rw [getFileHash2_chunkAnd]
    apply List.append_ne_nil_of_right_ne_nil
    decide
  have hsplit : split "s t 524289".toList ' ' = ["s".toList, "t".toList, "524289".toList] := by
    decide
  rw [downloadFile, if_neg hne, if_neg (by decide), hsplit]
  rfl

namespace Download

section Surplus

/-- Runs of that download with the two seeders. -/
abbrev ChunkAndRuns : Download → Download → Prop :=
  Machine.RunsWhen (step chunkSha1) (FromSeeders heldChunks)

variable {e : Kernel.Event} {t₀ t₀' t₁ t₁' : Kernel} {file file' got output : Str}

lemma chunkAnd_first (hfrom : FromSeeders heldChunks (chunkAndRun t₀ t₁ file) (.kernel 0 e))
    (h : kernelStep chunkSha1 (chunkAndRun t₀ t₁ file) 0 e t₀ = some (t₀', file')) :
    ChunkAndRuns (chunkAndRun t₀ t₁ file) (chunkAndRun t₀' t₁ file') :=
  Relation.ReflTransGen.single ⟨_, hfrom, kernel_step rfl h⟩

lemma chunkAnd_second (hfrom : FromSeeders heldChunks (chunkAndRun t₀ t₁ file) (.kernel 1 e))
    (h : kernelStep chunkSha1 (chunkAndRun t₀ t₁ file) 1 e t₁ = some (t₁', file')) :
    ChunkAndRuns (chunkAndRun t₀ t₁ file) (chunkAndRun t₀ t₁' file') :=
  Relation.ReflTransGen.single ⟨_, hfrom, kernel_step rfl h⟩

lemma chunkAnd_recv (hgot : got.length < chunkSize) (hne : output ≠ [])
    (hle : output.length ≤ smallChunkSize) (hpart : got ++ output <+: chunkAnd '5') :
    ChunkAndRuns (chunkAndRun (.receiving 1 0 got 0) t₁ file)
      (chunkAndRun (.receiving 1 0 (got ++ output) 0) t₁ file) := by
  have hall : transferFunction (heldChunks 1) 0 = chunkAnd '5' := by
    rw [transferFunction, Nat.zero_mul, List.drop_zero]
    apply transferLoop_eq_self
    exact le_of_eq (congrArg Nat.cast (length_chunkAnd '5'))
  refine chunkAnd_first (e := .recv output) ?_ (if_pos ⟨hgot, hne, hle⟩)
  intro x a got' w ht
  cases ht
  rw [hall]
  exact hpart

/-- The first thread receives `a` and blocks of `a`. -/
lemma chunkAnd_recvs {m : ℕ} (hm : m ≤ 511) :
    ChunkAndRuns (chunkAndRun (.receiving 1 0 [] 0) t₁ file)
      (chunkAndRun (.receiving 1 0 (List.replicate (1 + m * smallChunkSize) 'a') 0) t₁ file) := by
  have hpart : ∀ n ≤ chunkSize, List.replicate n 'a' <+: chunkAnd '5' := by
    intro n hn
    obtain ⟨l, hl⟩ := Nat.exists_eq_add_of_le hn
    rw [chunkAnd, hl, List.replicate_add, List.append_assoc]
    exact List.prefix_append _ _
  induction m with
  | zero =>
    exact chunkAnd_recv (by decide) (by decide) (by decide) (hpart 1 (by decide))
  | succ m ih =>
    have hchunk : chunkSize = 512 * smallChunkSize := by decide
    have hsmall : 0 < smallChunkSize := by decide
    have hlength : (List.replicate smallChunkSize 'a').length = smallChunkSize :=
      List.length_replicate
    have hblock : List.replicate (1 + (m + 1) * smallChunkSize) 'a' =
        List.replicate (1 + m * smallChunkSize) 'a' ++ List.replicate smallChunkSize 'a' := by
      rw [← List.replicate_add, Nat.succ_mul, Nat.add_assoc]
    have hle : (m + 1) * smallChunkSize ≤ 511 * smallChunkSize :=
      Nat.mul_le_mul_right smallChunkSize hm
    rw [Nat.succ_mul] at hle
    refine (ih (by omega)).trans ?_
    rw [hblock]
    refine chunkAnd_recv ?_ (List.ne_nil_of_length_pos (by omega)) (le_of_eq hlength) ?_
    · rw [List.length_replicate]
      omega
    · rw [← List.replicate_add]
      exact hpart _ (by omega)

/-- The first thread receives the whole copy of its seeder, and writes it. -/
lemma chunkAnd_spoil (hfile : file.length = chunkSize + 1) :
    ChunkAndRuns (chunkAndRun (.connecting 1 0) t₁ file)
      (chunkAndRun (.receiving 1 0 (chunkAnd '5') (chunkSize + 1)) t₁ (chunkAnd '5')) := by
  have hlast : List.replicate (1 + 511 * smallChunkSize) 'a' ++ (List.replicate 1023 'a' ++ ['5']) =
      chunkAnd '5' := by
    rw [← List.append_assoc, ← List.replicate_add]
    rfl
  have hconnect : ChunkAndRuns (chunkAndRun (.connecting 1 0) t₁ file)
      (chunkAndRun (.receiving 1 0 [] 0) t₁ file) :=
    chunkAnd_first (e := .connect) trivial rfl
  have hrecv : ChunkAndRuns
      (chunkAndRun (.receiving 1 0 (List.replicate (1 + 511 * smallChunkSize) 'a') 0) t₁ file)
      (chunkAndRun (.receiving 1 0 (chunkAnd '5') 0) t₁ file) := by
    have hlength : (List.replicate 1023 'a' ++ ['5']).length = smallChunkSize := by
      rw [List.length_append, List.length_replicate]
      rfl
    rw [← hlast]
    refine chunkAnd_recv ?_ (List.ne_nil_of_length_pos ?_) (le_of_eq hlength)
      (hlast ▸ List.prefix_refl _)
    · rw [List.length_replicate]
      decide
    · rw [hlength]
      decide
  have hwritten : (chunkAndRun (.receiving 1 0 (chunkAnd '5') 0) t₁ file).written 0 (chunkAnd '5') 0
      (chunkSize + 1) = chunkAnd '5' := by
    have hall : ((chunkAnd '5').drop 0).take (chunkSize + 1) = chunkAnd '5' :=
      List.take_of_length_le (le_of_eq (length_chunkAnd '5'))
    rw [written, hall, overwrite, length_chunkAnd]
    simp [chunkAndRun, hfile]
  have hwrite : ChunkAndRuns (chunkAndRun (.receiving 1 0 (chunkAnd '5') 0) t₁ file)
      (chunkAndRun (.receiving 1 0 (chunkAnd '5') (chunkSize + 1)) t₁ (chunkAnd '5')) := by
    refine chunkAnd_first (e := .write (chunkSize + 1)) trivial ?_
    rw [kernelStep, if_pos (by rw [length_chunkAnd]; omega), hwritten, Nat.zero_add]
  exact hconnect.trans ((chunkAnd_recvs (le_refl 511)).trans (hrecv.trans hwrite))

/-- The second thread receives its byte, and pushes its chunk. -/
lemma chunkAnd_push (hfile : file = List.replicate (chunkSize + 1) '5') :
    ChunkAndRuns (chunkAndRun t₀ (.connecting 0 0) file)
      (chunkAndRun t₀ .pushed (List.replicate chunkSize '5' ++ ['a'])) := by
  have hbyte : transferFunction (heldChunks 0) 1 = ['a'] := by
    show transferLoop (chunkSize + 1) ((chunkAnd 'a').drop (1 * chunkSize)) = ['a']
    rw [chunkAnd, Nat.one_mul, List.drop_left' List.length_replicate]
    apply transferLoop_eq_self
    decide
  have hrecv : ChunkAndRuns (chunkAndRun t₀ (.receiving 0 0 [] 0) file)
      (chunkAndRun t₀ (.receiving 0 0 ['a'] 0) file) := by
    apply chunkAnd_second (e := .recv ['a'])
    · intro x a got' w ht
      cases ht
      rw [hbyte]
      exact List.prefix_refl _
    · rw [kernelStep, if_pos ⟨by decide, by decide, by decide⟩]
      rfl
  have hwritten : (chunkAndRun t₀ (.receiving 0 0 ['a'] 0) file).written 1 ['a'] 0 1 =
      List.replicate chunkSize '5' ++ ['a'] := by
    rw [written, Nat.one_mul, overwrite]
    simp [chunkAndRun, hfile]
  have hsha : getFileHashsmall chunkSha1 (List.replicate chunkSize '5' ++ ['a']) 1
      (getFileHash2 chunkSha1 (chunkAnd 'a')) = some true := by
    have hexpected := drop_getFileHash2_chunkAnd 'a'
    have hlong : 20 ≤ (getFileHash2 chunkSha1 (chunkAnd 'a')).length := by
      by_contra hshort
      rw [List.drop_of_length_le (by omega)] at hexpected
      revert hexpected
      decide
    rw [getFileHashsmall_iff, Nat.one_mul, hexpected, chunk_one_append List.length_replicate, piece,
      chunkSha1_singleton]
    exact ⟨hlong, rfl⟩
  have hconnect : ChunkAndRuns (chunkAndRun t₀ (.connecting 0 0) file)
      (chunkAndRun t₀ (.receiving 0 0 [] 0) file) :=
    chunkAnd_second (e := .connect) trivial rfl
  have hwrite : ChunkAndRuns (chunkAndRun t₀ (.receiving 0 0 ['a'] 0) file)
      (chunkAndRun t₀ (.receiving 0 0 ['a'] 1) (List.replicate chunkSize '5' ++ ['a'])) := by
    refine chunkAnd_second (e := .write 1) trivial ?_
    rw [kernelStep, if_pos (by decide), hwritten]
  have hclose : ChunkAndRuns
      (chunkAndRun t₀ (.receiving 0 0 ['a'] 1) (List.replicate chunkSize '5' ++ ['a']))
      (chunkAndRun t₀ (.checking 0 0) (List.replicate chunkSize '5' ++ ['a'])) :=
    chunkAnd_second (e := .close) trivial rfl
  have hcheck : ChunkAndRuns
      (chunkAndRun t₀ (.checking 0 0) (List.replicate chunkSize '5' ++ ['a']))
      (chunkAndRun t₀ .accepted (List.replicate chunkSize '5' ++ ['a'])) := by
    refine chunkAnd_second (e := .check) trivial ?_
    rw [kernelStep]
    exact congrArg (Option.map _) hsha
  have hpush : ChunkAndRuns
      (chunkAndRun t₀ .accepted (List.replicate chunkSize '5' ++ ['a']))
      (chunkAndRun t₀ .pushed (List.replicate chunkSize '5' ++ ['a'])) :=
    chunkAnd_second (e := .push) trivial rfl
  exact hconnect.trans (hrecv.trans (hwrite.trans (hclose.trans (hcheck.trans hpush))))

end Surplus

end Download

open Download in
/-- The second thread has pushed its chunk. The first one then writes what its seeder has behind the
    first chunk, which is the filler. -/
theorem verified_chunk_spoiled : ∃ d₀ d d' : Download,
    downloadFile "g".toList "f".toList "/d".toList (getFileHash2 chunkSha1 (chunkAnd 'a'))
        "s t 524289".toList = some d₀ ∧
      (∀ x, PartialCopy (chunkAnd 'a') (heldChunks x)) ∧
      Machine.RunsWhen (step chunkSha1) (FromSeeders heldChunks) d₀ d ∧
      d.threads[1]? = some .pushed ∧
      Machine.RunsWhen (step chunkSha1) (FromSeeders heldChunks) d d' ∧
      piece chunkSha1 ((d'.file.drop (1 * chunkSize)).take
        (min ((1 + 1) * chunkSize) (chunkAnd 'a').length - 1 * chunkSize)) ≠
          ((getFileHash2 chunkSha1 (chunkAnd 'a')).drop (1 * 20)).take 20 := by
  have hfilled : filler "524289".toList = List.replicate (chunkSize + 1) '5' := by
    rw [filler]
    rfl
  have hcreate : ChunkAndRuns ⟨chunkAndMeta, filler "524289".toList, [], 0, false⟩
      (chunkAndRun (.connecting 1 0) (.connecting 0 0) (filler "524289".toList)) := by
    apply (Relation.ReflTransGen.single ⟨.create 1, trivial, rfl⟩).trans
    exact Relation.ReflTransGen.single ⟨.create 0, trivial, rfl⟩
  refine ⟨_, _, _, chunkAnd_start, partialCopy_heldChunks, hcreate.trans (chunkAnd_push hfilled),
    rfl, chunkAnd_spoil ?_, ?_⟩
  · rw [List.length_append, List.length_replicate]
    rfl
  · have hlength : (chunkAnd 'a').length = (chunkAnd '5').length := by
      rw [length_chunkAnd, length_chunkAnd]
    show piece chunkSha1 (((chunkAnd '5').drop (1 * chunkSize)).take _) ≠ _
    rw [hlength, ← chunk_eq_take, chunk_one_chunkAnd, drop_getFileHash2_chunkAnd, piece,
      chunkSha1_singleton]
    decide

end TorrentShare
