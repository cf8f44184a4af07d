import TorrentShare.Peer.Sizes

/-!
# Delivery

An uploader computes the hash and the size of a file, and a downloader gets both with a list of
seeders. If one of them can always be reached, and those that can be reached have the file, then the
threads deliver it, whatever their order is.
-/

namespace TorrentShare

open Program

/-! ### Bytes of the file -/

section Bytes

variable {F s got : Str} {k : ℕ}

/-- A chunk is that of the file if its bytes are. -/
lemma chunk_eq_iff : chunk k s = chunk k F ↔
    ∀ i < chunkSize, s[k * chunkSize + i]? = F[k * chunkSize + i]? := by
  constructor
  · intro h i hi
    rw [← getElem?_chunk hi, ← getElem?_chunk hi, h]
  · intro h
    apply List.ext_getElem?
    intro i
    rcases Nat.lt_or_ge i chunkSize with hi | hi
    · rw [getElem?_chunk hi, getElem?_chunk hi]
      exact h i hi
    · have hend : ∀ t : Str, (chunk k t)[i]? = none := by
        intro t
        apply List.getElem?_eq_none
        rw [chunk, List.length_take]
        omega
      rw [hend, hend]

/-- A file is made of its chunks. -/
lemma eq_of_chunks {n : ℕ} (hs : s.length ≤ n * chunkSize) (hF : F.length ≤ n * chunkSize)
    (h : ∀ k < n, chunk k s = chunk k F) : s = F := by
  apply List.ext_getElem?
  intro i
  rcases Nat.lt_or_ge i (n * chunkSize) with hi | hi
  · have hk : i / chunkSize < n := Nat.div_lt_of_lt_mul (Nat.mul_comm n chunkSize ▸ hi)
    have hbyte := chunk_eq_iff.mp (h _ hk) (i % chunkSize) (Nat.mod_lt i chunkSize_pos)
    rwa [Nat.mul_comm, Nat.div_add_mod] at hbyte
  · rw [List.getElem?_eq_none (by omega), List.getElem?_eq_none (by omega)]

/-- The bytes of a part of what is sent. -/
lemma getElem?_sent (h : got <+: transferFunction F k) {i : ℕ} (hi : i < got.length) :
    got[i]? = F[k * chunkSize + i]? := by
  obtain ⟨rest, hrest⟩ := h.trans (transferFunction_part F k)
  rw [← List.getElem?_drop, ← hrest, List.getElem?_append_left hi]

/-- What is sent does not go beyond the file. -/
lemma length_sent (h : got <+: transferFunction F k) (hk : k * chunkSize ≤ F.length) :
    k * chunkSize + got.length ≤ F.length := by
  have hle := (h.trans (transferFunction_part F k)).length_le
  rw [List.length_drop] at hle
  omega

/-- All that is sent reaches the end of the chunk or of the file. -/
lemma le_length_sent : chunkSize ≤ (transferFunction F k).length ∨
    F.length ≤ k * chunkSize + (transferFunction F k).length := by
  rw [transferFunction]
  rcases le_length_transferLoop (chunkSize + 1) (F.drop (k * chunkSize)) with hall | henough
  · right
    rw [hall, List.length_drop]
    omega
  · left
    omega

end Bytes

namespace Download

/-! ### A seeder that can be reached -/

/-- Seeder `s` does not refuse a connection, and each seeder that takes one has the file. A stream
    ends when the thread has enough, or has everything that is sent. -/
def Supplied (s : ℕ) (F : Str) (d : Download) : Event → Prop
  | .kernel k .refuse => ∀ x a, d.threads[k]? = some (.connecting x a) → x ≠ s
  | .kernel k (.recv output) => ∀ x a got w, d.threads[k]? = some (.receiving x a got w) →
      got ++ output <+: transferFunction F k
  | .kernel _ (.write n) => 0 < n
  | .kernel k .close => ∀ x a got w, d.threads[k]? = some (.receiving x a got w) →
      chunkSize ≤ got.length ∨ got = transferFunction F k
  | _ => True

/-- Of `n` seeders the thread is at `x`, after `a` others that were not `s`. -/
def Rotated (n s x a : ℕ) : Prop := ∃ x₀, x = (x₀ + a) % n ∧ ∀ j < a, (x₀ + j) % n ≠ s

/-- What holds of a thread for chunk `k`, where each reachable seeder has the file: it does not give
    up, it has received and written bytes of the file, and after that it has its chunk. -/
def Fares (n s : ℕ) (F file : Str) (k : ℕ) : Kernel → Prop
  | .connecting x a      => Rotated n s x a
  | .receiving _ _ got w => got <+: transferFunction F k ∧
      ∀ i < w, file[k * chunkSize + i]? = F[k * chunkSize + i]?
  | .gaveUp              => False
  | _                    => chunk k file = chunk k F

/-- The download is about this file, as its uploader has described it, and the threads fare well. -/
structure Delivering (sha1 : Str → Digest) (s : ℕ) (F : Str) (d : Download) : Prop where
  regular : d.Regular
  placed : d.Placed
  hash : d.filemeta.hash = (getFileHash sha1 (some F)).1
  small : F.length < 2 ^ 31
  tasks : d.nchunks = F.length ⌈/⌉ chunkSize
  listed : s < d.filemeta.seeders.length
  whole : d.file.length = F.length
  fares : ∀ (k : ℕ) (t : Kernel), d.threads[k]? = some t →
    Fares d.filemeta.seeders.length s F d.file k t
  finished : d.completed = true → d.file = F

section Rotation

variable {n s x a : ℕ}

lemma rotated_zero (hx : x < n) : Rotated n s x 0 := ⟨x, (Nat.mod_eq_of_lt hx).symm, by simp⟩

/-- Each seeder comes in the course of a round. -/
lemma exists_rotation (x₀ : ℕ) (hs : s < n) : ∃ j < n, (x₀ + j) % n = s := by
  have hpos : 0 < n := by omega
  have hlt : x₀ % n < n := Nat.mod_lt x₀ hpos
  refine ⟨(n - x₀ % n + s) % n, Nat.mod_lt _ hpos, ?_⟩
  calc
    (x₀ + (n - x₀ % n + s) % n) % n = (x₀ % n + (n - x₀ % n + s)) % n := by
      rw [Nat.add_mod_mod, Nat.mod_add_mod]
    _ = (n + s) % n := by
      congr 1
      omega
    _ = s := by rw [Nat.add_mod_left, Nat.mod_eq_of_lt hs]

lemma Rotated.lt (h : Rotated n s x a) (hs : s < n) : a < n := by
  obtain ⟨x₀, -, hothers⟩ := h
  obtain ⟨j, hj, hjs⟩ := exists_rotation x₀ hs
  have hle : ¬ j < a := fun hlt => hothers j hlt hjs
  omega

/-- A seeder that is not `s` is not the last one. -/
lemma Rotated.next (h : Rotated n s x a) (hs : s < n) (hx : x ≠ s) :
    a + 1 < n ∧ Rotated n s ((x + 1) % n) (a + 1) := by
  obtain ⟨x₀, rfl, hothers⟩ := h
  have hnext : Rotated n s (((x₀ + a) % n + 1) % n) (a + 1) := by
    refine ⟨x₀, by rw [Nat.mod_add_mod, Nat.add_assoc], fun j hj => ?_⟩
    rcases Nat.lt_succ_iff_lt_or_eq.mp hj with hlt | rfl
    · exact hothers j hlt
    · exact hx
  exact ⟨hnext.lt hs, hnext⟩

end Rotation

section Step

variable {sha1 : Str → Digest} {s n k : ℕ} {F file file' : Str} {d d' : Download} {e : Event}

/-- Bytes of the file that are there stay there. -/
lemma Fares.mono {t : Kernel} (h : Fares n s F file k t)
    (hkeep : ∀ i : ℕ, file[i]? = F[i]? → file'[i]? = F[i]?) : Fares n s F file' k t := by
  have hchunk : chunk k file = chunk k F → chunk k file' = chunk k F := by
    rw [chunk_eq_iff, chunk_eq_iff]
    exact fun hc i hi => hkeep _ (hc i hi)
  cases t with
  | connecting x a => exact h
  | receiving x a got w => exact ⟨h.1, fun i hi => hkeep _ (h.2 i hi)⟩
  | gaveUp => exact h
  | _ => exact hchunk h

/-- The bytes that a thread writes are those of the file. -/
lemma getElem?_written {got : Str} {w m : ℕ} (hpos : k * chunkSize + w ≤ d.file.length)
    (hle : w + m ≤ got.length) (hgot : got <+: transferFunction F k) (i : ℕ) :
    (d.written k got w m)[i]? =
      if k * chunkSize + w ≤ i ∧ i < k * chunkSize + (w + m) then F[i]? else d.file[i]? := by
  have hdata : ((got.drop w).take m).length = m := by
    rw [List.length_take, List.length_drop]
    omega
  rw [written, getElem?_overwrite hpos, hdata]
  by_cases hin : k * chunkSize + w ≤ i ∧ i < k * chunkSize + (w + m)
  · have hindex : w + (i - (k * chunkSize + w)) = i - k * chunkSize := by omega
    have hback : k * chunkSize + (i - k * chunkSize) = i := by omega
    rw [if_pos hin, if_neg (by omega), if_pos (by omega), List.getElem?_take_of_lt (by omega),
      List.getElem?_drop, hindex, getElem?_sent hgot (by omega), hback]
  · rw [if_neg hin]
    split_ifs <;> first | rfl | omega

/-- What a thread has done when it closes its stream. -/
lemma chunk_of_close {got : Str} (hfile : file.length = F.length)
    (hbytes : ∀ i < got.length, file[k * chunkSize + i]? = F[k * chunkSize + i]?)
    (hend : chunkSize ≤ got.length ∨ got = transferFunction F k) :
    chunk k file = chunk k F := by
  apply chunk_eq_iff.mpr
  intro i hi
  rcases Nat.lt_or_ge i got.length with hlt | hge
  · exact hbytes i hlt
  · have hover : F.length ≤ k * chunkSize + got.length := by
      rcases hend with henough | rfl
      · omega
      · have hsent := le_length_sent (F := F) (k := k)
        omega
    rw [List.getElem?_eq_none (by omega), List.getElem?_eq_none (by omega)]

/-- The chunk of the file passes the check. -/
lemma Delivering.passes (h : d.Delivering sha1 s F) {t : Kernel} (ht : d.threads[k]? = some t)
    (hchunk : chunk k d.file = chunk k F) :
    getFileHashsmall (fun s => (sha1 s).1) d.file k d.filemeta.hash = some true := by
  have hk : k < F.length ⌈/⌉ chunkSize := by
    have hlt := (List.getElem?_eq_some_iff.mp ht).1
    have hstarted := h.regular.started
    rw [h.tasks] at hstarted
    omega
  have hsmall := h.small
  rw [h.hash, ← checkChunk_eq sha1 _ _ (mul_chunkSize_lt (by omega) hk),
    checkChunk_getFileHash _ (by omega) hk, hchunk]

/-- A write of a thread leaves the length as it is, and puts bytes of the file in their places. -/
lemma Delivering.move_file (h : d.Delivering sha1 s F) {e : Kernel.Event} {t t' : Kernel}
    (hmoves : Moves (fun s => (sha1 s).1) d k e t t' file) (ht : d.threads[k]? = some t) :
    file.length = F.length ∧ ∀ i : ℕ, d.file[i]? = F[i]? → file[i]? = F[i]? := by
  cases hmoves with
  | write x a got w m hle =>
    have hpos := h.placed.reached k x a got w ht
    obtain ⟨hgot, -⟩ := h.fares k _ ht
    have hwhole := h.whole
    constructor
    · have hfits := length_sent hgot (by omega)
      rw [length_written hpos hle, max_eq_left (by omega), hwhole]
    · intro i hi
      rw [getElem?_written hpos hle hgot]
      split_ifs
      · rfl
      · exact hi
  | _ => exact ⟨h.whole, fun i hi => hi⟩

/-- A thread fares well after its step. -/
lemma Delivering.move_fares (h : d.Delivering sha1 s F) {e : Kernel.Event} {t t' : Kernel}
    (hmoves : Moves (fun s => (sha1 s).1) d k e t t' file) (ht : d.threads[k]? = some t)
    (hok : d.Supplied s F (.kernel k e)) : Fares d.filemeta.seeders.length s F file k t' := by
  have hfares := h.fares k t ht
  cases hmoves with
  | giveUp x a hlast =>
    obtain ⟨hlt, -⟩ := hfares.next h.listed (hok x a ht)
    omega
  | next x a => exact (hfares.next h.listed (hok x a ht)).2
  | connect x a => exact ⟨List.nil_prefix, fun i hi => absurd hi (Nat.not_lt_zero i)⟩
  | recv x a got w output => exact ⟨hok x a got w ht, hfares.2⟩
  | write x a got w m hle =>
    have hpos := h.placed.reached k x a got w ht
    refine ⟨hfares.1, fun i hi => ?_⟩
    rw [getElem?_written hpos hle hfares.1]
    split_ifs with hin
    · rfl
    · exact hfares.2 i (by omega)
  | closeFirst x a got => exact chunk_of_close h.whole hfares.2 (hok x a got _ ht)
  | close x a got => exact chunk_of_close h.whole hfares.2 (hok x a got _ ht)
  | reject x a hsha =>
    rw [h.passes ht hfares] at hsha
    cases hsha
  | _ => exact hfares

/-- When all threads have returned, all chunks are there. -/
lemma Delivering.file_eq (h : d.Delivering sha1 s F) (hall : d.threads.length = d.nchunks)
    (hreturned : ∀ t ∈ d.threads, t.returned = true) : d.file = F := by
  obtain ⟨hle, -⟩ := ceilDiv_spec F.length
  apply eq_of_chunks (h.whole ▸ hle) hle
  intro k hk
  have hlt : k < d.threads.length := by
    rw [hall, h.tasks]
    exact hk
  have ht : d.threads[k]? = some d.threads[k] := List.getElem?_eq_getElem hlt
  have hfares := h.fares k _ ht
  have hback := hreturned _ (List.getElem_mem hlt)
  cases hthread : d.threads[k] with
  | pushed =>
    rw [hthread] at hfares
    exact hfares
  | gaveUp =>
    rw [hthread] at hfares
    exact absurd hfares id
  | _ =>
    rw [hthread] at hback
    cases hback

/-- The step lemma. -/
lemma Delivering.step (h : d.Delivering sha1 s F) (hok : d.Supplied s F e)
    (hstep : d.step (fun s => (sha1 s).1) e = some d') : d'.Delivering sha1 s F := by
  have hregular := h.regular.step hstep
  have hplaced := h.placed.step h.regular hstep
  cases e with
  | kernel k e =>
    obtain ⟨t, t', file, ht, hmoves, rfl⟩ := step_kernel hstep
    replace hmoves := kernelStep_moves hmoves
    obtain ⟨hwhole, hkeep⟩ := h.move_file hmoves ht
    refine { h with
      regular := hregular
      placed := hplaced
      whole := hwhole
      fares := ?_
      finished := ?_ }
    · intro j u hj
      rcases getElem?_set_cases hj with ⟨rfl, rfl⟩ | ⟨-, hj⟩
      · exact h.move_fares hmoves ht hok
      · exact (h.fares j u hj).mono hkeep
    · intro hcompleted
      apply List.ext_getElem?
      exact fun i => hkeep i (by rw [h.finished hcompleted])
  | create x =>
    rw [Download.step] at hstep
    split_ifs at hstep with hnew
    cases hstep
    refine { h with regular := hregular, placed := hplaced, fares := ?_ }
    intro j u hj
    rcases getElem?_create_cases hj with hj | rfl
    · exact h.fares j u hj
    · exact rotated_zero hnew.2.2
  | join =>
    rw [Download.step] at hstep
    split_ifs at hstep
    cases hstep
    exact { h with regular := hregular, placed := hplaced }
  | complete =>
    rw [Download.step] at hstep
    split_ifs at hstep with hdone
    cases hstep
    refine { h with regular := hregular, placed := hplaced, finished := fun _ => ?_ }
    apply h.file_eq hdone.1
    intro t ht
    obtain ⟨k, hk⟩ := List.mem_iff_getElem?.mp ht
    exact h.regular.returned hdone.2.1 hk

end Step

/-! ### Progress -/

section Progress

variable {sha1 : Str → Digest} {s n k : ℕ} {F file : Str} {d d' : Download} {e : Event}

/-- A thread that has not returned can do something. -/
lemma Delivering.kernel_moves (h : d.Delivering sha1 s F) {t : Kernel}
    (ht : d.threads[k]? = some t) (hrun : t.returned = false) :
    ∃ e, d.Supplied s F (.kernel k e) ∧ ∃ r, d.kernelStep (fun s => (sha1 s).1) k e t = some r := by
  have hfares := h.fares k t ht
  cases t with
  | connecting x a => exact ⟨.connect, trivial, _, rfl⟩
  | receiving x a got w =>
    have hw := (h.regular.received k x a got w ht).2
    have hthis : ∀ {x' a' got' w'}, d.threads[k]? = some (.receiving x' a' got' w') → got' = got :=
      fun ht' => by cases ht.symm.trans ht'; rfl
    rcases Nat.lt_or_eq_of_le hw with hlt | rfl
    · -- the rest of the buffer
      exact ⟨.write (got.length - w), by rw [Supplied]; omega, _, if_pos (by omega)⟩
    · by_cases hend : chunkSize ≤ got.length ∨ got = transferFunction F k
      · refine ⟨.close, fun x' a' got' w' ht' => ?_, _, if_pos rfl⟩
        rw [hthis ht']
        exact hend
      · obtain ⟨hroom, hmore⟩ := not_or.mp hend
        obtain ⟨rest, hrest⟩ := hfares.1
        have hne : rest ≠ [] := by
          rintro rfl
          exact hmore (by rw [← hrest, List.append_nil])
        refine ⟨.recv (rest.take smallChunkSize), fun x' a' got' w' ht' => ?_, _,
          if_pos ⟨by omega, ?_, List.length_take_le _ _⟩⟩
        · rw [hthis ht', ← hrest, List.prefix_append_right_inj]
          exact List.take_prefix _ _
        · apply List.ne_nil_of_length_pos
          have hpos := List.length_pos_of_ne_nil hne
          rw [List.length_take, smallChunkSize]
          omega
  | updating x a => exact ⟨.updateServer, trivial, _, rfl⟩
  | checking x a =>
    refine ⟨.check, trivial, (.accepted, d.file), ?_⟩
    rw [kernelStep, h.passes ht hfares]
    rfl
  | accepted => exact ⟨.push, trivial, _, rfl⟩
  | _ => cases hrun

/-- Until `complete` is sent the download goes on. -/
lemma Delivering.goes_on (h : d.Delivering sha1 s F) : d.completed = true ∨
    ∃ d', Machine.StepWhen (Download.step fun s => (sha1 s).1) (Supplied s F) d d' := by
  by_cases hreturned : ∀ t ∈ d.threads, t.returned = true
  · have hbatch : d.batch.all Kernel.returned = true := by
      apply List.all_eq_true.mpr
      exact fun t ht => hreturned t (List.mem_of_mem_drop ht)
    cases hcompleted : d.completed with
    | true => exact Or.inl rfl
    | false =>
      right
      rcases Nat.lt_or_eq_of_le h.regular.started with hlt | hall
      · rcases Nat.lt_or_ge 50 d.counter with hfull | hroom
        · exact ⟨_, .join, trivial, if_pos ⟨hfull, hbatch⟩⟩
        · exact ⟨_, .create s, trivial, if_pos ⟨hlt, hroom, h.listed⟩⟩
      · exact ⟨_, .complete, trivial, if_pos ⟨hall, hbatch, hcompleted⟩⟩
  · right
    obtain ⟨t, hmem, hrun⟩ := not_forall₂.mp hreturned
    obtain ⟨k, ht⟩ := List.mem_iff_getElem?.mp hmem
    obtain ⟨e, hok, ⟨t', file⟩, hmoves⟩ := h.kernel_moves ht (Bool.eq_false_iff.mpr hrun)
    exact ⟨_, .kernel k e, hok, kernel_step ht hmoves⟩

/-- A thread receives no more bytes than this. -/
def streamSize : ℕ := chunkSize + smallChunkSize

/-- A bound for the steps that a thread still takes, with `n` seeders. -/
def kernelRank (n : ℕ) : Kernel → ℕ
  | .connecting _ a      => n - a + 2 * streamSize + 4
  | .receiving _ _ got w => streamSize - got.length + (streamSize - w) + 4
  | .updating _ _        => 3
  | .checking _ _        => 2
  | .accepted            => 1
  | .pushed              => 0
  | .gaveUp              => 0

/-- A bound for the steps that the download still takes. -/
def rank (d : Download) : ℕ :=
  (d.nchunks - d.threads.length) * (d.filemeta.seeders.length + 2 * streamSize + 6) +
    (d.threads.map (kernelRank d.filemeta.seeders.length)).sum + d.counter +
      if d.completed then 0 else 1

lemma sum_set_lt {f : Kernel → ℕ} {threads : List Kernel} {t t' : Kernel}
    (ht : threads[k]? = some t) (hlt : f t' < f t) :
    ((threads.set k t').map f).sum < (threads.map f).sum := by
  induction threads generalizing k with
  | nil => cases ht
  | cons u threads ih =>
    cases k with
    | zero =>
      cases ht
      simp only [List.set_cons_zero, List.map_cons, List.sum_cons]
      omega
    | succ k =>
      have hrest := ih ht
      simp only [List.set_cons_succ, List.map_cons, List.sum_cons]
      omega

lemma Delivering.move_rank (h : d.Delivering sha1 s F) {e : Kernel.Event} {t t' : Kernel}
    (hmoves : Moves (fun s => (sha1 s).1) d k e t t' file) (ht : d.threads[k]? = some t)
    (hok : d.Supplied s F (.kernel k e)) :
    kernelRank d.filemeta.seeders.length t' < kernelRank d.filemeta.seeders.length t := by
  have hfares := h.fares k t ht
  cases hmoves with
  | giveUp x a => simp [kernelRank]
  | next x a =>
    have hlt := hfares.lt h.listed
    simp only [kernelRank]
    omega
  | connect x a =>
    have hlt := hfares.lt h.listed
    simp only [kernelRank, List.length_nil]
    omega
  | recv x a got w output hgot hne hle =>
    have hpos := List.length_pos_of_ne_nil hne
    simp only [kernelRank, List.length_append, streamSize]
    omega
  | write x a got w m hle =>
    have hreceived := (h.regular.received k x a got w ht).1
    have hsome : 0 < m := hok
    simp only [kernelRank, streamSize]
    omega
  | reject x a hsha =>
    rw [h.passes ht hfares] at hsha
    cases hsha
  | _ =>
    simp only [kernelRank]
    omega

/-- Each step takes the download nearer to its end. -/
lemma Delivering.rank_lt (h : d.Delivering sha1 s F) (hok : d.Supplied s F e)
    (hstep : d.step (fun s => (sha1 s).1) e = some d') : d'.rank < d.rank := by
  cases e with
  | kernel k e =>
    obtain ⟨t, t', file, ht, hmoves, rfl⟩ := step_kernel hstep
    have hlt := sum_set_lt ht (h.move_rank (kernelStep_moves hmoves) ht hok)
    simp only [rank, nchunks, List.length_set] at hlt ⊢
    omega
  | create x =>
    rw [Download.step] at hstep
    split_ifs at hstep with hnew
    cases hstep
    obtain ⟨m, hm⟩ : ∃ m, d.nchunks - d.threads.length = m + 1 :=
      ⟨d.nchunks - d.threads.length - 1, by omega⟩
    have hm' : d.nchunks - (d.threads.length + 1) = m := by omega
    simp only [rank, List.length_append, List.length_singleton, List.map_append, List.sum_append,
      List.map_singleton, List.sum_singleton, kernelRank, hm]
    show (d.nchunks - (d.threads.length + 1)) * _ + _ + _ + _ < _
    rw [hm', Nat.succ_mul m]
    omega
  | join =>
    rw [Download.step] at hstep
    split_ifs at hstep with hjoin
    cases hstep
    simp only [rank, nchunks]
    omega
  | complete =>
    rw [Download.step] at hstep
    split_ifs at hstep with hdone
    cases hstep
    simp only [rank, nchunks, hdone.2.2]
    simp

/-- In any order of steps, the download is complete after so many of them. -/
lemma Delivering.inevitable (h : d.Delivering sha1 s F) : Machine.Inevitable
    (Download.step fun s => (sha1 s).1) (Supplied s F) (fun d => d.completed = true ∧ d.file = F)
    d.rank d := by
  have hsteps : ∀ (d : Download) (e : Event) (d' : Download), d.Delivering sha1 s F →
      d.Supplied s F e → d.step (fun s => (sha1 s).1) e = some d' →
        d'.Delivering sha1 s F ∧ d'.rank < d.rank :=
    fun d e d' hd hok hstep => ⟨hd.step hok hstep, hd.rank_lt hok hstep⟩
  apply Machine.inevitable_of_rank hsteps ?_ h (le_refl _)
  exact fun d hd => hd.goes_on.imp_left fun hdone => ⟨hdone, hd.finished hdone⟩

end Progress

/-! ### The start -/

lemma delivering_of_downloadFile {sha1 : Str → Digest} {F group name path output : Str} {s : ℕ}
    {d : Download} (hlt : F.length < 2 ^ 31)
    (hstart : downloadFile group name path (getFileHash sha1 (some F)).1 output = some d)
    (hsize : (split output ' ').getLast? = some (toStr (getFileHash sha1 (some F)).2))
    (hs : s < d.filemeta.seeders.length) : d.Delivering sha1 s F := by
  have hsized := (sized_iff hstart hsize).mpr hlt
  have hregular := regular_of_downloadFile hstart
  have hplaced := placed_of_downloadFile hstart
  have hhash := hash_of_downloadFile hstart
  obtain ⟨size, seeders, rfl⟩ := eq_of_downloadFile hstart
  exact ⟨hregular, hplaced, hhash, hlt, hsized.tasks, hs, hsized.filled, by simp, by simp⟩

lemma Delivering.rank_eq {sha1 : Str → Digest} {F group name path filehash output : Str} {s : ℕ}
    {d : Download} (h : d.Delivering sha1 s F)
    (hstart : downloadFile group name path filehash output = some d) : d.rank =
      (F.length ⌈/⌉ chunkSize) * (d.filemeta.seeders.length + 2 * streamSize + 6) + 1 := by
  have htasks := h.tasks
  obtain ⟨size, seeders, rfl⟩ := eq_of_downloadFile hstart
  simp only [rank, htasks]
  simp

end Download

end TorrentShare
