import TorrentShare.Peer.Chunks
import TorrentShare.Program.Machines

/-!
# A download

`DownloadFile` fills the destination with `5`, and `GetChunks` starts a thread of `DownloadKernel`
for each chunk and joins them in batches of 51. A thread writes what it receives to its place in
the destination, where the bytes behind its chunk belong to another thread, and tries again until
the hash of the chunk is right. It gives up when it has failed to connect as often as there are
seeders.
-/

namespace TorrentShare

/-! ### Threads -/

/-- What a thread of `DownloadKernel` is about to do, with `seeder_num` and `attempts`. While it
    receives: the bytes passed to `fwrite`, and how many of them have reached the file. -/
inductive Kernel where
  | connecting (seeder attempts : ℕ)
  | receiving (seeder attempts : ℕ) (got : Str) (written : ℕ)
  | updating (seeder attempts : ℕ)
  | checking (seeder attempts : ℕ)
  | accepted
  | pushed
  | gaveUp
  deriving DecidableEq

def Kernel.returned : Kernel → Bool
  | .pushed => true
  | .gaveUp => true
  | _       => false

/-- The thread will write no more. -/
def Kernel.settled : Kernel → Bool
  | .accepted => true
  | .pushed   => true
  | .gaveUp   => true
  | _         => false

/-- The chunk of the thread has passed the check. -/
def Kernel.verified : Kernel → Bool
  | .accepted => true
  | .pushed   => true
  | _         => false

/-- What a download is about. -/
structure FileData where
  group : Str
  name : Str
  path : Str
  hash : Str
  size : Str
  seeders : List Str
  deriving DecidableEq

/-- A run of `DownloadFile` from `GetChunks` on, with the destination. The first seeder of each
    chunk is left open. -/
structure Download where
  filemeta : FileData
  file : Str
  threads : List Kernel := []
  counter : ℕ := 0
  completed : Bool := false
  deriving DecidableEq

/-- `DownloadFile` up to `GetChunks`, from the replies to `give_sha` and `give_seeders`. -/
def downloadFile (group name path filehash output : Str) : Option Download :=
  if filehash = [] then none
  else if output = [] then none
  else
    let v := split output ' '
    let size := v.getLast?.getD []
    some ⟨⟨group, name, path, filehash, size, v.dropLast⟩, filler size, [], 0, false⟩

/-- What a thread does next. `refuse` is a `connect` that fails; `write` is a part of the buffer of
    the stream that reaches the file; `close` comes after a `recv` that ends the loop. -/
inductive Kernel.Event where
  | refuse
  | connect
  | recv (output : Str)
  | write (n : ℕ)
  | close
  | updateServer
  | check
  | push
  deriving DecidableEq

/-- What happens next. A thread is started with the seeder that is chosen for it. -/
inductive Download.Event where
  | create (seeder : ℕ)
  | join
  | kernel (k : ℕ) (e : Kernel.Event)
  | complete
  deriving DecidableEq

namespace Download

/-! ### Steps -/

def nchunks (d : Download) : ℕ := TorrentShare.nchunks d.filemeta.size

/-- The destination after `n` more of the bytes that thread `k` has received reach it. -/
def written (d : Download) (k : ℕ) (got : Str) (w n : ℕ) : Str :=
  overwrite '\x00' d.file (k * chunkSize + w) ((got.drop w).take n)

/-- The thread for chunk `k` after a step of its own, and the destination. -/
def kernelStep (sha1 : Str → List (Fin 256)) (d : Download) (k : ℕ) :
    Kernel.Event → Kernel → Option (Kernel × Str)
  | .refuse, .connecting x a =>
    some (if d.filemeta.seeders.length ≤ a + 1 then .gaveUp
      else .connecting ((x + 1) % d.filemeta.seeders.length) (a + 1), d.file)
  | .connect, .connecting x a => some (.receiving x a [] 0, d.file)
  | .recv output, .receiving x a got w =>
    if got.length < chunkSize ∧ output ≠ [] ∧ output.length ≤ smallChunkSize then
      some (.receiving x a (got ++ output) w, d.file)
    else none
  | .write n, .receiving x a got w =>
    if w + n ≤ got.length then some (.receiving x a got (w + n), d.written k got w n) else none
  | .close, .receiving x a got w =>
    -- `fclose` has written what was left in the buffer
    if w = got.length then some (if k = 0 then .updating x a else .checking x a, d.file) else none
  | .updateServer, .updating x a => some (.checking x a, d.file)
  | .check, .checking x a =>
    (getFileHashsmall sha1 d.file k d.filemeta.hash).map fun b =>
      (if b then .accepted else .connecting x a, d.file)
  | .push, .accepted => some (.pushed, d.file)
  | _, _ => none

/-- The threads that the next `pthread_join` calls wait for. -/
def batch (d : Download) : List Kernel := d.threads.drop (d.threads.length - d.counter)

/-- One step of the download. -/
def step (sha1 : Str → List (Fin 256)) (d : Download) : Event → Option Download
  | .create x =>
    if d.threads.length < d.nchunks ∧ d.counter ≤ 50 ∧ x < d.filemeta.seeders.length then
      some { d with threads := d.threads ++ [.connecting x 0], counter := d.counter + 1 }
    else none
  | .join =>
    if 50 < d.counter ∧ d.batch.all Kernel.returned then some { d with counter := 0 } else none
  | .kernel k e => d.threads[k]?.bind fun t => (d.kernelStep sha1 k e t).map fun r =>
    { d with threads := d.threads.set k r.1, file := r.2 }
  | .complete =>
    if d.threads.length = d.nchunks ∧ d.batch.all Kernel.returned ∧ d.completed = false then
      some { d with completed := true }
    else none

section Step

variable {sha1 : Str → List (Fin 256)} {d d' : Download} {k : ℕ} {e : Event}

lemma step_kernel {e : Kernel.Event} (h : d.step sha1 (.kernel k e) = some d') :
    ∃ t t' s, d.threads[k]? = some t ∧ d.kernelStep sha1 k e t = some (t', s) ∧
      d' = { d with threads := d.threads.set k t', file := s } := by
  rw [step, Option.bind_eq_some_iff] at h
  obtain ⟨t, ht, h⟩ := h
  obtain ⟨⟨t', s⟩, hs, rfl⟩ := Option.map_eq_some_iff.mp h
  exact ⟨t, t', s, ht, hs, rfl⟩

lemma kernel_step {e : Kernel.Event} {t t' : Kernel} {s : Str} (ht : d.threads[k]? = some t)
    (h : d.kernelStep sha1 k e t = some (t', s)) :
    d.step sha1 (.kernel k e) = some { d with threads := d.threads.set k t', file := s } := by
  rw [step, ht, Option.bind_some, h]
  rfl

/-- What the download is about stays. -/
lemma step_filemeta (h : d.step sha1 e = some d') : d'.filemeta = d.filemeta := by
  cases e with
  | kernel k e =>
    obtain ⟨t, t', s, -, -, rfl⟩ := step_kernel h
    rfl
  | _ =>
    rw [step] at h
    split_ifs at h
    cases h
    rfl

/-- What a step of a thread can be. -/
inductive Moves (sha1 : Str → List (Fin 256)) (d : Download) (k : ℕ) :
    Kernel.Event → Kernel → Kernel → Str → Prop where
  | giveUp (x a : ℕ) (hlast : d.filemeta.seeders.length ≤ a + 1) :
      Moves sha1 d k .refuse (.connecting x a) .gaveUp d.file
  | next (x a : ℕ) : Moves sha1 d k .refuse (.connecting x a)
      (.connecting ((x + 1) % d.filemeta.seeders.length) (a + 1)) d.file
  | connect (x a : ℕ) : Moves sha1 d k .connect (.connecting x a) (.receiving x a [] 0) d.file
  | recv (x a : ℕ) (got : Str) (w : ℕ) (output : Str) (hgot : got.length < chunkSize)
      (hne : output ≠ []) (hle : output.length ≤ smallChunkSize) :
      Moves sha1 d k (.recv output) (.receiving x a got w) (.receiving x a (got ++ output) w) d.file
  | write (x a : ℕ) (got : Str) (w n : ℕ) (hle : w + n ≤ got.length) :
      Moves sha1 d k (.write n) (.receiving x a got w) (.receiving x a got (w + n))
        (d.written k got w n)
  | closeFirst (x a : ℕ) (got : Str) (hk : k = 0) :
      Moves sha1 d k .close (.receiving x a got got.length) (.updating x a) d.file
  | close (x a : ℕ) (got : Str) (hk : k ≠ 0) :
      Moves sha1 d k .close (.receiving x a got got.length) (.checking x a) d.file
  | updateServer (x a : ℕ) : Moves sha1 d k .updateServer (.updating x a) (.checking x a) d.file
  | accept (x a : ℕ) (hsha : getFileHashsmall sha1 d.file k d.filemeta.hash = some true) :
      Moves sha1 d k .check (.checking x a) .accepted d.file
  | reject (x a : ℕ) (hsha : getFileHashsmall sha1 d.file k d.filemeta.hash = some false) :
      Moves sha1 d k .check (.checking x a) (.connecting x a) d.file
  | push : Moves sha1 d k .push .accepted .pushed d.file

lemma kernelStep_moves {e : Kernel.Event} {t t' : Kernel} {s : Str}
    (h : d.kernelStep sha1 k e t = some (t', s)) : Moves sha1 d k e t t' s := by
  unfold kernelStep at h
  split at h
  · rename_i x a
    split_ifs at h with hlast
    · cases h
      exact .giveUp x a hlast
    · cases h
      exact .next x a
  · cases h
    exact .connect ..
  · split_ifs at h with hrecv
    cases h
    exact .recv _ _ _ _ _ hrecv.1 hrecv.2.1 hrecv.2.2
  · split_ifs at h with hle
    cases h
    exact .write _ _ _ _ _ hle
  · split_ifs at h with hw hk
    · cases h
      subst hw
      exact .closeFirst _ _ _ hk
    · cases h
      subst hw
      exact .close _ _ _ hk
  · cases h
    exact .updateServer ..
  · rename_i x a
    obtain ⟨b, hb, hcase⟩ := Option.map_eq_some_iff.mp h
    cases b with
    | true =>
      cases hcase
      exact .accept x a hb
    | false =>
      cases hcase
      exact .reject x a hb
  · cases h
    exact .push
  · cases h

/-- A thread that has given up or has passed its check does nothing but push. -/
lemma Moves.not_returned {e : Kernel.Event} {t t' : Kernel} {s : Str}
    (h : Moves sha1 d k e t t' s) : t.returned = false := by
  cases h <;> rfl

/-! ### Threads in their places -/

/-- What can be said of the threads in every run. -/
structure Regular (d : Download) : Prop where
  started : d.threads.length ≤ d.nchunks
  received : ∀ (k x a : ℕ) (got : Str) (w : ℕ), d.threads[k]? = some (.receiving x a got w) →
    got.length < chunkSize + smallChunkSize ∧ w ≤ got.length
  counted : d.counter ≤ d.threads.length
  joined : ∀ (k : ℕ) (t : Kernel), k + d.counter < d.threads.length →
    d.threads[k]? = some t → t.returned = true

/-- A thread does not receive much more than its chunk. -/
lemma Moves.received {e : Kernel.Event} {t t' : Kernel} {s : Str} (h : Moves sha1 d k e t t' s)
    (ht : ∀ x a got w, t = .receiving x a got w →
      got.length < chunkSize + smallChunkSize ∧ w ≤ got.length)
    (x a : ℕ) (got : Str) (w : ℕ) (ht' : t' = .receiving x a got w) :
    got.length < chunkSize + smallChunkSize ∧ w ≤ got.length := by
  cases h with
  | connect =>
    cases ht'
    exact ⟨by decide, le_refl 0⟩
  | recv x a got w output hgot hne hle =>
    cases ht'
    obtain ⟨-, hw⟩ := ht x a got w rfl
    rw [List.length_append]
    omega
  | write x a got w n hle =>
    cases ht'
    exact ⟨(ht x a got w rfl).1, hle⟩
  | _ => cases ht'

/-- A thread in a list of threads one of which has changed. -/
lemma getElem?_set_cases {threads : List Kernel} {k j : ℕ} {t t' : Kernel}
    (h : (threads.set k t')[j]? = some t) : j = k ∧ t = t' ∨ j ≠ k ∧ threads[j]? = some t := by
  by_cases hj : j = k
  · subst hj
    rw [List.getElem?_set_self'] at h
    obtain ⟨u, -, rfl⟩ := Option.map_eq_some_iff.mp h
    exact Or.inl ⟨rfl, rfl⟩
  · rw [List.getElem?_set_ne (Ne.symm hj)] at h
    exact Or.inr ⟨hj, h⟩

/-- A thread in a list of threads with a new one. -/
lemma getElem?_create_cases {threads : List Kernel} {x j : ℕ} {t : Kernel}
    (h : (threads ++ [.connecting x 0])[j]? = some t) :
    threads[j]? = some t ∨ t = .connecting x 0 := by
  rw [List.getElem?_append] at h
  split_ifs at h
  · exact Or.inl h
  · rw [List.getElem?_singleton] at h
    split_ifs at h
    exact Or.inr (Option.some.inj h).symm

/-- What a step can be: one of a thread, or one that leaves the file and the threads as they are,
    apart from a new one. -/
lemma step_cases (h : d.step sha1 e = some d') :
    (∃ k e' t t' s, e = .kernel k e' ∧ d.threads[k]? = some t ∧ Moves sha1 d k e' t t' s ∧
      d' = { d with threads := d.threads.set k t', file := s }) ∨
    (d'.file = d.file ∧ d'.filemeta = d.filemeta ∧ ∀ (j : ℕ) (t : Kernel),
      d'.threads[j]? = some t → d.threads[j]? = some t ∨ ∃ x, t = .connecting x 0) := by
  cases e with
  | kernel k e =>
    obtain ⟨t, t', s, ht, hmoves, rfl⟩ := step_kernel h
    exact Or.inl ⟨k, e, t, t', s, rfl, ht, kernelStep_moves hmoves, rfl⟩
  | create x =>
    rw [step] at h
    split_ifs at h
    cases h
    exact Or.inr ⟨rfl, rfl, fun j t hj => (getElem?_create_cases hj).imp id fun ht => ⟨x, ht⟩⟩
  | _ =>
    rw [step] at h
    split_ifs at h
    cases h
    exact Or.inr ⟨rfl, rfl, fun j t hj => Or.inl hj⟩

/-- Threads that have been joined. -/
lemma Regular.returned (hd : d.Regular) (hbatch : d.batch.all Kernel.returned = true) {t : Kernel}
    (ht : d.threads[k]? = some t) : t.returned = true := by
  by_cases hk : k + d.counter < d.threads.length
  · exact hd.joined k t hk ht
  · have hlt := (List.getElem?_eq_some_iff.mp ht).1
    have hindex : d.threads.length - d.counter + (k - (d.threads.length - d.counter)) = k := by
      have hcounted := hd.counted
      omega
    have hdrop : d.batch[k - (d.threads.length - d.counter)]? = some t := by
      rw [batch, List.getElem?_drop, hindex]
      exact ht
    exact List.all_eq_true.mp hbatch t (List.mem_of_getElem? hdrop)

lemma Regular.step (hd : d.Regular) (h : d.step sha1 e = some d') : d'.Regular := by
  cases e with
  | create x =>
    rw [Download.step] at h
    split_ifs at h with hnew
    cases h
    constructor
    · simp only [List.length_append, List.length_singleton]
      exact hnew.1
    · intro k x a got w hk
      rcases getElem?_create_cases hk with hk | hk
      · exact hd.received k x a got w hk
      · cases hk
    · simp only [List.length_append, List.length_singleton]
      exact Nat.succ_le_succ hd.counted
    · intro k t hk ht
      simp only [List.length_append, List.length_singleton] at hk
      rw [List.getElem?_append_left (by omega)] at ht
      exact hd.joined k t (by omega) ht
  | join =>
    rw [Download.step] at h
    split_ifs at h with hjoin
    cases h
    exact ⟨hd.started, hd.received, Nat.zero_le _, fun k t _ ht => hd.returned hjoin.2 ht⟩
  | kernel k e =>
    obtain ⟨t, t', s, ht, hmoves, rfl⟩ := step_kernel h
    replace hmoves := kernelStep_moves hmoves
    constructor
    · simp only [List.length_set]
      exact hd.started
    · intro j x a got w hj
      rcases getElem?_set_cases hj with ⟨rfl, heq⟩ | ⟨-, hj⟩
      · refine hmoves.received (fun x a got w hrec => ?_) x a got w heq.symm
        exact hd.received _ x a got w (hrec ▸ ht)
      · exact hd.received j x a got w hj
    · simp only [List.length_set]
      exact hd.counted
    · intro j u hj hu
      simp only [List.length_set] at hj
      rcases getElem?_set_cases hu with ⟨rfl, -⟩ | ⟨-, hu⟩
      · have hreturned := hd.joined _ t hj ht
        rw [hmoves.not_returned] at hreturned
        cases hreturned
      · exact hd.joined j u hj hu
  | complete =>
    rw [Download.step] at h
    split_ifs at h with hcomplete
    cases h
    exact ⟨hd.started, hd.received, hd.counted, hd.joined⟩

/-! ### Writes in their places -/

/-- The destination reaches as far as its last chunk, and as far as the threads have written. -/
structure Placed (d : Download) : Prop where
  lower : d.nchunks * chunkSize ≤ d.file.length + chunkSize
  reached : ∀ (k x a : ℕ) (got : Str) (w : ℕ), d.threads[k]? = some (.receiving x a got w) →
    k * chunkSize + w ≤ d.file.length

/-- A chunk that has a thread begins in the destination. -/
lemma Placed.le_length (hp : d.Placed) (hd : d.Regular) {t : Kernel}
    (ht : d.threads[k]? = some t) : k * chunkSize ≤ d.file.length := by
  have hlt := (List.getElem?_eq_some_iff.mp ht).1
  have hstarted := hd.started
  have hlower := hp.lower
  have hle : (k + 1) * chunkSize ≤ d.nchunks * chunkSize :=
    Nat.mul_le_mul_right chunkSize (by omega)
  rw [Nat.succ_mul] at hle
  omega

lemma length_written {got : Str} {w n : ℕ} (hpos : k * chunkSize + w ≤ d.file.length)
    (hle : w + n ≤ got.length) :
    (d.written k got w n).length = max d.file.length (k * chunkSize + (w + n)) := by
  have hdata : ((got.drop w).take n).length = n := by
    rw [List.length_take, List.length_drop]
    omega
  rw [written, length_overwrite hpos, hdata, Nat.add_assoc]

/-- The destination does not get shorter. -/
lemma Moves.length_le {e : Kernel.Event} {t t' : Kernel} {s : Str}
    (h : Moves sha1 d k e t t' s) (hp : d.Placed) (ht : d.threads[k]? = some t) :
    d.file.length ≤ s.length := by
  cases h with
  | write x a got w n hle =>
    rw [length_written (hp.reached k x a got w ht) hle]
    exact le_max_left _ _
  | _ => exact le_refl _

lemma Placed.step (hp : d.Placed) (hd : d.Regular) (h : d.step sha1 e = some d') : d'.Placed := by
  rcases step_cases h with ⟨k, e, t, t', s, -, ht, hmoves, rfl⟩ | ⟨hfile, hmeta, hthreads⟩
  · have hlength := hmoves.length_le hp ht
    have hbegin := hp.le_length hd ht
    constructor
    · have hlower := hp.lower
      show d.nchunks * chunkSize ≤ s.length + chunkSize
      omega
    · intro j x a got w hj
      rcases getElem?_set_cases hj with ⟨rfl, heq⟩ | ⟨-, hj⟩
      · subst heq
        cases hmoves with
        | connect => simpa using hbegin
        | recv _ _ _ _ _ _ _ _ => exact hp.reached _ _ _ _ _ ht
        | write x a got w n hle =>
          rw [length_written (hp.reached _ x a got w ht) hle]
          exact le_max_right _ _
      · exact (hp.reached j x a got w hj).trans hlength
  · constructor
    · rw [hfile, nchunks, hmeta]
      exact hp.lower
    · intro j x a got w hj
      rw [hfile]
      rcases hthreads j _ hj with hj | ⟨x, hj⟩
      · exact hp.reached j _ a got w hj
      · cases hj

/-- A write of a thread into chunk `j` of another thread, where it changes nothing in the next
    chunk. -/
lemma chunk_written {x a : ℕ} {got : Str} {w n j : ℕ} (hd : d.Regular) (hp : d.Placed)
    (ht : d.threads[k]? = some (.receiving x a got w)) (hle : w + n ≤ got.length) (hj : j ≠ k)
    (hnext : j = k + 1 →
      (d.written k got w n).drop ((k + 1) * chunkSize) = d.file.drop ((k + 1) * chunkSize)) :
    chunk j (d.written k got w n) = chunk j d.file := by
  have hpos := hp.reached k x a got w ht
  have hreceived := (hd.received k x a got w ht).1
  have hsmall : smallChunkSize ≤ chunkSize := by decide
  have hdata : ((got.drop w).take n).length = n := by
    rw [List.length_take, List.length_drop]
    omega
  rcases Nat.lt_or_gt_of_ne hj with hlt | hgt
  · have hbefore : (j + 1) * chunkSize ≤ k * chunkSize := Nat.mul_le_mul_right chunkSize hlt
    exact chunk_overwrite_of_lt hpos (hbefore.trans (Nat.le_add_right _ _))
  · by_cases hnextj : j = k + 1
    · exact chunk_of_drop_eq (hnext hnextj) (by rw [hnextj])
    · have hbehind : (k + 2) * chunkSize ≤ j * chunkSize :=
        Nat.mul_le_mul_right chunkSize (by omega)
      have hend : k * chunkSize + w + ((got.drop w).take n).length ≤ (k + 2) * chunkSize := by
        rw [hdata, Nat.add_mul]
        omega
      exact chunk_of_drop_eq (drop_overwrite hpos hend) hbehind

end Step

/-! ### The start -/

/-- The destination is filled, and there is no thread yet. -/
lemma eq_of_downloadFile {group name path filehash output : Str} {d : Download}
    (h : downloadFile group name path filehash output = some d) : ∃ size seeders,
      d = ⟨⟨group, name, path, filehash, size, seeders⟩, filler size, [], 0, false⟩ := by
  rw [downloadFile] at h
  split_ifs at h
  cases h
  exact ⟨_, _, rfl⟩

lemma regular_of_downloadFile {group name path filehash output : Str} {d : Download}
    (h : downloadFile group name path filehash output = some d) : d.Regular := by
  obtain ⟨size, seeders, rfl⟩ := eq_of_downloadFile h
  exact ⟨Nat.zero_le _, by simp, le_refl 0, by simp⟩

lemma placed_of_downloadFile {group name path filehash output : Str} {d : Download}
    (h : downloadFile group name path filehash output = some d) : d.Placed := by
  obtain ⟨size, seeders, rfl⟩ := eq_of_downloadFile h
  constructor
  · exact (nchunks_spec _).2
  · intro k x a got w hk
    rw [List.getElem?_nil] at hk
    cases hk

end Download

end TorrentShare
