import TorrentShare.Peer.Download

/-!
# Completion

`DownloadFile` sends `complete` when all threads have returned, before it looks at the hash of the
destination, and a thread that gives up returns as well.
-/

namespace TorrentShare

open Program

namespace Download

/-- Chunk `k` is there and has the expected hash. -/
def Right (sha1 : Str → List (Fin 256)) (d : Download) (k : ℕ) : Prop :=
  chunk k d.file ≠ [] ∧ getFileHashsmall sha1 d.file k d.filemeta.hash = some true

/-- No thread gives up while its chunk is wrong, and none is content with nothing. What a thread
    writes behind its chunk changes nothing in the next chunk if the thread of that one is done,
    and nothing behind the last chunk. -/
def Careful (sha1 : Str → List (Fin 256)) (d : Download) : Event → Prop
  | .kernel k .refuse => ∀ x a, d.threads[k]? = some (.connecting x a) →
      d.filemeta.seeders.length ≤ a + 1 → d.Right sha1 k
  | .kernel k .check => chunk k d.file ≠ []
  | .kernel k (.write n) => ∀ x a got w, d.threads[k]? = some (.receiving x a got w) →
      (d.nchunks = k + 1 ∨ ∃ t, d.threads[k + 1]? = some t ∧ t.settled = true) →
        (d.written k got w n).drop ((k + 1) * chunkSize) = d.file.drop ((k + 1) * chunkSize)
  | _ => True

/-- The chunks of the threads that are done are right. -/
structure Sound (sha1 : Str → List (Fin 256)) (d : Download) : Prop where
  regular : d.Regular
  placed : d.Placed
  upper : d.file.length ≤ d.nchunks * chunkSize
  settled : ∀ (k : ℕ) (t : Kernel), d.threads[k]? = some t → t.settled = true → d.Right sha1 k

section Step

variable {sha1 : Str → List (Fin 256)} {d d' : Download} {k : ℕ} {e : Event}

/-- The chunk of a thread that is done after its step is right. -/
lemma Moves.sound {e : Kernel.Event} {t t' : Kernel} {s : Str} (h : Moves sha1 d k e t t' s)
    (hd : d.Sound sha1) (ht : d.threads[k]? = some t) (hc : d.Careful sha1 (.kernel k e))
    (ht' : t'.settled = true) : Right sha1 { d with file := s } k := by
  cases h with
  | giveUp x a hlast => exact hc x a ht hlast
  | accept x a hsha => exact ⟨hc, hsha⟩
  | push => exact hd.settled k _ ht rfl
  | _ => cases ht'

/-- The chunks of the other threads stay. -/
lemma Moves.chunk_settled {e : Kernel.Event} {t t' : Kernel} {s : Str} (h : Moves sha1 d k e t t' s)
    (hd : d.Sound sha1) (ht : d.threads[k]? = some t) (hc : d.Careful sha1 (.kernel k e)) {j : ℕ}
    {u : Kernel} (hj : j ≠ k) (hu : d.threads[j]? = some u) (hsettled : u.settled = true) :
    chunk j s = chunk j d.file := by
  cases h with
  | write x a got w n hle =>
    apply chunk_written hd.regular hd.placed ht hle hj
    rintro rfl
    exact hc x a got w ht (Or.inr ⟨u, hu, hsettled⟩)
  | _ => rfl

/-- Nothing gets behind the last chunk. -/
lemma Moves.upper {e : Kernel.Event} {t t' : Kernel} {s : Str} (h : Moves sha1 d k e t t' s)
    (hd : d.Sound sha1) (ht : d.threads[k]? = some t) (hc : d.Careful sha1 (.kernel k e)) :
    s.length ≤ d.nchunks * chunkSize := by
  cases h with
  | write x a got w n hle =>
    have hlt := (List.getElem?_eq_some_iff.mp ht).1
    have hstarted := hd.regular.started
    by_cases hlast : d.nchunks = k + 1
    · have hdrop := congrArg List.length (hc x a got w ht (Or.inl hlast))
      have hupper := hd.upper
      rw [List.length_drop, List.length_drop, ← hlast] at hdrop
      omega
    · have hreceived := (hd.regular.received k x a got w ht).1
      have hsmall : smallChunkSize ≤ chunkSize := by decide
      have hend : (k + 2) * chunkSize ≤ d.nchunks * chunkSize :=
        Nat.mul_le_mul_right chunkSize (by omega)
      rw [length_written (hd.placed.reached k x a got w ht) hle]
      apply max_le hd.upper
      rw [Nat.add_mul] at hend
      omega
  | _ => exact hd.upper

/-- The step lemma. -/
lemma Sound.step (hd : d.Sound sha1) (hc : d.Careful sha1 e) (h : d.step sha1 e = some d') :
    d'.Sound sha1 := by
  have hregular := hd.regular.step h
  have hplaced := hd.placed.step hd.regular h
  rcases step_cases h with ⟨k, e, t, t', s, rfl, ht, hmoves, rfl⟩ | ⟨hfile, hmeta, hthreads⟩
  · refine ⟨hregular, hplaced, hmoves.upper hd ht hc, fun j u hj hu => ?_⟩
    rcases getElem?_set_cases hj with ⟨rfl, heq⟩ | ⟨hne, hj⟩
    · subst heq
      exact hmoves.sound hd ht hc hu
    · have hchunk := hmoves.chunk_settled hd ht hc hne hj hu
      obtain ⟨hthere, hsha⟩ := hd.settled j u hj hu
      exact ⟨hchunk ▸ hthere, (getFileHashsmall_congr _ hchunk).trans hsha⟩
  · refine ⟨hregular, hplaced, ?_, fun j u hj hu => ?_⟩
    · rw [hfile, nchunks, hmeta]
      exact hd.upper
    · rw [Right, hfile, hmeta]
      rcases hthreads j u hj with hj | ⟨x, rfl⟩
      · exact hd.settled j u hj hu
      · cases hu

end Step

lemma sound_of_downloadFile {sha1 : Str → List (Fin 256)} {group name path filehash output : Str}
    {d : Download} (h : downloadFile group name path filehash output = some d) :
    d.Sound sha1 := by
  have hregular := regular_of_downloadFile h
  have hplaced := placed_of_downloadFile h
  obtain ⟨size, seeders, rfl⟩ := eq_of_downloadFile h
  exact ⟨hregular, hplaced, (nchunks_spec _).1, by simp⟩

/-- The hash that is expected is the one the tracker gave. -/
lemma hash_of_downloadFile {group name path filehash output : Str} {d : Download}
    (h : downloadFile group name path filehash output = some d) : d.filemeta.hash = filehash := by
  obtain ⟨size, seeders, rfl⟩ := eq_of_downloadFile h
  rfl

end Download

open Download in
/-- Where no thread gives up while its chunk is wrong and no write spoils a chunk that is done,
    the message `complete` is sent only when the destination has the hash that the tracker gave. -/
theorem complete_when_whole {sha1 : Str → List (Fin 256)}
    {group name path filehash output : Str} {d₀ d d' : Download}
    (hstart : downloadFile group name path filehash output = some d₀)
    (hchunks : 0 < d₀.nchunks) (hhash : filehash.length ≤ d₀.nchunks * 20)
    (hrun : Machine.RunsWhen (step sha1) (Careful sha1) d₀ d)
    (hcomplete : d.step sha1 .complete = some d') : getFileHash2 sha1 d.file = filehash := by
  obtain ⟨hsound, hmeta⟩ : d.Sound sha1 ∧ d.filemeta = d₀.filemeta := by
    refine hrun.invariant (P := fun d => d.Sound sha1 ∧ d.filemeta = d₀.filemeta) ?_
      ⟨sound_of_downloadFile hstart, rfl⟩
    rintro d e d' ⟨hsound, hmeta⟩ hc hstep
    exact ⟨hsound.step hc hstep, (step_filemeta hstep).trans hmeta⟩
  have hexpected : d.filemeta.hash = filehash := by
    rw [hmeta]
    exact hash_of_downloadFile hstart
  have hnchunks : d.nchunks = d₀.nchunks := by
    rw [Download.nchunks, Download.nchunks, hmeta]
  rw [Download.step] at hcomplete
  split_ifs at hcomplete with hdone
  have hright : ∀ k < d.nchunks, d.Right sha1 k := by
    intro k hk
    have hlt : k < d.threads.length := by omega
    have ht : d.threads[k]? = some d.threads[k] := List.getElem?_eq_getElem hlt
    have hreturned := hsound.regular.returned hdone.2.1 ht
    apply hsound.settled k _ ht
    cases hthread : d.threads[k] <;> first | rfl | (rw [hthread] at hreturned; cases hreturned)
  have hlower : d.nchunks * chunkSize < d.file.length + chunkSize := by
    have hlast := (hright (d.nchunks - 1) (by omega)).1
    have hlt : (d.nchunks - 1) * chunkSize < d.file.length := by
      by_contra hle
      rw [chunk, List.drop_of_length_le (by omega)] at hlast
      exact hlast List.take_nil
    have hsucc : d.nchunks * chunkSize = (d.nchunks - 1) * chunkSize + chunkSize := by
      rw [← Nat.succ_mul]
      congr 1
      omega
    omega
  apply getFileHash2_of_pieces hsound.upper hlower
  · rw [hnchunks]
    exact hhash
  · rw [← hexpected]
    exact fun k hk => (hright k hk).2

/-! ### A file of one byte -/

/-- SHA-1 of `a` and of `5`. -/
def oneByteSha1 (s : Str) : List (Fin 256) :=
  if s = ['a'] then
    [134, 247, 228, 55, 250, 165, 167, 252, 225, 93, 29, 220, 185, 234, 234, 234, 55, 118, 103, 184]
  else if s = ['5'] then
    [172, 52, 120, 214, 154, 60, 129, 250, 98, 230, 15, 92, 54, 150, 22, 90, 78, 94, 106, 196]
  else []

/-- The download of a file `a` with one seeder. -/
def oneByte : Download :=
  ⟨⟨"g".toList, "f".toList, "/d".toList, piece oneByteSha1 ['a'], "1".toList, ["s".toList]⟩,
    ['5'], [], 0, false⟩

lemma oneByte_start : downloadFile "g".toList "f".toList "/d".toList (piece oneByteSha1 ['a'])
    "s 1".toList = some oneByte := by
  decide

open Download in
/-- `Careful` as a test. -/
def testCareful (sha1 : Str → List (Fin 256)) (d : Download) : Event → Bool
  | .kernel k .refuse =>
    match d.threads[k]? with
    | some (.connecting _ a) => decide (d.filemeta.seeders.length ≤ a + 1 →
        chunk k d.file ≠ [] ∧ getFileHashsmall sha1 d.file k d.filemeta.hash = some true)
    | _ => true
  | .kernel k .check => decide (chunk k d.file ≠ [])
  | .kernel k (.write n) =>
    match d.threads[k]? with
    | some (.receiving _ _ got w) => decide (
        (d.written k got w n).drop ((k + 1) * chunkSize) = d.file.drop ((k + 1) * chunkSize))
    | _ => true
  | _ => true

open Download in
lemma careful_of_test {sha1 : Str → List (Fin 256)} {d : Download} {e : Event}
    (h : testCareful sha1 d e = true) : Careful sha1 d e := by
  cases e with
  | kernel k e =>
    cases e with
    | refuse =>
      intro x a ht
      rw [testCareful, ht] at h
      have hright := of_decide_eq_true h
      exact hright
    | check =>
      rw [testCareful] at h
      have hthere := of_decide_eq_true h
      exact hthere
    | write n =>
      intro x a got w ht _
      rw [testCareful, ht] at h
      exact of_decide_eq_true h
    | _ => trivial
  | _ => trivial

open Download in
theorem complete_when_whole_oneByte : ∃ d d' : Download,
    Machine.RunsWhen (step oneByteSha1) (Careful oneByteSha1) oneByte d ∧
      d.step oneByteSha1 .complete = some d' ∧
      getFileHash2 oneByteSha1 d.file = piece oneByteSha1 ['a'] := by
  let events : List Event := [.create 0, .kernel 0 .connect, .kernel 0 (.recv ['a']),
    .kernel 0 (.write 1), .kernel 0 .close, .kernel 0 .updateServer, .kernel 0 .check,
    .kernel 0 .push]
  have hplayed : ((Machine.play (step oneByteSha1) (testCareful oneByteSha1) oneByte events).any
      fun d => (d.step oneByteSha1 .complete).isSome) = true := by
    decide +kernel
  obtain ⟨d, hd, hend⟩ := (Option.any_eq_true _ _).mp hplayed
  obtain ⟨d', hd'⟩ := Option.isSome_iff_exists.mp hend
  have hrun : Machine.RunsWhen (step oneByteSha1) (Careful oneByteSha1) oneByte d :=
    Machine.play_runsWhen (fun _ _ h => careful_of_test h) hd
  exact ⟨d, d', hrun, hd',
    complete_when_whole oneByte_start (by decide) (by decide) hrun hd'⟩

open Download in
/-- The only seeder is gone, the thread gives up, and the destination is still filled with `5`. -/
theorem complete_without_content : ∃ d d' : Download,
    Machine.RunsWhen (step oneByteSha1) (fun _ _ => True) oneByte d ∧
      d.step oneByteSha1 .complete = some d' ∧ d.file = ['5'] ∧
      getFileHash2 oneByteSha1 d.file ≠ piece oneByteSha1 ['a'] := by
  let events : List Event := [.create 0, .kernel 0 .refuse]
  have hplayed : ((Machine.play (step oneByteSha1) (fun _ _ => true) oneByte events).any
      fun d => (d.step oneByteSha1 .complete).isSome && decide (d.file = ['5'])) = true := by
    decide +kernel
  obtain ⟨d, hd, hend⟩ := (Option.any_eq_true _ _).mp hplayed
  rw [Bool.and_eq_true, decide_eq_true_eq] at hend
  obtain ⟨d', hd'⟩ := Option.isSome_iff_exists.mp hend.1
  refine ⟨d, d', Machine.play_runsWhen (fun _ _ _ => trivial) hd, hd', hend.2, ?_⟩
  rw [hend.2, getFileHash2_eq oneByteSha1 (n := 1) (by decide) (by decide)]
  decide

end TorrentShare
