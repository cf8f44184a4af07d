import TorrentShare.Peer.Completion
import TorrentShare.Peer.Received
import TorrentShare.Program.Retries

/-!
# Attempts at a chunk

`DownloadKernel` counts the connections that are refused, goes on to the next seeder after each, and
gives up after as many as there are seeders. When the hash of the chunk is wrong it asks the same
seeder again, and counts nothing.
-/

namespace TorrentShare

open Program

/-- What a turn of the loop meets with: a `connect` that fails; the results of `recv`, and what the
    other threads make of the destination until the chunk is checked; or a `recv` that does not
    return, because the seeder keeps the connection open and sends nothing. -/
inductive ChunkAttempt where
  | refused
  | served (outputs : List Str) (others : Str → Str)
  | silent

/-- Where the thread is: at the beginning of a turn, with the destination, `seeder_num` and
    `attempts`; at one of its ends; or somewhere it does not come back from. -/
inductive Loop where
  | turn (fs : Str) (seeder_num attempts : ℕ)
  | recorded
  | gaveUp
  | stopped
  deriving DecidableEq

def Loop.returned : Loop → Bool
  | .recorded => true
  | .gaveUp   => true
  | _         => false

section Loop

variable (sha1 : Str → List (Fin 256)) (filemeta : FileData) (k : ℕ)

/-- A turn of the loop of `DownloadKernel`. -/
def Loop.next : Loop → ChunkAttempt → Loop
  | .turn fs num attempts, .refused =>
    if filemeta.seeders.length ≤ attempts + 1 then .gaveUp
    else .turn fs ((num + 1) % filemeta.seeders.length) (attempts + 1)
  | .turn fs num attempts, .served outputs others =>
    let fs' := others (receiveChunk fs k outputs)
    match getFileHashsmall sha1 fs' k filemeta.hash with
    | some true  => .recorded
    | some false => .turn fs' num attempts
    -- `substr` throws
    | none       => .stopped
  | .turn .., .silent => .stopped
  | l, _ => l

/-- `DownloadKernel` after its first turns. -/
def downloadKernel (fs : Str) (seeder_num : ℕ) (attempts : ℕ → ChunkAttempt) : ℕ → Loop
  | 0     => .turn fs seeder_num 0
  | m + 1 => (downloadKernel fs seeder_num attempts m).next sha1 filemeta k (attempts m)

/-! ### What the attempts come to -/

/-- What is in the destination after some attempts. -/
def contents (fs : Str) (attempts : ℕ → ChunkAttempt) : ℕ → Str
  | 0     => fs
  | m + 1 =>
    match attempts m with
    | .served outputs others => others (receiveChunk (contents fs attempts m) k outputs)
    | _ => contents fs attempts m

/-- What an attempt comes to. -/
def outcome (fs : Str) (attempts : ℕ → ChunkAttempt) (i : ℕ) : Retrying.Outcome :=
  match attempts i with
  | .refused => .refused
  | .silent  => .lost
  | .served _ _ =>
    match getFileHashsmall sha1 (contents k fs attempts (i + 1)) k filemeta.hash with
    | some true  => .passed
    | some false => .failed
    | none       => .lost

end Loop

/-- The loop as a client that asks the seeders. -/
def Loop.client : Loop → Retrying.Client
  | .turn _ num attempts => .asking num attempts
  | .recorded            => .served
  | .gaveUp              => .gaveUp
  | .stopped             => .waiting

@[simp] lemma Loop.returned_client (l : Loop) : l.client.returned = l.returned := by
  cases l <;> rfl

section Runs

variable {sha1 : Str → List (Fin 256)} {filemeta : FileData} {k x m : ℕ} {fs : Str}
  {attempts : ℕ → ChunkAttempt}

/-- The loop asks the seeders as a client does, and a turn begins with what has been written. -/
lemma downloadKernel_spec (m : ℕ) :
    (downloadKernel sha1 filemeta k fs x attempts m).client =
      Retrying.after filemeta.seeders.length (.asking x 0)
        (outcome sha1 filemeta k fs attempts) m ∧
    ∀ fs' y a, downloadKernel sha1 filemeta k fs x attempts m = .turn fs' y a →
      fs' = contents k fs attempts m := by
  induction m with
  | zero =>
    refine ⟨rfl, fun fs' y a h => ?_⟩
    cases h
    rfl
  | succ m ih =>
    obtain ⟨hclient, hfile⟩ := ih
    rw [downloadKernel, Retrying.after, ← hclient]
    cases hloop : downloadKernel sha1 filemeta k fs x attempts m with
    | turn fs' y a =>
      obtain rfl := hfile fs' y a hloop
      cases hm : attempts m with
      | refused =>
        have hout : outcome sha1 filemeta k fs attempts m = .refused := by simp only [outcome, hm]
        rw [hout, Loop.next, Loop.client, Retrying.Client.next]
        split_ifs
        · exact ⟨rfl, fun fs' y a h => by cases h⟩
        · refine ⟨rfl, fun fs' y a h => ?_⟩
          cases h
          simp only [contents, hm]
      | served outputs others =>
        have hcontents : others (receiveChunk (contents k fs attempts m) k outputs) =
            contents k fs attempts (m + 1) := by
          simp only [contents, hm]
        simp only [Loop.next, outcome, hm, hcontents]
        cases getFileHashsmall sha1 (contents k fs attempts (m + 1)) k filemeta.hash with
        | none => exact ⟨rfl, fun fs' y a h => by cases h⟩
        | some b =>
          cases b with
          | true => exact ⟨rfl, fun fs' y a h => by cases h⟩
          | false =>
            refine ⟨rfl, fun fs' y a h => ?_⟩
            cases h
            rfl
      | silent =>
        have hout : outcome sha1 filemeta k fs attempts m = .lost := by simp only [outcome, hm]
        rw [hout]
        exact ⟨rfl, fun fs' y a h => by cases h⟩
    | _ => exact ⟨rfl, fun fs' y a h => by cases h⟩

lemma outcome_eq_refused {i : ℕ} : outcome sha1 filemeta k fs attempts i = .refused ↔
    attempts i = .refused := by
  unfold outcome
  cases attempts i with
  | refused => simp
  | silent => simp
  | served outputs others =>
    cases getFileHashsmall sha1 (contents k fs attempts (i + 1)) k filemeta.hash with
    | none => simp
    | some b => cases b <;> simp

/-! ### The threads of a download -/

/-- The thread as a client that asks the seeders. -/
def Kernel.client : Kernel → Retrying.Client
  | .connecting x a    => .asking x a
  | .receiving x a _ _ => .asking x a
  | .updating x a      => .asking x a
  | .checking x a      => .asking x a
  | .accepted          => .served
  | .pushed            => .served
  | .gaveUp            => .gaveUp

/-- Later attempts make no difference. -/
lemma downloadKernel_congr {attempts' : ℕ → ChunkAttempt} (h : ∀ i < m, attempts i = attempts' i) :
    downloadKernel sha1 filemeta k fs x attempts m =
      downloadKernel sha1 filemeta k fs x attempts' m := by
  induction m with
  | zero => rfl
  | succ m ih =>
    rw [downloadKernel, downloadKernel, ih fun i hi => h i (Nat.lt_succ_of_lt hi),
      h m (Nat.lt_succ_self m)]

/-- One more attempt, of any kind. -/
lemma downloadKernel_update (o : ChunkAttempt) :
    downloadKernel sha1 filemeta k fs x (Function.update attempts m o) (m + 1) =
      (downloadKernel sha1 filemeta k fs x attempts m).next sha1 filemeta k o := by
  have hsame : ∀ i < m, Function.update attempts m o i = attempts i :=
    fun i hi => Function.update_of_ne hi.ne _ _
  rw [downloadKernel, Function.update_self, downloadKernel_congr hsame]

lemma Loop.eq_turn {l : Loop} {y a : ℕ} (h : l.client = .asking y a) : ∃ fs, l = .turn fs y a := by
  cases l with
  | turn fs num attempts =>
    cases h
    exact ⟨fs, rfl⟩
  | _ => cases h

variable (sha1 filemeta) in
/-- The thread for chunk `k` is where the loop gets to with some attempts. -/
def Kernel.InLoop (k : ℕ) (t : Kernel) : Prop :=
  ∃ fs x attempts m, x < filemeta.seeders.length ∧
    t.client = (downloadKernel sha1 filemeta k fs x attempts m).client

/-- One more turn of the loop. -/
lemma Kernel.InLoop.turn {t t' : Kernel} {y a : ℕ} (h : t.InLoop sha1 filemeta k)
    (ht : t.client = .asking y a) (o : ChunkAttempt)
    (ht' : ∀ fs, t'.client = ((Loop.turn fs y a).next sha1 filemeta k o).client) :
    t'.InLoop sha1 filemeta k := by
  obtain ⟨fs, x, attempts, m, hx, hloop⟩ := h
  obtain ⟨fs', hturn⟩ := Loop.eq_turn (hloop.symm.trans ht)
  refine ⟨fs, x, Function.update attempts m o, m + 1, hx, ?_⟩
  rw [downloadKernel_update, hturn]
  exact ht' fs'

namespace Download

/-- A refused connection. -/
lemma kernelStep_refuse {d : Download} {t t' : Kernel} {s : Str}
    (h : d.kernelStep sha1 k .refuse t = some (t', s)) : ∃ y a, t = .connecting y a ∧
      t' = if d.filemeta.seeders.length ≤ a + 1 then .gaveUp
        else .connecting ((y + 1) % d.filemeta.seeders.length) (a + 1) := by
  cases t with
  | connecting y a =>
    cases h
    exact ⟨y, a, rfl, rfl⟩
  | _ => cases h

/-- A step of the thread is a turn of the loop, or a part of one. -/
lemma inLoop_of_kernelStep {d : Download} {e : Kernel.Event} {t t' : Kernel} {s : Str}
    (h : d.kernelStep sha1 k e t = some (t', s)) (ht : t.InLoop sha1 d.filemeta k) :
    t'.InLoop sha1 d.filemeta k := by
  by_cases hrefuse : e = .refuse
  · subst hrefuse
    obtain ⟨y, a, rfl, rfl⟩ := kernelStep_refuse h
    refine ht.turn rfl .refused fun fs => ?_
    rw [Loop.next]
    split_ifs <;> rfl
  · have hmoves := kernelStep_moves h
    cases hmoves with
    | giveUp => exact absurd rfl hrefuse
    | next => exact absurd rfl hrefuse
    | accept y a hsha =>
      refine ht.turn rfl (.served [] fun _ => d.file) fun fs => ?_
      simp only [Loop.next, hsha]
      rfl
    | reject y a hsha =>
      refine ht.turn rfl (.served [] fun _ => d.file) fun fs => ?_
      simp only [Loop.next, hsha]
      rfl
    | _ => exact ht

/-- In every run of a download, whatever its threads do to each other, each thread does what the
    loop does. -/
lemma inLoop_of_run {ok : Download → Event → Prop} {d₀ d : Download}
    (hrun : Machine.RunsWhen (step sha1) ok d₀ d) (hstart : d₀.threads = []) {t : Kernel}
    (ht : d.threads[k]? = some t) : t.InLoop sha1 d₀.filemeta k := by
  obtain ⟨-, hall⟩ : d.filemeta = d₀.filemeta ∧ ∀ (j : ℕ) (u : Kernel),
      d.threads[j]? = some u → u.InLoop sha1 d₀.filemeta j := by
    refine hrun.invariant (P := fun d => d.filemeta = d₀.filemeta ∧ ∀ (j : ℕ) (u : Kernel),
      d.threads[j]? = some u → u.InLoop sha1 d₀.filemeta j) ?_ ⟨rfl, fun j u hj => ?_⟩
    · rintro d e d' ⟨hmeta, hthreads⟩ - hstep
      refine ⟨(step_filemeta hstep).trans hmeta, fun j u hj => ?_⟩
      cases e with
      | kernel i e =>
        obtain ⟨t, t', s, hi, hkernel, rfl⟩ := step_kernel hstep
        rcases getElem?_set_cases hj with ⟨rfl, rfl⟩ | ⟨-, hj⟩
        · have hloop := hthreads _ t hi
          rw [← hmeta] at hloop ⊢
          exact inLoop_of_kernelStep hkernel hloop
        · exact hthreads j u hj
      | create x =>
        rw [Download.step] at hstep
        split_ifs at hstep with hnew
        cases hstep
        rcases getElem?_create_cases hj with hj | rfl
        · exact hthreads j u hj
        · exact ⟨[], x, fun _ => .refused, 0, hmeta ▸ hnew.2.2, rfl⟩
      | _ =>
        rw [Download.step] at hstep
        split_ifs at hstep
        cases hstep
        exact hthreads j u hj
    · rw [hstart, List.getElem?_nil] at hj
      cases hj
  exact hall k t ht

end Download

/-! ### Ends of the loop -/

/-- `DownloadKernel` returns just if some attempt leaves the chunk with its hash, or as many as
    there are seeders are refused, before one is lost. -/
theorem download_kernel_returns_iff (hx : x < filemeta.seeders.length) :
    (∃ m, (downloadKernel sha1 filemeta k fs x attempts m).returned = true) ↔
      ∃ m, (∀ i < m, outcome sha1 filemeta k fs attempts i ≠ .lost) ∧
        ((∃ i < m, outcome sha1 filemeta k fs attempts i = .passed) ∨
          filemeta.seeders.length ≤
            Retrying.refusals (outcome sha1 filemeta k fs attempts) m) := by
  have hclient : ∀ m, (downloadKernel sha1 filemeta k fs x attempts m).returned =
      (Retrying.after filemeta.seeders.length (.asking x 0)
        (outcome sha1 filemeta k fs attempts) m).returned := by
    intro m
    rw [← (downloadKernel_spec m).1, Loop.returned_client]
  simp only [hclient]
  exact Retrying.returned_iff hx

theorem download_kernel_returns_iff_oneByte : ∃ m, (downloadKernel oneByteSha1 oneByte.filemeta 0
    ['5'] 0 (fun _ => .served [['a']] id) m).returned = true := by
  apply (download_kernel_returns_iff (by decide)).mpr
  have hpassed : outcome oneByteSha1 oneByte.filemeta 0 ['5'] (fun _ => .served [['a']] id) 0 =
      .passed := by
    decide
  refine ⟨1, fun i hi => ?_, Or.inl ⟨0, Nat.one_pos, hpassed⟩⟩
  obtain rfl := Nat.lt_one_iff.mp hi
  rw [hpassed]
  decide

/-- The seeder closes every connection at once, so that the hash is wrong every time. -/
theorem closed_connections_never_end : 0 < oneByte.filemeta.seeders.length ∧
    ∀ m, (downloadKernel oneByteSha1 oneByte.filemeta 0 ['5'] 0
      (fun _ => .served [] id) m).returned = false := by
  refine ⟨by decide, fun m => ?_⟩
  have hturn : downloadKernel oneByteSha1 oneByte.filemeta 0 ['5'] 0 (fun _ => .served [] id) m =
      .turn ['5'] 0 0 := by
    have hwrong : getFileHashsmall oneByteSha1 ['5'] 0 oneByte.filemeta.hash = some false := by
      decide
    induction m with
    | zero => rfl
    | succ m ih =>
      rw [downloadKernel, ih]
      simp only [Loop.next, receiveChunk, receiveLoop, id, hwrong]
  rw [hturn]
  rfl

/-- A thread that returns without its chunk has been refused by every seeder. -/
theorem gave_up_after_all_refused (hx : x < filemeta.seeders.length)
    (hreturned : (downloadKernel sha1 filemeta k fs x attempts m).returned = true)
    (hchunk : downloadKernel sha1 filemeta k fs x attempts m ≠ .recorded) :
    ∀ y < filemeta.seeders.length, ∃ i < m, attempts i = .refused ∧
      ∃ fs' a, downloadKernel sha1 filemeta k fs x attempts i = .turn fs' y a := by
  intro y hy
  have hgaveUp : downloadKernel sha1 filemeta k fs x attempts m = .gaveUp := by
    cases hloop : downloadKernel sha1 filemeta k fs x attempts m with
    | gaveUp => rfl
    | recorded => exact absurd hloop hchunk
    | _ =>
      rw [hloop] at hreturned
      cases hreturned
  have hafter : (downloadKernel sha1 filemeta k fs x attempts m).client =
      Retrying.after filemeta.seeders.length (.asking x 0)
        (outcome sha1 filemeta k fs attempts) m := (downloadKernel_spec m).1
  rw [hgaveUp] at hafter
  obtain ⟨b, i, hi, hasked, hrefused⟩ := Retrying.refused_of_gaveUp hx hafter.symm hy
  refine ⟨i, hi, outcome_eq_refused.mp hrefused, ?_⟩
  rw [← (downloadKernel_spec i).1] at hasked
  cases hloop : downloadKernel sha1 filemeta k fs x attempts i with
  | turn fs' y' a =>
    rw [hloop] at hasked
    cases hasked
    exact ⟨fs', _, rfl⟩
  | _ =>
    rw [hloop] at hasked
    cases hasked

end Runs

/-- The only seeder of a file of one byte closes a connection at once, and is gone. -/
def goneAfterOne (i : ℕ) : ChunkAttempt := if i = 0 then .served [] id else .refused

theorem gave_up_after_all_refused_oneByte : ∃ i < 2, goneAfterOne i = .refused ∧
    ∃ fs' a, downloadKernel oneByteSha1 oneByte.filemeta 0 ['5'] 0 goneAfterOne i =
      .turn fs' 0 a :=
  gave_up_after_all_refused (by decide) (by decide) (by decide) 0 (by decide)

end TorrentShare
