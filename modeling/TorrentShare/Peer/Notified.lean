import TorrentShare.Peer.Completion

/-!
# Notifications

The thread of chunk 0 tells the tracker that the peer has the file. It does so after every transfer
of its chunk and before the check of the chunk, whatever the other threads have verified so far.
-/

namespace TorrentShare

open Program

/-- A message `add_file`, and the entry of `filechunks_map` when it is sent. -/
structure Notice where
  data : Str
  recorded : List ℕ
  deriving DecidableEq

/-- What `UpdateServer` sends. -/
def addFile (filemeta : FileData) (username : Str) : Str :=
  "add_file ".toList ++ filemeta.group ++ [' '] ++ filemeta.name ++ [' '] ++ filemeta.path ++
    [' '] ++ username

/-- A download, the entry of `filechunks_map` for its file, and the messages that have been sent. -/
structure Notifying where
  download : Download
  username : Str
  recorded : List ℕ := []
  notices : List Notice := []
  deriving DecidableEq

/-- The thread will come to `UpdateServer` before it checks its chunk. -/
def Kernel.notifies : Kernel → Bool
  | .receiving .. => true
  | .updating ..  => true
  | _             => false

namespace Notifying

/-- What happens in the download, and whether the TLS handshake succeeds if it is a call of
    `UpdateServer`. -/
abbrev Event := Download.Event × Bool

/-! ### Steps -/

/-- The entry after a step. -/
def pushedBy (s : Notifying) : Event → List ℕ
  | (.kernel k .push, _) => s.recorded ++ [k]
  | _                    => s.recorded

/-- The messages after a step. -/
def sentBy (s : Notifying) : Event → List Notice
  | (.kernel _ .updateServer, true) =>
    s.notices ++ [⟨addFile s.download.filemeta s.username, s.recorded⟩]
  | _ => s.notices

def step (sha1 : Str → List (Fin 256)) (s : Notifying) (e : Event) : Option Notifying :=
  (s.download.step sha1 e.1).map fun d =>
    { s with download := d, recorded := s.pushedBy e, notices := s.sentBy e }

/-- The message is sent when some thread has pushed its chunk, and the thread of chunk 0 does not
    connect again after it. -/
def Prompt (s : Notifying) : Event → Prop
  | (.kernel _ .updateServer, true) => ∃ k : ℕ, s.download.threads[k]? = some .pushed
  | (.kernel 0 .connect, _)         => s.notices = []
  | _                               => True

/-! ### The invariant -/

structure Sound (s : Notifying) : Prop where
  pushed : ∀ k : ℕ, s.download.threads[k]? = some .pushed → k ∈ s.recorded
  first : ∀ k x a : ℕ, s.download.threads[k]? = some (.updating x a) → k = 0
  ahead : ∀ t, s.download.threads[0]? = some t → t.notifies = true → s.notices = []
  once : s.notices.length ≤ 1
  verified : ∀ n ∈ s.notices, n.recorded ≠ []

section Step

variable {sha1 : Str → List (Fin 256)} {s s' : Notifying} {d : Download} {k : ℕ}
  {e : Kernel.Event} {t t' : Kernel} {f : Str} {handshake : Bool}

lemma subset_pushedBy (e : Event) : s.recorded ⊆ s.pushedBy e := by
  unfold pushedBy
  split
  · exact List.subset_append_left _ _
  · exact List.Subset.refl _

lemma sentBy_of_ne (he : e ≠ .updateServer) :
    s.sentBy (.kernel k e, handshake) = s.notices := by
  unfold sentBy
  split
  · rename_i heq
    cases heq
    exact absurd rfl he
  · rfl

/-- The thread has pushed its chunk just now, or before. -/
lemma mem_pushedBy (hmoves : d.Moves sha1 k e t t' f) (ht' : t' = .pushed) :
    k ∈ s.pushedBy (.kernel k e, handshake) := by
  subst ht'
  cases hmoves
  exact List.mem_append_right _ List.mem_cons_self

/-- Only the thread of chunk 0 comes to `UpdateServer`. -/
lemma first_of_moves (hmoves : d.Moves sha1 k e t t' f) {x a : ℕ} (ht' : t' = .updating x a) :
    k = 0 := by
  subst ht'
  cases hmoves with
  | closeFirst x a got hk => exact hk

/-- A thread on its way to `UpdateServer` has connected just now, or has been on its way. -/
lemma notifies_of_moves (hmoves : d.Moves sha1 k e t t' f) (ht' : t'.notifies = true) :
    e = .connect ∨ t.notifies = true ∧ e ≠ .updateServer := by
  cases hmoves with
  | connect => exact Or.inl rfl
  | recv => exact Or.inr ⟨rfl, by simp⟩
  | write => exact Or.inr ⟨rfl, by simp⟩
  | closeFirst => exact Or.inr ⟨rfl, by simp⟩
  | _ => cases ht'

lemma updating_of_moves (hmoves : d.Moves sha1 k .updateServer t t' f) :
    ∃ x a, t = .updating x a := by
  cases hmoves with
  | updateServer x a => exact ⟨x, a, rfl⟩

/-- What the messages are after a step of a thread: those before it, or the first one, sent with an
    entry that is not empty. -/
lemma Sound.sentBy_cases (hs : s.Sound) (hok : s.Prompt (.kernel k e, handshake))
    (ht : s.download.threads[k]? = some t) (hmoves : s.download.Moves sha1 k e t t' f) :
    s.sentBy (.kernel k e, handshake) = s.notices ∨ e = .updateServer ∧ k = 0 ∧
      ∃ n : Notice, s.sentBy (.kernel k e, handshake) = [n] ∧ n.recorded ≠ [] := by
  by_cases he : e = .updateServer
  · subst he
    cases handshake with
    | false => exact Or.inl rfl
    | true =>
      obtain ⟨x, a, rfl⟩ := updating_of_moves hmoves
      obtain rfl := hs.first k x a ht
      obtain ⟨j, hj⟩ := hok
      right
      refine ⟨rfl, rfl, ⟨addFile s.download.filemeta s.username, s.recorded⟩, ?_,
        List.ne_nil_of_mem (hs.pushed j hj)⟩
      rw [sentBy, hs.ahead _ ht rfl]
      rfl
  · exact Or.inl (sentBy_of_ne he)

lemma Sound.kernel (hs : s.Sound) (hok : s.Prompt (.kernel k e, handshake))
    (ht : s.download.threads[k]? = some t) (hmoves : s.download.Moves sha1 k e t t' f) :
    Sound { s with
      download := { s.download with threads := s.download.threads.set k t', file := f }
      recorded := s.pushedBy (.kernel k e, handshake)
      notices := s.sentBy (.kernel k e, handshake) } := by
  have hsent := hs.sentBy_cases hok ht hmoves
  refine ⟨fun j hj => ?_, fun j x a hj => ?_, fun u hu hnotifies => ?_, ?_, ?_⟩
  · rcases Download.getElem?_set_cases hj with ⟨rfl, heq⟩ | ⟨-, hj⟩
    · exact mem_pushedBy hmoves heq.symm
    · exact subset_pushedBy _ (hs.pushed j hj)
  · rcases Download.getElem?_set_cases hj with ⟨rfl, heq⟩ | ⟨-, hj⟩
    · exact first_of_moves hmoves heq.symm
    · exact hs.first j x a hj
  · rcases Download.getElem?_set_cases hu with ⟨rfl, rfl⟩ | ⟨hne, hu⟩
    · rcases notifies_of_moves hmoves hnotifies with rfl | ⟨ht', he⟩
      · exact hok
      · exact (sentBy_of_ne he).trans (hs.ahead t ht ht')
    · rcases hsent with hsent | ⟨-, rfl, -⟩
      · exact hsent.trans (hs.ahead u hu hnotifies)
      · exact absurd rfl hne
  · rcases hsent with hsent | ⟨-, -, n, hsent, -⟩
    · exact hsent ▸ hs.once
    · exact hsent ▸ le_refl 1
  · rcases hsent with hsent | ⟨-, -, n, hsent, hn⟩
    · exact hsent ▸ hs.verified
    · intro n' hn'
      rw [hsent] at hn'
      exact List.mem_singleton.mp hn' ▸ hn

/-- A new thread is not on its way to `UpdateServer`. -/
lemma Sound.other (hs : s.Sound) (hthreads : ∀ (j : ℕ) (t : Kernel), d.threads[j]? = some t →
    s.download.threads[j]? = some t ∨ ∃ x, t = .connecting x 0) :
    Sound { s with download := d } := by
  refine ⟨fun j hj => ?_, fun j x a hj => ?_, fun t ht hnotifies => ?_, hs.once, hs.verified⟩
  · rcases hthreads j _ hj with hj | ⟨x, hx⟩
    · exact hs.pushed j hj
    · cases hx
  · rcases hthreads j _ hj with hj | ⟨x, hx⟩
    · exact hs.first j _ _ hj
    · cases hx
  · rcases hthreads 0 t ht with ht | ⟨x, rfl⟩
    · exact hs.ahead t ht hnotifies
    · cases hnotifies

/-- The step lemma. -/
lemma Sound.step {e : Event} (hs : s.Sound) (hok : s.Prompt e) (h : s.step sha1 e = some s') :
    s'.Sound := by
  obtain ⟨e, handshake⟩ := e
  obtain ⟨d, hd, rfl⟩ := Option.map_eq_some_iff.mp h
  cases e with
  | kernel k e =>
    obtain ⟨t, t', f, ht, hkernel, rfl⟩ := Download.step_kernel hd
    exact hs.kernel hok ht (Download.kernelStep_moves hkernel)
  | _ =>
    rcases Download.step_cases hd with ⟨k, e', t, t', f, heq, -⟩ | ⟨-, -, hthreads⟩
    · cases heq
    · exact hs.other hthreads

end Step

/-- `Prompt` as a test. -/
def testPrompt (s : Notifying) : Event → Bool
  | (.kernel _ .updateServer, true) => s.download.threads.any (· = .pushed)
  | (.kernel 0 .connect, _)         => s.notices = []
  | _                               => true

lemma prompt_of_test {s : Notifying} {e : Event} (h : s.testPrompt e = true) : s.Prompt e := by
  unfold Prompt
  split
  · obtain ⟨t, ht, hpushed⟩ := List.any_eq_true.mp h
    obtain rfl := of_decide_eq_true hpushed
    exact List.mem_iff_getElem?.mp ht
  · have hnone := of_decide_eq_true h
    exact hnone
  · trivial

end Notifying

/-- A download of two chunks. All data have the same digest here, and chunk 1 is right. -/
def twoChunks : Download :=
  ⟨⟨"g".toList, "f".toList, "/d".toList, List.replicate 20 '0', "524289".toList, ["s".toList]⟩,
    filler "524289".toList, [], 0, false⟩

lemma twoChunks_start : downloadFile "g".toList "f".toList "/d".toList (List.replicate 20 '0')
    "s 524289".toList = some twoChunks := by
  have hsplit : split "s 524289".toList ' ' = ["s".toList, "524289".toList] := by decide
  rw [downloadFile, if_neg (by decide), if_neg (by decide), hsplit]
  rfl

end TorrentShare
