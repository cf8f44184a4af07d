import Mathlib.Logic.Function.Basic
import TorrentShare.Peer.ChunkNumbers
import TorrentShare.Peer.Verified

/-!
# Advertised chunks

While a download runs, a peer answers `chunk_numbers` with the chunks that have been pushed into
`filechunks_map`, whose keys are names without groups. The entry is erased at the end of every
download, and a peer without an entry answers that it has all chunks.
-/

namespace TorrentShare

open Program

/-- What the tracker has recorded of a file of a group. -/
structure Catalogue where
  hash : Str → Str → Str
  size : Str → Str → Str

/-- The peer is listed as a seeder of a file in a group, with a path. -/
structure Listing where
  group : Str
  name : Str
  path : Str
  deriving DecidableEq

/-- Where the thread that calls `DownloadFile` is. `GetChunks` makes the entry of `filechunks_map`
    when the destination has been filled. -/
inductive Phase where
  | idle
  | filled (d : Download)
  | running (d : Download)

/-- A peer, with its files and what the tracker has listed. -/
structure Peer (ι : Type) where
  files : ι → Str
  filechunksMap : Str → Option (List ℕ)
  listed : List Listing
  phase : Phase

/-- What `UpdateServer` sends. -/
def Download.listing (d : Download) : Listing :=
  ⟨d.filemeta.group, d.filemeta.name, d.filemeta.path⟩

/-- What happens next. `accepted` is what the tracker does with `add_file`: it passes over a name
    that the user has already. `unlist` is a `stop_share` or a `leave_group`. -/
inductive Peer.Event where
  | start (group name path output : Str)
  | clear
  | download (e : Download.Event) (accepted : Bool)
  | finish
  | unlist (l : Listing)

namespace Peer

variable {ι : Type}

/-! ### Steps -/

/-- `filechunks_map` after a step of the download. -/
def recorded (filechunksMap : Str → Option (List ℕ)) (name : Str) :
    Download.Event → Str → Option (List ℕ)
  | .kernel k .push =>
    Function.update filechunksMap name (some ((filechunksMap name).getD [] ++ [k]))
  | _ => filechunksMap

/-- What is listed after a step of the download. -/
def announced (listed : List Listing) (l : Listing) (accepted : Bool) :
    Download.Event → List Listing
  | .kernel _ .updateServer => if accepted then l :: listed else listed
  | _ => listed

/-- One step of a peer. Paths that lead to one file have one value of `fileOf`. -/
def step [DecidableEq ι] (sha1 : Str → List (Fin 256)) (cat : Catalogue) (fileOf : Str → ι)
    (p : Peer ι) (e : Event) : Option (Peer ι) :=
  match e, p.phase with
  | .start group name path output, .idle =>
    (downloadFile group name path (cat.hash group name) output).bind fun d =>
      if d.filemeta.size = cat.size group name then
        some { p with files := Function.update p.files (fileOf path) d.file, phase := .filled d }
      else none
  | .clear, .filled d =>
    some { p with
      filechunksMap := Function.update p.filechunksMap d.filemeta.name (some [])
      phase := .running d }
  | .download e accepted, .running d => (d.step sha1 e).map fun d' =>
    { files := Function.update p.files (fileOf d.filemeta.path) d'.file
      filechunksMap := recorded p.filechunksMap d.filemeta.name e
      listed := announced p.listed d.listing accepted e
      phase := .running d' }
  | .finish, .running d =>
    if d.completed then
      some { p with
        filechunksMap := Function.update p.filechunksMap d.filemeta.name none
        phase := .idle }
    else none
  | .unlist l, _ => some { p with listed := p.listed.erase l }
  | _, _ => none

variable (sha1 : Str → List (Fin 256)) (cat : Catalogue) (fileOf : Str → ι)

/-- `GetFileHashsmall` accepts chunk `n` of what the peer has listed. -/
def Right (p : Peer ι) (l : Listing) (n : ℕ) : Prop :=
  n < nchunks (cat.size l.group l.name) ∧
    getFileHashsmall sha1 (p.files (fileOf l.path)) n (cat.hash l.group l.name) = some true

/-- What the reply to `chunk_numbers` stands for is right. -/
def Advertises (p : Peer ι) : Prop :=
  ∀ l ∈ p.listed, ∀ i ∈ chunkNumbers (nchunks (cat.size l.group l.name))
    (getChunkInfo (p.filechunksMap l.name)), ∃ n : ℕ, i = n ∧ p.Right sha1 cat fileOf l n

/-- No download is started into a file that is listed. No write changes a verified chunk of another
    thread. No chunk is pushed that another listed file of the name does not have. When the entry is
    erased, the chunks whose threads have given up are right, if the download is listed. -/
def Careful (p : Peer ι) : Event → Prop
  | .start _ _ path _ => ∀ l ∈ p.listed, fileOf l.path ≠ fileOf path
  | .download e _ => ∀ d, p.phase = .running d → d.Unchanged e ∧ ∀ k, e = .kernel k .push →
      ∀ l ∈ p.listed, l.name = d.filemeta.name → k < nchunks (cat.size l.group l.name)
  | .finish => ∀ d, p.phase = .running d → d.listing ∈ p.listed → ∀ k : ℕ,
      d.threads[k]? = some .gaveUp → getFileHashsmall sha1 d.file k d.filemeta.hash = some true
  | _ => True

end Peer

/-! ### Ends of downloads -/

namespace Download

variable {sha1 : Str → List (Fin 256)} {d d' : Download} {e : Event}

/-- When `complete` has been sent, there has been a thread for every chunk, and all have
    returned. -/
def Ended (d : Download) : Prop :=
  d.completed = true → d.threads.length = d.nchunks ∧
    ∀ (k : ℕ) (t : Kernel), d.threads[k]? = some t → t.returned = true

lemma Ended.step (hended : d.Ended) (hd : d.Regular) (h : d.step sha1 e = some d') :
    d'.Ended := by
  cases e with
  | create x =>
    rw [Download.step] at h
    split_ifs at h with hnew
    cases h
    intro hcompleted
    exact absurd (hended hcompleted).1 hnew.1.ne
  | join =>
    rw [Download.step] at h
    split_ifs at h
    cases h
    exact hended
  | kernel k e =>
    obtain ⟨t, t', s, ht, hmoves, rfl⟩ := step_kernel h
    intro hcompleted
    have hreturned := (hended hcompleted).2 k t ht
    rw [(kernelStep_moves hmoves).not_returned] at hreturned
    cases hreturned
  | complete =>
    rw [Download.step] at h
    split_ifs at h with hdone
    cases h
    exact fun _ => ⟨hdone.1, fun k t ht => hd.returned hdone.2.1 ht⟩

/-- Of a download that has ended, every chunk has been pushed or given up. -/
lemma Ended.thread (hended : d.Ended) (hcompleted : d.completed = true) {k : ℕ}
    (hk : k < d.nchunks) : d.threads[k]? = some .pushed ∨ d.threads[k]? = some .gaveUp := by
  obtain ⟨hlength, hreturned⟩ := hended hcompleted
  have ht : d.threads[k]? = some d.threads[k] := List.getElem?_eq_getElem (hlength ▸ hk)
  have hthread := hreturned k _ ht
  rw [ht]
  cases hcase : d.threads[k] with
  | pushed => exact Or.inl rfl
  | gaveUp => exact Or.inr rfl
  | _ =>
    rw [hcase] at hthread
    cases hthread

lemma ended_of_downloadFile {group name path filehash output : Str} {d : Download}
    (h : downloadFile group name path filehash output = some d) : d.Ended := by
  obtain ⟨size, seeders, rfl⟩ := eq_of_downloadFile h
  intro hcompleted
  cases hcompleted

/-- What a download is about is what the call and the reply of the tracker say. -/
lemma listing_of_downloadFile {group name path filehash output : Str} {d : Download}
    (h : downloadFile group name path filehash output = some d) :
    d.listing = ⟨group, name, path⟩ := by
  obtain ⟨size, seeders, rfl⟩ := eq_of_downloadFile h
  rfl

end Download

namespace Peer

/-! ### What holds in every state -/

variable {ι : Type} {sha1 : Str → List (Fin 256)} {cat : Catalogue} {fileOf : Str → ι}
  {p p' : Peer ι} {d d' : Download}

variable (sha1 cat fileOf) in
/-- All chunks of what is listed are right. -/
def Whole (p : Peer ι) (l : Listing) : Prop :=
  ∀ n < nchunks (cat.size l.group l.name), p.Right sha1 cat fileOf l n

variable (sha1 cat fileOf) in
/-- A download is under way: its file is there, and there is no entry for another name. -/
structure Serves (p : Peer ι) (d : Download) : Prop where
  checked : d.Checked sha1
  ended : d.Ended
  onDisk : p.files (fileOf d.filemeta.path) = d.file
  hash : d.filemeta.hash = cat.hash d.filemeta.group d.filemeta.name
  size : d.filemeta.size = cat.size d.filemeta.group d.filemeta.name
  elsewhere : ∀ name ≠ d.filemeta.name, p.filechunksMap name = none
  others : ∀ l ∈ p.listed, l = d.listing ∨
    p.Whole sha1 cat fileOf l ∧ fileOf l.path ≠ fileOf d.filemeta.path

variable (sha1 cat fileOf) in
/-- Without a download there is no entry and everything that is listed is whole. The entry of a
    download has pushed chunks only, which every listed file of the name has. -/
def Honest (p : Peer ι) : Prop :=
  match p.phase with
  | .idle => (∀ name, p.filechunksMap name = none) ∧ ∀ l ∈ p.listed, p.Whole sha1 cat fileOf l
  | .filled d => p.Serves sha1 cat fileOf d ∧ p.filechunksMap d.filemeta.name = none ∧
      ∀ l ∈ p.listed, l ≠ d.listing
  | .running d => p.Serves sha1 cat fileOf d ∧ ∃ itr,
      p.filechunksMap d.filemeta.name = some itr ∧ ∀ k ∈ itr, d.threads[k]? = some .pushed ∧
        ∀ l ∈ p.listed, l.name = d.filemeta.name → k < nchunks (cat.size l.group l.name)

/-- What is whole stays so as long as its file does. -/
lemma Whole.congr {l : Listing} (hl : p.Whole sha1 cat fileOf l)
    (hfile : p'.files (fileOf l.path) = p.files (fileOf l.path)) :
    p'.Whole sha1 cat fileOf l := by
  intro n hn
  obtain ⟨-, hsha⟩ := hl n hn
  rw [← hfile] at hsha
  exact ⟨hn, hsha⟩

/-- A chunk of the download under way that has been pushed is right. -/
lemma Serves.right (hd : p.Serves sha1 cat fileOf d) {k : ℕ}
    (hk : d.threads[k]? = some .pushed) : p.Right sha1 cat fileOf d.listing k := by
  have hsha := hd.checked.verified k _ hk rfl
  have hlt := (List.getElem?_eq_some_iff.mp hk).1
  rw [hd.hash, ← hd.onDisk] at hsha
  refine ⟨?_, hsha⟩
  show k < nchunks (cat.size d.filemeta.group d.filemeta.name)
  rw [← hd.size]
  exact lt_of_lt_of_le hlt hd.checked.regular.started

/-- Where there is no entry for any name, the reply is right if everything is whole. -/
lemma Whole.right {l : Listing} (hl : p.Whole sha1 cat fileOf l)
    (hnone : p.filechunksMap l.name = none) {i : ℤ}
    (hi : i ∈ chunkNumbers (nchunks (cat.size l.group l.name))
      (getChunkInfo (p.filechunksMap l.name))) :
    ∃ n : ℕ, i = n ∧ p.Right sha1 cat fileOf l n := by
  rw [hnone, chunkNumbers_getChunkInfo_none] at hi
  obtain ⟨n, hn, rfl⟩ := List.mem_map.mp hi
  exact ⟨n, rfl, hl n (List.mem_range.mp hn)⟩

/-- What the invariant says about replies. -/
lemma Honest.advertises (hp : p.Honest sha1 cat fileOf) : p.Advertises sha1 cat fileOf := by
  intro l hl i hi
  rw [Honest] at hp
  split at hp
  · exact (hp.2 l hl).right (hp.1 l.name) hi
  · rename_i d hphase
    obtain ⟨hd, hnone, hnew⟩ := hp
    have hwhole := ((hd.others l hl).resolve_left (hnew l hl)).1
    apply hwhole.right ?_ hi
    by_cases hname : l.name = d.filemeta.name
    · rw [hname]
      exact hnone
    · exact hd.elsewhere l.name hname
  · rename_i d hphase
    obtain ⟨hd, itr, hitr, hpushed⟩ := hp
    by_cases hname : l.name = d.filemeta.name
    · have hint : ∀ k ∈ itr, k < 2 ^ 31 := by
        intro k hk
        have hlt := (hd.right (hpushed k hk).1).1
        have hle := nchunks_le (cat.size d.listing.group d.listing.name)
        omega
      rw [hname, hitr, chunkNumbers_getChunkInfo_some _ hint] at hi
      obtain ⟨k, hk, rfl⟩ := List.mem_map.mp hi
      refine ⟨k, rfl, ?_⟩
      obtain ⟨hthread, hsize⟩ := hpushed k hk
      rcases hd.others l hl with rfl | ⟨hwhole, -⟩
      · exact hd.right hthread
      · exact hwhole k (hsize l hl hname)
    · have hother : l ≠ d.listing := by
        rintro rfl
        exact hname rfl
      have hwhole := ((hd.others l hl).resolve_left hother).1
      exact hwhole.right (hd.elsewhere l.name hname) hi

/-! ### Steps of the invariant -/

/-- A file is filled that nothing listed leads to. -/
lemma Honest.start [DecidableEq ι] {group name path output : Str} (hp : p.Honest sha1 cat fileOf)
    (hphase : p.phase = .idle) (hpath : ∀ l ∈ p.listed, fileOf l.path ≠ fileOf path)
    (hd : downloadFile group name path (cat.hash group name) output = some d)
    (hsize : d.filemeta.size = cat.size group name) :
    Honest sha1 cat fileOf { p with
      files := Function.update p.files (fileOf path) d.file, phase := .filled d } := by
  rw [Honest, hphase] at hp
  obtain ⟨hnone, hwhole⟩ := hp
  have hhash := Download.hash_of_downloadFile hd
  have hlisting := Download.listing_of_downloadFile hd
  rw [Download.listing, Listing.mk.injEq] at hlisting
  obtain ⟨hgroup, hname, hdest⟩ := hlisting
  refine ⟨⟨Download.checked_of_downloadFile hd, Download.ended_of_downloadFile hd, ?_, ?_, ?_,
    fun name _ => hnone name, fun l hl => Or.inr ⟨?_, ?_⟩⟩, hnone _, fun l hl => ?_⟩
  · rw [hdest]
    exact Function.update_self ..
  · rw [hhash, hgroup, hname]
  · rw [hsize, hgroup, hname]
  · exact (hwhole l hl).congr (Function.update_of_ne (hpath l hl) ..)
  · rw [hdest]
    exact hpath l hl
  · rintro rfl
    apply hpath _ hl
    rw [Download.listing, hdest]

/-- The entry of the download is made. -/
lemma Honest.clear (hp : p.Honest sha1 cat fileOf) (hphase : p.phase = .filled d) :
    Honest sha1 cat fileOf { p with
      filechunksMap := Function.update p.filechunksMap d.filemeta.name (some [])
      phase := .running d } := by
  rw [Honest, hphase] at hp
  obtain ⟨hd, hnone, hnew⟩ := hp
  refine ⟨⟨hd.checked, hd.ended, hd.onDisk, hd.hash, hd.size, fun name hname => ?_, fun l hl => ?_⟩,
    [], Function.update_self .., by simp⟩
  · show Function.update p.filechunksMap _ _ name = none
    rw [Function.update_of_ne hname]
    exact hd.elsewhere name hname
  · exact (hd.others l hl).imp id fun h => ⟨h.1.congr rfl, h.2⟩

/-- The entry is erased. -/
lemma Honest.finish (hp : p.Honest sha1 cat fileOf) (hphase : p.phase = .running d)
    (hcompleted : d.completed = true)
    (hgaveUp : d.listing ∈ p.listed → ∀ k : ℕ, d.threads[k]? = some .gaveUp →
      getFileHashsmall sha1 d.file k d.filemeta.hash = some true) :
    Honest sha1 cat fileOf { p with
      filechunksMap := Function.update p.filechunksMap d.filemeta.name none
      phase := .idle } := by
  rw [Honest, hphase] at hp
  obtain ⟨hd, -⟩ := hp
  refine ⟨fun name => ?_, fun l hl => ?_⟩
  · show Function.update p.filechunksMap _ _ name = none
    by_cases hname : name = d.filemeta.name
    · rw [hname]
      exact Function.update_self ..
    · rw [Function.update_of_ne hname]
      exact hd.elsewhere name hname
  · rcases hd.others l hl with rfl | ⟨hwhole, -⟩
    · intro n hn
      have hlt : n < d.nchunks := by
        rw [Download.nchunks, hd.size]
        exact hn
      rcases hd.ended.thread hcompleted hlt with hpushed | hthread
      · exact hd.right hpushed
      · have hsha := hgaveUp hl n hthread
        rw [hd.hash, ← hd.onDisk] at hsha
        exact ⟨hn, hsha⟩
    · exact hwhole.congr rfl

/-- Nothing is listed but the download. -/
lemma mem_announced {listed : List Listing} {l l' : Listing} {accepted : Bool}
    {e : Download.Event} (h : l ∈ announced listed l' accepted e) : l = l' ∨ l ∈ listed := by
  unfold announced at h
  split at h
  · split_ifs at h
    · exact List.mem_cons.mp h
    · exact Or.inr h
  · exact Or.inr h

lemma recorded_of_ne {filechunksMap : Str → Option (List ℕ)} {name name' : Str}
    (e : Download.Event) (h : name' ≠ name) :
    recorded filechunksMap name e name' = filechunksMap name' := by
  unfold recorded
  split
  · exact Function.update_of_ne h ..
  · rfl

/-- The entry grows by a chunk that is pushed. -/
lemma recorded_self {filechunksMap : Str → Option (List ℕ)} {name : Str} {itr : List ℕ}
    (e : Download.Event) (h : filechunksMap name = some itr) : ∃ itr',
      recorded filechunksMap name e name = some itr' ∧
        ∀ k ∈ itr', k ∈ itr ∨ e = .kernel k .push := by
  unfold recorded
  split
  · rename_i k
    refine ⟨itr ++ [k], ?_, fun j hj => ?_⟩
    · rw [h, Function.update_self]
      rfl
    · rcases List.mem_append.mp hj with hj | hj
      · exact Or.inl hj
      · rw [List.mem_singleton.mp hj]
        exact Or.inr rfl
  · exact ⟨itr, h, fun k hk => Or.inl hk⟩

/-- The download takes a step. -/
lemma Honest.download [DecidableEq ι] {e : Download.Event} {accepted : Bool}
    (hp : p.Honest sha1 cat fileOf) (hphase : p.phase = .running d)
    (hstep : d.step sha1 e = some d') (hun : d.Unchanged e)
    (hpush : ∀ k, e = .kernel k .push → ∀ l ∈ p.listed, l.name = d.filemeta.name →
      k < nchunks (cat.size l.group l.name)) :
    Honest sha1 cat fileOf {
      files := Function.update p.files (fileOf d.filemeta.path) d'.file
      filechunksMap := recorded p.filechunksMap d.filemeta.name e
      listed := announced p.listed d.listing accepted e
      phase := .running d' } := by
  rw [Honest, hphase] at hp
  obtain ⟨hd, itr, hitr, hpushed⟩ := hp
  have hmeta := Download.step_filemeta hstep
  have hlisting : d'.listing = d.listing := by
    rw [Download.listing, Download.listing, hmeta]
  have hchecked := hd.checked.step hun hstep
  obtain ⟨itr', hitr', hgrown⟩ := recorded_self e hitr
  have hthread : ∀ k ∈ itr', d'.threads[k]? = some .pushed := by
    intro k hk
    rcases hgrown k hk with hold | rfl
    · exact Download.step_pushed hstep (hpushed k hold).1
    · exact Download.step_push hstep
  refine ⟨⟨hchecked, hd.ended.step hd.checked.regular hstep, ?_, ?_, ?_, fun name hname => ?_,
    fun l hl => ?_⟩, itr', ?_, fun k hk => ⟨hthread k hk, fun l hl hname => ?_⟩⟩
  · rw [hmeta]
    exact Function.update_self ..
  · rw [hmeta]
    exact hd.hash
  · rw [hmeta]
    exact hd.size
  · rw [hmeta] at hname
    show recorded p.filechunksMap d.filemeta.name e name = none
    rw [recorded_of_ne e hname]
    exact hd.elsewhere name hname
  · rw [hlisting, hmeta]
    rcases mem_announced hl with rfl | hl
    · exact Or.inl rfl
    · exact (hd.others l hl).imp id fun h => ⟨h.1.congr (Function.update_of_ne h.2 ..), h.2⟩
  · rw [hmeta]
    exact hitr'
  · rcases mem_announced hl with rfl | hl
    · have hlt := (List.getElem?_eq_some_iff.mp (hthread k hk)).1
      have hstarted := hchecked.regular.started
      rw [Download.nchunks, hmeta, hd.size] at hstarted
      exact lt_of_lt_of_le hlt hstarted
    · rw [hmeta] at hname
      rcases hgrown k hk with hold | rfl
      · exact (hpushed k hold).2 l hl hname
      · exact hpush k rfl l hl hname

/-- Something is no longer listed. -/
lemma Honest.unlist {listed : List Listing} (hp : p.Honest sha1 cat fileOf)
    (hsub : ∀ l ∈ listed, l ∈ p.listed) :
    Honest sha1 cat fileOf { p with listed := listed } := by
  obtain ⟨files, filechunksMap, listed', phase⟩ := p
  cases phase with
  | idle => exact ⟨hp.1, fun l hl => (hp.2 l (hsub l hl)).congr rfl⟩
  | filled d =>
    obtain ⟨hd, hnone, hnew⟩ := hp
    refine ⟨⟨hd.checked, hd.ended, hd.onDisk, hd.hash, hd.size, hd.elsewhere, fun l hl => ?_⟩,
      hnone, fun l hl => hnew l (hsub l hl)⟩
    exact (hd.others l (hsub l hl)).imp id fun h => ⟨h.1.congr rfl, h.2⟩
  | running d =>
    obtain ⟨hd, itr, hitr, hpushed⟩ := hp
    refine ⟨⟨hd.checked, hd.ended, hd.onDisk, hd.hash, hd.size, hd.elsewhere, fun l hl => ?_⟩,
      itr, hitr, fun k hk => ⟨(hpushed k hk).1, fun l hl => (hpushed k hk).2 l (hsub l hl)⟩⟩
    exact (hd.others l (hsub l hl)).imp id fun h => ⟨h.1.congr rfl, h.2⟩

/-- The step lemma. -/
lemma Honest.step [DecidableEq ι] {e : Event} (hp : p.Honest sha1 cat fileOf)
    (hc : p.Careful sha1 cat fileOf e) (h : p.step sha1 cat fileOf e = some p') :
    p'.Honest sha1 cat fileOf := by
  unfold Peer.step at h
  split at h
  · rename_i hphase
    obtain ⟨d, hd, h⟩ := Option.bind_eq_some_iff.mp h
    split_ifs at h with hsize
    cases h
    exact hp.start hphase hc hd hsize
  · rename_i hphase
    cases h
    exact hp.clear hphase
  · rename_i d hphase
    obtain ⟨d', hstep, rfl⟩ := Option.map_eq_some_iff.mp h
    obtain ⟨hun, hpush⟩ := hc d hphase
    exact hp.download hphase hstep hun hpush
  · rename_i d hphase
    split_ifs at h with hcompleted
    cases h
    exact hp.finish hphase hcompleted (hc d hphase)
  · cases h
    exact hp.unlist fun l hl => List.mem_of_mem_erase hl
  · cases h

end Peer

open Peer in
/-- Where no download goes into a listed file, no write changes a verified chunk of another thread,
    listed files of one name have the chunks that are pushed for it, and no entry is erased that
    lacks a chunk which is not right, the replies of a peer stand for right chunks only. -/
theorem advertised_chunks_right {ι : Type} [DecidableEq ι] {sha1 : Str → List (Fin 256)}
    {cat : Catalogue} {fileOf : Str → ι} {p₀ p : Peer ι} (hidle : p₀.phase = .idle)
    (hnone : ∀ name, p₀.filechunksMap name = none)
    (hlisted : ∀ l ∈ p₀.listed, ∀ n < nchunks (cat.size l.group l.name),
      p₀.Right sha1 cat fileOf l n)
    (hrun : Machine.RunsWhen (step sha1 cat fileOf) (Careful sha1 cat fileOf) p₀ p) :
    p.Advertises sha1 cat fileOf := by
  have hhonest : p.Honest sha1 cat fileOf := by
    refine hrun.invariant (fun p e p' hp hc hstep => hp.step hc hstep) ?_
    rw [Honest, hidle]
    exact ⟨hnone, hlisted⟩
  exact hhonest.advertises

/-! ### A peer with one download -/

/-- The tracker has a file of one byte. -/
def oneByteCatalogue : Catalogue := ⟨fun _ _ => piece oneByteSha1 ['a'], fun _ _ => "1".toList⟩

/-- A peer that has just been started. -/
def freshPeer : Peer Str := ⟨fun _ => [], fun _ => none, [], .idle⟩

namespace Peer

/-- `Careful` as a test. -/
def testCareful (p : Peer Str) : Event → Bool
  | .start _ _ path _ => p.listed.all fun l => decide (l.path ≠ path)
  | .download (.kernel k (.write _)) _ =>
    match p.phase with
    | .running d => decide (d.threads[k + 1]? = none)
    | _ => true
  | .download (.kernel k .push) _ => p.listed.all fun l =>
    decide (k < nchunks (oneByteCatalogue.size l.group l.name))
  | .finish =>
    match p.phase with
    | .running d => d.threads.all fun t => decide (t ≠ .gaveUp)
    | _ => true
  | _ => true

lemma careful_of_test {p : Peer Str} {e : Event} (h : testCareful p e = true) :
    p.Careful oneByteSha1 oneByteCatalogue id e := by
  cases e with
  | start group name path output =>
    intro l hl
    exact of_decide_eq_true (List.all_eq_true.mp h l hl)
  | download e accepted =>
    intro d hphase
    cases e with
    | kernel k e =>
      cases e with
      | write n =>
        rw [testCareful, hphase] at h
        refine ⟨fun x a got w t _ ht => ?_, fun k' hpush => by cases hpush⟩
        cases (of_decide_eq_true h).symm.trans ht
      | push =>
        refine ⟨trivial, fun k' hpush l hl _ => ?_⟩
        cases hpush
        exact of_decide_eq_true (List.all_eq_true.mp h l hl)
      | _ => exact ⟨trivial, fun k' hpush => by cases hpush⟩
    | _ => exact ⟨trivial, fun k' hpush => by cases hpush⟩
  | finish =>
    intro d hphase _ k hk
    rw [testCareful, hphase] at h
    exact absurd rfl (of_decide_eq_true (List.all_eq_true.mp h _ (List.mem_of_getElem? hk)))
  | _ => trivial

end Peer

open Peer in
theorem advertised_chunks_right_oneByte : ∃ p : Peer Str,
    Machine.RunsWhen (step oneByteSha1 oneByteCatalogue id)
        (Careful oneByteSha1 oneByteCatalogue id) freshPeer p ∧
      p.listed = [⟨"g".toList, "f".toList, "/d".toList⟩] ∧
      getChunkInfo (p.filechunksMap "f".toList) = "-1".toList ∧
      p.Advertises oneByteSha1 oneByteCatalogue id := by
  let events : List Event := [.start "g".toList "f".toList "/d".toList "s 1".toList, .clear,
    .download (.create 0) true, .download (.kernel 0 .connect) true,
    .download (.kernel 0 (.recv ['a'])) true, .download (.kernel 0 (.write 1)) true,
    .download (.kernel 0 .close) true, .download (.kernel 0 .updateServer) true,
    .download (.kernel 0 .check) true, .download (.kernel 0 .push) true,
    .download .complete true, .finish]
  have hplayed : ((Machine.play (step oneByteSha1 oneByteCatalogue id) Peer.testCareful
      freshPeer events).any fun p => decide (p.listed = [⟨"g".toList, "f".toList, "/d".toList⟩]) &&
        decide (getChunkInfo (p.filechunksMap "f".toList) = "-1".toList)) = true := by
    decide +kernel
  obtain ⟨p, hp, hend⟩ := (Option.any_eq_true _ _).mp hplayed
  rw [Bool.and_eq_true, decide_eq_true_eq, decide_eq_true_eq] at hend
  have hrun := Machine.play_runsWhen (fun _ _ h => Peer.careful_of_test h) hp
  have hfresh : ∀ l ∈ freshPeer.listed,
      ∀ n < nchunks (oneByteCatalogue.size l.group l.name),
        freshPeer.Right oneByteSha1 oneByteCatalogue id l n := by
    intro l hl
    cases hl
  exact ⟨p, hrun, hend.1, hend.2, advertised_chunks_right rfl (fun _ => rfl) hfresh hrun⟩

open Peer in
/-- The seeder goes away before it has sent anything. The peer is listed all the same, and its reply
    stands for the chunk that was given up. -/
theorem abandoned_chunk_advertised : ∃ p : Peer Str,
    Machine.RunsWhen (step oneByteSha1 oneByteCatalogue id) (fun _ _ => True) freshPeer p ∧
      p.listed = [⟨"g".toList, "f".toList, "/d".toList⟩] ∧
      getChunkInfo (p.filechunksMap "f".toList) = "-1".toList ∧
      ¬p.Advertises oneByteSha1 oneByteCatalogue id := by
  let events : List Event := [.start "g".toList "f".toList "/d".toList "s 1".toList, .clear,
    .download (.create 0) true, .download (.kernel 0 .connect) true,
    .download (.kernel 0 .close) true, .download (.kernel 0 .updateServer) true,
    .download (.kernel 0 .check) true, .download (.kernel 0 .refuse) true,
    .download .complete true, .finish]
  have hplayed : ((Machine.play (step oneByteSha1 oneByteCatalogue id) (fun _ _ => true) freshPeer
      events).any fun p => decide (p.listed = [⟨"g".toList, "f".toList, "/d".toList⟩]) &&
        (decide (p.filechunksMap "f".toList = none) && decide (p.files "/d".toList = ['5']))) =
      true := by
    decide +kernel
  obtain ⟨p, hp, hend⟩ := (Option.any_eq_true _ _).mp hplayed
  rw [Bool.and_eq_true, Bool.and_eq_true, decide_eq_true_eq, decide_eq_true_eq,
    decide_eq_true_eq] at hend
  obtain ⟨hlisted, hnone, hfile⟩ := hend
  refine ⟨p, Machine.play_runsWhen (fun _ _ _ => trivial) hp, hlisted, by rw [hnone]; rfl, ?_⟩
  intro hadvertises
  have hl : (⟨"g".toList, "f".toList, "/d".toList⟩ : Listing) ∈ p.listed := by
    rw [hlisted]
    exact List.mem_cons_self
  obtain ⟨n, hn, -, hsha⟩ := hadvertises _ hl 0 (by rw [hnone]; decide)
  have hzero : n = 0 := by omega
  rw [hzero, id, hfile] at hsha
  revert hsha
  decide

end TorrentShare
