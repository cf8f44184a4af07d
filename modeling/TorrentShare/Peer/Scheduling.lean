import Mathlib.Data.List.Sort
import TorrentShare.Peer.Attempts
import TorrentShare.Peer.Choice

/-!
# The seeders of the threads

If every seeder has answered that it has all chunks, `GetChunks` goes around the seeders; otherwise
it takes what `CalcChunk` has decided, also where that is `-1` for a chunk that nobody has. A thread
whose connection is refused goes on to the next seeder, whatever that one has answered.
-/

namespace TorrentShare

open Program

/-! ### The plan -/

/-- The chunks that `CalcChunk` takes each seeder to have, from the replies to `chunk_numbers`. -/
def chunkSets (nchunks : ℕ) (replies : List Str) : List (List ℤ) :=
  replies.map fun output => (chunkNumbers nchunks output).map (· + 1)

/-- `CalcChunk`, from the replies of the seeders. `sort` stands for the call of `std::sort`. -/
def calcChunk (sort : List Load → List Load) (nchunks : ℕ) (replies : List Str) :
    Option (Bool × List ℤ) :=
  (populate (blankMatrix replies.length nchunks) (sort (holdings (chunkSets nchunks replies)))).bind
    fun matrix => (decideChunks matrix (List.replicate nchunks (-1))).map fun chunks =>
      (replies.any fun output => output ≠ "-1".toList, chunks)

/-- The loop of `GetChunks` from chunk `i` on: the `seeder_num` of each thread. There is no value if
    there are no seeders to go around. -/
def seederNums (plan : Bool × List ℤ) (nseeder : ℕ) : ℕ → ℕ → ℕ → Option (List ℤ)
  | 0,        _, _        => some []
  | todo + 1, i, ncounter =>
    if !plan.1 then
      if nseeder = 0 then none
      else (seederNums plan nseeder todo (i + 1) ((ncounter + 1) % nseeder)).map
        ((ncounter : ℤ) :: ·)
    else plan.2[i]?.bind fun x => (seederNums plan nseeder todo (i + 1) ncounter).map (x :: ·)

/-- `GetChunks`: what `CalcChunk` decides, and the `seeder_num` that each thread starts with. -/
def getChunks (sort : List Load → List Load) (filemeta : FileData) (replies : List Str) :
    Option (List ℤ) :=
  (calcChunk sort (nchunks filemeta.size) replies).bind fun plan =>
    seederNums plan filemeta.seeders.length (nchunks filemeta.size) 0 0

/-- A peer with this entry of `filechunks_map` has chunk `k`: it has no entry, or the number. -/
def Holds (k : ℕ) : Option (List ℕ) → Prop
  | none     => True
  | some itr => k ∈ itr

/-- The entries of the seeders have numbers of chunks only. -/
def Honest (nchunks : ℕ) (entries : List (Option (List ℕ))) : Prop :=
  ∀ itr, some itr ∈ entries → ∀ k ∈ itr, k < nchunks

/-- The seeder has answered that it has chunk `k`. -/
def Advertised (entries : List (Option (List ℕ))) (x k : ℕ) : Prop :=
  ∃ entry, entries[x]? = some entry ∧ Holds k entry

/-- What is decided for chunk `k`: a seeder that has answered that it has it, or `-1`. -/
def Decided (entries : List (Option (List ℕ))) (k : ℕ) (c : ℤ) : Prop :=
  c = -1 ∧ (∀ entry ∈ entries, ¬ Holds k entry) ∨ ∃ x : ℕ, c = x ∧ Advertised entries x k

/-! ### Honest replies -/

section Replies

variable {nchunks : ℕ} {entries : List (Option (List ℕ))}

/-- The numbers of chunks are small enough to be sent. -/
lemma Honest.lt_int (hhonest : Honest nchunks entries) (hn : nchunks ≤ 2 ^ 31) {itr : List ℕ}
    (hitr : some itr ∈ entries) : ∀ k ∈ itr, k < 2 ^ 31 :=
  fun k hk => (hhonest itr hitr k hk).trans_le hn

/-- What is taken from the reply is what the seeder has. -/
lemma mem_chunkNumbers_getChunkInfo (hn : nchunks ≤ 2 ^ 31) (hhonest : Honest nchunks entries)
    {entry : Option (List ℕ)} (hentry : entry ∈ entries) {k : ℕ} (hk : k < nchunks) :
    (k + 1 : ℤ) ∈ (chunkNumbers nchunks (getChunkInfo entry)).map (· + 1) ↔ Holds k entry := by
  cases entry with
  | none =>
    rw [chunkNumbers_getChunkInfo_none]
    simpa [Holds] using hk
  | some itr =>
    rw [chunkNumbers_getChunkInfo_some nchunks (hhonest.lt_int hn hentry)]
    simp [Holds]

lemma chunkSets_map (nchunks : ℕ) (entries : List (Option (List ℕ))) :
    chunkSets nchunks (entries.map getChunkInfo) =
      entries.map fun entry => (chunkNumbers nchunks (getChunkInfo entry)).map (· + 1) :=
  List.map_map

lemma chunkSets_inRange (hn : nchunks ≤ 2 ^ 31) (hhonest : Honest nchunks entries) :
    ∀ s ∈ chunkSets nchunks (entries.map getChunkInfo), ∀ c ∈ s, 1 ≤ c ∧ c ≤ nchunks := by
  intro s hs c hc
  rw [chunkSets_map] at hs
  obtain ⟨entry, hentry, rfl⟩ := List.mem_map.mp hs
  obtain ⟨i, hi, rfl⟩ := List.mem_map.mp hc
  cases entry with
  | none =>
    rw [chunkNumbers_getChunkInfo_none] at hi
    obtain ⟨k, hk, rfl⟩ := List.mem_map.mp hi
    have hlt := List.mem_range.mp hk
    omega
  | some itr =>
    rw [chunkNumbers_getChunkInfo_some nchunks (hhonest.lt_int hn hentry)] at hi
    obtain ⟨k, hk, rfl⟩ := List.mem_map.mp hi
    have hlt := hhonest itr hentry k hk
    omega

/-- No reply is partial just if nobody has an entry. -/
lemma any_getChunkInfo : ((entries.map getChunkInfo).any fun output => output ≠ "-1".toList) =
    false ↔ ∀ entry ∈ entries, entry = none := by
  rw [List.any_map, List.any_eq_false]
  refine forall₂_congr fun entry _ => ?_
  rw [Function.comp_apply, decide_eq_true_eq, not_not, getChunkInfo_eq_all]

/-- Who comes first with a chunk has answered that it has it. -/
lemma firstHolder_decided (hn : nchunks ≤ 2 ^ 31) (hhonest : Honest nchunks entries)
    {v : List Load} {k : ℕ}
    (hv : Arranged (chunkSets nchunks (entries.map getChunkInfo)) v) (hk : k < nchunks) :
    Decided entries k (firstHolder v (k + 1)) := by
  by_cases hnone : firstHolder v (k + 1) = -1
  · refine Or.inl ⟨hnone, fun entry hentry hholds => ?_⟩
    apply hv.firstHolder_eq_neg_one.mp hnone
      ((chunkNumbers nchunks (getChunkInfo entry)).map (· + 1))
    · rw [chunkSets_map]
      exact List.mem_map_of_mem hentry
    · exact (mem_chunkNumbers_getChunkInfo hn hhonest hentry hk).mpr hholds
  · right
    obtain ⟨e, he, hc, hfirst⟩ := exists_of_firstHolder_ne hnone
    obtain ⟨x, hx, hset⟩ := hv.mem_iff.mp he
    rw [chunkSets_map, List.getElem?_map] at hset
    obtain ⟨entry, hentry, heq⟩ := Option.map_eq_some_iff.mp hset
    refine ⟨x, hfirst.trans hx, entry, hentry, ?_⟩
    rw [← heq] at hc
    exact (mem_chunkNumbers_getChunkInfo hn hhonest (List.mem_of_getElem? hentry) hk).mp hc

/-- What `CalcChunk` decides from honest replies, however it sorts. -/
lemma calcChunk_eq {sort : List Load → List Load} (hsort : ∀ v, (sort v).Perm v)
    (hne : entries ≠ []) (hn : nchunks ≤ 2 ^ 31) (hhonest : Honest nchunks entries) : ∃ chunks,
    calcChunk sort nchunks (entries.map getChunkInfo) =
      some ((entries.map getChunkInfo).any fun output => output ≠ "-1".toList, chunks) ∧
    chunks.length = nchunks ∧
    ∀ k < nchunks, ∃ c, chunks[k]? = some c ∧ Decided entries k c := by
  have hv : Arranged (chunkSets nchunks (entries.map getChunkInfo))
      (sort (holdings (chunkSets nchunks (entries.map getChunkInfo)))) :=
    ⟨hsort _, by simpa [chunkSets] using hne⟩
  obtain ⟨matrix, hmatrix, hchunks⟩ :=
    Option.bind_eq_some_iff.mp (hv.decideChunks_populate (chunkSets_inRange hn hhonest))
  have hlength : (chunkSets nchunks (entries.map getChunkInfo)).length =
      (entries.map getChunkInfo).length := List.length_map _
  rw [hlength] at hmatrix
  refine ⟨(List.range nchunks).map fun x : ℕ => firstHolder
    (sort (holdings (chunkSets nchunks (entries.map getChunkInfo)))) (x + 1), ?_, ?_,
    fun k hk => ⟨_, ?_, firstHolder_decided hn hhonest hv hk⟩⟩
  · rw [calcChunk, hmatrix, Option.bind_some, hchunks]
    rfl
  · rw [List.length_map, List.length_range]
  · rw [List.getElem?_map, List.getElem?_range hk, Option.map_some]

end Replies

/-! ### The seeders that the threads start with -/

/-- Around the seeders. -/
lemma seederNums_around {chunks : List ℤ} {nseeder todo i ncounter : ℕ} (h : ncounter < nseeder) :
    seederNums (false, chunks) nseeder todo i ncounter =
      some ((List.range todo).map fun t : ℕ => (((ncounter + t) % nseeder : ℕ) : ℤ)) := by
  induction todo generalizing i ncounter with
  | zero => rfl
  | succ todo ih =>
    have hpos : 0 < nseeder := Nat.zero_lt_of_lt h
    have hfirst : (ncounter + 0) % nseeder = ncounter := Nat.mod_eq_of_lt h
    rw [seederNums, if_pos Bool.not_false, if_neg hpos.ne', ih (Nat.mod_lt _ hpos), Option.map_some,
      List.range_succ_eq_map, List.map_cons, List.map_map, hfirst]
    refine congrArg some (congrArg _ (List.map_congr_left fun t _ => ?_))
    rw [Function.comp_apply, Nat.mod_add_mod, Nat.succ_eq_add_one, Nat.add_assoc, Nat.add_comm 1]

/-- As `CalcChunk` has decided. -/
lemma seederNums_decided {chunks : List ℤ} {nseeder todo i ncounter : ℕ}
    (h : i + todo ≤ chunks.length) : seederNums (true, chunks) nseeder todo i ncounter =
      some ((chunks.drop i).take todo) := by
  induction todo generalizing i with
  | zero => rfl
  | succ todo ih =>
    have hi : i < chunks.length := by omega
    rw [seederNums, if_neg (by simp), List.getElem?_eq_getElem hi, Option.bind_some,
      ih (by omega), Option.map_some, List.drop_eq_getElem_cons hi, List.take_succ_cons]

section Start

variable {sort : List Load → List Load} {filemeta : FileData}
  {entries : List (Option (List ℕ))}

lemma getChunks_spec (hsort : ∀ v, (sort v).Perm v) (hne : entries ≠ [])
    (hlength : entries.length = filemeta.seeders.length)
    (hhonest : Honest (nchunks filemeta.size) entries) : ∃ xs,
    getChunks sort filemeta (entries.map getChunkInfo) = some xs ∧
    xs.length = nchunks filemeta.size ∧
    ∀ k < nchunks filemeta.size, ∃ c, xs[k]? = some c ∧ Decided entries k c := by
  have hn : nchunks filemeta.size ≤ 2 ^ 31 := (nchunks_le _).trans (by decide)
  obtain ⟨chunks, hcalc, hchunks, hdecided⟩ := calcChunk_eq hsort hne hn hhonest
  have hpos : 0 < filemeta.seeders.length := hlength ▸ List.length_pos_iff.mpr hne
  rw [getChunks, hcalc, Option.bind_some]
  cases hflag : (entries.map getChunkInfo).any fun output => output ≠ "-1".toList with
  | true =>
    refine ⟨chunks, ?_, hchunks, hdecided⟩
    rw [seederNums_decided (by omega), List.drop_zero, ← hchunks, List.take_length]
  | false =>
    refine ⟨_, seederNums_around hpos, by simp, fun k hk => ?_⟩
    have hlt : (0 + k) % filemeta.seeders.length < entries.length := by
      rw [hlength]
      exact Nat.mod_lt _ hpos
    have hentry : entries[(0 + k) % filemeta.seeders.length]? = some none := by
      rw [List.getElem?_eq_getElem hlt, any_getChunkInfo.mp hflag _ (List.getElem_mem hlt)]
    refine ⟨_, ?_, Or.inr ⟨_, rfl, none, hentry, trivial⟩⟩
    rw [List.getElem?_map, List.getElem?_range hk, Option.map_some]

/-- Without seeders there is no row to begin with. -/
lemma getChunks_nil (hsort : ∀ v, (sort v).Perm v) (filemeta : FileData) :
    getChunks sort filemeta ([].map getChunkInfo) = none := by
  have hnil : sort (holdings (chunkSets (nchunks filemeta.size) [])) = [] :=
    List.perm_nil.mp (hsort _)
  rw [getChunks, calcChunk, List.map_nil, hnil]
  rfl

/-- The threads start with indices of seeders just if each chunk has been advertised. -/
theorem chunk_tasks_valid_iff (hsort : ∀ v, (sort v).Perm v) (hne : filemeta.seeders ≠ [])
    (hlength : entries.length = filemeta.seeders.length)
    (hhonest : Honest (nchunks filemeta.size) entries) :
    (∃ xs, getChunks sort filemeta (entries.map getChunkInfo) = some xs ∧
      xs.length = nchunks filemeta.size ∧ ∀ c ∈ xs, 0 ≤ c ∧ c < filemeta.seeders.length) ↔
      ∀ k < nchunks filemeta.size, ∃ x, Advertised entries x k := by
  have hentries : entries ≠ [] := by
    intro hnil
    rw [hnil, List.length_nil] at hlength
    exact hne (List.eq_nil_of_length_eq_zero hlength.symm)
  obtain ⟨xs, hxs, hnum, hdecided⟩ := getChunks_spec hsort hentries hlength hhonest
  constructor
  · rintro ⟨xs', hxs', -, hvalid⟩ k hk
    obtain rfl := Option.some.inj (hxs'.symm.trans hxs)
    obtain ⟨c, hc, ⟨rfl, -⟩ | ⟨x, -, hx⟩⟩ := hdecided k hk
    · have hlow := (hvalid _ (List.mem_of_getElem? hc)).1
      omega
    · exact ⟨x, hx⟩
  · intro hall
    refine ⟨xs, hxs, hnum, fun c hc => ?_⟩
    obtain ⟨k, hk⟩ := List.mem_iff_getElem?.mp hc
    have hlt : k < nchunks filemeta.size := hnum ▸ (List.getElem?_eq_some_iff.mp hk).1
    obtain ⟨c', hc', hdec⟩ := hdecided k hlt
    obtain rfl := Option.some.inj (hk.symm.trans hc')
    rcases hdec with ⟨-, hnone⟩ | ⟨x, rfl, entry, hentry, -⟩
    · obtain ⟨x, entry, hentry, hholds⟩ := hall k hlt
      exact absurd hholds (hnone entry (List.mem_of_getElem? hentry))
    · have hx := (List.getElem?_eq_some_iff.mp hentry).1
      omega

end Start

/-- `std::sort`, of entries with different sizes. -/
def bySize : List Load → List Load := List.insertionSort fun a b => a.2.length ≤ b.2.length

lemma bySize_perm (v : List Load) : (bySize v).Perm v := List.perm_insertionSort _ v

/-- The only seeder has answered `0`. -/
theorem chunk_tasks_valid_iff_oneByte :
    (∃ xs, getChunks bySize oneByte.filemeta ([some [0]].map getChunkInfo) = some xs ∧
      xs.length = nchunks oneByte.filemeta.size ∧
      ∀ c ∈ xs, 0 ≤ c ∧ c < oneByte.filemeta.seeders.length) ↔
      ∀ k < nchunks oneByte.filemeta.size, ∃ x, Advertised [some [0]] x k := by
  refine chunk_tasks_valid_iff bySize_perm (by decide) rfl fun itr hitr k hk => ?_
  cases List.mem_singleton.mp hitr
  obtain rfl := List.mem_singleton.mp hk
  decide

/-- The only seeder has answered `-2`. -/
theorem nobody_has_the_chunk : (∀ v, (bySize v).Perm v) ∧ oneByte.filemeta.seeders.length = 1 ∧
    Honest (nchunks oneByte.filemeta.size) [some []] ∧
    getChunks bySize oneByte.filemeta ([some []].map getChunkInfo) = some [-1] := by
  refine ⟨bySize_perm, rfl, fun itr hitr k hk => ?_, by decide⟩
  cases List.mem_singleton.mp hitr
  cases hk

/-! ### Requests -/

namespace Download

/-- A thread asks seeder `x` for chunk `k`. -/
def Requests (d : Download) (e : Event) (x k : ℕ) : Prop :=
  e = .kernel k .connect ∧ ∃ a, d.threads[k]? = some (.connecting x a)

/-- A thread starts with the seeder that has been decided for its chunk. -/
def Planned (xs : List ℤ) (d : Download) : Event → Prop
  | .create x => xs[d.threads.length]? = some (x : ℤ)
  | _         => True

/-- A thread that goes on to the next seeder comes to one that has answered that it has the
    chunk. -/
def FailsOver (entries : List (Option (List ℕ))) (d : Download) : Event → Prop
  | .kernel k .refuse => ∀ x a, d.threads[k]? = some (.connecting x a) →
      a + 1 < d.filemeta.seeders.length →
        Advertised entries ((x + 1) % d.filemeta.seeders.length) k
  | _ => True

/-- The seeders that the threads are with have answered that they have the chunks. -/
def Asked (entries : List (Option (List ℕ))) (d : Download) : Prop :=
  ∀ (k : ℕ) (t : Kernel) (x a : ℕ), d.threads[k]? = some t → t.client = .asking x a →
    Advertised entries x k

section Runs

variable {sha1 : Str → List (Fin 256)} {entries : List (Option (List ℕ))} {d d' : Download}

/-- A thread stays with its seeder unless it has been refused. -/
lemma client_of_kernelStep {k : ℕ} {e : Kernel.Event} {t t' : Kernel} {s : Str} {x a : ℕ}
    (h : d.kernelStep sha1 k e t = some (t', s)) (he : e ≠ .refuse)
    (ht' : t'.client = .asking x a) : t.client = .asking x a := by
  cases kernelStep_moves h with
  | giveUp => exact absurd rfl he
  | next => exact absurd rfl he
  | accept => cases ht'
  | push => cases ht'
  | _ => exact ht'

lemma Asked.kernel {k : ℕ} {e : Kernel.Event} (hd : d.Asked entries)
    (hok : d.FailsOver entries (.kernel k e)) (h : d.step sha1 (.kernel k e) = some d') :
    d'.Asked entries := by
  obtain ⟨t, t', s, ht, hkernel, rfl⟩ := step_kernel h
  intro j u x a hj hu
  rcases getElem?_set_cases hj with ⟨rfl, rfl⟩ | ⟨-, hj⟩
  · by_cases he : e = .refuse
    · subst he
      obtain ⟨y, b, rfl, rfl⟩ := kernelStep_refuse hkernel
      split_ifs at hu with hlast
      · cases hu
      · cases hu
        exact hok y b ht (not_le.mp hlast)
    · exact hd _ t x a ht (client_of_kernelStep hkernel he hu)
  · exact hd j u x a hj hu

lemma Asked.create {xs : List ℤ} {y : ℕ} (hd : d.Asked entries)
    (hdecided : ∀ k < d.nchunks, ∃ c, xs[k]? = some c ∧ Decided entries k c)
    (hok : d.Planned xs (.create y)) (h : d.step sha1 (.create y) = some d') :
    d'.Asked entries := by
  rw [step] at h
  split_ifs at h with hnew
  cases h
  intro j u x a hj hu
  by_cases hold : j < d.threads.length
  · rw [List.getElem?_append_left hold] at hj
    exact hd j u x a hj hu
  · have hlt := (List.getElem?_eq_some_iff.mp hj).1
    rw [List.length_append, List.length_singleton] at hlt
    obtain rfl : j = d.threads.length := by omega
    rw [List.getElem?_concat_length] at hj
    cases hj
    cases hu
    obtain ⟨c, hc, hdec⟩ := hdecided _ hnew.1
    obtain rfl := Option.some.inj (hc.symm.trans hok)
    rcases hdec with ⟨hneg, -⟩ | ⟨x, hx, hadv⟩
    · omega
    · rwa [Nat.cast_injective hx]

/-- In every run of a download in which no thread goes on to a seeder without its chunk, every
    request goes to a seeder that has answered that it has the chunk. -/
theorem requests_to_advertisers {group name path filehash output : Str} {d₀ : Download}
    (hstart : downloadFile group name path filehash output = some d₀)
    {sort : List Load → List Load} (hsort : ∀ v, (sort v).Perm v)
    (hlength : entries.length = d₀.filemeta.seeders.length) (hhonest : Honest d₀.nchunks entries)
    {xs : List ℤ} (hxs : getChunks sort d₀.filemeta (entries.map getChunkInfo) = some xs)
    (hrun : Machine.RunsWhen (step sha1) (fun d e => d.Planned xs e ∧ d.FailsOver entries e) d₀ d)
    {e : Event} {x k : ℕ} (hrequest : d.Requests e x k) : Advertised entries x k := by
  have hne : entries ≠ [] := by
    rintro rfl
    cases (getChunks_nil hsort d₀.filemeta).symm.trans hxs
  obtain ⟨xs', hxs', -, hdecided⟩ := getChunks_spec hsort hne hlength hhonest
  obtain rfl := Option.some.inj (hxs'.symm.trans hxs)
  have hasked : d.filemeta = d₀.filemeta ∧ d.Asked entries := by
    refine hrun.invariant (P := fun d => d.filemeta = d₀.filemeta ∧ d.Asked entries) ?_ ⟨rfl, ?_⟩
    · rintro d e d' ⟨hmeta, hd⟩ ⟨hplanned, hfails⟩ hstep
      refine ⟨(step_filemeta hstep).trans hmeta, ?_⟩
      cases e with
      | kernel k e => exact hd.kernel hfails hstep
      | create y =>
        have hnchunks : d.nchunks = TorrentShare.nchunks d₀.filemeta.size := by rw [nchunks, hmeta]
        exact hd.create (fun k hk => hdecided k (hnchunks ▸ hk)) hplanned hstep
      | _ =>
        rw [step] at hstep
        split_ifs at hstep
        cases hstep
        exact hd
    · obtain ⟨size, seeders, rfl⟩ := eq_of_downloadFile hstart
      intro k t x a ht
      rw [List.getElem?_nil] at ht
      cases ht
  obtain ⟨-, a, hk⟩ := hrequest
  exact hasked.2 k _ x a hk rfl

end Runs

end Download

/-- A file of one byte that two seeders are registered for. -/
def twoSeeders : Download := { oneByte with filemeta := { oneByte.filemeta with
  seeders := ["s".toList, "t".toList] } }

lemma twoSeeders_start : downloadFile "g".toList "f".toList "/d".toList (piece oneByteSha1 ['a'])
    "s t 1".toList = some twoSeeders := by
  decide

/-- The first seeder has answered `0`, the second `-2`. -/
def oneOfTwo : List (Option (List ℕ)) := [some [0], some []]

lemma oneOfTwo_honest : Honest twoSeeders.nchunks oneOfTwo := by
  intro itr hitr k hk
  rcases List.mem_cons.mp hitr with heq | hitr
  · cases heq
    obtain rfl := List.mem_singleton.mp hk
    decide
  · cases List.mem_singleton.mp hitr
    cases hk

lemma oneOfTwo_getChunks :
    getChunks bySize twoSeeders.filemeta (oneOfTwo.map getChunkInfo) = some [0] := by
  decide

open Download in
theorem requests_to_advertisers_oneOfTwo : ∃ d : Download,
    d.Requests (.kernel 0 .connect) 0 0 ∧ Advertised oneOfTwo 0 0 := by
  let d : Download := { twoSeeders with threads := [.connecting 0 0], counter := 1 }
  have hstep : step oneByteSha1 twoSeeders (.create 0) = some d := by decide
  have hrequest : d.Requests (.kernel 0 .connect) 0 0 := ⟨rfl, 0, rfl⟩
  exact ⟨d, hrequest, requests_to_advertisers twoSeeders_start bySize_perm rfl oneOfTwo_honest
    oneOfTwo_getChunks (.single ⟨.create 0, ⟨rfl, trivial⟩, hstep⟩) hrequest⟩

open Download in
/-- The seeder with the chunk refuses the connection, and the other one is asked. -/
theorem request_after_refusal : (∀ v, (bySize v).Perm v) ∧
    oneOfTwo.length = twoSeeders.filemeta.seeders.length ∧
    Honest twoSeeders.nchunks oneOfTwo ∧
    getChunks bySize twoSeeders.filemeta (oneOfTwo.map getChunkInfo) = some [0] ∧
    ∃ d d' : Download,
      Machine.RunsWhen (step oneByteSha1) (fun d e => d.Planned [0] e) twoSeeders d ∧
      d.Requests (.kernel 0 .connect) 1 0 ∧ d.step oneByteSha1 (.kernel 0 .connect) = some d' ∧
      ¬ Advertised oneOfTwo 1 0 := by
  refine ⟨bySize_perm, rfl, oneOfTwo_honest, oneOfTwo_getChunks, ?_⟩
  let d₁ : Download := { twoSeeders with threads := [.connecting 0 0], counter := 1 }
  let d₂ : Download := { twoSeeders with threads := [.connecting 1 1], counter := 1 }
  have hcreate : step oneByteSha1 twoSeeders (.create 0) = some d₁ := by decide
  have hrefuse : step oneByteSha1 d₁ (.kernel 0 .refuse) = some d₂ := by decide
  refine ⟨d₂, _, .tail (.single ⟨.create 0, rfl, hcreate⟩) ⟨.kernel 0 .refuse, trivial, hrefuse⟩,
    ⟨rfl, 1, rfl⟩, rfl, ?_⟩
  rintro ⟨entry, hentry, hholds⟩
  cases hentry
  cases hholds

end TorrentShare
