import TorrentShare.Program.Histories
import TorrentShare.Peer.Scheduling

/-!
# The threads of a download

`GetChunks` keeps its threads and what they are given in two arrays, joins the threads of a batch
when the batch is full, and starts over at the first slot.
-/

namespace TorrentShare

open Program

/-! ### The loop -/

/-- `ChunkData`, without the pointer to the download. -/
structure ChunkData where
  chunkNum : ℤ
  seederNum : ℤ
  deriving DecidableEq

/-- What is done with the arrays and the threads. The `ChunkData` and the threads are numbered as
    they are made, so thread `k` works on the `ChunkData` number `k`. -/
inductive ThreadAct where
  | store (slot data : ℕ)
  | create (slot thread : ℕ)
  | join (thread : ℕ)
  | delete (data : ℕ)
  deriving DecidableEq

/-- The variables of the loop, what the threads have been started with, and what has been done. -/
structure Creation where
  tid : ℕ → Option ℕ := fun _ => none
  chunkmetas : ℕ → Option ℕ := fun _ => none
  counter : ℕ := 0
  started : List ChunkData := []
  done : List ThreadAct := []

namespace Creation

/-- The conversion of a `long long` to an `int`. -/
def toInt (n : ℤ) : ℤ := n.bmod (2 ^ 32)

/-- The size of `tid` and `chunkmetas`. -/
def slots : ℕ := 1000

/-- A thread for chunk `i` is started, to begin with seeder `x`. Where `pthread_create` fails the
    program ends. -/
def create (s : Creation) (i : ℕ) (x : ℤ) : Option Creation :=
  let k := s.started.length
  if s.counter < slots then
    some { tid := Function.update s.tid s.counter (some k)
           chunkmetas := Function.update s.chunkmetas s.counter (some k)
           counter := (s.counter + 1) % slots
           started := s.started ++ [⟨toInt i, toInt x⟩]
           done := s.done ++ [.store s.counter k, .create s.counter k] }
  else none

/-- `for(int j=0;j<counter;++j)`, from `j` on: the threads are joined and their data deleted. -/
def joinFrom (s : Creation) : ℕ → ℕ → Option Creation
  | 0, _ => some s
  | todo + 1, j => (s.tid j).bind fun k => (s.chunkmetas j).bind fun data =>
      joinFrom { s with done := s.done ++ [.join k, .delete data] } todo (j + 1)

/-- One turn of the loop. -/
def turn (s : Creation) (i : ℕ) (x : ℤ) : Option Creation :=
  (s.create i x).bind fun s =>
    if s.counter > 50 then (s.joinFrom s.counter 0).map fun s => { s with counter := 0 }
    else some s

def loop (s : Creation) : ℕ → List ℤ → Option Creation
  | _, []      => some s
  | i, x :: xs => (s.turn i x).bind fun s => s.loop (i + 1) xs

/-- The threads of `GetChunks`, from the `seeder_num` of each. -/
def run (xs : List ℤ) : Option Creation :=
  (loop {} 0 xs).bind fun s => s.joinFrom s.counter 0

end Creation

/-! ### Keeping account -/

namespace ThreadAct

def created : ThreadAct → Option ℕ
  | .create _ k => some k
  | _           => none

def joined : ThreadAct → Option ℕ
  | .join k => some k
  | _       => none

def deleted : ThreadAct → Option ℕ
  | .delete data => some data
  | _            => none

/-- How many threads have been started and not been joined. -/
def unjoined (done : List ThreadAct) : ℕ :=
  (done.filterMap created).length - (done.filterMap joined).length

/-- No slot is used again before its thread has been joined and its data deleted; no thread is
    joined before it is started, or twice; no data is deleted before its thread has been joined, or
    twice; and a thread is started only beside at most 50 others. -/
def Accountable (done : List ThreadAct) : ThreadAct → Prop
  | .store slot _  => slot < Creation.slots ∧ ∀ data, .store slot data ∈ done → .delete data ∈ done
  | .create slot _ => slot < Creation.slots ∧ (∀ k, .create slot k ∈ done → .join k ∈ done) ∧
      unjoined done ≤ 50
  | .join k        => (∃ slot, .create slot k ∈ done) ∧ .join k ∉ done
  | .delete data   => .join data ∈ done ∧ .delete data ∉ done

end ThreadAct

namespace Creation

open ThreadAct

/-- The threads before number `b` have been joined with `j` of the `c` threads after them, which are
    in the first slots. -/
structure Kept (b c j : ℕ) (s : Creation) : Prop where
  started : s.started.length = b + c
  tid : ∀ x < c, s.tid x = some (b + x)
  chunkmetas : ∀ x < c, s.chunkmetas x = some (b + x)
  created : s.done.filterMap ThreadAct.created = List.range (b + c)
  joined : s.done.filterMap ThreadAct.joined = List.range (b + j)
  deleted : s.done.filterMap ThreadAct.deleted = List.range (b + j)
  slot : ∀ slot k, .create slot k ∈ s.done → k < b ∨ slot < c
  store : ∀ slot k, .store slot k ∈ s.done → k < b + c ∧ (k < b ∨ slot < c)
  inOrder : InOrder Accountable s.done

section Kept

variable {b c j : ℕ} {s s' : Creation}

lemma Kept.join_mem (h : Kept b c j s) {k : ℕ} : .join k ∈ s.done ↔ k < b + j := by
  rw [← List.mem_range, ← h.joined, List.mem_filterMap]
  constructor
  · exact fun hk => ⟨_, hk, rfl⟩
  · rintro ⟨a, ha, hk⟩
    cases a with
    | join => cases hk; exact ha
    | _ => cases hk

lemma Kept.delete_mem (h : Kept b c j s) {k : ℕ} : .delete k ∈ s.done ↔ k < b + j := by
  rw [← List.mem_range, ← h.deleted, List.mem_filterMap]
  constructor
  · exact fun hk => ⟨_, hk, rfl⟩
  · rintro ⟨a, ha, hk⟩
    cases a with
    | delete => cases hk; exact ha
    | _ => cases hk

lemma Kept.create_mem (h : Kept b c j s) {k : ℕ} :
    (∃ slot, .create slot k ∈ s.done) ↔ k < b + c := by
  rw [← List.mem_range, ← h.created, List.mem_filterMap]
  constructor
  · exact fun ⟨slot, hk⟩ => ⟨_, hk, rfl⟩
  · rintro ⟨a, ha, hk⟩
    cases a with
    | create slot => cases hk; exact ⟨slot, ha⟩
    | _ => cases hk

lemma kept_start : Kept 0 0 0 {} := by
  constructor
  · rfl
  · simp
  · simp
  · rfl
  · rfl
  · rfl
  · simp
  · simp
  · exact inOrder_nil

/-- A thread is started beside at most 50 others, in the slot behind theirs. -/
lemma Kept.create (h : Kept b c 0 s) (hcounter : s.counter = c) (hc : c ≤ 50) (i : ℕ) (x : ℤ) :
    ∃ s', s.create i x = some s' ∧ Kept b (c + 1) 0 s' ∧ s'.counter = c + 1 ∧
      s'.started = s.started ++ [⟨toInt i, toInt x⟩] := by
  have hslot : c < slots := lt_of_le_of_lt hc (by decide)
  have hnext : (c + 1) % slots = c + 1 :=
    Nat.mod_eq_of_lt (lt_of_le_of_lt (Nat.succ_le_succ hc) (by decide))
  refine ⟨_, by rw [Creation.create, hcounter, if_pos hslot], ?_, hnext, rfl⟩
  have hstore : Accountable s.done (.store c s.started.length) := by
    refine ⟨hslot, fun data hdata => ?_⟩
    rcases (h.store c data hdata).2 with hk | hk
    · exact h.delete_mem.mpr hk
    · omega
  have hcreate : Accountable (s.done ++ [.store c s.started.length])
      (.create c s.started.length) := by
    refine ⟨hslot, fun k hk => ?_, ?_⟩
    · have hk' : .create c k ∈ s.done := by simpa using hk
      rcases h.slot c k hk' with hk | hk
      · exact List.mem_append_left _ (h.join_mem.mpr hk)
      · omega
    · rw [unjoined, List.filterMap_append, List.filterMap_append, h.created, h.joined]
      simp [List.filterMap_cons, ThreadAct.created, ThreadAct.joined, hc]
  have hdone : s.done ++ [.store c s.started.length, .create c s.started.length] =
      s.done ++ [.store c s.started.length] ++ [.create c s.started.length] := by simp
  have hupdate : ∀ f : ℕ → Option ℕ, (∀ x < c, f x = some (b + x)) →
      ∀ x < c + 1, Function.update f c (some s.started.length) x = some (b + x) := by
    intro f hf x hx
    by_cases hxc : x = c
    · rw [hxc, Function.update_self, h.started]
    · rw [Function.update_of_ne hxc, hf x (by omega)]
  constructor
  · rw [List.length_append, h.started]
    rfl
  · exact hupdate s.tid h.tid
  · exact hupdate s.chunkmetas h.chunkmetas
  · rw [List.filterMap_append, h.created, h.started, ← Nat.add_assoc, List.range_succ]
    rfl
  · rw [List.filterMap_append, h.joined]
    exact List.append_nil _
  · rw [List.filterMap_append, h.deleted]
    exact List.append_nil _
  · intro slot k hk
    simp only [List.mem_append, List.mem_cons, List.not_mem_nil, or_false, reduceCtorEq, false_or,
      ThreadAct.create.injEq] at hk
    rcases hk with hk | ⟨rfl, -⟩
    · exact (h.slot slot k hk).imp_right fun hlt => by omega
    · exact Or.inr (Nat.lt_succ_self slot)
  · intro slot k hk
    simp only [List.mem_append, List.mem_cons, List.not_mem_nil, or_false, reduceCtorEq,
      ThreadAct.store.injEq] at hk
    rcases hk with hk | ⟨rfl, rfl⟩
    · have hold := h.store slot k hk
      omega
    · rw [h.started]
      omega
  · dsimp only
    rw [hdone]
    exact (h.inOrder.concat hstore).concat hcreate

/-- The thread of a slot is joined, and its data deleted. -/
lemma Kept.join (h : Kept b c j s) (hj : j < c) :
    Kept b c (j + 1) { s with done := s.done ++ [.join (b + j), .delete (b + j)] } := by
  have hjoin : Accountable s.done (.join (b + j)) :=
    ⟨h.create_mem.mpr (by omega), fun hk => absurd (h.join_mem.mp hk) (by omega)⟩
  have hdelete : Accountable (s.done ++ [.join (b + j)]) (.delete (b + j)) := by
    refine ⟨by simp, fun hk => ?_⟩
    have hk' : .delete (b + j) ∈ s.done := by simpa using hk
    exact absurd (h.delete_mem.mp hk') (by omega)
  have hdone : s.done ++ [.join (b + j), .delete (b + j)] =
      s.done ++ [.join (b + j)] ++ [.delete (b + j)] := by simp
  constructor
  · exact h.started
  · exact h.tid
  · exact h.chunkmetas
  · rw [List.filterMap_append, h.created]
    exact List.append_nil _
  · rw [List.filterMap_append, h.joined, ← Nat.add_assoc, List.range_succ]
    rfl
  · rw [List.filterMap_append, h.deleted, ← Nat.add_assoc, List.range_succ]
    rfl
  · intro slot k hk
    exact h.slot slot k (by simpa using hk)
  · intro slot k hk
    exact h.store slot k (by simpa using hk)
  · dsimp only
    rw [hdone]
    exact (h.inOrder.concat hjoin).concat hdelete

/-- All threads in the slots are joined. -/
lemma Kept.joinFrom (h : Kept b c j s) {todo : ℕ} (htodo : j + todo = c) :
    ∃ s', s.joinFrom todo j = some s' ∧ Kept b c c s' ∧ s'.counter = s.counter ∧
      s'.started = s.started := by
  induction todo generalizing j s with
  | zero => exact ⟨s, rfl, htodo ▸ h, rfl, rfl⟩
  | succ todo ih =>
    obtain ⟨s', hs', hkept⟩ := ih (h.join (by omega)) (by omega)
    refine ⟨s', ?_, hkept⟩
    rw [Creation.joinFrom, h.tid j (by omega), Option.bind_some, h.chunkmetas j (by omega),
      Option.bind_some]
    exact hs'

/-- When all of a batch have been joined the next one begins. -/
lemma Kept.next (h : Kept b c c s) : Kept (b + c) 0 0 { s with counter := 0 } := by
  constructor
  · exact h.started
  · simp
  · simp
  · exact h.created
  · exact h.joined
  · exact h.deleted
  · intro slot k hk
    exact Or.inl (h.create_mem.mp ⟨slot, hk⟩)
  · intro slot k hk
    have hlt := (h.store slot k hk).1
    omega
  · exact h.inOrder

/-- A turn of the loop, with the batch joined if it is full. -/
lemma Kept.turn (h : Kept b c 0 s) (hcounter : s.counter = c) (hc : c ≤ 50) (i : ℕ) (x : ℤ) :
    ∃ b' c' s', s.turn i x = some s' ∧ Kept b' c' 0 s' ∧ s'.counter = c' ∧ c' ≤ 50 ∧
      b' + c' = b + c + 1 ∧ s'.started = s.started ++ [⟨toInt i, toInt x⟩] := by
  obtain ⟨s₁, hs₁, hkept₁, hcounter₁, hstarted₁⟩ := h.create hcounter hc i x
  rw [Creation.turn, hs₁, Option.bind_some, hcounter₁]
  by_cases hfull : c + 1 > 50
  · obtain ⟨s₂, hs₂, hkept₂, -, hstarted₂⟩ := hkept₁.joinFrom (Nat.zero_add (c + 1))
    refine ⟨b + (c + 1), 0, { s₂ with counter := 0 }, ?_, hkept₂.next, rfl, by omega, rfl, ?_⟩
    · rw [if_pos hfull, hs₂]
      rfl
    · rw [← hstarted₁, ← hstarted₂]
  · exact ⟨b, c + 1, s₁, by rw [if_neg hfull], hkept₁, hcounter₁, by omega, rfl, hstarted₁⟩

/-- The loop, over the `seeder_num` of the threads that are left. -/
lemma Kept.loop (h : Kept b c 0 s) (hcounter : s.counter = c) (hc : c ≤ 50) (i : ℕ)
    (xs : List ℤ) : ∃ b' c' s', s.loop i xs = some s' ∧ Kept b' c' 0 s' ∧ s'.counter = c' ∧
      b' + c' = b + c + xs.length ∧ s'.started = s.started ++
        xs.mapIdx fun k x => ⟨toInt ((i + k : ℕ) : ℤ), toInt x⟩ := by
  induction xs generalizing b c s i with
  | nil => exact ⟨b, c, s, rfl, h, hcounter, rfl, (List.append_nil _).symm⟩
  | cons x xs ih =>
    obtain ⟨b₁, c₁, s₁, hs₁, hkept₁, hcounter₁, hc₁, hsum₁, hstarted₁⟩ := h.turn hcounter hc i x
    obtain ⟨b₂, c₂, s₂, hs₂, hkept₂, hcounter₂, hsum₂, hstarted₂⟩ :=
      ih hkept₁ hcounter₁ hc₁ (i + 1)
    refine ⟨b₂, c₂, s₂, ?_, hkept₂, hcounter₂, ?_, ?_⟩
    · rw [Creation.loop, hs₁]
      exact hs₂
    · rw [hsum₂, hsum₁, List.length_cons]
      omega
    · rw [hstarted₂, hstarted₁, List.mapIdx_cons, List.append_assoc]
      simp [Nat.add_assoc, Nat.add_comm 1]

end Kept

/-- The threads of a download of `n` chunks are accounted for: one is started for each of them, each
    is joined once and its data deleted once, everything in order. -/
structure Accounted (n : ℕ) (done : List ThreadAct) : Prop where
  created : done.filterMap ThreadAct.created = List.range n
  joined : done.filterMap ThreadAct.joined = List.range n
  deleted : done.filterMap ThreadAct.deleted = List.range n
  inOrder : InOrder Accountable done

lemma unjoined_le {done : List ThreadAct} (h : InOrder Accountable done) : unjoined done ≤ 51 := by
  refine h.invariant (P := fun done => unjoined done ≤ 51) (Nat.zero_le _) fun done a ha hle => ?_
  cases a with
  | create slot k =>
    have hle' := ha.2.2
    simp [unjoined, List.filterMap_cons, ThreadAct.created, ThreadAct.joined] at hle' ⊢
    omega
  | _ =>
    simp [unjoined, List.filterMap_cons, ThreadAct.created, ThreadAct.joined] at hle ⊢
    omega

/-- What is done for threads that start with these seeders. -/
lemma run_spec (xs : List ℤ) : ∃ s, run xs = some s ∧ Accounted xs.length s.done ∧
    s.started = xs.mapIdx fun k x => ⟨toInt k, toInt x⟩ := by
  obtain ⟨b, c, s₁, hs₁, hkept₁, hcounter₁, hsum, hstarted₁⟩ :=
    kept_start.loop rfl (Nat.zero_le 50) 0 xs
  obtain ⟨s₂, hs₂, hkept₂, -, hstarted₂⟩ := hkept₁.joinFrom (Nat.zero_add c)
  have hlength : b + c = xs.length := by omega
  refine ⟨s₂, ?_, ?_, ?_⟩
  · rw [run, hs₁, Option.bind_some, hcounter₁, hs₂]
  · exact ⟨hlength ▸ hkept₂.created, hlength ▸ hkept₂.joined, hlength ▸ hkept₂.deleted,
      hkept₂.inOrder⟩
  · rw [hstarted₂, hstarted₁, List.nil_append]
    simp only [Nat.zero_add]

end Creation

/-! ### The chunks -/

lemma seederNums_length {plan : Bool × List ℤ} {nseeder todo i ncounter : ℕ} {xs : List ℤ}
    (h : seederNums plan nseeder todo i ncounter = some xs) : xs.length = todo := by
  induction todo generalizing i ncounter xs with
  | zero =>
    cases h
    rfl
  | succ todo ih =>
    rw [seederNums] at h
    split_ifs at h
    · obtain ⟨rest, hrest, rfl⟩ := Option.map_eq_some_iff.mp h
      rw [List.length_cons, ih hrest]
    · obtain ⟨x, -, h⟩ := Option.bind_eq_some_iff.mp h
      obtain ⟨rest, hrest, rfl⟩ := Option.map_eq_some_iff.mp h
      rw [List.length_cons, ih hrest]

lemma getChunks_length {sort : List Load → List Load} {filemeta : FileData} {replies : List Str}
    {xs : List ℤ} (h : getChunks sort filemeta replies = some xs) :
    xs.length = nchunks filemeta.size := by
  obtain ⟨plan, -, hxs⟩ := Option.bind_eq_some_iff.mp h
  exact seederNums_length hxs

/-- The number of a chunk fits the field for it. -/
lemma toInt_of_lt_nchunks {size : Str} {i : ℕ} (hi : i < nchunks size) : Creation.toInt i = i := by
  have hlt : i < 4096 := hi.trans_le (nchunks_le size)
  rw [Creation.toInt, Int.bmod_def]
  omega

/-- Whatever seeders the threads of a download start with, there is one for each chunk and they are
    accounted for, with at most 51 of them running at a time. -/
theorem chunk_threads_accounted (xs : List ℤ) :
    (∃ s, Creation.run xs = some s ∧ Creation.Accounted xs.length s.done ∧
      s.started = xs.mapIdx (fun i x => ⟨Creation.toInt i, Creation.toInt x⟩) ∧
      ∀ done, done <+: s.done → ThreadAct.unjoined done ≤ 51) ∧
    (∀ size, ∀ i < nchunks size, Creation.toInt i = i) ∧
    ∀ sort filemeta replies, getChunks sort filemeta replies = some xs →
      xs.length = nchunks filemeta.size := by
  refine ⟨?_, fun _ _ hi => toInt_of_lt_nchunks hi, fun _ _ _ h => getChunks_length h⟩
  obtain ⟨s, hs, haccounted, hstarted⟩ := Creation.run_spec xs
  exact ⟨s, hs, haccounted, hstarted, fun done hdone =>
    Creation.unjoined_le (haccounted.inOrder.of_prefix hdone)⟩

end TorrentShare
