import TorrentShare.Peer.Scheduling

/-!
# Any reply

The replies to `give_seeders`, `give_details` and `chunk_numbers` are taken apart by position, and
the numbers in them are used as columns. The first two commands of a download look whether their
reply is empty, the others do not.
-/

namespace TorrentShare

/-! ### What is made of the replies -/

/-- What comes of the replies, if all vectors are accessed within their bounds. -/
inductive Planning where
  /-- There is no reply to `give_seeders`. -/
  | noSeeders
  /-- The constructor of `seeders_chunk` throws. -/
  | lengthError
  /-- `CalcChunk` has returned. -/
  | planned (matrix : Matrix) (flag : Bool) (chunks : List ℤ)
  deriving DecidableEq

/-- `nchunks` in `GetChunks`, which is negative for a negative size. -/
def chunkCount (size : Str) : ℤ :=
  let nchunks1 := atoi size
  let n := nchunks1.tdiv chunkSize
  if nchunks1.tmod chunkSize ≠ 0 then n + 1 else n

/-- The loop of `DownloadFile` over the seeders, with the replies to `give_details`. There is none
    where the handshake has failed. -/
def readDetails : List (Str × Option Str) → List (Str × Str × Str) →
    Option (List (Str × Str × Str))
  | [],                     details => some details
  | (_, none) :: rest,      details => readDetails rest details
  | (i, some cred) :: rest, details =>
    let split_vector2 := split cred ' '
    split_vector2[0]?.bind fun ip => split_vector2[1]?.bind fun port =>
      readDetails rest (tableSet i (ip, port) details)

/-- `CalcChunk`, from the replies of the seeders, and the matrix in it. -/
def planChunks (sort : List Load → List Load) (nchunks : ℕ) (replies : List Str) :
    Option (Matrix × Bool × List ℤ) :=
  (populate (blankMatrix replies.length nchunks) (sort (holdings (chunkSets nchunks replies)))).bind
    fun matrix => (decideChunks matrix (List.replicate nchunks (-1))).map fun chunks =>
      (matrix, replies.any fun output => output ≠ "-1".toList, chunks)

/-- `DownloadFile` and `CalcChunk`, from the reply to `give_seeders` and those to the seeders by
    their indices. `sort` stands for the call of `std::sort`. -/
def planDownload (sort : List Load → List Load) (output : Str) (creds : ℕ → Option Str)
    (outputs : ℕ → Str) : Option Planning :=
  if output = [] then some .noSeeders
  else
    let split_vector := split output ' '
    split_vector.getLast?.bind fun size =>
      let seeders := split_vector.dropLast
      (readDetails (seeders.zipIdx.map fun e => (e.1, creds e.2)) []).bind fun _ =>
        if chunkCount size < 0 then some .lengthError
        else
          (planChunks sort (nchunks size) ((List.range seeders.length).map outputs)).map
            fun ⟨matrix, flag, chunks⟩ => .planned matrix flag chunks

/-! ### Credit -/

/-- A row of this index has a mark for chunk `c`. -/
def Credits (matrix : Matrix) (x : ℤ) (c : ℕ) : Prop :=
  ∃ row ∈ matrix, row[0]? = some x ∧ ∃ mark, row[c + 1]? = some mark ∧ mark ≠ -1

/-- The reply says that the chunk is there: all are, or its number is one of the fields. -/
def Lists (output : Str) (c : ℕ) : Prop :=
  output = "-1".toList ∨ ∃ field ∈ split output ' ',
    field ≠ [] ∧ (∀ d ∈ field, d.isDigit = true) ∧ digits field = c

/-- The reply of the seeder with this index lists the chunk. -/
def ListedBy (nseeders : ℕ) (outputs : ℕ → Str) (x : ℤ) (c : ℕ) : Prop :=
  ∃ i : ℕ, x = i ∧ i < nseeders ∧ Lists (outputs i) c

/-- Whoever a chunk is credited to, in the matrix or at the end, has listed it. -/
def Credited (nseeders : ℕ) (outputs : ℕ → Str) (matrix : Matrix) (chunks : List ℤ) : Prop :=
  (∀ x c, Credits matrix x c → ListedBy nseeders outputs x c) ∧
  ∀ (c : ℕ) (x : ℤ), chunks[c]? = some x → x ≠ -1 → ListedBy nseeders outputs x c

/-- No access is out of bounds, and no chunk is credited to a seeder whose reply does not list
    it. -/
def Survives (sort : List Load → List Load) (output : Str) (creds : ℕ → Option Str)
    (outputs : ℕ → Str) : Prop :=
  match planDownload sort output creds outputs with
  | none => False
  | some (.planned matrix _ chunks) =>
    Credited (split output ' ').dropLast.length outputs matrix chunks
  | some _ => True

/-- The numbers in the reply of seeder `i` are below that of the chunks and not below -1, and those
    of chunks are listed: by the seeder, or by seeder 1, if a -1 among them is taken for it. -/
def Usable (nseeders nchunks : ℕ) (outputs : ℕ → Str) (i : ℕ) : Prop :=
  (∀ a ∈ chunkNumbers nchunks (outputs i), -1 ≤ a ∧ a < nchunks) ∧
  ∀ c : ℕ, (c : ℤ) ∈ chunkNumbers nchunks (outputs i) →
    ListedBy nseeders outputs (if -1 ∈ chunkNumbers nchunks (outputs i) then 1 else i) c

/-- The reply to `give_seeders` is empty; or those to `give_details` have a blank, and the size is
    negative or there are seeders, with usable replies. -/
def Readable (output : Str) (creds : ℕ → Option Str) (outputs : ℕ → Str) : Prop :=
  let nseeders := (split output ' ').dropLast.length
  let size := (split output ' ').getLast?.getD []
  output = [] ∨ (∀ i < nseeders, ∀ cred, creds i = some cred → ' ' ∈ cred) ∧
    (chunkCount size < 0 ∨ nseeders ≠ 0 ∧ ∀ i < nseeders, Usable nseeders (nchunks size) outputs i)

/-! ### Details -/

lemma one_lt_length_split {s : Str} : 1 < (split s ' ').length ↔ ' ' ∈ s := by
  by_cases hblank : ' ' ∈ s
  · obtain ⟨before, after, rfl⟩ := List.append_of_mem hblank
    have hbefore := List.length_pos_iff.mpr (List.splitOn_ne_nil ' ' before)
    have hafter := List.length_pos_iff.mpr (List.splitOn_ne_nil ' ' after)
    rw [split, List.splitOn_append_cons_self, List.length_append]
    exact iff_of_true (by omega) hblank
  · rw [split, List.splitOn_eq_singleton hblank]
    exact iff_of_false (by simp) hblank

/-- The replies to `give_details` are taken apart just if each has two fields. -/
lemma isSome_readDetails {rest : List (Str × Option Str)} {details : List (Str × Str × Str)} :
    (readDetails rest details).isSome = true ↔
      ∀ e ∈ rest, ∀ cred, e.2 = some cred → ' ' ∈ cred := by
  induction rest generalizing details with
  | nil => simp [readDetails]
  | cons e rest ih =>
    obtain ⟨i, _ | cred⟩ := e
    · rw [readDetails, ih, List.forall_mem_cons]
      simp
    · rw [readDetails, List.forall_mem_cons]
      by_cases hblank : ' ' ∈ cred
      · have hlength := one_lt_length_split.mpr hblank
        rw [List.getElem?_eq_getElem (Nat.zero_lt_of_lt hlength), Option.bind_some,
          List.getElem?_eq_getElem hlength, Option.bind_some, ih]
        simp [hblank]
      · have hlength : (split cred ' ').length ≤ 1 := not_lt.mp (mt one_lt_length_split.mp hblank)
        rw [List.getElem?_eq_none hlength]
        simp [hblank]

/-! ### Credits -/

section Plan

variable {sort : List Load → List Load} {nchunks nseeders : ℕ} {outputs : ℕ → Str}

/-- `CalcChunk` returns what the plan has beside the matrix. -/
lemma calcChunk_eq_planChunks (replies : List Str) :
    calcChunk sort nchunks replies = (planChunks sort nchunks replies).map Prod.snd := by
  rw [calcChunk, planChunks, Option.map_bind]
  refine congrArg _ (funext fun matrix => ?_)
  rw [Function.comp_apply, Option.map_map]
  rfl

/-- What the marks credit. -/
lemma credits_markedRow {v : List Load} {x : ℤ} {c : ℕ} :
    Credits (v.map fun e => markedRow nchunks (relabel e)) x c ↔
      c < nchunks ∧ ∃ e ∈ v, x = (relabel e).1 ∧ (c + 1 : ℤ) ∈ e.2 := by
  constructor
  · rintro ⟨row, hrow, hx, mark, hmark, hne⟩
    obtain ⟨e, he, rfl⟩ := List.mem_map.mp hrow
    have hc : c < nchunks := by
      have hlt := (List.getElem?_eq_some_iff.mp hmark).1
      rw [length_markedRow] at hlt
      omega
    refine ⟨hc, e, he, (Option.some.inj hx).symm, ?_⟩
    rw [getElem?_markedRow _ hc] at hmark
    by_contra hnot
    rw [relabel, if_neg hnot] at hmark
    exact hne (Option.some.inj hmark).symm
  · rintro ⟨hc, e, he, rfl, hmem⟩
    refine ⟨_, List.mem_map_of_mem he, rfl, 1, ?_, by decide⟩
    rw [getElem?_markedRow _ hc, relabel, if_pos hmem]

/-- The entries that `CalcChunk` passes to `populate`. -/
def loads (sort : List Load → List Load) (nchunks nseeders : ℕ) (outputs : ℕ → Str) : List Load :=
  sort (holdings (chunkSets nchunks ((List.range nseeders).map outputs)))

lemma mem_loads (hsort : ∀ v, (sort v).Perm v) {e : Load} :
    e ∈ loads sort nchunks nseeders outputs ↔
      ∃ i < nseeders, e = ((i : ℤ), (chunkNumbers nchunks (outputs i)).map (· + 1)) := by
  rw [loads, (hsort _).mem_iff, mem_holdings]
  constructor
  · rintro ⟨i, hi, hset⟩
    rw [chunkSets, List.map_map, List.getElem?_map] at hset
    obtain ⟨j, hj, hnumbers⟩ := Option.map_eq_some_iff.mp hset
    obtain ⟨hlt, rfl⟩ := List.getElem?_eq_some_iff.mp hj
    rw [List.length_range] at hlt
    rw [List.getElem_range] at hnumbers
    exact ⟨i, hlt, Prod.ext hi hnumbers.symm⟩
  · rintro ⟨i, hi, rfl⟩
    refine ⟨i, rfl, ?_⟩
    rw [chunkSets, List.map_map, List.getElem?_map, List.getElem?_range hi]
    rfl

lemma length_loads (hsort : ∀ v, (sort v).Perm v) :
    (loads sort nchunks nseeders outputs).length = nseeders := by
  rw [loads, (hsort _).length_eq, holdings, List.length_map, List.length_zipIdx, chunkSets,
    List.length_map, List.length_map, List.length_range]

lemma inBounds_load {i : ℕ} {numbers : List ℤ} :
    InBounds nchunks ((i : ℤ), numbers.map (· + 1)) ↔ ∀ a ∈ numbers, -1 ≤ a ∧ a < nchunks := by
  rw [InBounds, List.forall_mem_map]
  refine forall₂_congr fun a _ => ?_
  omega

lemma mem_map_succ {numbers : List ℤ} {c : ℤ} : c + 1 ∈ numbers.map (· + 1) ↔ c ∈ numbers := by
  simp

/-- A -1 among the numbers makes the row one of seeder 1. -/
lemma relabel_load {i : ℕ} {numbers : List ℤ} :
    (relabel ((i : ℤ), numbers.map (· + 1))).1 = if -1 ∈ numbers then 1 else (i : ℤ) := by
  have hzero : (0 : ℤ) ∈ numbers.map (· + 1) ↔ -1 ∈ numbers := mem_map_succ (c := -1)
  simp only [relabel, hzero]

lemma inBounds_loads (hsort : ∀ v, (sort v).Perm v) :
    (∀ e ∈ loads sort nchunks nseeders outputs, InBounds nchunks e) ↔
      ∀ i < nseeders, ∀ a ∈ chunkNumbers nchunks (outputs i), -1 ≤ a ∧ a < nchunks := by
  constructor
  · intro h i hi
    exact inBounds_load.mp (h _ ((mem_loads hsort).mpr ⟨i, hi, rfl⟩))
  · intro h e he
    obtain ⟨i, hi, rfl⟩ := (mem_loads hsort).mp he
    exact inBounds_load.mpr (h i hi)

lemma index_relabel_loads (hsort : ∀ v, (sort v).Perm v) :
    ∀ e ∈ (loads sort nchunks nseeders outputs).map relabel, e.1 ≠ -1 := by
  intro e he
  obtain ⟨e', he', rfl⟩ := List.mem_map.mp he
  obtain ⟨i, -, rfl⟩ := (mem_loads hsort).mp he'
  rw [relabel_load]
  split_ifs <;> omega

lemma planChunks_loads (hsort : ∀ v, (sort v).Perm v) :
    planChunks sort nchunks ((List.range nseeders).map outputs) =
      (populate (blankMatrix (loads sort nchunks nseeders outputs).length nchunks)
        (loads sort nchunks nseeders outputs)).bind fun matrix =>
          (decideChunks matrix (List.replicate nchunks (-1))).map fun chunks =>
            (matrix, ((List.range nseeders).map outputs).any fun output => output ≠ "-1".toList,
              chunks) := by
  have hlength : ((List.range nseeders).map outputs).length =
      (loads sort nchunks nseeders outputs).length := by
    rw [length_loads hsort, List.length_map, List.length_range]
  rw [planChunks, hlength]
  rfl

/-- Where all numbers are in bounds and there are seeders: what is marked and decided. -/
lemma planChunks_in_bounds (hsort : ∀ v, (sort v).Perm v) (hne : nseeders ≠ 0)
    (hin : ∀ i < nseeders, ∀ a ∈ chunkNumbers nchunks (outputs i), -1 ≤ a ∧ a < nchunks) :
    planChunks sort nchunks ((List.range nseeders).map outputs) =
      some ((loads sort nchunks nseeders outputs).map fun e => markedRow nchunks (relabel e),
        ((List.range nseeders).map outputs).any fun output => output ≠ "-1".toList,
        (List.range nchunks).map fun c : ℕ =>
          firstHolder ((loads sort nchunks nseeders outputs).map relabel) (c + 1)) := by
  have hrows : (loads sort nchunks nseeders outputs).map relabel ≠ [] := by
    apply List.ne_nil_of_length_pos
    rw [List.length_map, length_loads hsort]
    exact Nat.pos_of_ne_zero hne
  have hdecide : decideChunks ((loads sort nchunks nseeders outputs).map fun e =>
      markedRow nchunks (relabel e)) (List.replicate nchunks (-1)) =
        some ((List.range nchunks).map fun c : ℕ =>
          firstHolder ((loads sort nchunks nseeders outputs).map relabel) (c + 1)) := by
    rw [← decideChunks_eq (index_relabel_loads hsort) hrows, List.map_map]
    rfl
  rw [planChunks_loads hsort, populate_in_bounds ((inBounds_loads hsort).mpr hin),
    Option.bind_some, hdecide]
  rfl

/-- Without seeders, and where a number is out of bounds. -/
lemma planChunks_out_of_bounds (hsort : ∀ v, (sort v).Perm v)
    (h : nseeders = 0 ∨
      ¬ ∀ i < nseeders, ∀ a ∈ chunkNumbers nchunks (outputs i), -1 ≤ a ∧ a < nchunks) :
    planChunks sort nchunks ((List.range nseeders).map outputs) = none := by
  rw [planChunks_loads hsort]
  rcases h with rfl | hout
  · have hnil : loads sort nchunks 0 outputs = [] :=
      List.eq_nil_of_length_eq_zero (length_loads hsort)
    rw [hnil]
    rfl
  · rw [populate_out_of_bounds (mt (inBounds_loads hsort).mp hout)]
    rfl

/-- What is credited. -/
lemma credited_iff (hsort : ∀ v, (sort v).Perm v)
    (hin : ∀ i < nseeders, ∀ a ∈ chunkNumbers nchunks (outputs i), -1 ≤ a ∧ a < nchunks) :
    Credited nseeders outputs
        ((loads sort nchunks nseeders outputs).map fun e => markedRow nchunks (relabel e))
        ((List.range nchunks).map fun c : ℕ =>
          firstHolder ((loads sort nchunks nseeders outputs).map relabel) (c + 1)) ↔
      ∀ i < nseeders, Usable nseeders nchunks outputs i := by
  constructor
  · rintro ⟨hmarks, -⟩ i hi
    refine ⟨hin i hi, fun c hc => ?_⟩
    have hlt := (hin i hi c hc).2
    apply hmarks
    refine credits_markedRow.mpr ⟨by omega, _, (mem_loads hsort).mpr ⟨i, hi, rfl⟩, ?_,
      mem_map_succ.mpr hc⟩
    exact relabel_load.symm
  · intro husable
    have hlisted : ∀ e ∈ loads sort nchunks nseeders outputs, ∀ c : ℕ, (c + 1 : ℤ) ∈ e.2 →
        ListedBy nseeders outputs (relabel e).1 c := by
      intro e he c hc
      obtain ⟨i, hi, rfl⟩ := (mem_loads hsort).mp he
      rw [relabel_load]
      exact (husable i hi).2 c (mem_map_succ.mp hc)
    refine ⟨fun x c hcredit => ?_, fun c x hx hne => ?_⟩
    · obtain ⟨-, e, he, rfl, hc⟩ := credits_markedRow.mp hcredit
      exact hlisted e he c hc
    · rw [List.getElem?_map] at hx
      obtain ⟨k, hk, rfl⟩ := Option.map_eq_some_iff.mp hx
      obtain ⟨hlt, rfl⟩ := List.getElem?_eq_some_iff.mp hk
      rw [List.getElem_range] at hne ⊢
      obtain ⟨e, he, hc, hfirst⟩ := exists_of_firstHolder_ne hne
      obtain ⟨e', he', rfl⟩ := List.mem_map.mp he
      rw [hfirst]
      exact hlisted e' he' c hc

end Plan

/-! ### The condition -/

section Condition

variable {sort : List Load → List Load} {output : Str} {creds : ℕ → Option Str} {outputs : ℕ → Str}
  {size : Str}

/-- The replies to `give_details` by the indices of the seeders. -/
lemma isSome_readDetails_zipIdx {seeders : List Str} (details : List (Str × Str × Str)) :
    (readDetails (seeders.zipIdx.map fun e => (e.1, creds e.2)) details).isSome = true ↔
      ∀ i < seeders.length, ∀ cred, creds i = some cred → ' ' ∈ cred := by
  rw [isSome_readDetails, List.forall_mem_map]
  constructor
  · intro h i hi
    exact h (seeders[i], i) (List.mem_zipIdx_iff_getElem?.mpr (List.getElem?_eq_getElem hi))
  · rintro h ⟨seeder, i⟩ hmem
    exact h i (List.getElem?_eq_some_iff.mp (List.mem_zipIdx_iff_getElem?.mp hmem)).1

lemma planDownload_eq (hnone : output ≠ []) (hsize : (split output ' ').getLast? = some size) :
    planDownload sort output creds outputs =
      (readDetails ((split output ' ').dropLast.zipIdx.map fun e => (e.1, creds e.2)) []).bind
        fun _ => if chunkCount size < 0 then some .lengthError
          else (planChunks sort (nchunks size)
            ((List.range (split output ' ').dropLast.length).map outputs)).map
              fun ⟨matrix, flag, chunks⟩ => .planned matrix flag chunks := by
  rw [planDownload, if_neg hnone]
  simp only [hsize, Option.bind_some]

end Condition

lemma not_survives_of_none {sort : List Load → List Load} {output : Str} {creds : ℕ → Option Str}
    {outputs : ℕ → Str} (h : planDownload sort output creds outputs = none) :
    ¬ Survives sort output creds outputs := by
  rw [Survives, h]
  exact not_false

end TorrentShare
