import Mathlib.Data.List.Nodup
import TorrentShare.Peer.ChunkNumbers

/-!
# The choice of seeders

`CalcChunk` asks every seeder for its chunks, sorts the answers by their sizes and marks them in a
matrix with a row for each seeder. `Decide` gives each chunk to the seeder of the first row in which
it is marked.
-/

namespace TorrentShare

/-- A matrix of `int`, by rows. -/
abbrev Matrix := List (List ℤ)

/-- A seeder, by its index, and the chunks that it has. -/
abbrev Load := ℤ × List ℤ

/-! ### The matrix -/

/-- `matrix[i][j]`, which has a value if it is in bounds. -/
def cell (matrix : Matrix) (i : ℕ) (j : ℤ) : Option ℤ :=
  matrix[i]?.bind fun row => if 0 ≤ j then row[j.toNat]? else none

/-- `matrix[i][j]=x` -/
def setCell (matrix : Matrix) (i : ℕ) (j x : ℤ) : Option Matrix :=
  matrix[i]?.bind fun row =>
    if 0 ≤ j ∧ j.toNat < row.length then some (matrix.set i (row.set j.toNat x)) else none

/-- The inner loop of `populate`. -/
def markChunks (count : ℕ) : List ℤ → Matrix → Option Matrix
  | [],      matrix => some matrix
  | j :: js, matrix => (setCell matrix count j 1).bind (markChunks count js)

/-- The loop of `populate`, from row `count` on. -/
def populateFrom (count : ℕ) : List Load → Matrix → Option Matrix
  | [],     matrix => some matrix
  | i :: v, matrix => (setCell matrix count 0 i.1).bind fun m =>
    (markChunks count i.2 m).bind (populateFrom (count + 1) v)

def populate (matrix : Matrix) (v : List Load) : Option Matrix := populateFrom 0 v matrix

/-- What `Decide` does at row `i` and column `j`. -/
def decideAt (matrix : Matrix) (j : ℕ) (chunks : List ℤ) (i : ℕ) : Option (List ℤ) :=
  (cell matrix i j).bind fun mark =>
    if mark ≠ -1 then
      chunks[j - 1]?.bind fun c =>
        if c = -1 then (cell matrix i 0).map fun x => chunks.set (j - 1) x else some chunks
    else some chunks

/-- The inner loop of `Decide`. -/
def decideColumn (matrix : Matrix) (chunks : List ℤ) (j : ℕ) : Option (List ℤ) :=
  (List.range matrix.length).foldlM (decideAt matrix j) chunks

/-- `Decide` -/
def decideChunks (matrix : Matrix) (chunks : List ℤ) : Option (List ℤ) :=
  matrix[0]?.bind fun row =>
    (List.range' 1 (row.length - 1)).foldlM (decideColumn matrix) chunks

/-- The matrix that `CalcChunk` starts with. -/
def blankMatrix (nseeders nchunks : ℕ) : Matrix :=
  List.replicate nseeders (List.replicate (nchunks + 1) (-1))

/-- `v` before it is sorted. -/
def holdings (sets : List (List ℤ)) : List Load := sets.zipIdx.map fun e => ((e.2 : ℤ), e.1)

/-- All numbers are those of chunks, from 1 on. -/
def InRange (nchunks : ℕ) (e : Load) : Prop := ∀ j ∈ e.2, 1 ≤ j ∧ j ≤ nchunks

/-- All numbers are those of columns. -/
def InBounds (nchunks : ℕ) (e : Load) : Prop := ∀ j ∈ e.2, 0 ≤ j ∧ j ≤ nchunks

/-- What the row of an entry stands for: the index is in column 0, and a mark there replaces it. -/
def relabel (e : Load) : Load := (if 0 ∈ e.2 then 1 else e.1, e.2)

lemma InRange.inBounds {nchunks : ℕ} {e : Load} (h : InRange nchunks e) : InBounds nchunks e := by
  intro j hj
  obtain ⟨hlow, hhigh⟩ := h j hj
  omega

lemma InRange.relabel_eq {nchunks : ℕ} {e : Load} (h : InRange nchunks e) : relabel e = e := by
  have hzero : (0 : ℤ) ∉ e.2 := by
    intro hmem
    have hlow := (h 0 hmem).1
    omega
  rw [relabel, if_neg hzero]

/-! ### What is marked -/

/-- The row of a seeder: its index, and a mark for each of its chunks. -/
def markedRow (nchunks : ℕ) (e : Load) : List ℤ :=
  e.1 :: (List.range nchunks).map fun j : ℕ => if (j + 1 : ℤ) ∈ e.2 then 1 else -1

@[simp] lemma length_markedRow (nchunks : ℕ) (e : Load) :
    (markedRow nchunks e).length = nchunks + 1 := by
  simp [markedRow]

lemma getElem?_markedRow {nchunks j : ℕ} (e : Load) (hj : j < nchunks) :
    (markedRow nchunks e)[j + 1]? = some (if (j + 1 : ℤ) ∈ e.2 then 1 else -1) := by
  rw [markedRow, List.getElem?_cons_succ, List.getElem?_map, List.getElem?_range hj]
  rfl

/-- A write in the row between those that are done and those that are not. -/
lemma setCell_middle (before after : Matrix) (row : List ℤ) {j x : ℤ} (hj : 0 ≤ j)
    (hlt : j.toNat < row.length) : setCell (before ++ row :: after) before.length j x =
      some (before ++ row.set j.toNat x :: after) := by
  rw [setCell, List.getElem?_append_right (le_refl _), Nat.sub_self, List.getElem?_cons_zero,
    Option.bind_some, if_pos ⟨hj, hlt⟩, List.set_append_right _ _ (le_refl _), Nat.sub_self,
    List.set_cons_zero]

lemma markChunks_middle (before after : Matrix) {row js : List ℤ}
    (h : ∀ j ∈ js, 0 ≤ j ∧ j.toNat < row.length) :
    markChunks before.length js (before ++ row :: after) =
      some (before ++ js.foldl (fun row j => row.set j.toNat 1) row :: after) := by
  induction js generalizing row with
  | nil => rfl
  | cons j js ih =>
    obtain ⟨hj, hlt⟩ := h j List.mem_cons_self
    rw [markChunks, setCell_middle before after row hj hlt, Option.bind_some, ih, List.foldl_cons]
    intro j' hj'
    rw [List.length_set]
    exact h j' (List.mem_cons_of_mem _ hj')

lemma length_foldl_set (row js : List ℤ) :
    (js.foldl (fun row j => row.set j.toNat 1) row).length = row.length := by
  induction js generalizing row with
  | nil => rfl
  | cons j js ih => rw [List.foldl_cons, ih, List.length_set]

/-- The places that have been written to, and the others. -/
lemma getElem?_foldl_set {row js : List ℤ} {i : ℕ} (hi : i < row.length) :
    (js.foldl (fun row j => row.set j.toNat 1) row)[i]? =
      if i ∈ js.map Int.toNat then some 1 else row[i]? := by
  induction js generalizing row with
  | nil => simp
  | cons j js ih =>
    rw [List.foldl_cons, ih (by rwa [List.length_set])]
    simp only [List.map_cons, List.mem_cons]
    by_cases hrest : i ∈ js.map Int.toNat
    · rw [if_pos hrest, if_pos (Or.inr hrest)]
    · rw [if_neg hrest]
      by_cases hij : i = j.toNat
      · rw [if_pos (Or.inl hij), hij, List.getElem?_set_self (hij ▸ hi)]
      · rw [if_neg (not_or.mpr ⟨hij, hrest⟩), List.getElem?_set_ne fun h => hij h.symm]

/-- The chunks of a seeder marked in a blank row. -/
lemma foldl_set_eq_markedRow {nchunks : ℕ} {e : Load} (h : InBounds nchunks e) :
    e.2.foldl (fun row j => row.set j.toNat 1) ((List.replicate (nchunks + 1) (-1)).set 0 e.1) =
      markedRow nchunks (relabel e) := by
  have hlength : ((List.replicate (nchunks + 1) (-1 : ℤ)).set 0 e.1).length = nchunks + 1 := by simp
  have hmark : ∀ i : ℕ, i ∈ e.2.map Int.toNat ↔ (i : ℤ) ∈ e.2 := by
    intro i
    constructor
    · intro hmem
      obtain ⟨j, hj, heq⟩ := List.mem_map.mp hmem
      have hlow := (h j hj).1
      have hcast : (i : ℤ) = j := by omega
      exact hcast ▸ hj
    · intro hmem
      exact List.mem_map.mpr ⟨_, hmem, by omega⟩
  apply List.ext_getElem?
  intro i
  by_cases hi : i < nchunks + 1
  · rw [getElem?_foldl_set (hlength.symm ▸ hi)]
    simp only [hmark]
    cases i with
    | zero =>
      rw [List.getElem?_set_self (by simp), markedRow, List.getElem?_cons_zero, relabel,
        Nat.cast_zero]
      split_ifs <;> rfl
    | succ i =>
      rw [getElem?_markedRow _ (by omega), List.getElem?_set_ne (by omega),
        List.getElem?_replicate_of_lt hi, relabel, Nat.cast_succ]
      split_ifs <;> rfl
  · rw [List.getElem?_eq_none, List.getElem?_eq_none]
    · simpa using hi
    · rw [length_foldl_set, hlength]
      omega

lemma blankMatrix_succ (n nchunks : ℕ) : blankMatrix (n + 1) nchunks =
    List.replicate (nchunks + 1) (-1) :: blankMatrix n nchunks := rfl

/-- The bounds of a row that has its index. -/
lemma inBounds_iff {nchunks : ℕ} {e : Load} : InBounds nchunks e ↔ ∀ j ∈ e.2, 0 ≤ j ∧
    j.toNat < ((List.replicate (nchunks + 1) (-1 : ℤ)).set (0 : ℤ).toNat e.1).length := by
  rw [List.length_set, List.length_replicate]
  refine forall₂_congr fun j _ => ?_
  omega

/-- One row of `populate`. -/
lemma populateFrom_cons {nchunks : ℕ} {e : Load} (v : List Load) (he : InBounds nchunks e)
    (before : Matrix) :
    populateFrom before.length (e :: v) (before ++ blankMatrix (e :: v).length nchunks) =
      populateFrom (before ++ [markedRow nchunks (relabel e)]).length v
        ((before ++ [markedRow nchunks (relabel e)]) ++ blankMatrix v.length nchunks) := by
  rw [populateFrom, List.length_cons, blankMatrix_succ,
    setCell_middle _ _ _ (le_refl 0) (by simp), Option.bind_some,
    markChunks_middle _ _ (inBounds_iff.mp he), Option.bind_some, Int.toNat_zero,
    foldl_set_eq_markedRow he, List.length_append, List.length_singleton, List.append_assoc,
    List.singleton_append]

/-- Every row that `populate` comes to is marked. -/
lemma populateFrom_blank {nchunks : ℕ} {v : List Load} (h : ∀ e ∈ v, InBounds nchunks e)
    (before : Matrix) : populateFrom before.length v (before ++ blankMatrix v.length nchunks) =
      some (before ++ v.map fun e => markedRow nchunks (relabel e)) := by
  induction v generalizing before with
  | nil => rfl
  | cons e v ih =>
    rw [populateFrom_cons v (h e List.mem_cons_self), ih fun e' he' =>
      h e' (List.mem_cons_of_mem _ he'), List.append_assoc, List.singleton_append, List.map_cons]

lemma populate_in_bounds {nchunks : ℕ} {v : List Load} (h : ∀ e ∈ v, InBounds nchunks e) :
    populate (blankMatrix v.length nchunks) v =
      some (v.map fun e => markedRow nchunks (relabel e)) :=
  populateFrom_blank h []

lemma populate_blank {nchunks : ℕ} {v : List Load} (h : ∀ e ∈ v, InRange nchunks e) :
    populate (blankMatrix v.length nchunks) v = some (v.map (markedRow nchunks)) := by
  rw [populate_in_bounds fun e he => (h e he).inBounds]
  exact congrArg some (List.map_congr_left fun e he => congrArg _ (h e he).relabel_eq)

/-- A number that is not that of a column. -/
lemma markChunks_out_of_bounds (before after : Matrix) {row js : List ℤ}
    (h : ¬ ∀ j ∈ js, 0 ≤ j ∧ j.toNat < row.length) :
    markChunks before.length js (before ++ row :: after) = none := by
  induction js generalizing row with
  | nil => exact absurd (by simp) h
  | cons j js ih =>
    by_cases hj : 0 ≤ j ∧ j.toNat < row.length
    · rw [markChunks, setCell_middle before after row hj.1 hj.2, Option.bind_some, ih]
      rw [List.length_set]
      intro hjs
      exact h (List.forall_mem_cons.mpr ⟨hj, hjs⟩)
    · rw [markChunks, setCell, List.getElem?_append_right (le_refl _), Nat.sub_self,
        List.getElem?_cons_zero, Option.bind_some, if_neg hj]
      rfl

lemma populateFrom_out_of_bounds {nchunks : ℕ} {v : List Load}
    (h : ¬ ∀ e ∈ v, InBounds nchunks e) (before : Matrix) :
    populateFrom before.length v (before ++ blankMatrix v.length nchunks) = none := by
  induction v generalizing before with
  | nil => exact absurd (by simp) h
  | cons e v ih =>
    by_cases he : InBounds nchunks e
    · rw [populateFrom_cons v he, ih fun hv => h (List.forall_mem_cons.mpr ⟨he, hv⟩)]
    · rw [populateFrom, List.length_cons, blankMatrix_succ,
        setCell_middle _ _ _ (le_refl 0) (by simp), Option.bind_some,
        markChunks_out_of_bounds _ _ (mt inBounds_iff.mpr he)]
      rfl

lemma populate_out_of_bounds {nchunks : ℕ} {v : List Load}
    (h : ¬ ∀ e ∈ v, InBounds nchunks e) : populate (blankMatrix v.length nchunks) v = none :=
  populateFrom_out_of_bounds h []

/-! ### Who gets a chunk -/

/-- The seeder of the first entry that has the chunk, or `-1`. -/
def firstHolder (v : List Load) (c : ℤ) : ℤ :=
  ((v.find? fun e => decide (c ∈ e.2)).map Prod.fst).getD (-1)

lemma firstHolder_eq_neg_one_iff {v : List Load} (hv : ∀ e ∈ v, e.1 ≠ -1) (c : ℤ) :
    firstHolder v c = -1 ↔ ∀ e ∈ v, c ∉ e.2 := by
  rw [firstHolder]
  cases hfind : v.find? fun e => decide (c ∈ e.2) with
  | none =>
    have hnone := List.find?_eq_none.mp hfind
    simpa using hnone
  | some e =>
    have hmem := List.mem_of_find?_eq_some hfind
    have hc := List.find?_some hfind
    have hholds : ¬ ∀ e ∈ v, c ∉ e.2 := fun h => h e hmem (of_decide_eq_true hc)
    exact iff_of_false (hv e hmem) hholds

/-- Who gets a chunk has it. -/
lemma exists_of_firstHolder_ne {v : List Load} {c : ℤ} (h : firstHolder v c ≠ -1) :
    ∃ e ∈ v, c ∈ e.2 ∧ firstHolder v c = e.1 := by
  rw [firstHolder] at h ⊢
  cases hfind : v.find? fun e => decide (c ∈ e.2) with
  | none =>
    rw [hfind] at h
    exact absurd rfl h
  | some e =>
    have hc := List.find?_some hfind
    exact ⟨e, List.mem_of_find?_eq_some hfind, of_decide_eq_true hc, rfl⟩

/-- One more entry counts if none before has the chunk. -/
lemma firstHolder_concat {v : List Load} (hv : ∀ e ∈ v, e.1 ≠ -1) (e : Load) (c : ℤ) :
    firstHolder (v ++ [e]) c =
      if c ∈ e.2 ∧ firstHolder v c = -1 then e.1 else firstHolder v c := by
  have hfree := firstHolder_eq_neg_one_iff hv c
  cases hfind : v.find? fun e => decide (c ∈ e.2) with
  | none =>
    have hnone : ∀ e ∈ v, c ∉ e.2 := by simpa using List.find?_eq_none.mp hfind
    rw [hfree.mpr hnone, firstHolder, List.find?_append, hfind]
    by_cases hc : c ∈ e.2
    · rw [if_pos ⟨hc, rfl⟩, List.find?_cons_of_pos (by simpa using hc)]
      rfl
    · rw [if_neg fun h => hc h.1, List.find?_cons_of_neg (by simpa using hc)]
      rfl
  | some e' =>
    have hmem := List.mem_of_find?_eq_some hfind
    have hc := List.find?_some hfind
    rw [if_neg fun h => hfree.mp h.2 e' hmem (of_decide_eq_true hc), firstHolder, firstHolder,
      List.find?_append, hfind]
    rfl

/-- An entry that has the chunk and comes first. -/
lemma firstHolder_of_mem {v : List Load} {c : ℤ} {e : Load} (he : e ∈ v) (hc : c ∈ e.2)
    {R : Load → Load → Prop} (hrefl : ∀ e, R e e) (hsorted : v.Pairwise R) :
    ∃ e' ∈ v, c ∈ e'.2 ∧ firstHolder v c = e'.1 ∧ ∀ e ∈ v, c ∈ e.2 → R e' e := by
  have hsome : (v.find? fun e => decide (c ∈ e.2)).isSome = true := by
    rw [List.find?_isSome]
    exact ⟨e, he, decide_eq_true hc⟩
  obtain ⟨e', hfind⟩ := Option.isSome_iff_exists.mp hsome
  have hc' := List.find?_some hfind
  refine ⟨e', List.mem_of_find?_eq_some hfind, of_decide_eq_true hc', ?_, ?_⟩
  · rw [firstHolder, hfind]
    rfl
  · intro e₂ he₂ hc₂
    obtain ⟨-, before, after, rfl, hbefore⟩ := List.find?_eq_some_iff_append.mp hfind
    rw [List.pairwise_append, List.pairwise_cons] at hsorted
    rcases List.mem_append.mp he₂ with hin | hin
    · exact absurd hc₂ (by simpa using hbefore e₂ hin)
    · rcases List.mem_cons.mp hin with rfl | hin
      · exact hrefl _
      · exact hsorted.2.1.1 e₂ hin

section Decide

variable {nchunks : ℕ} {v : List Load} {i j : ℕ} {e : Load}

lemma cell_marked (hi : v[i]? = some e) (hj : j < nchunks) :
    cell (v.map (markedRow nchunks)) i (j + 1 : ℕ) =
      some (if (j + 1 : ℤ) ∈ e.2 then 1 else -1) := by
  rw [cell, List.getElem?_map, hi, Option.map_some, Option.bind_some,
    if_pos (Int.natCast_nonneg _), Int.toNat_natCast, getElem?_markedRow e hj]

lemma cell_index (hi : v[i]? = some e) : cell (v.map (markedRow nchunks)) i 0 = some e.1 := by
  rw [cell, List.getElem?_map, hi]
  rfl

/-- A chunk after some of the rows. -/
lemma foldlM_decideAt (hv : ∀ e ∈ v, e.1 ≠ -1) (hj : j < nchunks) {chunks : List ℤ}
    (hunset : chunks[j]? = some (-1)) (hi : i ≤ v.length) :
    (List.range i).foldlM (decideAt (v.map (markedRow nchunks)) (j + 1)) chunks =
      some (chunks.set j (firstHolder (v.take i) (j + 1))) := by
  obtain ⟨hlt, hthere⟩ := List.getElem?_eq_some_iff.mp hunset
  induction i with
  | zero =>
    have hnone : firstHolder (v.take 0) (j + 1) = chunks[j] := by rw [hthere]; rfl
    rw [hnone, List.set_getElem_self]
    rfl
  | succ i ih =>
    have he : v[i]? = some v[i] := List.getElem?_eq_getElem hi
    have hbefore : ∀ e ∈ v.take i, e.1 ≠ -1 := fun e he => hv e (List.mem_of_mem_take he)
    have hset : (chunks.set j (firstHolder (v.take i) (j + 1)))[j]? =
        some (firstHolder (v.take i) (j + 1)) := List.getElem?_set_self hlt
    rw [List.range_succ, List.foldlM_append, ih (Nat.le_of_succ_le hi),
      List.take_succ_eq_append_getElem hi, firstHolder_concat hbefore]
    simp only [Option.bind_eq_bind, Option.bind_some, List.foldlM_cons, List.foldlM_nil, decideAt,
      cell_marked he hj, cell_index he, Nat.add_sub_cancel, hset, Option.map_some]
    by_cases hc : (j + 1 : ℤ) ∈ v[i].2
    · by_cases hfree : firstHolder (v.take i) (j + 1) = -1
      · simp [hc, hfree]
      · simp [hc, hfree]
    · simp [hc]

lemma decideColumn_eq (hv : ∀ e ∈ v, e.1 ≠ -1) (hj : j < nchunks) {chunks : List ℤ}
    (hunset : chunks[j]? = some (-1)) :
    decideColumn (v.map (markedRow nchunks)) chunks (j + 1) =
      some (chunks.set j (firstHolder v (j + 1))) := by
  rw [decideColumn, List.length_map, foldlM_decideAt hv hj hunset (le_refl _), List.take_length]

/-- The chunks after some of the columns. -/
lemma foldlM_decideColumn (hv : ∀ e ∈ v, e.1 ≠ -1) {m : ℕ} (hm : m ≤ nchunks) :
    (List.range' 1 m).foldlM (decideColumn (v.map (markedRow nchunks)))
        (List.replicate nchunks (-1)) =
      some ((List.range nchunks).map fun x : ℕ => if x < m then firstHolder v (x + 1) else -1) := by
  induction m with
  | zero =>
    have hblank : ((List.range nchunks).map fun x : ℕ =>
        if x < 0 then firstHolder v (x + 1) else -1) = List.replicate nchunks (-1) := by
      simp [List.map_const']
    rw [hblank]
    rfl
  | succ m ih =>
    have hunset : ((List.range nchunks).map fun x : ℕ =>
        if x < m then firstHolder v (x + 1) else -1)[m]? = some (-1) := by
      rw [List.getElem?_map, List.getElem?_range (by omega), Option.map_some,
        if_neg (lt_irrefl m)]
    rw [List.range'_1_concat, List.foldlM_append, ih (by omega), Nat.add_comm 1 m]
    simp only [Option.bind_eq_bind, Option.bind_some, List.foldlM_cons, List.foldlM_nil,
      decideColumn_eq hv (show m < nchunks by omega) hunset]
    refine congrArg some (List.ext_getElem? fun x => ?_)
    rw [List.getElem?_set, List.length_map, List.length_range, List.getElem?_map,
      List.getElem?_map]
    by_cases hx : x < nchunks
    · rw [List.getElem?_range hx, Option.map_some, Option.map_some]
      split_ifs <;> first | rfl | omega | (subst m; rfl)
    · rw [if_neg (by omega), List.getElem?_eq_none (by simpa using hx)]
      rfl

lemma decideChunks_eq (hv : ∀ e ∈ v, e.1 ≠ -1) (hne : v ≠ []) :
    decideChunks (v.map (markedRow nchunks)) (List.replicate nchunks (-1)) =
      some ((List.range nchunks).map fun x : ℕ => firstHolder v (x + 1)) := by
  obtain ⟨e, v', rfl⟩ := List.exists_cons_of_ne_nil hne
  rw [decideChunks, List.map_cons, List.getElem?_cons_zero, Option.bind_some, length_markedRow,
    Nat.add_sub_cancel, ← List.map_cons, foldlM_decideColumn hv (le_refl _)]
  refine congrArg some (List.map_congr_left fun x hx => ?_)
  rw [if_pos (List.mem_range.mp hx)]

end Decide

/-! ### Sorted entries -/

section Sorted

variable {nchunks : ℕ} {sets : List (List ℤ)} {v : List Load} {e : Load}

lemma mem_holdings : e ∈ holdings sets ↔ ∃ x : ℕ, e.1 = x ∧ sets[x]? = some e.2 := by
  rw [holdings, List.mem_map]
  constructor
  · rintro ⟨⟨s, x⟩, hmem, rfl⟩
    exact ⟨x, rfl, List.mem_zipIdx_iff_getElem?.mp hmem⟩
  · rintro ⟨x, hx, hs⟩
    exact ⟨(e.2, x), List.mem_zipIdx_iff_getElem?.mpr hs, Prod.ext hx.symm rfl⟩

/-- The vector `v` after it is sorted, in whatever way: each seeder has a row. -/
structure Arranged (sets : List (List ℤ)) (v : List Load) : Prop where
  perm : v.Perm (holdings sets)
  nonempty : sets ≠ []

namespace Arranged

variable (hv : Arranged sets v)
include hv

lemma length_eq : v.length = sets.length := by
  rw [hv.perm.length_eq, holdings, List.length_map, List.length_zipIdx]

lemma ne_nil : v ≠ [] := by
  intro hnil
  have hlength := hv.length_eq
  rw [hnil, List.length_nil] at hlength
  exact hv.nonempty (List.eq_nil_of_length_eq_zero hlength.symm)

lemma mem_iff : e ∈ v ↔ ∃ x : ℕ, e.1 = x ∧ sets[x]? = some e.2 :=
  hv.perm.mem_iff.trans mem_holdings

lemma ne_neg_one : ∀ e ∈ v, e.1 ≠ -1 := by
  intro e he
  obtain ⟨x, hx, -⟩ := hv.mem_iff.mp he
  omega

lemma exists_entry {s : List ℤ} (hs : s ∈ sets) : ∃ x : ℕ, ((x : ℤ), s) ∈ v := by
  obtain ⟨x, hx⟩ := List.mem_iff_getElem?.mp hs
  exact ⟨x, hv.mem_iff.mpr ⟨x, rfl, hx⟩⟩

/-- `populate` and `Decide` stay in bounds, and give each chunk to the first who has it. -/
lemma decideChunks_populate (hrange : ∀ s ∈ sets, ∀ c ∈ s, 1 ≤ c ∧ c ≤ nchunks) :
    (populate (blankMatrix sets.length nchunks) v).bind (fun matrix =>
      decideChunks matrix (List.replicate nchunks (-1))) =
        some ((List.range nchunks).map fun x : ℕ => firstHolder v (x + 1)) := by
  have hin : ∀ e ∈ v, InRange nchunks e := by
    intro e he
    obtain ⟨x, -, hx⟩ := hv.mem_iff.mp he
    exact hrange e.2 (List.mem_of_getElem? hx)
  rw [← hv.length_eq, populate_blank hin, Option.bind_some, decideChunks_eq hv.ne_neg_one hv.ne_nil]

/-- Nobody gets a chunk that nobody has. -/
lemma firstHolder_eq_neg_one {c : ℤ} : firstHolder v c = -1 ↔ ∀ s ∈ sets, c ∉ s := by
  rw [firstHolder_eq_neg_one_iff hv.ne_neg_one]
  constructor
  · intro hnone s hs
    obtain ⟨x, hx⟩ := hv.exists_entry hs
    exact hnone _ hx
  · intro hnone e he
    obtain ⟨x, -, hx⟩ := hv.mem_iff.mp he
    exact hnone e.2 (List.mem_of_getElem? hx)

end Arranged

end Sorted

/-- Each chunk is given to a seeder with the fewest chunks of those who have it, or to nobody. -/
def LeastLoaded (nchunks : ℕ) (sets : List (List ℤ)) (chunks : List ℤ) : Prop :=
  chunks.length = nchunks ∧ ∀ c : ℕ, 1 ≤ c → c ≤ nchunks →
    ((∀ s ∈ sets, (c : ℤ) ∉ s) → chunks[c - 1]? = some (-1)) ∧
    ((∃ s ∈ sets, (c : ℤ) ∈ s) → ∃ (x : ℕ) (s : List ℤ), chunks[c - 1]? = some (x : ℤ) ∧
      sets[x]? = some s ∧ (c : ℤ) ∈ s ∧ ∀ s' ∈ sets, (c : ℤ) ∈ s' → s.length ≤ s'.length)

/-- Whatever sorting by size does to entries of the same size, `populate` and `Decide` give each
    chunk to one of the least loaded who have it. -/
theorem least_loaded_holder {nchunks : ℕ} {sets : List (List ℤ)} {v : List Load}
    (hne : sets ≠ []) (hrange : ∀ s ∈ sets, ∀ c ∈ s, 1 ≤ c ∧ c ≤ nchunks)
    (hperm : v.Perm (holdings sets))
    (hsorted : v.Pairwise fun a b => a.2.length ≤ b.2.length) :
    ∃ matrix chunks, populate (blankMatrix sets.length nchunks) v = some matrix ∧
      decideChunks matrix (List.replicate nchunks (-1)) = some chunks ∧
      LeastLoaded nchunks sets chunks := by
  have hv : Arranged sets v := ⟨hperm, hne⟩
  obtain ⟨matrix, hmatrix, hchunks⟩ := Option.bind_eq_some_iff.mp (hv.decideChunks_populate hrange)
  refine ⟨matrix, _, hmatrix, hchunks, by simp, fun c hlow hhigh => ?_⟩
  have hcast : ((c - 1 : ℕ) : ℤ) + 1 = c := by omega
  have hchunk : ((List.range nchunks).map fun x : ℕ => firstHolder v (x + 1))[c - 1]? =
      some (firstHolder v c) := by
    rw [List.getElem?_map, List.getElem?_range (by omega), Option.map_some, hcast]
  rw [hchunk]
  refine ⟨fun hnone => congrArg some (hv.firstHolder_eq_neg_one.mpr hnone), ?_⟩
  rintro ⟨s, hs, hc⟩
  obtain ⟨x, hx⟩ := hv.exists_entry hs
  obtain ⟨e, he, hce, hfirst, hleast⟩ :=
    firstHolder_of_mem hx hc (fun e => le_refl e.2.length) hsorted
  obtain ⟨y, hy, hset⟩ := hv.mem_iff.mp he
  refine ⟨y, e.2, by rw [hfirst, hy], hset, hce, fun s' hs' hc' => ?_⟩
  obtain ⟨x', hx'⟩ := hv.exists_entry hs'
  exact hleast _ hx' hc'

theorem least_loaded_holder_two : ∃ matrix chunks,
    populate (blankMatrix [[2, 1], [1]].length 2) [(1, [1]), (0, [2, 1])] = some matrix ∧
      decideChunks matrix (List.replicate 2 (-1)) = some chunks ∧
      LeastLoaded 2 [[2, 1], [1]] chunks := by
  have hrange : ∀ s ∈ [[2, 1], [1]], ∀ c ∈ s, (1 : ℤ) ≤ c ∧ c ≤ (2 : ℕ) := by decide
  have hperm : List.Perm [(1, [1]), (0, [2, 1])] (holdings [[2, 1], [1]]) := List.Perm.swap _ _ _
  exact least_loaded_holder (by decide) hrange hperm (by simp)

/-! ### The comparison that `std::sort` is given -/

def myComp (a b : Load) : Bool := if a.2.length ≤ b.2.length then true else false

lemma myComp_eq_true {a b : Load} : myComp a b = true ↔ a.2.length ≤ b.2.length := by
  simp [myComp]

/-- Entries of the same size are each put before the other. -/
lemma myComp_both_iff {a b : Load} :
    myComp a b = true ∧ myComp b a = true ↔ a.2.length = b.2.length := by
  rw [myComp_eq_true, myComp_eq_true]
  exact antisymm_iff

/-- The comparison is a strict weak order on entries just if there are none: every entry is put
    before itself. -/
theorem my_comp_strict_iff (v : List Load) :
    IsStrictWeakOrder {e // e ∈ v} (fun a b => myComp a.1 b.1 = true) ↔ v = [] := by
  constructor
  · intro hstrict
    by_contra hne
    obtain ⟨e, he⟩ := List.exists_mem_of_ne_nil v hne
    exact irrefl (r := fun a b : {e // e ∈ v} => myComp a.1 b.1 = true) ⟨e, he⟩
      (myComp_both_iff.mpr rfl).1
  · rintro rfl
    exact { irrefl := fun a => absurd a.2 List.not_mem_nil
            trans := fun a => absurd a.2 List.not_mem_nil
            incomp_trans := fun a => absurd a.2 List.not_mem_nil }

/-- Two seeders that have one chunk each. -/
theorem equal_loads_unordered :
    ¬ IsStrictWeakOrder {e // e ∈ ([(0, [1]), (1, [1])] : List Load)}
      (fun a b => myComp a.1 b.1 = true) := by
  intro hstrict
  exact asymm (r := fun a b : {e // e ∈ ([(0, [1]), (1, [1])] : List Load)} =>
    myComp a.1 b.1 = true) (a := ⟨(0, [1]), by simp⟩) (b := ⟨(1, [1]), by simp⟩) rfl rfl

end TorrentShare
