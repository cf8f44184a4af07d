import TorrentShare.Tracker.Crashes

/-!
# Deletions as filters

`DeleteLine` writes the lines that stay to the temporary file, which it opens for appending, and
makes it the file. What is in the temporary file before comes first.
-/

namespace TorrentShare

open Program

/-! ### Rewrites -/

/-- All lines can be tested just if some lines are kept. -/
lemma keptLines_eq_none {drop : Str → Option Bool} {ls : List Str} :
    keptLines drop ls = none ↔ ∃ l ∈ ls, drop l = none := by
  induction ls with
  | nil => simp [keptLines]
  | cons l ls ih =>
    rw [List.exists_mem_cons_iff, ← ih, keptLines]
    cases drop l with
    | none => simp
    | some b => simp

section Rewrite

variable {mode : OpenMode} {p : Path} {drop : Str → Option Bool} {s s' : Session}

/-- A rewrite leaves the lines that do not pass its test, and nothing else, just if all lines can
    be tested and there is nothing in the temporary file that gets into the file. -/
lemma rewrite_filters_iff (hp : cStr p ≠ tempFile) :
    (∃ s', callInterp (.rewrite mode p drop) s = some ((), s') ∧ s'.disk.text p =
      Disk.putlines ((s.disk.lines p).filter fun l => !(drop l == some true))) ↔
    (∀ l ∈ s.disk.lines p, drop l ≠ none) ∧
      (s.disk.temporary mode = [] ∨ openable (cStr p) = false) := by
  rw [callInterp_rewrite]
  cases hkept : keptLines drop (s.disk.lines p) with
  | none =>
    obtain ⟨l, hl, hnone⟩ := keptLines_eq_none.mp hkept
    refine iff_of_false ?_ fun h => h.1 l hl hnone
    rintro ⟨s', hs', -⟩
    cases hs'
  | some ks =>
    have htested : ∀ l ∈ s.disk.lines p, drop l ≠ none := by
      intro l hl hnone
      rw [keptLines_eq_none.mpr ⟨l, hl, hnone⟩] at hkept
      cases hkept
    rw [← Disk.keptLines_eq_filter hkept]
    simp only [Option.map_some, Option.some.injEq, Prod.mk.injEq, true_and, exists_eq_left',
      Session.disk_setDisk, Disk.text_rewritten _ _ _ rfl hp, and_iff_right htested]
    by_cases hopen : openable (cStr p) = true
    · rw [if_pos hopen, List.append_left_eq_self, hopen]
      simp
    · have hclosed : openable (cStr p) = false := by simpa using hopen
      -- there are no lines under such a name
      have hnil : ks = [] := by
        rw [Disk.lines_of_not_openable _ hclosed] at hkept
        exact (Option.some.inj hkept).symm
      rw [if_neg hopen, hnil]
      exact iff_of_true rfl (Or.inr hclosed)

/-- A temporary file that is opened anew makes no difference. -/
lemma rewrite_out_filters (hp : cStr p ≠ tempFile)
    (htested : ∀ l ∈ s.disk.lines p, drop l ≠ none) :
    ∃ s', callInterp (.rewrite .out p drop) s = some ((), s') ∧ s'.disk.text p =
      Disk.putlines ((s.disk.lines p).filter fun l => !(drop l == some true)) :=
  (rewrite_filters_iff hp).mpr ⟨htested, Or.inl rfl⟩

/-- A rewrite can stop with its file as it was. -/
lemma passes_copied {ks : List Str} (hks : keptLines drop (s.disk.lines p) = some ks) :
    (rewriteBody mode p drop).Passes primInterp s (s.setDisk (s.disk.create tempFile
      (s.disk.temporary mode ++ Disk.putlines ks))) := by
  rw [rewriteBody_eq, Prog.passes_bind, run_fillTemp, hks]
  exact Or.inr ⟨_, rfl, Prog.passes_start _⟩

end Rewrite

/-! ### The functions -/

section DeleteLine

variable {filename : Path} {data : Str} {index : ℕ} {s : Session}

lemma run_deleteLine : (deleteLine filename data index).run callInterp s =
    callInterp (.rewrite .app filename fun l => fieldIs index data (split l ' ')) s := by
  cases h : callInterp (.rewrite .app filename fun l => fieldIs index data (split l ' ')) s <;>
    simp [deleteLine, rewrite, call, primInterp, h]

lemma run_deleteWholeLine : (deleteWholeLine filename data).run callInterp s =
    callInterp (.rewrite .app filename fun l => some (l = data)) s := by
  cases h : callInterp (.rewrite .app filename fun l => some (l = data)) s <;>
    simp [deleteWholeLine, rewrite, call, primInterp, h]

/-- Both functions are filters just if all lines have the column, which only the first looks at,
    and nothing is in the temporary file; where there can be no file nothing happens. -/
theorem delete_line_filters_iff (hp : cStr filename ≠ tempFile) :
    ((∃ s', (deleteLine filename data index).run callInterp s = some ((), s') ∧
        s'.disk.text filename = Disk.putlines ((s.disk.lines filename).filter fun l =>
          (split l ' ')[index]? ≠ some data)) ↔
      (∀ l ∈ s.disk.lines filename, index < (split l ' ').length) ∧
        (s.disk.text tempFile = [] ∨ openable (cStr filename) = false)) ∧
    ((∃ s', (deleteWholeLine filename data).run callInterp s = some ((), s') ∧
        s'.disk.text filename = Disk.putlines ((s.disk.lines filename).filter fun l =>
          l ≠ data)) ↔
      s.disk.text tempFile = [] ∨ openable (cStr filename) = false) := by
  constructor
  · have hmatch : ∀ l, (decide ((split l ' ')[index]? ≠ some data)) =
        !(fieldIs index data (split l ' ') == some true) := by
      intro l
      rw [fieldIs]
      cases (split l ' ')[index]? <;> simp
    have hcolumn : ∀ l, index < (split l ' ').length ↔ fieldIs index data (split l ' ') ≠ none := by
      intro l
      rw [fieldIs, Ne, Option.map_eq_none_iff, List.getElem?_eq_none_iff, not_le]
    simp only [run_deleteLine, hmatch, hcolumn]
    exact rewrite_filters_iff hp
  · have hmatch : ∀ l, (decide (l ≠ data)) = !(some (decide (l = data)) == some true) := by
      intro l
      by_cases hl : l = data <;> simp [hl]
    simp only [run_deleteWholeLine, hmatch]
    rw [rewrite_filters_iff hp]
    exact and_iff_right fun l _ => Option.some_ne_none _

end DeleteLine

theorem delete_line_filters_iff_pending : ∃ s', (deleteWholeLine pendingFile "u g".toList).run
    callInterp (sessionWith pendingFile "u g\nv g\n".toList) = some ((), s') ∧
      s'.disk.text pendingFile = Disk.putlines
        (((sessionWith pendingFile "u g\nv g\n".toList).disk.lines pendingFile).filter
          fun l => l ≠ "u g".toList) := by
  have htemp : (sessionWith pendingFile "u g\nv g\n".toList).disk.text tempFile = [] := rfl
  have hfilters := @delete_line_filters_iff pendingFile "u g".toList 0
    (sessionWith pendingFile "u g\nv g\n".toList) pendingFile_ne_temp
  exact hfilters.2.mpr (Or.inl htemp)

/-- A tracker that has died in a deletion with the line that stays copied. -/
def diedCopying : Session :=
  let s := sessionWith pendingFile "u g\nv g\n".toList
  s.setDisk (s.disk.create tempFile "v g\n".toList)

/-- After a restart the line that has been copied comes back when it is deleted. -/
theorem copied_line_comes_back : ∃ s : Session,
    (Deletion.wholeLine pendingFile "u g".toList).steps.Passes primInterp
      (sessionWith pendingFile "u g\nv g\n".toList) diedCopying ∧
    diedCopying.disk.reloaded.lines pendingFile = ["u g".toList, "v g".toList] ∧
    (deleteWholeLine pendingFile "v g".toList).run callInterp
      ⟨⟨diedCopying.disk.reloaded, {}⟩, [], false, []⟩ = some ((), s) ∧
    Disk.putlines ((diedCopying.disk.reloaded.lines pendingFile).filter
      fun l => l ≠ "v g".toList) = "u g\n".toList ∧
    s.disk.text pendingFile = "v g\nu g\n".toList := by
  have hcopied : keptLines (fun l => some (l = "u g".toList))
      ((sessionWith pendingFile "u g\nv g\n".toList).disk.lines pendingFile) =
        some ["v g".toList] := by
    decide +kernel
  have hlines : diedCopying.disk.reloaded.lines pendingFile = ["u g".toList, "v g".toList] := by
    rw [Disk.lines, Disk.text_reloaded]
    decide +kernel
  have htemp : diedCopying.disk.reloaded.text tempFile = "v g\n".toList := by
    rw [Disk.text_reloaded]
    decide +kernel
  have hkept : keptLines (fun l => some (l = "v g".toList))
      (diedCopying.disk.reloaded.lines pendingFile) = some ["u g".toList] := by
    rw [hlines]
    decide
  let s : Session := ⟨⟨diedCopying.disk.reloaded, {}⟩, [], false, []⟩
  refine ⟨s.setDisk (s.disk.rewritten .app pendingFile ["u g".toList]),
    Deletion.passes_steps.mpr (passes_copied hcopied), hlines, ?_, ?_, ?_⟩
  · rw [run_deleteWholeLine, callInterp_rewrite]
    exact congrArg (Option.map _) hkept
  · rw [hlines]
    decide
  · rw [Session.disk_setDisk, Disk.text_rewritten _ _ _ rfl pendingFile_ne_temp,
      if_pos (by decide)]
    exact congrArg (· ++ Disk.putlines ["u g".toList]) htemp

end TorrentShare
