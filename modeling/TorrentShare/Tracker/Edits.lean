import TorrentShare.Program.Records
import TorrentShare.Tracker.Groups

/-!
# The directory as files of lines

Handlers change the state files by edits of whole lines: they add a line to a file, write a file
anew, or drop lines from one. A directory of whole lines stays one.
-/

namespace TorrentShare

open Program

/-! ### Edits -/

/-- Add a line to the file. -/
def addLine (p : Path) (l : Str) : Edit Path Str := .append (cStr p) l

/-- Write the file anew. -/
def setLines (p : Path) (ls : List Str) : Edit Path Str := .create (cStr p) ls

/-- Drop the lines that pass the test. -/
def dropLines (p : Path) (test : Str → Bool) : Edit Path Str := .drop (cStr p) test

@[simp] lemma addLine_key (p : Path) (l : Str) : (addLine p l).key = cStr p := rfl
@[simp] lemma addLine_added (p : Path) (l : Str) : (addLine p l).added = [l] := rfl
@[simp] lemma addLine_keeps (p : Path) (l l' : Str) : (addLine p l).keeps l' = true := rfl

@[simp] lemma setLines_key (p : Path) (ls : List Str) : (setLines p ls).key = cStr p := rfl
@[simp] lemma setLines_added (p : Path) (ls : List Str) : (setLines p ls).added = ls := rfl
@[simp] lemma setLines_keeps (p : Path) (ls : List Str) (l : Str) :
    (setLines p ls).keeps l = false := rfl

@[simp] lemma dropLines_key (p : Path) (test : Str → Bool) : (dropLines p test).key = cStr p := rfl
@[simp] lemma dropLines_added (p : Path) (test : Str → Bool) : (dropLines p test).added = [] := rfl
@[simp] lemma dropLines_keeps (p : Path) (test : Str → Bool) (l : Str) :
    (dropLines p test).keeps l = !test l := rfl

namespace Disk

variable {d d' d'' : Disk} {p q : Path} {es es' : List (Edit Path Str)} {l : Str}

@[simp] lemma lines_cStr (d : Disk) (p : Path) : d.lines (cStr p) = d.lines p := by
  rw [lines, lines, text_congr d (cStr_idem p)]

lemma lines_congr (d : Disk) (h : cStr p = cStr q) : d.lines p = d.lines q := by
  rw [lines, lines, text_congr d h]

/-- There are no lines under a name that cannot be opened. -/
lemma openable_of_mem_lines (h : l ∈ d.lines p) : openable (cStr p) = true := by
  by_contra hopen
  rw [lines, text_of_not_openable d (by simpa using hopen)] at h
  cases h

/-- All files consist of whole lines, and the temporary file is empty. -/
structure Tidy (d : Disk) : Prop where
  terminated : ∀ p, Terminated (d.text p)
  temp : d.text tempFile = []

/-- The edit is of a file that can be opened. Others change nothing. -/
def effective (e : Edit Path Str) : Bool := openable e.key

/-- The second directory is what the edits make of the first. -/
structure Edited (d : Disk) (es : List (Edit Path Str)) (d' : Disk) : Prop where
  tidy : d'.Tidy
  lines : ∀ q, d'.lines q = applyAll (es.filter effective) d.lines (cStr q)

lemma Edited.nil (h : d.Tidy) : d.Edited [] d := by
  refine ⟨h, fun q => ?_⟩
  rw [List.filter_nil, applyAll_nil, lines_cStr]

lemma Edited.trans (h : d.Edited es d') (h' : d'.Edited es' d'') : d.Edited (es ++ es') d'' := by
  refine ⟨h'.tidy, fun q => ?_⟩
  rw [h'.lines q, List.filter_append, applyAll_append]
  refine applyAll_congr ?_
  rw [h.lines (cStr q), cStr_idem]

/-- Only the texts of the files count. -/
lemma Edited.of_text (h : d.Edited es d') (htext : ∀ p, d''.text p = d'.text p) :
    d.Edited es d'' := by
  refine ⟨⟨fun p => ?_, ?_⟩, fun q => ?_⟩
  · rw [htext]
    exact h.tidy.terminated p
  · rw [htext]
    exact h.tidy.temp
  · rw [Disk.lines, htext]
    exact h.lines q

/-- A line that is found has been put in, or it was there and no edit has dropped it. -/
lemma Edited.of_mem (h : d.Edited es d') (hl : l ∈ d'.lines q) :
    (∃ e ∈ es, e.key = cStr q ∧ l ∈ e.added) ∨
      l ∈ d.lines q ∧ ∀ e ∈ es, e.key = cStr q → e.keeps l = true := by
  have hopen := openable_of_mem_lines hl
  rw [h.lines] at hl
  rcases of_mem_applyAll hl with ⟨e, he, hk, hadd⟩ | ⟨hold, hkeeps⟩
  · exact Or.inl ⟨e, List.mem_of_mem_filter he, hk, hadd⟩
  · rw [lines_cStr] at hold
    refine Or.inr ⟨hold, fun e he hk => hkeeps e ?_ hk⟩
    rw [List.mem_filter, effective, hk]
    exact ⟨he, hopen⟩

/-- A line stays if no edit drops it. -/
lemma Edited.mem (h : d.Edited es d') (hl : l ∈ d.lines q)
    (hkeeps : ∀ e ∈ es, e.key = cStr q → l ∈ e.added ∨ e.keeps l = true) : l ∈ d'.lines q := by
  rw [h.lines]
  rw [← lines_cStr] at hl
  exact mem_applyAll hl fun e he => hkeeps e (List.mem_of_mem_filter he)

lemma Edited.lines_of_ne (h : d.Edited es d') (hne : ∀ e ∈ es, cStr q ≠ e.key) :
    d'.lines q = d.lines q := by
  rw [h.lines, applyAll_of_ne fun e he => hne e (List.mem_of_mem_filter he), lines_cStr]

/-- A file that one of the edits is of. -/
lemma Edited.lines_of_one {b a : List (Edit Path Str)} {e : Edit Path Str}
    (h : d.Edited (b ++ e :: a) d')
    (hopen : openable (cStr q) = true) (hk : e.key = cStr q)
    (hbefore : ∀ e' ∈ b, cStr q ≠ e'.key) (hafter : ∀ e' ∈ a, cStr q ≠ e'.key) :
    d'.lines q = e.after (d.lines q) := by
  have he : effective e = true := by rw [effective, hk, hopen]
  rw [h.lines, List.filter_append, List.filter_cons_of_pos he, applyAll_append, applyAll_cons,
    applyAll_of_ne fun e' he' => hafter e' (List.mem_of_mem_filter he'), ← hk, e.apply_key, hk,
    applyAll_of_ne fun e' he' => hbefore e' (List.mem_of_mem_filter he'), lines_cStr]

/-! ### Single edits -/

lemma lines_of_not_openable (d : Disk) (h : openable (cStr p) = false) : d.lines p = [] := by
  rw [lines, text_of_not_openable d h]
  rfl

/-- One edit, given by what it makes of its file and of the texts. -/
lemma Edited.single {e : Edit Path Str} (ht : d.Tidy) (htemp : d'.text tempFile = [])
    (hother : ∀ q, cStr q ≠ e.key → cStr q ≠ tempFile → d'.text q = d.text q)
    (hself : ∀ q, cStr q = e.key → openable e.key = true →
      Terminated (d'.text q) ∧ d'.lines q = e.after (d.lines q)) : d.Edited [e] d' := by
  have htemp' : ∀ q, cStr q = tempFile → d'.text q = [] ∧ d.text q = [] := by
    intro q hq
    rw [text_congr d' (q := tempFile) hq, text_congr d (q := tempFile) hq]
    exact ⟨htemp, ht.temp⟩
  have htext : ∀ q, cStr q ≠ e.key → d'.text q = d.text q := by
    intro q hq
    by_cases hqt : cStr q = tempFile
    · rw [(htemp' q hqt).1, (htemp' q hqt).2]
    · exact hother q hq hqt
  refine ⟨⟨fun q => ?_, htemp⟩, fun q => ?_⟩
  · by_cases hq : cStr q = e.key
    · by_cases hopen : openable e.key = true
      · exact (hself q hq hopen).1
      · rw [text_of_not_openable d' (by simpa [hq] using hopen)]
        exact terminated_nil
    · rw [htext q hq]
      exact ht.terminated q
  · by_cases hopen : openable e.key = true
    · rw [List.filter_cons_of_pos (show effective e = true from hopen), List.filter_nil,
        applyAll_cons, applyAll_nil]
      by_cases hq : cStr q = e.key
      · rw [(hself q hq hopen).2, hq, e.apply_key, ← hq, lines_cStr]
      · rw [e.apply_of_ne _ hq, lines_cStr, Disk.lines, htext q hq]
        rfl
    · rw [List.filter_cons_of_neg (show ¬ effective e = true from hopen), List.filter_nil,
        applyAll_nil, lines_cStr]
      by_cases hq : cStr q = e.key
      · have hclosed : openable (cStr q) = false := by simpa [hq] using hopen
        rw [lines_of_not_openable d' hclosed, lines_of_not_openable d hclosed]
      · rw [Disk.lines, htext q hq]
        rfl

lemma edited_create (ht : d.Tidy) {ls : List Str} (hp : cStr p ≠ tempFile)
    (hls : ∀ l ∈ ls, '\n' ∉ l) : d.Edited [setLines p ls] (d.create p (putlines ls)) := by
  refine Edited.single ht ?_ (fun q hq _ => text_create_of_ne d _ hq) fun q hq hopen => ?_
  · rw [text_create_of_ne d _ fun he => hp he.symm]
    exact ht.temp
  · have htext : (d.create p (putlines ls)).text q = putlines ls := by
      rw [text_create, if_pos ⟨hq, hq ▸ hopen⟩]
    refine ⟨by rw [htext]; exact terminated_putlines hls, ?_⟩
    have hlines := getlines_putlines hls []
    rw [List.append_nil, getlines, List.append_nil] at hlines
    rw [Disk.lines, htext, hlines]
    rfl

/-- Creating an empty file. -/
lemma edited_create_nil (ht : d.Tidy) (hp : cStr p ≠ tempFile) :
    d.Edited [setLines p []] (d.create p []) :=
  edited_create ht hp (by simp)

/-- Creating a file of one line. -/
lemma edited_create_line (ht : d.Tidy) (hp : cStr p ≠ tempFile) (hl : '\n' ∉ l) :
    d.Edited [setLines p [l]] (d.create p (putline l)) := by
  have hline : putlines [l] = putline l := List.append_nil _
  rw [← hline]
  exact edited_create ht hp (by simpa using hl)

lemma edited_append (ht : d.Tidy) (hp : cStr p ≠ tempFile) (hl : '\n' ∉ l) :
    d.Edited [addLine p l] (d.append p (putline l)) := by
  refine Edited.single ht ?_ (fun q hq _ => text_append_of_ne d _ hq) fun q hq hopen => ?_
  · rw [text_append_of_ne d _ fun he => hp he.symm]
    exact ht.temp
  · have htext : (d.append p (putline l)).text q = d.text q ++ putline l := by
      rw [text_append, if_pos ⟨hq, hq ▸ hopen⟩]
    refine ⟨by rw [htext]; exact (ht.terminated q).append (terminated_putline hl), ?_⟩
    rw [Disk.lines, htext, (ht.terminated q).getlines_append, getlines_putline_self hl]
    rfl

/-- The lines that stay in a rewrite are those that do not pass the test. -/
lemma keptLines_eq_filter {drop : Str → Option Bool} {ls ks : List Str}
    (h : keptLines drop ls = some ks) : ks = ls.filter fun l => !(drop l == some true) := by
  induction ls generalizing ks with
  | nil =>
    cases h
    rfl
  | cons l ls ih =>
    simp only [keptLines, Option.bind_eq_some_iff, Option.map_eq_some_iff] at h
    obtain ⟨b, hb, ks', hks', rfl⟩ := h
    rw [List.filter_cons, hb, ← ih hks']
    cases b with
    | true => rfl
    | false => rfl

lemma edited_rewritten (mode : OpenMode) (ht : d.Tidy) {drop : Str → Option Bool}
    {kept : List Str} (hp : cStr p ≠ tempFile) (hkept : keptLines drop (d.lines p) = some kept) :
    d.Edited [dropLines p fun l => drop l == some true] (d.rewritten mode p kept) := by
  refine Edited.single ht (text_rewritten_temp d mode hp hkept ht.temp)
    (fun q hq htemp => text_rewritten_of_ne d mode kept hq htemp) fun q hq hopen => ?_
  have hnl : ∀ l ∈ kept, '\n' ∉ l :=
    fun l hl => not_mem_of_mem_getlines (keptLines_subset hkept l hl)
  have htext : (d.rewritten mode p kept).text q = putlines kept := by
    rw [text_rewritten_self d mode hq hp ht.temp, if_pos (hq ▸ hopen)]
  have hlines := getlines_putlines hnl []
  rw [List.append_nil, getlines, List.append_nil] at hlines
  refine ⟨by rw [htext]; exact terminated_putlines hnl, ?_⟩
  rw [Disk.lines, htext, hlines, keptLines_eq_filter hkept, lines_congr d hq]
  rfl

end Disk

end TorrentShare
