import TorrentShare.Program.Faults
import TorrentShare.Tracker.Edits

/-!
# Dying in the middle of a deletion

A deletion copies the lines that stay to the temporary file, removes the file and renames the
temporary one. The process may die before any of these steps.
-/

namespace TorrentShare

open Program

/-! ### The steps of a rewrite -/

section Rewrite

variable {mode : OpenMode} {p : Path} {drop : Str → Option Bool} {s s' : Session}

/-- The part of a rewrite that works on the temporary file. -/
def fillTemp (mode : OpenMode) (p : Path) (drop : Str → Option Bool) : Prog primSig Unit := do
  let s ← prim (.read p)
  match mode with
  | .out => prim (.create tempFile [])
  | .app => prim (.append tempFile [])
  copyLines drop (getlines (s.getD []))

lemma rewriteBody_eq : rewriteBody mode p drop =
    (fillTemp mode p drop >>= fun _ =>
      prim (.remove p) >>= fun _ => prim (.rename tempFile p)) := by
  cases mode with
  | out => rfl
  | app => rfl

/-- The operations on the temporary file. -/
@[simp] def Prim.onTemp : Prim → Prop
  | .read _     => True
  | .create p _ => p = tempFile
  | .append p _ => p = tempFile
  | .fault      => True
  | _           => False

lemma Prim.onTemp.text {o : Prim} {a : primAns o} (ho : o.onTemp) (hp : cStr p ≠ tempFile)
    (h : primInterp o s = some (a, s')) : s'.disk.text p = s.disk.text p := by
  cases o with
  | read q =>
    cases h
    rfl
  | create q c =>
    cases h
    obtain rfl := ho
    exact Disk.text_create_of_ne _ _ hp
  | append q c =>
    cases h
    obtain rfl := ho
    exact Disk.text_append_of_ne _ _ hp
  | fault => cases h
  | _ => exact ho.elim

lemma copyLines_onTemp (ls : List Str) : (copyLines drop ls).Only Prim.onTemp := by
  induction ls with
  | nil => exact trivial
  | cons l ls ih =>
    refine (orFault_only trivial _).bind fun b => ?_
    cases b with
    | true => exact ih
    | false => exact Prog.only_call rfl fun _ => ih

lemma fillTemp_onTemp : (fillTemp mode p drop).Only Prim.onTemp := by
  refine Prog.only_call trivial fun s => ?_
  cases mode with
  | out => exact Prog.only_call rfl fun _ => copyLines_onTemp _
  | app => exact Prog.only_call rfl fun _ => copyLines_onTemp _

/-- The temporary file holds what it is opened with, and the lines that stay. -/
lemma run_fillTemp (s : Session) : (fillTemp mode p drop).run primInterp s =
    (keptLines drop (s.disk.lines p)).map fun ks =>
      ((), s.setDisk (s.disk.create tempFile (s.disk.temporary mode ++ Disk.putlines ks))) := by
  have hlines : getlines ((s.disk.read p).getD []) = s.disk.lines p := rfl
  have hcopy : ∀ c, (copyLines drop (s.disk.lines p)).run primInterp
      (s.setDisk (s.disk.create tempFile c)) = (keptLines drop (s.disk.lines p)).map fun ks =>
        ((), s.setDisk (s.disk.create tempFile (c ++ Disk.putlines ks))) :=
    fun c => run_copyLines drop _ _ s.disk c rfl
  cases mode with
  | out => simpa [fillTemp, prim, primInterp, hlines, Disk.temporary] using hcopy []
  | app =>
    have happ : s.disk.append tempFile [] = s.disk.create tempFile (s.disk.text tempFile) := by
      rw [Disk.append, List.append_nil]
    simpa [fillTemp, prim, primInterp, hlines, happ, Disk.temporary] using
      hcopy (s.disk.text tempFile)

/-- The states in which a rewrite can stop: with the file as it was, with the file removed, or at
    the end. -/
lemma passes_rewriteBody (hp : cStr p ≠ tempFile)
    (h : (rewriteBody mode p drop).Passes primInterp s s') :
    s'.disk.text p = s.disk.text p ∨ ∃ ks, keptLines drop (s.disk.lines p) = some ks ∧
      (s' = s.setDisk ((s.disk.create tempFile
          (s.disk.temporary mode ++ Disk.putlines ks)).remove p) ∨
        s' = s.setDisk (s.disk.rewritten mode p ks)) := by
  rw [rewriteBody_eq, Prog.passes_bind] at h
  rcases h with h | ⟨⟨u, s₁⟩, hrun, h⟩
  · left
    exact fillTemp_onTemp.passes (R := fun s₁ => s₁.disk.text p = s.disk.text p)
      (fun o s₁ a s₂ ho hs₁ hstep => (ho.text hp hstep).trans hs₁) rfl h
  · rw [run_fillTemp] at hrun
    obtain ⟨ks, hks, heq⟩ := Option.map_eq_some_iff.mp hrun
    cases heq
    rcases h with rfl | ⟨r, hr, rfl | ⟨r', hr', rfl⟩⟩
    · exact Or.inl (Disk.text_create_of_ne _ _ hp)
    · cases hr
      exact Or.inr ⟨ks, hks, Or.inl rfl⟩
    · cases hr
      cases hr'
      exact Or.inr ⟨ks, hks, Or.inr rfl⟩

/-- A rewrite can stop with the file removed. -/
lemma passes_removed {ks : List Str} (hks : keptLines drop (s.disk.lines p) = some ks) :
    (rewriteBody mode p drop).Passes primInterp s (s.setDisk ((s.disk.create tempFile
      (s.disk.temporary mode ++ Disk.putlines ks)).remove p)) := by
  rw [rewriteBody_eq, Prog.passes_bind, run_fillTemp, hks]
  exact Or.inr ⟨_, rfl, Or.inr ⟨_, rfl, Prog.passes_start _⟩⟩

/-- A rewrite can stop at its end. -/
lemma passes_rewritten {ks : List Str} (hks : keptLines drop (s.disk.lines p) = some ks) :
    (rewriteBody mode p drop).Passes primInterp s (s.setDisk (s.disk.rewritten mode p ks)) := by
  rw [rewriteBody_eq, Prog.passes_bind, run_fillTemp, hks]
  exact Or.inr ⟨_, rfl, Or.inr ⟨_, rfl, Or.inr ⟨_, rfl, rfl⟩⟩⟩

end Rewrite

/-! ### Deletions -/

/-- The functions and loops that delete lines. -/
inductive Deletion where
  /-- `DeleteLine(filename,data,index)` -/
  | line (filename : Path) (data : Str) (index : ℕ)
  /-- `DeleteLine(filename,data)` -/
  | wholeLine (filename : Path) (data : Str)
  /-- the first loop of `GroupStopShare` -/
  | ofGroup (group filename user : Str)
  /-- the second loop of `GroupStopShare` -/
  | ofUser (group filename user : Str)

namespace Deletion

def target : Deletion → Path
  | line filename _ _    => filename
  | wholeLine filename _ => filename
  | ofGroup group _ _    => groupFilesFile group
  | ofUser _ _ user      => userFilesFile user

def mode : Deletion → OpenMode
  | line ..      => .app
  | wholeLine .. => .app
  | ofGroup ..   => .out
  | ofUser ..    => .out

/-- The lines that are not copied. -/
def drop : Deletion → Str → Option Bool
  | line _ data index           => fun l => fieldIs index data (split l ' ')
  | wholeLine _ data            => fun l => some (l = data)
  | ofGroup _ filename user     =>
    fun l => andThen (fieldIs 3 filename) (fieldIs 2 user) (split l ' ')
  | ofUser group filename _     =>
    fun l => andThen (fieldIs 0 group) (fieldIs 1 filename) (split l ' ')

/-- The steps of the tracker. -/
def steps (x : Deletion) : Prog primSig Unit :=
  match x with
  | line filename data index => (deleteLine filename data index).inline callBody
  | wholeLine filename data  => (deleteWholeLine filename data).inline callBody
  | _                        => (rewrite x.mode x.target x.drop).inline callBody

/-- The lines that stay. -/
def kept (x : Deletion) (d : Disk) : Option (List Str) := keptLines x.drop (d.lines x.target)

/-- Wherever the process dies, after a restart the file holds all it held, or all lines that
    stay. -/
def CrashAtomic (x : Deletion) (s : Session) : Prop :=
  ∀ s', x.steps.Passes primInterp s s' →
    s'.disk.reloaded.text x.target = s.disk.text x.target ∨
      ∃ ks, x.kept s.disk = some ks ∧ s'.disk.reloaded.text x.target = Disk.putlines ks

/-- A line is too short for the test, or there can be no such file, or no line stays and nothing
    else is in the temporary file. -/
def LosesNothing (x : Deletion) (d : Disk) : Prop :=
  x.kept d = none ∨ openable (cStr x.target) = false ∨
    x.kept d = some [] ∧ (d.temporary x.mode = [] ∨ d.temporary x.mode = d.text x.target)

variable {x : Deletion} {s s' : Session}

/-- Releasing the lock makes no difference. -/
lemma passes_unlocked (p : Prog primSig Unit) {f : Unit → Prog primSig Unit}
    (hf : f () = .ret () ∨ f () = prim .unlock) :
    (p >>= f).Passes primInterp s s' ↔ p.Passes primInterp s s' := by
  rw [Prog.passes_bind]
  constructor
  · rintro (h | ⟨r, hr, h⟩)
    · exact h
    · have hsame : s' = r.2 := by
        rcases hf with hf | hf
        · rw [hf] at h
          exact h
        · rw [hf] at h
          rcases h with h | ⟨r', hr', h⟩
          · exact h
          · cases hr'
            exact h
      exact hsame ▸ Prog.passes_of_run hr
  · exact Or.inl

/-- Nor does taking it. -/
lemma passes_locked (p : Prog primSig Unit) :
    (prim .lock >>= fun _ => p).Passes primInterp s s' ↔ p.Passes primInterp s s' := by
  constructor
  · rintro (rfl | ⟨r, hr, h⟩)
    · exact p.passes_start
    · cases hr
      exact h
  · exact fun h => Or.inr ⟨_, rfl, h⟩

lemma passes_steps : x.steps.Passes primInterp s s' ↔
    (rewriteBody x.mode x.target x.drop).Passes primInterp s s' := by
  let body := rewriteBody x.mode x.target x.drop
  have hlocked : (prim .lock >>= fun _ => body >>= fun _ => prim .unlock).Passes primInterp s s' ↔
      body.Passes primInterp s s' :=
    (passes_locked _).trans (passes_unlocked body (Or.inr rfl))
  have hplain : (body >>= .ret).Passes primInterp s s' ↔ body.Passes primInterp s s' :=
    passes_unlocked body (Or.inl rfl)
  cases x with
  | line filename data index => exact hlocked
  | wholeLine filename data => exact hlocked
  | ofGroup group filename user => exact hplain
  | ofUser group filename user => exact hplain

lemma putlines_eq_nil {ks : List Str} : Disk.putlines ks = [] ↔ ks = [] := by
  cases ks with
  | nil => simp [Disk.putlines]
  | cons k ks => simp [Disk.putlines, putline]

/-- A deletion leaves its file whole wherever it stops just if there is nothing to lose. -/
theorem crash_atomic_iff (hp : cStr x.target ≠ tempFile) :
    x.CrashAtomic s ↔ x.LosesNothing s.disk := by
  constructor
  · intro hatomic
    by_contra hlose
    simp only [LosesNothing, not_or, not_and] at hlose
    obtain ⟨hfault, hopen, hlose⟩ := hlose
    obtain ⟨ks, hks⟩ := Option.ne_none_iff_exists'.mp hfault
    -- it dies after the remove: nothing was there, or nothing stays
    have hempty : ks = [] := by
      have hremoved := hatomic _ (passes_steps.mpr (passes_removed hks))
      have htext : ((s.disk.create tempFile (s.disk.temporary x.mode ++
          Disk.putlines ks)).remove x.target).text x.target = [] := by
        simp [Disk.text]
      rw [Disk.text_reloaded, Session.disk_setDisk, htext] at hremoved
      rcases hremoved with hold | ⟨ks', hks', hnew⟩
      · have hlines : s.disk.lines x.target = [] := congrArg getlines hold.symm
        rw [kept, hlines] at hks
        exact (Option.some.inj hks).symm
      · obtain rfl : ks = ks' := Option.some.inj (hks.symm.trans hks')
        exact putlines_eq_nil.mp hnew.symm
    subst hempty
    -- it dies at the end: only what was in the temporary file is there
    obtain ⟨htemp, hsame⟩ := hlose hks
    have hend := hatomic _ (passes_steps.mpr (passes_rewritten hks))
    rw [Disk.text_reloaded, Session.disk_setDisk, Disk.text_rewritten _ _ _ rfl hp,
      if_pos (by simpa using hopen), putlines_eq_nil.mpr rfl, List.append_nil] at hend
    rcases hend with hold | ⟨ks', hks', hnew⟩
    · exact hsame hold
    · obtain rfl : [] = ks' := Option.some.inj (hks.symm.trans hks')
      exact htemp hnew
  · intro hnothing s' hs'
    rw [Disk.text_reloaded]
    rcases passes_rewriteBody hp (passes_steps.mp hs') with hold | ⟨ks, hks, hs'⟩
    · exact Or.inl hold
    · rcases hnothing with hfault | hclosed | ⟨hempty, htemp⟩
      · rw [kept, hks] at hfault
        cases hfault
      · left
        rw [Disk.text_of_not_openable _ hclosed, Disk.text_of_not_openable _ hclosed]
      · obtain rfl : ks = [] := Option.some.inj (hks.symm.trans hempty)
        rcases hs' with rfl | rfl
        · refine Or.inr ⟨[], hempty, ?_⟩
          simp [Disk.text, Disk.putlines]
        · rw [Session.disk_setDisk, Disk.text_rewritten _ _ _ rfl hp]
          split_ifs
          · rcases htemp with htemp | htemp
            · exact Or.inr ⟨[], hempty, by rw [htemp, List.nil_append]⟩
            · exact Or.inl (by rw [putlines_eq_nil.mpr rfl, List.append_nil, htemp])
          · exact Or.inr ⟨[], hempty, rfl⟩

end Deletion

/-- The session of a tracker with a file. -/
def sessionWith (p : Path) (text : Str) : Session :=
  ⟨⟨Disk.empty.create p text, {}⟩, [], false, []⟩

theorem crash_atomic_iff_lastLine :
    (Deletion.line onlineFile "u".toList 0).CrashAtomic
      (sessionWith onlineFile "u ip 1\n".toList) := by
  have hkept : (Deletion.line onlineFile "u".toList 0).kept
      (sessionWith onlineFile "u ip 1\n".toList).disk = some [] := by
    decide +kernel
  have htemp : (sessionWith onlineFile "u ip 1\n".toList).disk.temporary .app = [] := rfl
  have htarget : cStr (Deletion.line onlineFile "u".toList 0).target ≠ tempFile :=
    onlineFile_ne_temp
  exact (Deletion.crash_atomic_iff htarget).mpr (Or.inr (Or.inr ⟨hkept, Or.inl htemp⟩))

/-- The process dies after the remove, and the record of another user is gone. -/
theorem deletion_not_atomic : ∃ (x : Deletion) (s : Session), cStr x.target ≠ tempFile ∧
    ¬ x.CrashAtomic s := by
  have hkept : (Deletion.line onlineFile "u".toList 0).kept
      (sessionWith onlineFile "u ip 1\nv ip 2\n".toList).disk = some ["v ip 2".toList] := by
    decide +kernel
  refine ⟨.line onlineFile "u".toList 0, sessionWith onlineFile "u ip 1\nv ip 2\n".toList,
    onlineFile_ne_temp, fun hatomic => ?_⟩
  have hremoved := hatomic _ (Deletion.passes_steps.mpr (passes_removed hkept))
  rw [Disk.text_reloaded] at hremoved
  rcases hremoved with hold | ⟨ks, hks, hnew⟩
  · cases hold
  · obtain rfl := Option.some.inj (hkept.symm.trans hks)
    cases hnew

end TorrentShare
