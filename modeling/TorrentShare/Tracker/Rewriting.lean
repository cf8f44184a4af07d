import TorrentShare.Tracker.Effects
import TorrentShare.Tracker.FileNames
import TorrentShare.Tracker.Host

/-!
# Rewrites, step by step

A rewrite reads a file, copies the lines that stay to the temporary file, removes the file and
renames the temporary one. The threads of a tracker do this under `file_lock`, and each of them
does it in this order, whatever the others do.
-/

namespace TorrentShare

open Program

/-! ### Operations -/

/-- The primitive operations, where the one that reads a file to rewrite it says which lines are
    to be dropped. -/
inductive FileOp where
  | prim (o : Prim)
  | scan (p : Path) (drop : Str → Option Bool)

abbrev fileAns : FileOp → Type
  | .prim o   => primAns o
  | .scan _ _ => Option Str

abbrev fileSig : Sig := ⟨FileOp, fileAns⟩

def liftPrim (o : Prim) : Prog fileSig (primAns o) := Prog.call (S := fileSig) (.prim o) .ret

/-- A rewrite after it has read the file. -/
def replaceWith (mode : OpenMode) (p : Path) (drop : Str → Option Bool) (ls : List Str) :
    Prog primSig Unit := do
  match mode with
  | .out => prim (.create tempFile [])
  | .app => prim (.append tempFile [])
  copyLines drop ls
  prim (.remove p)
  prim (.rename tempFile p)

def fileBody : (o : Call) → Prog fileSig (callAns o)
  | .rewrite mode p drop => Prog.call (S := fileSig) (.scan p drop) fun s =>
    (replaceWith mode p drop (getlines (s.getD []))).inline liftPrim
  | o => (callBody o).inline liftPrim

/-- Forget what a scan says. -/
def unscan : (o : FileOp) → Prog primSig (fileAns o)
  | .prim o   => prim o
  | .scan p _ => prim (.read p)

lemma unscan_liftPrim {α : Type} (p : Prog primSig α) : (p.inline liftPrim).inline unscan = p := by
  induction p with
  | ret a => rfl
  | call o k ih => exact congrArg (Prog.call o) (funext ih)

/-- The bodies are those of `callBody`. -/
lemma fileBody_unscan (o : Call) : (fileBody o).inline unscan = callBody o := by
  cases o with
  | rewrite mode p drop =>
    have hrest : rewriteBody mode p drop = Prog.call (S := primSig) (.read p) fun s =>
        replaceWith mode p drop (getlines (s.getD [])) := by
      cases mode with
      | out => rfl
      | app => rfl
    rw [callBody, hrest]
    exact congrArg (Prog.call (S := primSig) (.read p)) (funext fun s => unscan_liftPrim _)
  | _ => exact unscan_liftPrim _

/-! ### Positions -/

/-- A rewrite under way: what has been read, and what has been copied. -/
structure Copy where
  path : Path
  drop : Str → Option Bool
  lines : List Str
  written : List Str

/-- Where a handler is: outside of `file_lock`, under it, in a rewrite before the file is removed,
    or after. -/
inductive Position where
  | idle
  | locked
  | copying (c : Copy)
  | removed (c : Copy)

def Position.copy : Position → Option Copy
  | .idle      => none
  | .locked    => none
  | .copying c => some c
  | .removed c => some c

/-- Whole lines for a file other than the temporary one. Nothing is said about the credentials. -/
def WholeLines (p : Path) (s : Str) : Prop :=
  cStr p ≠ tempFile ∧ (cStr p = credentialFile ∨ Terminated s)

/-- What may be done at which position. The early return of `UpdateDownload` unlocks without having
    locked. -/
@[simp] def Position.allows : FileOp → Position → Prop
  | .scan p _,            g          => g = .locked ∧ cStr p ≠ tempFile
  | .prim .lock,          g          => g = .idle
  | .prim .unlock,        g          => g = .idle ∨ g = .locked
  | .prim (.append p s),  .idle      => WholeLines p s
  | .prim (.append p s),  .locked    => WholeLines p s
  | .prim (.append p s),  .copying _ => p = tempFile ∧ Terminated s
  | .prim (.append _ _),  .removed _ => False
  | .prim (.create p s),  .idle      => WholeLines p s
  | .prim (.create p s),  .locked    => WholeLines p s
  | .prim (.create p s),  .copying c => p = tempFile ∧ s = [] ∧ c.written = []
  | .prim (.create _ _),  .removed _ => False
  | .prim (.remove p),    g          => ∃ c, g = .copying c ∧ p = c.path ∧
      ∀ l ∈ c.lines, c.drop l ≠ some true → l ∈ c.written
  | .prim (.rename p q),  g          => ∃ c, g = .removed c ∧ p = tempFile ∧ q = c.path
  | _,                    _          => True

@[simp] def Position.next : (o : FileOp) → fileAns o → Position → Position
  | .scan p drop, (s : Option Str), _ => .copying ⟨p, drop, getlines (s.getD []), []⟩
  | .prim .lock, _, _                 => .locked
  | .prim .unlock, _, _               => .idle
  | .prim (.append _ s), _, .copying c => .copying { c with written := c.written ++ getlines s }
  | .prim (.remove _), _, .copying c  => .removed c
  | .prim (.rename _ _), _, _         => .locked
  | _, _, g                           => g

/-- The discipline of rewrites. -/
def positions : Discipline fileSig Position := ⟨Position.allows, Position.next, fun _ _ => True⟩

/-- The same for programs without scans. -/
def primPositions : Discipline primSig Position :=
  ⟨fun o => Position.allows (.prim o), fun o a => Position.next (.prim o) a, fun _ _ => True⟩

section Simp

variable (g : Position)

@[simp] lemma positions_allowed (o : FileOp) : positions.allowed o g = g.allows o := rfl
@[simp] lemma positions_next (o : FileOp) (a : fileAns o) : positions.next o a g = g.next o a := rfl
@[simp] lemma positions_admits (o : FileOp) (a : fileAns o) : positions.admits o a = True := rfl
@[simp] lemma primPositions_allowed (o : Prim) :
    primPositions.allowed o g = g.allows (.prim o) := rfl
@[simp] lemma primPositions_next (o : Prim) (a : primAns o) :
    primPositions.next o a g = g.next (.prim o) a := rfl
@[simp] lemma primPositions_admits (o : Prim) (a : primAns o) :
    primPositions.admits o a = True := rfl

end Simp

/-! ### The bodies -/

section Bodies

variable {g : Position} {p : Path} {drop : Str → Option Bool}

lemma follows_liftPrim {α : Type} {x : Prog primSig α} {Q : α → Position → Prop}
    (h : x.Follows primPositions g Q) : (x.inline liftPrim).Follows positions g Q := by
  have hlift : ∀ o g, primPositions.allowed o g → (liftPrim o).Follows positions g fun a g' =>
      g' = primPositions.next o a g ∧ primPositions.admits o a :=
    fun _ _ ho => ⟨ho, fun _ _ => ⟨rfl, trivial⟩⟩
  exact h.inline hlift

/-- All lines that stay are copied. -/
lemma copyLines_positions {ls : List Str} (hls : ∀ l ∈ ls, '\n' ∉ l) (c : Copy) :
    (copyLines drop ls).Follows primPositions (.copying c) fun _ g =>
      ∃ ws, g = .copying { c with written := c.written ++ ws } ∧
        ∀ l ∈ ls, drop l ≠ some true → l ∈ ws := by
  induction ls generalizing c with
  | nil =>
    refine ⟨[], ?_, fun l hl => nomatch hl⟩
    rw [List.append_nil]
  | cons l ls ih =>
    rw [List.forall_mem_cons] at hls
    have hl := getlines_putline_self hls.1
    cases hdrop : drop l with
    | none =>
      rw [copyLines, hdrop]
      exact ⟨trivial, fun a => a.elim⟩
    | some b =>
      rw [copyLines, hdrop]
      cases b with
      | true =>
        refine (ih hls.2 c).mono fun _ g hg => ?_
        obtain ⟨ws, rfl, hws⟩ := hg
        refine ⟨ws, rfl, fun l' hl' hstay => ?_⟩
        rcases List.mem_cons.mp hl' with rfl | hl'
        · exact absurd hdrop hstay
        · exact hws l' hl' hstay
      | false =>
        refine ⟨⟨rfl, terminated_putline hls.1⟩, fun _ _ => ?_⟩
        refine (ih hls.2 _).mono fun _ g hg => ?_
        obtain ⟨ws, rfl, hws⟩ := hg
        refine ⟨l :: ws, ?_, fun l' hl' hstay => ?_⟩
        · rw [hl, List.append_assoc]
          rfl
        · rcases List.mem_cons.mp hl' with rfl | hl'
          · exact List.mem_cons_self ..
          · exact List.mem_cons_of_mem _ (hws l' hl' hstay)

lemma replaceWith_positions {mode : OpenMode} {ls : List Str} (hls : ∀ l ∈ ls, '\n' ∉ l) :
    (replaceWith mode p drop ls).Follows primPositions (.copying ⟨p, drop, ls, []⟩)
      fun _ g => g = .locked := by
  have hrest : (copyLines drop ls >>= fun _ =>
      (prim (.remove p) >>= fun _ => prim (.rename tempFile p))).Follows primPositions
        (.copying ⟨p, drop, ls, []⟩) fun _ g => g = .locked := by
    refine (copyLines_positions hls _).bind fun _ g hg => ?_
    obtain ⟨ws, rfl, hws⟩ := hg
    refine ⟨⟨_, rfl, rfl, hws⟩, fun _ _ => ?_⟩
    exact ⟨⟨_, rfl, rfl, rfl⟩, fun _ _ => rfl⟩
  cases mode with
  | out => exact ⟨⟨rfl, rfl, rfl⟩, fun _ _ => hrest⟩
  | app => exact ⟨⟨rfl, terminated_nil⟩, fun _ _ => hrest⟩

/-- `loadDetails` reads, and creates missing files. -/
@[simp] def Prim.opensFiles : Prim → Prop
  | .read _     => True
  | .create p s => cStr p ≠ tempFile ∧ s = []
  | .modify _   => True
  | .fault      => True
  | _           => False

lemma loadPairs_opensFiles {target : Str × Str} {add : Memory → Str × Str → Memory}
    (hp : cStr p ≠ tempFile) : (loadPairs p target add).Only Prim.opensFiles := by
  refine Prog.only_call trivial fun s => ?_
  cases s with
  | some s => exact Prog.only_call trivial fun _ => trivial
  | none => exact Prog.only_call ⟨hp, rfl⟩ fun _ => trivial

lemma loadRecords_opensFiles {β : Type} {fs : List Str → Option β} {add : Memory → β → Memory}
    (hp : cStr p ≠ tempFile) : (loadRecords p fs add).Only Prim.opensFiles := by
  refine Prog.only_call trivial fun s => ?_
  cases s with
  | some s => exact (orFault_only trivial _).bind fun _ => Prog.only_call trivial fun _ => trivial
  | none => exact Prog.only_call ⟨hp, rfl⟩ fun _ => trivial

lemma loadDetails_opensFiles : loadDetails.Only Prim.opensFiles := by
  refine (loadPairs_opensFiles credentialFile_ne_temp).bind fun _ => ?_
  refine (loadRecords_opensFiles onlineFile_ne_temp).bind fun _ => ?_
  refine (loadRecords_opensFiles groupFile_ne_temp).bind fun _ => ?_
  exact (loadPairs_opensFiles pendingFile_ne_temp).bind fun _ => trivial

lemma Prim.opensFiles_positions (o : Prim) (h : o.opensFiles) :
    primPositions.allowed o .locked ∧ ∀ a, primPositions.next o a .locked = .locked := by
  cases o with
  | create p s =>
    obtain ⟨hp, rfl⟩ := h
    exact ⟨⟨hp, Or.inr terminated_nil⟩, fun _ => rfl⟩
  | read p => exact ⟨trivial, fun _ => rfl⟩
  | modify f => exact ⟨trivial, fun _ => rfl⟩
  | fault => exact ⟨trivial, fun _ => rfl⟩
  | _ => exact h.elim

/-- The calls of handlers, by the positions before and after them. -/
@[simp] def Call.mayAt : Call → Position → Prop
  | .prim o,        g => g.allows (.prim o)
  | .rewrite _ p _, g => g = .locked ∧ cStr p ≠ tempFile
  | _,              g => g = .idle

@[simp] def Call.positionAfter : (o : Call) → callAns o → Position → Position
  | .prim o, a, g => g.next (.prim o) a
  | _, _, g       => g

def callPositions : Discipline callSig Position := ⟨Call.mayAt, Call.positionAfter, fun _ _ => True⟩

@[simp] lemma callPositions_allowed (o : Call) : callPositions.allowed o g = o.mayAt g := rfl
@[simp] lemma callPositions_next (o : Call) (a : callAns o) :
    callPositions.next o a g = o.positionAfter a g := rfl
@[simp] lemma callPositions_admits (o : Call) (a : callAns o) :
    callPositions.admits o a = True := rfl

lemma fileBody_positions (o : Call) (h : callPositions.allowed o g) :
    (fileBody o).Follows positions g fun a g' =>
      g' = callPositions.next o a g ∧ callPositions.admits o a := by
  cases o with
  | prim o => exact ⟨h, fun a _ => ⟨rfl, trivial⟩⟩
  | fetchDetails =>
    obtain rfl : g = .idle := h
    apply follows_liftPrim
    refine ⟨trivial, fun _ _ => ⟨rfl, fun _ _ => ?_⟩⟩
    show (loadDetails >>= fun _ => prim .unlock).Follows primPositions .locked _
    refine (loadDetails_opensFiles.follows Prim.opensFiles_positions).bind fun _ g' hg' => ?_
    subst hg'
    exact ⟨Or.inr rfl, fun _ _ => ⟨rfl, trivial⟩⟩
  | fetchGroupMembers group =>
    obtain rfl : g = .idle := h
    apply follows_liftPrim
    simp [callBody, fetchGroupMembersBody, prim]
  | rewrite mode p drop =>
    obtain ⟨rfl, hp⟩ := h
    refine ⟨⟨rfl, hp⟩, fun s _ => ?_⟩
    have hls : ∀ l ∈ getlines (s.getD []), '\n' ∉ l := fun _ hl => not_mem_of_mem_getlines hl
    exact (follows_liftPrim (replaceWith_positions hls)).mono fun _ _ hg => ⟨hg, trivial⟩

end Bodies

/-! ### The handlers -/

lemma wholeLines_nil {p : Path} (hp : cStr p ≠ tempFile) : WholeLines p [] :=
  ⟨hp, Or.inr terminated_nil⟩

lemma wholeLines_putline {p : Path} {l : Str} (hp : cStr p ≠ tempFile) (hl : '\n' ∉ l) :
    WholeLines p (putline l) :=
  ⟨hp, Or.inr (terminated_putline hl)⟩

lemma wholeLines_fields {p : Path} {ws : List Str} (hp : cStr p ≠ tempFile)
    (hws : ∀ w ∈ ws, IsWord w) : WholeLines p (putline (fields ws)) :=
  wholeLines_putline hp (newline_fields hws)

lemma wholeLines_credentialFile (s : Str) : WholeLines credentialFile s :=
  ⟨credentialFile_ne_temp, Or.inl rfl⟩

/-- A program that starts and ends outside of `file_lock` and rewrites files under it. -/
def Positioned {α : Type} (p : Prog callSig α) : Prop :=
  p.Follows callPositions .idle fun _ g => g = .idle

section Handlers

variable {g : Position} (hashPassword : Str → Str → Str)

@[simp] lemma deleteLine_positions (p : Path) (d : Str) (i : ℕ) (Q : Unit → Position → Prop) :
    (deleteLine p d i).Follows callPositions g Q ↔
      g = .idle ∧ cStr p ≠ tempFile ∧ Q () .idle := by
  simp [deleteLine, call, Prog.follows_bind, Unique.forall_iff]

@[simp] lemma deleteWholeLine_positions (p : Path) (d : Str) (Q : Unit → Position → Prop) :
    (deleteWholeLine p d).Follows callPositions g Q ↔
      g = .idle ∧ cStr p ≠ tempFile ∧ Q () .idle := by
  simp [deleteWholeLine, call, Prog.follows_bind, Unique.forall_iff]

lemma Positioned.bind {α β : Type} {p : Prog callSig α} {f : α → Prog callSig β} (hp : Positioned p)
    (hf : ∀ a, Positioned (f a)) : Positioned (p >>= f) :=
  Prog.Follows.bind hp fun a g hg => by
    subst hg
    exact hf a

lemma userLogin_positioned {u p port ip : Str} (hu : IsWord u) (hport : IsWord port)
    (hip : IsWord ip) : Positioned (userLogin hashPassword u p port ip) := by
  have hline := wholeLines_fields onlineFile_ne_temp
    (show ∀ w ∈ [u, ip, port], IsWord w by simp [hu, hport, hip])
  simp only [Positioned, userLogin, call, Prog.follows_bind, fetchDetails_follows,
    Prog.follows_call, Prog.follows_ret, callPositions_allowed, callPositions_next,
    callPositions_admits, Call.mayAt, Call.positionAfter, Position.allows, Position.next, true_and]
  intro _ m _
  split
  · rfl
  · simp [Prog.follows_ite, hline]

lemma userCreate_positioned {u p port ip : Str} (hu : IsWord u) (hport : IsWord port)
    (hip : IsWord ip) : Positioned (userCreate hashPassword u p port ip) := by
  have hline := wholeLines_fields onlineFile_ne_temp
    (show ∀ w ∈ [u, ip, port], IsWord w by simp [hu, hport, hip])
  simp only [Positioned, userCreate, call, Prog.follows_bind, fetchDetails_follows,
    Prog.follows_call, Prog.follows_ret, callPositions_allowed, callPositions_next,
    callPositions_admits, Call.mayAt, Call.positionAfter, Position.allows, Position.next, true_and]
  intro _ m _
  split
  · rfl
  · simp [Prog.follows_bind, hline, wholeLines_credentialFile, wholeLines_nil]

lemma logout_positioned (u : Str) : Positioned (logout u) := by
  simp [Positioned, logout, call, Prog.follows_bind, Prog.follows_ite]

lemma groupCreate_positioned {g u : Str} (hg : IsWord g) (hu : IsWord u) :
    Positioned (groupCreate g u) := by
  have hline := wholeLines_fields groupFile_ne_temp
    (show ∀ w ∈ [g, u], IsWord w by simp [hg, hu])
  simp only [Positioned, groupCreate, call, Prog.follows_bind, fetchDetails_follows,
    Prog.follows_call, Prog.follows_ret, callPositions_allowed, callPositions_next,
    callPositions_admits, Call.mayAt, Call.positionAfter, Position.allows, Position.next, true_and]
  intro _ m _
  split
  · rfl
  · simp [Prog.follows_bind, hline, wholeLines_putline, hu.newline, wholeLines_nil]

lemma groupList_positioned : Positioned groupList := by
  simp [Positioned, groupList, call, Prog.follows_bind]

lemma groupRequestList_positioned (g u : Str) : Positioned (groupRequestList g u) := by
  simp only [Positioned, groupRequestList, call, Prog.follows_bind, fetchDetails_follows,
    Prog.follows_call, Prog.follows_ret, callPositions_allowed, callPositions_next,
    callPositions_admits, Call.mayAt, Call.positionAfter, Position.allows, Position.next, true_and]
  intro _ m _
  split
  · rfl
  · simp [Prog.follows_ite]

lemma groupFileList_positioned (g : Str) : Positioned (groupFileList g) := by
  simp only [Positioned, groupFileList, call, Prog.follows_bind, fetchDetails_follows,
    Prog.follows_call, Prog.follows_ret, callPositions_allowed, callPositions_next,
    callPositions_admits, Call.mayAt, Call.positionAfter, Position.allows, Position.next, true_and]
  intro _ m _
  split
  · rfl
  · simp [Prog.follows_bind]

lemma groupJoin_positioned {g u : Str} (hg : IsWord g) (hu : IsWord u) :
    Positioned (groupJoin g u) := by
  have hline := wholeLines_fields pendingFile_ne_temp
    (show ∀ w ∈ [u, g], IsWord w by simp [hg, hu])
  simp only [Positioned, groupJoin, call, Prog.follows_bind, Prog.follows_call, Prog.follows_ret,
    callPositions_allowed, callPositions_next, callPositions_admits, Call.mayAt, Call.positionAfter,
    Position.allows, Position.next, true_and]
  intro m _
  split
  · rfl
  · simp [Prog.follows_bind, Prog.follows_ite, hline]

lemma groupAcceptRequest_positioned (g a : Str) {u : Str} (hu : IsWord u) :
    Positioned (groupAcceptRequest g u a) := by
  simp [Positioned, groupAcceptRequest, call, Prog.follows_bind, Prog.follows_ite,
    wholeLines_putline, hu.newline]

lemma groupLeave_positioned (g u : Str) : Positioned (groupLeave g u) := by
  simp only [Positioned, groupLeave, call, Prog.follows_bind, Prog.follows_call, Prog.follows_ret,
    callPositions_allowed, callPositions_next, callPositions_admits, Call.mayAt, Call.positionAfter,
    Position.allows, Position.next, true_and]
  intro m _
  split
  · rfl
  · simp [Prog.follows_bind, Prog.follows_ite]

lemma groupStopShare_positioned (g f u : Str) : Positioned (groupStopShare g f u) := by
  simp [Positioned, groupStopShare, call, Prog.follows_bind, Prog.follows_ite]

lemma sendSHA_positioned {g f : Str} (u : Str) (hg : IsWord g) (hf : IsWord f) :
    Positioned (sendSHA g f u) := by
  have hline := wholeLines_fields (downloadingFile_ne_temp u)
    (show ∀ w ∈ [g, f], IsWord w by simp [hg, hf])
  simp only [Positioned, sendSHA, call, Prog.follows_bind, fetchDetails_follows, Prog.follows_call,
    Prog.follows_ret, callPositions_allowed, callPositions_next, callPositions_admits, Call.mayAt,
    Call.positionAfter, Position.allows, Position.next, true_and]
  intro _ m _
  split
  · rfl
  · simp [Prog.follows_bind, Prog.follows_ite, hline]

lemma sendSeeders_positioned (g f : Str) : Positioned (sendSeeders g f) := by
  simp [Positioned, sendSeeders, call, Prog.follows_bind]

lemma sendDetails_positioned (u : Str) : Positioned (sendDetails u) := by
  simp [Positioned, sendDetails, call, Prog.follows_bind]

lemma getFullPath_positioned (u g f : Str) : Positioned (getFullPath u g f) := by
  simp [Positioned, getFullPath, call, Prog.follows_bind]

lemma showDownloads_positioned (u : Str) : Positioned (showDownloads u) := by
  simp [Positioned, showDownloads, call, Prog.follows_bind]

lemma completeDownload_positioned {g f : Str} (u : Str) (hg : IsWord g) (hf : IsWord f) :
    Positioned (completeDownload g f u) := by
  have hline := wholeLines_fields (downloadedFile_ne_temp u)
    (show ∀ w ∈ [g, f], IsWord w by simp [hg, hf])
  simp [Positioned, completeDownload, call, Prog.follows_bind, hline]

lemma checkGroupFiles_positioned (h : Str) (p : Path) (u : Str) :
    Positioned (checkGroupFiles h p u) := by
  simp [Positioned, checkGroupFiles, call, Prog.follows_bind]

lemma checkIntegrity_positioned (h : Str) (p : Path) (f : Str) :
    Positioned (checkIntegrity h p f) := by
  simp [Positioned, checkIntegrity, call, Prog.follows_bind]

/-- The name of a stored file is a field of a line. -/
lemma getGroupFileName_positioned (h : Str) (p : Path) :
    (getGroupFileName h p).Follows callPositions .idle fun f g => g = .idle ∧ '\n' ∉ f := by
  simp only [getGroupFileName, call, Prog.follows_bind, Prog.follows_call, Prog.pure_eq,
    Prog.follows_ret, checked_follows, callPositions_allowed, callPositions_next,
    callPositions_admits, Call.mayAt, Call.positionAfter, Position.allows, Position.next,
    implies_true, true_and]
  intro _ _ s _ found hfound name hname
  exact ⟨Or.inr trivial, fun _ _ => not_mem_field hfound hname⟩

lemma groupFileUpload_positioned {h size g u f p : Str} (hh : IsWord h) (hsize : IsWord size)
    (hg : IsWord g) (hu : IsWord u) (hf : IsWord f) (hp : IsWord p) :
    Positioned (groupFileUpload h size g u f p) := by
  have hrecord : ∀ name, '\n' ∉ name →
      WholeLines (groupFilesFile g) (putline (fields [h, size, u, name])) := by
    intro name hname
    apply wholeLines_putline (groupFilesFile_ne_temp g) (not_mem_fields (by decide) _)
    simp [hh.newline, hsize.newline, hu.newline, hname]
  have hpath : ∀ name, '\n' ∉ name →
      WholeLines (userFilesFile u) (putline (fields [g, name, p])) := by
    intro name hname
    apply wholeLines_putline (userFilesFile_ne_temp u) (not_mem_fields (by decide) _)
    simp [hg.newline, hp.newline, hname]
  simp only [Positioned, groupFileUpload, call, Prog.follows_bind, Prog.follows_call, Prog.pure_eq,
    Prog.follows_ret, Prog.follows_ite, fetchGroupMembers_follows, callPositions_allowed,
    callPositions_next, callPositions_admits, Call.mayAt, Call.positionAfter, Position.allows,
    Position.next, implies_true, true_and]
  intro _ _ _ _ _ _ _
  refine Prog.Follows.mono (checkGroupFiles_positioned ..) fun found g₁ hidle => ?_
  subst hidle
  refine ⟨fun _ => rfl, fun _ => (getGroupFileName_positioned h _).mono fun stored g₁ hstored => ?_⟩
  obtain ⟨rfl, hstored⟩ := hstored
  refine Prog.Follows.mono (checkIntegrity_positioned ..) fun wrong g₁ hidle => ?_
  subst hidle
  refine ⟨fun _ => rfl, fun _ => ?_⟩
  have hname : '\n' ∉ if stored ≠ [] then stored else f := by
    split_ifs
    · exact hstored
    · exact hf.newline
  exact ⟨rfl, fun _ _ => ⟨hrecord _ hname, fun _ _ => ⟨hpath _ hname, fun _ _ =>
    ⟨Or.inr trivial, trivial⟩⟩⟩⟩

lemma updateDownload_positioned {g f p u : Str} (hg : IsWord g) (hf : IsWord f) (hp : IsWord p)
    (hu : IsWord u) : Positioned (updateDownload g f p u) := by
  have hpath := wholeLines_fields (userFilesFile_ne_temp u)
    (show ∀ w ∈ [g, f, p], IsWord w by simp [hg, hf, hp])
  simp only [Positioned, updateDownload, call, Prog.follows_bind, fetchDetails_follows,
    Prog.follows_call, Prog.follows_ret, Prog.follows_ite, checked_follows, callPositions_allowed,
    callPositions_next, callPositions_admits, Call.mayAt, Call.positionAfter, Position.allows,
    Position.next, implies_true, true_and]
  intro _ s _ found hfound data hdata size hsize s' _ listed _
  have hrecord : WholeLines (groupFilesFile g) (putline (fields [data, size, u, f])) := by
    apply wholeLines_putline (groupFilesFile_ne_temp g) (not_mem_fields (by decide) _)
    simp [not_mem_field hfound hdata, not_mem_field hfound hsize, hu.newline, hf.newline]
  exact ⟨fun _ => ⟨Or.inl trivial, trivial⟩, fun _ => ⟨hpath, fun _ _ => ⟨hrecord, trivial⟩⟩⟩

/-- Every command rewrites files under `file_lock` only, one at a time, and writes whole lines. -/
lemma trackerKernel_positioned {c : Command} (hc : ∀ w ∈ c.args, IsWord w) :
    Positioned (trackerKernel hashPassword c) := by
  cases c with
  | login u p port ip =>
    simp only [Command.args, List.forall_mem_cons] at hc
    exact (userLogin_positioned hashPassword hc.1 hc.2.2.1 hc.2.2.2.1).bind fun _ => rfl
  | createUser u p port ip =>
    simp only [Command.args, List.forall_mem_cons] at hc
    exact (userCreate_positioned hashPassword hc.1 hc.2.2.1 hc.2.2.2.1).bind fun _ => rfl
  | createGroup g u =>
    simp only [Command.args, List.forall_mem_cons] at hc
    exact (groupCreate_positioned hc.1 hc.2.1).bind fun _ => rfl
  | listGroups => exact groupList_positioned.bind fun _ => rfl
  | joinGroup g u =>
    simp only [Command.args, List.forall_mem_cons] at hc
    exact (groupJoin_positioned hc.1 hc.2.1).bind fun _ => rfl
  | listRequests g u => exact (groupRequestList_positioned g u).bind fun _ => rfl
  | acceptRequest g u a =>
    simp only [Command.args, List.forall_mem_cons] at hc
    exact (groupAcceptRequest_positioned g a hc.2.1).bind fun _ => rfl
  | uploadFile h s g u f p =>
    simp only [Command.args, List.forall_mem_cons] at hc
    obtain ⟨hh, hs, hg, hu, hf, hp, -⟩ := hc
    exact (groupFileUpload_positioned hh hs hg hu hf hp).bind fun _ => rfl
  | listFiles g => exact (groupFileList_positioned g).bind fun _ => rfl
  | stopShare g f u => exact (groupStopShare_positioned g f u).bind fun _ => rfl
  | leaveGroup g u => exact (groupLeave_positioned g u).bind fun _ => rfl
  | logout u => exact (logout_positioned u).bind fun _ => rfl
  | giveSha g f u =>
    simp only [Command.args, List.forall_mem_cons] at hc
    exact (sendSHA_positioned u hc.1 hc.2.1).bind fun _ => rfl
  | giveSeeders g f u => exact (sendSeeders_positioned g f).bind fun _ => rfl
  | giveDetails u => exact (sendDetails_positioned u).bind fun _ => rfl
  | sendFullPath u g f => exact (getFullPath_positioned u g f).bind fun _ => rfl
  | addFile g f p u =>
    simp only [Command.args, List.forall_mem_cons] at hc
    exact (updateDownload_positioned hc.1 hc.2.1 hc.2.2.1 hc.2.2.2.1).bind fun _ => rfl
  | complete g f p u =>
    simp only [Command.args, List.forall_mem_cons] at hc
    exact (completeDownload_positioned u hc.1 hc.2.1).bind fun _ => rfl
  | showDownloads u => exact (showDownloads_positioned u).bind fun _ => rfl

end Handlers

end TorrentShare
