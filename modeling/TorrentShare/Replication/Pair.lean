import TorrentShare.Replication.Pushes

/-!
# Two trackers, one command at a time

A command is processed at one of two online trackers. It runs to completion, and the files it
sends replace those of the sibling, before the next command starts.
-/

namespace TorrentShare

open Program

/-- The two lines of the tracker information file. -/
inductive Side where
  | first
  | second
  deriving DecidableEq

/-- `GetTracker2`. -/
def Side.sibling : Side → Side
  | .first  => .second
  | .second => .first

@[simp] lemma Side.sibling_ne (i : Side) : i.sibling ≠ i := by cases i <;> decide
@[simp] lemma Side.sibling_sibling (i : Side) : i.sibling.sibling = i := by cases i <;> rfl

abbrev Pair := Side → Tracker

/-- What `SyncRecv` makes of files received one after the other: each replaces the file of its
    name. -/
def Disk.receive (d : Disk) (sent : List (Path × Str)) : Disk :=
  sent.foldl (fun d f => d.create f.1 f.2) d

/-- A received file changes no table. -/
def Tracker.receive (t : Tracker) (sent : List (Path × Str)) : Tracker :=
  { t with disk := t.disk.receive sent }

/-- A command, the tracker it is sent to, and the salt that is drawn if one is. -/
structure Turn where
  side : Side
  command : Command
  salt : Str

/-- A command processed at one tracker together with its transfers. -/
def process (hashPassword : Str → Str → Str) (P : Pair) (r : Turn) : Option (Reply × Pair) :=
  (serve hashPassword (P r.side) true r.salt r.command).map fun x =>
    (x.1, Function.update (Function.update P r.side x.2.1) r.side.sibling
      ((P r.side.sibling).receive x.2.2))

/-- A sequence of commands, and the replies to them. -/
def processAll (hashPassword : Str → Str → Str) : Pair → List Turn → Option (List Reply × Pair)
  | P, []      => some ([], P)
  | P, r :: rs => (process hashPassword P r).bind fun x =>
      (processAll hashPassword x.2 rs).map fun y => (x.1 :: y.1, y.2)

/-- The same contents under every name but that of the temporary file. -/
def Disk.Agree (d e : Disk) : Prop := ∀ p, cStr p ≠ tempFile → d.text p = e.text p

/-! ### Files received -/

namespace Disk

@[simp] lemma receive_nil (d : Disk) : d.receive [] = d := rfl

lemma receive_append (d : Disk) (sent : List (Path × Str)) (p : Path) (c : Str) :
    d.receive (sent ++ [(p, c)]) = (d.receive sent).create p c := by
  simp [receive]

lemma text_receive_of_ne (d : Disk) {sent : List (Path × Str)} {p : Path}
    (h : ∀ f ∈ sent, cStr p ≠ cStr f.1) : (d.receive sent).text p = d.text p := by
  induction sent generalizing d with
  | nil => rfl
  | cons f sent ih =>
    have hf : cStr p ≠ cStr f.1 := h f (List.mem_cons_self ..)
    have hrest : ∀ f' ∈ sent, cStr p ≠ cStr f'.1 := fun f' hf' => h f' (List.mem_cons_of_mem _ hf')
    exact (ih (d.create f.1 f.2) hrest).trans (text_create_of_ne d f.2 hf)

/-- A file read from one disk and written to another is the same on both. -/
lemma text_create_of_read (d e : Disk) {p q : Path} {c : Str} (hc : d.read p = some c)
    (hq : cStr q = cStr p) : (e.create p c).text q = d.text q := by
  have hopen : openable (cStr p) := by
    by_contra hne
    rw [d.read_of_not_openable (by simpa using hne)] at hc
    cases hc
  rw [text_congr _ hq, text_create_self e c hopen, text_congr d hq, text, hc, Option.getD_some]

end Disk

/-! ### What one handler sends -/

/-- A handler has still to send the files of `D`; in all others the sibling, which started from
    `e` and received what was sent so far, has the same contents. -/
structure Owing (e : Disk) (D : Set Path) (s : Session) : Prop where
  online : s.siblingOnline = true
  agree : ∀ p, cStr p ≠ tempFile → cStr p ∉ D → (e.receive s.sent).text p = s.disk.text p
  sent_ne : ∀ f ∈ s.sent, cStr f.1 ≠ tempFile

section Owing

variable {e : Disk} {D : Set Path} {s : Session}

lemma Owing.setMemory (h : Owing e D s) (m : Memory) : Owing e D (s.setMemory m) :=
  ⟨h.online, h.agree, h.sent_ne⟩

/-- A change of one file is one more file to send. -/
lemma Owing.setDisk {p : Path} (h : Owing e D s) (d : Disk)
    (hd : ∀ q, cStr q ≠ tempFile → cStr q ≠ cStr p → d.text q = s.disk.text q) :
    Owing e (insert (cStr p) D) (s.setDisk d) := by
  refine ⟨h.online, fun q hq hqD => ?_, h.sent_ne⟩
  simp only [Set.mem_insert_iff, not_or] at hqD
  rw [Session.sent_setDisk, h.agree q hq hqD.2]
  exact (hd q hq hqD.1).symm

/-- A file that is sent is no longer to be sent. -/
lemma Owing.sync {p : Path} {s' : Session} (h : Owing e D s) (hp : cStr p ≠ tempFile)
    (hs : s.sync p = some s') : Owing e (D \ {cStr p}) s' := by
  simp only [Session.sync, h.online, if_true, Option.map_eq_some_iff] at hs
  obtain ⟨c, hc, rfl⟩ := hs
  refine ⟨rfl, fun q hq hqD => ?_, fun f hf => ?_⟩
  · simp only [Disk.receive_append]
    by_cases hqp : cStr q = cStr p
    · exact Disk.text_create_of_read s.disk _ hc hqp
    · rw [Disk.text_create_of_ne _ _ hqp]
      exact h.agree q hq fun hD => hqD ⟨hD, hqp⟩
  · rcases List.mem_append.mp hf with hf | hf
    · exact h.sent_ne f hf
    · rw [List.mem_singleton.mp hf]
      exact hp

/-- The step lemma: every call a handler may make keeps the sibling up to date, apart from the
    files still to be sent. -/
lemma Owing.step (o : Call) {a : callAns o} {s' : Session} (ho : o.sparesTemp)
    (h : Owing e D s) (hs : callInterp o s = some (a, s')) : Owing e (o.owing D) s' := by
  cases o with
  | prim o =>
    rw [callInterp_prim] at hs
    cases o with
    | sync p =>
      simp only [primInterp, Option.map_eq_some_iff, Prod.mk.injEq, true_and] at hs
      obtain ⟨t, ht, rfl⟩ := hs
      exact h.sync ho ht
    | append p c =>
      cases hs
      exact h.setDisk _ fun q _ hqp => Disk.text_append_of_ne _ _ hqp
    | create p c =>
      cases hs
      exact h.setDisk _ fun q _ hqp => Disk.text_create_of_ne _ _ hqp
    | remove p => exact ho.elim
    | rename p q => exact ho.elim
    | modify f => cases hs; exact h.setMemory _
    | fault => cases hs
    | _ => cases hs; exact h
  | fetchDetails =>
    simp only [callInterp_fetchDetails, Option.map_eq_some_iff, Prod.mk.injEq] at hs
    obtain ⟨m, -, -, rfl⟩ := hs
    refine ⟨h.online, fun q hq hqD => ?_, h.sent_ne⟩
    exact (h.agree q hq hqD).trans (Disk.text_reloaded s.disk q).symm
  | fetchGroupMembers g =>
    rw [callInterp_fetchGroupMembers] at hs
    cases hs
    exact h.setMemory _
  | rewrite mode p drop =>
    simp only [callInterp_rewrite, Option.map_eq_some_iff, Prod.mk.injEq] at hs
    obtain ⟨ks, -, -, rfl⟩ := hs
    exact h.setDisk _ fun q hq hqp => Disk.text_rewritten_of_ne _ mode ks hqp hq

/-- An empty temporary file stays so. -/
lemma temp_step (o : Call) {a : callAns o} {s s' : Session} (ho : o.sparesTemp)
    (h : s.disk.text tempFile = []) (hs : callInterp o s = some (a, s')) :
    s'.disk.text tempFile = [] := by
  have hne : ∀ {p : Path}, cStr p ≠ tempFile → cStr tempFile ≠ cStr p :=
    fun hp he => hp he.symm
  cases o with
  | prim o =>
    rw [callInterp_prim] at hs
    cases o with
    | sync p =>
      obtain ⟨sent, rfl⟩ := primInterp_sync hs
      exact h
    | append p c =>
      cases hs
      exact (Disk.text_append_of_ne s.disk c (hne ho)).trans h
    | create p c =>
      cases hs
      exact (Disk.text_create_of_ne s.disk c (hne ho)).trans h
    | remove p => exact ho.elim
    | rename p q => exact ho.elim
    | fault => cases hs
    | _ => cases hs; exact h
  | fetchDetails =>
    simp only [callInterp_fetchDetails, Option.map_eq_some_iff, Prod.mk.injEq] at hs
    obtain ⟨m, -, -, rfl⟩ := hs
    exact (Disk.text_reloaded s.disk tempFile).trans h
  | fetchGroupMembers g =>
    rw [callInterp_fetchGroupMembers] at hs
    cases hs
    exact h
  | rewrite mode p drop =>
    simp only [callInterp_rewrite, Option.map_eq_some_iff, Prod.mk.injEq] at hs
    obtain ⟨ks, hks, -, rfl⟩ := hs
    exact Disk.text_rewritten_temp s.disk mode ho hks h

end Owing

/-! ### One command, and a sequence of commands -/

variable {hashPassword : Str → Str → Str}

/-- The files a command sends bring a sibling that agreed before to agreement afterwards. -/
lemma serve_agree {t t' : Tracker} {salt : Str} {c : Command} {reply : Reply}
    {sent : List (Path × Str)} {e : Disk}
    (h : serve hashPassword t true salt c = some (reply, t', sent)) (he : e.Agree t.disk) :
    (e.receive sent).Agree t'.disk ∧ ∀ f ∈ sent, cStr f.1 ≠ tempFile := by
  simp only [serve, Option.map_eq_some_iff, Prod.mk.injEq] at h
  obtain ⟨⟨r, s⟩, hrun, rfl, rfl, rfl⟩ := h
  have hstart : Owing e ∅ ⟨t, salt, true, []⟩ :=
    ⟨rfl, fun p hp _ => he p hp, fun f hf => absurd hf (List.not_mem_nil)⟩
  obtain ⟨D, hD, hs⟩ := (trackerKernel_sendsAll hashPassword c).run (R := Owing e)
    (fun o D s a s' ho hs hrun => ⟨trivial, hs.step o ho hrun⟩) hstart hrun
  exact ⟨fun p hp => hs.agree p hp (hD _), hs.sent_ne⟩

lemma serve_temp {t t' : Tracker} {online : Bool} {salt : Str} {c : Command} {reply : Reply}
    {sent : List (Path × Str)}
    (h : serve hashPassword t online salt c = some (reply, t', sent))
    (ht : t.disk.text tempFile = []) : t'.disk.text tempFile = [] := by
  simp only [serve, Option.map_eq_some_iff, Prod.mk.injEq] at h
  obtain ⟨⟨r, s⟩, hrun, rfl, rfl, rfl⟩ := h
  obtain ⟨D, -, hs⟩ := (trackerKernel_sendsAll hashPassword c).run
    (R := fun _ s => s.disk.text tempFile = [])
    (fun o D s a s' ho hs hrun => ⟨trivial, temp_step o ho hs hrun⟩) ht hrun
  exact hs

/-- Two trackers whose files agree, with an empty temporary file if `clean`. -/
structure Pair.Agree (clean : Prop) (P : Pair) : Prop where
  files : (P .first).disk.Agree (P .second).disk
  temp : clean → ∀ i, (P i).disk.text tempFile = []

lemma Disk.Agree.symm {d e : Disk} (h : d.Agree e) : e.Agree d := fun p hp => (h p hp).symm

lemma Pair.Agree.sibling {clean : Prop} {P : Pair} (h : P.Agree clean) (i : Side) :
    (P i.sibling).disk.Agree (P i).disk := by
  cases i with
  | first => exact h.files.symm
  | second => exact h.files

lemma Pair.Agree.text {P : Pair} (h : P.Agree True) (i j : Side) (p : Path) :
    (P i).disk.text p = (P j).disk.text p := by
  have hfirst : (P .first).disk.text p = (P .second).disk.text p := by
    by_cases hp : cStr p = tempFile
    · rw [Disk.text_congr (q := tempFile) _ hp, Disk.text_congr (q := tempFile) _ hp,
        h.temp trivial, h.temp trivial]
    · exact h.files p hp
  cases i with
  | first =>
    cases j with
    | first => rfl
    | second => exact hfirst
  | second =>
    cases j with
    | first => exact hfirst.symm
    | second => rfl

lemma Side.eq_or_eq_sibling (i j : Side) : j = i ∨ j = i.sibling := by
  cases i <;> cases j <;> simp [Side.sibling]

/-- The tracker that gets the command serves it, and the other one receives the files. -/
lemma process_routed {P P' : Pair} {r : Turn} {reply : Reply}
    (h : process hashPassword P r = some (reply, P')) :
    ∃ sent, serve hashPassword (P r.side) true r.salt r.command = some (reply, P' r.side, sent) ∧
      P' r.side.sibling = (P r.side.sibling).receive sent := by
  simp only [process, Option.map_eq_some_iff, Prod.mk.injEq] at h
  obtain ⟨⟨a, t, sent⟩, hserve, rfl, rfl⟩ := h
  refine ⟨sent, ?_, Function.update_self ..⟩
  rw [hserve, Function.update_of_ne (Side.sibling_ne r.side).symm, Function.update_self]

/-- The step lemma for a command with its transfers. -/
lemma process_agree {clean : Prop} {P P' : Pair} {r : Turn} {reply : Reply}
    (h : P.Agree clean) (hp : process hashPassword P r = some (reply, P')) : P'.Agree clean := by
  simp only [process, Option.map_eq_some_iff, Prod.mk.injEq] at hp
  obtain ⟨⟨a, t, sent⟩, hserve, rfl, rfl⟩ := hp
  obtain ⟨hagree, hsent⟩ := serve_agree hserve (h.sibling r.side)
  have hreceive : clean → ((P r.side.sibling).disk.receive sent).text tempFile = [] := by
    intro hc
    have hne : ∀ f ∈ sent, cStr tempFile ≠ cStr f.1 := fun f hf he => hsent f hf he.symm
    exact (Disk.text_receive_of_ne _ hne).trans (h.temp hc _)
  have hserved : clean → t.disk.text tempFile = [] := fun hc => serve_temp hserve (h.temp hc _)
  rcases r with ⟨i, c, salt⟩
  cases i with
  | first =>
    refine ⟨hagree.symm, fun hc i => ?_⟩
    cases i with
    | first => exact hserved hc
    | second => exact hreceive hc
  | second =>
    refine ⟨hagree, fun hc i => ?_⟩
    cases i with
    | first => exact hreceive hc
    | second => exact hserved hc

/-- The run lemma for sequences of commands. -/
lemma processAll_agree {clean : Prop} {P P' : Pair} {rs : List Turn} {replies : List Reply}
    (h : P.Agree clean) (hp : processAll hashPassword P rs = some (replies, P')) :
    P'.Agree clean := by
  induction rs generalizing P replies with
  | nil =>
    cases hp
    exact h
  | cons r rs ih =>
    simp only [processAll, Option.bind_eq_some_iff, Option.map_eq_some_iff, Prod.mk.injEq] at hp
    obtain ⟨⟨a, Q⟩, hQ, ⟨as, P''⟩, hrest, -, rfl⟩ := hp
    exact ih (process_agree h hQ) hrest

/-- The files of two trackers that start with equal files are equal after any sequence of
    commands that run to completion, except for the temporary file, which is not sent. They are
    equal without exception if the temporary file is empty at the start. -/
theorem replicas_agree {P P' : Pair} {turns : List Turn} {replies : List Reply}
    (hstart : ∀ p, (P .first).disk.text p = (P .second).disk.text p)
    (hrun : processAll hashPassword P turns = some (replies, P')) :
    (∀ p, cStr p ≠ tempFile → (P' .first).disk.text p = (P' .second).disk.text p) ∧
      ((P .first).disk.text tempFile = [] →
        ∀ p, (P' .first).disk.text p = (P' .second).disk.text p) := by
  have hP : P.Agree ((P .first).disk.text tempFile = []) := by
    refine ⟨fun p _ => hstart p, fun hclean i => ?_⟩
    cases i with
    | first => exact hclean
    | second => exact (hstart tempFile).symm.trans hclean
  have hP' := processAll_agree hP hrun
  refine ⟨hP'.files, fun hclean p => ?_⟩
  by_cases hp : cStr p = tempFile
  · have htext : ∀ i, (P' i).disk.text p = [] := by
      intro i
      rw [Disk.text_congr (q := tempFile) _ hp]
      exact hP'.temp hclean i
    rw [htext, htext]
  · exact hP'.files p hp

/-- Two trackers without files. -/
def freshTrackers : Pair := fun _ => ⟨Disk.empty, {}⟩

/-- A user, a group at the other tracker, a file in it, and a logout. -/
def shortRun : List Turn :=
  [⟨.first, .createUser "u".toList "p".toList "1".toList "i".toList, "s".toList⟩,
   ⟨.second, .createGroup "g".toList "u".toList, []⟩,
   ⟨.second, .uploadFile "h".toList "3".toList "g".toList "u".toList "f".toList "/f".toList, []⟩,
   ⟨.first, .logout "u".toList, []⟩]

theorem replicas_agree_shortRun : ∃ (P' : Pair) (replies : List Reply),
    processAll (fun _ p => p) freshTrackers shortRun = some (replies, P') ∧
      (∀ p, cStr p ≠ tempFile → (P' .first).disk.text p = (P' .second).disk.text p) ∧
      ((freshTrackers .first).disk.text tempFile = [] →
        ∀ p, (P' .first).disk.text p = (P' .second).disk.text p) := by
  have hrun : (processAll (fun _ p => p) freshTrackers shortRun).isSome := by decide +kernel
  obtain ⟨⟨replies, P'⟩, hrun⟩ := Option.isSome_iff_exists.mp hrun
  exact ⟨P', replies, hrun, replicas_agree (fun _ => rfl) hrun⟩

/-- Two trackers that both hold a temporary file with a line in it. -/
def leftoverTrackers : Pair := fun _ => ⟨Disk.empty.create tempFile "x\n".toList, {}⟩

/-- A handler that uses up what the temporary file holds does so at its own tracker only. -/
theorem temporary_file_differs : ∃ (P P' : Pair) (turns : List Turn) (replies : List Reply),
    (∀ p, (P .first).disk.text p = (P .second).disk.text p) ∧
      processAll (fun _ p => p) P turns = some (replies, P') ∧
      ∃ p, (P' .first).disk.text p ≠ (P' .second).disk.text p := by
  let turn : Turn := ⟨.first, .complete "g".toList "f".toList "/f".toList "u".toList, []⟩
  have hrun : ((processAll (fun _ p => p) leftoverTrackers [turn]).any fun r =>
      decide ((r.2 .first).disk.text tempFile ≠ (r.2 .second).disk.text tempFile)) = true := by
    decide +kernel
  obtain ⟨⟨replies, P'⟩, hrun, hne⟩ := (Option.any_eq_true _ _).mp hrun
  exact ⟨leftoverTrackers, P', [turn], replies, fun _ => rfl, hrun, tempFile, by simpa using hne⟩

end TorrentShare
