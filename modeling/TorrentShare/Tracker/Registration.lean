import TorrentShare.Program.FirstCome
import TorrentShare.Tracker.Host
import TorrentShare.Tracker.Reloading

/-!
# Registering a name

`create_user` and `create_group` look into a table and append a line to a file. The lookup and the
append are apart, and handlers for the same name may come in between.
-/

namespace TorrentShare

open Program

/-- Requests of the handlers `ι` that register the same name. -/
inductive Registration (ι : Type) where
  | account (user : Str) (password port ip : ι → Str)
  | group (group : Str) (owner : ι → Str)

namespace Registration

variable {ι : Type}

def name : Registration ι → Str
  | account u _ _ _ => u
  | group g _       => g

def command : Registration ι → ι → Command
  | account u password port ip, i => .createUser u (password i) (port i) (ip i)
  | group g owner, i              => .createGroup g (owner i)

/-- The file with a line for each name. -/
def file : Registration ι → Path
  | account .. => credentialFile
  | group ..   => groupFile

/-- The lookup of the handlers. -/
def found : Registration ι → Memory → Bool
  | account u _ _ _, m => (m.credentials.lookup u).isSome
  | group g _, m       => (m.groups.lookup g).isSome

/-- The line is for the name, in the way `FetchDetails` reads it. -/
def isFor : Registration ι → Str → Bool
  | account u _ _ _, l => (extract l).any (·.1 == u)
  | group g _, l       => (split l ' ')[0]? == some g

/-- What a handler puts behind the name. -/
def value (hashPassword : Str → Str → Str) (salt : ι → Str) : Registration ι → ι → Str
  | account _ password _ _, i => salt i ++ [':'] ++ hashPassword (salt i) (password i)
  | group _ owner, i          => owner i

/-- What the files say about the name. -/
def inForce : Registration ι → Disk → Option Str
  | account u _ _ _, d => d.credential u
  | group g _, d       => d.owner g

/-- The line that a handler appends. -/
def record (hashPassword : Str → Str → Str) (salt : ι → Str) (R : Registration ι) (i : ι) : Str :=
  fields [R.name, R.value hashPassword salt i]

/-! ### What a handler does -/

/-- How far a handler is after a call. -/
def after (R : Registration ι) : (o : Call) → callAns o → Attempt → Attempt
  | .prim .memory, m, .looking         => if R.found m then .refused else .missed
  | .prim (.append p _), _, .missed    => if p = R.file then .recorded else .missed
  | _, _, st                           => st

/-- The call leaves the file alone. -/
def Spares (p : Path) : Call → Prop
  | .prim (.append q _) => cStr q ≠ cStr p
  | .prim (.create q _) => cStr q ≠ cStr p
  | .prim (.remove _)   => False
  | .prim (.rename _ _) => False
  | .rewrite _ _ _      => False
  | _                   => True

/-- The salt that is drawn. -/
def Draws (salt : Str) : (o : Call) → callAns o → Prop
  | .prim .generateSalt, s => s = salt
  | _, _                   => True

/-- A handler that has not found the name may append its record, once. -/
def discipline (hashPassword : Str → Str → Str) (salt : ι → Str) (R : Registration ι) (i : ι) :
    Discipline callSig Attempt where
  allowed o st := Spares R.file o ∨
    o = .prim (.append R.file (putline (R.record hashPassword salt i))) ∧ st = .missed
  next := R.after
  admits := Draws (salt i)

section Handlers

variable {hashPassword : Str → Str → Str} {salt : ι → Str} {R : Registration ι} {i : ι}
  {st : Attempt} {α : Type}

lemma after_append_of_ne {p : Path} {s : Str} (h : p ≠ R.file) (a : Unit) :
    R.after (.prim (.append p s)) a .missed = .missed :=
  if_neg h

/-- A call that leaves the file alone and is no step of the attempt. -/
lemma follows_idle {o : Call} {f : callAns o → Prog callSig α} {Q : α → Attempt → Prop}
    (ho : Spares R.file o) (hst : ∀ a, R.after o a st = st)
    (hf : ∀ a, Draws (salt i) o a → (f a).Follows (R.discipline hashPassword salt i) st Q) :
    ((Prog.call o .ret : Prog callSig (callAns o)) >>= f).Follows
      (R.discipline hashPassword salt i) st Q := by
  refine ⟨Or.inl ho, fun a ha => ?_⟩
  rw [show (R.discipline hashPassword salt i).next o a st = st from hst a]
  exact hf a ha

/-- The append of the record. -/
lemma follows_record {f : Unit → Prog callSig α} {Q : α → Attempt → Prop}
    (hf : (f ()).Follows (R.discipline hashPassword salt i) .recorded Q) :
    (call (.append R.file (putline (R.record hashPassword salt i))) >>= f).Follows
      (R.discipline hashPassword salt i) .missed Q := by
  refine ⟨Or.inr ⟨rfl, rfl⟩, fun a _ => ?_⟩
  rw [show (R.discipline hashPassword salt i).next _ a .missed = .recorded from if_pos rfl]
  exact hf

/-- The lookup. -/
lemma follows_lookup {f : Memory → Prog callSig α} {Q : α → Attempt → Prop}
    (hfound : ∀ m, R.found m = true →
      (f m).Follows (R.discipline hashPassword salt i) .refused Q)
    (hmissed : ∀ m, R.found m = false →
      (f m).Follows (R.discipline hashPassword salt i) .missed Q) :
    (call .memory >>= f).Follows (R.discipline hashPassword salt i) .looking Q := by
  refine ⟨Or.inl trivial, fun m _ => ?_⟩
  cases hm : R.found m with
  | true =>
    rw [show (R.discipline hashPassword salt i).next (.prim .memory) m .looking = .refused from
      if_pos hm]
    exact hfound m hm
  | false =>
    rw [show (R.discipline hashPassword salt i).next (.prim .memory) m .looking = .missed from
      if_neg (by simp [hm])]
    exact hmissed m hm

/-- After the record. -/
lemma follows_recorded {p : Prog callSig α} (hp : p.Only (Spares R.file)) :
    p.Follows (R.discipline hashPassword salt i) .recorded fun _ st => st = .recorded := by
  refine Prog.Only.follows (fun o ho => ⟨Or.inl ho, fun a => ?_⟩) hp
  show R.after o a .recorded = .recorded
  unfold after
  split <;> first | rfl | contradiction

/-- A call that leaves the file alone. -/
lemma only_bind {p : Path} {o : Call} {f : callAns o → Prog callSig α} (ho : Spares p o)
    (hf : ∀ a, (f a).Only (Spares p)) :
    ((Prog.call o .ret : Prog callSig (callAns o)) >>= f).Only (Spares p) :=
  Prog.only_call ho hf

lemma userCreate_discipline (u : Str) (password port ip : ι → Str) :
    (userCreate hashPassword u (password i) (port i) (ip i)).Follows
      ((account u password port ip).discipline hashPassword salt i) .looking
      fun b st => b = true → st = .recorded := by
  let R := account u password port ip
  refine follows_idle (R := R) trivial (fun _ => rfl) fun _ _ => follows_lookup ?_ ?_
  · intro m hm
    obtain ⟨stored, hstored⟩ := Option.isSome_iff_exists.mp hm
    simp only [hstored]
    exact fun h => by cases h
  · intro m hm
    have hnone : m.credentials.lookup u = none := by simpa [R, found] using hm
    simp only [hnone]
    refine follows_idle trivial (fun _ => rfl) fun _ _ => ?_
    refine follows_idle trivial (fun _ => rfl) fun _ _ => ?_
    have honline : onlineFile ≠ credentialFile := by decide
    refine follows_idle (cStr_ne_of_kind (by simp [R, file])) (after_append_of_ne honline)
      fun _ _ => ?_
    refine follows_idle trivial (fun _ => rfl) fun drawn hdrawn => ?_
    obtain rfl : drawn = salt i := hdrawn
    refine follows_record (Prog.Follows.mono (follows_recorded ?_) fun _ _ hst _ => hst)
    refine only_bind (cStr_ne_of_kind (by simp [R, file])) fun _ => ?_
    refine only_bind (cStr_ne_of_kind (by simp [R, file])) fun _ => ?_
    refine only_bind (cStr_ne_of_kind (by simp [R, file])) fun _ => ?_
    refine only_bind trivial fun _ => ?_
    refine only_bind trivial fun _ => ?_
    refine only_bind trivial fun _ => ?_
    refine only_bind trivial fun _ => ?_
    refine only_bind trivial fun _ => ?_
    refine only_bind trivial fun _ => ?_
    exact only_bind trivial fun _ => trivial

lemma groupCreate_discipline (g : Str) (owner : ι → Str) :
    (groupCreate g (owner i)).Follows ((group g owner).discipline hashPassword salt i) .looking
      fun b st => b = true → st = .recorded := by
  let R := group g owner
  refine follows_idle (R := R) trivial (fun _ => rfl) fun _ _ => follows_lookup ?_ ?_
  · intro m hm
    obtain ⟨o, ho⟩ := Option.isSome_iff_exists.mp hm
    simp only [ho]
    exact fun h => by cases h
  · intro m hm
    have hnone : m.groups.lookup g = none := by simpa [R, found] using hm
    simp only [hnone]
    refine follows_idle trivial (fun _ => rfl) fun _ _ => ?_
    refine follows_record (Prog.Follows.mono (follows_recorded ?_) fun _ _ hst _ => hst)
    refine only_bind (cStr_ne_of_kind (by simp [R, file])) fun _ => ?_
    refine only_bind (cStr_ne_of_kind (by simp [R, file])) fun _ => ?_
    refine only_bind trivial fun _ => ?_
    refine only_bind trivial fun _ => ?_
    refine only_bind trivial fun _ => ?_
    refine only_bind trivial fun _ => ?_
    exact only_bind trivial fun _ => trivial

/-- A handler that answers with success has appended its record. -/
lemma trackerKernel_discipline (R : Registration ι) :
    (trackerKernel hashPassword (R.command i)).Follows (R.discipline hashPassword salt i)
      .looking fun reply st => reply = some ['1'] → st = .recorded := by
  have hanswer : ∀ p : Prog callSig Bool, (p.Follows (R.discipline hashPassword salt i) .looking
      fun b st => b = true → st = .recorded) → (answer p).Follows
      (R.discipline hashPassword salt i) .looking
      fun reply st => reply = some ['1'] → st = .recorded := by
    intro p hp
    refine hp.bind fun b st hb hreply => hb ?_
    cases b with
    | true => rfl
    | false => simp at hreply
  cases R with
  | account u password port ip => exact hanswer _ (userCreate_discipline u password port ip)
  | group g owner => exact hanswer _ (groupCreate_discipline g owner)

end Handlers

/-! ### Records -/

section Records

variable {sha256 : Str → List (Fin 256)} {salt : ι → Str} {R : Registration ι} {i : ι}

lemma isWord_value (hsalt : ∀ i, IsWord (salt i)) (hwords : ∀ w ∈ (R.command i).args, IsWord w) :
    IsWord (R.value (hashPassword sha256) salt i) := by
  cases R with
  | account u password port ip =>
    intro c hc
    simp only [value, List.mem_append, List.mem_singleton] at hc
    rcases hc with (hc | rfl) | hc
    · exact hsalt i c hc
    · decide
    · exact isspace_of_mem_hex hc
  | group g owner => exact hwords (owner i) (by simp [command, Command.args])

lemma isWord_name (hwords : ∀ w ∈ (R.command i).args, IsWord w) : IsWord R.name := by
  cases R with
  | account u password port ip => exact hwords u (by simp [command, Command.args])
  | group g owner => exact hwords g (by simp [command, Command.args])

lemma newline_record (hsalt : ∀ i, IsWord (salt i))
    (hwords : ∀ w ∈ (R.command i).args, IsWord w) :
    '\n' ∉ R.record (hashPassword sha256) salt i := by
  have hvalue : IsWord (R.value (hashPassword sha256) salt i) := isWord_value hsalt hwords
  exact newline_fields (by simp [isWord_name hwords, hvalue])

/-- The record is for the name. -/
lemma isFor_record (hname : R.name ≠ []) (hwords : ∀ w ∈ (R.command i).args, IsWord w)
    (hsalt : ∀ i, IsWord (salt i)) : R.isFor (R.record (hashPassword sha256) salt i) = true := by
  have hword := isWord_name hwords
  have hvalue : IsWord (R.value (hashPassword sha256) salt i) := isWord_value hsalt hwords
  cases R with
  | account u password port ip =>
    have htoken : IsToken u := ⟨hword, hname⟩
    rw [isFor, record, fields_pair, name, htoken.extract_append (by simp [isspace])]
    simp
  | group g owner =>
    rw [isFor, record, split_fields (by simp) (by simp [hword.blank, hvalue.blank])]
    simp [name]

/-- The last record of the name is in force. -/
lemma inForce_record (hname : R.name ≠ []) (hwords : ∀ w ∈ (R.command i).args, IsWord w)
    (hsalt : ∀ i, IsWord (salt i)) {d : Disk} {ls : List Str}
    (h : d.lines R.file = ls ++ [R.record (hashPassword sha256) salt i]) :
    R.inForce d = some (R.value (hashPassword sha256) salt i) := by
  have hword := isWord_name hwords
  have hvalue : IsWord (R.value (hashPassword sha256) salt i) := isWord_value hsalt hwords
  cases R with
  | account u password port ip =>
    have hstored : IsToken ((account u password port ip).value (hashPassword sha256) salt i) :=
      ⟨hvalue, by simp [value]⟩
    have hlines : d.lines credentialFile = _ := h
    rw [inForce, Disk.credential, credentialsOf, hlines, record, readPairs_append,
      List.foldl_append, readPairs, extractPair_fields ⟨hword, hname⟩ hstored, readPairs,
      List.foldl_cons, List.foldl_nil, lookup_tableSet]
    exact if_pos rfl
  | group g owner =>
    have hlines : d.lines groupFile = _ := h
    have hblanks : ∀ f ∈ [g, owner i], ' ' ∉ f :=
      List.forall_mem_cons.mpr ⟨hword.blank, List.forall_mem_singleton.mpr hvalue.blank⟩
    have hfields : groupFields (split (fields [g, owner i]) ' ') = some (g, owner i) := by
      rw [split_fields (by simp) hblanks]
      rfl
    rw [inForce, Disk.owner, hlines, record, lookup_ownersOf_append (g := g) (u := owner i)
      (by simpa [name, value] using hfields)]
    exact if_pos ⟨rfl, by simp⟩

end Records

end Registration

/-! ### Handlers side by side -/

/-- A tracker process whose handlers register a name, with how far each of them is. -/
structure Registrar (ι : Type) where
  host : Host ι
  attempt : ι → Attempt := fun _ => .looking

section Threads

variable {ι : Type} [DecidableEq ι]

/-- The meaning of a call of handler `i`. `FetchDetails` is one step. -/
def registrarInterp (salt : ι → Str) (R : Registration ι) (i : ι) :
    Interp callSig (Registrar ι) := fun o s =>
  ((callBody o).run (hostInterp salt i) s.host).map fun r =>
    (r.1, ⟨r.2, Function.update s.attempt i (R.after o r.1 (s.attempt i))⟩)

/-- Handlers that are about to start. -/
def Registrar.start (hashPassword : Str → Str → Str) (R : Registration ι) (s : Registrar ι) :
    Config callSig (Registrar ι) ι Reply :=
  ⟨s, fun i => trackerKernel hashPassword (R.command i)⟩

/-- There is nobody else. -/
def NobodyElse (e : Empty) (_ _ : Registrar ι) : Prop := e.elim

/-- Whenever a handler does not find the name, the file has no line for it and no other handler
    is between not finding the name and appending its record. -/
def LooksAlone (R : Registration ι) (c : Config callSig (Registrar ι) ι Reply)
    (e : Event callSig ι Empty) (_ : Config callSig (Registrar ι) ι Reply) : Prop :=
  ∀ i m, e = .call i (.prim .memory) m → c.shared.attempt i = .looking →
    R.found c.shared.host.tracker.memory = false →
      (∀ l ∈ c.shared.host.disk.lines R.file, R.isFor l = false) ∧
        ∀ j, c.shared.attempt j ≠ .missed

variable {salt : ι → Str} {i : ι} {h h' : Host ι}

/-- What the calls do to a file that they leave alone. -/
lemma hostRun_spares {p : Path} {o : Call} {a : callAns o} (ho : Registration.Spares p o)
    (hs : (callBody o).run (hostInterp salt i) h = some (a, h')) :
    h'.disk.text p = h.disk.text p := by
  cases o with
  | fetchDetails => rw [hostRun_fetchDetails hs, Disk.text_reloaded]
  | fetchGroupMembers g => rw [(hostRun_fetchGroupMembers hs).1]
  | rewrite mode q drop => exact ho.elim
  | prim o =>
    rw [hostRun_prim] at hs
    cases o with
    | lock =>
      obtain ⟨-, rfl⟩ := hostInterp_lock hs
      rfl
    | append q t =>
      cases hs
      exact Disk.text_append_of_ne _ t (Ne.symm ho)
    | create q t =>
      cases hs
      exact Disk.text_create_of_ne _ t (Ne.symm ho)
    | remove q => exact ho.elim
    | rename q r => exact ho.elim
    | sync q => rw [hostInterp_sync hs]
    | fault => cases hs
    | _ =>
      cases hs
      rfl

lemma hostRun_draws {o : Call} {a : callAns o}
    (hs : (callBody o).run (hostInterp salt i) h = some (a, h')) :
    Registration.Draws (salt i) o a := by
  cases o with
  | prim o =>
    rw [hostRun_prim] at hs
    cases o with
    | generateSalt =>
      cases hs
      rfl
    | _ => trivial
  | _ => trivial

namespace Registration

variable {R : Registration ι}

omit [DecidableEq ι] in
/-- Only the lookup and the append of the record are steps of the attempt. -/
lemma after_of_spares {o : Call} {a : callAns o} {st : Attempt} (ho : Spares R.file o)
    (hlookup : ¬ (o = .prim .memory ∧ st = .looking)) : R.after o a st = st := by
  unfold after
  split
  · exact absurd ⟨rfl, rfl⟩ hlookup
  · rename_i p t _
    have hne : p ≠ R.file := fun hp => ho (congrArg cStr hp)
    exact if_neg hne
  · rfl

omit [DecidableEq ι] in
/-- The file can be opened. -/
lemma openable_file : openable (cStr R.file) = true := by
  cases R with
  | account => exact show openable (cStr credentialFile) = true by decide
  | group => exact show openable (cStr groupFile) = true by decide

/-- How far the handlers are fits the records of the file. -/
structure Kept (hashPassword : Str → Str → Str) (salt : ι → Str) (R : Registration ι)
    (start : List Str) (st : ι → Attempt) (s : Registrar ι) : Prop where
  attempt : s.attempt = st
  terminated : Terminated (s.host.disk.text R.file)
  winner : OneWinner R.isFor (R.record hashPassword salt) start st (s.host.disk.lines R.file)

/-- The step lemma. -/
lemma Kept.step {hashPassword : Str → Str → Str} {start : List Str} {st : ι → Attempt}
    {s s' : Registrar ι} {o : Call} {a : callAns o} (h : Kept hashPassword salt R start st s)
    (hnewline : '\n' ∉ R.record hashPassword salt i)
    (hrecord : ∀ j, R.isFor (R.record hashPassword salt j) = true)
    (hallowed : (R.discipline hashPassword salt i).allowed o (st i))
    (halone : o = .prim .memory → s.attempt i = .looking →
      R.found s.host.tracker.memory = false →
        (∀ l ∈ s.host.disk.lines R.file, R.isFor l = false) ∧ ∀ j, s.attempt j ≠ .missed)
    (hs : registrarInterp salt R i o s = some (a, s')) :
    Kept hashPassword salt R start (Function.update st i (R.after o a (st i))) s' := by
  obtain ⟨⟨b, h'⟩, hrun, heq⟩ := Option.map_eq_some_iff.mp hs
  cases heq
  obtain ⟨rfl, hterminated, hwinner⟩ := h
  rcases hallowed with hspares | ⟨rfl, hmissed⟩
  · have htext := hostRun_spares hspares hrun
    have hlines : h'.disk.lines R.file = s.host.disk.lines R.file := congrArg getlines htext
    refine ⟨rfl, by rwa [htext], ?_⟩
    rw [hlines]
    by_cases hlookup : o = .prim .memory ∧ s.attempt i = .looking
    · obtain ⟨rfl, hst⟩ := hlookup
      rw [hostRun_prim] at hrun
      cases hrun
      rw [hst]
      cases hfound : R.found s.host.tracker.memory with
      | true =>
        rw [show R.after (.prim .memory) _ .looking = .refused from if_pos hfound]
        exact hwinner.refuse hst
      | false =>
        obtain ⟨hnone, hothers⟩ := halone rfl hst hfound
        rw [show R.after (.prim .memory) _ .looking = .missed from if_neg (by simp [hfound])]
        exact hwinner.miss hst hrecord hnone hothers
    · rw [after_of_spares hspares hlookup, Function.update_eq_self]
      exact hwinner
  · rw [hostRun_prim] at hrun
    cases hrun
    have htext : (s.host.disk.append R.file (putline (R.record hashPassword salt i))).text R.file =
        s.host.disk.text R.file ++ putline (R.record hashPassword salt i) := by
      rw [Disk.text_append, if_pos ⟨rfl, openable_file⟩]
    refine ⟨rfl, ?_, ?_⟩
    · rw [Host.disk_setDisk, htext]
      exact hterminated.append (terminated_putline hnewline)
    · rw [Host.disk_setDisk, Disk.lines, htext, hterminated.getlines_append,
        getlines_putline_self hnewline, hmissed,
        show R.after (.prim (.append R.file _)) () .missed = .recorded from if_pos rfl]
      exact hwinner.add hmissed

end Registration

variable {sha256 : Str → List (Fin 256)} {bytes : ι → List (Fin 256)} {R : Registration ι}

/-- Where every handler that does not find the name looks alone, at most one of the handlers is
    answered with success, there is at most one line for the name, and what the winner has put
    behind the name is in force. -/
theorem registered_once (hname : R.name ≠ [])
    (hreceived : ∀ i, ∃ message, Request.parse message = .client (R.command i)) {s : Registrar ι}
    (hlooking : ∀ i, s.attempt i = .looking) (hterminated : Terminated (s.host.disk.text R.file))
    (hone : (s.host.disk.lines R.file).countP R.isFor ≤ 1)
    {c : Config callSig (Registrar ι) ι Reply}
    (hrun : Config.RunsWhen (registrarInterp (fun i => generateSalt (bytes i)) R) NobodyElse
      (LooksAlone R) (s.start (hashPassword sha256) R) c) :
    (∀ i j, c.thread i = .ret (some ['1']) → c.thread j = .ret (some ['1']) → i = j) ∧
      (c.shared.host.disk.lines R.file).countP R.isFor ≤ 1 ∧
      ∀ i, c.thread i = .ret (some ['1']) → R.inForce c.shared.host.disk =
        some (R.value (hashPassword sha256) (fun i => generateSalt (bytes i)) i) := by
  let salt : ι → Str := fun i => generateSalt (bytes i)
  have hsalt : ∀ i, IsWord (salt i) := fun i => isWord_hex (bytes i)
  have hwords : ∀ i, ∀ w ∈ (R.command i).args, IsWord w := by
    intro i
    obtain ⟨message, hmessage⟩ := hreceived i
    exact Request.isWord_args hmessage
  have hkept : c.Disciplined (R.discipline (hashPassword sha256) salt)
      (fun reply st => reply = some ['1'] → st = .recorded)
      (Registration.Kept (hashPassword sha256) salt R (s.host.disk.lines R.file)) := by
    refine hrun.invariant (fun c e c' hkept halone hstep => ?_) ?_
    · refine hkept.step (fun i o a st s' he hallowed hI hs => ?_) (fun m => m.elim) hstep
      obtain ⟨⟨b, h'⟩, hbody, heq⟩ := Option.map_eq_some_iff.mp hs
      cases heq
      refine ⟨hostRun_draws hbody, hI.step (Registration.newline_record hsalt (hwords i))
        (fun j => Registration.isFor_record hname (hwords j) hsalt) hallowed ?_ hs⟩
      rintro rfl
      exact halone i _ he
    · refine ⟨fun _ => .looking, fun i => Registration.trackerKernel_discipline R, ?_, hterminated,
        OneWinner.looking fun _ => rfl⟩
      exact funext hlooking
  obtain ⟨st, hfollows, hI⟩ := hkept
  have hrecorded : ∀ i, c.thread i = .ret (some ['1']) → st i = .recorded := by
    intro i hi
    have hfollows := hfollows i
    rw [hi, Prog.follows_ret] at hfollows
    exact hfollows rfl
  refine ⟨fun i j hi hj => ?_, hI.winner.countP_le hone, fun i hi => ?_⟩
  · apply hI.winner.alone
    · rw [hrecorded i hi]
      rfl
    · rw [hrecorded j hj]
      rfl
  · exact Registration.inForce_record hname (hwords i) hsalt (hI.winner.won i (hrecorded i hi))

end Threads

/-! ### Schedules -/

/-- `LooksAlone` as a test of the state before the step. -/
def testAlone {n : ℕ} (R : Registration (Fin n))
    (c : Config callSig (Registrar (Fin n)) (Fin n) Reply) : Move (Fin n) Empty → Bool
  | .call i =>
    match c.thread i with
    | .call (.prim .memory) _ => decide (c.shared.attempt i = .looking →
        R.found c.shared.host.tracker.memory = false →
          (∀ l ∈ c.shared.host.disk.lines R.file, R.isFor l = false) ∧
            ∀ j, c.shared.attempt j ≠ .missed)
    | _ => true
  | .env m => m.elim

lemma looksAlone_of_test {n : ℕ} {R : Registration (Fin n)} {salt : Fin n → Str}
    {c c' : Config callSig (Registrar (Fin n)) (Fin n) Reply} {i : Fin n} {o : Call}
    {a : callAns o} (htest : testAlone R c (.call i) = true)
    (hs : Config.Step (registrarInterp salt R) NobodyElse c (.call i o a) c') :
    LooksAlone R c (.call i o a) c' := by
  obtain ⟨k, hnext, -⟩ := hs.next_op
  rw [testAlone, hnext] at htest
  intro i' m he
  cases he
  exact of_decide_eq_true htest

/-- Two handlers create the user `a`, with different passwords. -/
def twoAccounts : Registration (Fin 2) :=
  .account "a".toList (fun i => if i = 0 then "p".toList else "q".toList)
    (fun _ => "1".toList) (fun _ => "ip".toList)

/-- A tracker without files. -/
def Registrar.initial : Registrar (Fin 2) where
  host := { tracker := .initial, siblingOnline := false }

theorem registered_once_twoAccounts : ∃ c : Config callSig (Registrar (Fin 2)) (Fin 2) Reply,
    Config.RunsWhen (registrarInterp (fun _ => generateSalt (List.replicate 16 0)) twoAccounts)
        NobodyElse (LooksAlone twoAccounts)
        (Registrar.initial.start (hashPassword fun _ => zerosDigest) twoAccounts) c ∧
      c.thread 0 = .ret (some ['1']) ∧ c.thread 1 = .ret (some ['0']) ∧
      c.shared.host.disk.credential "a".toList ≠ none := by
  let schedule : List (Fin 2) := List.replicate 17 0 ++ List.replicate 2 1
  let run := (Registrar.initial.start (hashPassword fun _ => zerosDigest) twoAccounts).play
    (registrarInterp (fun _ => generateSalt (List.replicate 16 0)) twoAccounts)
    (fun m : Empty => m.elim) (testAlone twoAccounts) (schedule.map .call)
  have hplayed : (run.any fun c => decide ((c.thread 0).returned = some (some ['1'])) &&
      decide ((c.thread 1).returned = some (some ['0']))) = true := by
    decide +kernel
  obtain ⟨c, hc, hend⟩ := (Option.any_eq_true _ _).mp hplayed
  rw [Bool.and_eq_true, decide_eq_true_eq, decide_eq_true_eq, Prog.returned_eq_some,
    Prog.returned_eq_some] at hend
  have hrun : Config.RunsWhen
      (registrarInterp (fun _ => generateSalt (List.replicate 16 0)) twoAccounts) NobodyElse
      (LooksAlone twoAccounts)
      (Registrar.initial.start (hashPassword fun _ => zerosDigest) twoAccounts) c :=
    Config.play_runsWhen (P := fun _ => True) (fun m => m.elim) (fun _ _ _ _ _ _ => trivial)
    (fun _ _ _ _ _ ht _ hs => looksAlone_of_test ht hs) (fun _ m => m.elim) hc trivial
  have hreceived : ∀ i, ∃ message, Request.parse message = .client (twoAccounts.command i) :=
    Fin.forall_fin_two.mpr ⟨⟨"create_user a p 1 ip".toList, rfl⟩,
      ⟨"create_user a q 1 ip".toList, rfl⟩⟩
  obtain ⟨-, -, hforce⟩ := registered_once (R := twoAccounts) (s := .initial) (by decide)
    hreceived (fun _ => rfl) terminated_nil (by decide) hrun
  refine ⟨c, hrun, hend.1, hend.2, ?_⟩
  rw [show c.shared.host.disk.credential "a".toList = _ from hforce 0 hend.1]
  exact Option.some_ne_none _

/-- Both handlers look before either of them appends. -/
theorem name_registered_twice : ∃ c : Config callSig (Registrar (Fin 2)) (Fin 2) Reply,
    Config.Runs (registrarInterp (fun _ => generateSalt (List.replicate 16 0)) twoAccounts)
        NobodyElse (Registrar.initial.start (hashPassword fun _ => zerosDigest) twoAccounts) c ∧
      c.thread 0 = .ret (some ['1']) ∧ c.thread 1 = .ret (some ['1']) ∧
      (c.shared.host.disk.lines credentialFile).countP twoAccounts.isFor = 2 := by
  let schedule : List (Fin 2) := [0, 0, 1, 1] ++ List.replicate 15 0 ++ List.replicate 15 1
  let run := (Registrar.initial.start (hashPassword fun _ => zerosDigest) twoAccounts).play
    (registrarInterp (fun _ => generateSalt (List.replicate 16 0)) twoAccounts)
    (fun m : Empty => m.elim) (fun _ _ => true) (schedule.map .call)
  have hplayed : (run.any fun c => decide ((c.thread 0).returned = some (some ['1'])) &&
      decide ((c.thread 1).returned = some (some ['1'])) &&
      decide ((c.shared.host.disk.lines credentialFile).countP twoAccounts.isFor = 2)) = true := by
    decide +kernel
  obtain ⟨c, hc, hend⟩ := (Option.any_eq_true _ _).mp hplayed
  rw [Bool.and_eq_true, Bool.and_eq_true, decide_eq_true_eq, decide_eq_true_eq, decide_eq_true_eq,
    Prog.returned_eq_some, Prog.returned_eq_some] at hend
  exact ⟨c, Config.play_runs (fun m => m.elim) hc, hend.1.1, hend.1.2, hend.2⟩

end TorrentShare
