import TorrentShare.Replication.Pair
import TorrentShare.Tracker.Lookups

/-!
# The pair as one tracker

A sequence of commands is sent to the two trackers, each command to either of them, and the same
sequence to a single tracker. As long as no handler looks into tables that are out of date, the
replies and the files are the same.
-/

namespace TorrentShare

open Program

/-- A sequence of commands at a single tracker, and the replies to them. -/
def serveAll (hashPassword : Str → Str → Str) : Tracker → List Turn → Option (List Reply × Tracker)
  | t, []      => some ([], t)
  | t, r :: rs => (serve hashPassword t false r.salt r.command).bind fun x =>
      (serveAll hashPassword x.2.1 rs).map fun y => (x.1 :: y.1, y.2)

/-! ### One command -/

/-- A reload from equal files gives the same tables. -/
lemma load_withMembers (m : Memory) (x : List Str) (d : Disk) :
    Memory.load { m with groupMembers := x } d =
      (m.load d).map fun n => { n with groupMembers := x } := by
  let f : Memory → Memory := fun m => { m with groupMembers := x }
  have hcredentials : ∀ (es : List (Str × Str)) m, es.foldl Memory.addCredential (f m)
      = f (es.foldl Memory.addCredential m) := fun es m => List.foldl_hom f fun _ _ => rfl
  have honline : ∀ (es : List (Str × Str × Str)) m, es.foldl Memory.addOnline (f m)
      = f (es.foldl Memory.addOnline m) := fun es m => List.foldl_hom f fun _ _ => rfl
  have hgroups : ∀ (es : List (Str × Str)) m, es.foldl Memory.addGroup (f m)
      = f (es.foldl Memory.addGroup m) := fun es m => List.foldl_hom f fun _ _ => rfl
  have hpending : ∀ (es : List (Str × Str)) m, es.foldl Memory.addPending (f m)
      = f (es.foldl Memory.addPending m) := fun es m => List.foldl_hom f fun _ _ => rfl
  simp only [Memory.load]
  rw [show { m with groupMembers := x } = f m from rfl, hcredentials]
  cases (d.lines onlineFile).mapM fun l => onlineFields (split l ' ') with
  | none => rfl
  | some online =>
    cases (d.lines groupFile).mapM fun l => groupFields (split l ' ') with
    | none => rfl
    | some groups =>
      simp only [Option.bind_some, Option.map_some, honline, hgroups, hpending]
      rfl

lemma reload_sameTables {d d' : Disk} {m n : Memory} (m' : Memory)
    (htext : ∀ p, d.text p = d'.text p) (h : m.reload d = some n) :
    ∃ n', m'.reload d' = some n' ∧ n.SameTables n' := by
  have hload : ∀ k : Memory, k.load d' = k.load d := by
    intro k
    simp only [Memory.load, Disk.lines, htext]
  refine ⟨{ n with groupMembers := m'.groupMembers }, ?_, m'.groupMembers, rfl⟩
  have hclear : m'.clear = { m.clear with groupMembers := m'.groupMembers } := rfl
  rw [Memory.reload, hload, hclear, load_withMembers, show m.clear.load d = some n from h]
  rfl

/-- Two runs of a handler, one at a tracker of the pair and one at the single tracker. -/
structure AsOne (e : Memory → Memory → Prop) (s t : Session) : Prop where
  alone : t.siblingOnline = false
  salt : s.salt = t.salt
  text : ∀ p, s.disk.text p = t.disk.text p
  temp : t.disk.text tempFile = []
  memory : e s.memory t.memory

section AsOne

variable {e : Memory → Memory → Prop} {s t : Session}

lemma AsOne.lines (h : AsOne e s t) (p : Path) : s.disk.lines p = t.disk.lines p := by
  rw [Disk.lines, h.text]
  rfl

lemma AsOne.members (h : AsOne e s t) (g : Str) : s.disk.members g = t.disk.members g := by
  rw [Disk.members, h.lines]
  rfl

lemma AsOne.setDisk {d d' : Disk} (h : AsOne e s t) (htext : ∀ p, d.text p = d'.text p)
    (htemp : d'.text tempFile = []) : AsOne e (s.setDisk d) (t.setDisk d') :=
  ⟨h.alone, h.salt, htext, htemp, h.memory⟩

lemma AsOne.create {p : Path} {c c' : Str} (h : AsOne e s t) (hp : cStr p ≠ tempFile)
    (hc : c = c') : AsOne e (s.setDisk (s.disk.create p c)) (t.setDisk (t.disk.create p c')) := by
  refine h.setDisk (fun q => ?_) ?_
  · rw [Disk.text_create, Disk.text_create, hc, h.text]
  · rw [Disk.text_create_of_ne _ _ fun he => hp he.symm]
    exact h.temp

lemma AsOne.rewritten {mode : OpenMode} {p : Path} {drop : Str → Option Bool} {kept : List Str}
    (h : AsOne e s t) (hp : cStr p ≠ tempFile)
    (hkept : keptLines drop (t.disk.lines p) = some kept) :
    AsOne e (s.setDisk (s.disk.rewritten mode p kept))
      (t.setDisk (t.disk.rewritten mode p kept)) := by
  have htemp := Disk.text_rewritten_temp t.disk mode hp hkept h.temp
  have hs : s.disk.text tempFile = [] := by rw [h.text, h.temp]
  refine h.setDisk (fun q => ?_) htemp
  by_cases hq : cStr q = cStr p
  · rw [Disk.text_rewritten_self _ _ hq hp hs, Disk.text_rewritten_self _ _ hq hp h.temp]
  · by_cases ht : cStr q = tempFile
    · rw [Disk.text_congr (q := tempFile) _ ht, Disk.text_congr (q := tempFile) _ ht, htemp]
      exact Disk.text_rewritten_temp s.disk mode hp (h.lines p ▸ hkept) hs
    · rw [Disk.text_rewritten_of_ne _ _ _ hq ht, Disk.text_rewritten_of_ne _ _ _ hq ht, h.text]

/-- The step lemma. -/
lemma AsOne.step (o : Call) {a : callAns o} {s' : Session} (ho : o.sparesTemp)
    (h : AsOne e s t) (hs : callInterp o s = some (a, s')) :
    ∃ b t', callInterp o t = some (b, t') ∧ sameFiles.alike o e a b ∧
      AsOne (sameFiles.next o a b e) s' t' := by
  cases o with
  | prim o =>
    rw [callInterp_prim] at hs ⊢
    cases o with
    | sync p =>
      obtain ⟨sent, rfl⟩ := primInterp_sync hs
      refine ⟨(), t, by simp [primInterp, Session.sync, h.alone], trivial, ?_⟩
      exact ⟨h.alone, h.salt, h.text, h.temp, h.memory⟩
    | append p c =>
      cases hs
      exact ⟨(), _, rfl, trivial, h.create ho (by rw [h.text])⟩
    | create p c =>
      cases hs
      exact ⟨(), _, rfl, trivial, h.create ho rfl⟩
    | remove p => exact ho.elim
    | rename p q => exact ho.elim
    | modify f =>
      cases hs
      exact ⟨(), _, rfl, trivial, h.alone, h.salt, h.text, h.temp, _, _, h.memory, rfl, rfl⟩
    | memory =>
      cases hs
      exact ⟨_, _, rfl, h.memory, h.alone, h.salt, h.text, h.temp, rfl, rfl⟩
    | read p =>
      cases hs
      exact ⟨_, _, rfl, h.text p, h⟩
    | generateSalt =>
      cases hs
      exact ⟨_, _, rfl, h.salt, h⟩
    | lock =>
      cases hs
      exact ⟨(), _, rfl, trivial, h⟩
    | unlock =>
      cases hs
      exact ⟨(), _, rfl, trivial, h⟩
    | fault => cases hs
  | fetchDetails =>
    simp only [callInterp_fetchDetails, Option.map_eq_some_iff, Prod.mk.injEq] at hs
    obtain ⟨m, hm, -, rfl⟩ := hs
    obtain ⟨m', hm', hsame⟩ := reload_sameTables t.memory h.text hm
    refine ⟨(), (t.setDisk t.disk.reloaded).setMemory m', ?_, trivial, h.alone, h.salt,
      fun p => ?_, ?_, hsame⟩
    · rw [callInterp_fetchDetails, hm']
      rfl
    · simp only [Session.disk_setMemory, Session.disk_setDisk, Disk.text_reloaded, h.text]
    · simp only [Session.disk_setMemory, Session.disk_setDisk, Disk.text_reloaded, h.temp]
  | fetchGroupMembers g =>
    rw [callInterp_fetchGroupMembers] at hs ⊢
    cases hs
    refine ⟨(), _, rfl, trivial, h.alone, h.salt, h.text, h.temp, _, _, _, h.memory, rfl, ?_⟩
    rw [h.members]
    rfl
  | rewrite mode p drop =>
    simp only [callInterp_rewrite, Option.map_eq_some_iff, Prod.mk.injEq] at hs
    obtain ⟨ks, hks, -, rfl⟩ := hs
    have hks' : keptLines drop (t.disk.lines p) = some ks := h.lines p ▸ hks
    refine ⟨(), t.setDisk (t.disk.rewritten mode p ks), ?_, trivial, h.rewritten ho hks'⟩
    rw [callInterp_rewrite, hks']
    rfl

end AsOne

/-! ### One command, and a sequence of commands -/

section Runs

variable {hashPassword : Str → Str → Str}

lemma trackerKernel_sparesTemp (c : Command) :
    (trackerKernel hashPassword c).Only Call.sparesTemp :=
  Prog.Follows.only (fun _ _ h => h) (fun _ _ => trivial) (trackerKernel_sendsAll hashPassword c)

/-- A command at two trackers with equal files and the same lookups. -/
lemma serve_asOne {t u t' : Tracker} {online : Bool} {salt : Str} {c : Command} {reply : Reply}
    {sent : List (Path × Str)} (htext : ∀ p, t.disk.text p = u.disk.text p)
    (htemp : u.disk.text tempFile = []) (hlookups : t.memory.SameLookups u.memory c)
    (h : serve hashPassword t online salt c = some (reply, t', sent)) :
    ∃ u' sent', serve hashPassword u false salt c = some (reply, u', sent') ∧
      (∀ p, t'.disk.text p = u'.disk.text p) ∧ u'.disk.text tempFile = [] := by
  simp only [serve, Option.map_eq_some_iff, Prod.mk.injEq] at h
  obtain ⟨⟨r, s⟩, hrun, rfl, rfl, -⟩ := h
  have hstart : AsOne (fun m m' => m.SameLookups m' c) ⟨t, salt, online, []⟩ ⟨u, salt, false, []⟩ :=
    ⟨rfl, rfl, htext, htemp, hlookups⟩
  obtain ⟨e, s', hrun', hs'⟩ := Prog.Uniform.run (R := AsOne)
    (fun o g s t a s' ho hR hs => hR.step o ho hs) (trackerKernel_sparesTemp c)
    (trackerKernel_uniform hashPassword c) hstart hrun
  exact ⟨s'.tracker, s'.sent, by rw [serve, hrun']; rfl, hs'.text, hs'.temp⟩

/-- The condition on a run of the pair beside a run of the single tracker: whenever a handler
    looks into the tables without a reload, its lookups have the same results at both. -/
def UpToDate (hashPassword : Str → Str → Str) : Pair → Tracker → List Turn → Prop
  | _, _, []      => True
  | P, t, r :: rs => (P r.side).memory.SameLookups t.memory r.command ∧
      ∀ x y, process hashPassword P r = some x →
        serve hashPassword t false r.salt r.command = some y →
          UpToDate hashPassword x.2 y.2.1 rs

end Runs

/-- A tracker without files. -/
def freshTracker : Tracker := ⟨Disk.empty, {}⟩

/-- A group and a request at one tracker, and the list of requests at the other. -/
def groupAndRequest : List Turn :=
  [⟨.first, .createGroup "g".toList "o".toList, []⟩, ⟨.first, .joinGroup "g".toList "u".toList, []⟩,
   ⟨.second, .listRequests "g".toList "o".toList, []⟩]

lemma groupAndRequest_upToDate :
    UpToDate (fun _ p => p) freshTrackers freshTracker groupAndRequest := by
  have hcheck : (process (fun _ p => p) freshTrackers
        ⟨.first, .createGroup "g".toList "o".toList, []⟩).all (fun x =>
      (serve (fun _ p => p) freshTracker false [] (.createGroup "g".toList "o".toList)).all
        fun y => decide ((x.2 .first).memory.groups = y.2.1.memory.groups ∧
          (x.2 .first).memory.online = y.2.1.memory.online ∧
          (x.2 .first).memory.pendingGroupRequests =
            y.2.1.memory.pendingGroupRequests)) = true := by
    decide +kernel
  refine ⟨trivial, fun x y hx hy => ⟨?_, fun _ _ _ _ => ⟨trivial, fun _ _ _ _ => trivial⟩⟩⟩
  rw [hx, Option.all_some, show serve _ _ _ _ _ = _ from hy, Option.all_some,
    decide_eq_true_eq] at hcheck
  obtain ⟨hgroups, honline, hpending⟩ := hcheck
  refine ⟨by rw [hgroups], fun o _ => ⟨by rw [honline], fun _ => by rw [hpending]⟩⟩

end TorrentShare
