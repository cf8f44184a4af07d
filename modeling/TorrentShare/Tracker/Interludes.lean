import TorrentShare.Replication.OneTracker
import TorrentShare.Tracker.Refusals

/-!
# Queries between commands

A sequence of commands is processed by a tracker with queries between them, and by another one
without them. The queries leave the files as they are, but they reload the tables, and the handlers
that do not reload them may decide on older ones where the queries are missing.
-/

namespace TorrentShare

open Program

/-- The commands that are no queries. -/
def withoutQueries (turns : List Turn) : List Turn := turns.filter fun r => !r.command.isQuery

/-- The replies to these. -/
def otherReplies (turns : List Turn) (replies : List Reply) : List Reply :=
  ((turns.zip replies).filter fun x => !x.1.command.isQuery).map Prod.snd

section Interludes

variable {hashPassword : Str → Str → Str}

/-- A handler that looks into the tables without a reload decides the same at both trackers. What
    `join_group` looks for after it has found a member does not matter. -/
def SameDecision (t u : Tracker) : Command → Prop
  | .joinGroup g v => t.memory.SameLookups u.memory (.joinGroup g v) ∨
      t.memory.groups.lookup g = u.memory.groups.lookup g ∧ v ∈ t.disk.members g
  | c              => t.memory.SameLookups u.memory c

/-- The condition on a run with queries beside the run without them: no query reads a record that
    is too short, and no handler decides on tables that differ from those of the other run. -/
def Undisturbed (hashPassword : Str → Str → Str) : Tracker → Tracker → List Turn → Prop
  | _, _, []      => True
  | t, u, r :: rs =>
    if r.command.isQuery then
      ∃ x, serve hashPassword t false r.salt r.command = some x ∧
        Undisturbed hashPassword x.2.1 u rs
    else
      SameDecision t u r.command ∧
        ∀ x y, serve hashPassword t false r.salt r.command = some x →
          serve hashPassword u false r.salt r.command = some y →
            Undisturbed hashPassword x.2.1 y.2.1 rs

/-! ### One command -/

/-- A call of a query does not write. -/
lemma Call.reads.not_writes {o : Call} (h : o.reads) : o.writes = false := by
  cases o with
  | prim o =>
    cases o with
    | append p c => exact h.elim
    | create p c => exact h.elim
    | remove p => exact h.elim
    | rename p q => exact h.elim
    | _ => rfl
  | rewrite mode p drop => exact h.elim
  | _ => rfl

/-- A query leaves the texts of the files. -/
lemma serve_query {t : Tracker} {online : Bool} {salt : Str} {c : Command}
    {x : Reply × Tracker × List (Path × Str)} (hc : c.isQuery = true)
    (h : serve hashPassword t online salt c = some x) (p : Path) :
    x.2.1.disk.text p = t.disk.text p := by
  obtain ⟨⟨r, s⟩, hrun, rfl⟩ := Option.map_eq_some_iff.mp h
  obtain ⟨-, -, htext⟩ := Prog.Follows.run
    (R := fun (_ : Unit) s => ∀ p, s.disk.text p = t.disk.text p)
    (fun o _ s a s' ho hs hstep =>
      ⟨trivial, fun p => (text_of_not_writes (Call.reads.not_writes ho) hstep p).trans (hs p)⟩)
    (trackerKernel_reads hashPassword hc) (fun _ => rfl) hrun
  exact htext p

lemma Memory.SameLookups.symm {m m' : Memory} {c : Command} (h : m.SameLookups m' c) :
    m'.SameLookups m c := by
  cases c with
  | joinGroup g u =>
    refine ⟨h.1.symm, fun o ho => ?_⟩
    obtain ⟨honline, hpending⟩ := h.2 o (h.1.trans ho)
    exact ⟨honline.symm, fun hoff => (hpending fun hon => hoff (honline.mp hon)).symm⟩
  | acceptRequest g u a => exact Iff.symm h
  | uploadFile hash size g u f p => exact Iff.symm h
  | stopShare g f u => exact Iff.symm h
  | leaveGroup g u => exact Eq.symm h
  | _ => trivial

/-- A command at two trackers with equal files and the same lookups: either both of them crash, or
    they reply the same and have equal files again. -/
lemma serve_sameLookups {t u : Tracker} {salt : Str} {c : Command}
    (htext : ∀ p, t.disk.text p = u.disk.text p) (htemp : u.disk.text tempFile = [])
    (hlookups : t.memory.SameLookups u.memory c) :
    serve hashPassword t false salt c = none ∧ serve hashPassword u false salt c = none ∨
      ∃ x y, serve hashPassword t false salt c = some x ∧
        serve hashPassword u false salt c = some y ∧ x.1 = y.1 ∧
        (∀ p, x.2.1.disk.text p = y.2.1.disk.text p) ∧ y.2.1.disk.text tempFile = [] := by
  cases ht : serve hashPassword t false salt c with
  | some x =>
    obtain ⟨u', sent', hu, htext', htemp'⟩ := serve_asOne htext htemp hlookups ht
    exact Or.inr ⟨x, _, rfl, hu, rfl, htext', htemp'⟩
  | none =>
    left
    refine ⟨rfl, ?_⟩
    by_contra hne
    obtain ⟨y, hu⟩ := Option.ne_none_iff_exists'.mp hne
    obtain ⟨t', sent', ht', -⟩ := serve_asOne (fun p => (htext p).symm)
      ((htext tempFile).trans htemp) hlookups.symm hu
    cases ht.symm.trans ht'

/-- A member who asks to join is told whether the tracker knows the group. -/
lemma serve_joinGroup_member (hashPassword : Str → Str → Str) (salt : Str) {t : Tracker}
    {g v : Str} (hv : v ∈ t.disk.members g) : ∃ t' sent,
      serve hashPassword t false salt (.joinGroup g v) =
        some (some (if t.memory.groups.lookup g = none then ['0'] else ['1']), t', sent) ∧
      t'.disk = t.disk := by
  let s : Session := ⟨t, salt, false, []⟩
  cases hg : t.memory.groups.lookup g with
  | none =>
    refine ⟨t, [], ?_, rfl⟩
    have hrun : (groupJoin g v).run callInterp s = some (false, s) := by
      rw [groupJoin, run_memory_bind, show s.memory.groups.lookup g = none from hg]
      rfl
    rw [serve, trackerKernel, answer, Prog.run_bind, hrun]
    rfl
  | some owner =>
    let s' := s.setMemory { s.memory with groupMembers := s.disk.members g }
    refine ⟨s'.tracker, [], ?_, rfl⟩
    have hrun : (groupJoin g v).run callInterp s = some (true, s') := by
      rw [groupJoin, run_memory_bind, show s.memory.groups.lookup g = some owner from hg]
      simp only
      rw [run_fetchGroupMembers_bind, run_memory_bind,
        if_pos (show v ∈ s'.memory.groupMembers from hv)]
      rfl
    rw [serve, trackerKernel, answer, Prog.run_bind, hrun]
    rfl

/-- A command that is decided the same at both trackers. -/
lemma serve_both (hashPassword : Str → Str → Str) (salt : Str) {t u : Tracker} {c : Command}
    (htext : ∀ p, t.disk.text p = u.disk.text p) (htemp : u.disk.text tempFile = [])
    (h : SameDecision t u c) :
    serve hashPassword t false salt c = none ∧ serve hashPassword u false salt c = none ∨
      ∃ x y, serve hashPassword t false salt c = some x ∧
        serve hashPassword u false salt c = some y ∧ x.1 = y.1 ∧
        (∀ p, x.2.1.disk.text p = y.2.1.disk.text p) ∧ y.2.1.disk.text tempFile = [] := by
  cases c with
  | joinGroup g v =>
    rcases h with hlookups | ⟨hgroups, hv⟩
    · exact serve_sameLookups htext htemp hlookups
    · have hmembers : u.disk.members g = t.disk.members g := by
        rw [Disk.members, Disk.members, Disk.lines, Disk.lines, htext]
      obtain ⟨t', sent, ht, htdisk⟩ := serve_joinGroup_member hashPassword salt hv
      obtain ⟨u', sent', hu, hudisk⟩ :=
        serve_joinGroup_member hashPassword salt (hmembers ▸ hv)
      refine Or.inr ⟨_, _, ht, hu, by rw [hgroups], fun p => ?_, ?_⟩
      · rw [htdisk, hudisk, htext]
      · rw [hudisk, htemp]
  | _ => exact serve_sameLookups htext htemp h

/-! ### A sequence of commands -/

/-- The two runs, side by side. -/
lemma serveAll_withoutQueries {t u : Tracker} {turns : List Turn}
    (htext : ∀ p, t.disk.text p = u.disk.text p) (htemp : u.disk.text tempFile = [])
    (h : Undisturbed hashPassword t u turns) :
    (serveAll hashPassword t turns).map (fun x => otherReplies turns x.1) =
      (serveAll hashPassword u (withoutQueries turns)).map Prod.fst ∧
    ∀ x y, serveAll hashPassword t turns = some x →
      serveAll hashPassword u (withoutQueries turns) = some y →
        ∀ p, x.2.disk.text p = y.2.disk.text p := by
  induction turns generalizing t u with
  | nil =>
    refine ⟨rfl, fun x y hx hy => ?_⟩
    cases hx
    cases hy
    exact htext
  | cons r rs ih =>
    rw [Undisturbed] at h
    split_ifs at h with hquery
    · obtain ⟨x, hx, hrest⟩ := h
      have hskip : withoutQueries (r :: rs) = withoutQueries rs := by
        simp [withoutQueries, hquery]
      have htext' : ∀ p, x.2.1.disk.text p = u.disk.text p :=
        fun p => (serve_query hquery hx p).trans (htext p)
      obtain ⟨hreplies, hfiles⟩ := ih htext' htemp hrest
      rw [hskip, serveAll, hx, Option.bind_some]
      refine ⟨?_, fun z y hz hy => ?_⟩
      · rw [← hreplies, Option.map_map]
        congr 1
        funext z
        simp [otherReplies, hquery]
      · obtain ⟨z', hz', rfl⟩ := Option.map_eq_some_iff.mp hz
        exact hfiles z' y hz' hy
    · obtain ⟨hdecision, hrest⟩ := h
      have hkeep : withoutQueries (r :: rs) = r :: withoutQueries rs := by
        simp [withoutQueries, hquery]
      rw [hkeep, serveAll, serveAll]
      rcases serve_both hashPassword r.salt htext htemp hdecision with
        ⟨ht, hu⟩ | ⟨x, y, ht, hu, hreply, htext', htemp'⟩
      · rw [ht, hu]
        exact ⟨rfl, fun x y hx => by cases hx⟩
      · obtain ⟨hreplies, hfiles⟩ := ih htext' htemp' (hrest x y ht hu)
        rw [ht, hu, Option.bind_some, Option.bind_some]
        refine ⟨?_, fun z w hz hw => ?_⟩
        · rw [Option.map_map, Option.map_map, hreply]
          have hcons := congrArg (Option.map (y.1 :: ·)) hreplies
          rw [Option.map_map, Option.map_map] at hcons
          refine Eq.trans ?_ hcons
          congr 1
          funext z
          simp [otherReplies, hquery]
        · obtain ⟨z', hz', rfl⟩ := Option.map_eq_some_iff.mp hz
          obtain ⟨w', hw', rfl⟩ := Option.map_eq_some_iff.mp hw
          exact hfiles z' w' hz' hw'

/-- In every run in which no query crashes and no handler decides on tables that differ from those
    of the run without the queries, the other commands get the same replies and the files are the
    same. -/
theorem queries_without_effect {turns : List Turn}
    (h : Undisturbed hashPassword Tracker.initial Tracker.initial turns) :
    (serveAll hashPassword Tracker.initial turns).map (fun x => otherReplies turns x.1) =
      (serveAll hashPassword Tracker.initial (withoutQueries turns)).map Prod.fst ∧
    ∀ x y, serveAll hashPassword Tracker.initial turns = some x →
      serveAll hashPassword Tracker.initial (withoutQueries turns) = some y →
        ∀ p, x.2.disk.text p = y.2.disk.text p :=
  serveAll_withoutQueries (fun _ => rfl) rfl h

end Interludes

/-- A request for a new group, after a look at the groups. -/
def listedAndJoined : List Turn :=
  [⟨.first, .createGroup "g".toList "o".toList, []⟩, ⟨.first, .listGroups, []⟩,
   ⟨.first, .joinGroup "g".toList "u".toList, []⟩]

lemma listedAndJoined_undisturbed :
    Undisturbed (fun _ p => p) Tracker.initial Tracker.initial listedAndJoined := by
  have hcheck : (serve (fun _ p => p) Tracker.initial false []
        (.createGroup "g".toList "o".toList)).all (fun x =>
      (serve (fun _ p => p) x.2.1 false [] .listGroups).any
        fun z => decide (z.2.1.memory.groups = x.2.1.memory.groups ∧
          z.2.1.memory.online = x.2.1.memory.online ∧
          z.2.1.memory.pendingGroupRequests = x.2.1.memory.pendingGroupRequests)) = true := by
    decide +kernel
  refine ⟨trivial, fun x y hx hy => ?_⟩
  obtain rfl := Option.some.inj (hx.symm.trans hy)
  rw [show serve _ _ _ _ _ = _ from hx, Option.all_some] at hcheck
  obtain ⟨z, hz, hcheck⟩ := (Option.any_eq_true _ _).mp hcheck
  obtain ⟨hgroups, honline, hpending⟩ := of_decide_eq_true hcheck
  refine ⟨z, hz, Or.inl ⟨by rw [hgroups], fun o _ => ⟨by rw [honline], fun _ => ?_⟩⟩, ?_⟩
  · rw [hpending]
  · exact fun _ _ _ _ => trivial

theorem queries_without_effect_once :
    (serveAll (fun _ p => p) Tracker.initial listedAndJoined).map
        (fun x => otherReplies listedAndJoined x.1) =
      (serveAll (fun _ p => p) Tracker.initial (withoutQueries listedAndJoined)).map Prod.fst ∧
    ∀ x y, serveAll (fun _ p => p) Tracker.initial listedAndJoined = some x →
      serveAll (fun _ p => p) Tracker.initial (withoutQueries listedAndJoined) = some y →
        ∀ p, x.2.disk.text p = y.2.disk.text p :=
  queries_without_effect listedAndJoined_undisturbed

/-- The owner accepts a request twice, and looks at the groups in between. -/
def acceptedTwice : List Turn :=
  [⟨.first, .createUser "o".toList "p".toList "1".toList "ip".toList, []⟩,
   ⟨.first, .createUser "u".toList "p".toList "1".toList "ip".toList, []⟩,
   ⟨.first, .createGroup "g".toList "o".toList, []⟩,
   ⟨.first, .joinGroup "g".toList "u".toList, []⟩,
   ⟨.first, .acceptRequest "g".toList "u".toList "o".toList, []⟩,
   ⟨.first, .listGroups, []⟩,
   ⟨.first, .acceptRequest "g".toList "u".toList "o".toList, []⟩]

/-- The accepted request stays in the table until a query reloads it. -/
theorem accepted_twice_unless_listed :
    (serveAll (fun _ p => p) Tracker.initial acceptedTwice).map
        (fun x => otherReplies acceptedTwice x.1) =
      some (List.replicate 5 (some ['1']) ++ [some ['0']]) ∧
    (serveAll (fun _ p => p) Tracker.initial (withoutQueries acceptedTwice)).map Prod.fst =
      some (List.replicate 5 (some ['1']) ++ [some ['1']]) := by
  decide +kernel

end TorrentShare
