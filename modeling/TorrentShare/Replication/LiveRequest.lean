import Mathlib.Logic.Relation
import TorrentShare.Replication.Pair
import TorrentShare.Tracker.Groups

/-!
# Membership needs a live request

Commands are processed one at a time at either tracker. Who becomes a member of a group that is
there was accepted by its owner, and on a request that still stands in `.pending.txt` as long as
the table of requests that `GroupAcceptRequest` looks into is not out of date.
-/

namespace TorrentShare

open Program

/-! ### What one command does to the groups -/

/-- A tracker whose files of groups consist of whole lines, whose table of groups is part of what
    the file says, and whose groups have members files of their own. -/
structure Tracker.Sound (t : Tracker) : Prop where
  terminated : ∀ p, ofGroups p → Terminated (t.disk.text p)
  temp : t.disk.text tempFile = []
  cached : ∀ g o, t.memory.groups.lookup g = some o → t.disk.owner g = some o
  distinct : ∀ g g', t.disk.owner g ≠ none → t.disk.owner g' ≠ none →
    cStr (membersFile g) = cStr (membersFile g') → g = g'

/-- Soundness depends on the contents of files only. -/
lemma Tracker.Sound.of_text {t u : Tracker} (h : t.Sound)
    (htext : ∀ p, u.disk.text p = t.disk.text p)
    (hcached : ∀ g o, u.memory.groups.lookup g = some o → t.disk.owner g = some o) : u.Sound := by
  have howner : ∀ g, u.disk.owner g = t.disk.owner g := by
    intro g
    rw [Disk.owner, Disk.lines, htext]
    rfl
  refine ⟨fun p hp => ?_, ?_, fun g o hg => ?_, fun g g' hg hg' he => ?_⟩
  · rw [htext]
    exact h.terminated p hp
  · rw [htext]
    exact h.temp
  · rw [howner]
    exact hcached g o hg
  · rw [howner] at hg hg'
    exact h.distinct g g' hg hg' he

/-- A group that is created is not there yet. -/
def Command.createsOnly (c : Command) (d : Disk) : Prop :=
  ∀ g u, c = .createGroup g u → d.owner g = none

/-- Only `create_group` writes in `.group.txt`. -/
lemma Command.mayAt_groupFile {c : Command} {l : Str} (h : mayAt c.mayWrite groupFile l) :
    ∃ g u, c = .createGroup g u ∧ l = fields [g, u] := by
  obtain ⟨p, hp, hl⟩ := h
  have hp' : cStr p = groupFile := hp
  cases c with
  | createGroup g u =>
    rcases hl with ⟨-, hl⟩ | ⟨rfl, -⟩
    · exact ⟨g, u, rfl, hl⟩
    · exact absurd hp' (membersFile_ne_groupFile g)
  | acceptRequest g u a =>
    obtain ⟨rfl, -⟩ := hl
    exact absurd hp' (membersFile_ne_groupFile g)
  | uploadFile h s g u f p =>
    obtain ⟨rfl, -⟩ := hl
    exact absurd hp' (groupFilesFile_ne_groupFile g)
  | addFile g f p u =>
    obtain ⟨rfl, -⟩ := hl
    exact absurd hp' (groupFilesFile_ne_groupFile g)
  | _ => exact hl.elim

/-- A word is written in a members file by `create_group` and `accept_request` only. -/
lemma Command.mayAt_membersFile {c : Command} {g u : Str} (hu : IsWord u)
    (h : mayAt c.mayWrite (membersFile g) u) :
    ∃ g', cStr (membersFile g') = cStr (membersFile g) ∧
      (c = .createGroup g' u ∨ ∃ a, c = .acceptRequest g' u a) := by
  obtain ⟨p, hp, hl⟩ := h
  cases c with
  | createGroup g' u' =>
    rcases hl with ⟨rfl, -⟩ | ⟨rfl, rfl⟩
    · exact absurd hp.symm (membersFile_ne_groupFile g)
    · exact ⟨g', hp, Or.inl rfl⟩
  | acceptRequest g' u' a =>
    obtain ⟨rfl, rfl⟩ := hl
    exact ⟨g', hp, Or.inr ⟨a, rfl⟩⟩
  | uploadFile h s g' u' f p => exact absurd hl.2 hu.blank
  | addFile g' f p u' => exact absurd hl.2 hu.blank
  | _ => exact hl.elim

lemma groupFields_fields {g u : Str} (hg : IsWord g) (hu : IsWord u) :
    groupFields (split (fields [g, u]) ' ') = some (g, u) := by
  rw [split_fields (by simp) (by simp [hg.blank, hu.blank])]
  rfl

/-- The records a command adds, with the group that is created. -/
lemma Command.ownersOf_records {c : Command} {d : Disk} {ls : List Str}
    (hc : ∀ w ∈ c.args, IsWord w) (hls : ∀ l ∈ ls, mayAt c.mayWrite groupFile l) :
    ls = [] ∨ ∃ g u, c = .createGroup g u ∧ ∀ k, (ownersOf (d.lines groupFile ++ ls)).lookup k =
      if k = g then some u else d.owner k := by
  cases ls with
  | nil => exact Or.inl rfl
  | cons l ls =>
    obtain ⟨g, u, rfl, -⟩ := Command.mayAt_groupFile (hls l (List.mem_cons_self ..))
    refine Or.inr ⟨g, u, rfl, fun k => ?_⟩
    have hrecord : ∀ l' ∈ l :: ls, groupFields (split l' ' ') = some (g, u) := by
      intro l' hl'
      obtain ⟨g', u', he, rfl⟩ := Command.mayAt_groupFile (hls l' hl')
      cases he
      exact groupFields_fields (hc g (by simp [Command.args])) (hc u (by simp [Command.args]))
    rw [lookup_ownersOf_append hrecord]
    simp [Disk.owner]

lemma Command.keepsOwners {c : Command} {d : Disk} (hc : ∀ w ∈ c.args, IsWord w)
    (hnew : c.createsOnly d) : KeepsOwners c.mayWrite d := by
  intro ls ls' hmay g o howner
  rw [List.append_assoc]
  rcases Command.ownersOf_records (d := d) hc hmay with hnil | ⟨k, u, rfl, hall⟩
  · rw [List.append_eq_nil_iff] at hnil
    rw [hnil.1, List.append_nil] at howner
    rw [hnil.1, hnil.2]
    simpa using howner
  · rw [hall]
    have hls : ∀ l ∈ ls, mayAt (Command.createGroup k u).mayWrite groupFile l :=
      fun l hl => hmay l (List.mem_append_left _ hl)
    rcases Command.ownersOf_records (d := d) hc hls with rfl | ⟨k', u', he, hfirst⟩
    · rw [List.append_nil] at howner
      have hg : g ≠ k := by
        rintro rfl
        rw [← Disk.owner, hnew g u rfl] at howner
        cases howner
      rw [if_neg hg]
      exact howner
    · cases he
      rwa [hfirst] at howner

section Serve

variable {hashPassword : Str → Str → Str} {t t' : Tracker} {online : Bool} {salt : Str}
  {c : Command} {reply : Reply} {sent : List (Path × Str)}

/-- A command that creates no group that is there. -/
lemma serve_written (ht : t.Sound) (hc : ∀ w ∈ c.args, IsWord w) (hnew : c.createsOnly t.disk)
    (h : serve hashPassword t online salt c = some (reply, t', sent)) :
    ∃ s : Session, s.tracker = t' ∧ Written c.mayWrite t.disk s := by
  simp only [serve, Option.map_eq_some_iff, Prod.mk.injEq] at h
  obtain ⟨⟨r, s⟩, hrun, -, rfl, -⟩ := h
  have hstart : Written c.mayWrite t.disk ⟨t, salt, online, []⟩ :=
    ⟨ht.terminated, fun p _ l hl => Or.inl hl, ⟨[], (List.append_nil _).symm, by simp⟩, ht.temp,
      ht.cached⟩
  exact ⟨s, rfl, hstart.run (Command.keepsOwners hc hnew) (trackerKernel_regular _ hc) hrun⟩

/-- A group that is there is not created again. -/
lemma serve_createGroup_existing {g u : Str} (hg : t.disk.owner g ≠ none)
    (h : serve hashPassword t online salt (.createGroup g u) = some (reply, t', sent)) :
    (∀ p, t'.disk.text p = t.disk.text p) ∧
      t'.memory.groups = ownersOf (t.disk.lines groupFile) := by
  simp only [serve, Option.map_eq_some_iff, Prod.mk.injEq] at h
  obtain ⟨⟨r, s⟩, hrun, -, rfl, -⟩ := h
  obtain ⟨o, ho⟩ := Option.ne_none_iff_exists'.mp hg
  rw [trackerKernel, answer, Prog.run_bind, Option.bind_eq_some_iff] at hrun
  obtain ⟨⟨b, s'⟩, hcreate, hret⟩ := hrun
  cases hret
  rw [groupCreate, run_fetchDetails_bind, Option.bind_eq_some_iff] at hcreate
  obtain ⟨m, hm, hcreate⟩ := hcreate
  have hgroups := groups_reload hm
  have hlookup : m.groups.lookup g = some o := by
    rw [hgroups]
    exact ho
  rw [run_memory_bind, Session.memory_setMemory] at hcreate
  simp only [hlookup] at hcreate
  cases hcreate
  exact ⟨fun p => Disk.text_reloaded t.disk p, hgroups⟩

/-- The checks of `GroupAcceptRequest`, on the tables in memory and on the members file. -/
def Tracker.accepts (t : Tracker) (g u a : Str) : Prop :=
  t.memory.groups.lookup g = some a ∧ t.memory.credentials.lookup u ≠ none ∧
    (u, g) ∈ t.memory.pendingGroupRequests ∧ u ∉ t.disk.members g

/-- A request that does not pass the checks changes no file. -/
lemma serve_acceptRequest {g u a : Str} (hcheck : ¬ t.accepts g u a)
    (h : serve hashPassword t online salt (.acceptRequest g u a) = some (reply, t', sent)) :
    t'.disk = t.disk := by
  simp only [serve, Option.map_eq_some_iff, Prod.mk.injEq] at h
  obtain ⟨⟨r, s⟩, hrun, -, rfl, -⟩ := h
  rw [trackerKernel, answer, Prog.run_bind, Option.bind_eq_some_iff] at hrun
  obtain ⟨⟨b, s'⟩, haccept, hret⟩ := hrun
  cases hret
  rw [groupAcceptRequest, run_memory_bind] at haccept
  split_ifs at haccept with htables
  · cases haccept
    rfl
  · simp only [not_or, not_not] at htables
    rw [run_fetchGroupMembers_bind, run_memory_bind] at haccept
    split_ifs at haccept with hmember
    · cases haccept
      rfl
    · exact absurd ⟨htables.1, htables.2.1, htables.2.2, hmember⟩ hcheck

/-- The condition on a step: a request that `GroupAcceptRequest` accepts from its table still
    stands in the file, and a new group does not get the members file of another one. -/
def Tracker.upToDate (t : Tracker) : Command → Prop
  | .acceptRequest g u a => t.accepts g u a → fields [u, g] ∈ t.disk.lines pendingFile
  | .createGroup g _     => t.disk.owner g = none → ∀ g', t.disk.owner g' ≠ none →
      cStr (membersFile g') ≠ cStr (membersFile g)
  | _                    => True

/-- A sound tracker stays sound, and its groups keep their owners. -/
lemma serve_sound (ht : t.Sound) (hc : ∀ w ∈ c.args, IsWord w) (hup : t.upToDate c)
    (h : serve hashPassword t online salt c = some (reply, t', sent)) :
    t'.Sound ∧ ∀ g o, t.disk.owner g = some o → t'.disk.owner g = some o := by
  by_cases hnew : c.createsOnly t.disk
  · obtain ⟨s, rfl, hs⟩ := serve_written ht hc hnew h
    obtain ⟨ls, hls, hmay⟩ := hs.records
    have howner : ∀ k, s.tracker.disk.owner k =
        (ownersOf (t.disk.lines groupFile ++ ls)).lookup k :=
      fun k => by rw [← hls]; rfl
    rcases Command.ownersOf_records (d := t.disk) hc hmay with rfl | ⟨g, u, rfl, hall⟩
    · have hsame : ∀ k, s.tracker.disk.owner k = t.disk.owner k := by
        intro k
        rw [howner, List.append_nil]
        rfl
      refine ⟨⟨hs.terminated, hs.temp, hs.cached, fun g g' hg hg' he => ?_⟩, fun g o hg => ?_⟩
      · rw [hsame] at hg hg'
        exact ht.distinct g g' hg hg' he
      · rw [hsame, hg]
    · have hg := hnew g u rfl
      refine ⟨⟨hs.terminated, hs.temp, hs.cached, fun k k' hk hk' he => ?_⟩, fun k o hk => ?_⟩
      · rw [howner, hall] at hk hk'
        by_cases hkg : k = g
        · by_cases hkg' : k' = g
          · rw [hkg, hkg']
          · rw [if_neg hkg'] at hk'
            exact absurd (hkg ▸ he).symm (hup hg k' hk')
        · rw [if_neg hkg] at hk
          by_cases hkg' : k' = g
          · exact absurd (hkg' ▸ he) (hup hg k hk)
          · rw [if_neg hkg'] at hk'
            exact ht.distinct k k' hk hk' he
      · have hkg : k ≠ g := by
          rintro rfl
          rw [hg] at hk
          cases hk
        rw [howner, hall, if_neg hkg, hk]
  · simp only [Command.createsOnly, not_forall] at hnew
    obtain ⟨g, u, rfl, hg⟩ := hnew
    obtain ⟨htext, hgroups⟩ := serve_createGroup_existing hg h
    refine ⟨ht.of_text htext fun k o hk => ?_, fun k o hk => ?_⟩
    · rw [hgroups] at hk
      exact hk
    · rw [Disk.owner, Disk.lines, htext]
      exact hk

/-- Who becomes a member of a group that is there was accepted by its owner on a request that
    stands in the file. -/
lemma serve_member {g u : Str} (ht : t.Sound) (hc : ∀ w ∈ c.args, IsWord w) (hup : t.upToDate c)
    (h : serve hashPassword t online salt c = some (reply, t', sent))
    (hg : t.disk.owner g ≠ none) (hu : IsWord u) (hold : u ∉ t.disk.members g)
    (hmember : u ∈ t'.disk.members g) :
    ∃ a, c = .acceptRequest g u a ∧ t.disk.owner g = some a ∧
      fields [u, g] ∈ t.disk.lines pendingFile := by
  rw [Disk.mem_members] at hold hmember
  by_cases hnew : c.createsOnly t.disk
  · obtain ⟨s, rfl, hs⟩ := serve_written ht hc hnew h
    rcases hs.lines _ (ofGroups_membersFile g) u hmember with hl | hl
    · exact absurd hl hold
    · obtain ⟨g', he, rfl | ⟨a, rfl⟩⟩ := Command.mayAt_membersFile hu hl
      · exact absurd he.symm (hup (hnew g' u rfl) g hg)
      · have haccept : t.accepts g' u a := by
          by_contra hcheck
          have hsame : s.tracker.disk = t.disk := serve_acceptRequest hcheck h
          rw [hsame] at hmember
          exact hold hmember
        have howner := ht.cached g' a haccept.1
        obtain rfl : g' = g := ht.distinct g' g (by simp [howner]) hg he
        exact ⟨a, rfl, howner, hup haccept⟩
  · simp only [Command.createsOnly, not_forall] at hnew
    obtain ⟨g', u', rfl, hg'⟩ := hnew
    obtain ⟨htext, -⟩ := serve_createGroup_existing hg' h
    rw [Disk.lines, htext] at hmember
    exact absurd hmember hold

end Serve

/-! ### Runs of the pair -/

/-- Two sound trackers with equal files. -/
structure Pair.Sound (P : Pair) : Prop where
  agree : P.Agree True
  each : ∀ i, (P i).Sound

/-- The command of a turn is received as a message. -/
def Turn.received (r : Turn) : Prop := ∃ message, Request.parse message = .client r.command

lemma Turn.received.words {r : Turn} (h : r.received) : ∀ w ∈ r.command.args, IsWord w := by
  obtain ⟨message, h⟩ := h
  exact Request.isWord_args h

/-- A command that is received in a state that meets a condition, with its transfers. -/
def Pair.StepWhen (hashPassword : Str → Str → Str) (C : Pair → Turn → Prop) (P P' : Pair) : Prop :=
  ∃ (r : Turn) (reply : Reply), r.received ∧ C P r ∧ process hashPassword P r = some (reply, P')

/-- The condition on a step of the pair: it holds at the tracker that gets the command. -/
def Pair.upToDate (P : Pair) (r : Turn) : Prop := (P r.side).upToDate r.command

section Pair

variable {hashPassword : Str → Str → Str} {P P' : Pair} {r : Turn} {reply : Reply}

/-- The step lemma for sound pairs. -/
lemma process_sound (hP : P.Sound) (hr : r.received) (hup : P.upToDate r)
    (hp : process hashPassword P r = some (reply, P')) : P'.Sound := by
  have hagree := process_agree hP.agree hp
  obtain ⟨sent, hserve, hsibling⟩ := process_routed hp
  obtain ⟨hsound, hkeep⟩ := serve_sound (hP.each r.side) hr.words hup hserve
  refine ⟨hagree, fun i => ?_⟩
  rcases Side.eq_or_eq_sibling r.side i with rfl | rfl
  · exact hsound
  · refine hsound.of_text (hagree.text _ _) fun g o hg => hkeep g o ?_
    rw [hsibling] at hg
    rw [Disk.owner, Disk.lines, hP.agree.text r.side r.side.sibling]
    exact (hP.each _).cached g o hg

/-- The run lemma for sound pairs. -/
lemma Pair.Sound.reaches (hP : P.Sound)
    (h : Relation.ReflTransGen (Pair.StepWhen hashPassword Pair.upToDate) P P') : P'.Sound := by
  induction h with
  | refl => exact hP
  | tail _ hstep ih =>
    obtain ⟨r, reply, hr, hup, hp⟩ := hstep
    exact process_sound ih hr hup hp

/-- The members of a group are the same at both trackers. -/
lemma Pair.Agree.members (h : P.Agree True) (i j : Side) (g u : Str) :
    u ∈ (P i).disk.members g ↔ u ∈ (P j).disk.members g := by
  rw [Disk.mem_members, Disk.mem_members, Disk.lines, Disk.lines, h.text i j]

/-- A sequence of commands that meet the condition in every state. -/
lemma reaches_processAll {C : Pair → Turn → Prop} {turns : List Turn} {replies : List Reply}
    (hturns : ∀ r ∈ turns, r.received ∧ ∀ P, C P r)
    (h : processAll hashPassword P turns = some (replies, P')) :
    Relation.ReflTransGen (Pair.StepWhen hashPassword C) P P' := by
  induction turns generalizing P replies with
  | nil =>
    cases h
    exact .refl
  | cons r rs ih =>
    simp only [processAll, Option.bind_eq_some_iff, Option.map_eq_some_iff, Prod.mk.injEq] at h
    obtain ⟨⟨reply, Q⟩, hQ, ⟨as, P''⟩, hrest, -, rfl⟩ := h
    obtain ⟨hr, hC⟩ := hturns r (List.mem_cons_self ..)
    have hrs : ∀ r' ∈ rs, r'.received ∧ ∀ P, C P r' :=
      fun r' hr' => hturns r' (List.mem_cons_of_mem _ hr')
    exact .head ⟨r, reply, hr, hC P, hQ⟩ (ih hrs hrest)

end Pair

lemma freshTrackers_sound : freshTrackers.Sound := by
  have htext : ∀ p, Disk.empty.text p = [] := fun p => rfl
  refine ⟨⟨fun p _ => rfl, fun _ i => htext _⟩, fun i => ⟨fun p _ => ?_, htext _, ?_, ?_⟩⟩
  · exact terminated_nil
  · intro g o hg
    cases hg
  · intro g g' hg
    exact absurd rfl hg

/-- A group, and then a user and a request. -/
def groupTurn : Turn := ⟨.first, .createGroup "g".toList "o".toList, []⟩

def requestTurns : List Turn :=
  [⟨.first, .createUser "u".toList "p".toList "1".toList "i".toList, "s".toList⟩,
   ⟨.first, .joinGroup "g".toList "u".toList, []⟩]

def acceptTurn : Turn := ⟨.first, .acceptRequest "g".toList "u".toList "o".toList, []⟩

lemma groupTurn_received : groupTurn.received := ⟨"create_group g o".toList, rfl⟩

lemma requestTurns_received : ∀ r ∈ requestTurns, r.received := by
  simp only [requestTurns, List.forall_mem_cons]
  exact ⟨⟨"create_user u p 1 i".toList, rfl⟩, ⟨"join_group g u".toList, rfl⟩, by simp⟩

lemma acceptTurn_received : acceptTurn.received := ⟨"accept_request g u o".toList, rfl⟩

/-- The request is accepted, the member leaves through the other tracker, and is accepted again. -/
def acceptedAndLeft : List Turn :=
  groupTurn :: requestTurns ++
    [acceptTurn, ⟨.second, .listGroups, []⟩, ⟨.second, .leaveGroup "g".toList "u".toList, []⟩]

end TorrentShare
