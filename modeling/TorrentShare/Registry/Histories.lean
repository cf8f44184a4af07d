import TorrentShare.Registry.Frames

/-!
# Groups follow the history

Who owns a group, who belongs to it and what a user has downloaded can be told from the commands
that have been processed and the replies to them.
-/

namespace TorrentShare

open Program

/-- The command has been answered with success. -/
def Granted (c : Command) (e : Act × Reply) : Prop :=
  ∃ salt online, e = (.command c salt online, some ['1'])

/-- The user becomes a member of the group, or stays one. -/
def Admits (g u : Str) (e : Act × Reply) : Prop :=
  Granted (.createGroup g u) e ∨ ∃ a, Granted (.acceptRequest g u a) e

/-- The user has been let into the group and has not left it since. -/
def Belongs (g u : Str) (history : List (Act × Reply)) : Prop :=
  Since (fun _ => Admits g u) (Granted (.leaveGroup g u)) history

section Events

variable {c c' : Command} {salt : List (Fin 256)} {online : Bool} {reply : Reply}

@[simp] lemma granted_command :
    Granted c (.command c' salt online, reply) ↔ c' = c ∧ reply = some ['1'] := by
  simp only [Granted, Prod.mk.injEq, Act.command.injEq]
  constructor
  · rintro ⟨_, _, ⟨hc, -, -⟩, hreply⟩
    exact ⟨hc, hreply⟩
  · rintro ⟨hc, hreply⟩
    exact ⟨salt, online, ⟨hc, rfl, rfl⟩, hreply⟩

@[simp] lemma not_granted_restart : ¬ Granted c (.restart, reply) := by
  rintro ⟨salt, online, h⟩
  cases h

lemma granted_iff_of_done {b : Bool} (h : (Answer.done b).Tells reply) :
    reply = some ['1'] ↔ b = true := by
  rw [show reply = flag b from h]
  cases b <;> simp [flag]

end Events

section Membership

variable {sha256 : Str → List (Fin 256)} {E : Entities} {R : Registry Str} {a : Act}
  {reply : Reply}

namespace Registry

/-- Only the first `create_group` of a group gives it an owner. -/
lemma act_owner (h : (R.act sha256 a).1.Tells reply) (g o : Str) :
    (R.act sha256 a).2.owner g = some o ↔
      R.owner g = some o ∨ Granted (.createGroup g o) (a, reply) := by
  cases a with
  | restart =>
    rw [act]
    simp [refresh]
  | command c salt online =>
    by_cases hcreate : ∃ k u, c = .createGroup k u
    · obtain ⟨k, u, rfl⟩ := hcreate
      rw [act, command, createGroup] at h ⊢
      split_ifs at h ⊢ with hnew
      · have hgranted := (granted_iff_of_done h).mpr rfl
        simp only [Function.update_apply, granted_command, hgranted, and_true,
          Command.createGroup.injEq]
        split_ifs with hk
        · subst hk
          simp [hnew]
        · simp [Ne.symm hk]
      · have hrefused : reply ≠ some ['1'] := by simp [granted_iff_of_done h]
        simp [hrefused, refresh]
    · rw [not_exists] at hcreate
      rw [act, command_owner fun k u hc => hcreate k ⟨u, hc⟩]
      have hnot : ¬ Granted (.createGroup g o) (.command c salt online, reply) := by
        rw [granted_command]
        exact fun hc => hcreate g ⟨o, hc.1⟩
      simp [hnot]

/-- Who is let in is a member then, and who leaves is not. -/
lemma act_members (h : (R.act sha256 a).1.Tells reply)
    (hnone : ∀ g, R.owner g = none → R.members g = ∅) (g v : Str) :
    v ∈ (R.act sha256 a).2.members g ↔
      Admits g v (a, reply) ∨ v ∈ R.members g ∧ ¬ Granted (.leaveGroup g v) (a, reply) := by
  cases a with
  | restart => simp [act, Admits, refresh]
  | command c salt online =>
    cases c with
    | createGroup k u =>
      rw [act, command, createGroup] at h ⊢
      split_ifs at h ⊢ with hnew
      · have hgranted := (granted_iff_of_done h).mpr rfl
        simp only [Admits, granted_command, hgranted, Function.update_apply]
        split_ifs with hk
        · subst hk
          simp [hnone g hnew, eq_comm]
        · simp [Ne.symm hk]
      · have hrefused : reply ≠ some ['1'] := by simp [granted_iff_of_done h]
        simp [Admits, hrefused, refresh]
    | acceptRequest k u o =>
      rw [act, command, acceptRequest] at h ⊢
      split_ifs at h ⊢ with hgranted hin
      · -- a member stays one
        have hreply := (granted_iff_of_done h).mpr rfl
        simp only [Admits, granted_command, hreply, and_true, reduceCtorEq, false_or,
          not_false_eq_true, Command.acceptRequest.injEq]
        constructor
        · exact Or.inr
        · rintro (⟨_, rfl, rfl, -⟩ | hv)
          · exact hin
          · exact hv
      · have hreply := (granted_iff_of_done h).mpr rfl
        simp only [Admits, granted_command, hreply, and_true, Function.update_apply]
        split_ifs with hk
        · subst hk
          simp [eq_comm]
        · simp [Ne.symm hk]
      · have hrefused : reply ≠ some ['1'] := by simp [granted_iff_of_done h]
        simp [Admits, hrefused]
    | leaveGroup k u =>
      rw [act, command, leaveGroup] at h ⊢
      split_ifs at h ⊢ with hleave
      · have hreply := (granted_iff_of_done h).mpr rfl
        simp only [Admits, granted_command, hreply, and_true, Function.update_apply]
        split_ifs with hk
        · subst hk
          simp [eq_comm]
        · simp [Ne.symm hk]
      · have hrefused : reply ≠ some ['1'] := by simp [granted_iff_of_done h]
        simp [Admits, hrefused]
    | _ =>
      rw [act, command_members (by simp) (by simp) (by simp)]
      simp [Admits]

lemma owner_of_accepted {g u o : Str} (h : (R.act sha256 a).1.Tells reply)
    (hgranted : Granted (.acceptRequest g u o) (a, reply)) : R.owner g = some o := by
  obtain ⟨salt, online, heq⟩ := hgranted
  cases heq
  by_contra howner
  rw [act, command, acceptRequest, if_neg fun hall => howner hall.1] at h
  cases h

/-- Owners do not leave. -/
lemma owner_ne_of_left {g u : Str} (h : (R.act sha256 a).1.Tells reply)
    (hgranted : Granted (.leaveGroup g u) (a, reply)) : R.owner g ≠ some u := by
  obtain ⟨salt, online, heq⟩ := hgranted
  cases heq
  intro howner
  rw [act, command, leaveGroup, if_neg fun hall => hall.2.2 howner] at h
  cases h

/-- What the history says about groups. -/
structure Groups (history : List (Act × Reply)) (R : Registry Str) : Prop where
  owner : ∀ g o, R.owner g = some o ↔ ∃ e ∈ history, Granted (.createGroup g o) e
  members : ∀ g u, u ∈ R.members g ↔ Belongs g u history
  none : ∀ g, R.owner g = none → R.members g = ∅
  owners : ∀ g o, R.owner g = some o → o ∈ R.members g

lemma empty_groups : Groups [] empty := by
  constructor <;> simp [empty, Belongs]

lemma Groups.act {history : List (Act × Reply)} (hR : Groups history R)
    (h : (R.act sha256 a).1.Tells reply) :
    Groups (history ++ [(a, reply)]) (R.act sha256 a).2 := by
  have howner := act_owner h
  have hmembers := act_members h hR.none
  refine ⟨fun g o => ?_, fun g u => ?_, fun g hg => ?_, fun g o ho => ?_⟩
  · rw [howner, hR.owner]
    simp only [List.mem_append, List.mem_singleton, or_and_right, exists_or, exists_eq_left]
  · rw [hmembers, hR.members, Belongs, Belongs, since_concat]
  · -- a group without an owner has had none
    have hbefore : R.owner g = Option.none := by
      by_contra hsome
      obtain ⟨o, ho⟩ := Option.ne_none_iff_exists'.mp hsome
      rw [(howner g o).mpr (Or.inl ho)] at hg
      cases hg
    ext u
    rw [hmembers, hR.none g hbefore]
    simp only [Set.mem_empty_iff_false, false_and, or_false, iff_false]
    rintro (hcreate | ⟨o, haccept⟩)
    · rw [(howner g u).mpr (Or.inr hcreate)] at hg
      cases hg
    · rw [owner_of_accepted h haccept] at hbefore
      cases hbefore
  · rw [hmembers]
    rcases (howner g o).mp ho with ho | hcreate
    · exact Or.inr ⟨hR.owners g o ho, fun hleft => owner_ne_of_left h hleft ho⟩
    · exact Or.inl (Or.inl hcreate)

end Registry

end Membership

end TorrentShare
