import TorrentShare.Registry.Histories

/-!
# Requests to join and downloads follow the history

Who waits to be let into a group, what a user is downloading and what the user has downloaded.
-/

namespace TorrentShare

open Program

/-- A command has been processed. -/
def Processed (P : Command → Prop) (e : Act × Reply) : Prop :=
  ∃ c salt online reply, e = (.command c salt online, reply) ∧ P c

/-- The user has asked to join the group, not being a member, and has not been let in since. -/
def Applies (g u : Str) (history : List (Act × Reply)) : Prop :=
  Since (fun before e => Granted (.joinGroup g u) e ∧ ¬ Belongs g u before)
    (fun e => ∃ a, Granted (.acceptRequest g u a) e) history

/-- An account is made for the user. -/
def registers (u : Str) : Act × Reply → Bool
  | (.command (.createUser v _ _ _) _ _, reply) => v = u && reply = some ['1']
  | _ => false

/-- The user reports a download as complete. -/
def completed (u : Str) : Act × Reply → Option (Str × Str)
  | (.command (.complete g f _ v) _ _, _) => if v = u then some (g, f) else none
  | _ => none

/-- The user has asked for the hash of the file as a member of the group, and has not reported the
    download as complete since, nor got an account. -/
def Downloads (u g f : Str) (history : List (Act × Reply)) : Prop :=
  Since (fun before e => Processed (· = .giveSha g f u) e ∧ Belongs g u before)
    (fun e => completed u e = some (g, f) ∨ registers u e = true) history

section Events

variable {P : Command → Prop} {c : Command} {salt : List (Fin 256)} {online : Bool} {reply : Reply}

@[simp] lemma processed_command : Processed P (.command c salt online, reply) ↔ P c := by
  constructor
  · rintro ⟨c', _, _, _, h, hc⟩
    cases h
    exact hc
  · exact fun hc => ⟨c, salt, online, reply, rfl, hc⟩

@[simp] lemma not_processed_restart : ¬ Processed P (.restart, reply) := by
  rintro ⟨c, salt, online, reply', h, -⟩
  cases h

end Events

section Transfers

variable {sha256 : Str → List (Fin 256)} {E : Entities} {R : Registry Str} {a : Act}
  {reply : Reply} {history : List (Act × Reply)}

namespace Registry

/-- Requests are made by users who do not belong to the group, and are gone when they are
    granted. -/
lemma act_requests (h : (R.act sha256 a).1.Tells reply) (hR : Groups history R)
    (hpending : ∀ g u, (u, g) ∈ R.requests → u ∉ R.members g)
    (g u : Str) : (u, g) ∈ (R.act sha256 a).2.requests ↔
      (Granted (.joinGroup g u) (a, reply) ∧ ¬ Belongs g u history) ∨
        (u, g) ∈ R.requests ∧ ¬ ∃ o, Granted (.acceptRequest g u o) (a, reply) := by
  cases a with
  | restart => simp [act, refresh]
  | command c salt online =>
    cases c with
    | joinGroup k v =>
      have hbelongs := hR.members k v
      rw [act, command, joinGroup] at h ⊢
      split_ifs at h ⊢ with hgroup hin
      · have hrefused : reply ≠ some ['1'] := by simp [granted_iff_of_done h]
        simp [hrefused]
      · have hgranted := (granted_iff_of_done h).mpr rfl
        simp only [granted_command, hgranted, and_true, Command.joinGroup.injEq, reduceCtorEq,
          exists_false, not_false_eq_true, iff_or_self]
        rintro ⟨⟨rfl, rfl⟩, hnot⟩
        exact absurd (hbelongs.mp hin) hnot
      · have hgranted := (granted_iff_of_done h).mpr rfl
        simp only [granted_command, hgranted, and_true, Command.joinGroup.injEq, reduceCtorEq,
          exists_false, not_false_eq_true, Set.mem_insert_iff, Prod.mk.injEq]
        refine or_congr_left ⟨?_, ?_⟩
        · rintro ⟨rfl, rfl⟩
          exact ⟨⟨rfl, rfl⟩, fun hbelong => hin (hbelongs.mpr hbelong)⟩
        · rintro ⟨⟨rfl, rfl⟩, -⟩
          exact ⟨rfl, rfl⟩
    | acceptRequest k v o =>
      rw [act, command, acceptRequest] at h ⊢
      split_ifs at h ⊢ with hgranted hin
      · have hreply := (granted_iff_of_done h).mpr rfl
        simp only [granted_command, hreply, and_true, Command.acceptRequest.injEq, reduceCtorEq,
          false_and, false_or, iff_self_and]
        rintro hrequest ⟨_, rfl, rfl, -⟩
        exact hpending _ _ hrequest hin
      · have hreply := (granted_iff_of_done h).mpr rfl
        simp only [granted_command, hreply, and_true, Command.acceptRequest.injEq, reduceCtorEq,
          false_and, false_or, Set.mem_sdiff, Set.mem_singleton_iff, Prod.mk.injEq]
        refine and_congr_right fun _ => not_congr ⟨?_, ?_⟩
        · rintro ⟨rfl, rfl⟩
          exact ⟨o, rfl, rfl, rfl⟩
        · rintro ⟨_, rfl, rfl, -⟩
          exact ⟨rfl, rfl⟩
      · have hrefused : reply ≠ some ['1'] := by simp [granted_iff_of_done h]
        simp [hrefused]
    | _ =>
      rw [act, command_requests (by simp) (by simp)]
      simp

/-- A download begins with `give_sha` and ends with `complete`. -/
lemma act_downloading (h : (R.act sha256 a).1.Tells reply) (hR : Groups history R)
    (u g f : Str) : (g, f) ∈ (R.act sha256 a).2.downloading u ↔
      (Processed (· = .giveSha g f u) (a, reply) ∧ Belongs g u history) ∨
        (g, f) ∈ R.downloading u ∧
          ¬ (completed u (a, reply) = some (g, f) ∨ registers u (a, reply) = true) := by
  cases a with
  | restart => simp [act, refresh, completed, registers]
  | command c salt online =>
    cases c with
    | createUser v p port ip =>
      rw [act, command, createUser] at h ⊢
      split_ifs at h ⊢ with hnew
      · have hgranted := (granted_iff_of_done h).mpr rfl
        simp only [Function.update_apply, processed_command, completed, registers, hgranted]
        split_ifs with hu
        · simp [hu]
        · simp [Ne.symm hu]
      · have hrefused : reply ≠ some ['1'] := by simp [granted_iff_of_done h]
        simp [completed, registers, hrefused, refresh]
    | giveSha k x v =>
      have hbelongs := hR.members k v
      rw [act, command, giveSha]
      split_ifs with hgroup
      · simp only [Function.update_apply, processed_command, completed, registers,
          Command.giveSha.injEq]
        split_ifs with hu
        · subst hu
          simp only [List.mem_append, List.mem_singleton, Prod.mk.injEq, and_true, or_self,
            not_false_eq_true, or_comm]
          refine or_congr_left ⟨?_, ?_⟩
          · rintro ⟨rfl, rfl⟩
            exact ⟨⟨rfl, rfl⟩, hbelongs.mp hgroup.2⟩
          · rintro ⟨⟨rfl, rfl⟩, -⟩
            exact ⟨rfl, rfl⟩
        · simp [Ne.symm hu]
      · have hnot : ¬ (k = g ∧ x = f ∧ v = u ∧ Belongs g u history) := by
          rintro ⟨rfl, rfl, rfl, hin⟩
          have hmember := hbelongs.mpr hin
          refine hgroup ⟨fun hnone => ?_, hmember⟩
          rw [hR.none k hnone] at hmember
          exact hmember
        simp only [processed_command, Command.giveSha.injEq, completed, registers, refresh,
          and_assoc, hnot, false_or]
        simp
    | complete k x p v =>
      rw [act, command, complete]
      by_cases hu : v = u
      · subst hu
        simp only [processed_command, reduceCtorEq, false_and, false_or, completed, registers,
          if_true, Bool.false_eq_true, or_false, Function.update_self, List.mem_filter,
          decide_eq_true_eq, Option.some.injEq]
        exact and_congr_right fun _ => not_congr eq_comm
      · simp [completed, registers, hu, Function.update_of_ne (Ne.symm hu)]
    | _ =>
      rw [act, command_downloading (by simp) (by simp) (by simp)]
      simp [completed, registers]

/-- Finished downloads are listed in the order in which they have been reported. -/
lemma act_downloaded (h : (R.act sha256 a).1.Tells reply) (u : Str) :
    (R.act sha256 a).2.downloaded u = if registers u (a, reply) then []
      else R.downloaded u ++ (completed u (a, reply)).toList := by
  cases a with
  | restart => simp [act, refresh, registers, completed]
  | command c salt online =>
    cases c with
    | createUser v p port ip =>
      rw [act, command, createUser] at h ⊢
      split_ifs at h with hnew
      · have hgranted := (granted_iff_of_done h).mpr rfl
        rw [if_pos hnew]
        by_cases hu : v = u
        · simp [registers, hgranted, hu]
        · simp [registers, completed, hu, Function.update_of_ne (Ne.symm hu)]
      · have hrefused : reply ≠ some ['1'] := by simp [granted_iff_of_done h]
        simp [registers, completed, hrefused, refresh, hnew]
    | complete k x p v =>
      rw [act, command, complete]
      by_cases hu : v = u
      · simp [registers, completed, hu]
      · simp [registers, completed, hu, Function.update_of_ne (Ne.symm hu)]
    | _ =>
      rw [act, command_downloaded (by simp) (by simp)]
      simp [registers, completed]

lemma owner_none_of_created {g u : Str} (h : (R.act sha256 a).1.Tells reply)
    (hgranted : Granted (.createGroup g u) (a, reply)) : R.owner g = none := by
  obtain ⟨salt, online, heq⟩ := hgranted
  cases heq
  by_contra howner
  rw [act, command, createGroup, if_neg howner] at h
  cases h

lemma owner_of_joined {g u : Str} (h : (R.act sha256 a).1.Tells reply)
    (hgranted : Granted (.joinGroup g u) (a, reply)) : R.owner g ≠ none := by
  obtain ⟨salt, online, heq⟩ := hgranted
  cases heq
  intro howner
  rw [act, command, joinGroup, if_pos howner] at h
  cases h

/-- What the history says about groups, requests and downloads. -/
structure Traced (history : List (Act × Reply)) (R : Registry Str) : Prop extends
    Groups history R where
  requests : ∀ g u, (u, g) ∈ R.requests ↔ Applies g u history
  pending : ∀ g u, (u, g) ∈ R.requests → R.owner g ≠ Option.none ∧ u ∉ R.members g
  downloading : ∀ u g f, (g, f) ∈ R.downloading u ↔ Downloads u g f history
  downloaded : ∀ u, R.downloaded u =
    (sinceLast (fun e => registers u e = true) history).filterMap (completed u)

lemma empty_traced : Traced [] empty := by
  refine ⟨empty_groups, ?_, ?_, ?_, ?_⟩ <;> simp [empty, Applies, Downloads]

lemma Traced.act (hR : Traced history R) (h : (R.act sha256 a).1.Tells reply) :
    Traced (history ++ [(a, reply)]) (R.act sha256 a).2 := by
  have hgroups := hR.toGroups.act h
  have hrequests := act_requests h hR.toGroups fun g u hu => (hR.pending g u hu).2
  refine ⟨hgroups, fun g u => ?_, fun g u hu => ?_, fun u g f => ?_, fun u => ?_⟩
  · rw [hrequests, hR.requests, Applies, Applies, since_concat]
  · rw [act_members h hR.none]
    rcases (hrequests g u).mp hu with ⟨hjoin, hbelongs⟩ | ⟨hu, haccept⟩
    · -- who asks to join is not let in by asking
      have hadmits : ¬ Admits g u (a, reply) := by
        obtain ⟨salt, online, heq⟩ := hjoin
        cases heq
        simp [Admits]
      have hmember : u ∉ R.members g := mt (hR.members g u).mp hbelongs
      obtain ⟨o, ho⟩ := Option.ne_none_iff_exists'.mp (owner_of_joined h hjoin)
      refine ⟨?_, by simp [hadmits, hmember]⟩
      rw [(act_owner h g o).mpr (Or.inl ho)]
      exact Option.some_ne_none o
    · obtain ⟨howner, hmember⟩ := hR.pending g u hu
      obtain ⟨o, ho⟩ := Option.ne_none_iff_exists'.mp howner
      refine ⟨?_, ?_⟩
      · rw [(act_owner h g o).mpr (Or.inl ho)]
        exact Option.some_ne_none o
      · rintro ((hcreate | hadmits) | ⟨hin, -⟩)
        · exact howner (owner_none_of_created h hcreate)
        · exact haccept hadmits
        · exact hmember hin
  · rw [act_downloading h hR.toGroups, hR.downloading, Downloads, Downloads, since_concat]
  · rw [act_downloaded h, sinceLast_concat, hR.downloaded]
    split_ifs with hregisters
    · rfl
    · rw [List.filterMap_append]
      cases hcompleted : completed u (a, reply) <;> simp [hcompleted]

end Registry

end Transfers

end TorrentShare
