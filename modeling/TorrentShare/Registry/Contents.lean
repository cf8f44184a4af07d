import TorrentShare.Registry.Histories

/-!
# What names stand for

In a group a name stands for one hash, and a hash that is not blank has one name. Where those who
upload the content of a hash agree on its size, all records of the hash have this size. And a user
is signed in who has been let in and has not logged out since.
-/

namespace TorrentShare

open Program

/-! ### Names, hashes and sizes -/

/-- Whoever uploads content of this hash gives this size. -/
def Act.Announces (h z : Str) : Act → Prop
  | .command (.uploadFile h' z' _ _ _ _) _ _ => h' = h → z' = z
  | _                                        => True

/-- Names and hashes go together, and this hash goes with this size. -/
structure Consistent (h z : Str) (l : List (Share Str)) : Prop where
  hashes : ∀ s ∈ l, ∀ s' ∈ l, s.name = s'.name → s.hash = s'.hash
  names : ∀ s ∈ l, ∀ s' ∈ l, s.hash = s'.hash → s.hash ≠ [] → s.name = s'.name
  sizes : ∀ s ∈ l, s.hash = h → s.size = z

section Consistent

variable {h z : Str} {l l' : List (Share Str)} {x : Share Str}

lemma consistent_nil (h z : Str) : Consistent h z [] := by
  constructor <;> simp

lemma Consistent.subset (hl : Consistent h z l) (hsub : l' ⊆ l) : Consistent h z l' where
  hashes s hs s' hs' := hl.hashes s (hsub hs) s' (hsub hs')
  names s hs s' hs' := hl.names s (hsub hs) s' (hsub hs')
  sizes s hs := hl.sizes s (hsub hs)

/-- A record whose name and hash go with those that are there. -/
lemma Consistent.concat (hl : Consistent h z l)
    (hhash : ∀ s ∈ l, s.name = x.name → s.hash = x.hash)
    (hname : ∀ s ∈ l, s.hash = x.hash → s.hash ≠ [] → s.name = x.name)
    (hsize : x.hash = h → x.size = z) : Consistent h z (l ++ [x]) := by
  have hmem : ∀ s, s ∈ l ++ [x] → s ∈ l ∨ s = x := by simp
  constructor
  · intro s hs s' hs' heq
    rcases hmem s hs with h₁ | rfl <;> rcases hmem s' hs' with h₂ | rfl
    · exact hl.hashes s h₁ s' h₂ heq
    · exact hhash s h₁ heq
    · exact (hhash s' h₂ heq.symm).symm
    · rfl
  · intro s hs s' hs' heq hne
    rcases hmem s hs with h₁ | rfl <;> rcases hmem s' hs' with h₂ | rfl
    · exact hl.names s h₁ s' h₂ heq hne
    · exact hname s h₁ heq hne
    · exact (hname s' h₂ heq.symm (heq ▸ hne)).symm
    · rfl
  · intro s hs
    rcases hmem s hs with h₁ | rfl
    · exact hl.sizes s h₁
    · exact hsize

end Consistent

section Contents

variable {sha256 : Str → List (Fin 256)} {R : Registry Str} {h z : Str} {a : Act} {reply : Reply}

namespace Registry

/-- The records of every group are consistent. -/
def Catalogued (h z : Str) (R : Registry Str) : Prop := ∀ g, Consistent h z (R.shares g)

lemma empty_catalogued (h z : Str) : Catalogued h z empty := fun _ => consistent_nil h z

lemma Catalogued.update {f : Str → List (Share Str)} {k : Str} {l : List (Share Str)}
    (hf : ∀ g, Consistent h z (f g)) (hl : Consistent h z l) (g : Str) :
    Consistent h z (Function.update f k l g) := by
  rw [Function.update_apply]
  split_ifs
  · exact hl
  · exact hf g

lemma Catalogued.act (hR : R.Catalogued h z) (hh : h ≠ []) (ha : a.Announces h z) :
    (R.act sha256 a).2.Catalogued h z := by
  cases a with
  | restart => exact hR
  | command c salt online =>
    show (R.command sha256 (generateSalt salt) c).2.Catalogued h z
    cases c with
    | createGroup k u =>
      rw [command, createGroup]
      split_ifs
      · exact update hR (consistent_nil h z)
      · exact hR
    | leaveGroup k u =>
      rw [command, leaveGroup]
      split_ifs
      · exact update hR ((hR k).subset (List.filter_subset_self _))
      · exact hR
    | stopShare k f u =>
      rw [command, stopShare]
      split_ifs
      · exact update hR ((hR k).subset (List.filter_subset_self _))
      · exact hR
    | uploadFile h' z' k u f p =>
      rw [command, uploadFile]
      split_ifs with hgroup hthere htaken
      · exact hR
      · exact hR
      · exact hR
      · refine update hR ((hR k).concat (fun s hs hname => ?_) (fun s hs heq hne => ?_) ha)
        · by_contra hother
          exact htaken ⟨s, hs, hother, hname⟩
        · -- the name of the first record of the hash
          have hfound : ((R.shares k).find? (·.hash = h')).isSome = true :=
            List.find?_isSome.mpr ⟨s, hs, decide_eq_true heq⟩
          obtain ⟨s₀, hs₀⟩ := Option.isSome_iff_exists.mp hfound
          have hhash₀ : s₀.hash = h' := by simpa using List.find?_some hs₀
          have hname := (hR k).names s hs s₀ (List.mem_of_find?_eq_some hs₀)
            (heq.trans hhash₀.symm) hne
          rw [hname, nameFor, hs₀]
          rfl
    | addFile k f p u =>
      rw [command, addFile]
      split_ifs
      · exact hR
      · cases hfound : (R.shares k).find? (·.name = f) with
        | none =>
          have hnew : ∀ s ∈ R.shares k, s.name ≠ f := by simpa using hfound
          refine update hR ((hR k).concat (fun s hs hname => absurd hname (hnew s hs))
            (fun s hs heq hne => absurd heq hne) fun hblank => absurd hblank.symm hh)
        | some s₀ =>
          have hmem := List.mem_of_find?_eq_some hfound
          have hname₀ : s₀.name = f := by simpa using List.find?_some hfound
          refine update hR ((hR k).concat (fun s hs hname => ?_) (fun s hs heq hne => ?_) ?_)
          · exact (hR k).hashes s hs s₀ hmem (hname.trans hname₀.symm)
          · exact ((hR k).names s hs s₀ hmem heq hne).trans hname₀
          · exact (hR k).sizes s₀ hmem
    | _ =>
      simp only [command, login, createUser, logout, joinGroup, acceptRequest, giveSha]
      first | exact hR | (split_ifs <;> exact hR)

end Registry

end Contents

/-! ### Users who are signed in -/

/-- The user is let in, with a password or as a new one. -/
def Arrives (u : Str) (e : Act × Reply) : Prop :=
  ∃ p port ip, Granted (.login u p port ip) e ∨ Granted (.createUser u p port ip) e

/-- The user has been let in and has not logged out since. -/
def Online (u : Str) (history : List (Act × Reply)) : Prop :=
  Since (fun _ => Arrives u) (Granted (.logout u)) history

section Sessions

variable {sha256 : Str → List (Fin 256)} {R : Registry Str} {a : Act} {reply : Reply}
  {history : List (Act × Reply)}

namespace Registry

lemma command_address {salt : Str} {c : Command} (hlogin : ∀ u p port ip, c ≠ .login u p port ip)
    (hcreate : ∀ u p port ip, c ≠ .createUser u p port ip) (hlogout : ∀ u, c ≠ .logout u) :
    (R.command sha256 salt c).2.address = R.address := by
  cases c with
  | login u p port ip => exact absurd rfl (hlogin u p port ip)
  | createUser u p port ip => exact absurd rfl (hcreate u p port ip)
  | logout u => exact absurd rfl (hlogout u)
  | _ =>
    simp only [command, createGroup, joinGroup, acceptRequest, uploadFile, stopShare, leaveGroup,
      giveSha, addFile]
    first | rfl | (split_ifs <;> rfl)

/-- Who arrives has an address then, and who logs out has none. -/
lemma act_address (h : (R.act sha256 a).1.Tells reply) (u : Str) :
    (R.act sha256 a).2.address u ≠ none ↔
      Arrives u (a, reply) ∨ R.address u ≠ none ∧ ¬ Granted (.logout u) (a, reply) := by
  cases a with
  | restart => simp [act, Arrives, refresh]
  | command c salt online =>
    cases c with
    | login v p port ip =>
      rw [act, command, login] at h ⊢
      split_ifs at h ⊢ with hknows hnew
      · have hreply := (granted_iff_of_done h).mpr rfl
        simp only [Arrives, granted_command, hreply, Function.update_apply]
        split_ifs with hv
        · simp [hv]
        · simp [Ne.symm hv]
      · have hreply := (granted_iff_of_done h).mpr rfl
        simp only [Arrives, granted_command, hreply, refresh]
        by_cases hv : v = u
        · simpa [hv] using hv ▸ hnew
        · simp [hv]
      · have hrefused : reply ≠ some ['1'] := by simp [granted_iff_of_done h]
        simp [Arrives, hrefused, refresh]
    | createUser v p port ip =>
      rw [act, command, createUser] at h ⊢
      split_ifs at h ⊢ with hnew
      · have hreply := (granted_iff_of_done h).mpr rfl
        simp only [Arrives, granted_command, hreply, Function.update_apply]
        split_ifs with hv
        · simp [hv]
        · simp [Ne.symm hv]
      · have hrefused : reply ≠ some ['1'] := by simp [granted_iff_of_done h]
        simp [Arrives, hrefused, refresh]
    | logout v =>
      rw [act, command, logout] at h ⊢
      split_ifs at h ⊢ with hgone
      · have hrefused : reply ≠ some ['1'] := by simp [granted_iff_of_done h]
        simp [Arrives, hrefused, refresh]
      · have hreply := (granted_iff_of_done h).mpr rfl
        simp only [Arrives, granted_command, hreply, Function.update_apply]
        split_ifs with hv
        · simp [hv]
        · simp [Ne.symm hv]
    | _ =>
      rw [act, command_address (by simp) (by simp) (by simp)]
      simp [Arrives]

/-- Those who are signed in have an address. -/
def Attended (history : List (Act × Reply)) (R : Registry Str) : Prop :=
  ∀ u, R.address u ≠ none ↔ Online u history

lemma empty_attended : Attended [] empty := by
  simp [Attended, empty, Online]

lemma Attended.act (hR : Attended history R) (h : (R.act sha256 a).1.Tells reply) :
    Attended (history ++ [(a, reply)]) (R.act sha256 a).2 := by
  intro u
  rw [act_address h, hR u, Online, Online, since_concat]

end Registry

end Sessions

end TorrentShare
