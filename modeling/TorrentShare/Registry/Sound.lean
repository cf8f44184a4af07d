import TorrentShare.Registry.Model
import TorrentShare.Tracker.Logins
import TorrentShare.Tracker.Runs

/-!
# Sound registries

Commands with all their arguments are given to a registry one after another, and now and then the
tracker is started again. Everything that is recorded consists of tokens, users who are signed in
have accounts, and a request is remembered only while it is there or has been granted.
-/

namespace TorrentShare

open Program

/-- What happens to a tracker: a command, with the salt that may be drawn for it and whether the
    sibling accepts connections, or the end of the process and a new start. -/
inductive Act where
  | command (c : Command) (salt : List (Fin 256)) (siblingOnline : Bool)
  | restart

lemma isHex_hex (bytes : List (Fin 256)) : IsHex (hex bytes) := by
  have hdigit : ∀ i : Fin 16, Nat.digitChar i ∈ "0123456789abcdef".toList := by decide
  intro c hc
  obtain ⟨b, -, hc⟩ := List.mem_flatMap.mp hc
  have hb := b.isLt
  simp only [List.mem_cons, List.not_mem_nil, or_false] at hc
  rcases hc with rfl | rfl
  · exact hdigit ⟨b.val / 16, by omega⟩
  · exact hdigit ⟨b.val % 16, by omega⟩

namespace Registry

/-- What a command means. -/
noncomputable def command (sha256 : Str → List (Fin 256)) (salt : Str) (R : Registry Str) :
    Command → Answer Str × Registry Str
  | .login u p port ip       => R.login (hashPassword sha256) u p port ip
  | .createUser u p port ip  => R.createUser salt u p port ip
  | .createGroup g u         => R.createGroup g u
  | .listGroups              => R.listGroups
  | .joinGroup g u           => R.joinGroup g u
  | .listRequests g u        => R.listRequests g u
  | .acceptRequest g u a     => R.acceptRequest g u a
  | .uploadFile h z g u f p  => R.uploadFile h z g u f p
  | .listFiles g             => R.listFiles g
  | .stopShare g f u         => R.stopShare g f u
  | .leaveGroup g u          => R.leaveGroup g u
  | .logout u                => R.logout u
  | .giveSha g f u           => R.giveSha g f u
  | .giveSeeders g f _       => R.giveSeeders g f
  | .giveDetails u           => R.giveDetails u
  | .sendFullPath u g f      => R.sendFullPath u g f
  | .addFile g f p u         => R.addFile [] g f p u
  | .complete g f _ u        => R.complete g f u
  | .showDownloads u         => R.showDownloads u

/-- A start is a refresh. -/
noncomputable def act (sha256 : Str → List (Fin 256)) (R : Registry Str) :
    Act → Answer Str × Registry Str
  | .command c salt _ => R.command sha256 (generateSalt salt) c
  | .restart          => (.silent, R.refresh)

/-- The invariant of registries. -/
structure Sound (R : Registry Str) : Prop where
  accounts : ∀ u p salt, R.account u = some (p, salt) → IsToken u ∧ IsHex salt
  addresses : ∀ u ip port, R.address u = some (ip, port) →
    IsToken u ∧ IsToken ip ∧ IsToken port ∧ R.account u ≠ none
  owners : ∀ g o, R.owner g = some o → IsToken g ∧ IsToken o
  members : ∀ g, ∀ u ∈ R.members g, IsToken u
  requests : ∀ u g, (u, g) ∈ R.requests → IsToken u ∧ IsToken g
  remembered : ∀ u g, (u, g) ∈ R.remembered → (u, g) ∈ R.requests ∨ u ∈ R.members g
  shares : ∀ g, ∀ s ∈ R.shares g,
    IsWord s.hash ∧ IsWord s.size ∧ IsToken s.user ∧ IsToken s.name
  copies : ∀ u, ∀ c ∈ R.copies u, IsToken c.group ∧ IsToken c.name ∧ IsToken c.path
  downloading : ∀ u, ∀ x ∈ R.downloading u, IsToken x.1 ∧ IsToken x.2
  downloaded : ∀ u, ∀ x ∈ R.downloaded u, IsToken x.1 ∧ IsToken x.2

lemma empty_sound : (empty : Registry Str).Sound := by
  constructor <;> simp [empty]

section Sound

variable {R : Registry Str} {sha256 : Str → List (Fin 256)}

lemma Sound.refresh (h : R.Sound) : R.refresh.Sound :=
  { h with remembered := fun _ _ hx => Or.inl hx }

lemma Sound.login (h : R.Sound) {u p port ip : Str} (hu : IsToken u) (hport : IsToken port)
    (hip : IsToken ip) : (R.login (hashPassword sha256) u p port ip).2.Sound := by
  rw [Registry.login]
  split_ifs with hknows haddress
  · obtain ⟨password, salt, haccount, -⟩ := hknows
    refine { h.refresh with addresses := fun v ip' port' hv => ?_ }
    simp only [Function.update_apply] at hv
    split_ifs at hv with hvu
    · cases hv
      subst hvu
      refine ⟨hu, hip, hport, ?_⟩
      rw [Registry.refresh, haccount]
      exact Option.some_ne_none _
    · exact h.addresses v ip' port' hv
  · exact h.refresh
  · exact h.refresh

lemma Sound.createUser (h : R.Sound) {salt u p port ip : Str} (hu : IsToken u)
    (hport : IsToken port) (hip : IsToken ip) (hsalt : IsHex salt) :
    (R.createUser salt u p port ip).2.Sound := by
  rw [Registry.createUser]
  split_ifs with hnew
  · refine { h.refresh with
      accounts := fun v q salt' hv => ?_, addresses := fun v ip' port' hv => ?_
      copies := fun v c hc => ?_, downloading := fun v x hx => ?_, downloaded := fun v x hx => ?_ }
    · simp only [Function.update_apply] at hv
      split_ifs at hv with hvu
      · cases hv
        exact ⟨hvu ▸ hu, hsalt⟩
      · exact h.accounts v q salt' hv
    · simp only [Function.update_apply] at hv ⊢
      split_ifs at hv ⊢ with hvu
      · cases hv
        exact ⟨hvu ▸ hu, hip, hport, Option.some_ne_none _⟩
      · exact h.addresses v ip' port' hv
    · simp only [Function.update_apply] at hc
      split_ifs at hc with hvu
      · cases hc
      · exact h.copies v c hc
    · simp only [Function.update_apply] at hx
      split_ifs at hx with hvu
      · cases hx
      · exact h.downloading v x hx
    · simp only [Function.update_apply] at hx
      split_ifs at hx with hvu
      · cases hx
      · exact h.downloaded v x hx
  · exact h.refresh

lemma Sound.logout (h : R.Sound) (u : Str) : (R.logout u).2.Sound := by
  rw [Registry.logout]
  split_ifs with haddress
  · exact h.refresh
  · refine { h.refresh with addresses := fun v ip port hv => ?_ }
    simp only [Function.update_apply] at hv
    split_ifs at hv with hvu
    exact h.addresses v ip port hv

lemma Sound.createGroup (h : R.Sound) {g u : Str} (hg : IsToken g) (hu : IsToken u) :
    (R.createGroup g u).2.Sound := by
  rw [Registry.createGroup]
  split_ifs with hnew
  · refine { h.refresh with
      owners := fun k o hk => ?_, members := fun k v hv => ?_
      remembered := fun v k hvk => Or.inl hvk, shares := fun k s hs => ?_ }
    · simp only [Function.update_apply] at hk
      split_ifs at hk with hkg
      · cases hk
        exact ⟨hkg ▸ hg, hu⟩
      · exact h.owners k o hk
    · simp only [Function.update_apply] at hv
      split_ifs at hv with hkg
      · rw [Set.mem_singleton_iff] at hv
        exact hv ▸ hu
      · exact h.members k v hv
    · simp only [Function.update_apply] at hs
      split_ifs at hs with hkg
      · cases hs
      · exact h.shares k s hs
  · exact h.refresh

lemma Sound.joinGroup (h : R.Sound) {g u : Str} (hg : IsToken g) (hu : IsToken u) :
    (R.joinGroup g u).2.Sound := by
  rw [Registry.joinGroup]
  split_ifs with hgroup hmember
  · exact h
  · exact h
  · refine { h with requests := fun v k hvk => ?_, remembered := fun v k hvk => ?_ }
    · rcases hvk with hvk | hvk
      · cases hvk
        exact ⟨hu, hg⟩
      · exact h.requests v k hvk
    · rcases hvk with hvk | hvk
      · exact Or.inl (Or.inl hvk)
      · exact (h.remembered v k hvk).imp_left Or.inr

lemma Sound.acceptRequest (h : R.Sound) {g u : Str} (a : Str) (hu : IsToken u) :
    (R.acceptRequest g u a).2.Sound := by
  rw [Registry.acceptRequest]
  split_ifs with hgranted hmember
  · exact h
  · refine { h with
      members := fun k v hv => ?_, requests := fun v k hvk => h.requests v k hvk.1
      remembered := fun v k hvk => ?_ }
    · simp only [Function.update_apply] at hv
      split_ifs at hv with hkg
      · rcases hv with rfl | hv
        · exact hu
        · exact h.members g v hv
      · exact h.members k v hv
    · -- the request that is granted is remembered, and its user is a member now
      simp only [Function.update_apply, Set.mem_sdiff, Set.mem_singleton_iff, Prod.mk.injEq]
      by_cases hkg : k = g
      · by_cases hvu : v = u
        · simp [hkg, hvu]
        · subst hkg
          simpa [hvu] using h.remembered v k hvk
      · simpa [hkg] using h.remembered v k hvk
  · exact h

lemma Sound.leaveGroup (h : R.Sound) (g u : Str) : (R.leaveGroup g u).2.Sound := by
  rw [Registry.leaveGroup]
  split_ifs with hleave
  · refine { h.refresh with
      members := fun k v hv => ?_, remembered := fun v k hvk => Or.inl hvk
      shares := fun k s hs => ?_, copies := fun v c hc => ?_ }
    · simp only [Function.update_apply] at hv
      split_ifs at hv with hkg
      · exact h.members g v hv.1
      · exact h.members k v hv
    · simp only [Function.update_apply] at hs
      split_ifs at hs with hkg
      · exact h.shares g s (List.mem_of_mem_filter hs)
      · exact h.shares k s hs
    · simp only [Function.update_apply] at hc
      split_ifs at hc with hvu
      · exact h.copies u c (List.mem_of_mem_filter hc)
      · exact h.copies v c hc
  · exact h

/-- The names of uploads are tokens. -/
lemma Sound.nameFor (h : R.Sound) {f : Str} (hf : IsToken f) (g z : Str) :
    IsToken (R.nameFor g z f) := by
  rw [Registry.nameFor]
  cases hfound : (R.shares g).find? (·.hash = z) with
  | none => exact hf
  | some s => exact (h.shares g s (List.mem_of_find?_eq_some hfound)).2.2.2

lemma Sound.uploadFile (h : R.Sound) {z size g u f p : Str} (hz : IsToken z) (hsize : IsToken size)
    (hg : IsToken g) (hu : IsToken u) (hf : IsToken f) (hp : IsToken p) :
    (R.uploadFile z size g u f p).2.Sound := by
  rw [Registry.uploadFile]
  split_ifs with hmember hshared hclash
  · exact h
  · exact h
  · exact h
  · have hname := h.nameFor hf g z
    refine { h with shares := fun k s hs => ?_, copies := fun v c hc => ?_ }
    · simp only [Function.update_apply] at hs
      split_ifs at hs with hkg
      · rcases List.mem_append.mp hs with hs | hs
        · exact h.shares g s hs
        · rw [List.mem_singleton.mp hs]
          exact ⟨hz.1, hsize.1, hu, hname⟩
      · exact h.shares k s hs
    · simp only [Function.update_apply] at hc
      split_ifs at hc with hvu
      · rcases List.mem_append.mp hc with hc | hc
        · exact h.copies u c hc
        · rw [List.mem_singleton.mp hc]
          exact ⟨hg, hname, hp⟩
      · exact h.copies v c hc

lemma Sound.stopShare (h : R.Sound) (g f u : Str) : (R.stopShare g f u).2.Sound := by
  rw [Registry.stopShare]
  split_ifs with hmember
  · refine { h with shares := fun k s hs => ?_, copies := fun v c hc => ?_ }
    · simp only [Function.update_apply] at hs
      split_ifs at hs with hkg
      · exact h.shares g s (List.mem_of_mem_filter hs)
      · exact h.shares k s hs
    · simp only [Function.update_apply] at hc
      split_ifs at hc with hvu
      · exact h.copies u c (List.mem_of_mem_filter hc)
      · exact h.copies v c hc
  · exact h

lemma Sound.giveSha (h : R.Sound) {g f u : Str} (hg : IsToken g) (hf : IsToken f) :
    (R.giveSha g f u).2.Sound := by
  rw [Registry.giveSha]
  split_ifs with hmember
  · refine { h.refresh with downloading := fun v x hx => ?_ }
    simp only [Function.update_apply] at hx
    split_ifs at hx with hvu
    · rcases List.mem_append.mp hx with hx | hx
      · exact h.downloading u x hx
      · rw [List.mem_singleton.mp hx]
        exact ⟨hg, hf⟩
    · exact h.downloading v x hx
  · exact h.refresh

lemma Sound.addFile (h : R.Sound) {g f p u : Str} (hg : IsToken g) (hf : IsToken f)
    (hp : IsToken p) (hu : IsToken u) : (R.addFile [] g f p u).2.Sound := by
  rw [Registry.addFile]
  split_ifs with hlisted
  · exact h.refresh
  · refine { h.refresh with shares := fun k s hs => ?_, copies := fun v c hc => ?_ }
    · simp only [Function.update_apply] at hs
      split_ifs at hs with hkg
      · rcases List.mem_append.mp hs with hs | hs
        · exact h.shares g s hs
        · rw [List.mem_singleton.mp hs]
          cases hfound : (R.shares g).find? (·.name = f) with
          | none => exact ⟨isWord_nil, isWord_nil, hu, hf⟩
          | some s' =>
            have hs' := h.shares g s' (List.mem_of_find?_eq_some hfound)
            exact ⟨hs'.1, hs'.2.1, hu, hf⟩
      · exact h.shares k s hs
    · simp only [Function.update_apply] at hc
      split_ifs at hc with hvu
      · rcases List.mem_append.mp hc with hc | hc
        · exact h.copies u c hc
        · rw [List.mem_singleton.mp hc]
          exact ⟨hg, hf, hp⟩
      · exact h.copies v c hc

lemma Sound.complete (h : R.Sound) {g f : Str} (u : Str) (hg : IsToken g) (hf : IsToken f) :
    (R.complete g f u).2.Sound := by
  refine { h.refresh with downloading := fun v x hx => ?_, downloaded := fun v x hx => ?_ }
  · simp only [Registry.complete, Function.update_apply] at hx
    split_ifs at hx with hvu
    · exact h.downloading u x (List.mem_of_mem_filter hx)
    · exact h.downloading v x hx
  · simp only [Registry.complete, Function.update_apply] at hx
    split_ifs at hx with hvu
    · rcases List.mem_append.mp hx with hx | hx
      · exact h.downloaded u x hx
      · rw [List.mem_singleton.mp hx]
        exact ⟨hg, hf⟩
    · exact h.downloaded v x hx

/-- Commands whose arguments are tokens keep a registry sound. -/
lemma Sound.command (h : R.Sound) (salt : List (Fin 256)) {c : Command}
    (hc : ∀ w ∈ c.args, IsToken w) : (R.command sha256 (generateSalt salt) c).2.Sound := by
  cases c with
  | login u p port ip =>
    exact h.login (hc u (by simp [Command.args])) (hc port (by simp [Command.args]))
      (hc ip (by simp [Command.args]))
  | createUser u p port ip =>
    exact h.createUser (hc u (by simp [Command.args])) (hc port (by simp [Command.args]))
      (hc ip (by simp [Command.args])) (isHex_hex salt)
  | createGroup g u =>
    exact h.createGroup (hc g (by simp [Command.args])) (hc u (by simp [Command.args]))
  | joinGroup g u =>
    exact h.joinGroup (hc g (by simp [Command.args])) (hc u (by simp [Command.args]))
  | acceptRequest g u a => exact h.acceptRequest a (hc u (by simp [Command.args]))
  | uploadFile z size g u f p =>
    exact h.uploadFile (hc z (by simp [Command.args])) (hc size (by simp [Command.args]))
      (hc g (by simp [Command.args])) (hc u (by simp [Command.args]))
      (hc f (by simp [Command.args])) (hc p (by simp [Command.args]))
  | stopShare g f u => exact h.stopShare g f u
  | leaveGroup g u => exact h.leaveGroup g u
  | logout u => exact h.logout u
  | giveSha g f u => exact h.giveSha (hc g (by simp [Command.args])) (hc f (by simp [Command.args]))
  | addFile g f p u =>
    exact h.addFile (hc g (by simp [Command.args])) (hc f (by simp [Command.args]))
      (hc p (by simp [Command.args])) (hc u (by simp [Command.args]))
  | complete g f p u =>
    exact h.complete u (hc g (by simp [Command.args])) (hc f (by simp [Command.args]))
  | sendFullPath u g f => exact h
  | _ => exact h.refresh

end Sound

end Registry

end TorrentShare
