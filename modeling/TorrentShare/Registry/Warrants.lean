import TorrentShare.Registry.Users

/-!
# What commands warrant

Each entry of a registry has been asked for: a command has been processed that names the user and
the thing. Entries stay warranted when more commands are processed.
-/

namespace TorrentShare

/-- The command may enter something for a user. -/
def Command.Enters : Command → Prop
  | .createGroup .. | .joinGroup .. | .acceptRequest .. | .uploadFile .. | .giveSha .. => True
  | .addFile .. | .complete ..                                                         => True
  | _                                                                                  => False

namespace Registry

/-- There are commands for the entries of a registry. -/
structure Warranted (did : Command → Prop) (R : Registry Str) : Prop where
  owner : ∀ g o, R.owner g = some o → did (.createGroup g o)
  requests : ∀ u g, (u, g) ∈ R.requests → did (.joinGroup g u)
  remembered : ∀ u g, (u, g) ∈ R.remembered → did (.joinGroup g u)
  members : ∀ g, ∀ u ∈ R.members g, R.owner g = some u ∨
    did (.joinGroup g u) ∧ ∃ o, R.owner g = some o ∧ did (.acceptRequest g u o)
  shares : ∀ g, ∀ s ∈ R.shares g, (∃ f p, did (.uploadFile s.hash s.size g s.user f p)) ∨
    ∃ p, did (.addFile g s.name p s.user)
  copies : ∀ u, ∀ c ∈ R.copies u, (∃ h z f, did (.uploadFile h z c.group u f c.path)) ∨
    did (.addFile c.group c.name c.path u)
  downloading : ∀ u, ∀ x ∈ R.downloading u, did (.giveSha x.1 x.2 u)
  downloaded : ∀ u, ∀ x ∈ R.downloaded u, ∃ p, did (.complete x.1 x.2 p u)

section Warrants

variable {sha256 : Str → List (Fin 256)} {R : Registry Str} {did did' : Command → Prop}
  {salt u p : Str} {c : Command} {a : Act}

lemma empty_warranted (did : Command → Prop) : Warranted did empty := by
  constructor <;> simp [empty]

/-- More commands warrant no less. -/
lemma Warranted.mono (h : Warranted did R) (hdid : ∀ c, c.Enters → did c → did' c) :
    Warranted did' R where
  owner g o ho := hdid _ trivial (h.owner g o ho)
  requests u g hg := hdid _ trivial (h.requests u g hg)
  remembered u g hg := hdid _ trivial (h.remembered u g hg)
  members g u hu := (h.members g u hu).imp_right fun hin =>
    ⟨hdid _ trivial hin.1, hin.2.imp fun _ ho => ⟨ho.1, hdid _ trivial ho.2⟩⟩
  shares g s hs := (h.shares g s hs).imp
    (Exists.imp fun _ => Exists.imp fun _ => hdid _ trivial) (Exists.imp fun _ => hdid _ trivial)
  copies u c hc := (h.copies u c hc).imp
    (Exists.imp fun _ => Exists.imp fun _ => Exists.imp fun _ => hdid _ trivial) (hdid _ trivial)
  downloading u x hx := hdid _ trivial (h.downloading u x hx)
  downloaded u x hx := (h.downloaded u x hx).imp fun _ => hdid _ trivial

lemma Warranted.refresh (h : Warranted did R) : Warranted did R.refresh :=
  { h with remembered := h.requests }

/-- The entries under one key are new. -/
lemma forall_mem_update {α : Type} {f : Str → List α} {k : Str} {xs : List α} {Q : Str → α → Prop}
    (h : ∀ j, ∀ x ∈ f j, Q j x) (hxs : ∀ x ∈ xs, Q k x) :
    ∀ j, ∀ x ∈ Function.update f k xs j, Q j x := by
  intro j x hx
  rw [Function.update_apply] at hx
  split_ifs at hx with hj
  · exact hj ▸ hxs x hx
  · exact h j x hx

lemma forall_mem_concat {α : Type} {f : Str → List α} {k : Str} {y : α} {Q : Str → α → Prop}
    (h : ∀ j, ∀ x ∈ f j, Q j x) (hy : Q k y) :
    ∀ j, ∀ x ∈ Function.update f k (f k ++ [y]) j, Q j x :=
  forall_mem_update h (List.forall_mem_append.mpr ⟨h k, List.forall_mem_singleton.mpr hy⟩)

lemma forall_mem_filter {α : Type} {f : Str → List α} {k : Str} {keep : α → Bool}
    {Q : Str → α → Prop} (h : ∀ j, ∀ x ∈ f j, Q j x) :
    ∀ j, ∀ x ∈ Function.update f k ((f k).filter keep) j, Q j x :=
  forall_mem_update h fun x hx => h k x (List.mem_of_mem_filter hx)

/-- A command warrants what it adds. -/
lemma Warranted.command (h : Warranted did R) (hc : did c) :
    Warranted did (R.command sha256 salt c).2 := by
  have hrefresh := h.refresh
  cases c with
  | login u p port ip =>
    rw [Registry.command, login]
    split_ifs
    · exact { hrefresh with }
    · exact hrefresh
    · exact hrefresh
  | createUser u p port ip =>
    rw [Registry.command, createUser]
    split_ifs
    · exact { hrefresh with
        copies := forall_mem_update h.copies (List.forall_mem_nil _)
        downloading := forall_mem_update h.downloading (List.forall_mem_nil _)
        downloaded := forall_mem_update h.downloaded (List.forall_mem_nil _) }
    · exact hrefresh
  | createGroup k v =>
    rw [Registry.command, createGroup]
    split_ifs with hnew
    · refine { hrefresh with
        owner := fun g o ho => ?_, members := fun g u hu => ?_
        shares := forall_mem_update h.shares (List.forall_mem_nil _) }
      · simp only [Function.update_apply] at ho
        split_ifs at ho with hg
        · cases ho
          exact hg ▸ hc
        · exact h.owner g o ho
      · simp only [Function.update_apply] at hu ⊢
        split_ifs at hu ⊢
        · exact Or.inl (congrArg some hu.symm)
        · exact h.members g u hu
    · exact hrefresh
  | joinGroup k v =>
    rw [Registry.command, joinGroup]
    split_ifs
    · exact h
    · exact h
    · refine { h with requests := fun u g hg => ?_, remembered := fun u g hg => ?_ }
      · rcases hg with heq | hg
        · cases heq
          exact hc
        · exact h.requests u g hg
      · rcases hg with heq | hg
        · cases heq
          exact hc
        · exact h.remembered u g hg
  | acceptRequest k v o =>
    rw [Registry.command, acceptRequest]
    split_ifs with hgranted
    · exact h
    · refine { h with
        members := fun g u hu => ?_, requests := fun u g hg => h.requests u g hg.1 }
      simp only [Function.update_apply] at hu
      split_ifs at hu with hg
      · subst hg
        rcases hu with rfl | hu
        · exact Or.inr ⟨h.remembered u g hgranted.2.2, o, hgranted.1, hc⟩
        · exact h.members g u hu
      · exact h.members g u hu
    · exact h
  | uploadFile z size k v f p =>
    rw [Registry.command, uploadFile]
    split_ifs
    · exact h
    · exact h
    · exact h
    · exact { h with
        shares := forall_mem_concat h.shares (Or.inl ⟨f, p, hc⟩)
        copies := forall_mem_concat h.copies (Or.inl ⟨z, size, f, hc⟩) }
  | stopShare k f v =>
    rw [Registry.command, stopShare]
    split_ifs
    · exact { h with shares := forall_mem_filter h.shares, copies := forall_mem_filter h.copies }
    · exact h
  | leaveGroup k v =>
    rw [Registry.command, leaveGroup]
    split_ifs
    · refine { hrefresh with
        members := fun g u hu => ?_, shares := forall_mem_filter h.shares
        copies := forall_mem_filter h.copies }
      simp only [Function.update_apply] at hu
      split_ifs at hu with hg
      · exact h.members g u (hg ▸ hu.1)
      · exact h.members g u hu
    · exact h
  | giveSha k f v =>
    rw [Registry.command, giveSha]
    split_ifs
    · exact { hrefresh with downloading := forall_mem_concat h.downloading hc }
    · exact hrefresh
  | addFile k f p v =>
    rw [Registry.command, addFile]
    split_ifs
    · exact hrefresh
    · exact { hrefresh with
        shares := forall_mem_concat h.shares (Or.inr ⟨p, hc⟩)
        copies := forall_mem_concat h.copies (Or.inr hc) }
  | complete k f p v =>
    exact { hrefresh with
      downloading := forall_mem_filter h.downloading
      downloaded := forall_mem_concat h.downloaded ⟨p, hc⟩ }
  | logout v =>
    rw [Registry.command, logout]
    split_ifs
    · exact hrefresh
    · exact { hrefresh with }
  | sendFullPath v k f => exact h
  | _ => exact hrefresh

/-- Accounts stay as they are made. -/
lemma Knows.act (h : R.Knows (hashPassword sha256) u p) :
    (R.act sha256 a).2.Knows (hashPassword sha256) u p := by
  cases a with
  | restart => exact h
  | command c salt online =>
    by_cases hcreate : ∃ v q port ip, c = .createUser v q port ip
    · obtain ⟨v, q, port, ip, rfl⟩ := hcreate
      rw [Registry.act, Registry.command, createUser]
      split_ifs with hnew
      · obtain ⟨password, s, haccount, hdigest⟩ := h
        have hu : u ≠ v := by
          rintro rfl
          rw [hnew] at haccount
          cases haccount
        exact ⟨password, s, (Function.update_of_ne hu _ _).trans haccount, hdigest⟩
      · exact h
    · rw [Registry.act, Knows, command_account fun v q port ip hc => hcreate ⟨v, q, port, ip, hc⟩]
      exact h

lemma command_signIn (sha256 : Str → List (Fin 256)) (R : Registry Str) (salt : Str)
    {port ip : Str} (hc : c = .login u p port ip ∨ c = .createUser u p port ip) :
    ∃ b, (R.command sha256 salt c).1 = .done b := by
  rcases hc with rfl | rfl
  · rw [Registry.command, login]
    split_ifs <;> exact ⟨_, rfl⟩
  · rw [Registry.command, createUser]
    split_ifs <;> exact ⟨_, rfl⟩

/-- Who is let in knows the password of the account. -/
lemma knows_of_granted {port ip : Str} (hc : c = .login u p port ip ∨ c = .createUser u p port ip)
    (h : (R.command sha256 salt c).1.Tells (some ['1'])) :
    (R.command sha256 salt c).2.Knows (hashPassword sha256) u p := by
  rcases hc with rfl | rfl
  · rw [Registry.command, login] at h ⊢
    split_ifs at h ⊢ with hknows
    · exact hknows
    · exact hknows
    · cases h
  · rw [Registry.command, createUser] at h ⊢
    split_ifs at h ⊢ with hnew
    · exact ⟨p, salt, Function.update_self .., rfl⟩
    · cases h

end Warrants

end Registry

section Credentials

variable {sha256 : Str → List (Fin 256)} {E : Entities} {R : Registry Str} {t : Tracker}
  {u p : Str}

/-- What the credentials file holds about an account. -/
lemma Tracker.Represents.credential (h : t.Represents sha256 E R) (u : Str) :
    t.disk.credential u = (R.account u).map fun a =>
      (⟨u, a.1, a.2⟩ : Account).credential (hashPassword sha256) := by
  obtain ⟨F, P, hd, hF, -⟩ := h.filed
  obtain ⟨m, hm⟩ := hF.reload hd {}
  rw [Disk.credential, ← hF.lookup_credentials h.sound hd hm u, credentials_reload hm]

/-- The credentials file confirms the password. -/
def Disk.Confirms (sha256 : Str → List (Fin 256)) (d : Disk) (u p : Str) : Prop :=
  ∃ salt, d.credential u = some ((⟨u, p, salt⟩ : Account).credential (hashPassword sha256))

lemma Tracker.Represents.confirms (h : t.Represents sha256 E R)
    (hknows : R.Knows (hashPassword sha256) u p) : t.disk.Confirms sha256 u p := by
  obtain ⟨password, salt, haccount, hdigest⟩ := hknows
  refine ⟨salt, ?_⟩
  rw [h.credential, haccount, Option.map_some, Account.credential, Account.credential, hdigest]

end Credentials

end TorrentShare
