import TorrentShare.Tracker.Edits

/-!
# Running handlers

What the calls of a handler do when it runs without interruption, and what its scans of a file
find.
-/

namespace TorrentShare

open Program

/-! ### Records of a file -/

/-- The line has the field. -/
def hasField (i : ℕ) (x : Str) (l : Str) : Bool := fieldIs i x (split l ' ') == some true

@[simp] lemma hasField_iff {i : ℕ} {x l : Str} :
    hasField i x l = true ↔ (split l ' ')[i]? = some x := by
  rw [hasField, fieldIs]
  cases (split l ' ')[i]? with
  | none => simp
  | some y => simp

/-- The test of `GroupStopShare`. -/
lemma andThen_eq_hasField (i j : ℕ) (x y : Str) :
    (fun l => andThen (fieldIs i x) (fieldIs j y) (split l ' ') == some true) =
      fun l => hasField i x l && hasField j y l := by
  funext l
  unfold andThen hasField
  cases fieldIs i x (split l ' ') with
  | none => rfl
  | some b => cases b <;> simp

/-- The table that the lines of `.credential.txt` give. -/
def credentialsOf (ls : List Str) : List (Str × Str) :=
  (readPairs ([], []) ls).1.foldl (fun t e => tableSet e.1 e.2 t) []

/-- The credential of a user, if there is one. -/
def Disk.credential (d : Disk) (user : Str) : Option Str :=
  (credentialsOf (d.lines credentialFile)).lookup user

/-- The first record with a field. -/
def recordOf (i : ℕ) (x : Str) (ls : List Str) : Option (List Str) :=
  (ls.map (split · ' ')).find? fun v => v[i]? == some x

/-- A field of a record, or nothing. -/
def fieldOr (found : Option (List Str)) (i : ℕ) : Str := (found.bind (·[i]?)).getD []

/-! ### Scans -/

lemma readPairs_append (target : Str × Str) (ls ls' : List Str) :
    readPairs target (ls ++ ls') = ((readPairs target ls).1 ++
      (readPairs (readPairs target ls).2 ls').1, (readPairs (readPairs target ls).2 ls').2) := by
  induction ls generalizing target with
  | nil => rfl
  | cons l ls ih => simp [readPairs, ih]

lemma fieldIs_eq_some {i : ℕ} {x : Str} {v : List Str} {b : Bool} (h : fieldIs i x v = some b) :
    b = (v[i]? == some x) := by
  rw [fieldIs, Option.map_eq_some_iff] at h
  obtain ⟨y, hy, rfl⟩ := h
  rw [hy]
  by_cases hyx : y = x <;> simp [hyx]

/-- A scan for a field finds the first record with it. -/
lemma findRecord_fieldIs {i : ℕ} {x : Str} {ls : List Str} {found : Option (List Str)}
    (h : findRecord (fieldIs i x) ls = some found) : found = recordOf i x ls := by
  induction ls with
  | nil =>
    cases h
    rfl
  | cons l ls ih =>
    simp only [findRecord, Option.bind_eq_some_iff] at h
    obtain ⟨b, hb, h⟩ := h
    rw [recordOf, List.map_cons, List.find?_cons, ← fieldIs_eq_some hb]
    cases b with
    | true => exact (Option.some.inj h).symm
    | false => exact ih h

/-- A scan that finds nothing has looked at every record. -/
lemma findRecord_none {test : List Str → Option Bool} {ls : List Str}
    (h : findRecord test ls = some none) : ∀ l ∈ ls, test (split l ' ') = some false := by
  induction ls with
  | nil => simp
  | cons l ls ih =>
    simp only [findRecord, Option.bind_eq_some_iff] at h
    obtain ⟨b, hb, h⟩ := h
    cases b with
    | true => cases h
    | false => exact List.forall_mem_cons.mpr ⟨hb, ih h⟩

/-- A record that a scan stops at passes the test. -/
lemma findRecord_some {test : List Str → Option Bool} {ls : List Str} {v : List Str}
    (h : findRecord test ls = some (some v)) :
    ∃ l ∈ ls, v = split l ' ' ∧ test (split l ' ') = some true := by
  induction ls with
  | nil => cases h
  | cons l ls ih =>
    simp only [findRecord, Option.bind_eq_some_iff] at h
    obtain ⟨b, hb, h⟩ := h
    cases b with
    | true =>
      simp only [if_true, Option.some.injEq] at h
      exact ⟨l, List.mem_cons_self .., h.symm, hb⟩
    | false =>
      obtain ⟨l', hl', hv⟩ := ih h
      exact ⟨l', List.mem_cons_of_mem _ hl', hv⟩

lemma andThen_eq_true {i j : ℕ} {x y : Str} {v : List Str} :
    andThen (fieldIs i x) (fieldIs j y) v = some true ↔ v[i]? = some x ∧ v[j]? = some y := by
  unfold andThen fieldIs
  cases v[i]? with
  | none => simp
  | some a =>
    by_cases ha : a = x
    · cases v[j]? with
      | none => simp [ha]
      | some b => simp [ha]
    · simp [ha]

/-- A field that is read in bounds. -/
lemma elim_eq_fieldOr {found : Option (List Str)} {i : ℕ} {w : Str}
    (h : found.elim (some []) (·[i]?) = some w) : w = fieldOr found i := by
  cases found with
  | none =>
    cases h
    rfl
  | some v =>
    have hv : v[i]? = some w := h
    rw [fieldOr, Option.bind_some, hv]
    rfl

/-- A field has no delimiter. -/
lemma delim_not_mem_split {l w : Str} {c : Char} (h : w ∈ split l c) : c ∉ w := by
  induction l generalizing w with
  | nil =>
    rw [split, List.splitOn_nil, List.mem_singleton] at h
    subst h
    exact List.not_mem_nil
  | cons x xs ih =>
    rw [split, List.splitOn_cons_eq_if_modifyHead] at h
    split_ifs at h with hx
    · rcases List.mem_cons.mp h with rfl | h
      · exact List.not_mem_nil
      · exact ih h
    · cases hxs : xs.splitOn c with
      | nil =>
        rw [hxs] at h
        cases h
      | cons v vs =>
        rw [hxs, List.modifyHead_cons] at h
        rcases List.mem_cons.mp h with rfl | h
        · have hv : c ∉ v := ih (by rw [split, hxs]; exact List.mem_cons_self ..)
          have hxc : c ≠ x := fun he => hx (by simp [he])
          simp [hxc, hv]
        · exact ih (by rw [split, hxs]; exact List.mem_cons_of_mem _ h)

/-- There is always a first field. -/
lemma exists_first_field (l : Str) (c : Char) : ∃ v, (split l c)[0]? = some v := by
  cases hsplit : split l c with
  | nil => exact absurd hsplit (List.splitOn_ne_nil c l)
  | cons v vs => exact ⟨v, rfl⟩

/-- A word is a record of one field. -/
lemma split_word {w : Str} (h : ' ' ∉ w) : split w ' ' = [w] :=
  List.splitOn_eq_singleton h

/-- The first record of a name. -/
lemma recordOf_eq_some {i : ℕ} {x : Str} {ls : List Str} {v : List Str}
    (h : recordOf i x ls = some v) : ∃ l ∈ ls, v = split l ' ' ∧ (split l ' ')[i]? = some x := by
  have hv := List.find?_some h
  obtain ⟨l, hl, rfl⟩ := List.mem_map.mp (List.mem_of_find?_eq_some h)
  exact ⟨l, hl, rfl, by simpa using hv⟩

lemma recordOf_eq_none {i : ℕ} {x : Str} {ls : List Str} (h : recordOf i x ls = none) :
    ∀ l ∈ ls, (split l ' ')[i]? ≠ some x := by
  intro l hl hx
  have hnone := List.find?_eq_none.mp h (split l ' ') (List.mem_map_of_mem hl)
  simp [hx] at hnone

/-- A field that is read is one of a line. -/
lemma fieldOr_recordOf (i j : ℕ) (x : Str) (ls : List Str) :
    fieldOr (recordOf i x ls) j = [] ∨ ∃ l ∈ ls, fieldOr (recordOf i x ls) j ∈ split l ' ' := by
  cases hfound : recordOf i x ls with
  | none => exact Or.inl rfl
  | some v =>
    obtain ⟨l, hl, rfl, -⟩ := recordOf_eq_some hfound
    rw [fieldOr, Option.bind_some]
    cases hw : (split l ' ')[j]? with
    | none => exact Or.inl rfl
    | some w => exact Or.inr ⟨l, hl, List.mem_of_getElem? hw⟩

/-- What is read from a line has no newline. -/
lemma newline_fieldOr (d : Disk) (p : Path) (i j : ℕ) (x : Str) :
    '\n' ∉ fieldOr (recordOf i x (d.lines p)) j := by
  rcases fieldOr_recordOf i j x (d.lines p) with hnil | ⟨l, hl, hw⟩
  · rw [hnil]
    exact List.not_mem_nil
  · exact not_mem_of_mem_split hw (not_mem_of_mem_getlines hl)

lemma blank_fieldOr (ls : List Str) (i j : ℕ) (x : Str) : ' ' ∉ fieldOr (recordOf i x ls) j := by
  rcases fieldOr_recordOf i j x ls with hnil | ⟨l, hl, hw⟩
  · rw [hnil]
    exact List.not_mem_nil
  · exact delim_not_mem_split hw

/-! ### Lines with two fields -/

/-- One of the lines has the two fields. -/
def HasPair (i j : ℕ) (x y : Str) (ls : List Str) : Prop :=
  ∃ l ∈ ls, (split l ' ')[i]? = some x ∧ (split l ' ')[j]? = some y

section Pairs

variable {i j : ℕ} {x y : Str} {ls : List Str}

lemma hasPair_append (l : Str) : HasPair i j x y (ls ++ [l]) ↔
    HasPair i j x y ls ∨ (split l ' ')[i]? = some x ∧ (split l ' ')[j]? = some y := by
  constructor
  · rintro ⟨l', hl', hpair⟩
    rcases List.mem_append.mp hl' with hl' | hl'
    · exact Or.inl ⟨l', hl', hpair⟩
    · rw [List.mem_singleton.mp hl'] at hpair
      exact Or.inr hpair
  · rintro (⟨l', hl', hpair⟩ | hpair)
    · exact ⟨l', List.mem_append_left _ hl', hpair⟩
    · exact ⟨l, by simp, hpair⟩

/-- Lines with the two fields are dropped all or none. -/
lemma hasPair_filter {test : Str → Bool} {b : Prop}
    (h : ∀ l, (split l ' ')[i]? = some x → (split l ' ')[j]? = some y → (test l = true ↔ b)) :
    HasPair i j x y (ls.filter (!test ·)) ↔ HasPair i j x y ls ∧ ¬ b := by
  constructor
  · rintro ⟨l, hl, hx, hy⟩
    rw [List.mem_filter] at hl
    refine ⟨⟨l, hl.1, hx, hy⟩, fun hb => ?_⟩
    have htest := (h l hx hy).mpr hb
    simp [htest] at hl
  · rintro ⟨⟨l, hl, hx, hy⟩, hb⟩
    refine ⟨l, List.mem_filter.mpr ⟨hl, ?_⟩, hx, hy⟩
    have htest : test l ≠ true := fun htest => hb ((h l hx hy).mp htest)
    simpa using htest

end Pairs

/-! ### Running handlers -/

/-- A file is there after it has been written, or if it has been there. -/
lemma Disk.read_create_ne_none {d : Disk} {p q : Path} (c : Str)
    (h : d.read q ≠ none ∨ cStr q = cStr p ∧ openable (cStr q) = true) :
    (d.create p c).read q ≠ none := by
  rw [Disk.read_create]
  split_ifs with hq
  · exact Option.some_ne_none _
  · exact h.resolve_right hq

lemma Disk.read_append_ne_none {d : Disk} {p q : Path} (c : Str)
    (h : d.read q ≠ none ∨ cStr q = cStr p ∧ openable (cStr q) = true) :
    (d.append p c).read q ≠ none :=
  Disk.read_create_ne_none _ h

section Run

variable {α : Type} (s : Session)

lemma run_lock_bind (f : Unit → Prog callSig α) :
    (call .lock >>= f).run callInterp s = (f ()).run callInterp s := by
  simp [call, primInterp]

lemma run_unlock_bind (f : Unit → Prog callSig α) :
    (call .unlock >>= f).run callInterp s = (f ()).run callInterp s := by
  simp [call, primInterp]

lemma run_modify_bind (change : Memory → Memory) (f : Unit → Prog callSig α) :
    (call (.modify change) >>= f).run callInterp s =
      (f ()).run callInterp (s.setMemory (change s.memory)) := by
  simp [call, primInterp]

lemma run_read_bind (p : Path) (f : Option Str → Prog callSig α) :
    (call (.read p) >>= f).run callInterp s = (f (s.disk.read p)).run callInterp s := by
  simp [call, primInterp]

lemma run_append_bind (p : Path) (c : Str) (f : Unit → Prog callSig α) :
    (call (.append p c) >>= f).run callInterp s =
      (f ()).run callInterp (s.setDisk (s.disk.append p c)) := by
  simp [call, primInterp]

lemma run_create_bind (p : Path) (c : Str) (f : Unit → Prog callSig α) :
    (call (.create p c) >>= f).run callInterp s =
      (f ()).run callInterp (s.setDisk (s.disk.create p c)) := by
  simp [call, primInterp]

lemma run_generateSalt_bind (f : Str → Prog callSig α) :
    (call .generateSalt >>= f).run callInterp s = (f s.salt).run callInterp s := by
  simp [call, primInterp]

lemma run_checked_bind {β : Type} (x : Option β) (f : β → Prog callSig α) :
    (checked x >>= f).run callInterp s = x.bind fun b => (f b).run callInterp s := by
  cases x <;> simp [checked, primInterp]

lemma run_rewrite_bind (mode : OpenMode) (p : Path) (drop : Str → Option Bool)
    (f : Unit → Prog callSig α) :
    (rewrite mode p drop >>= f).run callInterp s = (keptLines drop (s.disk.lines p)).bind fun ks =>
      (f ()).run callInterp (s.setDisk (s.disk.rewritten mode p ks)) := by
  simp only [rewrite, Prog.call_bind, Prog.ret_bind, Prog.run_call, callInterp_rewrite]
  cases keptLines drop (s.disk.lines p) with
  | none => rfl
  | some ks => rfl

variable {s}

/-- A transfer changes nothing but the list of what was sent. -/
lemma of_run_sync {p : Path} {f : Unit → Prog callSig α} {r : α × Session}
    (h : (call (.sync p) >>= f).run callInterp s = some r) :
    ∃ sent, (f ()).run callInterp { s with sent := sent } = some r := by
  simp only [call, Prog.call_bind, Prog.ret_bind, Prog.run_call, callInterp_prim,
    Option.bind_eq_some_iff] at h
  obtain ⟨_, hs, h⟩ := h
  obtain ⟨sent, hsent⟩ := primInterp_sync hs
  rw [hsent] at h
  exact ⟨sent, h⟩

/-- A file that is there is sent. -/
lemma run_sync_of_read {p : Path} (f : Unit → Prog callSig α) (hp : s.disk.read p ≠ none) :
    ∃ sent, (call (.sync p) >>= f).run callInterp s =
      (f ()).run callInterp { s with sent := sent } := by
  obtain ⟨c, hc⟩ := Option.ne_none_iff_exists'.mp hp
  simp only [call, Prog.call_bind, Prog.ret_bind, Prog.run_call, callInterp_prim, primInterp,
    Session.sync, hc]
  split_ifs
  · exact ⟨_, rfl⟩
  · exact ⟨s.sent, rfl⟩

lemma foldl_addCredential (es : List (Str × Str)) (m : Memory) :
    (es.foldl Memory.addCredential m).credentials =
      es.foldl (fun t e => tableSet e.1 e.2 t) m.credentials := by
  induction es generalizing m with
  | nil => rfl
  | cons e es ih => exact ih (m.addCredential e)

lemma Memory.credentials_addOnline (m : Memory) (e : Str × Str × Str) :
    (m.addOnline e).credentials = m.credentials := rfl

lemma Memory.credentials_addGroup (m : Memory) (e : Str × Str) :
    (m.addGroup e).credentials = m.credentials := rfl

lemma Memory.credentials_addPending (m : Memory) (e : Str × Str) :
    (m.addPending e).credentials = m.credentials := rfl

/-- The table of credentials after `FetchDetails` is the one the file gives. -/
lemma credentials_reload {m m' : Memory} {d : Disk} (h : m.reload d = some m') :
    m'.credentials = credentialsOf (d.lines credentialFile) := by
  simp only [Memory.reload, Memory.load, Option.bind_eq_some_iff, Option.map_eq_some_iff] at h
  obtain ⟨online, -, groups, -, rfl⟩ := h
  rw [foldl_keep Memory.credentials Memory.credentials_addPending,
    foldl_keep Memory.credentials Memory.credentials_addGroup,
    foldl_keep Memory.credentials Memory.credentials_addOnline, foldl_addCredential]
  rfl

/-- `FetchDetails` changes no text and makes the tables what the files say. -/
lemma of_run_fetchDetails {f : Unit → Prog callSig α} {r : α × Session}
    (h : (fetchDetails >>= f).run callInterp s = some r) :
    ∃ s₁ : Session, (∀ p, s₁.disk.text p = s.disk.text p) ∧
      s₁.memory.groups = ownersOf (s.disk.lines groupFile) ∧
      s₁.memory.credentials = credentialsOf (s.disk.lines credentialFile) ∧ s₁.salt = s.salt ∧
      (f ()).run callInterp s₁ = some r := by
  rw [run_fetchDetails_bind, Option.bind_eq_some_iff] at h
  obtain ⟨m, hm, h⟩ := h
  exact ⟨(s.setDisk s.disk.reloaded).setMemory m, s.disk.text_reloaded, groups_reload hm,
    credentials_reload hm, rfl, h⟩

/-- `FetchGroupMembers` makes `group_members` what the file of the group says. -/
lemma of_run_fetchGroupMembers {g : Str} {f : Unit → Prog callSig α} {r : α × Session}
    (h : (fetchGroupMembers g >>= f).run callInterp s = some r) :
    ∃ s₁ : Session, s₁.disk = s.disk ∧ s₁.memory.groups = s.memory.groups ∧
      (∀ u, u ∈ s₁.memory.groupMembers ↔ u ∈ s.disk.lines (membersFile g)) ∧
      (f ()).run callInterp s₁ = some r := by
  rw [run_fetchGroupMembers_bind] at h
  exact ⟨s.setMemory { s.memory with groupMembers := s.disk.members g }, rfl, rfl,
    fun u => s.disk.mem_members g u, h⟩

/-- `DeleteLine` drops the lines with the field. -/
lemma of_run_deleteLine {p : Path} {data : Str} {i : ℕ} {f : Unit → Prog callSig α}
    {r : α × Session} (h : (deleteLine p data i >>= f).run callInterp s = some r)
    (ht : s.disk.Tidy) (hp : cStr p ≠ tempFile) :
    ∃ s₁ : Session, s.disk.Edited [dropLines p (hasField i data)] s₁.disk ∧
      s₁.memory = s.memory ∧ (f ()).run callInterp s₁ = some r := by
  rw [Prog.run_bind, Option.bind_eq_some_iff] at h
  obtain ⟨⟨⟨⟩, s₁⟩, hdelete, h⟩ := h
  rw [deleteLine, run_lock_bind, run_rewrite_bind, Option.bind_eq_some_iff] at hdelete
  obtain ⟨ks, hks, hdelete⟩ := hdelete
  cases hdelete
  exact ⟨s.setDisk (s.disk.rewritten .app p ks), Disk.edited_rewritten .app ht hp hks, rfl, h⟩

lemma of_run_deleteWholeLine {p : Path} {data : Str} {f : Unit → Prog callSig α}
    {r : α × Session} (h : (deleteWholeLine p data >>= f).run callInterp s = some r)
    (ht : s.disk.Tidy) (hp : cStr p ≠ tempFile) :
    ∃ s₁ : Session, s.disk.Edited [dropLines p (· == data)] s₁.disk ∧
      s₁.memory = s.memory ∧ (f ()).run callInterp s₁ = some r := by
  rw [Prog.run_bind, Option.bind_eq_some_iff] at h
  obtain ⟨⟨⟨⟩, s₁⟩, hdelete, h⟩ := h
  rw [deleteWholeLine, run_lock_bind, run_rewrite_bind, Option.bind_eq_some_iff] at hdelete
  obtain ⟨ks, hks, hdelete⟩ := hdelete
  cases hdelete
  have hedited := Disk.edited_rewritten .app ht hp hks
  have htest : (fun l => (some (decide (l = data)) == some true)) = fun l => l == data := by
    funext l
    by_cases hl : l = data <;> simp [hl]
  rw [htest] at hedited
  exact ⟨s.setDisk (s.disk.rewritten .app p ks), hedited, rfl, h⟩

/-- The user has a record for the hash. -/
lemma run_checkGroupFiles {h u : Str} {p : Path} {b : Bool} {s' : Session}
    (hrun : (checkGroupFiles h p u).run callInterp s = some (b, s')) :
    s' = s ∧ (b = true ↔ HasPair 0 2 h u (s.disk.lines p)) := by
  rw [checkGroupFiles, run_read_bind, run_lock_bind, run_checked_bind,
    Option.bind_eq_some_iff] at hrun
  obtain ⟨found, hfound, hrun⟩ := hrun
  cases hrun
  refine ⟨rfl, ?_⟩
  cases found with
  | some v =>
    obtain ⟨l, hl, -, htest⟩ := findRecord_some hfound
    exact iff_of_true rfl ⟨l, hl, andThen_eq_true.mp htest⟩
  | none =>
    refine iff_of_false Bool.false_ne_true ?_
    rintro ⟨l, hl, hpair⟩
    have htest := findRecord_none hfound l hl
    rw [andThen_eq_true.mpr hpair] at htest
    cases htest

/-- The name that is listed for the hash. -/
lemma run_getGroupFileName {h : Str} {p : Path} {name : Str} {s' : Session}
    (hrun : (getGroupFileName h p).run callInterp s = some (name, s')) :
    s' = s ∧ name = fieldOr (recordOf 0 h (s.disk.lines p)) 3 := by
  rw [getGroupFileName, run_lock_bind, run_read_bind, run_checked_bind,
    Option.bind_eq_some_iff] at hrun
  obtain ⟨found, hfound, hrun⟩ := hrun
  rw [run_checked_bind, Option.bind_eq_some_iff] at hrun
  obtain ⟨w, hw, hrun⟩ := hrun
  cases hrun
  refine ⟨rfl, ?_⟩
  rw [elim_eq_fieldOr hw, findRecord_fieldIs hfound]
  rfl

/-- Without a clash every record of the name has the hash. -/
lemma run_checkIntegrity {h f : Str} {p : Path} {b : Bool} {s' : Session}
    (hrun : (checkIntegrity h p f).run callInterp s = some (b, s')) :
    s' = s ∧ (b = false → ∀ l ∈ s.disk.lines p,
      (split l ' ')[3]? = some f → (split l ' ')[0]? = some h) := by
  rw [checkIntegrity, run_lock_bind, run_read_bind, run_checked_bind,
    Option.bind_eq_some_iff] at hrun
  obtain ⟨found, hfound, hrun⟩ := hrun
  cases hrun
  refine ⟨rfl, fun hnone l hl hname => ?_⟩
  cases found with
  | some v => cases hnone
  | none =>
    have htest := findRecord_none hfound l hl
    simp only [andThen, Option.bind_eq_some_iff, Option.map_eq_some_iff] at htest
    obtain ⟨_, ⟨b, hb, rfl⟩, htest⟩ := htest
    have hb' := fieldIs_eq_some hb
    cases b with
    | true => simpa using hb'.symm
    | false => simp [fieldIs, hname] at htest

end Run

end TorrentShare
