import TorrentShare.Tracker.OpenSyncs

/-!
# Commands with names that cannot be stored

No handler looks at the names it is given. A command whose files cannot be stored is turned away
only if it would have been turned away anyway.
-/

namespace TorrentShare

open Program

/-! ### Running handlers -/

section Run

variable {α : Type} (s : Session)

lemma limited_memory_bind (f : Memory → Prog callSig α) :
    (call .memory >>= f).run limitedInterp s = (f s.memory).run limitedInterp s := by
  simp [call, limitedPrim, primInterp]

lemma limited_lock_bind (f : Unit → Prog callSig α) :
    (call .lock >>= f).run limitedInterp s = (f ()).run limitedInterp s := by
  simp [call, limitedPrim, primInterp]

lemma limited_unlock_bind (f : Unit → Prog callSig α) :
    (call .unlock >>= f).run limitedInterp s = (f ()).run limitedInterp s := by
  simp [call, limitedPrim, primInterp]

lemma limited_read_bind (p : Path) (f : Option Str → Prog callSig α) :
    (call (.read p) >>= f).run limitedInterp s =
      (f (s.disk.read (clip p))).run limitedInterp s := by
  simp [call, limitedPrim, primInterp]

lemma limited_append_bind (p : Path) (c : Str) (f : Unit → Prog callSig α) :
    (call (.append p c) >>= f).run limitedInterp s =
      (f ()).run limitedInterp (s.setDisk (s.disk.append (clip p) c)) := by
  simp [call, limitedPrim, primInterp]

lemma limited_sync_bind (p : Path) (f : Unit → Prog callSig α) :
    (call (.sync p) >>= f).run limitedInterp s =
      (s.sync (clip p)).bind fun s' => (f ()).run limitedInterp s' := by
  cases h : s.sync (clip p) <;> simp [call, limitedPrim, primInterp, h]

lemma limited_checked_bind {β : Type} (x : Option β) (f : β → Prog callSig α) :
    (checked x >>= f).run limitedInterp s = x.bind fun b => (f b).run limitedInterp s := by
  cases x <;> simp [checked, limitedPrim, primInterp]

lemma limited_fetchDetails_bind (f : Unit → Prog callSig α) :
    (fetchDetails >>= f).run limitedInterp s = (s.memory.reload s.disk).bind fun m =>
      (f ()).run limitedInterp ((s.setDisk s.disk.reloaded).setMemory m) := by
  simp only [fetchDetails, Prog.call_bind, Prog.ret_bind, Prog.run_call,
    limitedInterp_fetchDetails, callInterp_fetchDetails]
  cases s.memory.reload s.disk with
  | none => rfl
  | some m => rfl

lemma limited_fetchGroupMembers_bind (group : Str) (f : Unit → Prog callSig α) :
    (fetchGroupMembers group >>= f).run limitedInterp s = (f ()).run limitedInterp
      (s.setMemory { s.memory with groupMembers := s.disk.limitedMembers group }) := by
  simp [fetchGroupMembers, limitedInterp_fetchGroupMembers]

lemma limited_rewrite_bind (mode : OpenMode) (p : Path) (drop : Str → Option Bool)
    (f : Unit → Prog callSig α) :
    (rewrite mode p drop >>= f).run limitedInterp s =
      (keptLines drop (s.disk.lines (clip p))).bind fun ks =>
        (f ()).run limitedInterp (s.setDisk (s.disk.rewritten mode (clip p) ks)) := by
  simp only [rewrite, Prog.call_bind, Prog.ret_bind, Prog.run_call, limitedInterp_rewrite,
    callInterp_rewrite]
  cases keptLines drop (s.disk.lines (clip p)) with
  | none => rfl
  | some ks => rfl

lemma limited_deleteWholeLine_bind (p : Path) (data : Str) (f : Unit → Prog callSig α) :
    (deleteWholeLine p data >>= f).run limitedInterp s =
      (keptLines (fun line => some (line = data)) (s.disk.lines (clip p))).bind fun ks =>
        (f ()).run limitedInterp (s.setDisk (s.disk.rewritten .app (clip p) ks)) := by
  rw [deleteWholeLine, Prog.bind_assoc, limited_lock_bind, Prog.bind_assoc, limited_rewrite_bind]
  rfl

variable {s}

/-- With the sibling online, a file that is sent could be stored. -/
lemma storable_of_run_sync {p : Path} {f : Unit → Prog callSig α} {r : α × Session}
    (honline : s.siblingOnline = true)
    (h : (call (.sync p) >>= f).run limitedInterp s = some r) :
    storable p = true ∧ ∃ sent, (f ()).run limitedInterp { s with sent := sent } = some r := by
  rw [limited_sync_bind, Session.sync, if_pos honline] at h
  obtain ⟨s', hs', h⟩ := Option.bind_eq_some_iff.mp h
  obtain ⟨c, hc, rfl⟩ := Option.map_eq_some_iff.mp hs'
  exact ⟨storable_of_read (by rw [hc]; exact Option.some_ne_none c), _, h⟩

end Run

/-! ### The checks of the handlers -/

/-- The records of a group have another hash for the name under which `GroupFileUpload` would list
    a new file. -/
def NameClash (filehash filename user : Str) (records : List Str) : Prop :=
  findRecord (andThen (fieldIs 0 filehash) (fieldIs 2 user)) records = some none ∧
    ∃ found stored, findRecord (fieldIs 0 filehash) records = some found ∧
      found.elim (some []) (·[3]?) = some stored ∧
      ∃ v, findRecord (andThen (fun v => (fieldIs 0 filehash v).map not)
        (fieldIs 3 (if stored ≠ [] then stored else filename))) records = some (some v)

/-- The checks of a handler turn the command away before it writes anything. -/
def Tracker.TurnedAway (t : Tracker) : Command → Prop
  | .createUser u _ _ _ =>
    ∃ m, t.memory.reload t.disk = some m ∧ m.credentials.lookup u ≠ none
  | .createGroup g _ => ∃ m, t.memory.reload t.disk = some m ∧ m.groups.lookup g ≠ none
  | .acceptRequest g u a =>
    t.memory.groups.lookup g ≠ some a ∨ t.memory.credentials.lookup u = none ∨
      (u, g) ∉ t.memory.pendingGroupRequests
  | .uploadFile h _ g u f _ =>
    t.memory.groups.lookup g = none ∨ u ∉ t.disk.limitedMembers g ∨
      NameClash h f u (t.disk.lines (clip (groupFilesFile g)))
  | .stopShare g _ u =>
    t.memory.groups.lookup g = none ∨ t.memory.credentials.lookup u = none ∨
      u ∉ t.disk.limitedMembers g
  | .leaveGroup g u =>
    t.memory.groups.lookup g = none ∨ u ∉ t.disk.limitedMembers g ∨
      t.memory.groups.lookup g = some u
  | .giveSha g _ u => ∃ m, t.memory.reload t.disk = some m ∧
      (m.groups.lookup g = none ∨ u ∉ t.disk.limitedMembers g)
  | .addFile g f _ u => t.memory.reload t.disk ≠ none ∧
      findRecord (fieldIs 3 f) (t.disk.lines (clip (groupFilesFile g))) ≠ none ∧
      ∃ v, findRecord (fieldIs 1 f) (t.disk.lines (clip (userFilesFile u))) = some (some v)
  | _ => False

/-- A handler answers with `0` and leaves all texts as they are, whether the sibling is online or
    not. -/
def Declines (p : Prog callSig Bool) (t : Tracker) : Prop :=
  ∀ online salt, ∃ s, p.run limitedInterp ⟨t, salt, online, []⟩ = some (false, s) ∧
    ∀ q, s.disk.text q = t.disk.text q

section Declines

variable {t : Tracker} {hashPassword : Str → Str → Str}

/-- A part of a handler that only answers with `1` does not decline. -/
lemma run_ne_false {p : Prog callSig Bool} (hp : p.Returns (· = true)) {s s' : Session} :
    p.run limitedInterp s ≠ some (false, s') :=
  fun hrun => Bool.false_ne_true (hp.of_run hrun)

lemma userCreate_declines (u p port ip : Str) :
    Declines (userCreate hashPassword u p port ip) t ↔
      t.TurnedAway (.createUser u p port ip) := by
  constructor
  · intro h
    obtain ⟨s, hrun, -⟩ := h true []
    rw [userCreate, limited_fetchDetails_bind, Option.bind_eq_some_iff] at hrun
    obtain ⟨m, hm, hrun⟩ := hrun
    refine ⟨m, hm, fun hnew => ?_⟩
    rw [limited_memory_bind, Session.memory_setMemory, hnew] at hrun
    refine run_ne_false ?_ hrun
    simp [Prog.Returns, call, Prog.follows_bind]
  · rintro ⟨m, hm, hold⟩ online salt
    obtain ⟨stored, hstored⟩ := Option.ne_none_iff_exists'.mp hold
    let s : Session := ⟨t, salt, online, []⟩
    refine ⟨(s.setDisk s.disk.reloaded).setMemory m, ?_, fun q => t.disk.text_reloaded q⟩
    rw [userCreate, limited_fetchDetails_bind, show s.memory.reload s.disk = some m from hm,
      Option.bind_some, limited_memory_bind, Session.memory_setMemory, hstored]
    rfl

lemma groupCreate_declines (g u : Str) :
    Declines (groupCreate g u) t ↔ t.TurnedAway (.createGroup g u) := by
  constructor
  · intro h
    obtain ⟨s, hrun, -⟩ := h true []
    rw [groupCreate, limited_fetchDetails_bind, Option.bind_eq_some_iff] at hrun
    obtain ⟨m, hm, hrun⟩ := hrun
    refine ⟨m, hm, fun hnew => ?_⟩
    rw [limited_memory_bind, Session.memory_setMemory, hnew] at hrun
    refine run_ne_false ?_ hrun
    simp [Prog.Returns, call, Prog.follows_bind]
  · rintro ⟨m, hm, hold⟩ online salt
    obtain ⟨owner, howner⟩ := Option.ne_none_iff_exists'.mp hold
    let s : Session := ⟨t, salt, online, []⟩
    refine ⟨(s.setDisk s.disk.reloaded).setMemory m, ?_, fun q => t.disk.text_reloaded q⟩
    rw [groupCreate, limited_fetchDetails_bind, show s.memory.reload s.disk = some m from hm,
      Option.bind_some, limited_memory_bind, Session.memory_setMemory, howner]
    rfl

lemma groupAcceptRequest_declines (g u a : Str) :
    Declines (groupAcceptRequest g u a) t ↔ t.TurnedAway (.acceptRequest g u a) := by
  constructor
  · intro h
    obtain ⟨s, hrun, -⟩ := h true []
    rw [groupAcceptRequest, limited_memory_bind] at hrun
    split_ifs at hrun with hguard
    · exact hguard
    · refine absurd hrun (run_ne_false ?_)
      simp [Prog.Returns, call, Prog.follows_bind, Prog.follows_ite, deleteWholeLine]
  · intro hguard online salt
    refine ⟨⟨t, salt, online, []⟩, ?_, fun q => rfl⟩
    rw [groupAcceptRequest, limited_memory_bind]
    split_ifs with hfirst
    · rfl
    · exact absurd hguard hfirst

lemma groupLeave_declines (g u : Str) :
    Declines (groupLeave g u) t ↔ t.TurnedAway (.leaveGroup g u) := by
  constructor
  · intro h
    obtain ⟨s, hrun, -⟩ := h true []
    rw [groupLeave, limited_memory_bind] at hrun
    split at hrun
    · rename_i hnone
      exact Or.inl hnone
    · rename_i owner howner
      rw [limited_fetchGroupMembers_bind, limited_memory_bind] at hrun
      split_ifs at hrun with hguard
      · rcases hguard with hmember | rfl
        · exact Or.inr (Or.inl hmember)
        · exact Or.inr (Or.inr howner)
      · refine absurd hrun (run_ne_false ?_)
        simp [Prog.Returns, call, Prog.follows_bind, deleteLine]
  · intro hguard online salt
    let s : Session := ⟨t, salt, online, []⟩
    cases howner : t.memory.groups.lookup g with
    | none =>
      refine ⟨s, ?_, fun q => rfl⟩
      rw [groupLeave, limited_memory_bind, show s.memory.groups.lookup g = none from howner]
      rfl
    | some owner =>
      let s' := s.setMemory { s.memory with groupMembers := s.disk.limitedMembers g }
      have hrefused : u ∉ s'.memory.groupMembers ∨ owner = u := by
        rcases hguard with hnone | hmember | hsome
        · rw [howner] at hnone
          cases hnone
        · exact Or.inl hmember
        · exact Or.inr (Option.some.inj (howner.symm.trans hsome))
      refine ⟨s', ?_, fun q => rfl⟩
      rw [groupLeave, limited_memory_bind, show s.memory.groups.lookup g = some owner from howner]
      simp only
      rw [limited_fetchGroupMembers_bind, limited_memory_bind, if_pos hrefused]
      rfl

lemma groupStopShare_declines (g f u : Str) :
    Declines (groupStopShare g f u) t ↔ t.TurnedAway (.stopShare g f u) := by
  constructor
  · intro h
    obtain ⟨s, hrun, -⟩ := h true []
    rw [groupStopShare, limited_memory_bind] at hrun
    split_ifs at hrun with hguard
    · rcases hguard with hnone | hnone
      · exact Or.inl hnone
      · exact Or.inr (Or.inl hnone)
    · rw [limited_fetchGroupMembers_bind, limited_memory_bind] at hrun
      split_ifs at hrun with hmember
      · refine absurd hrun (run_ne_false ?_)
        simp [Prog.Returns, call, Prog.follows_bind]
      · exact Or.inr (Or.inr hmember)
  · intro hguard online salt
    let s : Session := ⟨t, salt, online, []⟩
    let s' := s.setMemory { s.memory with groupMembers := s.disk.limitedMembers g }
    by_cases hfirst : s.memory.groups.lookup g = none ∨ s.memory.credentials.lookup u = none
    · refine ⟨s, ?_, fun q => rfl⟩
      rw [groupStopShare, limited_memory_bind, if_pos hfirst]
      rfl
    · have hmember : u ∉ s'.memory.groupMembers := by
        rcases hguard with hnone | hnone | hmember
        · exact absurd (Or.inl hnone) hfirst
        · exact absurd (Or.inr hnone) hfirst
        · exact hmember
      refine ⟨s', ?_, fun q => rfl⟩
      rw [groupStopShare, limited_memory_bind, if_neg hfirst, limited_fetchGroupMembers_bind,
        limited_memory_bind, if_pos hmember]
      rfl

lemma limited_checkGroupFiles (h u : Str) (p : Path) (s : Session) :
    (checkGroupFiles h p u).run limitedInterp s =
      (findRecord (andThen (fieldIs 0 h) (fieldIs 2 u)) (s.disk.lines (clip p))).map
        fun found => (found.isSome, s) := by
  have hlines : getlines ((s.disk.read (clip p)).getD []) = s.disk.lines (clip p) := rfl
  rw [checkGroupFiles, limited_read_bind, limited_lock_bind, limited_checked_bind, hlines]
  cases findRecord (andThen (fieldIs 0 h) (fieldIs 2 u)) (s.disk.lines (clip p)) with
  | none => rfl
  | some found => rfl

lemma limited_getGroupFileName (h : Str) (p : Path) (s : Session) :
    (getGroupFileName h p).run limitedInterp s =
      (findRecord (fieldIs 0 h) (s.disk.lines (clip p))).bind fun found =>
        (found.elim (some []) (·[3]?)).map fun name => (name, s) := by
  have hlines : getlines ((s.disk.read (clip p)).getD []) = s.disk.lines (clip p) := rfl
  rw [getGroupFileName, limited_lock_bind, limited_read_bind, limited_checked_bind, hlines]
  congr 1
  funext found
  rw [limited_checked_bind]
  cases found.elim (some []) (·[3]?) with
  | none => rfl
  | some name => rfl

lemma limited_checkIntegrity (h f : Str) (p : Path) (s : Session) :
    (checkIntegrity h p f).run limitedInterp s =
      (findRecord (andThen (fun v => (fieldIs 0 h v).map not) (fieldIs 3 f))
        (s.disk.lines (clip p))).map fun found => (found.isSome, s) := by
  have hlines : getlines ((s.disk.read (clip p)).getD []) = s.disk.lines (clip p) := rfl
  rw [checkIntegrity, limited_lock_bind, limited_read_bind, limited_checked_bind, hlines]
  cases findRecord (andThen (fun v => (fieldIs 0 h v).map not) (fieldIs 3 f))
    (s.disk.lines (clip p)) with
  | none => rfl
  | some found => rfl

lemma groupFileUpload_declines (h size g u f path : Str) :
    Declines (groupFileUpload h size g u f path) t ↔
      t.TurnedAway (.uploadFile h size g u f path) := by
  constructor
  · intro hdeclines
    obtain ⟨s, hrun, -⟩ := hdeclines true []
    rw [groupFileUpload, limited_memory_bind] at hrun
    split_ifs at hrun with hnone
    · exact Or.inl hnone
    rw [limited_fetchGroupMembers_bind, limited_memory_bind] at hrun
    split_ifs at hrun with hmember
    swap
    · exact Or.inr (Or.inl hmember)
    rw [Prog.run_bind, limited_checkGroupFiles, Option.bind_eq_some_iff] at hrun
    obtain ⟨_, hcheck, hrun⟩ := hrun
    obtain ⟨listed, hlisted, rfl⟩ := Option.map_eq_some_iff.mp hcheck
    cases listed with
    | some v => cases hrun
    | none =>
      simp only [Option.isSome_none, Bool.false_eq_true, if_false] at hrun
      rw [Prog.run_bind, limited_getGroupFileName, Option.bind_eq_some_iff] at hrun
      obtain ⟨_, hget, hrun⟩ := hrun
      obtain ⟨found, hfound, hname⟩ := Option.bind_eq_some_iff.mp hget
      obtain ⟨stored, hstored, rfl⟩ := Option.map_eq_some_iff.mp hname
      rw [Prog.run_bind, limited_checkIntegrity, Option.bind_eq_some_iff] at hrun
      obtain ⟨_, hscan, hrun⟩ := hrun
      obtain ⟨clash, hclash, rfl⟩ := Option.map_eq_some_iff.mp hscan
      cases clash with
      | some v => exact Or.inr (Or.inr ⟨hlisted, found, stored, hfound, hstored, v, hclash⟩)
      | none =>
        refine absurd hrun (run_ne_false ?_)
        simp [Prog.Returns, call]
  · intro hguard online salt
    let s : Session := ⟨t, salt, online, []⟩
    let s' := s.setMemory { s.memory with groupMembers := s.disk.limitedMembers g }
    by_cases hnone : s.memory.groups.lookup g = none
    · refine ⟨s, ?_, fun q => rfl⟩
      rw [groupFileUpload, limited_memory_bind, if_pos hnone]
      rfl
    refine ⟨s', ?_, fun q => rfl⟩
    rw [groupFileUpload, limited_memory_bind, if_neg hnone, limited_fetchGroupMembers_bind,
      limited_memory_bind]
    by_cases hmember : u ∉ s'.memory.groupMembers
    · rw [if_pos hmember]
      rfl
    obtain ⟨hlisted, found, stored, hfound, hstored, v, hclash⟩ :=
      (hguard.resolve_left hnone).resolve_left hmember
    rw [if_neg hmember, Prog.run_bind, limited_checkGroupFiles,
      show findRecord _ (s'.disk.lines _) = _ from hlisted]
    simp only [Option.map_some, Option.bind_some, Option.isSome_none, Bool.false_eq_true, if_false]
    rw [Prog.run_bind, limited_getGroupFileName,
      show findRecord _ (s'.disk.lines _) = _ from hfound, Option.bind_some, hstored]
    simp only [Option.map_some, Option.bind_some]
    rw [Prog.run_bind, limited_checkIntegrity, show findRecord _ (s'.disk.lines _) = _ from hclash]
    rfl

end Declines

/-! ### Refused commands -/

/-- The handler gets through, does not answer with `1` and leaves all texts as they are. -/
def Refuses (hashPassword : Str → Str → Str) (t : Tracker) (c : Command) : Prop :=
  ∀ online salt, ∃ reply s,
    (trackerKernel hashPassword c).run limitedInterp ⟨t, salt, online, []⟩ = some (reply, s) ∧
      reply ≠ some ['1'] ∧ ∀ q, s.disk.text q = t.disk.text q

section Refuses

variable {t : Tracker} {hashPassword : Str → Str → Str}

/-- A command is refused if its handler declines. -/
lemma refuses_iff_declines {c : Command} {p : Prog callSig Bool}
    (hc : trackerKernel hashPassword c = answer p) : Refuses hashPassword t c ↔ Declines p t := by
  constructor
  · intro h online salt
    obtain ⟨reply, s, hrun, hreply, htext⟩ := h online salt
    rw [hc, run_answer_eq] at hrun
    obtain ⟨⟨b, s'⟩, hp, heq⟩ := Option.map_eq_some_iff.mp hrun
    cases heq
    cases b with
    | true => exact absurd rfl hreply
    | false => exact ⟨s', hp, htext⟩
  · intro h online salt
    obtain ⟨s, hrun, htext⟩ := h online salt
    exact ⟨some ['0'], s, by rw [hc, run_answer_eq, hrun]; rfl, by decide, htext⟩

/-- The hash is given out, and the download written down. -/
lemma giveSha_refuses {g f u : Str} (hunstored : storable (downloadingFile u) = false) :
    Refuses hashPassword t (.giveSha g f u) ↔ t.TurnedAway (.giveSha g f u) := by
  constructor
  · intro h
    obtain ⟨reply, s, hrun, -⟩ := h true []
    rw [trackerKernel, run_answerData_eq] at hrun
    obtain ⟨r, hrun, -⟩ := Option.map_eq_some_iff.mp hrun
    rw [sendSHA, limited_fetchDetails_bind, Option.bind_eq_some_iff] at hrun
    obtain ⟨m, hm, hrun⟩ := hrun
    refine ⟨m, hm, ?_⟩
    rw [limited_memory_bind, Session.memory_setMemory] at hrun
    split at hrun
    · rename_i hnone
      exact Or.inl hnone
    · rw [limited_fetchGroupMembers_bind, limited_memory_bind] at hrun
      split_ifs at hrun with hmember
      · exfalso
        rw [limited_lock_bind, limited_read_bind, limited_checked_bind,
          Option.bind_eq_some_iff] at hrun
        obtain ⟨records, -, hrun⟩ := hrun
        rw [limited_append_bind, limited_unlock_bind] at hrun
        obtain ⟨hstored, -⟩ := storable_of_run_sync rfl hrun
        rw [hunstored] at hstored
        cases hstored
      · rw [← t.disk.limitedMembers_reloaded]
        exact Or.inr hmember
  · rintro ⟨m, hm, hguard⟩ online salt
    let s : Session := ⟨t, salt, online, []⟩
    let s' := (s.setDisk s.disk.reloaded).setMemory m
    have hm' : s.memory.reload s.disk = some m := hm
    cases howner : m.groups.lookup g with
    | none =>
      refine ⟨some [], s', ?_, by decide, fun q => t.disk.text_reloaded q⟩
      rw [trackerKernel, run_answerData_eq, sendSHA, limited_fetchDetails_bind, hm',
        Option.bind_some, limited_memory_bind, Session.memory_setMemory, howner]
      rfl
    | some owner =>
      let s'' := s'.setMemory { s'.memory with groupMembers := s'.disk.limitedMembers g }
      have hmember : u ∉ s''.memory.groupMembers := by
        have hmembers : s''.memory.groupMembers = t.disk.limitedMembers g :=
          t.disk.limitedMembers_reloaded g
        rw [hmembers]
        exact hguard.resolve_left (by rw [howner]; exact Option.some_ne_none owner)
      refine ⟨some [], s'', ?_, by decide, fun q => t.disk.text_reloaded q⟩
      rw [trackerKernel, run_answerData_eq, sendSHA, limited_fetchDetails_bind, hm',
        Option.bind_some, limited_memory_bind, Session.memory_setMemory, howner]
      simp only
      rw [limited_fetchGroupMembers_bind, limited_memory_bind, if_pos]
      · rfl
      · exact hmember

/-- A record that is found has all fields up to the one looked at. -/
lemma exists_field_of_found {i j : ℕ} {x : Str} {ls : List Str} {found : Option (List Str)}
    (hij : i ≤ j) (h : findRecord (fieldIs j x) ls = some found) :
    ∃ w, found.elim (some []) (·[i]?) = some w := by
  cases found with
  | none => exact ⟨[], rfl⟩
  | some v =>
    obtain ⟨l, -, rfl, htest⟩ := findRecord_some h
    obtain ⟨y, hy, -⟩ := Option.map_eq_some_iff.mp htest
    obtain ⟨hlength, -⟩ := List.getElem?_eq_some_iff.mp hy
    exact ⟨_, List.getElem?_eq_getElem (hij.trans_lt hlength)⟩

/-- The file is listed for the user, and for the group. -/
lemma addFile_refuses {g f path u : Str}
    (hunstored : ¬ (storable (groupFilesFile g) = true ∧ storable (userFilesFile u) = true)) :
    Refuses hashPassword t (.addFile g f path u) ↔ t.TurnedAway (.addFile g f path u) := by
  constructor
  · intro h
    obtain ⟨reply, s, hrun, -⟩ := h true []
    rw [trackerKernel, run_noAnswer_eq] at hrun
    obtain ⟨r, hrun, -⟩ := Option.map_eq_some_iff.mp hrun
    rw [updateDownload, limited_fetchDetails_bind, Option.bind_eq_some_iff] at hrun
    obtain ⟨m, hm, hrun⟩ := hrun
    rw [limited_read_bind, limited_checked_bind, Option.bind_eq_some_iff] at hrun
    obtain ⟨found, hfound, hrun⟩ := hrun
    rw [limited_checked_bind, Option.bind_eq_some_iff] at hrun
    obtain ⟨data, -, hrun⟩ := hrun
    rw [limited_checked_bind, Option.bind_eq_some_iff] at hrun
    obtain ⟨size, -, hrun⟩ := hrun
    rw [limited_read_bind, limited_checked_bind, Option.bind_eq_some_iff] at hrun
    obtain ⟨listed, hlisted, hrun⟩ := hrun
    cases listed with
    | some v =>
      refine ⟨?_, ?_, v, ?_⟩
      · rw [show t.memory.reload t.disk = some m from hm]
        exact Option.some_ne_none m
      · rw [← t.disk.lines_reloaded]
        exact fun hnone => by cases hnone.symm.trans hfound
      · rw [← t.disk.lines_reloaded]
        exact hlisted
    | none =>
      simp only [Option.isSome_none, Bool.false_eq_true, if_false] at hrun
      rw [limited_append_bind, limited_append_bind] at hrun
      obtain ⟨hgroup, sent, hrun⟩ := storable_of_run_sync rfl hrun
      obtain ⟨huser, -⟩ := storable_of_run_sync (f := .ret) rfl hrun
      exact absurd ⟨hgroup, huser⟩ hunstored
  · rintro ⟨hm, hfound, v, hlisted⟩ online salt
    obtain ⟨m, hm⟩ := Option.ne_none_iff_exists'.mp hm
    obtain ⟨found, hfound⟩ := Option.ne_none_iff_exists'.mp hfound
    obtain ⟨data, hdata⟩ := exists_field_of_found (i := 0) (by decide) hfound
    obtain ⟨size, hsize⟩ := exists_field_of_found (i := 1) (by decide) hfound
    rw [← t.disk.lines_reloaded] at hfound hlisted
    let s : Session := ⟨t, salt, online, []⟩
    let s' := (s.setDisk s.disk.reloaded).setMemory m
    have hm' : s.memory.reload s.disk = some m := hm
    have hfound' : findRecord (fieldIs 3 f)
        (getlines ((s'.disk.read (clip (groupFilesFile g))).getD [])) = some found := hfound
    have hlisted' : findRecord (fieldIs 1 f)
        (getlines ((s'.disk.read (clip (userFilesFile u))).getD [])) = some (some v) := hlisted
    refine ⟨none, s', ?_, by decide, fun q => t.disk.text_reloaded q⟩
    rw [trackerKernel, run_noAnswer_eq, updateDownload, limited_fetchDetails_bind, hm',
      Option.bind_some, limited_read_bind, limited_checked_bind, hfound', Option.bind_some,
      limited_checked_bind, hdata, Option.bind_some, limited_checked_bind, hsize,
      Option.bind_some, limited_read_bind, limited_checked_bind, hlisted', Option.bind_some]
    rfl

/-- A download is completed in any case. -/
lemma not_refuses_complete {g f path u : Str}
    (hunstored : ¬ (storable (downloadedFile u) = true ∧ storable (downloadingFile u) = true)) :
    ¬ Refuses hashPassword t (.complete g f path u) := by
  intro h
  obtain ⟨reply, s, hrun, -⟩ := h true []
  rw [trackerKernel, run_noAnswer_eq] at hrun
  obtain ⟨r, hrun, -⟩ := Option.map_eq_some_iff.mp hrun
  rw [completeDownload, limited_fetchDetails_bind, Option.bind_eq_some_iff] at hrun
  obtain ⟨m, -, hrun⟩ := hrun
  dsimp only at hrun
  rw [limited_deleteWholeLine_bind, Option.bind_eq_some_iff] at hrun
  obtain ⟨ks, -, hrun⟩ := hrun
  rw [limited_append_bind] at hrun
  obtain ⟨hdownloaded, sent, hrun⟩ := storable_of_run_sync rfl hrun
  obtain ⟨hdownloading, -⟩ := storable_of_run_sync (f := .ret) rfl hrun
  exact hunstored ⟨hdownloaded, hdownloading⟩

/-- A command some of whose files cannot be stored is refused just if it is turned away. -/
lemma refuses_iff {c : Command} (hunstored : ∃ p ∈ c.synced, storable p = false) :
    Refuses hashPassword t c ↔ t.TurnedAway c := by
  cases c with
  | createUser u p port ip =>
    exact (refuses_iff_declines rfl).trans (userCreate_declines u p port ip)
  | createGroup g u => exact (refuses_iff_declines rfl).trans (groupCreate_declines g u)
  | acceptRequest g u a =>
    exact (refuses_iff_declines rfl).trans (groupAcceptRequest_declines g u a)
  | uploadFile h size g u f path =>
    exact (refuses_iff_declines rfl).trans (groupFileUpload_declines h size g u f path)
  | stopShare g f u => exact (refuses_iff_declines rfl).trans (groupStopShare_declines g f u)
  | leaveGroup g u => exact (refuses_iff_declines rfl).trans (groupLeave_declines g u)
  | giveSha g f u => exact giveSha_refuses (by simpa [Command.synced] using hunstored)
  | addFile g f path u =>
    apply addFile_refuses
    rintro ⟨hgroup, huser⟩
    simp [Command.synced, hgroup, huser] at hunstored
  | complete g f path u =>
    refine iff_of_false (not_refuses_complete ?_) id
    rintro ⟨hdownloaded, hdownloading⟩
    simp [Command.synced, hdownloaded, hdownloading] at hunstored
  | _ => simp [Command.synced] at hunstored

end Refuses

/-! ### Exactly when `Sync` finds its file -/

/-- Every file that `Sync` opens is there, whether the sibling is online or not, and a command
    some of whose files cannot be stored is refused. -/
structure OpensFiles (hashPassword : Str → Str → Str) (t : Tracker) (c : Command) : Prop where
  opened : ∀ online salt,
    ¬ (trackerKernel hashPassword c).Reaches limitedInterp nullHandle ⟨t, salt, online, []⟩
  refused : (∃ p ∈ c.synced, storable p = false) → Refuses hashPassword t c

/-- A handler whose files can be stored opens what it has written. -/
lemma opened_of_storable {hashPassword : Str → Str → Str} {t : Tracker} {c : Command}
    (ht : t.PendingThere) (hstored : ∀ p ∈ c.synced, storable p = true) (online : Bool)
    (salt : Str) :
    ¬ (trackerKernel hashPassword c).Reaches limitedInterp nullHandle ⟨t, salt, online, []⟩ := by
  by_cases hpending : t.disk.read pendingFile = none
  · by_cases hjoin : ∃ g u, c = .joinGroup g u
    · -- without groups a request to join is turned away
      obtain ⟨g, u, rfl⟩ := hjoin
      have hgroups : t.memory.groups = [] := by
        by_contra hne
        exact ht hne hpending
      apply not_reaches_of_run_online
      rw [trackerKernel, run_answer_eq, groupJoin, limited_memory_bind,
        show Session.memory _ = t.memory from rfl, hgroups]
      exact Option.some_ne_none _
    · refine (trackerKernel_writesFirst hashPassword ∅ c fun g u hc => ?_).not_reaches hstored
        fun p hp => hp.elim
      exact absurd ⟨g, u, hc⟩ hjoin
  · refine (trackerKernel_writesFirst hashPassword {pendingFile} c fun _ _ _ => rfl).not_reaches
      hstored ?_
    rintro p rfl
    exact ⟨pendingFile_ne_temp, fun _ => hpending⟩

/-- In every state that is reached, `Sync` finds its files and the command is refused where some
    of them cannot be stored, exactly if all can be stored or the command is turned away before
    it writes. -/
theorem opens_files_iff {sha256 : Str → List (Fin 256)} {t : Tracker} (ht : t.Reachable sha256)
    (c : Command) : OpensFiles (hashPassword sha256) t c ↔
      (∀ p ∈ c.synced, storable p = true) ∨ t.TurnedAway c := by
  have hunstored : ¬ (∀ p ∈ c.synced, storable p = true) → ∃ p ∈ c.synced, storable p = false := by
    simp
  constructor
  · intro h
    by_cases hstored : ∀ p ∈ c.synced, storable p = true
    · exact Or.inl hstored
    · exact Or.inr ((refuses_iff (hunstored hstored)).mp (h.refused (hunstored hstored)))
  · intro h
    by_cases hstored : ∀ p ∈ c.synced, storable p = true
    · refine ⟨opened_of_storable ht.pendingThere hstored, ?_⟩
      rintro ⟨p, hp, hclosed⟩
      cases (hstored p hp).symm.trans hclosed
    · have hrefused : Refuses (hashPassword sha256) t c :=
        (refuses_iff (hunstored hstored)).mpr (h.resolve_left hstored)
      refine ⟨fun online salt => not_reaches_of_run_online ?_, fun _ => hrefused⟩
      obtain ⟨reply, s, hrun, -⟩ := hrefused true salt
      rw [hrun]
      exact Option.some_ne_none _

theorem opens_files_iff_start :
    OpensFiles (hashPassword fun _ => []) Tracker.initial
        (.createGroup "g".toList "o".toList) ↔
      (∀ p ∈ (Command.createGroup "g".toList "o".toList).synced, storable p = true) ∨
        Tracker.initial.TurnedAway (.createGroup "g".toList "o".toList) :=
  opens_files_iff (.start Disk.empty) (.createGroup "g".toList "o".toList)

/-- A group with a slash in its name. With the sibling online the tracker reads from a null
    handle, and with the sibling offline the group is recorded without a file for its members. -/
theorem slash_in_group_name : ∃ (t : Tracker) (c : Command),
    t.Reachable (fun _ => []) ∧ Request.parse "create_group a/b o".toList = .client c ∧
    (trackerKernel (hashPassword fun _ => []) c).Reaches limitedInterp nullHandle
      ⟨t, [], true, []⟩ ∧
    (∃ s, (trackerKernel (hashPassword fun _ => []) c).run limitedInterp ⟨t, [], false, []⟩ =
      some (some ['1'], s) ∧ s.disk.lines groupFile = ["a/b o".toList] ∧
        s.disk.read (membersFile "a/b".toList) = none) ∧
    ¬ OpensFiles (hashPassword fun _ => []) t c := by
  have hreach : (trackerKernel (hashPassword fun _ => [])
      (.createGroup "a/b".toList "o".toList)).Reaches limitedInterp nullHandle
        ⟨Tracker.initial, [], true, []⟩ := by
    decide +kernel
  have hoffline : ((trackerKernel (hashPassword fun _ => [])
      (.createGroup "a/b".toList "o".toList)).run limitedInterp
        ⟨Tracker.initial, [], false, []⟩).any (fun r => decide (r.1 = some ['1'] ∧
          r.2.disk.lines groupFile = ["a/b o".toList] ∧
            r.2.disk.read (membersFile "a/b".toList) = none)) = true := by
    decide +kernel
  obtain ⟨r, hrun, hr⟩ := (Option.any_eq_true _ _).mp hoffline
  obtain ⟨hreply, hlines, hread⟩ := of_decide_eq_true hr
  refine ⟨Tracker.initial, .createGroup "a/b".toList "o".toList, .start Disk.empty, rfl, hreach,
    ⟨r.2, ?_, hlines, hread⟩, fun h => h.opened true [] hreach⟩
  rw [← hreply]
  exact hrun

end TorrentShare
