import TorrentShare.Tracker.Runs

/-!
# What the handlers tell a downloading peer

The replies to `give_sha`, `give_seeders` and `send_full_path`, in terms of the lines of the files.
-/

namespace TorrentShare

open Program

/-! ### Reading all records of a file -/

lemma mem_of_mapM {α β : Type} {f : α → Option β} {as : List α} {bs : List β}
    (h : as.mapM f = some bs) (b : β) : b ∈ bs ↔ ∃ a ∈ as, f a = some b := by
  rw [← filterMap_of_mapM h, List.mem_filterMap]

lemma ne_none_of_mapM {α β : Type} {f : α → Option β} {as : List α} {bs : List β}
    (h : as.mapM f = some bs) : ∀ a ∈ as, f a ≠ none := by
  induction as generalizing bs with
  | nil => simp
  | cons a as ih =>
    simp only [List.mapM_cons, Option.pure_def, Option.bind_eq_bind, Option.bind_eq_some_iff,
      Option.some.injEq] at h
    obtain ⟨b, hb, bs', hbs', -⟩ := h
    rw [List.forall_mem_cons, hb]
    exact ⟨Option.some_ne_none b, ih hbs'⟩

/-- Inserting one element for each member of a list. -/
lemma mem_foldl_setInsert_map {α : Type} (f : α → Str) (x : Str) (as : List α) (t : List Str) :
    x ∈ as.foldl (fun t a => setInsert strLt (f a) t) t ↔ (∃ a ∈ as, f a = x) ∨ x ∈ t := by
  induction as generalizing t with
  | nil => simp
  | cons a as ih =>
    rw [List.foldl_cons, ih, mem_setInsert_strLt]
    constructor
    · rintro (⟨b, hb, rfl⟩ | rfl | hx)
      · exact Or.inl ⟨b, List.mem_cons_of_mem _ hb, rfl⟩
      · exact Or.inl ⟨a, List.mem_cons_self .., rfl⟩
      · exact Or.inr hx
    · rintro (⟨b, hb, rfl⟩ | hx)
      · rcases List.mem_cons.mp hb with rfl | hb
        · exact Or.inr (Or.inl rfl)
        · exact Or.inl ⟨b, hb, rfl⟩
      · exact Or.inr (Or.inr hx)

/-- The names of the seeders with a blank after each, and the size. -/
lemma fields_append_singleton (vs : List Str) (w : Str) :
    fields (vs ++ [w]) = vs.flatMap (· ++ [' ']) ++ w := by
  induction vs with
  | nil => simp [fields]
  | cons v vs ih =>
    rw [List.flatMap_cons, List.append_assoc, ← ih]
    cases vs with
    | nil => simp [fields_cons_cons]
    | cons v' vs => simp [fields_cons_cons]

/-- The first entry of a name is made from the first record of the name. -/
lemma lookup_records {ls : List Str} {records : List (Str × Str)} (f : Str)
    (h : ls.mapM (fun l => (split l ' ')[3]?.bind fun name =>
      (split l ' ')[0]?.map fun hash => (name, hash)) = some records) :
    (records.lookup f).getD [] = fieldOr (recordOf 3 f ls) 0 := by
  induction ls generalizing records with
  | nil =>
    cases h
    rfl
  | cons l ls ih =>
    simp only [List.mapM_cons, Option.pure_def, Option.bind_eq_bind, Option.bind_eq_some_iff,
      Option.map_eq_some_iff, Option.some.injEq] at h
    obtain ⟨_, ⟨name, hname, hash, hhash, rfl⟩, rs, hrs, rfl⟩ := h
    rw [lookup_cons_ite, recordOf, List.map_cons, List.find?_cons]
    by_cases hf : f = name
    · subst hf
      simp [hname, fieldOr, hhash]
    · have hne : ((split l ' ')[3]? == some f) = false := by
        simpa [hname] using fun he => hf he.symm
      rw [if_neg hf, hne]
      exact ih hrs

/-! ### The list of seeders -/

section Seeders

variable {s s' : Session} {m : Memory} {g f l v : Str} {ls online : List Str}
  {records : List (Str × Str × Str)} {r : Str × Str × Str}

/-- Name, size and user of a record. -/
def recordFields (l : Str) : Option (Str × Str × Str) :=
  (split l ' ')[3]?.bind fun name => (split l ' ')[1]?.bind fun size =>
    (split l ' ')[2]?.map fun user => (name, size, user)

/-- The reply that the records of a group make. -/
def seedersReply (online : List Str) (f : Str) (records : List (Str × Str × Str)) : Str :=
  let shared := records.filter (·.1 = f)
  let size := (shared.getLast?.map (·.2.1)).getD []
  let seeders := (shared.filter (·.2.2 ∈ online)).foldl (fun t r => setInsert strLt r.2.2 t) []
  let data := seeders.flatMap (· ++ [' '])
  if data ≠ [] then data ++ size else data

lemma recordFields_eq_some : recordFields l = some r ↔ (split l ' ')[3]? = some r.1 ∧
    (split l ' ')[1]? = some r.2.1 ∧ (split l ' ')[2]? = some r.2.2 := by
  obtain ⟨name, size, user⟩ := r
  simp only [recordFields, Option.bind_eq_some_iff, Option.map_eq_some_iff, Prod.mk.injEq]
  constructor
  · rintro ⟨x, hx, y, hy, z, hz, rfl, rfl, rfl⟩
    exact ⟨hx, hy, hz⟩
  · rintro ⟨hx, hy, hz⟩
    exact ⟨name, hx, size, hy, user, hz, rfl, rfl, rfl⟩

/-- The seeders in the reply. -/
def seedersOf (online : List Str) (f : Str) (records : List (Str × Str × Str)) : List Str :=
  ((records.filter (·.1 = f)).filter (·.2.2 ∈ online)).foldl
    (fun t r => setInsert strLt r.2.2 t) []

lemma mem_seedersOf (h : ls.mapM recordFields = some records) :
    v ∈ seedersOf online f records ↔ v ∈ online ∧ HasPair 2 3 v f ls := by
  rw [seedersOf, mem_foldl_setInsert_map fun r : Str × Str × Str => r.2.2]
  simp only [List.not_mem_nil, or_false, List.mem_filter, decide_eq_true_eq]
  constructor
  · rintro ⟨r, ⟨⟨hr, rfl⟩, honline⟩, rfl⟩
    obtain ⟨l, hl, hfields⟩ := (mem_of_mapM h r).mp hr
    obtain ⟨hname, -, huser⟩ := recordFields_eq_some.mp hfields
    exact ⟨honline, l, hl, huser, hname⟩
  · rintro ⟨honline, l, hl, huser, hname⟩
    obtain ⟨r, hr⟩ := Option.ne_none_iff_exists'.mp (ne_none_of_mapM h l hl)
    obtain ⟨hname', -, huser'⟩ := recordFields_eq_some.mp hr
    obtain rfl := Option.some.inj (huser'.symm.trans huser)
    obtain rfl := Option.some.inj (hname'.symm.trans hname)
    exact ⟨r, ⟨⟨(mem_of_mapM h r).mpr ⟨l, hl, hr⟩, rfl⟩, honline⟩, rfl⟩

/-- The reply is empty just if there are no seeders. -/
lemma seedersReply_eq_nil :
    seedersReply online f records = [] ↔ seedersOf online f records = [] := by
  rw [seedersReply, ← seedersOf]
  cases seedersOf online f records with
  | nil => simp
  | cons v vs => simp

/-- With seeders it is their names and the size. -/
lemma seedersReply_eq (hne : seedersOf online f records ≠ []) :
    seedersReply online f records = fields (seedersOf online f records ++
      [((records.filter (·.1 = f)).getLast?.map (·.2.1)).getD []]) := by
  have hdata : (seedersOf online f records).flatMap (· ++ [' ']) ≠ [] := by
    simpa [List.flatMap_eq_nil_iff, ← List.eq_nil_iff_forall_not_mem] using hne
  rw [fields_append_singleton, seedersReply, ← seedersOf]
  exact if_pos hdata

/-- The reply comes apart into the seeders and the size. -/
lemma split_seedersReply (h : ls.mapM recordFields = some records)
    (hne : seedersOf online f records ≠ []) :
    split (seedersReply online f records) ' ' = seedersOf online f records ++
      [((records.filter (·.1 = f)).getLast?.map (·.2.1)).getD []] := by
  rw [seedersReply_eq hne]
  refine split_fields (by simp) fun v hv => ?_
  rcases List.mem_append.mp hv with hv | hv
  · obtain ⟨-, l, -, hfield, -⟩ := (mem_seedersOf h).mp hv
    exact delim_not_mem_split (List.mem_of_getElem? hfield)
  · rw [List.mem_singleton.mp hv]
    cases hlast : (records.filter (·.1 = f)).getLast? with
    | none => exact List.not_mem_nil
    | some r =>
      have hr := List.mem_of_mem_filter (List.mem_of_getLast? hlast)
      obtain ⟨l, -, hfields⟩ := (mem_of_mapM h r).mp hr
      exact delim_not_mem_split (List.mem_of_getElem? (recordFields_eq_some.mp hfields).2.1)

lemma run_sendSeeders_of_reload (hm : s.memory.reload s.disk = some m) :
    ∃ s', (sendSeeders g f).run callInterp s =
      ((s.disk.lines (groupFilesFile g)).mapM recordFields).map fun records =>
        (seedersReply m.online f records, s') := by
  refine ⟨(s.setDisk s.disk.reloaded).setMemory m, ?_⟩
  have hlines : getlines ((s.disk.reloaded.read (groupFilesFile g)).getD []) =
      s.disk.lines (groupFilesFile g) :=
    congrArg getlines (s.disk.text_reloaded (groupFilesFile g))
  rw [sendSeeders, run_fetchDetails_bind, hm, Option.bind_some, run_lock_bind, run_read_bind,
    run_memory_bind, run_checked_bind, Session.disk_setMemory, Session.disk_setDisk, hlines,
    Session.memory_setMemory]
  show ((s.disk.lines (groupFilesFile g)).mapM recordFields).bind _ = _
  cases (s.disk.lines (groupFilesFile g)).mapM recordFields with
  | none => rfl
  | some records =>
    rw [Option.bind_some, run_unlock_bind]
    rfl

/-- A reply to `give_seeders` lists users with a record of the name, and the size at the end. -/
lemma run_sendSeeders_reply {data : Str}
    (h : (sendSeeders g f).run callInterp s = some (data, s')) :
    ∃ seeders size, split data ' ' = seeders ++ [size] ∧ ∀ v ∈ seeders,
      ∃ l ∈ s.disk.lines (groupFilesFile g),
        (split l ' ')[2]? = some v ∧ (split l ' ')[3]? = some f := by
  cases hm : s.memory.reload s.disk with
  | none =>
    rw [sendSeeders, run_fetchDetails_bind, hm] at h
    cases h
  | some m =>
    obtain ⟨s₁, hrun⟩ := run_sendSeeders_of_reload (g := g) (f := f) hm
    rw [hrun] at h
    obtain ⟨records, hrecords, heq⟩ := Option.map_eq_some_iff.mp h
    cases heq
    by_cases hne : seedersOf m.online f records = []
    · rw [seedersReply_eq_nil.mpr hne]
      exact ⟨[], [], List.splitOn_nil ' ', by simp⟩
    · exact ⟨_, _, split_seedersReply hrecords hne, fun v hv => ((mem_seedersOf hrecords).mp hv).2⟩

end Seeders

/-! ### Replies -/

section Replies

variable {s s' : Session} {g f u : Str}

/-- `give_sha` changes no file and answers nothing, or it adds a line for a member and answers the
    first hash of the name. -/
lemma run_sendSHA_cases {hash : Str}
    (h : (sendSHA g f u).run callInterp s = some (hash, s')) :
    (¬ (s.disk.owner g ≠ none ∧ u ∈ s.disk.lines (membersFile g)) ∧ hash = [] ∧
        ∀ q, s'.disk.text q = s.disk.text q) ∨
      (s.disk.owner g ≠ none ∧ u ∈ s.disk.lines (membersFile g) ∧
        hash = fieldOr (recordOf 3 f (s.disk.lines (groupFilesFile g))) 0 ∧
        ∀ q, s'.disk.text q =
          (s.disk.append (downloadingFile u) (putline (fields [g, f]))).text q) := by
  obtain ⟨s₁, htext, hgroups, -, -, h⟩ := of_run_fetchDetails h
  have hlines : ∀ q, s₁.disk.lines q = s.disk.lines q := by
    intro q
    rw [Disk.lines, htext]
    rfl
  rw [run_memory_bind] at h
  cases howner : s₁.memory.groups.lookup g with
  | none =>
    simp only [howner] at h
    cases h
    rw [hgroups] at howner
    exact Or.inl ⟨fun hmember => hmember.1 howner, rfl, htext⟩
  | some o =>
    simp only [howner] at h
    obtain ⟨s₂, hdisk, -, hmembers, h⟩ := of_run_fetchGroupMembers h
    rw [run_memory_bind] at h
    split_ifs at h with hmember
    · right
      rw [run_lock_bind, run_read_bind, run_checked_bind, Option.bind_eq_some_iff] at h
      obtain ⟨records, hrecords, h⟩ := h
      rw [run_append_bind, run_unlock_bind] at h
      obtain ⟨_, h⟩ := of_run_sync h
      cases h
      rw [hmembers, hlines] at hmember
      rw [hgroups] at howner
      have hread : getlines ((s₂.disk.read (groupFilesFile g)).getD []) =
          s.disk.lines (groupFilesFile g) := by
        rw [← hlines, ← hdisk]
        rfl
      rw [hread] at hrecords
      refine ⟨?_, hmember, lookup_records f hrecords, fun q => ?_⟩
      · rw [Disk.owner, howner]
        exact Option.some_ne_none o
      · show (s₂.disk.append _ _).text q = _
        rw [Disk.text_append, Disk.text_append, hdisk, htext]
    · cases h
      refine Or.inl ⟨fun hm => hmember ?_, rfl, fun q => by rw [hdisk, htext]⟩
      rw [hmembers, hlines]
      exact hm.2

/-- A hash that is given is that of a record with the name, and the one given to a member
    stands for all records if there is any. -/
lemma run_sendSHA_reply {hash : Str}
    (h : (sendSHA g f u).run callInterp s = some (hash, s')) :
    (hash = [] ∧ ¬ (s.disk.owner g ≠ none ∧ u ∈ s.disk.lines (membersFile g))) ∨
      (∃ l ∈ s.disk.lines (groupFilesFile g),
        (split l ' ')[3]? = some f ∧ (split l ' ')[0]? = some hash) ∨
      ∀ l ∈ s.disk.lines (groupFilesFile g), (split l ' ')[3]? ≠ some f := by
  rcases run_sendSHA_cases h with ⟨hrefused, hhash, -⟩ | ⟨-, -, rfl, -⟩
  · exact Or.inl ⟨hhash, hrefused⟩
  · right
    cases hfound : recordOf 3 f (s.disk.lines (groupFilesFile g)) with
    | none => exact Or.inr (recordOf_eq_none hfound)
    | some v =>
      obtain ⟨l, hl, rfl, hname⟩ := recordOf_eq_some hfound
      obtain ⟨hash, hhash⟩ := exists_first_field l ' '
      refine Or.inl ⟨l, hl, hname, ?_⟩
      rw [fieldOr, Option.bind_some, hhash, Option.getD_some]

/-- The path that is sent is that of a record of the group with the name, if there is one. -/
lemma run_getFullPath_reply {path : Str}
    (h : (getFullPath u g f).run callInterp s = some (path, s'))
    (hrecord : ∃ l ∈ s.disk.lines (userFilesFile u),
      (split l ' ')[0]? = some g ∧ (split l ' ')[1]? = some f) :
    ∃ l ∈ s.disk.lines (userFilesFile u), (split l ' ')[0]? = some g ∧
      (split l ' ')[1]? = some f ∧ (split l ' ')[2]? = some path := by
  rw [getFullPath, run_read_bind, run_checked_bind, Option.bind_eq_some_iff] at h
  obtain ⟨found, hfound, h⟩ := h
  have hpath : found.elim (some []) (·[2]?) = some path := by
    cases hx : found.elim (some []) (·[2]?) with
    | none =>
      rw [hx] at h
      cases h
    | some w =>
      rw [hx] at h
      cases h
      rfl
  cases found with
  | none =>
    obtain ⟨l, hl, hg, hf⟩ := hrecord
    have htest := findRecord_none hfound l hl
    have htrue := andThen_eq_true.mpr ⟨hg, hf⟩
    rw [htest] at htrue
    cases htrue
  | some v =>
    obtain ⟨l, hl, rfl, htest⟩ := findRecord_some hfound
    obtain ⟨hg, hf⟩ := andThen_eq_true.mp htest
    exact ⟨l, hl, hg, hf, hpath⟩

end Replies

end TorrentShare
