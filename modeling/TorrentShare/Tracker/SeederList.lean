import TorrentShare.Peer.Download
import TorrentShare.Tracker.Indexes
import TorrentShare.Tracker.Visibility

/-!
# The list of seeders

The reply to `give_seeders` is the names of the seeders and the size of the file, joined with
blanks, or nothing. `DownloadFile` splits it at the blanks: what comes last is the size.
-/

namespace TorrentShare

open Program

/-- The user is one of those in the file of users that are online. -/
def Tracker.Online (t : Tracker) (v : Str) : Prop :=
  ∃ l ∈ t.disk.lines onlineFile, (split l ' ')[0]? = some v

section Reply

variable {ls : List Str} {records : List (Str × Str × Str)} {online : List Str} {f l v : Str}
  {r : Str × Str × Str}

/-- A record of four fields has the three that are looked at. -/
lemma recordFields_ne_none (hl : 4 ≤ (split l ' ').length) : recordFields l ≠ none := by
  rw [recordFields, List.getElem?_eq_getElem (by omega), List.getElem?_eq_getElem (by omega),
    List.getElem?_eq_getElem (by omega)]
  exact Option.some_ne_none _

/-- The records for a file are those of the lines that name it. -/
lemma filter_records (h : ls.mapM recordFields = some records) (f : Str) :
    records.filter (·.1 = f) = (ls.filter (hasField 3 f)).filterMap recordFields := by
  rw [← filterMap_of_mapM h, List.filter_filterMap, List.filterMap_filter]
  apply List.filterMap_congr
  intro l _
  cases hl : recordFields l with
  | none => simp
  | some r =>
    have hname := (recordFields_eq_some.mp hl).1
    by_cases hf : r.1 = f
    · have hfield : hasField 3 f l = true := hasField_iff.mpr (hf ▸ hname)
      simp [hf, hfield]
    · have hfield : hasField 3 f l = false := by
        rw [Bool.eq_false_iff, Ne, hasField_iff, hname, Option.some.injEq]
        exact hf
      simp [hf, hfield]

/-- The last record for a file is that of the last line that names it. -/
lemma getLast?_records (h : ls.mapM recordFields = some records) (f : Str) :
    (records.filter (·.1 = f)).getLast? =
      (ls.filter (hasField 3 f)).getLast?.bind recordFields := by
  rw [filter_records h]
  rcases List.eq_nil_or_concat (ls.filter (hasField 3 f)) with hnil | ⟨ls', l, hlast⟩
  · rw [hnil]
    rfl
  · have hl : l ∈ ls := List.mem_of_mem_filter (p := hasField 3 f) (hlast ▸ by simp)
    obtain ⟨r, hr⟩ := Option.ne_none_iff_exists'.mp (ne_none_of_mapM h l hl)
    rw [hlast, List.concat_eq_append, List.filterMap_append, List.getLast?_concat,
      Option.bind_some, List.filterMap_cons_some hr, List.filterMap_nil, List.getLast?_concat, hr]

/-- No seeder is there twice. -/
lemma nodup_seedersOf (online : List Str) (f : Str) (records : List (Str × Str × Str)) :
    (seedersOf online f records).Nodup := by
  have hsorted : ∀ (rs : List (Str × Str × Str)) (s : List Str), s.Pairwise (· < ·) →
      (rs.foldl (fun t r => setInsert strLt r.2.2 t) s).Pairwise (· < ·) := by
    intro rs
    induction rs with
    | nil => exact fun s hs => hs
    | cons r rs ih => exact fun s hs => ih _ (pairwise_setInsert_strLt r.2.2 hs)
  exact (hsorted _ [] List.Pairwise.nil).imp fun h => ne_of_lt h

/-- The size in the reply is that in the last line that names the file. -/
lemma size_of_getLast? {size : Str} (h : ls.mapM recordFields = some records)
    (hl : (ls.filter (hasField 3 f)).getLast? = some l) (hsize : (split l ' ')[1]? = some size) :
    ((records.filter (·.1 = f)).getLast?.map (·.2.1)).getD [] = size := by
  have hmem := List.mem_of_mem_filter (List.mem_of_getLast? hl)
  obtain ⟨r, hr⟩ := Option.ne_none_iff_exists'.mp (ne_none_of_mapM h l hmem)
  rw [getLast?_records h, hl, Option.bind_some, hr]
  exact Option.some.inj ((recordFields_eq_some.mp hr).2.1.symm.trans hsize)

end Reply

section Runs

variable {E : Entities} {sha256 : Str → List (Fin 256)} {t : Tracker}
  {history : List (Command × Reply)} {g f : Str}

/-- In the states that a tracker reaches where no two state files have one path, `give_seeders` gets
    a reply from which `DownloadFile` reads the users online with a record for the file, each once,
    and the size in the last record. The reply is empty if there are none. -/
theorem seeders_decoded (hE : E.Separate)
    (hrun : TrackerRun sha256 (fun _ c => E.Name c) Tracker.initial history t) (hg : E.group g)
    (f u : Str) (online : Bool) (salt : Str) :
    ∃ data t' sent, serve (hashPassword sha256) t online salt (.giveSeeders g f u) =
        some (some data, t', sent) ∧
      ((∀ v, t.disk.Shared g v f → ¬ t.Online v) → data = []) ∧
      ((∃ v, t.disk.Shared g v f ∧ t.Online v) → ∀ path filehash, filehash ≠ [] →
        ∃ d, downloadFile g f path filehash data = some d ∧ d.filemeta.seeders.Nodup ∧
          (∀ v, v ∈ d.filemeta.seeders ↔ t.disk.Shared g v f ∧ t.Online v) ∧
          ∃ l, ((t.disk.lines (groupFilesFile g)).filter (hasField 3 f)).getLast? = some l ∧
            (split l ' ')[1]? = some d.filemeta.size) := by
  have hwell := hrun.wellFormed hE fun _ _ hc => hc
  have hready := hwell.ready (hrun.regular Tracker.initial_regular) [] online
  have hfields : ∀ l ∈ t.disk.lines (groupFilesFile g), 4 ≤ (split l ' ').length :=
    fun l hl => hwell (groupFilesFile g) l hl 4 (.shared g hg rfl)
  obtain ⟨m, hm⟩ := Option.ne_none_iff_exists'.mp hready.reload
  obtain ⟨records, hrecords⟩ := Option.ne_none_iff_exists'.mp
    (mapM_ne_none fun l hl => recordFields_ne_none (hfields l hl))
  have hmem : ∀ v, v ∈ seedersOf m.online f records ↔ t.disk.Shared g v f ∧ t.Online v := by
    intro v
    rw [mem_seedersOf hrecords, mem_online_reload hm]
    exact and_comm
  obtain ⟨t', sent, hserve⟩ :=
    serve_giveSeeders (hashPassword sha256) f u hm hrecords online salt
  refine ⟨seedersReply m.online f records, t', sent, hserve, fun hnobody => ?_, ?_⟩
  · rw [seedersReply_eq_nil]
    refine List.eq_nil_iff_forall_not_mem.mpr fun v hv => ?_
    obtain ⟨hlists, honline⟩ := (hmem v).mp hv
    exact hnobody v hlists honline
  · rintro ⟨v, hlists, honline⟩ path filehash hhash
    have hne : seedersOf m.online f records ≠ [] :=
      List.ne_nil_of_mem ((hmem v).mpr ⟨hlists, honline⟩)
    obtain ⟨l, hlast, size, hsize⟩ : ∃ l,
        ((t.disk.lines (groupFilesFile g)).filter (hasField 3 f)).getLast? = some l ∧
          ∃ size, (split l ' ')[1]? = some size := by
      obtain ⟨l', hl', -, hname⟩ := hlists
      have hnamed : l' ∈ (t.disk.lines (groupFilesFile g)).filter (hasField 3 f) :=
        List.mem_filter.mpr ⟨hl', hasField_iff.mpr hname⟩
      have hl := List.getLast?_eq_some_getLast (List.ne_nil_of_mem hnamed)
      have hlength := hfields _ (List.mem_of_mem_filter (List.mem_of_getLast? hl))
      exact ⟨_, hl, _, List.getElem?_eq_getElem (by omega)⟩
    have hsplit := split_seedersReply hrecords hne
    rw [size_of_getLast? hrecords hlast hsize] at hsplit
    have hreply : seedersReply m.online f records ≠ [] := mt seedersReply_eq_nil.mp hne
    refine ⟨_, (if_neg hhash).trans (if_neg hreply), ?_, ?_, ?_⟩
    · rw [hsplit, List.dropLast_concat]
      exact nodup_seedersOf m.online f records
    · rw [hsplit, List.dropLast_concat]
      exact hmem
    · rw [hsplit, List.getLast?_concat]
      exact ⟨l, hlast, hsize⟩

end Runs

/-- The owner of the group is online and has uploaded the file. -/
theorem seeders_decoded_oneGroup : ∃ (t t' : Tracker) (data : Str) (sent : List (Path × Str))
    (d : Download), serve (hashPassword fun _ => zerosDigest) t false []
        (.giveSeeders "g".toList "f".toList "u".toList) = some (some data, t', sent) ∧
      downloadFile "g".toList "f".toList "/d".toList "h".toList data = some d ∧
      d.filemeta.seeders.Nodup ∧ "o".toList ∈ d.filemeta.seeders := by
  let messages := ["create_user o p 1 ip".toList, "create_group g o".toList,
    "upload_file h 1 g o f /f".toList]
  let process := Tracker.process (fun _ => zerosDigest) (List.replicate 16 0)
    (fun _ c => decide (oneGroup.Name c)) messages ([], .initial)
  have hprocess : (process.any fun r =>
      decide ("h 1 o f".toList ∈ r.2.disk.lines (groupFilesFile "g".toList)) &&
        decide ("o ip 1".toList ∈ r.2.disk.lines onlineFile)) = true := by
    decide +kernel
  obtain ⟨⟨history, t⟩, hrun, hend⟩ := (Option.any_eq_true _ _).mp hprocess
  simp only [Bool.and_eq_true, decide_eq_true_eq] at hend
  have hrun' := Tracker.process_run (C := fun _ c => oneGroup.Name c)
    (fun _ _ hc => of_decide_eq_true hc) .start hrun
  have hlists : t.disk.Shared "g".toList "o".toList "f".toList := ⟨_, hend.1, by decide, by decide⟩
  have honline : t.Online "o".toList := ⟨_, hend.2, by decide⟩
  obtain ⟨data, t', sent, hserve, -, hdecoded⟩ := seeders_decoded oneGroup_separate hrun' rfl
    "f".toList "u".toList false []
  obtain ⟨d, hd, hnodup, hseeders, -⟩ :=
    hdecoded ⟨_, hlists, honline⟩ "/d".toList "h".toList (by decide)
  exact ⟨t, t', data, sent, d, hserve, hd, hnodup, (hseeders _).mpr ⟨hlists, honline⟩⟩

end TorrentShare
