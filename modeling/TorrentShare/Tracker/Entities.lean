import TorrentShare.Tracker.Sharing

/-!
# State files of groups and users

Creating a group, or a user, empties files. Whether they are those of another one depends on the
names alone.
-/

namespace TorrentShare

open Program

/-- The state files of two groups and two users are all different, and creating one of two groups,
    or of two users, leaves the records of the other. -/
structure EntitiesApart (g h u v : Str) : Prop where
  paths : ((groupPaths g ++ groupPaths h ++ (userPaths u ++ userPaths v)).map cStr).Nodup
  groups : ∀ sha256 history t, TrackerRun sha256 (fun _ _ => True) Tracker.initial history t →
    ∀ o t', t.Handles sha256 (.createGroup g o) (some ['1']) t' →
      ∀ p ∈ groupPaths h, t'.disk.lines p = t.disk.lines p
  users : ∀ sha256 history t, TrackerRun sha256 (fun _ _ => True) Tracker.initial history t →
    ∀ password port ip t', t.Handles sha256 (.createUser u password port ip) (some ['1']) t' →
      ∀ p ∈ userPaths v, t'.disk.lines p = t.disk.lines p

section Frames

variable {sha256 : Str → List (Fin 256)} {C : Tracker → Command → Prop} {t t' : Tracker}
  {history : List (Command × Reply)} {g h u v : Str}

/-- A successful `create_group` changes the file of groups and the files of the group. -/
lemma Tracker.Handles.createGroup_frame {o : Str} (ht : t.Regular)
    (hc : t.Handles sha256 (.createGroup g o) (some ['1']) t') {q : Path}
    (hgroup : cStr q ≠ groupFile) (hq : ∀ p ∈ groupPaths g, cStr q ≠ cStr p) :
    t'.disk.lines q = t.disk.lines q := by
  obtain ⟨salt, es, hstep⟩ := hc.step ht
  apply hstep.edited.lines_of_ne
  intro e he
  cases hstep.effect with
  | quiet c r huser hgroup => exact absurd rfl (hgroup g o)
  | createGroup g o hnew =>
    simp only [List.mem_cons, List.not_mem_nil, or_false] at he
    rcases he with rfl | rfl | rfl
    · exact hgroup
    · exact hq _ (by simp [groupPaths])
    · exact hq _ (by simp [groupPaths])

/-- A successful `create_user` changes the two files of accounts and the files of the user. -/
lemma Tracker.Handles.createUser_frame {password port ip : Str} (ht : t.Regular)
    (hc : t.Handles sha256 (.createUser u password port ip) (some ['1']) t') {q : Path}
    (honline : cStr q ≠ onlineFile) (hcredential : cStr q ≠ credentialFile)
    (hq : ∀ p ∈ userPaths u, cStr q ≠ cStr p) : t'.disk.lines q = t.disk.lines q := by
  obtain ⟨salt, es, hstep⟩ := hc.step ht
  apply hstep.edited.lines_of_ne
  intro e he
  cases hstep.effect with
  | quiet c r huser hgroup => exact absurd rfl (huser u password port ip)
  | createUser u p port ip hnew =>
    simp only [List.mem_cons, List.not_mem_nil, or_false] at he
    rcases he with rfl | rfl | rfl | rfl | rfl
    · exact honline
    · exact hcredential
    · exact hq _ (by simp [userPaths])
    · exact hq _ (by simp [userPaths])
    · exact hq _ (by simp [userPaths])

lemma kindOf_groupPaths {p : Path} (hp : p ∈ groupPaths g) : kindOf (cStr p) = .ofGroup := by
  simp only [groupPaths, List.mem_cons, List.not_mem_nil, or_false] at hp
  rcases hp with rfl | rfl
  · exact kindOf_membersFile g
  · exact kindOf_groupFilesFile g

lemma kindOf_userPaths {p : Path} (hp : p ∈ userPaths u) : kindOf (cStr p) = .ofUser := by
  simp only [userPaths, List.mem_cons, List.not_mem_nil, or_false] at hp
  rcases hp with rfl | rfl | rfl
  · exact kindOf_userFilesFile u
  · exact kindOf_downloadingFile u
  · exact kindOf_downloadedFile u

/-- The files of groups are not those of users. -/
lemma groupPaths_disjoint_userPaths {p q : Path} (hp : p ∈ groupPaths g ++ groupPaths h)
    (hq : q ∈ userPaths u ++ userPaths v) : cStr p ≠ cStr q := by
  apply cStr_ne_of_kind
  have hpk : kindOf (cStr p) = .ofGroup :=
    (List.mem_append.mp hp).elim kindOf_groupPaths kindOf_groupPaths
  have hqk : kindOf (cStr q) = .ofUser :=
    (List.mem_append.mp hq).elim kindOf_userPaths kindOf_userPaths
  rw [hpk, hqk]
  decide

end Frames

/-- Two groups and two users have files of their own exactly if their names are apart. -/
theorem entities_apart_iff {g h u v : Str} (hgroups : g ≠ h) (husers : u ≠ v) :
    EntitiesApart g h u v ↔ GroupsApart g h ∧ UsersApart u v := by
  constructor
  · intro hapart
    have hpaths := hapart.paths
    rw [List.map_append, List.nodup_append] at hpaths
    exact ⟨(groupPaths_nodup hgroups).mp hpaths.1, (userPaths_nodup husers).mp hpaths.2.1⟩
  · rintro ⟨hgroup, huser⟩
    have hgroupPaths := (groupPaths_nodup hgroups).mpr hgroup
    have huserPaths := (userPaths_nodup husers).mpr huser
    have hgroupPaths' := hgroupPaths
    have huserPaths' := huserPaths
    rw [List.map_append, List.nodup_append] at hgroupPaths' huserPaths'
    constructor
    · rw [List.map_append, List.nodup_append]
      refine ⟨hgroupPaths, huserPaths, ?_⟩
      intro a ha b hb
      obtain ⟨p, hp, rfl⟩ := List.mem_map.mp ha
      obtain ⟨q, hq, rfl⟩ := List.mem_map.mp hb
      exact groupPaths_disjoint_userPaths hp hq
    · intro sha256 history t hrun o t' hc q hq
      apply hc.createGroup_frame (hrun.regular Tracker.initial_regular)
      · intro he
        have hkind := kindOf_groupPaths hq
        rw [he] at hkind
        exact absurd hkind (by decide)
      · intro p hp he
        exact hgroupPaths'.2.2 (cStr p) (List.mem_map_of_mem hp) (cStr q)
          (List.mem_map_of_mem hq) he.symm
    · intro sha256 history t hrun password port ip t' hc q hq
      have hkind := kindOf_userPaths hq
      apply hc.createUser_frame (hrun.regular Tracker.initial_regular)
      · intro he
        rw [he] at hkind
        exact absurd hkind (by decide)
      · intro he
        rw [he] at hkind
        exact absurd hkind (by decide)
      · intro p hp he
        exact huserPaths'.2.2 (cStr p) (List.mem_map_of_mem hp) (cStr q)
          (List.mem_map_of_mem hq) he.symm

theorem entities_apart_iff_short :
    EntitiesApart "g".toList "h".toList "u".toList "v".toList := by
  refine (entities_apart_iff (by decide) (by decide)).mpr ⟨?_, ?_⟩
  · constructor <;> decide
  · constructor <;> decide

/-- The members file of the second group is the shared-files file of the first. -/
def filesMessages : List Str := ["create_group g o".toList, "upload_file h 1 g o f /f".toList]

/-- Creating a group wipes the records of another one out. -/
theorem create_group_wipes_records : ∃ history t t',
    TrackerRun (fun _ => zerosDigest) (fun _ _ => True) Tracker.initial history t ∧
      t.Handles (fun _ => zerosDigest) (.createGroup "g_files".toList "x".toList) (some ['1']) t' ∧
      membersFile "g_files".toList = groupFilesFile "g".toList ∧
      t.disk.lines (groupFilesFile "g".toList) = ["h 1 o f".toList] ∧
      t'.disk.lines (groupFilesFile "g".toList) = ["x".toList] := by
  let process := Tracker.process (fun _ => zerosDigest) [] (fun _ _ => true) filesMessages
    ([], .initial)
  let create := fun t : Tracker =>
    serve (hashPassword fun _ => zerosDigest) t false (generateSalt [])
      (.createGroup "g_files".toList "x".toList)
  have hprocess : (process.any fun r =>
      decide (r.2.disk.lines (groupFilesFile "g".toList) = ["h 1 o f".toList]) &&
      (create r.2).any fun x => decide (x.1 = some ['1']) &&
        decide (x.2.1.disk.lines (groupFilesFile "g".toList) = ["x".toList])) = true := by
    decide +kernel
  obtain ⟨⟨history, t⟩, hrun, hend⟩ := (Option.any_eq_true _ _).mp hprocess
  rw [Bool.and_eq_true, decide_eq_true_eq] at hend
  obtain ⟨⟨r, t', sent⟩, hserve, hcreate⟩ := (Option.any_eq_true _ _).mp hend.2
  rw [Bool.and_eq_true, decide_eq_true_eq, decide_eq_true_eq] at hcreate
  obtain ⟨rfl, hwiped⟩ := hcreate
  exact ⟨history, t, t', Tracker.process_run (fun _ _ _ => trivial) .start hrun,
    ⟨⟨"create_group g_files x".toList, rfl⟩, false, [], sent, hserve⟩, by decide, hend.1, hwiped⟩

end TorrentShare
