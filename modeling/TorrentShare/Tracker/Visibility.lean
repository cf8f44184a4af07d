import TorrentShare.Tracker.Logins
import TorrentShare.Tracker.Refusals

/-!
# What a stranger learns about the files of a group

`give_sha` and `give_seeders` carry the name of the asker. Two trackers with different shared files
in a group give the same replies to somebody who is no member if the replies do not depend on these
files. `give_sha` looks for the asker in the members file; `give_seeders` does not.
-/

namespace TorrentShare

open Program

/-- The trackers differ at most in the shared files of the group and in the lists of the shared
    files of users. -/
structure Tracker.SameBut (g : Str) (t t' : Tracker) : Prop where
  memory : t'.memory = t.memory
  text : ∀ p, cStr p ≠ cStr (groupFilesFile g) → (∀ v, cStr p ≠ cStr (userFilesFile v)) →
    t'.disk.text p = t.disk.text p

/-- The replies to `give_sha` and `give_seeders`, asked by somebody who is no member, are the same
    whatever the shared files of the group are. -/
def HidesFiles (hashPassword : Str → Str → Str) (t : Tracker) (g f u : Str) : Prop :=
  ∀ t₁ t₂ : Tracker, t.SameBut g t₁ → t.SameBut g t₂ → u ∉ t₁.disk.lines (membersFile g) →
    u ∉ t₂.disk.lines (membersFile g) → ∀ c, c = .giveSha g f u ∨ c = .giveSeeders g f u →
      ∀ online₁ online₂ salt₁ salt₂ r₁ r₂,
        serve hashPassword t₁ online₁ salt₁ c = some r₁ →
          serve hashPassword t₂ online₂ salt₂ c = some r₂ → r₁.1 = r₂.1

/-- `FetchDetails` finds nobody online, or the shared-files file of the group is none that can be
    opened. -/
def NothingToSee (t : Tracker) (g : Str) : Prop :=
  openable (cStr (groupFilesFile g)) = true → ∀ m, t.memory.reload t.disk = some m → m.online = []

section Seeders

variable {hashPassword : Str → Str → Str} {s : Session} {t t' : Tracker} {m : Memory} {g f u : Str}

/-- The tables after a reload do not depend on the shared files of a group. -/
lemma Tracker.SameBut.reload (h : t.SameBut g t') :
    t'.memory.reload t'.disk = t.memory.reload t.disk := by
  have hlines : ∀ p, kindOf (cStr p) ≠ .ofGroup → kindOf (cStr p) ≠ .ofUser →
      t'.disk.lines p = t.disk.lines p := by
    intro p hgroup huser
    have hfiles : cStr p ≠ cStr (groupFilesFile g) := by
      apply cStr_ne_of_kind
      rwa [kindOf_groupFilesFile]
    have hlists : ∀ v, cStr p ≠ cStr (userFilesFile v) := by
      intro v
      apply cStr_ne_of_kind
      rwa [kindOf_userFilesFile]
    rw [Disk.lines, h.text p hfiles hlists]
    rfl
  rw [h.memory, Memory.reload, Memory.reload, Memory.load, Memory.load,
    hlines credentialFile (by simp) (by simp), hlines onlineFile (by simp) (by simp),
    hlines groupFile (by simp) (by simp), hlines pendingFile (by simp) (by simp)]

lemma seedersReply_nil (f : Str) (records : List (Str × Str × Str)) :
    seedersReply [] f records = [] := by
  simp [seedersReply]

/-- Where there is nothing to see the reply to `give_seeders` is empty. -/
lemma NothingToSee.reply (h : NothingToSee t g) (hsame : t.SameBut g t') {online : Bool}
    {salt : Str} {r : Reply × Tracker × List (Path × Str)}
    (hserve : serve hashPassword t' online salt (.giveSeeders g f u) = some r) : r.1 = some [] := by
  obtain ⟨⟨reply, s'⟩, hrun, rfl⟩ := Option.map_eq_some_iff.mp hserve
  obtain ⟨data, hseeders, rfl⟩ := run_answerData hrun
  cases hm : t'.memory.reload t'.disk with
  | none =>
    rw [sendSeeders, run_fetchDetails_bind] at hseeders
    rw [show (Session.memory ⟨t', salt, online, []⟩).reload
      (Session.disk ⟨t', salt, online, []⟩) = none from hm] at hseeders
    cases hseeders
  | some m =>
    obtain ⟨s₁, hrun₁⟩ := run_sendSeeders_of_reload (g := g) (f := f)
      (s := ⟨t', salt, online, []⟩) hm
    rw [hrun₁] at hseeders
    obtain ⟨records, hrecords, heq⟩ := Option.map_eq_some_iff.mp hseeders
    cases heq
    by_cases hopen : openable (cStr (groupFilesFile g)) = true
    · rw [hsame.reload] at hm
      rw [h hopen m hm, seedersReply_nil]
    · have hlines : Disk.lines (Session.disk ⟨t', salt, online, []⟩) (groupFilesFile g) = [] :=
        Disk.lines_of_not_openable _ (by simpa using hopen)
      rw [hlines] at hrecords
      cases hrecords
      rfl

/-- The tracker with these shared files in the group. -/
def Tracker.share (t : Tracker) (g : Str) (ls : List Str) : Tracker :=
  ⟨t.disk.create (groupFilesFile g) (Disk.putlines ls), t.memory⟩

lemma Tracker.sameBut_share (t : Tracker) (g : Str) (ls : List Str) : t.SameBut g (t.share g ls) :=
  ⟨rfl, fun _ hp _ => Disk.text_create_of_ne _ _ hp⟩

lemma Tracker.lines_share (t : Tracker) {g : Str} {ls : List Str} {p : Path}
    (hp : cStr p = cStr (groupFilesFile g)) (hopen : openable (cStr (groupFilesFile g)) = true)
    (hls : ∀ l ∈ ls, '\n' ∉ l) : (t.share g ls).disk.lines p = ls := by
  have hopen' : cStr p = cStr (groupFilesFile g) ∧ openable (cStr p) = true := ⟨hp, hp ▸ hopen⟩
  have hlines := getlines_putlines hls []
  rw [List.append_nil, getlines, List.append_nil] at hlines
  rw [Disk.lines, Tracker.share, Disk.text_create, if_pos hopen', hlines]

/-- Who is no member is none whatever the shared files are, even if the two files of the group have
    the same name. -/
lemma Tracker.not_member_share (hmember : u ∉ t.disk.lines (membersFile g)) {ls : List Str}
    (hls : ∀ l ∈ ls, '\n' ∉ l) (hu : u ∉ ls) (hopen : openable (cStr (groupFilesFile g)) = true) :
    u ∉ (t.share g ls).disk.lines (membersFile g) := by
  by_cases hp : cStr (membersFile g) = cStr (groupFilesFile g)
  · rw [t.lines_share hp hopen hls]
    exact hu
  · rw [Disk.lines, Tracker.share, Disk.text_create_of_ne _ _ hp]
    exact hmember

variable (hashPassword f u) in
lemma serve_giveSeeders {records : List (Str × Str × Str)} (hm : t.memory.reload t.disk = some m)
    (hrecords : (t.disk.lines (groupFilesFile g)).mapM recordFields = some records)
    (online : Bool) (salt : Str) :
    ∃ t' sent, serve hashPassword t online salt (.giveSeeders g f u) =
      some (some (seedersReply m.online f records), t', sent) := by
  obtain ⟨s', hrun⟩ := run_sendSeeders_of_reload (g := g) (f := f) (s := ⟨t, salt, online, []⟩) hm
  have hlines : (Session.disk ⟨t, salt, online, []⟩).lines (groupFilesFile g) =
      t.disk.lines (groupFilesFile g) := rfl
  rw [hlines, hrecords] at hrun
  refine ⟨s'.tracker, s'.sent, ?_⟩
  rw [serve, trackerKernel, answerData, Prog.run_bind, hrun]
  rfl

/-- A record that a seeder who is online shows. -/
lemma recordFields_fields {x : Str} (hx : ' ' ∉ x) (hf : ' ' ∉ f) :
    recordFields (fields ["h".toList, "1".toList, x, f, "z".toList]) =
      some (f, "1".toList, x) := by
  rw [recordFields, split_fields (by simp) (by simp [hx, hf])]
  rfl

lemma seedersReply_singleton {online : List Str} {x : Str} (hx : x ∈ online) :
    seedersReply online f [(f, "1".toList, x)] ≠ [] := by
  simp [seedersReply, hx, setInsert]

end Seeders

section Replies

variable {hashPassword : Str → Str → Str} {t : Tracker} {g f u : Str}

/-- The replies to somebody who is no member tell nothing about the shared files of the group just
    when nobody is online or the file of the group is none that can be opened. -/
theorem files_hidden_iff (hf : IsWord f) (hu : IsWord u)
    (hmember : u ∉ t.disk.lines (membersFile g)) :
    HidesFiles hashPassword t g f u ↔ NothingToSee t g := by
  constructor
  · intro hhides hopen m hm
    by_contra hne
    obtain ⟨x, hx⟩ := List.exists_mem_of_ne_nil _ hne
    obtain ⟨l, hl, hfirst⟩ := (mem_online_reload hm x).mp hx
    have hfield := List.mem_of_getElem? hfirst
    have hblank : ' ' ∉ x := delim_not_mem_split hfield
    have hnewline : '\n' ∉ x := not_mem_of_mem_split hfield (not_mem_of_mem_getlines hl)
    let record := fields ["h".toList, "1".toList, x, f, "z".toList]
    have hrecord : ∀ l ∈ [record], '\n' ∉ l := by
      rw [List.forall_mem_singleton]
      exact not_mem_fields (by decide) (by simp [hnewline, hf.newline])
    have hstranger : u ∉ [record] := by
      rw [List.mem_singleton]
      rintro rfl
      have hblank' : ' ' ∈ record := by simp [record, fields, List.intercalate]
      exact hu.blank hblank'
    -- one tracker without files in the group, and one with a file of the user who is online
    have hreload : ∀ ls, (t.share g ls).memory.reload (t.share g ls).disk = some m :=
      fun ls => (t.sameBut_share g ls).reload.trans hm
    have hrecords₁ : ((t.share g []).disk.lines (groupFilesFile g)).mapM recordFields =
        some [] := by
      rw [t.lines_share rfl hopen (by simp)]
      rfl
    have hrecords₂ : ((t.share g [record]).disk.lines (groupFilesFile g)).mapM recordFields =
        some [(f, "1".toList, x)] := by
      rw [t.lines_share rfl hopen hrecord, List.mapM_cons, recordFields_fields hblank hf.blank]
      rfl
    obtain ⟨t₁', sent₁, hserve₁⟩ :=
      serve_giveSeeders hashPassword f u (hreload []) hrecords₁ false []
    obtain ⟨t₂', sent₂, hserve₂⟩ :=
      serve_giveSeeders hashPassword f u (hreload [record]) hrecords₂ false []
    have hsame := hhides _ _ (t.sameBut_share g []) (t.sameBut_share g [record])
      (Tracker.not_member_share hmember (by simp) (by simp) hopen)
      (Tracker.not_member_share hmember hrecord hstranger hopen) _ (Or.inr rfl) _ _ _ _ _ _
      hserve₁ hserve₂
    exact seedersReply_singleton hx ((Option.some.inj hsame).symm.trans rfl)
  · rintro hnothing t₁ t₂ hsame₁ hsame₂ hu₁ hu₂ c (rfl | rfl) online₁ online₂ salt₁ salt₂ r₁ r₂
      hserve₁ hserve₂
    · have hempty : ∀ {t' : Tracker} {online : Bool} {salt : Str}
          {r : Reply × Tracker × List (Path × Str)}, u ∉ t'.disk.lines (membersFile g) →
          serve hashPassword t' online salt (.giveSha g f u) = some r → r.1 = some [] := by
        intro t' online salt r hu' hserve
        obtain ⟨⟨reply, s'⟩, hrun, rfl⟩ := Option.map_eq_some_iff.mp hserve
        obtain ⟨hash, hsha, rfl⟩ := run_answerData hrun
        rcases run_sendSHA_cases hsha with ⟨-, rfl, -⟩ | ⟨-, hin, -⟩
        · rfl
        · exact absurd hin hu'
      rw [hempty hu₁ hserve₁, hempty hu₂ hserve₂]
    · rw [hnothing.reply hsame₁ hserve₁, hnothing.reply hsame₂ hserve₂]

end Replies

theorem files_hidden_iff_initial : HidesFiles (fun _ p => p) .initial "g".toList "f".toList
    "u".toList := by
  have hword : ∀ c, isspace c = false → IsWord [c] := fun c hc => List.forall_mem_singleton.mpr hc
  apply (files_hidden_iff (hword 'f' rfl) (hword 'u' rfl) List.not_mem_nil).mpr
  intro _ m hm
  have hload : Tracker.initial.memory.reload Tracker.initial.disk = some {} := rfl
  rw [hload, Option.some.injEq] at hm
  rw [← hm]

/-- The owner of a group shares a file, and somebody who is no member asks who has it. -/
theorem stranger_told_seeders : ∃ (history : List (Command × Reply)) (t : Tracker),
    TrackerRun (fun _ => zerosDigest) (fun _ _ => True) .initial history t ∧
      "u".toList ∉ t.disk.lines (membersFile "g".toList) ∧
      ¬ HidesFiles (hashPassword fun _ => zerosDigest) t "g".toList "f".toList "u".toList := by
  let process := Tracker.process (fun _ => zerosDigest) (List.replicate 16 0) (fun _ _ => true)
    ["create_user o p 1 ip".toList, "create_group g o".toList] ([], .initial)
  let files : List Str := ["h 1 o f z".toList]
  let ask (t : Tracker) := serve (hashPassword fun _ => zerosDigest) t false []
    (.giveSeeders "g".toList "f".toList "u".toList)
  have hprocess : (process.any fun r =>
      decide ("u".toList ∉ r.2.disk.lines (membersFile "g".toList)) &&
        decide ("u".toList ∉ (r.2.share "g".toList files).disk.lines (membersFile "g".toList)) &&
        (ask r.2).any fun a => (ask (r.2.share "g".toList files)).any fun b =>
          decide (a.1 ≠ b.1)) = true := by
    decide +kernel
  obtain ⟨⟨history, t⟩, hrun, hend⟩ := (Option.any_eq_true _ _).mp hprocess
  simp only [Bool.and_eq_true, decide_eq_true_eq] at hend
  obtain ⟨⟨hstranger, hstranger'⟩, hend⟩ := hend
  obtain ⟨a, ha, hend⟩ := (Option.any_eq_true _ _).mp hend
  obtain ⟨b, hb, hne⟩ := (Option.any_eq_true _ _).mp hend
  refine ⟨history, t, Tracker.process_run (fun _ _ _ => trivial) .start hrun, hstranger, ?_⟩
  intro hhides
  apply of_decide_eq_true hne
  exact hhides t (t.share _ files) ⟨rfl, fun _ _ _ => rfl⟩ (t.sameBut_share _ files) hstranger
    hstranger' _ (Or.inr rfl) _ _ _ _ a b ha hb

end TorrentShare
