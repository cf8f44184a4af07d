import TorrentShare.Program.Uniform
import TorrentShare.Tracker.Session

/-!
# What the decisions of handlers depend on

Two trackers with equal files may have different tables. Most handlers reload the tables before
they look at them. Five do not, and these do the same at both trackers if their lookups in the
tables have the same results.
-/

namespace TorrentShare

open Program

/-- The same tables; `group_members` may differ. -/
def Memory.SameTables (m m' : Memory) : Prop := ∃ x, m' = { m with groupMembers := x }

/-- What two trackers with equal files answer to the same calls. The ghost state is the relation
    between their memories. -/
def sameFiles : Likeness callSig (Memory → Memory → Prop) where
  alike
    | .prim .memory,       e, m, m' => e m m'
    | .prim (.read _),     _, s, s' => s.getD [] = s'.getD []
    | .prim .generateSalt, _, s, s' => s = s'
    | _,                   _, _, _  => True
  next
    | .prim .memory,        m, m', _ => fun n n' => n = m ∧ n' = m'
    | .prim (.modify f),    _, _, e  => fun n n' => ∃ m m', e m m' ∧ n = f m ∧ n' = f m'
    | .fetchDetails,        _, _, _  => Memory.SameTables
    | .fetchGroupMembers _, _, _, e  => fun n n' => ∃ m m' ms, e m m' ∧
        n = { m with groupMembers := ms } ∧ n' = { m' with groupMembers := ms }
    | _,                    _, _, e  => e

/-- The lookups that the handlers without a reload make in the tables. -/
def Memory.SameLookups (m m' : Memory) : Command → Prop
  | .joinGroup g u            => m.groups.lookup g = m'.groups.lookup g ∧
      ∀ o, m.groups.lookup g = some o → (o ∈ m.online ↔ o ∈ m'.online) ∧ (o ∉ m.online →
        ((u, g) ∈ m.pendingGroupRequests ↔ (u, g) ∈ m'.pendingGroupRequests))
  | .acceptRequest g u a      =>
      (m.groups.lookup g = some a ∧ m.credentials.lookup u ≠ none ∧
          (u, g) ∈ m.pendingGroupRequests ↔
        m'.groups.lookup g = some a ∧ m'.credentials.lookup u ≠ none ∧
          (u, g) ∈ m'.pendingGroupRequests)
  | .uploadFile _ _ g _ _ _   => m.groups.lookup g = none ↔ m'.groups.lookup g = none
  | .stopShare g _ u          => (m.groups.lookup g = none ∨ m.credentials.lookup u = none ↔
      m'.groups.lookup g = none ∨ m'.credentials.lookup u = none)
  | .leaveGroup g _           => m.groups.lookup g = m'.groups.lookup g
  | _                         => True

section Rules

variable {α : Type} {e : Memory → Memory → Prop} {Q : α → (Memory → Memory → Prop) → Prop}

lemma memory_uniform {k : Memory → Prog callSig α} (hk : ∀ m m', e m m' → k m = k m')
    (h : ∀ m m', e m m' → (k m).Uniform sameFiles (fun n n' => n = m ∧ n' = m') Q) :
    (call .memory >>= k).Uniform sameFiles e Q :=
  fun m m' hm => ⟨hk m m' hm, h m m' hm⟩

lemma read_uniform {p : Path} {k : Option Str → Prog callSig α}
    (hk : ∀ s s', s.getD [] = s'.getD [] → k s = k s')
    (h : ∀ s, (k s).Uniform sameFiles e Q) : (call (.read p) >>= k).Uniform sameFiles e Q :=
  fun s s' hs => ⟨hk s s' hs, h s⟩

lemma generateSalt_uniform {k : Str → Prog callSig α} (h : ∀ s, (k s).Uniform sameFiles e Q) :
    (call .generateSalt >>= k).Uniform sameFiles e Q :=
  fun s _ hs => ⟨congrArg k hs, h s⟩

@[simp] lemma checked_uniform (x : Option α) :
    (checked x).Uniform sameFiles e Q ↔ ∀ b, x = some b → Q b e := by
  cases x with
  | some b => simp [checked]
  | none => simp [checked, IsEmpty.forall_iff]

@[simp] lemma checked_bind_uniform {β : Type} (x : Option β) (f : β → Prog callSig α) :
    (checked x >>= f).Uniform sameFiles e Q ↔ ∀ b, x = some b → (f b).Uniform sameFiles e Q := by
  cases x with
  | some b => simp [checked]
  | none => simp [checked, IsEmpty.forall_iff]

/-- The rule for a handler that reloads the tables and looks at them. -/
lemma reload_uniform {k : Memory → Prog callSig α}
    (hk : ∀ (m : Memory) (x : List Str), k m = k { m with groupMembers := x })
    (h : ∀ m x, (k m).Uniform sameFiles
      (fun n n' => n = m ∧ n' = { m with groupMembers := x }) Q) :
    (fetchDetails >>= fun _ => call .memory >>= k).Uniform sameFiles e Q := by
  intro _ _ _
  refine ⟨rfl, memory_uniform ?_ ?_⟩
  · rintro m _ ⟨x, rfl⟩
    exact hk m x
  · rintro m _ ⟨x, rfl⟩
    exact h m x

/-- The rule for a handler that goes on to look at `group_members`. -/
lemma members_uniform {group : Str} {m m' : Memory} {k : Memory → Prog callSig α}
    (hk : ∀ ms, k { m with groupMembers := ms } = k { m' with groupMembers := ms })
    (h : ∀ n e', (k n).Uniform sameFiles e' Q) :
    (fetchGroupMembers group >>= fun _ => call .memory >>= k).Uniform sameFiles
      (fun n n' => n = m ∧ n' = m') Q := by
  intro _ _ _
  refine ⟨rfl, memory_uniform ?_ fun n _ _ => h n _⟩
  rintro _ _ ⟨_, _, ms, ⟨rfl, rfl⟩, rfl, rfl⟩
  exact hk ms

end Rules

section Handlers

variable (hashPassword : Str → Str → Str) (e : Memory → Memory → Prop)

/-- The handler does the same on equal files and memories related by `e`. -/
def Uniform {α : Type} (p : Prog callSig α) : Prop := p.Uniform sameFiles e fun _ _ => True

lemma checkGroupFiles_uniform (h : Str) (p : Path) (u : Str) :
    Uniform e (checkGroupFiles h p u) := by
  rw [Uniform, checkGroupFiles]
  refine read_uniform (fun s s' hs => by rw [hs]) fun s => ?_
  simp [call]

lemma getGroupFileName_uniform (h : Str) (p : Path) : Uniform e (getGroupFileName h p) := by
  rw [Uniform, getGroupFileName]
  refine fun _ _ _ => ⟨rfl, read_uniform (fun s s' hs => by rw [hs]) fun s => ?_⟩
  simp [call]

lemma checkIntegrity_uniform (h : Str) (p : Path) (f : Str) :
    Uniform e (checkIntegrity h p f) := by
  rw [Uniform, checkIntegrity]
  refine fun _ _ _ => ⟨rfl, read_uniform (fun s s' hs => by rw [hs]) fun s => ?_⟩
  simp [call]

lemma userLogin_uniform (u p port ip : Str) : Uniform e (userLogin hashPassword u p port ip) := by
  rw [Uniform, userLogin]
  refine reload_uniform (fun _ _ => rfl) fun m x => ?_
  split
  · trivial
  · rw [Prog.uniform_ite]
    refine ⟨fun _ => memory_uniform ?_ fun m _ _ => ?_, fun _ => trivial⟩
    · rintro _ _ ⟨rfl, rfl⟩
      rfl
    · simp [call, Prog.uniform_ite]

lemma userCreate_uniform (u p port ip : Str) :
    Uniform e (userCreate hashPassword u p port ip) := by
  rw [Uniform, userCreate]
  refine reload_uniform (fun _ _ => rfl) fun m x => ?_
  split
  · trivial
  · refine fun _ _ _ => ⟨rfl, fun _ _ _ => ⟨rfl, fun _ _ _ => ⟨rfl, ?_⟩⟩⟩
    refine generateSalt_uniform fun salt => ?_
    simp [call, fetchDetails]

lemma logout_uniform (u : Str) : Uniform e (logout u) := by
  rw [Uniform, logout]
  refine reload_uniform (fun _ _ => rfl) fun m x => ?_
  simp [call, fetchDetails, deleteLine, rewrite, Prog.uniform_ite]

lemma groupCreate_uniform (g u : Str) : Uniform e (groupCreate g u) := by
  rw [Uniform, groupCreate]
  refine reload_uniform (fun _ _ => rfl) fun m x => ?_
  split
  · trivial
  · simp [call, fetchDetails]

lemma groupList_uniform : Uniform e groupList := by
  rw [Uniform, groupList]
  exact reload_uniform (fun _ _ => rfl) fun _ _ => trivial

lemma groupRequestList_uniform (g u : Str) : Uniform e (groupRequestList g u) := by
  rw [Uniform, groupRequestList]
  refine reload_uniform (fun _ _ => rfl) fun m x => ?_
  split
  · trivial
  · simp [Prog.uniform_ite]

lemma groupFileList_uniform (g : Str) : Uniform e (groupFileList g) := by
  rw [Uniform, groupFileList]
  refine reload_uniform (fun _ _ => rfl) fun m x => ?_
  split
  · trivial
  · refine fun _ _ _ => ⟨rfl, read_uniform (fun s s' hs => by rw [hs]) fun s => ?_⟩
    simp [call]

/-- `GroupJoin` looks for the group, for its owner among the users online, and for the request
    if the owner is not there. -/
lemma groupJoin_uniform (g u : Str) :
    Uniform (fun m m' => m.SameLookups m' (.joinGroup g u)) (groupJoin g u) := by
  rw [Uniform, groupJoin]
  refine memory_uniform (fun m m' hm => by rw [hm.1]) fun m m' hm => ?_
  split
  · trivial
  · rename_i owner howner
    obtain ⟨honline, hpending⟩ := hm.2 owner howner
    refine members_uniform (fun ms => ?_) fun n e' => ?_
    · by_cases ho : owner ∈ m.online
      · simp [ho, honline.mp ho]
      · have ho' : owner ∉ m'.online := fun h => ho (honline.mpr h)
        simp [ho, ho', hpending ho]
    · simp [call, Prog.uniform_ite]

/-- `GroupAcceptRequest` looks for the owner, the user and the request. -/
lemma groupAcceptRequest_uniform (g u a : Str) :
    Uniform (fun m m' => m.SameLookups m' (.acceptRequest g u a)) (groupAcceptRequest g u a) := by
  rw [Uniform, groupAcceptRequest]
  refine memory_uniform (fun m m' hm => ?_) fun m m' hm => ?_
  · have hrefuse := not_congr hm
    simp only [not_and_or, not_not] at hrefuse
    simp only [ne_eq, hrefuse]
  · rw [Prog.uniform_ite]
    refine ⟨fun _ => trivial, fun _ => members_uniform (fun ms => rfl) fun n e' => ?_⟩
    simp [call, deleteWholeLine, rewrite, Prog.uniform_ite]

/-- `GroupLeave` looks for the group and its owner. -/
lemma groupLeave_uniform (g u : Str) :
    Uniform (fun m m' => m.SameLookups m' (.leaveGroup g u)) (groupLeave g u) := by
  rw [Uniform, groupLeave]
  refine memory_uniform (fun m m' hm => by rw [show _ = _ from hm]) fun m m' hm => ?_
  split
  · trivial
  · refine members_uniform (fun ms => rfl) fun n e' => ?_
    simp [call, deleteLine, rewrite, fetchDetails, Prog.uniform_ite]

/-- `GroupFileUpload` looks for the group. -/
lemma groupFileUpload_uniform (h size g u f p : Str) :
    Uniform (fun m m' => m.SameLookups m' (.uploadFile h size g u f p))
      (groupFileUpload h size g u f p) := by
  rw [Uniform, groupFileUpload]
  refine memory_uniform (fun m m' hm => ?_) fun m m' hm => ?_
  · have hgroup : m.groups.lookup g = none ↔ m'.groups.lookup g = none := hm
    simp only [hgroup]
  · rw [Prog.uniform_ite]
    refine ⟨fun _ => trivial, fun _ => members_uniform (fun ms => rfl) fun n e' => ?_⟩
    rw [Prog.uniform_ite]
    refine ⟨fun _ => trivial, fun _ => ?_⟩
    refine Prog.Uniform.bind (checkGroupFiles_uniform _ _ _ _) fun found e' _ => ?_
    rw [Prog.uniform_ite]
    refine ⟨fun _ => trivial, fun _ => ?_⟩
    refine Prog.Uniform.bind (getGroupFileName_uniform _ _ _) fun stored e' _ => ?_
    refine Prog.Uniform.bind (checkIntegrity_uniform _ _ _ _) fun wrong e' _ => ?_
    simp [call, Prog.uniform_ite]

/-- `GroupStopShare` looks for the group and the user. -/
lemma groupStopShare_uniform (g f u : Str) :
    Uniform (fun m m' => m.SameLookups m' (.stopShare g f u)) (groupStopShare g f u) := by
  rw [Uniform, groupStopShare]
  refine memory_uniform (fun m m' hm => ?_) fun m m' hm => ?_
  · have htables : m.groups.lookup g = none ∨ m.credentials.lookup u = none ↔
        m'.groups.lookup g = none ∨ m'.credentials.lookup u = none := hm
    simp only [htables]
  · rw [Prog.uniform_ite]
    refine ⟨fun _ => trivial, fun _ => members_uniform (fun ms => rfl) fun n e' => ?_⟩
    simp [call, rewrite, Prog.uniform_ite]

lemma sendSHA_uniform (g f u : Str) : Uniform e (sendSHA g f u) := by
  rw [Uniform, sendSHA]
  refine reload_uniform (fun _ _ => rfl) fun m x => ?_
  split
  · trivial
  · refine members_uniform (fun ms => rfl) fun n e' => ?_
    rw [Prog.uniform_ite]
    refine ⟨fun _ => trivial, fun _ => ?_⟩
    refine fun _ _ _ => ⟨rfl, read_uniform (fun s s' hs => by rw [hs]) fun s => ?_⟩
    simp [call]

lemma sendSeeders_uniform (g f : Str) : Uniform e (sendSeeders g f) := by
  rw [Uniform, sendSeeders]
  refine fun _ _ _ => ⟨rfl, fun _ _ _ => ⟨rfl, ?_⟩⟩
  refine read_uniform (fun s s' hs => by rw [hs]) fun s => memory_uniform ?_ fun m _ _ => ?_
  · rintro m _ ⟨x, rfl⟩
    rfl
  · simp [call]

lemma sendDetails_uniform (u : Str) : Uniform e (sendDetails u) := by
  rw [Uniform, sendDetails]
  refine reload_uniform (fun _ _ => rfl) fun m x => ?_
  simp [call]

lemma getFullPath_uniform (u g f : Str) : Uniform e (getFullPath u g f) := by
  rw [Uniform, getFullPath]
  refine read_uniform (fun s s' hs => by rw [hs]) fun s => ?_
  simp

lemma updateDownload_uniform (g f p u : Str) : Uniform e (updateDownload g f p u) := by
  rw [Uniform, updateDownload]
  refine fun _ _ _ => ⟨rfl, read_uniform (fun s s' hs => by rw [hs]) fun s => ?_⟩
  simp only [checked_bind_uniform]
  intro found _ data _ size _
  refine read_uniform (fun s s' hs => by rw [hs]) fun s => ?_
  simp [call, Prog.uniform_ite]

lemma showDownloads_uniform (u : Str) : Uniform e (showDownloads u) := by
  rw [Uniform, showDownloads]
  refine fun _ _ _ => ⟨rfl, fun _ _ _ => ⟨rfl, ?_⟩⟩
  refine read_uniform (fun s s' hs => by rw [hs]) fun s => ?_
  refine read_uniform (fun s s' hs => by rw [hs]) fun s => ?_
  simp [call]

lemma completeDownload_uniform (g f u : Str) : Uniform e (completeDownload g f u) := by
  simp [Uniform, completeDownload, call, fetchDetails, deleteWholeLine, rewrite]

lemma answer_uniform {p : Prog callSig Bool} (h : Uniform e p) : Uniform e (answer p) :=
  Prog.Uniform.bind h fun _ _ _ => trivial

lemma answerData_uniform {p : Prog callSig Str} (h : Uniform e p) : Uniform e (answerData p) :=
  Prog.Uniform.bind h fun _ _ _ => trivial

lemma noAnswer_uniform {p : Prog callSig Unit} (h : Uniform e p) : Uniform e (noAnswer p) :=
  Prog.Uniform.bind h fun _ _ _ => trivial

/-- A command does the same at two trackers with equal files if the lookups that its handler
    makes without a reload have the same results. -/
lemma trackerKernel_uniform (c : Command) :
    Uniform (fun m m' => m.SameLookups m' c) (trackerKernel hashPassword c) := by
  cases c with
  | login u p port ip => exact answer_uniform _ (userLogin_uniform hashPassword _ u p port ip)
  | createUser u p port ip => exact answer_uniform _ (userCreate_uniform hashPassword _ u p port ip)
  | createGroup g u => exact answer_uniform _ (groupCreate_uniform _ g u)
  | listGroups => exact answerData_uniform _ (groupList_uniform _)
  | joinGroup g u => exact answer_uniform _ (groupJoin_uniform g u)
  | listRequests g u => exact answerData_uniform _ (groupRequestList_uniform _ g u)
  | acceptRequest g u a => exact answer_uniform _ (groupAcceptRequest_uniform g u a)
  | uploadFile h s g u f p => exact answer_uniform _ (groupFileUpload_uniform h s g u f p)
  | listFiles g => exact answerData_uniform _ (groupFileList_uniform _ g)
  | stopShare g f u => exact answer_uniform _ (groupStopShare_uniform g f u)
  | leaveGroup g u => exact answer_uniform _ (groupLeave_uniform g u)
  | logout u => exact answer_uniform _ (logout_uniform _ u)
  | giveSha g f u => exact answerData_uniform _ (sendSHA_uniform _ g f u)
  | giveSeeders g f u => exact answerData_uniform _ (sendSeeders_uniform _ g f)
  | giveDetails u => exact answerData_uniform _ (sendDetails_uniform _ u)
  | sendFullPath u g f => exact answerData_uniform _ (getFullPath_uniform _ u g f)
  | addFile g f p u => exact noAnswer_uniform _ (updateDownload_uniform _ g f p u)
  | complete g f p u => exact noAnswer_uniform _ (completeDownload_uniform _ g f u)
  | showDownloads u => exact answerData_uniform _ (showDownloads_uniform _ u)

end Handlers

end TorrentShare
