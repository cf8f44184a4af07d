import Mathlib.Logic.Relation
import TorrentShare.Tracker.Refusals
import TorrentShare.Tracker.Reloading

/-!
# Who can replace a credential

Commands of clients and the files of the sibling come in at the same port. Of the commands only
`create_user` writes to the credential file, and it appends. A `Sync` replaces the file that it
names.
-/

namespace TorrentShare

open Program

/-! ### Which files a command writes to -/

/-- Whatever the call writes to is one of the files. -/
@[simp] def Call.writesIn (ps : List Path) : Call → Prop
  | .prim (.append p _) => p ∈ ps
  | .prim (.create p _) => p ∈ ps
  | .prim (.remove _)   => False
  | .prim (.rename _ _) => False
  | .rewrite _ p _      => p ∈ ps
  | _                   => True

/-- The files that the handler of a command may write to. -/
def Command.targets : Command → List Path
  | .login ..               => [onlineFile]
  | .createUser u _ _ _     =>
    [onlineFile, credentialFile, userFilesFile u, downloadingFile u, downloadedFile u]
  | .createGroup g _        => [groupFile, membersFile g, groupFilesFile g]
  | .joinGroup ..           => [pendingFile]
  | .acceptRequest g _ _    => [pendingFile, membersFile g]
  | .uploadFile _ _ g u _ _ => [groupFilesFile g, userFilesFile u]
  | .stopShare g _ u        => [groupFilesFile g, userFilesFile u]
  | .leaveGroup g u         => [membersFile g, groupFilesFile g, userFilesFile u]
  | .logout _               => [onlineFile]
  | .giveSha _ _ u          => [downloadingFile u]
  | .addFile g _ _ u        => [userFilesFile u, groupFilesFile g]
  | .complete _ _ _ u       => [downloadingFile u, downloadedFile u]
  | _                       => []

lemma Call.writesIn_of_reads {o : Call} (ho : o.reads) (ps : List Path) : o.writesIn ps := by
  cases o with
  | prim o =>
    cases o with
    | append p c => exact ho.elim
    | create p c => exact ho.elim
    | remove p => exact ho.elim
    | rename p q => exact ho.elim
    | _ => exact trivial
  | rewrite mode p drop => exact ho.elim
  | _ => exact trivial

section Handlers

variable (hashPassword : Str → Str → Str)

@[simp] lemma deleteLine_writesIn (ps : List Path) (p : Path) (d : Str) (i : ℕ)
    (Q : Unit → Unit → Prop) :
    (deleteLine p d i).Follows (kind (Call.writesIn ps)) () Q ↔ p ∈ ps ∧ Q () () := by
  simp [deleteLine, call, Prog.follows_bind, Unique.forall_iff]

@[simp] lemma deleteWholeLine_writesIn (ps : List Path) (p : Path) (d : Str)
    (Q : Unit → Unit → Prop) :
    (deleteWholeLine p d).Follows (kind (Call.writesIn ps)) () Q ↔ p ∈ ps ∧ Q () () := by
  simp [deleteWholeLine, call, Prog.follows_bind, Unique.forall_iff]

/-- The handler of a command writes to no other files. -/
lemma trackerKernel_writesIn (c : Command) :
    (trackerKernel hashPassword c).Only (Call.writesIn c.targets) := by
  cases c with
  | login u p port ip =>
    refine Prog.Only.bind ?_ fun _ => trivial
    simp only [Prog.Only, userLogin, call, Prog.follows_bind, fetchDetails_follows,
      Prog.follows_call, Prog.follows_ret, kind_allowed, Call.writesIn, true_and]
    intro _ m _
    split
    · trivial
    · simp [Command.targets, Prog.follows_ite]
  | createUser u p port ip =>
    refine Prog.Only.bind ?_ fun _ => trivial
    simp only [Prog.Only, userCreate, call, Prog.follows_bind, fetchDetails_follows,
      Prog.follows_call, Prog.follows_ret, kind_allowed, Call.writesIn, true_and]
    intro _ m _
    split
    · trivial
    · simp [Command.targets, Prog.follows_bind]
  | createGroup g u =>
    refine Prog.Only.bind ?_ fun _ => trivial
    simp only [Prog.Only, groupCreate, call, Prog.follows_bind, fetchDetails_follows,
      Prog.follows_call, Prog.follows_ret, kind_allowed, Call.writesIn, true_and]
    intro _ m _
    split
    · trivial
    · simp [Command.targets, Prog.follows_bind]
  | joinGroup g u =>
    refine Prog.Only.bind ?_ fun _ => trivial
    simp only [Prog.Only, groupJoin, call, Prog.follows_bind, Prog.follows_call,
      Prog.follows_ret, kind_allowed, Call.writesIn, true_and]
    intro m _
    split
    · trivial
    · simp [Command.targets, Prog.follows_bind, Prog.follows_ite]
  | acceptRequest g u a =>
    refine Prog.Only.bind ?_ fun _ => trivial
    simp [Prog.Only, groupAcceptRequest, call, Prog.follows_bind, Prog.follows_ite,
      Command.targets]
  | uploadFile h z g u f p =>
    refine Prog.Only.bind ?_ fun _ => trivial
    simp [Prog.Only, groupFileUpload, call, Prog.follows_bind, Prog.follows_ite, checkGroupFiles,
      getGroupFileName, checkIntegrity, Command.targets]
  | stopShare g f u =>
    refine Prog.Only.bind ?_ fun _ => trivial
    simp [Prog.Only, groupStopShare, call, Prog.follows_bind, Prog.follows_ite, Command.targets]
  | leaveGroup g u =>
    refine Prog.Only.bind ?_ fun _ => trivial
    simp only [Prog.Only, groupLeave, call, Prog.follows_bind, Prog.follows_call,
      Prog.follows_ret, kind_allowed, Call.writesIn, true_and]
    intro m _
    split
    · trivial
    · simp [Command.targets, Prog.follows_bind, Prog.follows_ite]
  | logout u =>
    refine Prog.Only.bind ?_ fun _ => trivial
    simp [Prog.Only, logout, call, Prog.follows_bind, Prog.follows_ite, Command.targets]
  | giveSha g f u =>
    refine Prog.Only.bind ?_ fun _ => trivial
    simp only [Prog.Only, sendSHA, call, Prog.follows_bind, fetchDetails_follows,
      Prog.follows_call, Prog.follows_ret, kind_allowed, Call.writesIn, true_and]
    intro _ m _
    split
    · trivial
    · simp [Command.targets, Prog.follows_bind, Prog.follows_ite]
  | addFile g f p u =>
    refine Prog.Only.bind ?_ fun _ => trivial
    simp [Prog.Only, updateDownload, call, Prog.follows_bind, Prog.follows_ite, Command.targets]
  | complete g f p u =>
    refine Prog.Only.bind ?_ fun _ => trivial
    simp [Prog.Only, completeDownload, call, Prog.follows_bind, Command.targets]
  | _ => exact (trackerKernel_reads hashPassword rfl).mono fun _ ho => Call.writesIn_of_reads ho _

end Handlers

section Texts

variable {ps : List Path} {q : Path} {s s' : Session}

/-- A call leaves the files alone that it does not write to. -/
lemma Call.writesIn.text {o : Call} {a : callAns o} (ho : o.writesIn ps)
    (hq : ∀ p ∈ ps, cStr q ≠ cStr p) (htemp : cStr q ≠ tempFile)
    (h : callInterp o s = some (a, s')) : s'.disk.text q = s.disk.text q := by
  cases o with
  | rewrite mode p drop =>
    rw [callInterp_rewrite] at h
    obtain ⟨ks, -, heq⟩ := Option.map_eq_some_iff.mp h
    cases heq
    exact Disk.text_rewritten_of_ne _ mode ks (hq p ho) htemp
  | prim o =>
    cases o with
    | append p c =>
      cases h
      exact Disk.text_append_of_ne _ _ (hq p ho)
    | create p c =>
      cases h
      exact Disk.text_create_of_ne _ _ (hq p ho)
    | remove p => exact ho.elim
    | rename p q => exact ho.elim
    | _ => exact text_of_not_writes rfl h _
  | _ => exact text_of_not_writes rfl h _

variable (ps) in
/-- The run lemma. -/
lemma text_of_run_writesIn {α : Type} {p : Prog callSig α} (hp : p.Only (Call.writesIn ps))
    (hq : ∀ p ∈ ps, cStr q ≠ cStr p) (htemp : cStr q ≠ tempFile) {a : α}
    (h : p.run callInterp s = some (a, s')) : s'.disk.text q = s.disk.text q := by
  obtain ⟨-, -, htext⟩ := Prog.Follows.run (R := fun _ s₁ => s₁.disk.text q = s.disk.text q)
    (fun _ _ _ _ _ ho hs₁ hstep => ⟨trivial, (ho.text hq htemp hstep).trans hs₁⟩) hp rfl h
  exact htext

end Texts

/-! ### The credential file -/

section Credentials

variable {hashPassword : Str → Str → Str} {c : Command} {t t' : Tracker} {online : Bool}
  {salt : Str} {r : Reply × Tracker × List (Path × Str)} {d d' : Disk}

/-- Only `create_user` writes to the credential file. -/
lemma text_credentialFile_of_serve (hc : ∀ u p port ip, c ≠ .createUser u p port ip)
    (h : serve hashPassword t online salt c = some r) :
    r.2.1.disk.text credentialFile = t.disk.text credentialFile := by
  obtain ⟨⟨reply, s'⟩, hrun, rfl⟩ := Option.map_eq_some_iff.mp h
  refine text_of_run_writesIn _ (trackerKernel_writesIn hashPassword c) (fun p hp => ?_)
    credentialFile_ne_temp hrun
  have hkind : kindOf (cStr p) ≠ .credential := by
    cases c with
    | createUser u p port ip => exact absurd rfl (hc u p port ip)
    | _ =>
      simp only [Command.targets, List.mem_cons, List.not_mem_nil, or_false] at hp
      try rcases hp with rfl | rfl | rfl
      all_goals simp
  apply cStr_ne_of_kind
  rw [kindOf_credentialFile]
  exact hkind.symm

/-- `create_user` appends a line for a name that has none, or nothing. -/
lemma text_credentialFile_of_createUser {u p port ip : Str}
    (h : serve hashPassword t online salt (.createUser u p port ip) = some r) :
    r.2.1.disk.text credentialFile = t.disk.text credentialFile ∨
      t.disk.credential u = none ∧ r.2.1.disk.text credentialFile = t.disk.text credentialFile ++
        putline (fields [u, salt ++ [':'] ++ hashPassword salt p]) := by
  obtain ⟨⟨reply, s'⟩, hkernel, rfl⟩ := Option.map_eq_some_iff.mp h
  rw [trackerKernel, answer, Prog.run_bind] at hkernel
  obtain ⟨⟨b, s₀⟩, hrun, heq⟩ := Option.bind_eq_some_iff.mp hkernel
  cases heq
  obtain ⟨s₁, htext, -, hcredentials, hsalt, hrun⟩ := of_run_fetchDetails hrun
  rw [run_memory_bind] at hrun
  cases hstored : s₁.memory.credentials.lookup u with
  | some stored =>
    simp only [hstored] at hrun
    cases hrun
    exact Or.inl (htext _)
  | none =>
    have hnew : t.disk.credential u = none := by rwa [hcredentials] at hstored
    simp only [hstored] at hrun
    rw [run_lock_bind, run_modify_bind, run_append_bind, run_generateSalt_bind, run_append_bind]
      at hrun
    refine Or.inr ⟨hnew, ?_⟩
    -- the rest writes to the files of the user only
    have hrest := text_of_run_writesIn (q := credentialFile)
      [userFilesFile u, downloadingFile u, downloadedFile u]
      (by simp [Prog.Only, call, Prog.follows_bind]) (by
        intro p hp
        simp only [List.mem_cons, List.not_mem_nil, or_false] at hp
        apply cStr_ne_of_kind
        rcases hp with rfl | rfl | rfl <;> simp) credentialFile_ne_temp hrun
    have honline : cStr credentialFile ≠ cStr onlineFile := cStr_ne_of_kind (by simp)
    have hopen : openable (cStr credentialFile) = true := rfl
    have htext' : (s₁.disk.append onlineFile (putline (fields [u, ip, port]))).text credentialFile =
        t.disk.text credentialFile :=
      (Disk.text_append_of_ne _ _ honline).trans (htext _)
    refine hrest.trans ?_
    rw [Session.disk_setDisk, Disk.text_append, if_pos ⟨rfl, hopen⟩, Session.disk_setDisk,
      Session.disk_setMemory, htext', ← show s₁.salt = salt from hsalt]
    rfl

/-- A record that is appended to whole lines keeps the credentials of all but the name that it is
    read as. -/
lemma credential_of_appended {l : Str} (hterminated : Terminated (d.text credentialFile))
    (htext : d'.text credentialFile = d.text credentialFile ++ putline l) (hl : '\n' ∉ l)
    (hnew : ∀ target, d.credential (extractPair target l).1 = none) {v stored : Str}
    (hv : d.credential v = some stored) : d'.credential v = some stored := by
  have hlines : d'.lines credentialFile = d.lines credentialFile ++ [l] := by
    rw [Disk.lines, htext, hterminated.getlines_append, getlines_putline_self hl]
    rfl
  rw [Disk.credential, credentialsOf, hlines, readPairs_append, List.foldl_append]
  simp only [readPairs, List.foldl_cons, List.foldl_nil, lookup_tableSet]
  rw [if_neg]
  · exact hv
  · rintro rfl
    rw [hnew] at hv
    cases hv

lemma extractPair_blank {b : Str} (hb : IsToken b) (target : Str × Str) :
    extractPair target (fields [[], b]) = (b, target.2) := by
  have hfirst : extract (fields [[], b]) = some (b, []) := by
    have hb' := hb.extract_append (r := []) (by simp)
    rw [List.append_nil, ← extract_blank] at hb'
    exact (congrArg extract (fields_pair [] b)).trans hb'
  have hsecond : extract [] = none := rfl
  simp only [extractPair, hfirst, hsecond]

end Credentials

/-! ### Messages -/

def syncOver : Str := "Sync Over".toList

/-- What `SyncRecv` writes of what it reads, and whether it has come to the end. -/
def syncRecv : List Str → Str × Bool
  | []            => ([], false)
  | line :: lines =>
    if line = syncOver then ([], true)
    else (line ++ (syncRecv lines).1, (syncRecv lines).2)

/-- A message with what its sender lets follow it, and what the tracker meets with meanwhile: the
    random bytes it draws, and whether the sibling accepts connections. -/
structure Delivery where
  message : Str
  stream : List Str
  bytes : List (Fin 256)
  siblingOnline : Bool

section Messages

variable (sha256 : Str → List (Fin 256)) (names : Path → Option Path)

/-- The message is processed. `names` says which entry of `.all_files` a path leads to. Of a stream
    without an end any part may have reached the file. -/
def Tracker.Takes (t : Tracker) (x : Delivery) (t' : Tracker) : Prop :=
  match Request.parse x.message with
  | .client c => ∃ reply sent,
      serve (hashPassword sha256) t x.siblingOnline (generateSalt x.bytes) c =
        some (reply, t', sent)
  | .sync p => ∃ written, written <+: (syncRecv x.stream).1 ∧
      ((syncRecv x.stream).2 = true → written = (syncRecv x.stream).1) ∧
      t' = (names (cStr p)).elim t fun q => { t with disk := t.disk.create q written }
  | .syncAll => t' = t
  | .unknown => t' = t

/-- What is delivered for the credential file comes to its end, consists of whole lines and says
    about every user what the file said. -/
structure KeepsAccounts (d : Disk) (stream : List Str) : Prop where
  ended : (syncRecv stream).2 = true
  terminated : Terminated (syncRecv stream).1
  accounts : ∀ v stored, d.credential v = some stored →
    (credentialsOf (getlines (syncRecv stream).1)).lookup v = some stored

/-- A `Sync` of the credential file keeps the accounts, and an account without a name is not
    registered while an account is named like its salt and hash. -/
def Tracker.Harmless (t : Tracker) (x : Delivery) : Prop :=
  match Request.parse x.message with
  | .client (.createUser [] p _ _) =>
    t.disk.credential (generateSalt x.bytes ++ [':'] ++
      hashPassword sha256 (generateSalt x.bytes) p) = none
  | .client _ => True
  | .sync p => ∀ q, names (cStr p) = some q → cStr q = credentialFile →
      KeepsAccounts t.disk x.stream
  | .syncAll => True
  | .unknown => True

/-- The states that are reached from a tracker without files by harmless messages. -/
def Reached (t : Tracker) : Prop :=
  Relation.ReflTransGen (fun t t' => ∃ x, t.Harmless sha256 names x ∧ t.Takes sha256 names x t')
    .initial t

variable {sha256 names} {t t' : Tracker} {x : Delivery}

variable (sha256) in
lemma isToken_stored (bytes : List (Fin 256)) (p : Str) :
    IsToken (generateSalt bytes ++ [':'] ++ hashPassword sha256 (generateSalt bytes) p) := by
  refine ⟨fun c hc => ?_, by simp⟩
  simp only [List.mem_append, List.mem_singleton] at hc
  rcases hc with (hc | rfl) | hc
  · exact isspace_of_mem_hex hc
  · rfl
  · exact isspace_of_mem_hex hc

/-- The step lemma. -/
lemma Tracker.Takes.credentials (hterminated : Terminated (t.disk.text credentialFile))
    (hx : t.Harmless sha256 names x) (h : t.Takes sha256 names x t') :
    Terminated (t'.disk.text credentialFile) ∧
      ∀ v stored, t.disk.credential v = some stored → t'.disk.credential v = some stored := by
  have hsame : t'.disk.text credentialFile = t.disk.text credentialFile →
      Terminated (t'.disk.text credentialFile) ∧
        ∀ v stored, t.disk.credential v = some stored → t'.disk.credential v = some stored := by
    intro htext
    have hlines : t'.disk.lines credentialFile = t.disk.lines credentialFile :=
      congrArg getlines htext
    simp only [Disk.credential, hlines, htext]
    exact ⟨hterminated, fun _ _ => id⟩
  have hwords := Request.parse_hasWords x.message
  unfold Tracker.Takes at h
  unfold Tracker.Harmless at hx
  cases hparse : Request.parse x.message with
  | client c =>
    rw [hparse] at h hwords
    obtain ⟨reply, sent, hserve⟩ := h
    by_cases hc : ∀ u p port ip, c ≠ .createUser u p port ip
    · exact hsame (text_credentialFile_of_serve hc hserve)
    · push Not at hc
      obtain ⟨u, p, port, ip, rfl⟩ := hc
      rcases text_credentialFile_of_createUser hserve with htext | ⟨hnew, htext⟩
      · exact hsame htext
      · have hu : IsWord u := hwords u (by simp [Command.args])
        have hstored := isToken_stored sha256 x.bytes p
        have hline : '\n' ∉ fields [u, generateSalt x.bytes ++ [':'] ++
            hashPassword sha256 (generateSalt x.bytes) p] :=
          newline_fields (List.forall_mem_cons.mpr ⟨hu, List.forall_mem_singleton.mpr hstored.1⟩)
        have hkey : ∀ target, t.disk.credential (extractPair target (fields [u,
            generateSalt x.bytes ++ [':'] ++
              hashPassword sha256 (generateSalt x.bytes) p])).1 = none := by
          intro target
          cases u with
          | nil =>
            rw [hparse] at hx
            rw [extractPair_blank hstored]
            exact hx
          | cons a u =>
            rw [extractPair_fields ⟨hu, List.cons_ne_nil a u⟩ hstored]
            exact hnew
        have hwhole := hterminated.append (terminated_putline hline)
        exact ⟨by rwa [htext], fun _ _ => credential_of_appended hterminated htext hline hkey⟩
  | sync p =>
    rw [hparse] at h hx
    obtain ⟨written, -, hwhole, h⟩ := h
    cases hentry : names (cStr p) with
    | none =>
      rw [hentry] at h
      exact hsame (by rw [h]; rfl)
    | some q =>
      rw [hentry] at h
      by_cases hq : cStr q = credentialFile
      · obtain ⟨hended, hlines, haccounts⟩ := hx q hentry hq
        obtain rfl := hwhole hended
        have htext : t'.disk.text credentialFile = (syncRecv x.stream).1 := by
          have hopen : openable (cStr q) = true := hq ▸ rfl
          have hname : cStr credentialFile = cStr q := hq.symm
          rw [h, Option.elim_some, Disk.text_congr _ hname, Disk.text_create_self _ _ hopen]
        simp only [Disk.credential, Disk.lines, htext]
        exact ⟨hlines, haccounts⟩
      · exact hsame (by rw [h]; exact Disk.text_create_of_ne _ _ (Ne.symm hq))
  | syncAll =>
    rw [hparse] at h
    exact hsame (by rw [h])
  | unknown =>
    rw [hparse] at h
    exact hsame (by rw [h])

lemma Reached.terminated (h : Reached sha256 names t) :
    Terminated (t.disk.text credentialFile) := by
  induction h with
  | refl => exact terminated_nil
  | tail _ hstep ih =>
    obtain ⟨x, hx, htakes⟩ := hstep
    exact (htakes.credentials ih hx).1

/-- In every state that is reached by harmless messages, and after every harmless message there,
    each user has the credential that was stored before. -/
theorem credentials_stay (hreach : Reached sha256 names t) (hx : t.Harmless sha256 names x)
    (h : t.Takes sha256 names x t') {v stored : Str} (hv : t.disk.credential v = some stored) :
    t'.disk.credential v = some stored :=
  (h.credentials hreach.terminated hx).2 v stored hv

/-! ### Two messages -/

lemma Tracker.takes_client {c : Command} {reply : Reply} {sent : List (Path × Str)}
    (hparse : Request.parse x.message = .client c)
    (hserve : serve (hashPassword sha256) t x.siblingOnline (generateSalt x.bytes) c =
      some (reply, t', sent)) : t.Takes sha256 names x t' := by
  unfold Tracker.Takes
  rw [hparse]
  exact ⟨reply, sent, hserve⟩

/-- Paths that are written as the tracker writes them. -/
def plainNames (p : Path) : Option Path := if openable p then some p else none

/-- The user `a` has been registered. -/
lemma exists_registered : ∃ t stored, Reached (fun _ => zerosDigest) plainNames t ∧
    t.disk.credential "a".toList = some stored ∧ stored ≠ "0:0".toList ∧
      (serve (hashPassword fun _ => zerosDigest) t true (generateSalt [])
        (.createUser "b".toList "p".toList "1".toList "ip".toList)).isSome := by
  let register := serve (hashPassword fun _ => zerosDigest) .initial true
    (generateSalt (List.replicate 16 0)) (.createUser "a".toList "p".toList "1".toList "ip".toList)
  have hregister : (register.any fun r => (r.2.1.disk.credential "a".toList).any fun stored =>
      decide (stored ≠ "0:0".toList) &&
        (serve (hashPassword fun _ => zerosDigest) r.2.1 true (generateSalt [])
          (.createUser "b".toList "p".toList "1".toList "ip".toList)).isSome) = true := by
    decide +kernel
  obtain ⟨⟨reply, t, sent⟩, hserve, hend⟩ := (Option.any_eq_true _ _).mp hregister
  obtain ⟨stored, hstored, hend⟩ := (Option.any_eq_true _ _).mp hend
  rw [Bool.and_eq_true, decide_eq_true_eq] at hend
  have hparse : Request.parse "create_user a p 1 ip".toList =
      .client (.createUser "a".toList "p".toList "1".toList "ip".toList) := rfl
  refine ⟨t, stored, ?_, hstored, hend⟩
  apply Relation.ReflTransGen.single
  refine ⟨⟨"create_user a p 1 ip".toList, [], List.replicate 16 0, true⟩, ?_,
    Tracker.takes_client hparse hserve⟩
  unfold Tracker.Harmless
  rw [hparse]
  exact trivial

end Messages

theorem credentials_stay_secondUser : ∃ (t t' : Tracker) (stored : Str),
    Reached (fun _ => zerosDigest) plainNames t ∧
      t.Takes (fun _ => zerosDigest) plainNames
        ⟨"create_user b p 1 ip".toList, [], [], true⟩ t' ∧
      t.disk.credential "a".toList = some stored ∧
        t'.disk.credential "a".toList = some stored := by
  obtain ⟨t, stored, hreach, hstored, -, hserve⟩ := exists_registered
  obtain ⟨⟨reply, t', sent⟩, hserve⟩ := Option.isSome_iff_exists.mp hserve
  have hparse : Request.parse "create_user b p 1 ip".toList =
      .client (.createUser "b".toList "p".toList "1".toList "ip".toList) := rfl
  have htakes : t.Takes (fun _ => zerosDigest) plainNames
      ⟨"create_user b p 1 ip".toList, [], [], true⟩ t' := Tracker.takes_client hparse hserve
  refine ⟨t, t', stored, hreach, htakes, hstored, credentials_stay hreach ?_ htakes hstored⟩
  unfold Tracker.Harmless
  rw [hparse]
  exact trivial

/-- Somebody sends a credential file with another password for a user. -/
theorem credential_replaced : ∃ (t t' : Tracker) (x : Delivery) (v stored : Str),
    Reached (fun _ => zerosDigest) plainNames t ∧
      t.Takes (fun _ => zerosDigest) plainNames x t' ∧
      t.disk.credential v = some stored ∧ t'.disk.credential v ≠ some stored := by
  obtain ⟨t, stored, hreach, hstored, hne, -⟩ := exists_registered
  have hparse : Request.parse "Sync .all_files/.credential.txt".toList =
      .sync credentialFile := rfl
  have htext : (t.disk.create credentialFile "a 0:0\n".toList).text credentialFile =
      "a 0:0\n".toList := Disk.text_create_self _ _ rfl
  have hcredential : (credentialsOf (getlines "a 0:0\n".toList)).lookup "a".toList =
      some "0:0".toList := rfl
  refine ⟨t, { t with disk := t.disk.create credentialFile "a 0:0\n".toList },
    ⟨"Sync .all_files/.credential.txt".toList, ["a 0:0\n".toList, syncOver], [], true⟩,
    "a".toList, stored, hreach, ?_, hstored, ?_⟩
  · unfold Tracker.Takes
    rw [hparse]
    exact ⟨"a 0:0\n".toList, List.prefix_refl _, fun _ => rfl, rfl⟩
  · intro h
    rw [Disk.credential, Disk.lines, htext, hcredential] at h
    exact hne (Option.some.inj h).symm

end TorrentShare
