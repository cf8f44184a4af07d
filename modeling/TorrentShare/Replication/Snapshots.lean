import TorrentShare.Replication.Pair
import TorrentShare.Tracker.Host

/-!
# One writer

Only one of the trackers receives commands. Its handlers run as threads. A `Sync` opens the file,
asks the sibling to receive it, and reads it once the sibling has opened, and thereby emptied, the
file of that name. The sibling has one receiving thread for each transfer.
-/

namespace TorrentShare

open Program

variable {ι : Type}

/-- A function of `tracker.cpp` that holds `file_lock` is one step. -/
def hostCalls [DecidableEq ι] (salt : ι → Str) (i : ι) : Interp callSig (Host ι) := fun o =>
  (callBody o).run (hostInterp salt i)

/-! ### Transfers -/

/-- One run of `Sync` and of the `SyncRecv` that answers it: what has been read of the file, and
    how much of it the sibling has written since it opened its own. -/
structure Transfer where
  path : Path
  content : Option Str := none
  written : Option ℕ := none

/-- The tracker that has clients, the files of its sibling, and the transfers under way. `replaced`
    is what a file opened by `Sync` held when another file was renamed to its name. -/
structure Link (ι : Type) where
  host : Host ι
  sibling : Disk
  transfer : ℕ → Option Transfer := fun _ => none
  replaced : ℕ → Option Str := fun _ => none
  next : ℕ := 0

/-- The calls of a handler, with `Sync` taken apart. -/
inductive Wire where
  | call (o : Call)
  | request (p : Path)
  | snapshot (n : ℕ) (p : Path)

abbrev wireAns : Wire → Type
  | .call o       => callAns o
  | .request _    => ℕ
  | .snapshot _ _ => Unit

abbrev wireSig : Sig := ⟨Wire, wireAns⟩

/-- `Sync` requests a transfer and waits until it can take the snapshot. -/
def wireBody : (o : Call) → Prog wireSig (callAns o)
  | .prim (.sync p) =>
    Prog.call (S := wireSig) (.request p) fun n => Prog.call (S := wireSig) (.snapshot n p) .ret
  | o => Prog.call (S := wireSig) (.call o) .ret

/-- The open files of the transfers that lose their name by a call of a handler. -/
def Link.afterCall (s : Link ι) : Call → ℕ → Option Str
  | .rewrite _ p _ => fun n =>
    if (s.transfer n).any (fun t => cStr t.path = cStr p ∧ t.content = none) ∧
        s.replaced n = none then some (s.host.disk.text p)
    else s.replaced n
  | _ => s.replaced

def Link.setTransfer (s : Link ι) (n : ℕ) (t : Option Transfer) : Link ι :=
  { s with transfer := Function.update s.transfer n t }

def Link.setSibling (s : Link ι) (d : Disk) : Link ι := { s with sibling := d }

/-- The meaning of a call of thread `i`. A snapshot waits until the sibling has opened the file. -/
def wireInterp [DecidableEq ι] (salt : ι → Str) (i : ι) : Interp wireSig (Link ι)
  | .call o, s => (hostCalls salt i o s.host).map fun r =>
    (r.1, { s with host := r.2, replaced := s.afterCall o })
  | .request p, s => (s.host.disk.read p).map fun _ =>
    (s.next, { s.setTransfer s.next (some { path := p }) with next := s.next + 1 })
  | .snapshot n p, s => (s.transfer n).bind fun t =>
    if t.path = p ∧ t.written ≠ none ∧ t.content = none then
      some ((), s.setTransfer n
        (some { t with content := some ((s.replaced n).getD (s.host.disk.text p)) }))
    else none

/-- What a thread of the sibling does in `SyncRecv`: open the file, which empties it, write the
    next bytes at its own position, and close the file when all is written. -/
inductive Receipt where
  | opens (n : ℕ)
  | writes (n m : ℕ)
  | closes (n : ℕ)

/-- The effect of a step of `SyncRecv`. -/
def Link.receipt (s : Link ι) : Receipt → Option (Link ι)
  | .opens n => (s.transfer n).bind fun t =>
    if t.written = none then
      some ((s.setSibling (s.sibling.create t.path [])).setTransfer n
        (some { t with written := some 0 }))
    else none
  | .writes n m => (s.transfer n).bind fun t => t.content.bind fun c => t.written.bind fun k =>
    if k + m ≤ c.length then
      some ((s.setSibling (s.sibling.create t.path
        (overwrite '\x00' (s.sibling.text t.path) k ((c.drop k).take m)))).setTransfer n
          (some { t with written := some (k + m) }))
    else none
  | .closes n => (s.transfer n).bind fun t => t.content.bind fun c =>
    if t.written = some c.length then
      some (s.setTransfer n none)
    else none

/-- A step of one of the receiving threads. -/
def Receives (r : Receipt) (s s' : Link ι) : Prop := s.receipt r = some s'

/-- The threads of a handler for each command, about to start. -/
def Link.start (hashPassword : Str → Str → Str) (s : Link ι) (command : ι → Command) :
    Config wireSig (Link ι) ι Reply :=
  ⟨s, fun i => (trackerKernel hashPassword (command i)).inline wireBody⟩

/-- The sibling opens a file only when none of its threads has the file open, and a snapshot is
    read from the file that still has the name. -/
structure Orderly (c : Config wireSig (Link ι) ι Reply) (e : Event wireSig ι Receipt)
    (_ : Config wireSig (Link ι) ι Reply) : Prop where
  opens : ∀ n, e = .env (.opens n) → ∀ m t t', c.shared.transfer n = some t →
    c.shared.transfer m = some t' → t'.written ≠ none → cStr t'.path ≠ cStr t.path
  reads : ∀ i n p a, e = .call i (.snapshot n p) a → c.shared.replaced n = none

/-! ### The invariant -/

/-- Numbers of transfers are not used before their turn. -/
def Link.Fresh (s : Link ι) : Prop := ∀ n, s.next ≤ n → s.transfer n = none

/-- With the files of `D` still to be sent: what has been read of any other file is what it
    holds, and the sibling holds the same where it has no file open. A file of the sibling is
    open for one transfer only. -/
structure InTransit (D : Set Path) (s : Link ι) : Prop where
  fresh : s.Fresh
  regular : ∀ n t, s.transfer n = some t → cStr t.path ≠ tempFile ∧ openable (cStr t.path)
  single : ∀ n m t t', s.transfer n = some t → s.transfer m = some t' → t.written ≠ none →
    t'.written ≠ none → cStr t'.path = cStr t.path → m = n
  partly : ∀ n t k, s.transfer n = some t → t.written = some k →
    k ≤ (t.content.getD []).length ∧ s.sibling.text t.path = (t.content.getD []).take k
  read : ∀ n t c, s.transfer n = some t → t.content = some c → t.written ≠ none ∧
    (cStr t.path ∉ D → c = s.host.disk.text t.path)
  arrived : ∀ p, cStr p ≠ tempFile → cStr p ∉ D →
    (∀ n t, s.transfer n = some t → t.written ≠ none → cStr t.path ≠ cStr p) →
    s.sibling.text p = s.host.disk.text p

section Setters

variable (s : Link ι) (n m : ℕ) (t : Option Transfer) (d : Disk)

@[simp] lemma transfer_setTransfer :
    (s.setTransfer n t).transfer m = if m = n then t else s.transfer m := by
  simp [Link.setTransfer, Function.update_apply]

@[simp] lemma host_setTransfer : (s.setTransfer n t).host = s.host := rfl
@[simp] lemma sibling_setTransfer : (s.setTransfer n t).sibling = s.sibling := rfl
@[simp] lemma next_setTransfer : (s.setTransfer n t).next = s.next := rfl
@[simp] lemma transfer_setSibling : (s.setSibling d).transfer = s.transfer := rfl
@[simp] lemma host_setSibling : (s.setSibling d).host = s.host := rfl
@[simp] lemma sibling_setSibling : (s.setSibling d).sibling = d := rfl
@[simp] lemma next_setSibling : (s.setSibling d).next = s.next := rfl

end Setters

lemma Link.Fresh.lt_next {s : Link ι} (h : s.Fresh) {n : ℕ} {t : Transfer}
    (hn : s.transfer n = some t) : n < s.next := by
  by_contra hge
  rw [h n (by omega)] at hn
  cases hn

lemma Link.Fresh.setTransfer {s : Link ι} (h : s.Fresh) {n : ℕ} {t : Transfer}
    (hn : s.transfer n = some t) (t' : Option Transfer) : (s.setTransfer n t').Fresh := by
  intro m hm
  have hlt := h.lt_next hn
  rw [next_setTransfer] at hm
  rw [transfer_setTransfer, if_neg (by omega)]
  exact h m hm

lemma Link.Fresh.request {s : Link ι} (h : s.Fresh) (t : Option Transfer) :
    ({ s.setTransfer s.next t with next := s.next + 1 } : Link ι).Fresh := by
  intro m hm
  have hne : m ≠ s.next := by
    have : s.next + 1 ≤ m := hm
    omega
  show (s.setTransfer s.next t).transfer m = none
  rw [transfer_setTransfer, if_neg hne]
  exact h m (Nat.le_of_succ_le hm)

/-- No transfer is under way if none of the used numbers has one. -/
lemma Link.Fresh.none_of_range {s : Link ι} (h : s.Fresh)
    (hall : ((List.range s.next).all fun n => (s.transfer n).isNone) = true) (n : ℕ) :
    s.transfer n = none := by
  by_cases hn : n < s.next
  · exact Option.isNone_iff_eq_none.mp (List.all_eq_true.mp hall n (List.mem_range.mpr hn))
  · exact h n (by omega)

/-- Numbers stay unused in every step. -/
lemma fresh_step [DecidableEq ι] {salt : ι → Str} {c c' : Config wireSig (Link ι) ι Reply}
    {e : Event wireSig ι Receipt} (h : c.shared.Fresh)
    (hs : Config.Step (wireInterp salt) Receives c e c') : c'.shared.Fresh := by
  cases hs with
  | call i o k a s hthread hrun =>
    cases o with
    | call o =>
      obtain ⟨r, -, heq⟩ := Option.map_eq_some_iff.mp hrun
      cases heq
      exact h
    | request p =>
      obtain ⟨b, -, heq⟩ := Option.map_eq_some_iff.mp hrun
      cases heq
      exact h.request _
    | snapshot n p =>
      obtain ⟨t, hn, hrun⟩ := Option.bind_eq_some_iff.mp hrun
      split_ifs at hrun
      cases hrun
      exact h.setTransfer hn _
  | env r s hr =>
    cases r with
    | opens n =>
      obtain ⟨t, hn, hr⟩ := Option.bind_eq_some_iff.mp hr
      split_ifs at hr
      cases hr
      exact Link.Fresh.setTransfer (s := c.shared.setSibling _) h hn _
    | writes n m =>
      obtain ⟨t, hn, hr⟩ := Option.bind_eq_some_iff.mp hr
      obtain ⟨b, -, hr⟩ := Option.bind_eq_some_iff.mp hr
      obtain ⟨k, -, hr⟩ := Option.bind_eq_some_iff.mp hr
      split_ifs at hr
      cases hr
      exact Link.Fresh.setTransfer (s := c.shared.setSibling _) h hn _
    | closes n =>
      obtain ⟨t, hn, hr⟩ := Option.bind_eq_some_iff.mp hr
      obtain ⟨b, -, hr⟩ := Option.bind_eq_some_iff.mp hr
      split_ifs at hr
      cases hr
      exact h.setTransfer hn _

namespace InTransit

variable {D D' : Set Path} {s : Link ι} {n : ℕ} {t : Transfer}

/-- A change of files that are still to be sent. -/
lemma change (h : InTransit D s) (hD : D ⊆ D') (host : Host ι) (replaced : ℕ → Option Str)
    (hdisk : ∀ q, cStr q ≠ tempFile → cStr q ∉ D' → host.disk.text q = s.host.disk.text q) :
    InTransit D' { s with host := host, replaced := replaced } where
  fresh := h.fresh
  regular := h.regular
  single := h.single
  partly := h.partly
  read n t c hn hc := by
    obtain ⟨hw, hread⟩ := h.read n t c hn hc
    refine ⟨hw, fun htD => ?_⟩
    rw [hdisk t.path (h.regular n t hn).1 htD]
    exact hread fun hmem => htD (hD hmem)
  arrived p hp hpD hnone := by
    rw [hdisk p hp hpD]
    exact h.arrived p hp (fun hmem => hpD (hD hmem)) hnone

/-- A transfer that nobody has opened yet. -/
lemma request {p : Path} (h : InTransit D s) (hp : cStr p ≠ tempFile)
    (hopen : openable (cStr p)) :
    InTransit D { s.setTransfer s.next (some { path := p }) with next := s.next + 1 } := by
  have hold {m : ℕ} {t : Transfer}
      (hm : (s.setTransfer s.next (some { path := p })).transfer m = some t) :
      m = s.next ∧ t = { path := p } ∨ m ≠ s.next ∧ s.transfer m = some t := by
    rw [transfer_setTransfer] at hm
    split_ifs at hm with hms
    · exact Or.inl ⟨hms, (Option.some.inj hm).symm⟩
    · exact Or.inr ⟨hms, hm⟩
  refine ⟨h.fresh.request _, fun m t hm => ?_, fun m m' t t' hm hm' hw hw' he => ?_,
    fun m t k hm hk => ?_, fun m t c hm hc => ?_, fun q hq hqD hnone => ?_⟩
  · rcases hold hm with ⟨-, rfl⟩ | ⟨-, hm⟩
    · exact ⟨hp, hopen⟩
    · exact h.regular m t hm
  · rcases hold hm with ⟨-, rfl⟩ | ⟨-, hm⟩
    · exact absurd rfl hw
    · rcases hold hm' with ⟨-, rfl⟩ | ⟨-, hm'⟩
      · exact absurd rfl hw'
      · exact h.single m m' t t' hm hm' hw hw' he
  · rcases hold hm with ⟨-, rfl⟩ | ⟨-, hm⟩
    · cases hk
    · exact h.partly m t k hm hk
  · rcases hold hm with ⟨-, rfl⟩ | ⟨-, hm⟩
    · cases hc
    · exact h.read m t c hm hc
  · refine h.arrived q hq hqD fun m t hm hw => hnone m t ?_ hw
    show (s.setTransfer s.next _).transfer m = some t
    have hne : m ≠ s.next := by
      rintro rfl
      rw [h.fresh _ le_rfl] at hm
      cases hm
    rw [transfer_setTransfer, if_neg hne, hm]

/-- The transfers after a step of one of them. -/
lemma of_setTransfer {t' u : Transfer} {m : ℕ}
    (hm : (s.setTransfer n (some t')).transfer m = some u) :
    m = n ∧ u = t' ∨ m ≠ n ∧ s.transfer m = some u := by
  rw [transfer_setTransfer] at hm
  split_ifs at hm with hmn
  · exact Or.inl ⟨hmn, (Option.some.inj hm).symm⟩
  · exact Or.inr ⟨hmn, hm⟩

/-- A snapshot of the file that still has the name. -/
lemma snapshot (h : InTransit D s) (hn : s.transfer n = some t) (hw : t.written ≠ none)
    (hc : t.content = none) (hD : ∀ q, q ∉ D' → q ≠ cStr t.path → q ∉ D) :
    InTransit D' (s.setTransfer n (some { t with content := some (s.host.disk.text t.path) })) := by
  refine ⟨h.fresh.setTransfer hn _, fun m u hm => ?_, fun m m' u u' hm hm' hu hu' he => ?_,
    fun m u k hm hk => ?_, fun m u c hm huc => ?_, fun q hq hqD hnone => ?_⟩
  · rcases of_setTransfer hm with ⟨-, rfl⟩ | ⟨-, hm⟩
    · exact h.regular n t hn
    · exact h.regular m u hm
  · rcases of_setTransfer hm with ⟨rfl, rfl⟩ | ⟨-, hs⟩
    · rcases of_setTransfer hm' with ⟨rfl, -⟩ | ⟨-, hs'⟩
      · rfl
      · exact h.single _ m' t u' hn hs' hw hu' he
    · rcases of_setTransfer hm' with ⟨rfl, rfl⟩ | ⟨-, hs'⟩
      · exact h.single m _ u t hs hn hu hw he
      · exact h.single m m' u u' hs hs' hu hu' he
  · rcases of_setTransfer hm with ⟨-, rfl⟩ | ⟨-, hm⟩
    · -- nothing has been written before anything was read
      obtain ⟨hle, htext⟩ := h.partly n t k hn hk
      rw [hc] at hle htext
      obtain rfl : k = 0 := Nat.le_zero.mp hle
      exact ⟨Nat.zero_le _, htext⟩
    · exact h.partly m u k hm hk
  · rcases of_setTransfer hm with ⟨-, rfl⟩ | ⟨hmn, hm⟩
    · exact ⟨hw, fun _ => (Option.some.inj huc).symm⟩
    · obtain ⟨hu, hread⟩ := h.read m u c hm huc
      exact ⟨hu, fun huD => hread (hD _ huD fun he => hmn (h.single n m t u hn hm hw hu he))⟩
  · have hne : cStr t.path ≠ cStr q :=
      hnone n { t with content := some (s.host.disk.text t.path) } (by simp) hw
    refine h.arrived q hq (hD _ hqD (Ne.symm hne)) fun m u hm hu => ?_
    by_cases hmn : m = n
    · subst hmn
      rw [hn] at hm
      cases hm
      exact hne
    · exact hnone m u (by rw [transfer_setTransfer, if_neg hmn, hm]) hu

/-- A step that leaves the first `k` bytes of what has been read in the open file. -/
lemma write {k : ℕ} {c : Str} (h : InTransit D s) (hn : s.transfer n = some t)
    (hother : ∀ m u, m ≠ n → s.transfer m = some u → u.written ≠ none → cStr u.path ≠ cStr t.path)
    (hk : k ≤ (t.content.getD []).length) (hc : c = (t.content.getD []).take k) :
    InTransit D ((s.setSibling (s.sibling.create t.path c)).setTransfer n
      (some { t with written := some k })) := by
  have hregular := h.regular n t hn
  refine ⟨Link.Fresh.setTransfer (s := s.setSibling _) h.fresh hn _, fun m u hm => ?_,
    fun m m' u u' hm hm' hu hu' he => ?_, fun m u j hm hj => ?_, fun m u c' hm huc => ?_,
    fun q hq hqD hnone => ?_⟩
  · rcases of_setTransfer hm with ⟨-, rfl⟩ | ⟨-, hm⟩
    · exact hregular
    · exact h.regular m u hm
  · rcases of_setTransfer hm with ⟨rfl, rfl⟩ | ⟨hmn, hs⟩
    · rcases of_setTransfer hm' with ⟨rfl, -⟩ | ⟨hmn', hs'⟩
      · rfl
      · exact absurd he (hother m' u' hmn' hs' hu')
    · rcases of_setTransfer hm' with ⟨rfl, rfl⟩ | ⟨-, hs'⟩
      · exact absurd he.symm (hother m u hmn hs hu)
      · exact h.single m m' u u' hs hs' hu hu' he
  · rcases of_setTransfer hm with ⟨-, rfl⟩ | ⟨hmn, hm⟩
    · obtain rfl : k = j := Option.some.inj hj
      refine ⟨hk, ?_⟩
      rw [sibling_setTransfer, sibling_setSibling, Disk.text_create_self _ _ hregular.2, hc]
    · rw [sibling_setTransfer, sibling_setSibling,
        Disk.text_create_of_ne _ _ (hother m u hmn hm (by rw [hj]; simp))]
      exact h.partly m u j hm hj
  · rcases of_setTransfer hm with ⟨-, rfl⟩ | ⟨-, hm⟩
    · exact ⟨by simp, (h.read n t c' hn huc).2⟩
    · exact h.read m u c' hm huc
  · have hne : cStr t.path ≠ cStr q :=
      hnone n { t with written := some k } (by simp) (by simp)
    rw [sibling_setTransfer, sibling_setSibling, Disk.text_create_of_ne _ _ hne.symm]
    refine h.arrived q hq hqD fun m u hm hu => ?_
    by_cases hmn : m = n
    · subst hmn
      rw [hn] at hm
      cases hm
      exact hne
    · exact hnone m u (by rw [transfer_setTransfer, if_neg hmn]; exact hm) hu

/-- A transfer that is complete. -/
lemma close {c : Str} (h : InTransit D s) (hn : s.transfer n = some t) (hc : t.content = some c)
    (hw : t.written = some c.length) : InTransit D (s.setTransfer n none) := by
  have hback {m : ℕ} {u : Transfer} (hm : (s.setTransfer n none).transfer m = some u) :
      s.transfer m = some u := by
    rw [transfer_setTransfer] at hm
    split_ifs at hm
    exact hm
  refine ⟨h.fresh.setTransfer hn _, fun m u hm => h.regular m u (hback hm),
    fun m m' u u' hm hm' => h.single m m' u u' (hback hm) (hback hm'),
    fun m u k hm => h.partly m u k (hback hm), fun m u c hm => h.read m u c (hback hm),
    fun q hq hqD hnone => ?_⟩
  by_cases hqt : cStr t.path = cStr q
  · obtain ⟨-, htext⟩ := h.partly n t _ hn hw
    rw [hc, Option.getD_some, List.take_length] at htext
    have hread := (h.read n t c hn hc).2 (by rwa [hqt])
    show s.sibling.text q = s.host.disk.text q
    rw [Disk.text_congr _ hqt.symm, htext, hread, Disk.text_congr _ hqt]
  · refine h.arrived q hq hqD fun m u hm hu => ?_
    by_cases hmn : m = n
    · subst hmn
      rw [hn] at hm
      cases hm
      exact hqt
    · exact hnone m u (by rw [transfer_setTransfer, if_neg hmn, hm]) hu

/-- The step lemma for the receiving threads. -/
lemma receipt {r : Receipt} {s' : Link ι} (h : InTransit D s) (hs : s.receipt r = some s')
    (horder : ∀ n, r = .opens n → ∀ m t t', s.transfer n = some t → s.transfer m = some t' →
      t'.written ≠ none → cStr t'.path ≠ cStr t.path) : InTransit D s' := by
  cases r with
  | opens n =>
    obtain ⟨t, hn, hs⟩ := Option.bind_eq_some_iff.mp hs
    split_ifs at hs
    cases hs
    exact h.write hn (fun m u _ hm hu => horder n rfl m t u hn hm hu) (Nat.zero_le _) (by simp)
  | writes n m =>
    obtain ⟨t, hn, hs⟩ := Option.bind_eq_some_iff.mp hs
    obtain ⟨c, hc, hs⟩ := Option.bind_eq_some_iff.mp hs
    obtain ⟨k, hk, hs⟩ := Option.bind_eq_some_iff.mp hs
    split_ifs at hs with hkm
    cases hs
    have hw : t.written ≠ none := by rw [hk]; simp
    obtain ⟨hkc, htext⟩ := h.partly n t k hn hk
    rw [hc, Option.getD_some] at hkc htext
    refine h.write hn (fun j u hj hm hu he => hj (h.single n j t u hn hm hw hu he)) ?_ ?_
    · rwa [hc, Option.getD_some]
    · have hlen : (c.take k).length = k := by simp [hkc]
      rw [hc, Option.getD_some, htext, List.take_add, overwrite_of_length _ _ hlen]
  | closes n =>
    obtain ⟨t, hn, hs⟩ := Option.bind_eq_some_iff.mp hs
    obtain ⟨c, hc, hs⟩ := Option.bind_eq_some_iff.mp hs
    split_ifs at hs with hw
    cases hs
    exact h.close hn hc hw

end InTransit

/-! ### All interleavings -/

/-- The discipline of changing and sending, where a snapshot is what sends. -/
def wireOwes : Discipline wireSig (Set Path) where
  allowed
    | .call o,       _ => o.sparesTemp ∧ ∀ p, o ≠ .prim (.sync p)
    | .request p,    _ => cStr p ≠ tempFile
    | .snapshot _ _, _ => True
  next
    | .call o,       _, D => o.owing D
    | .request _,    _, D => D
    | .snapshot _ p, _, D => D \ {cStr p}
  admits _ _ := True

lemma wireBody_owes {D : Set Path} (o : Call) (h : o.sparesTemp) :
    (wireBody o).Follows wireOwes D fun a D' => D' = owes.next o a D ∧ owes.admits o a := by
  have hcall (hsync : ∀ p, o ≠ .prim (.sync p)) :
      (Prog.call (S := wireSig) (.call o) .ret).Follows wireOwes D fun a D' =>
        D' = owes.next o a D ∧ owes.admits o a :=
    ⟨⟨h, hsync⟩, fun _ _ => ⟨rfl, trivial⟩⟩
  cases o with
  | prim o =>
    cases o with
    | sync p => exact ⟨h, fun _ _ => ⟨trivial, fun _ _ => ⟨rfl, trivial⟩⟩⟩
    | _ => exact hcall (by simp)
  | _ => exact hcall (by simp)

section Threads

variable [DecidableEq ι] {hashPassword : Str → Str → Str} {salt : ι → Str}
  {command : ι → Command}

/-- The files that some handler has still to send. -/
def owed (g : ι → Set Path) : Set Path := {q | ∃ i, q ∈ g i}

lemma subset_owed_insert (g : ι → Set Path) (i : ι) (p : Path) :
    owed g ⊆ owed (Function.update g i (insert p (g i))) := by
  rintro q ⟨j, hj⟩
  refine ⟨j, ?_⟩
  by_cases hji : j = i
  · subst hji
    simp [hj]
  · simp [hji, hj]

lemma mem_owed_insert (g : ι → Set Path) (i : ι) (p : Path) :
    p ∈ owed (Function.update g i (insert p (g i))) :=
  ⟨i, by simp⟩

lemma mem_owed_of_sent {g : ι → Set Path} {i : ι} {p q : Path} (hq : q ∈ owed g) (hne : q ≠ p) :
    q ∈ owed (Function.update g i (g i \ {p})) := by
  obtain ⟨j, hj⟩ := hq
  refine ⟨j, ?_⟩
  by_cases hji : j = i
  · subst hji
    simp [hj, hne]
  · simp [hji, hj]

/-- The step lemma for the calls of handlers other than `Sync`. -/
lemma InTransit.call {g : ι → Set Path} {s : Link ι} {host : Host ι} {i : ι} {o : Call}
    {a : callAns o} (replaced : ℕ → Option Str) (h : InTransit (owed g) s) (ho : o.sparesTemp)
    (hsync : ∀ p, o ≠ .prim (.sync p)) (hs : hostCalls salt i o s.host = some (a, host)) :
    InTransit (owed (Function.update g i (o.owing (g i))))
      { s with host := host, replaced := replaced } := by
  have hchange {p : Path} (hdisk : ∀ q, cStr q ≠ tempFile → cStr q ≠ cStr p →
      host.disk.text q = s.host.disk.text q) :
      InTransit (owed (Function.update g i (insert (cStr p) (g i))))
        { s with host := host, replaced := replaced } := by
    refine h.change (subset_owed_insert g i _) host replaced fun q hq hqD => hdisk q hq fun he => ?_
    rw [he] at hqD
    exact hqD (mem_owed_insert g i _)
  have hquiet (hdisk : ∀ q, host.disk.text q = s.host.disk.text q) :
      InTransit (owed (Function.update g i (g i)))
        { s with host := host, replaced := replaced } := by
    rw [Function.update_eq_self]
    exact h.change Set.Subset.rfl host replaced fun q _ _ => hdisk q
  cases o with
  | fetchDetails =>
    rw [hostCalls] at hs
    exact hquiet fun q => by rw [hostRun_fetchDetails hs, Disk.text_reloaded]
  | fetchGroupMembers group =>
    rw [hostCalls] at hs
    exact hquiet fun q => by rw [(hostRun_fetchGroupMembers hs).1]
  | rewrite mode p drop =>
    obtain ⟨ks, hdisk⟩ := hostRun_rewrite hs
    refine hchange fun q hqt hqp => ?_
    rw [hdisk]
    exact Disk.text_rewritten_of_ne _ mode ks hqp hqt
  | prim o =>
    rw [hostCalls, hostRun_prim] at hs
    cases o with
    | append p c =>
      cases hs
      exact hchange fun q _ hqp => Disk.text_append_of_ne _ _ hqp
    | create p c =>
      cases hs
      exact hchange fun q _ hqp => Disk.text_create_of_ne _ _ hqp
    | sync p => exact absurd rfl (hsync p)
    | remove p => exact ho.elim
    | rename p q => exact ho.elim
    | lock =>
      obtain ⟨-, rfl⟩ := hostInterp_lock hs
      exact hquiet fun _ => rfl
    | fault => cases hs
    | _ =>
      cases hs
      exact hquiet fun _ => rfl

/-- The step lemma for the handlers. -/
lemma InTransit.wire {g : ι → Set Path} {s s' : Link ι} {i : ι} {o : Wire} {a : wireAns o}
    (h : InTransit (owed g) s) (ho : wireOwes.allowed o (g i))
    (hread : ∀ n p, o = .snapshot n p → s.replaced n = none)
    (hs : wireInterp salt i o s = some (a, s')) :
    InTransit (owed (Function.update g i (wireOwes.next o a (g i)))) s' := by
  cases o with
  | call o =>
    obtain ⟨⟨b, host⟩, hb, heq⟩ := Option.map_eq_some_iff.mp hs
    cases heq
    exact h.call _ ho.1 ho.2 hb
  | request p =>
    obtain ⟨c, hc, heq⟩ := Option.map_eq_some_iff.mp hs
    cases heq
    show InTransit (owed (Function.update g i (g i))) _
    rw [Function.update_eq_self]
    refine h.request ho ?_
    by_contra hclosed
    rw [s.host.disk.read_of_not_openable (by simpa using hclosed)] at hc
    cases hc
  | snapshot n p =>
    obtain ⟨t, hn, hs⟩ := Option.bind_eq_some_iff.mp hs
    split_ifs at hs with hready
    obtain ⟨rfl, hw, hc⟩ := hready
    cases hs
    rw [hread n _ rfl, Option.getD_none]
    exact h.snapshot hn hw hc fun q hq hne hmem => hq (mem_owed_of_sent hmem hne)

/-- Threads that send what they change, with the sibling up to date otherwise. -/
abbrev Sending : Config wireSig (Link ι) ι Reply → Prop :=
  Config.Disciplined (fun _ => wireOwes) (fun _ D => ∀ q, q ∉ D) fun g => InTransit (owed g)

omit [DecidableEq ι] in
lemma sending_start {s : Link ι} (hidle : ∀ n, s.transfer n = none)
    (hagree : s.sibling.Agree s.host.disk) : Sending (s.start hashPassword command) := by
  refine ⟨fun _ => ∅, fun i => ?_, ?_⟩
  · exact Prog.Follows.inline (fun o _ h => wireBody_owes o h)
      (trackerKernel_sendsAll hashPassword (command i))
  · refine ⟨fun n _ => hidle n, fun n t hn => ?_, fun n m t t' hn => ?_, fun n t k hn => ?_,
      fun n t c hn => ?_, fun p hp _ _ => hagree p hp⟩
    all_goals
      have hsome : s.transfer n = some t := hn
      rw [hidle n] at hsome
      cases hsome

lemma sending_step {c c' : Config wireSig (Link ι) ι Reply} {e : Event wireSig ι Receipt}
    (hc : Sending c) (hok : Orderly c e c')
    (hs : Config.Step (wireInterp salt) Receives c e c') : Sending c' := by
  refine hc.step (fun i o a g s' he ho hg hrun => ⟨trivial, ?_⟩) ?_ hs
  · refine hg.wire ho (fun n p hop => ?_) hrun
    subst hop
    exact hok.reads i n p a he
  · intro r g he hg hr
    refine hg.receipt hr fun n hn => ?_
    subst hn
    exact hok.opens n he

/-- If a file of the sibling is open for one transfer at a time, and no file loses its name
    between the moments when `Sync` opens and reads it, the sibling holds the same files when
    every handler has finished and every transfer is complete. -/
theorem single_writer_agrees {s : Link ι} {c : Config wireSig (Link ι) ι Reply}
    (hidle : ∀ n, s.transfer n = none)
    (hagree : ∀ p, cStr p ≠ tempFile → s.sibling.text p = s.host.disk.text p)
    (hrun : Config.RunsWhen (wireInterp salt) Receives Orderly (s.start hashPassword command) c)
    (hfinished : ∀ i, ∃ r, c.thread i = .ret r) (hcomplete : ∀ n, c.shared.transfer n = none) :
    ∀ p, cStr p ≠ tempFile → c.shared.sibling.text p = c.shared.host.disk.text p := by
  intro p hp
  obtain ⟨g, hfol, hg⟩ : Sending c :=
    hrun.invariant (fun _ _ _ h hok hs => sending_step h hok hs) (sending_start hidle hagree)
  refine hg.arrived p hp ?_ ?_
  · rintro ⟨i, hi⟩
    obtain ⟨r, hr⟩ := hfinished i
    have hfi := hfol i
    rw [hr, Prog.follows_ret] at hfi
    exact hfi _ hi
  · intro n t hn
    rw [hcomplete n] at hn
    cases hn

end Threads

/-- `Orderly` as a test of the state before the step. -/
def testOrderly {ι : Type} (c : Config wireSig (Link ι) ι Reply) : Move ι Receipt → Bool
  | .call i =>
    match c.thread i with
    | .call (.snapshot n _) _ => (c.shared.replaced n).isNone
    | _ => true
  | .env (.opens n) => (List.range c.shared.next).all fun m =>
    match c.shared.transfer n, c.shared.transfer m with
    | some t, some t' => t'.written.isNone || decide (cStr t'.path ≠ cStr t.path)
    | _, _ => true
  | .env _ => true

lemma orderly_of_testCall {ι : Type} [DecidableEq ι] {salt : ι → Str}
    {c c' : Config wireSig (Link ι) ι Reply} {i : ι} {o : Wire} {a : wireAns o}
    (htest : testOrderly c (.call i) = true)
    (hs : Config.Step (wireInterp salt) Receives c (.call i o a) c') :
    Orderly c (.call i o a) c' := by
  obtain ⟨k, hnext, -⟩ := hs.next_op
  simp only [testOrderly, hnext] at htest
  refine ⟨fun n he => (by cases he), fun j n p b he => ?_⟩
  cases he
  exact Option.isNone_iff_eq_none.mp htest

lemma orderly_of_testEnv {ι : Type} {c c' : Config wireSig (Link ι) ι Reply} {r : Receipt}
    (htest : testOrderly c (.env r) = true) (hc : Sending c) : Orderly c (.env r) c' := by
  refine ⟨fun n he m t t' hn hm hw => ?_, fun j n p b he => (by cases he)⟩
  cases he
  obtain ⟨g, -, hg⟩ := hc
  have hmem := List.all_eq_true.mp htest m (List.mem_range.mpr (hg.fresh.lt_next hm))
  simpa [hn, hm, hw] using hmem

/-- A tracker without files, and its sibling. -/
def emptyLink : Link (Fin 2) where
  host := ⟨⟨Disk.empty, {}⟩, true, none, fun _ => false⟩
  sibling := Disk.empty

/-- Two groups created at the same time. -/
def createBoth (i : Fin 2) : Command :=
  match i with
  | 0 => .createGroup "g".toList "u".toList
  | 1 => .createGroup "h".toList "v".toList

/-- Both handlers write the groups file and ask to send it before either has sent it. The
    transfers of the other files overlap. -/
def createBothMoves : List (Move (Fin 2) Receipt) :=
  List.replicate 8 (.call 0) ++ List.replicate 8 (.call 1) ++
    [.env (.opens 0), .call 0, .env (.writes 0 3), .call 0, .env (.writes 0 5), .env (.closes 0),
      .env (.opens 1), .env (.opens 2), .call 1, .env (.writes 1 8), .call 0, .env (.closes 1),
      .call 1, .env (.writes 2 2), .env (.opens 3), .call 1, .env (.closes 2), .call 0,
      .env (.opens 4), .call 0, .env (.closes 4), .call 0, .env (.writes 3 2), .env (.closes 3),
      .call 1, .env (.opens 5), .call 1, .env (.closes 5), .call 1]

theorem single_writer_agrees_createBoth : ∃ c : Config wireSig (Link (Fin 2)) (Fin 2) Reply,
    Config.RunsWhen (wireInterp fun _ => []) Receives Orderly
        (emptyLink.start (fun _ p => p) createBoth) c ∧
      (∀ i, ∃ r, c.thread i = .ret r) ∧ (∀ n, c.shared.transfer n = none) ∧
      ∀ p, cStr p ≠ tempFile → c.shared.sibling.text p = c.shared.host.disk.text p := by
  have hrun : (((emptyLink.start (fun _ p => p) createBoth).play (wireInterp fun _ => [])
      (fun r s => s.receipt r) testOrderly createBothMoves).any fun c =>
        (c.thread 0).isRet && (c.thread 1).isRet &&
        (List.range c.shared.next).all fun n => (c.shared.transfer n).isNone) = true := by
    decide +kernel
  obtain ⟨c, hc, hend⟩ := (Option.any_eq_true _ _).mp hrun
  simp only [Bool.and_eq_true, Prog.isRet_iff] at hend
  obtain ⟨⟨h0, h1⟩, hnone⟩ := hend
  have hstart : Sending (emptyLink.start (fun _ p => p) createBoth) :=
    sending_start (fun _ => rfl) fun _ _ => rfl
  have hruns : Config.RunsWhen (wireInterp fun _ => []) Receives Orderly
      (emptyLink.start (fun _ p => p) createBoth) c :=
    Config.play_runsWhen (fun _ _ _ h => h) (fun _ _ _ hP hok hs => sending_step hP hok hs)
      (fun _ _ _ _ _ ht _ hs => orderly_of_testCall ht hs)
      (fun _ _ _ ht hP => orderly_of_testEnv ht hP) hc hstart
  have hfresh : c.shared.Fresh :=
    hruns.invariant (fun _ _ _ h _ hs => fresh_step h hs) fun _ _ => rfl
  have hfinished : ∀ i, ∃ r, c.thread i = .ret r := Fin.forall_fin_two.mpr ⟨h0, h1⟩
  have hcomplete := hfresh.none_of_range hnone
  exact ⟨c, hruns, hfinished, hcomplete,
    single_writer_agrees (fun _ => rfl) (fun _ _ => rfl) hruns hfinished hcomplete⟩

/-- A tracker and its sibling with a registered user `u`. -/
def oneUser : Link (Fin 2) :=
  let d := Disk.empty.create credentialFile "u s:p\n".toList
  { host := ⟨⟨d, {}⟩, true, none, fun _ => false⟩, sibling := d }

/-- The user logs in and out. -/
def inAndOut (i : Fin 2) : Command :=
  match i with
  | 0 => .login "u".toList "p".toList "1".toList "i".toList
  | 1 => .logout "u".toList

/-- The snapshot taken at the login is written after the one taken at the logout. -/
def inAndOutMoves : List (Move (Fin 2) Receipt) :=
  List.replicate 8 (.call 0) ++ [.env (.opens 0), .call 0] ++ List.replicate 6 (.call 1) ++
    [.env (.opens 1), .call 1, .env (.closes 1), .call 1, .env (.writes 0 6), .env (.closes 0)]

/-- An older snapshot replaces a newer one: the sibling lists the user as online, the tracker
    itself does not. -/
theorem older_snapshot_wins : ∃ (s : Link (Fin 2)) (command : Fin 2 → Command)
    (c : Config wireSig (Link (Fin 2)) (Fin 2) Reply),
    (∀ n, s.transfer n = none) ∧ (∀ p, s.sibling.text p = s.host.disk.text p) ∧
      Config.Runs (wireInterp fun _ => []) Receives (s.start (fun _ p => p) command) c ∧
      (∀ i, ∃ r, c.thread i = .ret r) ∧ (∀ n, c.shared.transfer n = none) ∧
      c.shared.sibling.text onlineFile ≠ c.shared.host.disk.text onlineFile := by
  have hrun : (((oneUser.start (fun _ p => p) inAndOut).play (wireInterp fun _ => [])
      (fun r s => s.receipt r) (fun _ _ => true) inAndOutMoves).any fun c =>
        (c.thread 0).isRet && (c.thread 1).isRet &&
        ((List.range c.shared.next).all fun n => (c.shared.transfer n).isNone) &&
        decide (c.shared.sibling.text onlineFile ≠ c.shared.host.disk.text onlineFile)) = true := by
    decide +kernel
  obtain ⟨c, hc, hend⟩ := (Option.any_eq_true _ _).mp hrun
  simp only [Bool.and_eq_true, Prog.isRet_iff, decide_eq_true_eq] at hend
  obtain ⟨⟨⟨h0, h1⟩, hnone⟩, hne⟩ := hend
  have hruns : Config.Runs (wireInterp fun _ => []) Receives
      (oneUser.start (fun _ p => p) inAndOut) c := Config.play_runs (fun _ _ _ h => h) hc
  have hfresh : c.shared.Fresh :=
    hruns.invariant (fun _ _ _ h _ hs => fresh_step h hs) fun _ _ => rfl
  exact ⟨oneUser, inAndOut, c, fun _ => rfl, fun _ => rfl, hruns,
    Fin.forall_fin_two.mpr ⟨h0, h1⟩, hfresh.none_of_range hnone, hne⟩

end TorrentShare
