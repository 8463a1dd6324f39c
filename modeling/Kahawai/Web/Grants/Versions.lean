import Kahawai.Lib.Tickets
import Kahawai.Web.Grants.Panel

/-!
# What a write of grants replaces

A version of the user's grants stands for the changes that the hub had made up to it, and
`Covers` says that an access contains their outcome. The invariant of a panel (`WriteOk`)
is that what its next request was computed from covers the version that it carries, as
long as every click is sound.
-/

namespace Kahawai.Web.Grants

open Kahawai.Lib

variable {base version version' : ℕ} {log : List Change} {seen seen' shown : List ℕ} {c : Change}
  {p p' : Panel} {w : Write} {s s' : System} {i : ℕ} {user : GrantRow} {account : Account}

/-- The first version is `base`, and every change takes the next. An access contains the
    outcome of all changes up to a version. -/
def Covers (base : ℕ) (log : List Change) (version : ℕ) (seen : List ℕ) : Prop :=
  version ≤ base + log.length ∧
    ∀ (j : ℕ) (c : Change), log[j]? = some c → base + j < version → c.id ∈ seen

theorem Covers.mono (h : Covers base log version seen) (hsub : seen ⊆ seen') :
    Covers base log version seen' :=
  ⟨h.1, fun j c hj hlt => hsub (h.2 j c hj hlt)⟩

/-- Later changes are not of an earlier version. -/
theorem Covers.append (h : Covers base log version seen) :
    Covers base (log ++ [c]) version seen := by
  refine ⟨?_, fun j d hj hlt => ?_⟩
  · rw [List.length_append]
    have hle := h.1
    omega
  · have hlength : j < log.length := by
      have hle := h.1
      omega
    rw [List.getElem?_append_left hlength] at hj
    exact h.2 j d hj hlt

/-- The hub's own row contains every change. -/
theorem covers_all : Covers base log (base + log.length) (log.map Change.id) :=
  ⟨Nat.le_refl _, fun _ _ hj _ => List.mem_map_of_mem (List.mem_of_getElem? hj)⟩

/-- The change that took the next version. -/
theorem Covers.succ {j : ℕ} (h : Covers base log (base + j) seen) (hj : log[j]? = some c) :
    Covers base log (base + j + 1) (c.id :: seen) := by
  have hlength := (List.getElem?_eq_some_iff.mp hj).1
  refine ⟨by omega, fun k d hk hlt => ?_⟩
  by_cases heq : k = j
  · subst heq
    cases hk.symm.trans hj
    exact List.mem_cons_self
  · exact List.mem_cons_of_mem _ (h.2 k d hk (by omega))

/-- Each write that is out was computed from the one before it, the first one from `seen`,
    and the chips show the last one. -/
def Chained (shown : List ℕ) : List ℕ → List Pending → Prop
  | seen, [] => seen ⊆ shown
  | seen, p :: ps => seen ⊆ p.seen ∧ Chained shown (p.id :: p.seen) ps

theorem Chained.append {ps : List Pending} (h : Chained shown seen ps) (id mine : ℕ)
    (access : Access) :
    Chained (id :: shown) seen (ps ++ [⟨id, mine, access, shown, .queued⟩]) := by
  induction ps generalizing seen with
  | nil => exact ⟨h, List.Subset.refl _⟩
  | cons p ps ih => exact ⟨h.1, ih h.2⟩

/-! ## The invariant -/

/-- An answer of the hub contains what its version says, and nothing else has that
    version. -/
structure RowOk (base : ℕ) (s : System) (row : GrantRow) : Prop where
  least : base ≤ row.grantsVersion
  covers : Covers base s.log row.grantsVersion row.shown.seen
  access : ∀ account, s.user = some account → account.grantsVersion = row.grantsVersion →
    row.shown.access = account.access

/-- The first write that is out was sent with the known version, and its answer is that of
    the change that it made. -/
def Pending.Ok (base : ℕ) (log : List Change) (known : ℕ) (p : Pending) : Prop :=
  match p.status with
  | .queued | .answered none => True
  | .sent version => version = known
  | .answered (some answer) => Covers base log answer.grantsVersion answer.shown.seen ∧
      ∃ j c, log[j]? = some c ∧ c.id = p.id ∧ known = base + j ∧ answer.grantsVersion = base + j + 1

structure WriteOk (base : ℕ) (log : List Change) (p : Panel) (w : Write) : Prop where
  inflight : w.inflight = p.queue.length
  numbered : ∃ n, w.savedSeq ≤ n ∧ Numbered Pending.mine w.seq n p.queue
  saved : p.queue ≠ [] → ∃ saved, w.saved = some saved ∧ Covers base log w.version saved.seen
  chips : ∀ shown, p.overlay = some shown →
    ∃ seen, Covers base log w.version seen ∧ Chained shown.seen seen p.queue
  painted : p.queue ≠ [] → p.overlay.isSome
  head : ∀ first rest, p.queue = first :: rest → first.Ok base log w.version
  rest : ∀ first rest, p.queue = first :: rest → ∀ q ∈ rest, q.status = .queued

structure PanelOk (base : ℕ) (s : System) (p : Panel) : Prop where
  row : ∀ row, p.row = some row → RowOk base s row
  reads : ∀ r ∈ p.reads, ∀ row, r.state = .served (some row) → RowOk base s row
  unwritten : p.write = none → p.queue = [] ∧ p.overlay = none
  write : ∀ w, p.write = some w → WriteOk base s.log p w

/-- Every change was computed from an access that contains the earlier ones. -/
def Informed (log : List Change) : Prop :=
  log.Pairwise fun earlier later => earlier.id ∈ later.seen

structure Safe (base : ℕ) (s : System) : Prop where
  version : ∀ account, s.user = some account → account.grantsVersion = base + s.log.length
  panels : ∀ p ∈ s.panels, PanelOk base s p
  informed : Informed s.log

/-! ## The hub makes a change -/

theorem RowOk.append (h : RowOk base s user) (hlog : s'.log = s.log ++ [c])
    (huser : ∀ account, s'.user = some account → account.grantsVersion = base + s'.log.length) :
    RowOk base s' user := by
  refine ⟨h.least, hlog ▸ h.covers.append, fun account haccount heq => ?_⟩
  have hversion := huser account haccount
  have hle := h.covers.1
  rw [hlog, List.length_append, List.length_singleton] at hversion
  omega

theorem Pending.Ok.append {q : Pending} (h : q.Ok base log version) :
    q.Ok base (log ++ [c]) version := by
  unfold Pending.Ok at h ⊢
  split
  · trivial
  · trivial
  · rename_i hstatus
    rw [hstatus] at h
    exact h
  · rename_i answer hstatus
    rw [hstatus] at h
    obtain ⟨hcovers, j, d, hj, hid, hknown, hversion⟩ := h
    refine ⟨hcovers.append, j, d, ?_, hid, hknown, hversion⟩
    rw [List.getElem?_append_left (List.getElem?_eq_some_iff.mp hj).1]
    exact hj

theorem WriteOk.append (h : WriteOk base log p w) : WriteOk base (log ++ [c]) p w where
  inflight := h.inflight
  numbered := h.numbered
  saved hne := by
    obtain ⟨saved, hsaved, hcovers⟩ := h.saved hne
    exact ⟨saved, hsaved, hcovers.append⟩
  chips shown hshown := by
    obtain ⟨seen, hcovers, hchained⟩ := h.chips shown hshown
    exact ⟨seen, hcovers.append, hchained⟩
  painted := h.painted
  head first rest hqueue := (h.head first rest hqueue).append
  rest := h.rest

theorem PanelOk.append (h : PanelOk base s p) (hlog : s'.log = s.log ++ [c])
    (huser : ∀ account, s'.user = some account → account.grantsVersion = base + s'.log.length) :
    PanelOk base s' p where
  row row hrow := (h.row row hrow).append hlog huser
  reads r hr row hrow := (h.reads r hr row hrow).append hlog huser
  unwritten := h.unwritten
  write w hw := hlog ▸ (h.write w hw).append

/-- A change that was computed from an access with all earlier ones. -/
theorem Informed.append (h : Informed log) (hc : ∀ d ∈ log, d.id ∈ c.seen) :
    Informed (log ++ [c]) := by
  refine List.pairwise_append.mpr ⟨h, List.pairwise_singleton _ _, fun d hd e he => ?_⟩
  rw [List.mem_singleton.mp he]
  exact hc d hd

/-- What covers the hub's version contains every change. -/
theorem Covers.all (h : Covers base log version seen) (hversion : version = base + log.length)
    (d : Change) (hd : d ∈ log) : d.id ∈ seen := by
  obtain ⟨j, hj⟩ := List.mem_iff_getElem?.mp hd
  have hlength := (List.getElem?_eq_some_iff.mp hj).1
  exact h.2 j d hj (by omega)

/-! ## The steps of a panel -/

theorem Panel.asShown_grantsVersion (p : Panel) (user : GrantRow) :
    (p.asShown user).grantsVersion = user.grantsVersion := by
  unfold Panel.asShown
  split <;> rfl

/-- The entry of `writes` that a click finds or makes. -/
theorem PanelOk.getD (h : PanelOk base s p) :
    WriteOk base s.log p (p.write.getD ⟨0, 0, 0, none, user.grantsVersion⟩) := by
  cases hw : p.write with
  | some w => exact h.write w hw
  | none =>
    obtain ⟨hqueue, hoverlay⟩ := h.unwritten hw
    have hempty : ∀ {P : Prop}, p.queue ≠ [] → P := fun hne => absurd hqueue hne
    refine ⟨?_, ⟨0, Nat.le_refl _, ?_⟩, hempty, fun shown hshown => ?_, hempty, ?_, ?_⟩
    · rw [hqueue]
      rfl
    · rw [hqueue]
      rfl
    · cases hoverlay.symm.trans hshown
    · intro first rest hcons
      cases hqueue.symm.trans hcons
    · intro first rest hcons
      cases hqueue.symm.trans hcons

/-- While nothing is out, a sound click takes the version of its chips. -/
theorem PanelOk.covers_chips (h : PanelOk base s p) (hrow : p.row = some user)
    (hqueue : p.queue = []) (hsound : p.sound user = true) {known : ℕ}
    (hknown : known = (p.write.getD ⟨0, 0, 0, none, user.grantsVersion⟩).version) :
    Covers base s.log (max known user.grantsVersion) (p.asShown user).shown.seen := by
  have huser := (h.row user hrow).covers
  unfold Panel.asShown
  cases hw : p.write with
  | none =>
    rw [hw] at hknown
    have hsame : known = user.grantsVersion := hknown
    rw [(h.unwritten hw).2, hsame, Nat.max_self]
    exact huser
  | some w =>
    have hold := h.write w hw
    have hzero : w.inflight = 0 := by
      rw [hold.inflight, hqueue]
      rfl
    rw [hw] at hknown
    have hsame : known = w.version := hknown
    unfold Panel.sound at hsound
    rw [hw] at hsound
    dsimp only at hsound
    rw [Bool.or_eq_true, decide_eq_true_eq] at hsound
    have hcases := hsound.resolve_left fun hne => hne hzero
    rw [hsame]
    cases hoverlay : p.overlay with
    | none =>
      rw [hoverlay] at hcases
      rw [Nat.max_eq_right (of_decide_eq_true hcases)]
      exact huser
    | some shown =>
      rw [hoverlay] at hcases
      rw [Nat.max_eq_left (of_decide_eq_true hcases)]
      obtain ⟨seen, hcovers, hchained⟩ := hold.chips shown hoverlay
      rw [hqueue] at hchained
      exact hcovers.mono hchained

/-- What a sound click goes on with. -/
theorem PanelOk.entry (h : PanelOk base s p) (hrow : p.row = some user)
    (hsound : p.sound user = true) :
    (∃ saved, (p.entry (p.asShown user)).saved = some saved ∧
      Covers base s.log (p.entry (p.asShown user)).version saved.seen) ∧
    (∃ seen, Covers base s.log (p.entry (p.asShown user)).version seen ∧
      Chained (p.asShown user).shown.seen seen p.queue) ∧
    WriteOk base s.log p (p.entry (p.asShown user)) := by
  have hold : WriteOk base s.log p (p.write.getD ⟨0, 0, 0, none, user.grantsVersion⟩) := h.getD
  unfold Panel.entry
  rw [p.asShown_grantsVersion user]
  dsimp only
  cases hqueue : p.queue with
  | nil =>
    have hzero : (p.write.getD ⟨0, 0, 0, none, user.grantsVersion⟩).inflight = 0 := by
      rw [hold.inflight, hqueue]
      rfl
    have hcovers := h.covers_chips hrow hqueue hsound rfl
    have hempty : ∀ {P : Prop}, p.queue ≠ [] → P := fun hne => absurd hqueue hne
    have hnil : ∀ {first rest} {P : Prop}, p.queue = first :: rest → P := fun hcons => by
      cases hqueue.symm.trans hcons
    rw [if_pos hzero]
    refine ⟨⟨_, rfl, hcovers⟩, ⟨_, hcovers, List.Subset.refl _⟩, hold.inflight, hold.numbered,
      hempty, fun shown hshown => ⟨_, hcovers, ?_⟩, hempty, fun _ _ hcons => hnil hcons,
      fun _ _ hcons => hnil hcons⟩
    rw [hqueue, Panel.asShown, hshown]
    exact List.Subset.refl _
  | cons first rest =>
    have hne : p.queue ≠ [] := by
      rw [hqueue]
      exact List.cons_ne_nil _ _
    have hout : ¬ (p.write.getD ⟨0, 0, 0, none, user.grantsVersion⟩).inflight = 0 := by
      rw [hold.inflight, hqueue]
      exact Nat.succ_ne_zero _
    obtain ⟨shown, hshown⟩ := Option.isSome_iff_exists.mp (hold.painted hne)
    rw [if_neg hout]
    refine ⟨hold.saved hne, ?_, hold⟩
    rw [Panel.asShown, hshown, ← hqueue]
    exact hold.chips shown hshown

/-- A click that is sound. -/
theorem PanelOk.set (h : PanelOk base s p) (hrow : p.row = some user) (hsound : p.sound user = true)
    (id : ℕ) (access : Access) : PanelOk base s (p.set id (p.asShown user) access) := by
  obtain ⟨⟨saved, hsaved, hcovers⟩, ⟨seen, hseen, hchained⟩, hold⟩ := h.entry hrow hsound
  refine ⟨h.row, h.reads, fun hnone => (by cases hnone), fun w' hw' => ?_⟩
  obtain rfl := Option.some.inj hw'
  obtain ⟨n, hle, hnumbered⟩ := hold.numbered
  refine ⟨?_, ⟨n, hle, hnumbered.append rfl⟩, fun _ => ⟨saved, hsaved, hcovers⟩, fun shown hshown => ?_,
    fun _ => rfl, fun first rest hcons => ?_, fun first rest hcons q hq => ?_⟩
  · rw [Panel.set, List.length_append, List.length_singleton]
    exact congrArg (· + 1) hold.inflight
  · obtain rfl := Option.some.inj hshown
    exact ⟨seen, hseen, hchained.append _ _ _⟩
  · unfold Panel.set at hcons
    dsimp only at hcons
    cases hqueue : p.queue with
    | nil =>
      rw [hqueue] at hcons
      cases hcons
      trivial
    | cons old olds =>
      rw [hqueue] at hcons
      cases hcons
      exact hold.head _ _ hqueue
  · unfold Panel.set at hcons
    dsimp only at hcons
    cases hqueue : p.queue with
    | nil =>
      rw [hqueue] at hcons
      cases hcons
      cases hq
    | cons old olds =>
      rw [hqueue] at hcons
      cases hcons
      rcases List.mem_append.mp hq with hq | hq
      · exact hold.rest _ _ hqueue q hq
      · rw [List.mem_singleton.mp hq]

/-- An answer moves the known version and what a refusal goes back to. -/
theorem WriteOk.answered {first : Pending} {rest : List Pending} {answer : Option GrantRow}
    (h : WriteOk base log p w) (hqueue : p.queue = first :: rest)
    (hstatus : first.status = .answered answer) :
    (w.answer first.mine answer).seq = w.seq ∧ (w.answer first.mine answer).inflight = w.inflight ∧
      (w.answer first.mine answer).savedSeq ≤ first.mine ∧
      (∃ saved, (w.answer first.mine answer).saved = some saved ∧
        Covers base log (w.answer first.mine answer).version saved.seen) ∧
      Covers base log (w.answer first.mine answer).version (first.id :: first.seen) := by
  have hne : p.queue ≠ [] := by
    rw [hqueue]
    exact List.cons_ne_nil _ _
  obtain ⟨saved, hsaved, hcovers⟩ := h.saved hne
  obtain ⟨n, hle, hnumbered⟩ := h.numbered
  obtain ⟨shown, hshown⟩ := Option.isSome_iff_exists.mp (h.painted hne)
  obtain ⟨seen, hseen, hchained⟩ := h.chips shown hshown
  rw [hqueue] at hnumbered hchained
  have hfirst := h.head first rest hqueue
  rw [Pending.Ok, hstatus] at hfirst
  have hmine := hnumbered.1
  cases answer with
  | none =>
    have hsavedSeq : w.savedSeq ≤ first.mine := by omega
    exact ⟨rfl, rfl, hsavedSeq, ⟨saved, hsaved, hcovers⟩,
      hseen.mono (List.Subset.trans hchained.1 (List.subset_cons_self _ _))⟩
  | some answer =>
    obtain ⟨hanswer, j, c, hj, hid, hknown, hversion⟩ := hfirst
    have hlt : first.mine > w.savedSeq := by omega
    have heq : w.answer first.mine (some answer) = { w with
        version := answer.grantsVersion
        savedSeq := first.mine
        saved := some answer.shown } := if_pos hlt
    rw [heq]
    refine ⟨rfl, rfl, Nat.le_refl _, ⟨answer.shown, rfl, hanswer⟩, ?_⟩
    have hfirst : Covers base log (base + j) first.seen := hknown ▸ hseen.mono hchained.1
    have hsucc := hfirst.succ hj
    rw [hid] at hsucc
    rw [hversion]
    exact hsucc

/-- A write settles, and the next one starts from it. -/
theorem PanelOk.settle {first : Pending} {rest : List Pending} {answer : Option GrantRow}
    (h : PanelOk base s p) (hw : p.write = some w) (hqueue : p.queue = first :: rest)
    (hstatus : first.status = .answered answer) :
    PanelOk base s (p.settle w first.mine answer) := by
  have hold := h.write w hw
  obtain ⟨hseq, hinflight, hsavedSeq, ⟨saved, hsaved, hcovers⟩, hnext⟩ :=
    hold.answered hqueue hstatus
  obtain ⟨n, -, hnumbered⟩ := hold.numbered
  rw [hqueue] at hnumbered
  have hlast := hnumbered.head_eq_last_iff
  obtain ⟨hmine, hnumbered⟩ := hnumbered
  have hne : p.queue ≠ [] := by
    rw [hqueue]
    exact List.cons_ne_nil _ _
  obtain ⟨shown, hshown⟩ := Option.isSome_iff_exists.mp (hold.painted hne)
  have hlength : w.inflight = rest.length + 1 := by
    rw [hold.inflight, hqueue]
    rfl
  have htail : (p.settle w first.mine answer).queue = rest := by
    unfold Panel.settle
    rw [hqueue]
    rfl
  refine ⟨h.row, fun r hr row hrow => ?_, fun hnone => (by cases hnone), fun w' hw' => ?_⟩
  · unfold Panel.settle at hr
    dsimp only at hr
    split_ifs at hr
    · rcases List.mem_append.mp hr with hr | hr
      · exact h.reads r hr row hrow
      · rw [List.mem_singleton.mp hr] at hrow
        cases hrow
    · exact h.reads r hr row hrow
  · obtain rfl := Option.some.inj hw'
    refine ⟨?_, ⟨n + 1, ?_, ?_⟩, fun _ => ⟨saved, hsaved, hcovers⟩, fun shown' hshown' => ?_,
      fun hrest => ?_, fun second more hcons => ?_, fun second more hcons q hq => ?_⟩
    · rw [htail]
      dsimp only
      omega
    · rw [← hmine]
      exact hsavedSeq
    · rw [htail]
      exact hseq.symm ▸ hnumbered
    · rw [htail]
      unfold Panel.settle at hshown'
      dsimp only at hshown'
      rw [hseq] at hshown'
      split_ifs at hshown' with hnewest
      · -- the newest write shows what the hub is known to have accepted
        rw [hsaved] at hshown'
        obtain rfl := Option.some.inj hshown'
        rw [hlast.mp hnewest]
        exact ⟨saved.seen, hcovers, List.Subset.refl _⟩
      · obtain rfl := Option.some.inj (hshown.symm.trans hshown')
        obtain ⟨seen, -, hchained⟩ := hold.chips shown hshown
        rw [hqueue] at hchained
        exact ⟨_, hnext, hchained.2⟩
    · unfold Panel.settle
      dsimp only
      split_ifs
      · rw [hsaved]
        rfl
      · exact hold.painted hne
    · rw [htail] at hcons
      have hqueued := hold.rest first rest hqueue second (hcons ▸ List.mem_cons_self)
      rw [Pending.Ok, hqueued]
      trivial
    · rw [htail] at hcons
      exact hold.rest first rest hqueue q (hcons ▸ List.mem_cons_of_mem _ hq)

/-- The request of the first write goes on. -/
theorem PanelOk.setHead {first : Pending} {rest : List Pending} (h : PanelOk base s p)
    (hqueue : p.queue = first :: rest) (status : Status)
    (hok : ∀ w, p.write = some w → Pending.Ok base s.log w.version { first with status := status }) :
    PanelOk base s (p.setHead status) := by
  unfold Panel.setHead
  rw [hqueue]
  refine ⟨h.row, h.reads, fun hnone => ?_, fun w hw => ?_⟩
  · cases hqueue.symm.trans (h.unwritten hnone).1
  · have hold := h.write w hw
    have hne : p.queue ≠ [] := by
      rw [hqueue]
      exact List.cons_ne_nil _ _
    obtain ⟨n, hle, hnumbered⟩ := hold.numbered
    rw [hqueue] at hnumbered
    refine ⟨?_, ⟨n, hle, hnumbered⟩, fun _ => hold.saved hne, fun shown hshown => ?_,
      fun _ => hold.painted hne, fun second more hcons => ?_, fun second more hcons => ?_⟩
    · rw [hold.inflight, hqueue]
      rfl
    · obtain ⟨seen, hcovers, hchained⟩ := hold.chips shown hshown
      rw [hqueue] at hchained
      exact ⟨seen, hcovers, hchained⟩
    · cases hcons
      exact hok w hw
    · cases hcons
      exact hold.rest first rest hqueue

/-- Other reads, and a landed row. -/
theorem PanelOk.others (h : PanelOk base s p) (hwrite : p'.write = p.write)
    (hoverlay : p'.overlay = p.overlay) (hqueue : p'.queue = p.queue)
    (hrow : ∀ row, p'.row = some row → RowOk base s row)
    (hreads : ∀ r ∈ p'.reads, ∀ row, r.state = .served (some row) → RowOk base s row) :
    PanelOk base s p' := by
  refine ⟨hrow, hreads, fun hnone => ?_, fun w hw => ?_⟩
  · rw [hqueue, hoverlay]
    exact h.unwritten (hwrite ▸ hnone)
  · have hold := h.write w (hwrite ▸ hw)
    refine ⟨?_, ?_, ?_, ?_, ?_, ?_, ?_⟩
    · rw [hqueue]
      exact hold.inflight
    · rw [hqueue]
      exact hold.numbered
    · rw [hqueue]
      exact hold.saved
    · rw [hqueue, hoverlay]
      exact hold.chips
    · rw [hqueue, hoverlay]
      exact hold.painted
    · rw [hqueue]
      exact hold.head
    · rw [hqueue]
      exact hold.rest

/-! ## The steps of the system -/

/-- The panels do not read each other. -/
theorem PanelOk.congr (h : PanelOk base s p) (huser : s'.user = s.user) (hlog : s'.log = s.log) :
    PanelOk base s' p := by
  have hrow : ∀ {row}, RowOk base s row → RowOk base s' row := by
    intro row hok
    exact ⟨hok.least, hlog ▸ hok.covers, huser ▸ hok.access⟩
  exact ⟨fun row hr => hrow (h.row row hr), fun r hr row hs => hrow (h.reads r hr row hs), h.unwritten,
    fun w hw => hlog ▸ h.write w hw⟩

theorem Safe.setPanel (h : Safe base s) (hp : PanelOk base s p) : Safe base (s.setPanel i p) := by
  refine ⟨h.version, fun q hq => ?_, h.informed⟩
  rcases mem_set_cases hq with rfl | ⟨j, -, hj⟩
  · exact hp.congr rfl rfl
  · exact (h.panels q (List.mem_of_getElem? hj)).congr rfl rfl

theorem Safe.panel (h : Safe base s) (hi : s.panels[i]? = some p) : PanelOk base s p :=
  h.panels p (List.mem_of_getElem? hi)

theorem Safe.click {click : Click} (h : Safe base s) (hsound : s.sound (.click i click) = true)
    (hs : s.click i click = some s') : Safe base s' := by
  obtain ⟨p, hi, hs⟩ := Option.bind_eq_some_iff.mp hs
  obtain ⟨user, hrow, hs⟩ := Option.bind_eq_some_iff.mp hs
  cases hs
  have hpanel : p.sound user = true := by
    rw [System.sound, hi, Option.all_some, hrow] at hsound
    exact hsound
  have hok := (h.panel hi).set hrow hpanel s.next (click.apply (p.asShown user).shown.access)
  have hset := h.setPanel (i := i) hok
  exact ⟨hset.version, fun q hq => (hset.panels q hq).congr rfl rfl, hset.informed⟩

theorem Safe.send (h : Safe base s) (hs : s.send i = some s') : Safe base s' := by
  obtain ⟨p, hi, hs⟩ := Option.bind_eq_some_iff.mp hs
  obtain ⟨w, hw, hs⟩ := Option.bind_eq_some_iff.mp hs
  split at hs
  · rename_i hqueue
    cases hs
    refine h.setPanel ((h.panel hi).setHead hqueue _ fun w' hw' => ?_)
    cases hw.symm.trans hw'
    rfl
  · cases hs

theorem Safe.lose (h : Safe base s) (hs : s.lose i = some s') : Safe base s' := by
  obtain ⟨p, hi, hs⟩ := Option.bind_eq_some_iff.mp hs
  split at hs
  · rename_i hqueue
    cases hs
    exact h.setPanel ((h.panel hi).setHead hqueue _ fun _ _ => trivial)
  · rename_i hqueue
    cases hs
    exact h.setPanel ((h.panel hi).setHead hqueue _ fun _ _ => trivial)
  · cases hs

theorem Safe.settle (h : Safe base s) (hs : s.settle i = some s') : Safe base s' := by
  obtain ⟨p, hi, hs⟩ := Option.bind_eq_some_iff.mp hs
  obtain ⟨w, hw, hs⟩ := Option.bind_eq_some_iff.mp hs
  split at hs
  · rename_i hqueue
    cases hs
    exact h.setPanel ((h.panel hi).settle hw hqueue rfl)
  · cases hs

/-- The hub accepts a write only with its own version, which the write has then seen. -/
theorem setCatalogueAccess_applied {existing libraries : List String} {expected : ℕ}
    {access : Access} {user : Option Account}
    (hset : setCatalogueAccess existing user expected access =
      (some account, .applied version libraries)) :
    ∃ old, user = some old ∧ old.grantsVersion = expected ∧ account.grantsVersion = expected + 1 := by
  unfold setCatalogueAccess writeAccess at hset
  cases user with
  | none => cases hset
  | some old =>
    dsimp only at hset
    split_ifs at hset with hversion
    · cases hset
      exact ⟨old, rfl, hversion, congrArg (· + 1) hversion⟩
    · cases hset

theorem Safe.handle {existing : List String} (h : Safe base s) (hs : s.handle i existing = some s') :
    Safe base s' := by
  obtain ⟨p, hi, hs⟩ := Option.bind_eq_some_iff.mp hs
  have hp := h.panel hi
  split at hs
  · rename_i id mine access seen expected rest hqueue
    split at hs
    · rename_i account version libraries hset
      cases hs
      obtain ⟨old, hold, hexpected, hversion⟩ := setCatalogueAccess_applied hset
      have hlength := h.version old hold
      -- the write of a request that is out
      obtain ⟨w, hw⟩ : ∃ w, p.write = some w := by
        cases hw : p.write with
        | some w => exact ⟨w, rfl⟩
        | none => cases hqueue.symm.trans (hp.unwritten hw).1
      have hwrite := hp.write w hw
      have hknown : expected = w.version := hwrite.head _ _ hqueue
      obtain ⟨shown, hshown⟩ := Option.isSome_iff_exists.mp
        (hwrite.painted (by rw [hqueue]; exact List.cons_ne_nil _ _))
      obtain ⟨seen', hcovers, hchained⟩ := hwrite.chips shown hshown
      rw [hqueue] at hchained
      have hall : ∀ d ∈ s.log, d.id ∈ seen := fun d hd =>
        hchained.1 (hcovers.all (by omega) d hd)
      have huser : ∀ a, some account = some a →
          a.grantsVersion = base + (s.log ++ [(⟨id, some i, seen⟩ : Change)]).length := by
        intro a ha
        cases ha
        rw [List.length_append, List.length_singleton]
        omega
      have hnext : Safe base { s with user := some account, log := s.log ++ [⟨id, some i, seen⟩] } :=
        ⟨huser, fun q hq => (h.panels q hq).append rfl huser, h.informed.append hall⟩
      refine hnext.setPanel ((hnext.panel hi).setHead hqueue _ fun w' hw' => ?_)
      cases hw.symm.trans hw'
      refine ⟨?_, s.log.length, ⟨id, some i, seen⟩, List.getElem?_concat_length, rfl, by omega, ?_⟩
      · rw [System.answer, huser account rfl]
        exact covers_all
      · rw [System.answer]
        dsimp only
        omega
    · cases hs
      exact h.setPanel (hp.setHead hqueue _ fun _ _ => trivial)
  · cases hs

theorem Safe.removeLibrary {library : String} (h : Safe base s)
    (hs : s.removeLibrary library = some s') : Safe base s' := by
  unfold System.removeLibrary at hs
  split at hs
  · rename_i account haccount
    split_ifs at hs with hmem
    cases hs
    have huser : ∀ a, some (deleteLibrary library account) = some a → a.grantsVersion =
        base + (s.log ++ [(⟨s.next, none, s.log.map Change.id⟩ : Change)]).length := by
      intro a ha
      cases ha
      have hversion := h.version account haccount
      rw [deleteLibrary, if_pos hmem, List.length_append, List.length_singleton]
      dsimp only
      omega
    exact ⟨huser, fun q hq => (h.panels q hq).append rfl huser,
      h.informed.append fun d hd => List.mem_map_of_mem hd⟩
  · cases hs

/-- The hub answers a read with its own row. -/
theorem Safe.rowOk_answer (h : Safe base s) (haccount : s.user = some account) :
    RowOk base s (s.answer account) := by
  have hversion := h.version account haccount
  refine ⟨?_, ?_, fun a ha _ => ?_⟩
  · rw [System.answer, hversion]
    exact Nat.le_add_right _ _
  · rw [System.answer, hversion]
    exact covers_all
  · cases haccount.symm.trans ha
    rfl

theorem Safe.read {k : ℕ} {step : ReadStep} (h : Safe base s) (hs : s.read i k step = some s') :
    Safe base s' := by
  obtain ⟨p, hi, hs⟩ := Option.bind_eq_some_iff.mp hs
  obtain ⟨r, hk, hs⟩ := Option.bind_eq_some_iff.mp hs
  have hp := h.panel hi
  have hmem := List.mem_of_getElem? hk
  have hset : ∀ {r' : Read}, (∀ row, r'.state = .served (some row) → RowOk base s row) →
      ∀ q ∈ p.reads.set k r', ∀ row, q.state = .served (some row) → RowOk base s row := by
    intro r' hr' q hq row hrow
    rcases mem_set_cases hq with rfl | ⟨j, -, hj⟩
    · exact hr' row hrow
    · exact hp.reads q (List.mem_of_getElem? hj) row hrow
  have hdone : ∀ {awaited : Bool} row, (⟨.done, awaited⟩ : Read).state = .served (some row) →
      RowOk base s row := fun row hrow => (by cases hrow)
  split at hs
  · cases hs
    refine h.setPanel (hp.others rfl rfl rfl hp.row (hset fun row hrow => ?_))
    cases huser : s.user with
    | none =>
      rw [huser] at hrow
      cases hrow
    | some account =>
      rw [huser] at hrow
      cases hrow
      exact h.rowOk_answer huser
  · rename_i answer hstate _ _
    cases hs
    refine h.setPanel (hp.others rfl rfl rfl (fun row hrow => ?_) (hset hdone))
    have hanswer : answer = some row := hrow
    exact hp.reads r hmem row (by rw [hstate, hanswer])
  · cases hs
    exact h.setPanel (hp.others rfl rfl rfl hp.row (hset hdone))
  · cases hs
    exact h.setPanel (hp.others rfl rfl rfl hp.row (hset hdone))
  · split_ifs at hs
    cases hs
    refine h.setPanel ⟨hp.row, hset hdone, fun hnone => ?_, fun w hw => ?_⟩
    · obtain ⟨hqueue, hoverlay⟩ := hp.unwritten hnone
      refine ⟨hqueue, ?_⟩
      unfold Panel.resolve
      dsimp only
      rw [hoverlay]
      exact ite_self _
    · have hold := hp.write w hw
      have hresolve : ∀ shown, (p.resolve k).overlay = some shown → p.overlay = some shown := by
        intro shown hshown
        unfold Panel.resolve at hshown
        dsimp only at hshown
        split_ifs at hshown
        exact hshown
      refine ⟨hold.inflight, hold.numbered, hold.saved,
        fun shown hshown => hold.chips shown (hresolve shown hshown), fun hne => ?_, hold.head,
        hold.rest⟩
      have hout : ¬ (p.write.map Write.inflight).getD 0 = 0 := by
        have hpw : p.write = some w := hw
        rw [hpw, Option.map_some, Option.getD_some, hold.inflight, List.length_eq_zero_iff]
        exact hne
      unfold Panel.resolve
      dsimp only
      rw [if_neg hout]
      exact hold.painted hne
  · cases hs

theorem safe_step {event : Event} (h : Safe base s) (hsound : s.sound event = true)
    (hs : s.step event = some s') : Safe base s' := by
  cases event with
  | opens =>
    cases hs
    refine ⟨h.version, fun q hq => ?_, h.informed⟩
    rcases List.mem_append.mp hq with hq | hq
    · exact (h.panels q hq).congr rfl rfl
    · rw [List.mem_singleton.mp hq]
      refine ⟨fun row hrow => (by cases hrow), fun r hr row hrow => ?_, fun _ => ⟨rfl, rfl⟩,
        fun w hw => (by cases hw)⟩
      rw [List.mem_singleton.mp hr] at hrow
      cases hrow
  | click i click => exact h.click hsound hs
  | send i => exact h.send hs
  | handle i existing => exact h.handle hs
  | lose i => exact h.lose hs
  | settle i => exact h.settle hs
  | poll i =>
    obtain ⟨p, hi, hs⟩ := Option.bind_eq_some_iff.mp hs
    cases hs
    have hp := h.panel hi
    refine h.setPanel (hp.others rfl rfl rfl hp.row fun r hr row hrow => ?_)
    rcases List.mem_append.mp hr with hr | hr
    · exact hp.reads r hr row hrow
    · rw [List.mem_singleton.mp hr] at hrow
      cases hrow
  | read i k step => exact h.read hs
  | removeLibrary library => exact h.removeLibrary hs
  | removeUser =>
    cases hs
    refine ⟨fun account haccount => (by cases haccount), fun q hq => ?_, h.informed⟩
    have hrow : ∀ {row}, RowOk base s row → RowOk base { s with user := none } row := fun hok =>
      ⟨hok.least, hok.covers, fun account haccount => (by cases haccount)⟩
    have hq' := h.panels q hq
    exact ⟨fun row hr => hrow (hq'.row row hr), fun r hr row hs => hrow (hq'.reads r hr row hs),
      hq'.unwritten, hq'.write⟩

theorem safe_of_reaches (h : (machine account).Reaches (fun s event => s.sound event = true) s) :
    Safe account.grantsVersion s := by
  refine h.invariant ⟨fun a ha => ?_, fun p hp => (by cases hp), List.Pairwise.nil⟩ fun ha hok he =>
    safe_step ha hok he
  cases ha
  rfl

end Kahawai.Web.Grants
