import Kahawai.Hub.Sessions.Dispatch.State

/-!
# The invariant of an orderly run

At most one attempt is in flight and at most one reschedule in progress, the
registrations belong to the attempt in flight or to none, and the boxes that
hold a slot or were last sent `StartSession` are the session's and the
reschedule's. One lemma for each kind of step says what it may change and that
the invariant stays.
-/

namespace Kahawai.Hub.Sessions.Dispatch

open Kahawai.Lib

/-- The sender of the attempt may be in `pending_ready`. -/
def Attempt.isRegistered (x : Attempt) : Bool :=
  match x.stage with
  | .registered | .waiting | .closing | .dropping _ => true
  | .leased | .dropped _ | .over _ => false

/-- The box `execute_seek` read. -/
def SeekStage.box? : SeekStage → Option String
  | .idle => none
  | .ending tc | .ended tc | .released tc | .opening tc | .attempting tc _ => some tc

/-- The slot of the old box is given back and the reschedule is not over. -/
def MoveStage.isReleased : MoveStage → Bool
  | .found | .looked _ | .over => false
  | .released | .reserved _ | .opening _ | .attempting _ _ => true

/-- The box on which the reschedule holds a slot. -/
def MoveStage.target : MoveStage → Option String
  | .reserved new | .opening new | .attempting new _ => some new
  | .found | .looked _ | .released | .over => none

/-- The box `end` read under `seek_lock`. -/
def EndStage.box? : EndStage → Option String
  | .locked tc | .unleased tc | .unregistered tc | .released tc => some tc
  | .active | .removed | .done | .dropped => none

/-- `end` has taken `seek_lock`. -/
def EndStage.isClosed : EndStage → Bool
  | .active | .removed | .dropped => false
  | .locked _ | .unleased _ | .unregistered _ | .released _ | .done => true

/-- `end` has cleared the leases. -/
def EndStage.isUnleased : EndStage → Bool
  | .active | .removed | .dropped | .locked _ => false
  | .unleased _ | .unregistered _ | .released _ | .done => true

/-- `end` has given the slot back. -/
def EndStage.isReleased : EndStage → Bool
  | .active | .removed | .dropped | .locked _ | .unleased _ | .unregistered _ => false
  | .released _ | .done => true

theorem EndStage.isClosed_of_isUnleased {e : EndStage} (h : e.isUnleased = true) :
    e.isClosed = true := by
  cases e <;> first | rfl | cases h

theorem EndStage.isClosed_of_isReleased {e : EndStage} (h : e.isReleased = true) :
    e.isClosed = true := by
  cases e <;> first | rfl | cases h

theorem Attempt.inFlight_of_isRegistered {x : Attempt} (h : x.isRegistered = true) :
    x.inFlight = true := by
  revert h
  rw [isRegistered, inFlight]
  cases x.stage <;> simp

theorem MoveStage.isReleased_of_target {m : MoveStage} {t : String} (h : m.target = some t) :
    m.isReleased = true := by
  cases m <;> first | rfl | cases h

theorem MoveStage.ne_over_of_isReleased {m : MoveStage} (h : m.isReleased = true) : m ≠ .over := by
  rintro rfl
  cases h

/-- What holds in every state of an orderly run. -/
structure Inv (s : State) : Prop where
  removed : ∀ x ∈ s.removed, x.1 = x.2
  answered : ∀ x ∈ s.answered, x.1 = x.2
  /-- At most one attempt is in flight. -/
  single : ∀ (a b : ℕ) (x y : Attempt), s.attempts[a]? = some x → s.attempts[b]? = some y →
    x.inFlight = true → y.inFlight = true → a = b
  /-- An attempt in flight is the seek's or a reschedule's. -/
  owner : ∀ (a : ℕ) (x : Attempt), s.attempts[a]? = some x → x.inFlight = true →
    s.seek = .attempting x.box a ∨ .attempting x.box a ∈ s.moves
  pending : ∀ p, s.pendingReady = some p → ∃ x, s.attempts[p]? = some x ∧ x.isRegistered = true
  leases : ∀ (a p : ℕ) (x : Attempt), s.attempts[a]? = some x → x.inFlight = true →
    s.tcLeases = some p → p = a
  seekBox : ∀ tc, s.seek.box? = some tc → tc = s.box
  /-- At most one reschedule is in progress. -/
  alone : ∀ (k l : ℕ) (m n : MoveStage), s.moves[k]? = some m → s.moves[l]? = some n →
    m ≠ .over → n ≠ .over → k = l
  looked : ∀ old, .looked old ∈ s.moves → old = s.box
  holds : ∀ t ∈ s.holds, (t = s.box ∧ ∀ m ∈ s.moves, m.isReleased = false) ∨
    ∃ m ∈ s.moves, m.target = some t
  last : ∀ t, s.last t = some .startSession → t = s.box ∨ ∃ m ∈ s.moves, m.target = some t
  closed : s.stage.isClosed = true → s.seek = .idle ∧ ∀ m ∈ s.moves, m = .over
  endBox : ∀ tc, s.stage.box? = some tc → tc = s.box
  kept : s.stage ≠ .dropped
  unleased : s.stage.isUnleased = true → s.tcLeases = none
  released : s.stage.isReleased = true → s.holds = ∅
  told : s.stage = .done → s.last s.box ≠ some .startSession

section

variable {s s' : State} {a k : ℕ} {x x' : Attempt} {m m' : MoveStage} {tc : String}

theorem over_new {x : Attempt} (hx : (State.new tc).attempts[a]? = some x) :
    x.inFlight = false := by
  rw [List.mem_singleton.mp (List.mem_of_getElem? hx)]
  rfl

theorem inv_new (tc : String) : Inv (State.new tc) where
  removed := by simp [State.new]
  answered := by simp [State.new]
  single := by
    intro a b x y hx hy hin
    rw [over_new hx] at hin
    cases hin
  owner := by
    intro a x hx hin
    rw [over_new hx] at hin
    cases hin
  pending := nofun
  leases := by
    intro a p x hx hin
    rw [over_new hx] at hin
    cases hin
  seekBox := nofun
  alone := by simp [State.new]
  looked := by simp [State.new]
  holds := by simp [State.new]
  last := by
    intro t ht
    left
    by_contra hne
    have hnone : (State.new tc).last t = none :=
      Function.update_of_ne (f := fun _ => none) hne _
    rw [hnone] at ht
    cases ht
  closed := nofun
  endBox := nofun
  kept := nofun
  unleased := nofun
  released := nofun
  told := nofun

/-- While `end` has the lock nothing is in flight. -/
theorem Inv.not_closed_of_inFlight (h : Inv s) (hx : s.attempts[a]? = some x)
    (hin : x.inFlight = true) : s.stage.isClosed = false := by
  by_contra hclosed
  obtain ⟨hseek, hmoves⟩ := h.closed (by simpa using hclosed)
  rcases h.owner a x hx hin with hown | hown
  · rw [hseek] at hown
    cases hown
  · cases hmoves _ hown

theorem Inv.not_closed_of_move (h : Inv s) (hm : m ∈ s.moves) (hne : m ≠ .over) :
    s.stage.isClosed = false := by
  by_contra hclosed
  exact hne ((h.closed (by simpa using hclosed)).2 m hm)

theorem Inv.not_closed_of_seek (h : Inv s) (hne : s.seek ≠ .idle) : s.stage.isClosed = false := by
  by_contra hclosed
  exact hne (h.closed (by simpa using hclosed)).1

/-- A registered sender is the one of the attempt in flight. -/
theorem Inv.pending_self (h : Inv s) (hx : s.attempts[a]? = some x) (hin : x.inFlight = true)
    {p : ℕ} (hp : s.pendingReady = some p) : p = a ∧ x.isRegistered = true := by
  obtain ⟨y, hy, hreg⟩ := h.pending p hp
  obtain rfl := h.single p a y x hy hx (Attempt.inFlight_of_isRegistered hreg) hin
  obtain rfl : y = x := Option.some.inj (hy.symm.trans hx)
  exact ⟨rfl, hreg⟩

/-- What a step of attempt `a` from `x` to `x'` may change. -/
structure AttemptStep (s s' : State) (a : ℕ) (x x' : Attempt) : Prop where
  found : s.attempts[a]? = some x
  inFlight : x.inFlight = true
  attempts : s'.attempts = s.attempts.set a x'
  box : x'.box = x.box
  session : s'.box = s.box ∧ s'.stage = s.stage ∧ s'.seek = s.seek ∧ s'.moves = s.moves ∧
    s'.holds = s.holds
  pending : ∀ p, s'.pendingReady = some p → p = a ∧ x'.isRegistered = true
  leases : ∀ p, s'.tcLeases = some p → s.tcLeases = some p
  last : ∀ t, s'.last t = some .startSession → s.last t = some .startSession ∨ t = x.box
  removed : ∀ y ∈ s'.removed, y ∈ s.removed ∨ y.1 = y.2
  answered : ∀ y ∈ s'.answered, y ∈ s.answered ∨ y.1 = y.2

theorem AttemptStep.getElem? (hst : AttemptStep s s' a x x') {b : ℕ} {y : Attempt}
    (hy : s'.attempts[b]? = some y) (hin : y.inFlight = true) :
    ∃ z, s.attempts[b]? = some z ∧ z.inFlight = true ∧ y.box = z.box := by
  rw [hst.attempts] at hy
  rcases getElem?_set_cases hy with ⟨rfl, rfl⟩ | ⟨-, hold⟩
  · exact ⟨x, hst.found, hst.inFlight, hst.box⟩
  · exact ⟨y, hold, hin, rfl⟩

theorem Inv.attemptStep (h : Inv s) (hst : AttemptStep s s' a x x') : Inv s' := by
  obtain ⟨hbox, hstage, hseek, hmoves, hholds⟩ := hst.session
  have hclosed : s'.stage.isClosed = false := by
    rw [hstage]
    exact h.not_closed_of_inFlight hst.found hst.inFlight
  refine
    { removed := fun y hy => (hst.removed y hy).elim (h.removed y) id
      answered := fun y hy => (hst.answered y hy).elim (h.answered y) id
      single := ?_
      owner := ?_
      pending := ?_
      leases := ?_
      seekBox := by rw [hseek, hbox]; exact h.seekBox
      alone := by rw [hmoves]; exact h.alone
      looked := by rw [hmoves, hbox]; exact h.looked
      holds := by rw [hholds, hmoves, hbox]; exact h.holds
      last := ?_
      closed := fun hc => by rw [hclosed] at hc; cases hc
      endBox := by rw [hstage, hbox]; exact h.endBox
      kept := by rw [hstage]; exact h.kept
      unleased := fun hc => by
        rw [EndStage.isClosed_of_isUnleased hc] at hclosed
        cases hclosed
      released := fun hc => by
        rw [EndStage.isClosed_of_isReleased hc] at hclosed
        cases hclosed
      told := fun hc => by
        rw [hc] at hclosed
        cases hclosed }
  · intro b c y z hy hz hyin hzin
    obtain ⟨y', hy', hyin', -⟩ := hst.getElem? hy hyin
    obtain ⟨z', hz', hzin', -⟩ := hst.getElem? hz hzin
    exact h.single b c y' z' hy' hz' hyin' hzin'
  · intro b y hy hyin
    obtain ⟨y', hy', hyin', heq⟩ := hst.getElem? hy hyin
    rw [heq, hseek, hmoves]
    exact h.owner b y' hy' hyin'
  · intro p hp
    obtain ⟨rfl, hreg⟩ := hst.pending p hp
    rw [hst.attempts]
    exact ⟨x', getElem?_set_moved hst.found, hreg⟩
  · intro b p y hy hyin hp
    obtain ⟨y', hy', hyin', -⟩ := hst.getElem? hy hyin
    exact h.leases b p y' hy' hyin' (hst.leases p hp)
  · intro t ht
    rw [hbox, hmoves]
    rcases hst.last t ht with hold | rfl
    · exact h.last t hold
    · rcases h.owner a x hst.found hst.inFlight with hown | hown
      · exact Or.inl (h.seekBox _ (by rw [hown]; rfl))
      · exact Or.inr ⟨_, hown, rfl⟩

/-- A new attempt of the seek or of a reschedule. -/
theorem Inv.newAttempt (h : Inv s) (hidle : ∀ y ∈ s.attempts, y.inFlight = false)
    (hopen : s.stage.isClosed = false)
    (hown : s.seek = .attempting tc s.attempts.length ∨
      .attempting tc s.attempts.length ∈ s.moves) : Inv (s.newAttempt tc) := by
  have hnew : ∀ (b : ℕ) (y : Attempt), (s.newAttempt tc).attempts[b]? = some y →
      y.inFlight = true → b = s.attempts.length ∧ y.box = tc := by
    intro b y hy hin
    rcases getElem?_append_cases hy with ⟨hb, rfl⟩ | hold
    · exact ⟨hb, rfl⟩
    · rw [hidle y (List.mem_of_getElem? hold)] at hin
      cases hin
  refine { h with single := ?_, owner := ?_, pending := ?_, leases := ?_, unleased := ?_ }
  · intro b c y z hy hz hyin hzin
    rw [(hnew b y hy hyin).1, (hnew c z hz hzin).1]
  · intro b y hy hyin
    obtain ⟨rfl, rfl⟩ := hnew b y hy hyin
    exact hown
  · intro p hp
    obtain ⟨y, hy, hreg⟩ := h.pending p hp
    have hin := Attempt.inFlight_of_isRegistered hreg
    rw [hidle y (List.mem_of_getElem? hy)] at hin
    cases hin
  · intro b p y hy hyin hp
    rw [(hnew b y hy hyin).1]
    exact (Option.some.inj hp).symm
  · intro hc
    have hclosed := EndStage.isClosed_of_isUnleased hc
    rw [show (s.newAttempt tc).stage = s.stage from rfl, hopen] at hclosed
    cases hclosed

/-- What a step of the seek to the stage `k` may change. -/
structure SeekStep (s s' : State) (k : SeekStage) : Prop where
  seek : s'.seek = k
  session : s'.box = s.box ∧ s'.stage = s.stage ∧ s'.moves = s.moves ∧
    s'.attempts = s.attempts ∧ s'.pendingReady = s.pendingReady ∧
    s'.removed = s.removed ∧ s'.answered = s.answered
  notClosed : s.stage.isClosed = false
  owner : ∀ (a : ℕ) (x : Attempt), s.attempts[a]? = some x → x.inFlight = true →
    s.seek ≠ .attempting x.box a
  box : ∀ tc, k.box? = some tc → tc = s.box
  leases : ∀ p, s'.tcLeases = some p → s.tcLeases = some p
  holds : s'.holds ⊆ s.holds
  last : ∀ t, s'.last t = some .startSession → s.last t = some .startSession

theorem Inv.seekStep {k : SeekStage} (h : Inv s) (hst : SeekStep s s' k) : Inv s' := by
  obtain ⟨hbox, hstage, hmoves, hattempts, hpending, hremoved, hanswered⟩ := hst.session
  have hclosed : s'.stage.isClosed = false := by
    rw [hstage]
    exact hst.notClosed
  refine
    { removed := by rw [hremoved]; exact h.removed
      answered := by rw [hanswered]; exact h.answered
      single := by rw [hattempts]; exact h.single
      owner := ?_
      pending := by rw [hpending, hattempts]; exact h.pending
      leases := ?_
      seekBox := by rw [hst.seek, hbox]; exact hst.box
      alone := by rw [hmoves]; exact h.alone
      looked := by rw [hmoves, hbox]; exact h.looked
      holds := ?_
      last := ?_
      closed := fun hc => by rw [hclosed] at hc; cases hc
      endBox := by rw [hstage, hbox]; exact h.endBox
      kept := by rw [hstage]; exact h.kept
      unleased := fun hc => by
        rw [EndStage.isClosed_of_isUnleased hc] at hclosed
        cases hclosed
      released := fun hc => by
        rw [EndStage.isClosed_of_isReleased hc] at hclosed
        cases hclosed
      told := fun hc => by
        rw [hc] at hclosed
        cases hclosed }
  · intro a x hx hin
    rw [hattempts] at hx
    rw [hmoves]
    exact Or.inr ((h.owner a x hx hin).resolve_left (hst.owner a x hx hin))
  · intro a p x hx hin hp
    rw [hattempts] at hx
    exact h.leases a p x hx hin (hst.leases p hp)
  · intro t ht
    rw [hmoves, hbox]
    exact h.holds t (hst.holds ht)
  · intro t ht
    rw [hmoves, hbox]
    exact h.last t (hst.last t ht)

/-- An attempt that returned is not in flight. -/
theorem State.returned.inFlight {ready : Bool} (h : s.returned a ready)
    (hx : s.attempts[a]? = some x) : x.inFlight = false := by
  obtain ⟨y, hy, hstage⟩ := h
  obtain rfl : y = x := Option.some.inj (hy.symm.trans hx)
  simp [Attempt.inFlight, hstage]

/-- A step of `execute_seek` after it read the box. -/
theorem Inv.seekMoves {k : SeekStage} (h : Inv s) (hne : s.seek ≠ .idle)
    (hown : ∀ (a : ℕ) (x : Attempt), s.attempts[a]? = some x → x.inFlight = true →
      s.seek ≠ .attempting x.box a)
    (hbox : ∀ tc, k.box? = some tc → s.seek.box? = some tc)
    {tcLeases : Option ℕ} (hleases : ∀ p, tcLeases = some p → s.tcLeases = some p)
    {holds : Finset String} (hholds : holds ⊆ s.holds)
    {last : String → Option Msg}
    (hlast : ∀ t, last t = some .startSession → s.last t = some .startSession) :
    Inv { s with seek := k, tcLeases, holds, last } :=
  h.seekStep
    { seek := rfl
      session := ⟨rfl, rfl, rfl, rfl, rfl, rfl, rfl⟩
      notClosed := h.not_closed_of_seek hne
      owner := hown
      box := fun tc htc => h.seekBox tc (hbox tc htc)
      leases := hleases
      holds := hholds
      last := hlast }

/-- While one reschedule is in progress the others are over. -/
theorem Inv.others_over (h : Inv s) (hm : s.moves[k]? = some m) (hne : m ≠ .over)
    {l : ℕ} {n : MoveStage} (hl : l ≠ k) (hn : s.moves[l]? = some n) : n = .over := by
  by_contra hover
  exact hl (h.alone l k n m hn hm hover hne)

/-- What a step of reschedule `k` from `m` to `m'` may change. -/
structure MoveStep (s s' : State) (k : ℕ) (m m' : MoveStage) : Prop where
  found : s.moves[k]? = some m
  ne_over : m ≠ .over
  moves : s'.moves = s.moves.set k m'
  session : s'.stage = s.stage ∧ s'.seek = s.seek ∧ s'.attempts = s.attempts ∧
    s'.pendingReady = s.pendingReady ∧ s'.removed = s.removed ∧ s'.answered = s.answered
  owner : ∀ (a : ℕ) (x : Attempt), s.attempts[a]? = some x → x.inFlight = true →
    m ≠ .attempting x.box a
  leases : ∀ p, s'.tcLeases = some p → s.tcLeases = some p
  seekBox : ∀ tc, s.seek.box? = some tc → tc = s'.box
  looked : ∀ old, m' = .looked old → old = s'.box
  holds : ∀ t ∈ s'.holds, (t = s'.box ∧ m'.isReleased = false) ∨ m'.target = some t
  last : ∀ t, s'.last t = some .startSession → t = s'.box ∨ m'.target = some t

theorem Inv.moveStep (h : Inv s) (hst : MoveStep s s' k m m') : Inv s' := by
  obtain ⟨hstage, hseek, hattempts, hpending, hremoved, hanswered⟩ := hst.session
  have hopen := h.not_closed_of_move (List.mem_of_getElem? hst.found) hst.ne_over
  have hclosed : s'.stage.isClosed = false := by
    rw [hstage]
    exact hopen
  have hmem : m' ∈ s'.moves := by
    rw [hst.moves]
    exact mem_set_moved hst.found
  have hmoves : ∀ n ∈ s'.moves, n = m' ∨ n = .over := by
    intro n hn
    rw [hst.moves] at hn
    rcases mem_set_cases hn with heq | ⟨l, hl, hold⟩
    · exact Or.inl heq
    · exact Or.inr (h.others_over hst.found hst.ne_over hl hold)
  refine
    { removed := by rw [hremoved]; exact h.removed
      answered := by rw [hanswered]; exact h.answered
      single := by rw [hattempts]; exact h.single
      owner := ?_
      pending := by rw [hpending, hattempts]; exact h.pending
      leases := ?_
      seekBox := by rw [hseek]; exact hst.seekBox
      alone := ?_
      looked := ?_
      holds := ?_
      last := ?_
      closed := fun hc => by rw [hclosed] at hc; cases hc
      endBox := ?_
      kept := by rw [hstage]; exact h.kept
      unleased := fun hc => by
        rw [EndStage.isClosed_of_isUnleased hc] at hclosed
        cases hclosed
      released := fun hc => by
        rw [EndStage.isClosed_of_isReleased hc] at hclosed
        cases hclosed
      told := fun hc => by
        rw [hc] at hclosed
        cases hclosed }
  · intro a x hx hin
    rw [hattempts] at hx
    rw [hseek]
    refine (h.owner a x hx hin).imp_right fun hown => ?_
    obtain ⟨l, hl⟩ := List.mem_iff_getElem?.mp hown
    have hkl : l = k := h.alone l k _ m hl hst.found nofun hst.ne_over
    subst hkl
    exact absurd (Option.some.inj (hst.found.symm.trans hl)) (hst.owner a x hx hin)
  · intro a p x hx hin hp
    rw [hattempts] at hx
    exact h.leases a p x hx hin (hst.leases p hp)
  · intro l l' n n' hn hn' hne hne'
    rw [hst.moves] at hn hn'
    have hself : ∀ (i : ℕ) (q : MoveStage), (s.moves.set k m')[i]? = some q → q ≠ .over →
        i = k := by
      intro i q hq hqne
      rcases getElem?_set_cases hq with ⟨hi, -⟩ | ⟨hi, hold⟩
      · exact hi
      · exact absurd (h.others_over hst.found hst.ne_over hi hold) hqne
    rw [hself l n hn hne, hself l' n' hn' hne']
  · intro old hold
    rcases hmoves _ hold with heq | heq
    · exact hst.looked old heq.symm
    · cases heq
  · intro t ht
    rcases hst.holds t ht with ⟨heq, hrel⟩ | htarget
    · refine Or.inl ⟨heq, fun n hn => ?_⟩
      rcases hmoves n hn with rfl | rfl
      · exact hrel
      · rfl
    · exact Or.inr ⟨m', hmem, htarget⟩
  · intro t ht
    exact (hst.last t ht).imp_right fun htarget => ⟨m', hmem, htarget⟩
  · intro tc htc
    rw [hstage] at htc
    revert htc hopen
    cases s.stage <;> simp [EndStage.box?, EndStage.isClosed]

/-- The slots, seen from the reschedule in progress. -/
theorem Inv.holds_of_move (h : Inv s) (hm : s.moves[k]? = some m) (hne : m ≠ .over) {t : String}
    (ht : t ∈ s.holds) : (t = s.box ∧ m.isReleased = false) ∨ m.target = some t := by
  rcases h.holds t ht with ⟨heq, hrel⟩ | ⟨n, hn, htarget⟩
  · exact Or.inl ⟨heq, hrel m (List.mem_of_getElem? hm)⟩
  · obtain ⟨l, hl⟩ := List.mem_iff_getElem?.mp hn
    have hkl : l = k := h.alone l k n m hl hm
      (MoveStage.ne_over_of_isReleased (MoveStage.isReleased_of_target htarget)) hne
    subst hkl
    exact Or.inr (Option.some.inj (hm.symm.trans hl) ▸ htarget)

/-- The boxes whose last message is `StartSession`, seen from the reschedule in
    progress. -/
theorem Inv.last_of_move (h : Inv s) (hm : s.moves[k]? = some m) (hne : m ≠ .over) {t : String}
    (ht : s.last t = some .startSession) : t = s.box ∨ m.target = some t := by
  refine (h.last t ht).imp_right fun ⟨n, hn, htarget⟩ => ?_
  obtain ⟨l, hl⟩ := List.mem_iff_getElem?.mp hn
  have hkl : l = k := h.alone l k n m hl hm
    (MoveStage.ne_over_of_isReleased (MoveStage.isReleased_of_target htarget)) hne
  subst hkl
  exact Option.some.inj (hm.symm.trans hl) ▸ htarget

/-- A step of a reschedule that leaves the session on its box. -/
theorem Inv.moveMoves (h : Inv s) (hm : s.moves[k]? = some m) (hne : m ≠ .over)
    (hown : ∀ (a : ℕ) (x : Attempt), s.attempts[a]? = some x → x.inFlight = true →
      m ≠ .attempting x.box a)
    {tcLeases : Option ℕ} (hleases : ∀ p, tcLeases = some p → s.tcLeases = some p)
    (hlooked : ∀ old, m' = .looked old → old = s.box)
    {holds : Finset String}
    (hholds : ∀ t ∈ holds, (t = s.box ∧ m'.isReleased = false) ∨ m'.target = some t)
    (htarget : ∀ t, m.target = some t → s.last t = some .startSession →
      t = s.box ∨ m'.target = some t) :
    Inv { s.setMove k m' with tcLeases, holds } :=
  h.moveStep
    { found := hm
      ne_over := hne
      moves := rfl
      session := ⟨rfl, rfl, rfl, rfl, rfl, rfl⟩
      owner := hown
      leases := hleases
      seekBox := h.seekBox
      looked := hlooked
      holds := hholds
      last := fun t ht => (h.last_of_move hm hne ht).elim Or.inl fun heq => htarget t heq ht }

/-- A reschedule that succeeds: the session is on the new box. -/
theorem Inv.finish {new : String} (h : Inv s) (hm : s.moves[k]? = some (.attempting new a))
    (hreturned : s.returned a true)
    (hok : new = s.box ∨ (s.seek = .idle ∧ s.last s.box ≠ some .startSession)) :
    Inv { s.setMove k .over with box := new } :=
  h.moveStep
    { found := hm
      ne_over := nofun
      moves := rfl
      session := ⟨rfl, rfl, rfl, rfl, rfl, rfl⟩
      owner := fun b x hx hin heq => by
        obtain ⟨-, rfl⟩ := MoveStage.attempting.inj heq
        rw [hreturned.inFlight hx] at hin
        cases hin
      leases := fun _ => id
      seekBox := fun tc htc => by
        rcases hok with rfl | ⟨hidle, -⟩
        · exact h.seekBox tc htc
        · rw [hidle] at htc
          cases htc
      looked := nofun
      holds := fun t ht => by
        rcases h.holds_of_move hm nofun ht with ⟨-, hrel⟩ | htarget
        · cases hrel
        · exact Or.inl ⟨(Option.some.inj htarget).symm, rfl⟩
      last := fun t ht => by
        rcases h.last_of_move hm nofun ht with rfl | htarget
        · rcases hok with rfl | ⟨-, htold⟩
          · exact Or.inl rfl
          · exact absurd ht htold
        · exact Or.inl (Option.some.inj htarget).symm }

/-- A reschedule that fails after it reserved a box. -/
theorem Inv.fail {new : String} (h : Inv s) (hm : s.moves[k]? = some m)
    (hfails : s.moveFails new m) (hok : new = s.box ∨ s.last new ≠ some .startSession) :
    Inv ((s.giveBack new).setMove k .over) := by
  have htarget : m.target = some new ∧ m ≠ .over ∧ ∀ (a : ℕ) (x : Attempt),
      s.attempts[a]? = some x → x.inFlight = true → m ≠ .attempting x.box a := by
    cases m with
    | reserved t =>
      cases hfails
      exact ⟨rfl, nofun, nofun⟩
    | opening t =>
      cases hfails
      exact ⟨rfl, nofun, nofun⟩
    | attempting t b =>
      obtain ⟨rfl, hreturned⟩ := hfails
      refine ⟨rfl, nofun, fun c x hx hin heq => ?_⟩
      obtain ⟨-, rfl⟩ := MoveStage.attempting.inj heq
      rw [hreturned.inFlight hx] at hin
      cases hin
    | found | looked _ | released | «over» => cases hfails
  obtain ⟨htarget, hne, hown⟩ := htarget
  refine h.moveMoves hm hne hown (fun _ => id) (fun _ heq => by cases heq) (fun t ht => ?_) fun t heq hlast => ?_
  · obtain ⟨htnew, ht⟩ := Finset.mem_erase.mp ht
    rcases h.holds_of_move hm hne ht with ⟨-, hrel⟩ | heq
    · rw [MoveStage.isReleased_of_target htarget] at hrel
      cases hrel
    · exact absurd (Option.some.inj (heq.symm.trans htarget)) htnew
  · obtain rfl : t = new := Option.some.inj (heq.symm.trans htarget)
    exact Or.inl (hok.resolve_right fun hne => hne hlast)

/-- A new reschedule. -/
theorem Inv.reschedule (h : Inv s) (hidle : ∀ n ∈ s.moves, n = .over)
    (hopen : s.stage.isClosed = false) : Inv { s with moves := s.moves ++ [.found] } := by
  have hself : ∀ (l : ℕ) (n : MoveStage), (s.moves ++ [.found])[l]? = some n → n ≠ .over →
      l = s.moves.length := by
    intro l n hn hne
    rcases getElem?_append_cases hn with ⟨hl, -⟩ | hold
    · exact hl
    · exact absurd (hidle n (List.mem_of_getElem? hold)) hne
  refine
    { h with
      owner := ?_
      alone := ?_
      looked := ?_
      holds := ?_
      last := ?_
      closed := fun hc => by
        rw [show s.stage.isClosed = true from hc] at hopen
        cases hopen }
  · intro a x hx hin
    exact (h.owner a x hx hin).imp_right (List.mem_append_left _)
  · intro l l' n n' hn hn' hne hne'
    rw [hself l n hn hne, hself l' n' hn' hne']
  · intro old hold
    rcases List.mem_append.mp hold with hold | hnew
    · exact h.looked old hold
    · cases List.mem_singleton.mp hnew
  · intro t ht
    rcases h.holds t ht with ⟨heq, hrel⟩ | ⟨n, hn, htarget⟩
    · refine Or.inl ⟨heq, fun n hn => ?_⟩
      rcases List.mem_append.mp hn with hold | hnew
      · exact hrel n hold
      · rw [List.mem_singleton.mp hnew]
        rfl
    · exact Or.inr ⟨n, List.mem_append_left _ hn, htarget⟩
  · intro t ht
    exact (h.last t ht).imp_right fun ⟨n, hn, htarget⟩ => ⟨n, List.mem_append_left _ hn, htarget⟩

theorem last_of_start {delivered : Bool} {t u : String}
    (h : (s.sendTo t .startSession delivered).last u = some .startSession) :
    s.last u = some .startSession ∨ u = t := by
  cases delivered with
  | false => exact Or.inl h
  | true =>
    by_cases hut : u = t
    · exact Or.inr hut
    · left
      rw [← h]
      exact (Function.update_of_ne hut _ _).symm

theorem last_of_end {delivered : Bool} {t u : String}
    (h : (s.sendTo t .endSession delivered).last u = some .startSession) :
    s.last u = some .startSession := by
  cases delivered with
  | false => exact h
  | true =>
    have hlast : (s.sendTo t .endSession true).last u =
        if u = t then some .endSession else s.last u := Function.update_apply _ _ _ _
    rw [hlast] at h
    split at h
    · cases h
    · exact h

/-- A report that reaches the attempt it is about, or nobody. -/
theorem Inv.deliver {ready : Bool} (h : Inv s) (hok : ∀ p ∈ s.pendingReady, p = a)
    (hs : s.deliver a ready = some s') : Inv s' := by
  rw [State.deliver] at hs
  cases hp : s.pendingReady with
  | none =>
    rw [hp] at hs
    cases hs
    exact h
  | some p =>
    rw [hp] at hs
    obtain ⟨x, hx, -, rfl⟩ := move_eq_some.mp hs
    obtain ⟨y, hy, hreg⟩ := h.pending p hp
    obtain rfl : y = x := Option.some.inj (hy.symm.trans hx)
    have hself : p = a := hok p hp
    exact h.attemptStep
      { found := hx
        inFlight := Attempt.inFlight_of_isRegistered hreg
        attempts := rfl
        box := rfl
        session := ⟨rfl, rfl, rfl, rfl, rfl⟩
        pending := nofun
        leases := fun _ => id
        last := fun _ => Or.inl
        removed := fun _ => Or.inl
        answered := fun z hz => by
          rcases List.mem_cons.mp hz with rfl | hold
          · exact Or.inr hself
          · exact Or.inl hold }

/-- A step inside `start_transcode` that leaves the registrations alone. -/
theorem Inv.attemptMoves {stage : AttemptStage} (h : Inv s) (hx : s.attempts[a]? = some x)
    (hin : x.inFlight = true) {started : Bool}
    (hreg : Attempt.isRegistered { x with stage, started } = true)
    {last : String → Option Msg}
    (hlast : ∀ t, last t = some .startSession → s.last t = some .startSession ∨ t = x.box) :
    Inv { s.setAttempt a { x with stage, started } with last } :=
  h.attemptStep
    { found := hx
      inFlight := hin
      attempts := rfl
      box := rfl
      session := ⟨rfl, rfl, rfl, rfl, rfl⟩
      pending := fun _ hp => ⟨(h.pending_self hx hin hp).1, hreg⟩
      leases := fun _ => id
      last := hlast
      removed := fun _ => Or.inl
      answered := fun _ => Or.inl }

/-- The drop of `PendingStart` removes the sender, if any its own. -/
theorem Inv.unregister {keep : Bool} (h : Inv s) (hx : s.attempts[a]? = some x)
    (hstage : x.stage = .dropping keep) :
    Inv { s.setAttempt a { x with stage := .dropped keep } with
      pendingReady := none
      removed := s.pendingReady.toList.map (fun p => (a, p)) ++ s.removed } := by
  have hin : x.inFlight = true := by simp [Attempt.inFlight, hstage]
  refine h.attemptStep
    { found := hx
      inFlight := hin
      attempts := rfl
      box := rfl
      session := ⟨rfl, rfl, rfl, rfl, rfl⟩
      pending := nofun
      leases := fun _ => id
      last := fun _ => Or.inl
      removed := fun y hy => ?_
      answered := fun _ => Or.inl }
  rcases List.mem_append.mp hy with hnew | hold
  · obtain ⟨p, hp, rfl⟩ := List.mem_map.mp hnew
    exact Or.inr (h.pending_self hx hin (Option.mem_toList.mp hp)).1.symm
  · exact Or.inl hold

/-- The drop of `PendingStart` removes the leases, if any its own. -/
theorem Inv.unlease {keep : Bool} (h : Inv s) (hx : s.attempts[a]? = some x)
    (hstage : x.stage = .dropped keep) :
    Inv (if keep then s.setAttempt a { x with stage := .over true }
      else
        { s.setAttempt a { x with stage := .over false } with
          tcLeases := none
          removed := s.tcLeases.toList.map (fun p => (a, p)) ++ s.removed }) := by
  have hin : x.inFlight = true := by simp [Attempt.inFlight, hstage]
  have hnone : ∀ p, s.pendingReady ≠ some p := by
    intro p hp
    have hreg := (h.pending_self hx hin hp).2
    simp [Attempt.isRegistered, hstage] at hreg
  cases keep with
  | true =>
    exact h.attemptStep
      { found := hx
        inFlight := hin
        attempts := rfl
        box := rfl
        session := ⟨rfl, rfl, rfl, rfl, rfl⟩
        pending := fun p hp => absurd hp (hnone p)
        leases := fun _ => id
        last := fun _ => Or.inl
        removed := fun _ => Or.inl
        answered := fun _ => Or.inl }
  | false =>
    refine h.attemptStep
      { found := hx
        inFlight := hin
        attempts := rfl
        box := rfl
        session := ⟨rfl, rfl, rfl, rfl, rfl⟩
        pending := fun p hp => absurd hp (hnone p)
        leases := nofun
        last := fun _ => Or.inl
        removed := fun y hy => ?_
        answered := fun _ => Or.inl }
    rcases List.mem_append.mp hy with hnew | hold
    · obtain ⟨p, hp, rfl⟩ := List.mem_map.mp hnew
      exact Or.inr (h.leases a p x hx hin (Option.mem_toList.mp hp)).symm
    · exact Or.inl hold

/-! ## The end -/

/-- While `end` has the lock the slot taken for the session is on its box. -/
theorem Inv.holds_of_closed (h : Inv s) (hclosed : s.stage.isClosed = true) {t : String}
    (ht : t ∈ s.holds) : t = s.box := by
  rcases h.holds t ht with ⟨heq, -⟩ | ⟨n, hn, htarget⟩
  · exact heq
  · rw [(h.closed hclosed).2 n hn] at htarget
    cases htarget

theorem Inv.endLock (h : Inv s) (hseek : s.seek = .idle) (hmoves : ∀ n ∈ s.moves, n = .over) :
    Inv { s with stage := .locked s.box } :=
  { h with
    closed := fun _ => ⟨hseek, hmoves⟩
    endBox := fun _ heq => (Option.some.inj heq).symm
    kept := nofun
    unleased := nofun
    released := nofun
    told := nofun }

theorem Inv.endUnlease (h : Inv s) (hstage : s.stage = .locked tc) :
    Inv { s with stage := .unleased tc, tcLeases := none } :=
  { h with
    leases := nofun
    closed := fun _ => h.closed (by rw [hstage]; rfl)
    endBox := fun t heq => h.endBox t (by rw [hstage]; exact heq)
    kept := nofun
    unleased := fun _ => rfl
    released := nofun
    told := nofun }

theorem Inv.endUnregister (h : Inv s) (hstage : s.stage = .unleased tc) :
    Inv { s with stage := .unregistered tc, pendingReady := none } :=
  { h with
    pending := nofun
    closed := fun _ => h.closed (by rw [hstage]; rfl)
    endBox := fun t heq => h.endBox t (by rw [hstage]; exact heq)
    kept := nofun
    unleased := fun _ => h.unleased (by rw [hstage]; rfl)
    released := nofun
    told := nofun }

theorem Inv.endRelease (h : Inv s) (hstage : s.stage = .unregistered tc) :
    Inv { s.giveBack tc with stage := .released tc } := by
  have hclosed : s.stage.isClosed = true := by
    rw [hstage]
    rfl
  have hbox : tc = s.box := h.endBox tc (by rw [hstage]; rfl)
  exact
    { h with
      holds := fun t ht => h.holds t (Finset.mem_of_mem_erase ht)
      closed := fun _ => h.closed hclosed
      endBox := fun t heq => h.endBox t (by rw [hstage]; exact heq)
      kept := nofun
      unleased := fun _ => h.unleased (by rw [hstage]; rfl)
      released := fun _ => by
        refine Finset.eq_empty_of_forall_notMem fun t ht => Finset.ne_of_mem_erase ht ?_
        rw [hbox]
        exact h.holds_of_closed hclosed (Finset.mem_of_mem_erase ht)
      told := nofun }

theorem Inv.endSend {delivered : Bool} (h : Inv s) (hstage : s.stage = .released tc)
    (htold : delivered = true ∨ s.last tc ≠ some .startSession) :
    Inv { s.sendTo tc .endSession delivered with stage := .done } := by
  have hclosed : s.stage.isClosed = true := by
    rw [hstage]
    rfl
  have hbox : tc = s.box := h.endBox tc (by rw [hstage]; rfl)
  have hlast : (s.sendTo tc .endSession delivered).last tc ≠ some .startSession := by
    intro hstart
    rcases htold with rfl | hne
    · have hend : (s.sendTo tc .endSession true).last tc = some .endSession :=
        Function.update_self _ _ _
      cases hend.symm.trans hstart
    · exact hne (last_of_end hstart)
  exact
    { h with
      last := fun t ht => h.last t (last_of_end ht)
      closed := fun _ => h.closed hclosed
      endBox := nofun
      kept := nofun
      unleased := fun _ => h.unleased (by rw [hstage]; rfl)
      released := fun _ => h.released (by rw [hstage]; rfl)
      told := fun _ => hbox ▸ hlast }

end

end Kahawai.Hub.Sessions.Dispatch
