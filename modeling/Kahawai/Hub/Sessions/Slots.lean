import Mathlib.Data.Finset.Basic
import Mathlib.Data.Nat.Basic
import Mathlib.Logic.Function.Basic
import Kahawai.Lib.Processes
import Kahawai.Lib.Runs

/-!
# The slots of the transcoders

`tc_load` counts the slots taken on every transcoder
(`crates/kahawai-hub/src/registry.rs`). `place` and `reserve_transcoder` choose
a box and take a slot on it under one set of locks, `tc_session_ended` gives a
slot back and saturates at zero, and the loss of a link removes the count of
its box. A start takes a slot and hands it to its session (`start.rs`,
lines 376–489), `execute_seek` gives one back before it restarts the session on
the same box (`seek.rs`, lines 496–579), `reschedule` gives the old box's slot
back and takes another (`reschedule.rs`), and `end` gives back the slot of the
box the session is on (`mod.rs`, lines 594–691).

`holds` and `cleared` are ghosts: the boxes on which a session holds a slot,
and the boxes whose count a lost link removed. `max_sessions` is a setting of
the box. `choose` ranks the boxes that can take the work; here any connected
box below its capacity may be the one chosen.

Results:
* `slots_exact`: as long as every event is orderly, the count of every box
  whose link was never lost is the number of its holders, and the first event
  that is not orderly breaks this.
* `not_slots_exact`: a seek gives back the slot of a session that goes on, and
  a start whose client went away keeps one.
-/

namespace Kahawai.Hub.Sessions.Slots

open Kahawai.Lib

/-! ## The model -/

/-- A start from `place` to the insert into `active`. -/
structure Start where
  box : String
  inFlight : Bool
  deriving DecidableEq

/-- `execute_seek` of a session, under `seek_lock`. -/
inductive SeekStage
  | idle
  /-- The box is read and sent `EndSession` (lines 497–509). -/
  | ending (tc : String)
  /-- The slot is given back; the run starts again. -/
  | restarting
  deriving DecidableEq

/-- `reschedule_inner` of a session. -/
inductive MoveStage
  /-- `get` found the session (line 67). -/
  | found
  /-- `old_tc` is read (line 77). -/
  | looked (old : String)
  /-- The slot of `old_tc` is given back (line 78). -/
  | released
  /-- `new_tc` is reserved (line 79). -/
  | reserved (new : String)
  | over
  deriving DecidableEq

inductive Stage
  | active
  /-- `end` removed it from `active` and waits for `seek_lock`. -/
  | removed
  /-- `end` returned, or its future was dropped. -/
  | over
  deriving DecidableEq

/-- A dispatched session. -/
structure Session where
  /-- `Mode::Transcode { transcoder }`. -/
  box : String
  stage : Stage
  seek : SeekStage
  moves : List MoveStage
  /-- Ghost: the boxes on which the session holds a slot. -/
  holds : Finset String
  deriving DecidableEq

structure State where
  /-- `tc_load`; a box without an entry has load zero. -/
  load : String → ℕ
  connected : Finset String
  starts : List Start
  sessions : List Session
  /-- Ghost: the boxes whose entry a lost link removed. -/
  cleared : Finset String

def State.new : State := ⟨fun _ => 0, ∅, [], [], ∅⟩

inductive Event
  /-- `register_tc_link`: a new link, or one that replaces a live one. -/
  | connect (t : String)
  /-- `unregister_tc_link_if_current` finds its own link. -/
  | loseLink (t : String)
  /-- `place` chooses a box for a start. -/
  | place (t : String)
  /-- `dispatch_to` fails. -/
  | failStart (i : ℕ)
  /-- The future of a start is dropped. -/
  | dropStart (i : ℕ)
  /-- The session of a start goes into `active`. -/
  | insert (i : ℕ)
  /-- `execute_seek` reads the box. -/
  | seek (i : ℕ)
  /-- `execute_seek` calls `tc_session_ended` (line 510). -/
  | seekRelease (i : ℕ) (tc : String)
  /-- `execute_seek` succeeds, fails or is cancelled. -/
  | seekDone (i : ℕ)
  /-- `reschedule` finds the session. -/
  | reschedule (i : ℕ)
  /-- `reschedule_inner` reads `old_tc`. -/
  | look (i k : ℕ)
  /-- `reschedule_inner` calls `tc_session_ended(&old_tc)`. -/
  | release (i k : ℕ) (old : String)
  /-- No transcoder can take the session. -/
  | refuse (i k : ℕ)
  /-- `reserve_transcoder` takes a slot. -/
  | reserve (i k : ℕ) (new : String)
  /-- `reschedule` fails and gives the slot back (line 56). -/
  | fail (i k : ℕ) (new : String)
  /-- `reschedule` succeeds (lines 133–134). -/
  | finish (i k : ℕ) (new : String)
  /-- `end` removes the session from `active` (line 602). -/
  | end (i : ℕ)
  /-- `end` tears the session down and gives the slot of its box back. -/
  | teardown (i : ℕ)
  /-- The future of `end` is dropped before it has `seek_lock`. -/
  | dropEnd (i : ℕ)
  deriving DecidableEq

/-- A slot of `t` is taken. -/
def State.take (s : State) (t : String) : State :=
  { s with load := Function.update s.load t (s.load t + 1) }

/-- `tc_session_ended`. -/
def State.release (s : State) (t : String) : State :=
  { s with load := Function.update s.load t (s.load t - 1) }

def State.setStart (s : State) (i : ℕ) (st : Start) : State :=
  { s with starts := s.starts.set i st }

def State.setSession (s : State) (i : ℕ) (j : Session) : State :=
  { s with sessions := s.sessions.set i j }

def Session.setMove (j : Session) (k : ℕ) (m : MoveStage) : Session :=
  { j with moves := j.moves.set k m }

/-- The boxes `choose` may return: linked and below their capacity
    (`crates/kahawai-playback/src/placement.rs`, lines 224–257). -/
def State.Eligible (maxSessions : String → ℕ) (s : State) (t : String) : Prop :=
  t ∈ s.connected ∧ (maxSessions t = 0 ∨ s.load t < maxSessions t)

instance (maxSessions : String → ℕ) (s : State) (t : String) :
    Decidable (s.Eligible maxSessions t) :=
  inferInstanceAs (Decidable (_ ∧ _))

/-- One step. -/
def slotsNext (maxSessions : String → ℕ) (s : State) : Event → Option State
  | .connect t => some { s with connected := insert t s.connected }
  | .loseLink t =>
    if t ∈ s.connected then
      some { s with
        connected := s.connected.erase t
        load := Function.update s.load t 0
        cleared := insert t s.cleared }
    else none
  | .place t =>
    if s.Eligible maxSessions t then
      some { s.take t with starts := s.starts ++ [⟨t, true⟩] }
    else none
  | .failStart i =>
    move s.starts i (fun st => st.inFlight) fun st =>
      (s.release st.box).setStart i { st with inFlight := false }
  | .dropStart i =>
    move s.starts i (fun st => st.inFlight) fun st => s.setStart i { st with inFlight := false }
  | .insert i =>
    move s.starts i (fun st => st.inFlight) fun st =>
      { s.setStart i { st with inFlight := false } with
        sessions := s.sessions ++ [⟨st.box, .active, .idle, [], {st.box}⟩] }
  | .seek i =>
    move s.sessions i (fun j => j.stage ≠ .over ∧ j.seek = .idle) fun j =>
      s.setSession i { j with seek := .ending j.box }
  | .seekRelease i tc =>
    move s.sessions i (fun j => j.seek = .ending tc) fun j =>
      (s.release tc).setSession i { j with seek := .restarting }
  | .seekDone i =>
    move s.sessions i (fun j => j.seek ≠ .idle) fun j => s.setSession i { j with seek := .idle }
  | .reschedule i =>
    move s.sessions i (fun j => j.stage = .active) fun j =>
      s.setSession i { j with moves := j.moves ++ [.found] }
  | .look i k =>
    move s.sessions i (fun j => j.moves[k]? = some .found) fun j =>
      s.setSession i (j.setMove k (.looked j.box))
  | .release i k old =>
    move s.sessions i (fun j => j.moves[k]? = some (.looked old)) fun j =>
      (s.release old).setSession i { j.setMove k .released with holds := j.holds.erase old }
  | .refuse i k =>
    move s.sessions i (fun j => j.moves[k]? = some .released) fun j =>
      s.setSession i (j.setMove k .over)
  | .reserve i k new =>
    move s.sessions i (fun j => j.moves[k]? = some .released ∧ s.Eligible maxSessions new) fun j =>
      (s.take new).setSession i { j.setMove k (.reserved new) with holds := insert new j.holds }
  | .fail i k new =>
    move s.sessions i (fun j => j.moves[k]? = some (.reserved new)) fun j =>
      (s.release new).setSession i { j.setMove k .over with holds := j.holds.erase new }
  | .finish i k new =>
    move s.sessions i (fun j => j.moves[k]? = some (.reserved new)) fun j =>
      s.setSession i { j.setMove k .over with box := new }
  | .end i =>
    move s.sessions i (fun j => j.stage = .active) fun j =>
      s.setSession i { j with stage := .removed }
  | .teardown i =>
    move s.sessions i (fun j => j.stage = .removed ∧ j.seek = .idle) fun j =>
      (s.release j.box).setSession i { j with stage := .over }
  | .dropEnd i =>
    move s.sessions i (fun j => j.stage = .removed) fun j =>
      s.setSession i { j with stage := .over }

/-- The slots of boxes with capacities `maxSessions`. -/
def slots (maxSessions : String → ℕ) : Machine State Event := ⟨State.new, slotsNext maxSessions⟩

/-! ## Holders -/

/-- The start holds a slot on `t`. -/
def Start.holding (st : Start) (t : String) : Bool := st.inFlight && st.box = t

/-- The session, its reschedules included, holds a slot on `t`. -/
def Session.holding (j : Session) (t : String) : Bool := j.stage ≠ .over && t ∈ j.holds

/-- The starts in flight and the sessions that hold a slot on `t`. -/
def holders (s : State) (t : String) : ℕ :=
  s.starts.countP (Start.holding · t) + s.sessions.countP (Session.holding · t)

/-- The count of every box whose link was not lost is the number of its holders,
    which respects the capacity; without holders it is zero. -/
def Exact (maxSessions : String → ℕ) (s : State) : Prop :=
  ∀ t ∉ s.cleared, s.load t = holders s t ∧
    (0 < maxSessions t → holders s t ≤ maxSessions t) ∧ (holders s t = 0 → s.load t = 0)

/-! ## Orderly events -/

/-- Nothing is counted on `t`: its link was lost, or its count is zero. -/
def State.Uncounted (s : State) (t : String) : Prop := t ∈ s.cleared ∨ s.load t = 0

instance (s : State) (t : String) : Decidable (s.Uncounted t) :=
  inferInstanceAs (Decidable (_ ∨ _))

/-- A seek gives back only what is not counted, a start is not dropped, a
    reschedule gives back a slot the session still holds and takes one it does
    not hold, and `end` runs to its end and finds the session holding the slot of
    its box and no other. Boxes whose link was lost do not matter. -/
def Orderly (s : State) : Event → Prop
  | .dropStart i => ∀ st ∈ s.starts[i]?, st.box ∈ s.cleared
  | .seekRelease _ tc => s.Uncounted tc
  | .release i _ t | .fail i _ t => ∀ j ∈ s.sessions[i]?, j.holding t ∨ s.Uncounted t
  | .reserve i _ new => ∀ j ∈ s.sessions[i]?,
    (j.stage ≠ .over ∧ new ∉ j.holds) ∨ new ∈ s.cleared
  | .teardown i => ∀ j ∈ s.sessions[i]?,
    (j.holding j.box ∨ s.Uncounted j.box) ∧ ∀ t ∈ j.holds, t = j.box ∨ t ∈ s.cleared
  | .dropEnd i => ∀ j ∈ s.sessions[i]?, ∀ t ∈ j.holds, t ∈ s.cleared
  | _ => True

instance (s : State) : DecidablePred (Orderly s) := fun e =>
  match e with
  | .dropStart i => inferInstanceAs (Decidable (∀ st ∈ s.starts[i]?, st.box ∈ s.cleared))
  | .seekRelease _ tc => inferInstanceAs (Decidable (s.Uncounted tc))
  | .release i _ t | .fail i _ t => inferInstanceAs (Decidable
      (∀ j ∈ s.sessions[i]?, j.holding t ∨ s.Uncounted t))
  | .reserve i _ new => inferInstanceAs (Decidable
      (∀ j ∈ s.sessions[i]?, (j.stage ≠ .over ∧ new ∉ j.holds) ∨ new ∈ s.cleared))
  | .teardown i => inferInstanceAs (Decidable
      (∀ j ∈ s.sessions[i]?, (j.holding j.box ∨ s.Uncounted j.box) ∧
        ∀ t ∈ j.holds, t = j.box ∨ t ∈ s.cleared))
  | .dropEnd i => inferInstanceAs (Decidable
      (∀ j ∈ s.sessions[i]?, ∀ t ∈ j.holds, t ∈ s.cleared))
  | .connect _ | .loseLink _ | .place _ | .failStart _ | .insert _ | .seek _ | .seekDone _
  | .reschedule _ | .look _ _ | .refuse _ _ | .finish _ _ _ | .end _ => .isTrue trivial

/-! ## One step -/

variable {maxSessions : String → ℕ} {s s' : State} {i : ℕ} {st st' : Start} {j j' : Session}
  {t r : String}

theorem load_take : (s.take r).load t = if t = r then s.load r + 1 else s.load t :=
  Function.update_apply _ _ _ _

theorem load_release : (s.release r).load t = if t = r then s.load r - 1 else s.load t :=
  Function.update_apply _ _ _ _

/-- The count of every box whose link was not lost is the number of its holders. -/
def Balanced (s : State) : Prop := ∀ t ∉ s.cleared, s.load t = holders s t

/-- No capacity is exceeded. -/
def Bounded (maxSessions : String → ℕ) (s : State) : Prop :=
  ∀ t, 0 < maxSessions t → s.load t ≤ maxSessions t

theorem exact_iff_balanced (hb : Bounded maxSessions s) : Exact maxSessions s ↔ Balanced s := by
  constructor
  · intro h t ht
    exact (h t ht).1
  · intro h t ht
    have heq := h t ht
    refine ⟨heq, fun hmax => ?_, fun hnone => ?_⟩
    · rw [← heq]
      exact hb t hmax
    · rw [heq, hnone]

theorem Balanced.load_pos (h : Balanced s) (hj : s.sessions[i]? = some j) (ht : t ∉ s.cleared)
    (hold : j.holding t = true) : 0 < s.load t := by
  have hpos : 0 < s.sessions.countP (Session.holding · t) :=
    List.countP_pos_iff.mpr ⟨j, List.mem_of_getElem? hj, hold⟩
  rw [h t ht, holders]
  omega

/-- What balances after a start moved. -/
theorem balanced_setStart_iff (s₁ : State) (h : Balanced s) (hst : s.starts[i]? = some st)
    (hstarts : s₁.starts = s.starts) (hsessions : s₁.sessions = s.sessions)
    (hcleared : s₁.cleared = s.cleared) : Balanced (s₁.setStart i st') ↔
      ∀ t ∉ s.cleared, s₁.load t + (st.holding t).toNat = s.load t + (st'.holding t).toNat := by
  rw [Balanced, show (s₁.setStart i st').cleared = s.cleared from hcleared]
  refine forall₂_congr fun t ht => ?_
  have hcount := countP_set_add (p := st') (c := (Start.holding · t)) hst
  rw [h t ht]
  simp only [holders, State.setStart, hstarts, hsessions]
  omega

/-- What balances after a session moved. -/
theorem balanced_setSession_iff (s₁ : State) (h : Balanced s) (hj : s.sessions[i]? = some j)
    (hstarts : s₁.starts = s.starts) (hsessions : s₁.sessions = s.sessions)
    (hcleared : s₁.cleared = s.cleared) : Balanced (s₁.setSession i j') ↔
      ∀ t ∉ s.cleared, s₁.load t + (j.holding t).toNat = s.load t + (j'.holding t).toNat := by
  rw [Balanced, show (s₁.setSession i j').cleared = s.cleared from hcleared]
  refine forall₂_congr fun t ht => ?_
  have hcount := countP_set_add (p := j') (c := (Session.holding · t)) hj
  rw [h t ht]
  simp only [holders, State.setSession, hstarts, hsessions]
  omega

/-- A session that moves and keeps its slots. -/
theorem Balanced.setSession (h : Balanced s) (hj : s.sessions[i]? = some j)
    (hstage : j'.stage = .over ↔ j.stage = .over) (hholds : j'.holds = j.holds) :
    Balanced (s.setSession i j') := by
  refine (balanced_setSession_iff s h hj rfl rfl rfl).mpr fun t ht => ?_
  simp [Session.holding, hstage, hholds]

/-- A slot of a session that goes on is given back. -/
theorem balanced_seekRelease (h : Balanced s) (hj : s.sessions[i]? = some j)
    (hsame : j'.holding = j.holding) :
    Balanced ((s.release r).setSession i j') ↔ s.Uncounted r := by
  rw [balanced_setSession_iff (s.release r) h hj rfl rfl rfl, hsame]
  constructor
  · intro hall
    by_cases hr : r ∈ s.cleared
    · exact Or.inl hr
    · have heq := hall r hr
      rw [load_release, if_pos rfl] at heq
      exact Or.inr (by omega)
  · intro hnone t ht
    rw [load_release]
    split
    · rename_i htr
      subst htr
      have hzero : s.load t = 0 := hnone.resolve_left ht
      omega
    · rfl

/-- A slot is given back and with it what the session holds on the box. -/
theorem balanced_release (h : Balanced s) (hj : s.sessions[i]? = some j)
    (hstage : j'.stage = j.stage) (hholds : j'.holds = j.holds.erase r) :
    Balanced ((s.release r).setSession i j') ↔ j.holding r = true ∨ s.Uncounted r := by
  rw [balanced_setSession_iff (s.release r) h hj rfl rfl rfl]
  have hgone : j'.holding r = false := by simp [Session.holding, hholds]
  have hother : ∀ t, t ≠ r → j'.holding t = j.holding t := by
    intro t ht
    simp [Session.holding, hstage, hholds, ht]
  constructor
  · intro hall
    by_cases hr : r ∈ s.cleared
    · exact Or.inr (Or.inl hr)
    · have heq := hall r hr
      rw [load_release, if_pos rfl, hgone] at heq
      cases hold : j.holding r
      · rw [hold] at heq
        exact Or.inr (Or.inr (by simp at heq; omega))
      · exact Or.inl rfl
  · intro hheld t ht
    rw [load_release]
    split
    · rename_i htr
      subst htr
      rw [hgone]
      cases hold : j.holding t
      · rw [hold] at hheld
        have hzero : s.load t = 0 := by simpa [State.Uncounted, ht] using hheld
        simp [hzero]
      · have hpos := h.load_pos hj ht hold
        simp
        omega
    · rename_i htr
      rw [hother t htr]

/-- A slot is taken for a session. -/
theorem balanced_reserve (h : Balanced s) (hj : s.sessions[i]? = some j)
    (hstage : j'.stage = j.stage) (hholds : j'.holds = insert r j.holds) :
    Balanced ((s.take r).setSession i j') ↔
      (j.stage ≠ .over ∧ r ∉ j.holds) ∨ r ∈ s.cleared := by
  rw [balanced_setSession_iff (s.take r) h hj rfl rfl rfl]
  have hother : ∀ t, t ≠ r → j'.holding t = j.holding t := by
    intro t ht
    simp [Session.holding, hstage, hholds, ht]
  have hnew : j'.holding r = decide (j.stage ≠ .over) := by
    simp [Session.holding, hstage, hholds]
  constructor
  · intro hall
    by_cases hr : r ∈ s.cleared
    · exact Or.inr hr
    · have heq := hall r hr
      rw [load_take, if_pos rfl, hnew] at heq
      by_cases hover : j.stage = .over
      · simp [hover] at heq
        omega
      · refine Or.inl ⟨hover, fun hmem => ?_⟩
        simp [Session.holding, hover, hmem] at heq
  · intro hfree t ht
    rw [load_take]
    split
    · rename_i htr
      subst htr
      obtain ⟨hstage', hmem⟩ := hfree.resolve_right ht
      have hold : j.holding t = false := by simp [Session.holding, hmem]
      simp [hnew, hstage', hold]
    · rename_i htr
      rw [hother t htr]

/-- The slot of a session's box is given back and the session is over. -/
theorem balanced_teardown (h : Balanced s) (hj : s.sessions[i]? = some j)
    (hstage : j.stage ≠ .over) (hover : j'.stage = .over) :
    Balanced ((s.release j.box).setSession i j') ↔
      (j.holding j.box = true ∨ s.Uncounted j.box) ∧
        ∀ t ∈ j.holds, t = j.box ∨ t ∈ s.cleared := by
  rw [balanced_setSession_iff (s.release j.box) h hj rfl rfl rfl]
  have hgone : ∀ t, j'.holding t = false := by
    intro t
    simp [Session.holding, hover]
  have hholding : ∀ t, j.holding t = decide (t ∈ j.holds) := by
    intro t
    simp [Session.holding, hstage]
  constructor
  · intro hall
    constructor
    · by_cases hbox : j.box ∈ s.cleared
      · exact Or.inr (Or.inl hbox)
      · have heq := hall j.box hbox
        rw [load_release, if_pos rfl, hgone] at heq
        cases hold : j.holding j.box
        · rw [hold] at heq
          exact Or.inr (Or.inr (by simp at heq; omega))
        · exact Or.inl rfl
    · intro t hmem
      by_contra hne
      obtain ⟨hbox, hcleared⟩ := not_or.mp hne
      have heq := hall t hcleared
      rw [load_release, if_neg hbox, hgone, hholding] at heq
      simp [hmem] at heq
  · rintro ⟨hbox, hothers⟩ t ht
    rw [load_release, hgone]
    split
    · rename_i htbox
      rw [← htbox] at hbox ⊢
      cases hold : j.holding t
      · rw [hold] at hbox
        have hzero : s.load t = 0 := by simpa [State.Uncounted, ht] using hbox
        simp [hzero]
      · have hpos := h.load_pos hj ht hold
        simp
        omega
    · rename_i htbox
      have hmem : t ∉ j.holds := fun hmem => (hothers t hmem).elim htbox ht
      simp [hholding, hmem]

/-- A session is over and no slot is given back. -/
theorem balanced_dropEnd (h : Balanced s) (hj : s.sessions[i]? = some j)
    (hstage : j.stage ≠ .over) (hover : j'.stage = .over) :
    Balanced (s.setSession i j') ↔ ∀ t ∈ j.holds, t ∈ s.cleared := by
  rw [balanced_setSession_iff s h hj rfl rfl rfl]
  have hgone : ∀ t, j'.holding t = false := by
    intro t
    simp [Session.holding, hover]
  have hholding : ∀ t, j.holding t = decide (t ∈ j.holds) := by
    intro t
    simp [Session.holding, hstage]
  constructor
  · intro hall t hmem
    by_contra ht
    have heq := hall t ht
    rw [hgone, hholding] at heq
    simp [hmem] at heq
  · intro hcleared t ht
    have hmem : t ∉ j.holds := fun hmem => ht (hcleared t hmem)
    simp [hgone, hholding, hmem]

/-- A start fails and gives its slot back. -/
theorem Balanced.failStart (h : Balanced s) (hst : s.starts[i]? = some st)
    (hflight : st.inFlight = true) :
    Balanced ((s.release st.box).setStart i { st with inFlight := false }) := by
  refine (balanced_setStart_iff (s.release st.box) h hst rfl rfl rfl).mpr fun t ht => ?_
  have hheld : 0 < s.starts.countP (Start.holding · st.box) :=
    List.countP_pos_iff.mpr ⟨st, List.mem_of_getElem? hst, by simp [Start.holding, hflight]⟩
  have hload : st.box ∉ s.cleared → 0 < s.load st.box := by
    intro hbox
    rw [h _ hbox, holders]
    omega
  rw [load_release]
  split
  · rename_i htbox
    subst htbox
    have hpos := hload ht
    simp [Start.holding, hflight]
    omega
  · rename_i htbox
    have hbox : st.box ≠ t := fun heq => htbox heq.symm
    simp [Start.holding, hbox]

/-- A start is over and no slot is given back. -/
theorem balanced_dropStart (h : Balanced s) (hst : s.starts[i]? = some st)
    (hflight : st.inFlight = true) :
    Balanced (s.setStart i { st with inFlight := false }) ↔ st.box ∈ s.cleared := by
  rw [balanced_setStart_iff s h hst rfl rfl rfl]
  constructor
  · intro hall
    by_contra hbox
    have heq := hall st.box hbox
    simp [Start.holding, hflight] at heq
  · intro hbox t ht
    have hne : st.box ≠ t := fun heq => ht (heq ▸ hbox)
    simp [Start.holding, hne]

/-- A start hands its slot to its session. -/
theorem Balanced.insertSession (h : Balanced s) (hst : s.starts[i]? = some st)
    (hflight : st.inFlight = true) :
    Balanced { s.setStart i { st with inFlight := false } with
      sessions := s.sessions ++ [⟨st.box, .active, .idle, [], {st.box}⟩] } := by
  intro t ht
  have hcount := countP_set_add (p := { st with inFlight := false })
    (c := (Start.holding · t)) hst
  have hnew : ([⟨st.box, .active, .idle, [], {st.box}⟩] : List Session).countP
      (Session.holding · t) = (st.holding t).toNat := by
    by_cases htbox : t = st.box
    · simp [Session.holding, Start.holding, hflight, htbox]
    · have hbox : st.box ≠ t := fun heq => htbox heq.symm
      simp [Session.holding, Start.holding, htbox, hbox]
  have hflight' : Start.holding { st with inFlight := false } t = false := by
    simp [Start.holding]
  have hheld := h t ht
  simp only [holders, State.setStart, List.countP_append, hnew] at hheld ⊢
  simp only [hflight', Bool.toNat_false] at hcount
  omega

/-- A start takes a slot. -/
theorem Balanced.place (h : Balanced s) :
    Balanced { s.take r with starts := s.starts ++ [⟨r, true⟩] } := by
  intro t ht
  have hheld := h t ht
  have hnew : ([⟨r, true⟩] : List Start).countP (Start.holding · t) =
      if t = r then 1 else 0 := by
    by_cases htr : t = r
    · simp [Start.holding, htr]
    · have hrt : r ≠ t := fun heq => htr heq.symm
      simp [Start.holding, htr, hrt]
  show (s.take r).load t = _
  rw [load_take]
  simp only [holders, State.take, List.countP_append, hnew] at hheld ⊢
  split
  · rename_i htr
    subst htr
    omega
  · omega

/-- The loss of a link. -/
theorem Balanced.loseLink (h : Balanced s) (r : String) :
    Balanced { s with
      connected := s.connected.erase r
      load := Function.update s.load r 0
      cleared := insert r s.cleared } := by
  intro t ht
  obtain ⟨htr, ht⟩ := not_or.mp (mt Finset.mem_insert.mpr ht)
  show Function.update s.load r 0 t = holders s t
  rw [Function.update_of_ne htr]
  exact h t ht

/-- An event leaves the counts right if and only if it is orderly. -/
theorem balanced_next_iff {e : Event} (h : Balanced s) (hs : slotsNext maxSessions s e = some s') :
    Balanced s' ↔ Orderly s e := by
  cases e with
  | connect t =>
    cases hs
    exact iff_of_true h trivial
  | loseLink t =>
    simp only [slotsNext] at hs
    split at hs
    · cases hs
      exact iff_of_true (h.loseLink t) trivial
    · cases hs
  | place t =>
    simp only [slotsNext] at hs
    split at hs
    · cases hs
      exact iff_of_true h.place trivial
    · cases hs
  | failStart i =>
    obtain ⟨st, hst, hflight, rfl⟩ := move_eq_some.mp hs
    exact iff_of_true (h.failStart hst hflight) trivial
  | dropStart i =>
    obtain ⟨st, hst, hflight, rfl⟩ := move_eq_some.mp hs
    exact Iff.trans (balanced_dropStart h hst hflight) (by simp [Orderly, hst])
  | insert i =>
    obtain ⟨st, hst, hflight, rfl⟩ := move_eq_some.mp hs
    exact iff_of_true (h.insertSession hst hflight) trivial
  | seek i =>
    obtain ⟨j, hj, -, rfl⟩ := move_eq_some.mp hs
    exact iff_of_true (h.setSession hj Iff.rfl rfl) trivial
  | seekRelease i tc =>
    obtain ⟨j, hj, -, rfl⟩ := move_eq_some.mp hs
    exact balanced_seekRelease h hj rfl
  | seekDone i =>
    obtain ⟨j, hj, -, rfl⟩ := move_eq_some.mp hs
    exact iff_of_true (h.setSession hj Iff.rfl rfl) trivial
  | reschedule i =>
    obtain ⟨j, hj, -, rfl⟩ := move_eq_some.mp hs
    exact iff_of_true (h.setSession hj Iff.rfl rfl) trivial
  | look i k =>
    obtain ⟨j, hj, -, rfl⟩ := move_eq_some.mp hs
    exact iff_of_true (h.setSession hj Iff.rfl rfl) trivial
  | release i k old =>
    obtain ⟨j, hj, -, rfl⟩ := move_eq_some.mp hs
    exact Iff.trans (balanced_release h hj rfl rfl) (by simp [Orderly, hj])
  | refuse i k =>
    obtain ⟨j, hj, -, rfl⟩ := move_eq_some.mp hs
    exact iff_of_true (h.setSession hj Iff.rfl rfl) trivial
  | reserve i k new =>
    obtain ⟨j, hj, -, rfl⟩ := move_eq_some.mp hs
    exact Iff.trans (balanced_reserve h hj rfl rfl) (by simp [Orderly, hj])
  | fail i k new =>
    obtain ⟨j, hj, -, rfl⟩ := move_eq_some.mp hs
    exact Iff.trans (balanced_release h hj rfl rfl) (by simp [Orderly, hj])
  | finish i k new =>
    obtain ⟨j, hj, -, rfl⟩ := move_eq_some.mp hs
    exact iff_of_true (h.setSession hj Iff.rfl rfl) trivial
  | «end» i =>
    obtain ⟨j, hj, hactive, rfl⟩ := move_eq_some.mp hs
    exact iff_of_true (h.setSession hj (by simp [hactive]) rfl) trivial
  | teardown i =>
    obtain ⟨j, hj, ⟨hremoved, -⟩, rfl⟩ := move_eq_some.mp hs
    exact Iff.trans (balanced_teardown h hj (by simp [hremoved]) rfl) (by simp [Orderly, hj])
  | dropEnd i =>
    obtain ⟨j, hj, hremoved, rfl⟩ := move_eq_some.mp hs
    exact Iff.trans (balanced_dropEnd h hj (by simp [hremoved]) rfl) (by simp [Orderly, hj])

/-- No event takes a count over its capacity. -/
theorem Bounded.next {e : Event} (h : Bounded maxSessions s)
    (hs : slotsNext maxSessions s e = some s') : Bounded maxSessions s' := by
  have htake : ∀ {r}, s.Eligible maxSessions r → Bounded maxSessions (s.take r) := by
    intro r hr t hmax
    rw [load_take]
    split
    · rename_i htr
      subst htr
      exact hr.2.resolve_left (by omega)
    · exact h t hmax
  have hrelease : ∀ r, Bounded maxSessions (s.release r) := by
    intro r t hmax
    rw [load_release]
    split
    · rename_i htr
      subst htr
      have hle := h t hmax
      omega
    · exact h t hmax
  cases e with
  | connect t =>
    cases hs
    exact h
  | loseLink r =>
    simp only [slotsNext] at hs
    split at hs
    · cases hs
      intro t hmax
      show Function.update s.load r 0 t ≤ maxSessions t
      rw [Function.update_apply]
      split
      · exact Nat.zero_le _
      · exact h t hmax
    · cases hs
  | place r =>
    simp only [slotsNext] at hs
    split at hs
    · rename_i hr
      cases hs
      exact htake hr
    · cases hs
  | reserve i k new =>
    obtain ⟨j, -, ⟨-, hnew⟩, rfl⟩ := move_eq_some.mp hs
    exact htake hnew
  | failStart _ | seekRelease _ _ | release _ _ _ | fail _ _ _ | teardown _ =>
    obtain ⟨_, -, -, rfl⟩ := move_eq_some.mp hs
    exact hrelease _
  | dropStart _ | insert _ | seek _ | seekDone _ | reschedule _ | look _ _ | refuse _ _
  | finish _ _ _ | «end» _ | dropEnd _ =>
    obtain ⟨_, -, -, rfl⟩ := move_eq_some.mp hs
    exact h

theorem inv_of_reaches (h : (slots maxSessions).Reaches Orderly s) :
    Balanced s ∧ Bounded maxSessions s := by
  refine h.invariant (I := fun s => Balanced s ∧ Bounded maxSessions s) ?_ ?_
  · exact ⟨fun _ _ => rfl, fun _ _ => Nat.zero_le _⟩
  · intro a e b ha hok hb
    exact ⟨(balanced_next_iff ha.1 hb).mpr hok, ha.2.next hb⟩

/-! ## The counts -/

/-- In a run whose events are all orderly, the count of every box whose link was
    not lost is the number of the sessions and starts that hold a slot on it, a
    box with a capacity has no more of them, and a box without any has count
    zero. The next event keeps all this if and only if it is orderly too. -/
theorem slots_exact (h : (slots maxSessions).Reaches Orderly s) :
    (∀ t ∉ s.cleared, s.load t = holders s t ∧
      (0 < maxSessions t → holders s t ≤ maxSessions t) ∧ (holders s t = 0 → s.load t = 0)) ∧
    ∀ e s', slotsNext maxSessions s e = some s' → (Exact maxSessions s' ↔ Orderly s e) := by
  obtain ⟨hbal, hbound⟩ := inv_of_reaches h
  refine ⟨(exact_iff_balanced hbound).mpr hbal, fun e s' hs => ?_⟩
  rw [exact_iff_balanced (hbound.next hs)]
  exact balanced_next_iff hbal hs

/-- A run on two boxes: a start fails, another becomes a session, its worker
    dies, the session moves to the other box and ends there. -/
def movedRun : List Event :=
  [.connect "a", .connect "b", .place "a", .failStart 0, .place "a", .insert 1,
    .reschedule 0, .look 0 0, .release 0 0 "a", .reserve 0 0 "b", .finish 0 0 "b", .place "a",
    .end 0]

/-- After it one slot of each box is taken, by a start and by a session that is
    ending; `end` gives the latter back. -/
theorem slots_exact_moved : ∃ s s', (slots fun _ => 1).replay (fun s e => decide (Orderly s e))
      movedRun State.new = some s ∧ s.load "a" = holders s "a" ∧ s.load "b" = holders s "b" ∧
      slotsNext (fun _ => 1) s (.teardown 0) = some s' ∧ Exact (fun _ => 1) s' := by
  have hrun : (((slots fun _ => 1).replay (fun s e => decide (Orderly s e)) movedRun
      State.new).bind fun s => if s.cleared = ∅ ∧ Orderly s (.teardown 0) then
        slotsNext (fun _ => 1) s (.teardown 0) else none).isSome := by
    decide
  obtain ⟨s', hs'⟩ := Option.isSome_iff_exists.mp hrun
  obtain ⟨s, hs, hnext⟩ := Option.bind_eq_some_iff.mp hs'
  split at hnext
  · rename_i hguard
    obtain ⟨hcleared, horderly⟩ := hguard
    have hreach := (Machine.reaches_of_replay hs).mono fun _ _ => of_decide_eq_true
    have hexact := slots_exact hreach
    have hkept : ∀ t, t ∉ s.cleared := by simp [hcleared]
    exact ⟨s, s', hs, (hexact.1 "a" (hkept "a")).1, (hexact.1 "b" (hkept "b")).1, hnext,
      (hexact.2 _ s' hnext).mpr horderly⟩
  · cases hnext

/-- A seek of a session on a box of capacity one; another start is placed. -/
def seekRun : List Event :=
  [.connect "a", .place "a", .insert 0, .seek 0, .seekRelease 0 "a", .seekDone 0, .place "a"]

/-- A start whose client goes away while the box starts up. -/
def droppedRun : List Event := [.connect "a", .place "a", .dropStart 0]

/-- With a capacity of one, a seek leaves the box to a second start while the
    session is still on it; a dropped start leaves its slot taken for good. -/
theorem not_slots_exact :
    (((slots fun _ => 1).replay (fun _ _ => true) seekRun State.new).any fun s =>
      "a" ∈ s.connected && "a" ∉ s.cleared && holders s "a" = 2 && s.load "a" = 1) = true ∧
    (((slots fun _ => 1).replay (fun _ _ => true) droppedRun State.new).any fun s =>
      "a" ∈ s.connected && "a" ∉ s.cleared && holders s "a" = 0 && s.load "a" = 1) = true := by
  decide

end Kahawai.Hub.Sessions.Slots
