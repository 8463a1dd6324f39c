import Mathlib.Data.Finset.Basic
import Mathlib.Logic.Function.Basic
import Kahawai.Lib.Processes
import Kahawai.Lib.Runs

/-!
# Dispatch attempts on one session

`start_transcode` registers the leases and the readiness sender of an attempt
under the session id, sends `StartSession` and waits for the verdict; the drop
of its `PendingStart` removes both registrations again, the leases only if the
attempt failed (`crates/kahawai-hub/src/sessions/dispatch.rs`, lines 73–170 and
303–318). Attempts are made by the seek executor under `seek_lock` (`seek.rs`,
lines 496–579), and by reschedules, which take no lock (`reschedule.rs`, lines
61–137). `end` removes the session, takes `seek_lock`, clears the registrations
and ends the run on the session's box (`mod.rs`, lines 594–691).

The model is one session that a start has dispatched to a box. Opening leases
and every send may fail at any time; a send that fails is not delivered. A seek
may fall back to another attempt any number of times. A transcoder may report
on a `StartSession` it received at any time after it, and any number of times.
-/

namespace Kahawai.Hub.Sessions.Dispatch

open Kahawai.Lib

/-! ## The model -/

inductive Msg
  | startSession
  | endSession
  deriving DecidableEq

/-- Where a call of `start_transcode` is. -/
inductive AttemptStage
  /-- The leases are in `tc_leases` (line 118). -/
  | leased
  /-- The sender is in `pending_ready` (line 122). -/
  | registered
  /-- `StartSession` is sent (line 129). -/
  | waiting
  /-- No verdict came, or the sender is gone; `EndSession` is being sent (line 144). -/
  | closing
  /-- `PendingStart` is being dropped, with its `keep_leases`. -/
  | dropping (keepLeases : Bool)
  /-- `drop` removed the sender (line 313). -/
  | dropped (keepLeases : Bool)
  | over (ready : Bool)
  deriving DecidableEq

structure Attempt where
  box : String
  stage : AttemptStage
  /-- The box received the `StartSession`. -/
  started : Bool
  /-- What is in the receiver. -/
  verdict : Option Bool
  deriving DecidableEq

/-- `execute_seek`, under `seek_lock`. -/
inductive SeekStage
  | idle
  /-- The box is read (line 497). -/
  | ending (tc : String)
  /-- `EndSession` is sent, or could not be (line 499). -/
  | ended (tc : String)
  /-- The slot is given back (line 510). -/
  | released (tc : String)
  /-- The leases are taken out of `tc_leases` (line 515). -/
  | opening (tc : String)
  /-- In `start_transcode`. -/
  | attempting (tc : String) (attempt : ℕ)
  deriving DecidableEq

/-- `reschedule`. -/
inductive MoveStage
  /-- `get` found the session (line 67). -/
  | found
  /-- `old_tc` is read (line 77). -/
  | looked (old : String)
  /-- The slot of `old_tc` is given back (line 78). -/
  | released
  /-- `new_tc` is reserved (line 79). -/
  | reserved (new : String)
  /-- The leases are taken out of `tc_leases` (line 100). -/
  | opening (new : String)
  /-- In `start_transcode`. -/
  | attempting (new : String) (attempt : ℕ)
  | over
  deriving DecidableEq

/-- `end`. -/
inductive EndStage
  /-- The session is in `active`. -/
  | active
  /-- Removed, waiting for `seek_lock` (line 620). -/
  | removed
  /-- Under `seek_lock`, with the box it read (line 658). -/
  | locked (tc : String)
  /-- Line 659. -/
  | unleased (tc : String)
  /-- Line 660. -/
  | unregistered (tc : String)
  /-- The slot is given back; `EndSession` is being sent (line 666). -/
  | released (tc : String)
  | done
  /-- The future of `end` was dropped before it had the lock. -/
  | dropped
  deriving DecidableEq

structure State where
  /-- `Mode::Transcode { transcoder }`. -/
  box : String
  stage : EndStage
  seek : SeekStage
  moves : List MoveStage
  /-- All attempts, in the order of their registrations; the first is the start's. -/
  attempts : List Attempt
  /-- `pending_ready[id]`: the attempt that holds the receiver. -/
  pendingReady : Option ℕ
  /-- `tc_leases[id]`: the attempt that inserted the leases. -/
  tcLeases : Option ℕ
  /-- The boxes on which a slot is taken for the session. -/
  holds : Finset String
  /-- The last message about the session that was sent to a box. -/
  last : String → Option Msg
  /-- Ghost: an attempt whose drop removed a registration, and the attempt that made it. -/
  removed : List (ℕ × ℕ)
  /-- Ghost: an attempt that consumed a verdict, and the attempt the verdict is about. -/
  answered : List (ℕ × ℕ)

/-- The session right after its start was dispatched to `tc`. -/
def State.new (tc : String) : State where
  box := tc
  stage := .active
  seek := .idle
  moves := []
  attempts := [⟨tc, .over true, true, none⟩]
  pendingReady := none
  tcLeases := some 0
  holds := {tc}
  last := Function.update (fun _ => none) tc (some .startSession)
  removed := []
  answered := []

inductive Event
  /-- `start_transcode` registers its sender. -/
  | register (a : ℕ)
  /-- `start_transcode` sends `StartSession`. -/
  | send (a : ℕ) (delivered : Bool)
  /-- `transcode_verdict` for a report on the `StartSession` of `a`. -/
  | verdict (a : ℕ) (ready : Bool)
  /-- The receiver yields the verdict. -/
  | hear (a : ℕ)
  /-- The 40 s are over, or the sender is gone. -/
  | giveUp (a : ℕ)
  /-- `start_transcode` sends `EndSession`. -/
  | close (a : ℕ) (delivered : Bool)
  /-- The future of `start_transcode` is dropped. -/
  | cancel (a : ℕ)
  /-- `PendingStart::drop` removes the sender. -/
  | unregister (a : ℕ) (keepLeases : Bool)
  /-- `PendingStart::drop` removes the leases unless it keeps them. -/
  | unlease (a : ℕ) (keepLeases : Bool)
  /-- `execute_seek` reads the box. -/
  | seek
  | seekEnd (tc : String) (delivered : Bool)
  | seekRelease (tc : String)
  | seekTake (tc : String)
  /-- `execute_seek` calls `start_transcode`. -/
  | seekStart (tc : String)
  /-- The attempt failed; the fallback sink is tried. -/
  | seekRetry (tc : String) (a : ℕ)
  /-- `execute_seek` succeeds, fails, or is dropped by `until_session_ends`. -/
  | seekDone
  /-- `reschedule` finds the session. -/
  | reschedule
  | look (k : ℕ)
  | release (k : ℕ) (old : String)
  /-- No transcoder can take the session. -/
  | refuse (k : ℕ)
  | reserve (k : ℕ) (new : String)
  | take (k : ℕ) (new : String)
  /-- `reschedule_inner` calls `start_transcode`. -/
  | begin (k : ℕ) (new : String)
  /-- The attempt succeeded; the session is on the new box. -/
  | finish (k : ℕ) (new : String) (a : ℕ)
  /-- `reschedule` fails and gives the slot back. -/
  | fail (k : ℕ) (new : String)
  /-- The future of `reschedule` is dropped. -/
  | cancelMove (k : ℕ)
  /-- `end` removes the session from `active`. -/
  | remove
  /-- `end` takes `seek_lock` and reads the box. -/
  | endLock
  | endUnlease (tc : String)
  | endUnregister (tc : String)
  | endRelease (tc : String)
  | endSend (tc : String) (delivered : Bool)
  /-- The future of `end` is dropped. -/
  | dropEnd
  deriving DecidableEq

def State.setAttempt (s : State) (a : ℕ) (x : Attempt) : State :=
  { s with attempts := s.attempts.set a x }

def State.setMove (s : State) (k : ℕ) (m : MoveStage) : State :=
  { s with moves := s.moves.set k m }

/-- A message about the session that is delivered or lost. -/
def State.sendTo (s : State) (t : String) (msg : Msg) (delivered : Bool) : State :=
  { s with last := if delivered then Function.update s.last t (some msg) else s.last }

/-- `tc_session_ended`. -/
def State.giveBack (s : State) (t : String) : State := { s with holds := s.holds.erase t }

/-- A call of `start_transcode` inserts its leases. -/
def State.newAttempt (s : State) (t : String) : State :=
  { s with
    attempts := s.attempts ++ [⟨t, .leased, false, none⟩]
    tcLeases := some s.attempts.length }

/-- Attempt `a` has returned. -/
def State.returned (s : State) (a : ℕ) (ready : Bool) : Prop :=
  ∃ x ∈ s.attempts[a]?, x.stage = .over ready

instance (s : State) (a : ℕ) (ready : Bool) : Decidable (s.returned a ready) :=
  inferInstanceAs (Decidable (∃ x ∈ s.attempts[a]?, x.stage = .over ready))

/-- The places where `execute_seek` may stop: an `await`, or the end. -/
def State.seekStops (s : State) : SeekStage → Prop
  | .ending _ | .opening _ => True
  | .attempting _ a => s.returned a true ∨ s.returned a false
  | .idle | .ended _ | .released _ => False

instance (s : State) : DecidablePred s.seekStops := fun k =>
  match k with
  | .ending _ | .opening _ => .isTrue trivial
  | .attempting _ a => inferInstanceAs (Decidable (s.returned a true ∨ s.returned a false))
  | .idle | .ended _ | .released _ => .isFalse nofun

/-- The places where `reschedule` may fail with a slot of `new`. -/
def State.moveFails (s : State) (new : String) : MoveStage → Prop
  | .reserved t | .opening t => t = new
  | .attempting t a => t = new ∧ s.returned a false
  | .found | .looked _ | .released | .over => False

instance (s : State) (new : String) : DecidablePred (s.moveFails new) := fun m =>
  match m with
  | .reserved t | .opening t => inferInstanceAs (Decidable (t = new))
  | .attempting t a => inferInstanceAs (Decidable (t = new ∧ s.returned a false))
  | .found | .looked _ | .released | .over => .isFalse nofun

/-- The places where the future of `reschedule` may be dropped. -/
def State.moveWaits (s : State) : MoveStage → Prop
  | .opening _ => True
  | .attempting _ a => s.returned a true ∨ s.returned a false
  | .found | .looked _ | .released | .reserved _ | .over => False

instance (s : State) : DecidablePred s.moveWaits := fun m =>
  match m with
  | .opening _ => .isTrue trivial
  | .attempting _ a => inferInstanceAs (Decidable (s.returned a true ∨ s.returned a false))
  | .found | .looked _ | .released | .reserved _ | .over => .isFalse nofun

/-- `transcode_verdict` for a report on the `StartSession` of `a`. -/
def State.deliver (s : State) (a : ℕ) (ready : Bool) : Option State :=
  match s.pendingReady with
  | none => some s
  | some p =>
    move s.attempts p (fun _ => True) fun x =>
      { s.setAttempt p { x with verdict := some ready } with
        pendingReady := none
        answered := (p, a) :: s.answered }

/-- One step. -/
def dispatchNext (s : State) : Event → Option State
  | .register a =>
    move s.attempts a (fun x => x.stage = .leased) fun x =>
      { s.setAttempt a { x with stage := .registered } with pendingReady := some a }
  | .send a delivered =>
    move s.attempts a (fun x => x.stage = .registered) fun x =>
      (s.sendTo x.box .startSession delivered).setAttempt a
        { x with stage := if delivered then .waiting else .dropping false, started := delivered }
  | .verdict a ready =>
    (move s.attempts a (fun x => x.started) fun _ => s.deliver a ready).join
  | .hear a =>
    move s.attempts a (fun x => x.stage = .waiting ∧ x.verdict.isSome) fun x =>
      s.setAttempt a { x with stage := .dropping (x.verdict.getD false) }
  | .giveUp a =>
    move s.attempts a (fun x => x.stage = .waiting ∧ x.verdict = none) fun x =>
      s.setAttempt a { x with stage := .closing }
  | .close a delivered =>
    move s.attempts a (fun x => x.stage = .closing) fun x =>
      (s.sendTo x.box .endSession delivered).setAttempt a { x with stage := .dropping false }
  | .cancel a =>
    move s.attempts a (fun x => x.stage = .registered ∨ x.stage = .waiting ∨ x.stage = .closing)
      fun x => s.setAttempt a { x with stage := .dropping false }
  | .unregister a keep =>
    move s.attempts a (fun x => x.stage = .dropping keep) fun x =>
      { s.setAttempt a { x with stage := .dropped keep } with
        pendingReady := none
        removed := s.pendingReady.toList.map (fun p => (a, p)) ++ s.removed }
  | .unlease a keep =>
    move s.attempts a (fun x => x.stage = .dropped keep) fun x =>
      if keep then s.setAttempt a { x with stage := .over true }
      else
        { s.setAttempt a { x with stage := .over false } with
          tcLeases := none
          removed := s.tcLeases.toList.map (fun p => (a, p)) ++ s.removed }
  | .seek =>
    if s.seek = .idle ∧ (s.stage = .active ∨ s.stage = .removed) then
      some { s with seek := .ending s.box }
    else none
  | .seekEnd tc delivered =>
    if s.seek = .ending tc then
      some { s.sendTo tc .endSession delivered with seek := .ended tc }
    else none
  | .seekRelease tc =>
    if s.seek = .ended tc then some { s.giveBack tc with seek := .released tc } else none
  | .seekTake tc =>
    if s.seek = .released tc then some { s with seek := .opening tc, tcLeases := none } else none
  | .seekStart tc =>
    if s.seek = .opening tc then
      some { s.newAttempt tc with seek := .attempting tc s.attempts.length }
    else none
  | .seekRetry tc a =>
    if s.seek = .attempting tc a ∧ s.returned a false then some { s with seek := .opening tc }
    else none
  | .seekDone => if s.seekStops s.seek then some { s with seek := .idle } else none
  | .reschedule =>
    if s.stage = .active then some { s with moves := s.moves ++ [.found] } else none
  | .look k =>
    move s.moves k (fun m => m = .found) fun _ => s.setMove k (.looked s.box)
  | .release k old =>
    move s.moves k (fun m => m = .looked old) fun _ => (s.giveBack old).setMove k .released
  | .refuse k =>
    move s.moves k (fun m => m = .released) fun _ => s.setMove k .over
  | .reserve k new =>
    move s.moves k (fun m => m = .released) fun _ =>
      { s.setMove k (.reserved new) with holds := insert new s.holds }
  | .take k new =>
    move s.moves k (fun m => m = .reserved new) fun _ =>
      { s.setMove k (.opening new) with tcLeases := none }
  | .begin k new =>
    move s.moves k (fun m => m = .opening new) fun _ =>
      (s.newAttempt new).setMove k (.attempting new s.attempts.length)
  | .finish k new a =>
    move s.moves k (fun m => m = .attempting new a ∧ s.returned a true) fun _ =>
      { s.setMove k .over with box := new }
  | .fail k new =>
    move s.moves k (fun m => s.moveFails new m) fun _ => (s.giveBack new).setMove k .over
  | .cancelMove k =>
    move s.moves k (fun m => s.moveWaits m) fun _ => s.setMove k .over
  | .remove => if s.stage = .active then some { s with stage := .removed } else none
  | .endLock =>
    if s.stage = .removed ∧ s.seek = .idle then some { s with stage := .locked s.box } else none
  | .endUnlease tc =>
    if s.stage = .locked tc then some { s with stage := .unleased tc, tcLeases := none } else none
  | .endUnregister tc =>
    if s.stage = .unleased tc then
      some { s with stage := .unregistered tc, pendingReady := none }
    else none
  | .endRelease tc =>
    if s.stage = .unregistered tc then some { s.giveBack tc with stage := .released tc }
    else none
  | .endSend tc delivered =>
    if s.stage = .released tc then
      some { s.sendTo tc .endSession delivered with stage := .done }
    else none
  | .dropEnd => if s.stage = .removed then some { s with stage := .dropped } else none

/-- The operations on a session dispatched to `tc`. -/
def dispatch (tc : String) : Machine State Event := ⟨State.new tc, dispatchNext⟩

/-- The attempt has not returned. -/
def Attempt.inFlight (x : Attempt) : Bool :=
  match x.stage with
  | .over _ => false
  | _ => true

/-- `end` has returned, or its future is gone, and every operation is over. -/
structure State.Finished (s : State) : Prop where
  stage : s.stage = .done ∨ s.stage = .dropped
  seek : s.seek = .idle
  moves : ∀ m ∈ s.moves, m = .over
  attempts : ∀ x ∈ s.attempts, x.inFlight = false

instance (s : State) : Decidable s.Finished :=
  decidable_of_iff ((s.stage = .done ∨ s.stage = .dropped) ∧ s.seek = .idle ∧
    (∀ m ∈ s.moves, m = .over) ∧ ∀ x ∈ s.attempts, x.inFlight = false)
    ⟨fun ⟨h₁, h₂, h₃, h₄⟩ => ⟨h₁, h₂, h₃, h₄⟩, fun ⟨h₁, h₂, h₃, h₄⟩ => ⟨h₁, h₂, h₃, h₄⟩⟩

/-! ## Orderly events -/

/-- No attempt is made while another is in flight, and no report on an earlier
    `StartSession` arrives while an attempt waits for its own. Reschedules do not
    overlap each other or the teardown, and none is dropped. A box that loses the
    session to a reschedule, or is given up by one, is told before that, or is
    not told because it is the box the session is on. `end` is not dropped, and
    its `EndSession` is delivered unless the box was told before. -/
def Orderly (s : State) : Event → Prop
  | .seekStart _ | .begin _ _ => ∀ x ∈ s.attempts, x.inFlight = false
  | .verdict a _ => ∀ p ∈ s.pendingReady, p = a
  | .reschedule | .endLock => ∀ m ∈ s.moves, m = .over
  | .finish _ new _ => new = s.box ∨ (s.seek = .idle ∧ s.last s.box ≠ some .startSession)
  | .fail _ new => new = s.box ∨ s.last new ≠ some .startSession
  | .endSend tc delivered => delivered = true ∨ s.last tc ≠ some .startSession
  | .cancelMove _ | .dropEnd => False
  | _ => True

instance (s : State) : DecidablePred (Orderly s) := fun e =>
  match e with
  | .seekStart _ | .begin _ _ =>
    inferInstanceAs (Decidable (∀ x ∈ s.attempts, x.inFlight = false))
  | .verdict a _ => inferInstanceAs (Decidable (∀ p ∈ s.pendingReady, p = a))
  | .reschedule | .endLock => inferInstanceAs (Decidable (∀ m ∈ s.moves, m = .over))
  | .finish _ new _ => inferInstanceAs (Decidable
      (new = s.box ∨ (s.seek = .idle ∧ s.last s.box ≠ some .startSession)))
  | .fail _ new => inferInstanceAs (Decidable
      (new = s.box ∨ s.last new ≠ some .startSession))
  | .endSend tc delivered => inferInstanceAs (Decidable
      (delivered = true ∨ s.last tc ≠ some .startSession))
  | .cancelMove _ | .dropEnd => .isFalse nofun
  | .register _ | .send _ _ | .hear _ | .giveUp _ | .close _ _ | .cancel _ | .unregister _ _
  | .unlease _ _ | .seek | .seekEnd _ _ | .seekRelease _ | .seekTake _ | .seekRetry _ _ | .seekDone
  | .look _ | .release _ _ | .refuse _ | .reserve _ _ | .take _ _ | .remove | .endUnlease _
  | .endUnregister _ | .endRelease _ => .isTrue trivial

end Kahawai.Hub.Sessions.Dispatch
