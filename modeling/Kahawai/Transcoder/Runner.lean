import Mathlib.Logic.Function.Basic
import Kahawai.Lib.Processes
import Kahawai.Lib.Runs
import Kahawai.Lib.Table

/-!
# The runner of a transcoder

`Runner` holds the sessions of one hub link
(`crates/kahawai-transcoder/src/sessions.rs`). The link loop (`lib.rs`, lines
344–360) hands `StartSession` to `start`, which spawns a task, and awaits `end`
for `EndSession`; when the link dies it awaits `end_all`.

A task is cancelled by its abort handle, which takes effect when the task
awaits: `suspended` says that it has yielded at an await point, and a suspended
task that is aborted is dropped without running again. Sends on the link
succeed or are dropped by a dead link; either way they are recorded.

The supervision of a registered run (`watch_death`), pace samples and the
reads of the source are left out.
-/

namespace Kahawai.Transcoder.Runner

open Kahawai.Lib

/-! ## State -/

/-- Where a call of `end` is (lines 476–513). -/
inductive EndStage
  /-- Before it marks the generations. -/
  | marking
  /-- Before it looks into `starting.pending`. -/
  | taking
  /-- In `settle` for an aborted start. -/
  | settling (j : ℕ)
  /-- Before it removes the session. -/
  | removing
  /-- In `run.end` and the send of the logs. -/
  | closing
  deriving DecidableEq

/-- Where the task of a start is (`start`, `start_inner`, lines 219–330). -/
inductive Phase
  | spawned
  /-- Ends the previous run of the id. -/
  | ending (e : EndStage)
  /-- Before it takes its generation. -/
  | numbering
  /-- In `executor.start`. -/
  | executing
  /-- `Job::from_start_session` failed; in the send of the error. -/
  | malformed
  /-- The executor failed; in the send of the error. -/
  | failed
  /-- The executor is ready; before the check of the generation. -/
  | started
  /-- Superseded; in `run.end`. -/
  | stopping
  /-- Before it registers the session. -/
  | registering
  /-- Registered; in the send of `SessionReady`. -/
  | ready
  /-- `start_inner` has returned; before it forgets itself. -/
  | leaving
  /-- Finished or dropped. -/
  | over
  deriving DecidableEq

/-- The phases in which a task awaits. -/
def Phase.awaits : Phase → Bool
  | .spawned | .executing | .malformed | .failed | .stopping | .ready => true
  | .ending (.settling _) | .ending .closing => true
  | _ => false

/-- In `settle`. -/
def Phase.settles : Phase → Bool
  | .ending (.settling _) => true
  | _ => false

structure Start where
  id : String
  phase : Phase
  generation : Option ℕ
  suspended : Bool
  aborted : Bool
  deriving DecidableEq

/-- The abort has not caught the task. -/
def Start.runs (t : Start) : Prop := ¬ (t.suspended = true ∧ t.aborted = true)

instance (t : Start) : Decidable t.runs := inferInstanceAs (Decidable (¬ _))

/-- The latest generation of an id and the last one that was ended. -/
structure Generations where
  latest : ℕ
  ended : ℕ
  deriving DecidableEq

/-- An entry of `starting.pending`. -/
structure Pending where
  id : String
  task : ℕ
  deriving DecidableEq

/-- An entry of `sessions`: the run of a start. -/
structure Session where
  id : String
  start : ℕ
  deriving DecidableEq

/-- A `SessionReady` or `SessionError` that a start sent. -/
structure Verdict where
  start : ℕ
  /-- The generation of the start was ended, or a later start of its id had
      been received. -/
  superseded : Bool
  deriving DecidableEq

/-- Where the link loop is. -/
inductive Link
  | idle
  /-- Awaits `end` for an `EndSession`. -/
  | ending (id : String) (e : EndStage)
  /-- `end_all`: starts left to abort. -/
  | aborting (js : List ℕ)
  | settling (j : ℕ) (js : List ℕ)
  /-- `end_all`: before it marks every generation. -/
  | marking
  /-- `end_all`: before it lists the sessions. -/
  | listing
  /-- `end_all`: ends one session after the other. -/
  | sweeping (id : String) (e : EndStage) (ids : List String)
  | closed
  deriving DecidableEq

structure State where
  starts : List Start
  link : Link
  closed : Bool
  pending : Table Pending.id
  generations : String → Generations
  sessions : Table Session.id
  verdicts : List Verdict
  /-- The ids whose last `EndSession` was handled after their last
      `StartSession`. -/
  quiet : List String

def State.new : State where
  starts := []
  link := .idle
  closed := false
  pending := Table.empty
  generations := fun _ => ⟨0, 0⟩
  sessions := Table.empty
  verdicts := []
  quiet := []

/-! ## Steps -/

def State.setStart (s : State) (i : ℕ) (t : Start) : State :=
  { s with starts := s.starts.set i t }

/-- A task runs on to the next phase. -/
def State.goTo (s : State) (i : ℕ) (t : Start) (phase : Phase) : State :=
  s.setStart i { t with phase, suspended := false }

/-- `g.latest += 1`. -/
def State.bump (s : State) (id : String) : State :=
  { s with generations := Function.update s.generations id { s.generations id with
      latest := (s.generations id).latest + 1 } }

/-- `g.ended = g.latest`; an id without an entry stays at zero. -/
def State.markEnded (s : State) (id : String) : State :=
  { s with generations := Function.update s.generations id { s.generations id with
      ended := (s.generations id).latest } }

def State.markAll (s : State) : State :=
  { s with generations := fun id => ⟨(s.generations id).latest, (s.generations id).latest⟩ }

/-- `AbortHandle::abort`. -/
def State.abort (s : State) (j : ℕ) : State :=
  { s with starts := s.starts.modify j fun t => { t with aborted := true } }

/-- One stage of `end`, run by the start `own` or by the link loop; the second
    component is the next stage, none when `end` returns. -/
def State.advance (s : State) (id : String) (own : Option ℕ) :
    EndStage → Option (State × Option EndStage)
  | .marking => some (s.markEnded id, some .taking)
  | .taking =>
    match s.pending.get? id with
    | none => some (s, some .removing)
    | some p =>
      if own = some p.task then some (s, some .removing)
      else some ({ s.abort p.task with pending := s.pending.erase id }, some (.settling p.task))
  | .settling j =>
    if (s.starts[j]?).any fun t => t.phase = .over then some (s, some .removing) else none
  | .removing =>
    match s.sessions.get? id with
    | none => some (s, none)
    | some _ => some ({ s with sessions := s.sessions.erase id }, some .closing)
  | .closing => some (s, none)

/-- The next session of `end_all`. -/
def Link.sweep : List String → Link
  | [] => .closed
  | id :: ids => .sweeping id .marking ids

/-- The link loop after a stage of an `end` that it awaits. -/
def State.afterStage (s : State) (id : String) : Option EndStage → State
  | some e => { s with link := .ending id e }
  | none => { s with link := .idle, quiet := id :: s.quiet }

/-- `end_all` after a stage of an `end` that it awaits. -/
def State.afterSweep (s : State) (id : String) (ids : List String) : Option EndStage → State
  | some e => { s with link := .sweeping id e ids }
  | none => { s with link := .sweep ids }

/-- The link loop takes its next step. -/
def State.linkNext (s : State) : Option State :=
  match s.link with
  | .idle | .closed => none
  | .ending id e => (s.advance id none e).map fun r => r.1.afterStage id r.2
  | .aborting [] => some { s with link := .marking }
  | .aborting (j :: js) => some { s.abort j with link := .settling j js }
  | .settling j js =>
    if (s.starts[j]?).any fun t => t.phase = .over then some { s with link := .aborting js }
    else none
  | .marking => some { s.markAll with link := .listing }
  | .listing => some { s with link := .sweep (s.sessions.rows.map Session.id) }
  | .sweeping id e ids => (s.advance id none e).map fun r => r.1.afterSweep id ids r.2

/-- `settle` returns after two seconds, the start still there. -/
def State.linkGivesUp (s : State) : Option State :=
  match s.link with
  | .ending id (.settling _) => some { s with link := .ending id .removing }
  | .settling _ js => some { s with link := .aborting js }
  | .sweeping id (.settling _) ids => some { s with link := .sweeping id .removing ids }
  | _ => none

inductive Event
  /-- The link loop receives `StartSession`. -/
  | startSession (id : String)
  /-- The link loop receives `EndSession`. -/
  | endSession (id : String)
  /-- The link dies. -/
  | teardown
  | link
  | linkGivesUp
  /-- A task runs for the first time. -/
  | begin (i : ℕ) (malformed : Bool)
  | ownEnd (i : ℕ)
  | ownGivesUp (i : ℕ)
  | number (i : ℕ)
  /-- `executor.start` returns. -/
  | outcome (i : ℕ) (ready : Bool)
  | check (i : ℕ)
  | stopped (i : ℕ)
  | register (i : ℕ)
  | send (i : ℕ)
  | retain (i : ℕ)
  /-- A task yields at an await point. -/
  | suspend (i : ℕ)
  /-- A suspended task that is aborted is dropped. -/
  | cancel (i : ℕ)
  deriving DecidableEq

/-- The generation of start `i` is ended, or a later start has its id. -/
def State.superseded (s : State) (i : ℕ) (t : Start) : Bool :=
  t.generation.any (fun g => g ≤ (s.generations t.id).ended) ||
    (s.starts.drop (i + 1)).any fun t' => t'.id = t.id

/-- A stage of the `end` that start `i` runs. -/
def State.ownEnd (s : State) (i : ℕ) (t : Start) : Option State :=
  match t.phase with
  | .ending e =>
    (s.advance t.id (some i) e).map fun r =>
      r.1.goTo i t ((r.2.map Phase.ending).getD .numbering)
  | _ => none

/-- One step. -/
def runnerNext (s : State) : Event → Option State
  | .startSession id =>
    if s.link = .idle then
      if s.closed then some s
      else some { s with
        starts := s.starts ++ [⟨id, .spawned, none, true, false⟩]
        pending := s.pending.put ⟨id, s.starts.length⟩
        quiet := s.quiet.filter (· ≠ id) }
    else none
  | .endSession id => if s.link = .idle then some { s with link := .ending id .marking } else none
  | .teardown =>
    if s.link = .idle then
      some { s with
        closed := true
        pending := Table.empty
        link := .aborting (s.pending.rows.map Pending.task) }
    else none
  | .link => s.linkNext
  | .linkGivesUp => s.linkGivesUp
  | .begin i malformed =>
    move s.starts i (fun t => t.phase = .spawned ∧ t.runs) fun t =>
      s.goTo i t (if malformed then .malformed else .ending .marking)
  | .ownEnd i => (s.starts[i]?).bind fun t => if t.runs then s.ownEnd i t else none
  | .ownGivesUp i =>
    move s.starts i (fun t => t.phase.settles ∧ t.runs) fun t =>
      s.goTo i t (.ending .removing)
  | .number i =>
    move s.starts i (fun t => t.phase = .numbering) fun t =>
      (s.bump t.id).goTo i { t with generation := some ((s.generations t.id).latest + 1) } .executing
  | .outcome i ready =>
    move s.starts i (fun t => t.phase = .executing ∧ t.runs) fun t =>
      s.goTo i t (if ready then .started else .failed)
  | .check i =>
    move s.starts i (fun t => t.phase = .started) fun t =>
      let stale := t.generation.any fun g => g ≤ (s.generations t.id).ended
      s.goTo i t (if stale then .stopping else .registering)
  | .stopped i =>
    move s.starts i (fun t => t.phase = .stopping ∧ t.runs) fun t =>
      s.goTo i t .leaving
  | .register i =>
    move s.starts i (fun t => t.phase = .registering) fun t =>
      { s.goTo i t .ready with sessions := s.sessions.put ⟨t.id, i⟩ }
  | .send i =>
    move s.starts i (fun t => (t.phase = .malformed ∨ t.phase = .failed ∨ t.phase = .ready) ∧
      t.runs) fun t =>
      { s.goTo i t .leaving with
        verdicts := s.verdicts ++ [⟨i, s.superseded i t⟩] }
  | .retain i =>
    move s.starts i (fun t => t.phase = .leaving) fun t =>
      { s.goTo i t .over with
        pending := s.pending.filter fun p => p.task ≠ i }
  | .suspend i =>
    move s.starts i (fun t => t.phase.awaits) fun t => s.setStart i { t with suspended := true }
  | .cancel i =>
    move s.starts i (fun t => t.phase.awaits ∧ ¬ t.runs) fun t =>
      s.setStart i { t with phase := .over }

/-- The runner of one link. -/
def runner : Machine State Event := ⟨State.new, runnerNext⟩

end Kahawai.Transcoder.Runner
