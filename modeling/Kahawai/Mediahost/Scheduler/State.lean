import Kahawai.Lib.Table
import Mathlib.Algebra.GroupWithZero.Nat
import Mathlib.Data.List.Sort
import Mathlib.Data.Finset.Basic
import Mathlib.Data.Prod.Lex
import Mathlib.Order.Fin.Basic

/-!
# The media work scheduler

Model of `crates/kahawai-mediahost/src/scheduler.rs`: the state behind the
scheduler's mutex and the operations that run under it. One operation is one
critical section. Labels, which only reach the trace log, are left out, and
so are the condition variable and the task notifier of `Control`
(`WaitBlocking` models their protocol).

Every operation but `enter_interactive` ends in `request_preemption` followed
by `dispatch`. `dispatch` is a loop; `dispatchLoop` runs it for a given number
of turns and `dispatch` runs it once for each pending job, which is enough for
it to reach its `break` (`admitNext_dispatch` in `Priority`).
-/

namespace Kahawai.Mediahost.Scheduler

open Kahawai.Lib

/-! ## Jobs -/

/-- `enum Priority` (lines 33–46). -/
inductive Priority
  | demand
  | catalogFreshness
  | attachments
  | keyframes
  | geometry
  | localMetadata
  | ed2k
  | subtitlePrewarm
  | segments
  | loudness
  deriving DecidableEq, Repr

/-- The discriminants of `#[repr(u8)] enum Priority`. -/
def Priority.discriminant : Priority → ℕ
  | demand => 0
  | catalogFreshness => 1
  | attachments => 2
  | keyframes => 3
  | geometry => 4
  | localMetadata => 5
  | ed2k => 6
  | subtitlePrewarm => 7
  | segments => 8
  | loudness => 9

theorem Priority.discriminant_injective : Function.Injective Priority.discriminant := by
  intro a b h
  cases a <;> cases b <;> simp_all [Priority.discriminant]

/-- The derived `Ord`: a smaller priority is more urgent. -/
instance : LinearOrder Priority :=
  LinearOrder.lift' Priority.discriminant Priority.discriminant_injective

/-- `struct Resources` (lines 48–53). -/
structure Resources where
  cpu : ℕ
  io : Finset String
  exclusive : Finset String
  deriving DecidableEq

/-- `Resources::conflicts` (lines 56–60). -/
def Resources.conflicts (a b : Resources) : Bool :=
  (a.cpu ≠ 0 && b.cpu ≠ 0) || !decide (Disjoint a.io b.io) ||
    !decide (Disjoint a.exclusive b.exclusive)

/-- The flags of `struct Control` (lines 68–75). -/
structure Control where
  granted : Bool
  pause : Bool
  cancelled : Bool
  deriving DecidableEq

/-- `Control::default` (lines 77–88). -/
def Control.default : Control := ⟨false, false, false⟩

/-- A collection, a root token and a path: what a hint names. -/
abbrev Source := String × String × String

/-- `struct Pending` and `struct Active` (lines 122–144), which have the same
    fields; an active job's `id` is its key in `State.active`. -/
structure Job where
  id : ℕ
  sequence : ℕ
  priority : Priority
  basePriority : Priority
  resources : Resources
  owner : Option String
  control : Control
  demandSources : Finset Source
  deriving DecidableEq

/-- An entry of `State.interactive`. -/
structure Interactive where
  id : ℕ
  resources : Resources
  deriving DecidableEq

/-- An entry of `State.hints`. -/
structure Hint where
  owner : String
  source : Source
  expires : ℕ
  deriving DecidableEq

/-- The key of `State.hints`. -/
def Hint.key (h : Hint) : String × Source := (h.owner, h.source)

/-- The key of `State.served`. -/
abbrev Lane := Priority × Option String

/-- The lane a job waits in. -/
def Job.lane (job : Job) : Lane := (job.priority, job.owner)

/-! ## State -/

/-- `struct State` (lines 146–158). `served` reads as zero where the map has no
    entry, which is how the code reads it. -/
structure State where
  nextId : ℕ
  nextSequence : ℕ
  cpuCapacity : ℕ
  ioCapacity : String → Option ℕ
  pending : List Job
  active : Table Job.id
  served : Lane → ℕ
  interactive : Table Interactive.id
  hints : Table Hint.key

namespace State

/-- The state built by `Scheduler::new` (lines 266–280). -/
def new (cpuSlots : ℕ) (ioCapacity : String → Option ℕ) : State where
  nextId := 1
  nextSequence := 1
  cpuCapacity := cpuSlots
  ioCapacity := ioCapacity
  pending := []
  active := Table.empty
  served := fun _ => 0
  interactive := Table.empty
  hints := Table.empty

/-- `io_capacity.get(domain).copied().unwrap_or(1)`. -/
def ioLimit (s : State) (domain : String) : ℕ := (s.ioCapacity domain).getD 1

/-- `State::used` (lines 161–171), its CPU part. -/
def usedCpu (s : State) : ℕ := (s.active.rows.map fun job => job.resources.cpu).sum

/-- `State::used` (lines 161–171), its I/O part. -/
def usedIo (s : State) (domain : String) : ℕ :=
  s.active.rows.countP fun job => domain ∈ job.resources.io

/-- `State::interrupted` (lines 173–177). -/
def interrupted (s : State) (resources : Resources) : Bool :=
  s.interactive.rows.any fun interactive => interactive.resources.conflicts resources

/-- `State::available` (lines 179–195). -/
def available (s : State) (resources : Resources) : Bool :=
  !s.interrupted resources &&
    !decide (s.usedCpu + resources.cpu > s.cpuCapacity) &&
    decide (∀ domain ∈ resources.io, s.usedIo domain < s.ioLimit domain) &&
    s.active.rows.all fun job => decide (Disjoint job.resources.exclusive resources.exclusive)

end State

/-! ## Priorities and preemption -/

/-- The closure `demanded` of `refresh_demand_priorities` (lines 514–516), on
    the hints that are left. -/
def demanded (hints : Table Hint.key) (sources : Finset Source) : Bool :=
  hints.rows.any fun hint => decide (hint.source ∈ sources)

/-- The priority `refresh_demand_priorities` gives a job (lines 517–530). -/
def refreshJob (hints : Table Hint.key) (job : Job) : Job :=
  { job with
    priority := if demanded hints job.demandSources then Priority.demand else job.basePriority }

/-- `refresh_demand_priorities` (lines 506–531) at the instant `now`. -/
def refreshDemandPriorities (now : ℕ) (s : State) : State :=
  let hints := s.hints.filter fun hint => hint.expires > now
  { s with
    hints := hints
    pending := s.pending.map (refreshJob hints)
    active := s.active.mapRows (refreshJob hints) fun _ => rfl }

/-- `control.pause.store(value)`. -/
def Job.setPause (value : Bool) (job : Job) : Job :=
  { job with control := { job.control with pause := value } }

/-- What `request_preemption` keeps of a pending job (lines 545–568). -/
structure Request where
  priority : Priority
  requestedCpu : ℕ
  cpuFull : Bool
  fullIo : Finset String
  exclusive : Finset String

/-- The tuple built for one pending job (lines 549–568). -/
def request (s : State) (job : Job) : Request where
  priority := job.priority
  requestedCpu := job.resources.cpu
  cpuFull := job.resources.cpu ≠ 0 && s.usedCpu + job.resources.cpu > s.cpuCapacity
  fullIo := job.resources.io.filter fun domain => s.usedIo domain ≥ s.ioLimit domain
  exclusive := job.resources.exclusive

/-- The test made for one request and one active job (lines 572–575). -/
def Request.blockedBy (r : Request) (job : Job) : Bool :=
  let blocksCpu := r.cpuFull && r.requestedCpu ≠ 0 && job.resources.cpu ≠ 0
  let blocksIo := !decide (Disjoint job.resources.io r.fullIo)
  let blocksExclusive := !decide (Disjoint job.resources.exclusive r.exclusive)
  r.priority < job.priority && (blocksCpu || blocksIo || blocksExclusive)

/-- The body of the outer loop of `request_preemption` (lines 570–579). -/
def pauseFor (active : Table Job.id) (r : Request) : Table Job.id :=
  active.mapRows (fun job => if r.blockedBy job then job.setPause true else job)
    fun job => by split <;> rfl

/-- `request_preemption` (lines 533–580) at the instant `now`. -/
def requestPreemption (now : ℕ) (s : State) : State :=
  let s := refreshDemandPriorities now s
  let s := { s with
    active := s.active.mapRows (fun job => job.setPause (s.interrupted job.resources))
      fun _ => rfl }
  let requests := (s.pending.filter fun job => !s.interrupted job.resources).map (request s)
  { s with active := requests.foldl pauseFor s.active }

/-! ## Admission order -/

/-- The locals of `fair_order` filled in by its loop (lines 613–627). -/
structure Ranks (n : ℕ) where
  nextRank : Lane → ℕ
  rank : Fin n → ℕ
  floor : Priority → Option ℕ

/-- The locals before the loop. -/
def Ranks.start (n : ℕ) : Ranks n := ⟨fun _ => 0, fun _ => 0, fun _ => none⟩

/-- The loop body of `fair_order` (lines 616–627). -/
def rankStep (pending : List Job) (served : Lane → ℕ) (t : Ranks pending.length)
    (index : Fin pending.length) : Ranks pending.length :=
  let job := pending.get index
  let key := job.lane
  let count := served key
  { nextRank := Function.update t.nextRank key (t.nextRank key + 1)
    rank := Function.update t.rank index (t.nextRank key)
    floor := Function.update t.floor job.priority
      (some (match t.floor job.priority with
        | some low => min low count
        | none => count)) }

/-- The first sort of `fair_order` (lines 608–612). -/
def sequenceOrder (pending : List Job) : List (Fin pending.length) :=
  (List.finRange pending.length).insertionSort fun i j =>
    toLex ((pending.get i).priority, (pending.get i).sequence) ≤
      toLex ((pending.get j).priority, (pending.get j).sequence)

/-- The ranks and floors `fair_order` computes in that order. -/
def ranks (pending : List Job) (served : Lane → ℕ) : Ranks pending.length :=
  (sequenceOrder pending).foldl (rankStep pending served) (Ranks.start _)

/-- The key of the second sort of `fair_order` (lines 629–633). -/
def fairKey (pending : List Job) (served : Lane → ℕ) (t : Ranks pending.length)
    (index : Fin pending.length) : Priority ×ₗ ℕ ×ₗ ℕ :=
  let job := pending.get index
  let count := served job.lane
  let low := (t.floor job.priority).getD 0
  toLex (job.priority, toLex (count - low + t.rank index, job.sequence))

/-- `fair_order` (lines 600–636). -/
def fairOrder (pending : List Job) (served : Lane → ℕ) : List (Fin pending.length) :=
  let t := ranks pending served
  (sequenceOrder pending).insertionSort fun i j =>
    fairKey pending served t i ≤ fairKey pending served t j

/-- `join_service_level` (lines 652–680). -/
def joinServiceLevel (priority : Priority) (owner : Option String) (s : State) : State :=
  if s.pending.any fun job => job.priority = priority && job.owner = owner then s
  else
    match ((s.pending.filter fun job => job.priority = priority).map fun job =>
        s.served (priority, job.owner)).min? with
    | none => s
    | some floor =>
      { s with served :=
          Function.update s.served (priority, owner) (max (s.served (priority, owner)) floor) }

/-! ## Dispatch -/

/-- `Vec::swap_remove`: the last element takes the place of the removed one. -/
def swapRemove {α : Type*} (l : List α) (index : ℕ) : List α :=
  match l.getLast? with
  | none => []
  | some last => (l.set index last).dropLast

/-- The `for` loop of `dispatch` (lines 685–692): the first job in fair order
    that is available. -/
def selected (s : State) : Option (Fin s.pending.length) :=
  (fairOrder s.pending s.served).find? fun index => s.available (s.pending.get index).resources

/-- A job as `dispatch` leaves it (lines 699–700 and 709–722). -/
def Job.grant (job : Job) : Job :=
  { job with control := { job.control with pause := false, granted := true } }

/-- The rest of the loop body of `dispatch` (lines 694–722). -/
def admitAt (s : State) (index : Fin s.pending.length) : State :=
  let job := s.pending.get index
  { s with
    pending := swapRemove s.pending index
    served := Function.update s.served job.lane (s.served job.lane + 1)
    active := s.active.put job.grant }

/-- One turn of the loop of `dispatch`: the job it admits and the state after,
    or `none` where the loop breaks. -/
def admitNext (s : State) : Option (Job × State) :=
  (selected s).map fun index => (s.pending.get index, admitAt s index)

/-- At most `turns` turns of the loop of `dispatch`. -/
def dispatchLoop : (turns : ℕ) → State → State
  | 0, s => s
  | turns + 1, s =>
    match admitNext s with
    | none => s
    | some (_, s') => dispatchLoop turns s'

/-- `dispatch` (lines 682–724) at the instant `now`. -/
def dispatch (now : ℕ) (s : State) : State :=
  let s := refreshDemandPriorities now s
  dispatchLoop s.pending.length s

/-! ## Operations -/

/-- The three readings of `Instant::now()` an operation may make: its own (only
    `hint_segment`), the one in `request_preemption` and the one in `dispatch`. -/
structure Clock where
  call : ℕ
  preempt : ℕ
  dispatch : ℕ
  call_le_preempt : call ≤ preempt
  preempt_le_dispatch : preempt ≤ dispatch

/-- An operation during which the clock stands still. -/
def Clock.still (now : ℕ) : Clock := ⟨now, now, now, le_rfl, le_rfl⟩

/-- `request_preemption(&mut state); dispatch(&mut state);` -/
def settle (c : Clock) (s : State) : State := dispatch c.dispatch (requestPreemption c.preempt s)

/-- `acquire_with_sources` (lines 344–363): join the queue. -/
def enqueue (priority : Priority) (resources : Resources) (owner : Option String)
    (demandSources : Finset Source) (s : State) : State :=
  let id := s.nextId
  let sequence := s.nextSequence
  let s := joinServiceLevel priority owner
    { s with nextId := s.nextId + 1, nextSequence := s.nextSequence + 1 }
  { s with pending := s.pending ++
      [{ id, sequence, priority, basePriority := priority, resources, owner,
         control := Control.default, demandSources }] }

/-- `yield_job` (lines 726–744): an active job goes back to the queue. -/
def park (job : Job) (s : State) : State :=
  { s with
    active := s.active.erase job.id
    pending := s.pending ++ [{ job with control := { job.control with granted := false } }] }

/-- `finish_job` (lines 748–756). -/
def remove (id : ℕ) (s : State) : State :=
  let s := { s with active := s.active.erase id }
  match s.pending.findIdx? fun job => job.id = id with
  | none => s
  | some index => { s with pending := swapRemove s.pending index }

/-- The flags `cancel_owner` sets on an active job (lines 433–436). -/
def Job.cancel (job : Job) : Job :=
  { job with control := { job.control with cancelled := true, pause := true } }

/-- `cancel_owner` (lines 414–441). The flags of the pending jobs it drops are
    no longer part of the state. -/
def dropOwner (owner : String) (s : State) : State :=
  { s with
    pending := s.pending.filter fun job => job.owner ≠ some owner
    active := s.active.mapRows (fun job => if job.owner = some owner then job.cancel else job)
      fun job => by split <;> rfl
    hints := s.hints.filter fun hint => hint.owner ≠ owner }

/-- `MAX_DEMAND_HINT_TTL` (line 31), in nanoseconds. -/
def maxDemandHintTtl : ℕ := 60 * 60 * 1000000000

/-- The priority `hint_segment` gives a job (lines 469–478). -/
def hintJob (source : Source) (job : Job) : Job :=
  if source ∈ job.demandSources then { job with priority := Priority.demand } else job

/-- `hint_segment` (lines 453–478) at the instant `now`. -/
def addHint (now : ℕ) (owner : String) (source : Source) (ttl : ℕ) (s : State) : State :=
  { s with
    hints := (s.hints.filter fun hint => hint.expires > now).put
      ⟨owner, source, now + min ttl maxDemandHintTtl⟩
    pending := s.pending.map (hintJob source)
    active := s.active.mapRows (hintJob source) fun job => by unfold hintJob; split <;> rfl }

/-- `enter_interactive` (lines 397–406). -/
def enterInteractive (resources : Resources) (s : State) : State :=
  { s with
    nextId := s.nextId + 1
    active := s.active.mapRows
      (fun job => if job.resources.conflicts resources then job.setPause true else job)
      fun job => by split <;> rfl
    interactive := s.interactive.put ⟨s.nextId, resources⟩ }

/-- `InteractiveGuard::drop` (line 822). -/
def leaveInteractive (id : ℕ) (s : State) : State :=
  { s with interactive := s.interactive.erase id }

/-- The operations of the scheduler. `finishJob` is the drop of a permit and
    the drop of the guard of an abandoned `acquire` alike. -/
inductive Op
  | acquire (priority : Priority) (resources : Resources) (owner : Option String)
      (demandSources : Finset Source)
  | yieldJob (id : ℕ)
  | finishJob (id : ℕ)
  | cancelOwner (owner : String)
  | hintSegment (owner : String) (source : Source) (ttl : ℕ)
  | enterInteractive (resources : Resources)
  | dropInteractive (id : ℕ)

/-- What an operation does before `request_preemption`. -/
def Op.enter (c : Clock) (s : State) : Op → State
  | acquire priority resources owner demandSources =>
    enqueue priority resources owner demandSources s
  | yieldJob id =>
    match s.active.get? id with
    | none => s
    | some job => park job s
  | finishJob id => remove id s
  | cancelOwner owner => dropOwner owner s
  | hintSegment owner source ttl => addHint c.call owner source ttl s
  | enterInteractive resources => Scheduler.enterInteractive resources s
  | dropInteractive id => leaveInteractive id s

/-- Whether the operation goes on to `request_preemption` and `dispatch`:
    `enter_interactive` does not, and `yield_job` returns early for a job that
    is not active (lines 728–730). -/
def Op.settles (s : State) : Op → Bool
  | yieldJob id => (s.active.get? id).isSome
  | enterInteractive _ => false
  | _ => true

/-- One operation. -/
def step (s : State) (call : Clock × Op) : State :=
  let entered := call.2.enter call.1 s
  if call.2.settles s then settle call.1 entered else entered

/-- The operations of `calls` one after another. -/
def run (calls : List (Clock × Op)) (s : State) : State := calls.foldl step s

/-- The states of a scheduler after some operations. -/
def Reachable (s : State) : Prop :=
  ∃ cpuSlots ioCapacity calls, s = run calls (State.new cpuSlots ioCapacity)

end Kahawai.Mediahost.Scheduler
