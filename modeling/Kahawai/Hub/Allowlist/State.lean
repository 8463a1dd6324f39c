import Kahawai.Lib.Mirror
import Kahawai.Lib.Runs
import Kahawai.Lib.Table

/-!
# The certificate allowlist

Model of `load_allowlist`, `record_renewal`, `settle_renewal` (lines 476–625),
`record_satellite` (lines 981–1012) and `delete_satellite` (lines 1549–1617) of
`crates/kahawai-hub/src/registry.rs` on the columns of `satellites` that hold
fingerprints, and of `AllowedCerts` (`crates/kahawai-transport/src/mtls.rs`).

Any number of operations run at once. An operation is one event for each statement or
transaction and one for each change of the set in memory; it begins with its first
statement. A restart drops the operations and the set, and the hub serves again when
`load_allowlist` has come to its end. Certificates have different fingerprints, so an
enrolment or a renewal brings one that no certificate signed before it had.
-/

namespace Kahawai.Hub.Allowlist

open Kahawai.Lib

/-- `RENEWAL_GRACE_SECS`. -/
def renewalGraceSecs : ℤ := 24 * 3600

/-- `Registry::IN_PROCESS`. -/
def inProcess : String := "in-process"

/-- `Registry::LOCAL_TRANSCODER`. -/
def localTranscoder : String := "local-transcoder"

/-- A row of `satellites`. -/
structure Satellite where
  moduleId : String
  certFingerprint : String
  pendingFingerprint : Option String
  pendingIssuedAt : Option ℤ
  deriving DecidableEq

/-- The fingerprints a row stores. -/
def Satellite.fingerprints (row : Satellite) : List String :=
  row.certFingerprint :: row.pendingFingerprint.toList

/-- `pending_issued_at IS NOT NULL AND pending_issued_at < unixepoch() - ?`. -/
def Satellite.lapsed (row : Satellite) (now : ℤ) : Bool :=
  row.pendingIssuedAt.any (· < now - renewalGraceSecs)

/-- `SET pending_fingerprint = NULL, pending_issued_at = NULL`. -/
def Satellite.clearPending (row : Satellite) : Satellite :=
  { row with pendingFingerprint := none, pendingIssuedAt := none }

/-- The sweep of a row in `load_allowlist`. -/
def Satellite.swept (now : ℤ) (row : Satellite) : Satellite :=
  if row.lapsed now then row.clearPending else row

theorem Satellite.moduleId_swept (now : ℤ) (row : Satellite) :
    (row.swept now).moduleId = row.moduleId := by
  rw [Satellite.swept]
  split <;> rfl

/-- An operation of the registry and its arguments. -/
inductive Call
  | recordSatellite (moduleId certFingerprint : String)
  | recordRenewal (moduleId newFingerprint : String)
  | settleRenewal (moduleId presented : String)
  | deleteSatellite (moduleId : String)
  deriving DecidableEq

/-- The statement an operation makes next, with what it has read. `deleted` still holds
    the gate of its satellite. -/
inductive Position
  | settlePromote (moduleId current : String)
  | settleRetire (moduleId pending : String)
  | deletePending (moduleId fingerprint : String)
  | deleteCatalogue (moduleId fingerprint : String) (pending : Option String)
  | deleteRows (moduleId fingerprint : String) (pending : Option String)
  | deleted (moduleId : String)
  | done (error : Option String)
  deriving DecidableEq

/-- An operation at work. `todo` are the changes of the set that it makes before its
    next statement. -/
structure Run where
  position : Position
  todo : List (Patch String)

/-- An operation that has returned. -/
def Run.finished (r : Run) : Bool :=
  r.todo.isEmpty && match r.position with
    | .deleted _ | .done _ => true
    | _ => false

/-- An operation that holds `catalog_apply_lock` of a satellite. -/
def Run.holdsGate (moduleId : String) (r : Run) : Bool :=
  match r.position with
  | .deletePending m _ | .deleteCatalogue m _ _ | .deleteRows m _ _ => m = moduleId
  | .deleted m => m = moduleId && !r.todo.isEmpty
  | _ => false

/-- How far the hub has started. `sweep`, `read` and `insert` are the steps of
    `load_allowlist`; `down` is a hub whose start has failed. -/
inductive Phase
  | sweep
  | read
  | insert (todo : List String)
  | serving
  | down
  deriving DecidableEq

/-- The table, the set and the operations at work. Two fields are history: `signed` says
    for which satellite a certificate was recorded, and `sweptAt` when the lapsed
    renewals were last swept. -/
structure System where
  satellites : Table Satellite.moduleId
  allowed : Finset String
  now : ℤ
  phase : Phase
  runs : List Run
  signed : String → Option String
  sweptAt : ℤ

/-- The fingerprints of all satellites. -/
def System.stored (s : System) : Finset String :=
  (s.satellites.rows.flatMap Satellite.fingerprints).toFinset

/-- Nothing is in flight. -/
def System.Quiet (s : System) : Prop := s.phase = .serving ∧ ∀ r ∈ s.runs, r.finished

/-! ## The operations -/

/-- An operation ends without a change of the set. -/
def finish (error : Option String) : Run := ⟨.done error, []⟩

/-- `record_satellite`: its transaction. -/
def System.recordSatellite (s : System) (moduleId certFingerprint : String) : System × Run :=
  let row := match s.satellites.get? moduleId with
    | none => ⟨moduleId, certFingerprint, none, none⟩
    | some row => { row with certFingerprint := certFingerprint }
  ({ s with satellites := s.satellites.put row }, ⟨.done none, [.insert certFingerprint]⟩)

/-- `record_renewal`: its transaction. -/
def System.recordRenewal (s : System) (moduleId newFingerprint : String) : System × Run :=
  match s.satellites.get? moduleId with
  | none => (s, finish (some s!"unknown satellite {moduleId}"))
  | some row =>
    let superseded := row.pendingFingerprint.toList.filter (· ≠ newFingerprint)
    let row := { row with
      pendingFingerprint := some newFingerprint
      pendingIssuedAt := some s.now }
    ({ s with satellites := s.satellites.put row },
      ⟨.done none, .insert newFingerprint :: superseded.map .remove⟩)

/-- `settle_renewal` up to its first write. -/
def System.settleRenewal (s : System) (moduleId presented : String) : Run :=
  match s.satellites.get? moduleId with
  | none => finish none
  | some row =>
    match row.pendingFingerprint with
    | none => finish none
    | some pending =>
      if pending = presented then ⟨.settlePromote moduleId row.certFingerprint, []⟩
      else if row.pendingIssuedAt.getD 0 < s.now - renewalGraceSecs then
        ⟨.settleRetire moduleId pending, []⟩
      else finish none

/-- `delete_satellite`: the guards and its first read, with the gate held. -/
def System.deleteSatellite (s : System) (moduleId : String) : Run :=
  if moduleId = localTranscoder then
    finish (some "the built-in transcoder cannot be deleted: it is the hub itself")
  else
    match s.satellites.get? moduleId with
    | none => finish (some s!"no such satellite: {moduleId}")
    | some row =>
      if row.certFingerprint = inProcess then
        finish (some "the in-process mediahost cannot be deleted: it is the hub itself")
      else ⟨.deletePending moduleId row.certFingerprint, []⟩

/-- The hub has signed a certificate for a satellite. -/
def System.sign (s : System) (fingerprint moduleId : String) : System :=
  { s with signed := Function.update s.signed fingerprint (some moduleId) }

/-- An operation begins, where it has not to wait for the gate. -/
def System.begin (s : System) : Call → Option (System × Run)
  | .recordSatellite moduleId fingerprint =>
    if (s.signed fingerprint).isSome then none
    else some ((s.sign fingerprint moduleId).recordSatellite moduleId fingerprint)
  | .recordRenewal moduleId fingerprint =>
    if (s.signed fingerprint).isSome then none
    else some ((s.sign fingerprint moduleId).recordRenewal moduleId fingerprint)
  | .settleRenewal moduleId presented => some (s, s.settleRenewal moduleId presented)
  | .deleteSatellite moduleId =>
    if s.runs.any (Run.holdsGate moduleId) then none else some (s, s.deleteSatellite moduleId)

/-- The next statement of an operation that has begun. The transaction that promotes a
    renewal fails where there is none: `cert_fingerprint` is `NOT NULL`. -/
def System.statement (s : System) : Position → Option (System × Run)
  | .settlePromote moduleId current =>
    match s.satellites.get? moduleId with
    | none => some (s, ⟨.done none, [.remove current]⟩)
    | some row =>
      match row.pendingFingerprint with
      | none => some (s, finish (some "NOT NULL constraint failed: satellites.cert_fingerprint"))
      | some pending =>
        let row := { row.clearPending with certFingerprint := pending }
        some ({ s with satellites := s.satellites.put row }, ⟨.done none, [.remove current]⟩)
  | .settleRetire moduleId pending =>
    let satellites := match s.satellites.get? moduleId with
      | none => s.satellites
      | some row => s.satellites.put row.clearPending
    some ({ s with satellites := satellites }, ⟨.done none, [.remove pending]⟩)
  | .deletePending moduleId fingerprint =>
    match s.satellites.get? moduleId with
    | none => some (s, finish (some "no rows returned by a query that expected to return at least one row"))
    | some row => some (s, ⟨.deleteCatalogue moduleId fingerprint row.pendingFingerprint, []⟩)
  | .deleteCatalogue moduleId fingerprint pending =>
    some (s, ⟨.deleteRows moduleId fingerprint pending, []⟩)
  | .deleteRows moduleId fingerprint pending =>
    some ({ s with satellites := s.satellites.erase moduleId },
      ⟨.deleted moduleId, .remove fingerprint :: pending.toList.map .remove⟩)
  | .deleted _ | .done _ => none

/-- The next step of an operation. -/
def System.advance (s : System) (r : Run) : Option (System × Run) :=
  match r.todo with
  | patch :: todo => some ({ s with allowed := patch.apply s.allowed }, { r with todo := todo })
  | [] => s.statement r.position

/-! ## The hub -/

/-- `load_allowlist`, one statement or one insertion at a time. -/
def System.load (s : System) : Option System :=
  match s.phase with
  | .sweep => some { s with
      satellites := s.satellites.mapRows (Satellite.swept s.now) (Satellite.moduleId_swept s.now)
      phase := .read
      sweptAt := s.now }
  | .read => some { s with
      phase := .insert (s.satellites.rows.flatMap Satellite.fingerprints) }
  | .insert (fingerprint :: todo) => some { s with
      allowed := insert fingerprint s.allowed
      phase := .insert todo }
  | .insert [] => some { s with phase := .serving }
  | .serving | .down => none

inductive Event
  | begin (call : Call)
  | step (i : ℕ)
  /-- The next statement of an operation fails. -/
  | fail (i : ℕ) (error : String)
  | clock (now : ℤ)
  | restart
  | load
  | loadFails

/-- The next statement of an operation fails and ends it. -/
def Run.fail (r : Run) (error : String) : Option Run :=
  match r.todo, r.position with
  | _ :: _, _ | [], .deleted _ | [], .done _ => none
  | [], _ => some (finish (some error))

def System.next (s : System) : Event → Option System
  | .begin call =>
    if s.phase = .serving then
      (s.begin call).map fun (s, r) => { s with runs := s.runs ++ [r] }
    else none
  | .step i =>
    if s.phase = .serving then do
      let r ← s.runs[i]?
      let (s, r) ← s.advance r
      return { s with runs := s.runs.set i r }
    else none
  | .fail i error =>
    if s.phase = .serving then do
      let r ← s.runs[i]?
      let r ← r.fail error
      return { s with runs := s.runs.set i r }
    else none
  | .clock now => some { s with now := now }
  | .restart => some { s with allowed := ∅, phase := .sweep, runs := [] }
  | .load => s.load
  | .loadFails =>
    match s.phase with
    | .sweep | .read => some { s with phase := .down }
    | _ => none

/-- All runs of the hub, from the first start with an empty table. -/
def machine : Machine System Event :=
  ⟨⟨Table.empty, ∅, 0, .sweep, [], fun _ => none, 0⟩, System.next⟩

end Kahawai.Hub.Allowlist
