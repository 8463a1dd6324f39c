import Kahawai.Lib.Interactions
import Kahawai.Lib.Processes
import Kahawai.Lib.Runs

/-!
# The serialized SQLite writer

Model of `crates/kahawai-sqlite/src/lib.rs`: `LeaseParts` and `WriterLease` with their
`Drop` (lines 101–176), `Writer::lease` and `writer_task` (lines 190–289), and the
callers `acquire`, `write`, `transaction`, `begin_with_label`, `commit`, `rollback` and
the single statements of `Executor` (lines 343–464, 528–600). `Writer::close` is left
out.

A caller is one call of these. It may be dropped at any await, and the connection then
travels back through the `Drop` of whatever held it. The two one-shot channels of a
lease are the position `answered` of its caller and the `slot` that the actor waits on.
A statement that was handed to SQLite completes, whether or not its caller is still
there: `pending` are the statements handed over and not yet executed, and `exec` executes
the first. SQLite may refuse a statement, which then changes nothing.

The contents of the database, the statements and their answers are parameters, and so is
the `before_commit` callback, which is installed before the database is used.
-/

namespace Kahawai.Sqlite

open Kahawai.Lib

/-- `WRITER_QUEUE_CAPACITY`. -/
def writerQueueCapacity : ℕ := 256

/-- `enum TaskOwner`. -/
inductive TaskOwner
  | tokio (id : ℕ)
  | runtimeRoot (thread : ℕ)
  deriving DecidableEq

/-- How an operation ends: with `Ok`, after which a transaction commits, with an explicit
    `rollback`, or with an error. -/
inductive End
  | ok
  | rollback
  | error
  deriving DecidableEq

/-- Statements on the connection. -/
abbrev Operation (σ ρ : Type) := Interaction σ ρ End

/-- What a caller does with a lease. `plain` is without a transaction. -/
inductive Work (σ ρ : Type)
  | plain (operation : Operation σ ρ)
  | transaction (operation : Operation σ ρ)

/-! ## SQLite -/

/-- A command for the connection. The operation of a commit is history. -/
inductive Command (σ ρ : Type)
  | begin
  | commit (operation : Operation σ ρ)
  | rollback
  | statement (q : σ)

/-- What SQLite replies to a statement, or to transaction control. -/
inductive Reply (ρ : Type)
  | rows (answer : Option ρ)
  | control (ok : Bool)

/-- What has changed the database: a statement outside of a transaction, or a
    transaction. -/
inductive Entry (σ ρ : Type)
  | statement (q : σ)
  | transaction (operation : Operation σ ρ)

/-- The committed contents, the contents as the open transaction sees them, and the
    commands that were handed over by a caller or by the actor. `log` is history. -/
structure Connection (D σ ρ : Type) where
  contents : D
  working : Option D
  pending : List (Option ℕ × Command σ ρ)
  log : List (Entry σ ρ)

variable {D σ ρ : Type}

/-- SQLite executes a command. -/
def Connection.exec (run : σ → D → Option (D × ρ)) (accept : Bool) (c : Connection D σ ρ) :
    Command σ ρ → Connection D σ ρ × Reply ρ
  | .begin =>
    if accept && c.working.isNone then
      ({ c with working := some c.contents }, .control true)
    else (c, .control false)
  | .commit operation =>
    match accept, c.working with
    | true, some w => ({ c with
        contents := w
        working := none
        log := c.log ++ [.transaction operation] }, .control true)
    | _, _ => (c, .control false)
  | .rollback => ({ c with working := none }, .control c.working.isSome)
  | .statement q =>
    match accept, c.working with
    | false, _ => (c, .rows none)
    | true, some w =>
      match run q w with
      | none => (c, .rows none)
      | some (w', answer) => ({ c with working := some w' }, .rows (some answer))
    | true, none =>
      match run q c.contents with
      | none => (c, .rows none)
      | some (d, answer) => ({ c with
          contents := d
          log := c.log ++ [.statement q] }, .rows (some answer))

/-! ## A lease -/

/-- What a lease runs: a plain operation, the body of a transaction or its callback. -/
inductive Part (σ ρ : Type)
  | plain
  | body (operation : Operation σ ρ)
  | callback (operation : Operation σ ρ)

inductive Phase (σ ρ : Type)
  | start (operation : Operation σ ρ)
  | begin (operation : Operation σ ρ)
  | run (part : Part σ ρ) (todo : Operation σ ρ)
  | commit (operation : Operation σ ρ)
  | rollback
  | finished

/-- Whether a command was handed over, and what SQLite replied. -/
inductive Awaiting (ρ : Type)
  | idle
  | handed
  | replied (reply : Reply ρ)

/-- `WriterLease` and what its holder does with it. -/
structure Lease (σ ρ : Type) where
  rollback : Bool
  phase : Phase σ ρ
  awaiting : Awaiting ρ

/-- The lease that `Writer::lease` returns. -/
def Work.lease : Work σ ρ → Lease σ ρ
  | .plain operation => ⟨false, .run .plain operation, .idle⟩
  | .transaction operation => ⟨false, .start operation, .idle⟩

/-- `WriterTransaction::commit` hands over `COMMIT`. -/
def Lease.handCommit (l : Lease σ ρ) (operation : Operation σ ρ) :
    Option (Lease σ ρ × Option (Command σ ρ)) :=
  some ({ l with phase := .commit operation, awaiting := .handed }, some (.commit operation))

/-- The next step of the holder, and the command it hands over. -/
def Lease.next (beforeCommit : Option (Operation σ ρ)) (l : Lease σ ρ) :
    Option (Lease σ ρ × Option (Command σ ρ)) :=
  match l.phase, l.awaiting with
  | .start operation, .idle => some (⟨true, .begin operation, .handed⟩, some .begin)
  | .begin operation, .replied (.control true) =>
    some ({ l with phase := .run (.body operation) operation, awaiting := .idle }, none)
  | .begin _, .replied (.control false) => some (⟨false, .finished, .idle⟩, none)
  | .run _ (.ask q _), .idle => some ({ l with awaiting := .handed }, some (.statement q))
  | .run part (.ask _ next), .replied (.rows answer) =>
    some ({ l with phase := .run part (next answer), awaiting := .idle }, none)
  | .run (.body operation) (.done .ok), .idle =>
    match beforeCommit with
    | none => l.handCommit operation
    | some callback => some ({ l with phase := .run (.callback operation) callback }, none)
  | .run (.callback operation) (.done .ok), .idle => l.handCommit operation
  | .run (.body _) (.done .rollback), .idle =>
    some ({ l with phase := .rollback, awaiting := .handed }, some .rollback)
  | .run _ (.done _), .idle => some ({ l with phase := .finished }, none)
  | .commit _, .replied (.control ok) | .rollback, .replied (.control ok) =>
    some (⟨l.rollback && !ok, .finished, .idle⟩, none)
  | _, _ => none

/-! ## The actor and its callers -/

/-- Where a caller is. `answered` are the `LeaseParts` in its response channel, and
    `dropping` is a lease that has given up ownership and not yet returned its
    connection. -/
inductive Position (σ ρ : Type)
  | refused
  | sending
  | queued
  | answered
  | held (lease : Lease σ ρ)
  | dropping (rollback : Bool)
  | gone (received : Bool)

/-- A call of a task. The operation of a caller that is `inScope` runs with `WRITER_CONTEXT` set. -/
structure Caller (σ ρ : Type) where
  task : TaskOwner
  inScope : Bool
  work : Work σ ρ
  position : Position σ ρ

/-- The operation of a caller runs in the scope of `WRITER_CONTEXT`. -/
def Caller.inBody (c : Caller σ ρ) : Bool :=
  c.inScope && match c.position with
    | .held ⟨_, .run .plain _, _⟩ | .held ⟨_, .run (.body _) _, _⟩ => true
    | _ => false

/-- The next step of `writer_task`. -/
inductive Actor
  | idle
  | own (i : ℕ)
  | answer (i : ℕ)
  | waiting (i : ℕ)
  | took (i : ℕ) (rollback : Bool)
  | rolling (i : ℕ)
  | clear (i : ℕ)
  deriving DecidableEq

/-- The writer, its callers and its connection. Two fields are history: the requests in
    the order in which they entered the queue, and those that the actor has taken, each
    with whether its caller was still there. -/
structure System (D σ ρ : Type) where
  callers : List (Caller σ ρ)
  queue : List ℕ
  actor : Actor
  slot : Option Bool
  active : Option TaskOwner
  connection : Connection D σ ρ
  queued : List ℕ
  taken : List (ℕ × Bool)

def System.setPosition (s : System D σ ρ) (i : ℕ) (caller : Caller σ ρ) (position : Position σ ρ) :
    System D σ ρ :=
  { s with callers := s.callers.set i { caller with position := position } }

/-- Hand a command to SQLite. -/
def System.hand (s : System D σ ρ) (issuer : Option ℕ) (command : Option (Command σ ρ)) :
    System D σ ρ :=
  { s with connection := { s.connection with
      pending := s.connection.pending ++ command.toList.map (issuer, ·) } }

/-- `Writer::lease` up to its request. `ownContext` says whether `WRITER_CONTEXT` is that
    of this writer, which it is only in an operation that this task runs. -/
def System.request (s : System D σ ρ) (task : TaskOwner) (ownContext inScope : Bool)
    (work : Work σ ρ) : Option (System D σ ρ) :=
  if ownContext && !s.callers.any (fun c => c.task = task && c.inBody) then none
  else
    let refused := ownContext || s.active = some task
    some { s with
      callers := s.callers ++ [⟨task, inScope, work, if refused then .refused else .sending⟩] }

/-- The next step of a caller. -/
def System.advance (beforeCommit : Option (Operation σ ρ)) (s : System D σ ρ) (i : ℕ) :
    Option (System D σ ρ) := do
  let caller ← s.callers[i]?
  match caller.position with
  | .sending =>
    if s.queue.length < writerQueueCapacity then
      some { s.setPosition i caller .queued with
        queue := s.queue ++ [i]
        queued := s.queued ++ [i] }
    else none
  | .answered => some (s.setPosition i caller (.held caller.work.lease))
  | .held ⟨rollback, .finished, .idle⟩ =>
    some { s.setPosition i caller (.dropping rollback) with active := none }
  | .held lease => do
    let (lease, command) ← lease.next beforeCommit
    some ((s.setPosition i caller (.held lease)).hand (some i) command)
  | .dropping rollback =>
    some { s.setPosition i caller (.gone true) with slot := some rollback }
  | .refused | .queued | .gone _ => none

/-- A caller is dropped. -/
def System.drop (s : System D σ ρ) (i : ℕ) : Option (System D σ ρ) := do
  let caller ← s.callers[i]?
  match caller.position with
  | .sending | .queued => some (s.setPosition i caller (.gone false))
  | .answered => some { s.setPosition i caller (.gone false) with slot := some false }
  | .held lease => some { s.setPosition i caller (.dropping lease.rollback) with active := none }
  | .refused | .dropping _ | .gone _ => none

/-- The next step of the actor. -/
def System.act (s : System D σ ρ) : Option (System D σ ρ) :=
  match s.actor with
  | .idle =>
    match s.queue with
    | [] => none
    | i :: queue =>
      match s.callers[i]? with
      | some ⟨_, _, _, .queued⟩ => some { s with
          actor := .own i
          queue := queue
          taken := s.taken ++ [(i, true)] }
      | _ => some { s with
          queue := queue
          taken := s.taken ++ [(i, false)] }
  | .own i => do
    let caller ← s.callers[i]?
    some { s with actor := .answer i, active := some caller.task }
  | .answer i => do
    let caller ← s.callers[i]?
    match caller.position with
    | .queued => some { s.setPosition i caller .answered with actor := .waiting i }
    | _ => some { s with actor := .waiting i, slot := some false }
  | .waiting i => do
    let rollback ← s.slot
    some { s with actor := .took i rollback, slot := none }
  | .took i true => some { s.hand none (some .rollback) with actor := .rolling i }
  | .took i false => some { s with actor := .clear i }
  | .rolling _ => none
  | .clear _ => some { s with actor := .idle, active := none }

/-- The reply of SQLite reaches its caller, if it still waits, or the actor. -/
def System.reply (s : System D σ ρ) (reply : Reply ρ) : Option ℕ → System D σ ρ
  | none =>
    match s.actor with
    | .rolling i => { s with actor := .clear i }
    | _ => s
  | some i =>
    match s.callers[i]? with
    | some ⟨task, inScope, work, .held ⟨rollback, phase, .handed⟩⟩ =>
      s.setPosition i ⟨task, inScope, work, .held ⟨rollback, phase, .handed⟩⟩
        (.held ⟨rollback, phase, .replied reply⟩)
    | _ => s

/-- SQLite executes the first command that was handed over. -/
def System.exec (run : σ → D → Option (D × ρ)) (s : System D σ ρ) (accept : Bool) :
    Option (System D σ ρ) :=
  match s.connection.pending with
  | [] => none
  | (issuer, command) :: pending =>
    let (connection, reply) := { s.connection with pending := pending }.exec run accept command
    some ({ s with connection := connection }.reply reply issuer)

inductive Event (σ ρ : Type)
  | request (task : TaskOwner) (ownContext inScope : Bool) (work : Work σ ρ)
  | advance (i : ℕ)
  | drop (i : ℕ)
  | act
  | exec (accept : Bool)

section Machine

variable (run : σ → D → Option (D × ρ)) (beforeCommit : Option (Operation σ ρ))

def System.next (s : System D σ ρ) : Event σ ρ → Option (System D σ ρ)
  | .request task ownContext inScope work => s.request task ownContext inScope work
  | .advance i => s.advance beforeCommit i
  | .drop i => s.drop i
  | .act => s.act
  | .exec accept => s.exec run accept

/-- All runs of a writer on a database with some contents. -/
def machine (contents : D) : Machine (System D σ ρ) (Event σ ρ) :=
  ⟨⟨[], [], .idle, none, none, ⟨contents, none, [], []⟩, [], []⟩, System.next run beforeCommit⟩

end Machine

/-! ## The callers -/

/-- `Database::acquire`, whose caller uses the lease outside of any scope. -/
def acquire (task : TaskOwner) (operation : Operation σ ρ) : Event σ ρ :=
  .request task false false (.plain operation)

/-- `Database::write`. -/
def write (task : TaskOwner) (operation : Operation σ ρ) : Event σ ρ :=
  .request task false true (.plain operation)

/-- `Database::transaction`. -/
def transaction (task : TaskOwner) (operation : Operation σ ρ) : Event σ ρ :=
  .request task false true (.transaction operation)

/-- `Database::begin`; the caller ends with `commit`, `rollback` or a drop. -/
def begin (task : TaskOwner) (operation : Operation σ ρ) : Event σ ρ :=
  .request task false false (.transaction operation)

/-- The `Executor` on a statement that is not read-only. -/
def execute (beforeCommit : Option (Operation σ ρ)) (task : TaskOwner) (q : σ) : Event σ ρ :=
  if beforeCommit.isSome then
    begin task (.ask q fun answer => .done (if answer.isSome then .ok else .error))
  else acquire task (.ask q fun _ => .done .ok)

end Kahawai.Sqlite
