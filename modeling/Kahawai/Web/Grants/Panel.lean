import Kahawai.Lib.Processes
import Kahawai.Lib.Runs

/-!
# Admin panels that grant libraries to a user

Model of the hub's side, `write_access` and `set_catalogue_access` of
`crates/kahawai-hub/src/grants.rs` (lines 180–262) with the removal of a library
(`api/catalogue.rs`, lines 384–400), and of the panel's side, `useGrants` of
`web/src/composables/grants.ts` (lines 58–177) with the two clicks of
`web/src/views/admin/Users.vue` (lines 38–54) and the reads of `reload('users')`
(`web/src/composables/admin.ts`, lines 96–110).

Any number of panels show one user. A read is started, answered by the hub, and lands,
each at any time and in any order; the re-read that a `set` awaits resolves at any time
after its answer has landed, or after it has failed. A write waits in the panel's queue,
is sent with the version that the panel then knows, is handled by the hub in one
transaction, and settles; its answer may be lost.

Every access carries a list `seen`, which is history: the changes of the user's grants
whose outcome it contains. A click adds its own.
-/

namespace Kahawai.Web.Grants

open Kahawai.Lib

/-- `Access`. -/
structure Access where
  allLibraries : Bool
  libraries : List String
  deriving DecidableEq

/-! ## The hub -/

/-- The user's row of `users` and rows of `user_libraries`. -/
structure Account where
  access : Access
  grantsVersion : ℕ
  deriving DecidableEq

/-- `SetAccess`. -/
inductive SetAccess
  | applied (grantsVersion : ℕ) (libraries : List String)
  | stale
  | noSuchUser
  deriving DecidableEq

/-- `INSERT OR IGNORE` of one library after the other, in the order of the rows'
    insertion. -/
def insertOrIgnore (libraries : List String) : List String :=
  libraries.foldl (fun rows library => if library ∈ rows then rows else rows ++ [library]) []

/-- `write_access`. -/
def writeAccess (user : Option Account) (expected : ℕ) (access : Access) :
    Option Account × SetAccess :=
  match user with
  | none => (none, .noSuchUser)
  | some account =>
    if account.grantsVersion = expected then
      let libraries := insertOrIgnore access.libraries
      let grantsVersion := account.grantsVersion + 1
      (some ⟨{ access with libraries := libraries }, grantsVersion⟩,
        .applied grantsVersion libraries)
    else (some account, .stale)

/-- `set_catalogue_access`; `existing` are the libraries that exist when it looks. -/
def setCatalogueAccess (existing : List String) (user : Option Account) (expected : ℕ)
    (access : Access) : Option Account × SetAccess :=
  writeAccess user expected
    { access with libraries := access.libraries.filter (· ∈ existing) }

/-- `delete_library`, in the hub's database. -/
def deleteLibrary (library : String) (account : Account) : Account :=
  if library ∈ account.access.libraries then
    ⟨{ account.access with libraries := account.access.libraries.filter (· ≠ library) },
      account.grantsVersion + 1⟩
  else account

/-! ## A panel -/

/-- An access with the changes whose outcome it contains. -/
structure Shown where
  access : Access
  seen : List ℕ
  deriving DecidableEq

/-- `GrantRow`: an answer of the hub. -/
structure GrantRow where
  shown : Shown
  grantsVersion : ℕ
  deriving DecidableEq

/-- `Write`. -/
structure Write where
  seq : ℕ
  inflight : ℕ
  savedSeq : ℕ
  saved : Option Shown
  version : ℕ
  deriving DecidableEq

/-- Where the request of a write is. An answer is `none` where the hub refused, or where
    the request or its answer was lost. -/
inductive Status
  | queued
  | sent (version : ℕ)
  | answered (answer : Option GrantRow)
  deriving DecidableEq

/-- A call of `set` that waits for its turn or for its answer. `seen` is what the chips
    contained that its access was computed from. -/
structure Pending where
  id : ℕ
  mine : ℕ
  access : Access
  seen : List ℕ
  status : Status
  deriving DecidableEq

/-- Where a read is. An answer is `none` where the user is gone. -/
inductive ReadState
  | started
  | served (answer : Option GrantRow)
  | done
  deriving DecidableEq

/-- A read of the users; `awaited` by the `set` that started it. -/
structure Read where
  state : ReadState
  awaited : Bool
  deriving DecidableEq

/-- The row that the panel has, with the read that it came with, and the state of
    `useGrants` for the user: his entry of `writes`, of `overlay` and of `queue`. -/
structure Panel where
  row : Option GrantRow
  landed : Option ℕ
  write : Option Write
  overlay : Option Shown
  queue : List Pending
  reads : List Read
  deriving DecidableEq

/-- A panel that has started its first read. -/
def Panel.opened : Panel := ⟨none, none, none, none, [], [⟨.started, false⟩]⟩

/-- `asShown`. -/
def Panel.asShown (p : Panel) (user : GrantRow) : GrantRow :=
  match p.overlay with
  | none => user
  | some optimistic => { user with shown := optimistic }

/-- The entry of `writes` that `set` goes on with. -/
def Panel.entry (p : Panel) (user : GrantRow) : Write :=
  let write := p.write.getD ⟨0, 0, 0, none, user.grantsVersion⟩
  if write.inflight = 0 then { write with
    saved := some user.shown
    version := max write.version user.grantsVersion }
  else write

/-- `set`, up to its request. -/
def Panel.set (p : Panel) (id : ℕ) (user : GrantRow) (access : Access) : Panel :=
  let write := p.entry user
  let mine := write.seq + 1
  { p with
    write := some { write with seq := mine, inflight := write.inflight + 1 }
    overlay := some ⟨access, id :: user.shown.seen⟩
    queue := p.queue ++ [⟨id, mine, access, user.shown.seen, .queued⟩] }

/-- What an answer does to the entry of `writes`; a refusal does nothing. -/
def Write.answer (w : Write) (mine : ℕ) : Option GrantRow → Write
  | none => w
  | some answer =>
    let w := { w with version := answer.grantsVersion }
    if mine > w.savedSeq then { w with savedSeq := mine, saved := some answer.shown } else w

/-- `set`, from its answer to the re-read that its `finally` awaits. -/
def Panel.settle (p : Panel) (w : Write) (mine : ℕ) (answer : Option GrantRow) : Panel :=
  let w := w.answer mine answer
  -- only the newest write paints
  let overlay := if mine = w.seq then w.saved.or p.overlay else p.overlay
  let w := { w with inflight := w.inflight - 1 }
  { p with
    write := some w
    overlay := overlay
    queue := p.queue.tail
    reads := if w.inflight = 0 then p.reads ++ [⟨.started, true⟩] else p.reads }

/-- `set`, after the re-read. -/
def Panel.resolve (p : Panel) (k : ℕ) : Panel :=
  { p with
    overlay := if (p.write.map Write.inflight).getD 0 = 0 then none else p.overlay
    reads := p.reads.set k ⟨.done, false⟩ }

/-! ## The clicks -/

inductive Click
  | toggleLibrary (library : String)
  | toggleAll
  deriving DecidableEq

/-- The access that a click computes. -/
def Click.apply (access : Access) : Click → Access
  | .toggleLibrary library => { access with
      libraries := if library ∈ access.libraries then access.libraries.filter (· ≠ library)
        else access.libraries ++ [library] }
  | .toggleAll => { access with allLibraries := !access.allLibraries }

/-! ## The hub and its panels -/

/-- A change of the user's grants: a write of a panel, or the removal of a library. `seen`
    is what the change was computed from. -/
structure Change where
  id : ℕ
  panel : Option ℕ
  seen : List ℕ
  deriving DecidableEq

/-- `log` is history: the changes, in the order in which the hub made them. -/
structure System where
  user : Option Account
  log : List Change
  panels : List Panel
  next : ℕ

/-- The user's row, as the hub answers it. -/
def System.answer (s : System) (account : Account) : GrantRow :=
  ⟨⟨account.access, s.log.map Change.id⟩, account.grantsVersion⟩

def System.setPanel (s : System) (i : ℕ) (p : Panel) : System :=
  { s with panels := s.panels.set i p }

/-- `toggleLibrary` and `toggleAll`. -/
def System.click (s : System) (i : ℕ) (click : Click) : Option System := do
  let p ← s.panels[i]?
  let user ← p.row
  let row := p.asShown user
  some { s.setPanel i (p.set s.next row (click.apply row.shown.access)) with next := s.next + 1 }

def Panel.setHead (p : Panel) (status : Status) : Panel :=
  match p.queue with
  | [] => p
  | head :: rest => { p with queue := { head with status := status } :: rest }

/-- The queue calls the operation of its first write. -/
def System.send (s : System) (i : ℕ) : Option System := do
  let p ← s.panels[i]?
  let w ← p.write
  match p.queue with
  | ⟨_, _, _, _, .queued⟩ :: _ => some (s.setPanel i (p.setHead (.sent w.version)))
  | _ => none

/-- The hub handles the request of a panel. -/
def System.handle (s : System) (i : ℕ) (existing : List String) : Option System := do
  let p ← s.panels[i]?
  match p.queue with
  | ⟨id, _, access, seen, .sent version⟩ :: _ =>
    match setCatalogueAccess existing s.user version access with
    | (some account, .applied _ _) =>
      let s : System := { s with user := some account, log := s.log ++ [⟨id, some i, seen⟩] }
      some (s.setPanel i (p.setHead (.answered (some (s.answer account)))))
    | (_, _) => some (s.setPanel i (p.setHead (.answered none)))
  | _ => none

/-- The request of a panel, or its answer, is lost. -/
def System.lose (s : System) (i : ℕ) : Option System := do
  let p ← s.panels[i]?
  match p.queue with
  | ⟨_, _, _, _, .sent _⟩ :: _ | ⟨_, _, _, _, .answered _⟩ :: _ =>
    some (s.setPanel i (p.setHead (.answered none)))
  | _ => none

/-- The answer reaches its `set`. -/
def System.settle (s : System) (i : ℕ) : Option System := do
  let p ← s.panels[i]?
  let w ← p.write
  match p.queue with
  | ⟨_, mine, _, _, .answered answer⟩ :: _ => some (s.setPanel i (p.settle w mine answer))
  | _ => none

/-- A background read is started. -/
def System.poll (s : System) (i : ℕ) : Option System := do
  let p ← s.panels[i]?
  some (s.setPanel i { p with reads := p.reads ++ [⟨.started, false⟩] })

/-- The hub answers a read, the answer lands or is lost, or a `set` goes on. -/
inductive ReadStep
  | serve
  | land
  | fail
  | resolve
  deriving DecidableEq

def System.read (s : System) (i k : ℕ) (step : ReadStep) : Option System := do
  let p ← s.panels[i]?
  let r ← p.reads[k]?
  match step, r.state with
  | .serve, .started =>
    some (s.setPanel i { p with
      reads := p.reads.set k { r with state := .served (s.user.map s.answer) } })
  | .land, .served answer =>
    some (s.setPanel i { p with
      row := answer
      landed := some k
      reads := p.reads.set k { r with state := .done } })
  | .fail, .started | .fail, .served _ =>
    some (s.setPanel i { p with reads := p.reads.set k { r with state := .done } })
  | .resolve, .done => if r.awaited then some (s.setPanel i (p.resolve k)) else none
  | _, _ => none

/-- `delete_library` removes the library from the user's grants. -/
def System.removeLibrary (s : System) (library : String) : Option System :=
  match s.user with
  | some account =>
    if library ∈ account.access.libraries then some { s with
      user := some (deleteLibrary library account)
      log := s.log ++ [⟨s.next, none, s.log.map Change.id⟩]
      next := s.next + 1 }
    else none
  | none => none

inductive Event
  | opens
  | click (i : ℕ) (click : Click)
  | send (i : ℕ)
  | handle (i : ℕ) (existing : List String)
  | lose (i : ℕ)
  | settle (i : ℕ)
  | poll (i : ℕ)
  | read (i k : ℕ) (step : ReadStep)
  | removeLibrary (library : String)
  | removeUser

def System.step (s : System) : Event → Option System
  | .opens => some { s with panels := s.panels ++ [.opened] }
  | .click i click => s.click i click
  | .send i => s.send i
  | .handle i existing => s.handle i existing
  | .lose i => s.lose i
  | .settle i => s.settle i
  | .poll i => s.poll i
  | .read i k step => s.read i k step
  | .removeLibrary library => s.removeLibrary library
  | .removeUser => some { s with user := none }

/-- All runs of a hub that has some grants for the user. -/
def machine (account : Account) : Machine System Event :=
  ⟨⟨some account, [], [], 0⟩, System.step⟩

/-- The chips that a click is computed from are of the version that its write will carry:
    while nothing is out, the row is not newer than what the overlay shows, and not older
    than what the panel already knows. -/
def Panel.sound (p : Panel) (user : GrantRow) : Bool :=
  match p.write with
  | none => true
  | some w => w.inflight ≠ 0 ||
    match p.overlay with
    | some _ => user.grantsVersion ≤ w.version
    | none => w.version ≤ user.grantsVersion

/-- The condition on an event: every click is sound. -/
def System.sound (s : System) : Event → Bool
  | .click i _ => s.panels[i]?.all fun p => p.row.all p.sound
  | _ => true

end Kahawai.Web.Grants
