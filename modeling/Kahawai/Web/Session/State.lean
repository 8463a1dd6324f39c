import Kahawai.Lib.Processes
import Kahawai.Lib.Runs

/-!
# The session of a browser tab

Model of `web/src/api/session.ts` (lines 88–278): `installAccess`, `clearAccess`,
`scheduleRefresh`, `alone`, `rotate`, `refreshTokens`, `restoreSession`, `browserLogin`,
`revoke`, `signOut` and the message of a peer tab.

Every call of `alone` is an entry of `calls`, in the order in which they were made. With
the Web Locks API a call waits for its turn, or until its wait expires, and its promise
settles in a later task than the one in which its callback ends, when the lock is
released. Without it the callback runs at once, and the promise settles in the task in
which the last answer arrives. A request is handled by the hub and answered at any later
time, in any order; the hub numbers the tokens that it issues.
-/

namespace Kahawai.Web.Session

open Kahawai.Lib

/-- What a call of `alone` runs: `rotate` for a refresh or a restore, the login, or
    `revoke`. -/
inductive Kind
  | refresh
  | restore
  | login
  | revoke
  deriving DecidableEq

/-- How a promise settles: true or resolved, false, or rejected. -/
inductive Result
  | yes
  | no
  | threw
  deriving DecidableEq

/-- `out` and `served`: the login, or a refresh, has been sent; the hub has answered it with
    a token. A revocation has logged out once before it refreshes (`loggingOut`), and once
    more after it (`leaving`). -/
inductive Phase
  | waiting
  | loggingOut
  | out
  | served (token : ℕ)
  | leaving
  | ended (result : Result)
  | settled (result : Result)
  deriving DecidableEq

/-- A caller of `refreshTokens`: the token that was installed then, whether it was given the
    promise of another caller, and whether it is the timer. -/
structure Caller where
  token : ℕ
  shared : Bool
  timer : Bool
  deriving DecidableEq

structure Call where
  kind : Kind
  started : ℕ
  phase : Phase
  callers : List Caller
  deriving DecidableEq

/-- A refresh request of the call is outstanding. -/
def Call.requesting (call : Call) : Bool :=
  call.kind ≠ .login &&
    match call.phase with
    | .out | .served _ => true
    | _ => false

/-- The call holds the lock. -/
def Call.holds (call : Call) : Bool :=
  match call.phase with
  | .waiting | .settled _ => false
  | _ => true

/-- What a caller of `refreshTokens` was told, and the token that was installed then. -/
structure Told where
  token : ℕ
  shared : Bool
  ok : Bool
  installed : Option ℕ
  deriving DecidableEq

/-- The call that installed a token, with its generation. -/
structure Installer where
  call : ℕ
  started : ℕ
  deriving DecidableEq

/-- The module, and history: who installed `access`, all calls that installed a token, how
    many calls there were at the last clear, for each refusal that cleared a token the
    generations of the refused call and of the token, and what callers were told. -/
structure System where
  locks : Bool
  access : Option ℕ
  generation : ℕ
  refreshTimer : Bool
  inFlight : Option ℕ
  calls : List Call
  issued : ℕ
  installer : Option Installer
  installs : List ℕ
  cleared : ℕ
  dropped : List (ℕ × ℕ)
  told : List Told
  deriving DecidableEq

namespace System

variable (s : System)

def moves (k : ℕ) (call : Call) (phase : Phase) : System :=
  { s with calls := s.calls.set k { call with phase := phase } }

/-- `installAccess`, where the generation is still the call's. -/
def installAccess (k token started : ℕ) : System :=
  { s with
    access := some token
    refreshTimer := true
    installer := some ⟨k, started⟩
    installs := s.installs ++ [k] }

def clearAccess : System :=
  { s with
    access := none
    generation := s.generation + 1
    refreshTimer := false
    inFlight := none
    installer := none
    cleared := s.calls.length }

/-- A refusal clears the session of its own generation. -/
def refuse (started : ℕ) : System :=
  if s.generation ≠ started then s
  else
    { s.clearAccess with
      dropped := s.dropped ++ (s.installer.map fun i => (started, i.started)).toList }

/-- The promise of a call settles. That of `refreshTokens` clears `inFlight` and is
    followed by its callers; a timer that is told false schedules another. -/
def settle (k : ℕ) (call : Call) (result : Result) : System :=
  let s := s.moves k call (.settled result)
  if call.kind = .refresh then
    { s with
      inFlight := none
      told := s.told ++ call.callers.map fun c => ⟨c.token, c.shared, result = .yes, s.access⟩
      refreshTimer := s.refreshTimer ||
        (call.callers.any Caller.timer && result ≠ .yes && s.access.isSome) }
  else s

/-- The callback of a call ends. -/
def finish (k : ℕ) (call : Call) (result : Result) : System :=
  if s.locks then s.moves k call (.ended result) else s.settle k call result

/-- What a call sends first. -/
def first : Kind → Phase
  | .revoke => .loggingOut
  | _ => .out

/-- `alone`. -/
def call (kind : Kind) (callers : List Caller) : System :=
  { s with
    calls := s.calls ++
      [⟨kind, s.generation, if s.locks then .waiting else first kind, callers⟩] }

/-- `refreshTokens`. -/
def refreshTokens (timer : Bool) : System :=
  match s.access, s.inFlight with
  | none, _ => s
  | some token, none =>
    { s.call .refresh [⟨token, false, timer⟩] with inFlight := some s.calls.length }
  | some token, some p =>
    { s with calls := s.calls.modify p fun call =>
        { call with callers := call.callers ++ [⟨token, true, timer⟩] } }

/-- `signOut`. -/
def signOut : System :=
  if s.access.isSome then s.clearAccess.call .revoke [] else s.clearAccess

end System

/-- What arrives: a success, a refusal (401 or 403; of the first logout only 401), or any
    other failure, an expired deadline included. -/
inductive Reply
  | ok
  | refused
  | failed
  deriving DecidableEq

/-- An answer arrives (`rotate`, `browserLogin`, `revoke`). -/
def System.answer (s : System) (k : ℕ) (call : Call) : Reply → Option System
  | .ok =>
    match call.kind, call.phase with
    | .revoke, .loggingOut | .revoke, .leaving => some (s.finish k call .yes)
    | .revoke, .served _ => some (s.moves k call .leaving)
    | kind, .served token =>
      if s.generation = call.started then
        some ((s.installAccess k token call.started).finish k call .yes)
      else some (s.finish k call (if kind = .login then .threw else .no))
    | _, _ => none
  | .refused =>
    match call.kind, call.phase with
    | .revoke, .loggingOut => some (s.moves k call .out)
    | .revoke, .leaving | .revoke, .out | .login, .out => some (s.finish k call .threw)
    | _, .out => some ((s.refuse call.started).finish k call .no)
    | _, _ => none
  | .failed =>
    match call.phase with
    | .loggingOut | .leaving | .out | .served _ =>
      some (s.finish k call (if call.kind = .refresh then .no else .threw))
    | _ => none

inductive Event
  | login
  | restore
  | refresh
  | timer
  | signOut
  | peerSignOut
  | grant (k : ℕ)
  | expire (k : ℕ)
  | serve (k : ℕ)
  | answer (k : ℕ) (reply : Reply)
  | settle (k : ℕ)
  deriving DecidableEq

def System.step (s : System) : Event → Option System
  | .login => some ({ s with generation := s.generation + 1 }.call .login [])
  | .restore => some (s.call .restore [])
  | .refresh => some (s.refreshTokens false)
  | .timer =>
    if s.refreshTimer then some ({ s with refreshTimer := false }.refreshTokens true) else none
  | .signOut => some s.signOut
  | .peerSignOut => some s.clearAccess
  | .grant k => do
    let call ← s.calls[k]?
    if call.phase = .waiting ∧ s.calls.all (!·.holds) ∧
        (s.calls.take k).all (·.phase ≠ .waiting) then
      -- the first check of `rotate`
      if (call.kind = .refresh ∨ call.kind = .restore) ∧ s.generation ≠ call.started then
        some (s.finish k call .no)
      else some (s.moves k call (System.first call.kind))
    else none
  | .expire k => do
    let call ← s.calls[k]?
    if call.phase = .waiting then
      some (s.settle k call (if call.kind = .refresh then .no else .threw))
    else none
  | .serve k => do
    let call ← s.calls[k]?
    if call.phase = .out then
      some { s.moves k call (.served (s.issued + 1)) with issued := s.issued + 1 }
    else none
  | .answer k reply => do
    let call ← s.calls[k]?
    s.answer k call reply
  | .settle k => do
    let call ← s.calls[k]?
    match call.phase with
    | .ended result => some (s.settle k call result)
    | _ => none

/-- All runs of a tab, from its start. -/
def machine (locks : Bool) : Machine System Event :=
  ⟨⟨locks, none, 0, false, none, [], 0, none, [], 0, [], []⟩, System.step⟩

/-! ## The condition -/

/-- Without locks, no refresh request is out. -/
def System.quiet (s : System) : Prop := s.locks = true ∨ ∀ call ∈ s.calls, call.requesting = false

/-- The condition on a call of `refreshTokens`: the promise that it joins has not yet
    installed its token, nor is that token, where the hub has issued it, older than the
    installed one; and it sends a request only when none is out. -/
def System.SoundRefresh (s : System) : Prop :=
  ∀ token, s.access = some token →
    match s.inFlight with
    | none => s.quiet
    | some p => ∀ call, s.calls[p]? = some call → call.phase ≠ .ended .yes ∧
        ∀ fresh, call.phase = .served fresh → call.started = s.generation → token < fresh

/-- The condition on an event. Other requests, too, are sent only when none is out, and
    nobody signs out between the end of a refresh and the answer to those that joined it. -/
def System.Sound (s : System) : Event → Prop
  | .refresh | .timer => s.SoundRefresh
  | .restore => s.quiet
  | .answer k .refused =>
    (∃ call, s.calls[k]? = some call ∧ call.kind = .revoke ∧ call.phase = .loggingOut) → s.quiet
  | .signOut | .peerSignOut => ∀ call ∈ s.calls, call.kind = .refresh → call.phase = .ended .yes →
      ∀ c ∈ call.callers, c.shared = false
  | _ => True

end Kahawai.Web.Session
