import Mathlib.Algebra.GroupWithZero.Nat
import Mathlib.Data.List.Basic
import Kahawai.Lib.Runs

/-!
# Byte leases

A lease reads one open file through a request channel and a chunk channel
(`crates/kahawai-hub/src/leases.rs`). `Lease::read_range` spawns a task that
locks the receiver of the chunks, asks for blocks of at most 4 MiB one after
another and forwards what arrives to its consumer. The peer is the task of
`Lease::local_guarded` or `serve_lease_scheduled` of a mediahost
(`crates/kahawai-mediahost/src/serve.rs`, lines 207–264): it answers a request
with data chunks and one end chunk. Requests and chunks carry no identifiers.
The model adds to each the call it belongs to, which no step reads.

`Source` is the file and the size the peer learned when it opened it; where
`metadata` fails, `local_guarded` goes on with the size 0. `Wire` bounds what
the channels hold. `Event` lists the steps of the tasks, of the peer and of the
consumers; `lease` is the machine they form.
-/

namespace Kahawai.Hub.Leases

open Kahawai.Lib

/-! ## Data -/

/-- An open file: its bytes, and the size that `metadata` reported. -/
structure Source where
  bytes : List UInt8
  size : ℕ
  size_le : size ≤ bytes.length

/-- The bytes `[min a size, min b size)` of the file. -/
def Source.slice (src : Source) (a b : ℕ) : List UInt8 :=
  (src.bytes.take (min b src.size)).drop (min a src.size)

/-- What the request channel holds, and what the channels and the transport
    between the peer and the lease hold. -/
structure Wire where
  requestRoom : ℕ
  chunkRoom : ℕ
  request_pos : 0 < requestRoom
  chunk_pos : 0 < chunkRoom

/-- `BLOCK` (line 27). -/
def blockSize : ℕ := 4 * 1024 * 1024

/-- `CHUNK` (line 142; `serve.rs`, line 16). -/
def chunkSize : ℕ := 256 * 1024

/-- The capacity of the channel to the consumer (line 60). -/
def outRoom : ℕ := 8

/-- `message ReadRequest`. -/
structure ReadRequest where
  offset : ℕ
  len : ℕ
  deriving DecidableEq

/-- `message ByteChunk`. -/
structure ByteChunk where
  offset : ℕ
  data : List UInt8
  eof : Bool
  error : String
  deriving DecidableEq

/-- A message, with the call it belongs to. -/
structure Sent (α : Type) where
  call : Option ℕ
  msg : α
  deriving DecidableEq

/-- What the stream of a call yields. -/
inductive Item
  | bytes (call : Option ℕ) (data : List UInt8)
  | error (msg : String)
  deriving DecidableEq

/-- The bytes of the items. -/
def payload : List Item → List UInt8
  | [] => []
  | .bytes _ data :: items => data ++ payload items
  | .error _ :: items => payload items

/-! ## State -/

inductive Phase
  /-- The task waits for the lock. -/
  | waiting
  | reading
  /-- The task has returned; its sender to the consumer is dropped. -/
  | finished
  deriving DecidableEq

/-- One call of `read_range` with its consumer. -/
structure Call where
  offset : ℕ
  len : ℕ
  phase : Phase
  /-- Sent and not yet received by the consumer. -/
  out : List Item
  /-- Received by the consumer. -/
  taken : List Item
  /-- The consumer has seen the end of the stream. -/
  ended : Bool
  /-- The consumer has dropped the stream. -/
  gone : Bool
  deriving DecidableEq

/-- `end` (line 65). -/
def Call.stop (c : Call) : ℕ := c.offset + c.len

def Call.items (c : Call) : List Item := c.taken ++ c.out

/-- Where the task that holds the lock is. -/
inductive Stage
  /-- At the condition of `'blocks` (line 67). -/
  | blocks
  /-- At `chunk_rx.recv()` (line 85) in a block of which `served` bytes came. -/
  | chunks (block served : ℕ)
  /-- At `out_tx.send(Ok(..))` (line 101). -/
  | sending (block served : ℕ) (chunk : Sent ByteChunk)
  /-- At an `out_tx.send(Err(..))`, before it returns. -/
  | failing (msg : String)
  deriving DecidableEq

/-- The task that holds the lock. -/
structure Reader where
  call : ℕ
  cur : ℕ
  consumerGone : Bool
  stage : Stage
  deriving DecidableEq

inductive Peer
  /-- Opening the file. -/
  | opening
  /-- At `req_rx.recv()`. -/
  | idle
  /-- In `while cur < end` for a request. -/
  | serving (call : Option ℕ) (cur stop : ℕ)
  /-- Returned, or cut off: its sender of chunks is dropped. -/
  | closed
  deriving DecidableEq

structure State where
  calls : List Call
  holder : Option Reader
  requests : List (Sent ReadRequest)
  requestsOpen : Bool
  peer : Peer
  chunks : List (Sent ByteChunk)
  deriving DecidableEq

/-- A lease nobody has read from. -/
def State.new : State := ⟨[], none, [], true, .opening, []⟩

/-! ## The task of `read_range` -/

inductive ReaderEvent
  | leave
  | request
  | requestClosed
  | recv
  | recvClosed
  | send
  | sendGone
  | sendError
  deriving DecidableEq

/-- The call `i` is `c` now. -/
def State.setCall (s : State) (i : ℕ) (c : Call) : State := { s with calls := s.calls.set i c }

/-- The task returns and gives the lock back. -/
def State.finish (s : State) (r : Reader) (c : Call) : State :=
  { s.setCall r.call { c with phase := .finished } with holder := none }

/-- The task that holds the lock goes to a stage. -/
def State.goTo (s : State) (r : Reader) (stage : Stage) : State :=
  { s with holder := some { r with stage } }

/-- `cur < end && !consumer_gone`. -/
def Reader.more (r : Reader) (c : Call) : Bool := decide (r.cur < c.stop) && !r.consumerGone

/-- The arms of the `match` on a chunk (lines 86–115); `s` no longer holds it. -/
def receive (s : State) (r : Reader) (c : Call) (block served : ℕ) (chunk : Sent ByteChunk) :
    State :=
  if chunk.msg.error ≠ "" then s.goTo r (.failing chunk.msg.error)
  else if chunk.msg.eof then
    let r := { r with cur := r.cur + served }
    -- `break 'blocks` leads to the end of the task
    if served < block then s.finish r c else s.goTo r .blocks
  else
    let served := served + chunk.msg.data.length
    if r.consumerGone then s.goTo r (.chunks block served)
    else s.goTo r (.sending block served chunk)

/-- One step of the task that holds the lock (lines 64–117). -/
def readerNext (wire : Wire) (s : State) (r : Reader) (c : Call) : ReaderEvent → Option State
  | .leave =>
    if r.stage = .blocks ∧ r.more c = false then some (s.finish r c) else none
  | .request =>
    if r.stage = .blocks ∧ r.more c = true ∧ s.requestsOpen = true ∧
        s.requests.length < wire.requestRoom then
      let block := min blockSize (c.stop - r.cur)
      some { s.goTo r (.chunks block 0) with
        requests := s.requests ++ [⟨some r.call, ⟨r.cur, block⟩⟩] }
    else none
  | .requestClosed =>
    if r.stage = .blocks ∧ r.more c = true ∧ s.requestsOpen = false then
      some (s.goTo r (.failing "byte channel closed"))
    else none
  | .recv =>
    match r.stage, s.chunks with
    | .chunks block served, chunk :: rest =>
      some (receive { s with chunks := rest } r c block served chunk)
    | _, _ => none
  | .recvClosed =>
    match r.stage, s.chunks, s.peer with
    | .chunks _ _, [], .closed => some (s.goTo r (.failing "mediahost closed byte channel"))
    | _, _, _ => none
  | .send =>
    match r.stage with
    | .sending block served chunk =>
      if c.gone = false ∧ c.out.length < outRoom then
        some ((s.setCall r.call
          { c with out := c.out ++ [.bytes chunk.call chunk.msg.data] }).goTo r
            (.chunks block served))
      else none
    | _ => none
  | .sendGone =>
    match r.stage with
    | .sending block served _ =>
      if c.gone = true then
        some (s.goTo { r with consumerGone := true } (.chunks block served))
      else none
    | _ => none
  | .sendError =>
    match r.stage with
    | .failing msg =>
      if c.gone = true then some (s.finish r c)
      else if c.out.length < outRoom then
        some (s.finish r { c with out := c.out ++ [.error msg] })
      else none
    | _ => none

/-! ## The peer -/

inductive PeerEvent
  | open
  /-- Admission or opening failed; the message begins with what failed. -/
  | refuse (msg : String)
  | take
  /-- A read of the file that returned `n` bytes. -/
  | read (n : ℕ)
  | endBlock
  /-- A failed read or a failed admission while serving. -/
  | fail (msg : String)
  /-- The peer returns or its link breaks; of what it sent, `kept` chunks arrive. -/
  | hangUp (kept : ℕ)
  /-- The receiver of the requests is dropped. -/
  | dropRequests
  deriving DecidableEq

def errorChunk (offset : ℕ) (msg : String) : ByteChunk := ⟨offset, [], false, msg⟩

def dataChunk (offset : ℕ) (data : List UInt8) : ByteChunk := ⟨offset, data, false, ""⟩

def endChunk (offset : ℕ) : ByteChunk := ⟨offset, [], true, ""⟩

/-- `u64::saturating_add`. -/
def saturatingAdd (a b : ℕ) : ℕ := min (a + b) (2 ^ 64 - 1)

/-- One step of the peer (lines 138–290; `serve.rs`, lines 207–264). -/
def peerNext (src : Source) (wire : Wire) (s : State) : PeerEvent → Option State
  | .open => if s.peer = .opening then some { s with peer := .idle } else none
  | .refuse msg =>
    if s.peer = .opening ∧ msg ≠ "" ∧ s.chunks.length < wire.chunkRoom then
      some { s with peer := .closed, chunks := s.chunks ++ [⟨none, errorChunk 0 msg⟩] }
    else none
  | .take =>
    match s.peer, s.requests with
    | .idle, req :: rest =>
      some { s with
        requests := rest
        peer := .serving req.call (min req.msg.offset src.size)
          (min (saturatingAdd req.msg.offset req.msg.len) src.size) }
    | _, _ => none
  | .read n =>
    match s.peer with
    | .serving call cur stop =>
      if cur < stop ∧ n ≤ min (stop - cur) chunkSize ∧ cur + n ≤ src.bytes.length ∧
          -- a read returns nothing only at the end of the file
          (n = 0 → src.bytes.length ≤ cur) ∧ s.chunks.length < wire.chunkRoom then
        if n = 0 then some { s with peer := .serving call cur cur }
        else some { s with
          peer := .serving call (cur + n) stop
          chunks := s.chunks ++
            [⟨call, dataChunk cur ((src.bytes.drop cur).take n)⟩] }
      else none
    | _ => none
  | .endBlock =>
    match s.peer with
    | .serving call cur stop =>
      if stop ≤ cur ∧ s.chunks.length < wire.chunkRoom then
        some { s with peer := .idle, chunks := s.chunks ++ [⟨call, endChunk cur⟩] }
      else none
    | _ => none
  | .fail msg =>
    match s.peer with
    | .serving call cur _ =>
      if s.chunks.length < wire.chunkRoom then
        some { s with peer := .closed, chunks := s.chunks ++ [⟨call, errorChunk cur msg⟩] }
      else none
    | _ => none
  | .hangUp kept => some { s with peer := .closed, chunks := s.chunks.take kept }
  | .dropRequests =>
    if s.peer = .closed then some { s with requests := [], requestsOpen := false } else none

/-! ## Consumers and the machine -/

inductive ConsumerEvent
  | poll
  | close
  | drop
  deriving DecidableEq

/-- One step of the consumer of the call `i`. -/
def consumerNext (s : State) (i : ℕ) (c : Call) : ConsumerEvent → Option State
  | .poll =>
    match c.out with
    | item :: rest =>
      if c.gone = false then some (s.setCall i { c with out := rest, taken := c.taken ++ [item] })
      else none
    | [] => none
  | .close =>
    if c.gone = false ∧ c.out = [] ∧ c.phase = .finished ∧ c.ended = false then
      some (s.setCall i { c with ended := true })
    else none
  | .drop => if c.gone = false then some (s.setCall i { c with gone := true }) else none

inductive Event
  /-- `read_range` on a clone of the lease. -/
  | readRange (offset len : ℕ)
  /-- The task of a call gets the lock (line 63). -/
  | lock (i : ℕ)
  | reader (e : ReaderEvent)
  | peer (e : PeerEvent)
  | consumer (i : ℕ) (e : ConsumerEvent)
  deriving DecidableEq

/-- One step of the system. -/
def leaseNext (src : Source) (wire : Wire) (s : State) : Event → Option State
  | .readRange offset len =>
    if offset + len < 2 ^ 64 then
      some { s with calls := s.calls ++ [⟨offset, len, .waiting, [], [], false, false⟩] }
    else none
  | .lock i =>
    match s.holder, s.calls[i]? with
    | none, some c =>
      if c.phase = .waiting then
        some { s.setCall i { c with phase := .reading } with
          holder := some ⟨i, c.offset, false, .blocks⟩ }
      else none
    | _, _ => none
  | .reader e =>
    match s.holder with
    | none => none
    | some r =>
      match s.calls[r.call]? with
      | none => none
      | some c => readerNext wire s r c e
  | .peer e => peerNext src wire s e
  | .consumer i e =>
    match s.calls[i]? with
    | none => none
    | some c => consumerNext s i c e

/-- The lease on the file `src`. -/
def lease (src : Source) (wire : Wire) : Machine State Event := ⟨State.new, leaseNext src wire⟩

end Kahawai.Hub.Leases
