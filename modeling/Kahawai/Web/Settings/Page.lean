import Kahawai.Lib.Runs
import Kahawai.Web.Settings.Prefs

/-!
# The settings page

Model of `useOptimistic` (`web/src/composables/optimistic.ts`, lines 17–69), of
`SerialQueue` (`serial.ts`, lines 13–30) and `putPref` (`prefs.ts`, lines 13–17), and of
the edits of `web/src/views/Settings.vue` (lines 43–170): `writerFor`, `save`, the three
edits of a language list, the one-press `promote`, and the two orders.

An edit computes a whole value from what is shown. Its write waits in the queue of its
key, is handled by the hub, which may refuse it, and settles. The page reads all
preferences, with those of titles; a read is started, answered by the hub, and lands, each
at any time and in any order. An answer that is equal to the one before it changes nothing
on the page, since the query keeps the old object then; any other overwrites all values.
Other pages remember things for titles in the meantime.
-/

namespace Kahawai.Web.Settings

open Kahawai.Core Kahawai.Lib

/-! ## The page -/

inductive Status
  | waiting
  | accepted
  | refused
  deriving DecidableEq

/-- A call of `put`, with what was shown when its value was computed. -/
structure Pending where
  mine : ℕ
  base : Text
  value : Text
  status : Status
  deriving DecidableEq

/-- The state of `useOptimistic` and the queue of its key. -/
structure Writer where
  seq : ℕ
  inflight : ℕ
  saved : Text
  savedSeq : ℕ
  queue : List Pending
  deriving DecidableEq

def Writer.new : Writer := ⟨0, 0, [], 0, []⟩

/-- `put`, up to its request. -/
def Writer.put (w : Writer) (current next : Text) : Writer :=
  let saved := if w.inflight = 0 then current else w.saved
  let mine := w.seq + 1
  { w with
    seq := mine
    inflight := w.inflight + 1
    saved := saved
    queue := w.queue ++ [⟨mine, current, next, .waiting⟩] }

/-- `put`, after its request, and the value that it puts back. -/
def Writer.settle (w : Writer) (p : Pending) : Writer × Option Text :=
  let w := { w with queue := w.queue.tail, inflight := w.inflight - 1 }
  match p.status with
  | .refused => (w, if p.mine = w.seq then some w.saved else none)
  | _ => (if p.mine > w.savedSeq then { w with savedSeq := p.mine, saved := p.value } else w, none)

/-- An edit that is accepted: what the hub held, what the edit was computed from, and the
    refused edits of its key up to then, each from what to what. -/
structure Accepted where
  key : Text
  held : Text
  base : Text
  value : Text
  refused : List (Text × Text)

/-- The page, its reads that are in flight, and the hub's rows. `landed` is the answer
    that the query holds; the page shows nothing before the first. The last two fields are
    history. -/
structure System where
  values : Text → Option Text
  landed : Option (List Preference)
  writers : Text → Writer
  reads : List (Option (List Preference))
  rows : List Preference
  refused : Text → List (Text × Text)
  log : List Accepted

def System.shown (s : System) (key : Text) : Text := (s.values key).getD []

/-- What the hub holds. -/
def System.held (s : System) (key : Text) : Text := (known s.rows key).getD []

def System.setValue (s : System) (key value : Text) : System :=
  { s with values := Function.update s.values key (some value) }

/-! ## The edits -/

inductive Edit
  | save (key next : Text)
  | add (kind : Kind) (mediaType typed : Text)
  | move (kind : Kind) (mediaType : Text) (start finish : ℤ)
  | remove (kind : Kind) (mediaType : Text) (place : ℤ)
  | promote (kind : Kind) (mediaType : Text) (place : ℕ)
  | moveSubtitleKind (start finish : ℤ)
  | moveRung (start finish : ℤ)

def listKey (kind : Kind) (mediaType : Text) : Text :=
  (match kind with
    | .audio => lit "audio"
    | .subs => lit "subs") ++ '.' :: mediaType

/-- `listFor`. -/
def System.listFor (s : System) (kind : Kind) (mediaType : Text) : List Text :=
  wishlist (s.shown (listKey kind mediaType)) kind

/-- What an edit saves, if it saves anything. -/
def System.next (unicode : Unicode) (s : System) : Edit → Option (Text × Text)
  | .save key next => some (key, next)
  | .add kind mediaType typed =>
    let token := unicode.toLower (trim typed)
    let items := s.listFor kind mediaType
    if !validToken unicode token || items.contains token then none
    else some (listKey kind mediaType, stored (addAbove items token ORIGINAL))
  | .move kind mediaType start finish =>
    (moved (s.listFor kind mediaType) start finish).map fun next =>
      (listKey kind mediaType, stored next)
  | .remove kind mediaType place =>
    let items := s.listFor kind mediaType
    some (listKey kind mediaType, stored (if place < 0 then items else items.eraseIdx place.toNat))
  | .promote kind mediaType place =>
    let items := s.listFor kind mediaType
    items[place]?.map fun picked => (listKey kind mediaType, stored (picked :: items.eraseIdx place))
  | .moveSubtitleKind start finish =>
    let value := (s.values SUBTITLE_KIND).or (s.values LEGACY_WEB_SUBTITLE_KIND)
    (moved (subtitleKindOrder (value.getD [])) start finish).map fun next =>
      (SUBTITLE_KIND, stored next)
  | .moveRung start finish =>
    (moved (assLadder (s.shown (lit "ass_order"))) start finish).map fun next =>
      (lit "ass_order", stored next)

/-- `save`, up to its request. -/
def System.put (s : System) (key next : Text) : System :=
  { s.setValue key next with
    writers := Function.update s.writers key ((s.writers key).put (s.shown key) next) }

/-- An edit, on a page that shows the preferences. -/
def System.edit (unicode : Unicode) (s : System) (edit : Edit) : Option System :=
  if s.landed.isSome then (s.next unicode edit).map fun (key, next) => s.put key next else none

/-! ## The writes and the reads -/

def Writer.setHead (w : Writer) (status : Status) : Writer :=
  match w.queue with
  | [] => w
  | p :: ps => { w with queue := { p with status := status } :: ps }

/-- The hub handles the first write of a key: it stores the value, unless it refuses the
    request, or fails. -/
def System.handle (s : System) (key : Text) (ok : Bool) : Option System :=
  match (s.writers key).queue with
  | ⟨_, base, value, .waiting⟩ :: _ =>
    match ok, putPref s.rows [] key value with
    | true, some rows => some { s with
        rows := rows
        writers := Function.update s.writers key ((s.writers key).setHead .accepted)
        log := s.log ++ [⟨key, s.held key, base, value, s.refused key⟩] }
    | _, _ => some { s with
        writers := Function.update s.writers key ((s.writers key).setHead .refused)
        refused := Function.update s.refused key (s.refused key ++ [(base, value)]) }
  | _ => none

/-- The answer reaches its `put`. -/
def System.settle (s : System) (key : Text) : Option System :=
  match (s.writers key).queue with
  | [] | ⟨_, _, _, .waiting⟩ :: _ => none
  | p :: _ =>
    let (w, back) := (s.writers key).settle p
    let s := { s with writers := Function.update s.writers key w }
    some (match back with
      | none => s
      | some value => s.setValue key value)

/-- An answer lands: the query keeps the object that it has, if they are equal, and the
    watch on `known` copies any other. -/
def System.land (s : System) (k : ℕ) : Option System := do
  let rows ← (← s.reads[k]?)
  let reads := s.reads.eraseIdx k
  if s.landed = some rows then some { s with reads := reads }
  else some { s with reads := reads, landed := some rows, values := known rows }

inductive Event
  | edit (edit : Edit)
  | handle (key : Text) (ok : Bool)
  | settle (key : Text)
  | poll
  | serve (k : ℕ)
  | land (k : ℕ)
  | remember (scope key value : Text)

def System.step (unicode : Unicode) (s : System) : Event → Option System
  | .edit edit => s.edit unicode edit
  | .handle key ok => s.handle key ok
  | .settle key => s.settle key
  | .poll => some { s with reads := s.reads ++ [none] }
  | .serve k =>
    match s.reads[k]? with
    | some none => some { s with reads := s.reads.set k (some s.rows) }
    | _ => none
  | .land k => s.land k
  | .remember scope key value =>
    if scope = [] then none else (putPref s.rows scope key value).map fun rows => { s with rows := rows }

/-- All runs of a page that is opened on a hub with some preferences. It has started its
    first read. -/
def machine (unicode : Unicode) (rows : List Preference) : Machine System Event :=
  ⟨⟨fun _ => none, none, fun _ => .new, [none], rows, fun _ => [], []⟩, System.step unicode⟩

/-- What a key should show: the newest write that waits for the hub, or what the hub
    holds. -/
def System.expected (s : System) (key : Text) : Text :=
  match ((s.writers key).queue.filter (·.status = .waiting)).getLast? with
  | some p => p.value
  | none => s.held key

/-- The condition on an event: an answer that overwrites the values has, for every key,
    the value that the key should show. -/
def System.Sound (s : System) : Event → Prop
  | .land k => ∀ rows, s.reads[k]? = some (some rows) → s.landed ≠ some rows →
      ∀ key, (known rows key).getD [] = s.expected key
  | _ => True

end Kahawai.Web.Settings
