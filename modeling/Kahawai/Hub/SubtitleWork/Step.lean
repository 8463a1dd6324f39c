import Kahawai.MediaDb.SubtitleJobs.State

/-!
# One step of the subtitle queue

Model of `step` (`crates/kahawai-hub/src/subtitles/work.rs` lines 270–361) with
`text_item`, `sets_items` and `messages` of that file and `extract_ref` of
`subtitles.rs`. A step leases a window of jobs for each connected mediahost and
kind, inspects their tracks, settles the jobs that need nothing and sends the rest
to the host.

`step` is a machine whose position names the call it makes next, and an event says
whether that call succeeds. The files of the cache, which `try_exists` looks for
and which may not be readable, the metadata of a file and the revisions computed
from it are parameters.
-/

namespace Kahawai.Hub.SubtitleWork

open Kahawai.Core Kahawai.Core.Text Kahawai.Lib Kahawai.MediaDb.SubtitleJobs
open Kahawai.Proto (SourceKey)

/-- `WINDOW`. -/
def window : ℕ := 16

/-- `REFILL_AT`. -/
def refillAt : ℕ := 8

/-- `LEASE_SECS`. -/
def leaseSecs : ℤ := 3600

/-! ## Tracks -/

/-- An entry of `external_subtitles`. -/
structure Sidecar where
  format : Text
  pathRel : Text
  track : Option ℕ
  deriving DecidableEq

/-- What `tracks` reads of a `MediaInfo`: the formats of the subtitle streams, and
    the sidecars. -/
structure Media where
  subtitles : List Text
  externalSubtitles : List Sidecar
  deriving DecidableEq

/-- `struct FileSource`. -/
structure FileSource where
  moduleId : Text
  collectionId : Text
  rootToken : Text
  pathRel : Text
  revision : Text
  sidecarRevision : Text
  info : Media
  deriving DecidableEq

inductive Origin
  | embedded
  | sidecar
  | other (name : Text)
  deriving DecidableEq

/-- `struct Track`. -/
structure Track where
  id : ℕ
  origin : Origin
  physical : Option FileSource
  moduleId : Option Text
  collectionId : Option Text
  rootToken : Option Text
  sourcePath : Option Text
  pathRel : Option Text
  streamIndex : Option ℕ
  format : Text
  deriving DecidableEq

/-- The name of a file of the cache: what `cache_key` computes it from, and its
    extension. -/
structure CacheFile where
  moduleId : Text
  collectionId : Text
  rootToken : Text
  pathRel : Text
  key : Text
  revision : Text
  extension : Text
  deriving DecidableEq

/-- An item of a worklist; text items have no index. -/
structure WorkItem where
  source : SourceKey
  subIndex : Option ℕ
  sourceRevision : Text
  rank : ℕ
  deriving DecidableEq

/-- `is_image_format`. -/
def isImageFormat (format : Text) : Bool :=
  format = lit "pgs" || format = lit "vobsub" || format = lit "dvdsub"

/-- `Track::internal_key`. -/
def Track.internalKey (t : Track) : Text :=
  match t.origin with
  | .embedded => 'e' :: Nat.toDigits 10 (t.streamIndex.getD 0)
  | .sidecar => 's' :: Nat.toDigits 10 (t.streamIndex.getD 0)
  | .other _ => 'd' :: Nat.toDigits 10 t.id

/-- `Track::source_revision`. -/
def Track.sourceRevision (t : Track) : Except Text Text :=
  match t.physical with
  | none => .error (lit "track has no captured source")
  | some physical =>
    .ok (if t.origin = .sidecar then physical.sidecarRevision else physical.revision)

/-- `extract_ref` (`subtitles.rs`, lines 640–687), without the language. -/
def extractRef (t : Track) : Except Text (Text × Text × Text × Text × ℕ) := do
  if !isImageFormat t.format then
    throw (lit "track " ++ Nat.toDigits 10 t.id ++ lit " is " ++ t.format ++
      lit ", not an image subtitle")
  match t.moduleId with
  | none => throw (lit "hub-stored track has no source to extract")
  | some moduleId =>
    let collectionId := t.collectionId.getD []
    let rootToken := t.rootToken.getD []
    let index := t.streamIndex.getD 0
    match t.origin with
    | .embedded => return (moduleId, collectionId, rootToken, t.sourcePath.getD [], index)
    | .sidecar =>
      match t.physical with
      | none => throw (lit "subtitle track has no captured physical source")
      | some physical =>
        match physical.info.externalSubtitles[index]? with
        | none => throw (lit "sidecar entry " ++ Nat.toDigits 10 index ++ lit " vanished")
        | some ext => return (moduleId, collectionId, rootToken, ext.pathRel, ext.track.getD 0)
    | .other name => throw (lit "cannot OCR a track of origin " ++ name)

/-- What a step finds outside the queue: the connected hosts, which of them take
    batches of image tracks, the items in flight, the metadata of a file and its two
    revisions, and whether a file is in the cache. -/
structure Env where
  now : ℤ
  hosts : List Text
  supportsImageSubs : Text → Bool
  inFlight : List Text
  media : SourceFile → Media
  revision : SourceFile → Text
  sidecarRevision : SourceFile → Text
  tryExists : CacheFile → Except Text Bool

/-- `physical` of `sessions/catalogue.rs`. -/
def Env.physical (env : Env) (file : SourceFile) : FileSource where
  moduleId := file.host
  collectionId := file.remoteId
  rootToken := file.rootToken
  pathRel := file.path
  revision := env.revision file
  sidecarRevision := env.sidecarRevision file
  info := env.media file

/-- `tracks` of `sessions/catalogue.rs` (lines 289–359). -/
def Env.tracks (env : Env) (file : SourceFile) : List Track :=
  let media := env.media file
  let embedded := media.subtitles.mapIdx fun index format => (index, Origin.embedded, format, none)
  let sidecars := media.externalSubtitles.mapIdx fun index s =>
    (index, Origin.sidecar, s.format, some s.pathRel)
  let all := (embedded ++ sidecars).mapIdx fun place (index, origin, format, pathRel) =>
    { id := place + 1, origin, physical := some (env.physical file), moduleId := some file.host,
      collectionId := some file.remoteId, rootToken := some file.rootToken,
      sourcePath := some file.path, pathRel, streamIndex := some index, format : Track }
  all.filter fun t => !t.pathRel.any fun path => (lit "mediadb-download:").isPrefixOf path

/-- `text_item` (lines 363–412). -/
def Env.textItem (env : Env) : List Track → Except Text (Option WorkItem)
  | [] => .ok none
  | t :: tracks =>
    if t.origin ≠ .embedded || isImageFormat t.format then env.textItem tracks
    else
      match t.physical with
      | none => .error (lit "subtitle has no captured source")
      | some source => do
        let revision ← t.sourceRevision
        let cached ← env.tryExists ⟨source.moduleId, source.collectionId, source.rootToken,
          source.pathRel, t.internalKey, revision, lit "json"⟩
        if cached then env.textItem tracks
        else return some ⟨⟨source.rootToken, source.pathRel⟩, none, revision, 0⟩

/-- `sets_items` (lines 414–452). -/
def Env.setsItems (env : Env) : List Track → Except Text (List WorkItem)
  | [] => .ok []
  | t :: tracks =>
    if !isImageFormat t.format then env.setsItems tracks
    else do
      let (host, collection, root, rel, index) ← extractRef t
      let revision ← t.sourceRevision
      let cached ← env.tryExists ⟨host, collection, root, rel, 'i' :: Nat.toDigits 10 index, revision,
        lit "sets"⟩
      if cached then env.setsItems tracks
      else
        let rest ← env.setsItems tracks
        return ⟨⟨root, rel⟩, some index, revision, 0⟩ :: rest

/-- The items of a job of some kind. -/
def Env.items (env : Env) (kind : Kind) (file : SourceFile) : Except Text (List WorkItem) :=
  match kind with
  | .text => (env.textItem (env.tracks file)).map Option.toList
  | .sets => env.setsItems (env.tracks file)

/-! ## Messages -/

/-- `SubsWorklist` or `ImageSubsWorklist`, by its kind. -/
structure Message where
  kind : Kind
  collectionId : Text
  items : List WorkItem

/-- `by_collection`: a sorted map from collections to items. -/
abbrev Batches := List (Text × List WorkItem)

/-- Add items to the entry of a collection. -/
def Batches.add (collectionId : Text) (items : List WorkItem) : Batches → Batches
  | [] => [(collectionId, items)]
  | (k, held) :: rest =>
    if k = collectionId then (k, held ++ items) :: rest
    else if compare collectionId k = .lt then (collectionId, items) :: (k, held) :: rest
    else (k, held) :: Batches.add collectionId items rest

/-- `slice::chunks`; `chunk` is gathered so far. -/
def chunks (size : ℕ) : List WorkItem → List WorkItem → List (List WorkItem)
  | chunk, [] => if chunk.isEmpty then [] else [chunk]
  | chunk, item :: items =>
    if chunk.length < size then chunks size (chunk ++ [item]) items
    else chunk :: chunks size [item] items

/-- `Items::messages` (lines 150–178) of all collections. -/
def messages (kind : Kind) (batches : Batches) : List Message :=
  batches.flatMap fun (collectionId, items) =>
    (chunks 5000 [] items).map fun chunk => ⟨kind, collectionId, chunk⟩

/-! ## The step -/

/-- A host and a kind whose window is refilled. -/
structure Window where
  host : Text
  kind : Kind

/-- The windows that the two outer loops of `step` visit. -/
def Env.windows (env : Env) : List Window :=
  env.hosts.flatMap fun host =>
    (subtitleKinds.filter fun kind => kind ≠ .sets || env.supportsImageSubs host).map (⟨host, ·⟩)

/-- `enum Step`. -/
inductive Step
  | worked
  | idle (nextDue : Option ℤ)

/-- Which call of a step has failed. -/
inductive Fault
  | store
  | inspect (error : Text)
  | send

/-- The call a step makes next. `rest` are the windows after this one, `todo` the
    jobs to inspect with their ranks. -/
inductive Position
  | look (windows : List Window)
  | refill (w : Window) (rest : List Window)
  | inspect (w : Window) (rest : List Window) (todo : List (SubtitleJob × ℕ)) (batches : Batches)
      (settled : ℕ)
  | settle (w : Window) (rest : List Window) (job : SubtitleJob) (todo : List (SubtitleJob × ℕ))
      (batches : Batches) (settled : ℕ)
  | send (w : Window) (rest : List Window) (todo : List Message) (settled : ℕ)
  | release (w : Window)
  | done (result : Except Fault Step)

/-- A step at work. `sent` are the messages handed to the link of a host and
    `claimed`, which is history, the jobs this step has claimed. -/
structure Run where
  db : Db
  position : Position
  worked : Bool
  nextDue : Option ℤ
  sent : List (Text × Message)
  claimed : List SubtitleJob

/-- Whether a call succeeds. -/
inductive Outcome
  | ok
  | fail
  deriving DecidableEq

def Run.at (s : Run) (position : Position) : Run := { s with position := position }

/-- `step` (lines 270–361), one call at a time. Inspecting the tracks of a job fails
    where `env` says so. -/
def Run.next (env : Env) (s : Run) (outcome : Outcome) : Option Run :=
  match s.position, outcome with
  | .look [], .ok => some (s.at (.done (.ok (if s.worked then .worked else .idle s.nextDue))))
  | .look (w :: rest), .ok =>
    let state := subtitleDispatchState w.kind w.host env.now refillAt s.db
    some { s with
      nextDue := (s.nextDue.toList ++ state.2.toList).min?
      position := if state.1 > refillAt then .look rest else .refill w rest }
  | .look (_ :: _), .fail => some (s.at (.done (.error .store)))
  | .refill w rest, .ok =>
    match claimSubtitleJobs w.kind w.host env.inFlight env.now leaseSecs window s.db with
    | none => none
    | some ([], db) => some { s with db := db, position := .look rest }
    | some (jobs, db) =>
      some { s with
        db := db
        worked := true
        claimed := s.claimed ++ jobs
        position := .inspect w rest jobs.zipIdx [] 0 }
  | .refill _ _, .fail => some (s.at (.done (.error .store)))
  | .inspect w rest [] batches settled, .ok => some (s.at (.send w rest (messages w.kind batches) settled))
  | .inspect w rest ((job, rank) :: todo) batches settled, .ok =>
    match env.items w.kind job.file with
    | .error e => some (s.at (.done (.error (.inspect e))))
    | .ok [] => some (s.at (.settle w rest job todo (batches.add job.file.remoteId []) settled))
    | .ok items =>
      let ranked := items.map fun item => { item with rank := rank }
      some (s.at (.inspect w rest todo (batches.add job.file.remoteId ranked) settled))
  | .settle w rest job todo batches settled, .ok =>
    some { s with
      db := reconcileSubtitleJob job.file w.kind false s.db
      position := .inspect w rest todo batches (settled + 1) }
  | .settle .., .fail => some (s.at (.done (.error .store)))
  | .send w rest [] settled, .ok => some (s.at (if settled = 0 then .look rest else .refill w rest))
  | .send w rest (m :: todo) settled, .ok =>
    some { s with sent := s.sent ++ [(w.host, m)], position := .send w rest todo settled }
  | .send w _ (_ :: _) _, .fail => some (s.at (.release w))
  | .release w, .ok =>
    some { s with db := releaseSubtitleHost w.host s.db, position := .done (.error .send) }
  | .release _, .fail => some (s.at (.done (.error .store)))
  | _, _ => none

/-- All runs of one step on a queue. -/
def machine (env : Env) (db : Db) : Machine Run Outcome :=
  ⟨⟨db, .look env.windows, false, none, [], []⟩, Run.next env⟩

end Kahawai.Hub.SubtitleWork
