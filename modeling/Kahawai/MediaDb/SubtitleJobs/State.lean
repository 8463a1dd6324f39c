import Mathlib.Data.List.Sort
import Kahawai.Proto
import Kahawai.Lib.Runs
import Kahawai.Lib.Table

/-!
# The queue of subtitle work

Model of `crates/kahawai-mediadb/src/subtitles_work.rs` with the table of the
migration `0009_subtitle_outstanding_work.sql`: one row of `subtitle_jobs` per
probed file and kind. A row is `pending` or `retry` until it is claimed, `running`
while it is leased to the mediahost `host`, and `blocked` after too many failures;
finished work has no row.

Every function is one statement or one transaction, and one event of `machine`. A
transaction of the catalogue may replace, remove and move files in any way, and
writes the rows of some of them with `upsert_subtitle_jobs`. The tokens and the
errors of rows, which nothing reads, are left out. The metadata of a file stays
the text of `media_json`.
-/

namespace Kahawai.MediaDb.SubtitleJobs

open Kahawai.Core Kahawai.Lib Kahawai.Proto

/-! ## Tables -/

/-- `SUBTITLE_KINDS`. -/
inductive Kind
  | text
  | sets
  deriving DecidableEq

/-- `SUBTITLE_KINDS` in the order in which the driver offers them. -/
def subtitleKinds : List Kind := [.text, .sets]

inductive JobState
  | pending
  | running
  | retry
  | blocked
  deriving DecidableEq

/-- A row of `subtitle_jobs`. -/
structure Job where
  fileId : Text
  kind : Kind
  state : JobState
  dueAt : ℤ
  attempts : ℕ
  leaseUntil : ℤ
  host : Option Text
  deriving DecidableEq

/-- The primary key. -/
def Job.key (j : Job) : Text × Kind := (j.fileId, j.kind)

/-- A row with the defaults of its columns. -/
def Job.fresh (fileId : Text) (kind : Kind) : Job := ⟨fileId, kind, .pending, 0, 0, 0, none⟩

/-- A row of `collections`. -/
structure CollectionRow where
  id : Text
  mediahostId : Text
  remoteId : Text
  mediaType : MediaType
  snapshotActive : Bool
  deriving DecidableEq

/-- A row of `collection_roots`. -/
structure RootRow where
  id : Text
  token : Text
  deriving DecidableEq

/-- A row of `files`, with the item that its part belongs to. -/
structure FileRow where
  id : Text
  collectionId : Text
  rootId : Text
  path : Text
  version : ℕ
  size : Option ℕ
  mtime : Option ℤ
  headHash : Option ℕ
  tailHash : Option ℕ
  media : Option Text
  itemId : Option Text
  deriving DecidableEq

/-- What a catalogue transaction writes. -/
structure Catalogue where
  collections : Table CollectionRow.id
  roots : Table RootRow.id
  files : Table FileRow.id

structure Db where
  catalogue : Catalogue
  jobs : Table Job.key

/-- `struct SourceFile`. -/
structure SourceFile where
  fileId : Text
  observedVersion : ℕ
  host : Text
  collectionId : Text
  remoteId : Text
  mediaType : MediaType
  rootToken : Text
  path : Text
  size : ℕ
  mtime : ℤ
  headHash : ℕ
  tailHash : ℕ
  media : Text
  itemId : Option Text
  deriving DecidableEq

/-- `struct SubtitleJob` without its token. -/
structure SubtitleJob where
  kind : Kind
  attempts : ℕ
  file : SourceFile
  deriving DecidableEq

/-- `BLOCK_AFTER_ATTEMPTS`. -/
def blockAfterAttempts : ℕ := 6

/-! ## Queries -/

/-- The joins of a row with its file, root and collection, and the conditions
    `c.mediahost_id=? AND c.snapshot_active=0 AND f.media_json IS NOT NULL AND
    f.size IS NOT NULL`; the row it selects is read by `source_file`. -/
def Catalogue.offered (c : Catalogue) (host : Text) (j : Job) : Option (FileRow × SourceFile) := do
  let file ← c.files.get? j.fileId
  let root ← c.roots.get? file.rootId
  let collection ← c.collections.get? file.collectionId
  let media ← file.media
  let size ← file.size
  if collection.mediahostId = host ∧ collection.snapshotActive = false then
    some (file, ⟨file.id, file.version, collection.mediahostId, collection.id, collection.remoteId,
      collection.mediaType, root.token, file.path, size, file.mtime.getD 0, file.headHash.getD 0,
      file.tailHash.getD 0, media, file.itemId⟩)
  else none

/-- An unexpired lease: `kind=? AND host=? AND state='running' AND lease_until>?`. -/
def Job.leased (kind : Kind) (host : Text) (now : ℤ) (j : Job) : Bool :=
  j.kind = kind && j.host = some host && j.state = .running && now < j.leaseUntil

/-- The condition of the claim on a row: due, or with an expired lease. -/
def Job.claimable (now : ℤ) (j : Job) : Bool :=
  ((j.state = .pending || j.state = .retry) && j.dueAt ≤ now) ||
    (j.state = .running && j.leaseUntil ≤ now)

/-- `CASE state WHEN 'running' THEN lease_until ELSE due_at END`. -/
def Job.wake (j : Job) : ℤ := if j.state = .running then j.leaseUntil else j.dueAt

/-- The number of unexpired leases. -/
def Db.leases (db : Db) (kind : Kind) (host : Text) (now : ℤ) : ℕ :=
  db.jobs.rows.countP (Job.leased kind host now)

/-- The first key of `ORDER BY`. `NULL` comes last, and is not in a list that is
    not empty. -/
def inFlightKey (inFlight : List Text) (itemId : Option Text) : Option Bool :=
  match itemId with
  | some item => some (inFlight.contains item)
  | none => if inFlight.isEmpty then some false else none

/-- `ORDER BY` of the claim. -/
def wanted (inFlight : List Text) (a b : FileRow × SourceFile) : Ordering :=
  (compare (inFlightKey inFlight b.2.itemId) (inFlightKey inFlight a.2.itemId)).then <|
  (compare (decide (b.2.mediaType = .movies)) (decide (a.2.mediaType = .movies))).then <|
  (compare b.1.mtime a.1.mtime).then <|
  (compare a.2.rootToken b.2.rootToken).then (compare a.2.path b.2.path)

/-- The rows that a claim may take, the most wanted first. -/
def Db.candidates (db : Db) (kind : Kind) (host : Text) (inFlight : List Text) (now : ℤ) :
    List (ℕ × SourceFile) :=
  let rows := db.jobs.rows.filter fun j => j.kind = kind && j.claimable now
  let offers := rows.filterMap fun j =>
    (db.catalogue.offered host j).map fun (file, source) => (j.attempts, file, source)
  (offers.insertionSort fun a b => wanted inFlight a.2 b.2 ≠ .gt).map fun c => (c.1, c.2.2)

/-! ## Functions -/

/-- The columns that a claim writes. -/
def Job.lease (j : Job) (host : Text) (until_ : ℤ) : Job :=
  { j with state := .running, leaseUntil := until_, attempts := j.attempts + 1, host := some host }

/-- The columns of a row that waits again. -/
def Job.release (j : Job) : Job :=
  { j with state := .pending, dueAt := 0, attempts := 0, leaseUntil := 0 }

/-- The columns of a row that failed. -/
def Job.fail (j : Job) (dueAt : ℤ) : Job :=
  { j with
    state := if blockAfterAttempts ≤ j.attempts then .blocked else .retry
    dueAt := dueAt
    leaseUntil := 0 }

/-- Change the rows that satisfy `p`; `f` keeps the key. -/
def Db.update (db : Db) (p : Job → Bool) (f : Job → Job) (hf : ∀ j, (f j).key = j.key) : Db :=
  { db with
    jobs := db.jobs.mapRows (fun j => if p j then f j else j) fun j => by split <;> simp [hf] }

/-- `claim_subtitle_jobs` (lines 177–252), or `none` where the lease is not
    positive. -/
def claimSubtitleJobs (kind : Kind) (host : Text) (inFlight : List Text) (now leaseSeconds : ℤ)
    (limit : ℕ) (db : Db) : Option (List SubtitleJob × Db) :=
  if leaseSeconds ≤ 0 then none
  else
    let available := limit - db.leases kind host now
    if available = 0 then some ([], db)
    else
      let rows := (db.candidates kind host inFlight now).take available
      let jobs := rows.map fun (attempts, file) => ⟨kind, attempts + 1, file⟩
      let claimed := rows.map fun (_, file) => file.fileId
      some (jobs, db.update (fun j => j.kind = kind && claimed.contains j.fileId)
        (fun j => j.lease host (now + leaseSeconds)) fun _ => rfl)

/-- `id=?1 AND version=?3`: the file still is what was captured. -/
def Db.current (db : Db) (file : SourceFile) : Bool :=
  (db.catalogue.files.get? file.fileId).any fun row => row.version = file.observedVersion

/-- `reconcile_subtitle_job` (lines 152–175). -/
def reconcileSubtitleJob (file : SourceFile) (kind : Kind) (missing : Bool) (db : Db) : Db :=
  if !db.current file then db
  else if missing then
    match db.jobs.get? (file.fileId, kind) with
    | none => { db with jobs := db.jobs.put (.fresh file.fileId kind) }
    | some _ => db
  else { db with jobs := db.jobs.erase (file.fileId, kind) }

/-- `fail_subtitle_job` (lines 359–373). -/
def failSubtitleJob (file : SourceFile) (kind : Kind) (dueAt : ℤ) (db : Db) : Db :=
  db.update (fun j => j.fileId = file.fileId && j.kind = kind && db.current file)
    (fun j => j.fail dueAt) fun _ => rfl

/-- `release_subtitle_host` (lines 375–388). -/
def releaseSubtitleHost (host : Text) (db : Db) : Db :=
  db.update (fun j => j.host = some host && j.state = .running) Job.release fun _ => rfl

/-- `rerun_subtitle_jobs` (lines 390–403). -/
def rerunSubtitleJobs (kind : Kind) (db : Db) : Db :=
  db.update (fun j => j.kind = kind && (j.state = .blocked || j.state = .retry)) Job.release
    fun _ => rfl

/-- `subtitle_dispatch_state` (lines 421–457): the unexpired leases, and when to
    look again. -/
def subtitleDispatchState (kind : Kind) (host : Text) (now : ℤ) (refillAt : ℕ) (db : Db) :
    ℕ × Option ℤ :=
  let leased := db.jobs.rows.filter (Job.leased kind host now)
  let running := leased.length
  let lease := (leased.map Job.leaseUntil).min?
  if running > refillAt then (running, lease)
  else
    let rows := db.jobs.rows.filter fun j =>
      j.kind = kind && (db.catalogue.offered host j).isSome && j.state ≠ .blocked
    let due := (rows.map Job.wake).min?
    (running, (due.toList ++ lease.toList).min?)

/-- The statement of `upsert_subtitle_jobs` for one kind. -/
def upsertSubtitleJob (fileId : Text) (changed : Bool) (jobs : Table Job.key) (kind : Kind) :
    Table Job.key :=
  match jobs.get? (fileId, kind) with
  | none => jobs.put (.fresh fileId kind)
  | some _ => if changed then jobs.put (.fresh fileId kind) else jobs

/-- `upsert_subtitle_jobs` (lines 476–503). -/
def upsertSubtitleJobs (fileId : Text) (changed : Bool) (jobs : Table Job.key) : Table Job.key :=
  subtitleKinds.foldl (upsertSubtitleJob fileId changed) jobs

/-- A catalogue transaction: the rows of removed files go with them, and the rows
    of the files in `upserts` are written. -/
def commitCatalogue (catalogue : Catalogue) (upserts : List (Text × Bool)) (db : Db) : Db where
  catalogue := catalogue
  jobs := upserts.foldl (fun jobs (fileId, changed) => upsertSubtitleJobs fileId changed jobs)
    (db.jobs.filter fun j => (catalogue.files.get? j.fileId).isSome)

/-! ## Runs -/

structure System where
  now : ℤ
  db : Db

inductive Event
  | tick (seconds : ℕ)
  | commit (catalogue : Catalogue) (upserts : List (Text × Bool))
  | claim (kind : Kind) (host : Text) (inFlight : List Text) (leaseSeconds : ℤ) (limit : ℕ)
  | reconcile (file : SourceFile) (kind : Kind) (missing : Bool)
  | fail (file : SourceFile) (kind : Kind) (dueAt : ℤ)
  | release (host : Text)
  | rerun (kind : Kind)

/-- The state after an event; a claim that is refused changes nothing. -/
def System.next (s : System) : Event → Option System
  | .tick seconds => some { s with now := s.now + seconds }
  | .commit catalogue upserts => some { s with db := commitCatalogue catalogue upserts s.db }
  | .claim kind host inFlight leaseSeconds limit =>
    match claimSubtitleJobs kind host inFlight s.now leaseSeconds limit s.db with
    | none => some s
    | some (_, db) => some { s with db := db }
  | .reconcile file kind missing => some { s with db := reconcileSubtitleJob file kind missing s.db }
  | .fail file kind dueAt => some { s with db := failSubtitleJob file kind dueAt s.db }
  | .release host => some { s with db := releaseSubtitleHost host s.db }
  | .rerun kind => some { s with db := rerunSubtitleJobs kind s.db }

def emptyDb : Db := ⟨⟨Table.empty, Table.empty, Table.empty⟩, Table.empty⟩

/-- All sequences of events from an empty queue. -/
def machine (now : ℤ) : Machine System Event := ⟨⟨now, emptyDb⟩, System.next⟩

end Kahawai.MediaDb.SubtitleJobs
