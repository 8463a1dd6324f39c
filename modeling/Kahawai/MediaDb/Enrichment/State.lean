import Mathlib.Data.List.MinMax
import Mathlib.Data.Prod.Lex
import Kahawai.Core.Text
import Kahawai.Lib.Programs
import Kahawai.Lib.Table
import Kahawai.Proto

/-!
# The tables of enrichment

The tables that `crates/kahawai-mediadb/src/enrichment.rs` reads and writes, with
the schema after the migrations 1 to 13, and the statements on them. A trigger is
part of the statement that fires it, and so are the rows that a foreign key
deletes.

An ID is a ULID, which sorts by its time of creation; here it is a number. Titles
and years are left out: they only decide the library item of a copy, which
`rebind` writes and no modelled function reads. The order of the providers and
the media type of a collection do not change. Three fields are history and not
columns: `Job.answered`, `Candidate.earned` and `Db.asks`.
-/

namespace Kahawai.MediaDb.Enrichment

open Kahawai.Core Kahawai.Lib Kahawai.Proto

abbrev Id := ℕ

/-- The order of the integers without their completeness, so that a smallest row can
    be computed. -/
scoped instance intPreorder : Preorder ℤ := Int.instLinearOrder.toPreorder

/-! ## Provider records -/

/-- `struct Description`. The fields that are not images are one field, which is
    absent where all of them are. -/
structure Description where
  artwork : Option (List Text)
  logo : Option Text
  banner : Option Text
  backdrop : Option Text
  rest : Option Text
  deriving DecidableEq

/-- `struct ProviderRecord` without the title and the year. -/
structure ProviderRecord where
  provider : Text
  nameSpace : Text
  externalId : Text
  language : Text
  mediaType : MediaType
  description : Description
  children : Option Text
  seasonArtwork : Option Text
  deriving DecidableEq

/-- `UNIQUE(provider,namespace,external_id,language)`. -/
def ProviderRecord.key (r : ProviderRecord) : Text × Text × Text × Text :=
  (r.provider, r.nameSpace, r.externalId, r.language)

/-- A row of `provider_records`. -/
structure RecordRow where
  id : Id
  record : ProviderRecord
  deriving DecidableEq

/-- `struct RecordLink`. -/
structure RecordLink where
  provider : Text
  nameSpace : Text
  externalId : Text
  deriving DecidableEq

/-- A row of `provider_links`. -/
structure Link where
  record : Id
  link : RecordLink
  deriving DecidableEq

/-- A row of `metadata_supplements`. -/
structure Supplement where
  item : Id
  primary : Id
  record : Id
  deriving DecidableEq

def Supplement.key (s : Supplement) : Id × Id := (s.item, s.record)

/-- A row of `local_metadata`. -/
structure LocalMetadata where
  item : Id
  record : Id
  deriving DecidableEq

/-! ## Items and their jobs -/

/-- A row of `collection_items`. -/
structure Item where
  id : Id
  collection : Id
  enrichmentRevision : ℕ
  deriving DecidableEq

/-- A row of `library_collections`. -/
structure Membership where
  library : Id
  collection : Id
  deriving DecidableEq

inductive JobState
  | pending
  | running
  | retry
  | blocked
  | done
  deriving DecidableEq

/-- A row of `enrichment_jobs`. `answered` is how often the job had been asked for
    at the claim that completed it last. -/
structure Job where
  item : Id
  provider : Text
  revision : ℕ
  force : Bool
  state : JobState
  dueAt : ℤ
  attempts : ℕ
  token : Option Id
  leaseUntil : ℤ
  error : Option Text
  requestGeneration : ℕ
  answered : Option ℕ
  deriving DecidableEq

def Job.key (j : Job) : Id × Text := (j.item, j.provider)

/-- A row of `enrichment_providers`. -/
structure Pause where
  provider : Text
  dueAt : ℤ
  blocked : Bool
  error : Option Text
  deriving DecidableEq

/-- A row of `enrichment_candidates`. `earned` is the revision of the claim whose
    answer gave the strength. -/
structure Candidate where
  item : Id
  record : Id
  revision : ℕ
  strength : ℤ
  earned : Option ℕ
  deriving DecidableEq

def Candidate.key (c : Candidate) : Id × Id := (c.item, c.record)

/-- A row of `metadata_assignments`. -/
structure Assignment where
  item : Id
  record : Id
  manual : Bool
  strength : ℤ
  deriving DecidableEq

/-- A row of `metadata_rejections`. -/
structure Rejection where
  item : Id
  record : Id
  deriving DecidableEq

/-- The tables. `snapshots` is the column `snapshot_active` of `collections`.
    `asks` counts the requests for a job and the changes of its item's revision. -/
structure Db where
  items : Table Item.id
  memberships : Table fun m : Membership => m
  snapshots : Id → Bool
  jobs : Table Job.key
  pauses : Table Pause.provider
  candidates : Table Candidate.key
  assignments : Table Assignment.item
  rejections : Table fun r : Rejection => r
  records : Table RecordRow.id
  links : Table fun l : Link => l
  supplements : Table Supplement.key
  locals : Table LocalMetadata.item
  asks : Id → Text → ℕ

/-- What does not change: the media type of each collection, and the rows of
    `provider_order` in the order of their position. -/
structure Setup where
  mediaType : Id → MediaType
  order : MediaType → List Text
  nodup : ∀ kind, (order kind).Nodup

/-- The rows of `enrichment_lanes` after migration 13. -/
def enrichmentLanes : MediaType → List Text
  | .movies =>
    [lit "local", lit "local-artwork", lit "tmdb-artwork", lit "tvdb-artwork", lit "fanart",
      lit "fanart-artwork"]
  | .series =>
    [lit "local", lit "local-artwork", lit "tmdb-artwork", lit "tvdb-artwork", lit "fanart",
      lit "fanart-artwork"]
  | .anime =>
    [lit "local", lit "local-artwork", lit "tmdb-artwork", lit "tvdb-artwork", lit "anidb-hash",
      lit "anime-mappings", lit "anilist-artwork", lit "anidb-artwork", lit "fanart",
      lit "fanart-artwork"]
  | .music =>
    [lit "local", lit "local-artwork", lit "tmdb-artwork", lit "tvdb-artwork",
      lit "coverartarchive", lit "artist-collage", lit "fanart", lit "theaudiodb"]

variable (setup : Setup)

/-- The providers that have jobs for items of a media type. -/
def Setup.lanes (kind : MediaType) : List Text := (setup.order kind ++ enrichmentLanes kind).dedup

/-! ## Reads -/

namespace Db

/-- `EXISTS(SELECT 1 FROM library_collections …)`. -/
def inLibrary (db : Db) (collection : Id) : Bool :=
  db.memberships.rows.any fun m => m.collection = collection

def providerOf (db : Db) (record : Id) : Option Text :=
  (db.records.get? record).map fun row => row.record.provider

/-- The record that is assigned to the item. -/
def selected (db : Db) (item : Id) : Option Id :=
  (db.assignments.get? item).map Assignment.record

def rejected (db : Db) (item record : Id) : Bool :=
  db.rejections.rows.any fun r => r.item = item && r.record = record

/-- The provider is neither blocked nor paused. -/
def open? (db : Db) (provider : Text) (now : ℤ) : Bool :=
  match db.pauses.get? provider with
  | none => true
  | some pause => !pause.blocked && pause.dueAt ≤ now

end Db

/-! ## Jobs -/

/-- The columns that a request writes. -/
def Job.request (j : Job) : Job :=
  { j with
    requestGeneration := j.requestGeneration + 1
    state := if j.state = .done then .pending else j.state
    dueAt := if j.state = .done then 0 else j.dueAt }

/-- The columns that the trigger of a new revision writes. -/
def Job.renew (j : Job) (revision : ℕ) : Job :=
  { j with
    revision := revision
    requestGeneration := j.requestGeneration + 1
    state := .pending
    dueAt := 0
    token := none
    leaseUntil := 0
    error := none }

/-- A row with the defaults of its columns. -/
def newJob (item : Id) (provider : Text) (revision : ℕ) : Job where
  item := item
  provider := provider
  revision := revision
  force := false
  state := .pending
  dueAt := 0
  attempts := 0
  token := none
  leaseUntil := 0
  error := none
  requestGeneration := 0
  answered := none

@[simp] theorem Job.key_request (j : Job) : j.request.key = j.key := rfl

@[simp] theorem Job.key_renew (j : Job) (revision : ℕ) : (j.renew revision).key = j.key := rfl

namespace Db

/-- Change the rows of `enrichment_jobs` that satisfy `p`. -/
def updateJobs (p : Job → Bool) (f : Job → Job) (hf : ∀ j, (f j).key = j.key) (db : Db) : Db :=
  { db with
    jobs := db.jobs.mapRows (fun j => if p j then f j else j) fun j => by
      split
      · exact hf j
      · rfl }

/-- Ask for the jobs that satisfy `p`. -/
def request (p : Job → Bool) (db : Db) : Db :=
  { db.updateJobs p Job.request Job.key_request with
    asks := fun item provider =>
      if (db.jobs.get? (item, provider)).any p then db.asks item provider + 1
      else db.asks item provider }

/-- `request_work` (lines 139–149). -/
def requestWork (item : Id) (providers : List Text) (db : Db) : Db :=
  providers.foldl (fun db provider => db.request fun j => j.item = item && j.provider = provider)
    db

/-- `INSERT INTO enrichment_jobs … ON CONFLICT DO UPDATE` of one lane. -/
def upsertJob (item : Id) (revision : ℕ) (jobs : Table Job.key) (provider : Text) :
    Table Job.key :=
  jobs.put <| match jobs.get? (item, provider) with
    | none => newJob item provider revision
    | some j => j.renew revision

/-- The triggers `enrichment_item_insert` and `enrichment_item_revision` for a row
    of `collection_items`. -/
def enqueue (item : Item) (db : Db) : Db :=
  { db with
    jobs :=
      if db.inLibrary item.collection then
        (setup.lanes (setup.mediaType item.collection)).foldl
          (upsertJob item.id item.enrichmentRevision) db.jobs
      else db.jobs
    asks := fun id provider => if id = item.id then db.asks id provider + 1 else db.asks id provider }

/-- `UPDATE collection_items SET enrichment_revision=enrichment_revision+1`. -/
def bump (id : Id) (db : Db) : Db :=
  match db.items.get? id with
  | none => db
  | some item =>
    let item := { item with enrichmentRevision := item.enrichmentRevision + 1 }
    { db with items := db.items.put item }.enqueue setup item

/-! ## Assignments -/

/-- `DELETE FROM metadata_assignments WHERE item_id=?`, which deletes the
    supplements too. -/
def unassign (item : Id) (db : Db) : Db :=
  match db.assignments.get? item with
  | none => db
  | some old =>
    { db with
      assignments := db.assignments.erase item
      supplements := db.supplements.filter fun s =>
        !(s.item = item && s.primary = old.record) }.bump setup item

/-- `INSERT INTO metadata_assignments`. -/
def assign (row : Assignment) (db : Db) : Db :=
  { db with assignments := db.assignments.put row }.bump setup row.item

/-- `DELETE FROM metadata_rejections WHERE item_id=? AND record_id=?`. -/
def unreject (item record : Id) (db : Db) : Db :=
  { db with rejections := db.rejections.filter fun r => !(r.item = item && r.record = record) }

/-- `replace_assignment` (lines 712–748) without `rebind`. -/
def replaceAssignment (item : Id) (record : Option Id) (manual : Bool) (strength : ℤ) (db : Db) :
    Db :=
  let db := db.unassign setup item
  match record with
  | none => db
  | some record =>
    let db := if manual then db.unreject item record else db
    db.assign setup ⟨item, record, manual, strength⟩

/-! ## Automatic choice -/

/-- The rows of `enrichment_candidates` that are confident at the item's revision
    and not rejected. -/
def eligible (db : Db) (item : Item) : List Candidate :=
  db.candidates.rows.filter fun c =>
    c.item = item.id && c.revision = item.enrichmentRevision && 10 ≤ c.strength &&
      !db.rejected c.item c.record

/-- `COALESCE(o.position,-1)` of a record's provider. -/
def rank (db : Db) (item : Item) (record : Id) : ℤ :=
  match (db.providerOf record).bind fun p => (setup.order (setup.mediaType item.collection)).idxOf? p with
  | none => -1
  | some position => position

/-- `ORDER BY ec.strength DESC,COALESCE(o.position,-1),p.id`. -/
def preference (db : Db) (item : Item) (c : Candidate) : ℤ ×ₗ ℤ ×ₗ ℕ :=
  toLex (-c.strength, toLex (db.rank setup item c.record, c.record))

/-- A higher-ranked question of the item is still runnable. -/
def waiting (db : Db) (now : ℤ) (item : Item) (rank : ℤ) : Bool :=
  db.jobs.rows.any fun j =>
    j.item = item.id && j.revision = item.enrichmentRevision &&
      ((setup.order (setup.mediaType item.collection)).idxOf? j.provider).any
        (fun position : ℕ => (position : ℤ) < rank) &&
      (j.state = .pending || j.state = .running) && db.open? j.provider now

/-- The candidate that `choose_automatic` assigns. -/
def choice (db : Db) (now : ℤ) (id : Id) : Option Candidate :=
  match db.items.get? id with
  | none => none
  | some item =>
    if (db.selected id).isSome || !db.inLibrary item.collection then none
    else
      match (db.eligible item).argmin (db.preference setup item) with
      | none => none
      | some c =>
        if !db.waiting setup now item (db.rank setup item c.record) || 20 ≤ c.strength then some c
        else none

/-- `choose_automatic` (lines 929–947). -/
def chooseAutomatic (now : ℤ) (id : Id) (db : Db) : Db :=
  match db.choice setup now id with
  | none => db
  | some c => db.replaceAssignment setup id (some c.record) false c.strength

end Db

end Kahawai.MediaDb.Enrichment
