import Kahawai.Lib.Runs
import Kahawai.MediaDb.Enrichment.State

/-!
# The functions of enrichment

Model of the functions of `crates/kahawai-mediadb/src/enrichment.rs` that write,
and of `put_record` and `compatible` of `metadata.rs`. Each is one transaction:
it returns the tables it commits, or an error, and then nothing is committed.

`machine` has these transactions as events, in any order, next to what the rest
of the catalogue does to items, collections and libraries. A job, once claimed,
may be finished, failed or deferred at any later time and more than once.

`assign_identity` looks for a saved record with the chosen title; which one it
finds is part of the event. The tables of artists are left out.
-/

namespace Kahawai.MediaDb.Enrichment

open Kahawai.Core Kahawai.Lib Kahawai.Proto

/-! ## Types -/

/-- `struct EnrichmentJob`. `asked` is history: how often the job had been asked
    for at the claim. -/
structure EnrichmentJob where
  force : Bool
  itemId : Id
  provider : Text
  revision : ℕ
  requestGeneration : ℕ
  token : Id
  attempts : ℕ
  asked : ℕ
  deriving DecidableEq

/-- `struct EnrichmentCandidate`. -/
structure EnrichmentCandidate where
  complete : Bool
  record : ProviderRecord
  strength : ℤ
  links : List RecordLink
  deriving DecidableEq

/-- `struct EnrichmentAnswer`, with the ID of the artist only. -/
structure EnrichmentAnswer where
  artist : Option Text
  artworkSupplement : Option ProviderRecord
  links : List (Id × RecordLink)
  refreshAt : Option ℤ
  candidates : List EnrichmentCandidate
  localRecord : Option ProviderRecord
  deriving DecidableEq

/-- The `action` of `correct_metadata`. -/
inductive Action
  | pick
  | confirm
  | reject
  | clear
  | retry
  | restore
  | unknown
  deriving DecidableEq

/-- A transaction, which commits or fails with a message. -/
abbrev Tx := Except Text

/-- `ensure!`. -/
def ensure (p : Bool) (message : String) : Tx Unit :=
  if p then pure () else throw (lit message)

/-- `Display` of `StaleEnrichment`. -/
def staleEnrichment : Text := lit "metadata changed; reload and try again"

/-- What a person or a search saw of the item is still current. -/
def checkRevision (item : Item) (revision : ℕ) : Tx Unit :=
  if item.enrichmentRevision ≠ revision then throw staleEnrichment else pure ()

/-- `sqlx::Error::RowNotFound`. -/
def rowNotFound : Text :=
  lit "no rows returned by a query that expected to return at least one row"

/-- `fetch_one`. -/
def fetchOne {α : Type} : Option α → Tx α
  | none => throw rowNotFound
  | some a => pure a

/-- `.context("record required")`. -/
def required {α : Type} : Option α → Tx α
  | none => throw (lit "record required")
  | some a => pure a

variable (setup : Setup)

/-! ## Provider records -/

/-- `id()`: later than every record there is. -/
def Db.newRecord (db : Db) : Id := (db.records.rows.map RecordRow.id).foldr max 0 + 1

/-- The lanes that the trigger `enrichment_description_art` asks. -/
def artworkLanes : List Text :=
  [lit "tmdb-artwork", lit "tvdb-artwork", lit "anilist-artwork", lit "anidb-artwork",
    lit "fanart-artwork", lit "local-artwork", lit "coverartarchive", lit "artist-collage"]

/-- The artwork jobs of the copies that a record describes. -/
def Db.describes (db : Db) (record : Id) (j : Job) : Bool :=
  artworkLanes.contains j.provider &&
    ((db.assignments.rows.any fun a => a.item = j.item && a.record = record) ||
      (db.supplements.rows.any fun s => s.item = j.item && s.record = record) ||
      db.locals.rows.any fun l => l.item = j.item && l.record = record)

/-- The `DO UPDATE` of `put_record` and its trigger. -/
def Db.updateRecord (db : Db) (row : RecordRow) (record : ProviderRecord) : Db :=
  let stored := { db with records := db.records.put { row with record := record } }
  if row.record.description = record.description && row.record.children = record.children &&
      row.record.seasonArtwork = record.seasonArtwork then stored
  else stored.request (stored.describes row.id)

def Db.findRecord (db : Db) (record : ProviderRecord) : Option RecordRow :=
  db.records.rows.find? fun row => row.record.key = record.key

/-- `put_record` of `metadata.rs` (lines 255–288). -/
def putRecord (record : ProviderRecord) (db : Db) : Tx (Id × Db) :=
  match db.findRecord record with
  | none =>
    pure (db.newRecord, { db with records := db.records.put ⟨db.newRecord, record⟩ })
  | some row => do
    ensure (row.record.mediaType = record.mediaType) "provider record changed media type"
    pure (row.id, db.updateRecord row record)

/-- `put_candidate` (lines 881–893). -/
def putCandidate (candidate : EnrichmentCandidate) (db : Db) : Tx (Id × Db) :=
  match db.findRecord candidate.record with
  | none => putRecord candidate.record db
  | some row => if candidate.complete then putRecord candidate.record db else pure (row.id, db)

/-- `compatible` of `metadata.rs` (lines 126–136). -/
def compatible (record : Id) (kind : MediaType) (db : Db) : Tx Unit := do
  let row ← fetchOne (db.records.get? record)
  let actual := row.record.mediaType
  ensure (actual = kind || (kind = .anime && (actual = .movies || actual = .series)))
    "provider and collection media types differ"

/-- A title that `fanart` can be asked about. -/
def isTitle (provider nameSpace : Text) : Bool :=
  (provider = lit "tvdb" && nameSpace = lit "show") ||
    (provider = lit "tmdb" && nameSpace = lit "movie")

/-- `INSERT OR IGNORE INTO provider_links` and its trigger `enrichment_tvdb_link`. -/
def Db.addLink (record : Id) (link : RecordLink) (db : Db) : Db :=
  if db.links.rows.contains ⟨record, link⟩ then db
  else
    let stored := { db with links := db.links.put ⟨record, link⟩ }
    if isTitle link.provider link.nameSpace then
      stored.request fun j => j.provider = lit "fanart" &&
        db.assignments.rows.any fun a => a.item = j.item && a.record = record
    else stored

/-- `DELETE FROM metadata_supplements` of the item and a provider. -/
def Db.dropSupplements (item : Id) (provider : Text) (db : Db) : Db :=
  { db with
    supplements := db.supplements.filter fun s =>
      !(s.item = item && db.providerOf s.record = some provider) }

/-- The lane of a provider's artwork, as `enrichment_supplement_art` names it. -/
def artworkLane (provider : Text) : Text :=
  if provider = lit "musicbrainz" then lit "coverartarchive" else provider ++ lit "-artwork"

/-- `INSERT INTO metadata_supplements` and its trigger. -/
def Db.insertSupplement (row : Supplement) (db : Db) : Db :=
  let stored := { db with supplements := db.supplements.put row }
  match db.records.get? row.record with
  | none => stored
  | some ⟨_, record⟩ =>
    let asked := stored.request fun j =>
      j.item = row.item && j.provider = artworkLane record.provider
    if isTitle record.provider record.nameSpace then
      asked.request fun j => j.item = row.item && j.provider = lit "fanart"
    else asked

/-- `INSERT OR IGNORE INTO metadata_supplements`. -/
def Db.addSupplementRow (row : Supplement) (db : Db) : Db :=
  if (db.supplements.get? row.key).isSome || row.record = row.primary then db
  else db.insertSupplement row

/-! ## Claims -/

/-- The item of a job that is at the item's revision, if a library has it. -/
def Db.current? (db : Db) (j : Job) : Option Item :=
  (db.items.get? j.item).filter fun item =>
    j.revision = item.enrichmentRevision && db.inLibrary item.collection

/-- The rows that `claim_enrichment` selects from (line 229). -/
def Db.claimable (db : Db) (provider : Text) (now : ℤ) (j : Job) : Bool :=
  j.provider = provider && ((db.current? j).any fun item => !db.snapshots item.collection) &&
    (((j.state = .pending || j.state = .retry || (j.state = .done && 0 < j.dueAt)) &&
        j.dueAt ≤ now) ||
      (j.state = .running && j.leaseUntil ≤ now))

/-- The rows that `enrichment_next_due` selects from. -/
def Db.queued (db : Db) (provider : Text) (j : Job) : Bool :=
  j.provider = provider && (db.current? j).isSome &&
    (j.state = .pending || j.state = .retry || j.state = .running ||
      (j.state = .done && 0 < j.dueAt))

/-- When a queued row is due, or its lease ends. -/
def Job.time (j : Job) : ℤ := if j.state = .running then j.leaseUntil else j.dueAt

/-- The end of the provider's pause, or 0. -/
def Db.pauseUntil (db : Db) (provider : Text) : ℤ :=
  match db.pauses.get? provider with
  | none => 0
  | some pause => if pause.blocked then 0 else pause.dueAt

/-- `enrichment_next_due` (lines 310–322). -/
def Db.enrichmentNextDue (db : Db) (provider : Text) : Option ℤ :=
  ((db.jobs.rows.filter (db.queued provider)).map Job.time).min?.map (max (db.pauseUntil provider))

/-- The columns that a claim writes. -/
def Job.claim (j : Job) (token : Id) (leaseUntil : ℤ) : Job :=
  { j with state := .running, token := some token, leaseUntil := leaseUntil,
           attempts := j.attempts + 1 }

@[simp] theorem Job.key_claim (j : Job) (token : Id) (leaseUntil : ℤ) :
    (j.claim token leaseUntil).key = j.key := rfl

/-- `claim_enrichment` (lines 221–245). -/
def claimEnrichment (provider : Text) (now leaseSeconds : ℤ) (token : Id) (db : Db) :
    Tx (Option EnrichmentJob × Db) := do
  ensure (0 < leaseSeconds) "lease must be positive"
  match (db.jobs.rows.filter (db.claimable provider now)).argmin
      (fun j => (toLex (j.dueAt, j.item) : ℤ ×ₗ ℕ)) with
  | none => pure (none, db)
  | some row =>
    pure (some ⟨row.force, row.item, provider, row.revision, row.requestGeneration, token,
        row.attempts + 1, db.asks row.item provider⟩,
      { db with jobs := db.jobs.put (row.claim token (now + leaseSeconds)) })

/-- The job's row still has its token. -/
def Db.holds (db : Db) (job : EnrichmentJob) : Bool :=
  (db.jobs.get? (job.itemId, job.provider)).any fun j => j.token = some job.token

/-- The rows that have the job's token. -/
def EnrichmentJob.isRow (job : EnrichmentJob) (j : Job) : Bool :=
  j.key = (job.itemId, job.provider) && j.token = some job.token

/-- The columns that end a claim without an answer. -/
def Job.release (j : Job) (blocked : Bool) (dueAt : ℤ) (error : Option Text) (attempts : ℕ) : Job :=
  { j with
    state := if blocked then .blocked else .retry
    dueAt := dueAt
    error := error
    attempts := attempts
    token := none
    leaseUntil := 0 }

/-- The first update of `defer_enrichment` and `fail_enrichment`. -/
def Db.release (job : EnrichmentJob) (blocked : Bool) (dueAt : ℤ) (error : Option Text)
    (attempts : ℕ → ℕ) (db : Db) : Db :=
  db.updateJobs job.isRow (fun j => j.release blocked dueAt error (attempts j.attempts))
    fun _ => rfl

/-- `defer_enrichment` (lines 249–270). -/
def deferEnrichment (now : ℤ) (job : EnrichmentJob) (db : Db) : Db :=
  let (dueAt, blocked, error) := match db.pauses.get? job.provider with
    | none => (0, false, none)
    | some pause => (pause.dueAt, pause.blocked, pause.error)
  if db.holds job then
    (db.release job blocked dueAt error (· - 1)).chooseAutomatic setup now job.itemId
  else db

/-- `INSERT INTO enrichment_providers … ON CONFLICT DO UPDATE`. -/
def Db.pause (row : Pause) (db : Db) : Db := { db with pauses := db.pauses.put row }

/-- The items that a pause of the provider may have kept waiting (line 293). -/
def Db.waitingItems (db : Db) (provider : Text) : List Id :=
  ((db.items.rows.filter fun item =>
    (db.candidates.rows.any fun c => c.item = item.id &&
        c.revision = item.enrichmentRevision && 10 ≤ c.strength) &&
      (db.jobs.get? (item.id, provider)).isSome && !(db.selected item.id).isSome).map Item.id)

/-- Choose for the items that waited for a provider (lines 292–296). -/
def Db.chooseWaiting (now : ℤ) (provider : Text) (db : Db) : Db :=
  (db.waitingItems provider).foldl (fun db id => db.chooseAutomatic setup now id) db

/-- `fail_enrichment` (lines 273–302). -/
def failEnrichment (now : ℤ) (job : EnrichmentJob) (dueAt : ℤ) (error : Text)
    (providerWide blocked : Bool) (db : Db) : Db :=
  if db.holds job then
    let released := db.release job blocked dueAt (some error) id
    if providerWide then
      ((released.pause ⟨job.provider, dueAt, blocked, some error⟩).chooseAutomatic setup now
        job.itemId).chooseWaiting setup now job.provider
    else released.chooseAutomatic setup now job.itemId
  else db

/-- A wake of all providers or of one. -/
def isMeant (provider : Option Text) (p : Text) : Bool := provider.all fun q => q = p

/-- The first update of `wake_enrichment`. -/
def Db.unblock (provider : Option Text) (db : Db) : Db :=
  { db with
    pauses := db.pauses.mapRows
      (fun p =>
        if isMeant provider p.provider && p.blocked then { p with blocked := false, error := none }
        else p)
      fun p => by split <;> rfl }

/-- `wake_enrichment` (lines 303–314). -/
def wakeEnrichment (provider : Option Text) (db : Db) : Db :=
  (db.unblock provider).updateJobs (fun j => j.state = .blocked && isMeant provider j.provider)
    (fun j => { j with state := .pending, error := none }) fun _ => rfl

/-! ## Answers -/

/-- The check at the start of `finish_enrichment` (line 329). -/
def Db.accepts (db : Db) (job : EnrichmentJob) : Bool :=
  db.holds job && (db.items.get? job.itemId).any fun item =>
    item.enrichmentRevision = job.revision && db.inLibrary item.collection

/-- A candidate replaces the assignment `old`, whose record is of `provider`
    (lines 378–393). -/
def takes (job : EnrichmentJob) (record : Id) (strength : ℤ) (provider : Option Text) :
    Option Assignment → Bool
  | none => 20 ≤ strength
  | some old =>
    !old.manual && (old.strength < strength ||
      (job.provider = lit "local" && provider = some (lit "local") && 30 ≤ strength &&
        old.record ≠ record))

/-- One of the records names the other. -/
def Db.linked (db : Db) (a b : Id) : Bool :=
  let names (record other : Id) : Bool :=
    db.links.rows.any fun l => l.record = record && (db.records.get? other).any fun row =>
      row.record.provider = l.link.provider && row.record.nameSpace = l.link.nameSpace &&
        row.record.externalId = l.link.externalId
  names a b || names b a

/-- The upsert of `enrichment_candidates` (lines 347–348). -/
def Db.storeCandidate (job : EnrichmentJob) (record : Id) (strength : ℤ) (db : Db) : Db :=
  { db with
    candidates := db.candidates.put ⟨job.itemId, record, job.revision, strength,
      some job.revision⟩ }

/-- The body of the loop over the candidates, after the candidate is stored
    (lines 358–412). -/
def Db.judge (job : EnrichmentJob) (record : Id) (strength : ℤ) (db : Db) : Db :=
  if db.rejected job.itemId record || strength = 0 then db
  else
    let old := db.assignments.get? job.itemId
    if takes job record strength (old.bind fun a => db.providerOf a.record) old then
      db.replaceAssignment setup job.itemId (some record) false strength
    else
      match old with
      | none => db
      | some old =>
        if db.linked old.record record && old.record ≠ record then
          (db.dropSupplements job.itemId job.provider).addSupplementRow
            ⟨job.itemId, old.record, record⟩
        else db

/-- The loop over the candidates (lines 340–413). -/
def finishCandidate (job : EnrichmentJob) (kind : MediaType) (db : Db)
    (candidate : EnrichmentCandidate) : Tx Db := do
  ensure (candidate.record.provider = job.provider) "provider answered as another provider"
  let (record, db) ← putCandidate candidate db
  compatible record kind db
  let db := db.storeCandidate job record candidate.strength
  let db := candidate.links.foldl (fun db link => db.addLink record link) db
  pure (db.judge setup job record candidate.strength)

/-- What an auxiliary artwork answer has to be (lines 421–433). -/
def isAuxiliary (job : EnrichmentJob) (kind : MediaType) (record : ProviderRecord) : Bool :=
  job.provider = lit "fanart" && record.provider = lit "fanart" &&
    ((record.nameSpace = lit "show" && (kind = .series || kind = .anime)) ||
      (record.nameSpace = lit "movie" && (kind = .movies || kind = .anime))) &&
    record.children.isNone && record.description.rest.isNone

/-- The assigned record, if the item is known to be the title that the artwork is
    about (lines 434–440). -/
def Db.verified (db : Db) (item : Id) (record : ProviderRecord) : Option Id :=
  let provider := if record.nameSpace = lit "movie" then lit "tmdb" else lit "tvdb"
  let isIt (row : RecordRow) : Bool :=
    row.record.provider = provider && row.record.nameSpace = record.nameSpace &&
      row.record.externalId = record.externalId
  (db.selected item).filter fun primary =>
    (db.records.get? primary).any isIt ||
      db.links.rows.contains ⟨primary, provider, record.nameSpace, record.externalId⟩ ||
      db.supplements.rows.any fun s =>
        s.item = item && s.primary = primary && (db.records.get? s.record).any isIt

/-- The auxiliary artwork of an answer (lines 414–453). -/
def finishArtwork (job : EnrichmentJob) (kind : MediaType) (supplement : Option ProviderRecord)
    (db : Db) : Tx Db :=
  match supplement with
  | none => pure db
  | some record => do
    ensure (isAuxiliary job kind record) "invalid auxiliary artwork answer"
    match db.verified job.itemId record with
    | none => pure db
    | some primary =>
      let (id, db) ← putRecord record db
      pure ((db.dropSupplements job.itemId (lit "fanart")).addSupplementRow
        ⟨job.itemId, primary, id⟩)

/-- The body of the loop over the links (lines 454–473). -/
def finishLink (job : EnrichmentJob) (db : Db) (link : Id × RecordLink) : Tx Db := do
  ensure (db.selected job.itemId = some link.1) "links require the captured selected record"
  if db.links.rows.contains ⟨link.1, link.2⟩ then pure db
  else pure ((db.addLink link.1 link.2).requestWork job.itemId [link.2.provider])

/-- `INSERT INTO local_metadata` and its trigger. -/
def Db.insertLocal (row : LocalMetadata) (db : Db) : Db :=
  { db with locals := db.locals.put row }.request fun j =>
    j.item = row.item && (j.provider = lit "local-artwork" || j.provider = lit "artist-collage")

/-- Replace the local record of an item (lines 475–486). -/
def storeLocal (item : Id) (record : Option ProviderRecord) (db : Db) : Tx Db :=
  let db := { db with locals := db.locals.erase item }
  match record with
  | none => pure db
  | some record => do
    let (id, db) ← putRecord record db
    pure (db.insertLocal ⟨item, id⟩)

/-- The assignment was made by the machine from a local record. -/
def Db.selectedLocal (db : Db) (item : Id) : Bool :=
  (db.assignments.get? item).any fun a =>
    !a.manual && db.providerOf a.record = some (lit "local")

/-- What an answer of the lane `local` does (lines 474–493). -/
def finishLocal (job : EnrichmentJob) (answer : EnrichmentAnswer) (db : Db) : Tx Db :=
  if job.provider = lit "local" then do
    let db ← storeLocal job.itemId answer.localRecord db
    pure (if (answer.candidates.all fun c => c.strength < 30) && db.selectedLocal job.itemId then
      db.replaceAssignment setup job.itemId none false 0 else db)
  else pure db

/-- The artist of an answer (lines 494–507). -/
def finishArtist (job : EnrichmentJob) (artist : Option Text) (db : Db) : Tx Db :=
  match artist with
  | none => pure db
  | some _ => do
    ensure (job.provider = lit "musicbrainz") "artist identity must come from MusicBrainz"
    pure (db.requestWork job.itemId [lit "fanart", lit "theaudiodb"])

/-- The columns that `finish_enrichment` writes at last (lines 515–516). -/
def Job.complete (j : Job) (job : EnrichmentJob) (changed : Bool) (refreshAt : ℤ) : Job :=
  let again := job.requestGeneration < j.requestGeneration || changed
  { j with
    state := if again then .pending else .done
    dueAt := if again then 0 else refreshAt
    force := if job.requestGeneration < j.requestGeneration then j.force else false
    token := none
    leaseUntil := 0
    error := none
    answered := some job.asked }

/-- The final update of the job (lines 515–516). -/
def Db.complete (job : EnrichmentJob) (changed : Bool) (refreshAt : ℤ) (db : Db) : Db :=
  db.updateJobs (fun j => j.key = (job.itemId, job.provider))
    (fun j => j.complete job changed refreshAt) fun _ => rfl

/-- The work that follows on a lane (lines 517–522). -/
def Db.followUp (job : EnrichmentJob) (db : Db) : Db :=
  let db :=
    if (lit "-artwork").isSuffixOf job.provider || job.provider = lit "coverartarchive" then
      db.requestWork job.itemId [lit "artist-collage"]
    else db
  if job.provider = lit "anidb-hash" then db.requestWork job.itemId [lit "anidb"] else db

/-- `finish_enrichment` between its check and the final update (lines 340–507). -/
def finishAnswer (job : EnrichmentJob) (answer : EnrichmentAnswer) (kind : MediaType) (db : Db) :
    Tx Db := do
  let db ← answer.candidates.foldlM (finishCandidate setup job kind) db
  let db ← finishArtwork job kind answer.artworkSupplement db
  let db ← answer.links.foldlM (finishLink job) db
  let db ← finishLocal setup job answer db
  finishArtist job answer.artist db

/-- `finish_enrichment` (lines 323–526). -/
def finishEnrichment (now : ℤ) (job : EnrichmentJob) (answer : EnrichmentAnswer) (db : Db) :
    Tx (Bool × Db) :=
  if !db.accepts job then pure (false, db)
  else do
    let item ← fetchOne (db.items.get? job.itemId)
    let before := db.selected job.itemId
    let db ← finishAnswer setup job answer (setup.mediaType item.collection) db
    let after := db.selected job.itemId
    let db := (db.complete job (before ≠ after) (answer.refreshAt.getD 0)).followUp job
    pure (true, db.chooseAutomatic setup now job.itemId)

/-! ## What people do -/

/-- `correct_metadata` (lines 565–639). -/
def correctMetadata (id : Id) (revision : ℕ) (action : Action) (record : Option Id) (db : Db) :
    Tx Db := do
  let item ← fetchOne (db.items.get? id)
  checkRevision item revision
  match action with
  | .pick | .confirm => do
    let r ← required record
    ensure ((db.candidates.rows.any fun c => c.item = id && c.record = r && c.revision = revision) ||
      db.selected id = some r) "record was not offered for this item"
    compatible r (setup.mediaType item.collection) db
    pure (db.replaceAssignment setup id (some r) true 100)
  | .reject => do
    let r ← required record
    ensure ((db.candidates.rows.any fun c => c.item = id && c.record = r) ||
      db.selected id = some r) "record was not offered for this item"
    let db := { db with rejections := db.rejections.put ⟨id, r⟩ }
    pure (if db.selected id = some r then db.replaceAssignment setup id none false 0
      else db.bump setup id)
  | .clear => pure (db.replaceAssignment setup id none false 0)
  | .retry =>
    pure ((db.bump setup id).updateJobs (fun j => j.item = id) (fun j => { j with force := true })
      fun _ => rfl)
  | .restore => do
    let r ← required record
    pure ((db.unreject id r).bump setup id)
  | .unknown => throw (lit "unknown correction")

/-- The record that `assign_identity` finds, or the new ID of the one it makes. -/
inductive Saved
  | found (record : Id)
  | manual (externalId : Text)
  deriving DecidableEq

/-- `assign_identity` (lines 658–737). -/
def assignIdentity (id : Id) (revision : ℕ) (saved : Saved) (db : Db) : Tx Db := do
  let item ← fetchOne (db.items.get? id)
  checkRevision item revision
  let kind := setup.mediaType item.collection
  match saved with
  | .found record => do
    let row ← fetchOne (db.records.get? record)
    pure (db.replaceAssignment setup id (some row.id) true 100)
  | .manual externalId => do
    let (record, db) ← putRecord ⟨lit "manual", match kind with
      | .movies => lit "movies"
      | .series => lit "series"
      | .anime => lit "anime"
      | .music => lit "music", externalId, [], kind, ⟨none, none, none, none, none⟩, none, none⟩ db
    pure (db.replaceAssignment setup id (some record) true 100)

/-- The upsert of `offer_candidates` (line 767), which keeps the strength. -/
def Db.offerCandidate (id record : Id) (revision : ℕ) (db : Db) : Db :=
  { db with
    candidates := db.candidates.put <| match db.candidates.get? (id, record) with
      | none => ⟨id, record, revision, 0, none⟩
      | some c => { c with revision := revision } }

/-- The loop of `offer_candidates` (lines 764–770). -/
def offerCandidateRow (id : Id) (revision : ℕ) (kind : MediaType) (db : Db)
    (candidate : EnrichmentCandidate) : Tx Db := do
  let (record, db) ← putCandidate candidate db
  compatible record kind db
  pure (db.offerCandidate id record revision)

/-- `offer_candidates` (lines 751–774). -/
def offerCandidates (id : Id) (revision : ℕ) (candidates : List EnrichmentCandidate) (db : Db) :
    Tx Db := do
  let item ← fetchOne (db.items.get? id)
  checkRevision item revision
  candidates.foldlM (offerCandidateRow id revision (setup.mediaType item.collection)) db

/-- `add_supplement` (lines 782–809). -/
def addSupplement (id : Id) (revision : ℕ) (record : Id) (db : Db) : Tx Db := do
  let item ← fetchOne (db.items.get? id)
  let primary ← fetchOne (db.selected id)
  checkRevision item revision
  compatible record (setup.mediaType item.collection) db
  ensure (db.candidates.rows.any fun c => c.item = id && c.record = record &&
    c.revision = revision) "record not offered for this item"
  ensure (db.providerOf primary ≠ db.providerOf record) "supplement must use another provider"
  let provider ← fetchOne (db.providerOf record)
  pure (((db.dropSupplements id provider).insertSupplement ⟨id, primary, record⟩).bump setup id)

/-! ## The rest of the catalogue -/

/-- `INSERT INTO collection_items` and its trigger. -/
def insertItem (id collection : Id) (db : Db) : Db :=
  if (db.items.get? id).isSome then db
  else { db with items := db.items.put ⟨id, collection, 0⟩ }.enqueue setup ⟨id, collection, 0⟩

/-- `DELETE FROM collection_items` and the rows that go with it. -/
def removeItem (id : Id) (db : Db) : Db :=
  { db with
    items := db.items.erase id
    jobs := db.jobs.filter fun j => j.item ≠ id
    candidates := db.candidates.filter fun c => c.item ≠ id
    assignments := db.assignments.erase id
    rejections := db.rejections.filter fun r => r.item ≠ id
    supplements := db.supplements.filter fun s => s.item ≠ id
    locals := db.locals.erase id }

/-- `INSERT INTO library_collections`, which fails for a row that is there, and its
    trigger `enrichment_membership`. -/
def addMembership (library collection : Id) (db : Db) : Db :=
  let stored := { db with memberships := db.memberships.put ⟨library, collection⟩ }
  if db.memberships.rows.contains ⟨library, collection⟩ then db
  else if stored.memberships.rows.countP (fun m => m.collection = collection) = 1 then
    ((stored.items.rows.filter fun item => item.collection = collection).map Item.id).foldl
      (fun db id => db.bump setup id) stored
  else stored

/-- `DELETE FROM library_collections` and its trigger
    `enrichment_collage_membership`. -/
def removeMembership (library collection : Id) (db : Db) : Db :=
  let stored := { db with
    memberships := db.memberships.filter fun m =>
      !(m.library = library && m.collection = collection) }
  stored.request fun j => j.provider = lit "artist-collage" &&
    (stored.items.get? j.item).any fun item =>
      stored.memberships.rows.any fun m => m.library = library && m.collection = item.collection

/-! ## Runs -/

/-- The tables, the clock and all claims that were ever taken. -/
structure System where
  now : ℤ
  db : Db
  claims : List EnrichmentJob

/-- What can happen. A claim is meant by its place in `claims`, and `token` is the
    ID that a claim makes. -/
inductive Event
  | tick (seconds : ℕ)
  | claim (provider : Text) (leaseSeconds : ℤ) (token : Id)
  | finish (place : ℕ) (answer : EnrichmentAnswer)
  | fail (place : ℕ) (dueAt : ℤ) (error : Text) (providerWide blocked : Bool)
  | defer (place : ℕ)
  | wake (provider : Option Text)
  | offer (item : Id) (revision : ℕ) (candidates : List EnrichmentCandidate)
  | correct (item : Id) (revision : ℕ) (action : Action) (record : Option Id)
  | assignIdentity (item : Id) (revision : ℕ) (saved : Saved)
  | addSupplement (item : Id) (revision : ℕ) (record : Id)
  /-- The title, the files or the facts of an item change. -/
  | changeItem (item : Id)
  | insertItem (item collection : Id)
  | removeItem (item : Id)
  | addMembership (library collection : Id)
  | removeMembership (library collection : Id)
  | snapshot (collection : Id) (active : Bool)
  deriving DecidableEq

namespace System

/-- Commit, or leave the tables as they are. -/
def commit (s : System) (tx : Tx Db) : System :=
  match tx with
  | .error _ => s
  | .ok db => { s with db := db }

/-- The state after an event, or `none` where it cannot happen. -/
def next (s : System) : Event → Option System
  | .tick seconds => some { s with now := s.now + seconds }
  | .claim provider leaseSeconds token =>
    if s.claims.any fun job => job.token = token then none
    else
      match claimEnrichment provider s.now leaseSeconds token s.db with
      | .ok (some job, db) => some { s with db := db, claims := s.claims ++ [job] }
      | _ => some s
  | .finish place answer => (s.claims[place]?).map fun job =>
    s.commit ((finishEnrichment setup s.now job answer s.db).map Prod.snd)
  | .fail place dueAt error providerWide blocked => (s.claims[place]?).map fun job =>
    { s with db := failEnrichment setup s.now job dueAt error providerWide blocked s.db }
  | .defer place => (s.claims[place]?).map fun job =>
    { s with db := deferEnrichment setup s.now job s.db }
  | .wake provider => some { s with db := wakeEnrichment provider s.db }
  | .offer item revision candidates =>
    some (s.commit (offerCandidates setup item revision candidates s.db))
  | .correct item revision action record =>
    some (s.commit (correctMetadata setup item revision action record s.db))
  | .assignIdentity item revision saved =>
    some (s.commit (Enrichment.assignIdentity setup item revision saved s.db))
  | .addSupplement item revision record =>
    some (s.commit (Enrichment.addSupplement setup item revision record s.db))
  | .changeItem item => some { s with db := s.db.bump setup item }
  | .insertItem item collection =>
    some { s with db := Enrichment.insertItem setup item collection s.db }
  | .removeItem item => some { s with db := Enrichment.removeItem item s.db }
  | .addMembership library collection =>
    some { s with db := Enrichment.addMembership setup library collection s.db }
  | .removeMembership library collection =>
    some { s with db := Enrichment.removeMembership library collection s.db }
  | .snapshot collection active =>
    some { s with db := { s.db with snapshots := Function.update s.db.snapshots collection active } }

end System

/-- Empty tables. -/
def emptyTables (now : ℤ) : System where
  now := now
  db := ⟨Table.empty, Table.empty, fun _ => false, Table.empty, Table.empty, Table.empty,
    Table.empty, Table.empty, Table.empty, Table.empty, Table.empty, Table.empty, fun _ _ => 0⟩
  claims := []

/-- All runs. -/
def machine (now : ℤ) : Machine System Event := ⟨emptyTables now, System.next setup⟩

end Kahawai.MediaDb.Enrichment
