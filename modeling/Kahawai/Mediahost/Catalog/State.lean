import Mathlib.Data.List.Sort
import Kahawai.Lib.Table
import Kahawai.Proto

/-!
# The source catalogue

Model of `crates/kahawai-mediahost/src/catalog.rs`: the tables of one
collection and the operations that write them. Every statement of the modelled
functions is restricted to a collection by its ID, so the tables hold the rows
of that collection only. One operation is one transaction: scans of a
collection run one after another, and only scans write `catalog_files`, so what
an operation reads before its transaction still holds in it.

The 64-bit integers of the rows are read back as the values that were written,
and are modelled by numbers. The functions of SQLite that read
`streams_json` are the parameter `StreamsJson`. Left out are the one-time
migrations, the subscribers of versions, the acknowledgements (which no modelled
function reads) and `next_segment_job`, which claims a season at a time.
-/

namespace Kahawai.Mediahost

open Kahawai.Core Kahawai.Lib Kahawai.Proto

/-! ## Tables -/

/-- What the statements read from and write to `streams_json`. -/
structure StreamsJson where
  /-- `COALESCE(json_array_length(_,'$.audio'),0)`. -/
  audioTracks : Text → ℕ
  container : Text → Option Text
  hasAttachments : Text → Bool
  hasChapters : Text → Bool
  /-- `$.video[0].codec` is not null. -/
  hasVideoCodec : Text → Bool
  /-- `$.video[0].max_keyframe_interval_ms` is not null. -/
  hasKeyframeInterval : Text → Bool
  /-- `COALESCE(_,0)` of `$.video_geometry_probed` is not zero. -/
  geometryProbed : Text → Bool
  sidecarRevision : Text → Option Text
  setSidecarRevision : Text → Text → Text

/-- What the statements read from an empty object. -/
def emptyObject : StreamsJson :=
  ⟨fun _ => 0, fun _ => none, fun _ => false, fun _ => false, fun _ => false, fun _ => false,
    fun _ => false, fun _ => none, fun streams _ => streams⟩

/-- A row of `catalog_files`. -/
structure StoredFile where
  source : SourceKey
  size : ℕ
  mtime : ℤ
  headXxh3 : ℕ
  tailXxh3 : ℕ
  oshash : ℕ
  streams : Text
  seenGeneration : ℕ
  version : ℕ
  error : Text
  musicTagGeneration : ℕ
  reprobeRequired : Bool
  deriving DecidableEq

/-- Whether a stored revision has the bytes of a file. -/
def StoredFile.sameBytes (stored : StoredFile) (file : FileRecord) : Bool :=
  stored.size = file.size && stored.mtime = file.mtime && stored.headXxh3 = file.headXxh3 &&
    stored.tailXxh3 = file.tailXxh3 && stored.oshash = file.oshash

/-- What the catalogue knows of the bytes of a revision. -/
structure Identity where
  size : ℕ
  mtime : ℤ
  headXxh3 : ℕ
  tailXxh3 : ℕ
  oshash : ℕ
  deriving DecidableEq

/-- The content identity of a stored revision. -/
def StoredFile.identity (stored : StoredFile) : Identity :=
  ⟨stored.size, stored.mtime, stored.headXxh3, stored.tailXxh3, stored.oshash⟩

/-- The columns that a scan that finds the file unchanged keeps, and
    `baseline_sidecars` too. -/
def StoredFile.revision (stored : StoredFile) : Identity × ℕ × Text :=
  (stored.identity, stored.version, stored.error)

/-- The column `state` of `catalog_jobs`. -/
inductive JobState
  | pending
  | running
  deriving DecidableEq

/-- A row of `catalog_jobs`. -/
structure Job where
  kind : Kind
  source : SourceKey
  size : ℕ
  mtime : ℤ
  sourceVersion : ℕ
  state : JobState
  deriving DecidableEq

/-- The key of a job. -/
def Job.key (j : Job) : RecordKey := (j.kind, j.source)

/-- A row of `catalog_collections`, and the rows of the other tables that belong
    to it. `analyzer` is `catalog_meta`. -/
structure Catalog where
  id : Text
  mediaType : MediaType
  epoch : Text
  currentVersion : ℕ
  oldestReplayableVersion : ℕ
  scanGeneration : ℕ
  scanning : Bool
  completedGeneration : ℕ
  analyzer : Kind → Option Text
  files : Table StoredFile.source
  records : Table CatalogRecord.key
  jobs : Table Job.key

namespace Catalog

/-- `insert_collection` (lines 306–317). -/
def insertCollection (id epoch : Text) (mediaType : MediaType) (analyzer : Kind → Option Text) :
    Catalog :=
  ⟨id, mediaType, epoch, 0, 0, 0, false, 0, analyzer, Table.empty, Table.empty, Table.empty⟩

/-! ## Records -/

/-- `next_version` (lines 1110–1119). -/
def nextVersion (c : Catalog) : ℕ × Catalog :=
  (c.currentVersion + 1, { c with currentVersion := c.currentVersion + 1 })

/-- `put_record` (lines 1121–1145). -/
def putRecord (kind : Kind) (source : SourceKey) (version : ℕ) (payload : Option Payload)
    (c : Catalog) : Catalog :=
  { c with records := c.records.put ⟨kind, source, version, payload⟩ }

/-- The kinds other than `file`, in the order of the primary key. -/
def otherKinds : List Kind :=
  [.fileAttachments, .fileError, .fileGeometry, .fileHashes, .fileKeyframe, .fileLoudness,
    .fileSegments]

/-- The live record of a kind and source. -/
def live? (key : RecordKey) (c : Catalog) : Option CatalogRecord :=
  (c.records.get? key).filter fun r => !r.deleted

/-- The live records of a source other than its file record: the rows that
    `tombstone_derived_records` (lines 1152–1159) and `reversion_derived_records`
    (lines 1174–1181) read. -/
def liveDerived (source : SourceKey) (c : Catalog) : List CatalogRecord :=
  otherKinds.filterMap fun kind => c.live? (kind, source)

/-- The loop of `tombstone_derived_records` and `reversion_derived_records`: write
    the payloads at new versions. -/
def rewriteRecords (source : SourceKey) :
    List (Kind × Option Payload) → Option ℕ → Catalog → Option ℕ × Catalog
  | [], last, c => (last, c)
  | (kind, payload) :: rest, _, c =>
    let (version, c) := c.nextVersion
    rewriteRecords source rest (some version) (c.putRecord kind source version payload)

/-- `tombstone_derived_records` (lines 1147–1167). -/
def tombstoneDerivedRecords (source : SourceKey) (c : Catalog) : Option ℕ × Catalog :=
  rewriteRecords source ((c.liveDerived source).map fun r => (r.kind, none)) none c

/-- `reversion_derived_records` (lines 1169–1191). -/
def reversionDerivedRecords (source : SourceKey) (c : Catalog) : Option ℕ × Catalog :=
  rewriteRecords source ((c.liveDerived source).map fun r => (r.kind, r.payload)) none c

/-! ## Scans -/

/-- `begin_scan` (lines 534–545). -/
def beginScan (c : Catalog) : ℕ × Catalog :=
  (c.scanGeneration + 1, { c with scanGeneration := c.scanGeneration + 1, scanning := true })

/-- `mark_seen` (lines 675–693). -/
def markSeen (source : SourceKey) (generation : ℕ) (c : Catalog) : Catalog :=
  { c with
    files := c.files.mapRows
      (fun row => if row.source = source then { row with seenGeneration := generation } else row)
      fun row => by split <;> rfl }

/-- The statement of `upsert_file_inner` for an unchanged file (lines 752–771). -/
def touchFile (source : SourceKey) (generation musicTagGeneration : ℕ) (probed : Bool)
    (c : Catalog) : Catalog :=
  { c with
    files := c.files.mapRows
      (fun row =>
        if row.source = source then
          { row with
            seenGeneration := generation
            musicTagGeneration := max musicTagGeneration row.musicTagGeneration
            reprobeRequired := if probed then false else row.reprobeRequired }
        else row)
      fun row => by split <;> rfl }

/-- The row that `upsert_file_inner` writes (lines 784–812). -/
def upsertedFile (file : FileRecord) (generation musicTagGeneration version : ℕ) (probed : Bool)
    (previous : Option StoredFile) : StoredFile where
  source := file.source
  size := file.size
  mtime := file.mtime
  headXxh3 := file.headXxh3
  tailXxh3 := file.tailXxh3
  oshash := file.oshash
  streams := file.streams
  seenGeneration := generation
  version := version
  error := []
  musicTagGeneration := max ((previous.map StoredFile.musicTagGeneration).getD 0) musicTagGeneration
  reprobeRequired := if probed then false else previous.any StoredFile.reprobeRequired

/-- Drop the jobs of a source that are not running (lines 839–847 and 931–939). -/
def dropIdleJobs (source : SourceKey) (c : Catalog) : Catalog :=
  { c with jobs := c.jobs.filter fun j => !(j.source = source && j.state ≠ .running) }

/-- Carry a running job of a source to its new version. -/
def rebaseJob (source : SourceKey) (old new : ℕ) (j : Job) : Job :=
  if j.source = source && j.state = .running && j.sourceVersion = old then
    { j with sourceVersion := new }
  else j

/-- Carry the running jobs of a source to its new version (lines 850–863). -/
def rebaseJobs (source : SourceKey) (old new : ℕ) (c : Catalog) : Catalog :=
  { c with
    jobs := c.jobs.mapRows (rebaseJob source old new) fun j => by
      unfold rebaseJob
      split <;> rfl }

/-- `upsert_file_inner` (lines 716–880). -/
def upsertFile (file : FileRecord) (generation musicTagGeneration : ℕ) (probed : Bool)
    (c : Catalog) : Option ℕ × Catalog :=
  let previous := c.files.get? file.source
  let mapperRefresh := previous.any fun stored => musicTagGeneration > stored.musicTagGeneration
  let unchanged := (previous.any fun stored =>
    stored.error.isEmpty && stored.sameBytes file && stored.streams = file.streams) &&
      !mapperRefresh
  if unchanged then (none, c.touchFile file.source generation musicTagGeneration probed)
  else
    let revisionChanged := previous.all fun stored =>
      !stored.error.isEmpty || !stored.sameBytes file
    let (version, c) := c.nextVersion
    let row := upsertedFile file generation musicTagGeneration version probed previous
    let c := { c with files := c.files.put row }
    let c := c.putRecord .file file.source version (some (.fileUpsert c.id [file]))
    if revisionChanged then
      let (_, c) := c.tombstoneDerivedRecords file.source
      (some version, c.dropIdleJobs file.source)
    else
      let c := match previous with
        | some stored => c.rebaseJobs file.source stored.version version
        | none => c
      let (_, c) := c.reversionDerivedRecords file.source
      (some version, c)

/-- The row that `record_error` writes (lines 942–959): of an existing row only
    three columns change. -/
def erroredFile (error : FileError) (generation version : ℕ) (previous : Option StoredFile) :
    StoredFile :=
  match previous with
  | some stored =>
    { stored with seenGeneration := generation, version := version, error := error.error }
  | none =>
    ⟨error.source, 0, 0, 0, 0, 0, lit "\x7b\x7d", generation, version, error.error, 0, false⟩

/-- `record_error` (lines 882–972). -/
def recordError (error : FileError) (generation : ℕ) (c : Catalog) : ℕ × Catalog :=
  let source := error.source
  let previous := c.files.get? source
  match previous.filter fun stored => stored.error = error.error with
  | some stored => (stored.version, c.markSeen source generation)
  | none =>
    let hadLiveFile := previous.any fun stored => stored.error.isEmpty
    let c :=
      if hadLiveFile then
        let (removed, c) := c.nextVersion
        let c := c.putRecord .file source removed none
        let (_, c) := c.tombstoneDerivedRecords source
        c.dropIdleJobs source
      else c
    let (version, c) := c.nextVersion
    let c := { c with files := c.files.put (erroredFile error generation version previous) }
    (version, c.putRecord .fileError source version (some (.fileError error)))

/-- `baseline_sidecars` (lines 977–996). -/
def baselineSidecars (json : StreamsJson) (root : Text) (baselines : List (Text × Text))
    (c : Catalog) : Catalog :=
  baselines.foldl (fun c (path, revision) =>
    { c with
      files := c.files.mapRows
        (fun row =>
          if row.source = ⟨root, path⟩ && row.error.isEmpty &&
              (json.sidecarRevision row.streams).isNone then
            { row with streams := json.setSidecarRevision row.streams revision }
          else row)
        fun row => by split <;> rfl }) c

/-- `remove_file` (lines 1042–1061). -/
def removeFile (source : SourceKey) (c : Catalog) : ℕ × Catalog :=
  let (_, c) := c.tombstoneDerivedRecords source
  let (version, c) := c.nextVersion
  let c := { c with files := c.files.erase source }
  (version, c.putRecord .file source version none)

/-- `reconcile_root` (lines 1009–1040). -/
def reconcileRoot (root : Text) (present : List Text) (c : Catalog) : Catalog :=
  let stored := c.files.rows.filter fun row => row.source.root = root
  let absent := stored.filter fun row => row.source.path ∉ present
  absent.foldl (fun c row => (c.removeFile row.source).2) c

/-- `finish_scan` (lines 1069–1108). -/
def finishScan (generation : ℕ) (retainedRoots : List Text) (c : Catalog) : ℕ × Catalog :=
  let stale := c.files.rows.filter fun row =>
    row.seenGeneration ≠ generation && row.source.root ∉ retainedRoots
  let c := stale.foldl (fun c row => (c.removeFile row.source).2) c
  (c.currentVersion, { c with scanning := false, completedGeneration := generation })

/-! ## Claims and results -/

/-- `ORDER BY f.mtime_unix DESC,f.root_token,f.path_rel`. -/
def claimOrder (a b : StoredFile) : Bool :=
  b.mtime < a.mtime ||
    (b.mtime = a.mtime &&
      (a.source.root < b.source.root ||
        (a.source.root = b.source.root && !decide (b.source.path < a.source.path))))

/-- The loop over the files that are claimed (lines 1450–1479 and 1555–1584). -/
def claimRows (kind : Kind) (rows : List StoredFile) (c : Catalog) : Catalog :=
  rows.foldl (fun c f =>
    { c with jobs := c.jobs.put ⟨kind, f.source, f.size, f.mtime, f.version, .running⟩ }) c

/-- What `claim_sources` and `claim_cheap_sources` have in common: claim files
    that satisfy `wanted`, have no live fact of the kind and are not claimed. -/
def claimWhere (wanted : StoredFile → Bool) (kind : Kind) (limit : ℕ) (c : Catalog) :
    List SourceKey × Catalog :=
  let running := c.jobs.rows.countP fun j => j.kind = kind && j.state = .running
  let available := limit - running
  if available = 0 then ([], c)
  else
    let rows := ((c.files.rows.filter fun f =>
      f.error.isEmpty && wanted f && (c.live? (kind, f.source)).isNone &&
        !c.jobs.rows.any fun j =>
          j.kind = kind && j.source = f.source && j.state = .running).insertionSort
            fun a b => claimOrder a b).take available
    (rows.map StoredFile.source, c.claimRows kind rows)

/-- `claim_sources` (lines 1404–1482). -/
def claimSources (json : StreamsJson) (kind : Kind) (limit : ℕ) (c : Catalog) :
    List SourceKey × Catalog :=
  c.claimWhere (fun f => kind ≠ .fileLoudness || json.audioTracks f.streams > 0) kind limit

/-- What is missing from the probe of a file (lines 1520–1532). -/
def cheapMissing (json : StreamsJson) (kind : Kind) (mediaType : MediaType) (f : StoredFile) :
    Bool :=
  match kind with
  | .fileAttachments =>
    (json.container f.streams).any (fun name => name = lit "matroska" || name = lit "webm") &&
      (!json.hasAttachments f.streams || !json.hasChapters f.streams) && mediaType ≠ .music
  | .fileKeyframe => json.hasVideoCodec f.streams && !json.hasKeyframeInterval f.streams
  | .fileGeometry => json.hasVideoCodec f.streams && !json.geometryProbed f.streams
  | _ => false

/-- `claim_cheap_sources` (lines 1487–1587). -/
def claimCheapSources (json : StreamsJson) (kind : Kind) (limit : ℕ) (c : Catalog) :
    Option (List SourceKey × Catalog) :=
  match kind with
  | .fileAttachments | .fileKeyframe | .fileGeometry =>
    some (c.claimWhere (cheapMissing json kind c.mediaType) kind limit)
  | _ => none

/-- `release_claims` (lines 1589–1609). -/
def releaseClaims (kind : Kind) (sources : List SourceKey) (c : Catalog) : Catalog :=
  sources.foldl (fun c source =>
    { c with jobs := c.jobs.filter fun j => !(j.key = (kind, source) && j.state = .running) }) c

/-- `struct StaleFact` (line 78). -/
inductive StaleFact
  | staleSource
  | noClaim
  | oldRevision
  deriving DecidableEq

/-- The running claim of a kind and source (lines 1954–1962). -/
def claim? (key : RecordKey) (c : Catalog) : Option Job :=
  (c.jobs.get? key).filter fun j => j.state = .running

/-- The current revision of a source (lines 1963–1971). -/
def current? (source : SourceKey) (c : Catalog) : Option StoredFile :=
  (c.files.get? source).filter fun row => row.error.isEmpty

/-- `claim == current`: the three columns that the two rows share. -/
def sameRevision (claim : Job) (current : StoredFile) : Bool :=
  claim.size = current.size && claim.mtime = current.mtime &&
    claim.sourceVersion = current.version

/-- `store_source_fact` (lines 1944–2031) for the kinds that are guarded by a
    claim, which are all that are stored. -/
def storeSourceFact (kind : Kind) (source : SourceKey) (payload : Payload)
    (expectedSize : Option ℕ) (expectedMtime : Option ℤ) (c : Catalog) :
    Except StaleFact ℕ × Catalog :=
  let claim := c.claim? (kind, source)
  let settled := { c with jobs := c.jobs.erase (kind, source) }
  match c.current? source with
  | none => (.error .staleSource, settled)
  | some current =>
    match claim with
    | none => (.error .noClaim, settled)
    | some claim =>
      if !sameRevision claim current then (.error .oldRevision, settled)
      else if !(expectedSize.all fun size => size = current.size) ||
          !(expectedMtime.all fun mtime => mtime = current.mtime) then
        (.error .oldRevision, settled)
      else
        let (version, c) := c.nextVersion
        let c := c.putRecord kind source version (some payload)
        (.ok version, { c with jobs := c.jobs.erase (kind, source) })

/-- What `store_fact` passes to `store_source_fact` for one source. -/
structure Fact where
  kind : Kind
  derived : kind.IsDerived
  source : SourceKey
  payload : Payload
  expectedSize : Option ℕ
  expectedMtime : Option ℤ

/-- The fact of a hash (lines 1788–1804): an error does not vouch for a size. -/
def hashFact (collection : Text) (hash : FileHash) : Fact :=
  ⟨.fileHashes, by decide, hash.source, .fileHashes collection [hash],
    if hash.error.isEmpty then some hash.size else none, none⟩

/-- The fact of a loudness result (lines 1826–1840). -/
def loudnessFact (value : FileLoudness) : Fact :=
  ⟨.fileLoudness, by decide, value.source, .fileLoudness value, some value.size, some value.mtime⟩

theorem isDerived_fileAttachments : Kind.IsDerived .fileAttachments := by decide

theorem isDerived_fileKeyframe : Kind.IsDerived .fileKeyframe := by decide

theorem isDerived_fileGeometry : Kind.IsDerived .fileGeometry := by decide

/-- The fact of an attachment, keyframe or geometry result (lines 1841–1885). -/
def measureFact (kind : Kind) (hkind : kind.IsDerived) (payload : FileMeasure → Payload)
    (value : FileMeasure) : Fact :=
  ⟨kind, hkind, value.source, payload value, some value.size, none⟩

/-- The fact of an episode of a segment result (lines 1902–1924). -/
def segmentFact (value : SegmentDetectionResult) (episode : SegmentEpisodeResult) : Fact :=
  ⟨.fileSegments, by decide, episode.source, .fileSegments { value with episodes := [episode] },
    some episode.observedSize, some episode.observedMtime⟩

/-- `store_source_fact` on a fact. -/
def storeOne (fact : Fact) (c : Catalog) : Except StaleFact ℕ × Catalog :=
  c.storeSourceFact fact.kind fact.source fact.payload fact.expectedSize fact.expectedMtime

/-- The loop over the hashes of a message (lines 1786–1825): a failure does not
    keep its siblings from being stored. -/
def storeHashes (collection : Text) :
    List FileHash → Except StaleFact Unit → Catalog → Except StaleFact Unit × Catalog
  | [], failure, c => (failure, c)
  | hash :: rest, failure, c =>
    let (result, c) := c.storeOne (hashFact collection hash)
    let failure := match result, failure with
      | .error e, .ok () => .error e
      | _, failure => failure
    storeHashes collection rest failure c

/-- The loop over the episodes of a message (lines 1891–1936): a retryable episode
    ends its claim, and a stale one is discarded. -/
def storeEpisodes (value : SegmentDetectionResult) :
    List SegmentEpisodeResult → Catalog → Catalog
  | [], c => c
  | episode :: rest, c =>
    if episode.retryable then
      storeEpisodes value rest (c.releaseClaims .fileSegments [episode.source])
    else storeEpisodes value rest (c.storeOne (segmentFact value episode)).2

/-- Store the one fact of a message. -/
def storeSingle (collection : Text) (fact : Fact) (c : Catalog) : Except StaleFact Unit × Catalog :=
  if collection = c.id then
    let (result, c) := c.storeOne fact
    (result.map fun _ => (), c)
  else (.ok (), c)

/-- `store_fact` (lines 1781–1942). A message about another collection does not
    touch the tables of this one. -/
def storeFact (message : Payload) (c : Catalog) : Except StaleFact Unit × Catalog :=
  match message with
  | .fileHashes collection hashes =>
    if collection = c.id then c.storeHashes collection hashes (.ok ()) else (.ok (), c)
  | .fileLoudness value => c.storeSingle value.collection (loudnessFact value)
  | .fileAttachments value =>
    c.storeSingle value.collection (measureFact .fileAttachments isDerived_fileAttachments .fileAttachments value)
  | .fileKeyframe value =>
    c.storeSingle value.collection (measureFact .fileKeyframe isDerived_fileKeyframe .fileKeyframe value)
  | .fileGeometry value =>
    c.storeSingle value.collection (measureFact .fileGeometry isDerived_fileGeometry .fileGeometry value)
  | .fileSegments value =>
    (.ok (), if value.collection = c.id then c.storeEpisodes value value.episodes else c)
  | _ => (.ok (), c)

/-! ## Opening -/

/-- `ensure_discovery_generation` (lines 255–304). -/
def ensureDiscoveryGeneration (kind : Kind) (generation : Text) (c : Catalog) : Catalog :=
  if c.analyzer kind = some generation then c
  else
    let records := c.records.rows.filter fun r => r.kind = kind && !r.deleted
    let c := records.foldl (fun c r =>
      let (version, c) := c.nextVersion
      c.putRecord kind r.source version none) c
    { c with
      jobs := c.jobs.filter fun j => j.kind ≠ kind
      analyzer := Function.update c.analyzer kind (some generation) }

/-- Running jobs become claimable again (lines 187–189). -/
def resetJobs (c : Catalog) : Catalog :=
  { c with
    jobs := c.jobs.mapRows
      (fun j => if j.state = .running then { j with state := .pending } else j)
      fun j => by split <;> rfl }

/-- `open_with_segment_detection` (lines 153–253) for a collection that is kept. -/
def openCatalog (loudness : Text) (segments : Option Text) (c : Catalog) : Catalog :=
  let c := c.resetJobs.ensureDiscoveryGeneration .fileLoudness loudness
  let c := match segments with
    | some generation => c.ensureDiscoveryGeneration .fileSegments generation
    | none => c
  { c with scanning := true }

end Catalog

end Kahawai.Mediahost
