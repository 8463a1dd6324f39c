import Kahawai.Core.Text

/-!
# The link protocol

The messages of `crates/kahawai-proto/proto/link.proto` that carry the source
catalogue from a mediahost to a hub, with the fields that the modelled
functions read. What they only pass on is the field `rest`.

A catalogue key is the bytes `root_token \0 path_rel`. Root tokens contain no
NUL (`root_token` in `crates/kahawai-core/src/media.rs`), so the bytes and the
pair `SourceKey` determine each other, and the model uses the pair. A payload
is the message it encodes; a tombstone has none.
-/

namespace Kahawai.Proto

open Kahawai.Core

/-- The media types of a collection (`crates/kahawai-mediadb/src/types.rs`,
    lines 6–11). -/
inductive MediaType
  | movies
  | series
  | anime
  | music
  deriving DecidableEq, Repr

/-- `message SourcePath`: a root token and a path, the exact address of a file of
    the collection. -/
structure SourceKey where
  root : Text
  path : Text
  deriving DecidableEq

/-- `message FileRecord`. -/
structure FileRecord where
  source : SourceKey
  size : ℕ
  mtime : ℤ
  headXxh3 : ℕ
  tailXxh3 : ℕ
  oshash : ℕ
  streams : Text
  deriving DecidableEq

/-- `message FileError`. The scanner sends the text of an error, which is not
    empty. -/
structure FileError where
  collection : Text
  source : SourceKey
  error : Text
  error_ne : error ≠ []
  deriving DecidableEq

/-- `message FileHash`. -/
structure FileHash where
  source : SourceKey
  size : ℕ
  error : Text
  rest : Text
  deriving DecidableEq

/-- `message FileLoudness`. -/
structure FileLoudness where
  collection : Text
  source : SourceKey
  size : ℕ
  mtime : ℤ
  rest : Text
  deriving DecidableEq

/-- `message FileAttachments`, `message FileKeyframeInterval` and
    `message FileVideoGeometry`. -/
structure FileMeasure where
  collection : Text
  source : SourceKey
  size : ℕ
  rest : Text
  deriving DecidableEq

/-- `message SegmentEpisodeResult`. -/
structure SegmentEpisodeResult where
  source : SourceKey
  observedSize : ℕ
  observedMtime : ℤ
  retryable : Bool
  rest : Text
  deriving DecidableEq

/-- `message SegmentDetectionResult`. -/
structure SegmentDetectionResult where
  collection : Text
  episodes : List SegmentEpisodeResult
  rest : Text
  deriving DecidableEq

/-- The messages that are stored as catalogue payloads. -/
inductive Payload
  | fileUpsert (collection : Text) (files : List FileRecord)
  | fileError (value : FileError)
  | fileHashes (collection : Text) (hashes : List FileHash)
  | fileLoudness (value : FileLoudness)
  | fileAttachments (value : FileMeasure)
  | fileKeyframe (value : FileMeasure)
  | fileGeometry (value : FileMeasure)
  | fileSegments (value : SegmentDetectionResult)
  deriving DecidableEq

/-- The record kinds: `file`, `file_error`, `file_hashes`, `file_loudness`,
    `file_attachments`, `file_keyframe`, `file_geometry` and `file_segments`. -/
inductive Kind
  | file
  | fileError
  | fileHashes
  | fileLoudness
  | fileAttachments
  | fileKeyframe
  | fileGeometry
  | fileSegments
  deriving DecidableEq, Repr

/-- The name of a kind. -/
def Kind.name : Kind → Text
  | file => lit "file"
  | fileError => lit "file_error"
  | fileHashes => lit "file_hashes"
  | fileLoudness => lit "file_loudness"
  | fileAttachments => lit "file_attachments"
  | fileKeyframe => lit "file_keyframe"
  | fileGeometry => lit "file_geometry"
  | fileSegments => lit "file_segments"

/-- A fact derived from the bytes of a source. -/
def Kind.IsDerived (kind : Kind) : Prop := kind ≠ .file ∧ kind ≠ .fileError

instance (kind : Kind) : Decidable kind.IsDerived :=
  inferInstanceAs (Decidable (_ ∧ _))

/-- The key of a record: its kind and source. -/
abbrev RecordKey := Kind × SourceKey

/-- `message CatalogRecord`, and a row of `catalog_records`: the two columns
    `payload` and `deleted` are one field, since a record is deleted exactly
    when its payload was written as the empty string. -/
structure CatalogRecord where
  kind : Kind
  source : SourceKey
  version : ℕ
  payload : Option Payload
  deriving DecidableEq

/-- The key of a record. -/
def CatalogRecord.key (r : CatalogRecord) : RecordKey := (r.kind, r.source)

/-- The column `deleted`. -/
def CatalogRecord.deleted (r : CatalogRecord) : Bool := r.payload.isNone

/-- `message CatalogDelta`. -/
structure CatalogDelta where
  collection : Text
  epoch : Text
  records : List CatalogRecord
  throughVersion : ℕ
  snapshot : Bool
  done : Bool
  deriving DecidableEq

/-- `message CatalogCursor`. -/
structure CatalogCursor where
  collection : Text
  epoch : Text
  version : ℕ
  snapshot : Bool
  deriving DecidableEq

/-- `message CatalogAck`. -/
structure CatalogAck where
  collection : Text
  epoch : Text
  version : ℕ
  deriving DecidableEq

/-- `message CollectionRoot`. -/
structure CollectionRoot where
  token : Text
  path : Text
  deriving DecidableEq

/-- `message CatalogCollection`. -/
structure CatalogCollection where
  id : Text
  mediaType : MediaType
  roots : List CollectionRoot
  epoch : Text
  currentVersion : ℕ
  oldestReplayableVersion : ℕ
  deriving DecidableEq

/-! ## Features of a link

A link speaks `PROTOCOL_MAJOR` and some minor version
(`crates/kahawai-proto/src/lib.rs`, lines 10–71). -/

def protocolMinor : ℕ := 6

inductive ProtocolFeature
  | segmentDetection
  | audioLoudnessScalars
  | exactAudioLoudnessGains
  | audioLoudnessAnalysis
  | retryableSegmentResults
  | discoveryPriorityHints
  | deepRescan
  | revisionedSubtitles
  | imageSubsWorklists
  | readinessRunway
  | videoBitDepth
  deriving DecidableEq

def ProtocolFeature.minimumMinor : ProtocolFeature → ℕ
  | .discoveryPriorityHints => 1
  | .deepRescan => 2
  | .revisionedSubtitles => 3
  | .imageSubsWorklists => 4
  | .readinessRunway => 5
  | .videoBitDepth => 6
  | _ => 0

structure ProtocolFeatures where
  minor : ℕ
  deriving DecidableEq

namespace ProtocolFeatures

/-- `ProtocolFeatures::default`. -/
def default : ProtocolFeatures := ⟨0⟩

def current : ProtocolFeatures := ⟨protocolMinor⟩

def supports (self : ProtocolFeatures) (feature : ProtocolFeature) : Bool :=
  feature.minimumMinor ≤ self.minor

/-- This build supports every feature it knows. -/
theorem current_supports (feature : ProtocolFeature) : current.supports feature = true := by
  cases feature <;> decide

/-- A link that reports no minor version limits no bit depth. -/
theorem default_supports_videoBitDepth : default.supports .videoBitDepth = false := by
  decide

end ProtocolFeatures

end Kahawai.Proto
