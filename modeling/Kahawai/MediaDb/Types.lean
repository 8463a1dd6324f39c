import Kahawai.Proto
import Kahawai.Lib.Table

/-!
# The hub's media tables

Model of `crates/kahawai-mediadb/src/types.rs` and of the tables of
`crates/kahawai-mediadb/migrations/0001_media_catalogue.sql` that hold one
collection. Every statement of the modelled functions is restricted to the
collection by its ID or a foreign key, so the tables hold the rows of that
collection only. Surrogate IDs are replaced by the natural keys that the
`UNIQUE` constraints make equivalent: a root by its token, a file by its root
and path, an item by its root and occurrence, an entry by its item and
occurrence. A `PRIMARY KEY` or `UNIQUE` constraint of a table is the key of its
`Table`; `media_parts` has two, and `putPart` checks the other one.

Library items, enrichment triggers and subtitle jobs, which the modelled
functions write and never read, are left out.
-/

namespace Kahawai.MediaDb

open Kahawai.Core Kahawai.Lib Kahawai.Proto

/-! ## Types -/

/-- `struct EpisodeSpan` (lines 124–129). -/
structure EpisodeSpan where
  season : Option ℕ
  episode : ℕ
  episodeEnd : Option ℕ
  deriving DecidableEq

/-- `enum EntryKind` (lines 132–141). -/
inductive EntryKind
  | movie
  | episode (episodes : List EpisodeSpan)
  | track (disc track : Option ℕ)
  deriving DecidableEq

/-- `struct Part` (lines 143–146). -/
structure Part where
  file : SourceKey
  ordinal : ℕ
  deriving DecidableEq

/-- `struct NewEntry` (lines 148–154). -/
structure NewEntry where
  occurrence : Text
  title : Text
  artist : Option Text
  kind : EntryKind
  parts : List Part
  deriving DecidableEq

/-- `struct DetectedMetadata` (lines 117–122). Of the description only `artwork`
    is ever detected. -/
structure DetectedMetadata where
  title : Text
  year : Option ℤ
  artist : Option Text
  artwork : Option (List Text)
  deriving DecidableEq

/-- `struct NewOccurrence` (lines 156–162). -/
structure NewOccurrence where
  root : Text
  occurrence : Text
  detected : DetectedMetadata
  entries : List NewEntry
  deriving DecidableEq

/-- What the hub reads of a `MediaInfo`: the tags, the artwork and the bit
    depths of the video streams. -/
structure MediaInfo where
  tags : Text → Option Text
  artwork : Option Text
  bitDepths : List (Option ℕ)

/-! ## Rows -/

/-- A row of `files`. -/
structure FileRow where
  key : SourceKey
  version : ℕ
  seen : ℕ
  size : Option ℕ
  mtime : Option ℤ
  headHash : Option ℕ
  tailHash : Option ℕ
  oshash : Option ℕ
  media : Option MediaInfo
  mappingError : Option Text

/-- A row of `collection_items`. -/
structure ItemRow where
  root : Text
  occurrence : Text
  detected : DetectedMetadata
  manual : Bool

/-- The key of an item. -/
def ItemRow.key (r : ItemRow) : Text × Text := (r.root, r.occurrence)

/-- A row of `media_entries` with its `media_entry_episodes`. -/
structure EntryRow where
  item : Text × Text
  occurrence : Text
  title : Text
  artist : Option Text
  kind : EntryKind

/-- The key of an entry. -/
def EntryRow.key (r : EntryRow) : (Text × Text) × Text := (r.item, r.occurrence)

/-- A row of `media_parts`. -/
structure PartRow where
  entry : (Text × Text) × Text
  ordinal : ℕ
  file : SourceKey
  deriving DecidableEq

/-- The tables of physical media. -/
structure MediaTables where
  files : Table FileRow.key
  items : Table ItemRow.key
  entries : Table EntryRow.key
  parts : Table PartRow.file

end Kahawai.MediaDb
