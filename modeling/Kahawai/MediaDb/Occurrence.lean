import Kahawai.Core.Episodes
import Kahawai.MediaDb.Types

/-!
# Physical occurrences

Model of `crates/kahawai-mediadb/src/occurrence.rs`: `detect`, which assigns a
file its item, entry and part, and `put`, which stores them.
-/

namespace Kahawai.MediaDb

open Kahawai.Core Kahawai.Core.Text Kahawai.Core.Names Kahawai.Lib Kahawai.Proto

variable (u : Unicode)

/-! ## Paths -/

/-- `numbered_component` (lines 440–450). -/
def numberedComponent (value : Text) (season : Bool) : Option ℕ :=
  let folded := (u.toLower value).filter fun c => c ≠ ' ' && c ≠ '_' && c ≠ '-'
  let prefixes :=
    if season then [lit "season"] else [lit "cd", lit "disc", lit "disk", lit "part"]
  prefixes.findSome? fun p => (stripPrefix p folded).bind parseU32

/-- `owner_directory` (lines 451–463). -/
def ownerDirectory (path : Text) (music : Bool) : Text × Option ℕ :=
  let parts := (components path).dropLast
  let marker := parts.zipIdx.findSome? fun (p, i) =>
    (numberedComponent u p (!music)).map fun n => (i, n)
  match marker with
  | some (place, n) => (joinPath (parts.take place), some n)
  | none => (joinPath parts, none)

/-- The directories after the first loop of `multipart` (lines 470–475). -/
def partDirectories (directories : List Text) : List Text :=
  directories.map fun component =>
    if ((numberedComponent u component false).filter (· > 0)).isSome then lit "{part}"
    else component

/-- The part number after the first loop of `multipart` (lines 470–475). -/
def directoryPart (directories : List Text) : Option ℕ :=
  directories.reverse.findSome? fun component =>
    (numberedComponent u component false).filter (· > 0)

/-- The tokens of `multipart` (lines 479–491): the places of the alphanumeric
    runs. `i` is the place of the next character and `start` that of the run. -/
def tokenSpans : (i start : ℕ) → Text → List (ℕ × ℕ)
  | i, start, [] => if start < i then [(start, i)] else []
  | i, start, c :: s =>
    if u.isAlphanumeric c then tokenSpans (i + 1) start s
    else (if start < i then [(start, i)] else []) ++ tokenSpans (i + 1) (i + 1) s

/-- `stem[a..b]`. -/
def slice (stem : Text) (a b : ℕ) : Text := (stem.drop a).take (b - a)

/-- The marker of the token at `index` (lines 494–500): its number and where it
    ends. -/
def tokenMarker (stem : Text) (tokens : List (ℕ × ℕ)) (index a b : ℕ) : Option (ℕ × ℕ) :=
  let token := slice stem a b
  let separate := [lit "cd", lit "disc", lit "disk"].contains (u.toLower token) ||
    (eqIgnoreAsciiCase token (lit "part") && tokens.length = 2 && index = 0)
  match tokens[index + 1]? with
  | some (na, nb) =>
    if separate then (parseU32 (slice stem na nb)).map fun n => (n, nb)
    else (numberedComponent u token false).map fun n => (n, b)
  | none => (numberedComponent u token false).map fun n => (n, b)

/-- The second loop of `multipart` (lines 492–513): where the marker starts and
    ends, and its number. -/
def fileMarker (stem : Text) : Option (ℕ × ℕ × ℕ) :=
  let tokens := tokenSpans u 0 0 stem
  tokens.zipIdx.findSome? fun ((a, b), index) =>
    if startsWith (lit "part") (u.toLower (slice stem a b)) && tokens.length ≠ 1 &&
        !(tokens.length = 2 && index = 0) then none
    else
      ((tokenMarker u stem tokens index a b).filter fun m => m.1 > 0).map fun (n, stop) =>
        (a, stop, n)

/-- `multipart` (lines 466–516). -/
def multipart (path : Text) : Text × Option ℕ :=
  let parts := components path
  let directories := partDirectories u parts.dropLast
  let part := directoryPart u parts.dropLast
  let file := parts.getLast?.getD []
  let stem := fileStem file
  match fileMarker u stem with
  | some (a, stop, n) =>
    (joinPath (directories ++ [file.take a ++ lit "{part}" ++ file.drop stop]), some n)
  | none => (joinPath (directories ++ [file]), part)

/-! ## Detection -/

/-- A JSON string as `serde_json` writes it. -/
def jsonChar (c : Char) : Text :=
  if c = '"' then lit "\\\""
  else if c = '\\' then lit "\\\\"
  else if c.toNat = 8 then lit "\\b"
  else if c.toNat = 9 then lit "\\t"
  else if c.toNat = 10 then lit "\\n"
  else if c.toNat = 12 then lit "\\f"
  else if c.toNat = 13 then lit "\\r"
  else if c.toNat < 32 then
    lit "\\u00" ++ [Nat.digitChar (c.toNat / 16), Nat.digitChar (c.toNat % 16)]
  else [c]

/-- `serde_json::to_string` of a string. -/
def jsonString (s : Text) : Text := ['"'] ++ s.flatMap jsonChar ++ ['"']

/-- `serde_json::to_string(&(&artist, &title))`. -/
def jsonPair (artist : Option Text) (title : Text) : Text :=
  lit "[" ++ (artist.map jsonString).getD (lit "null") ++ lit "," ++ jsonString title ++ lit "]"

/-- The last component of a path. -/
def fileName (path : Text) : Text := (components path).getLast?.getD []

/-- The closure `tag` of `detect` (lines 314–320). -/
def tag (media : MediaInfo) (name : String) : Option Text :=
  ((media.tags (lit name)).map trim).filter fun v => !v.isEmpty

/-- The closure `number` of `detect` (lines 348–353). -/
def tagNumber (media : MediaInfo) (name : String) : Option ℕ :=
  ((tag media name).bind fun v => ((components v).head?.bind parseU32)).filter (· > 0)

/-- The entry and part `detect` starts from (lines 296–305). The file is filled
    in by `resolve_file`. -/
def wholeEntry (path title : Text) (artist : Option Text) (kind : EntryKind) : NewEntry :=
  ⟨path, title, artist, kind, [⟨⟨[], []⟩, 1⟩]⟩

/-- `description.artwork` (lines 286–289). -/
def artworkOf (media : MediaInfo) : Option (List Text) := media.artwork.map fun art => [art]

/-- The music branch of `detect` (lines 306–368). -/
def detectTrack (path : Text) (media : MediaInfo) : Option NewOccurrence :=
  let (parent, discFolder) := ownerDirectory u path true
  let parsedPath := if discFolder.isSome then parent ++ ['/'] ++ fileName path else path
  let guess := parseMusic parsedPath
  match (tag media "album").or (guess.map MusicGuess.album) with
  | none => none
  | some title =>
    let parentArtist := ((rsplitOnce (· = '/') parent).map fun (artistPath, _) =>
      fileName artistPath).filter fun artist => !artist.isEmpty
    let artist := (((tag media "album_artist").or (guess.map MusicGuess.artist)).or
      parentArtist).or (tag media "artist")
    let tagYear := (((tag media "date").or (tag media "year")).bind fun s =>
      bytePrefix s 4).bind (parseSigned 32)
    let year := tagYear.or (guess.bind MusicGuess.albumYear)
    let entryTitle := ((tag media "title").or (guess.map MusicGuess.title)).getD (fileName path)
    let disc := (tagNumber media "disc_number").or (discFolder.filter (· > 0))
    let track := (tagNumber media "track_number").or ((guess.map MusicGuess.track).filter (· > 0))
    let occurrence :=
      if parent.isEmpty then lit "flat-album:" ++ jsonPair artist title
      else lit "album:" ++ parent
    some ⟨[], occurrence, ⟨title, year, artist, artworkOf media⟩,
      [wholeEntry path entryTitle ((tag media "artist").or (guess.map MusicGuess.artist))
        (.track disc track)]⟩

/-- The episode branch of `detect` (lines 377–399). -/
def detectEpisode (path : Text) (media : MediaInfo) (guess : EpisodeGuess) :
    Option NewOccurrence :=
  if guess.episodeEnd.getD guess.episode < guess.episode then none
  else
    let dir := (ownerDirectory u path false).1
    let occurrence :=
      if dir.isEmpty then lit "flat-series:" ++ guess.showTitle else lit "series:" ++ dir
    some ⟨[], occurrence, ⟨guess.showTitle, guess.showYear.map Int.ofNat, none, artworkOf media⟩,
      [wholeEntry path (guess.episodeTitle.getD (lit "Episode " ++ ofNat guess.episode)) none
        (.episode [⟨guess.season, guess.episode, guess.episodeEnd⟩])]⟩

/-- The film a path names (lines 405–418): a bare part takes the name of the
    nearest directory that is not a part itself. -/
def filmGuess (path : Text) (part : Option ℕ) : Option MovieGuess :=
  if part.isSome && (numberedComponent u (fileStem (fileName path)) false).isSome then
    (((components path).reverse.drop 1).find? fun p =>
      (numberedComponent u p false).isNone).bind fun directory =>
        parseMovieFile (directory ++ lit ".mkv")
  else parseMovieFile path

/-- The film branch of `detect` (lines 401–428). -/
def detectFilm (path : Text) (media : MediaInfo) : Option NewOccurrence :=
  let (family, part) := multipart u path
  (filmGuess u path part).map fun guess =>
    let detected := ⟨guess.title, guess.year.map Int.ofNat, none, artworkOf media⟩
    match part with
    | some ordinal => ⟨[], lit "multipart:" ++ family, detected,
        [⟨family, guess.title, none, .movie, [⟨⟨[], []⟩, ordinal⟩]⟩]⟩
    | none => ⟨[], lit "movie:" ++ path, detected, [wholeEntry path guess.title none .movie]⟩

/-- The episode `detect` tries first (lines 370–376). -/
def episodeGuess (kind : MediaType) (path : Text) : Option EpisodeGuess :=
  match kind with
  | .anime => parseAnime u path
  | .series => parseEpisode path
  | _ => none

/-- `detect` (lines 285–437). -/
def detect (kind : MediaType) (path : Text) (media : MediaInfo) : Option NewOccurrence :=
  if kind = .music then detectTrack u path media
  else
    match episodeGuess u kind path with
    | some guess => detectEpisode u path media guess
    | none => if kind = .series then none else detectFilm u path media

/-! ## Storage -/

/-- Why `put` fails. -/
inductive PutError
  | emptyOccurrence
  | emptyOrDuplicateEntry
  | incompatibleCollection
  | reversedCoverage
  | overlappingCoverage
  | fileTwice
  | foreignPart
  /-- A `CHECK` constraint of `media_entries` or `media_parts`. -/
  | notPositive
  /-- The primary key of `media_parts`. -/
  | duplicatePart
  deriving DecidableEq

/-- Whether an entry of the kind may be in the collection (lines 153–172). -/
def compatible (mediaType : MediaType) : EntryKind → Bool
  | .movie => mediaType = .movies || mediaType = .anime
  | .episode episodes => (mediaType = .series || mediaType = .anime) && !episodes.isEmpty
  | .track _ _ => mediaType = .music

/-- `CHECK(disc>0)` and `CHECK(track>0)`. -/
def positiveNumbers : EntryKind → Bool
  | .track disc track => disc.all (· > 0) && track.all (· > 0)
  | _ => true

/-- The loop over the spans of an entry (lines 187–196). -/
def checkCoverage : (before : List EpisodeSpan) → List EpisodeSpan → Except PutError Unit
  | _, [] => .ok ()
  | before, span :: rest =>
    let stop := span.episodeEnd.getD span.episode
    if stop < span.episode then .error .reversedCoverage
    else if before.any fun old => old.season = span.season && old.episode ≤ stop &&
        old.episodeEnd.getD old.episode ≥ span.episode then .error .overlappingCoverage
    else checkCoverage (before ++ [span]) rest

/-- The spans of an entry are checked one after another (lines 186–212). -/
def coverage : EntryKind → Except PutError Unit
  | .episode episodes => checkCoverage [] episodes
  | _ => .ok ()

/-- The statements for one part (lines 223–244). -/
def putPart (entry : (Text × Text) × Text) (part : Part) (t : MediaTables) :
    Except PutError MediaTables :=
  match t.files.get? part.file with
  | none => .error .foreignPart
  | some file =>
    if file.media.isNone || part.file.root ≠ entry.1.1 then .error .foreignPart
    else
      let files := t.files.put { file with mappingError := none }
      let parts := t.parts.erase part.file
      if part.ordinal = 0 then .error .notPositive
      else if parts.rows.any fun row => row.entry = entry && row.ordinal = part.ordinal then
        .error .duplicatePart
      else .ok { t with files := files, parts := parts.put ⟨entry, part.ordinal, part.file⟩ }

/-- The loop over the parts of an entry (lines 219–245); `seen` is `files`. -/
def putParts (entry : (Text × Text) × Text) :
    List Part → List SourceKey → MediaTables → Except PutError (List SourceKey × MediaTables)
  | [], seen, t => .ok (seen, t)
  | part :: rest, seen, t =>
    if part.file ∈ seen then .error .fileTwice
    else do
      let t ← putPart entry part t
      putParts entry rest (part.file :: seen) t

/-- The statements for one entry (lines 153–245). -/
def putEntry (mediaType : MediaType) (item : Text × Text) (manual : Bool) (entry : NewEntry)
    (seen : List SourceKey) (t : MediaTables) : Except PutError (List SourceKey × MediaTables) :=
  if !compatible mediaType entry.kind then .error .incompatibleCollection
  else if !positiveNumbers entry.kind then .error .notPositive
  else do
    let entries := t.entries.put ⟨item, entry.occurrence, entry.title, entry.artist, entry.kind⟩
    coverage entry.kind
    let parts := if manual then t.parts.filter fun row => row.entry ≠ (item, entry.occurrence)
      else t.parts
    putParts (item, entry.occurrence) entry.parts seen { t with entries := entries, parts := parts }

/-- The loop over the entries of an occurrence (lines 144–246); `keys` is
    `entry_keys`. -/
def putEntries (mediaType : MediaType) (item : Text × Text) (manual : Bool) :
    List NewEntry → List Text → List SourceKey → MediaTables → Except PutError MediaTables
  | [], _, _, t => .ok t
  | entry :: rest, keys, seen, t =>
    if entry.occurrence.isEmpty || entry.occurrence ∈ keys || entry.parts.isEmpty then
      .error .emptyOrDuplicateEntry
    else do
      let (seen, t) ← putEntry mediaType item manual entry seen t
      putEntries mediaType item manual rest (entry.occurrence :: keys) seen t

/-- `put` (lines 113–248). -/
def put (mediaType : MediaType) (value : NewOccurrence) (manual : Bool) (t : MediaTables) :
    Except PutError MediaTables :=
  if value.occurrence.isEmpty || value.entries.isEmpty then .error .emptyOccurrence
  else
    let item := (value.root, value.occurrence)
    let manualItem := manual || (t.items.get? item).any ItemRow.manual
    putEntries mediaType item manual value.entries [] []
      { t with items := t.items.put ⟨value.root, value.occurrence, value.detected, manualItem⟩ }

/-- `prune` (lines 108–112). -/
def prune (t : MediaTables) : MediaTables :=
  let entries := t.entries.filter fun e => t.parts.rows.any fun part => part.entry = e.key
  { t with
    entries := entries
    items := t.items.filter fun i => entries.rows.any fun e => e.item = i.key }

/-- The text `resolve_file` leaves on a file without a title (line 274). -/
def unidentified : Text :=
  lit "Filename and tags do not identify a title; attach this source explicitly"

/-- `value.collection_id`, `value.root_id` and the file of the first part
    (lines 269–271). -/
def placeAt (file : SourceKey) (value : NewOccurrence) : NewOccurrence :=
  { value with
    root := file.root
    entries := value.entries.modifyHead fun entry =>
      { entry with parts := entry.parts.modifyHead fun part => { part with file := file } } }

/-- Whether a person has placed the file (lines 258–262). -/
def placedByHand (file : SourceKey) (t : MediaTables) : Bool :=
  (t.parts.get? file).any fun row => (t.items.get? row.entry.1).any ItemRow.manual

/-- `resolve_file` (lines 250–284). -/
def resolveFile (mediaType : MediaType) (file : SourceKey) (media : MediaInfo) (t : MediaTables) :
    Except PutError MediaTables :=
  if placedByHand file t then .ok t
  else
    match detect u mediaType file.path media with
    | some value => put mediaType (placeAt file value) false t
    | none => .ok { t with
        files := t.files.mapRows
          (fun row => if row.key = file then { row with mappingError := some unidentified } else row)
          fun row => by split <;> rfl
        parts := t.parts.erase file }

end Kahawai.MediaDb
