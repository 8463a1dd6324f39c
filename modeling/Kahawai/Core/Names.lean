import Kahawai.Core.Text

/-!
# Film and music names

Models of the film and music parsers of `crates/kahawai-core/src/names.rs`.
The series and anime parsers are in `Episodes`. Numbers are `ℕ`; the types of
the code bound them through `Text.parseU32` and its siblings.
-/

namespace Kahawai.Core.Names

open Text

/-- `struct MovieGuess` (lines 5–10). -/
structure MovieGuess where
  title : Text
  year : Option ℕ
  part : Option ℕ
  deriving DecidableEq

/-! ## Films -/

/-- `TAGS` (lines 23–39). -/
def releaseTags : List Text :=
  ["dual", "audio", "dub", "dubbed", "sub", "subbed", "subs", "eng", "uncut", "ova", "ona",
    "remaster", "remastered", "batch", "uncensored"].map lit

/-- Whether a parenthetical says a release word (lines 45–48). -/
def releaseish (inner : Text) : Bool :=
  ((split (fun c => !isAsciiAlphanumeric c) inner).filter fun w => !w.isEmpty).any fun w =>
    releaseTags.contains (toAsciiLower w)

/-- The loop of `strip_release_tags` (lines 41–55), at most `turns` times. A turn
    that does not leave the loop shortens `out`. -/
def stripReleaseTagsLoop : (turns : ℕ) → Text → Text
  | 0, out => out
  | turns + 1, out =>
    match rsplitOnce (· = '(') out with
    | none => out
    | some (before, after) =>
      if !endsWithChar (· = ')') out then out
      else if !releaseish after.dropLast then out
      else stripReleaseTagsLoop turns (trimEnd before)

/-- `strip_release_tags` (lines 22–57). -/
def stripReleaseTags (name : Text) : Text :=
  stripReleaseTagsLoop name.length (trimEnd name)

/-- `parse_year_token` (lines 252–259). -/
def parseYearToken (tok : Text) : Option ℕ :=
  let t := trimMatches (fun c => c = '(' || c = ')' || c = '[' || c = ']') tok
  if byteLen t ≠ 4 then none
  else (parseU16 t).filter fun y => 1900 ≤ y && y ≤ 2099

/-- The closure `part_of` of `parse_movie_stem` (lines 100–112). -/
def partOf (tok : Text) : Option ℕ :=
  let t := toAsciiLower tok
  let rests := [lit "cd", lit "disc", lit "disk"].filterMap fun marker => stripPrefix marker t
  (rests.find? fun rest => !rest.isEmpty && byteLen rest ≤ 2 && rest.all isAsciiDigit).bind
    parseU32

/-- `'.' | '_'` become blanks (lines 89–92). -/
def blankSeparators (s : Text) : Text := s.map fun c => if c = '.' || c = '_' then ' ' else c

/-- The loop of `parse_movie_stem` that takes part markers out (lines 114–132):
    the tokens that stay and the last part number. -/
def takeParts : List Text → Option ℕ → List Text × Option ℕ
  | [], part => ([], part)
  | raw :: rest, part =>
    let tok := trimMatches (fun c => c = '(' || c = ')' || c = '[' || c = ']' || c = '-') raw
    match partOf tok with
    | some n => takeParts rest (some n)
    | none =>
      match rest with
      | next :: rest' =>
        if [lit "cd", lit "disc", lit "disk"].contains (toAsciiLower tok) &&
            byteLen next ≤ 2 && next.all isAsciiDigit then
          takeParts rest' (parseU32 next)
        else
          let (kept, part) := takeParts (next :: rest') part
          (raw :: kept, part)
      | [] => ([raw], part)

/-- The loop over the tokens from the back (lines 136–145): the last plausible
    year that is not the first token, and its place. -/
def lastYear (tokens : List Text) : Option (ℕ × ℕ) :=
  (tokens.zipIdx.reverse).findSome? fun (tok, i) =>
    match parseYearToken tok with
    | some y => if i > 0 then some (y, i) else none
    | none => none

/-- `parse_movie_stem` (lines 88–156). -/
def parseMovieStem (stem : Text) : MovieGuess :=
  let (tokens, part) := takeParts (splitWhitespace (blankSeparators stem)) none
  let found := lastYear tokens
  let titleEnd := (found.map Prod.snd).getD tokens.length
  let title := trimEndMatches (fun c => c = '(' || c = '[' || c = '-' || c = ' ')
    (join (lit " ") (tokens.take titleEnd))
  let title := if title.isEmpty then join (lit " ") tokens else title
  ⟨title, found.map Prod.fst, part⟩

/-- The suffix test of `parse_movie` (lines 67–69). -/
def plausibleExtension (ext : Text) : Bool :=
  2 ≤ byteLen ext && byteLen ext ≤ 4 && ext.all isAsciiAlphanumeric && ext.any isAsciiAlphabetic

/-- `parse_movie` (lines 59–76). -/
def parseMovie (filename : Text) : MovieGuess :=
  let filename := stripReleaseTags filename
  let stem := match rsplitOnce (· = '.') filename with
    | some (s, ext) => if plausibleExtension ext then s else filename
    | none => filename
  parseMovieStem stem

/-- `parse_movie_dir` (lines 84–86). -/
def parseMovieDir (name : Text) : MovieGuess := parseMovieStem (stripReleaseTags name)

/-- `bare_part` (lines 194–201). -/
def barePart (title : Text) : Option ℕ :=
  let t := (toAsciiLower (trim title)).filter (· ≠ ' ')
  match stripPrefix (lit "part") t with
  | none => none
  | some n => if n.isEmpty || byteLen n > 2 || !n.all isAsciiDigit then none else parseU32 n

/-- `parse_movie_file` (lines 172–188). -/
def parseMovieFile (pathRel : Text) : Option MovieGuess :=
  let parts := (components pathRel).reverse
  match parts with
  | [] => none
  | filename :: dirs =>
    let mg := parseMovie filename
    match barePart mg.title with
    | some n =>
      match dirs with
      | [] => none
      | dir :: _ =>
        let d := parseMovieDir dir
        if d.title.isEmpty then none else some ⟨d.title, d.year, some n⟩
    | none => if mg.title.isEmpty then none else some mg

/-! ## Music -/

/-- `struct MusicGuess` (lines 262–269). -/
structure MusicGuess where
  artist : Text
  album : Text
  albumYear : Option ℤ
  disc : Option ℕ
  track : ℕ
  title : Text
  deriving DecidableEq

/-- The album directory (lines 282–291): its name and year. -/
def parseAlbumDir (albumDir : Text) : Text × Option ℤ :=
  match rsplitOnce (· = '(') albumDir with
  | some (before, after) =>
    if endsWithChar (· = ')') albumDir then
      match parseSigned 64 after.dropLast with
      | some y => if 1900 ≤ y && y < 2100 then (trim before, some y) else (trim albumDir, none)
      | none => (trim albumDir, none)
    else (trim albumDir, none)
  | none => (trim albumDir, none)

/-- The test for a standalone number segment (lines 299–302). -/
def isTrackSegment (s : Text) : Bool :=
  let t := trim s
  !t.isEmpty && byteLen t ≤ 4 && t.all isAsciiDigit

/-- `parse_music` (lines 274–325). -/
def parseMusic (pathRel : Text) : Option MusicGuess :=
  match (components pathRel).reverse with
  | file :: albumDir :: artistParts =>
    let artistDir := joinPath artistParts.reverse
    let stem := ((rsplitOnce (· = '.') file).map Prod.fst).getD file
    let (album, albumYear) := parseAlbumDir albumDir
    if album.isEmpty then none
    else
      let segs := splitStr (lit " - ") stem
      match segs.findIdx? isTrackSegment with
      | none => none
      | some numAt =>
        match parseU32 (trim (segs.getD numAt [])) with
        | none => none
        | some track =>
          let title := trim (join (lit " - ") (segs.drop (numAt + 1)))
          if title.isEmpty then none
          else
            let artist :=
              if artistDir.isEmpty then (segs.head?.map trim).filter fun s => !s.isEmpty
              else some (trim artistDir)
            artist.map fun artist => ⟨artist, album, albumYear, none, track, title⟩
  | _ => none

end Kahawai.Core.Names
