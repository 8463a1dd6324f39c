import Kahawai.Core.Names

/-!
# Series and anime names

Models of `parse_episode` and `parse_anime` of
`crates/kahawai-core/src/names.rs` with their helpers. The release profile does
not check arithmetic, so the additions of `u32` in `parse_anime` wrap.
-/

namespace Kahawai.Core.Names

open Text

/-- `struct EpisodeGuess` (lines 328–340). -/
structure EpisodeGuess where
  showTitle : Text
  showYear : Option ℕ
  season : Option ℕ
  episode : ℕ
  episodeEnd : Option ℕ
  episodeTitle : Option Text
  deriving DecidableEq

/-! ## Markers -/

/-- `parse_nnxnn` (lines 414–421). -/
def parseNnxnn (tok : Text) : Option (ℕ × ℕ) :=
  let t := trimMatches (fun c => !isAsciiAlphanumeric c) tok
  match splitOnce (fun c => c = 'x' || c = 'X') t with
  | none => none
  | some (s, e) =>
    if s.isEmpty || e.isEmpty || byteLen s > 2 || byteLen e > 3 then none
    else do return (← parseU32 s, ← parseU32 e)

/-- `parse_sxxeyy` (lines 921–940). -/
def parseSxxeyy (tok : Text) : Option (ℕ × ℕ × Option ℕ) :=
  let t := trimMatches (fun c => !isAsciiAlphanumeric c) tok
  match stripPrefixChar (fun c => c = 's' || c = 'S') t with
  | none => none
  | some rest =>
    match splitOnce (fun c => c = 'e' || c = 'E') rest with
    | none => none
    | some (s, e) =>
      let eFirst := e.takeWhile isAsciiDigit
      if s.isEmpty || eFirst.isEmpty || !s.all isAsciiDigit then none
      else
        match parseU32 eFirst with
        | none => none
        | some first =>
          let tail := e.drop eFirst.length
          let tail := (stripPrefixChar (· = '-') tail).getD tail
          let tail := (stripPrefixChar (fun c => c = 'e' || c = 'E') tail).getD tail
          let last := (parseU32 (tail.takeWhile isAsciiDigit)).filter (· > first)
          (parseU32 s).map fun season => (season, first, last)

/-- `split_glued_marker` (lines 763–778), from the second character on. -/
def splitGluedFrom : Text → Text
  | [] => []
  | c :: rest =>
    let marker := rest.takeWhile (· ≠ ' ')
    (if c = '-' && ((parseSxxeyy marker).isSome || (parseNnxnn marker).isSome) then ' ' else c) ::
      splitGluedFrom rest

/-- `split_glued_marker` (lines 763–778). -/
def splitGluedMarker : Text → Text
  | [] => []
  | c :: rest => c :: splitGluedFrom rest

/-- `is_season_token` (lines 901–904). -/
def isSeasonToken (t : Text) : Bool :=
  match stripPrefixChar (fun c => c = 's' || c = 'S') t with
  | some d => 1 ≤ byteLen d && byteLen d ≤ 2 && d.all isAsciiDigit
  | none => false

/-- The closure `digits` of `is_episode_token` (line 912). -/
def isEpisodeDigits (d : Text) : Bool := 1 ≤ byteLen d && byteLen d ≤ 3 && d.all isAsciiDigit

/-- `is_episode_token` (lines 908–919). -/
def isEpisodeToken (t : Text) : Bool :=
  match stripPrefixChar (fun c => c = 'e' || c = 'E') t with
  | none => false
  | some rest =>
    match splitOnce (· = '-') rest with
    | some (first, tail) => isEpisodeDigits first &&
        isEpisodeDigits ((stripPrefixChar (fun c => c = 'e' || c = 'E') tail).getD tail)
    | none => isEpisodeDigits rest

/-- The loop of `join_split_marker` (lines 796–804). -/
def joinSplitTokens : List Text → List Text
  | a :: b :: rest =>
    if isSeasonToken a && isEpisodeToken b then (a ++ b) :: joinSplitTokens rest
    else a :: joinSplitTokens (b :: rest)
  | tokens => tokens

/-- `join_split_marker` (lines 792–806). -/
def joinSplitMarker (s : Text) : Text := join (lit " ") (joinSplitTokens (splitWhitespace s))

/-- The shape `s##e##` (lines 881–887), on the last six characters. All of them
    are ASCII when it matches, so the code's bytes are these characters. -/
def isTrailingMarker (m : Text) : Bool :=
  match m with
  | [s, a, b, e, c, d] =>
    (s = 's' || s = 'S') && isAsciiDigit a && isAsciiDigit b && (e = 'e' || e = 'E') &&
      isAsciiDigit c && isAsciiDigit d
  | _ => false

/-- `split_trailing_marker` (lines 875–898). -/
def splitTrailingMarker (s : Text) : Text :=
  let head := s.take (s.length - 6)
  let m := s.drop (s.length - 6)
  if isTrailingMarker m && head.getLast?.any isAsciiAlphanumeric then head ++ ' ' :: m else s

/-- Three ASCII digits, the first not zero: the test and the numbers of
    `parse_scene_compact` (lines 847–859). -/
def compactNumbers (t : Text) : Option (ℕ × ℕ) :=
  match t with
  | [a, b, c] =>
    if isAsciiDigit a && isAsciiDigit b && isAsciiDigit c && a ≠ '0' then
      some (digitsValue [a], digitsValue [b, c])
    else none
  | _ => none

/-- `parse_scene_compact` (lines 831–862): the place of the token, season and
    episode. -/
def parseSceneCompact (stem : Text) (tokens : List Text) : Option (ℕ × ℕ × ℕ) :=
  if stem.any isWhitespace || stem.any (fun c => c = '[' || c = ']' || c = '(' || c = ')') ||
      !stem.contains '.' then none
  else if !(((split (· = '.') stem).getLast?.getD []).contains '-') then none
  else
    (tokens.zipIdx.drop 1).findSome? fun (t, i) =>
      match compactNumbers t with
      | some (s, e) => if i + 1 ≥ tokens.length then none else some (i, s, e)
      | none => none

/-- `is_season_dir` (lines 942–949). -/
def isSeasonDir (dir : Text) : Bool :=
  let d := toAsciiLower dir
  startsWith (lit "season") d || startsWith (lit "staffel") d || startsWith (lit "series ") d ||
    (parseU32 (trim d)).isSome || startsWith (lit "specials") d

/-- `top_dir` (lines 750–754). -/
def topDir (pathRel : Text) : Option Text :=
  match components pathRel with
  | first :: _ :: _ => some first
  | _ => none

/-- The file name without its extension (lines 351 and 442). -/
def fileStem (filename : Text) : Text := ((rsplitOnce (· = '.') filename).map Prod.fst).getD filename

/-! ## Series -/

/-- The first lettered marker among the tokens (lines 360–364). -/
def letteredMarker (tokens : List Text) : Option (ℕ × ℕ × ℕ × Option ℕ) :=
  tokens.zipIdx.findSome? fun (t, i) =>
    ((parseSxxeyy t).or ((parseNnxnn t).map fun (s, e) => (s, e, none))).map
      fun (s, e, last) => (i, s, e, last)

/-- `parse_episode` (lines 348–411). -/
def parseEpisode (pathRel : Text) : Option EpisodeGuess :=
  let parts := components pathRel
  let stem := fileStem (parts.getLast?.getD [])
  let cleaned := splitTrailingMarker (joinSplitMarker (splitGluedMarker (blankSeparators stem)))
  let tokens := splitWhitespace cleaned
  let marker := match letteredMarker tokens with
    | some found => some found
    | none => (parseSceneCompact stem tokens).map fun (i, s, e) => (i, s, e, none)
  match marker with
  | none => none
  | some (idx, season, episode, episodeEnd) =>
    let showDir := (parts.reverse.drop 1).find? fun d => !isSeasonDir d
    let showGuess := match showDir with
      | some dir => parseMovieDir dir
      | none => parseMovieDir (join (lit " ") (tokens.take idx))
    let showTitle := if showGuess.title.isEmpty then lit "Unknown Show" else showGuess.title
    let epTitle := trimEndMatches (fun c => c = '(' || c = '[' || c = '-' || c = ' ')
      (trimStartMatches (fun c => c = '-' || c = ' ')
        (join (lit " ") (tokens.drop (idx + 1))))
    some ⟨showTitle, showGuess.year, some season, episode, episodeEnd,
      if epTitle.isEmpty then none else some epTitle⟩

/-! ## Anime -/

/-- `u32` addition without an overflow check. -/
def wrappingAdd (a b : ℕ) : ℕ := (a + b) % 2 ^ 32

/-- `lettered_part` (lines 707–713). -/
def letteredPart (t : Text) : Option Text :=
  match splitOnce (· = '-') t with
  | some (num, [c]) =>
    if isAsciiAlphabetic c && !num.isEmpty && byteLen num ≤ 4 && num.all isAsciiDigit then
      some num
    else none
  | _ => none

/-- `num_range` (lines 718–728). -/
def numRange (t : Text) : Option (ℕ × ℕ) :=
  match splitOnce (· = '-') t with
  | none => none
  | some (a, b) =>
    if a.isEmpty || b.isEmpty || byteLen a > 3 || byteLen b > 3 then none
    else if !a.all isAsciiDigit || !b.all isAsciiDigit then none
    else
      match parseU32 a, parseU32 b with
      | some x, some y => if y > x then some (x, y) else none
      | _, _ => none

/-- `roman` (lines 731–748). -/
def roman (t : Text) : Option ℕ :=
  (["I", "II", "III", "IV", "V", "VI", "VII", "VIII", "IX", "X", "XI", "XII", "XIII"].map
    lit).findIdx? (· = t) |>.map (· + 1)

/-- The characters outside brackets and parentheses, with separators blanked
    (lines 445–454); `depth` saturates at zero. -/
def stripTagGroups : (depth : ℕ) → Text → Text
  | _, [] => []
  | depth, c :: rest =>
    if c = '[' || c = '(' then stripTagGroups (depth + 1) rest
    else if c = ']' || c = ')' then stripTagGroups (depth - 1) rest
    else if depth = 0 then
      (if c = '.' || c = '_' then ' ' else c) :: stripTagGroups depth rest
    else stripTagGroups depth rest

/-- A release designation (lines 470–514). -/
structure Designator where
  place : ℕ
  /-- `none` for a film. -/
  band : Option ℕ
  index : ℕ
  consumed : Option ℕ
  spanEnd : Option ℕ
  explicit : Bool
  deriving DecidableEq

/-- The band of a designator word (lines 474–480): `some none` for a film. -/
def designatorBand (base : Text) : Option (Option ℕ) :=
  let word := toAsciiUpper base
  if word = lit "NCOP" then some (some 100)
  else if word = lit "NCED" then some (some 120)
  else if (["OVA", "OAV", "ONA", "SP", "SPECIAL", "SPECIALS"].map lit).contains word then
    some (some 0)
  else if (["MOVIE", "GEKIJOUBAN"].map lit).contains word then some none
  else none

/-- The test for a number after a designator (lines 485–489). -/
def isDesignatorNumber (n : Text) : Bool :=
  byteLen n ≤ 4 && n.all isAsciiDigit &&
    !(1900 ≤ (parseU32 n).getD 0 && (parseU32 n).getD 0 ≤ 2099)

/-- The designator a token is (lines 471–508), with the token after it. -/
def designatorOf (t : Text) (i : ℕ) (next : Option Text) : Option Designator :=
  let digits := (t.reverse.takeWhile isAsciiDigit).reverse
  let base := t.take (t.length - digits.length)
  match designatorBand base with
  | none => none
  | some band =>
    let (index, consumed, spanEnd) :=
      if !digits.isEmpty then (parseU32 digits, none, none)
      else match next with
        | none => (some 1, none, none)
        | some n =>
          if isDesignatorNumber n then (parseU32 n, some (i + 1), none)
          else match numRange n with
            | some (a, b) => (some a, some (i + 1), some b)
            | none =>
              match roman n with
              | some r => (some r, some (i + 1), none)
              | none => (some 1, none, none)
    some ⟨i, band, index.getD 1, consumed, spanEnd, !digits.isEmpty || consumed.isSome⟩

/-- The designator that counts (lines 470–514): the first explicit one, else
    the first. -/
def findDesignator (tokens : List Text) : Option Designator :=
  let all := tokens.zipIdx.filterMap fun (t, i) => designatorOf t i tokens[i + 1]?
  (all.find? fun d => d.explicit).or all.head?

/-- The closure `squash` (lines 529–534). -/
def squash (u : Unicode) (s : Text) : Text := (s.filter u.isAlphanumeric).flatMap u.charToLower

/-- The loop that matches tokens against the show's name (lines 538–549). -/
def coveredTokens (u : Unicode) (wanted : Text) : (seen : Text) → (i : ℕ) → List Text → ℕ
  | _, _, [] => 0
  | seen, i, t :: rest =>
    let seen := seen ++ squash u t
    if !startsWith seen wanted then 0
    else if seen = wanted then i + 1
    else coveredTokens u wanted seen (i + 1) rest

/-- `title_tokens` (lines 528–554). -/
def titleTokens (u : Unicode) (pathRel : Text) (tokens : List Text) : ℕ :=
  match topDir pathRel with
  | none => 0
  | some top =>
    let wanted := squash u (parseMovieDir top).title
    if wanted.isEmpty then 0 else coveredTokens u wanted [] 0 tokens

/-- An explicit `E01` or `EP01` token (lines 558–566). -/
def explicitEpisode (tokens : List Text) : Option (ℕ × ℕ) :=
  tokens.zipIdx.findSome? fun (t, i) =>
    match stripPrefixChar (fun c => c = 'e' || c = 'E') t with
    | none => none
    | some r =>
      let rest := (stripPrefixChar (fun c => c = 'p' || c = 'P') r).getD r
      if rest.isEmpty || byteLen rest > 4 || !rest.all isAsciiDigit then none
      else (parseU32 rest).map fun n => (i, n)

/-- A standalone number (lines 583–605): the token's number and span. -/
def standaloneNumber (t : Text) (final : Bool) : Option (ℕ × Option ℕ) :=
  match (if final then numRange t else none) with
  | some (a, b) => some (a, some b)
  | none =>
    let num := (letteredPart t).getD (t.takeWhile fun c => c ≠ 'v' && c ≠ 'V')
    if num.isEmpty || byteLen num > 4 || !num.all isAsciiDigit then none
    else
      match parseU32 num with
      | none => none
      | some n => if 1900 ≤ n && n ≤ 2099 then none else some (n, none)

/-- `episode_number` (lines 567–607): the place of the token, the number and
    the end of its span. -/
def episodeNumber (u : Unicode) (pathRel : Text) (tokens : List Text)
    (designator : Option Designator) : Option (ℕ × ℕ × Option ℕ) :=
  match explicitEpisode tokens with
  | some (i, n) => some (i, n, none)
  | none =>
    tokens.zipIdx.reverse.findSome? fun (t, i) =>
      if designator.any fun d => d.consumed = some i then none
      else if i < titleTokens u pathRel tokens then none
      else (standaloneNumber t (i + 1 = tokens.length)).map fun (n, last) => (i, n, last)

/-- The show a designator belongs to (lines 622–630 and 650–658), and the title
    before it. -/
def showBefore (pathRel : Text) (tokens : List Text) (i : ℕ) : MovieGuess × Text :=
  let title := if i = 0 then (topDir pathRel).getD (lit "Unknown Show")
    else join (lit " ") (tokens.take i)
  ((parseMovieDir ((topDir pathRel).getD title)), title)

/-- The guess of a designator in the band `b` (lines 631–642 and 659–672). -/
def designatedGuess (pathRel : Text) (tokens : List Text) (d : Designator) (b : ℕ) :
    EpisodeGuess :=
  let (showGuess, title) := showBefore pathRel tokens d.place
  { showTitle := if showGuess.title.isEmpty then title else showGuess.title
    showYear := showGuess.year
    season := some 0
    episode := wrappingAdd b d.index
    episodeEnd := d.spanEnd.map (wrappingAdd b)
    episodeTitle := none }

/-- The fansub branch of `parse_anime` (lines 440–697). -/
def parseFansub (u : Unicode) (pathRel : Text) : Option EpisodeGuess :=
  let stem := fileStem ((components pathRel).getLast?.getD [])
  let tokens := (splitWhitespace (stripTagGroups 0 stem)).filter (· ≠ lit "-")
  let designator := findDesignator tokens
  let number := episodeNumber u pathRel tokens designator
  -- an explicit index outranks any other number in the name
  match designator.filter fun d => d.consumed.isSome ||
      ((tokens.getD d.place []).getLast?.any isAsciiDigit) with
  | some d => d.band.map (designatedGuess pathRel tokens d)
  | none =>
    match number with
    | none => designator.bind fun d => d.band.map (designatedGuess pathRel tokens d)
    | some (idx, episode, episodeEnd) =>
      let title := join (lit " ") (tokens.take idx)
      let title := if title.isEmpty then (topDir pathRel).getD (lit "Unknown Show") else title
      let showGuess := parseMovieDir ((topDir pathRel).getD title)
      let epTitle := join (lit " ") (tokens.drop (idx + 1))
      some {
        showTitle := if showGuess.title.isEmpty then title else showGuess.title
        showYear := showGuess.year
        season := none
        episode := episode
        episodeEnd := episodeEnd
        episodeTitle := if epTitle.isEmpty then none else some epTitle }

/-- `parse_anime` (lines 428–698). -/
def parseAnime (u : Unicode) (pathRel : Text) : Option EpisodeGuess :=
  match parseEpisode pathRel with
  | some g =>
    match topDir pathRel with
    | some top =>
      let tg := parseMovieDir top
      some { g with showTitle := tg.title, showYear := tg.year.or g.showYear }
    | none => some g
  | none => parseFansub u pathRel

end Kahawai.Core.Names
