import Kahawai.Media.Subtitles.Lines

/-!
# ASS scripts

`ass_dialogue`, `ass_file_events` and `compose_header` (`crates/kahawai-media/src/subtitles.rs`,
lines 286–379 and 405–413): the blocks of a Matroska track are written as the lines of a script, and
a script is taken apart into such blocks again.

Results:
* `readLine_dialogue`: a line of a script whose `Format:` names the fields in the order of the
  writer gives back its block, but for the ends of the fields.
* `assTs_assTime`: a written time is read back in hundredths.
-/

namespace Kahawai.Media.Subtitles

open Kahawai.Core Kahawai.Core.Text
open Kahawai.Media.Subindex (Cue)
open Kahawai.Media.VobsubFile (lines)

/-! ## Model -/

/-- `"{}:{:02}:{:02}.{:02}"` (lines 291–299). -/
def assTime (ms : ℕ) : Text :=
  ofNat (ms / 3600000) ++ lit ":" ++ pad 2 (ms / 60000 % 60) ++ lit ":" ++
    pad 2 (ms / 1000 % 60) ++ lit "." ++ pad 2 (ms % 1000 / 10)

/-- `ass_dialogue` (lines 286–305). -/
def assDialogue (raw : Text) (start stop : ℕ) : Option Text := do
  let (_, rest) ← splitOnce (· = ',') raw
  let (layer, rest) ← splitOnce (· = ',') rest
  some (lit "Dialogue: " ++ layer ++ ',' :: assTime start ++ ',' :: assTime stop ++ ',' :: rest)

/-- The fields that the composed header names. -/
def eventsHeader : Text :=
  lit "\n\n[Events]\nFormat: Layer, Start, End, Style, Name, MarginL, MarginR, MarginV, Effect, Text"

/-- `compose_header` (lines 405–413). -/
def composeHeader (u : Unicode) (h : Text) : Text :=
  let out := trimEnd h
  (if containsStr (lit "[events]") (u.toLower out) then out else out ++ eventsHeader) ++ ['\n']

/-- What `ass_file_events` has read (lines 320–323). -/
structure FileState where
  header : Text
  events : List (ℕ × ℕ × Text)
  script : ScriptState

/-- The closure `field` (lines 342–349). -/
def trimmedField (fields parts : List Text) (name : String) : Text :=
  ((fieldOf fields parts name).map trim).getD []

/-- `"{},{},{},{},{},{},{},{},{}"`. -/
def joinFields (readOrder layer style name marginL marginR marginV effect text : Text) : Text :=
  readOrder ++ ',' :: layer ++ ',' :: style ++ ',' :: name ++ ',' :: marginL ++ ',' :: marginR ++
    ',' :: marginV ++ ',' :: effect ++ ',' :: text

/-- The event of a `Dialogue:` line (lines 341–376), with `n` before it. -/
def fileEvent (fields : List Text) (n : ℕ) (dialogue : Text) : Option (ℕ × ℕ × Text) := do
  let parts := splitN fields.length dialogue
  let start ← assTs (trimmedField fields parts "start")
  let stop ← assTs (trimmedField fields parts "end")
  let field := trimmedField fields parts
  some (start, stop, joinFields (ofNat n) (field "layer") (field "style") (field "name")
    (field "marginl") (field "marginr") (field "marginv") (field "effect")
    ((fieldOf fields parts "text").getD []))

/-- A line sets the section or its fields (lines 326–330). -/
def scriptLine (u : Unicode) (st : ScriptState) (line : Text) : ScriptState :=
  if isSection line then { st with inEvents := isEvents line }
  else if st.inEvents then
    match stripPrefix (lit "Format:") line with
    | some fmt => { st with fields := formatFields u fmt }
    | none => st
  else st

/-- One line of the file (lines 324–377). -/
def fileLine (u : Unicode) (st : FileState) (line : Text) : FileState :=
  let line := trimEndMatches (· = '\r') line
  let script := scriptLine u st.script line
  match (stripPrefix (lit "Dialogue:") line).filter fun _ => script.inEvents with
  | none =>
    { st with script, header := if st.events.isEmpty then st.header ++ line ++ ['\n'] else st.header }
  | some dialogue =>
    if script.fields.isEmpty then { st with script }
    else
      { st with
        script
        events := st.events ++ (fileEvent script.fields st.events.length dialogue).toList }

/-- Before any line. -/
def FileState.start : FileState := ⟨[], [], ⟨false, []⟩⟩

/-- `ass_file_events` (lines 319–379). -/
def assFileEvents (u : Unicode) (content : Text) : Text × List (ℕ × ℕ × Text) :=
  let st := (lines content).foldl (fileLine u) .start
  (st.header, st.events)

/-! ## Blocks of a track -/

/-- `ReadOrder,Layer,Style,Name,MarginL,MarginR,MarginV,Effect,Text`: only the text has commas. -/
structure Payload where
  readOrder : Text
  layer : Text
  style : Text
  name : Text
  marginL : Text
  marginR : Text
  marginV : Text
  effect : Text
  text : Text
  noComma : ∀ f ∈ [readOrder, layer, style, name, marginL, marginR, marginV, effect], ',' ∉ f

/-- The block, with another number in the place of its own. -/
def Payload.numbered (p : Payload) (readOrder : Text) : Text :=
  joinFields readOrder p.layer p.style p.name p.marginL p.marginR p.marginV p.effect p.text

/-- The bytes of the block. -/
def Payload.raw (p : Payload) : Text := p.numbered p.readOrder

/-- A block and its times. -/
structure Event where
  start : ℕ
  stop : ℕ
  payload : Payload
  fits : start < 2 ^ 64 ∧ stop < 2 ^ 64

/-- The lines of the events, each with its line break. -/
def dialogueLines (es : List Event) : Text :=
  es.flatMap fun e => ((assDialogue e.payload.raw e.start e.stop).map (· ++ ['\n'])).getD []

/-- The script: the header, and the lines of the events. -/
def script (u : Unicode) (h : Text) (es : List Event) : Text := composeHeader u h ++ dialogueLines es

/-! ## Reading a line -/

/-- The fields in the order of the writer. -/
def writtenFields : List Text :=
  [lit "layer", lit "start", lit "end", lit "style", lit "name", lit "marginl", lit "marginr",
    lit "marginv", lit "effect", lit "text"]

/-- What stands behind `Dialogue:` in the line of a block, with this text. -/
def Payload.body (p : Payload) (start stop : ℕ) (text : Text) : Text :=
  ' ' :: p.layer ++ ',' :: (assTime start ++ ',' :: (assTime stop ++ ',' :: (p.style ++ ',' ::
    (p.name ++ ',' :: (p.marginL ++ ',' :: (p.marginR ++ ',' :: (p.marginV ++ ',' ::
      (p.effect ++ ',' :: text))))))))

/-- The block with the ends of its fields trimmed. -/
def Payload.trimmed (p : Payload) (readOrder text : Text) : Text :=
  joinFields readOrder (trim p.layer) (trim p.style) (trim p.name) (trim p.marginL) (trim p.marginR)
    (trim p.marginV) (trim p.effect) text

theorem splitOnce_comma {a : Text} (h : ',' ∉ a) (b : Text) :
    splitOnce (· = ',') (a ++ ',' :: b) = some (a, b) := by
  refine splitOnce_append (by decide) (fun d hd => decide_eq_false ?_) b
  rintro rfl
  exact h hd

theorem splitN_comma {a : Text} (h : ',' ∉ a) (n : ℕ) (b : Text) :
    splitN (n + 2) (a ++ ',' :: b) = a :: splitN (n + 1) b := by
  rw [splitN, splitOnce_comma h]

theorem assDialogue_raw (p : Payload) (start stop : ℕ) :
    assDialogue p.raw start stop = some (lit "Dialogue:" ++ p.body start stop p.text) := by
  have hcomma := p.noComma
  simp only [List.forall_mem_cons] at hcomma
  obtain ⟨hread, hlayer, -⟩ := hcomma
  simp only [assDialogue, Payload.raw, Payload.numbered, joinFields, List.append_assoc, List.cons_append,
    splitOnce_comma hread, Option.bind_eq_bind, Option.bind_some, splitOnce_comma hlayer]
  simp only [Payload.body, List.append_assoc, List.cons_append]
  rfl

theorem assTime_chars {n : ℕ} {c : Char} (h : c ∈ assTime n) :
    isAsciiDigit c = true ∨ c = ':' ∨ c = '.' := by
  simp only [assTime, List.mem_append] at h
  rcases h with (((((h | h) | h) | h) | h) | h) | h
  · exact .inl (isAsciiDigit_of_mem_ofNat h)
  · exact .inr (.inl (List.mem_singleton.mp h))
  · exact .inl (isAsciiDigit_of_mem_pad h)
  · exact .inr (.inl (List.mem_singleton.mp h))
  · exact .inl (isAsciiDigit_of_mem_pad h)
  · exact .inr (.inr (List.mem_singleton.mp h))
  · exact .inl (isAsciiDigit_of_mem_pad h)

theorem not_mem_assTime {n : ℕ} {c : Char} (hdigit : isAsciiDigit c = false) (hcolon : c ≠ ':')
    (hdot : c ≠ '.') : c ∉ assTime n := by
  intro h
  rcases assTime_chars h with h | h | h
  · rw [hdigit] at h
    cases h
  · exact hcolon h
  · exact hdot h

theorem trim_assTime (n : ℕ) : trim (assTime n) = assTime n := by
  have hchars : ∀ c ∈ assTime n, isWhitespace c = false := by
    intro c h
    rcases assTime_chars h with h | rfl | rfl
    · exact digit_not_whitespace h
    · decide
    · decide
  exact Trimmed.trim_eq ⟨fun c h => hchars c (List.mem_of_mem_head? h),
    fun c h => hchars c (List.mem_of_getLast? h)⟩

/-- A written time is read back in hundredths. -/
theorem assTs_assTime {n : ℕ} (h : n < 2 ^ 64) : assTs (assTime n) = some (n / 10 * 10) := by
  have hlast : rsplitOnce (· = '.') (assTime n) =
      some (ofNat (n / 3600000) ++ lit ":" ++ pad 2 (n / 60000 % 60) ++ lit ":" ++
        pad 2 (n / 1000 % 60), pad 2 (n % 1000 / 10)) := by
    have htime : assTime n = (ofNat (n / 3600000) ++ lit ":" ++ pad 2 (n / 60000 % 60) ++ lit ":" ++
        pad 2 (n / 1000 % 60)) ++ '.' :: pad 2 (n % 1000 / 10) := by
      simp only [assTime, List.append_assoc]
      rfl
    rw [htime]
    refine rsplitOnce_append (by decide) (fun d hd => decide_eq_false ?_) _
    rintro rfl
    exact not_mem_pad (by decide) hd
  have hclock := split_clock (a := ofNat (n / 3600000)) (b := pad 2 (n / 60000 % 60))
    (c := pad 2 (n / 1000 % 60)) (not_mem_ofNat (by decide)) (not_mem_pad (by decide))
    (not_mem_pad (by decide))
  simp only [assTs, trim_assTime, hlast, Option.bind_eq_bind, Option.bind_some, hclock]
  rw [parseUnsigned_pad (by omega), parseUnsigned_ofNat (by omega), parseUnsigned_pad (by omega),
    parseUnsigned_pad (by omega)]
  refine congrArg some ?_
  have hsum := sum_parts n
  have hhundredths : n % 1000 / 10 * 10 = n % 1000 - n % 10 := by omega
  rw [timeMs, hhundredths, Nat.mod_eq_of_lt (by omega)]
  omega

/-- The parts of a line. -/
theorem splitN_body (p : Payload) (start stop : ℕ) (text : Text) :
    splitN writtenFields.length (p.body start stop text) = [' ' :: p.layer, assTime start, assTime stop,
      p.style, p.name, p.marginL, p.marginR, p.marginV, p.effect, text] := by
  have hcomma := p.noComma
  simp only [List.forall_mem_cons] at hcomma
  obtain ⟨-, hlayer, hstyle, hname, hleft, hright, hbottom, heffect, -⟩ := hcomma
  have htime : ∀ n, ',' ∉ assTime n := fun n => not_mem_assTime (by decide) (by decide) (by decide)
  have hfirst : ',' ∉ ' ' :: p.layer := by simpa using hlayer
  have hlength : writtenFields.length = 10 := rfl
  rw [hlength, Payload.body, splitN_comma hfirst, splitN_comma (htime start), splitN_comma (htime stop),
    splitN_comma hstyle, splitN_comma hname, splitN_comma hleft, splitN_comma hright,
    splitN_comma hbottom, splitN_comma heffect, splitN]

theorem trim_space (s : Text) : trim (' ' :: s) = trim s := by
  rw [trim, trimMatches, trimStartMatches, List.dropWhile_cons_of_pos (by decide)]
  rfl

theorem fieldOf_at {fields : List Text} {name : String} {i : ℕ}
    (h : fields.findIdx? (· = lit name) = some i) (parts : List Text) :
    fieldOf fields parts name = parts[i]? := by
  rw [fieldOf, h, Option.bind_some]

/-- A line gives back its block, but for the ends of the fields. -/
theorem readLine_dialogue {p : Payload} {start stop : ℕ} (hstart : start < 2 ^ 64)
    (hstop : stop < 2 ^ 64) (n : ℕ) (text : Text) :
    fileEvent writtenFields n (p.body start stop text) =
      some (start / 10 * 10, stop / 10 * 10, p.trimmed (ofNat n) text) := by
  have hfield := fun (name : String) (i : ℕ) => @fieldOf_at writtenFields name i
  simp only [fileEvent, splitN_body, trimmedField, hfield "start" 1 (by decide),
    hfield "end" 2 (by decide), hfield "layer" 0 (by decide), hfield "style" 3 (by decide),
    hfield "name" 4 (by decide), hfield "marginl" 5 (by decide), hfield "marginr" 6 (by decide),
    hfield "marginv" 7 (by decide), hfield "effect" 8 (by decide), hfield "text" 9 (by decide),
    List.getElem?_cons_zero, List.getElem?_cons_succ, Option.map_some, Option.getD_some, trim_assTime,
    assTs_assTime hstart, assTs_assTime hstop, Option.bind_eq_bind, Option.bind_some, trim_space]
  rfl

/-- And the cue of its text. -/
theorem assCue_dialogue {p : Payload} {start stop : ℕ} (hstart : start < 2 ^ 64)
    (hstop : stop < 2 ^ 64) (text : Text) :
    assCue writtenFields (p.body start stop text) =
      makeCue (some (start / 10 * 10)) (some (stop / 10 * 10)) text := by
  have hfield := fun (name : String) (i : ℕ) => @fieldOf_at writtenFields name i
  simp only [assCue, splitN_body, hfield "start" 1 (by decide), hfield "end" 2 (by decide),
    hfield "text" 9 (by decide), List.getElem?_cons_zero, List.getElem?_cons_succ,
    Option.bind_eq_bind, Option.bind_some, assTs_assTime hstart, assTs_assTime hstop]

end Kahawai.Media.Subtitles
