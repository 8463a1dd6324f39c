import Kahawai.Core.Slices
import Kahawai.Media.Subtitles.Script
import Kahawai.Media.Subtitles.VttRoundTrip

/-!
# Scripts read back

What `ass_file_events` and `parse_ass` make of a composed script
(`crates/kahawai-media/src/subtitles.rs`, lines 223–413). The writer puts the fields of a block in
one order, and the readers take the order of the last `Format:` line of the header.

Results:
* `assFileEvents_no_break`: no event has a line break in it.
* `script_meaning_of_header`: behind a header that names the fields in the order of the writer,
  exactly the blocks without line breaks and blanks around their fields are read back.
-/

namespace Kahawai.Media.Subtitles

open Kahawai.Core Kahawai.Core.Text
open Kahawai.Media.Subindex (Cue)
open Kahawai.Media.VobsubFile (lines)

/-! ## What the script is to mean -/

/-- The event of a block, in hundredths, with its place in the list for a number. -/
def Event.expected (e : Event) (i : ℕ) : ℕ × ℕ × Text :=
  (e.start / 10 * 10, e.stop / 10 * 10, e.payload.numbered (ofNat i))

/-- The cue of a block. -/
def Event.cue (e : Event) : Option Cue :=
  makeCue (some (e.start / 10 * 10)) (some (e.stop / 10 * 10)) e.payload.text

/-- One event for a block, and a cue for each whose text is not empty, in the order of the times. -/
structure Meaning (u : Unicode) (h : Text) (es : List Event) : Prop where
  events : (assFileEvents u (script u h es)).2 = (es.zipIdx).map fun (e, i) => e.expected i
  cues : parseAss u (script u h es) =
    (es.filterMap Event.cue).insertionSort fun a b => a.startMs ≤ b.startMs

/-- The header ends inside `[Events]`, with no event, and names the fields in the order of the
    writer. -/
def HeaderOk (u : Unicode) (h : Text) : Prop :=
  let st := (lines (composeHeader u h)).foldl (fileLine u) .start
  st.script = ⟨true, writtenFields⟩ ∧ st.events = []

/-- A block that fits in a line: its fields are trimmed, and no line ends in it. -/
structure Payload.Fits (p : Payload) : Prop where
  trimmed : ∀ f ∈ [p.layer, p.style, p.name, p.marginL, p.marginR, p.marginV, p.effect], trim f = f
  noBreak : ∀ f ∈ [p.layer, p.style, p.name, p.marginL, p.marginR, p.marginV, p.effect, p.text],
    '\n' ∉ f
  noReturn : p.text.getLast? ≠ some '\r'

/-! ## Lines -/

/-- The lines behind a line break. -/
theorem lines_append (x b : Text) : lines (x ++ '\n' :: b) = lines (x ++ ['\n']) ++ lines b := by
  induction x using lines_induction with
  | single x hx =>
    rw [lines_break hx, lines_break hx]
    rfl
  | line a x ha ih =>
    rw [List.append_assoc, List.cons_append, lines_break ha, ih, List.append_assoc, List.cons_append,
      lines_break ha, List.cons_append]

theorem trimEndMatches_stripReturn (line : Text) :
    trimEndMatches (· = '\r') (stripReturn line) = trimEndMatches (· = '\r') line := by
  unfold stripReturn
  split_ifs with hlast
  · have hne : line ≠ [] := by
      rintro rfl
      cases hlast
    have hend : line.getLast hne = '\r' := by
      rw [List.getLast?_eq_some_getLast hne] at hlast
      exact Option.some.inj hlast
    conv_rhs => rw [← List.dropLast_append_getLast hne, hend]
    rw [trimEndMatches, trimEndMatches, List.reverse_concat, List.dropWhile_cons_of_pos (by decide)]
  · rfl

/-- The line of a block. -/
def Event.line (e : Event) : Text := lit "Dialogue:" ++ e.payload.body e.start e.stop e.payload.text

theorem dialogueLines_cons (e : Event) (es : List Event) :
    dialogueLines (e :: es) = e.line ++ '\n' :: dialogueLines es := by
  rw [dialogueLines, List.flatMap_cons, assDialogue_raw, Option.map_some, Option.getD_some,
    List.append_assoc]
  rfl

theorem lines_dialogueLines {es : List Event} (h : ∀ e ∈ es, '\n' ∉ e.line) :
    lines (dialogueLines es) = es.map fun e => stripReturn e.line := by
  induction es with
  | nil => rfl
  | cons e es ih =>
    obtain ⟨he, hrest⟩ := List.forall_mem_cons.mp h
    rw [dialogueLines_cons, lines_break he, ih hrest, List.map_cons]

theorem lines_script (u : Unicode) (h : Text) {es : List Event} (hes : ∀ e ∈ es, '\n' ∉ e.line) :
    lines (script u h es) = lines (composeHeader u h) ++ es.map fun e => stripReturn e.line := by
  rw [← lines_dialogueLines hes, script, composeHeader, List.append_assoc, List.singleton_append,
    lines_append]

/-! ## The readers over a line -/

/-- The text stands behind the last comma that is not its own. -/
theorem body_text (p : Payload) (start stop : ℕ) : ∃ before : Text, ∀ text : Text,
    p.body start stop text = before ++ ',' :: text := by
  refine ⟨' ' :: p.layer ++ ',' :: (assTime start ++ ',' :: (assTime stop ++ ',' :: (p.style ++ ',' ::
    (p.name ++ ',' :: (p.marginL ++ ',' :: (p.marginR ++ ',' :: (p.marginV ++ ',' ::
      p.effect))))))), fun text => ?_⟩
  simp only [Payload.body, List.append_assoc, List.cons_append]

theorem trimEndMatches_line (e : Event) : trimEndMatches (· = '\r') e.line =
    lit "Dialogue:" ++ e.payload.body e.start e.stop (trimEndMatches (· = '\r') e.payload.text) := by
  obtain ⟨before, hbody⟩ := body_text e.payload e.start e.stop
  rw [Event.line, hbody, hbody, ← List.append_assoc, trimEndMatches_append_cons (by decide),
    List.append_assoc]

/-- No line that starts with a letter is a section. -/
theorem isSection_letter {c : Char} (hspace : isWhitespace c = false) (hc : c ≠ '[') (s : Text) :
    isSection (c :: s) = false := by
  have hstart : trimStartMatches isWhitespace (c :: s) = [] ++ c :: s :=
    List.dropWhile_cons_of_neg (by rw [hspace]; decide)
  have htrim : trim (c :: s) = c :: trimEndMatches isWhitespace s := by
    rw [trim, trimMatches, hstart, trimEndMatches_append_cons hspace]
    rfl
  rw [isSection, htrim, startsWith]
  simp [List.isPrefixOf, Ne.symm hc]

theorem stripPrefix_append (pre s : Text) : stripPrefix pre (pre ++ s) = some s := by
  rw [stripPrefix, if_pos (List.isPrefixOf_iff_prefix.mpr (List.prefix_append pre s)), List.drop_left]

theorem scriptLine_dialogue (u : Unicode) (st : ScriptState) (body : Text) :
    scriptLine u st (lit "Dialogue:" ++ body) = st := by
  have hsection : isSection (lit "Dialogue:" ++ body) = false :=
    isSection_letter (c := 'D') (by decide) (by decide) _
  have hformat : stripPrefix (lit "Format:") (lit "Dialogue:" ++ body) = none := rfl
  rw [scriptLine, hsection, hformat]
  simp only [Bool.false_eq_true, if_false]
  split_ifs <;> rfl

section
variable {u : Unicode} {e : Event}

/-- The line of a block adds its event. -/
theorem fileLine_dialogue {st : FileState} (hst : st.script = ⟨true, writtenFields⟩) (e : Event) :
    fileLine u st (stripReturn e.line) = { st with events := st.events ++
      [(e.start / 10 * 10, e.stop / 10 * 10, e.payload.trimmed (ofNat st.events.length)
        (trimEndMatches (· = '\r') e.payload.text))] } := by
  have hempty : writtenFields.isEmpty = false := rfl
  simp only [fileLine, trimEndMatches_stripReturn, trimEndMatches_line, scriptLine_dialogue,
    stripPrefix_append, hst, Option.filter_some, if_true, hempty, Bool.false_eq_true, if_false,
    readLine_dialogue e.fits.1 e.fits.2, Option.toList_some]

/-- And its cue. -/
theorem assLine_dialogue {st : ScriptState × List Cue} (hst : st.1 = ⟨true, writtenFields⟩)
    (htext : e.payload.text.getLast? ≠ some '\r') :
    assLine u st (stripReturn e.line) = (st.1, st.2 ++ e.cue.toList) := by
  have hsame : trimEndMatches (· = '\r') e.payload.text = e.payload.text := by
    refine trimEndMatches_of_last fun c hc => decide_eq_false ?_
    rintro rfl
    exact htext hc
  have hsection : isSection (lit "Dialogue:" ++ e.payload.body e.start e.stop e.payload.text) = false :=
    isSection_letter (c := 'D') (by decide) (by decide) _
  have hformat : stripPrefix (lit "Format:")
      (lit "Dialogue:" ++ e.payload.body e.start e.stop e.payload.text) = none := rfl
  have hempty : writtenFields.isEmpty = false := rfl
  simp only [assLine, trimEndMatches_stripReturn, trimEndMatches_line, hsame, hsection, hst, hformat,
    stripPrefix_append, Bool.not_true, Bool.false_eq_true, if_false, hempty,
    assCue_dialogue e.fits.1 e.fits.2]
  rfl

end

/-! ## The readers over a header -/

section
variable {u : Unicode}

theorem fileLine_script (st : FileState) (line : Text) :
    (fileLine u st line).script = scriptLine u st.script (trimEndMatches (· = '\r') line) := by
  unfold fileLine
  dsimp only
  split
  · rfl
  · split_ifs <;> rfl

theorem assLine_script (st : ScriptState × List Cue) (line : Text) :
    (assLine u st line).1 = scriptLine u st.1 (trimEndMatches (· = '\r') line) := by
  unfold assLine scriptLine
  dsimp only
  split
  · rfl
  · cases st.1.inEvents with
    | false => rfl
    | true =>
      cases hformat : stripPrefix (lit "Format:") (trimEndMatches (· = '\r') line) with
      | some fmt => rfl
      | none =>
        simp only [Bool.not_true, Bool.false_eq_true, if_false, if_true]
        split
        · rfl
        · split_ifs <;> rfl

theorem fileLine_length (st : FileState) (line : Text) :
    st.events.length ≤ (fileLine u st line).events.length := by
  unfold fileLine
  dsimp only
  split
  · exact Nat.le_refl _
  · split_ifs
    · exact Nat.le_refl _
    · rw [List.length_append]
      exact Nat.le_add_right _ _

theorem assTs_trim (s : Text) : assTs (trim s) = assTs s := by
  rw [assTs, assTs, (trim_trimmed s).trim_eq]

/-- A line with a cue has an event. -/
theorem fileEvent_of_assCue {fields : List Text} {dialogue : Text} {cue : Cue}
    (h : assCue fields dialogue = some cue) (n : ℕ) : ∃ ev, fileEvent fields n dialogue = some ev := by
  simp only [assCue, makeCue, Option.bind_eq_bind, Option.bind_eq_some_iff] at h
  obtain ⟨start, hstart, stop, hstop, text, -, s, hs, e, he, -⟩ := h
  have hstart' : assTs (trimmedField fields (splitN fields.length dialogue) "start") = some s := by
    rw [trimmedField, hstart, Option.map_some, Option.getD_some, assTs_trim, hs]
  have hstop' : assTs (trimmedField fields (splitN fields.length dialogue) "end") = some e := by
    rw [trimmedField, hstop, Option.map_some, Option.getD_some, assTs_trim, he]
  simp only [fileEvent, hstart', hstop', Option.bind_eq_bind, Option.bind_some]
  exact ⟨_, rfl⟩

/-- So a script has no more cues than events. -/
theorem assLine_length {st : ScriptState × List Cue} {fs : FileState} (hscript : st.1 = fs.script)
    (hle : st.2.length ≤ fs.events.length) (line : Text) :
    (assLine u st line).2.length ≤ (fileLine u fs line).events.length := by
  have hgrow := fileLine_length (u := u) fs line
  unfold assLine
  dsimp only
  split
  · exact hle.trans hgrow
  rename_i hsection
  split
  · exact hle.trans hgrow
  rename_i hin
  split
  · exact hle.trans hgrow
  rename_i hformat
  split
  · exact hle.trans hgrow
  rename_i dialogue hdialogue
  split
  · exact hle.trans hgrow
  rename_i hfields
  cases hcue : assCue st.1.fields dialogue with
  | none =>
    rw [Option.toList_none, List.append_nil]
    exact hle.trans hgrow
  | some cue =>
    obtain ⟨ev, hev⟩ := fileEvent_of_assCue hcue fs.events.length
    rw [hscript] at hin hfields hev
    have hevents : fs.script.inEvents = true := by simpa using hin
    have hkept : scriptLine u fs.script (trimEndMatches (· = '\r') line) = fs.script := by
      rw [scriptLine, if_neg hsection, if_pos hevents, hformat]
    simp only [fileLine, hkept, hdialogue, hevents, Option.filter_some, if_true, if_neg hfields, hev,
      Option.toList_some, List.length_append, List.length_singleton]
    omega

/-- The two readers agree on the script, and on its being without events. -/
theorem foldl_readers (ls : List Text) {st : ScriptState × List Cue} {fs : FileState}
    (hscript : st.1 = fs.script) (hle : st.2.length ≤ fs.events.length) :
    (ls.foldl (assLine u) st).1 = (ls.foldl (fileLine u) fs).script ∧
      (ls.foldl (assLine u) st).2.length ≤ (ls.foldl (fileLine u) fs).events.length := by
  induction ls generalizing st fs with
  | nil => exact ⟨hscript, hle⟩
  | cons line ls ih =>
    rw [List.foldl_cons, List.foldl_cons]
    refine ih ?_ (assLine_length hscript hle line)
    rw [assLine_script, fileLine_script, hscript]

/-- The event that is read of a block. -/
def Event.read (e : Event) (i : ℕ) : ℕ × ℕ × Text :=
  (e.start / 10 * 10, e.stop / 10 * 10,
    e.payload.trimmed (ofNat i) (trimEndMatches (· = '\r') e.payload.text))

/-- The lines of the blocks, one after the other. -/
theorem foldl_fileLine (es : List Event) {st : FileState} (hst : st.script = ⟨true, writtenFields⟩) :
    ((es.map fun e => stripReturn e.line).foldl (fileLine u) st).events =
      st.events ++ (es.zipIdx st.events.length).map fun (e, i) => e.read i := by
  induction es generalizing st with
  | nil => exact (List.append_nil _).symm
  | cons e es ih =>
    have hnext : (fileLine u st (stripReturn e.line)).script = ⟨true, writtenFields⟩ := by
      rw [fileLine_dialogue hst, hst]
    rw [List.map_cons, List.foldl_cons, ih hnext, fileLine_dialogue hst, List.length_append,
      List.append_assoc, List.zipIdx_cons, List.map_cons]
    rfl

theorem foldl_assLine {es : List Event} (hes : ∀ e ∈ es, e.payload.text.getLast? ≠ some '\r')
    {st : ScriptState × List Cue} (hst : st.1 = ⟨true, writtenFields⟩) :
    ((es.map fun e => stripReturn e.line).foldl (assLine u) st).2 =
      st.2 ++ es.filterMap Event.cue := by
  induction es generalizing st with
  | nil => exact (List.append_nil _).symm
  | cons e es ih =>
    obtain ⟨he, hrest⟩ := List.forall_mem_cons.mp hes
    have hothers := @ih hrest (st.1, st.2 ++ e.cue.toList) hst
    rw [List.map_cons, List.foldl_cons, assLine_dialogue hst he, hothers, List.append_assoc,
      List.filterMap_cons]
    cases e.cue <;> rfl

end

/-! ## Line breaks -/

theorem lines_no_break (s : Text) : ∀ line ∈ lines s, '\n' ∉ line := by
  induction s using lines_induction with
  | single s hs =>
    intro line hline
    rw [lines_single hs] at hline
    split_ifs at hline
    · cases hline
    · obtain rfl := List.mem_singleton.mp hline
      exact hs
  | line a b ha ih =>
    intro line hline
    rw [lines_break ha] at hline
    rcases List.mem_cons.mp hline with rfl | hline
    · unfold stripReturn
      split_ifs
      · exact fun hmem => ha (List.dropLast_subset a hmem)
      · exact ha
    · exact ih line hline

theorem splitN_subset {n : ℕ} {s part : Text} (h : part ∈ splitN n s) : part ⊆ s := by
  induction n, s using splitN.induct with
  | case1 => cases h
  | case2 s =>
    obtain rfl := List.mem_singleton.mp h
    exact List.Subset.refl _
  | case3 n s hnone =>
    rw [splitN, hnone] at h
    obtain rfl := List.mem_singleton.mp h
    exact List.Subset.refl _
  | case4 n s a b hsome ih =>
    rw [splitN, hsome] at h
    obtain ⟨c, hc, -, hwhole⟩ := splitOnce_eq_some hsome
    obtain rfl : c = ',' := of_decide_eq_true hc
    rcases List.mem_cons.mp h with rfl | h
    · rw [hwhole]
      exact List.subset_append_left _ _
    · rw [hwhole]
      exact fun c hc => List.mem_append_right _ (List.mem_cons_of_mem _ (ih h hc))

theorem fieldOf_subset {fields : List Text} {n : ℕ} {s : Text} (name : String) :
    (fieldOf fields (splitN n s) name).getD [] ⊆ s := by
  cases hfield : fieldOf fields (splitN n s) name with
  | none => exact List.nil_subset _
  | some part =>
    obtain ⟨i, -, hpart⟩ := Option.bind_eq_some_iff.mp hfield
    exact splitN_subset (List.mem_of_getElem? hpart)

theorem trimmedField_subset {fields : List Text} {n : ℕ} {s : Text} (name : String) :
    trimmedField fields (splitN n s) name ⊆ s := by
  unfold trimmedField
  cases hfield : fieldOf fields (splitN n s) name with
  | none => exact List.nil_subset _
  | some part =>
    obtain ⟨i, -, hpart⟩ := Option.bind_eq_some_iff.mp hfield
    exact fun c hc => splitN_subset (List.mem_of_getElem? hpart) (mem_of_mem_trim hc)

theorem mem_joinFields {readOrder layer style name marginL marginR marginV effect text : Text} {c : Char}
    (hc : c ≠ ',') : c ∈ joinFields readOrder layer style name marginL marginR marginV effect text ↔
      ∃ f ∈ [readOrder, layer, style, name, marginL, marginR, marginV, effect, text], c ∈ f := by
  simp [joinFields, hc]

theorem fileEvent_no_break {fields : List Text} {n : ℕ} {dialogue : Text} {ev : ℕ × ℕ × Text}
    (hbreak : '\n' ∉ dialogue) (h : fileEvent fields n dialogue = some ev) : '\n' ∉ ev.2.2 := by
  simp only [fileEvent, Option.bind_eq_bind, Option.bind_eq_some_iff] at h
  obtain ⟨_, -, _, -, h⟩ := h
  obtain rfl := Option.some.inj h
  rw [mem_joinFields (by decide)]
  rintro ⟨f, hf, hmem⟩
  simp only [List.mem_cons, List.not_mem_nil, or_false] at hf
  rcases hf with rfl | rfl | rfl | rfl | rfl | rfl | rfl | rfl | rfl
  · exact not_mem_ofNat (by decide) hmem
  all_goals first
    | exact hbreak (trimmedField_subset _ hmem)
    | exact hbreak (fieldOf_subset _ hmem)

theorem fileLine_no_break {u : Unicode} {st : FileState} {line : Text} (hbreak : '\n' ∉ line)
    (hst : ∀ ev ∈ st.events, '\n' ∉ ev.2.2) : ∀ ev ∈ (fileLine u st line).events, '\n' ∉ ev.2.2 := by
  have htrim : '\n' ∉ trimEndMatches (· = '\r') line :=
    fun hmem => hbreak ((trimEndMatches_isPrefix _ line).subset hmem)
  unfold fileLine
  dsimp only
  split
  · exact hst
  · rename_i dialogue hdialogue
    split_ifs
    · exact hst
    · intro ev hev
      rcases List.mem_append.mp hev with hev | hev
      · exact hst ev hev
      · obtain ⟨hpre, -⟩ := Option.filter_eq_some_iff.mp hdialogue
        refine fileEvent_no_break (fun hmem => ?_) (Option.mem_toList.mp hev)
        rw [stripPrefix] at hpre
        split_ifs at hpre
        obtain rfl := Option.some.inj hpre
        exact htrim (List.mem_of_mem_drop hmem)

/-- No event has a line break in it. -/
theorem assFileEvents_no_break (u : Unicode) (content : Text) :
    ∀ ev ∈ (assFileEvents u content).2, '\n' ∉ ev.2.2 := by
  have hfold : ∀ (ls : List Text) (st : FileState), (∀ l ∈ ls, '\n' ∉ l) →
      (∀ ev ∈ st.events, '\n' ∉ ev.2.2) →
      ∀ ev ∈ (ls.foldl (fileLine u) st).events, '\n' ∉ ev.2.2 := by
    intro ls
    induction ls with
    | nil => exact fun st _ hst => hst
    | cons line ls ih =>
      intro st hls hst
      obtain ⟨hfirst, hrest⟩ := List.forall_mem_cons.mp hls
      exact ih _ hrest (fileLine_no_break hfirst hst)
  exact hfold _ _ (lines_no_break content) (by simp [FileState.start])

/-! ## Fields -/

theorem append_comma_inj {a b x y : Text} (ha : ',' ∉ a) (hb : ',' ∉ b)
    (h : a ++ ',' :: x = b ++ ',' :: y) : a = b ∧ x = y := by
  have hsplit := splitOnce_comma ha x
  rw [h, splitOnce_comma hb] at hsplit
  cases hsplit
  exact ⟨rfl, rfl⟩

/-- Two blocks are the same field by field, if only their texts have commas. -/
theorem joinFields_inj {readOrder layer style name marginL marginR marginV effect text : Text}
    {readOrder' layer' style' name' marginL' marginR' marginV' effect' text' : Text}
    (hleft : ∀ f ∈ [readOrder, layer, style, name, marginL, marginR, marginV, effect], ',' ∉ f)
    (hright : ∀ f ∈ [readOrder', layer', style', name', marginL', marginR', marginV', effect'], ',' ∉ f)
    (h : joinFields readOrder layer style name marginL marginR marginV effect text =
      joinFields readOrder' layer' style' name' marginL' marginR' marginV' effect' text') :
    [readOrder, layer, style, name, marginL, marginR, marginV, effect, text] =
      [readOrder', layer', style', name', marginL', marginR', marginV', effect', text'] := by
  simp only [List.forall_mem_cons] at hleft hright
  obtain ⟨l₁, l₂, l₃, l₄, l₅, l₆, l₇, l₈, -⟩ := hleft
  obtain ⟨r₁, r₂, r₃, r₄, r₅, r₆, r₇, r₈, -⟩ := hright
  simp only [joinFields, List.append_assoc, List.cons_append] at h
  obtain ⟨e₁, h₁⟩ := append_comma_inj l₁ r₁ h
  obtain ⟨e₂, h₂⟩ := append_comma_inj l₂ r₂ h₁
  obtain ⟨e₃, h₃⟩ := append_comma_inj l₃ r₃ h₂
  obtain ⟨e₄, h₄⟩ := append_comma_inj l₄ r₄ h₃
  obtain ⟨e₅, h₅⟩ := append_comma_inj l₅ r₅ h₄
  obtain ⟨e₆, h₆⟩ := append_comma_inj l₆ r₆ h₅
  obtain ⟨e₇, h₇⟩ := append_comma_inj l₇ r₇ h₆
  obtain ⟨e₈, e₉⟩ := append_comma_inj l₈ r₈ h₇
  rw [e₁, e₂, e₃, e₄, e₅, e₆, e₇, e₈, e₉]

theorem not_comma_ofNat (n : ℕ) : ',' ∉ ofNat n := not_mem_ofNat (by decide)

/-- A block is read as it was exactly if its fields and the end of its text are trimmed. -/
theorem trimmed_eq_numbered_iff (p : Payload) (n : ℕ) :
    p.trimmed (ofNat n) (trimEndMatches (· = '\r') p.text) = p.numbered (ofNat n) ↔
      (∀ f ∈ [p.layer, p.style, p.name, p.marginL, p.marginR, p.marginV, p.effect], trim f = f) ∧
        p.text.getLast? ≠ some '\r' := by
  have hcomma := p.noComma
  simp only [List.forall_mem_cons] at hcomma ⊢
  obtain ⟨-, hlayer, hstyle, hname, hl, hr, hv, heffect, -⟩ := hcomma
  constructor
  · intro h
    have hfields := joinFields_inj (by
      simp only [List.forall_mem_cons]
      exact ⟨not_comma_ofNat n, fun hc => hlayer (mem_of_mem_trim hc), fun hc => hstyle (mem_of_mem_trim hc),
        fun hc => hname (mem_of_mem_trim hc), fun hc => hl (mem_of_mem_trim hc),
        fun hc => hr (mem_of_mem_trim hc), fun hc => hv (mem_of_mem_trim hc),
        fun hc => heffect (mem_of_mem_trim hc), fun _ h => absurd h List.not_mem_nil⟩) (by
      simp only [List.forall_mem_cons]
      exact ⟨not_comma_ofNat n, hlayer, hstyle, hname, hl, hr, hv, heffect,
        fun _ h => absurd h List.not_mem_nil⟩) h
    simp only [List.cons.injEq] at hfields
    obtain ⟨-, h₁, h₂, h₃, h₄, h₅, h₆, h₇, htext, -⟩ := hfields
    refine ⟨⟨h₁, h₂, h₃, h₄, h₅, h₆, h₇, fun _ h => absurd h List.not_mem_nil⟩, fun hlast => ?_⟩
    rw [← htext] at hlast
    exact absurd (trimEndMatches_last _ _ _ hlast) (by decide)
  · rintro ⟨⟨h₁, h₂, h₃, h₄, h₅, h₆, h₇, -⟩, hlast⟩
    have htext : trimEndMatches (· = '\r') p.text = p.text := by
      refine trimEndMatches_of_last fun c hc => decide_eq_false ?_
      rintro rfl
      exact hlast hc
    rw [Payload.trimmed, h₁, h₂, h₃, h₄, h₅, h₆, h₇, htext, Payload.numbered]

theorem line_no_break_iff (e : Event) : '\n' ∉ e.line ↔
    ∀ f ∈ [e.payload.layer, e.payload.style, e.payload.name, e.payload.marginL, e.payload.marginR,
      e.payload.marginV, e.payload.effect, e.payload.text], '\n' ∉ f := by
  have htime : ∀ n, '\n' ∉ assTime n := fun n => not_mem_assTime (by decide) (by decide) (by decide)
  have hword : '\n' ∉ lit "Dialogue:" := by decide
  simp [Event.line, Payload.body, htime, hword]

/-! ## Behind a header -/

section
variable {u : Unicode} {h : Text}

theorem assFileEvents_script (hh : HeaderOk u h) {es : List Event} (hes : ∀ e ∈ es, '\n' ∉ e.line) :
    (assFileEvents u (script u h es)).2 = es.zipIdx.map fun (e, i) => e.read i := by
  obtain ⟨hscript, hevents⟩ := hh
  simp only [assFileEvents, lines_script u h hes, List.foldl_append]
  rw [foldl_fileLine es hscript, hevents]
  rfl

theorem parseAss_script (hh : HeaderOk u h) {es : List Event} (hes : ∀ e ∈ es, e.payload.Fits) :
    parseAss u (script u h es) =
      (es.filterMap Event.cue).insertionSort fun a b => a.startMs ≤ b.startMs := by
  obtain ⟨hscript, hevents⟩ := hh
  have hbreak : ∀ e ∈ es, '\n' ∉ e.line := fun e he => (line_no_break_iff e).mpr (hes e he).noBreak
  -- The header has no events, and so no cues.
  obtain ⟨hagree, hle⟩ := @foldl_readers u (lines (composeHeader u h)) (⟨false, []⟩, []) .start rfl
    (Nat.le_refl _)
  rw [hevents, List.length_nil, Nat.le_zero, List.length_eq_zero_iff] at hle
  rw [parseAss, lines_script u h hbreak, List.foldl_append,
    foldl_assLine (fun e he => (hes e he).noReturn) (hagree.trans hscript), hle, List.nil_append]

/-- Behind a header that names the fields in the order of the writer, exactly the blocks that fit in a
    line are read back. -/
theorem script_meaning_of_header (hh : HeaderOk u h) (es : List Event) :
    Meaning u h es ↔ ∀ e ∈ es, e.payload.Fits := by
  constructor
  · intro hmeaning
    have hbreak : ∀ e ∈ es, '\n' ∉ e.line := by
      intro e he
      obtain ⟨i, hi, rfl⟩ := List.mem_iff_getElem.mp he
      have hmem : (es[i], i) ∈ es.zipIdx :=
        List.mem_zipIdx_iff_getElem?.mpr (List.getElem?_eq_getElem hi)
      have hevent : es[i].expected i ∈ (assFileEvents u (script u h es)).2 := by
        rw [hmeaning.events]
        exact List.mem_map_of_mem hmem
      have hfields := assFileEvents_no_break u _ _ hevent
      rw [Event.expected, Payload.numbered, mem_joinFields (by decide)] at hfields
      rw [line_no_break_iff]
      exact fun f hf hc => hfields ⟨f, List.mem_cons_of_mem _ hf, hc⟩
    have hread := hmeaning.events
    rw [assFileEvents_script hh hbreak, List.map_inj_left] at hread
    intro e he
    obtain ⟨i, hi, rfl⟩ := List.mem_iff_getElem.mp he
    have hmem : (es[i], i) ∈ es.zipIdx := List.mem_zipIdx_iff_getElem?.mpr (List.getElem?_eq_getElem hi)
    have hsame : es[i].read i = es[i].expected i := hread _ hmem
    obtain ⟨htrim, hlast⟩ := (trimmed_eq_numbered_iff es[i].payload i).mp (Prod.ext_iff.mp
      (Prod.ext_iff.mp hsame).2).2
    exact ⟨htrim, (line_no_break_iff _).mp (hbreak _ he), hlast⟩
  · intro hes
    have hbreak : ∀ e ∈ es, '\n' ∉ e.line := fun e he => (line_no_break_iff e).mpr (hes e he).noBreak
    refine ⟨?_, parseAss_script hh hes⟩
    rw [assFileEvents_script hh hbreak]
    refine List.map_inj_left.mpr ?_
    rintro ⟨e, i⟩ hmem
    have he : e ∈ es := List.fst_mem_of_mem_zipIdx hmem
    simp only [Event.read, Event.expected,
      (trimmed_eq_numbered_iff e.payload i).mpr ⟨(hes e he).trimmed, (hes e he).noReturn⟩]

end

end Kahawai.Media.Subtitles
