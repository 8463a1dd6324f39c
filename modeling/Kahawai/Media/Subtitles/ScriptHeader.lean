import Mathlib.Tactic.IntervalCases
import Kahawai.Media.Subtitles.ScriptRoundTrip

/-!
# Headers of scripts

Which headers leave the readers where the lines of the blocks are read back
(`crates/kahawai-media/src/subtitles.rs`, lines 223–413). `ass_dialogue` writes the fields of a block
in one order, whatever the `Format:` line of the header says.

Results:
* `headerOk_of_meaning`: a header behind which every block that fits is read back names the fields
  in the order of the writer.
* `script_meaning_iff`: and behind such a header exactly the blocks that fit are.
-/

namespace Kahawai.Media.Subtitles

open Kahawai.Core Kahawai.Core.Text
open Kahawai.Media.VobsubFile (lines)

/-! ## A block to tell the fields apart -/

/-- All fields differ. -/
def probe (text : Text) : Payload :=
  ⟨[], ['a'], ['b'], ['c'], ['d'], ['e'], ['f'], ['g'], text, by decide⟩

/-- With times that differ, too. -/
def probeEvent (text : Text) : Event := ⟨10, 20, probe text, by decide⟩

/-- What stands behind `Dialogue:`. -/
def probeBody (text : Text) : Text := (probe text).body 10 20 text

/-- The parts before the text. -/
def probeParts : List Text :=
  [[' ', 'a'], lit "0:00:00.01", lit "0:00:00.02", ['b'], ['c'], ['d'], ['e'], ['f'], ['g']]

theorem splitN_probe (n : ℕ) (text : Text) :
    splitN (n + 10) (probeBody text) = probeParts ++ splitN (n + 1) text := by
  have hone : assTime 10 = lit "0:00:00.01" := by decide
  have htwo : assTime 20 = lit "0:00:00.02" := by decide
  simp only [probeBody, Payload.body, probe, hone, htwo]
  rw [splitN_comma (by decide), splitN_comma (by decide), splitN_comma (by decide),
    splitN_comma (by decide), splitN_comma (by decide), splitN_comma (by decide),
    splitN_comma (by decide), splitN_comma (by decide), splitN_comma (by decide)]
  rfl

theorem splitN_noComma {s : Text} (h : ',' ∉ s) (n : ℕ) : splitN (n + 1) s = [s] := by
  cases n with
  | zero => rfl
  | succ n =>
    have hnone : splitOnce (· = ',') s = none := by
      cases hsplit : splitOnce (· = ',') s with
      | none => rfl
      | some ab =>
        obtain ⟨c, hc, -, hs⟩ := splitOnce_eq_some hsplit
        obtain rfl : c = ',' := of_decide_eq_true hc
        exact absurd (hs ▸ List.mem_append_right _ List.mem_cons_self) h
    rw [splitN, hnone]

/-- With fewer fields the text is no part of its own. -/
theorem text_not_mem_splitN : ∀ n < 10, ['h'] ∉ splitN n (probeBody ['h']) := by decide

/-! ## The fields of a header -/

/-- A block has as many commas as it needs for its fields, and those of the fields. -/
theorem joinFields_noComma {readOrder layer style name marginL marginR marginV effect text : Text}
    {readOrder' layer' style' name' marginL' marginR' marginV' effect' text' : Text}
    (hright : ∀ f ∈ [readOrder', layer', style', name', marginL', marginR', marginV', effect', text'],
      ',' ∉ f)
    (h : joinFields readOrder layer style name marginL marginR marginV effect text =
      joinFields readOrder' layer' style' name' marginL' marginR' marginV' effect' text') :
    ∀ f ∈ [readOrder, layer, style, name, marginL, marginR, marginV, effect, text], ',' ∉ f := by
  simp only [List.forall_mem_cons, ← List.count_eq_zero] at hright ⊢
  obtain ⟨h₁, h₂, h₃, h₄, h₅, h₆, h₇, h₈, h₉, -⟩ := hright
  have hcount := congrArg (List.count ',') h
  simp only [joinFields, List.append_assoc, List.cons_append, List.count_append, List.count_cons_self,
    h₁, h₂, h₃, h₄, h₅, h₆, h₇, h₈, h₉] at hcount
  refine ⟨?_, ?_, ?_, ?_, ?_, ?_, ?_, ?_, ?_, fun _ h => absurd h List.not_mem_nil⟩
  all_goals omega

section
variable {fields : List Text}

/-- The index of a field is that of its part. -/
theorem index_of_part {parts : List Text} (hparts : (parts.map trim).Nodup) {name : String} {k : ℕ}
    {v w : Text} (hv : fieldOf fields parts name = some v) (hk : parts[k]? = some w)
    (h : trim v = trim w) : fields[k]? = some (lit name) ∧ v = w := by
  obtain ⟨i, hi, hv⟩ := Option.bind_eq_some_iff.mp hv
  have hsame : i = k := by
    have hlt : i < (parts.map trim).length := by
      rw [List.length_map]
      exact (List.getElem?_eq_some_iff.mp hv).1
    refine (List.getElem?_inj hlt hparts).mp ?_
    rw [List.getElem?_map, List.getElem?_map, hv, hk, Option.map_some, Option.map_some, h]
  subst hsame
  obtain ⟨hlt, hname, -⟩ := List.findIdx?_eq_some_iff_getElem.mp hi
  refine ⟨?_, Option.some.inj (hv.symm.trans hk)⟩
  rw [List.getElem?_eq_getElem hlt, of_decide_eq_true hname]

theorem fieldOf_of_trimmedField {parts : List Text} {name : String} {c : Char} {s : Text}
    (h : trimmedField fields parts name = c :: s) :
    ∃ v, fieldOf fields parts name = some v ∧ trim v = c :: s := by
  unfold trimmedField at h
  cases hfield : fieldOf fields parts name with
  | none =>
    rw [hfield] at h
    cases h
  | some v =>
    rw [hfield] at h
    exact ⟨v, rfl, h⟩

/-- The event of a line, field by field. -/
theorem fileEvent_eq_some {n : ℕ} {dialogue : Text} {ev : ℕ × ℕ × Text}
    (h : fileEvent fields n dialogue = some ev) :
    assTs (trimmedField fields (splitN fields.length dialogue) "start") = some ev.1 ∧
      assTs (trimmedField fields (splitN fields.length dialogue) "end") = some ev.2.1 ∧
      joinFields (ofNat n) (trimmedField fields (splitN fields.length dialogue) "layer")
        (trimmedField fields (splitN fields.length dialogue) "style")
        (trimmedField fields (splitN fields.length dialogue) "name")
        (trimmedField fields (splitN fields.length dialogue) "marginl")
        (trimmedField fields (splitN fields.length dialogue) "marginr")
        (trimmedField fields (splitN fields.length dialogue) "marginv")
        (trimmedField fields (splitN fields.length dialogue) "effect")
        ((fieldOf fields (splitN fields.length dialogue) "text").getD []) = ev.2.2 := by
  simp only [fileEvent, Option.bind_eq_bind, Option.bind_eq_some_iff] at h
  obtain ⟨start, hstart, stop, hstop, h⟩ := h
  obtain rfl := Option.some.inj h
  exact ⟨hstart, hstop, rfl⟩

/-- The parts of the probe tell the fields apart. -/
theorem nodup_probe : ((probeParts ++ [['h']]).map trim).Nodup := by decide

theorem start_of_part : ∀ v ∈ probeParts ++ [['h']], assTs (trim v) = some 10 → v = lit "0:00:00.01" := by
  decide

theorem stop_of_part : ∀ v ∈ probeParts ++ [['h']], assTs (trim v) = some 20 → v = lit "0:00:00.02" := by
  decide

/-- A part that reads as a time is one of those that are there. -/
theorem part_of_time {parts : List Text} {name : String} {t : ℕ}
    (h : assTs (trimmedField fields parts name) = some t) :
    ∃ v ∈ parts, fieldOf fields parts name = some v ∧ assTs (trim v) = some t := by
  unfold trimmedField at h
  cases hfield : fieldOf fields parts name with
  | none =>
    rw [hfield] at h
    cases h
  | some v =>
    rw [hfield] at h
    obtain ⟨i, -, hv⟩ := Option.bind_eq_some_iff.mp hfield
    exact ⟨v, List.mem_of_getElem? hv, rfl, h⟩

/-- If the probe is read back, the first ten fields are those of the writer. -/
theorem fields_of_probe {n : ℕ} (h : fileEvent fields n (probeBody ['h']) = some (10, 20,
    joinFields (ofNat n) ['a'] ['b'] ['c'] ['d'] ['e'] ['f'] ['g'] ['h'])) :
    10 ≤ fields.length ∧ ∀ k < 10, fields[k]? = writtenFields[k]? := by
  obtain ⟨hstart, hstop, hjoin⟩ := fileEvent_eq_some h
  have hright : ∀ f ∈ [ofNat n, ['a'], ['b'], ['c'], ['d'], ['e'], ['f'], ['g'], ['h']], ',' ∉ f := by
    refine List.forall_mem_cons.mpr ⟨not_comma_ofNat n, ?_⟩
    decide
  have hleft := joinFields_noComma hright hjoin
  have hsub : ∀ {a b c d e f g h i : Text}, (∀ x ∈ [a, b, c, d, e, f, g, h, i], ',' ∉ x) →
      ∀ x ∈ [a, b, c, d, e, f, g, h], ',' ∉ x := by
    intro a b c d e f g h i hall x hx
    exact hall x (List.mem_append_left [i] hx)
  have hfields := joinFields_inj (hsub hleft) (hsub hright) hjoin
  simp only [List.cons.injEq] at hfields
  obtain ⟨-, hlayer, hstyle, hname, hl, hr, hv, heffect, htext, -⟩ := hfields
  obtain ⟨w, hw⟩ : ∃ w, fieldOf fields (splitN fields.length (probeBody ['h'])) "text" = some w := by
    cases hfield : fieldOf fields (splitN fields.length (probeBody ['h'])) "text" with
    | none =>
      rw [hfield] at htext
      cases htext
    | some w => exact ⟨w, rfl⟩
  obtain rfl : w = ['h'] := by rwa [hw] at htext
  -- The text is a part of its own, and so the others are, too.
  have hten : 10 ≤ fields.length := by
    by_contra hlt
    obtain ⟨i, -, hpart⟩ := Option.bind_eq_some_iff.mp hw
    exact text_not_mem_splitN _ (Nat.not_le.mp hlt) (List.mem_of_getElem? hpart)
  have hparts : splitN fields.length (probeBody ['h']) = probeParts ++ [['h']] := by
    obtain ⟨k, hk⟩ := Nat.exists_eq_add_of_le hten
    rw [hk, Nat.add_comm, splitN_probe, splitN_noComma (by decide)]
  rw [hparts] at hstart hstop hlayer hstyle hname hl hr hv heffect hw
  obtain ⟨v₀, hv₀, ht₀⟩ := fieldOf_of_trimmedField hlayer
  obtain ⟨v₁, hm₁, hv₁, ht₁⟩ := part_of_time hstart
  obtain ⟨v₂, hm₂, hv₂, ht₂⟩ := part_of_time hstop
  obtain ⟨v₃, hv₃, ht₃⟩ := fieldOf_of_trimmedField hstyle
  obtain ⟨v₄, hv₄, ht₄⟩ := fieldOf_of_trimmedField hname
  obtain ⟨v₅, hv₅, ht₅⟩ := fieldOf_of_trimmedField hl
  obtain ⟨v₆, hv₆, ht₆⟩ := fieldOf_of_trimmedField hr
  obtain ⟨v₇, hv₇, ht₇⟩ := fieldOf_of_trimmedField hv
  obtain ⟨v₈, hv₈, ht₈⟩ := fieldOf_of_trimmedField heffect
  obtain rfl := start_of_part v₁ hm₁ ht₁
  obtain rfl := stop_of_part v₂ hm₂ ht₂
  have hindex := fun {name : String} {v : Text} (k : ℕ) (w : Text)
    (hv : fieldOf fields (probeParts ++ [['h']]) name = some v)
    (hk : (probeParts ++ [['h']])[k]? = some w) (ht : trim v = trim w) =>
      (index_of_part nodup_probe hv hk ht).1
  refine ⟨hten, fun k hk => ?_⟩
  interval_cases k
  · exact hindex 0 [' ', 'a'] hv₀ rfl ht₀
  · exact hindex 1 _ hv₁ rfl rfl
  · exact hindex 2 _ hv₂ rfl rfl
  · exact hindex 3 ['b'] hv₃ rfl ht₃
  · exact hindex 4 ['c'] hv₄ rfl ht₄
  · exact hindex 5 ['d'] hv₅ rfl ht₅
  · exact hindex 6 ['e'] hv₆ rfl ht₆
  · exact hindex 7 ['f'] hv₇ rfl ht₇
  · exact hindex 8 ['g'] hv₈ rfl ht₈
  · exact hindex 9 _ hw rfl rfl

theorem trimmedField_of_all {parts : List Text} (h : ∀ p ∈ parts, ',' ∉ p) (name : String) :
    ',' ∉ trimmedField fields parts name ∧ ',' ∉ (fieldOf fields parts name).getD [] := by
  unfold trimmedField
  cases hfield : fieldOf fields parts name with
  | none => exact ⟨List.not_mem_nil, List.not_mem_nil⟩
  | some v =>
    obtain ⟨i, -, hv⟩ := Option.bind_eq_some_iff.mp hfield
    have hpart := h v (List.mem_of_getElem? hv)
    exact ⟨fun hmem => hpart (mem_of_mem_trim hmem), hpart⟩

/-- If a text with a comma is read back, too, there are no more fields. -/
theorem fields_eq_of_probes {n : ℕ} (h : fileEvent fields n (probeBody ['h']) = some (10, 20,
      joinFields (ofNat n) ['a'] ['b'] ['c'] ['d'] ['e'] ['f'] ['g'] ['h']))
    (hcomma : fileEvent fields n (probeBody ['h', ',', 'i']) = some (10, 20,
      joinFields (ofNat n) ['a'] ['b'] ['c'] ['d'] ['e'] ['f'] ['g'] ['h', ',', 'i'])) :
    fields = writtenFields := by
  obtain ⟨hten, hsame⟩ := fields_of_probe h
  have hlength : fields.length = 10 := by
    by_contra hne
    obtain ⟨k, hk⟩ := Nat.exists_eq_add_of_le (show 11 ≤ fields.length by omega)
    have hparts : splitN fields.length (probeBody ['h', ',', 'i']) = probeParts ++ [['h'], ['i']] := by
      have htext : splitN (k + 2) ['h', ',', 'i'] = [['h'], ['i']] := by
        rw [← List.singleton_append, splitN_comma (by decide), splitN_noComma (by decide)]
      rw [hk, show 11 + k = k + 1 + 10 by omega, splitN_probe, htext]
    obtain ⟨-, -, hjoin⟩ := fileEvent_eq_some hcomma
    rw [hparts] at hjoin
    -- No part has a comma, and so the text that is read has none.
    have hall := fun name : String => @trimmedField_of_all fields (probeParts ++ [['h'], ['i']])
      (by decide) name
    have htext := joinFields_noComma (by
      simp only [List.forall_mem_cons]
      exact ⟨not_comma_ofNat n, (hall _).1, (hall _).1, (hall _).1, (hall _).1, (hall _).1, (hall _).1,
        (hall _).1, (hall _).2, fun _ h => absurd h List.not_mem_nil⟩) hjoin.symm
    exact htext ['h', ',', 'i'] (by simp) (by decide)
  refine List.ext_getElem? fun k => ?_
  rcases lt_or_ge k 10 with hk | hk
  · exact hsame k hk
  · rw [List.getElem?_eq_none (by omega), List.getElem?_eq_none hk]

end

/-! ## Headers -/

section
variable {u : Unicode} {h : Text}

theorem probe_fits {text : Text} (hbreak : '\n' ∉ text) (hlast : text.getLast? ≠ some '\r') :
    (probe text).Fits where
  trimmed := show ∀ f ∈ [['a'], ['b'], ['c'], ['d'], ['e'], ['f'], ['g']], trim f = f by decide
  noBreak := by simpa [probe] using hbreak
  noReturn := hlast

/-- A block that is read back leaves its event, and the header none. -/
theorem fileEvent_of_meaning {st : FileState} (hst : (lines (composeHeader u h)).foldl (fileLine u)
    .start = st) (hnone : st.events = []) {e : Event} (hfits : e.payload.Fits)
    (hmeaning : Meaning u h [e]) : st.script.inEvents = true ∧
      fileEvent st.script.fields 0 (e.payload.body e.start e.stop e.payload.text) =
        some (e.expected 0) := by
  have hbreak : ∀ e' ∈ [e], '\n' ∉ e'.line := by
    intro e' he'
    obtain rfl := List.mem_singleton.mp he'
    exact (line_no_break_iff _).mpr hfits.noBreak
  have hsame : trimEndMatches (· = '\r') e.payload.text = e.payload.text := by
    refine trimEndMatches_of_last fun c hc => decide_eq_false ?_
    rintro rfl
    exact hfits.noReturn hc
  have hevents : (fileLine u st (stripReturn e.line)).events = [e.expected 0] := by
    have := hmeaning.events
    rwa [assFileEvents, lines_script u h hbreak, List.foldl_append, hst] at this
  simp only [fileLine, trimEndMatches_stripReturn, trimEndMatches_line, hsame, scriptLine_dialogue,
    stripPrefix_append] at hevents
  cases hin : st.script.inEvents with
  | false =>
    rw [hin] at hevents
    simp [hnone] at hevents
  | true =>
    rw [hin] at hevents
    refine ⟨rfl, ?_⟩
    by_cases hfields : st.script.fields.isEmpty = true
    · simp only [Option.filter_some, if_true, if_pos hfields, hnone] at hevents
      cases hevents
    · simp only [Option.filter_some, if_true, if_neg hfields, hnone, List.nil_append] at hevents
      cases hread : fileEvent st.script.fields 0
          (e.payload.body e.start e.stop e.payload.text) with
      | none =>
        rw [List.length_nil, hread] at hevents
        cases hevents
      | some ev =>
        rw [List.length_nil, hread] at hevents
        exact congrArg some (List.head_eq_of_cons_eq hevents)

/-- A header behind which every block that fits is read back names the fields in the order of the
    writer. -/
theorem headerOk_of_meaning (hall : ∀ es : List Event, (∀ e ∈ es, e.payload.Fits) → Meaning u h es) :
    HeaderOk u h := by
  have hnone : ((lines (composeHeader u h)).foldl (fileLine u) .start).events = [] := by
    have := (hall [] fun e he => absurd he List.not_mem_nil).events
    rwa [script, dialogueLines, List.flatMap_nil, List.append_nil] at this
  have hprobe : ∀ text : Text, '\n' ∉ text → text.getLast? ≠ some '\r' →
      Meaning u h [probeEvent text] := by
    intro text hbreak hlast
    refine hall _ fun e he => ?_
    obtain rfl := List.mem_singleton.mp he
    exact probe_fits hbreak hlast
  obtain ⟨hin, hplain⟩ := fileEvent_of_meaning rfl hnone (probe_fits (by decide) (by decide))
    (hprobe ['h'] (by decide) (by decide))
  obtain ⟨-, hcomma⟩ := fileEvent_of_meaning rfl hnone (probe_fits (by decide) (by decide))
    (hprobe ['h', ',', 'i'] (by decide) (by decide))
  have hfields := fields_eq_of_probes hplain hcomma
  refine ⟨?_, hnone⟩
  rw [← hfields, ← hin]

/-- What the composed script means, as far as its header goes, and behind a header that fits. -/
theorem script_meaning_iff (u : Unicode) (h : Text) :
    (HeaderOk u h ↔ ∀ es : List Event, (∀ e ∈ es, e.payload.Fits) → Meaning u h es) ∧
      (HeaderOk u h → ∀ es, Meaning u h es ↔ ∀ e ∈ es, e.payload.Fits) :=
  ⟨⟨fun hh es => (script_meaning_of_header hh es).mpr, headerOk_of_meaning⟩, script_meaning_of_header⟩

end

/-- Two lines, one with a comma in its text. -/
def sampleEvents : List Event :=
  [⟨1234, 2500, ⟨['7'], ['0'], lit "Default", [], ['0'], ['0'], ['0'], [], lit "Hi", by decide⟩, by decide⟩,
    ⟨3000, 4000, ⟨['8'], ['1'], lit "Sign", [], ['0'], ['0'], ['9'], [], lit "a, b", by decide⟩, by decide⟩]

/-- A header without `[Events]` gets one, and the lines come back, in hundredths. -/
theorem script_meaning_sample : (assFileEvents .ascii (script .ascii (lit "[Script Info]\nTitle: x")
      sampleEvents)).2 =
    [(1230, 2500, lit "0,0,Default,,0,0,0,,Hi"), (3000, 4000, lit "1,1,Sign,,0,0,9,,a, b")] := by
  have hheader : HeaderOk .ascii (lit "[Script Info]\nTitle: x") :=
    ⟨by decide, by decide⟩
  have hfits : ∀ e ∈ sampleEvents, e.payload.Fits := by
    intro e he
    simp only [sampleEvents, List.mem_cons, List.not_mem_nil, or_false] at he
    rcases he with rfl | rfl
    · exact ⟨by decide, by decide, by decide⟩
    · exact ⟨by decide, by decide, by decide⟩
  have hmeaning := ((script_meaning_iff .ascii _).2 hheader sampleEvents).mpr hfits
  rw [hmeaning.events]
  decide

/-- A header that names the fields in another order, as it may: its lines are lost. -/
theorem script_lost : ∃ e : Event, e.payload.Fits ∧
    ¬Meaning .ascii (lit ("[Events]\nFormat: Start, End, Layer, Style, Name, MarginL, MarginR, " ++
      "MarginV, Effect, Text")) [e] := by
  refine ⟨⟨1000, 2000, ⟨['0'], ['0'], lit "Default", [], ['0'], ['0'], ['0'], [], lit "Hi", by decide⟩,
    by decide⟩, ⟨by decide, by decide, by decide⟩, fun hmeaning => ?_⟩
  exact absurd hmeaning.events (by decide)

end Kahawai.Media.Subtitles
