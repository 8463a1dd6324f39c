import Mathlib.Algebra.Order.BigOperators.Group.List
import Kahawai.Media.Subtitles.Lines

/-!
# WebVTT read back

What `parse_vtt` makes of the text that `to_vtt` writes (`crates/kahawai-media/src/subtitles.rs`,
lines 66–104 and 183–221). The text of a cue is written as it is, so an empty line in it ends the
cue, a carriage return is lost, and a backslash before `N`, `n` or `h` becomes white space.

Results:
* `readCue_plain`: a cue without these is read back.
* `readCue_weight`: of any other, less text is read back than was written.
* `parseVtt_toVtt_iff`: so the cues of a file are read back exactly if none has them.
-/

namespace Kahawai.Media.Subtitles

open Kahawai.Core Kahawai.Core.Text Kahawai.Media.Burnin
open Kahawai.Media.Subindex (Cue)
open Kahawai.Media.VobsubFile (lines)

/-! ## Times -/

/-- A character of a written time. -/
theorem vttTime_chars {n : ℕ} {c : Char} (h : c ∈ vttTime n) :
    isAsciiDigit c = true ∨ c = ':' ∨ c = '.' := by
  simp only [vttTime, List.mem_append] at h
  rcases h with (((((h | h) | h) | h) | h) | h) | h
  · exact .inl (isAsciiDigit_of_mem_pad h)
  · exact .inr (.inl (List.mem_singleton.mp h))
  · exact .inl (isAsciiDigit_of_mem_pad h)
  · exact .inr (.inl (List.mem_singleton.mp h))
  · exact .inl (isAsciiDigit_of_mem_pad h)
  · exact .inr (.inr (List.mem_singleton.mp h))
  · exact .inl (isAsciiDigit_of_mem_pad h)

theorem not_mem_vttTime {n : ℕ} {c : Char} (hdigit : isAsciiDigit c = false) (hcolon : c ≠ ':')
    (hdot : c ≠ '.') : c ∉ vttTime n := by
  intro h
  rcases vttTime_chars h with h | h | h
  · rw [hdigit] at h
    cases h
  · exact hcolon h
  · exact hdot h

theorem vttTime_no_whitespace {n : ℕ} : ∀ c ∈ vttTime n, isWhitespace c = false := by
  intro c h
  rcases vttTime_chars h with h | rfl | rfl
  · exact digit_not_whitespace h
  · decide
  · decide

/-- A time begins with a digit. -/
theorem vttTime_first (n : ℕ) : ∃ c rest, vttTime n = c :: rest ∧ isAsciiDigit c = true := by
  cases hhours : pad 2 (n / 3600000) with
  | nil => exact absurd hhours (pad_ne_nil 2 _)
  | cons c rest =>
    have hc : isAsciiDigit c = true :=
      isAsciiDigit_of_mem_pad (w := 2) (n := n / 3600000) (hhours ▸ List.mem_cons_self)
    rw [vttTime, hhours]
    exact ⟨c, _, rfl, hc⟩

theorem vttTime_trimmed (n : ℕ) : Trimmed (vttTime n) :=
  ⟨fun c h => vttTime_no_whitespace c (List.mem_of_mem_head? h),
    fun c h => vttTime_no_whitespace c (List.mem_of_getLast? h)⟩

/-- The clock and the milliseconds of a written time. -/
theorem rsplitOnce_vttTime (n : ℕ) : rsplitOnce (fun c => c = ',' || c = '.') (vttTime n) =
    some (pad 2 (n / 3600000) ++ lit ":" ++ pad 2 (n / 60000 % 60) ++ lit ":" ++
      pad 2 (n / 1000 % 60), pad 3 (n % 1000)) := by
  have htime : vttTime n = (pad 2 (n / 3600000) ++ lit ":" ++ pad 2 (n / 60000 % 60) ++ lit ":" ++
      pad 2 (n / 1000 % 60)) ++ '.' :: pad 3 (n % 1000) := by
    simp only [vttTime, List.append_assoc]
    rfl
  rw [htime]
  refine rsplitOnce_append (by decide) (fun d hd => ?_) _
  have hcomma : d ≠ ',' := by
    rintro rfl
    exact not_mem_pad (by decide) hd
  have hdot : d ≠ '.' := by
    rintro rfl
    exact not_mem_pad (by decide) hd
  simp [hcomma, hdot]

theorem split_vttTime (n : ℕ) :
    split (· = ':') (pad 2 (n / 3600000) ++ lit ":" ++ pad 2 (n / 60000 % 60) ++ lit ":" ++
      pad 2 (n / 1000 % 60)) = [pad 2 (n / 3600000), pad 2 (n / 60000 % 60), pad 2 (n / 1000 % 60)] :=
  split_clock (not_mem_pad (by decide)) (not_mem_pad (by decide)) (not_mem_pad (by decide))

/-- A written time is read back. -/
theorem parseTimestamp_vttTime {n : ℕ} (h : n < 2 ^ 64) {s : Text} (hs : trim s = vttTime n) :
    parseTimestamp s = some n := by
  have hprefix : bytePrefix (pad 3 (n % 1000)) 3 = some (pad 3 (n % 1000)) := by
    have hlength := length_pad_of_lt (w := 3) (n := n % 1000) (by decide) (by omega)
    have hascii := bytePrefix_ascii (s := pad 3 (n % 1000)) fun c hc => by
      have hdigit := isAsciiDigit_of_mem_pad hc
      simp only [isAsciiDigit, Bool.and_eq_true, decide_eq_true_eq] at hdigit
      have hhigh : c.toNat ≤ 57 := hdigit.2
      exact decide_eq_true (by omega)
    rwa [hlength] at hascii
  simp only [parseTimestamp, hs, rsplitOnce_vttTime, Option.bind_eq_bind, Option.bind_some, hprefix,
    split_vttTime]
  rw [parseUnsigned_pad (by omega), parseUnsigned_pad (by omega), parseUnsigned_pad (by omega),
    parseUnsigned_pad (by omega)]
  exact congrArg some (timeMs_parts n h)

/-- Times that are written alike are the same. -/
theorem vttTime_injective : Function.Injective vttTime := by
  intro n m h
  have hparts := (rsplitOnce_vttTime n).symm.trans ((congrArg _ h).trans (rsplitOnce_vttTime m))
  obtain ⟨hclock, hms⟩ := Prod.mk.inj (Option.some.inj hparts)
  have hsplit := (split_vttTime n).symm.trans ((congrArg _ hclock).trans (split_vttTime m))
  simp only [List.cons.injEq, and_true] at hsplit
  obtain ⟨hhours, hminutes, hseconds⟩ := hsplit
  have hread : ∀ {w a b : ℕ}, pad w a = pad w b → a = b := by
    intro w a b hab
    rw [← digitsValue_pad w a, hab, digitsValue_pad]
  have h₁ := hread hhours
  have h₂ := hread hminutes
  have h₃ := hread hseconds
  have h₄ := hread hms
  have hn : n / 3600000 = n / 60000 / 60 := by rw [Nat.div_div_eq_div_mul]
  have hm : m / 3600000 = m / 60000 / 60 := by rw [Nat.div_div_eq_div_mul]
  have hn' : n / 60000 = n / 1000 / 60 := by rw [Nat.div_div_eq_div_mul]
  have hm' : m / 60000 = m / 1000 / 60 := by rw [Nat.div_div_eq_div_mul]
  omega

/-- A later time is not shorter. -/
theorem length_vttTime_le {n m : ℕ} (h : n ≤ m) : (vttTime n).length ≤ (vttTime m).length := by
  have hlength : ∀ k, (vttTime k).length = max 2 (ofNat (k / 3600000)).length + 10 := by
    intro k
    have hsix : ∀ j, (pad 2 (j % 60)).length = 2 := fun j => length_pad_of_lt (by decide) (by omega)
    have hthree : (pad 3 (k % 1000)).length = 3 := length_pad_of_lt (by decide) (by omega)
    simp only [vttTime, List.length_append, hsix, hthree, length_pad 2 (k / 3600000)]
    rfl
  have hhours := length_ofNat_le (Nat.div_le_div_right (c := 3600000) h)
  rw [hlength, hlength]
  omega

/-! ## Bodies -/

/-- The text of a block: nothing in it ends it, and no tag is open. -/
structure Body (s : Text) : Prop where
  tidy : Tidy s
  noReturn : '\r' ∉ s
  last : s.getLast? ≠ some '\n'

theorem Body.rest {a b : Text} (h : Body (a ++ '\n' :: b)) : Body b ∧ b ≠ [] := by
  have hne : b ≠ [] := by
    rintro rfl
    exact h.last (by simp)
  refine ⟨⟨(h.tidy.split (by decide)).2, fun hmem => h.noReturn ?_, fun hlast => h.last ?_⟩, hne⟩
  · exact List.mem_append_right _ (List.mem_cons_of_mem _ hmem)
  · rw [List.getLast?_append_of_ne_nil _ (List.cons_ne_nil _ _)]
    obtain ⟨c, b, rfl⟩ := List.exists_cons_of_ne_nil hne
    rwa [List.getLast?_cons_cons]

/-- Its lines make it up. -/
theorem Body.join_lines {s : Text} (h : Body s) : join ['\n'] (lines s) = s := by
  induction s using lines_induction with
  | single s hs =>
    rw [lines_single hs]
    split_ifs with hnil
    · rw [hnil]
      rfl
    · simp [join, List.intercalate]
  | line a b ha ih =>
    obtain ⟨hb, hne⟩ := h.rest
    have hcr : '\r' ∉ a := fun hmem => h.noReturn (List.mem_append_left _ hmem)
    have hjoin := ih hb
    rw [lines_line ha hcr]
    cases hlines : lines b with
    | nil =>
      rw [hlines] at hjoin
      exact absurd hjoin.symm hne
    | cons line rest =>
      rw [hlines] at hjoin
      rw [← hjoin, join, join, List.intercalate_cons_cons, List.append_assoc]
      rfl

/-- Behind its first line there is a shorter body, or nothing. -/
theorem Body.lines_rest {s : Text} (h : Body s) {line : Text} {rest : List Text}
    (hlines : lines s = line :: rest) : ∃ b, rest = lines b ∧ Body b ∧ b.length ≤ s.length := by
  induction s using lines_induction with
  | single s hs =>
    rw [lines_single hs] at hlines
    split_ifs at hlines
    obtain ⟨-, rfl⟩ := List.cons.inj hlines
    exact ⟨[], rfl, ⟨.nil, List.not_mem_nil, by simp⟩, Nat.zero_le _⟩
  | line a b ha ih =>
    have hcr : '\r' ∉ a := fun hmem => h.noReturn (List.mem_append_left _ hmem)
    rw [lines_line ha hcr] at hlines
    obtain ⟨-, rfl⟩ := List.cons.inj hlines
    refine ⟨b, rfl, h.rest.1, ?_⟩
    rw [List.length_append, List.length_cons]
    omega

/-! ## Blocks -/

/-- `"{} --> {}"`. -/
def timing (start stop : ℕ) : Text := vttTime start ++ lit " --> " ++ vttTime stop

theorem not_mem_timing {start stop : ℕ} {c : Char} (hdigit : isAsciiDigit c = false)
    (hother : c ∉ lit ":. ->") : c ∉ timing start stop := by
  have hcolon : c ≠ ':' := by rintro rfl; exact hother (by decide)
  have hdot : c ≠ '.' := by rintro rfl; exact hother (by decide)
  have harrow : c ∉ lit " --> " := by
    intro hc
    have hcases : c = ' ' ∨ c = '-' ∨ c = '>' ∨ c = ' ' := by simpa [lit] using hc
    rcases hcases with rfl | rfl | rfl | rfl <;> exact hother (by decide)
  simp only [timing, List.mem_append, not_or]
  exact ⟨⟨not_mem_vttTime hdigit hcolon hdot, harrow⟩, not_mem_vttTime hdigit hcolon hdot⟩

theorem splitOnceStr_timing (start stop : ℕ) :
    splitOnceStr (lit "-->") (timing start stop) =
      some (vttTime start ++ [' '], ' ' :: vttTime stop) := by
  have htiming : timing start stop =
      (vttTime start ++ [' ']) ++ '-' :: ['-', '>'] ++ (' ' :: vttTime stop) := by
    simp only [timing, List.append_assoc]
    rfl
  have hdash : '-' ∉ vttTime start ++ [' '] := by
    simp only [List.mem_append, not_or]
    exact ⟨not_mem_vttTime (by decide) (by decide) (by decide), by decide⟩
  rw [htiming]
  exact splitOnceStr_append hdash _

theorem splitWhitespace_time (n : ℕ) : splitWhitespace (' ' :: vttTime n) = [vttTime n] := by
  have hwords : split isWhitespace (' ' :: vttTime n) = [[], vttTime n] := by
    have hcons := @List.splitOnP_append_cons _ isWhitespace [] (vttTime n) ' ' (by decide)
    rw [List.nil_append, List.splitOnP_nil, List.splitOnP_eq_singleton vttTime_no_whitespace] at hcons
    exact hcons
  obtain ⟨c, rest, htime, -⟩ := vttTime_first n
  rw [splitWhitespace, hwords, htime]
  rfl

theorem startsWith_other {c d : Char} (h : c ≠ d) (pre s : Text) :
    startsWith (c :: pre) (d :: s) = false := by
  simp [startsWith, List.isPrefixOf, h]

/-- What is read of a block that starts with times. -/
theorem vttBlock_timing {start stop : ℕ} (hstart : start < 2 ^ 64) (hstop : stop < 2 ^ 64) {c : Char}
    (hc : isWhitespace c = false) {y : Text} (hbody : Body (trimEnd (c :: y))) :
    vttBlock (timing start stop ++ '\n' :: c :: y) =
      makeCue (some start) (some stop) (trimEnd (c :: y)) := by
  obtain ⟨d, rest, htime, hd⟩ := vttTime_first start
  have hhead : timing start stop = d :: (rest ++ lit " --> " ++ vttTime stop) := by
    rw [timing, htime]
    rfl
  have htrim : trim (timing start stop ++ '\n' :: c :: y) =
      timing start stop ++ '\n' :: trimEnd (c :: y) := by
    have hfirst : trimStartMatches isWhitespace (timing start stop ++ '\n' :: c :: y) =
        timing start stop ++ ['\n'] ++ (c :: y) := by
      rw [trimStartMatches, hhead, List.cons_append, List.dropWhile_cons_of_neg
        (by rw [digit_not_whitespace hd]; decide)]
      simp
    rw [trim, trimMatches, hfirst, trimEndMatches_append _ ⟨c, List.mem_cons_self, hc⟩,
      List.append_assoc]
    rfl
  have hnone : ∀ a pre, a ≠ d →
      startsWith (a :: pre) (timing start stop ++ '\n' :: trimEnd (c :: y)) = false := by
    intro a pre hne
    rw [hhead, List.cons_append]
    exact startsWith_other hne pre _
  have hletter : ∀ a, isAsciiDigit a = false → a ≠ d := by
    rintro a ha rfl
    rw [hd] at ha
    cases ha
  have hempty : (timing start stop ++ '\n' :: trimEnd (c :: y)).isEmpty = false := by
    rw [hhead]
    rfl
  have hlines : lines (timing start stop ++ '\n' :: trimEnd (c :: y)) =
      timing start stop :: lines (trimEnd (c :: y)) :=
    lines_line (not_mem_timing (by decide) (by decide)) (not_mem_timing (by decide) (by decide)) _
  have hcontains : containsStr (lit "-->") (timing start stop) = true := by
    rw [containsStr, splitOnceStr_timing]
    rfl
  have hstart' : trim (vttTime start ++ [' ']) = vttTime start := by
    have hstep : trimStartMatches isWhitespace (vttTime start ++ [' ']) = vttTime start ++ [' '] := by
      rw [trimStartMatches, htime, List.cons_append, List.dropWhile_cons_of_neg
        (by rw [digit_not_whitespace hd]; decide)]
    rw [trim, trimMatches, hstep, trimEndMatches, List.reverse_append]
    have hlast := trimEnd_of_last (vttTime_trimmed start).last
    exact hlast
  have hskip : (startsWith (lit "WEBVTT") (timing start stop ++ '\n' :: trimEnd (c :: y)) = false) ∧
      (startsWith (lit "NOTE") (timing start stop ++ '\n' :: trimEnd (c :: y)) = false) ∧
      (startsWith (lit "STYLE") (timing start stop ++ '\n' :: trimEnd (c :: y)) = false) ∧
      startsWith (lit "REGION") (timing start stop ++ '\n' :: trimEnd (c :: y)) = false :=
    ⟨hnone _ _ (hletter _ (by decide)), hnone _ _ (hletter _ (by decide)),
      hnone _ _ (hletter _ (by decide)), hnone _ _ (hletter _ (by decide))⟩
  unfold vttBlock
  simp only [htrim, hempty, hskip.1, hskip.2.1, hskip.2.2.1, hskip.2.2.2, Bool.or_false, hlines,
    skipLine, hcontains, Bool.not_true, Bool.false_eq_true, if_false, splitOnceStr_timing,
    Option.bind_eq_bind, Option.bind_some, splitWhitespace_time, List.head?_cons, Option.getD_some,
    parseTimestamp_vttTime hstart hstart', parseTimestamp_vttTime hstop (vttTime_trimmed stop).trim_eq,
    hbody.join_lines]

theorem makeCue_some {start stop : Option ℕ} {text : Text} {cue : Cue}
    (h : makeCue start stop text = some cue) : cue.text = cleanCueText text := by
  simp only [makeCue, Option.bind_eq_bind, Option.bind_eq_some_iff] at h
  obtain ⟨_, -, _, -, h⟩ := h
  split_ifs at h
  obtain rfl := Option.some.inj h
  rfl

/-- The text read of a tidy block is no longer than the block. -/
theorem vttBlock_length {b : Text} (htidy : Tidy b) (hcr : '\r' ∉ b) {cue : Cue}
    (h : vttBlock b = some cue) : cue.text.length ≤ b.length := by
  have hbody : Body (trim b) := by
    refine ⟨htidy.trim, fun hmem => hcr (mem_of_mem_trim hmem), fun hlast => ?_⟩
    cases (trim_trimmed b).last _ hlast
  have htext : ∃ t, Body t ∧ t.length ≤ (trim b).length ∧ cue.text = cleanCueText t := by
    unfold vttBlock at h
    dsimp only at h
    split_ifs at h
    cases hlines : lines (trim b) with
    | nil =>
      rw [hlines] at h
      cases h
    | cons line rest =>
      obtain ⟨t, rfl, ht, hle⟩ := hbody.lines_rest hlines
      rw [hlines, skipLine] at h
      by_cases hskip : (!containsStr (lit "-->") line) = true
      · rw [if_pos hskip] at h
        cases hlines' : lines t with
        | nil =>
          rw [hlines'] at h
          cases h
        | cons line' rest' =>
          obtain ⟨t', rfl, ht', hle'⟩ := ht.lines_rest hlines'
          rw [hlines'] at h
          obtain ⟨_, -, h⟩ := Option.bind_eq_some_iff.mp h
          refine ⟨t', ht', hle'.trans hle, ?_⟩
          rw [makeCue_some h, ht'.join_lines]
      · rw [if_neg hskip] at h
        obtain ⟨_, -, h⟩ := Option.bind_eq_some_iff.mp h
        refine ⟨t, ht, hle, ?_⟩
        rw [makeCue_some h, ht.join_lines]
  obtain ⟨t, ht, hle, heq⟩ := htext
  rw [heq]
  exact (length_cleanCueText_le ht.tidy).trans (hle.trans (length_trim_le b))

/-! ## One cue -/

/-- What `clean_cue_text` leaves, if it leaves anything. -/
structure Cleaned (t : Text) : Prop where
  tidy : Tidy t
  trimmed : Trimmed t
  some : t ≠ []

theorem cleanCueText_cleaned {s : Text} (h : cleanCueText s ≠ []) : Cleaned (cleanCueText s) :=
  ⟨cleanCueText_tidy s, trim_trimmed _, h⟩

/-- A text that can be written as it is. -/
structure Plain (t : Text) : Prop where
  noBlank : hasBlank t = false
  noReturn : '\r' ∉ t
  noEscape : hasEscape t = false

/-- The ends of a text are no carriage returns. -/
theorem Cleaned.removeReturn {t : Text} (h : Cleaned t) : Cleaned (removeChar '\r' t) := by
  have hkeep : ∀ c, isWhitespace c = false → decide (c ≠ '\r') = true := by
    intro c hc
    refine decide_eq_true ?_
    rintro rfl
    cases hc
  obtain ⟨c, s, rfl⟩ := List.exists_cons_of_ne_nil h.some
  have hfirst := h.trimmed.first c rfl
  have hcons : removeChar '\r' (c :: s) = c :: removeChar '\r' s :=
    List.filter_cons_of_pos (hkeep c hfirst)
  refine ⟨h.tidy.removeChar (by decide), ⟨?_, ?_⟩, ?_⟩
  · intro d hd
    rw [hcons] at hd
    exact Option.some.inj hd ▸ hfirst
  · intro d hd
    have hlast := List.dropLast_append_getLast (List.cons_ne_nil c s)
    have hend := h.trimmed.last _ (List.getLast?_eq_some_getLast (List.cons_ne_nil c s))
    rw [← hlast, removeChar, List.filter_append,
      List.filter_cons_of_pos (p := fun x => decide (x ≠ '\r')) (hkeep _ hend), List.filter_nil,
      List.getLast?_append_of_ne_nil _ (List.cons_ne_nil _ _)] at hd
    exact Option.some.inj hd ▸ hend
  · rw [hcons]
    exact List.cons_ne_nil _ _

/-- The characters of the texts. -/
def textLength (cues : List Cue) : ℕ := (cues.map (·.text.length)).sum

theorem textLength_append (a b : List Cue) : textLength (a ++ b) = textLength a + textLength b := by
  simp only [textLength, List.map_append, List.sum_append]

theorem textLength_flatMap (f : Cue → List Cue) (l : List Cue) :
    textLength (l.flatMap f) = (l.map fun cue => textLength (f cue)).sum := by
  induction l with
  | nil => rfl
  | cons cue l ih => rw [List.flatMap_cons, List.map_cons, List.sum_cons, ← ih, textLength_append]

theorem textLength_filter (l : List Cue) : textLength (l.filter (0 < ·.endMs)) =
    (l.map fun cue => if 0 < cue.endMs then cue.text.length else 0).sum := by
  induction l with
  | nil => rfl
  | cons cue l ih =>
    rw [List.map_cons, List.sum_cons, ← ih, List.filter_cons]
    by_cases hpos : 0 < cue.endMs
    · rw [if_pos (decide_eq_true hpos), if_pos hpos]
      rfl
    · rw [if_neg (by simpa using hpos), if_neg hpos, Nat.zero_add]

/-- What is read of the blocks of a written cue. -/
def readCue (start stop : ℕ) (text : Text) : List Cue :=
  (blocks (timing start stop ++ '\n' :: removeChar '\r' text)).filterMap vttBlock

theorem textLength_filterMap_le {bs : List Text} (h : ∀ b ∈ bs, Tidy b ∧ '\r' ∉ b) :
    textLength (bs.filterMap vttBlock) ≤ (bs.map List.length).sum := by
  induction bs with
  | nil => exact Nat.le_refl _
  | cons b bs ih =>
    obtain ⟨hb, hrest⟩ := List.forall_mem_cons.mp h
    have hle := ih hrest
    rw [List.map_cons, List.sum_cons]
    cases hread : vttBlock b with
    | none =>
      rw [List.filterMap_cons_none hread]
      omega
    | some cue =>
      have hlength := vttBlock_length hb.1 hb.2 hread
      rw [List.filterMap_cons_some hread, textLength, List.map_cons, List.sum_cons, ← textLength]
      omega

/-- The blocks of a written cue: the first has its times. -/
theorem readCue_eq {start stop : ℕ} (hstart : start < 2 ^ 64) (hstop : stop < 2 ^ 64) {t : Text}
    (h : Cleaned t) : ∃ c first rest, blocks (removeChar '\r' t) = (c :: first) :: rest ∧
      isWhitespace c = false ∧ (∀ b ∈ (c :: first) :: rest, Tidy b ∧ '\r' ∉ b) ∧
      readCue start stop t =
        (makeCue (some start) (some stop) (trimEnd (c :: first))).toList ++ rest.filterMap vttBlock := by
  have hclean := h.removeReturn
  obtain ⟨c, y, hy⟩ := List.exists_cons_of_ne_nil hclean.some
  have hc : isWhitespace c = false := hclean.trimmed.first c (by rw [hy]; rfl)
  have hbreak : c ≠ '\n' := by
    rintro rfl
    cases hc
  obtain ⟨first, rest, hblocks, hline⟩ :=
    blocks_line (x := timing start stop) (not_mem_timing (by decide) (by decide)) hbreak y
  have hreturn : '\r' ∉ removeChar '\r' t := by
    simp [removeChar]
  have hall : ∀ b ∈ blocks (removeChar '\r' t), Tidy b ∧ '\r' ∉ b := by
    refine blocks_all (P := fun b => Tidy b ∧ '\r' ∉ b) (fun a b hab => ?_) ⟨hclean.tidy, hreturn⟩
    obtain ⟨hleft, hright⟩ := hab.1.split (by decide)
    exact ⟨⟨hleft, fun hmem => hab.2 (List.mem_append_left _ hmem)⟩, hright,
      fun hmem => hab.2 (List.mem_append_right _ (List.mem_cons_of_mem _ hmem))⟩
  refine ⟨c, first, rest, by rw [hy, hblocks], hc, by rw [← hblocks, ← hy]; exact hall, ?_⟩
  have hfirst : Tidy (c :: first) ∧ '\r' ∉ c :: first :=
    hall _ (by rw [hy, hblocks]; exact List.mem_cons_self)
  have hbody : Body (trimEnd (c :: first)) := by
    refine ⟨hfirst.1.trimEnd, fun hmem => hfirst.2 ((trimEnd_isPrefix _).subset hmem), fun hlast => ?_⟩
    cases trimEnd_last _ _ hlast
  rw [readCue, hy, hline, List.filterMap_cons, vttBlock_timing hstart hstop hc hbody]
  cases makeCue (some start) (some stop) (trimEnd (c :: first)) <;> rfl

/-- A plain text is read back. -/
theorem readCue_plain {start stop : ℕ} (hstart : start < 2 ^ 64) (hstop : stop < 2 ^ 64) {t : Text}
    (h : Cleaned t) (hplain : Plain t) : readCue start stop t = [⟨start, stop, t⟩] := by
  obtain ⟨c, first, rest, hblocks, -, -, hread⟩ := readCue_eq hstart hstop h
  have hsame : removeChar '\r' t = t := by
    refine List.filter_eq_self.mpr fun d hd => decide_eq_true ?_
    rintro rfl
    exact hplain.noReturn hd
  rw [hsame, blocks_of_not_hasBlank hplain.noBlank] at hblocks
  obtain ⟨hfirst, rfl⟩ := List.cons.inj hblocks
  have hempty : t.isEmpty = false := List.isEmpty_eq_false_iff.mpr h.some
  rw [hread, ← hfirst, trimEnd_of_last h.trimmed.last]
  simp only [makeCue, Option.bind_eq_bind, Option.bind_some,
    cleanCueText_eq h.tidy h.trimmed hplain.noEscape, hempty, Bool.false_eq_true, if_false]
  rfl

/-- Of any other text, less is read back than was written. -/
theorem readCue_weight {start stop : ℕ} (hstart : start < 2 ^ 64) (hstop : stop < 2 ^ 64) {t : Text}
    (h : Cleaned t) : textLength (readCue start stop t) ≤ t.length ∧
      (textLength (readCue start stop t) = t.length → Plain t) := by
  obtain ⟨c, first, rest, hblocks, hc, hall, hread⟩ := readCue_eq hstart hstop h
  obtain ⟨hfirst, hrest⟩ := List.forall_mem_cons.mp hall
  have hsum := length_blocks (removeChar '\r' t)
  rw [hblocks] at hsum
  simp only [List.map_cons, List.sum_cons, List.length_cons] at hsum
  have htail := textLength_filterMap_le hrest
  have hremove : (removeChar '\r' t).length ≤ t.length := List.length_filter_le _ _
  have hclean := length_cleanCueText_le hfirst.1.trimEnd
  have htrim := (trimEnd_isPrefix (c :: first)).length_le
  rw [List.length_cons] at htrim
  have hhead : textLength (makeCue (some start) (some stop) (trimEnd (c :: first))).toList ≤
      (cleanCueText (trimEnd (c :: first))).length := by
    cases hmake : makeCue (some start) (some stop) (trimEnd (c :: first)) with
    | none => exact Nat.zero_le _
    | some cue =>
      have htext := makeCue_some hmake
      simp [textLength, htext]
  have hwhole : textLength (readCue start stop t) =
      textLength (makeCue (some start) (some stop) (trimEnd (c :: first))).toList +
        textLength (rest.filterMap vttBlock) := by
    rw [hread, textLength_append]
  refine ⟨by omega, fun heq => ?_⟩
  have hreturn : '\r' ∉ t := by
    intro hmem
    have hlt : (removeChar '\r' t).length < t.length :=
      List.length_filter_lt_length_iff_exists.mpr ⟨'\r', hmem, by decide⟩
    omega
  have hsame : removeChar '\r' t = t := by
    refine List.filter_eq_self.mpr fun d hd => decide_eq_true ?_
    rintro rfl
    exact hreturn hd
  have hblank : hasBlank t = false := by
    by_contra hblank
    have hmany := blocks_of_hasBlank (Bool.not_eq_false _ ▸ hblank)
    rw [← hsame, hblocks, List.length_cons] at hmany
    omega
  refine ⟨hblank, hreturn, ?_⟩
  by_contra hescape
  rw [hsame, blocks_of_not_hasBlank hblank] at hblocks
  obtain ⟨hone, rfl⟩ := List.cons.inj hblocks
  have hlt := length_cleanCueText_lt h.tidy (Bool.not_eq_false _ ▸ hescape)
  rw [← hone, trimEnd_of_last h.trimmed.last] at hhead
  have hzero : textLength (List.filterMap vttBlock []) = 0 := rfl
  rw [← hone, trimEnd_of_last h.trimmed.last] at hwhole
  omega

/-! ## All cues -/

/-- What is read of one cue of the written text. -/
def readBack (shift : ℤ) (cue : Cue) : List Cue :=
  if shiftMs cue.endMs shift ≤ 0 then []
  else readCue (shiftMs cue.startMs shift).toNat (shiftMs cue.endMs shift).toNat cue.text

theorem removeReturn_eq {s : Text} (h : '\r' ∉ s) : removeChar '\r' s = s := by
  refine List.filter_eq_self.mpr fun d hd => decide_eq_true ?_
  rintro rfl
  exact h hd

theorem removeReturn_writeCue (start stop : ℕ) (text : Text) :
    removeChar '\r' (writeCue start stop text) =
      timing start stop ++ '\n' :: removeChar '\r' text ++ ['\n', '\n'] := by
  have htiming : removeChar '\r' (timing start stop) = timing start stop :=
    removeReturn_eq (not_mem_timing (by decide) (by decide))
  have hwrite : writeCue start stop text = timing start stop ++ ('\n' :: (text ++ ['\n', '\n'])) := by
    simp only [writeCue, timing, List.append_assoc, List.cons_append]
  have hcons : removeChar '\r' ('\n' :: (text ++ ['\n', '\n'])) =
      '\n' :: (removeChar '\r' text ++ ['\n', '\n']) := by
    rw [removeChar, List.filter_cons_of_pos (by decide), List.filter_append]
    rfl
  rw [hwrite, removeChar, List.filter_append, ← removeChar, ← removeChar, htiming, hcons,
    List.append_assoc]
  rfl

/-- The blocks of the cues, one after the other. -/
theorem filterMap_blocks (shift : ℤ) {cues : List Cue} (h : ∀ cue ∈ cues, Cleaned cue.text) :
    (blocks (cues.flatMap fun cue => removeChar '\r' (cuePiece shift cue))).filterMap vttBlock =
      cues.flatMap (readBack shift) := by
  induction cues with
  | nil => rfl
  | cons cue cues ih =>
    obtain ⟨hcue, hrest⟩ := List.forall_mem_cons.mp h
    rw [List.flatMap_cons, List.flatMap_cons, ← ih hrest]
    unfold cuePiece readBack
    dsimp only
    split_ifs with hdropped
    · rfl
    · have hlast : (timing (shiftMs cue.startMs shift).toNat (shiftMs cue.endMs shift).toNat ++
          '\n' :: removeChar '\r' cue.text).getLast? ≠ some '\n' := by
        have hclean := hcue.removeReturn
        rw [List.getLast?_append_of_ne_nil _ (List.cons_ne_nil _ _)]
        obtain ⟨c, y, hy⟩ := List.exists_cons_of_ne_nil hclean.some
        rw [hy, List.getLast?_cons_cons, ← hy]
        intro hbreak
        cases hclean.trimmed.last _ hbreak
      rw [removeReturn_writeCue, List.append_assoc, List.cons_append, List.cons_append,
        List.nil_append, blocks_append hlast, List.filterMap_append, readCue]

/-- The cues are read one by one. -/
theorem parseVtt_toVtt (shift : ℤ) {cues : List Cue} (h : ∀ cue ∈ cues, Cleaned cue.text) :
    parseVtt (toVtt cues shift) = cues.flatMap (readBack shift) := by
  have hremove : removeChar '\r' (toVtt cues shift) = lit "WEBVTT" ++ '\n' :: '\n' ::
      cues.flatMap fun cue => removeChar '\r' (cuePiece shift cue) := by
    rw [toVtt, removeChar, List.filter_append, List.filter_flatMap]
    rfl
  have hheader : vttBlock (lit "WEBVTT") = none := rfl
  rw [parseVtt, hremove, blocks_append (by decide), List.filterMap_append, filterMap_blocks shift h]
  have hfirst : (blocks (lit "WEBVTT")).filterMap vttBlock = [] := rfl
  rw [hfirst, List.nil_append]

theorem shiftMs_eq (ms : ℕ) (shift : ℤ) : shiftMs ms shift = Int.bmod (ms + shift) (2 ^ 64) :=
  Int.bmod_add_bmod

/-- A sum of 64 bits is exact. -/
theorem shiftMs_of_fits {ms : ℕ} {shift : ℤ} (hlow : -2 ^ 63 ≤ ms + shift) (hhigh : ms + shift < 2 ^ 63) :
    shiftMs ms shift = ms + shift := by
  rw [shiftMs_eq]
  exact Int.bmod_eq_of_le (by omega) (by omega)

/-- Any other wraps around, once. -/
theorem shiftMs_of_over {ms : ℕ} {shift : ℤ} (hlow : 2 ^ 63 ≤ ms + shift)
    (hhigh : ms + shift < 2 ^ 64 + 2 ^ 63) : shiftMs ms shift = ms + shift - 2 ^ 64 := by
  rw [shiftMs_eq, ← Int.sub_bmod_right]
  exact Int.bmod_eq_of_le (by omega) (by omega)

/-! ## The cues of a file -/

/-- What a parser makes: the text was cleaned, and the times are numbers of 64 bits. -/
structure CueOk (cue : Cue) : Prop where
  text : Cleaned cue.text
  start : cue.startMs < 2 ^ 64
  stop : cue.endMs < 2 ^ 64

theorem makeCue_ok {start stop : Option ℕ} (hstart : ∀ n ∈ start, n < 2 ^ 64)
    (hstop : ∀ n ∈ stop, n < 2 ^ 64) {text : Text} {cue : Cue}
    (h : makeCue start stop text = some cue) : CueOk cue := by
  simp only [makeCue, Option.bind_eq_bind, Option.bind_eq_some_iff] at h
  obtain ⟨s, hs, e, he, h⟩ := h
  split_ifs at h with hempty
  obtain rfl := Option.some.inj h
  exact ⟨cleanCueText_cleaned fun hnil => hempty (List.isEmpty_iff.mpr hnil), hstart s hs, hstop e he⟩

theorem timeMs_lt (h m s ms : ℕ) : timeMs h m s ms < 2 ^ 64 := Nat.mod_lt _ (by decide)

theorem parseTimestamp_lt {s : Text} : ∀ n ∈ parseTimestamp s, n < 2 ^ 64 := by
  intro n hn
  simp only [parseTimestamp, Option.bind_eq_bind, Option.mem_def, Option.bind_eq_some_iff] at hn
  obtain ⟨parts, -, ms, -, _, -, hn⟩ := hn
  split at hn
  · simp only [Option.bind_eq_some_iff] at hn
    obtain ⟨_, -, _, -, _, -, hn⟩ := hn
    exact Option.some.inj hn ▸ timeMs_lt _ _ _ _
  · simp only [Option.bind_eq_some_iff] at hn
    obtain ⟨_, -, _, -, hn⟩ := hn
    exact Option.some.inj hn ▸ timeMs_lt _ _ _ _
  · cases hn

theorem assTs_lt {s : Text} : ∀ n ∈ assTs s, n < 2 ^ 64 := by
  intro n hn
  simp only [assTs, Option.bind_eq_bind, Option.mem_def, Option.bind_eq_some_iff] at hn
  obtain ⟨parts, -, cc, -, hn⟩ := hn
  split at hn
  · simp only [Option.bind_eq_some_iff] at hn
    obtain ⟨_, -, _, -, _, -, hn⟩ := hn
    exact Option.some.inj hn ▸ timeMs_lt _ _ _ _
  · cases hn

theorem srtBlock_ok {block : Text} {cue : Cue} (h : srtBlock block = some cue) : CueOk cue := by
  unfold srtBlock at h
  split at h
  · cases h
  · obtain ⟨_, -, h⟩ := Option.bind_eq_some_iff.mp h
    exact makeCue_ok parseTimestamp_lt parseTimestamp_lt h

theorem vttBlock_ok {block : Text} {cue : Cue} (h : vttBlock block = some cue) : CueOk cue := by
  unfold vttBlock at h
  dsimp only at h
  split_ifs at h
  split at h
  · cases h
  · obtain ⟨_, -, h⟩ := Option.bind_eq_some_iff.mp h
    exact makeCue_ok parseTimestamp_lt parseTimestamp_lt h

theorem assLine_ok (u : Unicode) {st : ScriptState × List Cue} (h : ∀ cue ∈ st.2, CueOk cue)
    (line : Text) : ∀ cue ∈ (assLine u st line).2, CueOk cue := by
  unfold assLine
  dsimp only
  split
  · exact h
  split
  · exact h
  split
  · exact h
  split
  · exact h
  split
  · exact h
  · intro cue hcue
    rcases List.mem_append.mp hcue with hcue | hcue
    · exact h cue hcue
    · have hmade := Option.mem_toList.mp hcue
      simp only [assCue, Option.bind_eq_bind, Option.mem_def, Option.bind_eq_some_iff] at hmade
      obtain ⟨_, -, _, -, _, -, hmade⟩ := hmade
      exact makeCue_ok assTs_lt assTs_lt hmade

/-- Every cue of a file was cleaned and has times of 64 bits. -/
theorem parse_cues {u : Unicode} {format content : Text} {cues : List Cue}
    (h : parse u format content = .ok cues) : ∀ cue ∈ cues, CueOk cue := by
  have hblocks : ∀ {f : Text → Option Cue} {bs : List Text},
      (∀ b cue, f b = some cue → CueOk cue) → ∀ cue ∈ bs.filterMap f, CueOk cue := by
    intro f bs hf cue hcue
    obtain ⟨b, -, hb⟩ := List.mem_filterMap.mp hcue
    exact hf b cue hb
  have hlines : ∀ (ls : List Text) (st : ScriptState × List Cue), (∀ cue ∈ st.2, CueOk cue) →
      ∀ cue ∈ (ls.foldl (assLine u) st).2, CueOk cue := by
    intro ls
    induction ls with
    | nil => exact fun st hst => hst
    | cons line ls ih => exact fun st hst => ih _ (assLine_ok u hst line)
  unfold parse at h
  split_ifs at h
  · obtain rfl := Except.ok.inj h
    exact hblocks fun _ _ => srtBlock_ok
  · obtain rfl := Except.ok.inj h
    intro cue hcue
    exact hlines _ _ (by simp) cue ((List.mem_insertionSort _).mp hcue)
  · obtain rfl := Except.ok.inj h
    exact hblocks fun _ _ => vttBlock_ok

/-- A cue that can be written as it is. -/
structure Printable (cue : Cue) : Prop where
  start : cue.startMs < 2 ^ 63
  stop : cue.endMs < 2 ^ 63
  text : Plain cue.text

/-- A start that is no number of 63 bits is written as zero. -/
def asWritten (cue : Cue) : Cue := { cue with startMs := (shiftMs cue.startMs 0).toNat }

theorem shiftMs_zero_of_lt {ms : ℕ} (h : ms < 2 ^ 63) : shiftMs ms 0 = ms := by
  rw [shiftMs_of_fits (by omega) (by omega), Int.add_zero]

theorem shiftMs_zero_of_ge {ms : ℕ} (h : 2 ^ 63 ≤ ms) (hlt : ms < 2 ^ 64) : shiftMs ms 0 < 0 := by
  rw [shiftMs_of_over (by omega) (by omega)]
  omega

theorem toNat_shiftMs_lt (ms : ℕ) (shift : ℤ) : (shiftMs ms shift).toNat < 2 ^ 64 := by
  have hlt : shiftMs ms shift < 2 ^ 63 := by
    rw [shiftMs_eq]
    exact Int.bmod_lt (by decide)
  omega

/-- Of a cue with a positive end, all the text is read back exactly if it is plain and the end fits. -/
theorem readBack_weight {cue : Cue} (h : CueOk cue) :
    textLength (readBack 0 cue) ≤ (if 0 < cue.endMs then cue.text.length else 0) ∧
      (textLength (readBack 0 cue) = (if 0 < cue.endMs then cue.text.length else 0) →
        0 < cue.endMs → cue.endMs < 2 ^ 63 ∧ Plain cue.text) := by
  have hsome := List.length_pos_of_ne_nil h.text.some
  have hweight := readCue_weight (toNat_shiftMs_lt cue.startMs 0) (toNat_shiftMs_lt cue.endMs 0) h.text
  unfold readBack
  by_cases hpos : 0 < cue.endMs
  · rw [if_pos hpos]
    by_cases hfits : cue.endMs < 2 ^ 63
    · have hkept : ¬shiftMs cue.endMs 0 ≤ 0 := by
        rw [shiftMs_zero_of_lt hfits]
        omega
      rw [if_neg hkept]
      exact ⟨hweight.1, fun heq _ => ⟨hfits, hweight.2 heq⟩⟩
    · have hdropped := shiftMs_zero_of_ge (Nat.not_lt.mp hfits) h.stop
      rw [if_pos hdropped.le]
      refine ⟨Nat.zero_le _, fun heq => ?_⟩
      have hzero : textLength [] = 0 := rfl
      omega
  · have hzero : shiftMs cue.endMs 0 ≤ 0 := by
      rw [shiftMs_zero_of_lt (by omega)]
      omega
    rw [if_pos hzero, if_neg hpos]
    exact ⟨Nat.le_refl _, fun _ hpos' => absurd hpos' hpos⟩

/-- So a plain one is read back, but for its start. -/
theorem readBack_plain {cue : Cue} (h : CueOk cue)
    (hplain : 0 < cue.endMs → cue.endMs < 2 ^ 63 ∧ Plain cue.text) :
    readBack 0 cue = if 0 < cue.endMs then [asWritten cue] else [] := by
  unfold readBack
  by_cases hpos : 0 < cue.endMs
  · obtain ⟨hfits, htext⟩ := hplain hpos
    have hstop := shiftMs_zero_of_lt hfits
    have hkept : ¬shiftMs cue.endMs 0 ≤ 0 := by
      rw [hstop]
      omega
    rw [if_pos hpos, if_neg hkept,
      readCue_plain (toNat_shiftMs_lt cue.startMs 0) (toNat_shiftMs_lt cue.endMs 0) h.text htext, hstop,
      Int.toNat_natCast]
    rfl
  · have hzero : shiftMs cue.endMs 0 ≤ 0 := by
      rw [shiftMs_zero_of_lt (by omega)]
      omega
    rw [if_pos hzero, if_neg hpos]

/-- The cues with a positive end are read back exactly if they can be written as they are. -/
theorem parseVtt_toVtt_iff {cues : List Cue} (h : ∀ cue ∈ cues, CueOk cue) :
    parseVtt (toVtt cues 0) = cues.filter (0 < ·.endMs) ↔
      ∀ cue ∈ cues, 0 < cue.endMs → Printable cue := by
  have hread : ∀ l : List Cue, (∀ cue ∈ l, CueOk cue) →
      (∀ cue ∈ l, 0 < cue.endMs → cue.endMs < 2 ^ 63 ∧ Plain cue.text) →
      l.flatMap (readBack 0) = (l.filter (0 < ·.endMs)).map asWritten := by
    intro l
    induction l with
    | nil => exact fun _ _ => rfl
    | cons cue l ih =>
      intro hok hplain
      obtain ⟨hcue, hrest⟩ := List.forall_mem_cons.mp hok
      obtain ⟨hcue', hrest'⟩ := List.forall_mem_cons.mp hplain
      rw [List.flatMap_cons, readBack_plain hcue hcue', ih hrest hrest', List.filter_cons]
      by_cases hpos : 0 < cue.endMs
      · rw [if_pos hpos, if_pos (decide_eq_true hpos), List.singleton_append, List.map_cons]
      · rw [if_neg hpos, if_neg (by simpa using hpos), List.nil_append]
  rw [parseVtt_toVtt 0 fun cue hcue => (h cue hcue).text]
  constructor
  · intro heq
    have htotal := congrArg textLength heq
    rw [textLength_flatMap, textLength_filter] at htotal
    have hplain : ∀ cue ∈ cues, 0 < cue.endMs → cue.endMs < 2 ^ 63 ∧ Plain cue.text := by
      intro cue hcue
      refine (readBack_weight (h cue hcue)).2 ?_
      by_contra hne
      have hlt := lt_of_le_of_ne (readBack_weight (h cue hcue)).1 hne
      have := List.sum_lt_sum _ _ (fun c hc => (readBack_weight (h c hc)).1) ⟨cue, hcue, hlt⟩
      omega
    rw [hread cues h hplain] at heq
    intro cue hcue hpos
    have hsame : ∀ l : List Cue, l.map asWritten = l → ∀ c ∈ l, asWritten c = c := by
      intro l
      induction l with
      | nil => exact fun _ c hc => absurd hc List.not_mem_nil
      | cons c l ih =>
        intro hl
        obtain ⟨hc, hrest⟩ := List.cons.inj hl
        exact List.forall_mem_cons.mpr ⟨hc, ih hrest⟩
    have hstart := congrArg Cue.startMs (hsame _ heq cue (List.mem_filter.mpr ⟨hcue, decide_eq_true hpos⟩))
    refine ⟨?_, (hplain cue hcue hpos).1, (hplain cue hcue hpos).2⟩
    by_contra hover
    have hneg := shiftMs_zero_of_ge (Nat.not_lt.mp hover) (h cue hcue).start
    rw [asWritten] at hstart
    dsimp only at hstart
    omega
  · intro hprint
    rw [hread cues h fun cue hcue hpos => ⟨(hprint cue hcue hpos).stop, (hprint cue hcue hpos).text⟩]
    refine (List.map_congr_left fun cue hcue => ?_).trans (List.map_id _)
    obtain ⟨hmem, hpos⟩ := List.mem_filter.mp hcue
    have hstart := shiftMs_zero_of_lt (hprint cue hmem (of_decide_eq_true hpos)).start
    rw [asWritten, hstart, Int.toNat_natCast, id]

end Kahawai.Media.Subtitles
