import Kahawai.Core.Lines

/-!
# The text of a cue

`clean_cue_text` (`crates/kahawai-media/src/subtitles.rs`, lines 106–151): override blocks and most
tags are dropped, and the line breaks of ASS become line breaks.

Results:
* `cleanCueText_tidy`: what is left has no override block, and no tag but the three that are kept.
* `length_cleanCueText_le`: cleaning such a text again adds nothing.
* `cleanCueText_eq_iff`: it changes nothing exactly if no backslash stands before `N`, `n` or `h`.
-/

namespace Kahawai.Media.Subtitles

open Kahawai.Core Kahawai.Core.Text

/-! ## Model -/

/-- Where the scan stands: in the text, in an override block, or in a tag. -/
inductive Mode
  | text
  | override
  | tag (tag : Text)

/-- `i`, `b` and `u`, opening or closing. -/
def isKept (tag : Text) : Bool :=
  let name := trimStartMatches (· = '/') tag
  decide (name = ['i'] ∨ name = ['b'] ∨ name = ['u'])

/-- A tag that is kept is written again, also where it was not closed. -/
def writeTag (tag : Text) : Text := if isKept tag then '<' :: tag ++ ['>'] else []

/-- The loop of `clean_cue_text` (lines 111–149). -/
def scan : Mode → Text → Text
  | .text, [] => []
  | .text, c :: s =>
    if c = '{' then scan .override s
    else if c = '<' then scan (.tag []) s
    else if c = '\\' then
      match s with
      | [] => [c]
      | d :: s' =>
        if d = 'N' ∨ d = 'n' then '\n' :: scan .text s'
        else if d = 'h' then ' ' :: scan .text s'
        else c :: scan .text (d :: s')
    else c :: scan .text s
  | .override, [] => []
  | .override, c :: s => if c = '}' then scan .text s else scan .override s
  | .tag tag, [] => writeTag tag
  | .tag tag, c :: s => if c = '>' then writeTag tag ++ scan .text s else scan (.tag (tag ++ [c])) s

/-- `clean_cue_text`. -/
def cleanCueText (text : Text) : Text := trim (scan .text text)

/-! ## Tidy texts -/

/-- A text with no override block, and no tag but those that are kept. -/
inductive Tidy : Text → Prop
  | nil : Tidy []
  | char {c : Char} {s : Text} (brace : c ≠ '{') (angle : c ≠ '<') (rest : Tidy s) : Tidy (c :: s)
  | tag {t s : Text} (kept : isKept t = true) (rest : Tidy s) : Tidy ('<' :: t ++ '>' :: s)

/-- A kept tag is made of these characters. -/
theorem isKept_chars {t : Text} (h : isKept t = true) :
    ∀ c ∈ t, c = '/' ∨ c = 'i' ∨ c = 'b' ∨ c = 'u' := by
  intro c hc
  rw [← List.takeWhile_append_dropWhile (p := (· = '/')) (l := t), List.mem_append] at hc
  rcases hc with hc | hc
  · exact .inl (by simpa using List.mem_takeWhile_imp hc)
  · have hname : t.dropWhile (· = '/') = ['i'] ∨ t.dropWhile (· = '/') = ['b'] ∨
        t.dropWhile (· = '/') = ['u'] := of_decide_eq_true h
    rcases hname with hname | hname | hname
    all_goals
      rw [hname, List.mem_singleton] at hc
      simp [hc]

theorem isKept_not_mem {t : Text} (h : isKept t = true) {c : Char} (hslash : c ≠ '/') (hi : c ≠ 'i')
    (hb : c ≠ 'b') (hu : c ≠ 'u') : c ∉ t := by
  intro hc
  rcases isKept_chars h c hc with heq | heq | heq | heq
  · exact hslash heq
  · exact hi heq
  · exact hb heq
  · exact hu heq

theorem tidy_writeTag (tag : Text) {s : Text} (h : Tidy s) : Tidy (writeTag tag ++ s) := by
  unfold writeTag
  split_ifs with hkept
  · rw [List.append_assoc]
    exact .tag hkept h
  · exact h

/-- Whatever is scanned, the result is tidy. -/
theorem scan_tidy (m : Mode) (s : Text) : Tidy (scan m s) := by
  fun_induction scan m s with
  | case1 => exact .nil
  | case2 s ih => exact ih
  | case3 s _ ih => exact ih
  | case4 => exact .char (by decide) (by decide) .nil
  | case5 d s hd _ _ ih => exact .char (by decide) (by decide) ih
  | case6 s _ _ _ ih => exact .char (by decide) (by decide) ih
  | case7 d s _ _ _ _ ih => exact .char (by decide) (by decide) ih
  | case8 c s hbrace hangle _ ih => exact .char hbrace hangle ih
  | case9 => exact .nil
  | case10 s ih => exact ih
  | case11 c s _ ih => exact ih
  | case12 tag =>
    have h := tidy_writeTag tag .nil
    rwa [List.append_nil] at h
  | case13 tag s ih => exact tidy_writeTag tag ih
  | case14 tag c s _ ih => exact ih

theorem Tidy.append {a b : Text} (ha : Tidy a) (hb : Tidy b) : Tidy (a ++ b) := by
  induction ha with
  | nil => exact hb
  | char brace angle _ ih => exact .char brace angle ih
  | @tag t s kept _ ih =>
    have hcons : ('<' :: t ++ '>' :: s) ++ b = '<' :: t ++ '>' :: (s ++ b) := by simp
    rw [hcons]
    exact .tag kept ih

/-- A tag is not cut by a character that is in none. -/
theorem Tidy.split {c : Char} (hc : c ∉ ['<', '>', '/', 'i', 'b', 'u']) {a b : Text}
    (h : Tidy (a ++ c :: b)) : Tidy a ∧ Tidy b := by
  generalize hs : a ++ c :: b = s at h
  induction h generalizing a with
  | nil => exact absurd hs (List.append_ne_nil_of_right_ne_nil _ (List.cons_ne_nil _ _))
  | @char d s brace angle rest ih =>
    cases a with
    | nil =>
      obtain ⟨-, rfl⟩ := List.cons.inj hs
      exact ⟨.nil, rest⟩
    | cons d' a =>
      obtain ⟨rfl, hrest⟩ := List.cons.inj hs
      exact ⟨.char brace angle (ih hrest).1, (ih hrest).2⟩
  | @tag t s kept rest ih =>
    have htag : c ∉ '<' :: t ++ ['>'] := by
      simp only [List.mem_cons, List.not_mem_nil, or_false, not_or] at hc
      simp only [List.cons_append, List.mem_cons, List.mem_append, List.not_mem_nil, or_false, not_or]
      exact ⟨hc.1, isKept_not_mem kept hc.2.2.1 hc.2.2.2.1 hc.2.2.2.2.1 hc.2.2.2.2.2, hc.2.1⟩
    have hwhole : a ++ c :: b = ('<' :: t ++ ['>']) ++ s := by simpa using hs
    rcases List.append_eq_append_iff.mp hwhole with ⟨more, hmore, hrest⟩ | ⟨more, rfl, hrest⟩
    · cases more with
      | nil =>
        rw [List.append_nil] at hmore
        rw [← hmore] at hwhole
        have hsuffix := List.append_cancel_left hwhole
        have hb := ih (a := []) hsuffix
        refine ⟨?_, hb.2⟩
        rw [← hmore]
        simpa using Tidy.tag kept .nil
      | cons d more =>
        rw [List.cons_append] at hrest
        obtain ⟨rfl, -⟩ := List.cons.inj hrest
        exact absurd (hmore ▸ List.mem_append_right _ List.mem_cons_self) htag
    · have hpieces := ih hrest.symm
      refine ⟨?_, hpieces.2⟩
      simpa using Tidy.tag kept hpieces.1

/-- Every white space is in no tag. -/
theorem not_mem_tag {c : Char} (h : isWhitespace c = true) :
    c ∉ ['<', '>', '/', 'i', 'b', 'u'] := by
  intro hc
  simp only [List.mem_cons, List.not_mem_nil, or_false] at hc
  rcases hc with rfl | rfl | rfl | rfl | rfl | rfl <;> exact absurd h (by decide)

theorem Tidy.dropWhile {s : Text} (h : Tidy s) : Tidy (s.dropWhile isWhitespace) := by
  induction h with
  | nil => exact .nil
  | @char c s brace angle rest ih =>
    by_cases hc : isWhitespace c = true
    · rwa [List.dropWhile_cons_of_pos hc]
    · rw [List.dropWhile_cons_of_neg hc]
      exact .char brace angle rest
  | @tag t s kept rest ih =>
    rw [List.cons_append, List.dropWhile_cons_of_neg (by decide)]
    exact .tag kept rest

theorem Tidy.trimEnd {s : Text} (h : Tidy s) : Tidy (trimEnd s) := by
  induction s using List.reverseRecOn with
  | nil => exact h
  | append_singleton s c ih =>
    unfold Text.trimEnd trimEndMatches
    rw [List.reverse_concat]
    by_cases hc : isWhitespace c = true
    · rw [List.dropWhile_cons_of_pos hc]
      exact ih (h.split (not_mem_tag hc)).1
    · rw [List.dropWhile_cons_of_neg hc, List.reverse_cons, List.reverse_reverse]
      exact h

theorem Tidy.trim {s : Text} (h : Tidy s) : Tidy (trim s) := h.dropWhile.trimEnd

/-- What is left of a text has no override block, and no tag but those that are kept. -/
theorem cleanCueText_tidy (s : Text) : Tidy (cleanCueText s) := (scan_tidy .text s).trim

/-- Removing a character that is in no tag. -/
theorem Tidy.removeChar {c : Char} (hc : c ∉ ['<', '>', '/', 'i', 'b', 'u']) {s : Text}
    (h : Tidy s) : Tidy (removeChar c s) := by
  unfold Text.removeChar
  induction h with
  | nil => exact .nil
  | @char d s brace angle rest ih =>
    rw [List.filter_cons]
    split_ifs
    · exact .char brace angle ih
    · exact ih
  | @tag t s kept rest ih =>
    simp only [List.mem_cons, List.not_mem_nil, or_false, not_or] at hc
    have htag : t.filter (fun d => decide (d ≠ c)) = t := by
      refine List.filter_eq_self.mpr fun d hd => decide_eq_true ?_
      rintro rfl
      exact isKept_not_mem kept hc.2.2.1 hc.2.2.2.1 hc.2.2.2.2.1 hc.2.2.2.2.2 hd
    rw [List.cons_append, List.filter_cons_of_pos (by simpa using Ne.symm hc.1), List.filter_append,
      htag, List.filter_cons_of_pos (by simpa using Ne.symm hc.2.1)]
    exact .tag kept ih

/-! ## Cleaning again -/

/-- A backslash before one of the letters that stand for white space. -/
def hasEscape (s : Text) : Bool := hasPair (fun c d => c = '\\' && (d = 'N' || d = 'n' || d = 'h')) s

/-- One character of the text, and one of a tag. -/
theorem scan_cons (c : Char) (s : Text) :
    scan .text (c :: s) =
      (if c = '{' then scan .override s
      else if c = '<' then scan (.tag []) s
      else if c = '\\' then
        match s with
        | [] => [c]
        | d :: s' =>
          if d = 'N' ∨ d = 'n' then '\n' :: scan .text s'
          else if d = 'h' then ' ' :: scan .text s'
          else c :: scan .text (d :: s')
      else c :: scan .text s) ∧
      ∀ tag, scan (.tag tag) (c :: s) =
        if c = '>' then writeTag tag ++ scan .text s else scan (.tag (tag ++ [c])) s := by
  constructor
  · rw [scan.eq_def]
    rfl
  · intro tag
    rw [scan.eq_def]

theorem scan_char {c : Char} (hbrace : c ≠ '{') (hangle : c ≠ '<') (hslash : c ≠ '\\') (s : Text) :
    scan .text (c :: s) = c :: scan .text s := by
  rw [(scan_cons c s).1, if_neg hbrace, if_neg hangle, if_neg hslash]

theorem scan_inTag {t : Text} (h : '>' ∉ t) (acc s : Text) :
    scan (.tag acc) (t ++ '>' :: s) = writeTag (acc ++ t) ++ scan .text s := by
  induction t generalizing acc with
  | nil => rw [List.nil_append, (scan_cons _ _).2, if_pos rfl, List.append_nil]
  | cons c t ih =>
    rw [List.mem_cons, not_or] at h
    rw [List.cons_append, (scan_cons _ _).2, if_neg (Ne.symm h.1), ih h.2, List.append_assoc]
    rfl

theorem scan_kept {t : Text} (h : isKept t = true) (s : Text) :
    scan .text ('<' :: t ++ '>' :: s) = '<' :: t ++ '>' :: scan .text s := by
  have hclose : '>' ∉ t := isKept_not_mem h (by decide) (by decide) (by decide) (by decide)
  have hopen : scan .text ('<' :: (t ++ '>' :: s)) = scan (.tag []) (t ++ '>' :: s) := by
    rw [(scan_cons _ _).1]
    rfl
  rw [List.cons_append, hopen, scan_inTag hclose, List.nil_append, writeTag, if_pos h,
    List.append_assoc]
  rfl

theorem hasEscape_append {t : Text} (h : '\\' ∉ t) (s : Text) : hasEscape (t ++ s) = hasEscape s := by
  induction t with
  | nil => rfl
  | cons c t ih =>
    rw [List.mem_cons, not_or] at h
    rw [← ih h.2, List.cons_append]
    cases t ++ s with
    | nil => rfl
    | cons d rest => simp [hasEscape, hasPair, Ne.symm h.1]

/-- What a second scan makes of a tidy text: nothing else if there is no escape, and something
shorter if there is one. -/
structure Rescanned (s : Text) : Prop where
  le : (scan .text s).length ≤ s.length
  eq : hasEscape s = false → scan .text s = s
  lt : hasEscape s = true → (scan .text s).length < s.length

theorem Rescanned.cons {c : Char} {s : Text} (h : Rescanned s)
    (hscan : scan .text (c :: s) = c :: scan .text s) (hescape : hasEscape (c :: s) = hasEscape s) :
    Rescanned (c :: s) := by
  constructor
  · rw [hscan]
    exact Nat.succ_le_succ h.le
  · intro hno
    rw [hscan, h.eq (hescape ▸ hno)]
  · intro hyes
    rw [hscan]
    exact Nat.succ_lt_succ (h.lt (hescape ▸ hyes))

theorem Tidy.of_cons {c : Char} (hc : c ≠ '<') {s : Text} (h : Tidy (c :: s)) : Tidy s := by
  cases h with
  | char _ _ rest => exact rest
  | tag => exact absurd rfl hc

/-- An escape takes two characters and leaves one. -/
theorem Tidy.rescanned {s : Text} (h : Tidy s) : Rescanned s := by
  induction hn : s.length using Nat.strong_induction_on generalizing s with
  | _ n ih =>
  cases h with
  | nil => exact ⟨Nat.le_refl _, fun _ => rfl, fun h => by cases h⟩
  | @char c s brace angle rest =>
    have hrest : Rescanned s := ih s.length (by rw [← hn]; exact Nat.lt_succ_self _) rest rfl
    by_cases hslash : c = '\\'
    · subst hslash
      cases s with
      | nil => exact ⟨Nat.le_refl _, fun _ => rfl, fun h => by cases h⟩
      | cons d s =>
        by_cases hletter : d = 'N' ∨ d = 'n' ∨ d = 'h'
        · have hne : d ≠ '<' := by
            rcases hletter with rfl | rfl | rfl <;> decide
          have hshort : Rescanned s := ih s.length (by rw [← hn, List.length_cons, List.length_cons]; omega)
            (rest.of_cons hne) rfl
          have hescape : hasEscape ('\\' :: d :: s) = true := by
            rcases hletter with rfl | rfl | rfl <;> rfl
          have hlength : (scan .text ('\\' :: d :: s)).length = (scan .text s).length + 1 := by
            rcases hletter with rfl | rfl | rfl <;> simp [scan]
          have hle := hshort.le
          constructor
          · rw [hlength, List.length_cons, List.length_cons]
            omega
          · intro hno
            cases hescape.symm.trans hno
          · intro _
            rw [hlength, List.length_cons, List.length_cons]
            omega
        · simp only [not_or] at hletter
          refine hrest.cons ?_ ?_
          · rw [scan.eq_def]
            simp [hletter.1, hletter.2.1, hletter.2.2]
          · simp [hasEscape, hasPair, hletter.1, hletter.2.1, hletter.2.2]
    · refine hrest.cons (scan_char brace angle hslash s) ?_
      exact hasEscape_append (t := [c]) (by simpa using Ne.symm hslash) s
  | @tag t s kept rest =>
    have hrest : Rescanned s := ih s.length
      (by rw [← hn]; simp only [List.length_append, List.length_cons]; omega) rest rfl
    have htag : '\\' ∉ '<' :: t ++ ['>'] := by
      have := isKept_not_mem kept (c := '\\') (by decide) (by decide) (by decide) (by decide)
      simp [this]
    have hescape : hasEscape ('<' :: t ++ '>' :: s) = hasEscape s := by
      rw [← hasEscape_append htag s, List.append_assoc]
      rfl
    have hscan := scan_kept kept s
    refine ⟨?_, fun hno => ?_, fun hyes => ?_⟩
    · rw [hscan]
      simp only [List.length_append, List.length_cons]
      have := hrest.le
      omega
    · rw [hscan, hrest.eq (hescape ▸ hno)]
    · rw [hscan]
      simp only [List.length_append, List.length_cons]
      have := hrest.lt (hescape ▸ hyes)
      omega

/-- Cleaning a tidy text adds nothing. -/
theorem length_cleanCueText_le {s : Text} (h : Tidy s) : (cleanCueText s).length ≤ s.length :=
  (length_trim_le _).trans h.rescanned.le

theorem cleanCueText_eq {s : Text} (h : Tidy s) (hends : Trimmed s) (hescape : hasEscape s = false) :
    cleanCueText s = s := by
  rw [cleanCueText, h.rescanned.eq hescape, hends.trim_eq]

theorem length_cleanCueText_lt {s : Text} (h : Tidy s) (hescape : hasEscape s = true) :
    (cleanCueText s).length < s.length :=
  (length_trim_le _).trans_lt (h.rescanned.lt hescape)

/-- A text that was cleaned is left alone exactly if there is no escape in it. -/
theorem cleanCueText_eq_iff (s : Text) :
    cleanCueText (cleanCueText s) = cleanCueText s ↔ hasEscape (cleanCueText s) = false := by
  constructor
  · intro heq
    by_contra hescape
    have hlt := length_cleanCueText_lt (cleanCueText_tidy s) (Bool.not_eq_false _ ▸ hescape)
    rw [heq] at hlt
    exact Nat.lt_irrefl _ hlt
  · exact cleanCueText_eq (cleanCueText_tidy s) (trim_trimmed _)

end Kahawai.Media.Subtitles
