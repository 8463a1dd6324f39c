import Kahawai.Core.Episodes
import Kahawai.Core.Names.Slicing

/-!
# Series names and the slices their parser takes

`parse_episode` of `crates/kahawai-core/src/names.rs` and its markers with each slice, index and
operation on machine numbers checked. Positions in a text that is in memory are not: they are far
below the width of `usize`.

Results:
* `parseEpisodeChecked_eq`: every check passes, for every path, and the guess is that of
  `parseEpisode`.
-/

namespace Kahawai.Core.Names

open Text Lib Lib.Checked

/-! ## Model: markers -/

/-- `parse_sxxeyy` (lines 921–940). -/
def parseSxxeyyChecked (tok : Text) : Checked (Option (ℕ × ℕ × Option ℕ)) :=
  let t := trimMatches (fun c => !isAsciiAlphanumeric c) tok
  match stripPrefixChar (fun c => c = 's' || c = 'S') t with
  | none => .ok none
  | some rest =>
    match find (fun c => c = 'e' || c = 'E') rest with
    | none => .ok none
    | some ePos => do
      let (s, ePart) ← splitAt rest ePos
      let e ← sliceFrom ePart 1
      let eFirst := e.takeWhile isAsciiDigit
      if s.isEmpty || eFirst.isEmpty || !s.all isAsciiDigit then return none
      else
        match parseU32 eFirst with
        | none => return none
        | some first => do
          let tail ← sliceFrom e (byteLen eFirst)
          let tail := (stripPrefixChar (· = '-') tail).getD tail
          let tail := (stripPrefixChar (fun c => c = 'e' || c = 'E') tail).getD tail
          let last := (parseU32 (tail.takeWhile isAsciiDigit)).filter (· > first)
          return (parseU32 s).map fun season => (season, first, last)

/-- One character of `split_glued_marker` (lines 767–775). -/
def gluedCharChecked (chars : Text) (i : ℕ) (c : Char) : Checked Char :=
  if c = '-' ∧ 0 < i then do
    let rest ← slice chars (i + 1) chars.length
    let marker ← sliceTo rest ((find (· = ' ') rest).getD (byteLen rest))
    let lettered ← parseSxxeyyChecked marker
    return if lettered.isSome || (parseNnxnn marker).isSome then ' ' else c
  else .ok c

/-- `split_glued_marker` (lines 763–778). -/
def splitGluedMarkerChecked (s : Text) : Checked Text :=
  s.zipIdx.mapM fun (c, i) => gluedCharChecked s i c

/-- The test of `join_split_marker` (line 797). -/
def isSplitMarkerChecked (toks : List Text) (i : ℕ) : Checked Bool :=
  if i + 1 < toks.length then do
    if isSeasonToken (← index toks i) then return isEpisodeToken (← index toks (i + 1))
    else return false
  else .ok false

/-- The loop of `join_split_marker` (lines 796–804): what it pushes from `i` on. -/
def joinSplitLoopChecked : (fuel : ℕ) → List Text → (i : ℕ) → Checked (List Text)
  | 0, _, _ => .error .unfinished
  | fuel + 1, toks, i =>
    if i < toks.length then do
      if ← isSplitMarkerChecked toks i then
        let joined := (← index toks i) ++ (← index toks (i + 1))
        return joined :: (← joinSplitLoopChecked fuel toks (i + 2))
      else
        let tok ← index toks i
        return tok :: (← joinSplitLoopChecked fuel toks (i + 1))
    else .ok []

/-- `join_split_marker` (lines 792–806). -/
def joinSplitMarkerChecked (s : Text) : Checked Text := do
  let toks := splitWhitespace s
  return join (lit " ") (← joinSplitLoopChecked (toks.length + 1) toks 0)

/-- `u8::is_ascii_digit`. -/
def isDigitByte (b : UInt8) : Bool := 48 ≤ b && b ≤ 57

/-- `u8::is_ascii_alphanumeric`. -/
def isAlphanumericByte (b : UInt8) : Bool :=
  (97 ≤ b && b ≤ 122) || (65 ≤ b && b ≤ 90) || isDigitByte b

/-- The six bytes of a marker `s##e##` (lines 880–886). -/
def isTrailingMarkerChecked (m : List UInt8) : Checked Bool := do
  return ((← index m 0) ||| 0x20) == 0x73 && isDigitByte (← index m 1) &&
    isDigitByte (← index m 2) && ((← index m 3) ||| 0x20) == 0x65 && isDigitByte (← index m 4) &&
    isDigitByte (← index m 5)

/-- `split_trailing_marker` (lines 875–898). -/
def splitTrailingMarkerChecked (s : Text) : Checked Text :=
  let b := Utf8.encode s
  if b.length < 7 then .ok s
  else do
    let cut ← sub b.length 6
    if ← isTrailingMarkerChecked (← slice b cut b.length) then
      if isAlphanumericByte (← index b (← sub b.length 7)) then
        return (← sliceTo s cut) ++ ' ' :: (← sliceFrom s cut)
      else return s
    else return s

/-- The numbers of a token of three digits (lines 846–858); `more` when a token follows. -/
def compactNumbersChecked (t : Text) (more : Bool) : Checked (Option (ℕ × ℕ)) :=
  let b := Utf8.encode t
  if b.length ≠ 3 || !b.all isDigitByte then .ok none
  else do
    if (← index b 0) = 48 then return none
    else if !more then return none
    else
      let s ← sub (← index b 0).toNat 48
      let tens ← mul 8 (← sub (← index b 1).toNat 48) 10
      let e ← add 8 tens (← sub (← index b 2).toNat 48)
      return some (s, e)

/-- `parse_scene_compact` (lines 831–862). -/
def parseSceneCompactChecked (stem : Text) (tokens : List Text) : Checked (Option (ℕ × ℕ × ℕ)) :=
  if stem.any isWhitespace || stem.any (fun c => c = '[' || c = ']' || c = '(' || c = ')') ||
      !stem.contains '.' then .ok none
  else if !(((split (· = '.') stem).getLast?.getD []).contains '-') then .ok none
  else
    (tokens.zipIdx.drop 1).findSomeM? fun (t, i) => do
      let numbers ← compactNumbersChecked t (i + 1 < tokens.length)
      return numbers.map fun (s, e) => (i, s, e)

/-! ## Model: the parser -/

/-- The first lettered marker among the tokens (lines 360–364). -/
def letteredMarkerChecked (tokens : List Text) : Checked (Option (ℕ × ℕ × ℕ × Option ℕ)) :=
  tokens.zipIdx.findSomeM? fun (t, i) => do
    let lettered ← parseSxxeyyChecked t
    return (lettered.or ((parseNnxnn t).map fun (s, e) => (s, e, none))).map
      fun (s, e, last) => (i, s, e, last)

/-- The marker of the name (lines 360–373). -/
def seriesMarkerChecked (stem : Text) (tokens : List Text) :
    Checked (Option (ℕ × ℕ × ℕ × Option ℕ)) := do
  match ← letteredMarkerChecked tokens with
  | some found => return some found
  | none =>
    let compact ← parseSceneCompactChecked stem tokens
    return compact.map fun (i, s, e) => (i, s, e, none)

/-- The tokens of the name (lines 352–359). -/
def seriesTokensChecked (stem : Text) : Checked (List Text) := do
  let cleaned ← splitGluedMarkerChecked (blankSeparators stem)
  let cleaned ← joinSplitMarkerChecked cleaned
  let cleaned ← splitTrailingMarkerChecked cleaned
  return splitWhitespace cleaned

/-- `parse_episode` (lines 348–411). -/
def parseEpisodeChecked (pathRel : Text) : Checked (Option EpisodeGuess) := do
  let parts := components pathRel
  let stem := fileStem (parts.getLast?.getD [])
  let tokens ← seriesTokensChecked stem
  match ← seriesMarkerChecked stem tokens with
  | none => return none
  | some (idx, season, episode, episodeEnd) =>
    let showDir := (parts.reverse.drop 1).find? fun d => !isSeasonDir d
    let showGuess ← match showDir with
      | some dir => parseMovieDirChecked dir
      | none => do parseMovieDirChecked (join (lit " ") (← slice tokens 0 idx))
    let showTitle := if showGuess.title.isEmpty then lit "Unknown Show" else showGuess.title
    let epTitle := trimEndMatches (fun c => c = '(' || c = '[' || c = '-' || c = ' ')
      (trimStartMatches (fun c => c = '-' || c = ' ')
        (join (lit " ") (← slice tokens (idx + 1) tokens.length)))
    return some ⟨showTitle, showGuess.year, some season, episode, episodeEnd,
      if epTitle.isEmpty then none else some epTitle⟩

/-! ## Lettered markers -/

theorem parseSxxeyyChecked_eq (tok : Text) : parseSxxeyyChecked tok = .ok (parseSxxeyy tok) := by
  unfold parseSxxeyyChecked parseSxxeyy
  dsimp only
  cases stripPrefixChar (fun c => c = 's' || c = 'S')
      (trimMatches (fun c => !isAsciiAlphanumeric c) tok) with
  | none => rfl
  | some rest =>
    dsimp only
    cases hsplit : splitOnce (fun c => c = 'e' || c = 'E') rest with
    | none => rw [find_of_splitOnce_none hsplit]
    | some cut =>
      obtain ⟨s, e⟩ := cut
      obtain ⟨c, hc, -, rfl⟩ := splitOnce_eq_some hsplit
      have hascii : c.utf8Size = 1 := by
        have hcases : c = 'e' ∨ c = 'E' := by simpa using hc
        rcases hcases with rfl | rfl <;> rfl
      have hmark : sliceFrom (c :: e) 1 = .ok e := by
        have h := sliceFrom_append [c] e
        rwa [byteLen_cons, hascii] at h
      rw [find_of_splitOnce hsplit]
      dsimp only
      rw [splitAt_append, ok_bind]
      dsimp only
      rw [hmark, ok_bind]
      split_ifs with hempty
      · rfl
      · cases parseU32 (e.takeWhile isAsciiDigit) with
        | none => rfl
        | some first =>
          dsimp only
          rw [sliceFrom_takeWhile, ok_bind]
          rfl

/-- One character of `split_glued_marker`, without the checks. -/
def gluedChar (chars : Text) (i : ℕ) (c : Char) : Char :=
  let marker := (chars.drop (i + 1)).takeWhile (· ≠ ' ')
  if c = '-' ∧ 0 < i ∧ ((parseSxxeyy marker).isSome || (parseNnxnn marker).isSome) then ' ' else c

theorem gluedCharChecked_eq {chars : Text} {i : ℕ} (c : Char) (h : i < chars.length) :
    gluedCharChecked chars i c = .ok (gluedChar chars i c) := by
  unfold gluedCharChecked gluedChar
  by_cases hmark : c = '-' ∧ 0 < i
  · have hblank : (fun x : Char => !decide (x = ' ')) = fun x => decide (x ≠ ' ') := by
      funext x
      exact (decide_not).symm
    rw [if_pos hmark, slice_suffix h, ok_bind, sliceTo_find, ok_bind, parseSxxeyyChecked_eq, ok_bind, hblank, pure_eq]
    simp only [hmark, true_and]
  · rw [if_neg hmark, if_neg fun h => hmark ⟨h.1, h.2.1⟩]

/-- The loop from the second character on. -/
theorem map_gluedChar {chars : Text} (before : Text) {rest : Text} (hchars : chars = before ++ rest)
    (hne : before ≠ []) :
    (rest.zipIdx before.length).map (fun (c, i) => gluedChar chars i c) = splitGluedFrom rest := by
  induction rest generalizing before with
  | nil => rfl
  | cons c rest ih =>
    have hdrop : chars.drop (before.length + 1) = rest := by
      rw [hchars]
      simp
    have hpos : 0 < before.length := List.length_pos_iff.mpr hne
    have hrest := ih (before ++ [c]) (by simpa using hchars) (by simp)
    rw [List.length_append, List.length_singleton] at hrest
    rw [List.zipIdx_cons, List.map_cons, hrest, splitGluedFrom]
    simp only [gluedChar, hdrop, hpos, true_and, Bool.and_eq_true, decide_eq_true_eq]

theorem splitGluedMarkerChecked_eq (s : Text) :
    splitGluedMarkerChecked s = .ok (splitGluedMarker s) := by
  have hchecked : ∀ p ∈ s.zipIdx, gluedCharChecked s p.2 p.1 = .ok (gluedChar s p.2 p.1) := by
    intro p hp
    exact gluedCharChecked_eq _ (by simpa using List.snd_lt_of_mem_zipIdx hp)
  rw [splitGluedMarkerChecked, mapM_eq hchecked]
  cases s with
  | nil => rfl
  | cons c rest =>
    have hrest := map_gluedChar [c] (show c :: rest = [c] ++ rest from rfl) (by simp)
    rw [List.zipIdx_cons, List.map_cons]
    exact congrArg Except.ok (congrArg₂ List.cons (if_neg (by simp)) hrest)

/-! ## Split markers -/

theorem isSplitMarkerChecked_pair {done rest : List Text} {a b : Text} :
    isSplitMarkerChecked (done ++ a :: b :: rest) done.length =
      .ok (isSeasonToken a && isEpisodeToken b) := by
  have hnext : index (done ++ a :: b :: rest) (done.length + 1) = .ok b := index_eq (by simp)
  rw [isSplitMarkerChecked, if_pos (by simp), index_append, ok_bind, hnext]
  cases isSeasonToken a <;> rfl

theorem isSplitMarkerChecked_last {done : List Text} {a : Text} :
    isSplitMarkerChecked (done ++ [a]) done.length = .ok false := by
  rw [isSplitMarkerChecked, if_neg (by simp)]

theorem joinSplitLoopChecked_eq (fuel : ℕ) (done : List Text) {rest : List Text}
    (h : rest.length < fuel) :
    joinSplitLoopChecked fuel (done ++ rest) done.length = .ok (joinSplitTokens rest) := by
  induction fuel generalizing done rest with
  | zero => omega
  | succ fuel ih =>
    have hskip : ∀ added more : List Text, more.length < fuel →
        joinSplitLoopChecked fuel (done ++ (added ++ more)) (done.length + added.length) =
          .ok (joinSplitTokens more) := by
      intro added more hmore
      rw [← List.append_assoc, ← List.length_append]
      exact ih _ hmore
    match rest with
    | [] => rw [joinSplitLoopChecked, if_neg (by simp), joinSplitTokens]; simp
    | [a] =>
      rw [joinSplitLoopChecked, if_pos (by simp), isSplitMarkerChecked_last, ok_bind,
        if_neg (by simp), index_append, ok_bind]
      have hrest := hskip [a] [] (by simpa using h)
      exact hrest ▸ rfl
    | a :: b :: rest =>
      rw [List.length_cons, List.length_cons] at h
      have hnext : index (done ++ a :: b :: rest) (done.length + 1) = .ok b := index_eq (by simp)
      rw [joinSplitLoopChecked, if_pos (by simp), isSplitMarkerChecked_pair, ok_bind,
        joinSplitTokens, index_append, ok_bind]
      split_ifs
      · rw [hnext, ok_bind]
        have hrest := hskip [a, b] rest (by omega)
        rw [show done ++ a :: b :: rest = done ++ ([a, b] ++ rest) from rfl]
        exact hrest ▸ rfl
      · have hrest := hskip [a] (b :: rest) (by rw [List.length_cons]; omega)
        rw [show done ++ a :: b :: rest = done ++ ([a] ++ b :: rest) from rfl]
        exact hrest ▸ rfl

theorem joinSplitMarkerChecked_eq (s : Text) :
    joinSplitMarkerChecked s = .ok (joinSplitMarker s) := by
  have hloop := joinSplitLoopChecked_eq _ [] (Nat.lt_succ_self (splitWhitespace s).length)
  rw [joinSplitMarkerChecked]
  exact hloop ▸ rfl

/-! ## Bytes of ASCII characters -/

theorem ascii_cases {P : Char → Prop} (h : ∀ n < 128, P (Char.ofNat n)) {c : Char}
    (hc : c.toNat < 128) : P c := by
  rw [← Char.ofNat_toNat c]
  exact h _ hc

theorem byte_cases {P : UInt8 → Prop} (h : ∀ n < 256, P (UInt8.ofNat n)) (b : UInt8) : P b := by
  rw [← UInt8.ofNat_toNat (x := b)]
  exact h _ b.toNat_lt

theorem isDigitByte_ascii {c : Char} (hc : c.toNat < 128) :
    isDigitByte (UInt8.ofNat c.toNat) = isAsciiDigit c :=
  ascii_cases (P := fun c => isDigitByte (UInt8.ofNat c.toNat) = isAsciiDigit c)
    (by decide) hc

theorem isAlphanumericByte_ascii {c : Char} (hc : c.toNat < 128) :
    isAlphanumericByte (UInt8.ofNat c.toNat) = isAsciiAlphanumeric c :=
  ascii_cases (P := fun c => isAlphanumericByte (UInt8.ofNat c.toNat) = isAsciiAlphanumeric c)
    (by decide) hc

theorem isAlphanumericByte_lt {b : UInt8} (h : isAlphanumericByte b = true) : b.toNat < 128 := by
  simp only [isAlphanumericByte, isDigitByte, Bool.or_eq_true, Bool.and_eq_true, decide_eq_true_eq,
    UInt8.le_iff_toNat_le, UInt8.reduceToNat] at h
  omega

theorem isDigitByte_lt {b : UInt8} (h : isDigitByte b = true) : b.toNat < 128 :=
  isAlphanumericByte_lt (by rw [isAlphanumericByte, h, Bool.or_true])

/-- A letter of a marker, in either case. -/
theorem letterByte_ascii {c : Char} (hc : c.toNat < 128) :
    ((UInt8.ofNat c.toNat ||| 0x20) == 0x73) = (c = 's' || c = 'S') ∧
      ((UInt8.ofNat c.toNat ||| 0x20) == 0x65) = (c = 'e' || c = 'E') :=
  ascii_cases (P := fun c => ((UInt8.ofNat c.toNat ||| 0x20) == 0x73) = (c = 's' || c = 'S') ∧
    ((UInt8.ofNat c.toNat ||| 0x20) == 0x65) = (c = 'e' || c = 'E')) (by decide) hc

theorem letterByte_lt {b : UInt8} : (b ||| 0x20) = 0x73 ∨ (b ||| 0x20) = 0x65 → b.toNat < 128 :=
  byte_cases (P := fun b => (b ||| 0x20) = 0x73 ∨ (b ||| 0x20) = 0x65 → b.toNat < 128)
    (by decide +kernel) b

/-! ## Trailing markers -/

theorem exists_six {α : Type} {l : List α} (h : l.length = 6) :
    ∃ a b c d e f, l = [a, b, c, d, e, f] := by
  match l with
  | [a, b, c, d, e, f] => exact ⟨a, b, c, d, e, f, rfl⟩

theorem isTrailingMarkerChecked_ascii {m : Text} (hm : ∀ c ∈ m, c.toNat < 128)
    (hlen : m.length = 6) :
    isTrailingMarkerChecked (Utf8.encode m) = .ok (isTrailingMarker m) := by
  rw [Utf8.encode_ascii hm]
  obtain ⟨s, a, b, e, c, d, rfl⟩ := exists_six hlen
  simp only [List.mem_cons, List.not_mem_nil, or_false, forall_eq_or_imp, forall_eq] at hm
  obtain ⟨hs, ha, hb, he, hc, hd⟩ := hm
  rw [isTrailingMarker, ← (letterByte_ascii hs).1, ← (letterByte_ascii he).2,
    ← isDigitByte_ascii ha, ← isDigitByte_ascii hb, ← isDigitByte_ascii hc, ← isDigitByte_ascii hd]
  rfl

theorem isTrailingMarkerChecked_total {bytes : List UInt8} (hlen : bytes.length = 6) :
    ∃ v, isTrailingMarkerChecked bytes = .ok v ∧ (v = true → ∀ b ∈ bytes, b.toNat < 128) := by
  obtain ⟨s, a, b, e, c, d, rfl⟩ := exists_six hlen
  refine ⟨_, rfl, fun h => ?_⟩
  simp only [Bool.and_eq_true, beq_iff_eq] at h
  simp only [List.mem_cons, List.not_mem_nil, or_false, forall_eq_or_imp, forall_eq]
  exact ⟨letterByte_lt (.inl h.1.1.1.1.1), isDigitByte_lt h.1.1.1.1.2, isDigitByte_lt h.1.1.1.2,
    letterByte_lt (.inr h.1.1.2), isDigitByte_lt h.1.2, isDigitByte_lt h.2⟩

theorem isTrailingMarker_ascii {m : Text} (h : isTrailingMarker m = true) :
    m.length = 6 ∧ ∀ c ∈ m, c.toNat < 128 := by
  unfold isTrailingMarker at h
  split at h
  · simp only [Bool.and_eq_true, Bool.or_eq_true, decide_eq_true_eq] at h
    obtain ⟨⟨⟨⟨⟨hs, ha⟩, hb⟩, he⟩, hc⟩, hd⟩ := h
    refine ⟨rfl, ?_⟩
    simp only [List.mem_cons, List.not_mem_nil, or_false, forall_eq_or_imp, forall_eq]
    have hdigit : ∀ {x : Char}, isAsciiDigit x = true → x.toNat < 128 := fun hx => by
      have := (isAsciiDigit_iff _).mp hx
      omega
    refine ⟨?_, hdigit ha, hdigit hb, ?_, hdigit hc, hdigit hd⟩
    · rcases hs with rfl | rfl <;> decide
    · rcases he with rfl | rfl <;> decide
  · cases h

/-- The byte before the marker. -/
theorem alphanumeric_last {s : Text} {last : UInt8} {before : List UInt8}
    (h : Utf8.encode s = before ++ [last]) :
    isAlphanumericByte last = s.getLast?.any isAsciiAlphanumeric := by
  by_cases hascii : last.toNat < 128
  · obtain ⟨s', c, rfl, hc, -⟩ := Utf8.encode_eq_append_ascii h hascii
    rw [List.getLast?_concat, Option.any_some, ← isAlphanumericByte_ascii (hc ▸ hascii), hc,
      UInt8.ofNat_toNat]
  · have hbyte : isAlphanumericByte last = false :=
      Bool.eq_false_iff.mpr fun hyes => hascii (isAlphanumericByte_lt hyes)
    rw [hbyte]
    rcases List.eq_nil_or_concat s with rfl | ⟨s', c, rfl⟩
    · rfl
    rw [List.concat_eq_append] at h ⊢
    rw [List.getLast?_concat, Option.any_some]
    refine (Bool.eq_false_iff.mpr fun hyes => hascii ?_).symm
    have hc := isAsciiAlphanumeric_lt hyes
    rw [Utf8.encode_append, Utf8.encode_cons, Utf8.encodeChar_ascii hc, Utf8.encode_nil] at h
    rw [← (List.cons.inj (List.append_inj' h rfl).2).1, UInt8.toNat_ofNat']
    omega

/-- What a marker at the end needs before it. -/
theorem splitTrailingMarker_append {s m : Text} (hlen : m.length = 6) :
    splitTrailingMarker (s ++ m) =
      if isTrailingMarker m && s.getLast?.any isAsciiAlphanumeric then s ++ ' ' :: m else s ++ m := by
  have hplace : (s ++ m).length - 6 = s.length := by
    rw [List.length_append]
    omega
  simp only [splitTrailingMarker, hplace, List.take_left, List.drop_left]

/-- The last six bytes, when they are characters. -/
theorem splitTrailingMarkerChecked_append {s m : Text} (hne : s ≠ [])
    (hm : ∀ c ∈ m, c.toNat < 128) (hlen : m.length = 6) (hmark : isTrailingMarker m = true) :
    splitTrailingMarkerChecked (s ++ m) =
      .ok (if s.getLast?.any isAsciiAlphanumeric then s ++ ' ' :: m else s ++ m) := by
  have hbytes : (Utf8.encode m).length = 6 := by rw [Utf8.encode_ascii hm, List.length_map, hlen]
  obtain ⟨before, last, hs⟩ : ∃ before last, Utf8.encode s = before ++ [last] := by
    rcases List.eq_nil_or_concat (Utf8.encode s) with hnil | ⟨before, last, hs⟩
    · exact absurd (Utf8.encode_injective (hnil.trans Utf8.encode_nil.symm)) hne
    · exact ⟨before, last, hs.trans List.concat_eq_append⟩
  have hall : Utf8.encode (s ++ m) = before ++ last :: Utf8.encode m := by
    rw [Utf8.encode_append, hs, List.append_assoc, List.singleton_append]
  have htotal : (before ++ last :: Utf8.encode m).length = before.length + 7 := by
    rw [List.length_append, List.length_cons, hbytes]
  have hcut : before.length + 1 = byteLen s := by
    rw [← length_encode, hs, List.length_append, List.length_singleton]
  have hslice : slice (before ++ last :: Utf8.encode m) (before.length + 1) (before.length + 7) =
      .ok (Utf8.encode m) := by
    rw [slice_eq (by omega) (by omega), List.take_of_length_le (by rw [List.length_drop]; omega),
      List.drop_append]
    simp
  unfold splitTrailingMarkerChecked
  simp only [hall, htotal]
  rw [if_neg (by omega), sub_eq (by omega), ok_bind, show before.length + 7 - 6 = before.length + 1 by
    omega, hslice, ok_bind, isTrailingMarkerChecked_ascii hm hlen, ok_bind, if_pos hmark,
    sub_eq (by omega), ok_bind, Nat.add_sub_cancel, index_append, ok_bind, alphanumeric_last hs, hcut,
    sliceTo_append, ok_bind, sliceFrom_append, ok_bind]
  split_ifs <;> rfl

theorem splitTrailingMarkerChecked_eq (s : Text) :
    splitTrailingMarkerChecked s = .ok (splitTrailingMarker s) := by
  by_cases hmark : isTrailingMarker (s.drop (s.length - 6)) = true
  · obtain ⟨hlen, hascii⟩ := isTrailingMarker_ascii hmark
    have hwhole := List.take_append_drop (s.length - 6) s
    generalize s.take (s.length - 6) = front at hwhole
    generalize s.drop (s.length - 6) = m at hmark hlen hascii hwhole
    subst hwhole
    rw [splitTrailingMarker_append hlen, hmark, Bool.true_and]
    by_cases hne : front = []
    · subst hne
      have hshort : (Utf8.encode m).length < 7 := by
        rw [Utf8.encode_ascii hascii, List.length_map]
        omega
      rw [splitTrailingMarkerChecked]
      simp only [List.nil_append, hshort, if_true]
      rfl
    · exact splitTrailingMarkerChecked_append hne hascii hlen hmark
  · have hself : splitTrailingMarker s = s := by
      simp only [splitTrailingMarker, hmark, Bool.false_and, if_neg (Bool.false_ne_true)]
    rw [hself, splitTrailingMarkerChecked]
    split_ifs with hshort
    · rfl
    have hlength : ((Utf8.encode s).drop ((Utf8.encode s).length - 6)).length = 6 := by
      rw [List.length_drop]
      omega
    rw [sub_eq (by omega), ok_bind, slice_suffix (by omega), ok_bind]
    obtain ⟨v, hv, hascii⟩ := isTrailingMarkerChecked_total hlength
    rw [hv, ok_bind]
    cases v with
    | false => rfl
    | true =>
      obtain ⟨front, m, rfl, -, hm, hbytes⟩ := Utf8.encode_eq_append
        (List.take_append_drop ((Utf8.encode s).length - 6) _).symm (hascii rfl)
      have hlen : m.length = 6 := by
        rw [← hlength, ← hbytes, Utf8.encode_ascii hm, List.length_map]
      have hdrop : (front ++ m).drop ((front ++ m).length - 6) = m := by
        rw [List.length_append, show front.length + m.length - 6 = front.length by omega,
          List.drop_left]
      rw [← hbytes, isTrailingMarkerChecked_ascii hm hlen] at hv
      refine absurd ?_ hmark
      rw [hdrop]
      exact Except.ok.inj hv

/-! ## Compact numbering -/

/-- Three digits, as bytes and as characters. -/
theorem digitBytes_iff (t : Text) :
    ((Utf8.encode t).length = 3 ∧ (Utf8.encode t).all isDigitByte = true) ↔
      t.length = 3 ∧ t.all isAsciiDigit = true := by
  have hiff : (∀ c ∈ t, c.toNat < 128) → (((Utf8.encode t).length = 3 ∧
      (Utf8.encode t).all isDigitByte = true) ↔ t.length = 3 ∧ t.all isAsciiDigit = true) := by
    intro hascii
    rw [Utf8.encode_ascii hascii, List.length_map, List.all_map]
    have hall : t.all (isDigitByte ∘ fun c => UInt8.ofNat c.toNat) = t.all isAsciiDigit := by
      rw [Bool.eq_iff_iff, List.all_eq_true, List.all_eq_true]
      exact forall₂_congr fun c hc => by rw [Function.comp_apply, isDigitByte_ascii (hascii c hc)]
    rw [hall]
  constructor
  · rintro ⟨hlen, hall⟩
    obtain ⟨front, m, rfl, hfront, hm, -⟩ := Utf8.encode_eq_append (List.nil_append _).symm
      fun b hb => isDigitByte_lt (List.all_eq_true.mp hall b hb)
    obtain rfl : front = [] := Utf8.encode_injective (hfront.trans Utf8.encode_nil.symm)
    exact (hiff hm).mp ⟨hlen, hall⟩
  · rintro ⟨hlen, hall⟩
    refine (hiff fun c hc => ?_).mpr ⟨hlen, hall⟩
    have := (isAsciiDigit_iff c).mp (List.all_eq_true.mp hall c hc)
    omega

theorem compactNumbersChecked_eq (t : Text) (more : Bool) :
    compactNumbersChecked t more = .ok (if more then compactNumbers t else none) := by
  unfold compactNumbersChecked
  dsimp only
  by_cases hdigits : t.length = 3 ∧ t.all isAsciiDigit = true
  · obtain ⟨hlen, hall⟩ := (digitBytes_iff t).mpr hdigits
    rw [if_neg (by simp [hlen, hall])]
    obtain ⟨a, b, c, rfl⟩ := List.length_eq_three.mp hdigits.1
    simp only [List.all_cons, List.all_nil, Bool.and_true, Bool.and_eq_true] at hdigits
    obtain ⟨-, ha, hb, hc⟩ := hdigits
    have ha' := (isAsciiDigit_iff a).mp ha
    have hb' := (isAsciiDigit_iff b).mp hb
    have hc' := (isAsciiDigit_iff c).mp hc
    have hcode : ∀ x : Char, 48 ≤ x.toNat ∧ x.toNat ≤ 57 → (UInt8.ofNat x.toNat).toNat = x.toNat := by
      intro x hx
      rw [UInt8.toNat_ofNat']
      omega
    have hencode : Utf8.encode [a, b, c] =
        [UInt8.ofNat a.toNat, UInt8.ofNat b.toNat, UInt8.ofNat c.toNat] := by
      refine Utf8.encode_ascii fun x hx => ?_
      simp only [List.mem_cons, List.not_mem_nil, or_false] at hx
      rcases hx with rfl | rfl | rfl <;> omega
    have hzero : (UInt8.ofNat a.toNat = 48) ↔ a = '0' := by
      rw [← UInt8.toNat_inj, hcode a ha']
      exact ⟨fun h => Char.toNat_inj.mp h, fun h => h ▸ rfl⟩
    rw [hencode]
    have hrow : ∀ (l : List UInt8) (i : ℕ) (x : UInt8), l[i]? = some x → index l i = .ok x :=
      fun _ _ _ => index_eq
    rw [hrow _ 0 _ rfl, ok_bind, hrow _ 1 _ rfl, hrow _ 2 _ rfl]
    by_cases ha0 : a = '0'
    · have hnone : compactNumbers [a, b, c] = none := by simp [compactNumbers, ha0]
      rw [if_pos (hzero.mpr ha0), hnone, ite_self]
      rfl
    · have hsome : compactNumbers [a, b, c] = some (digitsValue [a], digitsValue [b, c]) := by
        simp [compactNumbers, ha, hb, hc, ha0]
      rw [if_neg (mt hzero.mp ha0), hsome]
      cases more with
      | false => rfl
      | true =>
        have hvalue : digitsValue [a] = a.toNat - 48 ∧
            digitsValue [b, c] = (b.toNat - 48) * 10 + (c.toNat - 48) := by
          simp only [digitsValue, List.foldl_cons, List.foldl_nil, show '0'.toNat = 48 from rfl]
          omega
        rw [if_neg (by simp), ok_bind, hcode a ha', sub_eq (by omega), ok_bind, ok_bind,
          hcode b hb', sub_eq (by omega), ok_bind, mul_eq (by omega), ok_bind, ok_bind, hcode c hc',
          sub_eq (by omega), ok_bind, add_eq (by omega), ok_bind, if_pos rfl, hvalue.1, hvalue.2]
        rfl
  · have hbytes : ((Utf8.encode t).length ≠ 3 || !(Utf8.encode t).all isDigitByte) = true := by
      have hnot := mt (digitBytes_iff t).mp hdigits
      by_cases hlen : (Utf8.encode t).length = 3
      · simpa [hlen] using hnot
      · simp [hlen]
    have hnone : compactNumbers t = none := by
      unfold compactNumbers
      split
      · refine if_neg fun h => hdigits ⟨rfl, ?_⟩
        simp only [Bool.and_eq_true] at h
        simp only [List.all_cons, List.all_nil, Bool.and_true, Bool.and_eq_true]
        exact ⟨h.1.1.1, h.1.1.2, h.1.2⟩
      · rfl
    rw [if_pos hbytes, hnone, ite_self]

theorem parseSceneCompactChecked_eq (stem : Text) (tokens : List Text) :
    parseSceneCompactChecked stem tokens = .ok (parseSceneCompact stem tokens) := by
  unfold parseSceneCompactChecked parseSceneCompact
  split_ifs
  · rfl
  · rfl
  · refine findSomeM?_eq fun ⟨t, i⟩ _ => ?_
    dsimp only
    rw [compactNumbersChecked_eq, ok_bind]
    cases compactNumbers t with
    | none => rw [ite_self]; rfl
    | some numbers =>
      by_cases hmore : i + 1 < tokens.length
      · simp [hmore, Nat.not_le.mpr hmore]
      · simp [hmore, Nat.not_lt.mp hmore]

/-! ## The parser -/

theorem letteredMarkerChecked_eq (tokens : List Text) :
    letteredMarkerChecked tokens = .ok (letteredMarker tokens) := by
  refine findSomeM?_eq fun ⟨t, i⟩ _ => ?_
  dsimp only
  rw [parseSxxeyyChecked_eq, ok_bind]
  rfl

/-- The tokens of a series name. -/
def seriesTokens (stem : Text) : List Text :=
  splitWhitespace (splitTrailingMarker (joinSplitMarker (splitGluedMarker (blankSeparators stem))))

/-- The marker of a series name. -/
def seriesMarker (stem : Text) : Option (ℕ × ℕ × ℕ × Option ℕ) :=
  match letteredMarker (seriesTokens stem) with
  | some found => some found
  | none => (parseSceneCompact stem (seriesTokens stem)).map fun (i, s, e) => (i, s, e, none)

theorem seriesTokensChecked_eq (stem : Text) :
    seriesTokensChecked stem = .ok (seriesTokens stem) := by
  rw [seriesTokensChecked, splitGluedMarkerChecked_eq, ok_bind, joinSplitMarkerChecked_eq, ok_bind,
    splitTrailingMarkerChecked_eq, ok_bind]
  rfl

theorem seriesMarkerChecked_eq (stem : Text) :
    seriesMarkerChecked stem (seriesTokens stem) = .ok (seriesMarker stem) := by
  rw [seriesMarkerChecked, letteredMarkerChecked_eq, ok_bind, seriesMarker]
  cases letteredMarker (seriesTokens stem) with
  | some found => rfl
  | none =>
    dsimp only
    rw [parseSceneCompactChecked_eq, ok_bind]
    rfl

/-- The marker's token is one of them. -/
theorem seriesMarker_lt {stem : Text} {idx : ℕ} {m : ℕ × ℕ × Option ℕ}
    (h : seriesMarker stem = some (idx, m)) : idx < (seriesTokens stem).length := by
  unfold seriesMarker at h
  split at h
  · rename_i found hfound
    obtain ⟨⟨t, i⟩, hmem, hmark⟩ := List.exists_of_findSome?_eq_some hfound
    have hi := List.snd_lt_of_mem_zipIdx hmem
    obtain ⟨marker, -, rfl⟩ := Option.map_eq_some_iff.mp hmark
    cases Option.some.inj h
    simpa using hi
  · obtain ⟨⟨i, s, e⟩, hcompact, heq⟩ := Option.map_eq_some_iff.mp h
    cases heq
    unfold parseSceneCompact at hcompact
    split_ifs at hcompact
    obtain ⟨⟨t, j⟩, hmem, hmark⟩ := List.exists_of_findSome?_eq_some hcompact
    dsimp only at hmark
    split at hmark
    · split_ifs at hmark with hend
      cases Option.some.inj hmark
      omega
    · cases hmark

/-- The title of the episode: what follows its marker. -/
def episodeTitle (tokens : List Text) (idx : ℕ) : Text :=
  trimEndMatches (fun c => c = '(' || c = '[' || c = '-' || c = ' ')
    (trimStartMatches (fun c => c = '-' || c = ' ') (join (lit " ") (tokens.drop (idx + 1))))

/-- The show of the episode: its directory or what stands before the marker. -/
def seriesShow (path : Text) (tokens : List Text) (idx : ℕ) : MovieGuess :=
  match ((components path).reverse.drop 1).find? fun d => !isSeasonDir d with
  | some dir => parseMovieDir dir
  | none => parseMovieDir (join (lit " ") (tokens.take idx))

theorem parseEpisode_eq (path : Text) :
    parseEpisode path =
      (seriesMarker (fileStem ((components path).getLast?.getD []))).map
        fun (idx, season, episode, episodeEnd) =>
          let tokens := seriesTokens (fileStem ((components path).getLast?.getD []))
          let showGuess := seriesShow path tokens idx
          let epTitle := episodeTitle tokens idx
          ⟨if showGuess.title.isEmpty then lit "Unknown Show" else showGuess.title, showGuess.year,
            some season, episode, episodeEnd, if epTitle.isEmpty then none else some epTitle⟩ := by
  unfold parseEpisode seriesMarker seriesShow episodeTitle
  dsimp only
  generalize htokens : splitWhitespace _ = tokens
  have hseries : seriesTokens (fileStem ((components path).getLast?.getD [])) = tokens := htokens
  rw [hseries]
  cases letteredMarker tokens with
  | some found => rfl
  | none =>
    cases parseSceneCompact (fileStem ((components path).getLast?.getD [])) tokens with
    | some found => rfl
    | none => rfl

/-- Every path is parsed without a failing slice. -/
theorem parseEpisodeChecked_eq (path : Text) :
    parseEpisodeChecked path = .ok (parseEpisode path) := by
  rw [parseEpisode_eq]
  unfold parseEpisodeChecked
  dsimp only
  rw [seriesTokensChecked_eq, ok_bind, seriesMarkerChecked_eq, ok_bind]
  cases hmarker : seriesMarker (fileStem ((components path).getLast?.getD [])) with
  | none => rfl
  | some found =>
    obtain ⟨idx, season, episode, episodeEnd⟩ := found
    have hidx := seriesMarker_lt hmarker
    dsimp only [Option.map_some]
    unfold seriesShow episodeTitle
    cases ((components path).reverse.drop 1).find? fun d => !isSeasonDir d with
    | some dir =>
      dsimp only
      rw [parseMovieDirChecked_eq, ok_bind, slice_suffix hidx, ok_bind]
      rfl
    | none =>
      dsimp only
      rw [slice_take (Nat.le_of_lt hidx), ok_bind, parseMovieDirChecked_eq, ok_bind,
        slice_suffix hidx, ok_bind]
      rfl

end Kahawai.Core.Names
