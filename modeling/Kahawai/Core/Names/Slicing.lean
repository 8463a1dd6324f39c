import Kahawai.Core.Names
import Kahawai.Core.Slices

/-!
# Film names and the slices their parser takes

`strip_release_tags`, `parse_movie_stem` and `parse_movie_dir` of
`crates/kahawai-core/src/names.rs` with each slice, index and subtraction checked. The functions of
`Names` are these without the checks.

Results:
* `parseMovieDirChecked_eq`: every check passes, for every name.
-/

namespace Kahawai.Core.Names

open Text Lib Lib.Checked

/-! ## Model -/

/-- `&out[open + 1..out.len() - 1]` (line 45). -/
def parenthetical (out : Text) (place : ℕ) : Checked Text := do
  sliceRange out (place + 1) (← sub (byteLen out) 1)

/-- The loop of `strip_release_tags` (lines 41–55). -/
def stripReleaseTagsLoopChecked : (fuel : ℕ) → Text → Checked Text
  | 0, _ => .error .unfinished
  | fuel + 1, out =>
    match rfind (· = '(') out with
    | none => .ok out
    | some place =>
      if !endsWithChar (· = ')') out then .ok out
      else do
        let inner ← parenthetical out place
        if !releaseish inner then .ok out
        else stripReleaseTagsLoopChecked fuel (trimEnd (← sliceTo out place))

/-- `strip_release_tags` (lines 22–57). -/
def stripReleaseTagsChecked (name : Text) : Checked Text :=
  stripReleaseTagsLoopChecked (name.length + 1) (trimEnd name)

/-- Whether the token at `i` and the next are a part marker in two words (lines 121–124). -/
def isSplitPartChecked (tokens : List Text) (i : ℕ) (tok : Text) : Checked Bool :=
  if [lit "cd", lit "disc", lit "disk"].contains (toAsciiLower tok) && i + 1 < tokens.length then do
    let next ← index tokens (i + 1)
    return byteLen next ≤ 2 && next.all isAsciiDigit
  else .ok false

/-- The loop of `parse_movie_stem` over its tokens (lines 113–132). -/
def takePartsChecked : (fuel : ℕ) → List Text → (i : ℕ) → Option ℕ →
    Checked (List Text × Option ℕ)
  | 0, _, _, _ => .error .unfinished
  | fuel + 1, tokens, i, part =>
    if i < tokens.length then do
      let tok := trimMatches (fun c => c = '(' || c = ')' || c = '[' || c = ']' || c = '-')
        (← index tokens i)
      match partOf tok with
      | some n => takePartsChecked fuel (← drain tokens i (i + 1)) i (some n)
      | none =>
        if ← isSplitPartChecked tokens i tok then
          takePartsChecked fuel (← drain tokens i (i + 2)) i (parseU32 (← index tokens (i + 1)))
        else takePartsChecked fuel tokens (i + 1) part
    else .ok (tokens, part)

/-- `parse_movie_stem` (lines 88–156). -/
def parseMovieStemChecked (stem : Text) : Checked MovieGuess := do
  let words := splitWhitespace (blankSeparators stem)
  let (tokens, part) ← takePartsChecked (words.length + 1) words 0 none
  let found := lastYear tokens
  let titleEnd := (found.map Prod.snd).getD tokens.length
  let title := trimEndMatches (fun c => c = '(' || c = '[' || c = '-' || c = ' ')
    (join (lit " ") (← slice tokens 0 titleEnd))
  let title := if title.isEmpty then join (lit " ") tokens else title
  return ⟨title, found.map Prod.fst, part⟩

/-- `parse_movie_dir` (lines 84–86). -/
def parseMovieDirChecked (name : Text) : Checked MovieGuess := do
  parseMovieStemChecked (← stripReleaseTagsChecked name)

/-! ## Release tags -/

theorem trimEnd_length_le (s : Text) : (trimEnd s).length ≤ s.length := by
  unfold trimEnd trimEndMatches
  rw [List.length_reverse, ← @List.length_reverse _ s]
  exact (List.dropWhile_suffix _).length_le

/-- What stands between an opening parenthesis and the closing one at the end. -/
theorem parenthetical_eq {before after : Text}
    (h : endsWithChar (· = ')') (before ++ '(' :: after) = true) :
    parenthetical (before ++ '(' :: after) (byteLen before) = .ok after.dropLast := by
  have hne : after ≠ [] := by
    rintro rfl
    simp [endsWithChar] at h
  have hlast : after.getLast hne = ')' := by
    obtain ⟨c, rest, rfl⟩ := List.exists_cons_of_ne_nil hne
    simpa [endsWithChar, List.getLast?_append, List.getLast?_eq_some_getLast] using h
  have hafter : before ++ '(' :: after = (before ++ ['(']) ++ after.dropLast ++ [')'] := by
    rw [← hlast]
    simp [List.dropLast_append_getLast hne]
  have hopen : byteLen before + 1 = byteLen (before ++ ['(']) := by
    rw [byteLen_append]
    rfl
  have hlength : byteLen (before ++ '(' :: after) =
      byteLen (before ++ ['(']) + byteLen after.dropLast + 1 := by
    rw [hafter, byteLen_append, byteLen_append]
    rfl
  rw [parenthetical, sub_eq (by omega), ok_bind, hopen, hlength, Nat.add_sub_cancel, hafter,
    sliceRange_append]

theorem stripReleaseTagsLoopChecked_eq (turns : ℕ) {out : Text} (h : out.length ≤ turns) :
    stripReleaseTagsLoopChecked (turns + 1) out = .ok (stripReleaseTagsLoop turns out) := by
  induction turns generalizing out with
  | zero =>
    obtain rfl := List.length_eq_zero_iff.mp (Nat.le_zero.mp h)
    rfl
  | succ turns ih =>
    rw [stripReleaseTagsLoopChecked, stripReleaseTagsLoop]
    cases hsplit : rsplitOnce (· = '(') out with
    | none => rw [rfind_of_rsplitOnce_none hsplit]
    | some cut =>
      obtain ⟨before, after⟩ := cut
      obtain ⟨c, hc, -, rfl⟩ := rsplitOnce_eq_some hsplit
      obtain rfl : c = '(' := by simpa using hc
      rw [rfind_of_rsplitOnce hsplit]
      dsimp only
      cases hend : endsWithChar (· = ')') (before ++ '(' :: after) with
      | false => rfl
      | true =>
        have hshort : (trimEnd before).length ≤ turns := by
          have := trimEnd_length_le before
          rw [List.length_append, List.length_cons] at h
          omega
        simp only [Bool.not_true, Bool.false_eq_true, if_false, parenthetical_eq hend, ok_bind,
          sliceTo_append, ih hshort]
        split_ifs <;> rfl

theorem stripReleaseTagsChecked_eq (name : Text) :
    stripReleaseTagsChecked name = .ok (stripReleaseTags name) :=
  stripReleaseTagsLoopChecked_eq _ (trimEnd_length_le name)

/-! ## Part markers -/

/-- The year's token is one of them. -/
theorem lastYear_lt {tokens : List Text} {found : ℕ × ℕ} (h : lastYear tokens = some found) :
    found.2 < tokens.length := by
  obtain ⟨⟨tok, i⟩, hmem, h⟩ := List.exists_of_findSome?_eq_some h
  have hi := List.snd_lt_of_mem_zipIdx (List.mem_reverse.mp hmem)
  dsimp only at h
  split at h
  · split_ifs at h
    cases Option.some.inj h
    simpa using hi
  · cases h

theorem isSplitPartChecked_last {kept : List Text} {raw : Text} (tok : Text) :
    isSplitPartChecked (kept ++ [raw]) kept.length tok = .ok false := by
  rw [isSplitPartChecked, if_neg (by simp)]

theorem isSplitPartChecked_pair {kept rest : List Text} {raw next tok : Text} :
    isSplitPartChecked (kept ++ raw :: next :: rest) kept.length tok =
      .ok ([lit "cd", lit "disc", lit "disk"].contains (toAsciiLower tok) &&
        byteLen next ≤ 2 && next.all isAsciiDigit) := by
  have hnext : index (kept ++ raw :: next :: rest) (kept.length + 1) = .ok next :=
    index_eq (by simp)
  have hlt : kept.length + 1 < (kept ++ raw :: next :: rest).length := by simp
  unfold isSplitPartChecked
  cases [lit "cd", lit "disc", lit "disk"].contains (toAsciiLower tok) with
  | false => rfl
  | true =>
    rw [Bool.true_and, if_pos (decide_eq_true hlt), hnext, ok_bind, Bool.true_and]
    rfl

/-- The tokens before `i` stay; the loop takes the parts out of the rest. -/
theorem takePartsChecked_eq (fuel : ℕ) (kept : List Text) {rest : List Text} (part : Option ℕ)
    (h : rest.length < fuel) :
    takePartsChecked fuel (kept ++ rest) kept.length part =
      .ok (kept ++ (takeParts rest part).1, (takeParts rest part).2) := by
  induction fuel generalizing kept rest part with
  | zero => omega
  | succ fuel ih =>
    cases rest with
    | nil =>
      rw [takePartsChecked, if_neg (by simp), List.append_nil, takeParts, List.append_nil]
    | cons raw rest =>
      rw [List.length_cons] at h
      have hwithout : drain (kept ++ raw :: rest) kept.length (kept.length + 1) =
          .ok (kept ++ rest) := by
        rw [drain_eq (by omega) (by simp)]
        simp
      have hnext : ∀ part, takePartsChecked fuel (kept ++ raw :: rest) (kept.length + 1) part =
          .ok (kept ++ raw :: (takeParts rest part).1, (takeParts rest part).2) := by
        intro part
        have hstep : takePartsChecked fuel ((kept ++ [raw]) ++ rest) (kept ++ [raw]).length part = _ :=
          ih (kept ++ [raw]) part (by omega)
        simpa using hstep
      rw [takePartsChecked, if_pos (by simp), index_append, ok_bind]
      dsimp only
      rw [takeParts.eq_def]
      dsimp only
      cases hpart : partOf (trimMatches
          (fun c => c = '(' || c = ')' || c = '[' || c = ']' || c = '-') raw) with
      | some n =>
        dsimp only
        rw [hwithout, ok_bind, ih _ _ (by omega)]
      | none =>
        dsimp only
        cases rest with
        | nil =>
          rw [isSplitPartChecked_last, ok_bind, if_neg (by simp), hnext, takeParts]
        | cons next rest =>
          rw [isSplitPartChecked_pair, ok_bind]
          dsimp only
          split_ifs with hsplit
          · have hwithout2 : drain (kept ++ raw :: next :: rest) kept.length (kept.length + 2) =
                .ok (kept ++ rest) := by
              rw [drain_eq (by omega) (by simp)]
              simp
            have hnumber : index (kept ++ raw :: next :: rest) (kept.length + 1) = .ok next :=
              index_eq (by simp)
            rw [List.length_cons] at h
            rw [hwithout2, ok_bind, hnumber, ok_bind, ih _ _ (by omega)]
          · exact hnext part

theorem parseMovieStemChecked_eq (stem : Text) :
    parseMovieStemChecked stem = .ok (parseMovieStem stem) := by
  unfold parseMovieStemChecked parseMovieStem
  dsimp only
  have hparts := takePartsChecked_eq _ [] none
    (Nat.lt_succ_self (splitWhitespace (blankSeparators stem)).length)
  rw [List.nil_append, List.length_nil] at hparts
  rw [hparts, ok_bind]
  generalize takeParts (splitWhitespace (blankSeparators stem)) none = taken
  obtain ⟨tokens, part⟩ := taken
  have hend : ((lastYear tokens).map Prod.snd).getD tokens.length ≤ tokens.length := by
    cases hyear : lastYear tokens with
    | none => exact Nat.le_refl _
    | some found => exact Nat.le_of_lt (lastYear_lt hyear)
  dsimp only
  rw [List.nil_append, slice_take hend, ok_bind]
  rfl

/-- Every name of a directory is parsed without a failing slice. -/
theorem parseMovieDirChecked_eq (name : Text) :
    parseMovieDirChecked name = .ok (parseMovieDir name) := by
  rw [parseMovieDirChecked, stripReleaseTagsChecked_eq, ok_bind, parseMovieStemChecked_eq,
    parseMovieDir]

end Kahawai.Core.Names
