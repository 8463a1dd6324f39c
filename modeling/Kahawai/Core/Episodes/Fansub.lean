import Kahawai.Core.Episodes.Slicing

/-!
# Fansub names and the arithmetic of their parser

`parse_anime` of `crates/kahawai-core/src/names.rs` with each slice, index and operation on machine
numbers checked. Two additions of `u32` can overflow: the depth of the brackets and the index of a
designation in its band.

Results:
* `parseFansubChecked_iff`: a fansub name passes every check exactly when its brackets nest less
  than 2^32 deep and the first explicit designation stays below 2^32 in its band.
-/

namespace Kahawai.Core.Names

open Text Lib Lib.Checked

/-! ## Model -/

/-- The characters outside brackets and parentheses (lines 445–454). -/
def stripTagGroupsChecked : (depth : ℕ) → Text → Checked Text
  | _, [] => .ok []
  | depth, c :: rest =>
    if c = '[' || c = '(' then do stripTagGroupsChecked (← add 32 depth 1) rest
    else if c = ']' || c = ')' then stripTagGroupsChecked (depth - 1) rest
    else if depth = 0 then do
      return (if c = '.' || c = '_' then ' ' else c) :: (← stripTagGroupsChecked depth rest)
    else stripTagGroupsChecked depth rest

/-- The index of a designator (lines 481–506): the digits attached to it, else what the next token
    says; the place of the token it takes and the end of its span. -/
def designatorIndex (digits : Text) (i : ℕ) (next : Option Text) :
    Option ℕ × Option ℕ × Option ℕ :=
  if !digits.isEmpty then (parseU32 digits, none, none)
  else match next with
    | none => (some 1, none, none)
    | some n =>
      if isDesignatorNumber n then (parseU32 n, some (i + 1), none)
      else match numRange n with
        | some (a, b) => (some a, some (i + 1), some b)
        | none =>
          match roman n with
          | some r => (some r, some (i + 1), none)
          | none => (some 1, none, none)

/-- A designator of the band (lines 507–508). -/
def designatorIn (digits : Text) (i : ℕ) (next : Option Text) (band : Option ℕ) : Designator :=
  let (index, consumed, spanEnd) := designatorIndex digits i next
  ⟨i, band, index.getD 1, consumed, spanEnd, !digits.isEmpty || consumed.isSome⟩

/-- The designator a token is (lines 471–508), with the token after it. -/
def designatorOfChecked (t : Text) (i : ℕ) (next : Option Text) : Checked (Option Designator) := do
  let split ← sub (byteLen t) (t.reverse.takeWhile isAsciiDigit).length
  let (base, digits) ← splitAt t split
  return (designatorBand base).map (designatorIn digits i next)

/-- The designator that counts (lines 470–514). -/
def findDesignatorChecked (tokens : List Text) : Checked (Option Designator) := do
  let cands ← tokens.zipIdx.mapM fun (t, i) => designatorOfChecked t i tokens[i + 1]?
  let all := cands.filterMap id
  return (all.find? fun d => d.explicit).or all.head?

/-- `title_tokens` (lines 528–554). -/
def titleTokensChecked (u : Unicode) (pathRel : Text) (tokens : List Text) : Checked ℕ :=
  match topDir pathRel with
  | none => .ok 0
  | some top => do
    let wanted := squash u (← parseMovieDirChecked top).title
    return if wanted.isEmpty then 0 else coveredTokens u wanted [] 0 tokens

/-- `episode_number` (lines 567–607). -/
def episodeNumberChecked (tokens : List Text) (designator : Option Designator) (covered : ℕ) :
    Checked (Option (ℕ × ℕ × Option ℕ)) :=
  match explicitEpisode tokens with
  | some (i, n) => .ok (some (i, n, none))
  | none =>
    tokens.zipIdx.reverse.findSomeM? fun (t, i) =>
      if designator.any fun d => d.consumed = some i then .ok none
      else if i < covered then .ok none
      else do
        let final ← sub tokens.length 1
        return (standaloneNumber t (i = final)).map fun (n, last) => (i, n, last)

/-- Whether the designator has an explicit index (lines 615–619). -/
def outranksChecked (tokens : List Text) (d : Designator) : Checked Bool :=
  if d.consumed.isSome then .ok true
  else do return (← index tokens d.place).getLast?.any isAsciiDigit

/-- The title before a designator (lines 621–625 and 650–654). -/
def titleBeforeChecked (pathRel : Text) (tokens : List Text) (i : ℕ) : Checked Text :=
  if i = 0 then .ok ((topDir pathRel).getD (lit "Unknown Show"))
  else do return join (lit " ") (← slice tokens 0 i)

/-- `span.map(|s| b + s)`. -/
def spanEndChecked (b : ℕ) : Option ℕ → Checked (Option ℕ)
  | none => .ok none
  | some s => do return some (← add 32 b s)

/-- The guess of a designator (lines 621–642 and 649–672). -/
def designatedGuessChecked (pathRel : Text) (tokens : List Text) (d : Designator) (b : ℕ) :
    Checked EpisodeGuess := do
  let title ← titleBeforeChecked pathRel tokens d.place
  let showGuess ← parseMovieDirChecked ((topDir pathRel).getD title)
  let episode ← add 32 b d.index
  let episodeEnd ← spanEndChecked b d.spanEnd
  return {
    showTitle := if showGuess.title.isEmpty then title else showGuess.title
    showYear := showGuess.year
    season := some 0
    episode := episode
    episodeEnd := episodeEnd
    episodeTitle := none }

/-- The guess of a number (lines 676–697). -/
def numberedGuessChecked (pathRel : Text) (tokens : List Text) (idx episode : ℕ)
    (episodeEnd : Option ℕ) : Checked EpisodeGuess := do
  let title := join (lit " ") (← slice tokens 0 idx)
  let title := if title.isEmpty then (topDir pathRel).getD (lit "Unknown Show") else title
  let showGuess ← parseMovieDirChecked ((topDir pathRel).getD title)
  let epTitle := join (lit " ") (← slice tokens (idx + 1) tokens.length)
  return {
    showTitle := if showGuess.title.isEmpty then title else showGuess.title
    showYear := showGuess.year
    season := none
    episode := episode
    episodeEnd := episodeEnd
    episodeTitle := if epTitle.isEmpty then none else some epTitle }

/-- A designator's guess, unless it is a film (lines 620 and 648). -/
def bandedGuessChecked (pathRel : Text) (tokens : List Text) (d : Designator) :
    Checked (Option EpisodeGuess) :=
  match d.band with
  | none => .ok none
  | some b => do return some (← designatedGuessChecked pathRel tokens d b)

/-- The match over the number and the designator (lines 608–697). -/
def settleGuessChecked (pathRel : Text) (tokens : List Text)
    (number : Option (ℕ × ℕ × Option ℕ)) (designator : Option Designator) :
    Checked (Option EpisodeGuess) := do
  match designator, ← designator.elim (.ok false) (outranksChecked tokens) with
  | some d, true => bandedGuessChecked pathRel tokens d
  | _, _ =>
    match number, designator with
    | some (idx, episode, episodeEnd), _ => do
      return some (← numberedGuessChecked pathRel tokens idx episode episodeEnd)
    | none, some d => bandedGuessChecked pathRel tokens d
    | none, none => return none

/-- The fansub branch of `parse_anime` (lines 440–697). -/
def parseFansubChecked (u : Unicode) (pathRel : Text) : Checked (Option EpisodeGuess) := do
  let stem := fileStem ((components pathRel).getLast?.getD [])
  let cleaned ← stripTagGroupsChecked 0 stem
  let tokens := (splitWhitespace cleaned).filter (· ≠ lit "-")
  let designator ← findDesignatorChecked tokens
  let covered ← titleTokensChecked u pathRel tokens
  let number ← episodeNumberChecked tokens designator covered
  settleGuessChecked pathRel tokens number designator

/-- `parse_anime` (lines 428–698). -/
def parseAnimeChecked (u : Unicode) (pathRel : Text) : Checked (Option EpisodeGuess) := do
  match ← parseEpisodeChecked pathRel with
  | some g =>
    match topDir pathRel with
    | some top =>
      let tg ← parseMovieDirChecked top
      return some { g with showTitle := tg.title, showYear := tg.year.or g.showYear }
    | none => return some g
  | none => parseFansubChecked u pathRel

/-! ## Brackets -/

/-- How deep the brackets nest. -/
def deepest : (depth : ℕ) → Text → ℕ
  | depth, [] => depth
  | depth, c :: rest =>
    if c = '[' || c = '(' then deepest (depth + 1) rest
    else if c = ']' || c = ')' then max depth (deepest (depth - 1) rest)
    else deepest depth rest

theorem le_deepest (depth : ℕ) (s : Text) : depth ≤ deepest depth s := by
  induction s generalizing depth with
  | nil => exact Nat.le_refl _
  | cons c rest ih =>
    rw [deepest]
    split_ifs
    · exact Nat.le_trans (Nat.le_succ _) (ih _)
    · exact Nat.le_max_left _ _
    · exact ih _

theorem stripTagGroupsChecked_eq {depth : ℕ} {s : Text} (h : deepest depth s < 2 ^ 32) :
    stripTagGroupsChecked depth s = .ok (stripTagGroups depth s) := by
  induction s generalizing depth with
  | nil => rfl
  | cons c rest ih =>
    rw [deepest] at h
    rw [stripTagGroupsChecked, stripTagGroups]
    by_cases hopen : (decide (c = '[') || decide (c = '(')) = true
    · simp only [if_pos hopen] at h ⊢
      rw [add_eq (Nat.lt_of_le_of_lt (le_deepest _ _) h), ok_bind, ih h]
    simp only [if_neg hopen] at h ⊢
    by_cases hclose : (decide (c = ']') || decide (c = ')')) = true
    · simp only [if_pos hclose] at h ⊢
      exact ih (Nat.lt_of_le_of_lt (Nat.le_max_right _ _) h)
    simp only [if_neg hclose] at h ⊢
    by_cases hdepth : depth = 0
    · simp only [if_pos hdepth, ih h, ok_bind, pure_eq]
    · simp only [if_neg hdepth, ih h]

theorem stripTagGroupsChecked_overflow {depth : ℕ} {s : Text} (hdepth : depth < 2 ^ 32)
    (h : 2 ^ 32 ≤ deepest depth s) : stripTagGroupsChecked depth s = .error .overflow := by
  induction s generalizing depth with
  | nil => exact absurd h (Nat.not_le.mpr hdepth)
  | cons c rest ih =>
    rw [deepest] at h
    rw [stripTagGroupsChecked]
    by_cases hopen : (decide (c = '[') || decide (c = '(')) = true
    · simp only [if_pos hopen] at h ⊢
      by_cases hstep : depth + 1 < 2 ^ 32
      · rw [add_eq hstep, ok_bind, ih hstep h]
      · rw [add_overflow (Nat.not_lt.mp hstep), error_bind]
    simp only [if_neg hopen] at h ⊢
    by_cases hclose : (decide (c = ']') || decide (c = ')')) = true
    · simp only [if_pos hclose] at h ⊢
      refine ih (Nat.lt_of_le_of_lt (Nat.sub_le _ _) hdepth) ?_
      rcases le_max_iff.mp h with h | h
      · exact absurd h (Nat.not_le.mpr hdepth)
      · exact h
    simp only [if_neg hclose] at h ⊢
    by_cases hzero : depth = 0
    · simp only [if_pos hzero, ih hdepth h, error_bind]
    · simp only [if_neg hzero, ih hdepth h]

/-! ## Designators -/

/-- The digits at the end of a token. -/
def tokenDigits (t : Text) : Text := (t.reverse.takeWhile isAsciiDigit).reverse

/-- What stands before them. -/
def tokenBase (t : Text) : Text := t.take (t.length - (tokenDigits t).length)

theorem tokenBase_append (t : Text) : tokenBase t ++ tokenDigits t = t := by
  have hwhole : (t.reverse.dropWhile isAsciiDigit).reverse ++ tokenDigits t = t := by
    rw [tokenDigits, ← List.reverse_append, List.takeWhile_append_dropWhile, List.reverse_reverse]
  have hbase : tokenBase t = (t.reverse.dropWhile isAsciiDigit).reverse := by
    calc tokenBase t
        = ((t.reverse.dropWhile isAsciiDigit).reverse ++ tokenDigits t).take
            (((t.reverse.dropWhile isAsciiDigit).reverse ++ tokenDigits t).length -
              (tokenDigits t).length) := by rw [hwhole, tokenBase]
      _ = (t.reverse.dropWhile isAsciiDigit).reverse := by
          rw [List.length_append, Nat.add_sub_cancel, List.take_left]
  rw [hbase, hwhole]

theorem isAsciiDigit_of_mem_tokenDigits {t : Text} {c : Char} (h : c ∈ tokenDigits t) :
    isAsciiDigit c = true := List.mem_takeWhile_imp (List.mem_reverse.mp h)

theorem byteLen_tokenDigits (t : Text) : byteLen (tokenDigits t) = (tokenDigits t).length := by
  have hsizes : (tokenDigits t).map Char.utf8Size = List.replicate (tokenDigits t).length 1 := by
    refine List.eq_replicate_iff.mpr ⟨List.length_map _, fun n hn => ?_⟩
    obtain ⟨c, hc, rfl⟩ := List.mem_map.mp hn
    have hdigit := (isAsciiDigit_iff c).mp (isAsciiDigit_of_mem_tokenDigits hc)
    exact utf8Size_ascii (decide_eq_true (by omega))
  rw [byteLen, hsizes, List.sum_replicate_nat, Nat.mul_one]

theorem designatorOf_eq (t : Text) (i : ℕ) (next : Option Text) :
    designatorOf t i next =
      (designatorBand (tokenBase t)).map (designatorIn (tokenDigits t) i next) := by
  unfold designatorOf
  dsimp only
  rw [← tokenDigits, ← tokenBase]
  cases designatorBand (tokenBase t) <;> rfl

theorem designatorOfChecked_eq (t : Text) (i : ℕ) (next : Option Text) :
    designatorOfChecked t i next = .ok (designatorOf t i next) := by
  have hcount : (t.reverse.takeWhile isAsciiDigit).length = byteLen (tokenDigits t) := by
    rw [byteLen_tokenDigits, tokenDigits, List.length_reverse]
  have hlength : byteLen t = byteLen (tokenBase t) + byteLen (tokenDigits t) := by
    rw [← byteLen_append, tokenBase_append]
  have hsplit : splitAt t (byteLen (tokenBase t)) = .ok (tokenBase t, tokenDigits t) := by
    have h := splitAt_append (tokenBase t) (tokenDigits t)
    rwa [tokenBase_append] at h
  rw [designatorOfChecked, hcount, sub_eq (by omega), ok_bind, hlength, Nat.add_sub_cancel, hsplit,
    ok_bind, designatorOf_eq]
  rfl

theorem findDesignatorChecked_eq (tokens : List Text) :
    findDesignatorChecked tokens = .ok (findDesignator tokens) := by
  have hall : (tokens.zipIdx.mapM fun (t, i) => designatorOfChecked t i tokens[i + 1]?) =
      .ok (tokens.zipIdx.map fun (t, i) => designatorOf t i tokens[i + 1]?) :=
    mapM_eq fun ⟨t, i⟩ _ => designatorOfChecked_eq t i _
  rw [findDesignatorChecked, hall, ok_bind, findDesignator]
  simp only [List.filterMap_map, pure_eq]
  rfl

/-! ## Numbers -/

theorem titleTokensChecked_eq (u : Unicode) (path : Text) (tokens : List Text) :
    titleTokensChecked u path tokens = .ok (titleTokens u path tokens) := by
  unfold titleTokensChecked titleTokens
  cases topDir path with
  | none => rfl
  | some top =>
    dsimp only
    rw [parseMovieDirChecked_eq, ok_bind]
    rfl

theorem episodeNumberChecked_eq (u : Unicode) (path : Text) (tokens : List Text)
    (designator : Option Designator) :
    episodeNumberChecked tokens designator (titleTokens u path tokens) =
      .ok (episodeNumber u path tokens designator) := by
  unfold episodeNumberChecked episodeNumber
  cases explicitEpisode tokens with
  | some found => rfl
  | none =>
    dsimp only
    refine findSomeM?_eq fun ⟨t, i⟩ hmem => ?_
    have hi : i < tokens.length := by
      simpa using List.snd_lt_of_mem_zipIdx (List.mem_reverse.mp hmem)
    have hfinal : decide (i = tokens.length - 1) = decide (i + 1 = tokens.length) :=
      decide_eq_decide.mpr (by omega)
    dsimp only
    split_ifs
    · rfl
    · rfl
    · rw [sub_eq (by omega), ok_bind, hfinal]
      rfl

theorem episodeNumber_lt {u : Unicode} {path : Text} {tokens : List Text}
    {designator : Option Designator} {i : ℕ} {m : ℕ × Option ℕ}
    (h : episodeNumber u path tokens designator = some (i, m)) : i < tokens.length := by
  unfold episodeNumber at h
  split at h
  · rename_i j n hexplicit
    cases Option.some.inj h
    obtain ⟨⟨t, j⟩, hmem, hmark⟩ := List.exists_of_findSome?_eq_some hexplicit
    have hj := List.snd_lt_of_mem_zipIdx hmem
    dsimp only at hmark
    split at hmark
    · cases hmark
    split_ifs at hmark
    obtain ⟨k, -, heq⟩ := Option.map_eq_some_iff.mp hmark
    cases heq
    simpa using hj
  · obtain ⟨⟨t, j⟩, hmem, hmark⟩ := List.exists_of_findSome?_eq_some h
    have hj := List.snd_lt_of_mem_zipIdx (List.mem_reverse.mp hmem)
    dsimp only at hmark
    split_ifs at hmark
    obtain ⟨k, -, heq⟩ := Option.map_eq_some_iff.mp hmark
    cases heq
    simpa using hj

/-! ## Bounds of an index -/

theorem digitsValue_lt {s : Text} (h : ∀ c ∈ s, isAsciiDigit c = true) :
    digitsValue s < 10 ^ s.length := by
  induction s using List.reverseRecOn with
  | nil => simp [digitsValue]
  | append_singleton s c ih =>
    have hc := (isAsciiDigit_iff c).mp (h c (by simp))
    have hs := ih fun x hx => h x (List.mem_append_left _ hx)
    have hzero : '0'.toNat = 48 := rfl
    have hstep : digitsValue (s ++ [c]) = 10 * digitsValue s + (c.toNat - '0'.toNat) := by
      rw [digitsValue, List.foldl_append]
      rfl
    rw [hstep, List.length_append, List.length_singleton, Nat.pow_succ]
    omega

theorem length_le_byteLen (s : Text) : s.length ≤ byteLen s := by
  induction s with
  | nil => exact Nat.le_refl _
  | cons c s ih =>
    have := c.utf8Size_pos
    rw [List.length_cons, byteLen_cons]
    omega

/-- The number in a text of few digits. -/
theorem parseU32_lt_pow {s : Text} {n k : ℕ} (h : parseU32 s = some n) (hk : byteLen s ≤ k)
    (hdigits : s.all isAsciiDigit = true) : n < 10 ^ k := by
  have hplus : stripPrefixChar (· = '+') s = none := by
    cases s with
    | nil => rfl
    | cons c s =>
      rw [stripPrefixChar, if_neg]
      intro hc
      rw [List.all_cons, of_decide_eq_true hc] at hdigits
      exact absurd hdigits (by simp [isAsciiDigit])
  rw [parseU32, parseUnsigned, hplus, Option.getD_none] at h
  split_ifs at h
  obtain rfl := Option.some.inj h
  calc digitsValue s < 10 ^ s.length := digitsValue_lt (List.all_eq_true.mp hdigits)
    _ ≤ 10 ^ k := Nat.pow_le_pow_right (by omega) (Nat.le_trans (length_le_byteLen s) hk)

theorem numRange_lt {t : Text} {a b : ℕ} (h : numRange t = some (a, b)) : a < b ∧ b < 1000 := by
  unfold numRange at h
  split at h
  · cases h
  rename_i x y _
  split_ifs at h with hlength hdigits
  split at h
  · rename_i m n hm hn
    split_ifs at h with hlt
    cases Option.some.inj h
    simp only [Bool.or_eq_true, decide_eq_true_eq, not_or] at hlength
    simp only [Bool.or_eq_true, Bool.not_eq_true', not_or, Bool.not_eq_false] at hdigits
    exact ⟨hlt, parseU32_lt_pow hn (Nat.not_lt.mp hlength.2) hdigits.2⟩
  · cases h

theorem roman_le {t : Text} {n : ℕ} (h : roman t = some n) : n ≤ 13 := by
  obtain ⟨i, hi, rfl⟩ := Option.map_eq_some_iff.mp h
  have hlt := List.findIdx?_eq_some_iff_findIdx_eq.mp hi
  exact hlt.1

theorem designatorIndex_digits {digits : Text} (i : ℕ) (next : Option Text)
    (h : digits.isEmpty = false) :
    designatorIndex digits i next = (parseU32 digits, none, none) := by
  unfold designatorIndex
  exact if_pos (by simp [h])

/-- The index that the next token gives, and the span, are small. -/
theorem designatorIndex_small {digits : Text} {i : ℕ} {next : Option Text}
    (h : digits.isEmpty = true) :
    (designatorIndex digits i next).1.getD 1 < 10000 ∧
      ∀ s ∈ (designatorIndex digits i next).2.2, (designatorIndex digits i next).1.getD 1 < s ∧
        s < 1000 := by
  unfold designatorIndex
  rw [if_neg (by simp [h])]
  cases next with
  | none => simp
  | some n =>
    dsimp only
    split_ifs with hnumber
    · refine ⟨?_, by simp⟩
      simp only [isDesignatorNumber, Bool.and_eq_true, decide_eq_true_eq] at hnumber
      cases hn : parseU32 n with
      | none => exact (by decide : 1 < 10000)
      | some m => exact parseU32_lt_pow hn hnumber.1.1 hnumber.1.2
    · cases hrange : numRange n with
      | some ab =>
        obtain ⟨a, b⟩ := ab
        have hlt := numRange_lt hrange
        dsimp only [Option.getD_some]
        exact ⟨by omega, by simpa using hlt⟩
      | none =>
        cases hroman : roman n with
        | some r =>
          have hle := roman_le hroman
          dsimp only [Option.getD_some]
          exact ⟨by omega, by simp⟩
        | none => simp

/-! ## The designator that counts -/

/-- A word of a band with an attached number that passes `u32` in that band. -/
def passesWord (t : Text) : Bool :=
  match designatorBand (tokenBase t), parseU32 (tokenDigits t) with
  | some (some b), some n => 2 ^ 32 ≤ b + n
  | _, _ => false

/-- A designation with an explicit index stands at this place. -/
def isExplicit (tokens : List Text) (i : ℕ) : Bool :=
  (tokens[i]?.bind fun t => designatorOf t i tokens[i + 1]?).any fun d => d.explicit

/-- The first explicit designation stays below 2^32 in its band. -/
def Indexed (tokens : List Text) : Prop :=
  ∀ i t, tokens[i]? = some t → (∀ j < i, isExplicit tokens j = false) → passesWord t = false

theorem designatorBand_le {base : Text} {b : ℕ} (h : designatorBand base = some (some b)) :
    b ≤ 120 := by
  unfold designatorBand at h
  dsimp only at h
  split_ifs at h
  · cases h; omega
  · cases h; omega
  · cases h; omega
  · cases h

theorem passesWord_digits {t : Text} (h : passesWord t = true) : (tokenDigits t).isEmpty = false := by
  unfold passesWord at h
  split at h
  · rename_i hnumber
    cases hdigits : tokenDigits t with
    | nil =>
      rw [hdigits] at hnumber
      cases hnumber
    | cons c s => rfl
  · cases h

theorem designatorIn_explicit {digits : Text} (i : ℕ) (next : Option Text) (band : Option ℕ)
    (h : digits.isEmpty = false) : (designatorIn digits i next band).explicit = true := by
  simp [designatorIn, h]

/-- The sums of a designator with its band stay below 2^32 exactly when its token does not pass. -/
theorem designatorIn_sums {t : Text} (i : ℕ) (next : Option Text) {b : ℕ}
    (hband : designatorBand (tokenBase t) = some (some b)) :
    (b + (designatorIn (tokenDigits t) i next (some b)).index < 2 ^ 32 ↔ passesWord t = false) ∧
      ∀ s ∈ (designatorIn (tokenDigits t) i next (some b)).spanEnd, b + s < 2 ^ 32 ∧
        (designatorIn (tokenDigits t) i next (some b)).index < s := by
  have hb := designatorBand_le hband
  cases hdigits : (tokenDigits t).isEmpty with
  | true =>
    have hpass : passesWord t = false := by
      cases hpass : passesWord t with
      | false => rfl
      | true => exact absurd (passesWord_digits hpass) (by simp [hdigits])
    obtain ⟨hindex, hspan⟩ := @designatorIndex_small _ i next hdigits
    refine ⟨⟨fun _ => hpass, fun _ => ?_⟩, fun s hs => ?_⟩
    · show b + (designatorIndex (tokenDigits t) i next).1.getD 1 < 2 ^ 32
      omega
    · obtain ⟨hlt, hs⟩ := hspan s hs
      exact ⟨by omega, hlt⟩
  | false =>
    simp only [designatorIn, designatorIndex_digits i next hdigits, passesWord, hband]
    refine ⟨?_, by simp⟩
    cases parseU32 (tokenDigits t) with
    | none =>
      dsimp only [Option.getD_none]
      exact ⟨fun _ => rfl, fun _ => by omega⟩
    | some n =>
      dsimp only [Option.getD_some]
      rw [decide_eq_false_iff_not]
      omega

/-- The designator that counts is that of its token. -/
theorem findDesignator_token {tokens : List Text} {d : Designator}
    (h : findDesignator tokens = some d) :
    ∃ t, tokens[d.place]? = some t ∧ designatorBand (tokenBase t) = some d.band ∧
      d = designatorIn (tokenDigits t) d.place tokens[d.place + 1]? d.band := by
  have hmem : d ∈ tokens.zipIdx.filterMap fun (t, i) => designatorOf t i tokens[i + 1]? := by
    rcases Option.or_eq_some_iff.mp h with hfind | ⟨-, hhead⟩
    · exact List.mem_of_find?_eq_some hfind
    · exact List.mem_of_mem_head? hhead
  obtain ⟨⟨t, i⟩, hzip, hd⟩ := List.mem_filterMap.mp hmem
  dsimp only at hd
  rw [designatorOf_eq] at hd
  obtain ⟨band, hband, rfl⟩ := Option.map_eq_some_iff.mp hd
  have ht : tokens[i]? = some t := (List.mem_zipIdx_iff_getElem? (x := (t, i))).mp hzip
  exact ⟨t, ht, hband, rfl⟩

/-- The first explicit designation counts. -/
theorem findDesignator_explicit {tokens : List Text} {i : ℕ} {t : Text}
    (ht : tokens[i]? = some t) (hfirst : ∀ j < i, isExplicit tokens j = false)
    (hexplicit : isExplicit tokens i = true) :
    findDesignator tokens = designatorOf t i tokens[i + 1]? := by
  have hplace : ∀ j (hj : j < tokens.length),
      (designatorOf tokens[j] j tokens[j + 1]?).any (fun d => d.explicit) = isExplicit tokens j := by
    intro j hj
    rw [isExplicit, List.getElem?_eq_getElem hj, Option.bind_some]
  obtain ⟨hi, rfl⟩ := List.getElem?_eq_some_iff.mp ht
  have hfind : tokens.zipIdx.find? (fun (t, i) =>
      (designatorOf t i tokens[i + 1]?).any fun d => d.explicit) = some (tokens[i], i) := by
    rw [List.find?_eq_some_iff_getElem]
    refine ⟨(hplace i hi).trans hexplicit, i, by simpa using hi, by simp, fun j hj => ?_⟩
    have hj' : j < tokens.length := Nat.lt_trans hj hi
    simp only [List.getElem_zipIdx, Nat.zero_add, hplace j hj', hfirst j hj]
    rfl
  have hsome : (designatorOf tokens[i] i tokens[i + 1]?).isSome = true := by
    rw [← hplace i hi] at hexplicit
    cases hd : designatorOf tokens[i] i tokens[i + 1]? with
    | none =>
      rw [hd] at hexplicit
      cases hexplicit
    | some d => rfl
  unfold findDesignator
  dsimp only
  rw [List.find?_filterMap, hfind, Option.bind_some, Option.or_of_isSome hsome]

theorem isExplicit_of_passesWord {tokens : List Text} {i : ℕ} {t : Text}
    (ht : tokens[i]? = some t) (h : passesWord t = true) :
    isExplicit tokens i = true ∧ ∃ b, designatorBand (tokenBase t) = some (some b) ∧
      designatorOf t i tokens[i + 1]? =
        some (designatorIn (tokenDigits t) i tokens[i + 1]? (some b)) := by
  have hdigits := passesWord_digits h
  unfold passesWord at h
  split at h
  · rename_i b n hband hnumber
    have hd : designatorOf t i tokens[i + 1]? =
        some (designatorIn (tokenDigits t) i tokens[i + 1]? (some b)) := by
      rw [designatorOf_eq, hband, Option.map_some]
    refine ⟨?_, b, hband, hd⟩
    rw [isExplicit, ht, Option.bind_some, hd, Option.any_some]
    exact designatorIn_explicit _ _ _ hdigits
  · cases h

/-- Nothing before the designator that counts is explicit. -/
theorem findDesignator_first {tokens : List Text} {d : Designator}
    (h : findDesignator tokens = some d) : ∀ j < d.place, isExplicit tokens j = false := by
  intro j hj
  cases hj' : isExplicit tokens j with
  | false => rfl
  | true =>
    have hex : ∃ i, isExplicit tokens i = true := ⟨j, hj'⟩
    obtain ⟨i, hi, hmin⟩ : ∃ i, isExplicit tokens i = true ∧ ∀ k < i, isExplicit tokens k = false :=
      ⟨Nat.find hex, Nat.find_spec hex, fun k hk => Bool.eq_false_iff.mpr (Nat.find_min hex hk)⟩
    obtain ⟨t, ht⟩ : ∃ t, tokens[i]? = some t := by
      cases ht : tokens[i]? with
      | none =>
        rw [isExplicit, ht] at hi
        cases hi
      | some t => exact ⟨t, rfl⟩
    rw [findDesignator_explicit ht hmin hi, designatorOf_eq] at h
    obtain ⟨band, -, rfl⟩ := Option.map_eq_some_iff.mp h
    have hlt : ¬ j < i := fun hlt => by
      rw [hmin j hlt] at hj'
      cases hj'
    exact absurd hj hlt

/-- In terms of the designator that counts. -/
theorem indexed_iff (tokens : List Text) :
    Indexed tokens ↔ ∀ d, findDesignator tokens = some d → ∀ b, d.band = some b →
      b + d.index < 2 ^ 32 := by
  constructor
  · intro h d hd b hb
    obtain ⟨t, ht, hband, heq⟩ := findDesignator_token hd
    rw [hb] at hband heq
    rw [heq, (designatorIn_sums _ _ hband).1]
    exact h d.place t ht (findDesignator_first hd)
  · intro h i t ht hfirst
    cases hpass : passesWord t with
    | false => rfl
    | true =>
      obtain ⟨hexplicit, b, hband, hd⟩ := isExplicit_of_passesWord ht hpass
      have hsum := h _ ((findDesignator_explicit ht hfirst hexplicit).trans hd) b rfl
      rw [(designatorIn_sums _ _ hband).1, hpass] at hsum
      cases hsum

/-! ## Guesses -/

theorem designatedGuessChecked_eq (path : Text) {tokens : List Text} {d : Designator} {b : ℕ}
    (hplace : d.place ≤ tokens.length) (hindex : b + d.index < 2 ^ 32)
    (hspan : ∀ s ∈ d.spanEnd, b + s < 2 ^ 32) :
    designatedGuessChecked path tokens d b = .ok (designatedGuess path tokens d b) := by
  have htitle : titleBeforeChecked path tokens d.place = .ok (showBefore path tokens d.place).2 := by
    unfold titleBeforeChecked showBefore
    split_ifs with hzero
    · rfl
    · rw [slice_take hplace, ok_bind]
      rfl
  have hend : spanEndChecked b d.spanEnd = .ok (d.spanEnd.map (wrappingAdd b)) := by
    cases hs : d.spanEnd with
    | none => rfl
    | some s =>
      have hlt := hspan s hs
      rw [spanEndChecked, add_eq hlt, ok_bind, Option.map_some, wrappingAdd, Nat.mod_eq_of_lt hlt]
      rfl
  rw [designatedGuessChecked, htitle, ok_bind, parseMovieDirChecked_eq, ok_bind, add_eq hindex,
    ok_bind, hend, ok_bind, designatedGuess, wrappingAdd, Nat.mod_eq_of_lt hindex]
  rfl

theorem designatedGuessChecked_overflow (path : Text) {tokens : List Text} {d : Designator} {b : ℕ}
    (hplace : d.place ≤ tokens.length) (hindex : 2 ^ 32 ≤ b + d.index) :
    designatedGuessChecked path tokens d b = .error .overflow := by
  have htitle : ∃ title, titleBeforeChecked path tokens d.place = .ok title := by
    unfold titleBeforeChecked
    split_ifs with hzero
    · exact ⟨_, rfl⟩
    · rw [slice_take hplace, ok_bind]
      exact ⟨_, rfl⟩
  obtain ⟨title, htitle⟩ := htitle
  rw [designatedGuessChecked, htitle, ok_bind, parseMovieDirChecked_eq, ok_bind,
    add_overflow hindex, error_bind]

/-- The guess of a number, without the checks. -/
def numberedGuess (path : Text) (tokens : List Text) (idx episode : ℕ) (episodeEnd : Option ℕ) :
    EpisodeGuess :=
  let title := join (lit " ") (tokens.take idx)
  let title := if title.isEmpty then (topDir path).getD (lit "Unknown Show") else title
  let showGuess := parseMovieDir ((topDir path).getD title)
  let epTitle := join (lit " ") (tokens.drop (idx + 1))
  { showTitle := if showGuess.title.isEmpty then title else showGuess.title
    showYear := showGuess.year
    season := none
    episode := episode
    episodeEnd := episodeEnd
    episodeTitle := if epTitle.isEmpty then none else some epTitle }

theorem numberedGuessChecked_eq (path : Text) {tokens : List Text} {idx : ℕ} (episode : ℕ)
    (episodeEnd : Option ℕ) (hidx : idx < tokens.length) :
    numberedGuessChecked path tokens idx episode episodeEnd =
      .ok (numberedGuess path tokens idx episode episodeEnd) := by
  rw [numberedGuessChecked, slice_take (Nat.le_of_lt hidx), ok_bind]
  dsimp only
  rw [parseMovieDirChecked_eq, ok_bind, slice_suffix hidx, ok_bind]
  rfl

/-- Whether the designator has an explicit index, without the checks. -/
def outranks (tokens : List Text) (d : Designator) : Bool :=
  d.consumed.isSome || (tokens.getD d.place []).getLast?.any isAsciiDigit

theorem outranksChecked_eq {tokens : List Text} {d : Designator} (h : d.place < tokens.length) :
    outranksChecked tokens d = .ok (outranks tokens d) := by
  unfold outranksChecked outranks
  cases d.consumed.isSome with
  | true => rfl
  | false =>
    rw [if_neg Bool.false_ne_true, index_eq (List.getElem?_eq_getElem h), ok_bind,
      List.getD_eq_getElem?_getD, List.getElem?_eq_getElem h]
    rfl

/-- The sums of a designator with its band. -/
def SumsBelow (tokens : List Text) (d : Designator) : Prop :=
  d.place < tokens.length ∧
    ∀ b, d.band = some b → b + d.index < 2 ^ 32 ∧ ∀ s ∈ d.spanEnd, b + s < 2 ^ 32

theorem bandedGuessChecked_eq (path : Text) {tokens : List Text} {d : Designator}
    (h : SumsBelow tokens d) :
    bandedGuessChecked path tokens d = .ok (d.band.map (designatedGuess path tokens d)) := by
  unfold bandedGuessChecked
  cases hb : d.band with
  | none => rfl
  | some b =>
    obtain ⟨hindex, hspan⟩ := h.2 b hb
    dsimp only
    rw [designatedGuessChecked_eq path (Nat.le_of_lt h.1) hindex hspan, ok_bind]
    rfl

/-- The match over the number and the designator, without the checks. -/
def settleGuess (path : Text) (tokens : List Text) (number : Option (ℕ × ℕ × Option ℕ))
    (designator : Option Designator) : Option EpisodeGuess :=
  match designator.filter (outranks tokens) with
  | some d => d.band.map (designatedGuess path tokens d)
  | none =>
    match number with
    | none => designator.bind fun d => d.band.map (designatedGuess path tokens d)
    | some (idx, episode, episodeEnd) => some (numberedGuess path tokens idx episode episodeEnd)

theorem settleGuessChecked_eq (path : Text) {tokens : List Text}
    {number : Option (ℕ × ℕ × Option ℕ)} {designator : Option Designator}
    (hd : ∀ d ∈ designator, SumsBelow tokens d)
    (hn : ∀ m ∈ number, m.1 < tokens.length) :
    settleGuessChecked path tokens number designator =
      .ok (settleGuess path tokens number designator) := by
  have hnumbered : ∀ m ∈ number, (do
      return some (← numberedGuessChecked path tokens m.1 m.2.1 m.2.2)) =
        (.ok (some (numberedGuess path tokens m.1 m.2.1 m.2.2)) : Checked (Option EpisodeGuess)) := by
    intro m hm
    rw [numberedGuessChecked_eq path _ _ (hn m hm), ok_bind]
    rfl
  unfold settleGuessChecked settleGuess
  cases designator with
  | none =>
    cases number with
    | none => rfl
    | some m => exact hnumbered m rfl
  | some d =>
    have hsums := hd d rfl
    rw [Option.elim_some, outranksChecked_eq hsums.1, ok_bind]
    cases houtranks : outranks tokens d with
    | true =>
      rw [Option.filter_some, if_pos houtranks]
      exact bandedGuessChecked_eq path hsums
    | false =>
      rw [Option.filter_some, if_neg (by simp [houtranks])]
      cases number with
      | none => exact bandedGuessChecked_eq path hsums
      | some m => exact hnumbered m rfl

theorem settleGuessChecked_overflow (path : Text) {tokens : List Text} {d : Designator} {b : ℕ}
    (number : Option (ℕ × ℕ × Option ℕ)) (hplace : d.place < tokens.length) (hband : d.band = some b)
    (houtranks : outranks tokens d = true) (h : 2 ^ 32 ≤ b + d.index) :
    settleGuessChecked path tokens number (some d) = .error .overflow := by
  unfold settleGuessChecked
  rw [Option.elim_some, outranksChecked_eq hplace, ok_bind, houtranks]
  dsimp only
  rw [bandedGuessChecked, hband]
  dsimp only
  rw [designatedGuessChecked_overflow path (Nat.le_of_lt hplace) h, error_bind]

/-! ## The parser -/

/-- The tokens of a fansub name. -/
def fansubTokens (path : Text) : List Text :=
  (splitWhitespace (stripTagGroups 0 (fileStem ((components path).getLast?.getD [])))).filter
    (· ≠ lit "-")

/-- How deep the brackets of a file name nest. -/
def nesting (path : Text) : ℕ := deepest 0 (fileStem ((components path).getLast?.getD []))

theorem parseFansub_eq (u : Unicode) (path : Text) :
    parseFansub u path = settleGuess path (fansubTokens path)
      (episodeNumber u path (fansubTokens path) (findDesignator (fansubTokens path)))
      (findDesignator (fansubTokens path)) := by
  unfold parseFansub settleGuess outranks
  dsimp only
  rw [← fansubTokens]
  rfl

theorem sumsBelow_of_indexed {tokens : List Text} (h : Indexed tokens) :
    ∀ d ∈ findDesignator tokens, SumsBelow tokens d := by
  intro d hd
  obtain ⟨t, ht, hband, heq⟩ := findDesignator_token hd
  refine ⟨(List.getElem?_eq_some_iff.mp ht).1, fun b hb => ⟨(indexed_iff tokens).mp h d hd b hb, ?_⟩⟩
  rw [hb] at hband heq
  intro s hs
  rw [heq] at hs
  exact ((designatorIn_sums _ _ hband).2 s hs).1

/-- What a fansub name needs to pass every check. -/
theorem parseFansubChecked_eq (u : Unicode) {path : Text} (hnesting : nesting path < 2 ^ 32)
    (hindexed : Indexed (fansubTokens path)) :
    parseFansubChecked u path = .ok (parseFansub u path) := by
  rw [parseFansub_eq, parseFansubChecked]
  dsimp only
  rw [stripTagGroupsChecked_eq hnesting, ok_bind, ← fansubTokens, findDesignatorChecked_eq, ok_bind,
    titleTokensChecked_eq, ok_bind, episodeNumberChecked_eq, ok_bind]
  exact settleGuessChecked_eq path (sumsBelow_of_indexed hindexed)
    fun m hm => episodeNumber_lt (u := u) (m := m.2) hm

/-- A first explicit designation that passes `u32` is the one that counts. -/
theorem outranks_of_passesWord {tokens : List Text} {i : ℕ} {t : Text} (next : Option Text)
    (band : Option ℕ) (ht : tokens[i]? = some t) (h : passesWord t = true) :
    outranks tokens (designatorIn (tokenDigits t) i next band) = true := by
  obtain ⟨c, digits, hdigits⟩ : ∃ digits c, tokenDigits t = digits ++ [c] := by
    rcases List.eq_nil_or_concat (tokenDigits t) with hnil | ⟨digits, c, hdigits⟩
    · have hne := passesWord_digits h
      rw [hnil] at hne
      cases hne
    · exact ⟨digits, c, hdigits.trans List.concat_eq_append⟩
  have hlast : t.getLast? = some digits := by
    rw [← tokenBase_append t, hdigits, ← List.append_assoc, List.getLast?_concat]
  have hdigit : isAsciiDigit digits = true :=
    isAsciiDigit_of_mem_tokenDigits (t := t) (by rw [hdigits]; simp)
  have hplace : (designatorIn (tokenDigits t) i next band).place = i := rfl
  rw [outranks, hplace, List.getD_eq_getElem?_getD, ht, Option.getD_some, hlast, Option.any_some,
    hdigit, Bool.or_true]

theorem parseFansubChecked_passes (u : Unicode) {path : Text} (hnesting : nesting path < 2 ^ 32)
    (h : ¬ Indexed (fansubTokens path)) : parseFansubChecked u path = .error .overflow := by
  simp only [Indexed, not_forall, Bool.not_eq_false] at h
  obtain ⟨i, t, ht, hfirst, hpass⟩ := h
  obtain ⟨hexplicit, b, hband, hd⟩ := isExplicit_of_passesWord ht hpass
  have hchosen := (findDesignator_explicit ht hfirst hexplicit).trans hd
  have hsum : 2 ^ 32 ≤ b + (designatorIn (tokenDigits t) i (fansubTokens path)[i + 1]? (some b)).index := by
    refine Nat.not_lt.mp fun hlt => ?_
    rw [(designatorIn_sums _ _ hband).1, hpass] at hlt
    cases hlt
  rw [parseFansubChecked]
  dsimp only
  rw [stripTagGroupsChecked_eq hnesting, ok_bind, ← fansubTokens, findDesignatorChecked_eq, ok_bind,
    titleTokensChecked_eq, ok_bind, episodeNumberChecked_eq, ok_bind, hchosen]
  exact settleGuessChecked_overflow path _ (List.getElem?_eq_some_iff.mp ht).1 rfl
    (outranks_of_passesWord _ _ ht hpass) hsum

/-- When a fansub name passes every check. -/
theorem parseFansubChecked_iff (u : Unicode) (path : Text) :
    (∃ a, parseFansubChecked u path = .ok a) ↔
      nesting path < 2 ^ 32 ∧ Indexed (fansubTokens path) := by
  constructor
  · rintro ⟨a, ha⟩
    by_cases hnesting : nesting path < 2 ^ 32
    · refine ⟨hnesting, ?_⟩
      by_contra hindexed
      rw [parseFansubChecked_passes u hnesting hindexed] at ha
      cases ha
    · have hover := stripTagGroupsChecked_overflow (by omega) (Nat.not_lt.mp hnesting)
      rw [parseFansubChecked, hover, error_bind] at ha
      cases ha
  · rintro ⟨hnesting, hindexed⟩
    exact ⟨_, parseFansubChecked_eq u hnesting hindexed⟩

end Kahawai.Core.Names
