import Kahawai.Intro.BlackFrame
import Mathlib.Algebra.Order.Group.MinMax
import Mathlib.Tactic.Ring
import Mathlib.Tactic.FieldSimp

/-!
# Which credits the black frames lead to

`black_frame_credits` (`crates/kahawai-intro/src/season.rs`, lines 695–733) on a signal that is
black exactly from some time on. Distances are from the end of the file: `p` is where the search
starts, `x` is where the credits begin, and the shortest credits are 15 seconds long.

Results:
* `findCredits_iff`: the search returns the beginning of the credits, with an error of 4 seconds at
  most, unless it stops below them (`Unreached`) or above them (`Overlooked`).
* `blackFrameCredits_iff`: so does the function, from any position that is carried over.
-/

namespace Kahawai.Intro

open Kahawai.Lib.Probing

/-! ## Model -/

/-- `Episode::credits_window`: where the window starts. -/
def creditsStart (duration maximumCreditsDuration : ℚ) : ℚ :=
  max (duration - min duration maximumCreditsDuration) 0

/-- The call of `find_credits`, and the position that the next episode starts from. -/
def creditsFrom {ε : Type} (duration start p : ℚ) (probe : Probe ε) (fuel n : ℕ) :
    Ending ε (Option Range × ℚ) :=
  (findCredits .default duration start p probe fuel n).2.map fun found =>
    match found with
    | some credit =>
      (some credit, duration - credit.start + BlackFrameParams.default.minimumCreditsDuration)
    | none => (none, p)

/-- `black_frame_credits`: the credits, and `search_start` after the call. -/
def blackFrameCredits {ε : Type} (duration maximumCreditsDuration searchStart : ℚ) (probe : Probe ε)
    (fuel : ℕ) : Ending ε (Option Range × ℚ) :=
  if duration ≤ 0 then .returned (none, searchStart)
  else
    let start := creditsStart duration maximumCreditsDuration
    let searchStart := if duration - start < searchStart then 0 else searchStart
    if searchStart < BlackFrameParams.default.minimumCreditsDuration then
      match findSearchStart .default duration start probe fuel 0 with
      | (asked, .returned p) => creditsFrom duration start p probe fuel asked.length
      | (_, .failed e) => .failed e
      | (_, .unfinished) => .unfinished
    else creditsFrom duration start searchStart probe fuel 0

/-! ## The signal and the positions that go wrong -/

/-- The frames of a window of a file that is black exactly from `c` on. -/
def BlackFrames (c : ℚ) (w : Window) (black : List ℚ) : Prop :=
  (w.stop ≤ c → black = []) ∧ (c < w.stop → black.head? = some (max c w.start - w.start))

/-- A probe that reads such a file. -/
structure BlackFrom {ε : Type} (c : ℚ) (probe : Probe ε) : Prop where
  answers : Answers probe (BlackFrames c)
  reads : ∀ n w, ∃ black, probe n w = .ok black

/-- How far above the lower limit a search without a hit has come when it moves the limit for the
`n`-th time. -/
def leftover (n : ℕ) : ℚ := 1 - 3 / 4 ^ (n + 1)

/-- A search from `p` without a hit has a bracket of this size when its lower limit cannot be moved
any more. -/
inductive Lowest (p : ℚ) : ℚ → Prop
  | near (h : p ≤ 45) : Lowest p (p - 15)
  | far (n : ℕ) (r : ℚ) (hr : 0 < r) (hr' : r ≤ 15) (h : p = 45 + 15 * n + r) :
    Lowest p (r + leftover n)

/-- The halving of the lowest bracket steps over the credits, and the search stops above them. -/
def Overlooked (p x : ℚ) : Prop :=
  ∃ g, Lowest p g ∧
    (x - 15 ≤ g ∧ g ≤ 4 ∨ 2 * (x - 13) ≤ g ∧ g ≤ 12 ∨ 4 * (x - 12) ≤ g ∧ g ≤ 28)

/-- The credits are above the position, and the bracket comes to just the size where the search
ends before the upper limit is moved. -/
def Unreached (p x : ℚ) : Prop := p < x ∧ (p ≤ 19 ∨ p = 23 ∨ p = 31)

theorem leftover_zero : leftover 0 = 1 / 4 := by norm_num [leftover]

theorem leftover_succ (n : ℕ) : leftover (n + 1) = 3 / 4 + leftover n / 4 := by
  unfold leftover
  rw [pow_succ 4 (n + 1)]
  field_simp
  ring

theorem leftover_bounds (n : ℕ) : 0 < leftover n ∧ leftover n < 1 := by
  induction n with
  | zero =>
    rw [leftover_zero]
    norm_num
  | succ n ih =>
    rw [leftover_succ]
    exact ⟨by linarith [ih.1], by linarith [ih.2]⟩

/-- Every position is near or far. -/
theorem exists_lowest {p : ℚ} : ∃ g, Lowest p g := by
  by_cases h : p ≤ 45
  · exact ⟨_, .near h⟩
  · have hsteps : 0 ≤ (p - 45) / 15 := by
      rw [le_div_iff₀ (by norm_num)]
      linarith
    obtain ⟨n, hn⟩ : ∃ n : ℕ, (n : ℚ) < (p - 45) / 15 ∧ (p - 45) / 15 ≤ n + 1 := by
      have hpos : 0 < ⌈(p - 45) / 15⌉₊ := Nat.ceil_pos.mpr (by
        rw [lt_div_iff₀ (by norm_num)]
        linarith)
      refine ⟨⌈(p - 45) / 15⌉₊ - 1, ?_, ?_⟩
      · rw [← Nat.lt_ceil]
        omega
      · have := Nat.le_ceil ((p - 45) / 15)
        rwa [Nat.cast_pred hpos, sub_add_cancel]
    rw [lt_div_iff₀ (by norm_num), div_le_iff₀ (by norm_num)] at hn
    exact ⟨_, .far n (p - 45 - 15 * n) (by linarith) (by linarith) (by ring)⟩

/-! ## A round -/

section
variable {duration start x : ℚ} {s : Bracket} {black : List ℚ}

theorem default_error : BlackFrameParams.default.maximumError = 4 := rfl

/-- The window of the round. -/
def Bracket.window (duration : ℚ) (s : Bracket) : Window :=
  ⟨duration - s.midpoint, duration - s.midpoint + 2⟩

theorem ask_default {w : Window}
    (h : (creditsSearch .default duration start).ask s = some w) :
    4 < s.searchStart - s.searchEnd ∧ w = s.window duration := by
  obtain ⟨hgap, -, -, hw⟩ := ask_creditsSearch (by rw [default_error]; norm_num) h
  exact ⟨hgap, hw⟩

theorem ask_none (h : (creditsSearch .default duration start).ask s = none) :
    s.searchStart - s.searchEnd ≤ 4 := by
  simp only [creditsSearch] at h
  split_ifs at h with hgap
  rw [default_error] at hgap
  linarith

theorem black_of_miss (hblack : BlackFrames (duration - x) (s.window duration) black)
    (hx : x + 2 ≤ s.midpoint) : black = [] :=
  hblack.1 (by simp only [Bracket.window]; linarith)

theorem tell_miss (hblack : BlackFrames (duration - x) (s.window duration) black)
    (hx : x + 2 ≤ s.midpoint) (hlimit : 4 ≤ s.midpoint - s.lowerLimit) :
    (creditsSearch .default duration start).tell s black =
      { s with searchStart := s.midpoint - 2 } := by
  rw [black_of_miss hblack hx]
  exact if_neg (by rw [default_error]; linarith)

theorem tell_lower (hblack : BlackFrames (duration - x) (s.window duration) black)
    (hx : x + 2 ≤ s.midpoint) (hlimit : s.midpoint - s.lowerLimit < 4) :
    (creditsSearch .default duration start).tell s black =
      { s with
        searchStart := s.midpoint - 2
        lowerLimit := max (s.lowerLimit - 15) 15
        searchEnd := max (s.lowerLimit - 15) 15 } := by
  rw [black_of_miss hblack hx]
  have hmove : s.midpoint - s.lowerLimit < BlackFrameParams.default.maximumError := by
    rwa [default_error]
  have hstep : (1 / 2 * (2 * 15) : ℚ) = 15 := by norm_num
  simp only [creditsSearch, Bracket.miss, if_pos hmove, default_minimum, hstep]

/-- A frame that is black shows where the credits begin, or the probe did. -/
theorem tell_of_hit (hblack : BlackFrames (duration - x) (s.window duration) black)
    (hx : s.midpoint < x + 2) :
    ∃ first, (creditsSearch .default duration start).tell s black =
        s.hit .default duration start first ∧
      first + (duration - s.midpoint) = duration - min x s.midpoint := by
  have hhead := hblack.2 (by simp only [Bracket.window]; linarith)
  cases black with
  | nil => cases hhead
  | cons first rest =>
    refine ⟨first, rfl, ?_⟩
    obtain rfl := Option.some.inj hhead
    simp only [Bracket.window]
    rw [sub_add_cancel, max_sub_sub_left]

theorem tell_hit (hblack : BlackFrames (duration - x) (s.window duration) black)
    (hx : s.midpoint < x + 2) (hlimit : 4 ≤ s.upperLimit - s.midpoint) :
    (creditsSearch .default duration start).tell s black =
      { s with
        searchEnd := s.midpoint
        firstBlackFrame := some (duration - min x s.midpoint) } := by
  obtain ⟨first, htell, hfirst⟩ := @tell_of_hit _ start _ _ _ hblack hx
  have hstay : ¬s.upperLimit - s.midpoint < BlackFrameParams.default.maximumError := by
    rw [default_error]
    linarith
  rw [htell]
  simp only [Bracket.hit, if_neg hstay, hfirst]

theorem tell_raise (hblack : BlackFrames (duration - x) (s.window duration) black)
    (hx : s.midpoint < x + 2) (hlimit : s.upperLimit - s.midpoint < 4) :
    (creditsSearch .default duration start).tell s black =
      { s with
        searchEnd := s.midpoint
        firstBlackFrame := some (duration - min x s.midpoint)
        upperLimit := min (s.upperLimit + 15) (duration - start)
        searchStart := min (s.upperLimit + 15) (duration - start) } := by
  obtain ⟨first, htell, hfirst⟩ := @tell_of_hit _ start _ _ _ hblack hx
  have hmove : s.upperLimit - s.midpoint < BlackFrameParams.default.maximumError := by
    rwa [default_error]
  have hstep : (1 / 2 * (2 * 15) : ℚ) = 15 := by norm_num
  rw [htell]
  simp only [Bracket.hit, if_pos hmove, hfirst, default_minimum, hstep]

end

/-! ## Searches that succeed -/

section
variable {duration start x : ℚ} {s : Bracket} {black : List ℚ}

/-- The credits are in the bracket or below, and a frame is known that is near enough to them or to
the lower end. -/
structure Aimed (duration start x : ℚ) (s : Bracket) : Prop where
  inv : s.Inv .default duration start
  le_start : x ≤ s.searchStart
  frame : ∃ d, s.firstBlackFrame = some (duration - d) ∧ d < duration ∧ d ≤ x ∧
    (x - d ≤ 2 ∨ d = s.searchEnd)

/-- The credits are above the bracket, whose size does not halve to 4. -/
structure Climbing (duration start x : ℚ) (s : Bracket) : Prop where
  inv : s.Inv .default duration start
  top : s.searchStart = s.upperLimit
  above : s.upperLimit < x
  size : 4 < s.searchStart - s.searchEnd ∧ s.searchStart - s.searchEnd ≤ 30
  even : s.searchStart - s.searchEnd ≠ 8 ∧ s.searchStart - s.searchEnd ≠ 16

/-- No hit yet, the lower limit cannot be moved, and the halving will not step over the credits. -/
structure Low (duration start x : ℚ) (s : Bracket) : Prop where
  inv : s.Inv .default duration start
  le_start : x ≤ s.searchStart
  limit : s.lowerLimit = 15
  bottom : s.searchEnd = 15
  size : 4 < s.searchStart - 15 ∧ s.searchStart - 15 ≤ 30
  halves : ¬(2 * (x - 13) ≤ s.searchStart - 15 ∧ s.searchStart - 15 ≤ 12)
  quarters : ¬(4 * (x - 12) ≤ s.searchStart - 15 ∧ s.searchStart - 15 ≤ 28)

/-- No hit yet, the lower limit has been moved `n` times and can be moved `j` times more and once to
the end of its way. -/
structure Falling (n j : ℕ) (r : ℚ) (s : Bracket) : Prop where
  bottom : s.searchEnd = s.lowerLimit
  limit : s.lowerLimit = 15 + 15 * j + r
  rest : 0 < r ∧ r ≤ 15
  size : s.searchStart - s.searchEnd = 2 * (leftover n + 2) ∨
    s.searchStart - s.searchEnd = 4 * (leftover n + 3) ∨
    n = 0 ∧ s.searchStart - s.searchEnd = 30

/-- A hit puts the credits between the probe and the upper end. -/
theorem aimed_of_hit (hinv : s.Inv .default duration start) (hstart : 0 ≤ start)
    (hgap : 4 < s.searchStart - s.searchEnd) (hle : x ≤ s.searchStart)
    (hx : s.midpoint < x + 2)
    (hblack : BlackFrames (duration - x) (s.window duration) black) :
    Aimed duration start x ((creditsSearch .default duration start).tell s black) := by
  have hask : (creditsSearch .default duration start).ask s = some (s.window duration) :=
    if_pos hgap
  have hnext := bracket_inv hinv (by rw [default_error]; norm_num) hask black
  have hmid : s.midpoint < s.searchStart := by
    unfold Bracket.midpoint
    linarith
  have hframe : min x s.midpoint < duration ∧ min x s.midpoint ≤ x ∧
      (x - min x s.midpoint ≤ 2 ∨ min x s.midpoint = s.midpoint) := by
    obtain ⟨-, -, hlimit, hupper⟩ := hinv
    refine ⟨lt_of_le_of_lt (min_le_right _ _) (by linarith), min_le_left _ _, ?_⟩
    rcases le_total x s.midpoint with h | h
    · rw [min_eq_left h, sub_self]
      exact Or.inl (by norm_num)
    · exact Or.inr (min_eq_right h)
  rcases lt_or_ge (s.upperLimit - s.midpoint) 4 with hlimit | hlimit
  · rw [tell_raise hblack hx hlimit] at hnext ⊢
    refine ⟨hnext, ?_, _, rfl, hframe⟩
    obtain ⟨-, -, hle', hupper⟩ := hinv
    exact le_min (by linarith) (by linarith)
  · rw [tell_hit hblack hx hlimit] at hnext ⊢
    exact ⟨hnext, hle, _, rfl, hframe⟩

theorem aimed_step (hs : Aimed duration start x s) (hstart : 0 ≤ start)
    (hgap : 4 < s.searchStart - s.searchEnd)
    (hblack : BlackFrames (duration - x) (s.window duration) black) :
    Aimed duration start x ((creditsSearch .default duration start).tell s black) := by
  rcases lt_or_ge s.midpoint (x + 2) with hx | hx
  · exact aimed_of_hit hs.inv hstart hgap hs.le_start hx hblack
  · obtain ⟨hinv, -, d, hd, hfile, hle, hnear⟩ := hs
    have hask : (creditsSearch .default duration start).ask s = some (s.window duration) :=
      if_pos hgap
    have hnext := bracket_inv hinv (by rw [default_error]; norm_num) hask black
    rcases lt_or_ge (s.midpoint - s.lowerLimit) 4 with hlimit | hlimit
    · -- the bracket moves below a frame that is at most 2 seconds from the credits
      rw [tell_lower hblack hx hlimit] at hnext ⊢
      refine ⟨hnext, by dsimp only; linarith, d, hd, hfile, hle, Or.inl ?_⟩
      rcases hnear with hnear | rfl
      · exact hnear
      · linarith [hinv.limit_le]
    · rw [tell_miss hblack hx hlimit] at hnext ⊢
      exact ⟨hnext, by dsimp only; linarith, d, hd, hfile, hle, hnear⟩

/-- Below the credits every probe hits, and the limit is moved before the search can end. -/
theorem climbing_step (hs : Climbing duration start x s) (hstart : 0 ≤ start)
    (hwindow : x ≤ duration - start)
    (hblack : BlackFrames (duration - x) (s.window duration) black) :
    Aimed duration start x ((creditsSearch .default duration start).tell s black) ∨
      Climbing duration start x ((creditsSearch .default duration start).tell s black) := by
  obtain ⟨hinv, htop, habove, ⟨hgap, hlarge⟩, hnot8, hnot16⟩ := hs
  have hask : (creditsSearch .default duration start).ask s = some (s.window duration) := if_pos hgap
  have hnext := bracket_inv hinv (by rw [default_error]; norm_num) hask black
  have hmid : s.midpoint = s.upperLimit - (s.searchStart - s.searchEnd) / 2 := by
    rw [Bracket.midpoint, htop]
    ring
  have hx : s.midpoint < x + 2 := by linarith
  have hmin : min x s.midpoint = s.midpoint := min_eq_right (by linarith)
  rcases lt_or_ge (s.upperLimit - s.midpoint) 4 with hlimit | hlimit
  · rw [tell_raise hblack hx hlimit, hmin] at hnext ⊢
    rcases le_or_gt x (min (s.upperLimit + 15) (duration - start)) with hreached | hshort
    · have hupper := hinv.upper
      exact Or.inl ⟨hnext, hreached, s.midpoint, rfl, by linarith, by linarith, Or.inr rfl⟩
    · have hraised : min (s.upperLimit + 15) (duration - start) = s.upperLimit + 15 := by
        refine min_eq_left (le_of_lt (lt_of_not_ge fun hle => ?_))
        rw [min_eq_right hle] at hshort
        linarith
      rw [hraised] at hnext hshort ⊢
      refine Or.inr ⟨hnext, rfl, hshort, ⟨?_, ?_⟩, ?_, ?_⟩
      · dsimp only
        linarith
      · dsimp only
        linarith
      · refine ne_of_gt ?_
        dsimp only
        linarith
      · refine ne_of_gt ?_
        dsimp only
        linarith
  · have hlong : 8 < s.searchStart - s.searchEnd := lt_of_le_of_ne (by linarith) (Ne.symm hnot8)
    rw [tell_hit hblack hx hlimit, hmin] at hnext ⊢
    refine Or.inr ⟨hnext, htop, habove, ⟨?_, ?_⟩, ?_, ?_⟩
    · dsimp only
      linarith
    · dsimp only
      linarith
    · intro h
      refine hnot16 ?_
      dsimp only at h
      linarith
    · refine ne_of_lt ?_
      dsimp only
      linarith

/-- At the bottom a miss leaves a bracket that still holds the credits in its upper part. -/
theorem low_step (hs : Low duration start x s) (hstart : 0 ≤ start) (hx17 : 17 ≤ x)
    (hblack : BlackFrames (duration - x) (s.window duration) black) :
    Aimed duration start x ((creditsSearch .default duration start).tell s black) ∨
      Low duration start x ((creditsSearch .default duration start).tell s black) := by
  obtain ⟨hinv, hle, hlimit, hbottom, ⟨hgap, hlarge⟩, hhalves, hquarters⟩ := hs
  have hgap' : 4 < s.searchStart - s.searchEnd := by rwa [hbottom]
  have hmid : s.midpoint = 15 + (s.searchStart - 15) / 2 := by
    rw [Bracket.midpoint, hbottom]
    ring
  rcases lt_or_ge s.midpoint (x + 2) with hx | hx
  · exact Or.inl (aimed_of_hit hinv hstart hgap' hle hx hblack)
  · have hask : (creditsSearch .default duration start).ask s = some (s.window duration) :=
      if_pos hgap'
    have hnext := bracket_inv hinv (by rw [default_error]; norm_num) hask black
    have hfar : 12 < s.searchStart - 15 := by
      by_contra hnear
      exact hhalves ⟨by linarith, by linarith⟩
    rw [tell_miss hblack hx (by linarith)] at hnext ⊢
    refine Or.inr ⟨hnext, by dsimp only; linarith, hlimit, hbottom, ⟨?_, ?_⟩, ?_, ?_⟩
    · dsimp only
      linarith
    · dsimp only
      linarith
    · rintro ⟨hfrom, hto⟩
      dsimp only at hfrom hto
      exact hquarters ⟨by linarith, by linarith⟩
    · rintro ⟨hfrom, -⟩
      dsimp only at hfrom
      linarith

theorem falling_gap {n j : ℕ} {r : ℚ} (hs : Falling n j r s) :
    2 * (leftover n + 2) ≤ s.searchStart - s.searchEnd := by
  obtain ⟨hpos, hlt⟩ := leftover_bounds n
  rcases hs.size with h | h | ⟨-, h⟩
  · rw [h]
  · rw [h]
    linarith
  · rw [h]
    linarith

/-- A miss above the bottom halves the bracket; or it moves the limit by 15 seconds, or to the
bottom. -/
theorem falling_miss {n j : ℕ} {r : ℚ} (hs : Falling n j r s) (hx : x + 2 ≤ s.midpoint)
    (hblack : BlackFrames (duration - x) (s.window duration) black) :
    (Falling n j r ((creditsSearch .default duration start).tell s black) ∨
      (∃ i, j = i + 1 ∧ Falling (n + 1) i r ((creditsSearch .default duration start).tell s black)) ∨
      j = 0 ∧ x + 2 ≤ 15 + r + leftover n + 2 ∧
        (creditsSearch .default duration start).tell s black =
          { s with searchStart := 15 + (r + leftover n), lowerLimit := 15, searchEnd := 15 }) := by
  obtain ⟨hbottom, hlimit, ⟨hpos, hle⟩, hsize⟩ := hs
  obtain ⟨hrho, hrho'⟩ := leftover_bounds n
  have hmid : s.midpoint = s.lowerLimit + (s.searchStart - s.searchEnd) / 2 := by
    rw [Bracket.midpoint, ← hbottom]
    ring
  have hhalved : ∀ gap, 8 ≤ s.searchStart - s.searchEnd →
      (s.searchStart - s.searchEnd) / 2 - 2 = gap →
      (creditsSearch .default duration start).tell s black =
          { s with searchStart := s.midpoint - 2 } ∧ s.midpoint - 2 - s.searchEnd = gap := by
    intro gap hlarge hgap
    exact ⟨tell_miss hblack hx (by linarith), by rw [← hgap, hbottom]; linarith⟩
  rcases hsize with hsize | hsize | ⟨rfl, hsize⟩
  · have hlower : s.midpoint - s.lowerLimit < 4 := by linarith
    have hnew : s.midpoint - 2 = s.lowerLimit + leftover n := by linarith
    rw [tell_lower hblack hx hlower, hnew]
    cases j with
    | zero =>
      rw [Nat.cast_zero, mul_zero, add_zero] at hlimit
      refine Or.inr (Or.inr ⟨rfl, by linarith, ?_⟩)
      rw [max_eq_right (by linarith), hlimit, add_assoc]
    | succ i =>
      push_cast at hlimit
      have hroom : (0 : ℚ) ≤ i := Nat.cast_nonneg i
      refine Or.inr (Or.inl ⟨i, rfl, ?_⟩)
      rw [max_eq_left (by linarith)]
      refine ⟨rfl, by dsimp only; linarith, ⟨hpos, hle⟩, Or.inr (Or.inl ?_)⟩
      rw [leftover_succ]
      dsimp only
      ring
  · obtain ⟨htell, hgap⟩ := hhalved (2 * (leftover n + 2)) (by linarith) (by rw [hsize]; ring)
    rw [htell]
    exact Or.inl ⟨hbottom, hlimit, ⟨hpos, hle⟩, Or.inl hgap⟩
  · obtain ⟨htell, hgap⟩ := hhalved 13 (by linarith) (by rw [hsize]; norm_num)
    rw [htell]
    refine Or.inl ⟨hbottom, hlimit, ⟨hpos, hle⟩, Or.inr (Or.inl ?_)⟩
    rw [leftover_zero]
    dsimp only
    linarith

/-- A bracket of this size at the bottom is halved past the credits. -/
def Fatal (x g : ℚ) : Prop := x - 15 ≤ g ∧ g ≤ 4 ∨ 2 * (x - 13) ≤ g ∧ g ≤ 12

/-- The states of a search that will find the credits. -/
inductive Heading (duration start x : ℚ) (s : Bracket) : Prop
  | aimed (h : Aimed duration start x s)
  | climbing (h : Climbing duration start x s)
  | low (h : Low duration start x s)
  | falling (n j : ℕ) (r : ℚ) (inv : s.Inv .default duration start) (le_start : x ≤ s.searchStart)
      (falls : Falling n j r s) (safe : ¬Fatal x (r + leftover (n + j)))

theorem heading_step (hstart : 0 ≤ start) (hwindow : x ≤ duration - start) (hx17 : 17 ≤ x)
    (hgap : 4 < s.searchStart - s.searchEnd)
    (hblack : BlackFrames (duration - x) (s.window duration) black)
    (hs : Heading duration start x s) :
    Heading duration start x ((creditsSearch .default duration start).tell s black) := by
  cases hs with
  | aimed h => exact .aimed (aimed_step h hstart hgap hblack)
  | climbing h =>
    rcases climbing_step h hstart hwindow hblack with h | h
    · exact .aimed h
    · exact .climbing h
  | low h =>
    rcases low_step h hstart hx17 hblack with h | h
    · exact .aimed h
    · exact .low h
  | falling n j r hinv hle hfalls hsafe =>
    rcases lt_or_ge s.midpoint (x + 2) with hx | hx
    · exact .aimed (aimed_of_hit hinv hstart hgap hle hx hblack)
    · have hask : (creditsSearch .default duration start).ask s = some (s.window duration) :=
        if_pos hgap
      have hnext := bracket_inv hinv (by rw [default_error]; norm_num) hask black
      have hle' : x ≤ ((creditsSearch .default duration start).tell s black).searchStart := by
        rcases lt_or_ge (s.midpoint - s.lowerLimit) 4 with hlimit | hlimit
        · rw [tell_lower hblack hx hlimit]
          dsimp only
          linarith
        · rw [tell_miss hblack hx hlimit]
          dsimp only
          linarith
      rcases @falling_miss _ start _ _ _ _ _ _ hfalls hx hblack with
        hfalls' | ⟨i, rfl, hfalls'⟩ | ⟨rfl, hpassed, htell⟩
      · exact .falling n j r hnext hle' hfalls' hsafe
      · refine .falling (n + 1) i r hnext hle' hfalls' ?_
        rwa [Nat.add_right_comm, Nat.add_assoc]
      · -- the bottom: the credits were not passed, so that the bracket is not fatal
        obtain ⟨hrho, hrho'⟩ := leftover_bounds n
        rw [Nat.add_zero] at hsafe
        have hbottom : 15 + (r + leftover n) - 15 = r + leftover n := by ring
        rw [htell] at hnext hle' ⊢
        refine .low ⟨hnext, hle', rfl, rfl, ⟨?_, ?_⟩, ?_, ?_⟩
        · rw [hbottom]
          by_contra hsmall
          exact hsafe (Or.inl ⟨by linarith, by linarith⟩)
        · rw [hbottom]
          linarith [hfalls.rest.2]
        · rw [hbottom]
          exact fun h => hsafe (Or.inr h)
        · rw [hbottom]
          rintro ⟨hfrom, -⟩
          linarith [hfalls.rest.2]

/-- Such a search does not end before it is aimed at the credits. -/
theorem aimed_of_end (hs : Heading duration start x s) (hend : s.searchStart - s.searchEnd ≤ 4) :
    Aimed duration start x s := by
  cases hs with
  | aimed h => exact h
  | climbing h =>
    have := h.size.1
    linarith
  | low h =>
    have hsize := h.size.1
    rw [← h.bottom] at hsize
    linarith
  | falling n j r _ _ hfalls _ =>
    have hgap := falling_gap hfalls
    have hrho := (leftover_bounds n).1
    linarith

/-- At the end the frame is at most 4 seconds behind the beginning of the credits. -/
theorem credits_of_aimed (hs : Aimed duration start x s)
    (hend : s.searchStart - s.searchEnd ≤ 4) :
    ∃ t, creditsOf duration s.firstBlackFrame = some ⟨t, duration⟩ ∧ |t - (duration - x)| ≤ 4 := by
  obtain ⟨-, hle, d, hd, hfile, hdx, hnear⟩ := hs
  refine ⟨duration - d, ?_, ?_⟩
  · rw [hd, creditsOf, if_pos (by linarith)]
  · have herror : duration - d - (duration - x) = x - d := by ring
    rw [herror, abs_of_nonneg (by linarith)]
    rcases hnear with hnear | rfl
    · linarith
    · linarith

/-! ## Searches that fail -/

/-- The states of a search that will not find them. -/
inductive Astray (duration x : ℚ) (s : Bracket) : Prop
  | low (unseen : s.firstBlackFrame = none) (limit : s.lowerLimit = 15) (bottom : s.searchEnd = 15)
      (size : s.searchStart - 15 ≤ 4 ∨
        2 * (x - 13) ≤ s.searchStart - 15 ∧ s.searchStart - 15 ≤ 12 ∨
        4 * (x - 12) ≤ s.searchStart - 15 ∧ s.searchStart - 15 ≤ 28)
  | falling (n j : ℕ) (r : ℚ) (unseen : s.firstBlackFrame = none) (falls : Falling n j r s)
      (fatal : Fatal x (r + leftover (n + j)))
  | short (top : s.searchStart = s.upperLimit) (above : s.upperLimit < x)
      (frame : s.firstBlackFrame = none ∨
        s.firstBlackFrame = some (duration - s.searchEnd) ∧ s.searchEnd ≤ s.upperLimit - 4)
      (size : s.searchStart - s.searchEnd = 16 ∨ s.searchStart - s.searchEnd = 8 ∨
        s.searchStart - s.searchEnd ≤ 4)

theorem astray_step (hx17 : 17 ≤ x) (hgap : 4 < s.searchStart - s.searchEnd)
    (hblack : BlackFrames (duration - x) (s.window duration) black)
    (hs : Astray duration x s) :
    Astray duration x ((creditsSearch .default duration start).tell s black) := by
  cases hs with
  | low hunseen hlimit hbottom hsize =>
    have hmid : s.midpoint = 15 + (s.searchStart - 15) / 2 := by
      rw [Bracket.midpoint, hbottom]
      ring
    rw [hbottom] at hgap
    have hx : x + 2 ≤ s.midpoint := by
      rcases hsize with h | ⟨h, -⟩ | ⟨h, -⟩ <;> linarith
    rw [tell_miss hblack hx (by linarith)]
    refine .low hunseen hlimit hbottom ?_
    dsimp only
    rcases hsize with h | ⟨-, h⟩ | ⟨hfrom, hto⟩
    · linarith
    · exact Or.inl (by linarith)
    · exact Or.inr (Or.inl ⟨by linarith, by linarith⟩)
  | falling n j r hunseen hfalls hfatal =>
    have hsmall := falling_gap hfalls
    obtain ⟨-, hrho⟩ := leftover_bounds (n + j)
    have hreach : x - 15 ≤ r + leftover (n + j) := by
      rcases hfatal with ⟨h, -⟩ | ⟨h, -⟩ <;> linarith
    have hmid : s.midpoint = s.lowerLimit + (s.searchStart - s.searchEnd) / 2 := by
      rw [Bracket.midpoint, ← hfalls.bottom]
      ring
    have hx : x + 2 ≤ s.midpoint := by
      rw [hmid, hfalls.limit]
      cases j with
      | zero =>
        rw [Nat.add_zero] at hreach
        rw [Nat.cast_zero]
        linarith
      | succ i =>
        have hroom : (0 : ℚ) ≤ i := Nat.cast_nonneg i
        have := (leftover_bounds n).1
        push_cast
        linarith
    have hunseen' :
        ((creditsSearch .default duration start).tell s black).firstBlackFrame = none := by
      rcases lt_or_ge (s.midpoint - s.lowerLimit) 4 with hlimit | hlimit
      · rw [tell_lower hblack hx hlimit]
        exact hunseen
      · rw [tell_miss hblack hx hlimit]
        exact hunseen
    rcases @falling_miss _ start _ _ _ _ _ _ hfalls hx hblack with
      hfalls' | ⟨i, rfl, hfalls'⟩ | ⟨rfl, -, htell⟩
    · exact .falling n j r hunseen' hfalls' hfatal
    · refine .falling (n + 1) i r hunseen' hfalls' ?_
      rwa [Nat.add_right_comm, Nat.add_assoc]
    · rw [htell]
      have hbottom : 15 + (r + leftover n) - 15 = r + leftover n := by ring
      rw [Nat.add_zero] at hfatal
      refine .low hunseen rfl rfl ?_
      rw [hbottom]
      rcases hfatal with ⟨-, h⟩ | h
      · exact Or.inl h
      · exact Or.inr (Or.inl h)
  | short htop habove hframe hsize =>
    have hmid : s.midpoint = s.upperLimit - (s.searchStart - s.searchEnd) / 2 := by
      rw [Bracket.midpoint, htop]
      ring
    have hlarge : 8 ≤ s.searchStart - s.searchEnd := by
      rcases hsize with h | h | h <;> linarith
    have hx : s.midpoint < x + 2 := by linarith
    have hmin : min x s.midpoint = s.midpoint := min_eq_right (by linarith)
    rw [tell_hit hblack hx (by linarith), hmin]
    refine .short htop habove (Or.inr ⟨rfl, by dsimp only; linarith⟩) ?_
    dsimp only
    rcases hsize with h | h | h
    · exact Or.inr (Or.inl (by linarith))
    · exact Or.inr (Or.inr (by linarith))
    · linarith

/-- At its end such a search has no frame, or one too far from the credits. -/
theorem no_credits_of_astray (hs : Astray duration x s) :
    ¬∃ t, creditsOf duration s.firstBlackFrame = some ⟨t, duration⟩ ∧ |t - (duration - x)| ≤ 4 := by
  have hnone : s.firstBlackFrame = none →
      ¬∃ t, creditsOf duration s.firstBlackFrame = some ⟨t, duration⟩ ∧
        |t - (duration - x)| ≤ 4 := by
    rintro h ⟨t, ht, -⟩
    rw [h] at ht
    cases ht
  cases hs with
  | low hunseen _ _ _ => exact hnone hunseen
  | falling n j r hunseen _ _ => exact hnone hunseen
  | short htop habove hframe _ =>
    rcases hframe with hunseen | ⟨hframe, hfar⟩
    · exact hnone hunseen
    · rintro ⟨t, ht, herror⟩
      rw [hframe, creditsOf] at ht
      split_ifs at ht with hpos
      obtain rfl : duration - s.searchEnd = t := congrArg Range.start (Option.some.inj ht)
      have hdiff : duration - s.searchEnd - (duration - x) = x - s.searchEnd := by ring
      rw [hdiff, abs_le] at herror
      linarith [herror.2]

end

/-! ## The whole search -/

section
variable {duration start x p : ℚ}

/-- The bracket of a position in the window. -/
theorem initialBracket_eq (hp : p ≤ duration - start) :
    initialBracket .default duration start p =
      { upperLimit := p, lowerLimit := max (p - 30) 15, searchStart := p,
        searchEnd := max (p - 30) 15, firstBlackFrame := none } := by
  have hstep : (2 * 15 : ℚ) = 30 := by norm_num
  simp only [initialBracket, default_minimum, min_eq_left hp, hstep]

theorem heading_initial (hp : p ≤ duration - start) (hseen : ¬Overlooked p x)
    (hreached : ¬Unreached p x) :
    Heading duration start x (initialBracket .default duration start p) := by
  have hinv := initialBracket_inv .default duration start p
  rw [initialBracket_eq hp] at hinv ⊢
  rcases lt_or_ge p x with habove | hle
  · have hnot : ¬(p ≤ 19 ∨ p = 23 ∨ p = 31) := fun h => hreached ⟨habove, h⟩
    obtain ⟨hlow, h23, h31⟩ := by simpa only [not_or, not_le] using hnot
    refine .climbing ⟨hinv, rfl, habove, ⟨?_, ?_⟩, ?_, ?_⟩ <;> dsimp only <;>
      rcases le_total (p - 30) 15 with h | h
    · rw [max_eq_right h]
      linarith
    · rw [max_eq_left h]
      linarith
    · rw [max_eq_right h]
      linarith
    · rw [max_eq_left h]
      linarith
    · rw [max_eq_right h]
      exact fun h' => h23 (by linarith)
    · rw [max_eq_left h]
      exact fun h' => by linarith
    · rw [max_eq_right h]
      exact fun h' => h31 (by linarith)
    · rw [max_eq_left h]
      exact fun h' => by linarith
  · obtain ⟨g, hg⟩ := exists_lowest (p := p)
    have hsafe : ¬(x - 15 ≤ g ∧ g ≤ 4 ∨ 2 * (x - 13) ≤ g ∧ g ≤ 12 ∨
        4 * (x - 12) ≤ g ∧ g ≤ 28) := fun h => hseen ⟨g, hg, h⟩
    cases hg with
    | near hnear =>
      have hbottom : max (p - 30) 15 = 15 := max_eq_right (by linarith)
      rw [hbottom] at hinv ⊢
      refine .low ⟨hinv, hle, rfl, rfl, ⟨?_, by dsimp only; linarith⟩, ?_, ?_⟩
      · by_contra hsmall
        exact hsafe (Or.inl ⟨by linarith, not_lt.mp hsmall⟩)
      · exact fun h => hsafe (Or.inr (Or.inl h))
      · exact fun h => hsafe (Or.inr (Or.inr h))
    | far n r hr hr' h =>
      have hroom : (0 : ℚ) ≤ n := Nat.cast_nonneg n
      have hlower : max (p - 30) 15 = p - 30 := max_eq_left (by linarith)
      rw [hlower] at hinv ⊢
      refine .falling 0 n r hinv hle ⟨rfl, by dsimp only; linarith, ⟨hr, hr'⟩, ?_⟩ ?_
      · exact Or.inr (Or.inr ⟨rfl, by dsimp only; ring⟩)
      · rw [Nat.zero_add]
        rintro (h | h)
        · exact hsafe (Or.inl h)
        · exact hsafe (Or.inr (Or.inl h))

theorem astray_initial (hx17 : 17 ≤ x) (hp : p ≤ duration - start)
    (h : Overlooked p x ∨ Unreached p x) :
    Astray duration x (initialBracket .default duration start p) := by
  rw [initialBracket_eq hp]
  rcases h with ⟨g, hg, hfatal⟩ | ⟨habove, hsize⟩
  · cases hg with
    | near hnear =>
      have hbottom : max (p - 30) 15 = 15 := max_eq_right (by linarith)
      rw [hbottom]
      refine .low rfl rfl rfl ?_
      rcases hfatal with ⟨-, h⟩ | h | h
      · exact Or.inl h
      · exact Or.inr (Or.inl h)
      · exact Or.inr (Or.inr h)
    | far n r hr hr' h =>
      have hroom : (0 : ℚ) ≤ n := Nat.cast_nonneg n
      have hlower : max (p - 30) 15 = p - 30 := max_eq_left (by linarith)
      have hrho := (leftover_bounds n).2
      rw [hlower]
      refine .falling 0 n r rfl ⟨rfl, by dsimp only; linarith, ⟨hr, hr'⟩, ?_⟩ ?_
      · exact Or.inr (Or.inr ⟨rfl, by dsimp only; ring⟩)
      · rw [Nat.zero_add]
        rcases hfatal with h | h | ⟨hfrom, -⟩
        · exact Or.inl h
        · exact Or.inr h
        · linarith
  · have hbottom : max (p - 30) 15 = 15 := by
      refine max_eq_right ?_
      rcases hsize with h | h | h <;> linarith
    rw [hbottom]
    refine .short rfl habove (Or.inl rfl) ?_
    dsimp only
    rcases hsize with h | h | h
    · exact Or.inr (Or.inr (by linarith))
    · exact Or.inr (Or.inl (by linarith))
    · exact Or.inl (by linarith)

theorem findCredits_snd {ε : Type} (probe : Probe ε) (fuel n : ℕ) :
    (findCredits .default duration start p probe fuel n).2 =
      (run (creditsSearch .default duration start) probe fuel n
        (initialBracket .default duration start p)).2.map fun s =>
          creditsOf duration s.firstBlackFrame := rfl

/-- The search leads to the credits unless it stops below them or above them. -/
theorem findCredits_iff (hstart : 0 ≤ start) (hx17 : 17 ≤ x) (hwindow : x ≤ duration - start)
    (hp : p ≤ duration - start) {ε : Type} {probe : Probe ε}
    (hprobe : BlackFrom (duration - x) probe) {fuel n : ℕ}
    (hfuel : (findCredits .default duration start p probe fuel n).2 ≠ .unfinished) :
    (∃ t, (findCredits .default duration start p probe fuel n).2 = .returned (some ⟨t, duration⟩) ∧
      |t - (duration - x)| ≤ 4) ↔ ¬Overlooked p x ∧ ¬Unreached p x := by
  have hrun : (run (creditsSearch .default duration start) probe fuel n
      (initialBracket .default duration start p)).2 ≠ .unfinished := by
    intro h
    refine hfuel ?_
    rw [findCredits_snd, h]
    rfl
  obtain ⟨s, hs⟩ := exists_returned hprobe.reads hrun
  have hcredits : (findCredits .default duration start p probe fuel n).2 =
      .returned (creditsOf duration s.firstBlackFrame) := by
    rw [findCredits_snd, hs]
    rfl
  rw [hcredits]
  by_cases hbad : Overlooked p x ∨ Unreached p x
  · refine iff_of_false ?_ (by rwa [← not_or, not_not])
    obtain ⟨hastray, -⟩ := run_returned hprobe.answers (fun s w black hs hask hblack => by
      obtain ⟨hgap, rfl⟩ := ask_default hask
      exact astray_step hx17 hgap hblack hs) (astray_initial hx17 hp hbad) hs
    rintro ⟨t, ht, herror⟩
    exact no_credits_of_astray hastray ⟨t, Ending.returned.inj ht, herror⟩
  · refine iff_of_true ?_ (not_or.mp hbad)
    obtain ⟨hseen, hreached⟩ := not_or.mp hbad
    obtain ⟨hheading, hend⟩ := run_returned hprobe.answers (fun s w black hs hask hblack => by
      obtain ⟨hgap, rfl⟩ := ask_default hask
      exact heading_step hstart hwindow hx17 hgap hblack hs)
      (heading_initial hp hseen hreached) hs
    have hsmall := ask_none hend
    obtain ⟨t, ht, herror⟩ := credits_of_aimed (aimed_of_end hheading hsmall) hsmall
    exact ⟨t, by rw [ht], herror⟩

end

/-! ## The function -/

section
variable {duration start x p : ℚ}

theorem le_of_overlooked (h : Overlooked p x) : x ≤ 19 := by
  obtain ⟨g, -, ⟨hfrom, hto⟩ | ⟨hfrom, hto⟩ | ⟨hfrom, hto⟩⟩ := h
  · linarith
  · linarith
  · linarith

/-- A position that the first search steps to is a good one. -/
theorem step_good (hx17 : 17 ≤ x) (k : ℕ) :
    ¬Overlooked (45 + 30 * k) x ∧ ¬Unreached (45 + 30 * k) x := by
  have hroom : (0 : ℚ) ≤ k := Nat.cast_nonneg k
  constructor
  · rintro ⟨g, hg, hfatal⟩
    have hlarge : 15 < g ∧ (g < 16 ∨ g = 30) := by
      cases hg with
      | near hnear =>
        have hzero : (k : ℚ) = 0 := by linarith
        rw [hzero]
        norm_num
      | far n r hr hr' h =>
        have hlt : (n : ℚ) < 2 * k := by linarith
        have hle : 2 * (k : ℚ) ≤ n + 1 := by linarith
        have heq : 2 * k = n + 1 := by
          have h₁ : n < 2 * k := by exact_mod_cast hlt
          have h₂ : 2 * k ≤ n + 1 := by exact_mod_cast hle
          omega
        have hcast : 2 * (k : ℚ) = n + 1 := by exact_mod_cast heq
        obtain ⟨hrho, hrho'⟩ := leftover_bounds n
        exact ⟨by linarith, Or.inl (by linarith)⟩
    obtain ⟨hlow, hhigh⟩ := hlarge
    rcases hfatal with ⟨-, h⟩ | ⟨-, h⟩ | ⟨hfrom, hto⟩
    · linarith
    · linarith
    · rcases hhigh with h | h <;> linarith
  · rintro ⟨-, h | h | h⟩ <;> linarith

/-- The position that the first search returns is as good as where it starts. -/
theorem findSearchStart_good (hx17 : 17 ≤ x) (hwindow : x ≤ duration - start) {ε : Type}
    {probe : Probe ε} (hprobe : BlackFrom (duration - x) probe) {fuel n : ℕ}
    (h : (findSearchStart .default duration start probe fuel n).2 = .returned p) :
    15 ≤ p ∧ p ≤ duration - start ∧ ((¬Overlooked p x ∧ ¬Unreached p x) ↔
      ¬Overlooked (min 45 (duration - start)) x ∧ ¬Unreached (min 45 (duration - start)) x) := by
  obtain ⟨s, hs, hp⟩ := map_eq_returned h
  have hstep : ∀ (s : StartSearch) (w : Window) (black : List ℚ),
      (∃ k : ℕ, s.searchStart = 45 + 30 * k ∧ (k = 0 ∨ 45 < x) ∧
        (s.returned = true → s.searchStart < duration - start)) →
      (startSearch .default duration start).ask s = some w → BlackFrames (duration - x) w black →
      ∃ k : ℕ, ((startSearch .default duration start).tell s black).searchStart = 45 + 30 * k ∧
        (k = 0 ∨ 45 < x) ∧ (((startSearch .default duration start).tell s black).returned = true →
          ((startSearch .default duration start).tell s black).searchStart < duration - start) := by
    rintro s w black ⟨k, hk, hseen, -⟩ hask hblack
    obtain ⟨hnot, hlt, rfl⟩ := ask_startSearch hask
    simp only [startSearch]
    split_ifs with hfew
    · exact ⟨k, hk, hseen, fun _ => hlt⟩
    · have hreached : duration - x < duration - s.searchStart := by
        by_contra hle
        have hnone := hblack.1 (not_lt.mp hle)
        rw [hnone] at hfew
        exact hfew (by decide)
      have hroom : (0 : ℚ) ≤ k := Nat.cast_nonneg k
      refine ⟨k + 1, ?_, Or.inr (by linarith), fun hreturned => ?_⟩
      · rw [default_minimum]
        push_cast
        linarith
      · rw [hnot] at hreturned
        cases hreturned
  have hinitial : ∃ k : ℕ, (3 * BlackFrameParams.default.minimumCreditsDuration : ℚ) = 45 + 30 * k ∧
      (k = 0 ∨ 45 < x) ∧ (false = true →
        3 * BlackFrameParams.default.minimumCreditsDuration < duration - start) := by
    refine ⟨0, ?_, Or.inl rfl, fun h => by cases h⟩
    rw [default_minimum]
    norm_num
  obtain ⟨⟨k, hk, hseen, hreturned⟩, hend⟩ := run_returned hprobe.answers hstep hinitial hs
  have hroom : (0 : ℚ) ≤ k := Nat.cast_nonneg k
  have hgood := step_good hx17 0
  rw [Nat.cast_zero, mul_zero, add_zero] at hgood
  subst hp
  split_ifs with hdone
  · have hlt := hreturned hdone
    rw [hk] at hlt ⊢
    rw [min_eq_left (by linarith)]
    exact ⟨by linarith, hlt.le, iff_of_true (step_good hx17 k) hgood⟩
  · refine ⟨by linarith, le_refl _, ?_⟩
    rcases le_or_gt (duration - start) 45 with hsmall | hlarge
    · rw [min_eq_right hsmall]
    · -- the window is left only behind a step that found black frames
      have hleft : duration - start ≤ s.searchStart := by
        simp only [startSearch] at hend
        split_ifs at hend with hlt
        exact not_lt.mp hlt
      have hfar : 45 < x := by
        refine hseen.resolve_left ?_
        rintro rfl
        rw [Nat.cast_zero, mul_zero, add_zero] at hk
        linarith
      rw [min_eq_left hlarge.le]
      refine iff_of_true ⟨fun h => ?_, fun h => ?_⟩ hgood
      · have := le_of_overlooked h
        linarith
      · have := h.1
        linarith

/-- Where the search starts: at the position that is carried over if the window has it, and else
three of the shortest credits from the end or at the window. -/
def position (window searchStart : ℚ) : ℚ :=
  if 15 ≤ searchStart ∧ searchStart ≤ window then searchStart else min 45 window

theorem creditsStart_nonneg (duration maximumCreditsDuration : ℚ) :
    0 ≤ creditsStart duration maximumCreditsDuration := le_max_right _ _

theorem creditsFrom_returned {ε : Type} {probe : Probe ε} {fuel n : ℕ} {t : ℚ} :
    (∃ next, creditsFrom duration start p probe fuel n = .returned (some ⟨t, duration⟩, next)) ↔
      (findCredits .default duration start p probe fuel n).2 = .returned (some ⟨t, duration⟩) := by
  unfold creditsFrom
  cases h : (findCredits .default duration start p probe fuel n).2 with
  | returned found =>
    cases found with
    | none =>
      refine iff_of_false ?_ (fun h => by cases h)
      rintro ⟨next, h⟩
      cases h
    | some credit =>
      constructor
      · rintro ⟨next, h⟩
        cases h
        rfl
      · intro h
        cases h
        exact ⟨_, rfl⟩
  | failed e => exact iff_of_false (fun ⟨next, h⟩ => by cases h) (fun h => by cases h)
  | unfinished => exact iff_of_false (fun ⟨next, h⟩ => by cases h) (fun h => by cases h)

end

/-- From any position that is carried over, the function returns the beginning of the credits, with
an error of 4 seconds at most, exactly if the search from there neither stops below the credits nor
steps over them. -/
theorem blackFrameCredits_iff (duration maximumCreditsDuration searchStart c : ℚ)
    (hwindow : creditsStart duration maximumCreditsDuration ≤ c) (hlong : c + 17 ≤ duration) :
    ∃ rounds, ∀ (ε : Type) (probe : Probe ε), BlackFrom c probe → ∀ fuel, rounds < fuel →
      ((∃ t next,
          blackFrameCredits duration maximumCreditsDuration searchStart probe fuel =
            .returned (some ⟨t, duration⟩, next) ∧ |t - c| ≤ 4) ↔
        ¬Overlooked (position (duration - creditsStart duration maximumCreditsDuration) searchStart)
            (duration - c) ∧
          ¬Unreached (position (duration - creditsStart duration maximumCreditsDuration) searchStart)
            (duration - c)) := by
  have hstart := creditsStart_nonneg duration maximumCreditsDuration
  generalize hbegin : creditsStart duration maximumCreditsDuration = start at hstart hwindow ⊢
  have hpositive : ¬duration ≤ 0 := by linarith
  have hmin : 0 < BlackFrameParams.default.minimumCreditsDuration := by
    rw [default_minimum]
    norm_num
  have herror : 0 < BlackFrameParams.default.maximumError := by
    rw [default_error]
    norm_num
  obtain ⟨steps, hsteps⟩ := exists_nat_ge
    ((duration - start) / (2 * BlackFrameParams.default.minimumCreditsDuration))
  rw [div_le_iff₀ (by linarith), mul_comm] at hsteps
  obtain ⟨rounds, hrounds⟩ := creditsSearch_finishes hmin herror duration start 15 (duration - start)
  refine ⟨steps + 1 + rounds, fun ε probe hprobe fuel hfuel => ?_⟩
  have hback : duration - (duration - c) = c := by ring
  have hx17 : 17 ≤ duration - c := by linarith
  have hwindow' : duration - c ≤ duration - start := by linarith
  have hprobe' : BlackFrom (duration - (duration - c)) probe := by rwa [hback]
  -- the second search, from a position in the window
  have hcredits : ∀ p n, 15 ≤ p → p ≤ duration - start →
      ((∃ t next, creditsFrom duration start p probe fuel n = .returned (some ⟨t, duration⟩, next) ∧
          |t - c| ≤ 4) ↔ ¬Overlooked p (duration - c) ∧ ¬Unreached p (duration - c)) := by
    intro p n hp hp'
    rw [← findCredits_iff hstart hx17 hwindow' hp' hprobe' (n := n)
      (hrounds ε probe p n fuel hp hp' (by omega)), hback]
    constructor
    · rintro ⟨t, next, h, hnear⟩
      exact ⟨t, creditsFrom_returned.mp ⟨next, h⟩, hnear⟩
    · rintro ⟨t, h, hnear⟩
      obtain ⟨next, h⟩ := creditsFrom_returned.mpr h
      exact ⟨t, next, h, hnear⟩
  unfold blackFrameCredits
  rw [if_neg hpositive, hbegin, default_minimum]
  dsimp only
  by_cases hcarried : 15 ≤ searchStart ∧ searchStart ≤ duration - start
  · rw [if_neg (not_lt.mpr hcarried.2), if_neg (not_lt.mpr hcarried.1), position, if_pos hcarried]
    exact hcredits searchStart 0 hcarried.1 hcarried.2
  · have hfresh : (if duration - start < searchStart then 0 else searchStart) < 15 := by
      split_ifs with hfar
      · norm_num
      · by_contra hle
        exact hcarried ⟨not_lt.mp hle, not_lt.mp hfar⟩
    rw [if_pos hfresh, position, if_neg hcarried]
    have hends := startSearch_finishes hmin hsteps probe 0 (show steps + 1 < fuel by omega)
    have hreturns : ∃ p, (findSearchStart .default duration start probe fuel 0).2 = .returned p := by
      have hrun : (run (startSearch .default duration start) probe fuel 0
          ⟨3 * BlackFrameParams.default.minimumCreditsDuration, false⟩).2 ≠ .unfinished := by
        intro h
        refine hends ?_
        show Ending.map _ (run _ _ _ _ _).2 = _
        rw [h]
        rfl
      obtain ⟨s, hs⟩ := exists_returned hprobe.reads hrun
      refine ⟨if s.returned then s.searchStart else duration - start, ?_⟩
      show Ending.map _ (run _ _ _ _ _).2 = _
      rw [hs]
      rfl
    obtain ⟨p, hp⟩ := hreturns
    obtain ⟨hlow, hhigh, hgood⟩ := findSearchStart_good hx17 hwindow' hprobe' hp
    rw [← hgood]
    have hsplit : findSearchStart .default duration start probe fuel 0 =
        ((findSearchStart .default duration start probe fuel 0).1, .returned p) := by
      rw [← hp]
    rw [hsplit]
    exact hcredits p _ hlow hhigh

/-- The first black frame of a window, of a file that is black from `c` on. -/
def darkProbe (c : ℚ) : Probe Unit := fun _ w =>
  .ok (if c < w.stop then [max c w.start - w.start] else [])

theorem darkProbe_blackFrom (c : ℚ) : BlackFrom c (darkProbe c) := by
  refine ⟨fun n w black h => ?_, fun n w => ⟨_, rfl⟩⟩
  obtain rfl := Except.ok.inj h
  refine ⟨fun hle => if_neg (not_lt.mpr hle), fun hlt => ?_⟩
  rw [if_pos hlt]
  rfl

/-- An episode of 24 minutes whose credits begin at 1300 seconds, as the first one of a season. -/
theorem blackFrameCredits_first : ∃ fuel t next,
    blackFrameCredits 1440 450 0 (darkProbe 1300) fuel = .returned (some ⟨t, 1440⟩, next) ∧
      |t - 1300| ≤ 4 := by
  have hwindow : creditsStart 1440 450 = 990 := by norm_num [creditsStart]
  obtain ⟨rounds, h⟩ := blackFrameCredits_iff 1440 450 0 1300 (by rw [hwindow]; norm_num)
    (by norm_num)
  refine ⟨rounds + 1, (h Unit _ (darkProbe_blackFrom 1300) (rounds + 1) (Nat.lt_succ_self _)).mpr ?_⟩
  rw [hwindow]
  have hposition : position (1440 - 990) 0 = 45 := by norm_num [position]
  rw [hposition]
  refine ⟨fun h => ?_, fun h => ?_⟩
  · have := le_of_overlooked h
    norm_num at this
  · rcases h.2 with h | h | h <;> norm_num at h

/-- The episode before had credits of 24 seconds, and this one's of 17 seconds are not found; or it
had credits of 16 seconds, and this one's of 400 are found 373 seconds late. -/
theorem credits_missed :
    BlackFrom 1423 (darkProbe 1423) ∧
      blackFrameCredits 1440 450 39 (darkProbe 1423) 10 = .returned (none, 39) ∧
    BlackFrom 1040 (darkProbe 1040) ∧
      blackFrameCredits 1440 450 31 (darkProbe 1040) 10 = .returned (some ⟨1413, 1440⟩, 42) ∧
      ¬|(1413 : ℚ) - 1040| ≤ 4 := by
  refine ⟨darkProbe_blackFrom 1423, by decide +kernel, darkProbe_blackFrom 1040, by decide +kernel, ?_⟩
  rw [abs_le]
  norm_num

end Kahawai.Intro
