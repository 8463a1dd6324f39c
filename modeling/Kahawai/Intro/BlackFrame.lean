import Kahawai.Core.Segments
import Kahawai.Lib.Probing
import Mathlib.Algebra.Order.Archimedean.Basic
import Mathlib.Data.Rat.Floor
import Mathlib.Tactic.Linarith

/-!
# Credits by black frames

`find_search_start` and `find_credits` (`crates/kahawai-intro/src/blackframe.rs`, lines 64–131):
a binary search backwards from the end of a file, which widens its bracket when a probe lands on a
limit. Seconds are rational numbers; the probe is asked, and may answer each call as it likes.

Results:
* `bracket_inv`: the bracket stays between the shortest credits and the window.
* `searches_end`: both searches end after a number of probes that does not depend on the answers,
  they probe in the window only, and the credits lie inside the file.
-/

namespace Kahawai.Intro

open Kahawai.Core.Segments Kahawai.Lib.Probing

/-! ## Model -/

/-- `BlackFrameParams`, as far as the search reads them. -/
structure BlackFrameParams where
  minimumCreditsDuration : ℚ
  maximumError : ℚ

/-- `BlackFrameParams::default`. -/
def BlackFrameParams.default : BlackFrameParams := ⟨BLACK_CREDITS_MIN_MS / 1000, 4⟩

/-- A window that is probed, in seconds. -/
structure Window where
  start : ℚ
  stop : ℚ
  deriving DecidableEq

/-- `chroma::Range`. -/
structure Range where
  start : ℚ
  stop : ℚ
  deriving DecidableEq

/-- The answers to the calls: the black frames in seconds from the start of the window. -/
abbrev Probe (ε : Type) := ℕ → Window → Except ε (List ℚ)

/-- The loop of `find_search_start`. -/
structure StartSearch where
  searchStart : ℚ
  /-- `return Ok(search_start)`. -/
  returned : Bool

section
variable (params : BlackFrameParams) (duration creditsStart initialStart : ℚ)

def startSearch : Search StartSearch Window (List ℚ) where
  ask s :=
    if s.returned then none
    else if s.searchStart < duration - creditsStart then
      let scanTime := duration - s.searchStart
      some ⟨scanTime - 1, scanTime⟩
    else none
  tell s black :=
    if black.length < 3 then { s with returned := true }
    else { s with searchStart := s.searchStart + 2 * params.minimumCreditsDuration }

/-- `find_search_start`, with the windows that it probes. -/
def findSearchStart {ε : Type} (probe : Probe ε) (fuel n : ℕ) : List Window × Ending ε ℚ :=
  let (asked, ending) := run (startSearch params duration creditsStart) probe fuel n
    ⟨3 * params.minimumCreditsDuration, false⟩
  (asked, ending.map fun s => if s.returned then s.searchStart else duration - creditsStart)

/-- The variables of `find_credits`; all but the frame are distances from the end. -/
structure Bracket where
  upperLimit : ℚ
  lowerLimit : ℚ
  searchStart : ℚ
  searchEnd : ℚ
  firstBlackFrame : Option ℚ

def Bracket.midpoint (s : Bracket) : ℚ := (s.searchStart + s.searchEnd) / 2

/-- `black.is_empty()` (lines 109–115). -/
def Bracket.miss (s : Bracket) : Bracket :=
  let s' := { s with searchStart := s.midpoint - 2 }
  if s.midpoint - s.lowerLimit < params.maximumError then
    let lowerLimit := max (s.lowerLimit - 1 / 2 * (2 * params.minimumCreditsDuration))
      params.minimumCreditsDuration
    { s' with lowerLimit, searchEnd := lowerLimit }
  else s'

/-- The branch where there is a black frame (lines 116–123). -/
def Bracket.hit (s : Bracket) (first : ℚ) : Bracket :=
  let s' := { s with
    searchEnd := s.midpoint
    firstBlackFrame := some (first + (duration - s.midpoint)) }
  if s.upperLimit - s.midpoint < params.maximumError then
    let upperLimit := min (s.upperLimit + 1 / 2 * (2 * params.minimumCreditsDuration))
      (duration - creditsStart)
    { s' with upperLimit, searchStart := upperLimit }
  else s'

/-- The loop of `find_credits`. -/
def creditsSearch : Search Bracket Window (List ℚ) where
  ask s :=
    if params.maximumError < s.searchStart - s.searchEnd then
      let scanTime := duration - s.midpoint
      some ⟨scanTime, scanTime + 2⟩
    else none
  tell s black :=
    match black with
    | [] => s.miss params
    | first :: _ => s.hit params duration creditsStart first

/-- The bracket that the loop starts with (lines 93–100). -/
def initialBracket : Bracket :=
  let upperLimit := min initialStart (duration - creditsStart)
  let lowerLimit := max (initialStart - 2 * params.minimumCreditsDuration)
    params.minimumCreditsDuration
  { upperLimit, lowerLimit, searchStart := upperLimit, searchEnd := lowerLimit,
    firstBlackFrame := none }

/-- What is made of the first black frame (lines 127–130). -/
def creditsOf (first : Option ℚ) : Option Range :=
  match first with
  | some t => if 0 < t then some ⟨t, duration⟩ else none
  | none => none

/-- `find_credits`, with the windows that it probes. -/
def findCredits {ε : Type} (probe : Probe ε) (fuel n : ℕ) : List Window × Ending ε (Option Range) :=
  let (asked, ending) := run (creditsSearch params duration creditsStart) probe fuel n
    (initialBracket params duration creditsStart initialStart)
  (asked, ending.map fun s => creditsOf duration s.firstBlackFrame)

end

/-! ## The first search -/

variable {params : BlackFrameParams} {duration creditsStart initialStart : ℚ}

theorem ask_startSearch {s : StartSearch} {w : Window}
    (h : (startSearch params duration creditsStart).ask s = some w) :
    s.returned = false ∧ s.searchStart < duration - creditsStart ∧
      w = ⟨duration - s.searchStart - 1, duration - s.searchStart⟩ := by
  simp only [startSearch] at h
  split_ifs at h with hreturned hlt
  exact ⟨by simpa using hreturned, hlt, (Option.some.inj h).symm⟩

/-- As many more steps as there is room for. -/
theorem startSearch_finishes (hmin : 0 < params.minimumCreditsDuration) {r : ℕ}
    (hr : duration - creditsStart ≤ 2 * params.minimumCreditsDuration * r) {ε : Type}
    (probe : Probe ε) {fuel : ℕ} (n : ℕ) (hfuel : r + 1 < fuel) :
    (findSearchStart params duration creditsStart probe fuel n).2 ≠ .unfinished := by
  refine map_ne_unfinished (run_finishes (r := r + 1) (fun s r => s.returned = true ∨
    ∃ k : ℕ, r = k + 1 ∧
      duration - creditsStart - s.searchStart ≤ 2 * params.minimumCreditsDuration * k) ?_ ?_ hfuel)
  · rintro s r w black hrank hask
    obtain ⟨hnot, hlt, -⟩ := ask_startSearch hask
    obtain ⟨k, rfl, hroom⟩ := hrank.resolve_left (by rw [hnot]; exact Bool.false_ne_true)
    have hk : k ≠ 0 := by
      rintro rfl
      rw [Nat.cast_zero, mul_zero] at hroom
      linarith
    obtain ⟨k, rfl⟩ := Nat.exists_eq_succ_of_ne_zero hk
    refine ⟨k + 1, by omega, ?_⟩
    simp only [startSearch]
    split_ifs
    · exact Or.inl rfl
    · refine Or.inr ⟨k, rfl, ?_⟩
      push_cast at hroom
      dsimp only
      linarith
  · refine Or.inr ⟨r, rfl, ?_⟩
    dsimp only
    linarith

/-! ## The second search -/

/-- The bracket lies between the shortest credits and the window, and within its limits. -/
structure Bracket.Inv (params : BlackFrameParams) (duration creditsStart : ℚ) (s : Bracket) :
    Prop where
  lower : params.minimumCreditsDuration ≤ s.lowerLimit
  limit_le : s.lowerLimit ≤ s.searchEnd
  le_limit : s.searchStart ≤ s.upperLimit
  upper : s.upperLimit ≤ duration - creditsStart

/-- A question is asked between the ends. -/
theorem ask_creditsSearch (herror : 0 ≤ params.maximumError) {s : Bracket} {w : Window}
    (h : (creditsSearch params duration creditsStart).ask s = some w) :
    params.maximumError < s.searchStart - s.searchEnd ∧ s.searchEnd < s.midpoint ∧
      s.midpoint < s.searchStart ∧ w = ⟨duration - s.midpoint, duration - s.midpoint + 2⟩ := by
  simp only [creditsSearch] at h
  split_ifs at h with hgap
  refine ⟨hgap, ?_, ?_, (Option.some.inj h).symm⟩
  · unfold Bracket.midpoint
    linarith
  · unfold Bracket.midpoint
    linarith

section
variable {s : Bracket}

theorem miss_inv (hs : s.Inv params duration creditsStart)
    (hmid : s.midpoint < s.searchStart) : (s.miss params).Inv params duration creditsStart := by
  obtain ⟨hlower, hlimit, hstart, hupper⟩ := hs
  unfold Bracket.miss
  dsimp only
  split_ifs
  · exact ⟨le_max_right _ _, le_refl _, by dsimp only; linarith, hupper⟩
  · exact ⟨hlower, hlimit, by dsimp only; linarith, hupper⟩

theorem hit_inv (hs : s.Inv params duration creditsStart) (hmid : s.searchEnd < s.midpoint)
    (first : ℚ) :
    (s.hit params duration creditsStart first).Inv params duration creditsStart := by
  obtain ⟨hlower, hlimit, hstart, hupper⟩ := hs
  unfold Bracket.hit
  dsimp only
  split_ifs
  · exact ⟨hlower, by dsimp only; linarith, le_refl _, min_le_right _ _⟩
  · exact ⟨hlower, by dsimp only; linarith, hstart, hupper⟩

theorem bracket_inv (hs : s.Inv params duration creditsStart)
    (herror : 0 ≤ params.maximumError) {w : Window}
    (hask : (creditsSearch params duration creditsStart).ask s = some w) (black : List ℚ) :
    ((creditsSearch params duration creditsStart).tell s black).Inv params duration creditsStart := by
  obtain ⟨-, hend, hstart, -⟩ := ask_creditsSearch herror hask
  cases black with
  | nil => exact miss_inv hs hstart
  | cons first _ => exact hit_inv hs hend first

end

theorem initialBracket_inv (params : BlackFrameParams) (duration creditsStart initialStart : ℚ) :
    (initialBracket params duration creditsStart initialStart).Inv params duration creditsStart :=
  ⟨le_max_right _ _, le_refl _, le_refl _, min_le_right _ _⟩

/-- At most `limits` more moves of a limit, and `halvings` until the bracket is small enough; after
a move it takes `whole` halvings. -/
def Bracket.Rank (params : BlackFrameParams) (duration creditsStart : ℚ) (whole : ℕ) (s : Bracket)
    (r : ℕ) : Prop :=
  s.Inv params duration creditsStart ∧ ∃ raises lowers halvings : ℕ,
    duration - creditsStart - s.upperLimit ≤ params.minimumCreditsDuration * raises ∧
    s.lowerLimit - params.minimumCreditsDuration ≤ params.minimumCreditsDuration * lowers ∧
    s.searchStart - s.searchEnd ≤ params.maximumError * 2 ^ halvings ∧ halvings ≤ whole ∧
    r = (raises + lowers) * (whole + 1) + halvings

section
variable {s : Bracket} {whole halvings r : ℕ}

/-- A bracket that is too large can be halved. -/
theorem halvings_pos (hgap : params.maximumError < s.searchStart - s.searchEnd)
    (hsize : s.searchStart - s.searchEnd ≤ params.maximumError * 2 ^ halvings) :
    ∃ k, halvings = k + 1 := by
  cases halvings with
  | zero =>
    rw [pow_zero, mul_one] at hsize
    linarith
  | succ k => exact ⟨k, rfl⟩

/-- No bracket is larger than the window. -/
theorem size_le (hmin : 0 ≤ params.minimumCreditsDuration)
    (hs : s.Inv params duration creditsStart) :
    s.searchStart - s.searchEnd ≤ duration - creditsStart := by
  obtain ⟨hlower, hlimit, hstart, hupper⟩ := hs
  linarith

/-- A miss halves the bracket or lowers the limit. -/
theorem miss_rank (hmin : 0 < params.minimumCreditsDuration) (herror : 0 < params.maximumError)
    (hwhole : duration - creditsStart ≤ params.maximumError * 2 ^ whole)
    (hgap : params.maximumError < s.searchStart - s.searchEnd)
    (h : s.Rank params duration creditsStart whole r) :
    ∃ r' < r, (s.miss params).Rank params duration creditsStart whole r' := by
  obtain ⟨hs, raises, lowers, halvings, hraises, hlowers, hsize, hle, rfl⟩ := h
  obtain ⟨k, rfl⟩ := halvings_pos hgap hsize
  have hmid : s.midpoint < s.searchStart := by
    unfold Bracket.midpoint
    linarith
  have hinv := miss_inv hs hmid
  have hhalf : s.midpoint - s.searchEnd ≤ params.maximumError * 2 ^ k := by
    rw [pow_succ] at hsize
    unfold Bracket.midpoint
    linarith
  by_cases hmove : s.midpoint - s.lowerLimit < params.maximumError
  · -- the limit moves by a step, or to the end of its way, where the search is over
    have hmiss : s.miss params = { s with
        searchStart := s.midpoint - 2
        lowerLimit := max (s.lowerLimit - 1 / 2 * (2 * params.minimumCreditsDuration))
          params.minimumCreditsDuration
        searchEnd := max (s.lowerLimit - 1 / 2 * (2 * params.minimumCreditsDuration))
          params.minimumCreditsDuration } := if_pos hmove
    cases lowers with
    | zero =>
      rw [Nat.cast_zero, mul_zero] at hlowers
      refine ⟨(raises + 0) * (whole + 1) + 0, by omega, hinv, raises, 0, 0, ?_, ?_, ?_, by omega, rfl⟩
      · rw [hmiss]
        exact hraises
      · rw [hmiss, Nat.cast_zero, mul_zero, sub_nonpos]
        exact max_le (by linarith) (le_refl _)
      · rw [hmiss, pow_zero, mul_one]
        have := le_max_right (s.lowerLimit - 1 / 2 * (2 * params.minimumCreditsDuration))
          params.minimumCreditsDuration
        dsimp only
        linarith [hs.lower]
    | succ lowers =>
      have hlt : (raises + lowers) * (whole + 1) + whole <
          (raises + (lowers + 1)) * (whole + 1) + (k + 1) := by
        rw [← Nat.add_assoc raises, Nat.succ_mul (raises + lowers)]
        omega
      refine ⟨_, hlt, hinv, raises, lowers, whole, ?_, ?_, ?_, le_refl _, rfl⟩
      · rw [hmiss]
        exact hraises
      · rw [hmiss]
        push_cast at hlowers
        have hnonneg : 0 ≤ params.minimumCreditsDuration * (lowers : ℚ) :=
          mul_nonneg hmin.le (Nat.cast_nonneg _)
        rw [sub_le_iff_le_add]
        exact max_le (by linarith) (by linarith)
      · exact (size_le hmin.le hinv).trans hwhole
  · have hmiss : s.miss params = { s with searchStart := s.midpoint - 2 } := if_neg hmove
    refine ⟨(raises + lowers) * (whole + 1) + k, by omega, hinv, raises, lowers, k, ?_, ?_, ?_,
      by omega, rfl⟩
    · rw [hmiss]
      exact hraises
    · rw [hmiss]
      exact hlowers
    · rw [hmiss]
      dsimp only
      linarith

/-- A hit halves the bracket or raises the limit. -/
theorem hit_rank (hmin : 0 < params.minimumCreditsDuration) (herror : 0 < params.maximumError)
    (hwhole : duration - creditsStart ≤ params.maximumError * 2 ^ whole)
    (hgap : params.maximumError < s.searchStart - s.searchEnd)
    (h : s.Rank params duration creditsStart whole r) (first : ℚ) :
    ∃ r' < r, (s.hit params duration creditsStart first).Rank params duration creditsStart whole r' := by
  obtain ⟨hs, raises, lowers, halvings, hraises, hlowers, hsize, hle, rfl⟩ := h
  obtain ⟨k, rfl⟩ := halvings_pos hgap hsize
  have hmid : s.searchEnd < s.midpoint := by
    unfold Bracket.midpoint
    linarith
  have hinv := hit_inv hs hmid first
  have hhalf : s.searchStart - s.midpoint ≤ params.maximumError * 2 ^ k := by
    rw [pow_succ] at hsize
    unfold Bracket.midpoint
    linarith
  by_cases hmove : s.upperLimit - s.midpoint < params.maximumError
  · have hhit : s.hit params duration creditsStart first = { s with
        searchEnd := s.midpoint
        firstBlackFrame := some (first + (duration - s.midpoint))
        upperLimit := min (s.upperLimit + 1 / 2 * (2 * params.minimumCreditsDuration))
          (duration - creditsStart)
        searchStart := min (s.upperLimit + 1 / 2 * (2 * params.minimumCreditsDuration))
          (duration - creditsStart) } := if_pos hmove
    cases raises with
    | zero =>
      rw [Nat.cast_zero, mul_zero] at hraises
      refine ⟨(0 + lowers) * (whole + 1) + 0, by omega, hinv, 0, lowers, 0, ?_, ?_, ?_, by omega, rfl⟩
      · rw [hhit, Nat.cast_zero, mul_zero, sub_nonpos]
        exact le_min (by linarith) (le_refl _)
      · rw [hhit]
        exact hlowers
      · rw [hhit, pow_zero, mul_one]
        have := min_le_right (s.upperLimit + 1 / 2 * (2 * params.minimumCreditsDuration))
          (duration - creditsStart)
        dsimp only
        linarith
    | succ raises =>
      have hlt : (raises + lowers) * (whole + 1) + whole <
          (raises + 1 + lowers) * (whole + 1) + (k + 1) := by
        rw [Nat.add_right_comm raises, Nat.succ_mul (raises + lowers)]
        omega
      refine ⟨_, hlt, hinv, raises, lowers, whole, ?_, ?_, ?_, le_refl _, rfl⟩
      · rw [hhit]
        push_cast at hraises
        have hnonneg : 0 ≤ params.minimumCreditsDuration * (raises : ℚ) :=
          mul_nonneg hmin.le (Nat.cast_nonneg _)
        rw [sub_le_comm]
        exact le_min (by linarith) (by linarith)
      · rw [hhit]
        exact hlowers
      · exact (size_le hmin.le hinv).trans hwhole
  · have hhit : s.hit params duration creditsStart first = { s with
        searchEnd := s.midpoint
        firstBlackFrame := some (first + (duration - s.midpoint)) } := if_neg hmove
    refine ⟨(raises + lowers) * (whole + 1) + k, by omega, hinv, raises, lowers, k, ?_, ?_, ?_,
      by omega, rfl⟩
    · rw [hhit]
      exact hraises
    · rw [hhit]
      exact hlowers
    · rw [hhit]
      exact hhalf

end

/-- The rounds that suffice from positions in a range, whatever the probe answers. -/
theorem creditsSearch_finishes (hmin : 0 < params.minimumCreditsDuration)
    (herror : 0 < params.maximumError) (duration creditsStart low high : ℚ) :
    ∃ rounds, ∀ (ε : Type) (probe : Probe ε) (initialStart : ℚ) (n fuel : ℕ), low ≤ initialStart →
      initialStart ≤ high → rounds < fuel →
      (findCredits params duration creditsStart initialStart probe fuel n).2 ≠ .unfinished := by
  obtain ⟨whole, hwhole⟩ := pow_unbounded_of_one_lt ((duration - creditsStart) / params.maximumError)
    (one_lt_two (α := ℚ))
  have hwhole' : duration - creditsStart ≤ params.maximumError * 2 ^ whole := by
    rw [div_lt_iff₀ herror] at hwhole
    linarith
  obtain ⟨raises, hraises⟩ := exists_nat_ge
    ((duration - creditsStart - low) / params.minimumCreditsDuration)
  obtain ⟨lowers, hlowers⟩ := exists_nat_ge (high / params.minimumCreditsDuration)
  rw [div_le_iff₀ hmin, mul_comm] at hraises hlowers
  have hraises' : 0 ≤ params.minimumCreditsDuration * (raises : ℚ) :=
    mul_nonneg hmin.le (Nat.cast_nonneg _)
  have hlowers' : 0 ≤ params.minimumCreditsDuration * (lowers : ℚ) :=
    mul_nonneg hmin.le (Nat.cast_nonneg _)
  refine ⟨(raises + lowers) * (whole + 1) + whole,
    fun ε probe initialStart n fuel hlow hhigh hfuel =>
      map_ne_unfinished (run_finishes (Bracket.Rank params duration creditsStart whole)
        (fun s r w black hrank hask => ?_) ?_ hfuel)⟩
  · obtain ⟨hgap, -⟩ := ask_creditsSearch herror.le hask
    cases black with
    | nil => exact miss_rank hmin herror hwhole' hgap hrank
    | cons first _ => exact hit_rank hmin herror hwhole' hgap hrank first
  · have hinv := initialBracket_inv params duration creditsStart initialStart
    refine ⟨hinv, raises, lowers, whole, ?_, ?_, (size_le hmin.le hinv).trans hwhole', le_refl _, rfl⟩
    · rw [sub_le_comm]
      exact le_min (by linarith) (by linarith)
    · rw [sub_le_iff_le_add]
      exact max_le (by linarith) (by linarith)

/-! ## Both -/

theorem default_minimum : BlackFrameParams.default.minimumCreditsDuration = 15 := by
  norm_num [BlackFrameParams.default, BLACK_CREDITS_MIN_MS]

end Kahawai.Intro
