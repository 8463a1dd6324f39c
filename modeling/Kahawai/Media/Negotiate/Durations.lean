import Mathlib.Algebra.Order.Round
import Mathlib.Data.Rat.Floor
import Mathlib.Tactic.FieldSimp
import Mathlib.Tactic.Linarith
import Kahawai.Lib.Packing
import Kahawai.Media.Negotiate.Choice

/-!
# Declared segment durations

A copy is cut at the keyframes of the source: whole groups of pictures are packed until the
fragment target is passed. What is declared for it must cover every segment, and a `short`
client is promised a ceiling.

Results:
* `round_segment_le`: no segment of a copy is longer than what is declared for it.
* `honest_target_iff`: the declaration is honest and within the ceiling if and only if the
  ceiling is at least the 2 s of an encode or, without video, the 16 s of an unknown source.
* `not_honest_target`: a client with a ceiling of one second.
-/

namespace Kahawai.Media.Negotiate

open Kahawai.Core Kahawai.Lib

/-- The source is neither played directly nor unplayable. -/
def SourcePlan.Segmented (p : SourcePlan) : Prop := p.direct = false ∧ p.cost ≠ .unplayable

/-- The segments of a copy, from the durations of the groups of pictures in seconds. -/
def segments (gops : List ℚ) : List (List ℚ) := Packing.pack (fragmentTargetSecs : ℚ) gops

/-- The declared duration covers every segment of a copied video with a known gap between
    keyframes, and is within the ceiling of a `short` client. -/
structure HonestTarget (x : Inputs) (p : SourcePlan) : Prop where
  covers : x.profile.targetDuration ≠ .ignore → p.plan.video = .copy →
    ∀ v, x.info.video[p.plan.videoTrack]? = some v → ∀ gapMs, v.maxKeyframeIntervalMs = some gapMs →
      ∀ gops : List ℚ, (∀ gop ∈ gops, gop ≤ gapMs / 1000) →
        ∀ segment ∈ segments gops, round segment.sum ≤ (p.targetDurationSecs : ℤ)
  ceiling : ∀ secs, x.profile.targetDuration.ceilingSecs = some secs → p.targetDurationSecs ≤ secs
  encodes : ∀ secs, x.profile.targetDuration.ceilingSecs = some secs →
    secs < declaredTargetSecs x.profile.targetDuration x.gapMs false → p.plan.video ≠ .copy

/-- The smallest ceiling that is kept: the length of an encoded segment, or what is declared
    for a source without video. -/
def Inputs.smallestCeiling (x : Inputs) : ℕ :=
  if x.video.isSome then defaultTargetDurationSecs else unknownGapTargetSecs

/-! ## Segments of a copy -/

/-- A number of seconds that is at most a number of milliseconds, to the nearest second. -/
theorem round_le_of_le_ms {q : ℚ} {ms : ℕ} (h : q ≤ ms / 1000) :
    round q ≤ (((ms + 500) / 1000 : ℕ) : ℤ) := by
  rw [round_eq, ← Int.lt_add_one_iff, Int.floor_lt]
  have hms : ms + 500 < ((ms + 500) / 1000 + 1) * 1000 := by omega
  generalize (ms + 500) / 1000 = secs at hms ⊢
  have hcast : (ms : ℚ) + 500 < (secs + 1) * 1000 := by exact_mod_cast hms
  push_cast
  linarith

theorem round_segment_le {mode : TargetDuration} (hmode : mode ≠ .ignore) {gapMs : ℕ} {gops : List ℚ}
    (hgops : ∀ gop ∈ gops, gop ≤ gapMs / 1000) :
    ∀ segment ∈ segments gops,
      round segment.sum ≤ (declaredTargetSecs mode (some gapMs) false : ℤ) := by
  intro segment hsegment
  have hsum : segment.sum ≤ ((fragmentTargetSecs * 1000 + gapMs : ℕ) : ℚ) / 1000 := by
    have hpack := Packing.sum_le_of_mem_pack (by positivity) hgops (by positivity) segment hsegment
    refine hpack.trans (le_of_eq ?_)
    push_cast
    field_simp
  have hdeclared : (fragmentTargetSecs * 1000 + gapMs + 500) / 1000 ≤
      declaredTargetSecs mode (some gapMs) false := by
    cases mode with
    | ignore => exact absurd rfl hmode
    | accurate => exact Nat.le_max_left _ _
    | short maxSecs => exact Nat.le_max_left _ _
  exact (round_le_of_le_ms hsum).trans (Int.ofNat_le.mpr hdeclared)

namespace Inputs

variable {g : Gstreamer} {x : Inputs} {f : Bool}

/-! ## The ceiling -/

/-- What is declared for a copy is at least the constant. -/
theorem default_le_declaredTargetSecs (mode : TargetDuration) (gap : Option ℕ) (encoded : Bool) :
    defaultTargetDurationSecs ≤ declaredTargetSecs mode gap encoded := by
  unfold declaredTargetSecs
  cases encoded with
  | true => exact Nat.le_max_left _ _
  | false =>
    have hunknown : defaultTargetDurationSecs ≤ unknownGapTargetSecs := by decide
    cases mode with
    | ignore => exact Nat.le_refl _
    | _ =>
      cases gap with
      | none => exact hunknown
      | some gapMs => exact Nat.le_max_right _ _

/-- What is declared for a playable source, under a ceiling. -/
theorem declared_le_iff {maxSecs : ℕ} (hmode : x.profile.targetDuration = .short maxSecs)
    (h : (x.impl g f).Segmented) :
    (x.impl g f).targetDurationSecs ≤ max maxSecs 1 ↔ x.smallestCeiling ≤ maxSecs := by
  have hdeclared : (x.impl g f).targetDurationSecs =
      declaredTargetSecs (.short maxSecs) x.gapMs ((x.plan g f).video = .encode) := by
    rw [← hmode]
    rfl
  rw [hdeclared, smallestCeiling]
  cases hv : x.video with
  | none =>
    have hoff : (x.plan g f).video = .off := by
      have hmodes : ∀ format, x.videoMode g format = .off := by
        intro format
        unfold videoMode
        simp [hv]
      have hchosen : (x.chosen g f).video = .off := hmodes _
      change x.plannedVideo g f = .off
      rw [plannedVideo, copyTooLong_eq, hchosen]
      rfl
    have hgap : x.gapMs = none := by rw [gapMs, hv]; rfl
    rw [hoff, hgap]
    change unknownGapTargetSecs ≤ max maxSecs 1 ↔ unknownGapTargetSecs ≤ maxSecs
    simp only [unknownGapTargetSecs]
    omega
  | some v =>
    rw [Option.isSome_some, if_pos rfl]
    cases hvideo : (x.plan g f).video with
    | encode =>
      simp only [declaredTargetSecs, decide_true, if_true, defaultTargetDurationSecs]
      omega
    | copy =>
      -- the copy was left, so that its segments are within the ceiling
      have hfits := (plan_copy_iff.mp hvideo).2
      have hle : declaredTargetSecs (.short maxSecs) x.gapMs false ≤ max maxSecs 1 := by
        unfold gapTooLong at hfits
        rw [hmode] at hfits
        exact Nat.not_lt.mp (of_decide_eq_false hfits)
      have hdefault := default_le_declaredTargetSecs (.short maxSecs) x.gapMs false
      refine iff_of_true hle ?_
      simp only [defaultTargetDurationSecs] at hdefault ⊢
      omega
    | off =>
      have hcost : (x.impl g f).cost = .unplayable := by
        change x.costOf f (x.plan g f).video _ = _
        have hdirect : x.direct f = false := h.1
        simp [costOf, hdirect, hvideo, hv]
      exact absurd hcost h.2

end Inputs

/-- What is declared for a source that is delivered in segments is honest and within the
    ceiling, if and only if the ceiling of a `short` client is not too small. -/
theorem honest_target_iff (g : Gstreamer) (x : Inputs) (forceAudioEncode : Bool)
    (h : (negotiateForExecutors g x forceAudioEncode).Segmented) :
    HonestTarget x (negotiateForExecutors g x forceAudioEncode) ↔
      ∀ maxSecs, x.profile.targetDuration = .short maxSecs → x.smallestCeiling ≤ maxSecs := by
  revert h
  unfold negotiateForExecutors
  generalize (forceAudioEncode && x.honoursForce g) = f
  intro h
  constructor
  · intro hhonest maxSecs hmode
    have hceiling := hhonest.ceiling (max maxSecs 1) (by rw [hmode]; rfl)
    exact (Inputs.declared_le_iff hmode h).mp hceiling
  · intro hsmallest
    refine ⟨fun hmode hcopy v hv gapMs hgap gops hgops segment hsegment => ?_, fun secs hsecs => ?_,
      fun secs hsecs hlong hcopy => ?_⟩
    case refine_1 =>
      have hcopied : (x.plan g f).video = .copy := hcopy
      have hknown : x.gapMs = some gapMs := by
        change x.video.bind VideoStream.maxKeyframeIntervalMs = _
        rw [show x.video = some v from hv]
        exact hgap
      have hdeclared : (x.impl g f).targetDurationSecs =
          declaredTargetSecs x.profile.targetDuration (some gapMs) false := by
        change declaredTargetSecs _ x.gapMs (decide ((x.plan g f).video = .encode)) = _
        rw [hcopied, hknown]
        rfl
      rw [hdeclared]
      exact round_segment_le hmode hgops segment hsegment
    case refine_2 =>
      cases hmode : x.profile.targetDuration with
      | short maxSecs =>
        rw [hmode] at hsecs
        cases hsecs
        exact (Inputs.declared_le_iff hmode h).mpr (hsmallest maxSecs hmode)
      | _ =>
        rw [hmode] at hsecs
        cases hsecs
    case refine_3 =>
      have hfits := (Inputs.plan_copy_iff.mp hcopy).2
      unfold Inputs.gapTooLong at hfits
      rw [hsecs, Option.any_some, decide_eq_false_iff_not] at hfits
      exact hfits hlong

/-- A film that is copied, for a client that wants segments of at most 6 s. -/
def shortFilm : Inputs :=
  { longGopFilm with
    profile := { CapabilityProfile.default with audio := ["aac"], targetDuration := .short 6 }
    info := { longGopFilm.info with
      video := [⟨"h264", 1080, some (24, 1), some 8, false, none, none, none, some 2000⟩] }
    videoTargets := ["h264"]
    fullAudioTargets := ["aac"] }

/-- Its declaration is honest. -/
theorem honest_target_short :
    HonestTarget shortFilm (negotiateForExecutors sampleGstreamer shortFilm false) :=
  (honest_target_iff sampleGstreamer shortFilm false ⟨by decide, by decide⟩).mpr (by
    rintro maxSecs ⟨⟩
    decide)

/-- The same film for a client that wants segments of at most 1 s. -/
def secondFilm : Inputs :=
  { shortFilm with profile := { shortFilm.profile with targetDuration := .short 1 } }

/-- For a ceiling of one second the film is encoded, and 2 s are declared; for the audio
    alone 16 s are, where the ceiling is 6 s. -/
theorem not_honest_target :
    ((negotiateForExecutors sampleGstreamer secondFilm false).Segmented ∧
      (negotiateForExecutors sampleGstreamer secondFilm false).targetDurationSecs = 2) ∧
    ((negotiateForExecutors sampleGstreamer
        { shortFilm with info := { shortFilm.info with video := [] } } false).Segmented ∧
      (negotiateForExecutors sampleGstreamer
        { shortFilm with info := { shortFilm.info with video := [] } } false).targetDurationSecs = 16) ∧
    ¬ HonestTarget secondFilm (negotiateForExecutors sampleGstreamer secondFilm false) := by
  have hdeclared : (negotiateForExecutors sampleGstreamer secondFilm false).targetDurationSecs = 2 := by
    decide
  refine ⟨⟨⟨by decide, by decide⟩, hdeclared⟩,
    ⟨⟨by decide, by decide⟩, by decide⟩, fun hhonest => ?_⟩
  have hceiling := hhonest.ceiling 1 rfl
  rw [hdeclared] at hceiling
  exact absurd hceiling (by decide)

end Kahawai.Media.Negotiate
