import Mathlib.Algebra.Order.Field.Rat
import Mathlib.Algebra.Order.Field.Basic
import Kahawai.Media.Negotiate.Choice

/-!
# The limits of the client

A stream that is delivered as it is must be within everything that the client declared. The
frame rate of the source is a fraction and the engine divides it in whole numbers.

Results:
* `within_limits_iff`: the limits hold of every stream that is delivered as it is, if and
  only if the frame rate of a video that is kept is not above the limit by less than a frame.
* `not_within_limits`: 30.5 frames per second for a client that takes 30.
-/

namespace Kahawai.Media.Negotiate

open Kahawai.Core

/-- The video is within what the client declared. -/
structure VideoWithin (x : Inputs) (v : VideoStream) : Prop where
  admitted : ∃ c ∈ x.profile.video, c.codec = v.codec ∧ capAdmits v.codec c v = true
  height : ∀ limit, x.profile.maxHeight = some limit → v.height ≤ limit
  fps : ∀ n d limit, v.fps = some (n, d) → 0 < d → x.profile.maxFps = some limit →
    (n : ℚ) / d ≤ limit
  bandwidth : ∀ kbps limit, x.estKbps = some kbps → x.profile.maxBandwidthKbps = some limit →
    kbps ≤ limit

/-- The audio is within what the client declared. -/
structure AudioWithin (x : Inputs) (a : AudioStream) : Prop where
  listed : a.codec ∈ x.profile.audio
  channels : x.profile.maxAudioChannels ≠ 0 → a.channels ≤ x.profile.maxAudioChannels

/-- The streams that are delivered as they are. -/
structure WithinLimits (x : Inputs) (p : SourcePlan) : Prop where
  video : ∀ v, x.info.video[p.plan.videoTrack]? = some v → p.keepsVideo →
    VideoWithin x v ∧ p.burned = []
  audio : ∀ a, x.info.audio[p.plan.audioTrack]? = some a → p.direct = true ∨ p.plan.audio = .copy →
    AudioWithin x a
  transport : p.plan.segmentFormat = .ts →
    (∀ v, x.info.video[p.plan.videoTrack]? = some v → p.plan.video = .copy → v.codec = "h264") ∧
    (∀ a, x.info.audio[p.plan.audioTrack]? = some a → p.plan.audio = .copy →
      a.codec ∉ ["opus", "flac", "vorbis"])

namespace Inputs

variable {g : Gstreamer} {x : Inputs} {f : Bool}

/-- The frame rate of the selected video is not above the limit as an exact fraction. -/
def FrameRateFits (x : Inputs) : Prop :=
  ∀ v ∈ x.video, ∀ n d limit, v.fps = some (n, d) → 0 < d → x.profile.maxFps = some limit →
    n ≤ limit * d

theorem not_exceeds {value limit : Option ℕ} (h : exceeds value limit = false) :
    ∀ a b, value = some a → limit = some b → a ≤ b := by
  rintro a b rfl rfl
  simpa [exceeds] using h

/-- A fraction against a whole limit. -/
theorem div_le_iff_le_mul {n d limit : ℕ} (hd : 0 < d) :
    (n : ℚ) / d ≤ limit ↔ n ≤ limit * d := by
  have hpos : (0 : ℚ) < d := Nat.cast_pos.mpr hd
  rw [div_le_iff₀ hpos, ← Nat.cast_mul, Nat.cast_le]

/-- What the client takes, but for the frame rate. -/
theorem videoWithin_iff {v : VideoStream} (hv : x.video = some v) (hok : x.videoClientOk = true) :
    VideoWithin x v ↔ x.FrameRateFits := by
  simp only [videoClientOk, hv, Option.any_some, Bool.and_eq_true, Bool.not_eq_true'] at hok
  obtain ⟨⟨hfits, hcap⟩, -⟩ := hok
  simp only [videoFits, Bool.and_eq_true, Bool.not_eq_true'] at hfits
  obtain ⟨⟨hadmits, hheight⟩, -⟩ := hfits
  have hfps : x.FrameRateFits ↔ ∀ n d limit, v.fps = some (n, d) → 0 < d →
      x.profile.maxFps = some limit → (n : ℚ) / d ≤ limit := by
    unfold FrameRateFits
    rw [hv]
    constructor
    · intro h n d limit hn hd hlimit
      exact (div_le_iff_le_mul hd).mpr (h v rfl n d limit hn hd hlimit)
    · rintro h _ ⟨⟩ n d limit hn hd hlimit
      exact (div_le_iff_le_mul hd).mp (h n d limit hn hd hlimit)
  rw [hfps]
  constructor
  · exact VideoWithin.fps
  · intro hrate
    obtain ⟨c, hc, hcap'⟩ := List.any_eq_true.mp hadmits
    obtain ⟨hmem, hcodec⟩ := List.mem_filter.mp hc
    exact
      { admitted := ⟨c, hmem, of_decide_eq_true hcodec, hcap'⟩
        height := fun limit hlimit => not_exceeds hheight _ _ rfl hlimit
        fps := hrate
        bandwidth := not_exceeds hcap }

/-- A video that is kept is one that the client takes, and nothing is burned into it. -/
theorem of_keepsVideo (hv : x.video.isSome = true) (h : x.keepsVideo g = true) :
    x.videoClientOk = true ∧ x.burnActive = false := by
  unfold keepsVideo at h
  rw [Bool.or_eq_true] at h
  rcases h with hdirect | hcopy
  · have hburn : x.burnActive = false := by
      by_contra hburn
      rw [direct_of_burnActive (Bool.not_eq_false _ ▸ hburn)] at hdirect
      cases hdirect
    obtain ⟨v, hv⟩ := Option.isSome_iff_exists.mp hv
    simp only [direct, hv, Option.isNone_some, Bool.false_or, Bool.and_eq_true] at hdirect
    exact ⟨hdirect.1.1.1.1.1.1.2, hburn⟩
  · rw [Bool.and_eq_true] at hcopy
    have hcopies : ∃ format, x.copiesVideo g format = true := by
      have hwins := hcopy.1
      unfold copyWins at hwins
      split_ifs at hwins with hts
      · exact ⟨.ts, hts⟩
      · rw [Bool.and_eq_true] at hwins
        exact ⟨.fmp4, hwins.1⟩
    obtain ⟨format, hcopies⟩ := hcopies
    obtain ⟨v, -, hok⟩ := (Option.any_eq_true _ _).mp hcopies
    simp only [Bool.and_eq_true, Bool.not_eq_true'] at hok
    exact ⟨hok.1.1, hok.2⟩

/-- Nothing is burned that is not wished. -/
theorem burned_of_not_burnActive (h : x.burnActive = false) (forceAudioEncode : Bool) :
    (negotiateForExecutors g x forceAudioEncode).burned = [] := by
  have hwishes : x.wishes = 0 := by
    by_contra hwishes
    rw [burnActive_iff.mpr (Nat.pos_of_ne_zero hwishes)] at h
    cases h
  have hlength := length_burned g x forceAudioEncode
  rw [hwishes, ite_self] at hlength
  exact List.length_eq_zero_iff.mp hlength

/-- Audio that is delivered as it is. -/
theorem audioWithin {a : AudioStream} (ha : x.audio = some a)
    (h : x.direct f = true ∨ (x.plan g f).audio = .copy) : AudioWithin x a := by
  have hok : x.audioClientOk = true := by
    rcases h with hdirect | hcopy
    · simp only [direct, ha, Option.isNone_some, Bool.false_or, Bool.and_eq_true] at hdirect
      exact hdirect.1.1.1.1.1.2
    · change x.audioMode g f (x.format g f) = .copy at hcopy
      rw [audioMode_eq] at hcopy
      split_ifs at hcopy with hkeeps
      obtain ⟨b, -, hok⟩ := (Option.any_eq_true _ _).mp (Bool.and_eq_true_iff.mp hkeeps).2
      exact (Bool.and_eq_true_iff.mp hok).1
  simp only [audioClientOk, ha, Option.any_some, Bool.and_eq_true, decide_eq_true_eq,
    Bool.or_eq_true] at hok
  exact ⟨hok.1, fun hlimit => hok.2.resolve_left hlimit⟩

/-- What a copy into TS carries. -/
theorem transport_of_ts (h : x.format g f = .ts) :
    (∀ v, x.video = some v → (x.plan g f).video = .copy → v.codec = "h264") ∧
    (∀ a, x.audio = some a → (x.plan g f).audio = .copy → a.codec ∉ ["opus", "flac", "vorbis"]) := by
  have hnot := h
  rw [format_eq] at hnot
  split_ifs at hnot with hfmp4
  simp only [Bool.or_eq_true, not_or, Bool.and_eq_true, not_and] at hfmp4
  obtain ⟨⟨hh264, hsilent⟩, -⟩ := hfmp4
  constructor
  · intro v hv hcopy
    have hmode := (plan_copy_iff.mp hcopy).1
    unfold chosen at hmode
    rw [h] at hmode
    change x.videoMode g .ts = .copy at hmode
    rw [videoMode_eq] at hmode
    split_ifs at hmode with hcopies
    simpa [isH264, hv] using hh264 hcopies
  · intro a ha hcopy hcodec
    change x.audioMode g f (x.format g f) = .copy at hcopy
    rw [h, audioMode_eq] at hcopy
    split_ifs at hcopy with hkeeps
    obtain ⟨hforce, hcopies⟩ := Bool.and_eq_true_iff.mp hkeeps
    refine hsilent (Bool.and_eq_true_iff.mpr ⟨hforce, Bool.and_eq_true_iff.mpr ⟨hcopies, ?_⟩⟩)
    simpa [ha] using hcodec

end Inputs

/-! ## All limits -/

/-- The streams that are delivered as they are keep within what the client declared, if and
    only if a video that is kept is not faster than the client's limit. -/
theorem within_limits_iff (g : Gstreamer) (x : Inputs) (forceAudioEncode : Bool) :
    WithinLimits x (negotiateForExecutors g x forceAudioEncode) ↔
      (x.keepsVideo g = true → x.FrameRateFits) := by
  constructor
  · intro h hkeeps
    cases hv : x.video with
    | none => simp [Inputs.FrameRateFits, hv]
    | some v =>
      have hsome : x.video.isSome = true := by rw [hv]; rfl
      have hwithin := (h.video v hv ((kept_iff hsome forceAudioEncode).mpr hkeeps)).1
      exact (Inputs.videoWithin_iff hv (Inputs.of_keepsVideo hsome hkeeps).1).mp hwithin
  · intro h
    refine ⟨fun v hv hkept => ?_, fun a ha hkept => ?_, fun hts => ?_⟩
    case refine_2 => exact Inputs.audioWithin (f := forceAudioEncode && x.honoursForce g) ha hkept
    case refine_3 => exact Inputs.transport_of_ts (f := forceAudioEncode && x.honoursForce g) hts
    have hvideo : x.video = some v := hv
    have hsome : x.video.isSome = true := by rw [hvideo]; rfl
    have hkeeps := (kept_iff hsome forceAudioEncode).mp hkept
    obtain ⟨hok, hburn⟩ := Inputs.of_keepsVideo hsome hkeeps
    exact ⟨(Inputs.videoWithin_iff hvideo hok).mpr (h hkeeps),
      Inputs.burned_of_not_burnActive hburn forceAudioEncode⟩

/-- A film of 61 frames in two seconds, for a client that takes 30 a second. -/
def fastFilm : Inputs :=
  { longGopFilm with
    profile := { CapabilityProfile.default with audio := ["aac"], maxFps := some 30 }
    info := { longGopFilm.info with
      video := [⟨"h264", 1080, some (61, 2), some 8, false, none, none, none, none⟩] } }

/-- It is copied. -/
theorem not_within_limits :
    (∀ maxSecs, fastFilm.profile.targetDuration ≠ .short maxSecs) ∧
    (negotiateForExecutors sampleGstreamer fastFilm false).plan.video = .copy ∧
    ¬ WithinLimits fastFilm (negotiateForExecutors sampleGstreamer fastFilm false) := by
  have hcopy : (negotiateForExecutors sampleGstreamer fastFilm false).plan.video = .copy := by
    decide
  refine ⟨nofun, hcopy, fun hwithin => ?_⟩
  have hfps := (hwithin.video ⟨"h264", 1080, some (61, 2), some 8, false, none, none, none, none⟩ rfl
    (Or.inr hcopy)).1.fps 61 2 30 rfl (by decide) rfl
  rw [Inputs.div_le_iff_le_mul (by decide)] at hfps
  exact absurd hfps (by decide)

end Kahawai.Media.Negotiate
