import Kahawai.Media.Negotiate.Burns

/-!
# Which candidate is chosen

The choice of the segment format in terms of the inputs: what each format copies, and what
it drops. A copied picture is strictly cheaper than any other, so that between formats of
which one copies the dropped audio decides.

Results:
* `chosen_copy_iff`: the video of the chosen candidate is copied if and only if `copyWins`
  holds.
* `kept_iff`: the selected video is delivered as it is if and only if `keepsVideo` holds,
  whether audio is forced or not.
-/

namespace Kahawai.Media.Negotiate

open Kahawai.Core

namespace Inputs

variable (g : Gstreamer) (x : Inputs) (f : Bool)

/-! ## What a format offers -/

/-- The format takes the video as it is, the client plays it and nothing is burned. -/
def copiesVideo (format : SegmentFormat) : Bool :=
  x.video.any fun s => x.videoClientOk && g.muxable "video" s.codec format && !x.burnActive

/-- The audio encoders that the format would use. -/
def audioPool (format : SegmentFormat) : List String :=
  if !x.copiesVideo g format && x.encodable g format then x.fullAudioTargets
  else x.localAudioTargets

/-- The format takes the audio as it is; forced audio is never copied. -/
def keepsAudio (format : SegmentFormat) : Bool := !f && x.copiesAudio g format

/-- The format delivers no audio although there is some. -/
def losesAudio (format : SegmentFormat) : Bool :=
  x.audio.isSome && !x.keepsAudio g f format && !x.encodesAudio g (x.audioPool g format) format

/-- TS would copy audio that clients cannot read from it. -/
def silent : Bool := !f && x.tsSilent g

/-- The selected video is H.264. -/
def isH264 : Bool := x.video.any fun s => s.codec = "h264"

/-- The chosen format copies the video: both do; or only TS does, with H.264 and without
    losing more audio; or only fMP4 does, without losing more audio. -/
def copyWins : Bool :=
  if x.copiesVideo g .ts then
    x.copiesVideo g .fmp4 ||
      (x.isH264 && !x.silent g f && (x.losesAudio g f .fmp4 || !x.losesAudio g f .ts))
  else
    x.copiesVideo g .fmp4 && (x.silent g f || x.losesAudio g f .ts || !x.losesAudio g f .fmp4)

variable {g x f} {format : SegmentFormat}

/-! ## The candidates -/

theorem videoMode_eq : x.videoMode g format =
    if x.copiesVideo g format then .copy else if x.encodable g format then .encode else .off :=
  rfl

theorem audioTargets_eq : x.audioTargets (x.videoMode g format) = x.audioPool g format := by
  unfold audioTargets audioPool
  rw [videoMode_eq]
  cases x.copiesVideo g format <;> cases x.encodable g format <;> rfl

theorem audioMode_eq : x.audioMode g f format =
    if x.keepsAudio g f format then .copy
    else if x.encodesAudio g (x.audioPool g format) format then .encode
    else .off := by
  have hkeeps : x.keepsAudio g f format =
      (!f && x.audio.any fun s => x.audioClientOk && g.muxable "audio" s.codec format) := rfl
  unfold audioMode encodesAudio
  rw [hkeeps, ← audioTargets_eq]

theorem key_fst_eq :
    (x.candidate g f format).key.1 = if x.losesAudio g f format then 1 else 0 := by
  refine if_congr ?_ rfl rfl
  rw [audioMode_eq, losesAudio]
  cases x.audio.isSome <;> cases x.keepsAudio g f format <;>
    cases x.encodesAudio g (x.audioPool g format) format <;> decide

theorem tsDeliversPlayableAudio_silent :
    x.tsDeliversPlayableAudio (x.candidate g f .ts) = !x.silent g f := by
  have haudio : (x.candidate g f .ts).audio = x.audioMode g f .ts := rfl
  unfold tsDeliversPlayableAudio silent tsSilent
  rw [haudio, audioMode_eq, keepsAudio]
  cases f <;> cases x.copiesAudio g .ts <;>
    cases x.encodesAudio g (x.audioPool g .ts) .ts <;> simp

theorem tsDeliversH264_eq :
    x.tsDeliversH264 (x.candidate g f .ts) = (!x.copiesVideo g .ts || x.isH264) := by
  have hvideo : (x.candidate g f .ts).video = x.videoMode g .ts := rfl
  have htarget : (x.candidate g f .ts).videoTarget = .h264 := videoTarget_of_ts rfl
  unfold tsDeliversH264
  rw [hvideo, htarget, videoMode_eq]
  cases x.copiesVideo g .ts <;> cases x.encodable g .ts <;> simp [isH264]

/-- The format of the session. -/
theorem format_eq : x.format g f =
    if (x.copiesVideo g .ts && !x.isH264) || x.silent g f ||
        keyBefore (x.candidate g f .fmp4).key (x.candidate g f .ts).key then .fmp4
    else .ts := by
  unfold format
  dsimp only
  rw [tsDeliversH264_eq, tsDeliversPlayableAudio_silent]
  simp only [Bool.not_or, Bool.not_not]

/-- A candidate that copies video is cheap. -/
theorem rank_of_copiesVideo (h : x.copiesVideo g format = true) :
    (x.candidate g f format).key.2.rank ≤ 2 := by
  have hcost : (x.candidate g f format).key.2 = x.costOf f .copy (x.audioMode g f format) := by
    change x.costOf f (x.videoMode g format) _ = _
    rw [videoMode_eq, h, if_pos rfl]
  rw [hcost]
  unfold costOf
  cases x.direct f <;> cases x.audioMode g f format <;> simp [Cost.rank]

/-- One that does not is dear, unless the source is played directly. -/
theorem rank_of_not_copiesVideo (hdirect : x.direct f = false) (hv : x.video.isSome = true)
    (h : x.copiesVideo g format = false) : 3 ≤ (x.candidate g f format).key.2.rank := by
  have hcost : (x.candidate g f format).key.2 =
      x.costOf f (if x.encodable g format then .encode else .off) (x.audioMode g f format) := by
    change x.costOf f (x.videoMode g format) _ = _
    rw [videoMode_eq, h, if_neg Bool.false_ne_true]
  rw [hcost]
  unfold costOf
  rw [hdirect, hv]
  cases x.encodable g format <;> simp [Cost.rank]

/-- A cheaper candidate comes first unless it loses more audio. -/
theorem keyBefore_of_rank_lt {a b : SegmentFormat}
    (h : (x.candidate g f a).key.2.rank < (x.candidate g f b).key.2.rank) :
    keyBefore (x.candidate g f a).key (x.candidate g f b).key =
      (x.losesAudio g f b || !x.losesAudio g f a) := by
  unfold keyBefore
  rw [key_fst_eq, key_fst_eq]
  cases x.losesAudio g f a <;> cases x.losesAudio g f b <;> simp [h]

/-- A dearer one comes first only if it loses less. -/
theorem keyBefore_of_rank_le {a b : SegmentFormat}
    (h : (x.candidate g f b).key.2.rank ≤ (x.candidate g f a).key.2.rank) :
    keyBefore (x.candidate g f a).key (x.candidate g f b).key =
      (x.losesAudio g f b && !x.losesAudio g f a) := by
  have hnot := Nat.not_lt.mpr h
  unfold keyBefore
  rw [key_fst_eq, key_fst_eq]
  cases x.losesAudio g f a <;> cases x.losesAudio g f b <;> simp [hnot]

theorem isSome_of_copiesVideo (h : x.copiesVideo g format = true) : x.video.isSome = true := by
  obtain ⟨v, hv, -⟩ := (Option.any_eq_true _ _).mp h
  rw [hv]
  rfl

/-! ## A copied picture -/

/-- The chosen candidate copies the video. -/
theorem chosen_copy_iff (hdirect : x.direct f = false) :
    (x.chosen g f).video = .copy ↔ x.copyWins g f = true := by
  have hmode : ∀ format, (x.candidate g f format).video = .copy ↔ x.copiesVideo g format = true := by
    intro format
    change x.videoMode g format = .copy ↔ _
    rw [videoMode_eq]
    cases x.copiesVideo g format <;> cases x.encodable g format <;> simp
  have hchosen : (x.chosen g f).video = .copy ↔ x.copiesVideo g (x.format g f) = true := hmode _
  rw [hchosen, copyWins]
  cases hts : x.copiesVideo g .ts with
  | true =>
    cases hf4 : x.copiesVideo g .fmp4 with
    | true => cases x.format g f <;> simp [hts, hf4]
    | false =>
      have hbefore := keyBefore_of_rank_le (a := .fmp4) (b := .ts)
        (Nat.le_trans (rank_of_copiesVideo (f := f) hts)
          (Nat.le_of_succ_le (rank_of_not_copiesVideo hdirect (isSome_of_copiesVideo hts) hf4)))
      rw [format_eq, hbefore, hts]
      cases x.isH264 <;> cases x.silent g f <;> cases x.losesAudio g f .ts <;>
        cases x.losesAudio g f .fmp4 <;> simp [hts, hf4]
  | false =>
    cases hf4 : x.copiesVideo g .fmp4 with
    | true =>
      have hbefore := keyBefore_of_rank_lt (a := .fmp4) (b := .ts)
        (Nat.lt_of_le_of_lt (rank_of_copiesVideo (f := f) hf4)
          (rank_of_not_copiesVideo hdirect (isSome_of_copiesVideo hf4) hts))
      rw [format_eq, hbefore, hts]
      cases x.silent g f <;> cases x.losesAudio g f .ts <;>
        cases x.losesAudio g f .fmp4 <;> simp [hts, hf4]
    | false => cases x.format g f <;> simp [hts, hf4]

/-! ## The ceiling -/

/-- Copied segments would be longer than a `short` client's ceiling. -/
def gapTooLong (x : Inputs) : Bool :=
  x.profile.targetDuration.ceilingSecs.any fun ceiling =>
    ceiling < declaredTargetSecs x.profile.targetDuration x.gapMs false

theorem copyTooLong_eq :
    x.copyTooLong g f = (decide ((x.chosen g f).video = .copy) && x.gapTooLong) := by
  unfold copyTooLong gapTooLong
  cases x.profile.targetDuration.ceilingSecs with
  | none => simp
  | some ceiling => rfl

/-- A plan copies video if the chosen candidate does and the segments are short enough. -/
theorem plan_copy_iff : (x.plan g f).video = .copy ↔
    (x.chosen g f).video = .copy ∧ x.gapTooLong = false := by
  change x.plannedVideo g f = .copy ↔ _
  unfold plannedVideo
  rw [copyTooLong_eq]
  cases x.gapTooLong <;> by_cases h : (x.chosen g f).video = .copy <;> simp [h]

/-- The video is delivered as it is: the source is played directly, or a copy wins and the
    ceiling leaves it. -/
def keepsVideo (g : Gstreamer) (x : Inputs) : Bool :=
  x.direct false || (x.copyWins g false && !x.gapTooLong)

end Inputs

/-- The video is delivered as it is. -/
def SourcePlan.keepsVideo (p : SourcePlan) : Prop := p.direct = true ∨ p.plan.video = .copy

theorem kept_iff {g : Gstreamer} {x : Inputs} (hv : x.video.isSome = true) (forceAudioEncode : Bool) :
    (negotiateForExecutors g x forceAudioEncode).keepsVideo ↔ x.keepsVideo g = true := by
  have hnormal : (x.impl g false).keepsVideo ↔ x.keepsVideo g = true := by
    change x.direct false = true ∨ (x.plan g false).video = .copy ↔ _
    unfold Inputs.keepsVideo
    rw [Inputs.plan_copy_iff]
    cases hdirect : x.direct false with
    | true => simp
    | false => simp [Inputs.chosen_copy_iff hdirect]
  unfold negotiateForExecutors
  cases hforce : forceAudioEncode && x.honoursForce g with
  | false => exact hnormal
  | true =>
    have hunchanged : x.videoUnchanged g = true := by
      simp only [Inputs.honoursForce, Bool.and_eq_true] at hforce
      exact hforce.2.1.1.2
    have hforced : (x.impl g true).keepsVideo ↔ (x.plan g true).video = .copy := by
      change x.direct true = true ∨ _ ↔ _
      have hdirect : x.direct true = false := by simp [Inputs.direct]
      simp [hdirect, Inputs.impl]
    rw [hforced, ← hnormal]
    change _ ↔ x.direct false = true ∨ (x.plan g false).video = .copy
    unfold Inputs.videoUnchanged at hunchanged
    change (if x.direct false = true then _ else _) = true at hunchanged
    cases hdirect : x.direct false with
    | true =>
      have hvideos : x.info.video.isEmpty = false := by
        obtain ⟨v, hvideo⟩ := Option.isSome_iff_exists.mp hv
        unfold Inputs.video at hvideo
        have hmem := List.mem_of_getElem? hvideo
        cases hlist : x.info.video with
        | nil =>
          rw [hlist] at hmem
          cases hmem
        | cons => rfl
      rw [hdirect, if_pos rfl, hvideos, if_neg Bool.false_ne_true, decide_eq_true_eq] at hunchanged
      simp [hunchanged]
    | false =>
      rw [hdirect, if_neg Bool.false_ne_true, decide_eq_true_eq] at hunchanged
      simp [hunchanged]

end Kahawai.Media.Negotiate
