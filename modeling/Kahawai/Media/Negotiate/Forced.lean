import Kahawai.Media.Negotiate.Choice

/-!
# Forced audio and the picture

Audio that is to be normalised is forced through an encoder, and the picture should not
change for it. The guard compares only the mode of the video: an encode that the ceiling of
a `short` client puts in place of a copy takes its target from the segment format, which the
audio decides. And for a source that would be played directly it asks the wrong plan whether
the hub encodes the audio.

Results:
* `same_picture_iff`: every video decision stays if and only if not `CodecChanged`.
* `forced_exactly_iff`: a forced plan encodes the audio to an exact layout if and only if not
  `LayoutUnchecked`.
* `picture_kept_iff`: both.
* `not_picture_kept`: HEVC instead of H.264.
-/

namespace Kahawai.Media.Negotiate

open Kahawai.Core

/-! ## The same picture -/

/-- The video mode of a session; a source that is played directly is not touched. -/
def SourcePlan.videoMode (info : MediaInfo) (p : SourcePlan) : StreamMode :=
  if p.direct then (if info.video.isEmpty then .off else .copy) else p.plan.video

/-- Two results agree on every video decision. -/
structure SamePicture (info : MediaInfo) (p q : SourcePlan) : Prop where
  mode : p.videoMode info = q.videoMode info
  track : p.plan.videoTrack = q.plan.videoTrack
  encode : p.videoMode info = .encode →
    p.plan.videoCodec = q.plan.videoCodec ∧ p.plan.videoKbps = q.plan.videoKbps ∧
      p.plan.maxHeight = q.plan.maxHeight ∧ p.plan.maxBitDepth = q.plan.maxBitDepth ∧
      p.plan.toneMap = q.plan.toneMap ∧ p.plan.deinterlace = q.plan.deinterlace ∧
      p.plan.burnSubtitle = q.plan.burnSubtitle ∧ p.plan.burnAss = q.plan.burnAss ∧
      p.burnSidecar = q.burnSidecar ∧ p.burnAssSidecar = q.burnAssSidecar

/-- The audio is encoded to a layout that can be measured, and by the hub, which encodes it
    where video is not encoded, exactly to one. -/
def ForcedExactly (g : Gstreamer) (x : Inputs) (p : SourcePlan) : Prop :=
  p.plan.audio = .encode ∧ (x.encodedAudioLayout p.plan).isSome = true ∧
    (p.videoMode x.info ≠ .encode → (g.exactAudioLayout x.info p.plan).isSome = true)

/-- Forced audio leaves the picture alone. -/
def PictureKept (g : Gstreamer) (x : Inputs) : Prop :=
  SamePicture x.info (negotiateForExecutors g x true) (negotiateForExecutors g x false) ∧
    (ForcedExactly g x (negotiateForExecutors g x true) ∨
      negotiateForExecutors g x true = negotiateForExecutors g x false)

namespace Inputs

variable (g : Gstreamer) (x : Inputs)

/-! ## The conditions -/

/-- The channels of an audio encode. -/
def channelBound : Option ℕ :=
  if 0 < x.profile.maxAudioChannels then
    some ((((x.audio.map AudioStream.channels).filter (0 < ·)).map
      (min · x.profile.maxAudioChannels)).getD x.profile.maxAudioChannels)
  else none

/-- The selected audio, encoded. -/
def audioEncode (codec : AudioTarget) : RemuxPlan where
  video := .copy
  audio := .encode
  audioTrack := x.audioIndex
  videoTrack := x.videoIndex
  videoKbps := none
  maxHeight := none
  maxBitDepth := none
  toneMap := false
  deinterlace := false
  burnSubtitle := none
  burnAss := none
  maxChannels := x.channelBound
  videoCodec := .h264
  audioCodec := codec
  segmentFormat := .ts

/-- An encode of the audio has a layout that can be measured. -/
def measurable : Bool := (x.encodedAudioLayout (x.audioEncode .aac)).isSome

/-- The audio target of the hub. -/
def localCodec (format : SegmentFormat) : AudioTarget :=
  ((audioLadder format).find? (x.takesAudio x.localAudioTargets)).getD .aac

/-- The hub cannot encode the audio for the format exactly to a layout that can be measured. -/
def inexact (format : SegmentFormat) : Bool :=
  (g.exactAudioLayout x.info (x.audioEncode (x.localCodec format))).isNone

/-- fMP4 has a video. -/
def fmp4HasVideo : Bool := x.copiesVideo g .fmp4 || x.encodable g .fmp4

/-- An H.264 video that TS would copy has segments above the ceiling, there is an encoder, but
    not for H.264, and forcing the audio changes the segment format: from TS, that copies the
    audio and cannot encode it, to fMP4; or from fMP4, that is taken because TS would be silent
    or would have to encode audio that fMP4 copies, to TS. -/
def CodecChanged : Prop :=
  x.direct false = false ∧ x.copiesVideo g .ts = true ∧ x.isH264 = true ∧ x.gapTooLong = true ∧
    (x.takesVideo .h264 = false ∧ (x.takesVideo .hevc = true ∨ x.takesVideo .av1 = true)) ∧
    x.measurable = true ∧
    ((x.copiesAudio g .ts = true ∧ x.tsSilent g = false ∧
        x.encodesAudio g x.localAudioTargets .ts = false ∧
        x.encodesAudio g (x.audioPool g .fmp4) .fmp4 = true ∧ x.fmp4HasVideo g = true) ∨
      (x.encodesAudio g x.localAudioTargets .ts = true ∧
        ((x.tsSilent g = true ∧ x.fmp4HasVideo g = true) ∨
          (x.copiesVideo g .fmp4 = true ∧ x.copiesAudio g .ts = false ∧
            x.copiesAudio g .fmp4 = true))))

/-- A source that would be played directly, whose segments would be encoded in one format and
    are copied in the other that forced audio needs, where the hub does not encode the audio
    exactly. -/
def LayoutUnchecked : Prop :=
  x.direct false = true ∧ x.gapTooLong = false ∧ x.measurable = true ∧
    ((x.copiesVideo g .ts = false ∧ x.copiesVideo g .fmp4 = true ∧ x.encodable g .ts = true ∧
        x.encodesAudio g x.localAudioTargets .fmp4 = true ∧ x.tsSilent g = false ∧
        x.losesAudio g false .ts = false ∧ x.inexact g .fmp4 = true) ∨
      (x.copiesVideo g .ts = true ∧ x.copiesVideo g .fmp4 = false ∧ x.isH264 = true ∧
        x.encodable g .fmp4 = true ∧ x.encodesAudio g x.localAudioTargets .ts = true ∧
        x.tsSilent g = true ∧ x.inexact g .ts = true))

variable {g x} {f : Bool} {format : SegmentFormat}

/-! ## The plan of a format -/

theorem direct_true : x.direct true = false := by simp [direct]

/-- The video target of a format. -/
def target (x : Inputs) (format : SegmentFormat) : VideoTarget :=
  ((videoLadder format).find? x.takesVideo).getD .h264

theorem videoCodec_eq : (x.plan g f).videoCodec = x.target (x.format g f) := rfl

theorem target_fmp4 : x.target .fmp4 ≠ .h264 ↔
    x.takesVideo .h264 = false ∧ (x.takesVideo .hevc = true ∨ x.takesVideo .av1 = true) := by
  simp only [target, videoLadder, List.find?]
  cases x.takesVideo .h264 <;> cases x.takesVideo .hevc <;> cases x.takesVideo .av1 <;> simp

theorem target_ts : x.target .ts = .h264 := by
  simp only [target, videoLadder, List.find?]
  cases x.takesVideo .h264 <;> rfl

/-- Plans of different targets are of different formats, of which fMP4 does not encode to
    H.264. -/
theorem formats_of_codec_ne (h : (x.plan g true).videoCodec ≠ (x.plan g false).videoCodec) :
    x.target .fmp4 ≠ .h264 ∧
      ((x.format g true = .fmp4 ∧ x.format g false = .ts) ∨
        (x.format g true = .ts ∧ x.format g false = .fmp4)) := by
  rw [videoCodec_eq, videoCodec_eq] at h
  cases htrue : x.format g true <;> cases hfalse : x.format g false <;> rw [htrue, hfalse] at h
  · exact absurd rfl h
  · exact ⟨fun heq => h (target_ts.trans heq.symm), Or.inr ⟨rfl, rfl⟩⟩
  · exact ⟨fun heq => h (heq.trans target_ts.symm), Or.inl ⟨rfl, rfl⟩⟩
  · exact absurd rfl h

/-- What the plan does with the video of its format. -/
theorem plan_video_eq : (x.plan g f).video =
    if x.copiesVideo g (x.format g f) then (if x.gapTooLong then .encode else .copy)
    else if x.encodable g (x.format g f) then .encode else .off := by
  have hchosen : (x.chosen g f).video = x.videoMode g (x.format g f) := rfl
  change x.plannedVideo g f = _
  unfold plannedVideo
  rw [copyTooLong_eq, hchosen, videoMode_eq]
  cases x.copiesVideo g (x.format g f) <;> cases x.encodable g (x.format g f) <;>
    cases x.gapTooLong <;> rfl

theorem plan_audio_eq : (x.plan g f).audio =
    if x.keepsAudio g f (x.format g f) then .copy
    else if x.encodesAudio g (x.audioPool g (x.format g f)) (x.format g f) then .encode
    else .off :=
  audioMode_eq

/-- Forced audio is encoded or lost. -/
theorem forced_audio_iff : (x.plan g true).audio = .encode ↔
    x.encodesAudio g (x.audioPool g (x.format g true)) (x.format g true) = true := by
  rw [plan_audio_eq]
  cases x.encodesAudio g (x.audioPool g (x.format g true)) (x.format g true) <;> simp [keepsAudio]

theorem maxChannels_eq (h : (x.plan g f).audio = .encode) :
    (x.plan g f).maxChannels = x.channelBound := by
  have haudio : (x.chosen g f).audio = .encode := h
  unfold plan channelBound
  simp [haudio]

theorem encodedAudioLayout_eq (h : (x.plan g f).audio = .encode) :
    (x.encodedAudioLayout (x.plan g f)).isSome = x.measurable := by
  have hbound := maxChannels_eq h
  have htrack : (x.plan g f).audioTrack = (x.audioEncode .aac).audioTrack := rfl
  unfold measurable encodedAudioLayout
  rw [hbound, htrack]
  rfl

/-- The exact layout of a plan whose audio the hub encodes. -/
theorem exactAudioLayout_eq (h : (x.plan g f).audio = .encode)
    (hpool : x.audioPool g (x.format g f) = x.localAudioTargets) :
    (g.exactAudioLayout x.info (x.plan g f)).isNone = x.inexact g (x.format g f) := by
  have hbound := maxChannels_eq h
  have htrack : (x.plan g f).audioTrack = x.audioIndex := rfl
  have hcodec : (x.plan g f).audioCodec = x.localCodec (x.format g f) := by
    change ((audioLadder (x.format g f)).find?
      (x.takesAudio (x.audioTargets (x.videoMode g (x.format g f))))).getD .aac = _
    rw [audioTargets_eq, hpool]
    rfl
  unfold inexact Gstreamer.exactAudioLayout
  rw [h, hbound, htrack, hcodec]
  rfl

theorem audioPool_of_copiesVideo (h : x.copiesVideo g format = true) :
    x.audioPool g format = x.localAudioTargets := by
  unfold audioPool
  rw [h]
  rfl

theorem isSome_of_encodesAudio {targets : List String} (h : x.encodesAudio g targets format = true) :
    x.audio.isSome = true := by
  cases ha : x.audio with
  | some a => rfl
  | none => simp [encodesAudio, ha] at h

/-- The cost of a copied picture. -/
theorem rank_eq_of_copiesVideo (hdirect : x.direct f = false) (h : x.copiesVideo g format = true) :
    (x.candidate g f format).key.2.rank =
      if x.keepsAudio g f format then 1
      else if x.encodesAudio g (x.audioPool g format) format then 2 else 1 := by
  have hcost : (x.candidate g f format).key.2 = x.costOf f .copy (x.audioMode g f format) := by
    change x.costOf f (x.videoMode g format) _ = _
    rw [videoMode_eq, h, if_pos rfl]
  rw [hcost, audioMode_eq]
  unfold costOf
  rw [hdirect]
  cases x.keepsAudio g f format <;> cases x.encodesAudio g (x.audioPool g format) format <;>
    simp [Cost.rank]

/-- For a source that is played directly only the lost audio counts. -/
theorem keyBefore_of_direct (hdirect : x.direct f = true) {a b : SegmentFormat} :
    keyBefore (x.candidate g f a).key (x.candidate g f b).key =
      (x.losesAudio g f b && !x.losesAudio g f a) := by
  have hrank : ∀ format, (x.candidate g f format).key.2.rank = 0 := by
    intro format
    change (x.costOf f _ _).rank = 0
    simp [costOf, hdirect, Cost.rank]
  refine keyBefore_of_rank_le ?_
  rw [hrank, hrank]

/-! ## The guard -/

/-- The forced plan is taken. -/
theorem honoursForce_iff : x.honoursForce g = true ↔
    (x.plan g true).audio = .encode ∧ x.videoUnchanged g = true ∧ x.measurable = true ∧
      ((x.plan g false).video = .encode ∨ (g.exactAudioLayout x.info (x.plan g true)).isSome = true) := by
  unfold honoursForce
  simp only [Bool.and_eq_true, Bool.or_eq_true, decide_eq_true_eq, and_assoc]
  refine and_congr_right fun haudio => ?_
  rw [encodedAudioLayout_eq haudio]

/-- The picture that the guard asks for. -/
theorem videoUnchanged_iff : x.videoUnchanged g = true ↔
    (x.plan g true).video = (x.impl g false).videoMode x.info := by
  have hdirect : (x.impl g false).direct = x.direct false := rfl
  have hplan : (x.impl g false).plan = x.plan g false := rfl
  unfold videoUnchanged SourcePlan.videoMode
  rw [hdirect, hplan]
  cases x.direct false <;> cases x.info.video.isEmpty <;> simp

theorem videoMode_of_not_direct (hdirect : x.direct f = false) :
    (x.impl g f).videoMode x.info = (x.plan g f).video := by
  have hplan : (x.impl g f).direct = false := hdirect
  unfold SourcePlan.videoMode
  rw [hplan, if_neg Bool.false_ne_true]
  rfl

/-! ## The format, where TS would copy H.264 -/

theorem losesAudio_true : x.losesAudio g true format =
    (x.audio.isSome && !x.encodesAudio g (x.audioPool g format) format) := by
  simp [losesAudio, keepsAudio]

theorem not_losesAudio (h : x.encodesAudio g (x.audioPool g format) format = true) :
    x.losesAudio g f format = false := by
  simp [losesAudio, h]

/-- The order of two candidates that lose the same. -/
theorem keyBefore_of_losesAudio_eq {a b : SegmentFormat}
    (h : x.losesAudio g f a = x.losesAudio g f b) :
    keyBefore (x.candidate g f a).key (x.candidate g f b).key =
      decide ((x.candidate g f a).key.2.rank < (x.candidate g f b).key.2.rank) := by
  unfold keyBefore
  rw [key_fst_eq, key_fst_eq, h]
  simp

theorem format_iff_of_isH264 (hts : x.copiesVideo g .ts = true) (hh264 : x.isH264 = true) :
    x.format g f = .fmp4 ↔ x.silent g f = true ∨
      keyBefore (x.candidate g f .fmp4).key (x.candidate g f .ts).key = true := by
  rw [format_eq, hts, hh264]
  cases x.silent g f <;> cases keyBefore (x.candidate g f .fmp4).key (x.candidate g f .ts).key <;>
    simp

/-- Where TS copies video, fMP4 is not cheaper by its picture. -/
theorem not_rank_lt_of_encodesAudio (hdirect : x.direct f = false)
    (hts : x.copiesVideo g .ts = true)
    (h : x.keepsAudio g f .ts = true ∨ x.keepsAudio g f .fmp4 = false ∧
      x.encodesAudio g x.localAudioTargets .ts = true ∨ x.copiesVideo g .fmp4 = false) :
    (x.candidate g f .ts).key.2.rank ≤ (x.candidate g f .fmp4).key.2.rank := by
  cases hf4 : x.copiesVideo g .fmp4 with
  | false =>
    exact Nat.le_trans (rank_of_copiesVideo hts)
      (Nat.le_of_succ_le (rank_of_not_copiesVideo hdirect (isSome_of_copiesVideo hts) hf4))
  | true =>
    rw [rank_eq_of_copiesVideo hdirect hts, rank_eq_of_copiesVideo hdirect hf4,
      audioPool_of_copiesVideo hts, audioPool_of_copiesVideo hf4]
    rcases h with hkeeps | ⟨hkeeps, hencodes⟩ | hnot
    · rw [hkeeps, if_pos rfl]
      split_ifs <;> decide
    · rw [hkeeps, encodesAudio_fmp4 hencodes]
      simp only [Bool.false_eq_true, if_false, if_true]
      split_ifs <;> decide
    · cases hf4.symm.trans hnot

/-- With forced audio it is fMP4 exactly if only that encodes the audio. -/
theorem format_true_iff (hts : x.copiesVideo g .ts = true) (hh264 : x.isH264 = true) :
    x.format g true = .fmp4 ↔
      x.encodesAudio g x.localAudioTargets .ts = false ∧
        x.encodesAudio g (x.audioPool g .fmp4) .fmp4 = true := by
  have hpool := audioPool_of_copiesVideo hts
  have hsilent : x.silent g true = false := rfl
  rw [format_iff_of_isH264 hts hh264, hsilent]
  simp only [Bool.false_eq_true, false_or]
  cases hTs : x.encodesAudio g x.localAudioTargets .ts with
  | true =>
    have hrank := not_rank_lt_of_encodesAudio (g := g) direct_true hts (Or.inr (Or.inl ⟨rfl, hTs⟩))
    rw [keyBefore_of_rank_le hrank, not_losesAudio (hpool ▸ hTs)]
    simp
  | false =>
    cases hf4 : x.encodesAudio g (x.audioPool g .fmp4) .fmp4 with
    | true =>
      unfold keyBefore
      rw [key_fst_eq, key_fst_eq, losesAudio_true, losesAudio_true, hpool, hTs, hf4,
        isSome_of_encodesAudio hf4]
      simp
    | false =>
      have hloses : x.losesAudio g true .fmp4 = x.losesAudio g true .ts := by
        rw [losesAudio_true, losesAudio_true, hpool, hTs, hf4]
      have hrank : (x.candidate g true .ts).key.2.rank ≤ (x.candidate g true .fmp4).key.2.rank := by
        cases hcopies : x.copiesVideo g .fmp4 with
        | false => exact not_rank_lt_of_encodesAudio direct_true hts (Or.inr (Or.inr hcopies))
        | true =>
          rw [rank_eq_of_copiesVideo direct_true hts, rank_eq_of_copiesVideo direct_true hcopies,
            hpool, hTs, hf4]
          rfl
      rw [keyBefore_of_losesAudio_eq hloses]
      simp [hrank]

/-- Without force, where TS could encode the audio. -/
theorem format_false_iff (hdirect : x.direct false = false) (hts : x.copiesVideo g .ts = true)
    (hh264 : x.isH264 = true) (hTs : x.encodesAudio g x.localAudioTargets .ts = true) :
    x.format g false = .fmp4 ↔ x.tsSilent g = true ∨
      (x.copiesVideo g .fmp4 = true ∧ x.copiesAudio g .ts = false ∧ x.copiesAudio g .fmp4 = true) := by
  have hpool := audioPool_of_copiesVideo hts
  have hlosesTs : x.losesAudio g false .ts = false := not_losesAudio (hpool ▸ hTs)
  rw [format_iff_of_isH264 hts hh264]
  refine or_congr_right ?_
  cases hcopies : x.copiesVideo g .fmp4 with
  | false =>
    rw [keyBefore_of_rank_le (not_rank_lt_of_encodesAudio hdirect hts (Or.inr (Or.inr hcopies))),
      hlosesTs]
    simp
  | true =>
    have hpool4 := audioPool_of_copiesVideo hcopies
    have hf4 := encodesAudio_fmp4 hTs
    have hlosesF4 : x.losesAudio g false .fmp4 = false := not_losesAudio (hpool4 ▸ hf4)
    rw [keyBefore_of_losesAudio_eq (hlosesF4.trans hlosesTs.symm),
      rank_eq_of_copiesVideo hdirect hts, rank_eq_of_copiesVideo hdirect hcopies, hpool, hpool4, hTs, hf4]
    unfold keepsAudio
    cases x.copiesAudio g .ts <;> cases x.copiesAudio g .fmp4 <;> decide

/-- Without force, where only fMP4 could encode it. -/
theorem format_false_ts_iff (hdirect : x.direct false = false) (hts : x.copiesVideo g .ts = true)
    (hh264 : x.isH264 = true) (hTs : x.encodesAudio g x.localAudioTargets .ts = false)
    (hf4 : x.encodesAudio g (x.audioPool g .fmp4) .fmp4 = true) :
    x.format g false = .ts ↔ x.tsSilent g = false ∧ x.copiesAudio g .ts = true := by
  have hpool := audioPool_of_copiesVideo hts
  have hlosesF4 : x.losesAudio g false .fmp4 = false := not_losesAudio hf4
  have hlosesTs : x.losesAudio g false .ts = !x.copiesAudio g .ts := by
    rw [losesAudio, isSome_of_encodesAudio hf4, hpool, hTs]
    simp [keepsAudio]
  have hbefore : keyBefore (x.candidate g false .fmp4).key (x.candidate g false .ts).key =
      !x.copiesAudio g .ts := by
    cases hcopies : x.copiesAudio g .ts with
    | true =>
      have hkeeps : x.keepsAudio g false .ts = true := hcopies
      rw [keyBefore_of_rank_le (not_rank_lt_of_encodesAudio hdirect hts (Or.inl hkeeps)), hlosesTs,
        hcopies]
      rfl
    | false =>
      unfold keyBefore
      rw [key_fst_eq, key_fst_eq, hlosesTs, hlosesF4, hcopies]
      rfl
  have hnot : x.format g false = .ts ↔ ¬ x.format g false = .fmp4 := by
    cases x.format g false <;> simp
  have hsilent : x.silent g false = x.tsSilent g := rfl
  rw [hnot, format_iff_of_isH264 hts hh264, hbefore, hsilent]
  simp

/-! ## Another codec -/

theorem isH264_of_ts (hts : x.copiesVideo g .ts = true) (h : x.format g f = .ts) : x.isH264 = true := by
  rw [format_eq, hts] at h
  split_ifs at h with hfmp4
  simp only [Bool.true_and, Bool.or_eq_true, Bool.not_eq_true', not_or, Bool.not_eq_false] at hfmp4
  exact hfmp4.1.1

/-- An encode in TS for which there is no encoder is a copy that was too long. -/
theorem of_encode_ts (htarget : x.takesVideo .h264 = false) (hformat : x.format g f = .ts)
    (hencode : (x.plan g f).video = .encode) :
    x.copiesVideo g .ts = true ∧ x.gapTooLong = true := by
  rw [plan_video_eq, hformat] at hencode
  have hencodable : x.encodable g .ts = false := by simp [encodable, videoLadder, htarget]
  simp only [hencodable, Bool.false_eq_true, if_false] at hencode
  split_ifs at hencode with hcopies hlong
  exact ⟨hcopies, hlong⟩

theorem fmp4HasVideo_of_encode (hformat : x.format g f = .fmp4) (hencode : (x.plan g f).video = .encode) :
    x.fmp4HasVideo g = true := by
  rw [plan_video_eq, hformat] at hencode
  unfold fmp4HasVideo
  split_ifs at hencode with hcopies hlong hencodable
  · simp [hcopies]
  · simp [hencodable]

theorem encode_of_fmp4HasVideo (hlong : x.gapTooLong = true) (hformat : x.format g f = .fmp4)
    (h : x.fmp4HasVideo g = true) : (x.plan g f).video = .encode := by
  rw [plan_video_eq, hformat, hlong]
  unfold fmp4HasVideo at h
  cases hcopies : x.copiesVideo g .fmp4 with
  | true => rfl
  | false =>
    rw [hcopies, Bool.false_or] at h
    rw [h]
    rfl

theorem encode_of_ts (hlong : x.gapTooLong = true) (hts : x.copiesVideo g .ts = true)
    (hformat : x.format g f = .ts) : (x.plan g f).video = .encode := by
  rw [plan_video_eq, hformat, hts, hlong]
  rfl

/-- The forced plan is taken, with another codec. -/
def TakesOtherCodec (g : Gstreamer) (x : Inputs) : Prop :=
  x.honoursForce g = true ∧ (x.plan g true).video = .encode ∧
    (x.plan g true).videoCodec ≠ (x.plan g false).videoCodec

theorem codecChanged_of_takesOtherCodec (h : x.TakesOtherCodec g) : x.CodecChanged g := by
  obtain ⟨hforce, hencode, hcodec⟩ := h
  obtain ⟨haudio, hunchanged, hmeasurable, -⟩ := honoursForce_iff.mp hforce
  obtain ⟨hfmp4, hformats⟩ := formats_of_codec_ne hcodec
  have htarget := target_fmp4.mp hfmp4
  have hmode := videoUnchanged_iff.mp hunchanged
  have hdirect : x.direct false = false := by
    by_contra hdirect
    have hcopy : (x.impl g false).videoMode x.info = if x.info.video.isEmpty then .off else .copy :=
      if_pos (Bool.not_eq_false _ ▸ hdirect)
    rw [hcopy, hencode] at hmode
    split at hmode <;> cases hmode
  have hencode' : (x.plan g false).video = .encode := by
    rw [← videoMode_of_not_direct hdirect, ← hmode, hencode]
  rw [forced_audio_iff] at haudio
  rcases hformats with ⟨hforced, hnormal⟩ | ⟨hforced, hnormal⟩
  · obtain ⟨hts, hlong⟩ := of_encode_ts htarget.1 hnormal hencode'
    have hh264 := isH264_of_ts hts hnormal
    obtain ⟨hTs, hf4⟩ := (format_true_iff hts hh264).mp hforced
    obtain ⟨hsilent, hcopies⟩ := (format_false_ts_iff hdirect hts hh264 hTs hf4).mp hnormal
    exact ⟨hdirect, hts, hh264, hlong, htarget, hmeasurable,
      Or.inl ⟨hcopies, hsilent, hTs, hf4, fmp4HasVideo_of_encode hforced hencode⟩⟩
  · obtain ⟨hts, hlong⟩ := of_encode_ts htarget.1 hforced hencode
    have hh264 := isH264_of_ts hts hforced
    have hTs : x.encodesAudio g x.localAudioTargets .ts = true := by
      rw [hforced, audioPool_of_copiesVideo hts] at haudio
      exact haudio
    refine ⟨hdirect, hts, hh264, hlong, htarget, hmeasurable, Or.inr ⟨hTs, ?_⟩⟩
    rcases (format_false_iff hdirect hts hh264 hTs).mp hnormal with hsilent | hcheaper
    · exact Or.inl ⟨hsilent, fmp4HasVideo_of_encode hnormal hencode'⟩
    · exact Or.inr hcheaper

theorem takesOtherCodec_of_codecChanged (h : x.CodecChanged g) : x.TakesOtherCodec g := by
  obtain ⟨hdirect, hts, hh264, hlong, htarget, hmeasurable, hformats⟩ := h
  have hfmp4 := target_fmp4.mpr htarget
  have hmode := videoMode_of_not_direct (g := g) hdirect
  -- both plans encode, the audio is forced: the guard lets it pass
  have htaken : (x.plan g true).audio = .encode → (x.plan g true).video = .encode →
      (x.plan g false).video = .encode → x.honoursForce g = true := by
    intro haudio hencode hencode'
    refine honoursForce_iff.mpr ⟨haudio, videoUnchanged_iff.mpr ?_, hmeasurable, Or.inl hencode'⟩
    rw [hmode, hencode, hencode']
  rcases hformats with ⟨hcopies, hsilent, hTs, hf4, hvideo⟩ | ⟨hTs, hwhy⟩
  · have hforced := (format_true_iff hts hh264).mpr ⟨hTs, hf4⟩
    have hnormal := (format_false_ts_iff hdirect hts hh264 hTs hf4).mpr ⟨hsilent, hcopies⟩
    have hencode := encode_of_fmp4HasVideo hlong hforced hvideo
    have haudio := forced_audio_iff.mpr (by rw [hforced]; exact hf4)
    refine ⟨htaken haudio hencode (encode_of_ts hlong hts hnormal), hencode, ?_⟩
    rw [videoCodec_eq, videoCodec_eq, hforced, hnormal, target_ts]
    exact hfmp4
  · have hforced : x.format g true = .ts := by
      cases hformat : x.format g true with
      | ts => rfl
      | fmp4 => cases hTs.symm.trans ((format_true_iff hts hh264).mp hformat).1
    have hvideo : x.fmp4HasVideo g = true := by
      rcases hwhy with ⟨-, hvideo⟩ | ⟨hcopies, -⟩
      · exact hvideo
      · simp [fmp4HasVideo, hcopies]
    have hnormal : x.format g false = .fmp4 := by
      refine (format_false_iff hdirect hts hh264 hTs).mpr ?_
      exact hwhy.imp And.left id
    have hencode := encode_of_ts hlong hts hforced
    have haudio := forced_audio_iff.mpr (by rw [hforced, audioPool_of_copiesVideo hts]; exact hTs)
    refine ⟨htaken haudio hencode (encode_of_fmp4HasVideo hlong hnormal hvideo), hencode, ?_⟩
    rw [videoCodec_eq, videoCodec_eq, hforced, hnormal, target_ts]
    exact hfmp4.symm

/-! ## An unchecked layout -/

/-- The forced plan is taken for a source that would be played directly, unchecked. -/
def TakesUnchecked (g : Gstreamer) (x : Inputs) : Prop :=
  x.honoursForce g = true ∧ x.direct false = true ∧ (x.plan g false).video = .encode ∧
    (g.exactAudioLayout x.info (x.plan g true)).isNone = true

theorem format_eq_of_direct (hdirect : x.direct false = true) : x.format g false =
    if (x.copiesVideo g .ts && !x.isH264) || x.tsSilent g ||
        (x.losesAudio g false .ts && !x.losesAudio g false .fmp4) then .fmp4
    else .ts := by
  have hsilent : x.silent g false = x.tsSilent g := rfl
  rw [format_eq, hsilent, keyBefore_of_direct hdirect]

/-- A video that is encoded is there. -/
theorem info_video_ne_nil (h : (x.plan g f).video = .encode) : x.info.video.isEmpty = false := by
  have hsome : x.video.isSome = true := by
    rw [plan_video_eq] at h
    split_ifs at h with hcopies hlong hencodable
    · exact isSome_of_copiesVideo hcopies
    · obtain ⟨v, hv, -⟩ := (Option.any_eq_true _ _).mp (Bool.and_eq_true_iff.mp hencodable).2
      rw [hv]
      rfl
  obtain ⟨v, hv⟩ := Option.isSome_iff_exists.mp hsome
  have hmem : v ∈ x.info.video := List.mem_of_getElem? hv
  cases hlist : x.info.video with
  | nil =>
    rw [hlist] at hmem
    cases hmem
  | cons => rfl

/-- The forced plan copies what the guard compares with a source that is played directly. -/
theorem forced_video_of_direct (hdirect : x.direct false = true)
    (hencode : (x.plan g false).video = .encode) :
    x.videoUnchanged g = true ↔ (x.plan g true).video = .copy := by
  have hmode : (x.impl g false).videoMode x.info = .copy := by
    have hcopy : (x.impl g false).videoMode x.info = if x.info.video.isEmpty then .off else .copy :=
      if_pos hdirect
    rw [hcopy, info_video_ne_nil hencode]
    rfl
  rw [videoUnchanged_iff, hmode]

/-- A plan copies video exactly if its format does and the segments are short enough. -/
theorem plan_copy_iff_copiesVideo : (x.plan g f).video = .copy ↔
    x.copiesVideo g (x.format g f) = true ∧ x.gapTooLong = false := by
  rw [plan_video_eq]
  cases x.copiesVideo g (x.format g f) <;> cases x.gapTooLong <;>
    cases x.encodable g (x.format g f) <;> simp

theorem plan_encode_iff (hlong : x.gapTooLong = false) : (x.plan g f).video = .encode ↔
    x.copiesVideo g (x.format g f) = false ∧ x.encodable g (x.format g f) = true := by
  rw [plan_video_eq, hlong]
  cases x.copiesVideo g (x.format g f) <;> cases x.encodable g (x.format g f) <;> simp

theorem layoutUnchecked_of_takesUnchecked (h : x.TakesUnchecked g) : x.LayoutUnchecked g := by
  obtain ⟨hforce, hdirect, hencode, hexact⟩ := h
  obtain ⟨haudio, hunchanged, hmeasurable, -⟩ := honoursForce_iff.mp hforce
  obtain ⟨hcopies, hlong⟩ := plan_copy_iff_copiesVideo.mp
    ((forced_video_of_direct hdirect hencode).mp hunchanged)
  obtain ⟨hnot, hencodable⟩ := (plan_encode_iff hlong).mp hencode
  have hpool := audioPool_of_copiesVideo hcopies
  rw [exactAudioLayout_eq haudio hpool] at hexact
  rw [forced_audio_iff, hpool] at haudio
  refine ⟨hdirect, hlong, hmeasurable, ?_⟩
  cases hforced : x.format g true with
  | fmp4 =>
    rw [hforced] at hcopies hexact haudio hpool
    have hnormal : x.format g false = .ts := by
      cases hformat : x.format g false with
      | ts => rfl
      | fmp4 => cases hcopies.symm.trans (hformat ▸ hnot)
    rw [hnormal] at hnot hencodable
    have hlosesF4 : x.losesAudio g false .fmp4 = false := not_losesAudio (hpool.symm ▸ haudio)
    rw [format_eq_of_direct hdirect, hnot, hlosesF4] at hnormal
    split_ifs at hnormal with hfmp4
    simp only [Bool.false_and, Bool.false_or, Bool.not_false, Bool.and_true, Bool.or_eq_true, not_or,
      Bool.not_eq_true] at hfmp4
    exact Or.inl ⟨hnot, hcopies, hencodable, haudio, hfmp4.1, hfmp4.2, hexact⟩
  | ts =>
    have hh264 := isH264_of_ts (hforced ▸ hcopies) hforced
    rw [hforced] at hcopies hexact haudio hpool
    have hnormal : x.format g false = .fmp4 := by
      cases hformat : x.format g false with
      | fmp4 => rfl
      | ts => cases hcopies.symm.trans (hformat ▸ hnot)
    rw [hnormal] at hnot hencodable
    have hlosesTs : x.losesAudio g false .ts = false := not_losesAudio (hpool.symm ▸ haudio)
    rw [format_eq_of_direct hdirect, hcopies, hh264, hlosesTs] at hnormal
    have hsilent : x.tsSilent g = true := by
      cases hsilent : x.tsSilent g with
      | true => rfl
      | false =>
        rw [hsilent] at hnormal
        cases hnormal
    exact Or.inr ⟨hcopies, hnot, hh264, hencodable, haudio, hsilent, hexact⟩

theorem takesUnchecked_of_layoutUnchecked (h : x.LayoutUnchecked g) : x.TakesUnchecked g := by
  obtain ⟨hdirect, hlong, hmeasurable, hformats⟩ := h
  -- one format copies and is forced, the other encodes
  have htaken : ∀ copied encoded, x.format g true = copied → x.format g false = encoded →
      x.copiesVideo g copied = true → x.copiesVideo g encoded = false →
      x.encodable g encoded = true → x.encodesAudio g x.localAudioTargets copied = true →
      x.inexact g copied = true → x.TakesUnchecked g := by
    rintro copied encoded rfl rfl hcopies hnot hencodable hencodes hexact
    have hpool := audioPool_of_copiesVideo hcopies
    have haudio := forced_audio_iff.mpr (hpool.symm ▸ hencodes)
    have hencode := (plan_encode_iff hlong).mpr ⟨hnot, hencodable⟩
    have hcopy := plan_copy_iff_copiesVideo.mpr ⟨hcopies, hlong⟩
    refine ⟨honoursForce_iff.mpr ⟨haudio, ?_, hmeasurable, Or.inl hencode⟩, hdirect, hencode, ?_⟩
    · exact (forced_video_of_direct hdirect hencode).mpr hcopy
    · rw [exactAudioLayout_eq haudio hpool]
      exact hexact
  rcases hformats with ⟨hts, hfmp4, hencodable, hencodes, hsilent, hloses, hexact⟩ |
    ⟨hts, hfmp4, hh264, hencodable, hencodes, hsilent, hexact⟩
  · refine htaken .fmp4 .ts ?_ ?_ hfmp4 hts hencodable hencodes hexact
    · have hbefore := keyBefore_of_rank_lt (a := .fmp4) (b := .ts)
        (Nat.lt_of_le_of_lt (rank_of_copiesVideo (f := true) hfmp4)
          (rank_of_not_copiesVideo direct_true (isSome_of_copiesVideo hfmp4) hts))
      have hlosesF4 : x.losesAudio g true .fmp4 = false :=
        not_losesAudio ((audioPool_of_copiesVideo hfmp4).symm ▸ hencodes)
      rw [format_eq, hbefore, hlosesF4]
      simp
    · rw [format_eq_of_direct hdirect, hts, hsilent, hloses]
      rfl
  · refine htaken .ts .fmp4 ?_ ?_ hts hfmp4 hencodable hencodes hexact
    · cases hformat : x.format g true with
      | ts => rfl
      | fmp4 => cases hencodes.symm.trans ((format_true_iff hts hh264).mp hformat).1
    · rw [format_eq_of_direct hdirect, hts, hh264, hsilent]
      rfl

end Inputs

/-! ## The two guarantees -/

/-- Plans that encode video agree but for the codec and what is read from it. -/
theorem samePicture_of_honoursForce {g : Gstreamer} {x : Inputs} (hforce : x.honoursForce g = true) :
    SamePicture x.info (x.impl g true) (x.impl g false) ↔
      ((x.plan g true).video = .encode → (x.plan g true).videoCodec = (x.plan g false).videoCodec) := by
  obtain ⟨-, hunchanged, -⟩ := Inputs.honoursForce_iff.mp hforce
  have hmode := Inputs.videoUnchanged_iff.mp hunchanged
  have hforced := Inputs.videoMode_of_not_direct (g := g) (x := x) Inputs.direct_true
  constructor
  · intro h hencode
    exact (h.encode (hforced.trans hencode)).1
  · intro h
    refine ⟨hforced.trans hmode, rfl, fun hencode => ?_⟩
    rw [hforced] at hencode
    have hcodec := h hencode
    have hencode' : (x.plan g false).video = .encode := by
      rw [hmode] at hencode
      unfold SourcePlan.videoMode at hencode
      split_ifs at hencode
      exact hencode
    have htarget : (x.chosen g true).videoTarget = (x.chosen g false).videoTarget := hcodec
    have htrue : x.plannedVideo g true = .encode := hencode
    have hfalse : x.plannedVideo g false = .encode := hencode'
    unfold Inputs.impl Inputs.plan
    simp only [htrue, hfalse, htarget, and_self]

/-- Every video decision stays if and only if no other codec is taken. -/
theorem same_picture_iff (g : Gstreamer) (x : Inputs) :
    SamePicture x.info (negotiateForExecutors g x true) (negotiateForExecutors g x false) ↔
      ¬ x.CodecChanged g := by
  have hother : x.CodecChanged g ↔ x.TakesOtherCodec g :=
    ⟨Inputs.takesOtherCodec_of_codecChanged, Inputs.codecChanged_of_takesOtherCodec⟩
  rw [hother]
  unfold negotiateForExecutors Inputs.TakesOtherCodec
  rw [Bool.true_and, Bool.false_and]
  cases hforce : x.honoursForce g with
  | false =>
    have hsame : SamePicture x.info (x.impl g false) (x.impl g false) :=
      ⟨rfl, rfl, fun _ => ⟨rfl, rfl, rfl, rfl, rfl, rfl, rfl, rfl, rfl, rfl⟩⟩
    exact iff_of_true hsame (by simp)
  | true =>
    rw [samePicture_of_honoursForce hforce]
    simp

/-- A forced plan encodes the audio exactly if and only if the layout is not left unchecked. -/
theorem forced_exactly_iff (g : Gstreamer) (x : Inputs) :
    (ForcedExactly g x (negotiateForExecutors g x true) ∨
      negotiateForExecutors g x true = negotiateForExecutors g x false) ↔ ¬ x.LayoutUnchecked g := by
  have hunchecked : x.LayoutUnchecked g ↔ x.TakesUnchecked g :=
    ⟨Inputs.takesUnchecked_of_layoutUnchecked, Inputs.layoutUnchecked_of_takesUnchecked⟩
  rw [hunchecked]
  unfold negotiateForExecutors Inputs.TakesUnchecked
  rw [Bool.true_and, Bool.false_and]
  cases hforce : x.honoursForce g with
  | false => exact iff_of_true (Or.inr rfl) (by simp)
  | true =>
    obtain ⟨haudio, hunchanged, hmeasurable, hexact⟩ := Inputs.honoursForce_iff.mp hforce
    have hmode := Inputs.videoMode_of_not_direct (g := g) (x := x) Inputs.direct_true
    constructor
    · rintro (hexactly | hsame) ⟨-, hdirect, hencode, hnone⟩
      · have hcopy := (Inputs.forced_video_of_direct hdirect hencode).mp hunchanged
        have hsome := hexactly.2.2 (by rw [hmode, hcopy]; nofun)
        rw [Option.isNone_iff_eq_none] at hnone
        rw [show (x.impl g true).plan = x.plan g true from rfl, hnone] at hsome
        cases hsome
      · have hdirect' : x.direct true = x.direct false := congrArg SourcePlan.direct hsame
        rw [Inputs.direct_true, hdirect] at hdirect'
        cases hdirect'
    · intro hnot
      refine Or.inl ⟨haudio, (Inputs.encodedAudioLayout_eq haudio).trans hmeasurable, fun hvideo => ?_⟩
      rcases hexact with hencode | hexact
      · cases hdirect : x.direct false with
        | true =>
          have hplan : (x.impl g true).plan = x.plan g true := rfl
          rw [hplan]
          by_contra hnone
          exact hnot ⟨rfl, hdirect, hencode, by simpa using hnone⟩
        | false =>
          have hplan := Inputs.videoMode_of_not_direct (g := g) hdirect
          rw [hmode, Inputs.videoUnchanged_iff.mp hunchanged, hplan] at hvideo
          exact absurd hencode hvideo
      · exact hexact

/-- Forced audio leaves the picture alone and is exact, if and only if neither slip occurs. -/
theorem picture_kept_iff (g : Gstreamer) (x : Inputs) :
    PictureKept g x ↔ ¬ x.CodecChanged g ∧ ¬ x.LayoutUnchecked g :=
  and_congr (same_picture_iff g x) (forced_exactly_iff g x)

/-! ## A changed picture -/

/-- A film whose segments are too long for the client, with an HEVC encoder; the hub encodes
    audio to Opus only. -/
def opusFilm : Inputs :=
  { longGopFilm with
    profile :=
      { hevcClient with
        video := [⟨"h264", none, none, none⟩, ⟨"hevc", none, none, none⟩]
        audio := ["aac", "opus"] }
    info := { longGopFilm.info with
      video := [⟨"h264", 1080, some (24, 1), some 8, false, none, none, none, some 10000⟩] }
    videoTargets := ["hevc"]
    fullAudioTargets := ["opus"]
    localAudioTargets := ["opus"] }

/-- An HEVC film that a client plays directly, with an H.264 encoder. -/
def directFilm : Inputs :=
  { opusFilm with
    profile := { opusFilm.profile with containers := ["matroska"], targetDuration := .ignore }
    info := longGopFilm.info
    videoTargets := ["h264"]
    fullAudioTargets := ["aac"]
    localAudioTargets := ["aac"] }

/-- A GStreamer that muxes HEVC into fMP4 only, and whose AAC encoder takes no layout. -/
def narrowGstreamer : Gstreamer where
  Caps := String
  codecToCaps := codecToCapsName
  capsMuxable := fun caps format =>
    caps ∈ ["video/x-h264", "audio/mpeg"] || (caps = "video/x-h265" && format = .fmp4)
  canDecode := fun _ => true
  aacEncoder := some "fdkaacenc"
  aacAccepts := fun _ _ _ _ => false

/-- Stereo audio can be measured. -/
theorem measurable_of_stereo {x : Inputs} (codec : String)
    (haudio : x.info.audio[x.audioIndex]? = some ⟨codec, 2, none⟩)
    (hbound : x.profile.maxAudioChannels = 0) : x.measurable = true := by
  have hchannels : x.channelBound = none := by
    rw [Inputs.channelBound, hbound]
    rfl
  have hlayouts : resolvedMeasuredLayouts (.new 2 0) (.new 2 0) = [⟨2, 0x3⟩, ⟨1, 0x4⟩] := by
    simp [resolvedMeasuredLayouts, measuredLayouts, standardLayouts, List.mergeSort, isSideToRear51,
      AudioLayout.new, AudioLayout.before, dedup]
  have hsource : AudioLayout.fromStream 2 none = .new 2 0 := rfl
  unfold Inputs.measurable Inputs.encodedAudioLayout
  change ((x.info.audio[x.audioIndex]?).bind _).isSome = true
  rw [haudio, Option.bind_some]
  dsimp only
  rw [hsource, hlayouts, show (x.audioEncode .aac).maxChannels = none from hchannels]
  rfl

/-- Forced audio takes the film from H.264 in TS to HEVC in fMP4; and the audio of the film
    that is played directly would be encoded to a layout that the hub's encoder refuses. -/
theorem not_picture_kept :
    ((negotiateForExecutors sampleGstreamer opusFilm false).plan.videoCodec = .h264 ∧
      (negotiateForExecutors sampleGstreamer opusFilm true).plan.videoCodec = .hevc) ∧
    ((negotiateForExecutors narrowGstreamer directFilm false).direct = true ∧
      (negotiateForExecutors narrowGstreamer directFilm true).plan.video = .copy ∧
      (negotiateForExecutors narrowGstreamer directFilm true).plan.audio = .encode ∧
      narrowGstreamer.exactAudioLayout directFilm.info
        (negotiateForExecutors narrowGstreamer directFilm true).plan = none) ∧
    ¬ PictureKept sampleGstreamer opusFilm := by
  have hmeasurable : opusFilm.measurable = true := measurable_of_stereo "aac" rfl rfl
  have hopus : opusFilm.CodecChanged sampleGstreamer :=
    ⟨by decide, by decide, by decide, by decide, by decide,
      hmeasurable, by decide⟩
  have hforced : negotiateForExecutors sampleGstreamer opusFilm true = opusFilm.impl sampleGstreamer true := by
    rw [negotiateForExecutors, (Inputs.takesOtherCodec_of_codecChanged hopus).1]
    rfl
  have hmeasurable' : directFilm.measurable = true := measurable_of_stereo "aac" rfl rfl
  have hdirect : directFilm.LayoutUnchecked narrowGstreamer :=
    ⟨by decide, by decide, hmeasurable', by decide⟩
  have hforced' : negotiateForExecutors narrowGstreamer directFilm true =
      directFilm.impl narrowGstreamer true := by
    rw [negotiateForExecutors, (Inputs.takesUnchecked_of_layoutUnchecked hdirect).1]
    rfl
  have hexact := (Inputs.takesUnchecked_of_layoutUnchecked hdirect).2.2.2
  rw [Option.isNone_iff_eq_none] at hexact
  rw [hforced, hforced']
  refine ⟨⟨by decide, by decide⟩,
    ⟨by decide, by decide, by decide, hexact⟩, fun hkept => ?_⟩
  exact (same_picture_iff sampleGstreamer opusFilm).mp hkept.1 hopus

end Kahawai.Media.Negotiate
