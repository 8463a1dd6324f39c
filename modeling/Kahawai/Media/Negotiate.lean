import Kahawai.Media.Remux

/-!
# The negotiation engine

`negotiate_for_executors` decides how one source is played by one client
(`crates/kahawai-media/src/negotiate.rs`). Its argument list is the record
`Inputs`; every intermediate value of `negotiate_for_executors_impl` is a
function of the inputs, of GStreamer and of `force_audio_encode`. The texts of
the video and audio verdicts are left out.

The segment container is chosen between two candidates, and after the choice a
`short` client may still turn a copied video into an encode.
-/

namespace Kahawai.Media.Negotiate

open Kahawai.Core Kahawai.Core.Text

/-! ## Results -/

/-- `Cost`; the order of the constructors is the preference. -/
inductive Cost
  | direct
  | copy
  | audioEncode
  | videoEncode
  | unplayable
  deriving DecidableEq

def Cost.rank : Cost → ℕ
  | .direct => 0
  | .copy => 1
  | .audioEncode => 2
  | .videoEncode => 3
  | .unplayable => 4

inductive SubtitleTier
  | text
  | convert
  | graphics
  | ocr
  | burn
  | unavailable
  deriving DecidableEq

/-- `SubtitleVerdict` without the track id, which the hub fills in. -/
structure SubtitleVerdict where
  index : ℕ
  format : String
  language : Option String
  tier : SubtitleTier
  note : String
  deriving DecidableEq

/-- `SourcePlan` without the verdict texts. -/
structure SourcePlan where
  direct : Bool
  plan : RemuxPlan
  burnSidecar : Option ℕ
  burnAssSidecar : Option ℕ
  cost : Cost
  targetDurationSecs : ℕ
  incomplete : Bool
  subtitles : List SubtitleVerdict
  deriving DecidableEq

/-! ## Styled subtitles -/

inductive AssTier
  | native
  | flatten
  | overlay
  | burn
  deriving DecidableEq

structure AssPolicy where
  order : List AssTier
  burnCapable : Bool
  overlayReady : Bool
  deriving DecidableEq

/-- `AssPolicy::permits`. -/
def AssPolicy.permits (ass : AssPolicy) (profile : CapabilityProfile) : AssTier → Bool
  | .native => profile.assRender
  | .flatten => profile.vttRender
  | .overlay => profile.graphicsOverlay && ass.overlayReady
  | .burn => ass.burnCapable

/-- `AssPolicy::choose`. -/
def AssPolicy.choose (ass : AssPolicy) (profile : CapabilityProfile) : Option AssTier :=
  if profile.assRender then some .native
  else
    (ass.order.find? fun t => ass.permits profile t).or
      (if profile.vttRender then some .flatten else none)

/-- An explicit image or script track: an index into `info.subtitles` or into
    `info.external_subtitles`. -/
inductive BurnPick
  | embedded (i : ℕ)
  | sidecar (i : ℕ)
  deriving DecidableEq

/-- `"pgs" | "vobsub" | "dvdsub"`. -/
def isImage (format : String) : Bool := format ∈ ["pgs", "vobsub", "dvdsub"]

/-- `"ass" | "ssa"`. -/
def isAss (format : String) : Bool := format ∈ ["ass", "ssa"]

/-! ## What the client takes -/

/-- `UNKNOWN_GAP_TARGET_SECS`. -/
def unknownGapTargetSecs : ℕ := 16

/-- `declared_target_secs` (lines 283–314). -/
def declaredTargetSecs (mode : TargetDuration) (maxKeyframeGapMs : Option ℕ)
    (videoIsEncoded : Bool) : ℕ :=
  if videoIsEncoded then
    max defaultTargetDurationSecs
      (match mode with
        | .short maxSecs => min maxSecs defaultTargetDurationSecs
        | _ => 0)
  else
    match mode with
    | .ignore => defaultTargetDurationSecs
    | .accurate | .short _ =>
      match maxKeyframeGapMs with
      | some gapMs =>
        max ((fragmentTargetSecs * 1000 + gapMs + 500) / 1000) defaultTargetDurationSecs
      | none => unknownGapTargetSecs

/-- `H264_PROFILES`. -/
def h264Profiles : List String :=
  ["constrained-baseline", "baseline", "main", "high", "high-10", "high-4:2:2", "high-4:4:4"]

/-- `HEVC_PROFILES`. -/
def hevcProfiles : List String := ["main", "main-still-picture", "main-10"]

/-- `profile_rank`. -/
def profileRank (codec profile : String) : Option ℕ :=
  if codec = "h264" then h264Profiles.idxOf? profile
  else if codec = "hevc" then hevcProfiles.idxOf? profile
  else none

/-- `level_num`: "4.1" is 41. -/
def levelNum (level : String) : Option ℕ :=
  match split (· = '.') level.toList with
  | [] => none
  | major :: rest => do
    let major ← parseU32 major
    let minor ← match rest with
      | [] => some 0
      | minor :: _ => parseU32 minor
    some ((major * 10 + minor) % 2 ^ 32)

/-- Both sides state a value and the source's is above the client's. -/
def exceeds (value limit : Option ℕ) : Bool := value.any fun h => limit.any fun m => m < h

/-- `cap_admits`. -/
def capAdmits (codec : String) (cap : VideoCap) (v : VideoStream) : Bool :=
  !exceeds v.bitDepth cap.maxBitDepth &&
    !exceeds (v.profile.bind (profileRank codec)) (cap.maxProfile.bind (profileRank codec)) &&
    !exceeds (v.level.bind levelNum) (cap.maxLevel.bind levelNum)

/-- `video_fits`. -/
def videoFits (profile : CapabilityProfile) (v : VideoStream) : Bool :=
  ((profile.video.filter fun c => c.codec = v.codec).any fun c => capAdmits v.codec c v) &&
    !exceeds (some v.height) profile.maxHeight &&
    !exceeds (v.fps.bind fun (n, d) => if 0 < d then some (n / d) else none) profile.maxFps

/-- `codec_depth_limit`: entries are alternatives, one without a limit admits
    any depth. -/
def codecDepthLimit (profile : CapabilityProfile) (codec : String) : Option ℕ :=
  let caps := profile.video.filter fun c => c.codec = codec
  if caps.any fun c => c.maxBitDepth.isNone then none
  else (caps.filterMap VideoCap.maxBitDepth).max?

/-! ## The inputs -/

/-- The arguments of `negotiate_for_executors` before `force_audio_encode`. -/
structure Inputs where
  profile : CapabilityProfile
  info : MediaInfo
  audioTrack : ℕ
  videoTrack : ℕ
  singlePart : Bool
  estKbps : Option ℕ
  tonemap : Bool
  burnCapable : Bool
  ocrText : List Bool
  burnPick : Option BurnPick
  ass : AssPolicy
  videoTargets : List String
  fullAudioTargets : List String
  localAudioTargets : List String
  deriving DecidableEq

namespace Inputs

variable (g : Gstreamer) (x : Inputs)

/-- The tracks, clamped to the last of the source (lines 622–623). -/
def audioIndex : ℕ := min x.audioTrack (x.info.audio.length - 1)

def videoIndex : ℕ := min x.videoTrack (x.info.video.length - 1)

/-- `v` and `a`. -/
def video : Option VideoStream := x.info.video[x.videoIndex]?

def audio : Option AudioStream := x.info.audio[x.audioIndex]?

/-- `over_cap`. -/
def overCap : Bool := exceeds x.estKbps x.profile.maxBandwidthKbps

/-- The selected video is HDR10. -/
def isHdr10 : Bool := x.video.any fun v => v.hdr = some "hdr10"

/-- `hdr_veto`. -/
def hdrVeto : Bool := x.tonemap && !x.profile.hdr && x.isHdr10

/-- `v_client_ok`. -/
def videoClientOk : Bool := x.video.any (videoFits x.profile) && !x.overCap && !x.hdrVeto

/-- `a_client_ok`. -/
def audioClientOk : Bool := x.audio.any fun a =>
  a.codec ∈ x.profile.audio &&
    (x.profile.maxAudioChannels = 0 || a.channels ≤ x.profile.maxAudioChannels)

/-- `container_ok`. -/
def containerOk : Bool := x.info.container.any fun c => c ∈ x.profile.containers

/-- `picked`. -/
def picked : BurnPick → Option String
  | .embedded i => x.info.subtitles[i]?.map SubtitleStream.format
  | .sidecar i => x.info.externalSubtitles[i]?

/-- A pick that forces a burn. -/
def forcesBurn (p : BurnPick) : Bool :=
  match x.picked p with
  | some "pgs" | some "dvdsub" => x.burnCapable && (p matches .embedded _)
  | some "vobsub" => x.burnCapable
  | _ => false

/-- `forced_burn`. -/
def forcedBurn : Option BurnPick := x.burnPick.filter x.forcesBurn

/-- `forced_embedded`. -/
def forcedEmbedded : Option ℕ :=
  match x.forcedBurn with
  | some (.embedded i) => some i
  | _ => none

/-- `picked_ass`. -/
def pickedAss : Option BurnPick := x.burnPick.filter fun p => (x.picked p).any isAss

/-- An OCR text track exists for the stream. -/
def hasOcr (i : ℕ) : Bool := x.ocrText[i]?.getD false

/-- The first image stream without OCR text. -/
def firstImage : Option ℕ := x.info.subtitles.zipIdx.findIdx? fun (s, i) =>
  isImage s.format && !x.hasOcr i

/-- `burn_wanted`. -/
def burnWanted : Bool := x.burnCapable && !x.profile.graphicsOverlay && x.firstImage.isSome

/-- `ass_burn_wanted`. -/
def assBurnWanted : Bool :=
  x.ass.choose x.profile = some .burn &&
    ((x.info.subtitles.any fun s => isAss s.format) || x.info.externalSubtitles.any isAss)

/-- `direct`. -/
def direct (force : Bool) : Bool :=
  x.singlePart && x.containerOk && (x.video.isNone || x.videoClientOk) &&
    (x.audio.isNone || x.audioClientOk) && (x.video.isSome || x.audio.isSome) &&
    !x.burnWanted && !x.assBurnWanted && x.forcedBurn.isNone && !force

/-- `burn_subtitle`. -/
def burnSubtitle : Option ℕ :=
  x.forcedEmbedded.or
    (if !x.profile.graphicsOverlay && x.burnCapable then x.firstImage else none)

/-- `burn_ass_track` and `burn_ass_file`. -/
def burnAss : Option ℕ × Option ℕ :=
  if !x.assBurnWanted then (none, none)
  else
    match x.pickedAss with
    | some (.embedded i) => (some i, none)
    | some (.sidecar i) => (none, some i)
    | none =>
      match x.info.subtitles.findIdx? fun s => isAss s.format with
      | some i => (some i, none)
      | none => (none, x.info.externalSubtitles.findIdx? isAss)

/-- `burn_active`. -/
def burnActive : Bool :=
  x.burnSubtitle.isSome || x.forcedBurn.isSome || x.burnAss.1.isSome || x.burnAss.2.isSome

/-! ## The candidates -/

/-- The encode targets a segment format carries. -/
def videoLadder : SegmentFormat → List VideoTarget
  | .ts => [.h264]
  | .fmp4 => [.h264, .hevc, .av1]

def audioLadder : SegmentFormat → List AudioTarget
  | .ts => [.aac]
  | .fmp4 => [.aac, .opus]

/-- The client plays the target and the executor encodes it. -/
def takesVideo (t : VideoTarget) : Bool :=
  (x.profile.video.any fun c => c.codec = t.asStr) && t.asStr ∈ x.videoTargets

def takesAudio (targets : List String) (t : AudioTarget) : Bool :=
  t.asStr ∈ x.profile.audio && t.asStr ∈ targets

/-- What one segment format can deliver: `ts` or `f4`. -/
structure Candidate where
  video : StreamMode
  videoTarget : VideoTarget
  audio : StreamMode
  audioTarget : AudioTarget
  /-- Dropped audio streams and cost. -/
  key : ℕ × Cost
  deriving DecidableEq

/-- The video mode of a candidate. -/
def videoMode (format : SegmentFormat) : StreamMode :=
  if x.video.any fun s => x.videoClientOk && g.muxable "video" s.codec format && !x.burnActive then
    .copy
  else if (videoLadder format).any x.takesVideo &&
      x.video.any fun s => g.decodable "video" s.codec then
    .encode
  else .off

/-- The executor of the audio encode: with an encoded video the full transcoder. -/
def audioTargets (video : StreamMode) : List String :=
  if video = .encode then x.fullAudioTargets else x.localAudioTargets

/-- The audio mode of a candidate. -/
def audioMode (force : Bool) (format : SegmentFormat) : StreamMode :=
  let targets := x.audioTargets (x.videoMode g format)
  if !force && x.audio.any fun s => x.audioClientOk && g.muxable "audio" s.codec format then .copy
  else if (audioLadder format).any (x.takesAudio targets) &&
      x.audio.any fun s => g.decodable "audio" s.codec then
    .encode
  else .off

/-- The cost of a pair of modes. -/
def costOf (force : Bool) (video audio : StreamMode) : Cost :=
  if x.direct force then .direct
  else if (video = .off ∧ audio = .off) ∨ (x.video.isSome ∧ video = .off) then .unplayable
  else if video = .encode then .videoEncode
  else if audio = .encode then .audioEncode
  else .copy

/-- `candidate`. -/
def candidate (force : Bool) (format : SegmentFormat) : Candidate :=
  let video := x.videoMode g format
  let audio := x.audioMode g force format
  { video
    videoTarget := ((videoLadder format).find? x.takesVideo).getD .h264
    audio
    audioTarget := ((audioLadder format).find? (x.takesAudio (x.audioTargets video))).getD .aac
    key := (if x.audio.isSome ∧ audio = .off then 1 else 0, x.costOf force video audio) }

/-- `ts_delivers_h264`. -/
def tsDeliversH264 (ts : Candidate) : Bool :=
  match ts.video with
  | .off => true
  | .copy => x.video.any fun s => s.codec = "h264"
  | .encode => ts.videoTarget = .h264

/-- `ts_delivers_playable_audio`. -/
def tsDeliversPlayableAudio (ts : Candidate) : Bool :=
  match ts.audio with
  | .off | .encode => true
  | .copy => !x.audio.any fun s => s.codec ∈ ["opus", "flac", "vorbis"]

/-- The order of the keys: fewer dropped streams, then the smaller cost. -/
def keyBefore (a b : ℕ × Cost) : Bool :=
  a.1 < b.1 || (a.1 = b.1 && a.2.rank < b.2.rank)

/-- The segment format of the session. -/
def format (force : Bool) : SegmentFormat :=
  let ts := x.candidate g force .ts
  let f4 := x.candidate g force .fmp4
  if !x.tsDeliversH264 ts || !x.tsDeliversPlayableAudio ts || keyBefore f4.key ts.key then .fmp4
  else .ts

/-- The candidate of that format. -/
def chosen (force : Bool) : Candidate := x.candidate g force (x.format g force)

/-! ## The plan -/

/-- `gap_ms`. -/
def gapMs : Option ℕ := x.video.bind VideoStream.maxKeyframeIntervalMs

/-- A copied video would make segments above the client's ceiling (lines
    908–914). -/
def copyTooLong (force : Bool) : Bool :=
  x.profile.targetDuration.ceilingSecs.any fun ceiling =>
    (x.chosen g force).video = .copy &&
      ceiling < declaredTargetSecs x.profile.targetDuration x.gapMs false

/-- The video mode of the plan. -/
def plannedVideo (force : Bool) : StreamMode :=
  if x.copyTooLong g force then .encode else (x.chosen g force).video

/-- `plan`. -/
def plan (force : Bool) : RemuxPlan :=
  let c := x.chosen g force
  let video := x.plannedVideo g force
  { video
    audio := c.audio
    audioTrack := x.audioIndex
    videoTrack := x.videoIndex
    maxBitDepth :=
      if video = .encode then codecDepthLimit x.profile c.videoTarget.asStr else none
    videoKbps :=
      if video = .encode then some ((x.profile.maxBandwidthKbps.map (min 6000)).getD 6000)
      else none
    maxHeight := if video = .encode then x.profile.maxHeight else none
    burnSubtitle := if video = .encode then x.burnSubtitle else none
    burnAss := if video = .encode then x.burnAss.1 else none
    maxChannels :=
      if c.audio = .encode ∧ 0 < x.profile.maxAudioChannels then
        some ((((x.audio.map AudioStream.channels).filter (0 < ·)).map
          (min · x.profile.maxAudioChannels)).getD x.profile.maxAudioChannels)
      else none
    toneMap := x.tonemap && video = .encode && x.isHdr10
    deinterlace := video = .encode && x.video.any VideoStream.interlaced
    videoCodec := c.videoTarget
    audioCodec := c.audioTarget
    segmentFormat := x.format g force }

/-- The tier and the note of one subtitle stream (lines 1079–1151). -/
def subtitleTier (plan : RemuxPlan) (index : ℕ) (format : String) : SubtitleTier × String :=
  if isAss format then
    if plan.burnAss = some index then (.burn, "burned in (forces the video encode)")
    else if x.profile.assRender then (.text, "")
    else if x.ass.choose x.profile = some .overlay then
      (.graphics, "rasterised overlay — full typesetting, no encode")
    else if x.burnAss.1.isSome then (.unavailable, "only one track can be burned in")
    else if (x.ass.choose x.profile).isNone then
      (.unavailable,
        "no rung left: client renders neither ASS nor text, and no box can burn it")
    else if x.ass.order.head? = some .burn then
      (.convert, "flattened to VTT — no box in the fleet can burn ASS")
    else (.convert, "flattened to VTT")
  else if isImage format then
    if plan.burnSubtitle = some index then (.burn, "burned in (forces the video encode)")
    else if x.profile.graphicsOverlay then (.graphics, "")
    else if x.hasOcr index then (.ocr, "served as OCR text — no encode needed")
    else if x.burnSubtitle.isSome then (.unavailable, "only one track can be burned in")
    else if !x.profile.graphicsOverlay then
      (.unavailable, "burn-in needs a locally-read source (HUB-32b)")
    else (.unavailable, "no OCR text yet and no burn path")
  else if !x.profile.vttRender then
    if x.ass.burnCapable then (.burn, "burned in — the client renders no text")
    else (.unavailable, "client renders no text and no box can burn it in")
  else (.text, "")

/-- `negotiate_for_executors_impl`. -/
def impl (force : Bool) : SourcePlan :=
  let plan := x.plan g force
  { direct := x.direct force
    plan
    burnSidecar :=
      match x.forcedBurn with
      | some (.sidecar i) => if plan.video = .encode then some i else none
      | _ => none
    burnAssSidecar := if plan.video = .encode then x.burnAss.2 else none
    cost := x.costOf force plan.video plan.audio
    targetDurationSecs :=
      declaredTargetSecs x.profile.targetDuration x.gapMs (plan.video = .encode)
    incomplete :=
      (x.video.isSome && plan.video = .off) || (x.audio.isSome && plan.audio = .off)
    subtitles := x.info.subtitles.zipIdx.map fun (s, index) =>
      let (tier, note) := x.subtitleTier plan index s.format
      { index, format := s.format, language := s.language, tier, note } }

/-! ## Forced audio -/

/-- `encoded_audio_layout`. -/
def encodedAudioLayout (plan : RemuxPlan) : Option AudioLayout := do
  let audio ← x.info.audio[plan.audioTrack]?
  let source := AudioLayout.fromStream audio.channels audio.layout
  let bound := ((plan.maxChannels.filter (0 < ·)).map (min · source.channels)).getD source.channels
  (resolvedMeasuredLayouts source source).find? fun layout => layout.channels ≤ bound

/-- `video_unchanged`. -/
def videoUnchanged : Bool :=
  if (x.impl g false).direct then
    if x.info.video.isEmpty then (x.plan g true).video = .off else (x.plan g true).video = .copy
  else (x.plan g true).video = (x.plan g false).video

/-- The forced plan is taken (lines 565–586). -/
def honoursForce : Bool :=
  (x.plan g true).audio = .encode && x.videoUnchanged g &&
    (x.encodedAudioLayout (x.plan g true)).isSome &&
    ((x.plan g false).video = .encode || (g.exactAudioLayout x.info (x.plan g true)).isSome)

end Inputs

/-- `negotiate_for_executors`. -/
def negotiateForExecutors (g : Gstreamer) (x : Inputs) (forceAudioEncode : Bool) : SourcePlan :=
  x.impl g (forceAudioEncode && x.honoursForce g)

end Kahawai.Media.Negotiate
