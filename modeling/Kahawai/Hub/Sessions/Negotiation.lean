import Kahawai.Hub.Registry
import Kahawai.Media.Negotiate

/-!
# Planning against the fleet

A session start asks the fleet which box would run an encode of its source
(`probe`), and negotiates with what that box can do (`plan_with_force`,
`crates/kahawai-hub/src/sessions/negotiation.rs`). A plan that limits the bit
depth of an encode needs an executor that understands the limit; otherwise the
fleet is probed again with that requirement and the source is planned again,
with no bound on the number of times. `planWithForce` has a fuel argument for
the recursion; the registry is the same in all its calls.

Results:
* `planWithForce_returns_iff`: planning returns if and only if it is not stuck.
* `not_planWithForce_returns`: planning of a film that never returns.
-/

namespace Kahawai.Hub.Sessions

open Kahawai.Core Kahawai.Media Kahawai.Media.Negotiate Kahawai.Proto
open Kahawai.Playback.Placement

/-! ## The sources -/

/-- `PartSource`, as far as planning reads it. -/
structure PartSource where
  fileId : String
  moduleId : String
  collectionId : String
  rootToken : String
  pathRel : String
  size : ℕ

/-- `Track`, as far as a burn pick reads it. -/
structure Track where
  moduleId : Option String
  collectionId : Option String
  rootToken : Option String
  sourcePath : Option String
  streamIndex : Option ℤ
  origin : String

/-- `source_caps_names`. -/
def sourceCapsNames (kind : String) (info : MediaInfo) : List String :=
  (if kind = "video" then info.video.map VideoStream.codec
    else info.audio.map AudioStream.codec).filterMap (codecToCapsName kind)

/-- The estimated bandwidth of the source (lines 481–484); `u64` sums wrap. -/
def estKbps (parts : List PartSource) (info : MediaInfo) : Option ℕ :=
  (info.durationMs.filter (0 < ·)).map fun d =>
    ((parts.map PartSource.size).sum * 8 % 2 ^ 64 / d) % 2 ^ 32

/-! ## The executors -/

/-- What GStreamer offers on the hub itself: the encoders by codec and element,
    the tone-map segment and the Opus encoder. -/
structure LocalElements where
  encoderCapabilities : List (String × String)
  tonemapAvailable : Bool
  opusEncoder : Option String

/-- `ExecutorFacts`. -/
structure ExecutorFacts where
  tonemap : Bool
  videoTargets : List String
  fullAudioTargets : List String
  localAudioTargets : List String
  fullProtocol : ProtocolFeatures
  burnCapable : Bool

/-- `video_encoder_names`. -/
def videoEncoderNames (targets : List String) : List String :=
  targets.filter (· ∈ ["h264", "hevc", "av1"])

/-- `audio_encoder_names`. -/
def audioEncoderNames (targets : List String) : List String :=
  targets.filter (· ∈ ["aac", "opus"])

/-- `local_video_encoder_names`. -/
def localVideoEncoderNames (elements : LocalElements) (registry : Registry) : List String :=
  match registry.localBench with
  | none => []
  | some bench =>
    (elements.encoderCapabilities.filter fun (_, element) => bench.encoderReady element).map Prod.fst

/-- `local_tonemap_available`. -/
def localTonemapAvailable (elements : LocalElements) (registry : Registry) : Bool :=
  (registry.localBench.any BenchResults.tonemapReady) && elements.tonemapAvailable

/-- `local_audio_encoder_names`. -/
def localAudioEncoderNames (g : Gstreamer) (elements : LocalElements) : List String :=
  [("aac", g.aacEncoder), ("opus", elements.opusEncoder)].filterMap fun (codec, element) =>
    element.map fun _ => codec

/-! ## Negotiation -/

/-- `Negotiation`, with GStreamer and the hub's own elements. -/
structure Negotiation where
  g : Gstreamer
  elements : LocalElements
  registry : Registry
  profile : CapabilityProfile
  ass : AssPolicy
  ocrSet : List (String × String × String × String × ℕ)
  rasterSources : Option (List String)
  burnRow : Option Track
  audioTrack : ℕ
  sourceAudioTracks : String → Option ℕ
  videoTrack : ℕ

namespace Negotiation

variable (n : Negotiation)

/-- `audio_track_for`. -/
def audioTrackFor (parts : List PartSource) : ℕ :=
  (parts.head?.bind fun part => n.sourceAudioTracks part.fileId).getD n.audioTrack

/-- `pick_for`: the burn pick, when it belongs to these parts. -/
def pickFor (parts : List PartSource) : Option BurnPick := do
  let t ← n.burnRow
  let p ← parts.head?
  if (t.moduleId, t.collectionId, t.rootToken, t.sourcePath) ≠
      (some p.moduleId, some p.collectionId, some p.rootToken, some p.pathRel) then
    none
  else do
    let i ← t.streamIndex
    let i := (i % 2 ^ 64).toNat
    if t.origin = "embedded" then some (.embedded i)
    else if t.origin = "sidecar" ∨ t.origin = "downloaded" then some (.sidecar i)
    else none

/-- `ocr_flags_for`, for the first part. -/
def ocrFlags (parts : List PartSource) (info : MediaInfo) : List Bool :=
  match parts.head? with
  | none => []
  | some p => (List.range info.subtitles.length).map fun i =>
      (p.moduleId, p.collectionId, p.rootToken, p.pathRel, i) ∈ n.ocrSet

/-- The ASS policy of these parts (lines 477–480). -/
def assFor (parts : List PartSource) : AssPolicy :=
  match n.rasterSources with
  | none => n.ass
  | some sources =>
    { n.ass with overlayReady := parts.head?.any fun p => p.fileId ∈ sources }

/-- The placement need of `probe`. -/
def probeNeed (info : MediaInfo) (required : Option ProtocolFeature) : PlacementNeed where
  encodeVideo := true
  encodeAudio := false
  videoCaps := sourceCapsNames "video" info
  audioCaps := []
  needsTonemap := true
  needsAssBurn := false
  requiredProtocolFeature := required
  videoCodec := ""
  audioCodec := ""
  workClass := none
  sourceKbps := none

/-- The facts without an executor for the video: the last arm of `probe`. -/
def nobody (burnCapable : Bool) : ExecutorFacts where
  tonemap := false
  videoTargets := []
  fullAudioTargets := []
  localAudioTargets := localAudioEncoderNames n.g n.elements
  fullProtocol := .default
  burnCapable

/-- `probe`. -/
def probe (info : MediaInfo) (burnCapable : Bool) (required : Option ProtocolFeature) :
    ExecutorFacts :=
  let localAudioTargets := localAudioEncoderNames n.g n.elements
  match n.registry.pickTranscoder (probeNeed info required) with
  | some tc =>
    let targets := n.registry.transcoderEncoders tc
    { tonemap := n.registry.transcoderReportsTonemap tc
      videoTargets := videoEncoderNames targets
      fullAudioTargets := audioEncoderNames targets
      localAudioTargets
      fullProtocol := (n.registry.transcoderProtocolFeatures tc).getD .default
      burnCapable }
  | none =>
    if n.registry.localVideoExecutorEnabled then
      { tonemap := localTonemapAvailable n.elements n.registry
        videoTargets := localVideoEncoderNames n.elements n.registry
        fullAudioTargets := localAudioTargets
        localAudioTargets
        fullProtocol := .current
        burnCapable }
    else n.nobody burnCapable

/-- The arguments of the closure `negotiate`. -/
def inputs (parts : List PartSource) (info : MediaInfo) (facts : ExecutorFacts) : Inputs where
  profile := n.profile
  info
  audioTrack := n.audioTrackFor parts
  videoTrack := n.videoTrack
  singlePart := parts.length = 1
  estKbps := estKbps parts info
  tonemap := facts.tonemap
  burnCapable := facts.burnCapable
  ocrText := n.ocrFlags parts info
  burnPick := n.pickFor parts
  ass := n.assFor parts
  videoTargets := facts.videoTargets
  fullAudioTargets := facts.fullAudioTargets
  localAudioTargets := facts.localAudioTargets

/-- The closure `negotiate`. -/
def negotiate (parts : List PartSource) (info : MediaInfo) (facts : ExecutorFacts)
    (force : Bool) : SourcePlan :=
  negotiateForExecutors n.g (n.inputs parts info facts) force

/-- The plan limits the bit depth of an encode, and the executor does not
    understand the limit (lines 517–521). -/
def limitLost (facts : ExecutorFacts) (selected : SourcePlan) : Bool :=
  selected.plan.video = .encode && selected.plan.maxBitDepth.isSome &&
    !facts.fullProtocol.supports .videoBitDepth

/-- `plan_with_force`, in at most `fuel` calls. -/
def planWithForce (parts : List PartSource) (info : MediaInfo) (force : Bool) :
    ℕ → ExecutorFacts → Option SourcePlan
  | 0, _ => none
  | fuel + 1, facts =>
    let selected := n.negotiate parts info facts force
    if limitLost facts selected then
      planWithForce parts info force fuel (n.probe info facts.burnCapable (some .videoBitDepth))
    else some selected

/-! ## The second probe -/

variable {n : Negotiation} {parts : List PartSource} {info : MediaInfo} {force : Bool}
  {facts : ExecutorFacts}

/-- No transcoder fits an encode of the source with a limited depth, and the hub
    encodes no video itself. -/
def Unserved (n : Negotiation) (info : MediaInfo) : Prop :=
  n.registry.pickTranscoder (probeNeed info (some .videoBitDepth)) = none ∧
    n.registry.localVideoExecutorEnabled = false

/-- Without such an executor the second probe finds nobody. -/
theorem probe_of_unserved (h : n.Unserved info) (burnCapable : Bool) :
    n.probe info burnCapable (some .videoBitDepth) = n.nobody burnCapable := by
  obtain ⟨hpick, hlocal⟩ := h
  simp [probe, hpick, hlocal]

/-- With one, it finds an executor that understands the limit. -/
theorem probe_supports (h : ¬ n.Unserved info) (burnCapable : Bool) :
    (n.probe info burnCapable (some .videoBitDepth)).fullProtocol.supports .videoBitDepth =
      true := by
  rw [probe]
  cases hpick : n.registry.pickTranscoder (probeNeed info (some .videoBitDepth)) with
  | some tc =>
    obtain ⟨features, hfeatures, hsupports⟩ :=
      Registry.protocolFeatures_of_pickTranscoder hpick rfl
    simpa [hfeatures] using hsupports
  | none =>
    have hlocal : n.registry.localVideoExecutorEnabled = true := by
      by_contra hno
      exact h ⟨hpick, by simpa using hno⟩
    simp only [hlocal, if_true]
    exact ProtocolFeatures.current_supports .videoBitDepth

theorem limitLost_of_supports (selected : SourcePlan)
    (h : facts.fullProtocol.supports .videoBitDepth = true) : limitLost facts selected = false := by
  simp [limitLost, h]

theorem planWithForce_of_kept {fuel : ℕ}
    (h : limitLost facts (n.negotiate parts info facts force) = false) :
    n.planWithForce parts info force (fuel + 1) facts =
      some (n.negotiate parts info facts force) := by
  simp [planWithForce, h]

theorem planWithForce_of_lost {fuel : ℕ}
    (h : limitLost facts (n.negotiate parts info facts force) = true) :
    n.planWithForce parts info force (fuel + 1) facts =
      n.planWithForce parts info force fuel
        (n.probe info facts.burnCapable (some .videoBitDepth)) := by
  simp [planWithForce, h]

/-! ## Planning without an executor -/

section Nobody

variable {g : Gstreamer} {x : Inputs} {f : Bool}

theorem takesVideo_of_no_targets (h : x.videoTargets = []) (t : VideoTarget) :
    x.takesVideo t = false := by
  simp [Inputs.takesVideo, h]

/-- No candidate encodes the video. -/
theorem videoMode_of_no_targets (h : x.videoTargets = []) (format : SegmentFormat) :
    x.videoMode g format ≠ .encode := by
  have hnone : (Inputs.videoLadder format).any x.takesVideo = false := by
    simp [takesVideo_of_no_targets h]
  rw [Inputs.videoMode, hnone]
  split <;> simp

/-- So a planned encode is a copy that the ceiling turned into one. -/
theorem plan_video_of_no_targets (h : x.videoTargets = []) :
    (x.plan g f).video = .encode ↔ x.copyTooLong g f = true := by
  have hchosen : (x.chosen g f).video ≠ .encode := videoMode_of_no_targets h (x.format g f)
  show x.plannedVideo g f = .encode ↔ _
  rw [Inputs.plannedVideo]
  split
  · rename_i hlong
    simp [hlong]
  · rename_i hshort
    simp [hshort, hchosen]

/-- Its target is the one a ladder falls back to. -/
theorem videoTarget_of_no_targets (h : x.videoTargets = []) :
    (x.chosen g f).videoTarget = .h264 := by
  have hfind : (Inputs.videoLadder (x.format g f)).find? x.takesVideo = none := by
    rw [List.find?_eq_none]
    intro t _
    simp [takesVideo_of_no_targets h]
  simp [Inputs.chosen, Inputs.candidate, hfind]

end Nobody

/-- Without an executor the plan still limits the depth of an encode when the
    ceiling forces one and the client limits the depth of H.264. -/
theorem limitLost_nobody (burnCapable : Bool) :
    limitLost (n.nobody burnCapable) (n.negotiate parts info (n.nobody burnCapable) force) = true ↔
      (n.inputs parts info (n.nobody burnCapable)).copyTooLong n.g
          (force && (n.inputs parts info (n.nobody burnCapable)).honoursForce n.g) = true ∧
        (codecDepthLimit n.profile "h264").isSome = true := by
  rw [negotiate, negotiateForExecutors]
  generalize hx : n.inputs parts info (n.nobody burnCapable) = x
  generalize (force && x.honoursForce n.g) = f
  have htargets : x.videoTargets = [] := by rw [← hx]; rfl
  have hprofile : x.profile = n.profile := by rw [← hx]; rfl
  have hprotocol : (n.nobody burnCapable).fullProtocol.supports .videoBitDepth = false :=
    ProtocolFeatures.default_supports_videoBitDepth
  have hvideo := plan_video_of_no_targets (g := n.g) (f := f) htargets
  rw [limitLost, hprotocol]
  show ((x.plan n.g f).video = .encode && (x.plan n.g f).maxBitDepth.isSome && true) = true ↔ _
  rw [Bool.and_true, Bool.and_eq_true, decide_eq_true_eq, hvideo]
  refine and_congr_right fun hlong => ?_
  have hencode : x.plannedVideo n.g f = .encode := hvideo.mpr hlong
  have hlimit : (x.plan n.g f).maxBitDepth = codecDepthLimit n.profile "h264" := by
    show (if x.plannedVideo n.g f = .encode then
      codecDepthLimit x.profile (x.chosen n.g f).videoTarget.asStr else none) = _
    rw [if_pos hencode, videoTarget_of_no_targets htargets, hprofile]
    rfl
  rw [hlimit]

/-! ## Termination -/

/-- Planning probes again and finds nobody, and the copied video of a source is
    too long for a client with a depth limit for H.264. -/
structure Stuck (n : Negotiation) (parts : List PartSource) (info : MediaInfo)
    (facts : ExecutorFacts) (force : Bool) : Prop where
  /-- With the given facts the plan limits the depth of an encode, which the
      executor does not understand. -/
  lost : limitLost facts (n.negotiate parts info facts force) = true
  unserved : n.Unserved info
  /-- The client is `short`, and copied segments exceed its ceiling. -/
  tooLong : (n.inputs parts info (n.nobody facts.burnCapable)).copyTooLong n.g
    (force && (n.inputs parts info (n.nobody facts.burnCapable)).honoursForce n.g) = true
  /-- Every H.264 entry of the client has a depth limit. -/
  limited : (codecDepthLimit n.profile "h264").isSome = true

/-- A plan that is lost without an executor stays lost. -/
theorem planWithForce_nobody {burnCapable : Bool} (hunserved : n.Unserved info)
    (hlost : limitLost (n.nobody burnCapable)
      (n.negotiate parts info (n.nobody burnCapable) force) = true) (fuel : ℕ) :
    n.planWithForce parts info force fuel (n.nobody burnCapable) = none := by
  induction fuel with
  | zero => rfl
  | succ fuel ih =>
    rw [planWithForce_of_lost hlost, probe_of_unserved hunserved]
    exact ih

/-- Planning that is stuck never returns. -/
theorem planWithForce_of_stuck (h : n.Stuck parts info facts force) (fuel : ℕ) :
    n.planWithForce parts info force fuel facts = none := by
  cases fuel with
  | zero => rfl
  | succ fuel =>
    rw [planWithForce_of_lost h.lost, probe_of_unserved h.unserved]
    exact planWithForce_nobody h.unserved
      ((limitLost_nobody facts.burnCapable).mpr ⟨h.tooLong, h.limited⟩) fuel

/-- Planning that is not stuck returns at the second call at the latest. -/
theorem planWithForce_of_not_stuck (h : ¬ n.Stuck parts info facts force) :
    ∃ plan, n.planWithForce parts info force 2 facts = some plan := by
  cases hlost : limitLost facts (n.negotiate parts info facts force) with
  | false => exact ⟨_, planWithForce_of_kept hlost⟩
  | true =>
    rw [planWithForce_of_lost hlost]
    by_cases hunserved : n.Unserved info
    · rw [probe_of_unserved hunserved]
      have hkept : limitLost (n.nobody facts.burnCapable)
          (n.negotiate parts info (n.nobody facts.burnCapable) force) = false := by
        by_contra hno
        obtain ⟨hlong, hlimited⟩ := (limitLost_nobody facts.burnCapable).mp (by simpa using hno)
        exact h ⟨hlost, hunserved, hlong, hlimited⟩
      exact ⟨_, planWithForce_of_kept hkept⟩
    · exact ⟨_, planWithForce_of_kept
        (limitLost_of_supports _ (probe_supports hunserved facts.burnCapable))⟩

/-- Planning returns if and only if it is not stuck. -/
theorem planWithForce_returns_iff (n : Negotiation) (parts : List PartSource) (info : MediaInfo)
    (facts : ExecutorFacts) (force : Bool) :
    (∃ fuel plan, n.planWithForce parts info force fuel facts = some plan) ↔
      ¬ n.Stuck parts info facts force := by
  constructor
  · rintro ⟨fuel, plan, hplan⟩ hstuck
    rw [planWithForce_of_stuck hstuck] at hplan
    cases hplan
  · intro h
    exact ⟨2, planWithForce_of_not_stuck h⟩

/-! ## A film that is never planned -/

/-- A GStreamer whose muxers take H.264 and AAC, and which decodes everything. -/
def plainGstreamer : Gstreamer where
  Caps := String
  codecToCaps := codecToCapsName
  capsMuxable := fun caps _ => caps ∈ ["video/x-h264", "audio/mpeg"]
  canDecode := fun _ => true
  aacEncoder := some "fdkaacenc"
  aacAccepts := fun _ _ _ _ => true

/-- A hub without transcoders and without a video executor of its own. -/
def emptyRegistry : Registry where
  transcoderCaps := .empty
  tcLinks := .empty
  tcLoad := fun _ => 0
  disabled := []
  localBench := none
  localVideoExecutor := false
  order := ⟨fun _ boxes => boxes, fun _ boxes => .refl boxes⟩

/-- A client with H.264 of at most 8 bits that wants segments of at most 6 s. -/
def shortClient : Negotiation where
  g := plainGstreamer
  elements := ⟨[], false, none⟩
  registry := emptyRegistry
  profile :=
    { CapabilityProfile.default with
      video := [⟨"h264", some 8, none, none⟩]
      targetDuration := .short 6 }
  ass := ⟨[.flatten, .overlay, .burn], false, false⟩
  ocrSet := []
  rasterSources := none
  burnRow := none
  audioTrack := 0
  sourceAudioTracks := fun _ => none
  videoTrack := 0

/-- An 8-bit H.264 film in Matroska with keyframes 10 s apart. -/
def sparseFilm : MediaInfo where
  container := some "matroska"
  durationMs := some 5400000
  video := [⟨"h264", 1080, some (24, 1), some 8, false, none, none, none, some 10000⟩]
  audio := [⟨"aac", 2, none⟩]
  subtitles := []
  externalSubtitles := []

def sparseParts : List PartSource := [⟨"f1", "nas", "films", "a", "film.mkv", 4000000000⟩]

/-- The session start probes the fleet, and its planning never returns. -/
theorem not_planWithForce_returns :
    shortClient.probe sparseFilm false none = shortClient.nobody false ∧
    ¬ ∃ fuel plan, shortClient.planWithForce sparseParts sparseFilm false fuel
      (shortClient.probe sparseFilm false none) = some plan := by
  have hprobe : shortClient.probe sparseFilm false none = shortClient.nobody false := rfl
  have hstuck : shortClient.Stuck sparseParts sparseFilm (shortClient.nobody false) false :=
    { lost := by decide
      unserved := ⟨rfl, rfl⟩
      tooLong := by decide
      limited := by decide }
  refine ⟨hprobe, ?_⟩
  rintro ⟨fuel, plan, hplan⟩
  rw [hprobe, planWithForce_of_stuck hstuck] at hplan
  cases hplan

end Negotiation

end Kahawai.Hub.Sessions
