import Kahawai.Core.Text

/-!
# Media facts and client capabilities

The parts of `MediaInfo` and `CapabilityProfile`
(`crates/kahawai-core/src/media.rs`) that the negotiation reads. Integers of the
source are natural numbers.
-/

namespace Kahawai.Core

/-- `VideoStream`. -/
structure VideoStream where
  codec : String
  height : ℕ
  fps : Option (ℕ × ℕ)
  bitDepth : Option ℕ
  interlaced : Bool
  hdr : Option String
  profile : Option String
  level : Option String
  maxKeyframeIntervalMs : Option ℕ
  deriving DecidableEq

/-- `AudioStream`; `layout` is a channel mask in hexadecimal. -/
structure AudioStream where
  codec : String
  channels : ℕ
  layout : Option String
  deriving DecidableEq

/-- `SubtitleStream`. -/
structure SubtitleStream where
  format : String
  language : Option String
  deriving DecidableEq

/-- `MediaInfo`; of a sidecar subtitle only the format. -/
structure MediaInfo where
  container : Option String
  durationMs : Option ℕ
  video : List VideoStream
  audio : List AudioStream
  subtitles : List SubtitleStream
  externalSubtitles : List String
  deriving DecidableEq

/-- `VideoCap`. -/
structure VideoCap where
  codec : String
  maxBitDepth : Option ℕ
  maxProfile : Option String
  maxLevel : Option String
  deriving DecidableEq

/-- What a client needs from `EXT-X-TARGETDURATION`. -/
inductive TargetDuration
  | ignore
  | accurate
  | short (maxSecs : ℕ)
  deriving DecidableEq

/-- The ceiling a mode imposes. -/
def TargetDuration.ceilingSecs : TargetDuration → Option ℕ
  | .short maxSecs => some (max maxSecs 1)
  | _ => none

/-- `CapabilityProfile`; zero channels are unlimited. -/
structure CapabilityProfile where
  containers : List String
  video : List VideoCap
  audio : List String
  maxAudioChannels : ℕ
  maxHeight : Option ℕ
  maxFps : Option ℕ
  hdr : Bool
  maxBandwidthKbps : Option ℕ
  assRender : Bool
  graphicsOverlay : Bool
  vttRender : Bool
  targetDuration : TargetDuration
  deriving DecidableEq

/-- `CapabilityProfile::default`. -/
def CapabilityProfile.default : CapabilityProfile where
  containers := ["mp4", "webm"]
  video := [⟨"h264", none, none, none⟩]
  audio := ["aac", "mp3"]
  maxAudioChannels := 0
  maxHeight := none
  maxFps := none
  hdr := false
  maxBandwidthKbps := none
  assRender := false
  graphicsOverlay := false
  vttRender := true
  targetDuration := .ignore

end Kahawai.Core
