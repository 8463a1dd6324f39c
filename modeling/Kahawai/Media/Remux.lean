import Mathlib.Data.List.Sort
import Kahawai.Core.Media

/-!
# Pipeline plans

The plan of a session (`crates/kahawai-media/src/remux/plan.rs`), the caps names
of the codecs (`remux/probe.rs`) and the audio layouts an encode may produce
(`crates/kahawai-media/src/loudness.rs`, `remux/audio.rs`).

GStreamer itself is a parameter: which caps a codec label has, which caps a
muxer takes, which caps can be decoded, the AAC encoder that passed its dry run
and the layouts it carries.
-/

namespace Kahawai.Media

open Kahawai.Core Kahawai.Core.Text

/-! ## Plans -/

inductive StreamMode
  | copy
  | encode
  | off
  deriving DecidableEq

inductive VideoTarget
  | h264
  | hevc
  | av1
  deriving DecidableEq

inductive AudioTarget
  | aac
  | opus
  deriving DecidableEq

inductive SegmentFormat
  | ts
  | fmp4
  deriving DecidableEq

def VideoTarget.asStr : VideoTarget → String
  | .h264 => "h264"
  | .hevc => "hevc"
  | .av1 => "av1"

def AudioTarget.asStr : AudioTarget → String
  | .aac => "aac"
  | .opus => "opus"

/-- `RemuxPlan` without the loudness gains, which the negotiation leaves unset. -/
structure RemuxPlan where
  video : StreamMode
  audio : StreamMode
  audioTrack : ℕ
  videoTrack : ℕ
  videoKbps : Option ℕ
  maxHeight : Option ℕ
  maxBitDepth : Option ℕ
  toneMap : Bool
  deinterlace : Bool
  burnSubtitle : Option ℕ
  burnAss : Option ℕ
  maxChannels : Option ℕ
  videoCodec : VideoTarget
  audioCodec : AudioTarget
  segmentFormat : SegmentFormat
  deriving DecidableEq

def defaultTargetDurationSecs : ℕ := 2

def fragmentTargetSecs : ℕ := 2

/-! ## Audio layouts -/

structure AudioLayout where
  channels : ℕ
  channelMask : ℕ
  deriving DecidableEq

/-- `AudioLayout::new`. -/
def AudioLayout.new (channels channelMask : ℕ) : AudioLayout :=
  match channels, channelMask with
  | 1, 0 => ⟨1, 0x4⟩
  | 2, 0 => ⟨2, 0x3⟩
  | _, _ => ⟨channels, channelMask⟩

def hexDigit (c : Char) : Option ℕ :=
  if '0' ≤ c ∧ c ≤ '9' then some (c.toNat - '0'.toNat)
  else if 'a' ≤ c ∧ c ≤ 'f' then some (c.toNat - 'a'.toNat + 10)
  else if 'A' ≤ c ∧ c ≤ 'F' then some (c.toNat - 'A'.toNat + 10)
  else none

/-- `u64::from_str_radix(_, 16)`. -/
def parseHexU64 (s : Text) : Option ℕ :=
  let digits := (stripPrefix ['+'] s).getD s
  if digits = [] then none
  else
    (digits.mapM hexDigit).bind fun ds =>
      let n := ds.foldl (fun n d => 16 * n + d) 0
      if n < 2 ^ 64 then some n else none

/-- `AudioLayout::from_stream`. -/
def AudioLayout.fromStream (channels : ℕ) (channelMask : Option String) : AudioLayout :=
  .new channels
    (((channelMask.bind fun value => stripPrefix (lit "0x") value.toList).bind parseHexU64).getD 0)

/-- `STANDARD_LAYOUTS`. -/
def standardLayouts : List AudioLayout :=
  [⟨8, 0xc3f⟩, ⟨8, 0xff⟩, ⟨6, 0x3f⟩, ⟨2, 0x3⟩, ⟨1, 0x4⟩]

/-- `is_side_to_rear_5_1`. -/
def isSideToRear51 (source target : AudioLayout) : Bool :=
  source = .new 6 0xc0f && target = .new 6 0x3f

/-- `measured_layouts`. -/
def measuredLayouts (source : AudioLayout) : List AudioLayout :=
  source :: standardLayouts.filter fun layout =>
    layout.channels < source.channels ||
      (source.channelMask = 0 && layout.channels = source.channels) ||
      isSideToRear51 source layout

/-- The key of the sort: more channels first, then the smaller mask. -/
def AudioLayout.before (a b : AudioLayout) : Bool :=
  b.channels < a.channels || (a.channels = b.channels && a.channelMask ≤ b.channelMask)

/-- `Vec::dedup`: of equal neighbours the first stays. -/
def dedup {α : Type} [DecidableEq α] : List α → List α
  | [] => []
  | [a] => [a]
  | a :: b :: l => if a = b then dedup (a :: l) else a :: dedup (b :: l)

/-- `resolved_measured_layouts`. -/
def resolvedMeasuredLayouts (declared decoded : AudioLayout) : List AudioLayout :=
  dedup (((if decoded.channelMask = 0 then [] else [decoded]) ++
    (measuredLayouts declared).drop 1).mergeSort AudioLayout.before)

/-! ## GStreamer -/

/-- What the negotiation asks of GStreamer. -/
structure Gstreamer where
  Caps : Type
  /-- `codec_to_caps`, for a kind and a codec label. -/
  codecToCaps : String → String → Option Caps
  /-- `caps_muxable`. -/
  capsMuxable : Caps → SegmentFormat → Bool
  /-- `can_decode`, for a caps name. -/
  canDecode : String → Bool
  /-- `aac_encoder`. -/
  aacEncoder : Option String
  /-- `aac_accepts`, for an encoder, a source layout and a target. -/
  aacAccepts : String → ℕ × ℕ → ℕ → Option ℕ → Bool

/-- `codec_to_caps_name`. -/
def codecToCapsName (kind codec : String) : Option String :=
  if '/' ∈ codec.toList then some codec
  else if kind = "video" then
    if codec = "h264" then some "video/x-h264"
    else if codec = "hevc" then some "video/x-h265"
    else if codec = "av1" then some "video/x-av1"
    else if codec = "vp9" then some "video/x-vp9"
    else if codec ∈ ["mpeg", "mpeg1", "mpeg2", "mpeg4part2"] then some "video/mpeg"
    else none
  else if kind = "audio" then
    if codec ∈ ["aac", "mp3", "mpeg-audio"] then some "audio/mpeg"
    else if codec = "ac3" then some "audio/x-ac3"
    else if codec = "eac3" then some "audio/x-eac3"
    else if codec = "dts" then some "audio/x-dts"
    else if codec = "opus" then some "audio/x-opus"
    else if codec = "flac" then some "audio/x-flac"
    else if codec = "truehd" then some "audio/x-true-hd"
    else if codec = "vorbis" then some "audio/x-vorbis"
    else none
  else none

/-- A decoder exists for the codec label. -/
def Gstreamer.decodable (g : Gstreamer) (kind codec : String) : Bool :=
  (codecToCapsName kind codec).any g.canDecode

/-- The muxer of the segment format takes the codec label. -/
def Gstreamer.muxable (g : Gstreamer) (kind codec : String) (format : SegmentFormat) : Bool :=
  (g.codecToCaps kind codec).any (g.capsMuxable · format)

/-- `AAC_LAYOUTS`. -/
def aacLayouts : List (ℕ × ℕ) := [(8, 0xc3f), (8, 0xff), (6, 0x3f), (2, 0x3), (1, 0x4)]

/-- `aac_input_layout` (`remux/audio.rs`, lines 151–186). -/
def Gstreamer.aacInputLayout (g : Gstreamer) (enc : String) (channels mask : ℕ)
    (ceiling : Option ℕ) : Option (ℕ × Option ℕ) :=
  let bound := ((ceiling.filter (0 < ·)).map (min · channels)).getD channels
  let positioned : List (ℕ × Option ℕ) :=
    (if mask ≠ 0 ∧ channels ≤ bound then [(channels, some mask)] else []) ++
      (aacLayouts.filter fun (targetChannels, targetMask) =>
        targetChannels ≤ bound &&
          (targetChannels < channels || mask = 0 || targetMask &&& mask = targetMask ||
            isSideToRear51 (.new channels mask) (.new targetChannels targetMask))).map
        fun (targetChannels, targetMask) => (targetChannels, some targetMask)
  let countOnly : List (ℕ × Option ℕ) :=
    ((channels :: aacLayouts.map Prod.fst).filter (· ≤ bound)).map (·, none)
  (positioned ++ countOnly).find? fun (targetChannels, targetMask) =>
    g.aacAccepts enc (channels, mask) targetChannels targetMask

/-- `opus_output_layout`. -/
def opusOutputLayout (source : AudioLayout) (ceiling : Option ℕ) : AudioLayout :=
  let bound := min (max 1 (min 8 (ceiling.getD 8))) source.channels
  let layouts := measuredLayouts source
  let positioned := layouts.find? fun layout =>
    layout.channels = source.channels && layout.channelMask ≠ 0 && layout.channels ≤ bound
  let fitting := layouts.find? fun layout => layout.channels ≤ bound && layout.channelMask ≠ 0
  ((if source.channelMask = 0 then positioned else none).or fitting).getD (.new bound 0)

/-- `exact_audio_layout`. -/
def Gstreamer.exactAudioLayout (g : Gstreamer) (info : MediaInfo) (plan : RemuxPlan) :
    Option AudioLayout :=
  if plan.audio ≠ .encode then none
  else do
    let audio ← info.audio[plan.audioTrack]?
    let source := AudioLayout.fromStream audio.channels audio.layout
    let output ← match plan.audioCodec with
      | .aac => do
        let encoder ← g.aacEncoder
        let (channels, mask) ←
          g.aacInputLayout encoder source.channels source.channelMask plan.maxChannels
        mask.map (AudioLayout.new channels)
      | .opus => some (opusOutputLayout source plan.maxChannels)
    if output ∈ resolvedMeasuredLayouts source source then some output else none

end Kahawai.Media
