import Kahawai.Media.ImageSubs.Pgs
import Kahawai.Media.VobsubFile.Totality

/-!
# Totality of the image subtitles

The index and the stream of a VobSub pair, the units of the stream and the payloads of PGS
(`crates/kahawai-media/src/vobsub_file.rs`, lines 28–202, and
`crates/kahawai-media/src/imagesubs.rs`, lines 52–247 and 300–420), put together.

Results:
* `decoding_total`: a time in the index and the end of a pack can overflow, and nothing else can.
-/

namespace Kahawai.Media.ImageSubs

open Kahawai.Core Kahawai.Core.Text Kahawai.Lib Kahawai.Lib.Codec Kahawai.Lib.Checked
  Kahawai.Media.Burnin Kahawai.Media.VobsubFile

/-- Every function returns on all input, but the two that read the index: `parse_idx` exactly if the
    times fit 64 bits, and `extract_track` exactly if the ends of the packs do too. What comes out is
    bounded, objects are whole, and from an epoch start on the payloads before it do not matter. -/
theorem decoding_total (u : Unicode) (rgb : UInt8 → UInt8 → UInt8 → UInt8 × UInt8 × UInt8) :
    (∀ text, ((∃ tracks, parseIdxChecked u text = .ok tracks) ↔ IdxFits text) ∧
      ∀ tracks, parseIdxChecked u text = .ok tracks → idxSize tracks ≤ (lines text).length) ∧
    (∀ text sub trackId, sub.length < 2 ^ 63 →
      ((∃ r, extractTrackChecked u text sub trackId = .ok r) ↔
        IdxFits text ∧ TrackFits u text trackId) ∧
      ∀ blocks, extractTrackChecked u text sub trackId = .ok (.ok blocks) →
        blocks.length ≤ (lines text).length ∧ ∀ b ∈ blocks, b.2.2.length < 2 ^ 16) ∧
    (∀ spu, spu.length < 2 ^ 63 → ∃ stop, spuStopMsChecked spu = .ok stop) ∧
    (∀ spu palette16, spu.length < 2 ^ 63 → Ensures (vobsubDecode spu palette16) fun r =>
      ∀ o, r = .ok (some o) → Whole o ∧ o.w ≤ 4096 ∧ o.h ≤ 4096) ∧
    (∀ payloads, totalLength payloads < 2 ^ 50 → Ensures (feedAll rgb .empty payloads) fun r =>
      ∀ s, .ok (some s) ∈ r.2 → SetOk s) ∧
    ∀ before before' data payloads d d' rs rs', totalLength before < 2 ^ 50 →
      totalLength before' < 2 ^ 50 → feedAll rgb .empty before = .ok (d, rs) →
      feedAll rgb .empty before' = .ok (d', rs') → StartsEpoch data 0 →
      feedAll rgb d (data :: payloads) = feedAll rgb d' (data :: payloads) := by
  have hheld : ∀ {payloads d rs}, totalLength payloads < 2 ^ 50 →
      feedAll rgb .empty payloads = .ok (d, rs) → d.Held (0 + totalLength payloads) := by
    intro payloads d rs htotal hrun
    obtain ⟨r, hr, hd, -⟩ := feedAll_ensures rgb (show 0 + totalLength payloads < 2 ^ 50 by omega)
      (PgsDecoder.empty_held 0)
    cases hrun.symm.trans hr
    exact hd
  refine ⟨fun text => ⟨(goesThrough_parseIdx u text).iff, ?_⟩, fun text sub trackId hsub => ?_,
    fun spu hspu => ⟨_, spuStopMsChecked_eq hspu⟩, fun spu palette16 hspu =>
    vobsubDecode_ensures hspu palette16, fun payloads htotal => ?_, ?_⟩
  · intro tracks h
    have hparse := goesThrough_parseIdx u text
    cases h.symm.trans (hparse.1 (hparse.2 ⟨tracks, h⟩))
    exact idxSize_parseIdx u text
  · have hextract := goesThrough_extractTrack hsub u text trackId
    refine ⟨hextract.iff, fun blocks h => ?_⟩
    have hblocks := h.symm.trans (hextract.1 (hextract.2 ⟨_, h⟩))
    exact extractTrack_bounded (Except.ok.inj hblocks).symm
  · exact (feedAll_ensures rgb (n := 0) (by omega) (PgsDecoder.empty_held 0)).mono fun r hr => hr.2
  · intro before before' data payloads d d' rs rs' htotal htotal' hrun hrun' hstart
    exact feedAll_startsEpoch rgb hstart (hheld htotal hrun) (hheld htotal' hrun') payloads

/-- An index with one entry. -/
def sampleIdx : Text := lit "id: en, index: 0\ntimestamp: 00:03:20:000, filepos: 000000000"

/-- A set that starts an epoch and shows an object of one pixel. -/
def samplePayload : Bytes :=
  [0x16, 0, 19, 0, 16, 0, 16, 0, 0, 0, 0x80, 0, 0, 1, 0, 1, 0, 0, 0, 2, 0, 3] ++
    [0x15, 0, 12, 0, 1, 0, 0xC0, 0, 0, 5, 0, 1, 0, 1, 1]

theorem decoding_total_sample :
    (∃ r, extractTrackChecked .ascii sampleIdx splitPack.encode 0 = .ok r) ∧
    (∃ stop, spuStopMsChecked [0, 10, 0, 4, 0, 90, 0, 4, 0x02, 0xFF] = .ok stop) ∧
    Ensures (feedAll (fun y _ _ => (y, y, y)) .empty [samplePayload])
      (fun r => ∀ s, .ok (some s) ∈ r.2 → SetOk s) ∧
    ∃ d rs, feedAll (fun y _ _ => (y, y, y)) .empty [samplePayload] = .ok (d, rs) ∧
      ∀ payloads, feedAll (fun y _ _ => (y, y, y)) d (samplePayload :: payloads) =
        feedAll (fun y _ _ => (y, y, y)) .empty (samplePayload :: payloads) := by
  obtain ⟨hparse, hextract, hstop, -, hfeed, hepoch⟩ := decoding_total .ascii fun y _ _ => (y, y, y)
  have hidx : IdxFits sampleIdx := (hparse sampleIdx).1.mp ⟨_, rfl⟩
  have htrack : TrackFits .ascii sampleIdx 0 := by
    intro track hfind entry hentry
    obtain rfl : (⟨0, some (lit "en"), [(200000, 0)]⟩ : IdxTrack) = track := Option.some.inj hfind
    obtain rfl := List.mem_singleton.mp hentry
    decide
  have hstart : StartsEpoch samplePayload 0 :=
    .here (by decide) rfl (by decide) rfl (by decide)
  have hsets := hfeed [samplePayload] (by decide)
  obtain ⟨⟨d, rs⟩, hrun, -⟩ := hsets
  refine ⟨(hextract sampleIdx splitPack.encode 0 (by decide +kernel)).1.mpr ⟨hidx, htrack⟩,
    hstop _ (by decide), hfeed [samplePayload] (by decide), d, rs, hrun, fun payloads => ?_⟩
  exact hepoch [samplePayload] [] samplePayload payloads d .empty rs [] (by decide) (by decide) hrun
    rfl hstart

/-- An hour that is a number of 64 bits whose milliseconds are not. -/
theorem decoding_unsafe :
    ¬∃ tracks, parseIdxChecked .ascii
      (lit "id: en, index: 0\ntimestamp: 99999999999999999:00:00:000, filepos: 0") = .ok tracks := by
  have hrun : parseIdxChecked .ascii
      (lit "id: en, index: 0\ntimestamp: 99999999999999999:00:00:000, filepos: 0") =
        .error .overflow := by
    decide
  rintro ⟨tracks, h⟩
  cases hrun.symm.trans h

end Kahawai.Media.ImageSubs
