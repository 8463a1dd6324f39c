import Kahawai.Proto

/-!
# Placement

`choose` names the transcoder that would take some work
(`crates/kahawai-playback/src/placement.rs`): the first, in the order of `rank`,
of the boxes that fit. The order compares `f32` predictions and is a parameter;
that it is an order of the boxes that fit is its field `perm`.

`choose_eq_some`: the chosen box fits.
-/

namespace Kahawai.Playback.Placement

open Kahawai.Proto

/-- `PlacementNeed`: what a session needs from a transcoder. An empty codec is
    any codec of the kind. -/
structure PlacementNeed where
  encodeVideo : Bool
  encodeAudio : Bool
  videoCaps : List String
  audioCaps : List String
  needsTonemap : Bool
  needsAssBurn : Bool
  requiredProtocolFeature : Option ProtocolFeature
  videoCodec : String
  audioCodec : String
  workClass : Option String
  sourceKbps : Option ℕ

/-- `BoxCaps` without the measured speeds. `maxSessions` 0 is unlimited; a box
    without `decodeCaps` did not report any. -/
structure BoxCaps where
  encoders : List String
  maxSessions : ℕ
  decodeCaps : List String
  tonemap : Bool
  assBurn : Bool

/-- `BoxSnapshot` with the box's id. -/
structure BoxSnapshot where
  id : String
  caps : BoxCaps
  protocol : ProtocolFeatures
  load : ℕ
  disabled : Bool

namespace BoxSnapshot

variable (b : BoxSnapshot)

/-- `has`. -/
def has (codec : String) : Bool := codec ∈ b.caps.encoders

/-- `video_ok`. -/
def videoOk (need : PlacementNeed) : Bool :=
  if need.videoCodec = "" then ["h264", "hevc", "av1"].any b.has else b.has need.videoCodec

/-- `audio_ok`. -/
def audioOk (need : PlacementNeed) : Bool :=
  if need.audioCodec = "" then ["aac", "opus"].any b.has else b.has need.audioCodec

/-- `can`: one of the wanted caps is decoded. -/
def can (wanted : List String) : Bool :=
  b.caps.decodeCaps.isEmpty || wanted.any (· ∈ b.caps.decodeCaps)

/-- The box is a candidate (lines 221–270). -/
def fits (need : PlacementNeed) : Bool :=
  !b.disabled &&
    !((need.encodeVideo && !b.videoOk need) || (need.encodeAudio && !b.audioOk need)) &&
    !((need.encodeVideo && !b.can need.videoCaps) || (need.encodeAudio && !b.can need.audioCaps)) &&
    !(0 < b.caps.maxSessions && b.caps.maxSessions ≤ b.load) &&
    !(need.requiredProtocolFeature.any fun feature => !b.protocol.supports feature) &&
    !(need.needsAssBurn && !b.caps.assBurn)

/-- A candidate supports the feature that the work requires. -/
theorem supports_of_fits {b : BoxSnapshot} {need : PlacementNeed} {feature : ProtocolFeature}
    (hfits : b.fits need = true) (hfeature : need.requiredProtocolFeature = some feature) :
    b.protocol.supports feature = true := by
  simp only [fits, hfeature, Option.any_some, Bool.and_eq_true, Bool.not_not] at hfits
  exact hfits.1.2

end BoxSnapshot

/-- The sort of `rank` (lines 297–312), which only reorders. -/
structure Order where
  sort : PlacementNeed → List BoxSnapshot → List BoxSnapshot
  perm : ∀ (need : PlacementNeed) (boxes : List BoxSnapshot), (sort need boxes).Perm boxes

/-- `rank`. -/
def rank (order : Order) (boxes : List BoxSnapshot) (need : PlacementNeed) : List BoxSnapshot :=
  order.sort need (boxes.filter fun b => b.fits need)

/-- `choose`. -/
def choose (order : Order) (boxes : List BoxSnapshot) (need : PlacementNeed) : Option String :=
  (rank order boxes need).head?.map BoxSnapshot.id

variable {order : Order} {boxes : List BoxSnapshot} {need : PlacementNeed}

theorem mem_rank {b : BoxSnapshot} :
    b ∈ rank order boxes need ↔ b ∈ boxes ∧ b.fits need = true := by
  rw [rank, (order.perm need _).mem_iff, List.mem_filter]

/-- The chosen box is one of the fleet and fits. -/
theorem choose_eq_some {id : String} (h : choose order boxes need = some id) :
    ∃ b ∈ boxes, b.id = id ∧ b.fits need = true := by
  obtain ⟨b, hhead, hid⟩ := Option.map_eq_some_iff.mp h
  obtain ⟨hmem, hfits⟩ := mem_rank.mp (List.mem_of_mem_head? hhead)
  exact ⟨b, hmem, hid, hfits⟩

/-- Nothing is chosen exactly if no box fits. -/
theorem choose_eq_none : choose order boxes need = none ↔ ∀ b ∈ boxes, b.fits need = false := by
  have hrank : choose order boxes need = none ↔ rank order boxes need = [] := by
    simp [choose]
  rw [hrank, List.eq_nil_iff_forall_not_mem]
  constructor
  · intro h b hb
    cases hfits : b.fits need with
    | false => rfl
    | true => exact absurd (mem_rank.mpr ⟨hb, hfits⟩) (h b)
  · intro h b hb
    obtain ⟨hmem, hfits⟩ := mem_rank.mp hb
    rw [h b hmem] at hfits
    cases hfits

end Kahawai.Playback.Placement
