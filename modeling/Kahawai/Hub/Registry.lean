import Kahawai.Lib.Table
import Kahawai.Playback.Placement

/-!
# The registry of transcoders

What the hub knows of the transcoders that are linked, and of its own video
executor (`crates/kahawai-hub/src/registry.rs`). A transcoder is in the fleet
if it has reported its capabilities and still has a link.

`protocolFeatures_of_pickTranscoder`: the link of a picked transcoder supports
the feature that was required.
-/

namespace Kahawai.Hub

open Kahawai.Lib Kahawai.Proto Kahawai.Playback.Placement

/-- `BenchResults` (`crates/kahawai-media/src/bench.rs`): the elements with
    complete speeds, whether the tone-map segment has them, and what is
    quarantined. -/
structure BenchResults where
  encoders : List String
  tonemap : Bool
  crashes : List String

def BenchResults.encoderReady (b : BenchResults) (element : String) : Bool :=
  element ∈ b.encoders && element ∉ b.crashes

/-- `TONEMAP_JOB_KEY` is `"@tonemap"`. -/
def BenchResults.tonemapReady (b : BenchResults) : Bool :=
  b.tonemap && "@tonemap" ∉ b.crashes

/-- What a transcoder reported, by its module id. -/
structure Report where
  moduleId : String
  caps : BoxCaps

/-- `TcLink` without its channel. -/
structure TcLink where
  moduleId : String
  protocolMinor : ℕ

/-- The tables of `Registry` that a placement reads. -/
structure Registry where
  transcoderCaps : Table Report.moduleId
  tcLinks : Table TcLink.moduleId
  tcLoad : String → ℕ
  disabled : List String
  localBench : Option BenchResults
  localVideoExecutor : Bool
  order : Order

namespace Registry

variable (r : Registry)

/-- `Registry::LOCAL_TRANSCODER`. -/
def localTranscoder : String := "local-transcoder"

def localVideoExecutorEnabled : Bool :=
  r.localVideoExecutor && localTranscoder ∉ r.disabled

def transcoderEncoders (moduleId : String) : List String :=
  ((r.transcoderCaps.get? moduleId).map fun c => c.caps.encoders).getD []

def transcoderReportsTonemap (moduleId : String) : Bool :=
  (r.transcoderCaps.get? moduleId).any fun c => c.caps.tonemap

def transcoderProtocolFeatures (moduleId : String) : Option ProtocolFeatures :=
  (r.tcLinks.get? moduleId).map fun link => ⟨link.protocolMinor⟩

/-- The boxes of `with_fleet` (lines 1376–1393). -/
def fleet : List BoxSnapshot :=
  r.transcoderCaps.rows.filterMap fun c =>
    (r.transcoderProtocolFeatures c.moduleId).map fun protocol =>
      { id := c.moduleId
        caps := c.caps
        protocol
        load := r.tcLoad c.moduleId
        disabled := c.moduleId ∈ r.disabled }

def pickTranscoder (need : PlacementNeed) : Option String := choose r.order r.fleet need

variable {r}

/-- A box of the fleet carries the features of its link. -/
theorem protocolFeatures_of_mem_fleet {b : BoxSnapshot} (h : b ∈ r.fleet) :
    r.transcoderProtocolFeatures b.id = some b.protocol := by
  obtain ⟨c, -, hbox⟩ := List.mem_filterMap.mp h
  obtain ⟨protocol, hprotocol, rfl⟩ := Option.map_eq_some_iff.mp hbox
  exact hprotocol

/-- The picked transcoder has a link, and the link supports the required
    feature. -/
theorem protocolFeatures_of_pickTranscoder {need : PlacementNeed} {feature : ProtocolFeature}
    {tc : String} (hpick : r.pickTranscoder need = some tc)
    (hfeature : need.requiredProtocolFeature = some feature) :
    ∃ features, r.transcoderProtocolFeatures tc = some features ∧
      features.supports feature = true := by
  obtain ⟨b, hmem, rfl, hfits⟩ := choose_eq_some hpick
  exact ⟨b.protocol, protocolFeatures_of_mem_fleet hmem,
    BoxSnapshot.supports_of_fits hfits hfeature⟩

end Registry

end Kahawai.Hub
