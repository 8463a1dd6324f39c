import Kahawai.Playback.Job

/-!
# The message of a job

`toStartSession` loses nothing of a job that the hub builds, except which slot an exact gain has.

Results:
* `wire_round_trip`: the message gives back the job, its exact gains in the first slots.
-/

namespace Kahawai.Playback

open Kahawai.Core Kahawai.Core.Text Kahawai.Lib Kahawai.Lib.CommandLine Kahawai.Media
open Kahawai.Lib.Codec (Bytes)

variable {fl : Floats}

@[simp] theorem parseMode_modeArg (mode : StreamMode) : parseMode (modeArg mode) = mode := by
  cases mode <;> rfl

@[simp] theorem videoTargetFromStr_asStr (t : VideoTarget) :
    videoTargetFromStr (lit t.asStr) = t := by
  cases t <;> rfl

@[simp] theorem audioTargetFromStr_asStr (t : AudioTarget) :
    audioTargetFromStr (lit t.asStr) = t := by
  cases t <;> rfl

@[simp] theorem segmentFormatFromStr_asStr (t : SegmentFormat) :
    segmentFormatFromStr (segmentFormatAsStr t) = t := by
  cases t <;> rfl

/-- `AudioLayout::new` keeps the layouts it made. -/
theorem layout_new_new (channels channelMask : ℕ) :
    AudioLayout.new (AudioLayout.new channels channelMask).channels
      (AudioLayout.new channels channelMask).channelMask = AudioLayout.new channels channelMask := by
  rcases channels with - | - | - | n <;> rcases channelMask with - | m <;> rfl

/-! ## What the hub builds -/

/-- A job of the hub: `start_local` and `dispatch` make it of a negotiated plan, a sink they force
    or none, and burn payloads that can be read. -/
structure HubBuilt (files : Text → Option Bytes) (job : Job fl) : Prop where
  parts : job.partSizes ≠ []
  sizes : ∀ size ∈ job.partSizes, size < 2 ^ 64
  start : job.startMs < 2 ^ 64
  tracks : job.plan.audioTrack < 2 ^ 32 - 1 ∧ job.plan.videoTrack < 2 ^ 32 - 1
  burns : ∀ n, job.plan.burnSubtitle = some n ∨ job.plan.burnAss = some n → n < 2 ^ 32 - 1
  /-- Ceilings and channel counts are absent or positive. -/
  ceilings : ∀ c ∈ [job.plan.videoKbps, job.plan.maxHeight, job.plan.maxBitDepth,
    job.plan.maxChannels, job.plan.loudnessSourceChannels], ∀ n, c = some n → 0 < n ∧ n < 2 ^ 32
  scalarGains : ∀ x, job.plan.stereoGainDb = some x ∨ job.plan.nativeGainDb = some x →
    fl.isFinite x = true
  exactGains : ∀ g ∈ exactGains job.plan, fl.isFinite g.gainDb = true
  /-- The layouts are made by `AudioLayout::new`. -/
  layouts : ∀ g ∈ Playback.exactGains job.plan,
    ∃ channels channelMask, g.layout = AudioLayout.new channels channelMask
  sink : job.sink ≠ some []
  payloads : ∀ p, job.burnSets = some p ∨ job.burnAss = some p →
    ∃ data, p.read files = some data ∧ data ≠ []
  target : job.targetDurationSecs ≠ some 0

/-- `serde_json` hands the gains back. -/
def Json.HandsBack (json : Json fl) (gains : List (AudioLayoutGain fl)) : Prop :=
  ∃ text, json.toText gains = some text ∧ json.fromText text = some gains

theorem exactGains_length (plan : Plan fl) : (exactGains plan).length ≤ maxLayoutGains := by
  rw [← plan.loudnessGains.2]
  exact List.length_filterMap_le _ _

/-- The plan with its exact gains in the first slots. -/
def Plan.packed (plan : Plan fl) : Plan fl :=
  { plan with loudnessGains := packSlots (exactGains plan) (exactGains_length plan) }

/-- Packing keeps the gains and their order. -/
theorem exactGains_packed (plan : Plan fl) : exactGains plan.packed = exactGains plan := by
  show ((exactGains plan).map some ++ List.replicate _ none).filterMap id = exactGains plan
  rw [List.filterMap_append, List.filterMap_map]
  simp

theorem packSlots_congr {gains gains' : List (AudioLayoutGain fl)} (heq : gains = gains')
    (h : gains.length ≤ maxLayoutGains) (h' : gains'.length ≤ maxLayoutGains) :
    packSlots gains h = packSlots gains' h' := by
  subst heq
  rfl

theorem Plan.packed_packed (plan : Plan fl) : plan.packed.packed = plan.packed := by
  show { plan with loudnessGains := packSlots (Playback.exactGains plan.packed) _ } = plan.packed
  rw [packSlots_congr (exactGains_packed plan) _ (exactGains_length plan)]
  rfl

/-- The plans differ at most in the slots of their exact gains. -/
structure Plan.Same (p q : Plan fl) : Prop where
  plan : p.toRemuxPlan = q.toRemuxPlan
  stereoGainDb : p.stereoGainDb = q.stereoGainDb
  nativeGainDb : p.nativeGainDb = q.nativeGainDb
  loudnessSourceChannels : p.loudnessSourceChannels = q.loudnessSourceChannels
  exactGains : Playback.exactGains p = Playback.exactGains q

theorem Plan.packed_same (plan : Plan fl) : plan.packed.Same plan where
  plan := rfl
  stereoGainDb := rfl
  nativeGainDb := rfl
  loudnessSourceChannels := rfl
  exactGains := exactGains_packed plan

theorem layoutGains_exactGains (plan : Plan fl) :
    layoutGains (exactGains plan) = .ok plan.packed.loudnessGains := by
  rw [layoutGains, dif_pos (exactGains_length plan)]
  rfl

section
variable {files : Text → Option Bytes} {job : Job fl}

/-! ## The message round trip -/

theorem positive_getD {o : Option ℕ} (h : ∀ n, o = some n → 0 < n) : positive (o.getD 0) = o := by
  cases o with
  | none => rfl
  | some n => simp [positive, h n rfl]

theorem positive_wireIndex {o : Option ℕ} (h : ∀ n, o = some n → n < 2 ^ 32 - 1) :
    ((positive (wireIndex o)).map fun n => n - 1) = o := by
  cases o with
  | none => rfl
  | some n =>
    have hn := h n rfl
    have hfirst : asU32 n = n := Nat.mod_eq_of_lt (by omega)
    have hindex : wireIndex (some n) = n + 1 := by
      show asU32 (asU32 n + 1) = n + 1
      rw [hfirst]
      exact Nat.mod_eq_of_lt (by omega)
    simp [hindex, positive]

theorem filter_finite {o : Option fl.F64} (h : ∀ x, o = some x → fl.isFinite x = true) :
    ((some (o.getD fl.nan)).filter fun gain => fl.isFinite gain) = o := by
  cases o with
  | none => simp [Option.filter, fl.nan_not_finite]
  | some x => simp [Option.filter, h x rfl]

/-- A burn payload on the wire. -/
theorem wirePayload_eq {o : Option Payload}
    (h : ∀ p, o = some p → ∃ data, p.read files = some data ∧ data ≠ []) :
    wirePayload files o = .ok ((o.bind (Payload.read files)).getD []) ∧
      (if ((o.bind (Payload.read files)).getD []).isEmpty then none
        else some (Payload.bytes ((o.bind (Payload.read files)).getD []))) =
        (o.bind (Payload.read files)).map Payload.bytes := by
  cases o with
  | none => exact ⟨rfl, rfl⟩
  | some p =>
    obtain ⟨data, hread, hne⟩ := h p rfl
    have hempty : data.isEmpty = false := List.isEmpty_eq_false_iff.2 hne
    simp [wirePayload, hread, hempty]

/-- The message gives back the job: its gains in the first slots and its payloads as bytes. -/
theorem wire_round_trip (h : HubBuilt files job) (sessionId : Text) :
    ∃ msg, toStartSession files sessionId job = .ok msg ∧ fromStartSession msg = .ok
      { job with
        plan := job.plan.packed
        burnSets := (job.burnSets.bind (Payload.read files)).map Payload.bytes
        burnAss := (job.burnAss.bind (Payload.read files)).map Payload.bytes } := by
  obtain ⟨plan, partSizes, startMs, sink, burnSets, burnAss, target⟩ := job
  obtain ⟨size, tailSizes, rfl⟩ := List.exists_cons_of_ne_nil h.parts
  obtain ⟨hsets, hsets'⟩ := wirePayload_eq fun p hp => h.payloads p (.inl hp)
  obtain ⟨hass, hass'⟩ := wirePayload_eq fun p hp => h.payloads p (.inr hp)
  simp only at hsets hass hsets' hass'
  refine ⟨_, by simp only [toStartSession, hsets, hass]; rfl, ?_⟩
  have hceiling (c : Option ℕ) (hc : c ∈ [plan.videoKbps, plan.maxHeight, plan.maxBitDepth,
      plan.maxChannels, plan.loudnessSourceChannels]) : positive (c.getD 0) = c :=
    positive_getD fun n hn => (h.ceilings c hc n hn).1
  have hgains : ((exactGains plan).map fun g =>
      (⟨g.layout.channels, g.layout.channelMask, g.gainDb⟩ : WireGain fl)).map (fun g =>
        (⟨.new g.channels g.channelMask, g.gainDb⟩ : AudioLayoutGain fl)) = exactGains plan := by
    rw [List.map_map]
    refine (List.map_congr_left fun g hg => ?_).trans (List.map_id _)
    show (⟨.new g.layout.channels g.layout.channelMask, g.gainDb⟩ : AudioLayoutGain fl) = g
    obtain ⟨channels, channelMask, hlayout⟩ := h.layouts g hg
    rw [hlayout, layout_new_new, ← hlayout]
  have htracks : asU32 plan.audioTrack = plan.audioTrack ∧
      asU32 plan.videoTrack = plan.videoTrack := by
    have htracks : plan.audioTrack < 2 ^ 32 - 1 ∧ plan.videoTrack < 2 ^ 32 - 1 := h.tracks
    exact ⟨Nat.mod_eq_of_lt (by omega), Nat.mod_eq_of_lt (by omega)⟩
  have hsink : (if (sink.getD []).isEmpty then none else some (sink.getD [])) = sink := by
    cases sink with
    | none => rfl
    | some s =>
      have hne : s ≠ [] := fun heq => h.sink (by rw [heq])
      simp [hne]
  have htarget : positive (target.getD 0) = target := by
    refine positive_getD fun n hn => Nat.pos_of_ne_zero ?_
    rintro rfl
    exact h.target hn
  simp only [fromStartSession, hgains, layoutGains_exactGains, bind, Except.bind, pure,
    Except.pure, parseMode_modeArg, videoTargetFromStr_asStr, audioTargetFromStr_asStr,
    segmentFormatFromStr_asStr, htracks.1, htracks.2, hsets', hass', hsink, htarget,
    Option.bind_some, hceiling plan.videoKbps (by simp), hceiling plan.maxHeight (by simp),
    hceiling plan.maxBitDepth (by simp), hceiling plan.maxChannels (by simp),
    hceiling plan.loudnessSourceChannels (by simp),
    positive_wireIndex fun n hn => h.burns n (.inl hn),
    positive_wireIndex fun n hn => h.burns n (.inr hn),
    filter_finite fun x hx => h.scalarGains x (.inl hx),
    filter_finite fun x hx => h.scalarGains x (.inr hx)]
  rfl

end

end Kahawai.Playback
