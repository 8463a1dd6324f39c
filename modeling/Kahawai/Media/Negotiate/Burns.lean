import Kahawai.Media.Negotiate.Encodes

/-!
# What a plan burns

A wish to burn a subtitle vetoes direct play and copies. What is left is an encode, and
whether there is one depends on the targets and, since the segment format with the fewer
dropped streams wins, on the audio.

Results:
* `plan_video_of_burnActive`: with such a wish the plan encodes video if and only if
  `burnCarried` holds.
* `single_burn_iff`: at most one track is burned, and a picked one is that track, if and
  only if no encode carries the burns or only one of the three kinds is wished.
* `not_single_burn`: an image and a script of one film.
-/

namespace Kahawai.Media.Negotiate

open Kahawai.Core

theorem isAss_of_isImage {format : String} (h : isImage format = true) : isAss format = false := by
  simp only [isImage, List.mem_cons, List.not_mem_nil, or_false, decide_eq_true_eq] at h
  rcases h with rfl | rfl | rfl <;> decide

namespace Inputs

variable (g : Gstreamer) (x : Inputs)

/-! ## The encode that carries a burn -/

/-- The client plays a target of the format that the executor encodes, and the source can
    be decoded. -/
def encodable (format : SegmentFormat) : Bool :=
  (videoLadder format).any x.takesVideo && x.video.any fun s => g.decodable "video" s.codec

def copiesAudio (format : SegmentFormat) : Bool :=
  x.audio.any fun s => x.audioClientOk && g.muxable "audio" s.codec format

def encodesAudio (targets : List String) (format : SegmentFormat) : Bool :=
  (audioLadder format).any (x.takesAudio targets) && x.audio.any fun s => g.decodable "audio" s.codec

/-- The source has an audio track that the format cannot deliver. -/
def dropsAudio (targets : List String) (format : SegmentFormat) : Bool :=
  x.audio.isSome && !x.copiesAudio g format && !x.encodesAudio g targets format

/-- TS would take an audio track that clients cannot read from it. -/
def tsSilent : Bool :=
  x.copiesAudio g .ts && x.audio.any fun s => s.codec ∈ ["opus", "flac", "vorbis"]

/-- An encode can carry a burn: to H.264, or in fMP4 where TS, without a picture, does not
    deliver more audio. -/
def burnCarried : Bool :=
  x.encodable g .ts ||
    (x.encodable g .fmp4 && (x.tsSilent g || !x.dropsAudio g x.fullAudioTargets .fmp4 ||
      x.dropsAudio g x.localAudioTargets .ts))

variable {g x} {f : Bool} {format : SegmentFormat}

theorem direct_of_burnActive (h : x.burnActive = true) : x.direct f = false := by
  have hwanted : x.burnWanted = true ∨ x.assBurnWanted = true ∨ x.forcedBurn.isNone = false := by
    cases hforced : x.forcedBurn with
    | some p => exact Or.inr (Or.inr rfl)
    | none =>
      cases hass : x.assBurnWanted with
      | true => exact Or.inr (Or.inl rfl)
      | false =>
        refine Or.inl ?_
        simp only [burnActive, burnSubtitle, forcedEmbedded, hforced, burnAss, hass, Option.isSome_none,
          Bool.not_false, if_true, Bool.or_false, Option.none_or] at h
        split at h
        · rename_i hcapable
          rw [Bool.and_comm] at hcapable
          simp only [burnWanted, hcapable, h, Bool.and_self]
        · cases h
  unfold direct
  rcases hwanted with h | h | h <;> simp [h]

theorem videoMode_of_burnActive (h : x.burnActive = true) :
    x.videoMode g format = if x.encodable g format then .encode else .off := by
  unfold videoMode encodable
  cases hv : x.video with
  | none => simp
  | some v => simp [h]

theorem audioMode_eq_off_iff : x.audioMode g false format = .off ↔
    x.copiesAudio g format = false ∧
      x.encodesAudio g (x.audioTargets (x.videoMode g format)) format = false := by
  unfold audioMode copiesAudio encodesAudio
  dsimp only
  split_ifs with hcopy hencode
  · simp only [Bool.not_false, Bool.true_and] at hcopy
    simp [hcopy]
  · simp [hencode]
  · simp only [Bool.not_false, Bool.true_and, Bool.not_eq_true] at hcopy hencode
    exact ⟨fun _ => ⟨hcopy, hencode⟩, fun _ => rfl⟩

theorem audioMode_eq_copy_iff :
    x.audioMode g false format = .copy ↔ x.copiesAudio g format = true := by
  unfold audioMode copiesAudio
  dsimp only
  split_ifs with hcopy hencode
  · simpa using hcopy
  all_goals
    simp only [Bool.not_false, Bool.true_and, Bool.not_eq_true] at hcopy
    simp [hcopy]

/-- The dropped streams of a candidate. -/
theorem key_fst : (x.candidate g false format).key.1 =
    if x.dropsAudio g (x.audioTargets (x.videoMode g format)) format then 1 else 0 := by
  unfold candidate dropsAudio
  refine if_congr ?_ rfl rfl
  simp [audioMode_eq_off_iff, and_assoc]

theorem tsDeliversPlayableAudio_eq :
    x.tsDeliversPlayableAudio (x.candidate g false .ts) = !x.tsSilent g := by
  unfold tsDeliversPlayableAudio tsSilent
  have haudio : (x.candidate g false .ts).audio = x.audioMode g false .ts := rfl
  rw [haudio]
  cases hmode : x.audioMode g false .ts with
  | copy => simp [audioMode_eq_copy_iff.mp hmode]
  | encode =>
    have hnot : x.copiesAudio g .ts = false := by
      by_contra hcopy
      cases hmode.symm.trans (audioMode_eq_copy_iff.mpr (Bool.not_eq_false _ ▸ hcopy))
    simp [hnot]
  | off => simp [(audioMode_eq_off_iff.mp hmode).1]

theorem encodable_fmp4 (h : x.encodable g .ts = true) : x.encodable g .fmp4 = true := by
  simp only [encodable, videoLadder, List.any_cons, List.any_nil, Bool.or_false, Bool.and_eq_true,
    Bool.or_eq_true] at h ⊢
  exact ⟨Or.inl h.1, h.2⟩

theorem encodesAudio_fmp4 {targets : List String} (h : x.encodesAudio g targets .ts = true) :
    x.encodesAudio g targets .fmp4 = true := by
  simp only [encodesAudio, audioLadder, List.any_cons, List.any_nil, Bool.or_false, Bool.and_eq_true,
    Bool.or_eq_true] at h ⊢
  exact ⟨Or.inl h.1, h.2⟩

/-- The video of the candidate that is chosen for a plan that wishes to burn. -/
theorem chosen_video_of_burnActive (h : x.burnActive = true) :
    (x.chosen g false).video = if x.burnCarried g then .encode else .off := by
  have hmode : ∀ format, (x.candidate g false format).video =
      if x.encodable g format then .encode else .off := fun _ => videoMode_of_burnActive h
  unfold chosen
  cases hts : x.encodable g .ts with
  | true =>
    have hf4 := encodable_fmp4 hts
    have hcarried : x.burnCarried g = true := by simp [burnCarried, hts]
    rw [hcarried, hmode]
    cases x.format g false
    · rw [hts]
    · rw [hf4]
  | false =>
    cases hf4 : x.encodable g .fmp4 with
    | false =>
      have hcarried : x.burnCarried g = false := by simp [burnCarried, hts, hf4]
      rw [hcarried, hmode]
      cases x.format g false
      · rw [hts]
      · rw [hf4]
    | true =>
      have htsOff : (x.candidate g false .ts).video = .off := by rw [hmode, hts]; rfl
      have hf4Encode : (x.candidate g false .fmp4).video = .encode := by rw [hmode, hf4]; rfl
      have hsome : x.video.isSome = true := by
        simp only [encodable, Bool.and_eq_true] at hf4
        cases hv : x.video with
        | none =>
          rw [hv] at hf4
          cases hf4.2
        | some v => rfl
      have htsCost : (x.candidate g false .ts).key.2 = .unplayable := by
        change x.costOf false (x.candidate g false .ts).video _ = _
        rw [htsOff]
        simp [costOf, direct_of_burnActive h, hsome]
      have hf4Cost : (x.candidate g false .fmp4).key.2 = .videoEncode := by
        change x.costOf false (x.candidate g false .fmp4).video _ = _
        rw [hf4Encode]
        simp [costOf, direct_of_burnActive h]
      have htsKey : (x.candidate g false .ts).key.1 =
          if x.dropsAudio g x.localAudioTargets .ts then 1 else 0 := by
        have hlocal : x.audioTargets (x.videoMode g .ts) = x.localAudioTargets := by
          rw [show x.videoMode g .ts = .off from htsOff]
          rfl
        rw [key_fst, hlocal]
      have hf4Key : (x.candidate g false .fmp4).key.1 =
          if x.dropsAudio g x.fullAudioTargets .fmp4 then 1 else 0 := by
        have hfull : x.audioTargets (x.videoMode g .fmp4) = x.fullAudioTargets := by
          rw [show x.videoMode g .fmp4 = .encode from hf4Encode]
          rfl
        rw [key_fst, hfull]
      have hformat : x.format g false = if x.burnCarried g then .fmp4 else .ts := by
        have hh264 : x.tsDeliversH264 (x.candidate g false .ts) = true := by
          unfold tsDeliversH264
          rw [htsOff]
        unfold format burnCarried
        dsimp only
        rw [hh264, tsDeliversPlayableAudio_eq, hts, hf4, keyBefore, htsCost, hf4Cost, htsKey, hf4Key]
        cases x.tsSilent g <;> cases x.dropsAudio g x.fullAudioTargets .fmp4 <;>
          cases x.dropsAudio g x.localAudioTargets .ts <;> rfl
      rw [hformat, hmode]
      cases x.burnCarried g
      · rw [if_neg Bool.false_ne_true, hts]
      · rw [if_pos rfl, hf4]

/-- With a wish to burn, the plan encodes video or delivers none. -/
theorem plan_video_of_burnActive (h : x.burnActive = true) :
    (x.plan g false).video = if x.burnCarried g then .encode else .off := by
  have hchosen := chosen_video_of_burnActive (g := g) h
  have hshort : x.copyTooLong g false = false := by
    unfold copyTooLong
    rw [hchosen]
    cases x.profile.targetDuration.ceilingSecs with
    | none => rfl
    | some ceiling =>
      change (decide (_ = StreamMode.copy) && _) = false
      split_ifs <;> rfl
  change x.plannedVideo g false = _
  rw [plannedVideo, hshort, if_neg Bool.false_ne_true, hchosen]

end Inputs

/-- Forcing audio does not change this. -/
theorem video_of_burnActive {g : Gstreamer} {x : Inputs} (h : x.burnActive = true)
    (forceAudioEncode : Bool) : (negotiateForExecutors g x forceAudioEncode).plan.video =
      if x.burnCarried g then .encode else .off := by
  unfold negotiateForExecutors
  cases hforce : forceAudioEncode && x.honoursForce g with
  | false => exact Inputs.plan_video_of_burnActive h
  | true =>
    have hunchanged : x.videoUnchanged g = true := by
      simp only [Inputs.honoursForce, Bool.and_eq_true] at hforce
      exact hforce.2.1.1.2
    unfold Inputs.videoUnchanged at hunchanged
    have hdirect : (x.impl g false).direct = false := Inputs.direct_of_burnActive h
    rw [hdirect, if_neg Bool.false_ne_true, decide_eq_true_eq] at hunchanged
    exact hunchanged.trans (Inputs.plan_video_of_burnActive h)

/-! ## One burn -/

/-- A subtitle that is composited into the picture. -/
inductive Burned
  | image (i : ℕ)
  | imageSidecar (i : ℕ)
  | ass (i : ℕ)
  | assSidecar (i : ℕ)
  deriving DecidableEq

/-- All burns of a plan. -/
def SourcePlan.burned (p : SourcePlan) : List Burned :=
  (p.plan.burnSubtitle.map Burned.image).toList ++ (p.burnSidecar.map Burned.imageSidecar).toList ++
    (p.plan.burnAss.map Burned.ass).toList ++ (p.burnAssSidecar.map Burned.assSidecar).toList

def BurnPick.burned : BurnPick → Burned
  | .embedded i => .image i
  | .sidecar i => .imageSidecar i

namespace Inputs

variable {x : Inputs}

/-- An image track that the engine accepts: embedded, or a VobSub sidecar. -/
def Accepted (x : Inputs) (pick : BurnPick) : Prop :=
  x.burnCapable = true ∧
    match pick with
    | .embedded i => ∃ s, x.info.subtitles[i]? = some s ∧ isImage s.format = true
    | .sidecar i => x.info.externalSubtitles[i]? = some "vobsub"

/-- `burn_sidecar`, before the encode that would carry it. -/
def forcedSidecar (x : Inputs) : Option ℕ :=
  match x.forcedBurn with
  | some (.sidecar i) => some i
  | _ => none

/-- The kinds of burn that are wished: an embedded image, picked or the first that the
    client cannot composite; a picked sidecar; a script. -/
def wishes (x : Inputs) : ℕ :=
  (x.forcedEmbedded.isSome || x.burnWanted).toNat + x.forcedSidecar.isSome.toNat +
    x.assBurnWanted.toNat

/-- The formats that `forced_burn` matches. -/
theorem forcesBurn_eq {pick : BurnPick} : x.forcesBurn pick =
    (x.burnCapable && match pick with
      | .embedded i => (x.info.subtitles[i]?).any fun s => isImage s.format
      | .sidecar i => x.info.externalSubtitles[i]? = some "vobsub") := by
  unfold forcesBurn
  cases pick with
  | embedded i =>
    have hpicked : x.picked (.embedded i) = (x.info.subtitles[i]?).map SubtitleStream.format := rfl
    rw [hpicked]
    obtain hs | ⟨s, hs⟩ := Option.eq_none_or_eq_some (x.info.subtitles[i]?)
    · simp [hs]
    · simp only [hs, Option.map_some, Option.any_some]
      split
      · rename_i hformat
        simp [isImage, Option.some.inj hformat]
      · rename_i hformat
        simp [isImage, Option.some.inj hformat]
      · rename_i hformat
        simp [isImage, Option.some.inj hformat]
      · rename_i hpgs hdvdsub hvobsub
        have hnot : isImage s.format = false := by
          simp only [isImage, List.mem_cons, List.not_mem_nil, or_false, decide_eq_false_iff_not, not_or]
          exact ⟨fun h => hpgs (h ▸ rfl), fun h => hvobsub (h ▸ rfl), fun h => hdvdsub (h ▸ rfl)⟩
        rw [hnot, Bool.and_false]
  | sidecar i =>
    have hpicked : x.picked (.sidecar i) = x.info.externalSubtitles[i]? := rfl
    rw [hpicked]
    split
    · rename_i hformat
      simp [hformat]
    · rename_i hformat
      simp [hformat]
    · rename_i hformat
      simp [hformat]
    · rename_i hpgs hdvdsub hvobsub
      dsimp only
      rw [decide_eq_false hvobsub, Bool.and_false]

theorem forcesBurn_iff {pick : BurnPick} : x.forcesBurn pick = true ↔ x.Accepted pick := by
  unfold Accepted
  rw [forcesBurn_eq, Bool.and_eq_true]
  cases pick <;> simp [Option.any_eq_true]

/-- What the first image is. -/
theorem of_firstImage {i : ℕ} (h : x.firstImage = some i) :
    ∃ s, x.info.subtitles[i]? = some s ∧ isImage s.format = true ∧ x.hasOcr i = false := by
  obtain ⟨hlt, hfound, -⟩ := List.findIdx?_eq_some_iff_getElem.mp h
  rw [List.getElem_zipIdx] at hfound
  simp only [Bool.and_eq_true, Bool.not_eq_true', Nat.zero_add] at hfound
  rw [List.length_zipIdx] at hlt
  exact ⟨x.info.subtitles[i], List.getElem?_eq_getElem hlt, hfound⟩

/-- An embedded burn is of an image. -/
theorem of_burnSubtitle {i : ℕ} (h : x.burnSubtitle = some i) :
    ∃ s, x.info.subtitles[i]? = some s ∧ isImage s.format = true := by
  unfold burnSubtitle at h
  rcases Option.or_eq_some_iff.mp h with hforced | ⟨-, hfirst⟩
  · unfold forcedEmbedded at hforced
    split at hforced
    · rename_i j hpick
      cases hforced
      have haccepted := forcesBurn_iff.mp (Option.filter_eq_some_iff.mp hpick).2
      exact haccepted.2
    · cases hforced
  · split at hfirst
    · obtain ⟨s, hs, himage, -⟩ := of_firstImage hfirst
      exact ⟨s, hs, himage⟩
    · cases hfirst

/-- An embedded script burn is of a script, for which the ladder asks for a burn. -/
theorem of_burnAss {i : ℕ} (h : x.burnAss.1 = some i) :
    x.ass.choose x.profile = some .burn ∧
      ∃ s, x.info.subtitles[i]? = some s ∧ isAss s.format = true := by
  unfold burnAss at h
  cases hwanted : x.assBurnWanted with
  | false =>
    rw [hwanted] at h
    cases h
  | true =>
    simp only [hwanted, Bool.not_true, Bool.false_eq_true, if_false] at h
    have hchoose : x.ass.choose x.profile = some .burn := by
      simp only [assBurnWanted, Bool.and_eq_true, decide_eq_true_eq] at hwanted
      exact hwanted.1
    refine ⟨hchoose, ?_⟩
    split at h
    · rename_i j hpick
      cases h
      have hass := (Option.filter_eq_some_iff.mp hpick).2
      obtain ⟨format, hformat, hisAss⟩ := (Option.any_eq_true _ _).mp hass
      obtain ⟨s, hs, rfl⟩ := Option.map_eq_some_iff.mp hformat
      exact ⟨s, hs, hisAss⟩
    · cases h
    · split at h
      · rename_i j hfound
        cases h
        obtain ⟨hlt, hisAss, -⟩ := List.findIdx?_eq_some_iff_getElem.mp hfound
        exact ⟨x.info.subtitles[i], List.getElem?_eq_getElem hlt, hisAss⟩
      · cases h

theorem isSome_burnSubtitle :
    x.burnSubtitle.isSome = (x.forcedEmbedded.isSome || x.burnWanted) := by
  unfold burnSubtitle burnWanted
  rw [Option.isSome_or]
  congr 1
  cases x.profile.graphicsOverlay <;> cases x.burnCapable <;> simp

/-- A script is burned from the file or from a sidecar. -/
theorem isSome_burnAss :
    x.burnAss.1.isSome.toNat + x.burnAss.2.isSome.toNat = x.assBurnWanted.toNat := by
  unfold burnAss
  cases hwanted : x.assBurnWanted with
  | false => rfl
  | true =>
    simp only [Bool.not_true, Bool.false_eq_true, if_false]
    split
    · rfl
    · rfl
    · split
      · rfl
      · rename_i hembedded
        have hsidecar : (x.info.externalSubtitles.findIdx? isAss).isSome = true := by
          rw [List.findIdx?_isSome]
          simp only [assBurnWanted, Bool.and_eq_true, Bool.or_eq_true] at hwanted
          rcases hwanted.2 with hany | hany
          · have hnone : (x.info.subtitles.findIdx? fun s => isAss s.format).isSome =
                x.info.subtitles.any fun s => isAss s.format := List.findIdx?_isSome
            rw [hembedded, hany] at hnone
            cases hnone
          · exact hany
        simp [hsidecar]

theorem isSome_forcedBurn :
    x.forcedBurn.isSome = (x.forcedEmbedded.isSome || x.forcedSidecar.isSome) := by
  unfold forcedEmbedded forcedSidecar
  cases x.forcedBurn with
  | none => rfl
  | some pick => cases pick <;> rfl

theorem burnActive_iff : x.burnActive = true ↔ 0 < x.wishes := by
  have hass := x.isSome_burnAss
  unfold burnActive wishes
  rw [isSome_forcedBurn, isSome_burnSubtitle, ← hass]
  cases x.forcedEmbedded.isSome <;> cases x.burnWanted <;> cases x.forcedSidecar.isSome <;>
    cases x.burnAss.1.isSome <;> cases x.burnAss.2.isSome <;> decide

/-- The burns of a plan are those that are wished, if an encode carries them. -/
theorem length_burned (g : Gstreamer) (x : Inputs) (forceAudioEncode : Bool) :
    (negotiateForExecutors g x forceAudioEncode).burned.length =
      if x.burnCarried g then x.wishes else 0 := by
  have hlength : (negotiateForExecutors g x forceAudioEncode).burned.length =
      if (negotiateForExecutors g x forceAudioEncode).plan.video = .encode then x.wishes else 0 := by
    unfold negotiateForExecutors
    generalize (forceAudioEncode && x.honoursForce g) = f
    have hass := x.isSome_burnAss
    have hsidecar : (x.impl g f).burnSidecar =
        if (x.plan g f).video = .encode then x.forcedSidecar else none := by
      unfold impl forcedSidecar
      dsimp only
      cases x.forcedBurn with
      | none => simp
      | some pick => cases pick <;> simp
    have hlen : ∀ {α β : Type} (o : Option α) (k : α → β), (o.map k).toList.length = o.isSome.toNat := by
      intro α β o k
      cases o <;> rfl
    unfold SourcePlan.burned
    rw [List.length_append, List.length_append, List.length_append, hlen, hlen, hlen, hlen, hsidecar]
    unfold wishes
    rw [← isSome_burnSubtitle, ← hass]
    change (if (x.plan g f).video = .encode then x.burnSubtitle else none).isSome.toNat + _ +
      (if (x.plan g f).video = .encode then x.burnAss.1 else none).isSome.toNat +
      (if (x.plan g f).video = .encode then x.burnAss.2 else none).isSome.toNat = _
    have himpl : (x.impl g f).plan = x.plan g f := rfl
    rw [himpl]
    split_ifs
    · omega
    · rfl
  rw [hlength]
  by_cases hactive : x.burnActive = true
  · rw [video_of_burnActive hactive]
    cases x.burnCarried g <;> rfl
  · have hnone : x.wishes = 0 := by
      rw [burnActive_iff] at hactive
      omega
    rw [hnone]
    split_ifs <;> rfl

end Inputs

/-- At most one track is burned, and a pick that the engine accepts is the one, if the plan
    encodes video. -/
def SingleBurn (x : Inputs) (p : SourcePlan) : Prop :=
  p.burned.length ≤ 1 ∧ ∀ pick, x.burnPick = some pick → x.Accepted pick → p.plan.video = .encode →
    p.burned = [pick.burned]

/-- What is burned of a pick. -/
theorem burned_of_accepted {g : Gstreamer} {x : Inputs} {forceAudioEncode : Bool} {pick : BurnPick}
    (hpick : x.burnPick = some pick) (haccepted : x.Accepted pick)
    (hencode : (negotiateForExecutors g x forceAudioEncode).plan.video = .encode) :
    pick.burned ∈ (negotiateForExecutors g x forceAudioEncode).burned := by
  have hforced : x.forcedBurn = some pick := by
    rw [Inputs.forcedBurn, hpick]
    exact Option.filter_some_pos (Inputs.forcesBurn_iff.mpr haccepted)
  revert hencode
  unfold negotiateForExecutors
  generalize (forceAudioEncode && x.honoursForce g) = f
  intro hencode
  have hvideo : (x.plan g f).video = .encode := hencode
  unfold SourcePlan.burned
  cases pick with
  | embedded i =>
    have hburn : (x.impl g f).plan.burnSubtitle = some i := by
      change (if (x.plan g f).video = .encode then x.burnSubtitle else none) = _
      rw [if_pos hvideo, Inputs.burnSubtitle, Inputs.forcedEmbedded, hforced]
      rfl
    simp [hburn, BurnPick.burned]
  | sidecar i =>
    have hburn : (x.impl g f).burnSidecar = some i := by
      unfold Inputs.impl
      dsimp only
      rw [hforced]
      exact if_pos hvideo
    simp [hburn, BurnPick.burned]

/-- A plan burns at most one track, and a picked one is that track, if and only if no encode
    carries the burns, or at most one kind of burn is wished. -/
theorem single_burn_iff (g : Gstreamer) (x : Inputs) (forceAudioEncode : Bool) :
    SingleBurn x (negotiateForExecutors g x forceAudioEncode) ↔
      (x.burnCarried g = true → x.wishes ≤ 1) := by
  have hlength := Inputs.length_burned g x forceAudioEncode
  constructor
  · intro ⟨hone, _⟩ hcarried
    rwa [hlength, hcarried, if_pos rfl] at hone
  · intro hwishes
    have hone : (negotiateForExecutors g x forceAudioEncode).burned.length ≤ 1 := by
      rw [hlength]
      split_ifs with hcarried
      · exact hwishes hcarried
      · exact Nat.zero_le 1
    refine ⟨hone, fun pick hpick haccepted hencode => ?_⟩
    have hmem := burned_of_accepted hpick haccepted hencode
    obtain ⟨b, hb⟩ := List.length_eq_one_iff.mp
      (Nat.le_antisymm hone (List.length_pos_of_mem hmem))
    rw [hb] at hmem ⊢
    rw [List.mem_singleton.mp hmem]

/-- A film with an image track and a script, and a fleet that burns either, which the viewer
    prefers. -/
def mixedFilm : Inputs :=
  { longGopFilm with
    profile := { CapabilityProfile.default with audio := ["aac"] }
    info := { longGopFilm.info with
      subtitles := [⟨"pgs", some "en"⟩, ⟨"ass", some "en"⟩]
      externalSubtitles := ["vobsub"] }
    burnCapable := true
    ass := ⟨[.burn, .flatten, .overlay], true, false⟩
    videoTargets := ["h264"]
    fullAudioTargets := ["aac"] }

/-- Both are burned; and where the viewer picks the sidecar, that is burned on top of them. -/
theorem not_single_burn :
    (negotiateForExecutors sampleGstreamer mixedFilm false).burned = [.image 0, .ass 1] ∧
    (negotiateForExecutors sampleGstreamer { mixedFilm with burnPick := some (.sidecar 0) } false).burned =
      [.image 0, .imageSidecar 0, .ass 1] ∧
    ¬ SingleBurn mixedFilm (negotiateForExecutors sampleGstreamer mixedFilm false) := by
  have hburned : (negotiateForExecutors sampleGstreamer mixedFilm false).burned = [.image 0, .ass 1] := by
    decide
  refine ⟨hburned, by decide, fun hsingle => ?_⟩
  have hone := hsingle.1
  rw [hburned] at hone
  exact absurd hone (by decide)

end Kahawai.Media.Negotiate
