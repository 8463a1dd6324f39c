import Kahawai.Media.Negotiate.Burns

/-!
# Subtitles and playability

Without an explicit pick, a subtitle that the client cannot show is burned, whether or not
there is an encode to burn it into.

Results:
* `subtitles_harmless_iff`: a source that plays without its subtitles plays with them, and
  a track that is not burned for want of an encode is reported as unavailable, if and only
  if nothing is to be burned or an encode carries it.
* `not_subtitles_harmless`: a film that would be copied, and a fleet without encoders.
-/

namespace Kahawai.Media.Negotiate

open Kahawai.Core

namespace Inputs

variable {g : Gstreamer} {x : Inputs} {f : Bool} {format : SegmentFormat}

/-- The same source without subtitle streams and sidecars. -/
def withoutSubtitles (x : Inputs) : Inputs :=
  { x with info := { x.info with subtitles := [], externalSubtitles := [] } }

/-- What remains of a source whose picture cannot be delivered: its audio, from either
    format. -/
def audioDelivered (g : Gstreamer) (x : Inputs) : Bool :=
  x.copiesAudio g .fmp4 || x.encodesAudio g x.localAudioTargets .fmp4 ||
    (x.copiesAudio g .ts && !x.tsSilent g)

/-- The wish to burn leaves something to play. -/
def burnDelivered (g : Gstreamer) (x : Inputs) : Bool :=
  if x.video.isSome then x.burnCarried g else x.audioDelivered g

/-! ## Nothing to burn -/

theorem forcedBurn_of_no_pick (hpick : x.burnPick = none) : x.forcedBurn = none := by
  rw [forcedBurn, hpick]
  rfl

theorem burnActive_withoutSubtitles (hpick : x.burnPick = none) :
    x.withoutSubtitles.burnActive = false := by
  have hforced : x.withoutSubtitles.forcedBurn = none := forcedBurn_of_no_pick hpick
  have himage : x.withoutSubtitles.firstImage = none := rfl
  have hass : x.withoutSubtitles.assBurnWanted = false := Bool.and_false _
  unfold burnActive burnSubtitle forcedEmbedded burnAss
  rw [hforced, himage, hass]
  simp

/-- A burn is active if one of the two rules asks for it. -/
theorem burnActive_of_no_pick (hpick : x.burnPick = none) :
    x.burnActive = (x.burnWanted || x.assBurnWanted) := by
  have hforced := forcedBurn_of_no_pick hpick
  have hwishes : x.wishes = x.burnWanted.toNat + x.assBurnWanted.toNat := by
    unfold wishes forcedEmbedded forcedSidecar
    rw [hforced]
    simp
  have hiff := x.burnActive_iff
  rw [hwishes] at hiff
  cases hactive : x.burnActive <;> rw [hactive] at hiff <;>
    cases hburn : x.burnWanted <;> cases hass : x.assBurnWanted <;> simp [hburn, hass] at hiff ⊢

theorem direct_withoutSubtitles (hpick : x.burnPick = none) (hburn : x.burnActive = false) :
    x.withoutSubtitles.direct f = x.direct f := by
  rw [burnActive_of_no_pick hpick, Bool.or_eq_false_iff] at hburn
  have hforced := forcedBurn_of_no_pick hpick
  have hforced' : x.withoutSubtitles.forcedBurn = none := forcedBurn_of_no_pick hpick
  have hburn' : x.withoutSubtitles.burnWanted = false := Bool.and_false _
  have hass' : x.withoutSubtitles.assBurnWanted = false := Bool.and_false _
  unfold direct
  rw [hburn.1, hburn.2, hforced, hforced', hburn', hass']
  rfl

theorem candidate_withoutSubtitles (hpick : x.burnPick = none) (hburn : x.burnActive = false) :
    x.withoutSubtitles.candidate g f format = x.candidate g f format := by
  have hdirect : ∀ f, x.withoutSubtitles.direct f = x.direct f :=
    fun _ => direct_withoutSubtitles hpick hburn
  have hvideo : x.withoutSubtitles.videoMode g format = x.videoMode g format := by
    unfold videoMode
    rw [burnActive_withoutSubtitles hpick, hburn]
    rfl
  have haudio : x.withoutSubtitles.audioMode g f format = x.audioMode g f format := by
    unfold audioMode
    rw [hvideo]
    rfl
  have hcost : ∀ video audio, x.withoutSubtitles.costOf f video audio = x.costOf f video audio := by
    intro video audio
    unfold costOf
    rw [hdirect]
    rfl
  unfold candidate
  rw [hvideo, haudio]
  dsimp only
  rw [hcost]
  rfl

theorem plan_withoutSubtitles (hpick : x.burnPick = none) (hburn : x.burnActive = false) :
    x.withoutSubtitles.plan g f = x.plan g f := by
  have hcandidate : ∀ format, x.withoutSubtitles.candidate g f format = x.candidate g f format :=
    fun _ => candidate_withoutSubtitles hpick hburn
  have hformat : x.withoutSubtitles.format g f = x.format g f := by
    unfold Inputs.format
    rw [hcandidate, hcandidate]
    rfl
  have hchosen : x.withoutSubtitles.chosen g f = x.chosen g f := by
    unfold chosen
    rw [hformat, hcandidate]
  have hvideo : x.withoutSubtitles.plannedVideo g f = x.plannedVideo g f := by
    unfold plannedVideo copyTooLong
    rw [hchosen]
    rfl
  have hnone : x.burnSubtitle = none ∧ x.burnAss.1 = none := by
    simp only [burnActive, Bool.or_eq_false_iff] at hburn
    exact ⟨Option.not_isSome_iff_eq_none.mp (Bool.not_eq_true _ ▸ hburn.1.1.1),
      Option.not_isSome_iff_eq_none.mp (Bool.not_eq_true _ ▸ hburn.1.2)⟩
  have hnone' : x.withoutSubtitles.burnSubtitle = none ∧ x.withoutSubtitles.burnAss.1 = none := by
    have hburn' := burnActive_withoutSubtitles hpick
    simp only [burnActive, Bool.or_eq_false_iff] at hburn'
    exact ⟨Option.not_isSome_iff_eq_none.mp (Bool.not_eq_true _ ▸ hburn'.1.1.1),
      Option.not_isSome_iff_eq_none.mp (Bool.not_eq_true _ ▸ hburn'.1.2)⟩
  unfold plan
  rw [hchosen, hvideo, hformat, hnone.1, hnone.2, hnone'.1, hnone'.2]
  rfl

/-- Where nothing is to be burned, subtitles do not matter to the plan. -/
theorem cost_withoutSubtitles (hpick : x.burnPick = none) (hburn : x.burnActive = false)
    (forceAudioEncode : Bool) : (negotiateForExecutors g x.withoutSubtitles forceAudioEncode).cost =
      (negotiateForExecutors g x forceAudioEncode).cost := by
  have hdirect : ∀ f, x.withoutSubtitles.direct f = x.direct f :=
    fun _ => direct_withoutSubtitles hpick hburn
  have hplan : ∀ f, x.withoutSubtitles.plan g f = x.plan g f :=
    fun _ => plan_withoutSubtitles hpick hburn
  have hhonours : x.withoutSubtitles.honoursForce g = x.honoursForce g := by
    have hunchanged : x.withoutSubtitles.videoUnchanged g = x.videoUnchanged g := by
      unfold videoUnchanged
      rw [hplan, hplan]
      change (if x.withoutSubtitles.direct false then _ else _) = if x.direct false then _ else _
      rw [hdirect]
      rfl
    unfold honoursForce
    rw [hunchanged, hplan, hplan]
    rfl
  unfold negotiateForExecutors
  rw [hhonours]
  generalize (forceAudioEncode && x.honoursForce g) = f
  change x.withoutSubtitles.costOf f (x.withoutSubtitles.plan g f).video
    (x.withoutSubtitles.plan g f).audio = x.costOf f (x.plan g f).video (x.plan g f).audio
  rw [hplan]
  unfold costOf
  rw [hdirect]
  rfl

/-! ## Something to burn -/

/-- The audio of a source without video. -/
theorem audio_of_no_video (hv : x.video = none) :
    (x.plan g false).audio = .off ↔ x.audioDelivered g = false := by
  have hmode : ∀ format, x.videoMode g format = .off := by
    intro format
    unfold videoMode
    simp [hv]
  have hoff : ∀ format, (x.candidate g false format).audio = .off ↔
      x.copiesAudio g format = false ∧ x.encodesAudio g x.localAudioTargets format = false := by
    intro format
    have htargets : x.audioTargets (x.videoMode g format) = x.localAudioTargets := by
      rw [hmode]
      rfl
    rw [← htargets]
    exact audioMode_eq_off_iff
  have hkey : ∀ format, (x.candidate g false format).key.1 =
      if x.dropsAudio g x.localAudioTargets format then 1 else 0 := by
    intro format
    have htargets : x.audioTargets (x.videoMode g format) = x.localAudioTargets := by
      rw [hmode]
      rfl
    rw [key_fst, htargets]
  have hh264 : x.tsDeliversH264 (x.candidate g false .ts) = true := by
    unfold tsDeliversH264
    rw [show (x.candidate g false .ts).video = .off from hmode .ts]
  have hsome : ∀ format, x.copiesAudio g format = true ∨
      x.encodesAudio g x.localAudioTargets format = true → x.audio.isSome = true := by
    intro format hdelivers
    cases ha : x.audio with
    | some a => rfl
    | none => simp [copiesAudio, encodesAudio, ha] at hdelivers
  change (x.candidate g false (x.format g false)).audio = .off ↔ _
  cases hsilent : x.tsSilent g with
  | true =>
    have hformat : x.format g false = .fmp4 := by
      unfold Inputs.format
      dsimp only
      rw [hh264, tsDeliversPlayableAudio_eq, hsilent]
      rfl
    rw [hformat, hoff, audioDelivered, hsilent]
    simp
  | false =>
    have hformat : x.format g false =
        if keyBefore (x.candidate g false .fmp4).key (x.candidate g false .ts).key then .fmp4 else .ts := by
      unfold Inputs.format
      dsimp only
      rw [hh264, tsDeliversPlayableAudio_eq, hsilent]
      rfl
    have hbefore : ∀ format, (x.candidate g false format).audio = .off → x.audio.isSome = true →
        (x.candidate g false format).key.1 = 1 := by
      intro format haudio haudioSome
      obtain ⟨hcopies, hencodes⟩ := (hoff format).mp haudio
      rw [hkey, dropsAudio, haudioSome, hcopies, hencodes]
      rfl
    have hafter : ∀ format, (x.candidate g false format).audio ≠ .off →
        (x.candidate g false format).key.1 = 0 := by
      intro format haudio
      rw [Ne, hoff, not_and_or, Bool.not_eq_false, Bool.not_eq_false] at haudio
      rw [hkey, dropsAudio]
      rcases haudio with haudio | haudio <;> simp [haudio]
    rw [audioDelivered, hsilent]
    by_cases hf4 : (x.candidate g false .fmp4).audio = .off
    · obtain ⟨hcopies, hencodes⟩ := (hoff .fmp4).mp hf4
      have hencodesTs : x.encodesAudio g x.localAudioTargets .ts = false := by
        by_contra hts
        rw [encodesAudio_fmp4 (Bool.not_eq_false _ ▸ hts)] at hencodes
        cases hencodes
      rw [hcopies, hencodes]
      by_cases hts : (x.candidate g false .ts).audio = .off
      · have hcopiesTs := ((hoff .ts).mp hts).1
        rw [hformat, hcopiesTs]
        split_ifs
        · simp [hf4]
        · simp [hts]
      · have hnot : keyBefore (x.candidate g false .fmp4).key (x.candidate g false .ts).key = false := by
          have haudioSome : x.audio.isSome = true := by
            refine hsome .ts ?_
            rw [hoff, not_and_or, Bool.not_eq_false, Bool.not_eq_false] at hts
            exact hts
          rw [keyBefore, hbefore .fmp4 hf4 haudioSome, hafter .ts hts]
          rfl
        have hcopiesTs : x.copiesAudio g .ts = true := by
          by_contra hcopiesTs
          exact hts ((hoff .ts).mpr ⟨Bool.not_eq_true _ ▸ hcopiesTs, hencodesTs⟩)
        rw [hformat, hnot, hcopiesTs]
        simp [hts]
    · have hdelivers := hf4
      rw [hoff, not_and_or, Bool.not_eq_false, Bool.not_eq_false] at hdelivers
      have hdelivered : (x.copiesAudio g .fmp4 || x.encodesAudio g x.localAudioTargets .fmp4 ||
          (x.copiesAudio g .ts && !false)) = true := by
        rcases hdelivers with hdelivers | hdelivers <;> simp [hdelivers]
      rw [hdelivered, hformat]
      by_cases hts : (x.candidate g false .ts).audio = .off
      · have hbefore' : keyBefore (x.candidate g false .fmp4).key (x.candidate g false .ts).key = true := by
          rw [keyBefore, hafter .fmp4 hf4, hbefore .ts hts (hsome .fmp4 hdelivers)]
          rfl
        rw [hbefore']
        simp [hf4]
      · split_ifs
        · simp [hf4]
        · simp [hts]

/-- Audio that can be forced can be delivered. -/
theorem audioDelivered_of_encode (hv : x.video = none) (h : (x.plan g true).audio = .encode) :
    x.audioDelivered g = true := by
  have hencodes : ∀ format, x.audioMode g true format = .encode →
      x.encodesAudio g x.localAudioTargets format = true := by
    intro format haudio
    have hoff : x.videoMode g format = .off := by
      unfold videoMode
      simp [hv]
    unfold audioMode at haudio
    dsimp only at haudio
    rw [hoff] at haudio
    split_ifs at haudio with hcopy hencode
    exact hencode
  have hchosen : x.audioMode g true (x.format g true) = .encode := h
  have hfmp4 : x.encodesAudio g x.localAudioTargets .fmp4 = true := by
    have hformat := hencodes _ hchosen
    cases hf : x.format g true with
    | ts => exact encodesAudio_fmp4 (hf ▸ hformat)
    | fmp4 => exact hf ▸ hformat
  simp [audioDelivered, hfmp4]

/-- A plan that wishes to burn is playable exactly if the burn, or what remains, is. -/
theorem playable_iff_of_burnActive (h : x.burnActive = true) (forceAudioEncode : Bool) :
    (negotiateForExecutors g x forceAudioEncode).cost ≠ .unplayable ↔ x.burnDelivered g = true := by
  have hvideo := video_of_burnActive (g := g) h forceAudioEncode
  unfold burnDelivered
  cases hv : x.video with
  | some v =>
    revert hvideo
    unfold negotiateForExecutors
    generalize (forceAudioEncode && x.honoursForce g) = f
    intro hvideo
    change x.costOf f (x.plan g f).video (x.plan g f).audio ≠ .unplayable ↔ _
    change (x.plan g f).video = _ at hvideo
    rw [hvideo]
    cases x.burnCarried g <;> simp [costOf, direct_of_burnActive h, hv]
  | none =>
    have hoff : x.burnCarried g = false := by
      unfold burnCarried encodable
      simp [hv]
    rw [hoff, if_neg Bool.false_ne_true] at hvideo
    have hcost : ∀ f, (x.plan g f).video = .off →
        (x.costOf f (x.plan g f).video (x.plan g f).audio ≠ .unplayable ↔ (x.plan g f).audio ≠ .off) := by
      intro f hoff
      rw [hoff]
      cases (x.plan g f).audio <;> simp [costOf, direct_of_burnActive h, hv]
    revert hvideo
    unfold negotiateForExecutors
    cases hforce : forceAudioEncode && x.honoursForce g with
    | false =>
      intro hvideo
      refine (hcost false hvideo).trans ?_
      rw [Ne, audio_of_no_video hv]
      simp
    | true =>
      intro hvideo
      simp only [honoursForce, Bool.and_eq_true, decide_eq_true_eq] at hforce
      have hencode := hforce.2.1.1.1
      refine (hcost true hvideo).trans ?_
      rw [hencode, audioDelivered_of_encode hv hencode]
      simp

end Inputs

/-- The source can be played, and a track that would be burned and is not is reported as
    unavailable. -/
def SubtitlesHarmless (x : Inputs) (p : SourcePlan) : Prop :=
  p.cost ≠ .unplayable ∧ ∀ v ∈ p.subtitles,
    x.burnSubtitle = some v.index ∨ x.burnAss.1 = some v.index → p.plan.video ≠ .encode →
      v.tier = .unavailable

/-- A track that would be burned, without the encode. -/
theorem unavailable_of_not_encode {g : Gstreamer} {x : Inputs} (hpick : x.burnPick = none)
    (forceAudioEncode : Bool) : ∀ v ∈ (negotiateForExecutors g x forceAudioEncode).subtitles,
      x.burnSubtitle = some v.index ∨ x.burnAss.1 = some v.index →
        (negotiateForExecutors g x forceAudioEncode).plan.video ≠ .encode → v.tier = .unavailable := by
  unfold negotiateForExecutors
  generalize (forceAudioEncode && x.honoursForce g) = f
  intro v hv hburn hencode
  obtain ⟨⟨s, i⟩, hs, rfl⟩ := List.mem_map.mp hv
  have hstream : x.info.subtitles[i]? = some s := List.mem_zipIdx_iff_getElem?.mp hs
  have hvideo : (x.plan g f).video ≠ .encode := hencode
  have hsubtitle : (x.plan g f).burnSubtitle = none := if_neg hvideo
  have hass : (x.plan g f).burnAss = none := if_neg hvideo
  change (x.subtitleTier (x.plan g f) i s.format).1 = .unavailable
  rcases hburn with hburn | hburn
  · have hfirst : x.profile.graphicsOverlay = false ∧ x.firstImage = some i := by
      have hsome : x.burnSubtitle = some i := hburn
      unfold Inputs.burnSubtitle Inputs.forcedEmbedded at hsome
      rw [Inputs.forcedBurn_of_no_pick hpick, Option.none_or] at hsome
      split at hsome
      · rename_i hcapable
        simp only [Bool.and_eq_true, Bool.not_eq_true'] at hcapable
        exact ⟨hcapable.1, hsome⟩
      · cases hsome
    obtain ⟨t, ht, himage, hocr⟩ := Inputs.of_firstImage hfirst.2
    cases hstream.symm.trans ht
    unfold Inputs.subtitleTier
    rw [isAss_of_isImage himage, himage, hsubtitle, hfirst.1, hocr, hburn]
    rfl
  · obtain ⟨hchoose, t, ht, hisAss⟩ := Inputs.of_burnAss hburn
    cases hstream.symm.trans ht
    have hrender : x.profile.assRender = false := by
      by_contra hrender
      rw [AssPolicy.choose, if_pos (Bool.not_eq_false _ ▸ hrender)] at hchoose
      cases hchoose
    unfold Inputs.subtitleTier
    rw [hisAss, hass, hrender, hchoose, hburn]
    rfl

/-- A source that plays without its subtitles plays with them, and reports honestly what it
    does not burn, if and only if nothing is to be burned, or an encode carries it (a source
    without video: its audio is delivered). -/
theorem subtitles_harmless_iff (g : Gstreamer) (x : Inputs) (forceAudioEncode : Bool)
    (hpick : x.burnPick = none)
    (hplays : (negotiateForExecutors g x.withoutSubtitles forceAudioEncode).cost ≠ .unplayable) :
    SubtitlesHarmless x (negotiateForExecutors g x forceAudioEncode) ↔
      (x.burnWanted = true ∨ x.assBurnWanted = true → x.burnDelivered g = true) := by
  have hactive := Inputs.burnActive_of_no_pick hpick
  have hreport := unavailable_of_not_encode (g := g) hpick forceAudioEncode
  rw [← Bool.or_eq_true, ← hactive]
  by_cases hburn : x.burnActive = true
  · have hiff := Inputs.playable_iff_of_burnActive (g := g) hburn forceAudioEncode
    exact ⟨fun h _ => hiff.mp h.1, fun h => ⟨hiff.mpr (h hburn), hreport⟩⟩
  · have hcost := Inputs.cost_withoutSubtitles (g := g) hpick (Bool.not_eq_true _ ▸ hburn)
      forceAudioEncode
    exact ⟨fun _ h => absurd h hburn, fun _ => ⟨hcost ▸ hplays, hreport⟩⟩

/-- An H.264 film with an image track, for a client that cannot composite it. -/
def imageFilm : Inputs :=
  { longGopFilm with
    profile := { CapabilityProfile.default with audio := ["aac"] }
    info := { longGopFilm.info with
      video := [⟨"h264", 1080, some (24, 1), some 8, false, none, none, none, none⟩]
      subtitles := [⟨"pgs", some "en"⟩] }
    burnCapable := true }

/-- With an encoder the track is burned. -/
theorem subtitles_harmless_encoded :
    SubtitlesHarmless { imageFilm with videoTargets := ["h264"], fullAudioTargets := ["aac"] }
      (negotiateForExecutors sampleGstreamer
        { imageFilm with videoTargets := ["h264"], fullAudioTargets := ["aac"] } false) :=
  (subtitles_harmless_iff sampleGstreamer
    { imageFilm with videoTargets := ["h264"], fullAudioTargets := ["aac"] } false rfl
    (by decide)).mpr fun _ => by decide

/-- Without one, a film that would be copied is unplayable. -/
theorem not_subtitles_harmless :
    (negotiateForExecutors sampleGstreamer imageFilm.withoutSubtitles false).cost = .copy ∧
    (negotiateForExecutors sampleGstreamer imageFilm false).cost = .unplayable ∧
    ¬ SubtitlesHarmless imageFilm (negotiateForExecutors sampleGstreamer imageFilm false) := by
  have hcost : (negotiateForExecutors sampleGstreamer imageFilm false).cost = .unplayable := by
    decide
  exact ⟨by decide, hcost, fun hharmless => hharmless.1 hcost⟩

end Kahawai.Media.Negotiate
