import Kahawai.Media.Negotiate.Burns

/-!
# The subtitle verdicts and the plan

Each embedded subtitle stream gets a verdict: the tier by which it reaches the client. The
table of verdicts is written apart from the code that fills the plan.

Results:
* `verdicts_truthful_iff`: the verdicts agree with the plan, and none is unavailable that
  could be served, if and only if no stream is misreported: a timed text whose burn nobody
  plans, or a script that is passed over for the burn of another.
* `not_truthful_verdicts`: one stream of each kind.
-/

namespace Kahawai.Media.Negotiate

open Kahawai.Core

namespace Inputs

variable {g : Gstreamer} {x : Inputs} {i : ℕ} {format : String} {plan : RemuxPlan}

/-- A tier serves the stream: the client renders the script or its text, composites the
    overlay or the image, or reads the OCR text; or the plan burns the stream. -/
def Servable (x : Inputs) (plan : RemuxPlan) (i : ℕ) (format : String) : Prop :=
  (plan.burnSubtitle = some i ∨ plan.burnAss = some i) ∨
    if isAss format then ∃ tier ∈ [AssTier.native, .flatten, .overlay], x.ass.permits x.profile tier = true
    else if isImage format then x.profile.graphicsOverlay = true ∨ x.hasOcr i = true
    else x.profile.vttRender = true

/-- What the verdict of a stream says of the plan. -/
def TruthfulTier (x : Inputs) (plan : RemuxPlan) (i : ℕ) (format : String) (tier : SubtitleTier) :
    Prop :=
  (tier = .burn ↔ plan.burnSubtitle = some i ∨ plan.burnAss = some i) ∧
    (x.Servable plan i format → tier ≠ .unavailable)

/-! ## The condition -/

/-- The embedded script that a burn takes: the picked one, else the first. -/
def scriptToBurn (x : Inputs) : Option ℕ :=
  match x.pickedAss with
  | some (.embedded i) => some i
  | some (.sidecar _) => none
  | none => x.info.subtitles.findIdx? fun s => isAss s.format

/-- Timed text that the client does not render, where a box could burn a script. -/
def TextPromised (x : Inputs) (format : String) : Prop :=
  isAss format = false ∧ isImage format = false ∧ x.profile.vttRender = false ∧
    x.ass.burnCapable = true

/-- A script that the client could read as text or as an overlay, and that is not burned
    although the ladder stops at the burn of an embedded script; or one that could be overlaid
    and for which the order has no tier. -/
def ScriptPassedOver (g : Gstreamer) (x : Inputs) (i : ℕ) (format : String) : Prop :=
  isAss format = true ∧
    ((x.ass.choose x.profile = some .burn ∧ x.scriptToBurn.isSome = true ∧
        ¬ (x.scriptToBurn = some i ∧ x.burnCarried g = true) ∧
        (x.ass.permits x.profile .flatten = true ∨ x.ass.permits x.profile .overlay = true)) ∨
      (x.ass.choose x.profile = none ∧ x.ass.permits x.profile .overlay = true))

/-- `burn_ass_track` of a fleet and a client. -/
theorem burnAss_fst :
    x.burnAss.1 = if x.ass.choose x.profile = some .burn then x.scriptToBurn else none := by
  unfold burnAss
  cases hwanted : x.assBurnWanted with
  | true =>
    have hchoose : x.ass.choose x.profile = some .burn := by
      simp only [assBurnWanted, Bool.and_eq_true, decide_eq_true_eq] at hwanted
      exact hwanted.1
    rw [if_pos hchoose, Bool.not_true, if_neg Bool.false_ne_true]
    unfold scriptToBurn
    cases x.pickedAss with
    | none =>
      dsimp only
      cases x.info.subtitles.findIdx? fun s => isAss s.format <;> rfl
    | some pick => cases pick <;> rfl
  | false =>
    rw [Bool.not_false, if_pos rfl]
    split_ifs with hchoose
    · -- no script at all, so that there is none to pick
      have hnone : (x.info.subtitles.any fun s => isAss s.format) = false := by
        simp only [assBurnWanted, hchoose, decide_true, Bool.true_and, Bool.or_eq_false_iff] at hwanted
        exact hwanted.1
      unfold scriptToBurn
      split
      · rename_i j hpick
        have hass := (Option.filter_eq_some_iff.mp hpick).2
        obtain ⟨format, hformat, hisAss⟩ := (Option.any_eq_true _ _).mp hass
        obtain ⟨s, hs, rfl⟩ := Option.map_eq_some_iff.mp hformat
        rw [List.any_eq_false] at hnone
        exact absurd hisAss (hnone s (List.mem_of_getElem? hs))
      · rfl
      · exact (List.findIdx?_eq_none_iff.mpr fun s hs =>
          Bool.not_eq_true _ ▸ (List.any_eq_false.mp hnone s hs)).symm
    · rfl

/-! ## The burns of the plan -/

/-- The script burn of the returned plan. -/
theorem plan_burnAss (g : Gstreamer) (x : Inputs) (forceAudioEncode : Bool) :
    (negotiateForExecutors g x forceAudioEncode).plan.burnAss =
      if x.burnCarried g then x.burnAss.1 else none := by
  have hplan : (negotiateForExecutors g x forceAudioEncode).plan.burnAss =
      if (negotiateForExecutors g x forceAudioEncode).plan.video = .encode then x.burnAss.1 else none :=
    rfl
  rw [hplan]
  by_cases hactive : x.burnActive = true
  · rw [video_of_burnActive hactive]
    cases x.burnCarried g <;> rfl
  · have hnone : x.burnAss.1 = none := by
      simp only [burnActive, Bool.or_eq_true, not_or] at hactive
      exact Option.not_isSome_iff_eq_none.mp hactive.1.2
    rw [hnone, ite_self, ite_self]

/-- The image burn of the returned plan is of an image. -/
theorem of_plan_burnSubtitle {forceAudioEncode : Bool}
    (h : (negotiateForExecutors g x forceAudioEncode).plan.burnSubtitle = some i) :
    ∃ s, x.info.subtitles[i]? = some s ∧ isImage s.format = true := by
  have hplan : (negotiateForExecutors g x forceAudioEncode).plan.burnSubtitle =
      if (negotiateForExecutors g x forceAudioEncode).plan.video = .encode then x.burnSubtitle
      else none := rfl
  rw [hplan] at h
  split at h
  · exact of_burnSubtitle h
  · cases h

/-- The verdict of a stream. -/
theorem verdict_at {s : SubtitleStream} (g : Gstreamer) (forceAudioEncode : Bool)
    (hs : x.info.subtitles[i]? = some s) :
    (negotiateForExecutors g x forceAudioEncode).subtitles[i]? =
      some
        { index := i, format := s.format, language := s.language
          tier := (x.subtitleTier (negotiateForExecutors g x forceAudioEncode).plan i s.format).1
          note := (x.subtitleTier (negotiateForExecutors g x forceAudioEncode).plan i s.format).2 } := by
  unfold negotiateForExecutors
  generalize (forceAudioEncode && x.honoursForce g) = f
  change (x.info.subtitles.zipIdx.map _)[i]? = _
  rw [List.getElem?_map, List.getElem?_zipIdx, hs]
  simp only [Option.map_some, Nat.zero_add]
  rfl

/-! ## The three kinds of stream -/

/-- Timed text. -/
theorem truthful_text (hass : isAss format = false) (himage : isImage format = false)
    (hplan : ¬ (plan.burnSubtitle = some i ∨ plan.burnAss = some i)) :
    x.TruthfulTier plan i format (x.subtitleTier plan i format).1 ↔ ¬ x.TextPromised format := by
  unfold TruthfulTier Servable TextPromised subtitleTier
  rw [hass, himage]
  cases x.profile.vttRender <;> cases x.ass.burnCapable <;> simp [hplan]

/-- An image. -/
theorem truthful_image (himage : isImage format = true) (hplan : plan.burnAss ≠ some i) :
    x.TruthfulTier plan i format (x.subtitleTier plan i format).1 := by
  have hass := isAss_of_isImage himage
  unfold TruthfulTier Servable subtitleTier
  rw [hass, himage]
  simp only [Bool.false_eq_true, if_false, if_true, hplan, or_false]
  by_cases hburn : plan.burnSubtitle = some i
  · simp [hburn]
  · cases x.profile.graphicsOverlay <;> cases x.hasOcr i <;> cases x.burnSubtitle.isSome <;>
      simp [hburn]

/-- A script; the plan burns the one that is to be burned, if an encode carries it. -/
theorem truthful_ass (hass : isAss format = true) (hsubtitle : plan.burnSubtitle ≠ some i)
    (hplan : plan.burnAss = if x.burnCarried g then x.burnAss.1 else none) :
    x.TruthfulTier plan i format (x.subtitleTier plan i format).1 ↔
      ¬ x.ScriptPassedOver g i format := by
  have hburned : plan.burnAss = some i ↔
      x.ass.choose x.profile = some .burn ∧ x.scriptToBurn = some i ∧ x.burnCarried g = true := by
    rw [hplan, burnAss_fst]
    split_ifs with hcarried hchoose <;> simp [*]
  have hflatten : x.ass.choose x.profile = none → x.ass.permits x.profile .flatten = false := by
    intro hchoose
    unfold AssPolicy.choose at hchoose
    split_ifs at hchoose with hrender hvtt
    · simp at hchoose
    · exact Bool.not_eq_true _ ▸ hvtt
  have hserved : (∃ tier ∈ [AssTier.native, .flatten, .overlay], x.ass.permits x.profile tier = true) ↔
      x.profile.assRender = true ∨ x.ass.permits x.profile .flatten = true ∨
        x.ass.permits x.profile .overlay = true := by
    simp [AssPolicy.permits]
  unfold TruthfulTier Servable ScriptPassedOver subtitleTier
  rw [hass, if_pos rfl, if_pos rfl, hserved]
  by_cases hburn : plan.burnAss = some i
  · obtain ⟨hchoose, hscript⟩ := hburned.mp hburn
    simp [hburn, hchoose, hscript]
  rw [if_neg hburn]
  have hnotBurned := hburned.not.mp hburn
  cases hrender : x.profile.assRender with
  | true =>
    have hchoose : x.ass.choose x.profile = some .native := if_pos hrender
    simp [hburn, hsubtitle, hchoose]
  | false =>
    cases hchoose : x.ass.choose x.profile with
    | none =>
      have hnone : x.burnAss.1 = none := by rw [burnAss_fst, hchoose, if_neg nofun]
      simp [hburn, hsubtitle, hnone, hflatten hchoose]
    | some tier =>
      cases tier with
      | burn =>
        have hscript : x.burnAss.1 = x.scriptToBurn := by rw [burnAss_fst, hchoose, if_pos rfl]
        have hother : ¬ (x.scriptToBurn = some i ∧ x.burnCarried g = true) :=
          fun hscript => hnotBurned ⟨hchoose, hscript⟩
        cases hsome : x.scriptToBurn.isSome with
        | true => simp [hburn, hsubtitle, hscript, hsome, hother]
        | false => simp [hburn, hsubtitle, hscript, hsome, apply_ite Prod.fst]
      | _ =>
        have hnone : x.burnAss.1 = none := by rw [burnAss_fst, hchoose, if_neg nofun]
        simp [hburn, hsubtitle, hnone, apply_ite Prod.fst]

/-- A stream whose verdict is wrong. -/
def Misreported (g : Gstreamer) (x : Inputs) (i : ℕ) (format : String) : Prop :=
  x.TextPromised format ∨ x.ScriptPassedOver g i format

end Inputs

/-! ## All verdicts -/

/-- The verdict of every stream is a burn exactly if the plan burns that stream, and is not
    unavailable where a tier serves it. -/
def TruthfulVerdicts (x : Inputs) (p : SourcePlan) : Prop :=
  ∀ i s, x.info.subtitles[i]? = some s →
    ∃ v, p.subtitles[i]? = some v ∧ v.index = i ∧ x.TruthfulTier p.plan i s.format v.tier

/-- The verdicts tell the truth about the plan if and only if no stream is misreported. -/
theorem verdicts_truthful_iff (g : Gstreamer) (x : Inputs) (forceAudioEncode : Bool) :
    TruthfulVerdicts x (negotiateForExecutors g x forceAudioEncode) ↔
      ∀ i s, x.info.subtitles[i]? = some s → ¬ x.Misreported g i s.format := by
  have hass := Inputs.plan_burnAss g x forceAudioEncode
  unfold TruthfulVerdicts
  refine forall_congr' fun i => forall_congr' fun s => imp_congr_right fun hs => ?_
  have hburnAss : (negotiateForExecutors g x forceAudioEncode).plan.burnAss = some i →
      isAss s.format = true := by
    intro hburn
    rw [hass] at hburn
    split at hburn
    · obtain ⟨-, t, ht, hisAss⟩ := Inputs.of_burnAss hburn
      cases hs.symm.trans ht
      exact hisAss
    · cases hburn
  have hburnSubtitle : (negotiateForExecutors g x forceAudioEncode).plan.burnSubtitle = some i →
      isImage s.format = true := by
    intro hburn
    obtain ⟨t, ht, himage⟩ := Inputs.of_plan_burnSubtitle hburn
    cases hs.symm.trans ht
    exact himage
  have hverdict := Inputs.verdict_at g forceAudioEncode hs
  generalize (negotiateForExecutors g x forceAudioEncode).plan = plan at *
  have hat : (∃ v, (negotiateForExecutors g x forceAudioEncode).subtitles[i]? = some v ∧ v.index = i ∧
      x.TruthfulTier plan i s.format v.tier) ↔
      x.TruthfulTier plan i s.format (x.subtitleTier plan i s.format).1 := by
    simp [hverdict]
  rw [hat]
  unfold Inputs.Misreported
  cases hisAss : isAss s.format with
  | true =>
    have hnotImage : isImage s.format = false := by
      by_contra himage
      cases hisAss.symm.trans (isAss_of_isImage (Bool.not_eq_false _ ▸ himage))
    have hsubtitle : plan.burnSubtitle ≠ some i := fun hburn =>
      Bool.false_ne_true (hnotImage.symm.trans (hburnSubtitle hburn))
    rw [Inputs.truthful_ass hisAss hsubtitle hass, Inputs.TextPromised]
    simp [hisAss]
  | false =>
    have hnone : plan.burnAss ≠ some i := fun hburn =>
      Bool.false_ne_true (hisAss.symm.trans (hburnAss hburn))
    cases himage : isImage s.format with
    | true =>
      refine iff_of_true (Inputs.truthful_image himage hnone) ?_
      simp [Inputs.TextPromised, Inputs.ScriptPassedOver, hisAss, himage]
    | false =>
      have hsubtitle : plan.burnSubtitle ≠ some i := fun hburn =>
        Bool.false_ne_true (himage.symm.trans (hburnSubtitle hburn))
      rw [Inputs.truthful_text hisAss himage (not_or.mpr ⟨hsubtitle, hnone⟩), Inputs.ScriptPassedOver]
      simp [hisAss]

/-! ## Misreported streams -/

/-- A film with timed text for a client that renders none, and a fleet that burns scripts. -/
def textFilm : Inputs :=
  { longGopFilm with
    profile := { CapabilityProfile.default with audio := ["aac"], vttRender := false }
    info := { longGopFilm.info with subtitles := [⟨"srt", some "en"⟩] }
    ass := ⟨[.flatten, .overlay, .burn], true, false⟩
    videoTargets := ["h264"]
    fullAudioTargets := ["aac"] }

/-- A film with two scripts for a client that reads them as text, and a viewer who prefers
    the burn. -/
def twoScripts : Inputs :=
  { textFilm with
    profile := { textFilm.profile with vttRender := true }
    info := { textFilm.info with subtitles := [⟨"ass", some "en"⟩, ⟨"ass", some "ja"⟩] }
    ass := ⟨[.burn, .flatten, .overlay], true, false⟩ }

/-- The text is reported as burned, and nothing is burned. -/
theorem not_truthful_verdicts :
    ((negotiateForExecutors sampleGstreamer textFilm false).subtitles.map SubtitleVerdict.tier = [.burn] ∧
      (negotiateForExecutors sampleGstreamer textFilm false).burned = []) ∧
    ((negotiateForExecutors sampleGstreamer twoScripts false).subtitles.map SubtitleVerdict.tier =
        [.burn, .unavailable] ∧
      twoScripts.ass.permits twoScripts.profile .flatten = true) ∧
    ¬ TruthfulVerdicts textFilm (negotiateForExecutors sampleGstreamer textFilm false) := by
  refine ⟨⟨by decide, by decide⟩, ⟨by decide, by decide⟩, fun htruthful => ?_⟩
  obtain ⟨v, hv, -, hburn, -⟩ := htruthful 0 ⟨"srt", some "en"⟩ rfl
  have htier : ((negotiateForExecutors sampleGstreamer textFilm false).subtitles[0]?).map
      SubtitleVerdict.tier = some .burn := by decide
  rw [hv] at htier
  have hplan : ¬ ((negotiateForExecutors sampleGstreamer textFilm false).plan.burnSubtitle = some 0 ∨
      (negotiateForExecutors sampleGstreamer textFilm false).plan.burnAss = some 0) := by decide
  exact hplan (hburn.mp (Option.some.inj htier))

end Kahawai.Media.Negotiate
