import Kahawai.Lib.Stable
import Kahawai.Media.Subindex.Quiet
import Kahawai.Media.Subindex.Walk

/-!
# What assembly depends on

Assembly takes the blocks of each track and sorts what they show by its start. So it
only depends on the blocks of each track that start in the same millisecond, in
their order: `assemble_same`.
-/

namespace Kahawai.Media.Subindex

open Kahawai.Core Kahawai.Lib

variable {src : Source} {overflowChecks : Bool} {fns : TextFns} {scale : ℕ} {t : MkvTrack}
  {l l' : List TimedBlock}

/-- When a block starts, in milliseconds. -/
def startOf (scale : ℕ) (b : TimedBlock) : ℕ := toMs scale (saturatingAddSigned b.1 b.2.relTime)

/-- The blocks of a track. -/
def ofTrack (number : ℕ) (l : List TimedBlock) : List TimedBlock :=
  l.filter fun b => b.2.track = number

/-- The tracks have the same blocks at each time, in the same order. -/
def SameBlocks (scale : ℕ) (tracks : List MkvTrack) (l l' : List TimedBlock) : Prop :=
  ∀ t ∈ tracks, ∀ ms, ofKey (startOf scale) ms (ofTrack t.number l) =
    ofKey (startOf scale) ms (ofTrack t.number l')

theorem mem_of_ofKey (h : ∀ ms, ofKey (startOf scale) ms l = ofKey (startOf scale) ms l')
    {b : TimedBlock} (hb : b ∈ l) : b ∈ l' := by
  have hmem : b ∈ ofKey (startOf scale) (startOf scale b) l := mem_ofKey.mpr ⟨hb, rfl⟩
  rw [h] at hmem
  exact (mem_ofKey.mp hmem).1

/-! ## Images -/

theorem assembleImage_same (h : ∀ ms, ofKey (startOf scale) ms (ofTrack t.number l) =
      ofKey (startOf scale) ms (ofTrack t.number l')) :
    assembleImage fns scale t l = assembleImage fns scale t l' := by
  have hsets : ∀ (f : TimedBlock → ℕ × Option ℕ × Bytes), (∀ b, (f b).1 = startOf scale b) →
      ∀ ms, ofKey Prod.fst ms ((ofTrack t.number l).map f) =
        ofKey Prod.fst ms ((ofTrack t.number l').map f) := by
    intro f hf ms
    have hkeep : ∀ l : List TimedBlock,
        ofKey Prod.fst ms (l.map f) = (ofKey (startOf scale) ms l).map f := by
      intro l
      rw [← List.filterMap_eq_map, ofKey_filterMap]
      rintro b - _ ⟨⟩
      exact hf b
    rw [hkeep, hkeep, h ms]
  unfold assembleImage
  dsimp only
  congr 1
  exact insertionSort_eq_iff.mpr (hsets _ fun _ => rfl)

/-! ## Text -/

theorem yields_sum (src : Source) (overflowChecks : Bool) (a b : ℕ) : ∃ x : Except Stop ℕ,
    Yields (Quiet src overflowChecks) (addU64 a b) x ∧ (x = .error .panic ∨ ∃ n, x = .ok n) := by
  by_cases hsum : a + b < 2 ^ 64
  · exact ⟨_, yields_addU64 hsum, Or.inr ⟨_, rfl⟩⟩
  · have hadd : ∀ r : Reader, Quiet src overflowChecks r → addU64 a b r =
        if overflowChecks then .error .panic r else .ok ((a + b) % 2 ^ 64) r := by
      intro r hr
      unfold addU64 checkU64
      rw [if_neg hsum, hr.checks]
    cases overflowChecks with
    | true =>
      refine ⟨.error .panic, fun r hr => ?_, Or.inl rfl⟩
      unfold outcome
      rw [hadd r hr]
      exact ⟨rfl, fun _ _ heq => by cases heq⟩
    | false =>
      refine ⟨.ok ((a + b) % 2 ^ 64), fun r hr => ?_, Or.inr ⟨_, rfl⟩⟩
      unfold outcome
      rw [hadd r hr]
      exact ⟨rfl, fun _ _ heq => by cases heq; exact hr⟩

/-- An event is read, or the sum of its times panics. -/
theorem yields_readEvent (src : Source) (overflowChecks : Bool) (fns : TextFns) (scale : ℕ)
    (t : MkvTrack) (b : TimedBlock) :
    ∃ x, Yields (Quiet src overflowChecks) (readEvent fns scale t b) x ∧
      (x = .error .panic ∨ ∃ e, x = .ok e ∧ e.1 = startOf scale b) := by
  obtain ⟨sum, hsum, hshape⟩ := yields_sum src overflowChecks (startOf scale b) 3000
  unfold readEvent
  dsimp only
  rcases hshape with rfl | ⟨fallback, rfl⟩
  · exact ⟨_, yields_bind_error hsum, Or.inl rfl⟩
  · cases hduration : b.2.duration with
    | none => exact ⟨_, yields_bind hsum (yields_bind (yields_pure _) (yields_pure _)),
        Or.inr ⟨_, rfl, rfl⟩⟩
    | some d =>
      obtain ⟨stop, hstop, hshape⟩ := yields_sum src overflowChecks
        (saturatingAddSigned b.1 b.2.relTime) d
      rcases hshape with rfl | ⟨stopTicks, rfl⟩
      · exact ⟨_, yields_bind hsum (yields_bind_error (yields_bind_error hstop)), Or.inl rfl⟩
      · exact ⟨_, yields_bind hsum (yields_bind (yields_bind hstop (yields_pure _)) (yields_pure _)),
          Or.inr ⟨_, rfl, rfl⟩⟩

/-- The events of blocks: all of them, or a panic if one of them panics. -/
theorem yields_addEvents (src : Source) (overflowChecks : Bool) (fns : TextFns) (scale : ℕ)
    (t : MkvTrack) :
    ∃ (event : TimedBlock → ℕ × ℕ × Text) (panics : TimedBlock → Prop),
      (∀ b, ¬ panics b → (event b).1 = startOf scale b) ∧
      ∀ (l : List TimedBlock) (acc : List (ℕ × ℕ × Text)),
        ((∀ b ∈ l, ¬ panics b) → Yields (Quiet src overflowChecks)
          (l.foldlM (addEvent fns scale t) acc) (.ok (acc ++ l.map event))) ∧
        ((∃ b ∈ l, panics b) → Yields (Quiet src overflowChecks)
          (l.foldlM (addEvent fns scale t) acc) (.error .panic)) := by
  choose x hx hshape using yields_readEvent src overflowChecks fns scale t
  have hevent : ∀ b, ¬ x b = .error .panic → ∃ e, x b = .ok e ∧ e.1 = startOf scale b :=
    fun b hb => (hshape b).resolve_left hb
  let event : TimedBlock → ℕ × ℕ × Text := fun b => match x b with
    | .ok e => e
    | .error _ => (0, 0, [])
  have hok : ∀ b, ¬ x b = .error .panic → x b = .ok (event b) := by
    intro b hb
    obtain ⟨e, he, -⟩ := hevent b hb
    show x b = .ok (match x b with
      | .ok e => e
      | .error _ => (0, 0, []))
    rw [he]
  have hadd : ∀ acc b, ¬ x b = .error .panic →
      Yields (Quiet src overflowChecks) (addEvent fns scale t acc b) (.ok (acc ++ [event b])) :=
    fun acc b hb => yields_bind (hok b hb ▸ hx b) (yields_pure _)
  refine ⟨event, fun b => x b = .error .panic, fun b hb => ?_, fun l => ?_⟩
  · obtain ⟨e, he, hstart⟩ := hevent b hb
    have hsame := hok b hb
    rw [he] at hsame
    rw [← Except.ok.inj hsame]
    exact hstart
  · induction l with
    | nil =>
      refine fun acc => ⟨fun _ => ?_, fun ⟨b, hb, _⟩ => absurd hb List.not_mem_nil⟩
      exact (List.append_nil acc).symm ▸ yields_pure acc
    | cons b l ih =>
      intro acc
      rw [List.foldlM_cons]
      constructor
      · intro hall
        have hrest := (ih (acc ++ [event b])).1 fun b' hb' => hall b' (List.mem_cons_of_mem b hb')
        rw [List.append_assoc] at hrest
        exact yields_bind (hadd acc b (hall b List.mem_cons_self)) hrest
      · rintro ⟨b', hb', hpanics⟩
        by_cases hb : x b = .error .panic
        · exact yields_bind_error (yields_bind_error (hb ▸ hx b))
        · refine yields_bind (hadd acc b hb) ((ih _).2 ⟨b', ?_, hpanics⟩)
          rcases List.mem_cons.mp hb' with rfl | hb'
          · exact absurd hpanics hb
          · exact hb'

theorem assembleText_same (h : ∀ ms, ofKey (startOf scale) ms (ofTrack t.number l) =
      ofKey (startOf scale) ms (ofTrack t.number l')) (out : List (ℕ × Extracted)) :
    ∃ x, Yields (Quiet src overflowChecks) (assembleText fns scale l out t) x ∧
      Yields (Quiet src overflowChecks) (assembleText fns scale l' out t) x := by
  obtain ⟨event, panics, hstart, hevents⟩ := yields_addEvents src overflowChecks fns scale t
  by_cases hpanics : ∃ b ∈ ofTrack t.number l, panics b
  · obtain ⟨b, hb, hpanic⟩ := hpanics
    exact ⟨_, yields_bind_error ((hevents _ []).2 ⟨b, hb, hpanic⟩),
      yields_bind_error ((hevents _ []).2 ⟨b, mem_of_ofKey h hb, hpanic⟩)⟩
  · have hfine : ∀ b ∈ ofTrack t.number l, ¬ panics b := fun b hb hpanic =>
      hpanics ⟨b, hb, hpanic⟩
    have hfine' : ∀ b ∈ ofTrack t.number l', ¬ panics b := fun b hb =>
      hfine b (mem_of_ofKey (fun ms => (h ms).symm) hb)
    -- Whatever is made of the events, it is the same at each start.
    have hkeep : ∀ {β : Type} (key : β → ℕ) (f : ℕ × ℕ × Text → Option β),
        (∀ e r, f e = some r → key r = e.1) → ∀ ms,
          ofKey key ms (((ofTrack t.number l).map event).filterMap f) =
            ofKey key ms (((ofTrack t.number l').map event).filterMap f) := by
      intro β key f hf ms
      have hblocks : ∀ l : List TimedBlock, (∀ b ∈ l, ¬ panics b) →
          ofKey key ms ((l.map event).filterMap f) =
            (ofKey (startOf scale) ms l).filterMap fun b => f (event b) := by
        intro l hl
        rw [List.filterMap_map, ofKey_filterMap fun b hb r hr => ?_]
        · rfl
        · exact (hf _ r hr).trans (hstart b (hl b hb))
      rw [hblocks _ hfine, hblocks _ hfine', h ms]
    have hcues : (((ofTrack t.number l).map event).filterMap (eventCue fns t)).insertionSort
          (fun a b => a.startMs ≤ b.startMs) =
        (((ofTrack t.number l').map event).filterMap (eventCue fns t)).insertionSort
          fun a b => a.startMs ≤ b.startMs := by
      refine insertionSort_eq_iff.mpr (hkeep Cue.startMs (eventCue fns t) fun e r hr => ?_)
      unfold eventCue at hr
      dsimp only at hr
      split_ifs at hr
      · cases hr
        rfl
      · cases hr
        rfl
    have hsorted : ((ofTrack t.number l).map event).insertionSort (fun a b => a.1 ≤ b.1) =
        ((ofTrack t.number l').map event).insertionSort fun a b => a.1 ≤ b.1 := by
      have hsome := hkeep Prod.fst some fun e r hr => by cases hr; rfl
      rw [List.filterMap_some, List.filterMap_some] at hsome
      exact insertionSort_eq_iff.mpr hsome
    have hempty : ((ofTrack t.number l).map event).isEmpty =
        ((ofTrack t.number l').map event).isEmpty := by
      rw [Bool.eq_iff_iff, List.isEmpty_iff_length_eq_zero, List.isEmpty_iff_length_eq_zero,
        ← List.length_insertionSort (fun a b : ℕ × ℕ × Text => a.1 ≤ b.1), hsorted,
        List.length_insertionSort]
    have hass : assembleAss fns t ((ofTrack t.number l).map event) =
        assembleAss fns t ((ofTrack t.number l').map event) := by
      unfold assembleAss
      rw [hempty, hsorted]
    refine ⟨_, yields_bind ((hevents _ []).1 hfine) (yields_pure _),
      yields_bind ((hevents _ []).1 hfine') ?_⟩
    unfold ofTrack at hcues hass
    rw [List.nil_append, List.nil_append]
    dsimp only
    rw [hcues, hass]
    exact yields_pure _

/-- Assembly does the same with the same blocks. -/
theorem assemble_same (src : Source) (overflowChecks : Bool) (fns : TextFns) {idx : MkvIndex} {image : Option ℕ}
    (h : SameBlocks idx.timestampScale (wantedTracks image idx.tracks) l l') :
    ∃ x, Yields (Quiet src overflowChecks) (assemble fns idx image l) x ∧
      Yields (Quiet src overflowChecks) (assemble fns idx image l') x := by
  cases image with
  | some want =>
    unfold assemble
    dsimp only
    cases htrack : (wantedTracks (some want) idx.tracks).head? with
    | none => exact ⟨_, yields_pure _, yields_pure _⟩
    | some t =>
      dsimp only
      rw [assembleImage_same (h t (List.mem_of_mem_head? htrack))]
      exact ⟨_, yields_pure _, yields_pure _⟩
  | none =>
    have htracks : ∀ (tracks : List MkvTrack) (out : List (ℕ × Extracted)),
        SameBlocks idx.timestampScale tracks l l' →
          ∃ x, Yields (Quiet src overflowChecks)
              (tracks.foldlM (assembleText fns idx.timestampScale l) out) x ∧
            Yields (Quiet src overflowChecks)
              (tracks.foldlM (assembleText fns idx.timestampScale l') out) x := by
      intro tracks
      induction tracks with
      | nil => exact fun out _ => ⟨_, yields_pure out, yields_pure out⟩
      | cons t tracks ih =>
        intro out hsame
        obtain ⟨x, hx, hx'⟩ := assembleText_same (hsame t List.mem_cons_self) out
        simp only [List.foldlM_cons]
        cases x with
        | error e => exact ⟨_, yields_bind_error hx, yields_bind_error hx'⟩
        | ok out' =>
          obtain ⟨y, hy, hy'⟩ := ih out' fun t' ht' => hsame t' (List.mem_cons_of_mem t ht')
          exact ⟨y, yields_bind hx hy, yields_bind hx' hy'⟩
    obtain ⟨x, hx, hx'⟩ := htracks _ [] h
    exact ⟨_, yields_bind_except hx fun out => yields_pure _,
      yields_bind_except hx' fun out => yields_pure _⟩

end Kahawai.Media.Subindex
