import Kahawai.Media.Subtitles.VttRoundTrip

/-!
# Shifted cues

The times that `to_vtt` writes under a shift (`crates/kahawai-media/src/subtitles.rs`, lines 66–90):
sums of signed numbers of 64 bits, of which the negative ones are clamped or drop the cue.

Results:
* `cuePiece_iff`: a cue is moved exactly if the sums are numbers of 63 bits.
* `vtt_exact_iff`: the cues of a file, read back and shifted.
-/

namespace Kahawai.Media.Subtitles

open Kahawai.Core Kahawai.Core.Text Kahawai.Media.Burnin
open Kahawai.Media.Subindex (Cue)

/-- A cue moved by the shift, clamped at zero, unless it ends there. -/
def moved (shift : ℤ) (cue : Cue) : Option Cue :=
  if cue.endMs + shift ≤ 0 then none
  else some ⟨(cue.startMs + shift).toNat, (cue.endMs + shift).toNat, cue.text⟩

/-- The text of cues. -/
def vttOf (cues : List Cue) : Text :=
  lit "WEBVTT\n\n" ++ cues.flatMap fun cue => writeCue cue.startMs cue.endMs cue.text

/-- What is to be written of a cue. -/
def exactPiece (shift : ℤ) (cue : Cue) : Text :=
  if cue.endMs + shift ≤ 0 then []
  else writeCue (cue.startMs + shift).toNat (cue.endMs + shift).toNat cue.text

/-- The sums of a cue that is written are numbers of 63 bits. -/
def ShiftFits (shift : ℤ) (cue : Cue) : Prop :=
  0 < cue.endMs + shift → cue.startMs + shift < 2 ^ 63 ∧ cue.endMs + shift < 2 ^ 63

theorem vttOf_moved (shift : ℤ) (cues : List Cue) :
    vttOf (cues.filterMap (moved shift)) = lit "WEBVTT\n\n" ++ cues.flatMap (exactPiece shift) := by
  unfold vttOf
  congr 1
  induction cues with
  | nil => rfl
  | cons cue cues ih =>
    rw [List.flatMap_cons, ← ih]
    unfold exactPiece
    by_cases hend : (cue.endMs : ℤ) + shift ≤ 0
    · have hnone : moved shift cue = none := if_pos hend
      rw [List.filterMap_cons_none hnone, if_pos hend, List.nil_append]
    · have hsome : moved shift cue =
          some ⟨(cue.startMs + shift).toNat, (cue.endMs + shift).toNat, cue.text⟩ := if_neg hend
      rw [List.filterMap_cons_some hsome, if_neg hend, List.flatMap_cons]

/-! ## Pieces -/

theorem length_writeCue_le {start start' stop stop' : ℕ} (hstart : start ≤ start')
    (hstop : stop ≤ stop') (text : Text) :
    (writeCue start stop text).length ≤ (writeCue start' stop' text).length := by
  have h := length_vttTime_le hstart
  have h' := length_vttTime_le hstop
  simp only [writeCue, List.length_append, List.length_cons]
  omega

theorem writeCue_injective {start start' stop stop' : ℕ} {text : Text}
    (h : writeCue start stop text = writeCue start' stop' text) : start = start' ∧ stop = stop' := by
  have hline : ∀ a b : ℕ, splitOnce (· = '\n') (writeCue a b text) =
      some (timing a b, text ++ ['\n', '\n']) := by
    intro a b
    have hwrite : writeCue a b text = timing a b ++ '\n' :: (text ++ ['\n', '\n']) := by
      simp only [writeCue, timing, List.append_assoc, List.cons_append]
    rw [hwrite]
    refine splitOnce_append (by decide) (fun d hd => decide_eq_false ?_) _
    rintro rfl
    exact not_mem_timing (by decide) (by decide) hd
  have hlines := (hline start stop).symm.trans ((congrArg _ h).trans (hline start' stop'))
  have htiming := (Prod.mk.inj (Option.some.inj hlines)).1
  have hparts := (splitOnceStr_timing start stop).symm.trans
    ((congrArg _ htiming).trans (splitOnceStr_timing start' stop'))
  obtain ⟨hfirst, hsecond⟩ := Prod.mk.inj (Option.some.inj hparts)
  exact ⟨vttTime_injective (List.append_cancel_right hfirst),
    vttTime_injective (List.cons.inj hsecond).2⟩

theorem writeCue_ne_nil (start stop : ℕ) (text : Text) : writeCue start stop text ≠ [] :=
  List.append_ne_nil_of_right_ne_nil _ (List.cons_ne_nil _ _)

section
variable {shift : ℤ} {cue : Cue}

/-- A sum that does not fit is written as a smaller number. -/
theorem toNat_shiftMs_le {ms : ℕ} (hms : ms < 2 ^ 64) (hlow : -2 ^ 63 ≤ shift)
    (hhigh : shift < 2 ^ 63) : (shiftMs ms shift).toNat ≤ (ms + shift).toNat ∧
      ((shiftMs ms shift).toNat = (ms + shift).toNat → ms + shift < 2 ^ 63) := by
  by_cases hfits : (ms : ℤ) + shift < 2 ^ 63
  · rw [shiftMs_of_fits (by omega) hfits]
    exact ⟨Nat.le_refl _, fun _ => hfits⟩
  · rw [shiftMs_of_over (by omega) (by omega)]
    omega

/-- The piece is never longer than it is to be, and right exactly if the sums fit. -/
theorem cuePiece_iff (h : CueOk cue) (hlow : -2 ^ 63 ≤ shift) (hhigh : shift < 2 ^ 63) :
    (cuePiece shift cue).length ≤ (exactPiece shift cue).length ∧
      (cuePiece shift cue = exactPiece shift cue ↔ ShiftFits shift cue) := by
  have hstart := toNat_shiftMs_le h.start hlow hhigh
  have hstop := toNat_shiftMs_le h.stop hlow hhigh
  unfold cuePiece exactPiece ShiftFits
  dsimp only
  by_cases hend : (cue.endMs : ℤ) + shift ≤ 0
  · rw [if_pos hend, shiftMs_of_fits (by omega) (by omega), if_pos hend]
    exact ⟨Nat.le_refl _, fun _ hpos => absurd hpos (by omega), fun _ => rfl⟩
  · rw [if_neg hend]
    by_cases hdropped : shiftMs cue.endMs shift ≤ 0
    · rw [if_pos hdropped]
      refine ⟨Nat.zero_le _, fun heq => absurd heq.symm (writeCue_ne_nil _ _ _), fun hfits => ?_⟩
      rw [shiftMs_of_fits (by omega) (hfits (by omega)).2] at hdropped
      exact absurd hdropped hend
    · rw [if_neg hdropped]
      refine ⟨length_writeCue_le hstart.1 hstop.1 _, fun heq _ => ?_, fun hfits => ?_⟩
      · obtain ⟨hstart', hstop'⟩ := writeCue_injective heq
        exact ⟨hstart.2 hstart', hstop.2 hstop'⟩
      · obtain ⟨hs, he⟩ := hfits (by omega)
        rw [shiftMs_of_fits (by omega) hs, shiftMs_of_fits (by omega) he]

end

/-- Texts of pieces are equal exactly if the pieces are, where none is longer than it is to be. -/
theorem flatMap_eq_iff {α : Type} {f g : α → Text} {l : List α}
    (h : ∀ x ∈ l, (f x).length ≤ (g x).length) : l.flatMap f = l.flatMap g ↔ ∀ x ∈ l, f x = g x := by
  have hle : ∀ {l : List α}, (∀ x ∈ l, (f x).length ≤ (g x).length) →
      (l.flatMap f).length ≤ (l.flatMap g).length := by
    intro l hl
    induction l with
    | nil => exact Nat.le_refl _
    | cons x l ih =>
      obtain ⟨hx, hrest⟩ := List.forall_mem_cons.mp hl
      have := ih hrest
      simp only [List.flatMap_cons, List.length_append]
      omega
  induction l with
  | nil => simp
  | cons x l ih =>
    obtain ⟨hx, hrest⟩ := List.forall_mem_cons.mp h
    rw [List.flatMap_cons, List.flatMap_cons]
    constructor
    · intro heq
      have hlengths := congrArg List.length heq
      have := hle hrest
      rw [List.length_append, List.length_append] at hlengths
      obtain ⟨hfirst, hothers⟩ := List.append_inj heq (by omega)
      exact List.forall_mem_cons.mpr ⟨hfirst, (ih hrest).mp hothers⟩
    · intro hall
      obtain ⟨hfirst, hothers⟩ := List.forall_mem_cons.mp hall
      rw [hfirst, (ih hrest).mpr hothers]

/-- The cues of a file are read back exactly if those with a positive end can be written as they
    are; and a shift moves them exactly if the sums of those that are written fit. -/
theorem vtt_exact_iff (u : Unicode) (format content : Text) (cues : List Cue)
    (h : parse u format content = .ok cues) :
    (parseVtt (toVtt cues 0) = cues.filter (0 < ·.endMs) ↔
      ∀ cue ∈ cues, 0 < cue.endMs → Printable cue) ∧
    ∀ shift : ℤ, -2 ^ 63 ≤ shift → shift < 2 ^ 63 →
      (toVtt cues shift = vttOf (cues.filterMap (moved shift)) ↔
        ∀ cue ∈ cues, ShiftFits shift cue) := by
  have hok := parse_cues h
  refine ⟨parseVtt_toVtt_iff hok, fun shift hlow hhigh => ?_⟩
  rw [vttOf_moved, toVtt, List.append_cancel_left_eq,
    flatMap_eq_iff fun cue hcue => (cuePiece_iff (hok cue hcue) hlow hhigh).1]
  exact forall₂_congr fun cue hcue => (cuePiece_iff (hok cue hcue) hlow hhigh).2

/-- Two cues, the second of two lines. -/
def sampleSrt : Text :=
  lit "1\n00:00:01,000 --> 00:00:02,500\n<i>Hi</i>\n\n2\n00:00:03,000 --> 00:00:04,000\na\n{b}c\n"

theorem vtt_exact_sample :
    parseVtt (toVtt [⟨1000, 2500, lit "<i>Hi</i>"⟩, ⟨3000, 4000, lit "a\nc"⟩] 0) =
      [⟨1000, 2500, lit "<i>Hi</i>"⟩, ⟨3000, 4000, lit "a\nc"⟩] ∧
    toVtt [⟨1000, 2500, lit "<i>Hi</i>"⟩, ⟨3000, 4000, lit "a\nc"⟩] (-2000) =
      vttOf [⟨0, 500, lit "<i>Hi</i>"⟩, ⟨1000, 2000, lit "a\nc"⟩] := by
  have hparse : parse .ascii (lit "srt") sampleSrt =
      .ok [⟨1000, 2500, lit "<i>Hi</i>"⟩, ⟨3000, 4000, lit "a\nc"⟩] := by
    decide +kernel
  obtain ⟨hread, hshift⟩ := vtt_exact_iff .ascii (lit "srt") sampleSrt _ hparse
  refine ⟨hread.mpr ?_, (hshift (-2000) (by decide) (by decide)).mpr ?_⟩
  · intro cue hcue _
    simp only [List.mem_cons, List.not_mem_nil, or_false] at hcue
    rcases hcue with rfl | rfl
    · exact ⟨by decide, by decide, ⟨by decide, by decide, by decide⟩⟩
    · exact ⟨by decide, by decide, ⟨by decide, by decide, by decide⟩⟩
  · intro cue hcue _
    simp only [List.mem_cons, List.not_mem_nil, or_false] at hcue
    rcases hcue with rfl | rfl
    · exact ⟨by decide, by decide⟩
    · exact ⟨by decide, by decide⟩

/-- Two breaks in a dialogue line, and the second half of its text is gone. -/
theorem vtt_lossy : ∃ cues, parse .ascii (lit "ass")
      (lit "[Events]\nFormat: Start, End, Text\nDialogue: 0:00:01.00,0:00:02.00,a\\N\\Nb\n") = .ok cues ∧
    parseVtt (toVtt cues 0) ≠ cues.filter (0 < ·.endMs) := by
  refine ⟨[⟨1000, 2000, lit "a\n\nb"⟩], by decide +kernel, ?_⟩
  decide +kernel

end Kahawai.Media.Subtitles
