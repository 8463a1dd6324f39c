import Kahawai.Media.Subtitles.Vtt

/-!
# Lines and clocks

The lines of a text, one by one, and the clocks that the subtitle formats write
(`crates/kahawai-media/src/subtitles.rs`, lines 77–85 and 291–299).

Results:
* `lines_break`: the first line ends at the first line break.
* `timeMs_parts`: a time is made up of its parts.
-/

namespace Kahawai.Media.Subtitles

open Kahawai.Core Kahawai.Core.Text
open Kahawai.Media.VobsubFile (lines)

/-! ## Lines -/

/-- A line as `str::lines` gives it: one carriage return before the break is dropped. -/
def stripReturn (line : Text) : Text :=
  if line.getLast? = some '\r' then line.dropLast else line

theorem lines_single {s : Text} (h : '\n' ∉ s) : lines s = if s = [] then [] else [s] := by
  have hsplit : split (· = '\n') s = [s] := by
    refine List.splitOnP_eq_singleton fun d hd => decide_eq_false ?_
    rintro rfl
    exact h hd
  unfold lines
  rw [hsplit]
  cases s with
  | nil => rfl
  | cons c s => rfl

/-- The first line ends at the first line break. -/
theorem lines_break {a : Text} (h : '\n' ∉ a) (b : Text) :
    lines (a ++ '\n' :: b) = stripReturn a :: lines b := by
  have ha : a.splitOnP (· = '\n') = [a] := by
    refine List.splitOnP_eq_singleton fun d hd => decide_eq_false ?_
    rintro rfl
    exact h hd
  unfold lines
  rw [split, List.splitOnP_append_cons _ _ (by decide), ha, split]
  obtain ⟨part, parts, hparts⟩ := List.exists_cons_of_ne_nil (List.splitOnP_ne_nil (· = '\n') b)
  rw [hparts]
  simp only [List.cons_append, List.nil_append, List.dropLast_cons_cons, List.map_cons,
    List.getLast?_cons_cons, stripReturn]

theorem lines_line {a : Text} (h : '\n' ∉ a) (hcr : '\r' ∉ a) (b : Text) :
    lines (a ++ '\n' :: b) = a :: lines b := by
  rw [lines_break h, stripReturn, if_neg fun hlast => hcr (List.mem_of_getLast? hlast)]

/-- Induction over the lines of a text. -/
theorem lines_induction {P : Text → Prop} (single : ∀ s, '\n' ∉ s → P s)
    (line : ∀ a b, '\n' ∉ a → P b → P (a ++ '\n' :: b)) (s : Text) : P s := by
  have hwork : ∀ s a : Text, '\n' ∉ a → P (a ++ s) := by
    intro s
    induction s with
    | nil =>
      intro a ha
      rw [List.append_nil]
      exact single a ha
    | cons c s ih =>
      intro a ha
      by_cases hc : c = '\n'
      · subst hc
        exact line a s ha (ih [] (List.not_mem_nil))
      · have := ih (a ++ [c]) (by simpa [ha] using Ne.symm hc)
        rwa [List.append_assoc] at this
  exact hwork s [] List.not_mem_nil

/-! ## Clocks -/

theorem digit_not_whitespace {c : Char} (h : isAsciiDigit c = true) : isWhitespace c = false := by
  simp only [isAsciiDigit, Bool.and_eq_true, decide_eq_true_eq] at h
  have hlow : 48 ≤ c.toNat := h.1
  have hhigh : c.toNat ≤ 57 := h.2
  simp only [isWhitespace, Bool.or_eq_false_iff, Bool.and_eq_false_iff, decide_eq_false_iff_not]
  omega

theorem sum_parts (n : ℕ) :
    ((n / 3600000 * 60 + n / 60000 % 60) * 60 + n / 1000 % 60) * 1000 + n % 1000 = n := by
  have hminutes : n / 60000 = n / 1000 / 60 := by rw [Nat.div_div_eq_div_mul]
  have hhours : n / 3600000 = n / 1000 / 60 / 60 := by
    rw [Nat.div_div_eq_div_mul, Nat.div_div_eq_div_mul]
  rw [hhours, hminutes]
  omega

/-- The parts of a clock are read back. -/
theorem timeMs_parts (n : ℕ) (h : n < 2 ^ 64) :
    timeMs (n / 3600000) (n / 60000 % 60) (n / 1000 % 60) (n % 1000) = n := by
  rw [timeMs, sum_parts, Nat.mod_eq_of_lt h]

theorem split_clock {a b c : Text} (ha : ':' ∉ a) (hb : ':' ∉ b) (hc : ':' ∉ c) :
    split (· = ':') (a ++ lit ":" ++ b ++ lit ":" ++ c) = [a, b, c] := by
  have hpart : ∀ {s : Text}, ':' ∉ s → s.splitOnP (· = ':') = [s] := by
    intro s hs
    refine List.splitOnP_eq_singleton fun d hd => decide_eq_false ?_
    rintro rfl
    exact hs hd
  have hjoin : a ++ lit ":" ++ b ++ lit ":" ++ c = a ++ ':' :: (b ++ ':' :: c) := by
    simp only [List.append_assoc]
    rfl
  rw [split, hjoin, List.splitOnP_append_cons _ _ (by decide), List.splitOnP_append_cons _ _ (by decide),
    hpart ha, hpart hb, hpart hc]
  rfl

theorem not_mem_pad {w n : ℕ} {c : Char} (h : isAsciiDigit c = false) : c ∉ pad w n := by
  intro hc
  rw [isAsciiDigit_of_mem_pad hc] at h
  cases h

end Kahawai.Media.Subtitles
