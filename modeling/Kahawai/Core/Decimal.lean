import Kahawai.Core.Text

/-!
# Decimal numbers

`to_string` and `str::parse` for unsigned numbers undo each other.

Results:
* `parseUnsigned_ofNat`: a number of the type is read back.
* `rsplitOnce_ofNat`: so is one behind a text and a colon.
-/

namespace Kahawai.Core.Text

variable {n m bound : ℕ}

theorem isAsciiDigit_of_mem_ofNat {c : Char} (h : c ∈ ofNat n) : isAsciiDigit c = true := by
  have hdigit := Nat.isDigit_of_mem_toDigits (by decide) (le_refl 10) h
  simp only [Char.isDigit, Bool.and_eq_true, decide_eq_true_eq] at hdigit
  simp only [isAsciiDigit, Bool.and_eq_true, decide_eq_true_eq]
  exact hdigit

theorem ofNat_ne_nil : ofNat n ≠ [] := Nat.toDigits_ne_nil

theorem digitsValue_ofNat : digitsValue (ofNat n) = n := Nat.ofDigitChars_ten_toDigits

theorem ofNat_injective : Function.Injective ofNat :=
  Function.LeftInverse.injective fun _ => digitsValue_ofNat

/-- A character that is no digit does not stand in a number. -/
theorem not_mem_ofNat {c : Char} (h : isAsciiDigit c = false) : c ∉ ofNat n := by
  intro hc
  rw [isAsciiDigit_of_mem_ofNat hc] at h
  cases h

/-- A number of the type is read back. -/
theorem parseUnsigned_ofNat (h : n < bound) : parseUnsigned bound (ofNat n) = some n := by
  have hsign : stripPrefixChar (· = '+') (ofNat n) = none := by
    cases hdigits : ofNat n with
    | nil => rfl
    | cons c s =>
      have hc : c ≠ '+' := by
        rintro rfl
        exact not_mem_ofNat (by decide) (hdigits ▸ List.mem_cons_self)
      simp [stripPrefixChar, hc]
  have hall : (ofNat n).all isAsciiDigit = true :=
    List.all_eq_true.2 fun _ => isAsciiDigit_of_mem_ofNat
  have hempty : (ofNat n).isEmpty = false := List.isEmpty_eq_false_iff.2 ofNat_ne_nil
  simp only [parseUnsigned, hsign, Option.getD_none, hempty, hall, Bool.not_true, Bool.or_self,
    Bool.false_eq_true, if_false, digitsValue_ofNat, h, if_true]

theorem parseUnsigned_lt {s : Text} (h : parseUnsigned bound s = some n) : n < bound := by
  unfold parseUnsigned at h
  dsimp only at h
  split_ifs at h with hdigits hlt
  obtain rfl := Option.some.inj h
  exact hlt

/-- The first separator is the one that is written. -/
theorem splitOnce_append {p : Char → Bool} {c : Char} (hc : p c = true) {a : Text}
    (ha : ∀ d ∈ a, p d = false) (b : Text) : splitOnce p (a ++ c :: b) = some (a, b) := by
  induction a with
  | nil => simp [splitOnce, hc]
  | cons d a ih =>
    obtain ⟨hd, ha⟩ := List.forall_mem_cons.1 ha
    simp [splitOnce, hd, ih ha]

/-- A number behind a colon is split off at that colon. -/
theorem rsplitOnce_ofNat (a : Text) :
    rsplitOnce (· = ':') (a ++ lit ":" ++ ofNat n) = some (a, ofNat n) := by
  have hrev : (a ++ lit ":" ++ ofNat n).reverse = (ofNat n).reverse ++ ':' :: a.reverse := by
    rw [List.reverse_append, List.reverse_append]
    rfl
  have hdigits : ∀ d ∈ (ofNat n).reverse, decide (d = ':') = false := by
    intro d hd
    refine decide_eq_false ?_
    rintro rfl
    exact not_mem_ofNat (by decide) (List.mem_reverse.1 hd)
  simp only [rsplitOnce, hrev, splitOnce_append (decide_eq_true rfl) hdigits, Option.map_some,
    List.reverse_reverse]

end Kahawai.Core.Text
