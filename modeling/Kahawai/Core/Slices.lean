import Mathlib.Data.List.TakeWhile
import Kahawai.Core.Text
import Kahawai.Lib.Checked
import Kahawai.Lib.Utf8

/-!
# Slices of texts

`str` is sliced by byte offsets. A slice that does not begin and end between two characters, or
that reaches past the end, panics. Offsets come from `find`, from lengths of prefixes and from the
bytes themselves.

Results:
* `splitAt_append`, `sliceFrom_append`, `sliceTo_append`, `sliceRange_append`: an offset that is the
  length of what stands before it goes through.
* `find_of_splitOnce`, `rfind_of_rsplitOnce`: `find` answers with such an offset.
-/

namespace Kahawai.Core.Text

open Lib Lib.Checked

/-! ## ASCII -/

theorem isAsciiDigit_iff (c : Char) : isAsciiDigit c = true ↔ 48 ≤ c.toNat ∧ c.toNat ≤ 57 := by
  rw [isAsciiDigit, Bool.and_eq_true, decide_eq_true_eq, decide_eq_true_eq, Char.le_def, Char.le_def,
    UInt32.le_iff_toNat_le, UInt32.le_iff_toNat_le]
  rfl

theorem isAsciiAlphabetic_iff (c : Char) : isAsciiAlphabetic c = true ↔
    (97 ≤ c.toNat ∧ c.toNat ≤ 122) ∨ (65 ≤ c.toNat ∧ c.toNat ≤ 90) := by
  simp only [isAsciiAlphabetic, Bool.or_eq_true, Bool.and_eq_true, decide_eq_true_eq, Char.le_def,
    UInt32.le_iff_toNat_le]
  rfl

theorem isAsciiAlphanumeric_lt {c : Char} (h : isAsciiAlphanumeric c = true) : c.toNat < 128 := by
  rw [isAsciiAlphanumeric, Bool.or_eq_true, isAsciiAlphabetic_iff, isAsciiDigit_iff] at h
  omega

/-! ## Offsets -/

/-- `str::split_at`. -/
def splitAt : Text → ℕ → Checked (Text × Text)
  | s, 0 => .ok ([], s)
  | [], _ + 1 => .error .outOfRange
  | c :: s, n + 1 =>
    if c.utf8Size ≤ n + 1 then do
      let (a, b) ← splitAt s (n + 1 - c.utf8Size)
      return (c :: a, b)
    else .error .outOfRange

/-- `&s[n..]`. -/
def sliceFrom (s : Text) (n : ℕ) : Checked Text := do return (← splitAt s n).2

/-- `&s[..n]`. -/
def sliceTo (s : Text) (n : ℕ) : Checked Text := do return (← splitAt s n).1

/-- `&s[start..stop]`. -/
def sliceRange (s : Text) (start stop : ℕ) : Checked Text := do sliceFrom (← sliceTo s stop) start

/-- `str::find` for a set of characters. -/
def find (p : Char → Bool) (s : Text) : Option ℕ :=
  if s.any p then some (byteLen (s.takeWhile fun c => !p c)) else none

/-- `str::rfind` for a set of characters. -/
def rfind (p : Char → Bool) (s : Text) : Option ℕ :=
  match s.reverse.dropWhile (fun c => !p c) with
  | [] => none
  | _ :: before => some (byteLen before)

/-! ## Lengths -/

@[simp] theorem byteLen_nil : byteLen [] = 0 := rfl

@[simp] theorem byteLen_cons (c : Char) (s : Text) : byteLen (c :: s) = c.utf8Size + byteLen s := by
  simp [byteLen]

@[simp] theorem byteLen_append (a b : Text) : byteLen (a ++ b) = byteLen a + byteLen b := by
  simp [byteLen]

@[simp] theorem byteLen_reverse (s : Text) : byteLen s.reverse = byteLen s := by
  simp [byteLen, List.sum_reverse]

/-- `str::as_bytes().len()`. -/
theorem length_encode (s : Text) : (Utf8.encode s).length = byteLen s := by
  induction s with
  | nil => rfl
  | cons c s ih => rw [Utf8.length_encode_cons, byteLen_cons, ih]

/-- An ASCII character takes one byte. -/
theorem utf8Size_ascii {c : Char} (h : isAscii c = true) : c.utf8Size = 1 := by
  have hlt : c.toNat < 128 := of_decide_eq_true h
  rw [Char.utf8Size_eq_one_iff]
  exact UInt32.le_iff_toNat_le.mpr (Nat.le_of_lt_succ hlt)

/-! ## Slices -/

theorem splitAt_zero (s : Text) : splitAt s 0 = .ok ([], s) := by
  cases s <;> rfl

/-- A cut behind a prefix. -/
theorem splitAt_append (a b : Text) : splitAt (a ++ b) (byteLen a) = .ok (a, b) := by
  induction a with
  | nil => exact splitAt_zero b
  | cons c a ih =>
    have hpos := c.utf8Size_pos
    obtain ⟨n, hn⟩ : ∃ n, byteLen (c :: a) = n + 1 := ⟨c.utf8Size - 1 + byteLen a, by
      rw [byteLen_cons]
      omega⟩
    have hrest : n + 1 - c.utf8Size = byteLen a := by
      rw [← hn, byteLen_cons]
      omega
    rw [hn, List.cons_append, splitAt, if_pos (by rw [← hn, byteLen_cons]; omega), hrest, ih]
    rfl

theorem sliceFrom_append (a b : Text) : sliceFrom (a ++ b) (byteLen a) = .ok b := by
  rw [sliceFrom, splitAt_append]
  rfl

theorem sliceTo_append (a b : Text) : sliceTo (a ++ b) (byteLen a) = .ok a := by
  rw [sliceTo, splitAt_append]
  rfl

theorem sliceRange_append (a b c : Text) :
    sliceRange (a ++ b ++ c) (byteLen a) (byteLen a + byteLen b) = .ok b := by
  rw [sliceRange, ← byteLen_append, sliceTo_append, ok_bind, sliceFrom_append]

theorem sliceTo_length (s : Text) : sliceTo s (byteLen s) = .ok s := by
  have h := sliceTo_append s []
  rwa [List.append_nil] at h

/-- What follows the prefix of these characters. -/
theorem sliceFrom_takeWhile (p : Char → Bool) (s : Text) :
    sliceFrom s (byteLen (s.takeWhile p)) = .ok (s.drop (s.takeWhile p).length) := by
  have hcut := sliceFrom_append (s.takeWhile p) (s.dropWhile p)
  have hdrop : (s.takeWhile p ++ s.dropWhile p).drop (s.takeWhile p).length = s.dropWhile p :=
    List.drop_left
  rw [List.takeWhile_append_dropWhile] at hcut hdrop
  rw [hcut, hdrop]

/-! ## Places -/

variable {p : Char → Bool} {s a b : Text}

/-- What `split_once` cuts at. -/
theorem splitOnce_eq_some (h : splitOnce p s = some (a, b)) :
    ∃ c, p c = true ∧ (∀ x ∈ a, p x = false) ∧ s = a ++ c :: b := by
  induction s generalizing a with
  | nil => cases h
  | cons c s ih =>
    by_cases hc : p c = true
    · rw [splitOnce, if_pos hc] at h
      cases h
      exact ⟨c, hc, by simp, rfl⟩
    · rw [splitOnce, if_neg hc, Option.map_eq_some_iff] at h
      obtain ⟨⟨a', b'⟩, hrest, heq⟩ := h
      cases heq
      obtain ⟨x, hx, hnone, rfl⟩ := ih hrest
      refine ⟨x, hx, fun y hy => ?_, rfl⟩
      rcases List.mem_cons.mp hy with rfl | hy
      · exact Bool.eq_false_iff.mpr hc
      · exact hnone y hy

theorem splitOnce_eq_none : splitOnce p s = none ↔ ∀ c ∈ s, p c = false := by
  induction s with
  | nil => simp [splitOnce]
  | cons c s ih =>
    by_cases hc : p c = true
    · simp [splitOnce, hc]
    · simp [splitOnce, hc, ih]

theorem takeWhile_not_append {c : Char} (ha : ∀ x ∈ a, p x = false) (hc : p c = true) :
    (a ++ c :: b).takeWhile (fun x => !p x) = a := by
  rw [List.takeWhile_append_of_pos fun x hx => by simp [ha x hx]]
  simp [hc]

theorem find_of_splitOnce (h : splitOnce p s = some (a, b)) : find p s = some (byteLen a) := by
  obtain ⟨c, hc, ha, rfl⟩ := splitOnce_eq_some h
  rw [find, if_pos (by simp [hc]), takeWhile_not_append ha hc]

theorem find_of_splitOnce_none (h : splitOnce p s = none) : find p s = none := by
  rw [find, if_neg]
  simpa using splitOnce_eq_none.mp h

/-- What `find` answers, or the whole length, is where the prefix without such characters ends. -/
theorem sliceTo_find (p : Char → Bool) (s : Text) :
    sliceTo s ((find p s).getD (byteLen s)) = .ok (s.takeWhile fun c => !p c) := by
  unfold find
  split_ifs with hany
  · have hcut := sliceTo_append (s.takeWhile fun c => !p c) (s.dropWhile fun c => !p c)
    rwa [List.takeWhile_append_dropWhile] at hcut
  · have hall : ∀ c ∈ s, (!p c) = true := by simpa using hany
    rw [List.takeWhile_eq_self_iff.mpr hall]
    exact sliceTo_length s

theorem rsplitOnce_eq_some (h : rsplitOnce p s = some (a, b)) :
    ∃ c, p c = true ∧ (∀ x ∈ b, p x = false) ∧ s = a ++ c :: b := by
  obtain ⟨⟨y, x⟩, hsplit, heq⟩ := Option.map_eq_some_iff.mp h
  cases heq
  obtain ⟨c, hc, hy, hs⟩ := splitOnce_eq_some hsplit
  refine ⟨c, hc, fun z hz => hy z (List.mem_reverse.mp hz), ?_⟩
  rw [← List.reverse_reverse s, hs]
  simp

theorem rfind_of_rsplitOnce (h : rsplitOnce p s = some (a, b)) : rfind p s = some (byteLen a) := by
  obtain ⟨c, hc, hb, rfl⟩ := rsplitOnce_eq_some h
  have hdrop : (a ++ c :: b).reverse.dropWhile (fun x => !p x) = c :: a.reverse := by
    rw [List.reverse_append, List.reverse_cons, List.append_assoc,
      List.dropWhile_append_of_pos fun x hx => by simp [hb x (List.mem_reverse.mp hx)]]
    simp [hc]
  simp only [rfind, hdrop, byteLen_reverse]

theorem rfind_of_rsplitOnce_none (h : rsplitOnce p s = none) : rfind p s = none := by
  have hnone : ∀ c ∈ s.reverse, p c = false := splitOnce_eq_none.mp (Option.map_eq_none_iff.mp h)
  have hdrop : s.reverse.dropWhile (fun x => !p x) = [] :=
    List.dropWhile_eq_nil_iff.mpr fun x hx => by simp [hnone x hx]
  simp only [rfind, hdrop]

end Kahawai.Core.Text
