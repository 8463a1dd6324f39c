import Mathlib.Data.List.Infix
import Mathlib.Algebra.GroupWithZero.Nat
import Mathlib.Tactic.Common

/-!
# Byte codes

Numbers of a fixed width in little-endian order, byte strings behind their length, and codes
whose words can be told apart in a longer string: `SelfDelimiting`. Such codes compose, so a
format made of them has one reading at most.

Results:
* `le_ofLe`, `ofLe_le`: a number and its bytes determine each other.
* `SelfDelimiting.map_append`, `SelfDelimiting.flatMap_prefix`: fields one after the other, and
  a list of words.
-/

namespace Kahawai.Lib.Codec

abbrev Bytes := List UInt8

/-! ## Numbers -/

/-- `to_le_bytes` of a number of `width` bytes. -/
def le : (width : ℕ) → ℕ → Bytes
  | 0, _ => []
  | width + 1, n => UInt8.ofNat n :: le width (n / 256)

/-- `from_le_bytes`. -/
def ofLe : Bytes → ℕ
  | [] => 0
  | b :: bytes => b.toNat + 256 * ofLe bytes

@[simp] theorem length_le (width n : ℕ) : (le width n).length = width := by
  induction width generalizing n with
  | zero => rfl
  | succ width ih => simp [le, ih]

theorem ofLe_lt (bytes : Bytes) : ofLe bytes < 256 ^ bytes.length := by
  induction bytes with
  | nil => simp [ofLe]
  | cons b bytes ih =>
    have hb := b.toNat_lt
    simp only [ofLe, List.length_cons, pow_succ]
    omega

theorem ofLe_le {width n : ℕ} (h : n < 256 ^ width) : ofLe (le width n) = n := by
  induction width generalizing n with
  | zero =>
    rw [pow_zero] at h
    simp only [le, ofLe]
    omega
  | succ width ih =>
    have hrest : n / 256 < 256 ^ width := by
      rw [pow_succ] at h
      omega
    simp only [le, ofLe, ih hrest, UInt8.toNat_ofNat']
    omega

theorem le_ofLe (bytes : Bytes) : le bytes.length (ofLe bytes) = bytes := by
  induction bytes with
  | nil => rfl
  | cons b bytes ih =>
    have hb := b.toNat_lt
    have hrest : (b.toNat + 256 * ofLe bytes) / 256 = ofLe bytes := by omega
    have hfirst : UInt8.ofNat (b.toNat + 256 * ofLe bytes) = b := by
      apply UInt8.toNat_inj.mp
      rw [UInt8.toNat_ofNat']
      omega
    simp only [List.length_cons, le, ofLe, hrest, hfirst, ih]

theorem le_injOn {width m n : ℕ} (hm : m < 256 ^ width) (hn : n < 256 ^ width)
    (h : le width m = le width n) : m = n := by
  rw [← ofLe_le hm, h, ofLe_le hn]

/-- A byte string behind its length. -/
def counted (width : ℕ) (bytes : Bytes) : Bytes := le width bytes.length ++ bytes

/-! ## Codes -/

section SelfDelimiting

variable {α β ι : Type} {ok : α → Prop} {code : α → List β}

/-- Where a string goes on like another one, both begin with the same word. -/
def SelfDelimiting (ok : α → Prop) (code : α → List β) : Prop :=
  ∀ ⦃a b : α⦄, ok a → ok b → ∀ ⦃x y : List β⦄, code a ++ x <+: code b ++ y → a = b ∧ x <+: y

/-- Words of one length. -/
theorem SelfDelimiting.of_length (n : ℕ) (hlength : ∀ a, ok a → (code a).length = n)
    (hinj : ∀ a b, ok a → ok b → code a = code b → a = b) : SelfDelimiting ok code := by
  intro a b ha hb x y h
  have hab : code a = code b := by
    have hpre : code a <+: code b ++ y := (List.prefix_append _ _).trans h
    have hle : (code a).length ≤ (code b).length := (hlength a ha).trans (hlength b hb).symm |>.le
    exact (List.prefix_of_prefix_length_le hpre (List.prefix_append _ _) hle).eq_of_length
      ((hlength a ha).trans (hlength b hb).symm)
  rw [hab] at h
  exact ⟨hinj a b ha hb hab, (List.prefix_append_right_inj _).mp h⟩

/-- Two fields of a record, the second after the first. -/
theorem SelfDelimiting.map_append {γ δ : Type} {ok' : γ → Prop} {ok'' : δ → Prop}
    {code' : γ → List β} {code'' : δ → List β} (h' : SelfDelimiting ok' code')
    (h'' : SelfDelimiting ok'' code'') (f : α → γ) (g : α → δ)
    (hok : ∀ a, ok a → ok' (f a) ∧ ok'' (g a))
    (hext : ∀ a b, ok a → ok b → f a = f b → g a = g b → a = b) :
    SelfDelimiting ok fun a => code' (f a) ++ code'' (g a) := by
  intro a b ha hb x y h
  simp only [List.append_assoc] at h
  obtain ⟨hf, h⟩ := h' (hok a ha).1 (hok b hb).1 h
  obtain ⟨hg, h⟩ := h'' (hok a ha).2 (hok b hb).2 h
  exact ⟨hext a b ha hb hf hg, h⟩

/-- Lists of words: a prefix that ends between words is made of the first words. -/
theorem SelfDelimiting.flatMap_prefix (h : SelfDelimiting ok code) {as bs : List α}
    (hne : ∀ a ∈ as, code a ≠ []) (has : ∀ a ∈ as, ok a) (hbs : ∀ b ∈ bs, ok b)
    (hpre : as.flatMap code <+: bs.flatMap code) : as <+: bs := by
  induction as generalizing bs with
  | nil => exact List.nil_prefix
  | cons a as ih =>
    rw [List.flatMap_cons] at hpre
    cases bs with
    | nil =>
      rw [List.flatMap_nil, List.prefix_nil] at hpre
      exact absurd (List.append_eq_nil_iff.mp hpre).1 (hne a List.mem_cons_self)
    | cons b bs =>
      rw [List.flatMap_cons] at hpre
      obtain ⟨rfl, hrest⟩ := h (has a List.mem_cons_self) (hbs b List.mem_cons_self) hpre
      rw [List.prefix_cons_inj]
      exact ih (fun a ha => hne a (List.mem_cons_of_mem _ ha))
        (fun a ha => has a (List.mem_cons_of_mem _ ha))
        (fun b hb => hbs b (List.mem_cons_of_mem _ hb)) hrest

end SelfDelimiting

theorem selfDelimiting_le (width : ℕ) : SelfDelimiting (· < 256 ^ width) (le width) :=
  .of_length width (fun n _ => length_le width n) fun _ _ hm hn => le_injOn hm hn

theorem selfDelimiting_counted (width : ℕ) :
    SelfDelimiting (fun bytes : Bytes => bytes.length < 256 ^ width) (counted width) := by
  intro a b ha hb x y h
  unfold counted at h
  rw [List.append_assoc, List.append_assoc] at h
  obtain ⟨hlength, h⟩ := selfDelimiting_le width ha hb h
  have hab : a = b :=
    (List.prefix_of_prefix_length_le ((List.prefix_append _ _).trans h) (List.prefix_append _ _)
      hlength.le).eq_of_length hlength
  subst hab
  exact ⟨rfl, (List.prefix_append_right_inj _).mp h⟩

end Kahawai.Lib.Codec
