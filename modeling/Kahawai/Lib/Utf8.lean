import Mathlib.Data.List.Induction
import Mathlib.Tactic.Common

/-!
# UTF-8

The encoding of a list of characters, and the decoder that takes any bytes: it writes
U+FFFD for each longest piece that begins like a character and is none.

Results:
* `fromUtf8Lossy_encode`: what was encoded is read back.
* `encode_fromUtf8Lossy`: the bytes come back exactly when they are an encoding.
* `encode_ascii`, `encode_eq_append`: ASCII characters are their codes, and ASCII bytes at the end of
  an encoding are characters.
-/

namespace Kahawai.Lib.Utf8

/-- The bytes of the characters. -/
def encode (s : List Char) : List UInt8 := s.flatMap String.utf8EncodeChar

/-- The bytes are an encoding. -/
def Valid (bytes : List UInt8) : Prop := ∃ s, encode s = bytes

/-- The character that the bytes begin with. -/
def decodeChar (bytes : List UInt8) : Option Char := bytes.toByteArray.utf8DecodeChar? 0

/-- The bytes that may follow a first byte of a character of more than one byte; the other
    bytes of the character are `80` to `BF`. -/
def secondBytes (first : UInt8) : UInt8 × UInt8 :=
  if first = 0xE0 then (0xA0, 0xBF)
  else if first = 0xED then (0x80, 0x9F)
  else if first = 0xF0 then (0x90, 0xBF)
  else if first = 0xF4 then (0x80, 0x8F)
  else (0x80, 0xBF)

/-- How many bytes a character takes that begins so. -/
def width (first : UInt8) : ℕ :=
  if first < 0x80 then 1
  else if 0xC2 ≤ first ∧ first ≤ 0xDF then 2
  else if 0xE0 ≤ first ∧ first ≤ 0xEF then 3
  else if 0xF0 ≤ first ∧ first ≤ 0xF4 then 4
  else 0

/-- The longest piece that begins like a character, where no character begins. -/
def brokenLength : List UInt8 → ℕ
  | first :: second :: rest =>
    let range := secondBytes first
    if 2 ≤ width first ∧ range.1 ≤ second ∧ second ≤ range.2 then
      2 + ((rest.take (width first - 3)).takeWhile fun b => 0x80 ≤ b && b ≤ 0xBF).length
    else 1
  | _ => 1

/-- `String::from_utf8_lossy`, at most `fuel` characters of it. -/
def lossyFrom : (fuel : ℕ) → List UInt8 → List Char
  | 0, _ => []
  | _, [] => []
  | fuel + 1, bytes =>
    match decodeChar bytes with
    | some c => c :: lossyFrom fuel (bytes.drop c.utf8Size)
    | none => '\uFFFD' :: lossyFrom fuel (bytes.drop (brokenLength bytes))

/-- `String::from_utf8_lossy`: a character takes a byte at least. -/
def fromUtf8Lossy (bytes : List UInt8) : List Char := lossyFrom bytes.length bytes

/-! ## Encodings -/

@[simp] theorem encode_nil : encode [] = [] := rfl

@[simp] theorem encode_cons (c : Char) (s : List Char) :
    encode (c :: s) = String.utf8EncodeChar c ++ encode s := List.flatMap_cons

theorem valid_encode (s : List Char) : Valid (encode s) := ⟨s, rfl⟩

theorem length_encode_cons (c : Char) (s : List Char) :
    (encode (c :: s)).length = c.utf8Size + (encode s).length := by
  rw [encode_cons, List.length_append, String.length_utf8EncodeChar]

theorem decodeChar_encode_cons (c : Char) (s : List Char) :
    decodeChar (encode (c :: s)) = some c := by
  unfold decodeChar
  rw [encode_cons, List.toByteArray_append]
  exact ByteArray.utf8DecodeChar?_utf8EncodeChar_append

/-- One round of the decoder over an encoding. -/
theorem lossyFrom_encode (s : List Char) {fuel : ℕ} (h : (encode s).length ≤ fuel) :
    lossyFrom fuel (encode s) = s := by
  induction s generalizing fuel with
  | nil => cases fuel <;> rfl
  | cons c s ih =>
    rw [length_encode_cons] at h
    have hsize := c.utf8Size_pos
    obtain ⟨fuel, rfl⟩ : ∃ n, fuel = n + 1 := ⟨fuel - 1, by omega⟩
    have hne : encode (c :: s) ≠ [] := by
      rw [← List.length_pos_iff, length_encode_cons]
      omega
    have hrest : (encode (c :: s)).drop c.utf8Size = encode s := by
      rw [encode_cons, ← String.length_utf8EncodeChar c]
      exact List.drop_left
    have hround : lossyFrom (fuel + 1) (encode (c :: s)) =
        c :: lossyFrom fuel ((encode (c :: s)).drop c.utf8Size) := by
      obtain ⟨b, bytes, hbytes⟩ := List.exists_cons_of_ne_nil hne
      have hchar := decodeChar_encode_cons c s
      rw [hbytes] at hchar ⊢
      simp only [lossyFrom, hchar]
    rw [hround, hrest, ih (by omega)]

/-- Reading back what was encoded. -/
theorem fromUtf8Lossy_encode (s : List Char) : fromUtf8Lossy (encode s) = s :=
  lossyFrom_encode s (Nat.le_refl _)

/-- The bytes come back exactly when they are an encoding. -/
theorem encode_fromUtf8Lossy {bytes : List UInt8} :
    encode (fromUtf8Lossy bytes) = bytes ↔ Valid bytes := by
  constructor
  · intro h
    exact ⟨_, h⟩
  · rintro ⟨s, rfl⟩
    rw [fromUtf8Lossy_encode]

/-- Encodings of different texts differ. -/
theorem encode_injective : Function.Injective encode :=
  Function.LeftInverse.injective fromUtf8Lossy_encode

/-! ## ASCII -/

theorem encodeChar_ascii {c : Char} (h : c.toNat < 128) :
    String.utf8EncodeChar c = [UInt8.ofNat c.toNat] := by
  unfold String.utf8EncodeChar
  exact if_pos (Nat.le_of_lt_succ h)

/-- Every byte of a character past ASCII has its high bit set. -/
theorem le_of_mem_encodeChar {c : Char} {b : UInt8} (h : 128 ≤ c.toNat)
    (hb : b ∈ String.utf8EncodeChar c) : 128 ≤ b.toNat := by
  have hpast : ¬ c.val.toNat ≤ 0x7f := by
    have hval : c.toNat = c.val.toNat := rfl
    omega
  unfold String.utf8EncodeChar at hb
  simp only [if_neg hpast] at hb
  split_ifs at hb <;> simp only [List.mem_cons, List.not_mem_nil, or_false] at hb
  · rcases hb with rfl | rfl <;> rw [UInt8.toNat_ofNat'] <;> omega
  · rcases hb with rfl | rfl | rfl <;> rw [UInt8.toNat_ofNat'] <;> omega
  · rcases hb with rfl | rfl | rfl | rfl <;> rw [UInt8.toNat_ofNat'] <;> omega

@[simp] theorem encode_append (s t : List Char) : encode (s ++ t) = encode s ++ encode t :=
  List.flatMap_append

/-- An ASCII byte at the end is the last character. -/
theorem encode_eq_append_ascii {s : List Char} {bytes : List UInt8} {b : UInt8}
    (h : encode s = bytes ++ [b]) (hb : b.toNat < 128) :
    ∃ s' c, s = s' ++ [c] ∧ c.toNat = b.toNat ∧ encode s' = bytes := by
  rcases List.eq_nil_or_concat s with rfl | ⟨s', c, rfl⟩
  · simp at h
  rw [List.concat_eq_append] at h ⊢
  rw [encode_append, encode_cons, encode_nil, List.append_nil] at h
  by_cases hc : c.toNat < 128
  · rw [encodeChar_ascii hc] at h
    obtain ⟨hbytes, hlast⟩ := List.append_inj' h rfl
    refine ⟨s', c, rfl, ?_, hbytes⟩
    rw [← (List.cons.inj hlast).1, UInt8.toNat_ofNat']
    omega
  · have hmem : b ∈ String.utf8EncodeChar c := by
      have hne : String.utf8EncodeChar c ≠ [] := String.utf8EncodeChar_ne_nil
      have hlast : (String.utf8EncodeChar c).getLast hne = b := by
        rw [← List.getLast_append_of_ne_nil (l := encode s') (by simp [hne]) hne]
        simp only [h, List.getLast_concat]
      exact hlast ▸ List.getLast_mem hne
    have := le_of_mem_encodeChar (Nat.le_of_not_lt hc) hmem
    omega

theorem encode_ascii {s : List Char} (h : ∀ c ∈ s, c.toNat < 128) :
    encode s = s.map fun c => UInt8.ofNat c.toNat := by
  induction s with
  | nil => rfl
  | cons c s ih =>
    rw [encode_cons, encodeChar_ascii (h c List.mem_cons_self),
      ih fun x hx => h x (List.mem_cons_of_mem _ hx), List.map_cons, List.singleton_append]

/-- ASCII bytes at the end are the last characters. -/
theorem encode_eq_append {s : List Char} {before bytes : List UInt8}
    (h : encode s = before ++ bytes) (hascii : ∀ b ∈ bytes, b.toNat < 128) :
    ∃ s' m, s = s' ++ m ∧ encode s' = before ∧ (∀ c ∈ m, c.toNat < 128) ∧ encode m = bytes := by
  induction bytes using List.reverseRecOn generalizing s with
  | nil => exact ⟨s, [], by simp, by simpa using h, by simp, rfl⟩
  | append_singleton bytes b ih =>
    rw [← List.append_assoc] at h
    obtain ⟨s₁, c, rfl, hc, hs₁⟩ := encode_eq_append_ascii h (hascii b (by simp))
    obtain ⟨s', m, rfl, hs', hm, hbytes⟩ := ih hs₁ fun x hx => hascii x (List.mem_append_left _ hx)
    have hlt : c.toNat < 128 := hc ▸ hascii b (by simp)
    refine ⟨s', m ++ [c], by simp, hs', fun x hx => ?_, ?_⟩
    · rcases List.mem_append.mp hx with hx | hx
      · exact hm x hx
      · exact List.mem_singleton.mp hx ▸ hlt
    · rw [encode_append, hbytes, encode_cons, encodeChar_ascii hlt, encode_nil, hc, UInt8.ofNat_toNat]
      rfl

example : fromUtf8Lossy [0x4B, 0xE2, 0x82, 0x41, 0xFF] = ['K', '\uFFFD', 'A', '\uFFFD'] := by decide

end Kahawai.Lib.Utf8
