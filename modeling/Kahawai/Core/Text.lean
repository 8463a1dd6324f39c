import Mathlib.Data.List.Basic
import Mathlib.Data.Nat.Digits.Defs

/-!
# Text

Rust's `str` as a list of its characters, and the functions of the standard
library that the file-name and source-key code calls. Byte offsets of the code
always lie on character boundaries here, so they are modelled by cutting the
list; `byteLen` is the length in bytes where the code compares it.

The Unicode tables behind `char::is_alphanumeric` and `to_lowercase` are a
parameter. A `Unicode` carries what the tables say about ASCII.
-/

namespace Kahawai.Core

/-- A Rust `str` or `String`. -/
abbrev Text := List Char

/-- The comparison of texts that decides membership, under a name of its own. -/
instance lawfulBEqText : LawfulBEq Text := inferInstance

/-- A string literal. -/
def lit (s : String) : Text := s.toList

/-! ## Characters -/

/-- `char::is_ascii`. -/
def isAscii (c : Char) : Bool := c.toNat < 128

/-- `char::is_ascii_digit`. -/
def isAsciiDigit (c : Char) : Bool := '0' ≤ c && c ≤ '9'

/-- `char::is_ascii_alphabetic`. -/
def isAsciiAlphabetic (c : Char) : Bool := ('a' ≤ c && c ≤ 'z') || ('A' ≤ c && c ≤ 'Z')

/-- `char::is_ascii_alphanumeric`. -/
def isAsciiAlphanumeric (c : Char) : Bool := isAsciiAlphabetic c || isAsciiDigit c

/-- `char::to_ascii_lowercase`. -/
def charToAsciiLower (c : Char) : Char :=
  if 'A' ≤ c && c ≤ 'Z' then Char.ofNat (c.toNat + 32) else c

/-- `char::to_ascii_uppercase`. -/
def charToAsciiUpper (c : Char) : Char :=
  if 'a' ≤ c && c ≤ 'z' then Char.ofNat (c.toNat - 32) else c

/-- `char::is_whitespace`: the characters with the property `White_Space`. -/
def isWhitespace (c : Char) : Bool :=
  (9 ≤ c.toNat && c.toNat ≤ 13) || c.toNat = 0x20 || c.toNat = 0x85 || c.toNat = 0xA0 ||
    c.toNat = 0x1680 || (0x2000 ≤ c.toNat && c.toNat ≤ 0x200A) || c.toNat = 0x2028 ||
    c.toNat = 0x2029 || c.toNat = 0x202F || c.toNat = 0x205F || c.toNat = 0x3000

/-- The Unicode tables of the standard library. -/
structure Unicode where
  /-- `char::is_alphanumeric`. -/
  isAlphanumeric : Char → Bool
  /-- `char::to_lowercase`. -/
  charToLower : Char → Text
  /-- `str::to_lowercase`, which looks at the neighbours of a final sigma. -/
  toLower : Text → Text
  isAlphanumeric_ascii : ∀ c, isAscii c = true → isAlphanumeric c = isAsciiAlphanumeric c
  charToLower_ascii : ∀ c, isAscii c = true → charToLower c = [charToAsciiLower c]
  toLower_ascii : ∀ s : Text, (∀ c ∈ s, isAscii c = true) → toLower s = s.map charToAsciiLower

/-- Tables that know ASCII only. -/
def Unicode.ascii : Unicode where
  isAlphanumeric := isAsciiAlphanumeric
  charToLower c := [charToAsciiLower c]
  toLower s := s.map charToAsciiLower
  isAlphanumeric_ascii _ _ := rfl
  charToLower_ascii _ _ := rfl
  toLower_ascii _ _ := rfl

/-! ## Strings -/

namespace Text

/-- `str::len`. -/
def byteLen (s : Text) : ℕ := (s.map Char.utf8Size).sum

/-- `str::to_ascii_lowercase`. -/
def toAsciiLower (s : Text) : Text := s.map charToAsciiLower

/-- `str::to_ascii_uppercase`. -/
def toAsciiUpper (s : Text) : Text := s.map charToAsciiUpper

/-- `str::eq_ignore_ascii_case`. -/
def eqIgnoreAsciiCase (a b : Text) : Bool := toAsciiLower a = toAsciiLower b

/-- `str::trim_start_matches` for a set of characters. -/
def trimStartMatches (p : Char → Bool) (s : Text) : Text := s.dropWhile p

/-- `str::trim_end_matches` for a set of characters. -/
def trimEndMatches (p : Char → Bool) (s : Text) : Text := (s.reverse.dropWhile p).reverse

/-- `str::trim_matches` for a set of characters. -/
def trimMatches (p : Char → Bool) (s : Text) : Text := trimEndMatches p (trimStartMatches p s)

/-- `str::trim`. -/
def trim (s : Text) : Text := trimMatches isWhitespace s

/-- `str::trim_end`. -/
def trimEnd (s : Text) : Text := trimEndMatches isWhitespace s

/-- `str::strip_prefix` for a string. -/
def stripPrefix (pre s : Text) : Option Text :=
  if pre.isPrefixOf s then some (s.drop pre.length) else none

/-- `str::strip_prefix` for a set of characters. -/
def stripPrefixChar (p : Char → Bool) : Text → Option Text
  | [] => none
  | c :: s => if p c then some s else none

/-- `str::starts_with` for a string. -/
def startsWith (pre s : Text) : Bool := pre.isPrefixOf s

/-- `str::ends_with` for a set of characters. -/
def endsWithChar (p : Char → Bool) (s : Text) : Bool := s.getLast?.any p

/-- `str::split_once` for a set of characters: around the first of them. -/
def splitOnce (p : Char → Bool) : Text → Option (Text × Text)
  | [] => none
  | c :: s =>
    if p c then some ([], s)
    else (splitOnce p s).map fun (a, b) => (c :: a, b)

/-- `str::rsplit_once` for a character: around the last of them. -/
def rsplitOnce (p : Char → Bool) (s : Text) : Option (Text × Text) :=
  (splitOnce p s.reverse).map fun (b, a) => (a.reverse, b.reverse)

/-- `str::split` for a set of characters. -/
def split (p : Char → Bool) (s : Text) : List Text := s.splitOnP p

/-- `str::split('/')`. -/
def components (s : Text) : List Text := s.splitOn '/'

/-- `[..].join("/")`. -/
def joinPath (parts : List Text) : Text := ['/'].intercalate parts

/-- `str::split_whitespace`. -/
def splitWhitespace (s : Text) : List Text :=
  (split isWhitespace s).filter fun word => !word.isEmpty

/-- `str::split` for a string: what comes before, between and after the
    leftmost non-overlapping occurrences of `sep`. `skip` counts characters of
    the occurrence that is being passed. -/
def splitStrFrom (sep : Text) : (skip : ℕ) → Text → Text → List Text
  | _, acc, [] => [acc.reverse]
  | skip + 1, acc, _ :: s => splitStrFrom sep skip acc s
  | 0, acc, c :: s =>
    if sep.isPrefixOf (c :: s) then acc.reverse :: splitStrFrom sep (sep.length - 1) [] s
    else splitStrFrom sep 0 (c :: acc) s

/-- `str::split` for a string. -/
def splitStr (sep s : Text) : List Text := splitStrFrom sep 0 [] s

/-- `[..].join(sep)`. -/
def join (sep : Text) (parts : List Text) : Text := sep.intercalate parts

/-- The value of a string of ASCII digits. -/
def digitsValue (s : Text) : ℕ := s.foldl (fun n c => 10 * n + (c.toNat - '0'.toNat)) 0

/-- `str::parse` for an unsigned type of values below `bound`: an optional plus
    sign and at least one digit. -/
def parseUnsigned (bound : ℕ) (s : Text) : Option ℕ :=
  let digits := (stripPrefixChar (· = '+') s).getD s
  if digits.isEmpty || !digits.all isAsciiDigit then none
  else if digitsValue digits < bound then some (digitsValue digits) else none

/-- `str::parse::<u32>`. -/
def parseU32 (s : Text) : Option ℕ := parseUnsigned (2 ^ 32) s

/-- `str::parse::<u16>`. -/
def parseU16 (s : Text) : Option ℕ := parseUnsigned (2 ^ 16) s

/-- `str::parse` for a signed type of `bits` bits. -/
def parseSigned (bits : ℕ) (s : Text) : Option ℤ :=
  match stripPrefixChar (· = '-') s with
  | some digits =>
    if digits.isEmpty || !digits.all isAsciiDigit then none
    else if digitsValue digits ≤ 2 ^ (bits - 1) then some (-(digitsValue digits : ℤ)) else none
  | none => (parseUnsigned (2 ^ (bits - 1)) s).map Int.ofNat

/-- `str::get(..n)`: the prefix of `n` bytes, if it ends between characters. -/
def bytePrefix : Text → ℕ → Option Text
  | _, 0 => some []
  | [], _ + 1 => none
  | c :: s, n + 1 =>
    if c.utf8Size ≤ n + 1 then (bytePrefix s (n + 1 - c.utf8Size)).map (c :: ·) else none

/-- A decimal number, as `format!("{}")` writes it. -/
def ofNat (n : ℕ) : Text := Nat.toDigits 10 n

end Text

theorem splitOn_join {parts : List Text} (hne : parts ≠ []) (h : ∀ part ∈ parts, '/' ∉ part) :
    Text.components (Text.joinPath parts) = parts :=
  List.splitOn_intercalate '/' h hne

theorem join_components (s : Text) : Text.joinPath (Text.components s) = s :=
  List.intercalate_splitOn '/'

theorem components_ne_nil (s : Text) : Text.components s ≠ [] := List.splitOn_ne_nil _ _

theorem not_mem_components {s part : Text} (h : part ∈ Text.components s) : '/' ∉ part := by
  unfold Text.components at h
  induction s generalizing part with
  | nil =>
    rw [List.splitOn_nil, List.mem_singleton] at h
    simp [h]
  | cons c s ih =>
    rw [List.splitOn_cons_eq_if_modifyHead] at h
    split_ifs at h with hc
    · rcases List.mem_cons.mp h with rfl | h
      · simp
      · exact ih h
    · obtain ⟨first, rest, hsplit⟩ := List.exists_cons_of_ne_nil (List.splitOn_ne_nil '/' s)
      rw [hsplit] at h ih
      rcases List.mem_cons.mp h with rfl | h
      · have hfirst := ih (List.mem_cons_self ..)
        have hne : '/' ≠ c := fun hslash => hc (beq_iff_eq.mpr hslash.symm)
        simp [hfirst, hne]
      · exact ih (List.mem_cons_of_mem _ h)

/-- Paths are equal when their components are. -/
theorem joinPath_inj {parts parts' : List Text} (h : ∀ part ∈ parts, '/' ∉ part)
    (h' : ∀ part ∈ parts', '/' ∉ part) (hne : parts ≠ []) (hne' : parts' ≠ []) :
    Text.joinPath parts = Text.joinPath parts' ↔ parts = parts' := by
  constructor
  · intro heq
    rw [← splitOn_join hne h, heq, splitOn_join hne' h']
  · exact fun heq => heq ▸ rfl

end Kahawai.Core
