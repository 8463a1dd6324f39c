import Mathlib.Data.List.Basic
import Mathlib.Tactic.Common

/-!
# Command lines

A program's arguments: a fixed number of positional ones, then flags, each alone or with a value
in the token behind it. A parser hands a command line back if it finds in the tokens what they
were written from; `read` is such a parser for any set of flags with names of their own.

Results:
* `read_tokens`: what was written is read.
* `valuesOf_append`, `valuesOf_option`: the values of a flag, part by part.
-/

namespace Kahawai.Lib.CommandLine

abbrev Token := List Char

/-- The flags of a program. -/
structure Flags (φ : Type*) where
  name : φ → Token
  takesValue : φ → Bool
  /-- The flag of a token. -/
  find : Token → Option φ
  find_name : ∀ f, find (name f) = some f

/-- A command line: the positional arguments and the flags with their values. -/
structure Line (φ : Type*) where
  positionals : List Token
  flags : List (φ × Option Token)

variable {φ : Type*} (s : Flags φ)

/-- The tokens of a flag. -/
def flagTokens (f : φ × Option Token) : List Token := s.name f.1 :: f.2.toList

/-- The tokens of a command line. -/
def Line.tokens (l : Line φ) : List Token := l.positionals ++ l.flags.flatMap (flagTokens s)

/-- The line has `n` positional arguments, and values where the flags take them. -/
structure Line.Fits (n : ℕ) (l : Line φ) : Prop where
  positionals : l.positionals.length = n
  flags : ∀ f ∈ l.flags, f.2.isSome = s.takesValue f.1

/-- A parser finds in the tokens the line that they were written from. -/
def HandsBack (n : ℕ) (parse : List Token → Option (Line φ)) (tokens : List Token) : Prop :=
  ∀ l : Line φ, l.Fits s n → l.tokens s = tokens → parse tokens = some l

/-! ## A parser -/

/-- The flags in the tokens. -/
def readFlags : List Token → Option (List (φ × Option Token))
  | [] => some []
  | [token] => do
    let f ← s.find token
    if s.takesValue f then none else some [(f, none)]
  | token :: value :: tokens => do
    let f ← s.find token
    if s.takesValue f then (readFlags tokens).map ((f, some value) :: ·)
    else (readFlags (value :: tokens)).map ((f, none) :: ·)

/-- The line in the tokens. -/
def read (n : ℕ) (tokens : List Token) : Option (Line φ) :=
  if tokens.length < n then none
  else (readFlags s (tokens.drop n)).map fun flags => ⟨tokens.take n, flags⟩

variable {s}

theorem readFlags_flagTokens {f : φ × Option Token} (h : f.2.isSome = s.takesValue f.1)
    (tokens : List Token) :
    readFlags s (flagTokens s f ++ tokens) = (readFlags s tokens).map (f :: ·) := by
  obtain ⟨f, value⟩ := f
  cases value with
  | some value =>
    have htakes : s.takesValue f = true := h.symm
    simp only [flagTokens, Option.toList_some, List.cons_append, List.nil_append, readFlags,
      s.find_name, Option.bind_eq_bind, Option.bind_some, htakes, if_true]
  | none =>
    have htakes : s.takesValue f = false := h.symm
    cases tokens with
    | nil => simp [flagTokens, readFlags, s.find_name, htakes]
    | cons token tokens =>
      simp only [flagTokens, Option.toList_none, List.cons_append, List.nil_append, readFlags,
        s.find_name, Option.bind_eq_bind, Option.bind_some, htakes, Bool.false_eq_true, if_false]

/-- What was written is read. -/
theorem read_tokens (n : ℕ) (tokens : List Token) : HandsBack s n (read s n) tokens := by
  rintro l hfits rfl
  have hflags : ∀ flags : List (φ × Option Token),
      (∀ f ∈ flags, f.2.isSome = s.takesValue f.1) →
        readFlags s (flags.flatMap (flagTokens s)) = some flags := by
    intro flags
    induction flags with
    | nil => exact fun _ => rfl
    | cons f flags ih =>
      intro h
      obtain ⟨hf, hrest⟩ := List.forall_mem_cons.1 h
      rw [List.flatMap_cons, readFlags_flagTokens hf, ih hrest]
      rfl
  have hlen : ¬(l.tokens s).length < n := by
    rw [Line.tokens, List.length_append, hfits.positionals]
    omega
  rw [read, if_neg hlen, Line.tokens, List.drop_left' hfits.positionals,
    List.take_left' hfits.positionals, hflags l.flags hfits.flags]
  rfl

/-! ## The values of a flag -/

section
variable [DecidableEq φ]

/-- The values of a flag, in the order of the line. -/
def valuesOf (f : φ) (flags : List (φ × Option Token)) : List Token :=
  flags.filterMap fun g => if g.1 = f then g.2 else none

/-- The flag is given. -/
def given (f : φ) (flags : List (φ × Option Token)) : Bool := flags.any fun g => g.1 = f

/-- The value of a flag that may be given once; `none` if it is given more than once. -/
def valueOf (f : φ) (flags : List (φ × Option Token)) : Option (Option Token) :=
  match valuesOf f flags with
  | [] => some none
  | [value] => some (some value)
  | _ => none

/-- A flag with its value, if there is one. -/
def option (f : φ) (value : Option Token) : List (φ × Option Token) :=
  value.toList.map fun v => (f, some v)

/-- A flag without a value. -/
def switch (f : φ) (on : Bool) : List (φ × Option Token) := if on then [(f, none)] else []

variable {f g : φ} {flags flags' : List (φ × Option Token)}

@[simp] theorem valuesOf_append :
    valuesOf f (flags ++ flags') = valuesOf f flags ++ valuesOf f flags' :=
  List.filterMap_append

@[simp] theorem valuesOf_option (value : Option Token) :
    valuesOf f (option g value) = if g = f then value.toList else [] := by
  cases value with
  | none => simp [valuesOf, option]
  | some v => by_cases h : g = f <;> simp [valuesOf, option, h]

@[simp] theorem valuesOf_switch (on : Bool) : valuesOf f (switch g on) = [] := by
  cases on <;> simp [valuesOf, switch]

@[simp] theorem given_append : given f (flags ++ flags') = (given f flags || given f flags') :=
  List.any_append

@[simp] theorem given_option (value : Option Token) :
    given f (option g value) = (decide (g = f) && value.isSome) := by
  cases value <;> simp [given, option]

@[simp] theorem given_switch (on : Bool) : given f (switch g on) = (decide (g = f) && on) := by
  cases on <;> simp [given, switch]

theorem valueOf_eq {value : Option Token} (h : valuesOf f flags = value.toList) :
    valueOf f flags = some value := by
  unfold valueOf
  rw [h]
  cases value <;> rfl

omit [DecidableEq φ] in
theorem option_fits {value : Option Token} (h : s.takesValue f = true) :
    ∀ x ∈ option f value, x.2.isSome = s.takesValue x.1 := by
  cases value <;> simp [option, h]

omit [DecidableEq φ] in
theorem switch_fits {on : Bool} (h : s.takesValue f = false) :
    ∀ x ∈ switch f on, x.2.isSome = s.takesValue x.1 := by
  cases on <;> simp [switch, h]

end

end Kahawai.Lib.CommandLine
