import Mathlib.Tactic.Common

/-!
# Blanks and comments

A reader of a language with line comments behind `--` and block comments between `/*` and `*/`
skips blanks and comments before it takes a word. Readers differ in the characters they call
blank and in the characters that end a line comment: these are a parameter.

Results:
* `skip_line`, `skip_block`: a comment is skipped up to its first end.
* `skip_dropWhile`, `skip_eq_self`: blanks are skipped, and what is neither blank nor comment
  is not.
-/

namespace Kahawai.Lib.Lexing

/-- The characters a reader takes for blank, and those that end a line comment. -/
structure Trivia where
  blank : Char → Bool
  lineEnd : Char → Bool
  /-- Comments are not blank. -/
  dash : blank '-' = false
  slash : blank '/' = false

/-- Where the reader is. -/
inductive Mode
  | code
  | line
  | block

/-- What is left behind the blanks and comments. A comment without an end leaves nothing. -/
def skip (t : Trivia) : Mode → List Char → List Char
  | _, [] => []
  | .code, '-' :: '-' :: s => skip t .line s
  | .code, '/' :: '*' :: s => skip t .block s
  | .code, c :: s => if t.blank c then skip t .code s else c :: s
  | .line, c :: s => if t.lineEnd c then skip t .code s else skip t .line s
  | .block, '*' :: '/' :: s => skip t .code s
  | .block, _ :: s => skip t .block s

/-- What follows the first character of a kind. -/
def afterChar (p : Char → Bool) : List Char → Option (List Char)
  | [] => none
  | c :: s => if p c then some s else afterChar p s

/-- What follows the first `*/`. -/
def afterClose : List Char → Option (List Char)
  | [] => none
  | '*' :: '/' :: s => some s
  | _ :: s => afterClose s

/-- No comment begins here. -/
def NoComment (s : List Char) : Prop := ¬ ['-', '-'] <+: s ∧ ¬ ['/', '*'] <+: s

variable {t : Trivia} {s : List Char}

@[simp] theorem skip_nil (t : Trivia) (m : Mode) : skip t m [] = [] := by
  cases m <;> rfl

/-- Where no comment begins, and where none ends. -/
theorem skip_cons (c : Char) (s : List Char) :
    ((∀ s', c = '-' → s = '-' :: s' → False) → (∀ s', c = '/' → s = '*' :: s' → False) →
      skip t .code (c :: s) = if t.blank c then skip t .code s else c :: s) ∧
      skip t .line (c :: s) = (if t.lineEnd c then skip t .code s else skip t .line s) ∧
      ((∀ s', c = '*' → s = '/' :: s' → False) → skip t .block (c :: s) = skip t .block s) := by
  refine ⟨fun hline hblock => ?_, ?_, fun hclose => ?_⟩
  · rw [skip]
    · exact hline
    · exact hblock
  · rw [skip]
  · rw [skip]
    exact hclose

theorem skip_line : skip t .line s = ((afterChar t.lineEnd s).map (skip t .code)).getD [] := by
  induction s with
  | nil => rfl
  | cons c s ih =>
    rw [(skip_cons c s).2.1, afterChar]
    split_ifs
    · rfl
    · exact ih

theorem skip_block : skip t .block s = ((afterClose s).map (skip t .code)).getD [] := by
  fun_induction afterClose s with
  | case1 => rfl
  | case2 s => rfl
  | case3 c s hne ih =>
    rw [(skip_cons c s).2.2 hne]
    exact ih

/-- Where no comment begins. -/
theorem skip_code_cons {c : Char} (hline : ∀ s', c = '-' → s = '-' :: s' → False)
    (hblock : ∀ s', c = '/' → s = '*' :: s' → False) :
    skip t .code (c :: s) = if t.blank c then skip t .code s else c :: s :=
  (skip_cons c s).1 hline hblock

theorem skip_cons_of_blank {c : Char} (h : t.blank c = true) :
    skip t .code (c :: s) = skip t .code s := by
  have hdash : c ≠ '-' := by
    rintro rfl
    exact absurd h (by simp [t.dash])
  have hslash : c ≠ '/' := by
    rintro rfl
    exact absurd h (by simp [t.slash])
  rw [skip_code_cons (fun _ heq => absurd heq hdash) (fun _ heq => absurd heq hslash), if_pos h]

theorem skip_cons_of_not_blank {c : Char} (hline : ∀ s', c = '-' → s = '-' :: s' → False)
    (hblock : ∀ s', c = '/' → s = '*' :: s' → False) (h : t.blank c = false) :
    skip t .code (c :: s) = c :: s := by
  rw [skip_code_cons hline hblock, if_neg (by simp [h])]

theorem skip_dropWhile : skip t .code (s.dropWhile t.blank) = skip t .code s := by
  induction s with
  | nil => rfl
  | cons c s ih =>
    rw [List.dropWhile_cons]
    split_ifs with h
    · rw [ih, skip_cons_of_blank h]
    · rfl

/-- What is neither blank nor comment is left. -/
theorem skip_eq_self (hcomment : NoComment s) (hblank : ∀ c ∈ s.head?, t.blank c = false) :
    skip t .code s = s := by
  cases s with
  | nil => rfl
  | cons c s =>
    apply skip_cons_of_not_blank _ _ (hblank c rfl)
    · rintro s' rfl rfl
      exact hcomment.1 ⟨s', rfl⟩
    · rintro s' rfl rfl
      exact hcomment.2 ⟨s', rfl⟩

end Kahawai.Lib.Lexing
