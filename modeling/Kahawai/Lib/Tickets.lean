import Mathlib.Tactic.Common

/-!
# Numbered queues

A counter hands out numbers, and a first-in-first-out queue keeps the entries whose
numbers are out. `Numbered` says that these are the last ones, in their order; so the
first entry has the newest number exactly if it is alone.
-/

namespace Kahawai.Lib

variable {α : Type*} {number : α → ℕ} {last n : ℕ} {p : α} {ps : List α}

/-- The entries have the numbers after `n`, up to `last`. -/
def Numbered (number : α → ℕ) (last : ℕ) : ℕ → List α → Prop
  | n, [] => n = last
  | n, p :: ps => number p = n + 1 ∧ Numbered number last (n + 1) ps

theorem Numbered.add_length (h : Numbered number last n ps) : n + ps.length = last := by
  induction ps generalizing n with
  | nil => exact h
  | cons p ps ih =>
    have hrest := ih h.2
    rw [List.length_cons]
    omega

/-- An entry with the next number comes to the end. -/
theorem Numbered.append (h : Numbered number last n ps) (hp : number p = last + 1) :
    Numbered number (last + 1) n (ps ++ [p]) := by
  induction ps generalizing n with
  | nil =>
    obtain rfl : n = last := h
    exact ⟨hp, rfl⟩
  | cons q ps ih => exact ⟨h.1, ih h.2⟩

/-- The first entry is the newest exactly if there is no other. -/
theorem Numbered.head_eq_last_iff (h : Numbered number last n (p :: ps)) :
    number p = last ↔ ps = [] := by
  have hlength := h.2.add_length
  rw [h.1, ← List.length_eq_zero_iff]
  omega

end Kahawai.Lib
