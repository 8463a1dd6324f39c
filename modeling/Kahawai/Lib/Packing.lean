import Mathlib.Algebra.BigOperators.Group.List.Basic
import Mathlib.Algebra.Order.Monoid.Defs

/-!
# Packing whole pieces

Pieces are put into a bin one after another, until the bin is filled beyond a target; then
the next bin is opened. No piece is split.

Results:
* `sum_le_of_mem_pack`: a bin holds at most the target and one piece.
-/

namespace Kahawai.Lib.Packing

variable {K : Type*} [AddCommMonoid K] [LinearOrder K]

/-- The bins, of which the first has pieces already. -/
def packFrom (target : K) (bin : List K) : List K → List (List K)
  | [] => [bin]
  | piece :: pieces =>
    if target < (bin ++ [piece]).sum then (bin ++ [piece]) :: packFrom target [] pieces
    else packFrom target (bin ++ [piece]) pieces

/-- The bins of a sequence of pieces. -/
def pack (target : K) (pieces : List K) : List (List K) := packFrom target [] pieces

variable [IsOrderedAddMonoid K] {target largest : K} {bin pieces : List K}

/-- A bin that is not filled beyond the target takes one more piece. -/
theorem sum_le_of_mem_packFrom (hlargest : 0 ≤ largest) (hpieces : ∀ piece ∈ pieces, piece ≤ largest)
    (htarget : 0 ≤ target) (hbin : bin.sum ≤ target) :
    ∀ b ∈ packFrom target bin pieces, b.sum ≤ target + largest := by
  induction pieces generalizing bin with
  | nil =>
    intro b hb
    rw [List.mem_singleton.mp hb]
    exact hbin.trans (le_add_of_nonneg_right hlargest)
  | cons piece pieces ih =>
    have hrest : ∀ p ∈ pieces, p ≤ largest := fun p hp => hpieces p (List.mem_cons_of_mem _ hp)
    have hsum : (bin ++ [piece]).sum ≤ target + largest := by
      rw [List.sum_append, List.sum_singleton]
      exact add_le_add hbin (hpieces piece List.mem_cons_self)
    intro b hb
    unfold packFrom at hb
    split at hb
    · rcases List.mem_cons.mp hb with rfl | hb
      · exact hsum
      · exact ih hrest (by simpa using htarget) b hb
    · rename_i hfits
      exact ih hrest (not_lt.mp hfits) b hb

/-- A bin holds at most the target and one piece. -/
theorem sum_le_of_mem_pack (hlargest : 0 ≤ largest) (hpieces : ∀ piece ∈ pieces, piece ≤ largest)
    (htarget : 0 ≤ target) : ∀ b ∈ pack target pieces, b.sum ≤ target + largest :=
  sum_le_of_mem_packFrom hlargest hpieces htarget (by simpa using htarget)

end Kahawai.Lib.Packing
