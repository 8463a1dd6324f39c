import Mathlib.Data.List.Sort
import Mathlib.Tactic.Common

/-!
# Keyset pagination

A reader pages through rows that are sorted by a version: a page is the first
`limit` rows whose version exceeds that of the last row read, and one row more
is fetched to see whether another page follows. If no two rows have the same
version, a page and the rows after its last row are the rows it was taken from
(`page_append`), so that nothing is lost or read twice at a page boundary.

* `sorted_of_distinct`: rows sorted by an order that refines the version are
  strictly increasing in version when their versions are distinct.

A reader of the second kind skips an offset and takes a limit, over rows that come in
blocks (`slice_of_skipped`, `slice_of_block`); its pages in a row are all rows
(`flatMap_slices`).
-/

namespace Kahawai.Lib.Paging

variable {α : Type*} (version : α → ℕ)

/-- The rows after a version. -/
def rowsAfter (after : ℕ) (rows : List α) : List α := rows.filter fun r => after < version r

/-- Rows in order, no two with the same version. -/
abbrev Increasing (rows : List α) : Prop := rows.Pairwise fun a b => version a < version b

theorem rowsAfter_zero {rows : List α} (h : ∀ r ∈ rows, 0 < version r) :
    rowsAfter version 0 rows = rows :=
  List.filter_eq_self.mpr fun r hr => by simpa using h r hr

theorem rowsAfter_rowsAfter {after after' : ℕ} (h : after ≤ after') (rows : List α) :
    rowsAfter version after' (rowsAfter version after rows) = rowsAfter version after' rows := by
  unfold rowsAfter
  rw [List.filter_filter]
  apply List.filter_congr
  intro r _
  by_cases hr : after' < version r
  · simp [hr, show after < version r by omega]
  · simp [hr]

/-- The rows after the last row of a prefix are the other rows. -/
theorem rowsAfter_getLast {page rest : List α} (h : Increasing version (page ++ rest))
    (hpage : page ≠ []) :
    rowsAfter version (version (page.getLast hpage)) (page ++ rest) = rest := by
  rw [Increasing, List.pairwise_append] at h
  unfold rowsAfter
  rw [List.filter_append, List.filter_eq_nil_iff.mpr, List.nil_append, List.filter_eq_self]
  · intro r hr
    simpa using h.2.2 _ (List.getLast_mem hpage) r hr
  · intro r hr
    rw [decide_eq_true_eq, not_lt]
    rw [← List.dropLast_append_getLast hpage, List.mem_append, List.mem_singleton] at hr
    rcases hr with hr | rfl
    · rw [← List.dropLast_append_getLast hpage, List.pairwise_append] at h
      exact (h.1.2.2 r hr _ (List.mem_singleton_self _)).le
    · exact le_rfl

/-- A page and the rows after its last row are the rows it was taken from. -/
theorem page_append {rows : List α} (hrows : Increasing version rows) {after limit : ℕ}
    {page : List α} (hpage : page = (rowsAfter version after rows).take limit) (hne : page ≠ []) :
    page ++ rowsAfter version (version (page.getLast hne)) rows = rowsAfter version after rows := by
  have hsplit : page ++ (rowsAfter version after rows).drop limit =
      rowsAfter version after rows := by
    rw [hpage, List.take_append_drop]
  have hincreasing : Increasing version (page ++ (rowsAfter version after rows).drop limit) := by
    rw [hsplit]
    exact hrows.sublist List.filter_sublist
  have hlast := rowsAfter_getLast version hincreasing hne
  rw [hsplit] at hlast
  have hafter : after < version (page.getLast hne) := by
    have hmem : page.getLast hne ∈ rowsAfter version after rows := by
      rw [← hsplit]
      exact List.mem_append_left _ (List.getLast_mem hne)
    simpa [rowsAfter] using (List.mem_filter.mp hmem).2
  rw [← rowsAfter_rowsAfter version hafter.le, hlast, hsplit]

/-- Sorting by an order that refines the version. -/
theorem sorted_of_distinct {r : α → α → Prop} [DecidableRel r] [Std.Total r] [IsTrans α r]
    (hle : ∀ a b, r a b → version a ≤ version b) {rows : List α} (hnodup : rows.Nodup)
    (hinj : ∀ a ∈ rows, ∀ b ∈ rows, version a = version b → a = b) :
    Increasing version (rows.insertionSort r) := by
  have hsorted := List.pairwise_insertionSort r rows
  have hperm := List.perm_insertionSort r rows
  have hdistinct : (rows.insertionSort r).Nodup := hperm.nodup_iff.mpr hnodup
  refine (hsorted.and hdistinct).imp_of_mem ?_
  rintro a b ha hb ⟨hr, hne⟩
  refine lt_of_le_of_ne (hle a b hr) fun heq => hne ?_
  exact hinj a (hperm.mem_iff.mp ha) b (hperm.mem_iff.mp hb) heq

/-! ## Slices -/

section Slices

variable {block rest : List α} {skip limit : ℕ}

/-- A block that is skipped as a whole. -/
theorem slice_of_skipped (h : block.length ≤ skip) :
    (block ++ rest).drop skip = rest.drop (skip - block.length) := by
  rw [List.drop_append, List.drop_eq_nil_of_le h, List.nil_append]

/-- A block of which something is left, and the rows after it. -/
theorem slice_of_block (h : skip < block.length) (done taken : ℕ)
    (htaken : taken = ((block.drop skip).take (limit - done)).length) :
    ((block ++ rest).drop skip).take (limit - done) =
      (block.drop skip).take (limit - done) ++ rest.take (limit - (done + taken)) := by
  rw [List.length_take] at htaken
  rw [List.drop_append_of_le_length h.le, List.take_append]
  congr 2
  omega

/-- Pages of one size in a row. -/
theorem flatMap_slices (rows : List α) (limit pages : ℕ) :
    ((List.range pages).flatMap fun k => (rows.drop (k * limit)).take limit) =
      rows.take (pages * limit) := by
  induction pages with
  | zero => simp
  | succ pages ih =>
    rw [List.range_succ, List.flatMap_append, ih, Nat.succ_mul, List.take_add]
    simp

end Slices

end Kahawai.Lib.Paging
