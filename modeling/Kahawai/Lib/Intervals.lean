import Mathlib.Data.List.Find
import Mathlib.Data.List.Sort
import Mathlib.Algebra.BigOperators.Group.List.Basic
import Mathlib.Algebra.GroupWithZero.Nat
import Mathlib.Tactic.Common

/-!
# Coverage by intervals

Intervals of natural numbers, both ends included, may overlap and touch. Merged in the order
of their starts they lie apart, so that what they cover can be counted and listed without
expanding them.

Results:
* `mem_merge`: merged intervals cover the same numbers.
* `separated_merge`: merged intervals lie apart.
* `pairwise_numbers`, `length_numbers`: intervals that lie apart list their numbers in order,
  as many as their lengths add up to.
* `find?_range'_from`: a search from a bound on starts at the bound.
-/

namespace Kahawai.Lib.Intervals

/-- The first and the last number. -/
abbrev Interval := ℕ × ℕ

/-- Extends the last interval, or starts the next one. -/
def mergeFrom (last : Interval) : List Interval → List Interval
  | [] => [last]
  | i :: rest =>
    if i.1 ≤ last.2 + 1 then mergeFrom (last.1, max last.2 i.2) rest
    else last :: mergeFrom i rest

/-- Joins the intervals that overlap or touch; they are in the order of their starts. -/
def merge : List Interval → List Interval
  | [] => []
  | i :: rest => mergeFrom i rest

/-- How many numbers an interval has. -/
def count (i : Interval) : ℕ := i.2 - i.1 + 1

/-- The numbers that are covered, interval by interval. -/
def numbers (intervals : List Interval) : List ℕ :=
  intervals.flatMap fun i => List.range' i.1 (count i)

/-- Some interval covers the number. -/
def Covers (intervals : List Interval) (n : ℕ) : Prop := ∃ i ∈ intervals, i.1 ≤ n ∧ n ≤ i.2

/-- No interval is reversed. -/
def Forward (intervals : List Interval) : Prop := ∀ i ∈ intervals, i.1 ≤ i.2

/-- In order, with a gap between any two. -/
def Separated (intervals : List Interval) : Prop :=
  intervals.Pairwise fun a b : Interval => a.2 + 1 < b.1

variable {intervals rest : List Interval} {last : Interval} {n : ℕ}

theorem covers_cons {i : Interval} :
    Covers (i :: rest) n ↔ (i.1 ≤ n ∧ n ≤ i.2) ∨ Covers rest n := by
  simp [Covers]

theorem mem_numbers (h : Forward intervals) : n ∈ numbers intervals ↔ Covers intervals n := by
  unfold numbers Covers
  rw [List.mem_flatMap]
  refine exists_congr fun i => and_congr_right fun hi => ?_
  have hforward := h i hi
  rw [List.mem_range'_1, count]
  omega

/-! ## Merging -/

/-- Merging from an interval that is not reversed, and starts first. -/
theorem forward_mergeFrom (hlast : last.1 ≤ last.2) (h : Forward rest) :
    Forward (mergeFrom last rest) := by
  induction rest generalizing last with
  | nil =>
    intro i hi
    rw [List.mem_singleton.mp hi]
    exact hlast
  | cons i rest ih =>
    have hrest : Forward rest := fun j hj => h j (List.mem_cons_of_mem _ hj)
    unfold mergeFrom
    split_ifs
    · exact ih (hlast.trans (Nat.le_max_left _ _)) hrest
    · intro j hj
      rcases List.mem_cons.mp hj with rfl | hj
      · exact hlast
      · exact ih (h i List.mem_cons_self) hrest j hj

theorem mem_mergeFrom (hlast : last.1 ≤ last.2) (h : Forward rest) (hfirst : ∀ i ∈ rest, last.1 ≤ i.1)
    (hsorted : rest.Pairwise fun a b : Interval => a.1 ≤ b.1) :
    Covers (mergeFrom last rest) n ↔ (last.1 ≤ n ∧ n ≤ last.2) ∨ Covers rest n := by
  induction rest generalizing last with
  | nil => simp [mergeFrom, Covers]
  | cons i rest ih =>
    obtain ⟨hhead, htail⟩ := List.pairwise_cons.mp hsorted
    have hrest : Forward rest := fun j hj => h j (List.mem_cons_of_mem _ hj)
    have hi := h i List.mem_cons_self
    have hstart := hfirst i List.mem_cons_self
    unfold mergeFrom
    split_ifs with hjoin
    · have hjoined : last.1 ≤ max last.2 i.2 := hlast.trans (Nat.le_max_left _ _)
      have hafter : ∀ j ∈ rest, last.1 ≤ j.1 := fun j hj => hfirst j (List.mem_cons_of_mem _ hj)
      have hmerged : Covers (mergeFrom (last.1, max last.2 i.2) rest) n ↔
          (last.1 ≤ n ∧ n ≤ max last.2 i.2) ∨ Covers rest n := ih hjoined hrest hafter htail
      rw [hmerged, covers_cons, ← or_assoc]
      refine or_congr_left ?_
      omega
    · rw [covers_cons, ih hi hrest hhead htail, covers_cons]

theorem separated_mergeFrom (h : Forward rest) (hsorted : rest.Pairwise fun a b : Interval => a.1 ≤ b.1)
    (hfirst : ∀ i ∈ rest, last.1 ≤ i.1) :
    Separated (mergeFrom last rest) ∧ ∀ i ∈ mergeFrom last rest, last.1 ≤ i.1 := by
  induction rest generalizing last with
  | nil => exact ⟨List.pairwise_singleton _ _, fun i hi => by rw [List.mem_singleton.mp hi]⟩
  | cons i rest ih =>
    obtain ⟨hhead, htail⟩ := List.pairwise_cons.mp hsorted
    have hrest : Forward rest := fun j hj => h j (List.mem_cons_of_mem _ hj)
    have hstart := hfirst i List.mem_cons_self
    unfold mergeFrom
    split_ifs with hjoin
    · exact ih hrest htail fun j hj => hfirst j (List.mem_cons_of_mem _ hj)
    · obtain ⟨hseparated, hafter⟩ := ih hrest htail hhead
      constructor
      · exact List.pairwise_cons.mpr
          ⟨fun j hj => Nat.lt_of_lt_of_le (Nat.lt_of_not_le hjoin) (hafter j hj), hseparated⟩
      · intro j hj
        rcases List.mem_cons.mp hj with rfl | hj
        · exact Nat.le_refl _
        · exact hstart.trans (hafter j hj)

theorem forward_merge (h : Forward intervals) : Forward (merge intervals) := by
  cases intervals with
  | nil => exact h
  | cons i rest =>
    exact forward_mergeFrom (h i List.mem_cons_self) fun j hj => h j (List.mem_cons_of_mem _ hj)

/-- Merged intervals cover the same numbers. -/
theorem mem_merge (h : Forward intervals)
    (hsorted : intervals.Pairwise fun a b : Interval => a.1 ≤ b.1) :
    Covers (merge intervals) n ↔ Covers intervals n := by
  cases intervals with
  | nil => rfl
  | cons i rest =>
    obtain ⟨hhead, htail⟩ := List.pairwise_cons.mp hsorted
    have hrest : Forward rest := fun j hj => h j (List.mem_cons_of_mem _ hj)
    rw [merge, mem_mergeFrom (h i List.mem_cons_self) hrest hhead htail, covers_cons]

/-- Merged intervals lie apart. -/
theorem separated_merge (h : Forward intervals)
    (hsorted : intervals.Pairwise fun a b : Interval => a.1 ≤ b.1) : Separated (merge intervals) := by
  cases intervals with
  | nil => exact List.Pairwise.nil
  | cons i rest =>
    obtain ⟨hhead, htail⟩ := List.pairwise_cons.mp hsorted
    exact (separated_mergeFrom (fun j hj => h j (List.mem_cons_of_mem _ hj)) htail hhead).1

/-! ## Listing -/

/-- The numbers of intervals that lie apart are in order. -/
theorem pairwise_numbers (h : Forward intervals) (hseparated : Separated intervals) :
    (numbers intervals).Pairwise (· < ·) := by
  unfold numbers
  rw [List.pairwise_flatMap]
  refine ⟨fun i _ => List.pairwise_lt_range', hseparated.imp_of_mem ?_⟩
  intro a b ha _ hgap m hm n hn
  have hforward := h a ha
  rw [List.mem_range'_1, count] at hm hn
  omega

theorem length_numbers : (numbers intervals).length = (intervals.map count).sum := by
  unfold numbers
  rw [List.length_flatMap]
  exact congrArg List.sum (List.map_congr_left fun i _ => List.length_range')

/-- The first number from a bound on, in one interval. -/
theorem find?_range'_from {start stop bound : ℕ} (h : start ≤ stop) (q : ℕ → Bool) :
    (List.range' start (count (start, stop))).find? (fun n => decide (bound ≤ n) && q n) =
      (List.range' (max start bound) (stop + 1 - max start bound)).find? q := by
  have hsplit : List.range' start (count (start, stop)) =
      List.range' start (min (count (start, stop)) (max start bound - start)) ++
        List.range' (max start bound) (stop + 1 - max start bound) := by
    simp only [count]
    by_cases hle : max start bound ≤ stop + 1
    · rw [Nat.min_eq_right (by omega)]
      have happend := List.range'_append_1 (s := start) (m := max start bound - start)
        (n := stop + 1 - max start bound)
      rw [Nat.add_sub_cancel' (Nat.le_max_left _ _)] at happend
      rw [happend]
      congr 1
      omega
    · rw [Nat.min_eq_left (by omega), show stop + 1 - max start bound = 0 by omega]
      simp
  have hbefore : (List.range' start (min (count (start, stop)) (max start bound - start))).find?
      (fun n => decide (bound ≤ n) && q n) = none := by
    rw [List.find?_eq_none]
    intro n hn
    rw [List.mem_range'_1] at hn
    have hlt : ¬ bound ≤ n := by omega
    simp [hlt]
  rw [hsplit, List.find?_append, hbefore, Option.none_or]
  refine List.find?_congr fun n hn => ?_
  rw [List.mem_range'_1] at hn
  have hle : bound ≤ n := by omega
  simp [hle]

end Kahawai.Lib.Intervals
