import Mathlib.Data.List.Basic
import Mathlib.Algebra.GroupWithZero.Nat
import Mathlib.Data.List.GetD
import Mathlib.Algebra.BigOperators.Group.List.Basic
import Mathlib.Tactic.Common

/-!
# Run-length tables

Tables whose entries stand for many items: a run repeats its value, or holds from its start until
the next run begins. Items in blocks of given sizes are numbered through.

Results:
* `cursor_eq`, `current_eq`: the run that holds, found by going on from an earlier one.
* `exists_block`, `block_unique`: the block of an item.
* `getElem?_present`: the entries of a table that may be cut off.
-/

namespace Kahawai.Lib.RunTables

variable {α β : Type*}

/-! ## Repeated values -/

/-- Each value as often as its run says. -/
def expand (runs : List (ℕ × α)) : List α := runs.flatMap fun r => List.replicate r.1 r.2

@[simp] theorem expand_nil : expand ([] : List (ℕ × α)) = [] := rfl

@[simp] theorem expand_cons (r : ℕ × α) (runs : List (ℕ × α)) :
    expand (r :: runs) = List.replicate r.1 r.2 ++ expand runs := List.flatMap_cons

/-- What comes before item `i`. -/
def startOf (lengths : List ℕ) (i : ℕ) : ℕ := (lengths.take i).sum

@[simp] theorem startOf_zero (lengths : List ℕ) : startOf lengths 0 = 0 := rfl

theorem startOf_cons (n : ℕ) (lengths : List ℕ) (i : ℕ) :
    startOf (n :: lengths) (i + 1) = n + startOf lengths i := by
  simp [startOf]

theorem startOf_append_right (lengths lengths' : List ℕ) (i : ℕ) :
    startOf (lengths ++ lengths') (lengths.length + i) = lengths.sum + startOf lengths' i := by
  rw [startOf, List.take_length_add_append, List.sum_append]
  rfl

theorem startOf_replicate {count n i : ℕ} (h : i ≤ count) (lengths : List ℕ) :
    startOf (List.replicate count n ++ lengths) i = i * n := by
  rw [startOf, List.take_append_of_le_length (by rwa [List.length_replicate]), List.take_replicate,
    Nat.min_eq_left h, List.sum_replicate_nat]

/-! ## Runs that hold until the next -/

/-- How many of the runs have begun at `c`, up to the first that has not. -/
def begun : List (ℕ × β) → ℕ → ℕ
  | [], _ => 0
  | r :: runs, c => if r.1 ≤ c then begun runs c + 1 else 0

/-- The place of the run that holds at `c`; the first one holds before any other begins. -/
def cursor (runs : List (ℕ × β)) (c : ℕ) : ℕ := begun runs.tail c

/-- The value that holds at `c`. -/
def current (runs : List (ℕ × β)) (c : ℕ) : Option β := (runs[cursor runs c]?).map Prod.snd

variable {runs : List (ℕ × β)} {c e : ℕ}

theorem begun_eq (hall : ∀ i < e, ∃ r, runs[i]? = some r ∧ r.1 ≤ c)
    (hstop : ∀ r, runs[e]? = some r → c < r.1) : begun runs c = e := by
  induction runs generalizing e with
  | nil =>
    cases e with
    | zero => rfl
    | succ e =>
      obtain ⟨r, hr, -⟩ := hall 0 (Nat.succ_pos e)
      cases hr
  | cons r runs ih =>
    cases e with
    | zero =>
      have hlate : c < r.1 := hstop r rfl
      rw [begun, if_neg (by omega)]
    | succ e =>
      obtain ⟨r', hr', hle⟩ := hall 0 (Nat.succ_pos e)
      obtain rfl : r = r' := Option.some.inj hr'
      rw [begun, if_pos hle, ih (fun i hi => hall (i + 1) (by omega)) fun r hr => hstop r hr]

/-- The run at `e` holds if all up to it have begun and the next one has not. -/
theorem cursor_eq (hall : ∀ i < e, ∃ r, runs[i + 1]? = some r ∧ r.1 ≤ c)
    (hstop : ∀ r, runs[e + 1]? = some r → c < r.1) : cursor runs c = e := by
  refine begun_eq (fun i hi => ?_) fun r hr => ?_
  · rw [List.getElem?_tail]
    exact hall i hi
  · rw [List.getElem?_tail] at hr
    exact hstop r hr

theorem begun_spec {i : ℕ} (h : i < begun runs c) : ∃ r, runs[i]? = some r ∧ r.1 ≤ c := by
  induction runs generalizing i with
  | nil => exact absurd h (Nat.not_lt_zero i)
  | cons r runs ih =>
    unfold begun at h
    split_ifs at h with hle
    · cases i with
      | zero => exact ⟨r, rfl, hle⟩
      | succ i => exact ih (Nat.lt_of_succ_lt_succ h)
    · exact absurd h (Nat.not_lt_zero i)

/-- The runs up to the one that holds have begun. -/
theorem cursor_begun {i : ℕ} (h : i < cursor runs c) : ∃ r, runs[i + 1]? = some r ∧ r.1 ≤ c := by
  obtain ⟨r, hr, hle⟩ := begun_spec h
  rw [List.getElem?_tail] at hr
  exact ⟨r, hr, hle⟩

/-- Among runs in order, the one that holds is the last that has begun. -/
theorem current_eq {r : ℕ × β} (hsorted : runs.Pairwise fun a b => a.1 < b.1)
    (hr : runs[e]? = some r) (hbegun : r.1 ≤ c) (hnext : ∀ r', runs[e + 1]? = some r' → c < r'.1) :
    current runs c = some r.2 := by
  have hcursor : cursor runs c = e := by
    refine cursor_eq (fun i hi => ?_) hnext
    obtain ⟨he, rfl⟩ := List.getElem?_eq_some_iff.mp hr
    have hi' : i + 1 < runs.length := by omega
    refine ⟨runs[i + 1], List.getElem?_eq_getElem hi', ?_⟩
    rcases Nat.lt_or_ge (i + 1) e with hlt | hge
    · have := List.pairwise_iff_getElem.mp hsorted (i + 1) e hi' he hlt
      omega
    · obtain rfl : i + 1 = e := by omega
      exact hbegun
  rw [current, hcursor, hr, Option.map_some]

/-! ## Blocks -/

/-- The number of the first item of block `c`. -/
def firstOf (per : ℕ → ℕ) (c : ℕ) : ℕ := ((List.range c).map per).sum

variable {per : ℕ → ℕ} {i k n : ℕ}

@[simp] theorem firstOf_zero : firstOf per 0 = 0 := rfl

theorem firstOf_succ (c : ℕ) : firstOf per (c + 1) = firstOf per c + per c := by
  simp [firstOf, List.range_succ]

theorem firstOf_le {d : ℕ} (h : c ≤ d) : firstOf per c ≤ firstOf per d := by
  induction h with
  | refl => exact Nat.le_refl _
  | step _ ih =>
    rw [firstOf_succ]
    omega

/-- Every item of the first `n` blocks is in one of them. -/
theorem exists_block (h : i < firstOf per n) : ∃ c < n, ∃ k < per c, i = firstOf per c + k := by
  induction n with
  | zero => exact absurd h (Nat.not_lt_zero i)
  | succ n ih =>
    rw [firstOf_succ] at h
    by_cases hi : i < firstOf per n
    · obtain ⟨c, hc, hblock⟩ := ih hi
      exact ⟨c, by omega, hblock⟩
    · exact ⟨n, by omega, i - firstOf per n, by omega, by omega⟩

/-- No item is in two blocks. -/
theorem block_unique {c' k' : ℕ} (hk : k < per c) (hk' : k' < per c')
    (h : firstOf per c + k = firstOf per c' + k') : c = c' ∧ k = k' := by
  have hle {d d' : ℕ} (hlt : d < d') : firstOf per d + per d ≤ firstOf per d' := by
    rw [← firstOf_succ]
    exact firstOf_le hlt
  rcases Nat.lt_trichotomy c c' with hlt | rfl | hlt
  · have := hle hlt
    omega
  · omega
  · have := hle hlt
    omega

/-! ## Tables that may be cut off -/

/-- The entries from `e` on, as far as they are there. -/
def present (f : ℕ → Option α) : (left e : ℕ) → List α
  | 0, _ => []
  | left + 1, e =>
    match f e with
    | some a => a :: present f left (e + 1)
    | none => []

theorem eq_none_of_le {f : ℕ → Option α} (hdown : ∀ e, (f (e + 1)).isSome → (f e).isSome) {a : ℕ}
    (ha : f a = none) (d : ℕ) : f (a + d) = none := by
  induction d with
  | zero => exact ha
  | succ d ih =>
    by_contra hne
    have hsome : (f (a + d)).isSome := hdown _ (Option.isSome_iff_ne_none.mpr hne)
    rw [ih] at hsome
    cases hsome

/-- Where an entry is there only if those before it are, all that are there are found. -/
theorem getElem?_present {f : ℕ → Option α} (hdown : ∀ e, (f (e + 1)).isSome → (f e).isSome)
    (left e i : ℕ) : (present f left e)[i]? = if i < left then f (e + i) else none := by
  induction left generalizing e i with
  | zero => rfl
  | succ left ih =>
    cases he : f e with
    | none =>
      rw [eq_none_of_le hdown he]
      simp [present, he]
    | some a =>
      cases i with
      | zero => simp [present, he]
      | succ i =>
        simp only [present, he, List.getElem?_cons_succ, ih, Nat.add_lt_add_iff_right]
        rw [Nat.add_right_comm, Nat.add_assoc e i 1]

end Kahawai.Lib.RunTables
