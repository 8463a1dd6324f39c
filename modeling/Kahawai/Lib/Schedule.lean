import Mathlib.Data.List.Induction
import Mathlib.Order.Lattice
import Mathlib.Tactic.Common

/-!
# Schedules

A list of items with start times, in any order. `latest` scans it for the item on at a time: of
those that have started the one with the greatest start, the later of two that start together.
A binary search finds the same item when the items that have started are a sorted prefix;
`OutOfOrder` says when they are not.

Results:
* `latest_eq_some_iff`, `latest_eq_none_iff`: what the scan finds.
* `exists_started`: in an ordered schedule the scan finds the last of the started prefix.
* `search_conforms`: a binary search may answer anything where its list is not partitioned.
-/

namespace Kahawai.Lib.Schedule

variable {α : Type*} {start : α → ℕ} {t i j : ℕ} {a b : α} {l : List α}

/-! ## The scan -/

/-- One item of the scan: it takes the place of the best so far unless that starts later. -/
def scanStep (start : α → ℕ) (t : ℕ) (best : Option (α × ℕ)) (item : α × ℕ) : Option (α × ℕ) :=
  if start item.1 ≤ t && best.all fun b => start b.1 ≤ start item.1 then some item else best

/-- The item on at `t` and its index. -/
def latest (start : α → ℕ) (t : ℕ) (l : List α) : Option (α × ℕ) :=
  l.zipIdx.foldl (scanStep start t) none

/-- `a`, the item at index `i`, is on at `t`. -/
structure Latest (start : α → ℕ) (t : ℕ) (l : List α) (a : α) (i : ℕ) : Prop where
  get : l[i]? = some a
  started : start a ≤ t
  greatest : ∀ j b, l[j]? = some b → start b ≤ t →
    start b < start a ∨ start b = start a ∧ j ≤ i

theorem Latest.unique (h : Latest start t l a i) (h' : Latest start t l b j) :
    (a, i) = (b, j) := by
  have hij := h.greatest j b h'.get h'.started
  have hji := h'.greatest i a h.get h.started
  have : i = j := by omega
  subst this
  simpa using h.get.symm.trans h'.get

theorem latest_append_singleton (start : α → ℕ) (t : ℕ) (l : List α) (a : α) :
    latest start t (l ++ [a]) = scanStep start t (latest start t l) (a, l.length) := by
  simp [latest, List.zipIdx_append]

theorem latest_spec (start : α → ℕ) (t : ℕ) (l : List α) :
    match latest start t l with
    | none => ∀ b ∈ l, t < start b
    | some (a, i) => Latest start t l a i := by
  induction l using List.reverseRecOn with
  | nil => simp [latest]
  | append_singleton l c ih =>
    rw [latest_append_singleton]
    have hget {j : ℕ} {b : α} (h : (l ++ [c])[j]? = some b) :
        l[j]? = some b ∨ j = l.length ∧ b = c := by
      rcases Nat.lt_or_ge j l.length with hj | hj
      · left
        rwa [List.getElem?_append_left hj] at h
      · right
        rw [List.getElem?_append_right hj] at h
        have := (List.getElem?_eq_some_iff.1 h).1
        simp only [List.length_singleton] at this
        have hj : j = l.length := by omega
        subst hj
        simpa [eq_comm] using h
    have hlast : (l ++ [c])[l.length]? = some c := by simp
    have hleft {j : ℕ} {b : α} (h : l[j]? = some b) : (l ++ [c])[j]? = some b ∧ j < l.length := by
      have hj := (List.getElem?_eq_some_iff.1 h).1
      exact ⟨by rw [List.getElem?_append_left hj, h], hj⟩
    cases hbest : latest start t l with
    | none =>
      rw [hbest] at ih
      by_cases hc : start c ≤ t
      · simp only [scanStep, hc, decide_true, Option.all_none, Bool.and_self, if_true]
        refine ⟨hlast, hc, fun j b hb hbt => ?_⟩
        obtain hb | ⟨rfl, rfl⟩ := hget hb
        · have := ih b (List.mem_of_getElem? hb)
          omega
        · exact .inr ⟨rfl, le_rfl⟩
      · simp only [scanStep, hc, decide_false, Bool.false_and, Bool.false_eq_true, if_false]
        intro b hb
        obtain hb | rfl : b ∈ l ∨ b = c := by simpa using hb
        · exact ih b hb
        · omega
    | some best =>
      obtain ⟨a, i⟩ := best
      rw [hbest] at ih
      by_cases hc : start c ≤ t ∧ start a ≤ start c
      · simp only [scanStep, hc.1, hc.2, Option.all_some, decide_true, Bool.and_self, if_true]
        refine ⟨hlast, hc.1, fun j b hb hbt => ?_⟩
        obtain hb | ⟨rfl, rfl⟩ := hget hb
        · have := ih.greatest j b hb hbt
          have := (hleft hb).2
          omega
        · exact .inr ⟨rfl, le_rfl⟩
      · have hstep : scanStep start t (some (a, i)) (c, l.length) = some (a, i) := by
          simp only [scanStep, Option.all_some, Bool.and_eq_true, decide_eq_true_eq, hc, if_false]
        rw [hstep]
        refine ⟨(hleft ih.get).1, ih.started, fun j b hb hbt => ?_⟩
        obtain hb | ⟨rfl, rfl⟩ := hget hb
        · exact ih.greatest j b hb hbt
        · omega

theorem latest_eq_none_iff : latest start t l = none ↔ ∀ b ∈ l, t < start b := by
  have hspec := latest_spec start t l
  constructor
  · intro h
    rwa [h] at hspec
  · intro h
    cases hl : latest start t l with
    | none => rfl
    | some best =>
      rw [hl] at hspec
      have := h best.1 (List.mem_of_getElem? hspec.get)
      have := hspec.started
      omega

theorem latest_eq_some_iff : latest start t l = some (a, i) ↔ Latest start t l a i := by
  have hspec := latest_spec start t l
  constructor
  · intro h
    rwa [h] at hspec
  · intro h
    cases hl : latest start t l with
    | none =>
      have := latest_eq_none_iff.1 hl a (List.mem_of_getElem? h.get)
      have := h.started
      omega
    | some best =>
      rw [hl] at hspec
      exact congrArg some (hspec.unique h)

/-! ## Order -/

/-- An item that has started stands behind one that starts later than it. -/
def OutOfOrder (start : α → ℕ) (t : ℕ) (l : List α) : Prop :=
  ∃ (i j : ℕ) (a b : α), i < j ∧ l[i]? = some a ∧ l[j]? = some b ∧ start b < start a ∧ start b ≤ t

/-- The items that have started are the first `n` of the list. -/
def Started (start : α → ℕ) (t : ℕ) (l : List α) (n : ℕ) : Prop :=
  ∀ i a, l[i]? = some a → (i < n ↔ start a ≤ t)

theorem exists_started (h : ¬OutOfOrder start t l) : ∃ n ≤ l.length, Started start t l n ∧
    ∀ a i, Latest start t l a i ↔ l[i]? = some a ∧ i + 1 = n := by
  -- the prefix ends behind the item that the scan finds
  cases hl : latest start t l with
  | none =>
    have hnone := latest_eq_none_iff.1 hl
    refine ⟨0, Nat.zero_le _, fun i a ha => ?_, fun a i => ?_⟩
    · have := hnone a (List.mem_of_getElem? ha)
      omega
    · constructor
      · intro hlat
        have := hnone a (List.mem_of_getElem? hlat.get)
        have := hlat.started
        omega
      · rintro ⟨-, hn⟩
        omega
  | some best =>
    obtain ⟨a, i⟩ := best
    have hlat := latest_eq_some_iff.1 hl
    have hi := (List.getElem?_eq_some_iff.1 hlat.get).1
    refine ⟨i + 1, hi, fun j b hb => ⟨fun hj => ?_, fun hbt => ?_⟩, fun b j => ⟨fun hb => ?_, ?_⟩⟩
    · by_contra hbt
      have hne : j ≠ i := by
        rintro rfl
        rw [hlat.get] at hb
        cases hb
        exact hbt hlat.started
      have hlt : start a < start b := by
        have := hlat.started
        omega
      exact h ⟨j, i, b, a, by omega, hb, hlat.get, hlt, hlat.started⟩
    · by_contra hj
      obtain hlt | ⟨-, hle⟩ := hlat.greatest j b hb hbt
      · exact h ⟨i, j, a, b, by omega, hlat.get, hb, hlt, hbt⟩
      · omega
    · cases hb.unique hlat
      exact ⟨hlat.get, rfl⟩
    · rintro ⟨hb, hj⟩
      cases Nat.succ_injective hj
      rw [hlat.get] at hb
      cases hb
      exact hlat

/-! ## Searching -/

/-- What a binary search for the end of a prefix promises: on a list that `p` divides into a
    prefix and a rest it finds the end of the prefix. -/
structure Conforms (search : (α → Bool) → List α → ℕ) : Prop where
  le : ∀ p l, search p l ≤ l.length
  divided : ∀ p l n, n ≤ l.length → (∀ i a, l[i]? = some a → (p a = true ↔ i < n)) →
    search p l = n

/-- A search that answers `n` where the list is not divided. -/
def searchOr (n : ℕ) (p : α → Bool) (l : List α) : ℕ :=
  if (l.dropWhile p).any p then min n l.length else (l.takeWhile p).length

theorem takeWhile_of_divided {p : α → Bool} {n : ℕ} (hn : n ≤ l.length)
    (h : ∀ i a, l[i]? = some a → (p a = true ↔ i < n)) :
    (l.takeWhile p).length = n ∧ (l.dropWhile p).any p = false := by
  induction l generalizing n with
  | nil =>
    have : n = 0 := by simpa using hn
    simp [this]
  | cons a l ih =>
    cases n with
    | zero =>
      have ha : p a = false := by
        simpa using h 0 a rfl
      have hl : ∀ b ∈ l, p b = false := by
        intro b hb
        obtain ⟨i, hi⟩ := List.mem_iff_getElem?.1 hb
        simpa using h (i + 1) b (by simpa using hi)
      simp only [List.takeWhile_cons, List.dropWhile_cons, ha, Bool.false_eq_true, if_false,
        List.length_nil, List.any_cons, Bool.false_or, true_and]
      simpa using hl
    | succ n =>
      have ha : p a = true := (h 0 a rfl).2 (Nat.succ_pos n)
      have := ih (Nat.le_of_succ_le_succ hn) fun i b hb =>
        (h (i + 1) b (by simpa using hb)).trans Nat.succ_lt_succ_iff
      simp only [List.takeWhile_cons, List.dropWhile_cons, ha, if_true, List.length_cons]
      exact ⟨by omega, this.2⟩

theorem search_conforms (n : ℕ) : Conforms (searchOr (α := α) n) where
  le p l := by
    unfold searchOr
    split
    · exact min_le_right _ _
    · exact (List.takeWhile_prefix p).length_le
  divided p l m hm h := by
    obtain ⟨htake, hdrop⟩ := takeWhile_of_divided hm h
    simp only [searchOr, hdrop, Bool.false_eq_true, if_false, htake]

theorem searchOr_of_not_divided {p : α → Bool} {n : ℕ} (hn : n ≤ l.length)
    (hij : i < j) (ha : l[i]? = some a) (hb : l[j]? = some b) (hpa : p a = false)
    (hpb : p b = true) : searchOr n p l = n := by
  have hany : (l.dropWhile p).any p = true := by
    induction l generalizing i j n with
    | nil => simp at ha
    | cons c l ih =>
      by_cases hc : p c = true
      · cases i with
        | zero =>
          cases ha
          rw [hc] at hpa
          cases hpa
        | succ i =>
          cases j with
          | zero => omega
          | succ j =>
            rw [List.dropWhile_cons, if_pos hc]
            exact ih (Nat.zero_le _) (Nat.lt_of_succ_lt_succ hij) (by simpa using ha)
              (by simpa using hb)
      · rw [List.dropWhile_cons, if_neg hc]
        exact List.any_eq_true.2 ⟨b, List.mem_of_getElem? hb, hpb⟩
  rw [searchOr, if_pos hany, min_eq_left hn]

end Kahawai.Lib.Schedule
