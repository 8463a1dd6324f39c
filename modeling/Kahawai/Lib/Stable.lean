import Mathlib.Data.List.Sort
import Mathlib.Data.List.TakeWhile

/-!
# Stable sorts

A stable sort by a key keeps the elements of one key in their order. So its result
depends on the list only through the elements of each key.
-/

namespace Kahawai.Lib

variable {α κ : Type*} [LinearOrder κ] (key : α → κ)

/-- The elements of a key, in their order. -/
def ofKey (k : κ) (l : List α) : List α := l.filter fun a => key a = k

variable {key}

theorem ofKey_orderedInsert (k : κ) (a : α) (l : List α) :
    ofKey key k (l.orderedInsert (fun a b => key a ≤ key b) a) = ofKey key k (a :: l) := by
  -- What stands before the new element has a smaller key.
  have hbefore : key a = k → ofKey key k (l.takeWhile fun b => ¬ key a ≤ key b) = [] := by
    rintro rfl
    refine List.filter_eq_nil_iff.mpr fun b hb => ?_
    have hlt : ¬ key a ≤ key b := by simpa using List.mem_takeWhile_imp hb
    simpa using fun heq => hlt (le_of_eq heq.symm)
  rw [List.orderedInsert_eq_take_drop]
  conv_rhs => rw [← List.takeWhile_append_dropWhile (p := fun b => decide ¬ key a ≤ key b) (l := l)]
  unfold ofKey at *
  by_cases hkey : key a = k
  · simp only [List.filter_append, List.filter_cons, hkey, decide_true, if_true] at *
    rw [hbefore trivial]
    rfl
  · simp only [List.filter_append, List.filter_cons, hkey, decide_false, Bool.false_eq_true, if_false]

/-- The sort is stable. -/
theorem ofKey_insertionSort (k : κ) (l : List α) :
    ofKey key k (l.insertionSort fun a b => key a ≤ key b) = ofKey key k l := by
  induction l with
  | nil => rfl
  | cons a l ih =>
    rw [List.insertionSort_cons, ofKey_orderedInsert]
    unfold ofKey at *
    simp only [List.filter_cons, ih]

/-- Sorted lists with the same elements of each key are the same. -/
theorem eq_of_ofKey_eq {l l' : List α} (hl : l.Pairwise fun a b => key a ≤ key b)
    (hl' : l'.Pairwise fun a b => key a ≤ key b) (h : ∀ k, ofKey key k l = ofKey key k l') :
    l = l' := by
  have hmem : ∀ {l l' : List α}, (∀ k, ofKey key k l = ofKey key k l') → ∀ a ∈ l, a ∈ l' := by
    intro l l' h a ha
    have hof : a ∈ ofKey key (key a) l := List.mem_filter.mpr ⟨ha, decide_eq_true rfl⟩
    rw [h] at hof
    exact (List.mem_filter.mp hof).1
  induction l generalizing l' with
  | nil =>
    refine (List.eq_nil_iff_forall_not_mem.mpr fun a ha => ?_).symm
    exact List.not_mem_nil (hmem (fun k => (h k).symm) a ha)
  | cons a l ih =>
    cases l' with
    | nil => exact absurd (hmem h a List.mem_cons_self) List.not_mem_nil
    | cons b l' =>
      obtain ⟨hfirst, htail⟩ := List.pairwise_cons.mp hl
      obtain ⟨hfirst', htail'⟩ := List.pairwise_cons.mp hl'
      have hab : key a = key b := by
        refine le_antisymm ?_ ?_
        · rcases List.mem_cons.mp (hmem (fun k => (h k).symm) b List.mem_cons_self) with heq | hb
          · rw [heq]
          · exact hfirst b hb
        · rcases List.mem_cons.mp (hmem h a List.mem_cons_self) with heq | ha
          · rw [heq]
          · exact hfirst' a ha
      have hhead : a = b := by
        have hkey := h (key a)
        unfold ofKey at hkey
        rw [List.filter_cons_of_pos (by simp), List.filter_cons_of_pos (by simp [hab])] at hkey
        exact (List.cons.inj hkey).1
      subst hhead
      refine congrArg (a :: ·) (ih htail htail' fun k => ?_)
      have hkey := h k
      unfold ofKey at hkey ⊢
      by_cases hk : key a = k
      · rw [List.filter_cons_of_pos (by simp [hk]), List.filter_cons_of_pos (by simp [hk])] at hkey
        exact (List.cons.inj hkey).2
      · rwa [List.filter_cons_of_neg (by simp [hk]), List.filter_cons_of_neg (by simp [hk])] at hkey

/-- Two lists are sorted to the same list if and only if they have the same elements
    of each key, in the same order. -/
theorem insertionSort_eq_iff {l l' : List α} :
    l.insertionSort (fun a b => key a ≤ key b) = l'.insertionSort (fun a b => key a ≤ key b) ↔
      ∀ k, ofKey key k l = ofKey key k l' := by
  have hsorted : ∀ l : List α,
      (l.insertionSort fun a b => key a ≤ key b).Pairwise fun a b => key a ≤ key b := by
    have : Std.Total fun a b : α => key a ≤ key b := ⟨fun a b => le_total (key a) (key b)⟩
    have : IsTrans α fun a b => key a ≤ key b := ⟨fun _ _ _ => le_trans⟩
    exact List.pairwise_insertionSort _
  constructor
  · intro h k
    rw [← ofKey_insertionSort k l, h, ofKey_insertionSort]
  · intro h
    refine eq_of_ofKey_eq (hsorted l) (hsorted l') fun k => ?_
    rw [ofKey_insertionSort, ofKey_insertionSort, h]

/-- A map of elements that keeps the key. -/
theorem ofKey_filterMap {β : Type*} {key' : β → κ} {f : α → Option β} {l : List α}
    (h : ∀ a ∈ l, ∀ b, f a = some b → key' b = key a) (k : κ) :
    ofKey key' k (l.filterMap f) = (ofKey key k l).filterMap f := by
  induction l with
  | nil => rfl
  | cons a l ih =>
    have hrest := ih fun a' ha' => h a' (List.mem_cons_of_mem a ha')
    unfold ofKey at hrest ⊢
    cases hfa : f a with
    | none =>
      rw [List.filterMap_cons_none hfa, hrest, List.filter_cons]
      split_ifs
      · rw [List.filterMap_cons_none hfa]
      · rfl
    | some b =>
      have hkey := h a List.mem_cons_self b hfa
      rw [List.filterMap_cons_some hfa, List.filter_cons, List.filter_cons, hkey, hrest]
      split_ifs
      · rw [List.filterMap_cons_some hfa]
      · rfl

theorem mem_ofKey {k : κ} {a : α} {l : List α} : a ∈ ofKey key k l ↔ a ∈ l ∧ key a = k := by
  unfold ofKey
  rw [List.mem_filter, decide_eq_true_eq]

end Kahawai.Lib
