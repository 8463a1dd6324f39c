import Mathlib.Data.List.Chain
import Mathlib.Data.List.Nodup

/-!
# Removing neighbours

`Vec::dedup_by`: one pass over a list that merges an element into the one kept before it, where
`merge` says so. What the pass leaves depends on neighbours only, so it removes all duplicates
of a key exactly where equal keys follow each other.

Results:
* `isChain_dedupBy`, `dedupBy_idem`: no neighbours of the result merge, and a second pass
  changes nothing.
* `keys_sublist`, `exists_covers`: the keys that are left, and what stands for an element.
* `exists_between`: a value that comes twice among distinct neighbours comes again after
  another one.
-/

namespace Kahawai.Lib.Dedup

variable {α β : Type*} {merge : α → α → Option α} {l : List α}

/-- The pass behind `kept`. -/
def dedupFrom (merge : α → α → Option α) : (kept : α) → List α → List α
  | kept, [] => [kept]
  | kept, next :: l =>
    match merge kept next with
    | some merged => dedupFrom merge merged l
    | none => kept :: dedupFrom merge next l

/-- `Vec::dedup_by`; `merge kept next` is the merged element, if the two are one. -/
def dedupBy (merge : α → α → Option α) : List α → List α
  | [] => []
  | a :: l => dedupFrom merge a l

theorem dedupFrom_cons (kept next : α) (l : List α) :
    dedupFrom merge kept (next :: l) =
      match merge kept next with
      | some merged => dedupFrom merge merged l
      | none => kept :: dedupFrom merge next l := rfl

/-! ## Neighbours -/

/-- No neighbours of the result merge, if what did not merge with an element does not merge
    with what becomes of it. -/
theorem isChain_dedupFrom
    (hstay : ∀ p k n m, merge p k = none → merge k n = some m → merge p m = none) :
    ∀ (l : List α) (kept : α), (dedupFrom merge kept l).IsChain (fun k n => merge k n = none) ∧
      ∀ p, merge p kept = none →
        (p :: dedupFrom merge kept l).IsChain (fun k n => merge k n = none)
  | [], kept => by
    change List.IsChain _ [kept] ∧ ∀ p, merge p kept = none → List.IsChain _ [p, kept]
    simp
  | next :: l, kept => by
    cases hm : merge kept next with
    | some merged =>
      have ih := isChain_dedupFrom hstay l merged
      simp only [dedupFrom_cons, hm]
      exact ⟨ih.1, fun p hp => ih.2 p (hstay p kept next merged hp hm)⟩
    | none =>
      have ih := (isChain_dedupFrom hstay l next).2 kept hm
      simp only [dedupFrom_cons, hm]
      exact ⟨ih, fun p hp => List.isChain_cons_cons.2 ⟨hp, ih⟩⟩

theorem isChain_dedupBy
    (hstay : ∀ p k n m, merge p k = none → merge k n = some m → merge p m = none) :
    (dedupBy merge l).IsChain fun k n => merge k n = none := by
  cases l with
  | nil => exact .nil
  | cons a l => exact (isChain_dedupFrom hstay l a).1

theorem dedupFrom_of_isChain {kept : α}
    (h : (kept :: l).IsChain fun k n => merge k n = none) : dedupFrom merge kept l = kept :: l := by
  induction l generalizing kept with
  | nil => rfl
  | cons next l ih =>
    obtain ⟨hm, hrest⟩ := List.isChain_cons_cons.1 h
    simp only [dedupFrom_cons, hm, ih hrest]

theorem dedupBy_of_isChain (h : l.IsChain fun k n => merge k n = none) :
    dedupBy merge l = l := by
  cases l with
  | nil => rfl
  | cons a l => exact dedupFrom_of_isChain h

/-- A second pass changes nothing. -/
theorem dedupBy_idem
    (hstay : ∀ p k n m, merge p k = none → merge k n = some m → merge p m = none) :
    dedupBy merge (dedupBy merge l) = dedupBy merge l :=
  dedupBy_of_isChain (isChain_dedupBy hstay)

/-! ## What is left -/

/-- The keys of the result, in their order, if a merged element has the key of one of the two. -/
theorem keys_sublist {key : α → β}
    (hkey : ∀ k n m, merge k n = some m → key m = key k ∨ key m = key n) :
    ((dedupBy merge l).map key).Sublist (l.map key) := by
  have hfrom : ∀ (l : List α) (kept : α),
      ((dedupFrom merge kept l).map key).Sublist (key kept :: l.map key) := by
    intro l
    induction l with
    | nil => exact fun kept => List.Sublist.refl _
    | cons next l ih =>
      intro kept
      cases hm : merge kept next with
      | none =>
        simp only [dedupFrom_cons, hm, List.map_cons]
        exact (ih next).cons_cons _
      | some merged =>
        simp only [dedupFrom_cons, hm, List.map_cons]
        have hmerged := ih merged
        obtain heq | heq := hkey kept next merged hm
        · rw [heq] at hmerged
          exact hmerged.trans ((List.sublist_cons_self _ _).cons_cons _)
        · rw [heq] at hmerged
          exact hmerged.cons _
  cases l with
  | nil => exact List.Sublist.refl _
  | cons a l => exact hfrom l a

/-- What holds of the elements and is kept by merging holds of the result. -/
theorem forall_mem_dedupBy {p : α → Prop}
    (hmerge : ∀ k n m, p k → p n → merge k n = some m → p m) (h : ∀ a ∈ l, p a) :
    ∀ a ∈ dedupBy merge l, p a := by
  have hfrom : ∀ (l : List α) (kept : α), p kept → (∀ a ∈ l, p a) →
      ∀ a ∈ dedupFrom merge kept l, p a := by
    intro l
    induction l with
    | nil =>
      intro kept hkept _ a ha
      rwa [List.mem_singleton.1 ha]
    | cons next l ih =>
      intro kept hkept hl
      obtain ⟨hnext, hl⟩ := List.forall_mem_cons.1 hl
      cases hm : merge kept next with
      | none =>
        simp only [dedupFrom_cons, hm]
        exact List.forall_mem_cons.2 ⟨hkept, ih next hnext hl⟩
      | some merged =>
        simp only [dedupFrom_cons, hm]
        exact ih merged (hmerge kept next merged hkept hnext hm) hl
  cases l with
  | nil => exact h
  | cons a l =>
    obtain ⟨ha, hl⟩ := List.forall_mem_cons.1 h
    exact hfrom l a ha hl

/-- Something in the result stands for each element, if a merged element stands for both. -/
theorem exists_covers {covers : α → α → Prop} (hrefl : ∀ a, covers a a)
    (hkept : ∀ k n m a, merge k n = some m → covers k a → covers m a)
    (hnext : ∀ k n m, merge k n = some m → covers m n) :
    ∀ a ∈ l, ∃ b ∈ dedupBy merge l, covers b a := by
  have hfrom : ∀ (l : List α) (kept : α),
      (∀ a, covers kept a → ∃ b ∈ dedupFrom merge kept l, covers b a) ∧
        ∀ a ∈ l, ∃ b ∈ dedupFrom merge kept l, covers b a := by
    intro l
    induction l with
    | nil =>
      intro kept
      exact ⟨fun a ha => ⟨kept, List.mem_singleton_self kept, ha⟩, by simp⟩
    | cons next l ih =>
      intro kept
      cases hm : merge kept next with
      | none =>
        simp only [dedupFrom_cons, hm]
        have hmore {a : α} : (∃ b ∈ dedupFrom merge next l, covers b a) →
            ∃ b ∈ kept :: dedupFrom merge next l, covers b a :=
          fun ⟨b, hb, hcov⟩ => ⟨b, List.mem_cons_of_mem _ hb, hcov⟩
        refine ⟨fun a ha => ⟨kept, List.mem_cons_self, ha⟩, List.forall_mem_cons.2 ⟨?_, ?_⟩⟩
        · exact hmore ((ih next).1 next (hrefl next))
        · exact fun a ha => hmore ((ih next).2 a ha)
      | some merged =>
        simp only [dedupFrom_cons, hm]
        refine ⟨fun a ha => (ih merged).1 a (hkept kept next merged a hm ha), ?_⟩
        exact List.forall_mem_cons.2 ⟨(ih merged).1 next (hnext kept next merged hm),
          (ih merged).2⟩
  cases l with
  | nil => simp
  | cons a l =>
    exact List.forall_mem_cons.2 ⟨(hfrom l a).1 a (hrefl a), (hfrom l a).2⟩

/-! ## Values that come again -/

/-- Among distinct neighbours a value that comes twice comes again after another one. -/
theorem exists_between {x : α} (hchain : l.IsChain (· ≠ ·)) (h : [x, x].Sublist l) :
    ∃ y, y ≠ x ∧ [x, y, x].Sublist l := by
  induction l with
  | nil => cases h
  | cons a l ih =>
    cases h with
    | cons _ h =>
      obtain ⟨y, hy, hsub⟩ := ih (List.isChain_of_isChain_cons hchain) h
      exact ⟨y, hy, hsub.cons _⟩
    | cons_cons _ h =>
      cases l with
      | nil => cases h
      | cons b l =>
        have hne := (List.isChain_cons_cons.1 hchain).1
        refine ⟨b, hne.symm, List.Sublist.cons_cons _ (List.Sublist.cons_cons _ ?_)⟩
        obtain rfl | hx := List.mem_cons.1 (List.singleton_sublist.1 h)
        · exact absurd rfl hne
        · exact List.singleton_sublist.2 hx

/-- Distinct neighbours of which none comes again after another one are distinct. -/
theorem nodup_of_isChain (hchain : l.IsChain (· ≠ ·))
    (h : ∀ x y, x ≠ y → ¬[x, y, x].Sublist l) : l.Nodup := by
  rw [List.nodup_iff_sublist]
  intro x hx
  obtain ⟨y, hy, hsub⟩ := exists_between hchain hx
  exact h x y hy.symm hsub

/-- The elements of one key are neighbours in a list that is sorted by the key. -/
theorem isChain_filter_key {r : α → α → Prop} {key : α → ℕ} (k : ℕ)
    (hsorted : l.Pairwise fun a b => key a ≤ key b) (h : l.IsChain r) :
    (l.filter fun a => key a = k).IsChain r := by
  induction l with
  | nil => exact .nil
  | cons a l ih =>
    obtain ⟨hfirst, hrest⟩ := List.pairwise_cons.1 hsorted
    have ih := ih hrest (List.isChain_of_isChain_cons h)
    by_cases ha : key a = k
    · rw [List.filter_cons_of_pos (by simpa using ha)]
      cases l with
      | nil => exact .singleton _
      | cons b l =>
        by_cases hb : key b = k
        · rw [List.filter_cons_of_pos (by simpa using hb)] at ih ⊢
          exact List.isChain_cons_cons.2 ⟨(List.isChain_cons_cons.1 h).1, ih⟩
        · -- what follows has a greater key
          have hnil : ((b :: l).filter fun a => key a = k) = [] := by
            rw [List.filter_eq_nil_iff]
            intro c hc
            have hab := hfirst b List.mem_cons_self
            have hbc : key b ≤ key c := by
              obtain rfl | hc := List.mem_cons.1 hc
              · exact le_rfl
              · exact (List.pairwise_cons.1 hrest).1 c hc
            simp only [decide_eq_true_eq]
            omega
          rw [hnil]
          exact .singleton _
    · rwa [List.filter_cons_of_neg (by simpa using ha)]

end Kahawai.Lib.Dedup
