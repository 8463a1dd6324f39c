import Mathlib.Order.Lattice
import Mathlib.Data.List.Basic
import Mathlib.Tactic.Common

/-!
# Maps in the order of their keys

A map as the list of its entries, in increasing order of the keys. Entries are added by
`upsert`; a map of lists is filled by pushing values, one after another.

Results:
* `get?_upsert`, `sorted_upsert`: an update changes one key and keeps the order.
* `mem_iff_get?`: the entries of a map in order are those that are found.
* `get?_collect`: what is pushed under a key, in the order in which it is pushed.
-/

namespace Kahawai.Lib.SortedMap

variable {K V : Type*} [LinearOrder K]

/-- The value of a key. -/
def get? (k : K) : List (K × V) → Option V
  | [] => none
  | (k', v) :: m => if k' = k then some v else get? k m

/-- Replaces the value of a key, or adds the key at its place. -/
def upsert (k : K) (f : Option V → V) : List (K × V) → List (K × V)
  | [] => [(k, f none)]
  | (k', v) :: m =>
    if k < k' then (k, f none) :: (k', v) :: m
    else if k' = k then (k', f (some v)) :: m
    else (k', v) :: upsert k f m

/-- Adds a value to the list of a key. -/
def push (k : K) (v : V) : List (K × List V) → List (K × List V) :=
  upsert k fun vs => vs.getD [] ++ [v]

/-- Pushes one value after another. -/
def collect (entries : List (K × V)) : List (K × List V) :=
  entries.foldl (fun m (k, v) => push k v m) []

/-- The keys are in order. -/
def Sorted (m : List (K × V)) : Prop := m.Pairwise fun a b : K × V => a.1 < b.1

variable {k k' : K} {f : Option V → V} {m : List (K × V)}

theorem get?_cons (e : K × V) (m : List (K × V)) :
    get? k (e :: m) = if e.1 = k then some e.2 else get? k m := rfl

theorem upsert_cons (e : K × V) (m : List (K × V)) :
    upsert k f (e :: m) =
      if k < e.1 then (k, f none) :: e :: m
      else if e.1 = k then (e.1, f (some e.2)) :: m
      else e :: upsert k f m := rfl

theorem get?_eq_none (h : ∀ e ∈ m, e.1 ≠ k) : get? k m = none := by
  induction m with
  | nil => rfl
  | cons e m ih =>
    rw [get?_cons, if_neg (h e List.mem_cons_self)]
    exact ih fun e' he' => h e' (List.mem_cons_of_mem _ he')

theorem mem_iff_get? (h : Sorted m) {v : V} : (k, v) ∈ m ↔ get? k m = some v := by
  induction m with
  | nil => exact iff_of_false List.not_mem_nil nofun
  | cons e m ih =>
    obtain ⟨hhead, htail⟩ := List.pairwise_cons.mp h
    rw [get?_cons, List.mem_cons]
    split_ifs with hk
    · constructor
      · rintro (heq | hmem)
        · rw [← heq]
        · exact absurd hk (hhead _ hmem).ne
      · intro hv
        exact Or.inl (Prod.ext hk.symm (Option.some.inj hv).symm)
    · rw [← ih htail]
      refine or_iff_right ?_
      rintro rfl
      exact hk rfl

/-- The keys after an update. -/
theorem mem_keys_upsert {e : K × V} (he : e ∈ upsert k f m) : e.1 = k ∨ ∃ e' ∈ m, e'.1 = e.1 := by
  induction m with
  | nil => exact Or.inl (congrArg Prod.fst (List.mem_singleton.mp he))
  | cons e' m ih =>
    rw [upsert_cons] at he
    split_ifs at he with hlt heq
    · rcases List.mem_cons.mp he with rfl | he
      · exact Or.inl rfl
      · exact Or.inr ⟨e, he, rfl⟩
    · rcases List.mem_cons.mp he with rfl | he
      · exact Or.inl heq
      · exact Or.inr ⟨e, List.mem_cons_of_mem _ he, rfl⟩
    · rcases List.mem_cons.mp he with rfl | he
      · exact Or.inr ⟨_, List.mem_cons_self, rfl⟩
      · rcases ih he with hk | ⟨e'', he'', hk⟩
        · exact Or.inl hk
        · exact Or.inr ⟨e'', List.mem_cons_of_mem _ he'', hk⟩

theorem sorted_upsert (h : Sorted m) : Sorted (upsert k f m) := by
  induction m with
  | nil => exact List.pairwise_singleton _ _
  | cons e m ih =>
    obtain ⟨hhead, htail⟩ := List.pairwise_cons.mp h
    rw [upsert_cons]
    split_ifs with hlt heq
    · refine List.pairwise_cons.mpr ⟨fun e' he' => ?_, h⟩
      rcases List.mem_cons.mp he' with rfl | he'
      · exact hlt
      · exact hlt.trans (hhead _ he')
    · exact List.pairwise_cons.mpr ⟨hhead, htail⟩
    · refine List.pairwise_cons.mpr ⟨fun e' he' => ?_, ih htail⟩
      rcases mem_keys_upsert he' with hk | ⟨e'', he'', hk⟩
      · exact hk ▸ lt_of_le_of_ne (not_lt.mp hlt) heq
      · exact hk ▸ hhead _ he''

/-- An update changes one key. -/
theorem get?_upsert (h : Sorted m) :
    get? k' (upsert k f m) = if k = k' then some (f (get? k m)) else get? k' m := by
  induction m with
  | nil => rfl
  | cons e m ih =>
    obtain ⟨hhead, htail⟩ := List.pairwise_cons.mp h
    rw [upsert_cons]
    by_cases hlt : k < e.1
    · -- the key is new, before all others
      have hnone : get? k (e :: m) = none := by
        refine get?_eq_none fun e' he' => ?_
        rcases List.mem_cons.mp he' with rfl | he'
        · exact hlt.ne'
        · exact (hlt.trans (hhead _ he')).ne'
      rw [if_pos hlt, get?_cons, hnone]
    · by_cases heq : e.1 = k
      · rw [if_neg hlt, if_pos heq, get?_cons, get?_cons, get?_cons, heq, if_pos rfl]
        split_ifs <;> rfl
      · rw [if_neg hlt, if_neg heq, get?_cons, get?_cons, get?_cons, if_neg heq, ih htail]
        by_cases hk' : k = k'
        · rw [if_pos hk', if_pos hk', if_neg fun he => heq (he.trans hk'.symm)]
        · rw [if_neg hk', if_neg hk']

/-! ## Changing all values, adding keys -/

theorem get?_map {W : Type*} (h : V → W) :
    get? k (m.map fun e => (e.1, h e.2)) = (get? k m).map h := by
  induction m with
  | nil => rfl
  | cons e m ih =>
    rw [List.map_cons, get?_cons, get?_cons, ih]
    split_ifs <;> rfl

theorem sorted_map {W : Type*} (h : V → W) (hm : Sorted m) :
    Sorted (m.map fun e => (e.1, h e.2)) :=
  List.pairwise_map.mpr hm

/-- Keys that are added with one value. -/
theorem sorted_foldl_upsert {W : Type*} (keys : List (K × W)) (v : V) (h : Sorted m) :
    Sorted (keys.foldl (fun m e => upsert e.1 (fun _ => v) m) m) := by
  induction keys generalizing m with
  | nil => exact h
  | cons e keys ih => exact ih (sorted_upsert h)

theorem get?_foldl_upsert_of_not_mem {W : Type*} {keys : List (K × W)} (v : V) (h : Sorted m)
    (hk : k ∉ keys.map Prod.fst) :
    get? k (keys.foldl (fun m e => upsert e.1 (fun _ => v) m) m) = get? k m := by
  induction keys generalizing m with
  | nil => rfl
  | cons e keys ih =>
    rw [List.map_cons, List.mem_cons, not_or] at hk
    rw [List.foldl_cons, ih (sorted_upsert h) hk.2, get?_upsert h, if_neg (Ne.symm hk.1)]

theorem get?_foldl_upsert_of_mem {W : Type*} {keys : List (K × W)} (v : V) (h : Sorted m)
    (hk : k ∈ keys.map Prod.fst) :
    get? k (keys.foldl (fun m e => upsert e.1 (fun _ => v) m) m) = some v := by
  induction keys generalizing m with
  | nil => cases hk
  | cons e keys ih =>
    rw [List.foldl_cons]
    by_cases hrest : k ∈ keys.map Prod.fst
    · exact ih (sorted_upsert h) hrest
    · have hhead : e.1 = k := ((List.mem_cons.mp hk).resolve_right hrest).symm
      rw [get?_foldl_upsert_of_not_mem v (sorted_upsert h) hrest, get?_upsert h, if_pos hhead]

/-! ## Maps of lists -/

/-- What is pushed under a key. -/
def valuesOf (k : K) (entries : List (K × V)) : List V :=
  (entries.filter fun e => e.1 = k).map Prod.snd

theorem mem_valuesOf {entries : List (K × V)} {v : V} : v ∈ valuesOf k entries ↔ (k, v) ∈ entries := by
  unfold valuesOf
  constructor
  · intro h
    obtain ⟨⟨k', v'⟩, he, rfl⟩ := List.mem_map.mp h
    obtain ⟨he, hk⟩ := List.mem_filter.mp he
    rwa [← of_decide_eq_true hk]
  · intro h
    exact List.mem_map.mpr ⟨(k, v), List.mem_filter.mpr ⟨h, decide_eq_true rfl⟩, rfl⟩

theorem sorted_collectFrom (entries : List (K × V)) {m : List (K × List V)} (h : Sorted m) :
    Sorted (entries.foldl (fun m (k, v) => push k v m) m) := by
  induction entries generalizing m with
  | nil => exact h
  | cons e entries ih => exact ih (sorted_upsert h)

theorem sorted_collect (entries : List (K × V)) : Sorted (collect entries) :=
  sorted_collectFrom entries List.Pairwise.nil

theorem get?_collectFrom (entries : List (K × V)) {m : List (K × List V)} (h : Sorted m) :
    get? k (entries.foldl (fun m (k, v) => push k v m) m) =
      if valuesOf k entries = [] then get? k m else some ((get? k m).getD [] ++ valuesOf k entries) := by
  induction entries generalizing m with
  | nil => rfl
  | cons e entries ih =>
    have hpush : get? k (push e.1 e.2 m) =
        if e.1 = k then some ((get? e.1 m).getD [] ++ [e.2]) else get? k m := get?_upsert h
    have hfold : get? k ((e :: entries).foldl (fun m (k, v) => push k v m) m) =
        get? k (entries.foldl (fun m (k, v) => push k v m) (push e.1 e.2 m)) := rfl
    have hsorted : Sorted (push e.1 e.2 m) := sorted_upsert h
    rw [hfold, ih hsorted, hpush]
    by_cases hk : e.1 = k
    · have hvalues : valuesOf k (e :: entries) = e.2 :: valuesOf k entries := by
        simp [valuesOf, hk]
      rw [if_pos hk, hvalues, if_neg (List.cons_ne_nil _ _), hk]
      split_ifs with hnil
      · rw [hnil]
      · simp
    · have hvalues : valuesOf k (e :: entries) = valuesOf k entries := by
        simp [valuesOf, hk]
      rw [if_neg hk, hvalues]

/-- What is pushed under a key, in the order in which it is pushed. -/
theorem get?_collect (entries : List (K × V)) : get? k (collect entries) =
    if valuesOf k entries = [] then none else some (valuesOf k entries) :=
  get?_collectFrom entries List.Pairwise.nil

end Kahawai.Lib.SortedMap
