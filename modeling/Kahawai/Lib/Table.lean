import Mathlib.Data.List.Nodup
import Mathlib.Data.List.Perm.Basic

/-!
# Keyed tables

A `Table key` is a finite list of rows in which no two rows have the same
`key`: a relational table with a primary key, or a map whose values carry
their own key. The rows keep insertion order, but no lemma below depends on
it except `rows_put`, which says that `put` appends the new row last.

* `get?` reads the row with a key, `put` is `INSERT … ON CONFLICT DO UPDATE`,
  `erase` is `DELETE` by key, `filter` is `DELETE` by condition and `mapRows`
  is `UPDATE` of columns outside the key.
* `mem_put`, `mem_erase`, `mem_filter`, `mem_mapRows` describe the rows after
  each operation; `get?_put`, `get?_erase`, `get?_filter`, `get?_mapRows`
  describe the reads.
-/

namespace Kahawai.Lib

variable {κ ρ : Type*}

/-- A list of rows without two rows of the same key. -/
structure Table (key : ρ → κ) where
  rows : List ρ
  nodup : (rows.map key).Nodup

namespace Table

variable {key : ρ → κ}

instance : Membership ρ (Table key) := ⟨fun t r => r ∈ t.rows⟩

theorem mem_def {t : Table key} {r : ρ} : r ∈ t ↔ r ∈ t.rows := Iff.rfl

instance [DecidableEq ρ] (r : ρ) (t : Table key) : Decidable (r ∈ t) :=
  inferInstanceAs (Decidable (r ∈ t.rows))

/-- Two rows of a table with the same key are the same row. -/
theorem eq_of_key_eq {t : Table key} {r r' : ρ} (h : r ∈ t) (h' : r' ∈ t)
    (hk : key r = key r') : r = r' :=
  List.inj_on_of_nodup_map t.nodup h h' hk

/-- The table without rows. -/
def empty : Table key := ⟨[], List.nodup_nil⟩

@[simp] theorem rows_empty : (empty : Table key).rows = [] := rfl

@[simp] theorem not_mem_empty (r : ρ) : r ∉ (empty : Table key) := List.not_mem_nil

/-- Keep the rows that satisfy `p`. -/
def filter (p : ρ → Bool) (t : Table key) : Table key :=
  ⟨t.rows.filter p, t.nodup.sublist (List.filter_sublist.map key)⟩

@[simp] theorem rows_filter (p : ρ → Bool) (t : Table key) :
    (t.filter p).rows = t.rows.filter p := rfl

@[simp] theorem mem_filter {p : ρ → Bool} {t : Table key} {r : ρ} :
    r ∈ t.filter p ↔ r ∈ t ∧ p r = true := List.mem_filter

/-- Change columns outside the key. -/
def mapRows (f : ρ → ρ) (hf : ∀ r, key (f r) = key r) (t : Table key) : Table key :=
  ⟨t.rows.map f, by
    rw [List.map_map, show key ∘ f = key from funext hf]
    exact t.nodup⟩

@[simp] theorem rows_mapRows (f : ρ → ρ) (hf : ∀ r, key (f r) = key r) (t : Table key) :
    (t.mapRows f hf).rows = t.rows.map f := rfl

@[simp] theorem mem_mapRows {f : ρ → ρ} {hf : ∀ r, key (f r) = key r} {t : Table key} {r : ρ} :
    r ∈ t.mapRows f hf ↔ ∃ r₀ ∈ t, f r₀ = r := List.mem_map

/-- A change that changes no row. -/
theorem mapRows_eq_self {f : ρ → ρ} {hf : ∀ r, key (f r) = key r} {t : Table key}
    (h : ∀ r ∈ t, f r = r) : t.mapRows f hf = t := by
  obtain ⟨rows, hnodup⟩ := t
  have hrows : rows.map f = rows := (List.map_congr_left h).trans (List.map_id rows)
  simp only [mapRows, hrows]

section Keyed

variable [DecidableEq κ]

/-- The row with key `k`. -/
def get? (t : Table key) (k : κ) : Option ρ := t.rows.find? fun r => key r = k

/-- Drop the row with key `k`. -/
def erase (k : κ) (t : Table key) : Table key := t.filter fun r => key r ≠ k

@[simp] theorem rows_erase (k : κ) (t : Table key) :
    (t.erase k).rows = t.rows.filter fun r => key r ≠ k := rfl

@[simp] theorem mem_erase {k : κ} {t : Table key} {r : ρ} :
    r ∈ t.erase k ↔ r ∈ t ∧ key r ≠ k := by
  simp [erase]

/-- A row and the table without it are the table, up to order. -/
theorem perm_cons_erase {t : Table key} {r : ρ} (h : r ∈ t) :
    (r :: (t.erase (key r)).rows).Perm t.rows := by
  have hrow : t.rows.filter (fun r' => key r' = key r) = [r] := by
    have hall : ∀ r' ∈ t.rows.filter (fun r' => key r' = key r), r' = r := by
      intro r' hr'
      rw [List.mem_filter] at hr'
      exact eq_of_key_eq hr'.1 h (by simpa using hr'.2)
    have hnodup : (t.rows.filter fun r' => key r' = key r).Nodup :=
      (List.Nodup.of_map key t.nodup).filter _
    have hpos : 0 < (t.rows.filter fun r' => key r' = key r).length :=
      List.length_pos_of_mem (List.mem_filter.mpr ⟨h, by simp⟩)
    rw [List.eq_replicate_of_mem hall, List.nodup_replicate] at hnodup
    rw [List.eq_replicate_of_mem hall, show List.length _ = 1 by omega, List.replicate_one]
  have hsplit := List.filter_append_perm (fun r' => decide (key r' = key r)) t.rows
  rw [hrow] at hsplit
  simpa using hsplit

/-- Insert `r`, replacing the row that has its key. -/
def put (r : ρ) (t : Table key) : Table key :=
  ⟨(t.erase (key r)).rows ++ [r], by
    rw [List.map_append, List.nodup_append]
    refine ⟨(t.erase (key r)).nodup, by simp, ?_⟩
    intro a ha b hb hab
    obtain ⟨r', hr', rfl⟩ := List.mem_map.mp ha
    simp only [List.map_cons, List.map_nil, List.mem_singleton] at hb
    exact (mem_erase.mp hr').2 (hab.trans hb)⟩

theorem rows_put (r : ρ) (t : Table key) :
    (t.put r).rows = (t.rows.filter fun r' => key r' ≠ key r) ++ [r] := rfl

@[simp] theorem mem_put {r r' : ρ} {t : Table key} :
    r' ∈ t.put r ↔ r' = r ∨ (r' ∈ t ∧ key r' ≠ key r) := by
  rw [mem_def, rows_put, List.mem_append, List.mem_singleton, or_comm]
  simp [mem_def]

/-- The rows with a property, counted by whether the row of a key is one. -/
theorem countP_erase {t : Table key} {r : ρ} (h : r ∈ t) (p : ρ → Bool) :
    t.rows.countP p = (t.erase (key r)).rows.countP p + if p r then 1 else 0 := by
  rw [← (perm_cons_erase h).countP_eq p, List.countP_cons]

theorem countP_put (r : ρ) (t : Table key) (p : ρ → Bool) :
    (t.put r).rows.countP p = (t.erase (key r)).rows.countP p + if p r then 1 else 0 := by
  rw [rows_put, List.countP_append, List.countP_singleton, rows_erase]

theorem get?_eq_some {t : Table key} {k : κ} {r : ρ} :
    t.get? k = some r ↔ r ∈ t ∧ key r = k := by
  constructor
  · intro h
    exact ⟨List.mem_of_find?_eq_some h, by simpa using List.find?_some h⟩
  · rintro ⟨hr, rfl⟩
    cases h : t.get? (key r) with
    | none => simpa using List.find?_eq_none.mp h r hr
    | some r' =>
      have hk : key r' = key r := by simpa using List.find?_some h
      rw [eq_of_key_eq (List.mem_of_find?_eq_some h) hr hk]

theorem get?_eq_none {t : Table key} {k : κ} : t.get? k = none ↔ ∀ r ∈ t, key r ≠ k := by
  simp [get?, mem_def]

/-- A read is determined by the rows with that key. -/
theorem get?_congr {t t' : Table key} {k : κ}
    (h : ∀ r, key r = k → (r ∈ t ↔ r ∈ t')) : t.get? k = t'.get? k := by
  apply Option.ext
  intro r
  rw [get?_eq_some, get?_eq_some]
  constructor
  · rintro ⟨hr, hk⟩; exact ⟨(h r hk).mp hr, hk⟩
  · rintro ⟨hr, hk⟩; exact ⟨(h r hk).mpr hr, hk⟩

@[simp] theorem get?_empty (k : κ) : (empty : Table key).get? k = none := rfl

theorem get?_put (r : ρ) (t : Table key) (k : κ) :
    (t.put r).get? k = if key r = k then some r else t.get? k := by
  split_ifs with h
  · exact get?_eq_some.mpr ⟨mem_put.mpr (Or.inl rfl), h⟩
  · apply get?_congr
    intro r' hk
    rw [mem_put]
    constructor
    · rintro (rfl | ⟨hr', -⟩)
      · exact absurd hk h
      · exact hr'
    · exact fun hr' => Or.inr ⟨hr', fun hkk => h (hkk.symm.trans hk)⟩

theorem get?_erase (t : Table key) (k k' : κ) :
    (t.erase k').get? k = if k' = k then none else t.get? k := by
  split_ifs with h
  · exact get?_eq_none.mpr fun r hr => h ▸ (mem_erase.mp hr).2
  · apply get?_congr
    intro r hk
    rw [mem_erase, hk]
    exact ⟨And.left, fun hr => ⟨hr, Ne.symm h⟩⟩

theorem get?_filter (p : ρ → Bool) (t : Table key) (k : κ) :
    (t.filter p).get? k = (t.get? k).filter p := by
  apply Option.ext
  intro r
  rw [get?_eq_some, mem_filter, Option.filter_eq_some_iff, get?_eq_some]
  tauto

theorem get?_mapRows (f : ρ → ρ) (hf : ∀ r, key (f r) = key r) (t : Table key) (k : κ) :
    (t.mapRows f hf).get? k = (t.get? k).map f := by
  apply Option.ext
  intro r
  rw [get?_eq_some, mem_mapRows, Option.map_eq_some_iff]
  constructor
  · rintro ⟨⟨r₀, hr₀, rfl⟩, hk⟩
    exact ⟨r₀, get?_eq_some.mpr ⟨hr₀, (hf r₀).symm.trans hk⟩, rfl⟩
  · rintro ⟨r₀, hr₀, rfl⟩
    obtain ⟨hm, hk⟩ := get?_eq_some.mp hr₀
    exact ⟨⟨r₀, hm, rfl⟩, (hf r₀).trans hk⟩

theorem get?_mem {t : Table key} {k : κ} {r : ρ} (h : t.get? k = some r) : r ∈ t :=
  (get?_eq_some.mp h).1

theorem get?_key {t : Table key} {k : κ} {r : ρ} (h : t.get? k = some r) : key r = k :=
  (get?_eq_some.mp h).2

theorem get?_of_mem {t : Table key} {r : ρ} (h : r ∈ t) : t.get? (key r) = some r :=
  get?_eq_some.mpr ⟨h, rfl⟩

end Keyed

end Table

end Kahawai.Lib
