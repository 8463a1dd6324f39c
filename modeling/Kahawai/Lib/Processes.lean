import Mathlib.Data.List.Nodup

/-!
# Processes in a list

A machine keeps its processes in a list: process `i` is the entry at index
`i`, a new process is appended and a process that moves is `set`. The lemmas
say which entry an index reads after each of the two.
-/

namespace Kahawai.Lib

variable {α β S : Type*} {ps : List α} {p q : α} {i j : ℕ}

/-- A step of process `i` that the guard `c` allows. -/
def move (ps : List α) (i : ℕ) (c : α → Prop) [DecidablePred c] (f : α → S) : Option S :=
  match ps[i]? with
  | none => none
  | some p => if c p then some (f p) else none

theorem move_eq_some {c : α → Prop} [DecidablePred c] {f : α → S} {s : S} :
    move ps i c f = some s ↔ ∃ p, ps[i]? = some p ∧ c p ∧ f p = s := by
  rw [move]
  cases ps[i]? with
  | none => simp
  | some p => by_cases h : c p <;> simp [h]

/-- A process after process `i` moved is the moved one or an old one. -/
theorem getElem?_set_cases (h : (ps.set i p)[j]? = some q) :
    (j = i ∧ q = p) ∨ (j ≠ i ∧ ps[j]? = some q) := by
  rw [List.getElem?_set] at h
  split at h
  · rename_i hij
    split at h
    · exact Or.inl ⟨hij.symm, (Option.some.inj h).symm⟩
    · cases h
  · rename_i hij
    exact Or.inr ⟨fun hji => hij hji.symm, h⟩

theorem mem_set_cases (h : q ∈ ps.set i p) : q = p ∨ ∃ j, j ≠ i ∧ ps[j]? = some q := by
  obtain ⟨j, hj⟩ := List.mem_iff_getElem?.mp h
  rcases getElem?_set_cases hj with ⟨-, hq⟩ | hold
  · exact Or.inl hq
  · exact Or.inr ⟨j, hold⟩

/-- The process that moved. -/
theorem getElem?_set_moved (h : ps[i]? = some q) : (ps.set i p)[i]? = some p :=
  List.getElem?_set_self (List.getElem?_eq_some_iff.mp h).1

theorem mem_set_moved (h : ps[i]? = some q) : p ∈ ps.set i p :=
  List.mem_of_getElem? (getElem?_set_moved h)

/-- A process before process `i` moved is still there, or it is the one. -/
theorem mem_set_or_eq {r : α} (hr : ps[i]? = some r) (hq : q ∈ ps) : q ∈ ps.set i p ∨ q = r := by
  obtain ⟨j, hj⟩ := List.mem_iff_getElem?.mp hq
  by_cases hij : i = j
  · subst hij
    exact Or.inr (Option.some.inj (hj.symm.trans hr))
  · refine Or.inl (List.mem_of_getElem? (i := j) ?_)
    rwa [List.getElem?_set_ne hij]

/-- A process after one was added is the new one or an old one. -/
theorem getElem?_append_cases (h : (ps ++ [p])[j]? = some q) :
    (j = ps.length ∧ q = p) ∨ ps[j]? = some q := by
  rw [List.getElem?_append] at h
  split at h
  · exact Or.inr h
  · rename_i hlt
    obtain ⟨hj, hq⟩ := List.getElem?_eq_some_iff.mp h
    have hlen : j - ps.length < 1 := hj
    refine Or.inl ⟨by omega, ?_⟩
    rw [← hq, List.getElem_singleton]

/-- A column that no move changes. -/
theorem map_set_eq {f : α → β} (h : ps[i]? = some q) (hf : f p = f q) :
    (ps.set i p).map f = ps.map f := by
  obtain ⟨hlt, rfl⟩ := List.getElem?_eq_some_iff.mp h
  rw [List.map_set, hf]
  apply List.ext_getElem?
  intro j
  rw [List.getElem?_set, List.getElem?_map]
  split
  · rename_i hij
    subst hij
    simp [hlt]
  · rfl

/-- A count over the processes, before and after one moved. -/
theorem countP_set_add {c : α → Bool} (h : ps[i]? = some q) :
    (ps.set i p).countP c + (c q).toNat = ps.countP c + (c p).toNat := by
  obtain ⟨hlt, rfl⟩ := List.getElem?_eq_some_iff.mp h
  have hcounted : c ps[i] = true → 0 < ps.countP c := fun hc =>
    List.countP_pos_iff.mpr ⟨_, List.getElem_mem hlt, hc⟩
  rw [List.countP_set hlt]
  cases hq : c ps[i]
  · cases c p <;> simp
  · have hpos := hcounted hq
    cases c p <;> simp <;> omega

/-- No two processes have the property. -/
def AtMostOne (c : α → Bool) (ps : List α) : Prop :=
  ∀ (i j : ℕ) (p q : α), ps[i]? = some p → ps[j]? = some q → c p = true → c q = true → i = j

theorem AtMostOne.nil {c : α → Bool} : AtMostOne c [] :=
  fun _ _ _ _ hp => absurd (List.mem_of_getElem? hp) List.not_mem_nil

/-- A process moves: it had the property, or no process has. -/
theorem AtMostOne.set {c : α → Bool} (h : AtMostOne c ps) (hq : ps[i]? = some q)
    (hc : c p = true → c q = true ∨ ∀ r ∈ ps, c r = false) : AtMostOne c (ps.set i p) := by
  have hnone : ∀ {j r}, ps[j]? = some r → j ≠ i → c p = true → c r = true → False := by
    intro j r hr hne hp hcr
    rcases hc hp with hcq | hnone
    · exact hne (h j i r q hr hq hcr hcq)
    · cases hcr.symm.trans (hnone r (List.mem_of_getElem? hr))
  intro j l r t hr ht hcr hct
  rcases getElem?_set_cases hr with ⟨hj, rfl⟩ | ⟨hj, hr'⟩
  · rcases getElem?_set_cases ht with ⟨hl, -⟩ | ⟨hl, ht'⟩
    · exact hj.trans hl.symm
    · exact (hnone ht' hl hcr hct).elim
  · rcases getElem?_set_cases ht with ⟨-, rfl⟩ | ⟨-, ht'⟩
    · exact (hnone hr' hj hct hcr).elim
    · exact h j l r t hr' ht' hcr hct

/-- A process is added: it does not have the property, or no process has. -/
theorem AtMostOne.append {c : α → Bool} (h : AtMostOne c ps)
    (hc : c p = true → ∀ r ∈ ps, c r = false) : AtMostOne c (ps ++ [p]) := by
  intro j l r t hr ht hcr hct
  rcases getElem?_append_cases hr with ⟨hj, rfl⟩ | hr'
  · rcases getElem?_append_cases ht with ⟨hl, -⟩ | ht'
    · exact hj.trans hl.symm
    · cases hct.symm.trans (hc hcr t (List.mem_of_getElem? ht'))
  · rcases getElem?_append_cases ht with ⟨-, rfl⟩ | ht'
    · cases hcr.symm.trans (hc hct r (List.mem_of_getElem? hr'))
    · exact h j l r t hr' ht' hcr hct

/-- Where a column has no repetition, it tells the processes apart. -/
theorem index_eq_of_nodup {f : α → β} (h : (ps.map f).Nodup) (hp : ps[i]? = some p)
    (hq : ps[j]? = some q) (hf : f p = f q) : i = j := by
  obtain ⟨hlt, -⟩ := List.getElem?_eq_some_iff.mp hp
  refine (List.getElem?_inj (by rwa [List.length_map]) h).mp ?_
  rw [List.getElem?_map, List.getElem?_map, hp, hq, Option.map_some, Option.map_some, hf]

end Kahawai.Lib
