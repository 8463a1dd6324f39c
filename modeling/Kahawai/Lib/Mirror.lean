import Kahawai.Lib.Processes
import Mathlib.Data.Finset.Insert
import Mathlib.Data.Finset.Erase

/-!
# A set kept beside a store

A store changes in one step, and a set that should hold what it stores is patched
afterwards: the process that changed the store has a queue of insertions and removals
to make. `Mirrors` relates the two while patches are pending.

* `Mirrors.eq`: without a pending patch the set is what the store holds.
* `Mirrors.write`: a change of the store that its own patches account for.
* `Mirrors.insert`, `Mirrors.remove`: a patch is made. An insertion can be made at any
  time, a removal only where nobody still has to insert the same element.
-/

namespace Kahawai.Lib

variable {α : Type*}

/-- A change of a set. -/
inductive Patch (α : Type*)
  | insert (a : α)
  | remove (a : α)
  deriving DecidableEq

def Patch.apply [DecidableEq α] : Patch α → Finset α → Finset α
  | .insert a, held => Insert.insert a held
  | .remove a, held => held.erase a

variable {queues : List (List (Patch α))} {i : ℕ} {old new : List (Patch α)} {p : Patch α}

/-- Some queue holds the patch. -/
def Pending (queues : List (List (Patch α))) (p : Patch α) : Prop := ∃ q ∈ queues, p ∈ q

/-- A queue other than queue `i` holds the patch. -/
def PendingElsewhere (queues : List (List (Patch α))) (i : ℕ) (p : Patch α) : Prop :=
  ∃ j q, j ≠ i ∧ queues[j]? = some q ∧ p ∈ q

theorem pending_iff (h : queues[i]? = some old) :
    Pending queues p ↔ p ∈ old ∨ PendingElsewhere queues i p := by
  constructor
  · rintro ⟨q, hq, hp⟩
    obtain ⟨j, hj⟩ := List.mem_iff_getElem?.mp hq
    by_cases hji : j = i
    · subst hji
      have hsame : q = old := Option.some.inj (hj.symm.trans h)
      exact Or.inl (hsame ▸ hp)
    · exact Or.inr ⟨j, q, hji, hj, hp⟩
  · rintro (hp | ⟨j, q, -, hj, hp⟩)
    · exact ⟨old, List.mem_of_getElem? h, hp⟩
    · exact ⟨q, List.mem_of_getElem? hj, hp⟩

theorem pending_set (h : queues[i]? = some old) :
    Pending (queues.set i new) p ↔ p ∈ new ∨ PendingElsewhere queues i p := by
  have hset : (queues.set i new)[i]? = some new := getElem?_set_moved h
  rw [pending_iff hset]
  refine or_congr Iff.rfl ⟨?_, ?_⟩
  · rintro ⟨j, q, hji, hj, hp⟩
    exact ⟨j, q, hji, by rwa [List.getElem?_set_ne (Ne.symm hji)] at hj, hp⟩
  · rintro ⟨j, q, hji, hj, hp⟩
    exact ⟨j, q, hji, by rwa [List.getElem?_set_ne (Ne.symm hji)], hp⟩

/-- A queue that was empty is filled. -/
theorem pending_fill (h : queues[i]? = some []) :
    Pending (queues.set i new) p ↔ Pending queues p ∨ p ∈ new := by
  rw [pending_set h, pending_iff h, or_comm]
  simp

theorem pending_append : Pending (queues ++ [new]) p ↔ Pending queues p ∨ p ∈ new := by
  simp [Pending, or_and_right, exists_or]

/-- The set `held` will be the set `stored` when the patches in the queues are made. -/
def Mirrors (stored held : Finset α) (queues : List (List (Patch α))) : Prop :=
  ∀ a, a ∈ stored ↔ (a ∈ held ∨ Pending queues (.insert a)) ∧ ¬Pending queues (.remove a)

namespace Mirrors

variable {stored stored' held : Finset α} {a : α}

theorem eq (h : Mirrors stored held queues) (hdone : ∀ q ∈ queues, q = []) : held = stored := by
  have hnone : ∀ p, ¬Pending queues p := by
    rintro p ⟨q, hq, hp⟩
    rw [hdone q hq] at hp
    cases hp
  ext a
  rw [h a, or_iff_left (hnone _), and_iff_left (hnone _)]

/-- The store changes, and the patches `new` that are added to the queues say how. -/
theorem write {queues' : List (List (Patch α))} (h : Mirrors stored held queues)
    (hqueues : ∀ p, Pending queues' p ↔ Pending queues p ∨ p ∈ new)
    (hstored : ∀ a, a ∈ stored' ↔ (a ∈ stored ∨ .insert a ∈ new) ∧ .remove a ∉ new)
    (hfresh : ∀ a, .insert a ∈ new → ¬Pending queues (.remove a)) :
    Mirrors stored' held queues' := by
  intro a
  rw [hstored, h a, hqueues, hqueues, not_or]
  constructor
  · rintro ⟨⟨hin, hnot⟩ | hin, hkept⟩
    · exact ⟨hin.imp_right Or.inl, hnot, hkept⟩
    · exact ⟨Or.inr (Or.inr hin), hfresh a hin, hkept⟩
  · rintro ⟨hin | hin | hin, hnot, hkept⟩
    · exact ⟨Or.inl ⟨Or.inl hin, hnot⟩, hkept⟩
    · exact ⟨Or.inl ⟨Or.inr hin, hnot⟩, hkept⟩
    · exact ⟨Or.inr hin, hkept⟩

/-- Nothing is stored that was not, and no patch is added. -/
theorem congr {queues' : List (List (Patch α))} (h : Mirrors stored held queues)
    (hqueues : ∀ p, Pending queues' p ↔ Pending queues p) : Mirrors stored held queues' := by
  intro a
  rw [h a, hqueues, hqueues]

variable [DecidableEq α]

theorem insert (h : Mirrors stored held queues) (hi : queues[i]? = some (.insert a :: new)) :
    Mirrors stored (Insert.insert a held) (queues.set i new) := by
  intro b
  rw [h b, pending_iff hi, pending_iff hi, pending_set hi, pending_set hi, Finset.mem_insert]
  simp only [List.mem_cons, Patch.insert.injEq, reduceCtorEq, false_or]
  tauto

theorem remove (h : Mirrors stored held queues) (hi : queues[i]? = some (.remove a :: new))
    (hnone : ¬Pending queues (.insert a)) : Mirrors stored (held.erase a) (queues.set i new) := by
  intro b
  rw [pending_iff hi] at hnone
  rw [h b, pending_iff hi, pending_iff hi, pending_set hi, pending_set hi, Finset.mem_erase]
  simp only [List.mem_cons, Patch.remove.injEq, reduceCtorEq, false_or] at hnone ⊢
  by_cases hb : b = a
  · subst hb
    tauto
  · tauto

end Mirrors

end Kahawai.Lib
