import Mathlib.Algebra.BigOperators.Group.Multiset.Basic
import Mathlib.Algebra.Order.BigOperators.Group.Multiset
import Mathlib.Logic.Relation

/-!
# Admission control over several resources

An admission controller holds a bag of waiting jobs and a bag of running
jobs. A job uses an amount of each resource, takes all of it at once when it
is admitted, and is admitted only when all of it fits. Running jobs may be
parked again, and any job may leave. `use` and `cap` are arbitrary, so the
resources may be of different kinds with different capacities.

* `Desk.within_of_steps`: the running jobs never use more than the capacity,
  whatever the order of submissions, admissions, parkings and departures.
* `Within.not_both`: two running jobs never hold one resource of capacity 1.
-/

namespace Kahawai.Lib

variable {J R : Type*}

/-! ## Load and capacity -/

/-- What the jobs of a bag use of the resource `r` together. -/
def load (use : J → R → ℕ) (running : Multiset J) (r : R) : ℕ :=
  (running.map fun j => use j r).sum

@[simp] theorem load_zero (use : J → R → ℕ) (r : R) : load use 0 r = 0 := rfl

@[simp] theorem load_cons (use : J → R → ℕ) (j : J) (running : Multiset J) (r : R) :
    load use (j ::ₘ running) r = use j r + load use running r := by
  simp [load]

@[simp] theorem load_singleton (use : J → R → ℕ) (j : J) (r : R) :
    load use {j} r = use j r := by
  simp [load]

theorem load_mono (use : J → R → ℕ) {a b : Multiset J} (h : a ≤ b) (r : R) :
    load use a r ≤ load use b r := by
  obtain ⟨c, rfl⟩ := Multiset.le_iff_exists_add.mp h
  simp [load]

/-- No resource is used beyond its capacity. -/
def Within (use : J → R → ℕ) (cap : R → ℕ) (running : Multiset J) : Prop :=
  ∀ r, load use running r ≤ cap r

/-- Everything `j` uses can be added. -/
def Fits (use : J → R → ℕ) (cap : R → ℕ) (running : Multiset J) (j : J) : Prop :=
  ∀ r, use j r ≠ 0 → load use running r + use j r ≤ cap r

variable {use : J → R → ℕ} {cap : R → ℕ}

theorem Within.zero : Within use cap 0 := fun _ => Nat.zero_le _

theorem Within.mono {a b : Multiset J} (hb : Within use cap b) (h : a ≤ b) : Within use cap a :=
  fun r => (load_mono use h r).trans (hb r)

theorem Within.cons {running : Multiset J} {j : J} (h : Within use cap running)
    (hj : Fits use cap running j) : Within use cap (j ::ₘ running) := by
  intro r
  rw [load_cons, Nat.add_comm]
  by_cases hr : use j r = 0
  · rw [hr]
    exact h r
  · exact hj r hr

theorem Fits.mono {a b : Multiset J} {j : J} (hb : Fits use cap b j) (h : a ≤ b) :
    Fits use cap a j :=
  fun r hr => (Nat.add_le_add_right (load_mono use h r) _).trans (hb r hr)

/-- Two jobs of a bag within capacity do not both hold a resource of
    capacity 1. -/
theorem Within.not_both {running : Multiset J} (h : Within use cap running) {r : R}
    (hr : cap r = 1) {j k : J} (hjk : j ::ₘ {k} ≤ running) :
    use j r = 0 ∨ use k r = 0 := by
  have hle := (load_mono use hjk r).trans (h r)
  rw [hr] at hle
  simp only [load_cons, load_singleton] at hle
  omega

/-! ## The controller -/

/-- The two bags of an admission controller. -/
structure Desk (J : Type*) where
  waiting : Multiset J
  running : Multiset J

namespace Desk

/-- What can happen at the desk. -/
inductive Step (use : J → R → ℕ) (cap : R → ℕ) : Desk J → Desk J → Prop
  | submit (j : J) (w r : Multiset J) : Step use cap ⟨w, r⟩ ⟨j ::ₘ w, r⟩
  | start (j : J) (w r : Multiset J) : Fits use cap r j →
      Step use cap ⟨j ::ₘ w, r⟩ ⟨w, j ::ₘ r⟩
  | park (j : J) (w r : Multiset J) : Step use cap ⟨w, j ::ₘ r⟩ ⟨j ::ₘ w, r⟩
  | leave {w w' r r' : Multiset J} : w' ≤ w → r' ≤ r → Step use cap ⟨w, r⟩ ⟨w', r'⟩

/-- Any number of steps. -/
def Steps (use : J → R → ℕ) (cap : R → ℕ) : Desk J → Desk J → Prop :=
  Relation.ReflTransGen (Step use cap)

theorem within_of_step {d d' : Desk J} (h : Step use cap d d') (hd : Within use cap d.running) :
    Within use cap d'.running := by
  cases h with
  | submit => exact hd
  | start j w r hfit => exact hd.cons hfit
  | park j w r => exact hd.mono (Multiset.le_cons_self r j)
  | leave hw hr => exact hd.mono hr

/-- The running jobs stay within capacity. -/
theorem within_of_steps {d d' : Desk J} (h : Steps use cap d d')
    (hd : Within use cap d.running) : Within use cap d'.running := by
  induction h with
  | refl => exact hd
  | tail _ hstep ih => exact within_of_step hstep ih

end Desk

end Kahawai.Lib
