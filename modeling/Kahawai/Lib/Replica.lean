import Mathlib.Data.Nat.Init
import Mathlib.Tactic.Common

/-!
# Replicas of a versioned log

A `Log` keeps the latest entry of every key: its version, and its value or a
tombstone. A replica that has consumed the log up to a cursor `c` need not
agree with it on keys whose latest entry is newer than `c`, since the entry the
replica saw may be gone. `Agrees L c ρ` says that the replica `ρ` agrees with
`L` on all other keys.

* `Agrees.extends`: writes above the cursor keep agreement.
* `Agrees.step`: consuming the next entry advances the cursor, also when the
  replica drops keys that carry no value up to there.
* `Agrees.complete`: a replica whose cursor covers the log holds its live values.
-/

namespace Kahawai.Lib

variable {K V : Type*}

/-- The latest entry of a key; `none` is a tombstone. -/
structure Entry (V : Type*) where
  version : ℕ
  value : Option V

/-- The latest entry of every key. -/
abbrev Log (K V : Type*) := K → Option (Entry V)

namespace Log

/-- The value of a key, if it has one. -/
def live (L : Log K V) (k : K) : Option V := (L k).bind Entry.value

/-- `L'` was reached from `L` by writes above `c`. -/
def Extends (c : ℕ) (L L' : Log K V) : Prop :=
  ∀ k, L' k = L k ∨ ∃ e, L' k = some e ∧ c < e.version

/-- The replica agrees with the log up to the cursor `c`. -/
structure Agrees (L : Log K V) (c : ℕ) (ρ : K → Option V) : Prop where
  absent : ∀ k, L k = none → ρ k = none
  settled : ∀ k e, L k = some e → e.version ≤ c → ρ k = e.value

theorem Extends.refl (c : ℕ) (L : Log K V) : Extends c L L := fun _ => Or.inl rfl

theorem Extends.trans {c : ℕ} {L L' L'' : Log K V} (h : Extends c L L') (h' : Extends c L' L'') :
    Extends c L L'' := by
  intro k
  rcases h' k with heq | hnew
  · rw [heq]
    exact h k
  · exact Or.inr hnew

theorem Extends.mono {c d : ℕ} {L L' : Log K V} (hcd : c ≤ d) (h : Extends d L L') :
    Extends c L L' := by
  intro k
  rcases h k with heq | ⟨e, he, hlt⟩
  · exact Or.inl heq
  · exact Or.inr ⟨e, he, by omega⟩

/-- Writes above the cursor keep agreement. -/
theorem Agrees.extends {L L' : Log K V} {c : ℕ} {ρ : K → Option V} (h : Agrees L c ρ)
    (hext : Extends c L L') : Agrees L' c ρ := by
  constructor
  · intro k hk
    rcases hext k with heq | ⟨e, he, -⟩
    · exact h.absent k (heq ▸ hk)
    · rw [hk] at he
      cases he
  · intro k e hk hle
    rcases hext k with heq | ⟨e', he', hlt⟩
    · exact h.settled k e (heq ▸ hk) hle
    · rw [hk] at he'
      cases he'
      omega

/-- The next entry is consumed: `k` takes its value, and any other key keeps its
    value or is dropped, which only a key without a value up to `d` may be. -/
theorem Agrees.step {L : Log K V} {c d : ℕ} {ρ ρ' : K → Option V} (h : Agrees L c ρ) {k : K}
    {e : Entry V} (hk : L k = some e)
    (hnext : ∀ k' e', L k' = some e' → c < e'.version → e'.version ≤ d → k' = k)
    (hvalue : ρ' k = e.value)
    (hothers : ∀ k', k' ≠ k → ρ' k' = ρ k' ∨
      ρ' k' = none ∧ ∀ e', L k' = some e' → e'.version ≤ d → e'.value = none) :
    Agrees L d ρ' := by
  constructor
  · intro k' hnone
    by_cases hkk : k' = k
    · rw [hkk, hk] at hnone
      cases hnone
    · rcases hothers k' hkk with heq | ⟨hdrop, -⟩
      · rw [heq]
        exact h.absent k' hnone
      · exact hdrop
  · intro k' e' hk' hle
    by_cases hkk : k' = k
    · rw [hkk, hk] at hk'
      rw [hkk, hvalue, Option.some.inj hk']
    · have hold : e'.version ≤ c := by
        by_contra hlt
        exact hkk (hnext k' e' hk' (by omega) hle)
      rcases hothers k' hkk with heq | ⟨hdrop, hdead⟩
      · rw [heq]
        exact h.settled k' e' hk' hold
      · rw [hdrop, hdead e' hk' hle]

/-- A cursor may pass versions that no entry has. -/
theorem Agrees.advance {L : Log K V} {c d : ℕ} {ρ : K → Option V} (h : Agrees L c ρ)
    (hgap : ∀ k e, L k = some e → e.version ≤ d → e.version ≤ c) : Agrees L d ρ :=
  ⟨h.absent, fun k e hk hle => h.settled k e hk (hgap k e hk hle)⟩

/-- A replica whose cursor covers the log holds its live values. -/
theorem Agrees.complete {L : Log K V} {c : ℕ} {ρ : K → Option V} (h : Agrees L c ρ)
    (hall : ∀ k e, L k = some e → e.version ≤ c) (k : K) : ρ k = L.live k := by
  unfold live
  cases hk : L k with
  | none => exact h.absent k hk
  | some e => exact h.settled k e hk (hall k e hk)

end Log

end Kahawai.Lib
