import Kahawai.Lib.Programs

/-!
# Transactions

The body of a transaction is a program over a working copy of the store. It ends
by committing or by rolling back, in both cases with an answer, or stops with an
error. `transaction` runs a body: only a commit replaces the store.

* `transaction_keeps`: what the commits of a body preserve, the transaction
  preserves.
* `transaction_error`, `transaction_rollback`: a transaction that fails, or whose
  answer its body never commits with, leaves the store as it was.
-/

namespace Kahawai.Lib

variable {ε σ α : Type}

/-- How the body of a transaction ends. -/
inductive Ending (α : Type)
  | commit (answer : α)
  | rollback (answer : α)
  deriving DecidableEq

/-- The answer of a transaction and the store after it. -/
def transaction (body : EStateM ε σ (Ending α)) (s : σ) : Except ε α × σ :=
  match body.run s with
  | .ok (.commit a) s' => (.ok a, s')
  | .ok (.rollback a) _ => (.ok a, s)
  | .error e _ => (.error e, s)

section Transaction

variable {body : EStateM ε σ (Ending α)} {s s' : σ} {a : α} {e : ε}

theorem transaction_commit (h : body.run s = .ok (.commit a) s') :
    transaction body s = (.ok a, s') := by
  rw [transaction, h]

theorem transaction_rolledBack (h : body.run s = .ok (.rollback a) s') :
    transaction body s = (.ok a, s) := by
  rw [transaction, h]

theorem transaction_failed (h : body.run s = .error e s') :
    transaction body s = (.error e, s) := by
  rw [transaction, h]

/-- A transaction keeps what its commits keep. -/
theorem transaction_keeps {I : σ → Prop} (hs : I s)
    (hbody : ∀ a s', body.run s = .ok (.commit a) s' → I s') : I (transaction body s).2 := by
  unfold transaction
  split
  · rename_i a s' h
    exact hbody a s' h
  · exact hs
  · exact hs

/-- A transaction that fails leaves the store as it was. -/
theorem transaction_error (h : (transaction body s).1 = .error e) : (transaction body s).2 = s := by
  revert h
  unfold transaction
  split
  · intro h
    cases h
  · intro h
    cases h
  · intro _
    rfl

/-- So does one whose body does not commit with the answer given. -/
theorem transaction_rollback (hbody : ∀ s', body.run s ≠ .ok (.commit a) s')
    (h : (transaction body s).1 = .ok a) : (transaction body s).2 = s := by
  revert h
  unfold transaction
  split
  · rename_i a' s' hrun
    intro h
    cases h
    exact absurd hrun (hbody s')
  · intro _
    rfl
  · intro h
    cases h

end Transaction

end Kahawai.Lib
