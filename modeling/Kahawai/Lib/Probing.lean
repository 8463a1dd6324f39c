import Mathlib.Data.List.Basic
import Mathlib.Tactic.Common

/-!
# Searches that ask

A search asks, goes on with the answer, and ends when it has nothing to ask. Who answers may
answer the same question differently later, or fail.

Results:
* `run_asked`, `run_returned`: an invariant of the rounds bounds the questions and holds at the end.
* `run_finishes`: a rank that every answer lowers bounds the rounds.
-/

namespace Kahawai.Lib.Probing

variable {σ Q A ε α : Type*}

/-- What is asked next, and what is made of an answer. -/
structure Search (σ Q A : Type*) where
  ask : σ → Option Q
  tell : σ → A → σ

/-- How a search ends. -/
inductive Ending (ε σ : Type*)
  | returned (s : σ)
  | failed (e : ε)
  | unfinished
  deriving DecidableEq

def Ending.map (f : σ → α) : Ending ε σ → Ending ε α
  | .returned s => .returned (f s)
  | .failed e => .failed e
  | .unfinished => .unfinished

/-- What is asked in at most `fuel` rounds, and how they end. -/
def run (p : Search σ Q A) (oracle : ℕ → Q → Except ε A) : (fuel n : ℕ) → σ → List Q × Ending ε σ
  | 0, _, _ => ([], .unfinished)
  | fuel + 1, n, s =>
    match p.ask s with
    | none => ([], .returned s)
    | some q =>
      match oracle n q with
      | .error e => ([q], .failed e)
      | .ok a =>
        let rest := run p oracle fuel (n + 1) (p.tell s a)
        (q :: rest.1, rest.2)

/-- Every answer stands in this relation to its question. -/
def Answers (oracle : ℕ → Q → Except ε A) (R : Q → A → Prop) : Prop :=
  ∀ n q a, oracle n q = .ok a → R q a

variable {p : Search σ Q A} {oracle : ℕ → Q → Except ε A} {I : σ → Prop} {P : Q → Prop}
  {R : Q → A → Prop} {fuel n : ℕ} {s s' : σ}

theorem run_succ (p : Search σ Q A) (oracle : ℕ → Q → Except ε A) (fuel n : ℕ) (s : σ) :
    run p oracle (fuel + 1) n s =
      match p.ask s with
      | none => ([], .returned s)
      | some q =>
        match oracle n q with
        | .error e => ([q], .failed e)
        | .ok a =>
          let rest := run p oracle fuel (n + 1) (p.tell s a)
          (q :: rest.1, rest.2) := rfl

theorem run_of_none (h : p.ask s = none) : run p oracle (fuel + 1) n s = ([], .returned s) := by
  rw [run_succ, h]

theorem run_of_some {q : Q} {a : A} (h : p.ask s = some q) (ha : oracle n q = .ok a) :
    run p oracle (fuel + 1) n s =
      (q :: (run p oracle fuel (n + 1) (p.tell s a)).1,
        (run p oracle fuel (n + 1) (p.tell s a)).2) := by
  simp only [run_succ, h, ha]

theorem run_of_error {q : Q} {e : ε} (h : p.ask s = some q) (he : oracle n q = .error e) :
    run p oracle (fuel + 1) n s = ([q], .failed e) := by
  simp only [run_succ, h, he]

/-- A search that returns does so in a state with the invariant, with nothing to ask. -/
theorem run_returned (horacle : Answers oracle R)
    (hstep : ∀ s q a, I s → p.ask s = some q → R q a → I (p.tell s a)) (hs : I s)
    (h : (run p oracle fuel n s).2 = .returned s') : I s' ∧ p.ask s' = none := by
  induction fuel generalizing n s with
  | zero => cases h
  | succ fuel ih =>
    cases hask : p.ask s with
    | none =>
      rw [run_of_none hask] at h
      cases h
      exact ⟨hs, hask⟩
    | some q =>
      cases ha : oracle n q with
      | error e =>
        rw [run_of_error hask ha] at h
        cases h
      | ok a =>
        rw [run_of_some hask ha] at h
        exact ih (hstep s q a hs hask (horacle _ _ _ ha)) h

/-- A rank that every answer lowers bounds the rounds. -/
theorem run_finishes (Rank : σ → ℕ → Prop) {r : ℕ}
    (hstep : ∀ s r q a, Rank s r → p.ask s = some q → ∃ r' < r, Rank (p.tell s a) r')
    (hs : Rank s r) (hfuel : r < fuel) : (run p oracle fuel n s).2 ≠ .unfinished := by
  induction fuel generalizing n s r with
  | zero => exact absurd hfuel (Nat.not_lt_zero r)
  | succ fuel ih =>
    cases hask : p.ask s with
    | none =>
      rw [run_of_none hask]
      exact nofun
    | some q =>
      cases ha : oracle n q with
      | error e =>
        rw [run_of_error hask ha]
        exact nofun
      | ok a =>
        rw [run_of_some hask ha]
        obtain ⟨r', hlt, hrank⟩ := hstep s r q a hs hask
        exact ih hrank (by omega)

/-- Where every question is answered, a search that ends returns. -/
theorem exists_returned (hanswered : ∀ n q, ∃ a, oracle n q = .ok a)
    (h : (run p oracle fuel n s).2 ≠ .unfinished) : ∃ s', (run p oracle fuel n s).2 = .returned s' := by
  induction fuel generalizing n s with
  | zero => exact absurd rfl h
  | succ fuel ih =>
    cases hask : p.ask s with
    | none => exact ⟨s, by rw [run_of_none hask]⟩
    | some q =>
      obtain ⟨a, ha⟩ := hanswered n q
      rw [run_of_some hask ha] at h ⊢
      exact ih h

theorem map_ne_unfinished {f : σ → α} {ending : Ending ε σ} (h : ending ≠ .unfinished) :
    ending.map f ≠ .unfinished := by
  cases ending with
  | returned s => exact fun h' => by cases h'
  | failed e => exact fun h' => by cases h'
  | unfinished => exact absurd rfl h

theorem map_eq_returned {f : σ → α} {ending : Ending ε σ} {a : α} (h : ending.map f = .returned a) :
    ∃ s, ending = .returned s ∧ f s = a := by
  cases ending with
  | returned s =>
    cases h
    exact ⟨s, rfl, rfl⟩
  | failed e => cases h
  | unfinished => cases h

end Kahawai.Lib.Probing
