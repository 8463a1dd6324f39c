import Mathlib.Logic.Relation
import Mathlib.Order.Defs.PartialOrder
import Mathlib.Tactic.Common

/-!
# Runs of an event machine

`next s e` is the state after the event `e`, or `none` where `e` cannot happen
in `s`. A condition `ok` on a state and the event about to happen selects the
runs all of whose events meet it.

* `Steps.invariant`, `Reaches.invariant`: what every event that meets the
  condition preserves holds in every state of such a run.
* `reaches_of_replay`: a run given as a list of events, evaluated.
-/

namespace Kahawai.Lib

/-- A start state and the effect of every event. -/
structure Machine (S E : Type*) where
  start : S
  next : S → E → Option S

namespace Machine

variable {S E : Type*} {m : Machine S E} {ok ok' : S → E → Prop} {s s' : S}

/-- One event that meets the condition. -/
def Step (m : Machine S E) (ok : S → E → Prop) (s s' : S) : Prop :=
  ∃ e, ok s e ∧ m.next s e = some s'

/-- Any number of events that meet the condition. -/
def Steps (m : Machine S E) (ok : S → E → Prop) : S → S → Prop :=
  Relation.ReflTransGen (m.Step ok)

/-- The states of the runs all of whose events meet the condition. -/
def Reaches (m : Machine S E) (ok : S → E → Prop) (s : S) : Prop := m.Steps ok m.start s

/-- The states of all runs. -/
abbrev Reachable (m : Machine S E) (s : S) : Prop := m.Reaches (fun _ _ => True) s

theorem Reaches.start : m.Reaches ok m.start := Relation.ReflTransGen.refl

theorem Reaches.trans (h : m.Reaches ok s) (h' : m.Steps ok s s') : m.Reaches ok s' :=
  Relation.ReflTransGen.trans h h'

theorem Reaches.next {e : E} (h : m.Reaches ok s) (hok : ok s e) (he : m.next s e = some s') :
    m.Reaches ok s' :=
  Relation.ReflTransGen.tail h ⟨e, hok, he⟩

/-- A weaker condition admits more runs. -/
theorem Reaches.mono (h : m.Reaches ok s) (hok : ∀ s e, ok s e → ok' s e) : m.Reaches ok' s :=
  Relation.ReflTransGen.mono (fun _ _ ⟨e, he, hs⟩ => ⟨e, hok _ e he, hs⟩) _ _ h

theorem Reaches.reachable (h : m.Reaches ok s) : m.Reachable s := h.mono fun _ _ _ => trivial

/-- What every event preserves holds along a run. -/
theorem Steps.invariant {I : S → Prop} (h : m.Steps ok s s') (hs : I s)
    (hstep : ∀ {a e b}, I a → ok a e → m.next a e = some b → I b) : I s' := by
  induction h with
  | refl => exact hs
  | tail _ hlast ih =>
    obtain ⟨e, hok, he⟩ := hlast
    exact hstep ih hok he

/-- What holds at the start and is preserved by every event holds in every
    state reached. -/
theorem Reaches.invariant {I : S → Prop} (h : m.Reaches ok s) (hstart : I m.start)
    (hstep : ∀ {a e b}, I a → ok a e → m.next a e = some b → I b) : I s :=
  Steps.invariant h hstart hstep

/-- What no event lowers is not lowered by a run from a state with an invariant. -/
theorem Steps.monotone {A : Type*} [Preorder A] {I : S → Prop} (f : S → A) (h : m.Steps ok s s')
    (hs : I s) (hstep : ∀ {a e b}, I a → ok a e → m.next a e = some b → I b ∧ f a ≤ f b) :
    f s ≤ f s' := by
  have hboth : I s' ∧ f s ≤ f s' :=
    Steps.invariant (I := fun t => I t ∧ f s ≤ f t) h ⟨hs, le_rfl⟩ fun ⟨ha, hle⟩ hok he =>
      ⟨(hstep ha hok he).1, le_trans hle (hstep ha hok he).2⟩
  exact hboth.2

/-- The state after a list of events that all meet the condition. -/
def replay (m : Machine S E) (ok : S → E → Bool) : List E → S → Option S
  | [], s => some s
  | e :: es, s => if ok s e then (m.next s e).bind (m.replay ok es) else none

theorem replay_append (ok : S → E → Bool) (es es' : List E) (s : S) :
    m.replay ok (es ++ es') s = (m.replay ok es s).bind (m.replay ok es') := by
  induction es generalizing s with
  | nil => rfl
  | cons e es ih =>
    rw [List.cons_append, replay, replay]
    split
    · rw [Option.bind_assoc]
      exact congrArg _ (funext ih)
    · rfl

theorem steps_of_replay {ok : S → E → Bool} (es : List E) {s s' : S}
    (h : m.replay ok es s = some s') : m.Steps (fun s e => ok s e = true) s s' := by
  induction es generalizing s with
  | nil =>
    cases h
    exact Relation.ReflTransGen.refl
  | cons e es ih =>
    rw [replay] at h
    split at h
    · rename_i hok
      obtain ⟨t, ht, h⟩ := Option.bind_eq_some_iff.mp h
      exact Relation.ReflTransGen.head ⟨e, hok, ht⟩ (ih h)
    · cases h

theorem reaches_of_replay {ok : S → E → Bool} {es : List E}
    (h : m.replay ok es m.start = some s) : m.Reaches (fun s e => ok s e = true) s :=
  steps_of_replay es h

end Machine

end Kahawai.Lib
