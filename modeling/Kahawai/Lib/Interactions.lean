import Mathlib.Logic.Relation

/-!
# Programs that ask a store

An `Interaction` asks a store one question after another and goes on with each answer.
`Interaction.Runs` says how far it has come on a store that answers by `run`, and may
refuse a question without a change. The rules `Runs.answer` and `Runs.refuse` add one
question at the end.
-/

namespace Kahawai.Lib

/-- A program that asks questions `σ`, is answered by `ρ` or refused, and returns `α`. -/
inductive Interaction (σ ρ α : Type)
  | done (a : α)
  | ask (q : σ) (next : Option ρ → Interaction σ ρ α)

namespace Interaction

variable {σ ρ α D : Type}

/-- One question, answered or refused. -/
inductive Step (run : σ → D → Option (D × ρ)) :
    Interaction σ ρ α × D → Interaction σ ρ α × D → Prop
  | answer (q : σ) (next : Option ρ → Interaction σ ρ α) (d d' : D) (r : ρ)
      (h : run q d = some (d', r)) : Step run (.ask q next, d) (next (some r), d')
  | refuse (q : σ) (next : Option ρ → Interaction σ ρ α) (d : D) :
      Step run (.ask q next, d) (next none, d)

/-- A program started on a store has come to another program and another store. -/
def Runs (run : σ → D → Option (D × ρ)) (p : Interaction σ ρ α) (d : D) (p' : Interaction σ ρ α)
    (d' : D) : Prop :=
  Relation.ReflTransGen (Step run) (p, d) (p', d')

variable {run : σ → D → Option (D × ρ)} {p : Interaction σ ρ α} {q : σ}
  {next : Option ρ → Interaction σ ρ α} {d d' d'' : D} {r : ρ}

theorem Runs.refl : Runs run p d p d := Relation.ReflTransGen.refl

theorem Runs.answer (h : Runs run p d (.ask q next) d') (hq : run q d' = some (d'', r)) :
    Runs run p d (next (some r)) d'' :=
  Relation.ReflTransGen.tail h (.answer q next d' d'' r hq)

theorem Runs.refuse (h : Runs run p d (.ask q next) d') : Runs run p d (next none) d' :=
  Relation.ReflTransGen.tail h (.refuse q next d')

end Interaction

end Kahawai.Lib
