import Kahawai.Sqlite.Writer

/-!
# What a lease does to the database

The contents of the database change by statements outside of a transaction and by whole
transactions (`Replays`). `Lease.Fits` says how far the holder of a lease is, against the
contents and the open transaction: a transaction that has begun keeps its rollback armed,
and its `COMMIT` is handed over when its operation and its callback have run to their
ends.

* `Lease.Fits.next`: the holder takes its next step.
* `Lease.Fits.exec`: SQLite executes the command that the holder has handed over.
-/

namespace Kahawai.Sqlite

open Kahawai.Lib Kahawai.Lib.Interaction

variable {D σ ρ : Type} {run : σ → D → Option (D × ρ)} {beforeCommit : Option (Operation σ ρ)}
  {operation todo : Operation σ ρ} {contents d d' w w' : D} {log : List (Entry σ ρ)} {q : σ}
  {r : ρ} {c c' : Connection D σ ρ} {command : Command σ ρ} {reply : Reply ρ}

/-! ## What has changed the contents -/

/-- A transaction with this operation takes the contents `d` to `w`: the operation and
    then the callback have run to their ends. -/
def Whole (run : σ → D → Option (D × ρ)) (beforeCommit : Option (Operation σ ρ))
    (operation : Operation σ ρ) (d w : D) : Prop :=
  ∃ d', Runs run operation d (.done .ok) d' ∧ match beforeCommit with
    | none => w = d'
    | some callback => Runs run callback d' (.done .ok) w

/-- The log says how the contents came to be. -/
inductive Replays (run : σ → D → Option (D × ρ)) (beforeCommit : Option (Operation σ ρ)) (d₀ : D) :
    List (Entry σ ρ) → D → Prop
  | nil : Replays run beforeCommit d₀ [] d₀
  | statement (log : List (Entry σ ρ)) (d d' : D) (q : σ) (r : ρ)
      (h : Replays run beforeCommit d₀ log d) (hq : run q d = some (d', r)) :
      Replays run beforeCommit d₀ (log ++ [.statement q]) d'
  | transaction (log : List (Entry σ ρ)) (d d' : D) (operation : Operation σ ρ)
      (h : Replays run beforeCommit d₀ log d) (hwhole : Whole run beforeCommit operation d d') :
      Replays run beforeCommit d₀ (log ++ [.transaction operation]) d'

/-! ## How far a holder is -/

/-- A part of a transaction has come to `todo`, and the transaction to `w`. -/
def Part.Progress (run : σ → D → Option (D × ρ)) (beforeCommit : Option (Operation σ ρ))
    (contents : D) (todo : Operation σ ρ) (w : D) : Part σ ρ → Prop
  | .plain => False
  | .body operation => Runs run operation contents todo w
  | .callback operation => ∃ d callback, beforeCommit = some callback ∧
      Runs run operation contents (.done .ok) d ∧ Runs run callback d todo w

/-- A program after the reply that its holder has not yet received. -/
def Awaiting.received (todo : Operation σ ρ) : Awaiting ρ → Operation σ ρ
  | .replied (.rows answer) =>
    match todo with
    | .ask _ next => next answer
    | .done e => .done e
  | _ => todo

/-- The command that a holder has handed over and that SQLite has not executed. -/
def Lease.handed (l : Lease σ ρ) : Option (Command σ ρ) :=
  match l.awaiting, l.phase with
  | .handed, .begin _ => some .begin
  | .handed, .run _ (.ask q _) => some (.statement q)
  | .handed, .commit operation => some (.commit operation)
  | .handed, .rollback => some .rollback
  | _, _ => none

/-- The state of a lease against the contents and the open transaction. -/
def Lease.Fits (run : σ → D → Option (D × ρ)) (beforeCommit : Option (Operation σ ρ))
    (contents : D) (working : Option D) (l : Lease σ ρ) : Prop :=
  match l.phase, l.awaiting with
  | .start _, _ => l.rollback = false ∧ working = none
  | .begin _, .replied (.control true) => l.rollback = true ∧ working = some contents
  | .begin _, _ => l.rollback = true ∧ working = none
  | .run .plain _, _ => l.rollback = false ∧ working = none
  | .run part todo, awaiting => l.rollback = true ∧
      ∃ w, working = some w ∧ part.Progress run beforeCommit contents (awaiting.received todo) w
  | .commit _, .replied (.control ok) => l.rollback = true ∧ (ok = true → working = none)
  | .commit operation, _ => l.rollback = true ∧
      ∃ w, working = some w ∧ Whole run beforeCommit operation contents w
  | .rollback, .replied _ => l.rollback = true ∧ working = none
  | .rollback, _ => l.rollback = true
  | .finished, _ => l.rollback = false → working = none

/-- A command that was handed over can be executed without its caller: transaction
    control is covered by an armed rollback, and what a `COMMIT` commits is whole. -/
structure Tail (run : σ → D → Option (D × ρ)) (beforeCommit : Option (Operation σ ρ))
    (contents : D) (working : Option D) (rollback : Bool) (tail : Option (Command σ ρ)) : Prop where
  outside : rollback = false → working = none ∧ ∀ command, tail = some command → ∃ q, command = .statement q
  begins : tail = some .begin → working = none
  commits : ∀ operation, tail = some (.commit operation) →
    ∃ w, working = some w ∧ Whole run beforeCommit operation contents w

theorem Part.Progress.answer {part : Part σ ρ} {next : Option ρ → Operation σ ρ}
    (h : part.Progress run beforeCommit contents (.ask q next) w) (hq : run q w = some (w', r)) :
    part.Progress run beforeCommit contents (next (some r)) w' := by
  cases part with
  | plain => exact h
  | body operation => exact Runs.answer h hq
  | callback operation =>
    obtain ⟨d, callback, hcallback, hbody, hrun⟩ := h
    exact ⟨d, callback, hcallback, hbody, hrun.answer hq⟩

theorem Part.Progress.refuse {part : Part σ ρ} {next : Option ρ → Operation σ ρ}
    (h : part.Progress run beforeCommit contents (.ask q next) w) :
    part.Progress run beforeCommit contents (next none) w := by
  cases part with
  | plain => exact h
  | body operation => exact Runs.refuse h
  | callback operation =>
    obtain ⟨d, callback, hcallback, hbody, hrun⟩ := h
    exact ⟨d, callback, hcallback, hbody, hrun.refuse⟩

/-- The lease that a caller receives. -/
theorem fits_lease (work : Work σ ρ) : work.lease.Fits run beforeCommit contents none := by
  cases work <;> exact ⟨rfl, rfl⟩

theorem handed_lease (work : Work σ ρ) : work.lease.handed = none := by
  cases work <;> rfl

/-- What a lease runs that is in a transaction. -/
theorem fits_run {part : Part σ ρ} {rollback : Bool} {awaiting : Awaiting ρ} {working : Option D} :
    (⟨rollback, .run part todo, awaiting⟩ : Lease σ ρ).Fits run beforeCommit contents working ↔
      (part = .plain ∧ rollback = false ∧ working = none) ∨ (rollback = true ∧
        ∃ w, working = some w ∧ part.Progress run beforeCommit contents (awaiting.received todo) w) := by
  cases part with
  | plain => simp [Lease.Fits, Part.Progress]
  | body operation => simp [Lease.Fits]
  | callback operation => simp [Lease.Fits]

/-- The holder hands over `COMMIT`, and what it commits is whole. -/
theorem fits_handCommit {l l' : Lease σ ρ} {command : Option (Command σ ρ)} {rollback : Bool}
    {working : Option D} (harmed : rollback = true) (hl : l.rollback = rollback)
    (hwhole : ∃ w, working = some w ∧ Whole run beforeCommit operation contents w)
    (hn : l.handCommit operation = some (l', command)) :
    l'.Fits run beforeCommit contents working ∧ l'.handed = command := by
  cases hn
  exact ⟨⟨hl.trans harmed, hwhole⟩, rfl⟩

/-- A part that is at its end awaits nothing. -/
theorem next_done_eq_none {part : Part σ ρ} {rollback : Bool} {e : End} {awaiting : Awaiting ρ}
    (h : awaiting ≠ .idle) :
    (⟨rollback, .run part (.done e), awaiting⟩ : Lease σ ρ).next beforeCommit = none := by
  cases awaiting with
  | idle => exact absurd rfl h
  | handed => cases part <;> cases e <;> rfl
  | replied reply => cases part <;> cases e <;> cases reply <;> rfl

/-- A part of a lease is at its end. -/
theorem fits_next_done {part : Part σ ρ} {rollback : Bool} {e : End} {l' : Lease σ ρ}
    {working : Option D} {command : Option (Command σ ρ)}
    (h : (⟨rollback, .run part (.done e), .idle⟩ : Lease σ ρ).Fits run beforeCommit contents working)
    (hn : (⟨rollback, .run part (.done e), .idle⟩ : Lease σ ρ).next beforeCommit =
      some (l', command)) :
    l'.Fits run beforeCommit contents working ∧ l'.handed = command := by
  rw [fits_run] at h
  have hfinished : l' = ⟨rollback, .finished, .idle⟩ ∧ command = none →
      l'.Fits run beforeCommit contents working ∧ l'.handed = command := by
    rintro ⟨rfl, rfl⟩
    refine ⟨fun hrollback => ?_, rfl⟩
    rcases h with ⟨-, -, hnone⟩ | ⟨harmed, -⟩
    · exact hnone
    · exact absurd (harmed.symm.trans hrollback) (by decide)
  cases part with
  | plain =>
    cases e <;> cases hn <;> exact hfinished ⟨rfl, rfl⟩
  | body operation =>
    obtain ⟨harmed, w, hw, hprogress⟩ := h.resolve_left fun hplain => (by cases hplain.1)
    cases e with
    | ok =>
      cases hcallback : beforeCommit with
      | none =>
        rw [Lease.next, hcallback] at hn
        rw [← hcallback]
        exact fits_handCommit harmed rfl ⟨w, hw, w, hprogress, by rw [hcallback]⟩ hn
      | some callback =>
        rw [Lease.next, hcallback] at hn
        cases hn
        exact ⟨⟨harmed, w, hw, w, callback, rfl, hprogress, Runs.refl⟩, rfl⟩
    | rollback =>
      cases hn
      exact ⟨harmed, rfl⟩
    | error =>
      cases hn
      exact hfinished ⟨rfl, rfl⟩
  | callback operation =>
    obtain ⟨harmed, w, hw, d, callback, hcallback, hbody, hrun⟩ :=
      h.resolve_left fun hplain => (by cases hplain.1)
    cases e with
    | ok => exact fits_handCommit harmed rfl ⟨w, hw, d, hbody, by rw [hcallback]; exact hrun⟩ hn
    | rollback =>
      cases hn
      exact hfinished ⟨rfl, rfl⟩
    | error =>
      cases hn
      exact hfinished ⟨rfl, rfl⟩

/-- The holder takes its next step: it has no command under way, and what it hands over
    is its next one. -/
theorem Lease.Fits.next {l l' : Lease σ ρ} {working : Option D} {command : Option (Command σ ρ)}
    (h : l.Fits run beforeCommit contents working) (hn : l.next beforeCommit = some (l', command)) :
    l'.Fits run beforeCommit contents working ∧ l'.handed = command ∧ l.handed = none := by
  obtain ⟨rollback, phase, awaiting⟩ := l
  cases phase with
  | start operation =>
    cases awaiting with
    | idle =>
      cases hn
      exact ⟨⟨rfl, h.2⟩, rfl, rfl⟩
    | handed => cases hn
    | replied reply => cases hn
  | begin operation =>
    cases awaiting with
    | idle => cases hn
    | handed => cases hn
    | replied reply =>
      match reply, hn, h with
      | .control true, hn, h =>
        cases hn
        exact ⟨⟨h.1, contents, h.2, Runs.refl⟩, rfl, rfl⟩
      | .control false, hn, h =>
        cases hn
        exact ⟨fun _ => h.2, rfl, rfl⟩
  | run part todo =>
    cases todo with
    | ask q next =>
      rw [fits_run] at h
      cases awaiting with
      | idle =>
        cases hn
        exact ⟨fits_run.mpr h, rfl, rfl⟩
      | handed => cases hn
      | replied reply =>
        cases reply with
        | rows answer =>
          cases hn
          exact ⟨fits_run.mpr h, rfl, rfl⟩
        | control ok => cases hn
    | done e =>
      cases awaiting with
      | idle =>
        obtain ⟨hfits, hcommand⟩ := fits_next_done h hn
        exact ⟨hfits, hcommand, rfl⟩
      | handed => rw [next_done_eq_none (fun heq => by cases heq)] at hn; cases hn
      | replied reply => rw [next_done_eq_none (fun heq => by cases heq)] at hn; cases hn
  | commit operation =>
    cases awaiting with
    | idle => cases hn
    | handed => cases hn
    | replied reply =>
      cases reply with
      | rows answer => cases hn
      | control ok =>
        cases hn
        refine ⟨fun hrollback => ?_, rfl, rfl⟩
        obtain ⟨harmed, hok⟩ := h
        cases ok with
        | true => exact hok rfl
        | false => simp_all
  | rollback =>
    cases awaiting with
    | idle => cases hn
    | handed => cases hn
    | replied reply =>
      cases reply with
      | rows answer => cases hn
      | control ok =>
        cases hn
        exact ⟨fun _ => h.2, rfl, rfl⟩
  | finished => cases awaiting <;> cases hn

/-- What a holder has handed over can be executed without it. -/
theorem Lease.Fits.tail {l : Lease σ ρ} {working : Option D}
    (h : l.Fits run beforeCommit contents working) :
    Tail run beforeCommit contents working l.rollback l.handed := by
  obtain ⟨rollback, phase, awaiting⟩ := l
  have hnone : (rollback = false → working = none) → ∀ {tail : Option (Command σ ρ)}, tail = none →
      Tail run beforeCommit contents working rollback tail := by
    rintro hclean tail rfl
    exact ⟨fun hrollback => ⟨hclean hrollback, fun _ hcommand => (by cases hcommand)⟩,
      fun hcommand => (by cases hcommand), fun _ hcommand => (by cases hcommand)⟩
  cases phase with
  | start operation =>
    refine hnone (fun _ => h.2) ?_
    cases awaiting <;> rfl
  | begin operation =>
    cases awaiting with
    | idle => exact hnone (fun _ => h.2) rfl
    | handed =>
      refine ⟨fun hrollback => absurd (h.1.symm.trans hrollback) (by decide), fun _ => h.2,
        fun _ hcommand => (by cases hcommand)⟩
    | replied reply =>
      refine hnone (fun hrollback => ?_) rfl
      match reply, h with
      | .control true, h => exact absurd (h.1.symm.trans hrollback) (by decide)
      | .control false, h => exact h.2
      | .rows _, h => exact h.2
  | run part todo =>
    rw [fits_run] at h
    have hclean : rollback = false → working = none := by
      intro hrollback
      rcases h with ⟨-, -, hworking⟩ | ⟨harmed, -⟩
      · exact hworking
      · exact absurd (harmed.symm.trans hrollback) (by decide)
    cases awaiting with
    | idle => exact hnone hclean rfl
    | replied reply => exact hnone hclean rfl
    | handed =>
      cases todo with
      | done e => exact hnone hclean rfl
      | ask q next =>
        refine ⟨fun hrollback => ⟨hclean hrollback, fun command hcommand => ⟨q, ?_⟩⟩,
          fun hcommand => (by cases hcommand), fun _ hcommand => (by cases hcommand)⟩
        exact (Option.some.inj hcommand).symm
  | commit operation =>
    cases awaiting with
    | idle => exact hnone (fun hrollback => absurd (h.1.symm.trans hrollback) (by decide)) rfl
    | handed =>
      refine ⟨fun hrollback => absurd (h.1.symm.trans hrollback) (by decide),
        fun hcommand => (by cases hcommand), fun operation' hcommand => ?_⟩
      cases hcommand
      exact h.2
    | replied reply =>
      refine hnone (fun hrollback => ?_) rfl
      cases reply <;> exact absurd (h.1.symm.trans hrollback) (by decide)
  | rollback =>
    cases awaiting with
    | idle => exact hnone (fun hrollback => absurd (Eq.symm h |>.trans hrollback) (by decide)) rfl
    | handed =>
      have harmed : rollback = true := h
      exact ⟨fun hrollback => absurd (harmed.symm.trans hrollback) (by decide),
        fun hcommand => (by cases hcommand), fun _ hcommand => (by cases hcommand)⟩
    | replied reply => exact hnone (fun _ => h.2) rfl
  | finished =>
    refine hnone h ?_
    cases awaiting <;> rfl

/-! ## What SQLite does -/

theorem exec_pending (accept : Bool) (c : Connection D σ ρ) (command : Command σ ρ) :
    (c.exec run accept command).1.pending = c.pending := by
  unfold Connection.exec
  cases command with
  | begin =>
    dsimp only
    split <;> rfl
  | commit operation =>
    dsimp only
    split <;> rfl
  | rollback => rfl
  | statement q =>
    dsimp only
    split
    · rfl
    · split <;> rfl
    · split <;> rfl

/-- SQLite executes a command, and the log says what has changed the contents. -/
theorem Tail.exec {d₀ : D} {rollback accept : Bool} (hlog : Replays run beforeCommit d₀ c.log c.contents)
    (h : Tail run beforeCommit c.contents c.working rollback (some command))
    (hexec : c.exec run accept command = (c', reply)) :
    Replays run beforeCommit d₀ c'.log c'.contents ∧
      Tail run beforeCommit c'.contents c'.working rollback none := by
  have hnone : ∀ {contents working}, (rollback = false → working = none) →
      Tail run beforeCommit contents working rollback none := fun hclean =>
    ⟨fun hrollback => ⟨hclean hrollback, fun _ hcommand => (by cases hcommand)⟩,
      fun hcommand => (by cases hcommand), fun _ hcommand => (by cases hcommand)⟩
  have hcontrol : (∀ q, command ≠ .statement q) → ∀ {working : Option D},
      rollback = false → working = none := by
    intro hne working hrollback
    obtain ⟨q, hq⟩ := (h.outside hrollback).2 command rfl
    exact absurd hq (hne q)
  unfold Connection.exec at hexec
  cases command with
  | begin =>
    dsimp only at hexec
    split at hexec <;> cases hexec <;> exact ⟨hlog, hnone (hcontrol fun q hq => (by cases hq))⟩
  | commit operation =>
    obtain ⟨w, hw, hwhole⟩ := h.commits operation rfl
    rw [hw] at hexec
    cases accept with
    | true =>
      cases hexec
      exact ⟨.transaction _ _ _ _ hlog hwhole, hnone fun _ => rfl⟩
    | false =>
      cases hexec
      exact ⟨hlog, hnone (hcontrol fun q hq => (by cases hq))⟩
  | rollback =>
    cases hexec
    exact ⟨hlog, hnone fun _ => rfl⟩
  | statement q =>
    have hclean : rollback = false → c.working = none := fun hrollback => (h.outside hrollback).1
    dsimp only at hexec
    split at hexec
    · cases hexec
      exact ⟨hlog, hnone hclean⟩
    · rename_i w hw
      split at hexec
      · cases hexec
        exact ⟨hlog, hnone hclean⟩
      · cases hexec
        refine ⟨hlog, hnone fun hrollback => ?_⟩
        rw [hclean hrollback] at hw
        cases hw
    · rename_i hw
      split at hexec
      · cases hexec
        exact ⟨hlog, hnone hclean⟩
      · rename_i d answer hq
        cases hexec
        exact ⟨.statement _ _ _ _ _ hlog hq, hnone hclean⟩

/-- A statement of a holder, in a transaction or not. -/
theorem exec_statement {accept : Bool} {part : Part σ ρ} {next : Option ρ → Operation σ ρ}
    {rollback : Bool}
    (h : (⟨rollback, .run part (.ask q next), .handed⟩ : Lease σ ρ).Fits run beforeCommit
      c.contents c.working)
    (hexec : c.exec run accept (.statement q) = (c', reply)) :
    (⟨rollback, .run part (.ask q next), .replied reply⟩ : Lease σ ρ).Fits run beforeCommit
      c'.contents c'.working := by
  rw [fits_run] at h ⊢
  have hrefused : c' = c ∧ reply = .rows none → (part = .plain ∧ rollback = false ∧ c'.working = none) ∨
      (rollback = true ∧ ∃ w, c'.working = some w ∧ part.Progress run beforeCommit c'.contents
        ((Awaiting.replied reply).received (.ask q next)) w) := by
    rintro ⟨rfl, rfl⟩
    exact h.imp_right fun ⟨harmed, w, hw, hprogress⟩ => ⟨harmed, w, hw, hprogress.refuse⟩
  unfold Connection.exec at hexec
  dsimp only at hexec
  split at hexec
  · cases hexec
    exact hrefused ⟨rfl, rfl⟩
  · rename_i w hw
    split at hexec
    · cases hexec
      exact hrefused ⟨rfl, rfl⟩
    · rename_i w' answer hq
      cases hexec
      rcases h with ⟨-, -, hnone⟩ | ⟨harmed, w₀, hw₀, hprogress⟩
      · rw [hw] at hnone
        cases hnone
      · obtain rfl := Option.some.inj (hw₀.symm.trans hw)
        exact Or.inr ⟨harmed, w', rfl, hprogress.answer hq⟩
  · rename_i hw
    split at hexec
    · cases hexec
      exact hrefused ⟨rfl, rfl⟩
    · cases hexec
      rcases h with ⟨hplain, hrollback, -⟩ | ⟨-, w₀, hw₀, -⟩
      · exact Or.inl ⟨hplain, hrollback, hw⟩
      · rw [hw] at hw₀
        cases hw₀

/-- SQLite executes what the holder has handed over, and replies. -/
theorem Lease.Fits.exec {l : Lease σ ρ} {accept : Bool}
    (h : l.Fits run beforeCommit c.contents c.working) (hcommand : l.handed = some command)
    (hexec : c.exec run accept command = (c', reply)) :
    Lease.Fits run beforeCommit c'.contents c'.working { l with awaiting := .replied reply } := by
  obtain ⟨rollback, phase, awaiting⟩ := l
  cases awaiting with
  | idle => cases hcommand
  | replied reply => cases hcommand
  | handed =>
    cases phase with
    | start operation => cases hcommand
    | finished => cases hcommand
    | begin operation =>
      cases hcommand
      unfold Connection.exec at hexec
      dsimp only at hexec
      split at hexec <;> cases hexec
      · exact ⟨h.1, rfl⟩
      · exact h
    | run part todo =>
      cases todo with
      | done e => cases hcommand
      | ask q next =>
        cases hcommand
        exact exec_statement h hexec
    | commit operation =>
      cases hcommand
      obtain ⟨harmed, w, hw, -⟩ := h
      unfold Connection.exec at hexec
      rw [hw] at hexec
      cases accept with
      | true =>
        cases hexec
        exact ⟨harmed, fun _ => rfl⟩
      | false =>
        cases hexec
        exact ⟨harmed, fun hok => (by cases hok)⟩
    | rollback =>
      cases hcommand
      cases hexec
      exact ⟨h, rfl⟩

end Kahawai.Sqlite
