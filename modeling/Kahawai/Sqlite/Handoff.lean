import Kahawai.Sqlite.Lease

/-!
# The connection is always somewhere

The one writable connection is with the actor, in the response channel of a caller, in a
lease, or on its way back. `Stage` names these places, each with what is known there of
the connection and of the owner of the lease; every step of a caller, of the actor and of
SQLite leads from one to the next.

* `Stage.request`, `Stage.advance`, `Stage.drop`: the steps of the callers, which may be
  dropped wherever they wait.
* `Stage.act`: the steps of the actor.
* `Stage.exec`: SQLite executes a command, also one whose caller is gone.
-/

namespace Kahawai.Sqlite

open Kahawai.Lib Kahawai.Lib.Interaction

variable {D σ ρ : Type} {run : σ → D → Option (D × ρ)} {beforeCommit : Option (Operation σ ρ)}
  {s s' : System D σ ρ} {i j : ℕ} {caller : Caller σ ρ}

/-- The parts of a lease, or the lease, exist. -/
def Position.leased : Position σ ρ → Bool
  | .answered | .held _ | .dropping _ => true
  | _ => false

/-- A statement of a caller that is gone. -/
def System.Stray (s : System D σ ρ) (p : Option ℕ × Command σ ρ) : Prop :=
  ∃ j q caller received, p = (some j, .statement q) ∧ s.callers[j]? = some caller ∧
    caller.position = .gone received

/-- The connection is outside of any transaction, and stays so while it executes what
    was handed over. -/
def System.Clean (s : System D σ ρ) : Prop :=
  s.connection.working = none ∧ ∀ p ∈ s.connection.pending, s.Stray p

/-- What is pending: statements of earlier callers, which run outside of a transaction,
    then a command of caller `i`, then `rest`. -/
def System.Piped (s : System D σ ρ) (i : ℕ) (tail : Option (Command σ ρ))
    (rest : List (Option ℕ × Command σ ρ)) : Prop :=
  ∃ strays, s.connection.pending = strays ++ tail.toList.map (some i, ·) ++ rest ∧
    (∀ p ∈ strays, s.Stray p) ∧ (strays ≠ [] → s.connection.working = none)

/-- The connection is with the caller that the actor waits for, or on its way back. -/
def System.AtCaller (run : σ → D → Option (D × ρ)) (beforeCommit : Option (Operation σ ρ))
    (s : System D σ ρ) (i : ℕ) (caller : Caller σ ρ) : Prop :=
  match caller.position with
  | .answered => s.slot = none ∧ s.active = some caller.task ∧ s.Clean
  | .held lease => s.slot = none ∧ s.active = some caller.task ∧ s.Piped i lease.handed [] ∧
      lease.Fits run beforeCommit s.connection.contents s.connection.working
  | .dropping rollback => s.slot = none ∧ s.active = none ∧ ∃ tail, s.Piped i tail [] ∧
      Tail run beforeCommit s.connection.contents s.connection.working rollback tail
  | .gone received => s.active = (if received then none else some caller.task) ∧
      ∃ rollback tail, s.slot = some rollback ∧ s.Piped i tail [] ∧
        Tail run beforeCommit s.connection.contents s.connection.working rollback tail
  | _ => False

/-- The place of the connection. -/
inductive Stage (run : σ → D → Option (D × ρ)) (beforeCommit : Option (Operation σ ρ))
    (s : System D σ ρ) : Prop
  | idle (hactor : s.actor = .idle) (hslot : s.slot = none) (hactive : s.active = none)
      (hclean : s.Clean)
  | own (i : ℕ) (caller : Caller σ ρ) (hactor : s.actor = .own i)
      (hi : s.callers[i]? = some caller)
      (hposition : caller.position = .queued ∨ caller.position = .gone false)
      (hslot : s.slot = none) (hactive : s.active = none) (hclean : s.Clean)
  | answer (i : ℕ) (caller : Caller σ ρ) (hactor : s.actor = .answer i)
      (hi : s.callers[i]? = some caller)
      (hposition : caller.position = .queued ∨ caller.position = .gone false)
      (hslot : s.slot = none) (hactive : s.active = some caller.task) (hclean : s.Clean)
  | waiting (i : ℕ) (caller : Caller σ ρ) (hactor : s.actor = .waiting i)
      (hi : s.callers[i]? = some caller) (hat : s.AtCaller run beforeCommit i caller)
  | took (i : ℕ) (caller : Caller σ ρ) (received rollback : Bool) (tail : Option (Command σ ρ))
      (hactor : s.actor = .took i rollback) (hi : s.callers[i]? = some caller)
      (hposition : caller.position = .gone received) (hslot : s.slot = none)
      (hactive : s.active = if received then none else some caller.task)
      (hpiped : s.Piped i tail [])
      (htail : Tail run beforeCommit s.connection.contents s.connection.working rollback tail)
  | rolling (i : ℕ) (caller : Caller σ ρ) (received : Bool) (tail : Option (Command σ ρ))
      (hactor : s.actor = .rolling i) (hi : s.callers[i]? = some caller)
      (hposition : caller.position = .gone received) (hslot : s.slot = none)
      (hactive : s.active = if received then none else some caller.task)
      (hpiped : s.Piped i tail [(none, .rollback)])
      (htail : Tail run beforeCommit s.connection.contents s.connection.working true tail)
  | clear (i : ℕ) (caller : Caller σ ρ) (received : Bool) (hactor : s.actor = .clear i)
      (hi : s.callers[i]? = some caller) (hposition : caller.position = .gone received)
      (hslot : s.slot = none)
      (hactive : s.active = if received then none else some caller.task) (hclean : s.Clean)

/-- The actor serves a caller. -/
def Actor.serving : Actor → Option ℕ
  | .idle => none
  | .own i | .answer i | .waiting i | .took i _ | .rolling i | .clear i => some i

/-! ## What stays while another caller moves -/

/-- Callers that are gone stay gone. -/
def Later (s s' : System D σ ρ) : Prop :=
  ∀ (j : ℕ) (caller : Caller σ ρ) (received : Bool), s.callers[j]? = some caller → caller.position = .gone received →
    s'.callers[j]? = some caller

theorem later_set {callers : List (Caller σ ρ)} (hi : s.callers[i]? = some caller)
    (hnot : ∀ received, caller.position ≠ .gone received) {new : Caller σ ρ}
    (hcallers : callers = s.callers.set i new) : Later s { s with callers := callers } := by
  intro j other received hj hgone
  have hne : i ≠ j := by
    rintro rfl
    obtain rfl := Option.some.inj (hi.symm.trans hj)
    exact hnot received hgone
  rw [hcallers, List.getElem?_set_ne hne, hj]

theorem System.Stray.later {p : Option ℕ × Command σ ρ} (h : s.Stray p) (hlater : Later s s') :
    s'.Stray p := by
  obtain ⟨j, q, caller, received, hp, hj, hgone⟩ := h
  exact ⟨j, q, caller, received, hp, hlater j caller received hj hgone, hgone⟩

theorem System.Clean.later (h : s.Clean) (hlater : Later s s')
    (hconnection : s'.connection = s.connection) : s'.Clean := by
  rw [System.Clean, hconnection]
  exact ⟨h.1, fun p hp => (h.2 p hp).later hlater⟩

theorem System.Piped.later {tail : Option (Command σ ρ)} {rest : List (Option ℕ × Command σ ρ)}
    (h : s.Piped i tail rest) (hlater : Later s s') (hconnection : s'.connection = s.connection) :
    s'.Piped i tail rest := by
  obtain ⟨strays, hpending, hstrays, hworking⟩ := h
  rw [System.Piped, hconnection]
  exact ⟨strays, hpending, fun p hp => (hstrays p hp).later hlater, hworking⟩

/-- Nothing is known of the connection but that it is clean. -/
theorem System.Clean.piped (h : s.Clean) : s.Piped i none [] :=
  ⟨s.connection.pending, by simp, h.2, fun _ => h.1⟩

theorem System.Clean.tail (h : s.Clean) (rollback : Bool) :
    Tail run beforeCommit s.connection.contents s.connection.working rollback none :=
  ⟨fun _ => ⟨h.1, fun _ hcommand => (by cases hcommand)⟩, fun hcommand => (by cases hcommand),
    fun _ hcommand => (by cases hcommand)⟩

theorem System.AtCaller.later (h : s.AtCaller run beforeCommit i caller) (hslot : s'.slot = s.slot)
    (hactive : s'.active = s.active) (hconnection : s'.connection = s.connection)
    (hlater : Later s s') : s'.AtCaller run beforeCommit i caller := by
  unfold System.AtCaller at h ⊢
  rw [hslot, hactive, hconnection]
  split
  · rename_i hposition
    rw [hposition] at h
    exact ⟨h.1, h.2.1, h.2.2.later hlater hconnection⟩
  · rename_i lease hposition
    rw [hposition] at h
    exact ⟨h.1, h.2.1, h.2.2.1.later hlater hconnection, h.2.2.2⟩
  · rename_i rollback hposition
    rw [hposition] at h
    obtain ⟨hs, hv, tail, hpiped, htail⟩ := h
    exact ⟨hs, hv, tail, hpiped.later hlater hconnection, htail⟩
  · rename_i received hposition
    rw [hposition] at h
    obtain ⟨hv, rollback, tail, hs, hpiped, htail⟩ := h
    exact ⟨hv, rollback, tail, hs, hpiped.later hlater hconnection, htail⟩
  · rename_i h₁ h₂ h₃ h₄
    split at h
    · exact h₁ ‹_›
    · exact h₂ _ ‹_›
    · exact h₃ _ ‹_›
    · exact h₄ _ ‹_›
    · exact h

/-- A caller that the actor does not serve moves. -/
theorem Stage.other (h : Stage run beforeCommit s) (hactor : s'.actor = s.actor)
    (hslot : s'.slot = s.slot) (hactive : s'.active = s.active)
    (hconnection : s'.connection = s.connection) (hlater : Later s s')
    (hserved : ∀ i caller, s.actor.serving = some i → s.callers[i]? = some caller →
      s'.callers[i]? = some caller) : Stage run beforeCommit s' := by
  cases h with
  | idle ha hs hv hc =>
    exact .idle (hactor.trans ha) (hslot.trans hs) (hactive.trans hv) (hc.later hlater hconnection)
  | own i caller ha hi hp hs hv hc =>
    exact .own i caller (hactor.trans ha) (hserved i caller (by rw [ha]; rfl) hi) hp
      (hslot.trans hs) (hactive.trans hv) (hc.later hlater hconnection)
  | answer i caller ha hi hp hs hv hc =>
    exact .answer i caller (hactor.trans ha) (hserved i caller (by rw [ha]; rfl) hi) hp
      (hslot.trans hs) (hactive.trans hv) (hc.later hlater hconnection)
  | waiting i caller ha hi hat =>
    exact .waiting i caller (hactor.trans ha) (hserved i caller (by rw [ha]; rfl) hi)
      (hat.later hslot hactive hconnection hlater)
  | took i caller received rollback tail ha hi hp hs hv hpiped htail =>
    exact .took i caller received rollback tail (hactor.trans ha)
      (hserved i caller (by rw [ha]; rfl) hi) hp (hslot.trans hs) (hactive.trans hv)
      (hpiped.later hlater hconnection) (hconnection ▸ htail)
  | rolling i caller received tail ha hi hp hs hv hpiped htail =>
    exact .rolling i caller received tail (hactor.trans ha) (hserved i caller (by rw [ha]; rfl) hi)
      hp (hslot.trans hs) (hactive.trans hv) (hpiped.later hlater hconnection) (hconnection ▸ htail)
  | clear i caller received ha hi hp hs hv hc =>
    exact .clear i caller received (hactor.trans ha) (hserved i caller (by rw [ha]; rfl) hi) hp
      (hslot.trans hs) (hactive.trans hv) (hc.later hlater hconnection)

/-- Only the caller that the actor waits for has a lease. -/
def Alone (s : System D σ ρ) : Prop :=
  ∀ (j : ℕ) (caller : Caller σ ρ), s.callers[j]? = some caller → caller.position.leased →
    s.actor = .waiting j

/-- The caller that has a lease is where the connection is. -/
theorem Stage.of_leased (h : Stage run beforeCommit s) (halone : Alone s)
    (hi : s.callers[i]? = some caller) (hleased : caller.position.leased) :
    s.actor = .waiting i ∧ s.AtCaller run beforeCommit i caller := by
  have hactor := halone i caller hi hleased
  cases h with
  | waiting k other ha hk hat =>
    cases ha.symm.trans hactor
    obtain rfl := Option.some.inj (hk.symm.trans hi)
    exact ⟨hactor, hat⟩
  | idle ha => cases ha.symm.trans hactor
  | own _ _ ha => cases ha.symm.trans hactor
  | answer _ _ ha => cases ha.symm.trans hactor
  | took _ _ _ _ _ ha => cases ha.symm.trans hactor
  | rolling _ _ _ _ ha => cases ha.symm.trans hactor
  | clear _ _ _ ha => cases ha.symm.trans hactor

/-- The served caller has entered the queue. -/
theorem Stage.served (h : Stage run beforeCommit s) (hserving : s.actor.serving = some i)
    (hi : s.callers[i]? = some caller) :
    caller.position ≠ .sending ∧ caller.position ≠ .refused := by
  have hsame : ∀ {k other}, s.actor.serving = some k → s.callers[k]? = some other →
      (other.position ≠ .sending ∧ other.position ≠ .refused) →
      caller.position ≠ .sending ∧ caller.position ≠ .refused := by
    intro k other hk hother hp
    obtain rfl := Option.some.inj (hk.symm.trans hserving)
    obtain rfl := Option.some.inj (hother.symm.trans hi)
    exact hp
  have hgone : ∀ {p : Position σ ρ} {received}, p = .gone received →
      p ≠ .sending ∧ p ≠ .refused := by
    rintro p received rfl
    exact ⟨fun heq => (by cases heq), fun heq => (by cases heq)⟩
  cases h with
  | idle ha =>
    rw [ha] at hserving
    cases hserving
  | own k other ha hk hp =>
    refine hsame (by rw [ha]; rfl) hk ?_
    rcases hp with hp | hp <;> rw [hp] <;> exact ⟨fun heq => (by cases heq), fun heq => (by cases heq)⟩
  | answer k other ha hk hp =>
    refine hsame (by rw [ha]; rfl) hk ?_
    rcases hp with hp | hp <;> rw [hp] <;> exact ⟨fun heq => (by cases heq), fun heq => (by cases heq)⟩
  | waiting k other ha hk hat =>
    refine hsame (by rw [ha]; rfl) hk ⟨fun hp => ?_, fun hp => ?_⟩
    all_goals
      rw [System.AtCaller, hp] at hat
      exact hat
  | took k other _ _ _ ha hk hp => exact hsame (by rw [ha]; rfl) hk (hgone hp)
  | rolling k other _ _ ha hk hp => exact hsame (by rw [ha]; rfl) hk (hgone hp)
  | clear k other _ ha hk hp => exact hsame (by rw [ha]; rfl) hk (hgone hp)

/-! ## The steps of the callers -/

theorem not_gone_of_leased (h : caller.position.leased) (received : Bool) :
    caller.position ≠ .gone received := by
  intro hgone
  rw [hgone] at h
  cases h

theorem Stage.request (h : Stage run beforeCommit s) {task : TaskOwner} {ownContext inScope : Bool}
    {work : Work σ ρ} (hs : s.request task ownContext inScope work = some s') :
    Stage run beforeCommit s' := by
  rw [System.request] at hs
  split at hs
  · cases hs
  · cases hs
    have hkept : ∀ {i : ℕ} {caller : Caller σ ρ} {new}, s.callers[i]? = some caller →
        (s.callers ++ [new])[i]? = some caller := by
      intro i caller new hi
      rwa [List.getElem?_append_left (List.getElem?_eq_some_iff.mp hi).1]
    exact h.other rfl rfl rfl rfl (fun j caller received hj _ => hkept hj) fun i caller _ hi => hkept hi

/-- A caller that the actor does not serve, or whose place is not yet decided, moves. -/
theorem Stage.setPosition (h : Stage run beforeCommit s) (hi : s.callers[i]? = some caller)
    (hnot : ∀ received, caller.position ≠ .gone received) (hserving : s.actor.serving ≠ some i)
    (position : Position σ ρ) : Stage run beforeCommit (s.setPosition i caller position) := by
  refine h.other rfl rfl rfl rfl (later_set hi hnot rfl) fun k other hk hother => ?_
  have hne : i ≠ k := by
    rintro rfl
    exact hserving hk
  exact (List.getElem?_set_ne hne).trans hother

theorem later_setPosition (hi : s.callers[i]? = some caller)
    (hnot : ∀ received, caller.position ≠ .gone received) (position : Position σ ρ) :
    Later s (s.setPosition i caller position) :=
  later_set hi hnot rfl

theorem getElem?_setPosition (hi : s.callers[i]? = some caller) (position : Position σ ρ) :
    (s.setPosition i caller position).callers[i]? = some { caller with position := position } :=
  getElem?_set_moved hi

/-- A command of caller `i` is handed over. -/
theorem System.Piped.hand {command : Option (Command σ ρ)} (h : s.Piped i none []) :
    (s.hand (some i) command).Piped i command [] := by
  obtain ⟨strays, hpending, hstrays, hworking⟩ := h
  refine ⟨strays, ?_, hstrays, hworking⟩
  rw [System.hand, hpending]
  simp

/-- The holder of a lease drops it, or takes its next step. -/
theorem advance_held {lease : Lease σ ρ} (hi : s.callers[i]? = some caller)
    (hposition : caller.position = .held lease) (hs : s.advance beforeCommit i = some s') :
    (lease.phase = .finished ∧ lease.handed = none ∧
      s' = { s.setPosition i caller (.dropping lease.rollback) with active := none }) ∨
    ∃ lease' command, lease.next beforeCommit = some (lease', command) ∧
      s' = (s.setPosition i caller (.held lease')).hand (some i) command := by
  unfold System.advance at hs
  rw [hi, Option.bind_eq_bind, Option.bind_some, hposition] at hs
  dsimp only at hs
  split at hs
  · rename_i heq
    cases heq
  · rename_i heq
    cases heq
  · rename_i rollback heq
    cases heq
    cases hs
    exact Or.inl ⟨rfl, rfl, rfl⟩
  · rename_i l _ heq
    cases heq
    obtain ⟨⟨lease', command⟩, hnext, hs⟩ := Option.bind_eq_some_iff.mp hs
    exact Or.inr ⟨lease', command, hnext, (Option.some.inj hs).symm⟩
  · rename_i heq
    cases heq
  · rename_i heq
    cases heq
  · rename_i heq
    cases heq
  · rename_i heq
    cases heq

theorem Stage.advance (h : Stage run beforeCommit s) (halone : Alone s)
    (hs : s.advance beforeCommit i = some s') : Stage run beforeCommit s' := by
  have hs' := hs
  obtain ⟨caller, hi, hs⟩ := Option.bind_eq_some_iff.mp hs
  cases hposition : caller.position with
  | sending =>
    rw [hposition] at hs
    dsimp only at hs
    split_ifs at hs
    cases hs
    have hnot : ∀ received, caller.position ≠ .gone received := by
      intro received heq
      rw [hposition] at heq
      cases heq
    have hmoved := h.setPosition hi hnot (fun hserving => (h.served hserving hi).1 hposition) .queued
    exact hmoved.other rfl rfl rfl rfl (fun _ _ _ hj _ => hj) fun _ _ _ hk => hk
  | answered =>
    rw [hposition] at hs
    cases hs
    have hleased : caller.position.leased := by rw [hposition]; rfl
    have hnot := not_gone_of_leased hleased
    obtain ⟨hactor, hat⟩ := h.of_leased halone hi hleased
    rw [System.AtCaller, hposition] at hat
    obtain ⟨hslot, hactive, hclean⟩ := hat
    refine .waiting i _ hactor (getElem?_setPosition hi _) ⟨hslot, hactive, ?_, ?_⟩
    · rw [handed_lease]
      exact (hclean.later (later_setPosition hi hnot _) rfl).piped
    · exact hclean.1 ▸ fits_lease caller.work
  | held lease =>
    have hleased : caller.position.leased := by rw [hposition]; rfl
    have hnot := not_gone_of_leased hleased
    obtain ⟨hactor, hat⟩ := h.of_leased halone hi hleased
    rw [System.AtCaller, hposition] at hat
    obtain ⟨hslot, hactive, hpiped, hfits⟩ := hat
    rcases advance_held hi hposition hs' with ⟨-, -, rfl⟩ | ⟨lease', command, hnext, rfl⟩
    · exact .waiting i _ hactor (getElem?_setPosition hi _) ⟨hslot, rfl, lease.handed,
        hpiped.later (later_setPosition hi hnot _) rfl, hfits.tail⟩
    · obtain ⟨hfits', hhanded, hidle⟩ := hfits.next hnext
      rw [hidle] at hpiped
      refine .waiting i _ hactor (getElem?_setPosition hi _) ⟨hslot, hactive, ?_, hfits'⟩
      rw [hhanded]
      exact (hpiped.later (later_setPosition hi hnot _) rfl).hand
  | dropping rollback =>
    rw [hposition] at hs
    cases hs
    have hleased : caller.position.leased := by rw [hposition]; rfl
    have hnot := not_gone_of_leased hleased
    obtain ⟨hactor, hat⟩ := h.of_leased halone hi hleased
    rw [System.AtCaller, hposition] at hat
    obtain ⟨-, hactive, tail, hpiped, htail⟩ := hat
    exact .waiting i _ hactor (getElem?_setPosition hi _) ⟨hactive, rollback, tail, rfl,
      hpiped.later (later_setPosition hi hnot _) rfl, htail⟩
  | refused =>
    rw [hposition] at hs
    cases hs
  | queued =>
    rw [hposition] at hs
    cases hs
  | gone received =>
    rw [hposition] at hs
    cases hs

/-- A caller is dropped while its request is in the queue, or chosen by the actor. -/
theorem Stage.drop_queued (h : Stage run beforeCommit s) (hi : s.callers[i]? = some caller)
    (hposition : caller.position = .queued) :
    Stage run beforeCommit (s.setPosition i caller (.gone false)) := by
  have hnot : ∀ received, caller.position ≠ .gone received := by
    intro received heq
    rw [hposition] at heq
    cases heq
  by_cases hserving : s.actor.serving = some i
  · have hlater := later_setPosition hi hnot (.gone false)
    have hmoved := getElem?_setPosition hi (.gone false)
    have hsame : ∀ {k other}, s.actor.serving = some k → s.callers[k]? = some other →
        k = i ∧ other = caller := by
      intro k other hk hother
      obtain rfl := Option.some.inj (hk.symm.trans hserving)
      exact ⟨rfl, Option.some.inj (hother.symm.trans hi)⟩
    cases h with
    | idle ha =>
      rw [ha] at hserving
      cases hserving
    | own k other ha hk _ hslot hactive hclean =>
      obtain ⟨rfl, rfl⟩ := hsame (by rw [ha]; rfl) hk
      exact .own k _ ha hmoved (Or.inr rfl) hslot hactive (hclean.later hlater rfl)
    | answer k other ha hk _ hslot hactive hclean =>
      obtain ⟨rfl, rfl⟩ := hsame (by rw [ha]; rfl) hk
      exact .answer k _ ha hmoved (Or.inr rfl) hslot hactive (hclean.later hlater rfl)
    | waiting k other ha hk hat =>
      obtain ⟨rfl, rfl⟩ := hsame (by rw [ha]; rfl) hk
      rw [System.AtCaller, hposition] at hat
      exact hat.elim
    | took k other received _ _ ha hk hp =>
      obtain ⟨rfl, rfl⟩ := hsame (by rw [ha]; rfl) hk
      exact absurd hp (hnot received)
    | rolling k other received _ ha hk hp =>
      obtain ⟨rfl, rfl⟩ := hsame (by rw [ha]; rfl) hk
      exact absurd hp (hnot received)
    | clear k other received ha hk hp =>
      obtain ⟨rfl, rfl⟩ := hsame (by rw [ha]; rfl) hk
      exact absurd hp (hnot received)
  · exact h.setPosition hi hnot hserving _

theorem Stage.drop (h : Stage run beforeCommit s) (halone : Alone s) (hs : s.drop i = some s') :
    Stage run beforeCommit s' := by
  obtain ⟨caller, hi, hs⟩ := Option.bind_eq_some_iff.mp hs
  cases hposition : caller.position with
  | sending =>
    rw [hposition] at hs
    cases hs
    have hnot : ∀ received, caller.position ≠ .gone received := by
      intro received heq
      rw [hposition] at heq
      cases heq
    exact h.setPosition hi hnot (fun hserving => (h.served hserving hi).1 hposition) _
  | queued =>
    rw [hposition] at hs
    cases hs
    exact h.drop_queued hi hposition
  | answered =>
    rw [hposition] at hs
    cases hs
    have hleased : caller.position.leased := by rw [hposition]; rfl
    have hnot := not_gone_of_leased hleased
    obtain ⟨hactor, hat⟩ := h.of_leased halone hi hleased
    rw [System.AtCaller, hposition] at hat
    obtain ⟨-, hactive, hclean⟩ := hat
    exact .waiting i _ hactor (getElem?_setPosition hi _) ⟨hactive, false, none, rfl,
      (hclean.later (later_setPosition hi hnot _) rfl).piped, hclean.tail false⟩
  | held lease =>
    rw [hposition] at hs
    cases hs
    have hleased : caller.position.leased := by rw [hposition]; rfl
    have hnot := not_gone_of_leased hleased
    obtain ⟨hactor, hat⟩ := h.of_leased halone hi hleased
    rw [System.AtCaller, hposition] at hat
    obtain ⟨hslot, -, hpiped, hfits⟩ := hat
    exact .waiting i _ hactor (getElem?_setPosition hi _) ⟨hslot, rfl, lease.handed,
      hpiped.later (later_setPosition hi hnot _) rfl, hfits.tail⟩
  | dropping rollback =>
    rw [hposition] at hs
    cases hs
  | refused =>
    rw [hposition] at hs
    cases hs
  | gone received =>
    rw [hposition] at hs
    cases hs

/-! ## The steps of the actor -/

/-- A connection that is returned without a rollback is clean. -/
theorem Clean.of_tail {tail : Option (Command σ ρ)} {received : Bool}
    (hi : s.callers[i]? = some caller) (hposition : caller.position = .gone received)
    (hpiped : s.Piped i tail [])
    (htail : Tail run beforeCommit s.connection.contents s.connection.working false tail) :
    s.Clean := by
  obtain ⟨strays, hpending, hstrays, -⟩ := hpiped
  obtain ⟨hworking, hstatement⟩ := htail.outside rfl
  refine ⟨hworking, fun p hp => ?_⟩
  rw [hpending, List.append_nil, List.mem_append] at hp
  rcases hp with hp | hp
  · exact hstrays p hp
  · obtain ⟨command, hcommand, rfl⟩ := List.mem_map.mp hp
    obtain ⟨q, rfl⟩ := hstatement command (Option.mem_toList.mp hcommand)
    exact ⟨i, q, caller, received, rfl, hi, hposition⟩

theorem Stage.act (h : Stage run beforeCommit s) (hs : s.act = some s') :
    Stage run beforeCommit s' := by
  have hsame : ∀ {t : System D σ ρ}, t.callers = s.callers → Later s t := by
    intro t ht j caller received hj _
    rw [ht]
    exact hj
  cases h with
  | idle ha hslot hactive hclean =>
    unfold System.act at hs
    rw [ha] at hs
    dsimp only at hs
    split at hs
    · cases hs
    · rename_i i queue hqueue
      split at hs
      · rename_i task inScope work hi
        cases hs
        exact .own i _ rfl hi (Or.inl rfl) hslot hactive (hclean.later (hsame rfl) rfl)
      · cases hs
        exact .idle rfl hslot hactive (hclean.later (hsame rfl) rfl)
  | own i caller ha hi hposition hslot hactive hclean =>
    unfold System.act at hs
    rw [ha] at hs
    dsimp only at hs
    rw [hi] at hs
    cases hs
    exact .answer i caller rfl hi hposition hslot rfl (hclean.later (hsame rfl) rfl)
  | answer i caller ha hi hposition hslot hactive hclean =>
    unfold System.act at hs
    rw [ha] at hs
    dsimp only at hs
    rw [hi] at hs
    rcases hposition with hposition | hposition
    · have hnot : ∀ received, caller.position ≠ .gone received := by
        intro received heq
        rw [hposition] at heq
        cases heq
      rw [Option.bind_eq_bind, Option.bind_some, hposition] at hs
      cases hs
      exact .waiting i _ rfl (getElem?_setPosition hi _)
        ⟨hslot, hactive, hclean.later (later_setPosition hi hnot _) rfl⟩
    · rw [Option.bind_eq_bind, Option.bind_some, hposition] at hs
      cases hs
      refine .waiting i caller rfl hi ?_
      rw [System.AtCaller, hposition]
      exact ⟨hactive, false, none, rfl, (hclean.later (hsame rfl) rfl).piped, hclean.tail false⟩
  | waiting i caller ha hi hat =>
    unfold System.act at hs
    rw [ha] at hs
    obtain ⟨rollback, hslot, hs⟩ := Option.bind_eq_some_iff.mp hs
    cases hs
    unfold System.AtCaller at hat
    split at hat
    · rw [hat.1] at hslot
      cases hslot
    · rw [hat.1] at hslot
      cases hslot
    · rw [hat.1] at hslot
      cases hslot
    · rename_i received hposition
      obtain ⟨hactive, rollback', tail, hslot', hpiped, htail⟩ := hat
      cases hslot.symm.trans hslot'
      exact .took i caller received rollback tail rfl hi hposition rfl hactive
        (hpiped.later (hsame rfl) rfl) htail
    · exact hat.elim
  | took i caller received rollback tail ha hi hposition hslot hactive hpiped htail =>
    unfold System.act at hs
    rw [ha] at hs
    cases rollback with
    | true =>
      cases hs
      refine .rolling i caller received tail rfl hi hposition hslot hactive ?_ htail
      obtain ⟨strays, hpending, hstrays, hworking⟩ := hpiped
      refine ⟨strays, ?_, fun p hp => (hstrays p hp).later (hsame rfl), hworking⟩
      rw [System.hand, hpending]
      simp
    | false =>
      cases hs
      exact .clear i caller received rfl hi hposition hslot hactive
        ((Clean.of_tail hi hposition hpiped htail).later (hsame rfl) rfl)
  | rolling i caller received tail ha =>
    unfold System.act at hs
    rw [ha] at hs
    cases hs
  | clear i caller received ha hi hposition hslot hactive hclean =>
    unfold System.act at hs
    rw [ha] at hs
    cases hs
    exact .idle rfl hslot rfl (hclean.later (hsame rfl) rfl)

/-! ## The steps of SQLite -/

theorem exec_cases {accept : Bool} (hs : s.exec run accept = some s') :
    ∃ issuer command pending connection reply,
      s.connection.pending = (issuer, command) :: pending ∧
      Connection.exec run accept { s.connection with pending := pending } command =
        (connection, reply) ∧
      connection.pending = pending ∧
      s' = ({ s with connection := connection } : System D σ ρ).reply reply issuer := by
  unfold System.exec at hs
  split at hs
  · cases hs
  · rename_i issuer command pending hpending
    cases hs
    exact ⟨issuer, command, pending, _, _, hpending, rfl, exec_pending accept _ command, rfl⟩

/-- Nobody waits for the reply. -/
theorem reply_of_not_held (hi : s.callers[i]? = some caller)
    (hnot : ∀ lease, caller.position ≠ .held lease) (reply : Reply ρ) :
    s.reply reply (some i) = s := by
  obtain ⟨task, inScope, work, position⟩ := caller
  unfold System.reply
  dsimp only
  split
  · rename_i hj
    cases hi.symm.trans hj
    exact absurd rfl (hnot _)
  · rfl

theorem System.Stray.reply {p : Option ℕ × Command σ ρ} (h : s.Stray p) (reply : Reply ρ) :
    s.reply reply p.1 = s := by
  obtain ⟨j, q, caller, received, rfl, hj, hgone⟩ := h
  exact reply_of_not_held hj (fun lease heq => by rw [hgone] at heq; cases heq) reply

/-- Only the connection changes. -/
theorem System.Stray.with {p : Option ℕ × Command σ ρ} (h : s.Stray p)
    (connection : Connection D σ ρ) : ({ s with connection := connection } : System D σ ρ).Stray p :=
  h

/-- A statement of a caller that is gone runs outside of a transaction. -/
theorem exec_stray {d₀ : D} {accept : Bool} {p : Option ℕ × Command σ ρ}
    {pending : List (Option ℕ × Command σ ρ)}
    (hlog : Replays run beforeCommit d₀ s.connection.log s.connection.contents)
    (hpending : s.connection.pending = p :: pending) (hp : s.Stray p)
    (hworking : s.connection.working = none) (hs : s.exec run accept = some s') :
    ∃ connection, s' = { s with connection := connection } ∧ connection.pending = pending ∧
      connection.working = none ∧
      Replays run beforeCommit d₀ connection.log connection.contents := by
  obtain ⟨issuer, command, pending', connection, reply, hpending', hexec, hrest, rfl⟩ :=
    exec_cases hs
  cases hpending.symm.trans hpending'
  have hreply := (hp.with connection).reply reply
  dsimp only at hreply
  obtain ⟨j, q, caller, received, heq, -⟩ := hp
  cases heq
  have htail : Tail run beforeCommit s.connection.contents s.connection.working false
      (some (.statement q)) :=
    ⟨fun _ => ⟨hworking, fun _ hcommand => ⟨q, (Option.some.inj hcommand).symm⟩⟩,
      fun hcommand => (by cases hcommand), fun _ hcommand => (by cases hcommand)⟩
  obtain ⟨hlog', htail'⟩ :=
    Tail.exec (c := { s.connection with pending := pending }) hlog htail hexec
  exact ⟨connection, hreply, hrest, (htail'.outside rfl).1, hlog'⟩

theorem System.Clean.exec {d₀ : D} {accept : Bool} (h : s.Clean)
    (hlog : Replays run beforeCommit d₀ s.connection.log s.connection.contents)
    (hs : s.exec run accept = some s') :
    ∃ connection, s' = { s with connection := connection } ∧
      ({ s with connection := connection } : System D σ ρ).Clean ∧
      Replays run beforeCommit d₀ connection.log connection.contents := by
  obtain ⟨issuer, command, pending, -, -, hpending, -⟩ := exec_cases hs
  have hmem : ∀ p ∈ (issuer, command) :: pending, s.Stray p := hpending ▸ h.2
  obtain ⟨connection, heq, hrest, hworking, hlog'⟩ :=
    exec_stray hlog hpending (hmem _ List.mem_cons_self) h.1 hs
  refine ⟨connection, heq, ⟨hworking, fun p hp => ?_⟩, hlog'⟩
  exact hmem p (List.mem_cons_of_mem _ (hrest ▸ hp))

/-- Outside of a transaction the contents do not matter. -/
theorem Tail.contents {contents contents' : D} {rollback : Bool} {tail : Option (Command σ ρ)}
    (h : Tail run beforeCommit contents none rollback tail) :
    Tail run beforeCommit contents' none rollback tail :=
  ⟨h.outside, h.begins, fun operation hcommand => (by
    obtain ⟨w, hw, -⟩ := h.commits operation hcommand
    cases hw)⟩

theorem Lease.Fits.contents {contents contents' : D} {l : Lease σ ρ}
    (h : l.Fits run beforeCommit contents none) : l.Fits run beforeCommit contents' none := by
  obtain ⟨rollback, phase, awaiting⟩ := l
  cases phase with
  | start operation => exact h
  | begin operation =>
    match awaiting, h with
    | .idle, h => exact h
    | .handed, h => exact h
    | .replied (.rows _), h => exact h
    | .replied (.control false), h => exact h
    | .replied (.control true), h => cases h.2
  | run part todo =>
    rw [fits_run] at h ⊢
    rcases h with hplain | ⟨-, w, hw, -⟩
    · exact Or.inl hplain
    · cases hw
  | commit operation =>
    match awaiting, h with
    | .idle, ⟨_, _, hw, _⟩ => cases hw
    | .handed, ⟨_, _, hw, _⟩ => cases hw
    | .replied (.rows _), ⟨_, _, hw, _⟩ => cases hw
    | .replied (.control _), h => exact h
  | rollback => cases awaiting <;> exact h
  | finished => exact h

/-- Before a command of caller `i` runs, the statements of earlier callers do. -/
theorem System.Piped.exec {d₀ : D} {accept : Bool} {tail : Option (Command σ ρ)}
    {rest : List (Option ℕ × Command σ ρ)} (h : s.Piped i tail rest)
    (hlog : Replays run beforeCommit d₀ s.connection.log s.connection.contents)
    (hs : s.exec run accept = some s') :
    (s.connection.working = none ∧ ∃ connection, s' = { s with connection := connection } ∧
      ({ s with connection := connection } : System D σ ρ).Piped i tail rest ∧
      connection.working = none ∧
      Replays run beforeCommit d₀ connection.log connection.contents) ∨
    s.connection.pending = tail.toList.map (some i, ·) ++ rest := by
  obtain ⟨strays, hpending, hstrays, hworking⟩ := h
  cases strays with
  | nil => exact Or.inr hpending
  | cons p strays =>
    have hnone := hworking (List.cons_ne_nil _ _)
    obtain ⟨connection, heq, hrest, hworking', hlog'⟩ :=
      exec_stray hlog hpending (hstrays p List.mem_cons_self) hnone hs
    exact Or.inl ⟨hnone, connection, heq, ⟨strays, hrest,
      fun p' hp' => hstrays p' (List.mem_cons_of_mem _ hp'), fun _ => hworking'⟩, hworking', hlog'⟩

/-- SQLite executes while the caller `i` no longer waits for a reply. -/
theorem System.Piped.exec_tail {d₀ : D} {accept rollback : Bool} {tail : Option (Command σ ρ)}
    {rest : List (Option ℕ × Command σ ρ)} (h : s.Piped i tail rest)
    (hi : s.callers[i]? = some caller) (hnot : ∀ lease, caller.position ≠ .held lease)
    (htail : Tail run beforeCommit s.connection.contents s.connection.working rollback tail)
    (hlog : Replays run beforeCommit d₀ s.connection.log s.connection.contents)
    (hs : s.exec run accept = some s') :
    (∃ connection tail', s' = { s with connection := connection } ∧
      ({ s with connection := connection } : System D σ ρ).Piped i tail' rest ∧
      Tail run beforeCommit connection.contents connection.working rollback tail' ∧
      Replays run beforeCommit d₀ connection.log connection.contents) ∨
    s.connection.pending = rest := by
  rcases h.exec hlog hs with ⟨hnone, connection, rfl, hpiped, hworking, hlog'⟩ | hpending
  · rw [hnone] at htail
    exact Or.inl ⟨connection, tail, rfl, hpiped, hworking ▸ htail.contents, hlog'⟩
  · cases tail with
    | none => exact Or.inr hpending
    | some command =>
      obtain ⟨issuer, command', pending, connection, reply, hpending', hexec, hrest, rfl⟩ :=
        exec_cases hs
      cases hpending.symm.trans hpending'
      obtain ⟨hlog', htail'⟩ :=
        Tail.exec (c := { s.connection with pending := rest }) hlog htail hexec
      exact Or.inl ⟨connection, none, reply_of_not_held (s := { s with connection := connection })
        hi hnot reply, ⟨[], hrest, fun _ hp => (by cases hp), fun hne => absurd rfl hne⟩, htail',
        hlog'⟩

/-- The command of a lease that is held is answered. -/
theorem reply_held {lease : Lease σ ρ} {command : Command σ ρ}
    (hi : s.callers[i]? = some caller) (hposition : caller.position = .held lease)
    (hhanded : lease.handed = some command) (reply : Reply ρ) :
    s.reply reply (some i) =
      s.setPosition i caller (.held { lease with awaiting := .replied reply }) := by
  obtain ⟨task, inScope, work, position⟩ := caller
  obtain ⟨rollback, phase, awaiting⟩ := lease
  cases hposition
  cases awaiting with
  | idle => cases hhanded
  | replied _ => cases hhanded
  | handed =>
    unfold System.reply
    dsimp only
    rw [hi]

/-- SQLite executes while the lease is held. -/
theorem exec_held {d₀ : D} {accept : Bool} {lease : Lease σ ρ}
    (hactor : s.actor = .waiting i) (hi : s.callers[i]? = some caller)
    (hposition : caller.position = .held lease) (hat : s.AtCaller run beforeCommit i caller)
    (hlog : Replays run beforeCommit d₀ s.connection.log s.connection.contents)
    (hs : s.exec run accept = some s') :
    Stage run beforeCommit s' ∧
      Replays run beforeCommit d₀ s'.connection.log s'.connection.contents := by
  have hat' := hat
  rw [System.AtCaller, hposition] at hat
  obtain ⟨hslot, hactive, hpiped, hfits⟩ := hat
  rcases hpiped.exec hlog hs with ⟨hnone, connection, rfl, hpiped', hworking, hlog'⟩ | hpending
  · refine ⟨.waiting i caller hactor hi ?_, hlog'⟩
    rw [System.AtCaller, hposition]
    rw [hnone] at hfits
    exact ⟨hslot, hactive, hpiped', hworking ▸ hfits.contents⟩
  · obtain ⟨issuer, command, pending, connection, reply, hpending', hexec, hrest, rfl⟩ :=
      exec_cases hs
    cases hhanded : lease.handed with
    | none =>
      rw [hhanded] at hpending
      cases hpending.symm.trans hpending'
    | some command' =>
      rw [hhanded] at hpending
      cases hpending.symm.trans hpending'
      obtain ⟨hlog', -⟩ := Tail.exec (c := { s.connection with pending := [] }) hlog
        (hhanded ▸ hfits.tail) hexec
      have hfits' := Lease.Fits.exec (c := { s.connection with pending := [] }) hfits hhanded hexec
      rw [reply_held (s := { s with connection := connection }) hi hposition hhanded]
      refine ⟨.waiting i _ hactor (getElem?_setPosition hi _) ⟨hslot, hactive, ?_, hfits'⟩, hlog'⟩
      exact ⟨[], hrest, fun _ hp => (by cases hp), fun hne => absurd rfl hne⟩

theorem Stage.exec {d₀ : D} {accept : Bool} (h : Stage run beforeCommit s)
    (hlog : Replays run beforeCommit d₀ s.connection.log s.connection.contents)
    (hs : s.exec run accept = some s') :
    Stage run beforeCommit s' ∧
      Replays run beforeCommit d₀ s'.connection.log s'.connection.contents := by
  have hgone : ∀ {caller : Caller σ ρ} {received}, caller.position = .gone received →
      ∀ lease, caller.position ≠ .held lease := by
    intro caller received hposition lease heq
    rw [hposition] at heq
    cases heq
  obtain ⟨_, _, _, _, _, hne, -⟩ := exec_cases hs
  have hpending : s.connection.pending ≠ [] := by
    rw [hne]
    exact List.cons_ne_nil _ _
  cases h with
  | idle ha hslot hactive hclean =>
    obtain ⟨connection, rfl, hclean', hlog'⟩ := hclean.exec hlog hs
    exact ⟨.idle ha hslot hactive hclean', hlog'⟩
  | own i caller ha hi hposition hslot hactive hclean =>
    obtain ⟨connection, rfl, hclean', hlog'⟩ := hclean.exec hlog hs
    exact ⟨.own i caller ha hi hposition hslot hactive hclean', hlog'⟩
  | answer i caller ha hi hposition hslot hactive hclean =>
    obtain ⟨connection, rfl, hclean', hlog'⟩ := hclean.exec hlog hs
    exact ⟨.answer i caller ha hi hposition hslot hactive hclean', hlog'⟩
  | waiting i caller ha hi hat =>
    cases hposition : caller.position with
    | held lease => exact exec_held ha hi hposition hat hlog hs
    | answered =>
      rw [System.AtCaller, hposition] at hat
      obtain ⟨hslot, hactive, hclean⟩ := hat
      obtain ⟨connection, rfl, hclean', hlog'⟩ := hclean.exec hlog hs
      refine ⟨.waiting i caller ha hi ?_, hlog'⟩
      rw [System.AtCaller, hposition]
      exact ⟨hslot, hactive, hclean'⟩
    | dropping rollback =>
      rw [System.AtCaller, hposition] at hat
      obtain ⟨hslot, hactive, tail, hpiped, htail⟩ := hat
      have hnot : ∀ lease, caller.position ≠ .held lease := fun lease heq => by
        rw [hposition] at heq
        cases heq
      obtain ⟨connection, tail', rfl, hpiped', htail', hlog'⟩ :=
        (hpiped.exec_tail hi hnot htail hlog hs).resolve_right hpending
      refine ⟨.waiting i caller ha hi ?_, hlog'⟩
      rw [System.AtCaller, hposition]
      exact ⟨hslot, hactive, tail', hpiped', htail'⟩
    | gone received =>
      rw [System.AtCaller, hposition] at hat
      obtain ⟨hactive, rollback, tail, hslot, hpiped, htail⟩ := hat
      obtain ⟨connection, tail', rfl, hpiped', htail', hlog'⟩ :=
        (hpiped.exec_tail hi (hgone hposition) htail hlog hs).resolve_right hpending
      refine ⟨.waiting i caller ha hi ?_, hlog'⟩
      rw [System.AtCaller, hposition]
      exact ⟨hactive, rollback, tail', hslot, hpiped', htail'⟩
    | refused =>
      rw [System.AtCaller, hposition] at hat
      exact hat.elim
    | sending =>
      rw [System.AtCaller, hposition] at hat
      exact hat.elim
    | queued =>
      rw [System.AtCaller, hposition] at hat
      exact hat.elim
  | took i caller received rollback tail ha hi hposition hslot hactive hpiped htail =>
    obtain ⟨connection, tail', rfl, hpiped', htail', hlog'⟩ :=
      (hpiped.exec_tail hi (hgone hposition) htail hlog hs).resolve_right hpending
    exact ⟨.took i caller received rollback tail' ha hi hposition hslot hactive hpiped' htail', hlog'⟩
  | rolling i caller received tail ha hi hposition hslot hactive hpiped htail =>
    rcases hpiped.exec_tail hi (hgone hposition) htail hlog hs with
      ⟨connection, tail', rfl, hpiped', htail', hlog'⟩ | hlast
    · exact ⟨.rolling i caller received tail' ha hi hposition hslot hactive hpiped' htail', hlog'⟩
    · -- everything of the caller has run, and the actor's own ROLLBACK ends what it had begun
      obtain ⟨issuer, command, pending, connection, reply, hpending', hexec, hrest, rfl⟩ :=
        exec_cases hs
      cases hlast.symm.trans hpending'
      cases hexec
      unfold System.reply
      dsimp only
      rw [ha]
      refine ⟨.clear i caller received rfl hi hposition hslot hactive ⟨rfl, ?_⟩, hlog⟩
      rintro p hp
      cases hp
  | clear i caller received ha hi hposition hslot hactive hclean =>
    obtain ⟨connection, rfl, hclean', hlog'⟩ := hclean.exec hlog hs
    exact ⟨.clear i caller received ha hi hposition hslot hactive hclean', hlog'⟩

end Kahawai.Sqlite
