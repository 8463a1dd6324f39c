import Kahawai.Sqlite.Handoff

/-!
# The writer serves its queue

The actor takes the requests in the order in which they entered the queue (`Ordered`) and
skips those whose callers are gone; the one that it took last has the lease.

* `safe_next`: the step lemma for the places of the connection and the queue.
* `writer_survives`: what holds in every state, whichever callers were dropped, and
  wherever they were.
-/

namespace Kahawai.Sqlite

open Kahawai.Lib Kahawai.Lib.Interaction

variable {D σ ρ : Type} {run : σ → D → Option (D × ρ)} {beforeCommit : Option (Operation σ ρ)}
  {s s' : System D σ ρ} {i j : ℕ} {caller : Caller σ ρ} {position : Position σ ρ} {d₀ : D}

/-- Requests are taken in order, and a live one is not skipped. -/
structure Ordered (s : System D σ ρ) : Prop where
  order : s.queued = s.taken.map Prod.fst ++ s.queue
  nodup : s.queued.Nodup
  bound : ∀ i ∈ s.queued, i < s.callers.length
  enters : ∀ (i : ℕ) (caller : Caller σ ρ), s.callers[i]? = some caller →
    caller.position = .sending → i ∉ s.queued
  inQueue : ∀ i ∈ s.queue, ∃ caller, s.callers[i]? = some caller ∧
    (caller.position = .queued ∨ caller.position = .gone false)
  waits : ∀ (i : ℕ) (caller : Caller σ ρ), s.callers[i]? = some caller →
    caller.position = .queued → i ∈ s.queue ∨ s.actor = .own i ∨ s.actor = .answer i
  skipped : ∀ i, (i, false) ∈ s.taken →
    ∃ caller, s.callers[i]? = some caller ∧ caller.position = .gone false
  last : ∀ i, s.actor.serving = some i → s.taken.getLast? = some (i, true)

/-! ## What a step of a caller changes -/

/-- Caller `i` moves to a position, and the actor does nothing. -/
structure Moved (s s' : System D σ ρ) (i : ℕ) (caller : Caller σ ρ) (position : Position σ ρ) :
    Prop where
  found : s.callers[i]? = some caller
  callers : s'.callers = s.callers.set i { caller with position := position }
  actor : s'.actor = s.actor
  taken : s'.taken = s.taken

/-- Either the request of caller `i` enters the queue, or its lease moves. -/
theorem advance_moved (hs : s.advance beforeCommit i = some s') :
    ∃ caller position, Moved s s' i caller position ∧
      ((caller.position = .sending ∧ position = .queued ∧ s'.queue = s.queue ++ [i] ∧
          s'.queued = s.queued ++ [i]) ∨
        (caller.position.leased ∧ (position.leased ∨ position = .gone true) ∧
          s'.queue = s.queue ∧ s'.queued = s.queued)) := by
  have hs' := hs
  obtain ⟨caller, hi, hs⟩ := Option.bind_eq_some_iff.mp hs
  cases hposition : caller.position with
  | sending =>
    rw [hposition] at hs
    dsimp only at hs
    split_ifs at hs
    cases hs
    exact ⟨caller, .queued, ⟨hi, rfl, rfl, rfl⟩, Or.inl ⟨hposition, rfl, rfl, rfl⟩⟩
  | answered =>
    rw [hposition] at hs
    cases hs
    exact ⟨caller, _, ⟨hi, rfl, rfl, rfl⟩,
      Or.inr ⟨by rw [hposition]; rfl, Or.inl rfl, rfl, rfl⟩⟩
  | held lease =>
    have hleased : caller.position.leased := by rw [hposition]; rfl
    rcases advance_held hi hposition hs' with ⟨-, -, rfl⟩ | ⟨lease', command, -, rfl⟩
    · exact ⟨caller, _, ⟨hi, rfl, rfl, rfl⟩, Or.inr ⟨hleased, Or.inl rfl, rfl, rfl⟩⟩
    · exact ⟨caller, _, ⟨hi, rfl, rfl, rfl⟩, Or.inr ⟨hleased, Or.inl rfl, rfl, rfl⟩⟩
  | dropping rollback =>
    rw [hposition] at hs
    cases hs
    exact ⟨caller, _, ⟨hi, rfl, rfl, rfl⟩,
      Or.inr ⟨by rw [hposition]; rfl, Or.inr rfl, rfl, rfl⟩⟩
  | refused =>
    rw [hposition] at hs
    cases hs
  | queued =>
    rw [hposition] at hs
    cases hs
  | gone received =>
    rw [hposition] at hs
    cases hs

/-- Either a caller without a lease is gone, or its lease moves. -/
theorem drop_moved (hs : s.drop i = some s') :
    ∃ caller position, Moved s s' i caller position ∧ s'.queue = s.queue ∧ s'.queued = s.queued ∧
      (((caller.position = .sending ∨ caller.position = .queued) ∧ position = .gone false) ∨
        (caller.position.leased ∧ (position.leased ∨ position = .gone false))) := by
  obtain ⟨caller, hi, hs⟩ := Option.bind_eq_some_iff.mp hs
  cases hposition : caller.position with
  | sending =>
    rw [hposition] at hs
    cases hs
    exact ⟨caller, _, ⟨hi, rfl, rfl, rfl⟩, rfl, rfl, Or.inl ⟨Or.inl hposition, rfl⟩⟩
  | queued =>
    rw [hposition] at hs
    cases hs
    exact ⟨caller, _, ⟨hi, rfl, rfl, rfl⟩, rfl, rfl, Or.inl ⟨Or.inr hposition, rfl⟩⟩
  | answered =>
    rw [hposition] at hs
    cases hs
    exact ⟨caller, _, ⟨hi, rfl, rfl, rfl⟩, rfl, rfl,
      Or.inr ⟨by rw [hposition]; rfl, Or.inr rfl⟩⟩
  | held lease =>
    rw [hposition] at hs
    cases hs
    exact ⟨caller, _, ⟨hi, rfl, rfl, rfl⟩, rfl, rfl,
      Or.inr ⟨by rw [hposition]; rfl, Or.inl rfl⟩⟩
  | dropping rollback =>
    rw [hposition] at hs
    cases hs
  | refused =>
    rw [hposition] at hs
    cases hs
  | gone received =>
    rw [hposition] at hs
    cases hs

/-- SQLite moves at most a lease that is held, and lets the actor end its rollback. -/
theorem exec_moved {accept : Bool} (hs : s.exec run accept = some s') :
    s'.queue = s.queue ∧ s'.queued = s.queued ∧ s'.taken = s.taken ∧
      (s'.actor = s.actor ∨ ∃ i, s.actor = .rolling i ∧ s'.actor = .clear i) ∧
      (s'.callers = s.callers ∨ (s'.actor = s.actor ∧ ∃ i caller lease lease',
        s.callers[i]? = some caller ∧ caller.position = .held lease ∧
          s'.callers = s.callers.set i { caller with position := .held lease' })) := by
  obtain ⟨issuer, command, pending, connection, reply, -, -, -, rfl⟩ := exec_cases hs
  unfold System.reply
  cases issuer with
  | none =>
    dsimp only
    split
    · rename_i k ha
      exact ⟨rfl, rfl, rfl, Or.inr ⟨k, ha, rfl⟩, Or.inl rfl⟩
    · exact ⟨rfl, rfl, rfl, Or.inl rfl, Or.inl rfl⟩
  | some k =>
    dsimp only
    split
    · rename_i hk
      exact ⟨rfl, rfl, rfl, Or.inl rfl, Or.inr ⟨rfl, k, _, _, _, hk, rfl, rfl⟩⟩
    · exact ⟨rfl, rfl, rfl, Or.inl rfl, Or.inl rfl⟩

/-! ## Only one caller has a lease -/

theorem Alone.kept (h : Alone s) (hactor : s'.actor = s.actor)
    (hleased : ∀ (j : ℕ) (caller : Caller σ ρ), s'.callers[j]? = some caller →
      caller.position.leased → ∃ caller, s.callers[j]? = some caller ∧ caller.position.leased) :
    Alone s' := by
  intro j caller hj hl
  obtain ⟨old, hold, hl⟩ := hleased j caller hj hl
  exact hactor.trans (h j old hold hl)

theorem Alone.moved (h : Alone s) (hm : Moved s s' i caller position)
    (hleased : position.leased → caller.position.leased) : Alone s' := by
  refine h.kept hm.actor fun j other hj hl => ?_
  rw [hm.callers] at hj
  rcases getElem?_set_cases hj with ⟨rfl, rfl⟩ | ⟨-, hold⟩
  · exact ⟨caller, hm.found, hleased hl⟩
  · exact ⟨other, hold, hl⟩

/-- No caller has a lease. -/
theorem Alone.of_unleased (h : ∀ (j : ℕ) (caller : Caller σ ρ), s.callers[j]? = some caller →
    caller.position.leased = false) : Alone s := by
  intro j caller hj hl
  rw [h j caller hj] at hl
  cases hl

theorem Alone.unleased (h : Alone s) (hactor : ∀ i, s.actor ≠ .waiting i) (j : ℕ)
    (caller : Caller σ ρ) (hj : s.callers[j]? = some caller) : caller.position.leased = false := by
  cases hl : caller.position.leased with
  | false => rfl
  | true => exact absurd (h j caller hj hl) (hactor j)

theorem Alone.act (h : Alone s) (hstage : Stage run beforeCommit s) (hs : s.act = some s') :
    Alone s' := by
  have hsame : ∀ {t : System D σ ρ}, t.callers = s.callers → (∀ i, s.actor ≠ .waiting i) →
      Alone t := by
    intro t ht hactor
    refine Alone.of_unleased fun j caller hj => h.unleased hactor j caller ?_
    rwa [ht] at hj
  unfold System.act at hs
  cases ha : s.actor with
  | idle =>
    have hactor : ∀ i, s.actor ≠ .waiting i := fun i heq => by rw [ha] at heq; cases heq
    rw [ha] at hs
    dsimp only at hs
    split at hs
    · cases hs
    · split at hs <;> cases hs <;> exact hsame rfl hactor
  | own i =>
    have hactor : ∀ i, s.actor ≠ .waiting i := fun i heq => by rw [ha] at heq; cases heq
    rw [ha] at hs
    obtain ⟨caller, -, hs⟩ := Option.bind_eq_some_iff.mp hs
    cases hs
    exact hsame rfl hactor
  | answer i =>
    have hactor : ∀ i, s.actor ≠ .waiting i := fun i heq => by rw [ha] at heq; cases heq
    rw [ha] at hs
    obtain ⟨caller, hi, hs⟩ := Option.bind_eq_some_iff.mp hs
    dsimp only at hs
    split at hs
    · cases hs
      intro j other hj hl
      rcases getElem?_set_cases hj with ⟨rfl, -⟩ | ⟨-, hold⟩
      · rfl
      · rw [h.unleased hactor j other hold] at hl
        cases hl
    · cases hs
      exact hsame rfl hactor
  | waiting i =>
    rw [ha] at hs
    obtain ⟨rollback, hslot, hs⟩ := Option.bind_eq_some_iff.mp hs
    cases hs
    refine Alone.of_unleased fun j caller hj => ?_
    cases hl : caller.position.leased with
    | false => rfl
    | true =>
      -- the connection is on its way back, so the caller has no part of the lease
      obtain ⟨-, hat⟩ := hstage.of_leased h hj hl
      unfold System.AtCaller at hat
      split at hat
      · cases hat.1.symm.trans hslot
      · cases hat.1.symm.trans hslot
      · cases hat.1.symm.trans hslot
      · rename_i received hposition
        rw [hposition] at hl
        cases hl
      · exact hat.elim
  | took i rollback =>
    have hactor : ∀ i, s.actor ≠ .waiting i := fun i heq => by rw [ha] at heq; cases heq
    rw [ha] at hs
    cases rollback <;> cases hs <;> exact hsame rfl hactor
  | rolling i =>
    rw [ha] at hs
    cases hs
  | clear i =>
    have hactor : ∀ i, s.actor ≠ .waiting i := fun i heq => by rw [ha] at heq; cases heq
    rw [ha] at hs
    cases hs
    exact hsame rfl hactor

theorem Alone.exec {accept : Bool} (h : Alone s) (hs : s.exec run accept = some s') : Alone s' := by
  obtain ⟨-, -, -, hactor, hcallers⟩ := exec_moved hs
  rcases hcallers with hcallers | ⟨hactor, i, caller, lease, lease', hi, hposition, hcallers⟩
  · rcases hactor with hactor | ⟨i, ha, -⟩
    · exact h.kept hactor fun j caller hj hl => ⟨caller, hcallers ▸ hj, hl⟩
    · refine Alone.of_unleased fun j caller hj => h.unleased (fun k heq => ?_) j caller (hcallers ▸ hj)
      rw [ha] at heq
      cases heq
  · refine h.kept hactor fun j other hj hl => ?_
    rw [hcallers] at hj
    rcases getElem?_set_cases hj with ⟨rfl, -⟩ | ⟨-, hold⟩
    · exact ⟨caller, hi, by rw [hposition]; rfl⟩
    · exact ⟨other, hold, hl⟩

/-! ## The queue -/

theorem Ordered.request {task : TaskOwner} {ownContext inScope : Bool} {work : Work σ ρ}
    (h : Ordered s) (hs : s.request task ownContext inScope work = some s') : Ordered s' := by
  rw [System.request] at hs
  split at hs
  · cases hs
  · cases hs
    have hkept : ∀ {i : ℕ} {caller : Caller σ ρ} {new}, s.callers[i]? = some caller →
        (s.callers ++ [new])[i]? = some caller := by
      intro i caller new hi
      rwa [List.getElem?_append_left (List.getElem?_eq_some_iff.mp hi).1]
    refine ⟨h.order, h.nodup, fun i hi => ?_, fun i caller hi hposition hmem => ?_, fun i hi => ?_,
      fun i caller hi hposition => ?_, fun i hi => ?_, h.last⟩
    · rw [List.length_append]
      exact Nat.lt_add_right _ (h.bound i hi)
    · rcases getElem?_append_cases hi with ⟨rfl, -⟩ | hold
      · exact Nat.lt_irrefl _ (h.bound _ hmem)
      · exact h.enters i caller hold hposition hmem
    · obtain ⟨caller, hold, hposition⟩ := h.inQueue i hi
      exact ⟨caller, hkept hold, hposition⟩
    · rcases getElem?_append_cases hi with ⟨-, rfl⟩ | hold
      · dsimp only at hposition
        split at hposition <;> cases hposition
      · exact h.waits i caller hold hposition
    · obtain ⟨caller, hold, hposition⟩ := h.skipped i hi
      exact ⟨caller, hkept hold, hposition⟩

/-- A caller moves that stays out of the queue, or leaves it. -/
theorem Ordered.moved (h : Ordered s) (hm : Moved s s' i caller position)
    (hqueue : s'.queue = s.queue) (hqueued : s'.queued = s.queued) (hsending : position ≠ .sending)
    (hwaits : position ≠ .queued) (hgone : ∀ received, caller.position ≠ .gone received)
    (hleft : i ∈ s.queue → position = .gone false) : Ordered s' := by
  have hlength : s'.callers.length = s.callers.length := by rw [hm.callers, List.length_set]
  refine ⟨?_, ?_, fun j hj => ?_, fun j other hj hposition => ?_, fun j hj => ?_,
    fun j other hj hposition => ?_, fun j hj => ?_, fun j hj => ?_⟩
  · rw [hqueued, hm.taken, hqueue]
    exact h.order
  · rw [hqueued]
    exact h.nodup
  · rw [hlength]
    exact h.bound j (hqueued ▸ hj)
  · rw [hm.callers] at hj
    rw [hqueued]
    rcases getElem?_set_cases hj with ⟨-, rfl⟩ | ⟨-, hold⟩
    · exact absurd hposition hsending
    · exact h.enters j other hold hposition
  · rw [hqueue] at hj
    rw [hm.callers]
    by_cases hij : i = j
    · subst hij
      exact ⟨_, getElem?_set_moved hm.found, Or.inr (hleft hj)⟩
    · rw [List.getElem?_set_ne hij]
      exact h.inQueue j hj
  · rw [hm.callers] at hj
    rw [hqueue, hm.actor]
    rcases getElem?_set_cases hj with ⟨-, rfl⟩ | ⟨-, hold⟩
    · exact absurd hposition hwaits
    · exact h.waits j other hold hposition
  · rw [hm.taken] at hj
    obtain ⟨other, hold, hposition⟩ := h.skipped j hj
    rw [hm.callers]
    by_cases hij : i = j
    · subst hij
      obtain rfl := Option.some.inj (hm.found.symm.trans hold)
      exact absurd hposition (hgone false)
    · rw [List.getElem?_set_ne hij]
      exact ⟨other, hold, hposition⟩
  · rw [hm.actor] at hj
    rw [hm.taken]
    exact h.last j hj

/-- A caller with a lease is not in the queue. -/
theorem Ordered.moved_lease (h : Ordered s) (hm : Moved s s' i caller position)
    (hqueue : s'.queue = s.queue) (hqueued : s'.queued = s.queued)
    (hleased : caller.position.leased)
    (hposition : position.leased ∨ ∃ received, position = .gone received) : Ordered s' := by
  have hnot : ∀ p : Position σ ρ, p.leased = false → (∀ received, p ≠ .gone received) →
      position ≠ p := by
    rintro p hp hne rfl
    rcases hposition with hl | ⟨received, hgone⟩
    · rw [hp] at hl
      cases hl
    · exact hne received hgone
  refine h.moved hm hqueue hqueued (hnot _ rfl fun _ heq => by cases heq)
    (hnot _ rfl fun _ heq => by cases heq) (not_gone_of_leased hleased) fun hi => ?_
  obtain ⟨other, hold, hother⟩ := h.inQueue i hi
  obtain rfl := Option.some.inj (hm.found.symm.trans hold)
  rcases hother with hother | hother <;> rw [hother] at hleased <;> cases hleased

theorem Ordered.advance (h : Ordered s) (hs : s.advance beforeCommit i = some s') : Ordered s' := by
  obtain ⟨caller, position, hm, hcase⟩ := advance_moved hs
  rcases hcase with ⟨hsending, hnew, hqueue, hqueued⟩ | ⟨hleased, hposition, hqueue, hqueued⟩
  · -- the request enters at the end, for the first time
    have hfresh := h.enters i caller hm.found hsending
    have hnew' : ∀ j ∈ s.queued ++ [i], j = i ∨ j ∈ s.queued := by
      intro j hj
      rcases List.mem_append.mp hj with hj | hj
      · exact Or.inr hj
      · exact Or.inl (List.mem_singleton.mp hj)
    refine ⟨?_, ?_, fun j hj => ?_, fun j other hj hposition => ?_, fun j hj => ?_,
      fun j other hj hposition => ?_, fun j hj => ?_, fun j hj => ?_⟩
    · rw [hqueued, hm.taken, hqueue, h.order, List.append_assoc]
    · rw [hqueued]
      exact List.nodup_append.mpr ⟨h.nodup, List.nodup_singleton i, fun j hj k hk heq =>
        hfresh (List.mem_singleton.mp hk ▸ heq ▸ hj)⟩
    · rw [hm.callers, List.length_set]
      rw [hqueued] at hj
      rcases hnew' j hj with rfl | hj
      · exact (List.getElem?_eq_some_iff.mp hm.found).1
      · exact h.bound j hj
    · rw [hm.callers] at hj
      rcases getElem?_set_cases hj with ⟨-, rfl⟩ | ⟨hne, hold⟩
      · rw [hnew] at hposition
        cases hposition
      · rw [hqueued]
        intro hmem
        rcases hnew' j hmem with heq | hmem
        · exact hne heq
        · exact h.enters j other hold hposition hmem
    · rw [hqueue] at hj
      rw [hm.callers]
      by_cases hij : i = j
      · subst hij
        exact ⟨_, getElem?_set_moved hm.found, Or.inl hnew⟩
      · rw [List.getElem?_set_ne hij]
        rcases List.mem_append.mp hj with hj | hj
        · exact h.inQueue j hj
        · exact absurd (List.mem_singleton.mp hj).symm hij
    · rw [hm.callers] at hj
      rw [hqueue, hm.actor]
      rcases getElem?_set_cases hj with ⟨rfl, -⟩ | ⟨-, hold⟩
      · exact Or.inl (List.mem_append_right _ (List.mem_singleton_self _))
      · exact (h.waits j other hold hposition).imp_left (List.mem_append_left _)
    · rw [hm.taken] at hj
      obtain ⟨other, hold, hposition⟩ := h.skipped j hj
      rw [hm.callers]
      by_cases hij : i = j
      · subst hij
        obtain rfl := Option.some.inj (hm.found.symm.trans hold)
        cases hsending.symm.trans hposition
      · rw [List.getElem?_set_ne hij]
        exact ⟨other, hold, hposition⟩
    · rw [hm.actor] at hj
      rw [hm.taken]
      exact h.last j hj
  · exact h.moved_lease hm hqueue hqueued hleased (hposition.imp_right fun hgone => ⟨true, hgone⟩)

theorem Ordered.drop (h : Ordered s) (hs : s.drop i = some s') : Ordered s' := by
  obtain ⟨caller, position, hm, hqueue, hqueued, hcase⟩ := drop_moved hs
  rcases hcase with ⟨hold, rfl⟩ | ⟨hleased, hposition⟩
  · refine h.moved hm hqueue hqueued (fun heq => by cases heq) (fun heq => by cases heq)
      (fun received hgone => ?_) fun _ => rfl
    rcases hold with hold | hold <;> cases hold.symm.trans hgone
  · exact h.moved_lease hm hqueue hqueued hleased (hposition.imp_right fun hgone => ⟨false, hgone⟩)

/-- The actor goes on with the request that it has taken. -/
theorem Ordered.serving (h : Ordered s) (hcallers : s'.callers = s.callers)
    (hqueue : s'.queue = s.queue) (hqueued : s'.queued = s.queued) (htaken : s'.taken = s.taken)
    (hwaits : ∀ (i : ℕ) (caller : Caller σ ρ), s.callers[i]? = some caller →
      caller.position = .queued → s.actor = .own i ∨ s.actor = .answer i →
        s'.actor = .own i ∨ s'.actor = .answer i)
    (hlast : ∀ i, s'.actor.serving = some i → s.actor.serving = some i) : Ordered s' := by
  refine ⟨?_, ?_, ?_, ?_, ?_, fun i caller hi hposition => ?_, ?_, fun i hi => ?_⟩
  · rw [hqueued, htaken, hqueue]
    exact h.order
  · rw [hqueued]
    exact h.nodup
  · rw [hqueued, hcallers]
    exact h.bound
  · rw [hqueued, hcallers]
    exact h.enters
  · rw [hqueue, hcallers]
    exact h.inQueue
  · rw [hcallers] at hi
    rw [hqueue]
    exact (h.waits i caller hi hposition).imp_right (hwaits i caller hi hposition)
  · rw [htaken, hcallers]
    exact h.skipped
  · rw [htaken]
    exact h.last i (hlast i hi)

/-- The actor takes the first request. -/
theorem Ordered.take {queue : List ℕ} (h : Ordered s) (live : Bool) (hqueue : s.queue = i :: queue)
    (ha : s.actor = .idle) (hi : s.callers[i]? = some caller)
    (hlive : live = true ∨ caller.position ≠ .queued) :
    Ordered { s with
      actor := if live then .own i else .idle
      queue := queue
      taken := s.taken ++ [(i, live)] } := by
  refine ⟨?_, h.nodup, h.bound, h.enters, fun j hj => ?_, fun j other hj hposition => ?_,
    fun j hj => ?_, fun j hj => ?_⟩
  · rw [h.order, hqueue, List.map_append]
    simp
  · exact h.inQueue j (hqueue ▸ List.mem_cons_of_mem _ hj)
  · rcases h.waits j other hj hposition with hmem | hown | hanswer
    · rw [hqueue] at hmem
      rcases List.mem_cons.mp hmem with rfl | hmem
      · obtain rfl := Option.some.inj (hi.symm.trans hj)
        rcases hlive with rfl | hne
        · exact Or.inr (Or.inl rfl)
        · exact absurd hposition hne
      · exact Or.inl hmem
    · cases ha.symm.trans hown
    · cases ha.symm.trans hanswer
  · rcases List.mem_append.mp hj with hj | hj
    · exact h.skipped j hj
    · cases List.mem_singleton.mp hj
      obtain ⟨other, hold, hposition⟩ := h.inQueue i (hqueue ▸ List.mem_cons_self)
      obtain rfl := Option.some.inj (hi.symm.trans hold)
      refine ⟨caller, hi, hposition.resolve_left (hlive.resolve_left fun heq => ?_)⟩
      cases heq
  · cases live with
    | false => cases hj
    | true =>
      cases hj
      exact List.getLast?_concat

theorem Ordered.act (h : Ordered s) (hs : s.act = some s') : Ordered s' := by
  unfold System.act at hs
  cases ha : s.actor with
  | idle =>
    rw [ha] at hs
    dsimp only at hs
    split at hs
    · cases hs
    · rename_i i queue hqueue
      obtain ⟨caller, hi, -⟩ := h.inQueue i (hqueue ▸ List.mem_cons_self)
      split at hs
      · cases hs
        exact h.take true hqueue ha hi (Or.inl rfl)
      · rename_i hnot
        cases hs
        have hne : caller.position ≠ .queued := by
          obtain ⟨task, inScope, work, position⟩ := caller
          rintro rfl
          exact hnot task inScope work hi
        exact h.take false hqueue ha hi (Or.inr hne)
  | own i =>
    rw [ha] at hs
    obtain ⟨caller, -, hs⟩ := Option.bind_eq_some_iff.mp hs
    cases hs
    refine h.serving rfl rfl rfl rfl (fun j other _ _ hserved => ?_) fun j hj => ?_
    · rw [ha] at hserved
      rcases hserved with heq | heq <;> cases heq
      exact Or.inr rfl
    · rw [ha]
      exact hj
  | answer i =>
    rw [ha] at hs
    obtain ⟨caller, hi, hs⟩ := Option.bind_eq_some_iff.mp hs
    -- the lease is answered to the request that the actor has taken, or its caller is gone
    have hwaiting : caller.position ≠ .queued → Ordered { s with actor := .waiting i, slot := some false } := by
      intro hne
      refine h.serving rfl rfl rfl rfl (fun j other hj hposition hserved => ?_) fun j hj => ?_
      · rw [ha] at hserved
        rcases hserved with heq | heq <;> cases heq
        obtain rfl := Option.some.inj (hi.symm.trans hj)
        exact absurd hposition hne
      · rw [ha]
        exact hj
    dsimp only at hs
    split at hs
    · rename_i hposition
      cases hs
      have hnotin : i ∉ s.queue := by
        intro hmem
        have hlast := List.mem_of_getLast? (h.last i (by rw [ha]; rfl))
        have hnodup := h.nodup
        rw [h.order] at hnodup
        exact (List.nodup_append.mp hnodup).2.2 i (List.mem_map_of_mem hlast) i hmem rfl
      have hanswered : Ordered (s.setPosition i caller .answered) :=
        h.moved ⟨hi, rfl, rfl, rfl⟩ rfl rfl (fun heq => by cases heq) (fun heq => by cases heq)
          (fun received hgone => by cases hposition.symm.trans hgone) fun hmem => absurd hmem hnotin
      refine hanswered.serving rfl rfl rfl rfl (fun j other hj hp hserved => ?_) fun j hj => ?_
      · have hserved' : s.actor = .own j ∨ s.actor = .answer j := hserved
        rw [ha] at hserved'
        rcases hserved' with heq | heq <;> cases heq
        obtain rfl := Option.some.inj ((getElem?_setPosition hi _).symm.trans hj)
        cases hp
      · exact (congrArg Actor.serving ha).trans hj
    · rename_i hne
      cases hs
      exact hwaiting hne
  | waiting i =>
    rw [ha] at hs
    obtain ⟨rollback, -, hs⟩ := Option.bind_eq_some_iff.mp hs
    cases hs
    refine h.serving rfl rfl rfl rfl (fun j other _ _ hserved => ?_) fun j hj => ?_
    · rw [ha] at hserved
      rcases hserved with heq | heq <;> cases heq
    · rw [ha]
      exact hj
  | took i rollback =>
    have hserving : ∀ {t : System D σ ρ} {actor : Actor}, t.callers = s.callers → t.queue = s.queue →
        t.queued = s.queued → t.taken = s.taken → t.actor = actor → actor.serving = some i →
          Ordered t := by
      intro t actor hcallers hqueue hqueued htaken hactor heq
      refine h.serving hcallers hqueue hqueued htaken (fun j other _ _ hserved => ?_) fun j hj => ?_
      · rw [ha] at hserved
        rcases hserved with hown | hown <;> cases hown
      · rw [hactor, heq] at hj
        rw [ha]
        exact hj
    rw [ha] at hs
    cases rollback <;> cases hs <;> exact hserving rfl rfl rfl rfl rfl rfl
  | rolling i =>
    rw [ha] at hs
    cases hs
  | clear i =>
    rw [ha] at hs
    cases hs
    refine h.serving rfl rfl rfl rfl (fun j other _ _ hserved => ?_) fun j hj => ?_
    · rw [ha] at hserved
      rcases hserved with heq | heq <;> cases heq
    · cases hj

theorem Ordered.exec {accept : Bool} (h : Ordered s) (hs : s.exec run accept = some s') :
    Ordered s' := by
  obtain ⟨hqueue, hqueued, htaken, hactor, hcallers⟩ := exec_moved hs
  rcases hcallers with hcallers | ⟨hactor, i, caller, lease, lease', hi, hposition, hcallers⟩
  · rcases hactor with hactor | ⟨i, ha, ha'⟩
    · exact h.serving hcallers hqueue hqueued htaken (fun j other _ _ hserved => hactor ▸ hserved)
        fun j hj => hactor ▸ hj
    · refine h.serving hcallers hqueue hqueued htaken (fun j other _ _ hserved => ?_) fun j hj => ?_
      · rw [ha] at hserved
        rcases hserved with heq | heq <;> cases heq
      · rw [ha'] at hj
        rw [ha]
        exact hj
  · exact h.moved_lease ⟨hi, hcallers, hactor, htaken⟩ hqueue hqueued (by rw [hposition]; rfl)
      (Or.inl rfl)

/-! ## Runs of the writer -/

/-- The invariant of all runs. -/
structure Safe (run : σ → D → Option (D × ρ)) (beforeCommit : Option (Operation σ ρ)) (d₀ : D)
    (s : System D σ ρ) : Prop where
  stage : Stage run beforeCommit s
  alone : Alone s
  ordered : Ordered s
  replays : Replays run beforeCommit d₀ s.connection.log s.connection.contents

theorem safe_start : Safe run beforeCommit d₀ (machine run beforeCommit d₀).start := by
  refine ⟨.idle rfl rfl rfl ⟨rfl, fun p hp => ?_⟩, fun j caller hj => ?_, ?_, .nil⟩
  · cases hp
  · cases hj
  · refine ⟨rfl, List.nodup_nil, fun i hi => ?_, fun i caller hi => ?_, fun i hi => ?_,
      fun i caller hi => ?_, fun i hi => ?_, fun i hi => ?_⟩ <;> cases hi

theorem advance_log (hs : s.advance beforeCommit i = some s') :
    s'.connection.log = s.connection.log ∧ s'.connection.contents = s.connection.contents := by
  have hs' := hs
  obtain ⟨caller, hi, hs⟩ := Option.bind_eq_some_iff.mp hs
  cases hposition : caller.position with
  | held lease =>
    rcases advance_held hi hposition hs' with ⟨-, -, rfl⟩ | ⟨lease', command, -, rfl⟩ <;>
      exact ⟨rfl, rfl⟩
  | sending =>
    rw [hposition] at hs
    dsimp only at hs
    split_ifs at hs
    cases hs
    exact ⟨rfl, rfl⟩
  | _ =>
    rw [hposition] at hs
    cases hs <;> exact ⟨rfl, rfl⟩

theorem drop_log (hs : s.drop i = some s') : s'.connection = s.connection := by
  obtain ⟨caller, -, hs⟩ := Option.bind_eq_some_iff.mp hs
  dsimp only at hs
  split at hs <;> cases hs <;> rfl

theorem act_log (hs : s.act = some s') :
    s'.connection.log = s.connection.log ∧ s'.connection.contents = s.connection.contents := by
  unfold System.act at hs
  split at hs
  · split at hs
    · cases hs
    · split at hs <;> cases hs <;> exact ⟨rfl, rfl⟩
  · obtain ⟨caller, -, hs⟩ := Option.bind_eq_some_iff.mp hs
    cases hs
    exact ⟨rfl, rfl⟩
  · obtain ⟨caller, -, hs⟩ := Option.bind_eq_some_iff.mp hs
    dsimp only at hs
    split at hs <;> cases hs <;> exact ⟨rfl, rfl⟩
  · obtain ⟨rollback, -, hs⟩ := Option.bind_eq_some_iff.mp hs
    cases hs
    exact ⟨rfl, rfl⟩
  · cases hs
    exact ⟨rfl, rfl⟩
  · cases hs
    exact ⟨rfl, rfl⟩
  · cases hs
  · cases hs
    exact ⟨rfl, rfl⟩

theorem safe_next {event : Event σ ρ} (h : Safe run beforeCommit d₀ s)
    (hs : System.next run beforeCommit s event = some s') : Safe run beforeCommit d₀ s' := by
  cases event with
  | request task ownContext inScope work =>
    refine ⟨h.stage.request hs, ?_, h.ordered.request hs, ?_⟩
    · rw [System.next, System.request] at hs
      split at hs
      · cases hs
      · cases hs
        refine h.alone.kept rfl fun j caller hj hl => ?_
        rcases getElem?_append_cases hj with ⟨-, rfl⟩ | hold
        · dsimp only at hl
          split at hl <;> cases hl
        · exact ⟨caller, hold, hl⟩
    · rw [System.next, System.request] at hs
      split at hs
      · cases hs
      · cases hs
        exact h.replays
  | advance i =>
    obtain ⟨hlog, hcontents⟩ := advance_log hs
    refine ⟨h.stage.advance h.alone hs, ?_, h.ordered.advance hs, ?_⟩
    · obtain ⟨caller, position, hm, ⟨-, rfl, -⟩ | ⟨hleased, -⟩⟩ := advance_moved hs
      · exact h.alone.moved hm fun hl => by cases hl
      · exact h.alone.moved hm fun _ => hleased
    · rw [hlog, hcontents]
      exact h.replays
  | drop i =>
    refine ⟨h.stage.drop h.alone hs, ?_, h.ordered.drop hs, ?_⟩
    · obtain ⟨caller, position, hm, -, -, ⟨-, rfl⟩ | ⟨hleased, -⟩⟩ := drop_moved hs
      · exact h.alone.moved hm fun hl => by cases hl
      · exact h.alone.moved hm fun _ => hleased
    · rw [drop_log hs]
      exact h.replays
  | act =>
    obtain ⟨hlog, hcontents⟩ := act_log hs
    refine ⟨h.stage.act hs, h.alone.act h.stage hs, h.ordered.act hs, ?_⟩
    rw [hlog, hcontents]
    exact h.replays
  | exec accept =>
    obtain ⟨hstage, hreplays⟩ := h.stage.exec h.replays hs
    exact ⟨hstage, h.alone.exec hs, h.ordered.exec hs, hreplays⟩

theorem safe_of_reachable (h : (machine run beforeCommit d₀).Reachable s) :
    Safe run beforeCommit d₀ s :=
  h.invariant safe_start fun hs _ he => safe_next hs he

/-- What holds of the writer, whichever callers were dropped. -/
structure Survives (run : σ → D → Option (D × ρ)) (beforeCommit : Option (Operation σ ρ)) (d₀ : D)
    (s : System D σ ρ) : Prop where
  /-- At most one lease exists. -/
  one : ∀ (i j : ℕ) (a b : Caller σ ρ), s.callers[i]? = some a → s.callers[j]? = some b →
    a.position.leased → b.position.leased → i = j
  /-- Requests are taken in the order in which they were queued, each once. -/
  order : s.queued = s.taken.map Prod.fst ++ s.queue ∧ s.queued.Nodup
  /-- A lease is that of the request taken last. -/
  newest : ∀ (i : ℕ) (caller : Caller σ ρ), s.callers[i]? = some caller →
    caller.position.leased → s.taken.getLast? = some (i, true)
  /-- A request that was skipped was dropped in the queue. -/
  skipped : ∀ i, (i, false) ∈ s.taken →
    ∃ caller, s.callers[i]? = some caller ∧ caller.position = .gone false
  /-- A request that is live is in the queue, or the actor is about to answer it. -/
  waits : ∀ (i : ℕ) (caller : Caller σ ρ), s.callers[i]? = some caller →
    caller.position = .queued → i ∈ s.queue ∨ s.actor = .own i ∨ s.actor = .answer i
  /-- A lease is handed a connection that is outside of any transaction. -/
  outside : ∀ (i : ℕ) (caller : Caller σ ρ), s.callers[i]? = some caller →
    caller.position = .answered → s.Clean
  /-- The contents are the result of what the log says was committed. -/
  contents : Replays run beforeCommit d₀ s.connection.log s.connection.contents
  /-- The connection that the actor waits for has come back, or a caller has it. -/
  returns : ∀ i, s.actor = .waiting i →
    s.slot.isSome ∨ ∃ caller, s.callers[i]? = some caller ∧ caller.position.leased
  /-- While nobody has a lease, the actor or SQLite can go on, or no request waits. -/
  goes : (∀ (i : ℕ) (caller : Caller σ ρ), s.callers[i]? = some caller →
      caller.position.leased = false) →
    s.act.isSome ∨ (s.exec run true).isSome ∨ s.actor = .idle ∧ s.queue = []

theorem Stage.returns (h : Stage run beforeCommit s) (ha : s.actor = .waiting i) :
    s.slot.isSome ∨ ∃ caller, s.callers[i]? = some caller ∧ caller.position.leased := by
  cases h with
  | waiting k caller ha' hk hat =>
    cases ha'.symm.trans ha
    unfold System.AtCaller at hat
    split at hat
    · rename_i hposition
      exact Or.inr ⟨caller, hk, by rw [hposition]; rfl⟩
    · rename_i hposition
      exact Or.inr ⟨caller, hk, by rw [hposition]; rfl⟩
    · rename_i hposition
      exact Or.inr ⟨caller, hk, by rw [hposition]; rfl⟩
    · obtain ⟨-, rollback, tail, hslot, -⟩ := hat
      exact Or.inl (by rw [hslot]; rfl)
    · exact hat.elim
  | idle ha' => cases ha'.symm.trans ha
  | own _ _ ha' => cases ha'.symm.trans ha
  | answer _ _ ha' => cases ha'.symm.trans ha
  | took _ _ _ _ _ ha' => cases ha'.symm.trans ha
  | rolling _ _ _ _ ha' => cases ha'.symm.trans ha
  | clear _ _ _ ha' => cases ha'.symm.trans ha

theorem Stage.goes (h : Stage run beforeCommit s) (hfree : ∀ (i : ℕ) (caller : Caller σ ρ),
    s.callers[i]? = some caller → caller.position.leased = false) :
    s.act.isSome ∨ (s.exec run true).isSome ∨ s.actor = .idle ∧ s.queue = [] := by
  have hreturns := fun i (ha : s.actor = .waiting i) => h.returns ha
  cases h with
  | idle ha =>
    cases hqueue : s.queue with
    | nil => exact Or.inr (Or.inr ⟨ha, rfl⟩)
    | cons i queue =>
      left
      rw [System.act, ha, hqueue]
      dsimp only
      split <;> rfl
  | own i caller ha hi =>
    left
    rw [System.act, ha]
    dsimp only
    rw [hi]
    rfl
  | answer i caller ha hi =>
    left
    rw [System.act, ha]
    dsimp only
    rw [hi]
    dsimp only [Option.bind_eq_bind, Option.bind_some]
    split <;> rfl
  | waiting i caller ha hi =>
    left
    rcases hreturns i ha with hslot | ⟨other, hi', hl⟩
    · obtain ⟨rollback, hslot⟩ := Option.isSome_iff_exists.mp hslot
      rw [System.act, ha]
      dsimp only
      rw [hslot]
      rfl
    · rw [hfree i other hi'] at hl
      cases hl
  | took i caller received rollback tail ha =>
    left
    rw [System.act, ha]
    cases rollback <;> rfl
  | rolling i caller received tail ha hi hposition hslot hactive hpiped =>
    right
    left
    obtain ⟨strays, hpending, -⟩ := hpiped
    unfold System.exec
    split
    · rename_i hnil
      rw [hnil] at hpending
      exact absurd hpending.symm (by simp)
    · rfl
  | clear i caller received ha =>
    left
    rw [System.act, ha]
    rfl

/-- Callers are dropped wherever they wait, and the writer goes on. -/
theorem writer_survives (h : (machine run beforeCommit d₀).Reachable s) :
    Survives run beforeCommit d₀ s := by
  have hsafe := safe_of_reachable h
  refine ⟨fun i j a b hi hj ha hb => ?_, ⟨hsafe.ordered.order, hsafe.ordered.nodup⟩,
    fun i caller hi hl => ?_, hsafe.ordered.skipped, hsafe.ordered.waits,
    fun i caller hi hposition => ?_, hsafe.replays, fun i ha => hsafe.stage.returns ha,
    hsafe.stage.goes⟩
  · cases (hsafe.alone i a hi ha).symm.trans (hsafe.alone j b hj hb)
    rfl
  · exact hsafe.ordered.last i (by rw [hsafe.alone i caller hi hl]; rfl)
  · have hl : caller.position.leased := by rw [hposition]; rfl
    obtain ⟨-, hat⟩ := hsafe.stage.of_leased hsafe.alone hi hl
    rw [System.AtCaller, hposition] at hat
    exact hat.2.2

/-- A statement appends its number. -/
def append (q : ℕ) (d : List ℕ) : Option (List ℕ × Unit) := some (d ++ [q], ())

def appends (q : ℕ) : Operation ℕ Unit := .ask q fun _ => .done .ok

/-- Two transactions are begun. The first is dropped while SQLite has its statement. -/
def dropInBody : List (Event ℕ Unit) :=
  [transaction (.tokio 1) (appends 1), transaction (.tokio 2) (appends 2), .advance 0, .advance 1,
    .act, .act, .act, .advance 0, .advance 0, .exec true, .advance 0, .advance 0, .drop 0,
    .advance 0, .act, .act, .exec true, .exec true, .act]

/-- The second runs to its end. -/
def commitSecond : List (Event ℕ Unit) :=
  [.act, .act, .act, .advance 1, .advance 1, .exec true, .advance 1, .advance 1, .exec true,
    .advance 1, .advance 1, .advance 1, .exec true, .advance 1, .advance 1, .exec true, .advance 1,
    .advance 1, .advance 1, .act, .act, .act]

theorem writer_survives_drop : ∃ s, (machine append (some (appends 100)) []).Reachable s ∧
    Survives append (some (appends 100)) [] s ∧ s.connection.contents = [2, 100] ∧
      s.actor = .idle := by
  have hrun : (Machine.replay (machine append (some (appends 100)) []) (fun _ _ => true)
      (dropInBody ++ commitSecond) (machine append (some (appends 100)) []).start).any
      (fun s => s.connection.contents = [2, 100] && s.actor = .idle) = true := by
    decide
  obtain ⟨s, hs, hend⟩ := (Option.any_eq_true _ _).mp hrun
  simp only [Bool.and_eq_true, decide_eq_true_eq] at hend
  have hreach := (Machine.reaches_of_replay hs).reachable
  exact ⟨s, hreach, writer_survives hreach, hend⟩

end Kahawai.Sqlite
