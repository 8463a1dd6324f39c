import Kahawai.Sqlite.Queue

/-!
# Which requests are refused as nested

The actor marks the task of a request as the owner of the writer before it hands the
lease over, and a lease that is dropped takes the mark away. The parts of a lease that no
caller receives leave it to the actor, which takes it away after it has the connection
back (`Unreceived`).

* `active_iff`: whose mark it is.
* `nested_iff_holds`: a request is refused exactly if its task holds a lease, unless an
  unreceived hand-over of its task is under way.
* `refused_after_cancelled`: a task cancels one write and starts another.
-/

namespace Kahawai.Sqlite

open Kahawai.Lib

variable {D σ ρ : Type} {run : σ → D → Option (D × ρ)} {beforeCommit : Option (Operation σ ρ)}
  {s s' : System D σ ρ} {task : TaskOwner} {d₀ : D}

/-- The task holds a lease, or runs in the body of a write or a transaction. -/
def Holds (s : System D σ ρ) (task : TaskOwner) : Prop :=
  ∃ caller ∈ s.callers, caller.task = task ∧
    ((∃ lease, caller.position = .held lease) ∨ caller.inBody = true)

/-- The request whose task the actor has marked as the owner. -/
def Actor.marked : Actor → Option ℕ
  | .idle | .own _ => none
  | .answer i | .waiting i | .took i _ | .rolling i | .clear i => some i

/-- The lease of the request was not received. -/
def Position.unreceived : Position σ ρ → Bool
  | .queued | .answered | .gone false => true
  | _ => false

/-- The actor has marked the task for a lease that its caller has not received: it has not
    yet got there, or the caller is gone and the connection is on its way back. -/
def Unreceived (s : System D σ ρ) (task : TaskOwner) : Prop :=
  ∃ i caller, s.actor.marked = some i ∧ s.callers[i]? = some caller ∧ caller.task = task ∧
    caller.position.unreceived

theorem Actor.serving_of_marked {actor : Actor} {i : ℕ} (h : actor.marked = some i) :
    actor.serving = some i := by
  cases actor <;> cases h <;> rfl

/-- A body runs with a lease. -/
theorem Caller.held_of_inBody {caller : Caller σ ρ} (h : caller.inBody = true) :
    ∃ lease, caller.position = .held lease := by
  rw [Caller.inBody, Bool.and_eq_true] at h
  obtain ⟨-, h⟩ := h
  split at h
  · rename_i hposition
    exact ⟨_, hposition⟩
  · rename_i hposition
    exact ⟨_, hposition⟩
  · cases h

theorem holds_iff : Holds s task ↔ ∃ (i : ℕ) (caller : Caller σ ρ) (lease : Lease σ ρ),
    s.callers[i]? = some caller ∧ caller.task = task ∧ caller.position = .held lease := by
  constructor
  · rintro ⟨caller, hmem, htask, hheld⟩
    obtain ⟨i, hi⟩ := List.mem_iff_getElem?.mp hmem
    obtain ⟨lease, hlease⟩ := hheld.elim id Caller.held_of_inBody
    exact ⟨i, caller, lease, hi, htask, hlease⟩
  · rintro ⟨i, caller, lease, hi, htask, hlease⟩
    exact ⟨caller, List.mem_of_getElem? hi, htask, Or.inl ⟨lease, hlease⟩⟩

/-- A lease that is held is that of the marked request. -/
theorem Holds.marked (hstage : Stage run beforeCommit s) (halone : Alone s) (h : Holds s task) :
    ∃ i caller lease, s.actor = .waiting i ∧ s.callers[i]? = some caller ∧ caller.task = task ∧
      caller.position = .held lease ∧ s.active = some caller.task := by
  obtain ⟨i, caller, lease, hi, htask, hlease⟩ := holds_iff.mp h
  have hleased : caller.position.leased := by rw [hlease]; rfl
  obtain ⟨hactor, hat⟩ := hstage.of_leased halone hi hleased
  rw [System.AtCaller, hlease] at hat
  exact ⟨i, caller, lease, hactor, hi, htask, hlease, hat.2.1⟩

theorem Holds.not_unreceived (hstage : Stage run beforeCommit s) (halone : Alone s)
    (h : Holds s task) : ¬ Unreceived s task := by
  rintro ⟨j, other, hmarked, hj, -, hunreceived⟩
  obtain ⟨i, caller, lease, hactor, hi, -, hlease, -⟩ := h.marked hstage halone
  rw [hactor] at hmarked
  cases hmarked
  obtain rfl := Option.some.inj (hi.symm.trans hj)
  rw [hlease] at hunreceived
  cases hunreceived

/-- The mark after a lease has come back. -/
theorem active_gone_iff {i : ℕ} {caller : Caller σ ρ} {received : Bool}
    (hmarked : s.actor.marked = some i) (hi : s.callers[i]? = some caller)
    (hposition : caller.position = .gone received)
    (hactive : s.active = if received then none else some caller.task) (hnot : ¬ Holds s task) :
    s.active = some task ↔ Holds s task ∨ Unreceived s task := by
  rw [hactive, or_iff_right hnot]
  constructor
  · intro h
    cases received with
    | true => cases h
    | false => exact ⟨i, caller, hmarked, hi, Option.some.inj h, by rw [hposition]; rfl⟩
  · rintro ⟨j, other, hj, hother, rfl, hunreceived⟩
    cases hmarked.symm.trans hj
    obtain rfl := Option.some.inj (hi.symm.trans hother)
    rw [hposition] at hunreceived
    cases received with
    | true => cases hunreceived
    | false => rfl

/-- The mark of a request that has no lease yet. -/
theorem active_marked_iff {i : ℕ} {caller : Caller σ ρ} (hmarked : s.actor.marked = some i)
    (hi : s.callers[i]? = some caller) (hunreceived : caller.position.unreceived)
    (hactive : s.active = some caller.task) (hnot : ¬ Holds s task) :
    s.active = some task ↔ Holds s task ∨ Unreceived s task := by
  rw [hactive, or_iff_right hnot]
  constructor
  · intro h
    exact ⟨i, caller, hmarked, hi, Option.some.inj h, hunreceived⟩
  · rintro ⟨j, other, hj, hother, rfl, -⟩
    cases hmarked.symm.trans hj
    obtain rfl := Option.some.inj (hi.symm.trans hother)
    rfl

/-- The mark is that of the task that holds the lease, or that has not received it. -/
theorem active_iff (hstage : Stage run beforeCommit s) (halone : Alone s) :
    s.active = some task ↔ Holds s task ∨ Unreceived s task := by
  have hfree : (∀ i, s.actor ≠ .waiting i) → ¬ Holds s task := by
    intro hactor h
    obtain ⟨i, -, -, hi, -⟩ := h.marked hstage halone
    exact hactor i hi
  have hunmarked : s.active = none → s.actor.marked = none → ¬ Holds s task →
      (s.active = some task ↔ Holds s task ∨ Unreceived s task) := by
    intro hactive hmarked hnot
    refine ⟨fun h => ?_, fun h => ?_⟩
    · cases hactive.symm.trans h
    · obtain ⟨i, caller, hi, -⟩ := h.resolve_left hnot
      cases hmarked.symm.trans hi
  cases hstage with
  | idle ha hslot hactive hclean =>
    exact hunmarked hactive (by rw [ha]; rfl) (hfree fun i heq => by cases ha.symm.trans heq)
  | own i caller ha hi hposition hslot hactive hclean =>
    exact hunmarked hactive (by rw [ha]; rfl) (hfree fun i heq => by cases ha.symm.trans heq)
  | answer i caller ha hi hposition hslot hactive hclean =>
    refine active_marked_iff (by rw [ha]; rfl) hi ?_ hactive
      (hfree fun i heq => by cases ha.symm.trans heq)
    rcases hposition with hposition | hposition <;> rw [hposition] <;> rfl
  | waiting i caller ha hi hat =>
    have hmarked : s.actor.marked = some i := by rw [ha]; rfl
    have hother : (∀ lease, caller.position ≠ .held lease) → ¬ Holds s task := by
      intro hnot h
      obtain ⟨j, other, lease, hj, hj', -, hlease, -⟩ := h.marked (.waiting i caller ha hi hat) halone
      cases ha.symm.trans hj
      obtain rfl := Option.some.inj (hi.symm.trans hj')
      exact hnot lease hlease
    have hat' := hat
    unfold System.AtCaller at hat
    split at hat
    · rename_i hposition
      refine active_marked_iff hmarked hi (by rw [hposition]; rfl) hat.2.1 (hother fun lease heq => ?_)
      cases hposition.symm.trans heq
    · -- the holder has the mark
      rename_i lease hposition
      constructor
      · intro h
        have htask := Option.some.inj (hat.2.1.symm.trans h)
        exact Or.inl (holds_iff.mpr ⟨i, caller, lease, hi, htask, hposition⟩)
      · rintro (h | ⟨j, other, hj, hj', -, hunreceived⟩)
        · obtain ⟨j, other, -, -, -, rfl, -, hmark⟩ :=
            h.marked (.waiting i caller ha hi hat') halone
          exact hmark
        · cases hmarked.symm.trans hj
          obtain rfl := Option.some.inj (hi.symm.trans hj')
          rw [hposition] at hunreceived
          cases hunreceived
    · rename_i rollback hposition
      have hnot := hother fun lease heq => by cases hposition.symm.trans heq
      refine ⟨fun h => ?_, fun h => ?_⟩
      · cases hat.2.1.symm.trans h
      · obtain ⟨j, other, hj, hj', -, hunreceived⟩ := h.resolve_left hnot
        cases hmarked.symm.trans hj
        obtain rfl := Option.some.inj (hi.symm.trans hj')
        rw [hposition] at hunreceived
        cases hunreceived
    · rename_i received hposition
      exact active_gone_iff hmarked hi hposition hat.1
        (hother fun lease heq => by cases hposition.symm.trans heq)
    · exact hat.elim
  | took i caller received rollback tail ha hi hposition hslot hactive hpiped htail =>
    exact active_gone_iff (by rw [ha]; rfl) hi hposition hactive
      (hfree fun i heq => by cases ha.symm.trans heq)
  | rolling i caller received tail ha hi hposition hslot hactive hpiped htail =>
    exact active_gone_iff (by rw [ha]; rfl) hi hposition hactive
      (hfree fun i heq => by cases ha.symm.trans heq)
  | clear i caller received ha hi hposition hslot hactive hclean =>
    exact active_gone_iff (by rw [ha]; rfl) hi hposition hactive
      (hfree fun i heq => by cases ha.symm.trans heq)

/-- A request is refused exactly if its task holds a lease or is in a body, exactly when
    the actor has not marked its task for a lease that was not received. -/
theorem nested_iff_holds (h : (machine run beforeCommit d₀).Reachable s) {ownContext inScope : Bool}
    {work : Work σ ρ} (hs : s.request task ownContext inScope work = some s') :
    ((∃ caller, s'.callers[s.callers.length]? = some caller ∧ caller.position = .refused) ↔
      Holds s task) ↔ ¬ Unreceived s task := by
  have hsafe := safe_of_reachable h
  have hactive : s.active = some task ↔ Holds s task ∨ Unreceived s task :=
    active_iff hsafe.stage hsafe.alone
  have hexclusive : Holds s task → ¬ Unreceived s task :=
    Holds.not_unreceived hsafe.stage hsafe.alone
  rw [System.request] at hs
  split at hs
  · cases hs
  · rename_i hcontext
    cases hs
    have hown : ownContext = true → Holds s task := by
      rintro rfl
      obtain ⟨caller, hmem, hbody⟩ : ∃ caller ∈ s.callers,
          (decide (caller.task = task) && caller.inBody) = true := by
        simpa using hcontext
      rw [Bool.and_eq_true, decide_eq_true_eq] at hbody
      exact ⟨caller, hmem, hbody.1, Or.inr hbody.2⟩
    have hrefused : (∃ caller, (s.callers ++ [(⟨task, inScope, work,
        if ownContext || decide (s.active = some task) then .refused else .sending⟩ :
          Caller σ ρ)])[s.callers.length]? = some caller ∧ caller.position = .refused) ↔
        Holds s task ∨ Unreceived s task := by
      rw [List.getElem?_concat_length]
      constructor
      · rintro ⟨caller, hcaller, hposition⟩
        cases hcaller
        dsimp only at hposition
        split at hposition
        · rename_i hcond
          rw [Bool.or_eq_true, decide_eq_true_eq] at hcond
          exact hcond.elim (fun hc => Or.inl (hown hc)) hactive.mp
        · cases hposition
      · intro hor
        refine ⟨_, rfl, if_pos ?_⟩
        rw [Bool.or_eq_true, decide_eq_true_eq]
        exact Or.inr (hactive.mpr hor)
    rw [hrefused]
    constructor
    · intro hiff hunreceived
      exact hexclusive (hiff.mp (Or.inr hunreceived)) hunreceived
    · intro hnot
      exact or_iff_left hnot

/-- A task holds the lease of a write and starts another, which is refused. -/
theorem nested_iff_holds_body : ∃ s s', (machine append none []).Reachable s ∧
    s.request (.tokio 1) true true (.plain (appends 2)) = some s' ∧
    ((∃ caller, s'.callers[s.callers.length]? = some caller ∧ caller.position = .refused) ↔
      Holds s (.tokio 1)) ∧ Holds s (.tokio 1) := by
  have hrun : ((machine append none []).replay (fun _ _ => true)
      [write (.tokio 1) (appends 1), .advance 0, .act, .act, .act, .advance 0]
      (machine append none []).start).any (fun s =>
        s.actor = .waiting 0 && s.callers.any (fun c => c.task = .tokio 1 && c.inBody) &&
          s.callers.all (fun c => !c.position.unreceived)) = true := by
    decide
  obtain ⟨s, hs, hend⟩ := (Option.any_eq_true _ _).mp hrun
  simp only [Bool.and_eq_true, decide_eq_true_eq] at hend
  obtain ⟨⟨hactor, hbody⟩, hreceived⟩ := hend
  have hreach := (Machine.reaches_of_replay hs).reachable
  have hnot : ¬ Unreceived s (.tokio 1) := by
    rintro ⟨i, caller, -, hi, -, hunreceived⟩
    have hcaller := List.all_eq_true.mp hreceived caller (List.mem_of_getElem? hi)
    rw [hunreceived] at hcaller
    cases hcaller
  have hholds : Holds s (.tokio 1) := by
    obtain ⟨caller, hmem, hcaller⟩ := List.any_eq_true.mp hbody
    rw [Bool.and_eq_true, decide_eq_true_eq] at hcaller
    exact ⟨caller, hmem, hcaller.1, Or.inr hcaller.2⟩
  have hrequest : s.request (.tokio 1) true true (.plain (appends 2)) = some { s with
      callers := s.callers ++ [⟨.tokio 1, true, .plain (appends 2), .refused⟩] } := by
    rw [System.request, hbody]
    rfl
  exact ⟨s, _, hreach, hrequest, (nested_iff_holds hreach hrequest).mpr hnot, hholds⟩

/-- A task cancels a write after the actor has answered it and before it has received the
    lease, and starts an independent one, which is refused. -/
theorem refused_after_cancelled : ∃ s s', (machine append none []).Reachable s ∧
    s.request (.tokio 1) false true (.plain (appends 2)) = some s' ∧
    (∃ caller, s'.callers[s.callers.length]? = some caller ∧ caller.position = .refused) ∧
      ¬ Holds s (.tokio 1) := by
  have hrun : ((machine append none []).replay (fun _ _ => true)
      [write (.tokio 1) (appends 1), .advance 0, .act, .act, .act, .drop 0]
      (machine append none []).start).any (fun s => s.active = some (.tokio 1) &&
        s.callers.all (fun c => match c.position with | .gone _ => true | _ => false)) = true := by
    decide
  obtain ⟨s, hs, hend⟩ := (Option.any_eq_true _ _).mp hrun
  simp only [Bool.and_eq_true, decide_eq_true_eq] at hend
  obtain ⟨hactive, hgone⟩ := hend
  have hrequest : s.request (.tokio 1) false true (.plain (appends 2)) = some { s with
      callers := s.callers ++ [⟨.tokio 1, true, .plain (appends 2), .refused⟩] } := by
    rw [System.request, hactive]
    rfl
  refine ⟨s, _, (Machine.reaches_of_replay hs).reachable, hrequest,
    ⟨_, List.getElem?_concat_length, rfl⟩, fun h => ?_⟩
  obtain ⟨i, caller, lease, hi, -, hlease⟩ := holds_iff.mp h
  have hcaller := List.all_eq_true.mp hgone caller (List.mem_of_getElem? hi)
  rw [hlease] at hcaller
  cases hcaller

end Kahawai.Sqlite
