import Kahawai.Mediahost.Scheduler.Effect

/-!
# Work conservation and strict priority

Results:
* `admitNext_dispatchLoop`: the loop of `dispatch` reaches its `break` within
  as many turns as there are pending jobs.
* `quiet_run`: after every operation no pending job is admissible.
* `effective_of_mem_turns`: when `dispatch` admits a job, every pending job has
  the priority its base priority and the unexpired hints give it.
* `work_conserving`: these together, and a job is admitted only while no
  pending job of strictly higher effective priority is admissible.
-/

namespace Kahawai.Mediahost.Scheduler

open Kahawai.Lib

/-! ## The loop ends -/

theorem admitNext_dispatchLoop (turns : ℕ) (s : State) (h : s.pending.length ≤ turns) :
    admitNext (dispatchLoop turns s) = none := by
  induction turns generalizing s with
  | zero =>
    refine admitNext_eq_none.mpr fun job hjob => ?_
    have hempty : s.pending = [] := List.eq_nil_of_length_eq_zero (Nat.le_zero.mp h)
    rw [dispatchLoop, hempty] at hjob
    cases hjob
  | succ turns ih =>
    rw [dispatchLoop]
    cases hnext : admitNext s with
    | none => exact hnext
    | some r =>
      obtain ⟨job, s'⟩ := r
      have hlen := (admitNext_spec hnext).length
      exact ih s' (by omega)

/-! ## Work conservation -/

/-- No pending job is admissible, and interactive ids were issued before. -/
structure Quiet (s : State) : Prop where
  unavailable : ∀ job ∈ s.pending, s.available job.resources = false
  issued : ∀ i ∈ s.interactive, i.id < s.nextId

theorem unavailable_settle (c : Clock) (s : State) :
    ∀ job ∈ (settle c s).pending, (settle c s).available job.resources = false :=
  admitNext_eq_none.mp (admitNext_dispatchLoop _ _ le_rfl)

theorem interactive_settle (c : Clock) (s : State) : (settle c s).interactive = s.interactive :=
  settle_induct (P := fun s' => s'.interactive = s.interactive)
    (fun _ _ h hsame => hsame.interactive.trans h) (fun _ _ _ h hadm => hadm.interactive.trans h)
    c rfl

/-- More interactive work makes nothing admissible. -/
theorem available_enterInteractive {s : State} {resources bundle : Resources}
    (hissued : ∀ i ∈ s.interactive, i.id < s.nextId) (h : s.available bundle = false) :
    (enterInteractive resources s).available bundle = false := by
  have hsame : SameJobs s { s with active := (enterInteractive resources s).active } :=
    ⟨rfl, stamp_enterInteractive resources s, rfl, rfl, rfl, rfl, rfl⟩
  rw [← hsame.available_eq, Bool.eq_false_iff, ne_eq, available_iff] at h
  rw [Bool.eq_false_iff, ne_eq, available_iff]
  rintro ⟨hfree, hrest⟩
  refine h ⟨?_, hrest⟩
  simp only [State.interrupted, List.any_eq_false] at hfree ⊢
  intro i hi
  refine hfree i (Table.mem_put.mpr (Or.inr ⟨hi, ?_⟩))
  exact (hissued i hi).ne

theorem issued_enter (c : Clock) (op : Op) {s : State}
    (h : ∀ i ∈ s.interactive, i.id < s.nextId) :
    ∀ i ∈ (op.enter c s).interactive, i.id < (op.enter c s).nextId := by
  have hmono := nextId_enter c op s
  intro i hi
  cases op with
  | acquire priority resources owner demandSources =>
    refine (h i ?_).trans_le hmono
    obtain ⟨served, hs⟩ := joinServiceLevel_eq priority owner
      { s with nextId := s.nextId + 1, nextSequence := s.nextSequence + 1 }
    rw [Op.enter, enqueue, hs] at hi
    exact hi
  | yieldJob id =>
    refine (h i ?_).trans_le hmono
    simp only [Op.enter] at hi
    split at hi <;> exact hi
  | finishJob id =>
    refine (h i ?_).trans_le hmono
    simp only [Op.enter, remove] at hi
    split at hi <;> exact hi
  | cancelOwner owner => exact h i hi
  | hintSegment owner source ttl => exact h i hi
  | enterInteractive resources =>
    rcases Table.mem_put.mp hi with rfl | ⟨hi, -⟩
    · exact Nat.lt_succ_self _
    · exact (h i hi).trans_le hmono
  | dropInteractive id => exact h i (Table.mem_erase.mp hi).1

theorem quiet_step {s : State} (h : Quiet s) (call : Clock × Op) : Quiet (step s call) := by
  obtain ⟨c, op⟩ := call
  have hissued := issued_enter c op h.issued
  by_cases hsettles : op.settles s = true
  · have hstep : step s (c, op) = settle c (op.enter c s) := if_pos hsettles
    rw [hstep]
    refine ⟨unavailable_settle c _, ?_⟩
    rw [interactive_settle, nextId_settle]
    exact hissued
  · have hstep : step s (c, op) = op.enter c s := if_neg hsettles
    rw [hstep]
    refine ⟨?_, hissued⟩
    cases op with
    | yieldJob id =>
      have hnone : s.active.get? id = none := by simpa [Op.settles] using hsettles
      rw [Op.enter, hnone]
      exact h.unavailable
    | enterInteractive resources =>
      exact fun job hjob => available_enterInteractive h.issued (h.unavailable job hjob)
    | _ => exact absurd rfl hsettles

theorem quiet_new (cpuSlots : ℕ) (ioCapacity : String → Option ℕ) :
    Quiet (State.new cpuSlots ioCapacity) :=
  ⟨fun _ hjob => (List.not_mem_nil hjob).elim, fun i hi => (Table.not_mem_empty i hi).elim⟩

theorem quiet_run {s : State} (h : Quiet s) (calls : List (Clock × Op)) : Quiet (run calls s) := by
  induction calls generalizing s with
  | nil => exact h
  | cons call calls ih => exact ih (quiet_step h call)

/-! ## Effective priority -/

/-- Demand exactly while an unexpired hint names one of the job's sources, and
    the base priority otherwise. -/
def effectivePriority (hints : Table Hint.key) (now : ℕ) (job : Job) : Priority :=
  if ∃ hint ∈ hints.rows, now < hint.expires ∧ hint.source ∈ job.demandSources then
    Priority.demand
  else job.basePriority

/-- The hints of `s` are those of `hints` that count at the instant `now`, and
    every pending job has its effective priority. -/
structure Refreshed (hints : Table Hint.key) (now : ℕ) (s : State) : Prop where
  priority : ∀ job ∈ s.pending, job.priority = effectivePriority hints now job

theorem effectivePriority_refreshJob (hints left : Table Hint.key) (now : ℕ) (job : Job) :
    effectivePriority hints now (refreshJob left job) = effectivePriority hints now job := rfl

theorem refreshed_refresh {hints : Table Hint.key} {earlier now : ℕ} (h : earlier ≤ now)
    {s : State} (hs : s.hints = hints.filter fun hint => hint.expires > earlier) :
    Refreshed hints now (refreshDemandPriorities now s) := by
  refine ⟨fun job hjob => ?_⟩
  obtain ⟨job₀, -, rfl⟩ := List.mem_map.mp hjob
  rw [effectivePriority_refreshJob]
  have hdemanded : demanded (s.hints.filter fun hint => hint.expires > now) job₀.demandSources =
      true ↔ ∃ hint ∈ hints.rows, now < hint.expires ∧ hint.source ∈ job₀.demandSources := by
    simp only [demanded, List.any_eq_true, hs, Table.rows_filter, List.mem_filter,
      decide_eq_true_eq]
    constructor
    · rintro ⟨hint, ⟨⟨hmem, -⟩, hlate⟩, hsource⟩
      exact ⟨hint, hmem, hlate, hsource⟩
    · rintro ⟨hint, hmem, hlate, hsource⟩
      exact ⟨hint, ⟨⟨hmem, h.trans_lt hlate⟩, hlate⟩, hsource⟩
  simp only [refreshJob, effectivePriority, hdemanded]

theorem Admits.refreshed {hints : Table Hint.key} {now : ℕ} {s s' : State} {job : Job}
    (h : Admits s job s') (hs : Refreshed hints now s) : Refreshed hints now s' :=
  ⟨fun j hj => hs.priority j (h.pending.subset (List.mem_cons_of_mem _ hj))⟩

/-- The job admitted has the smallest priority among the admissible ones. -/
theorem Admits.le_priority {s s' : State} {job : Job} (h : Admits s job s') {other : Job}
    (hother : other ∈ s.pending) (hav : s.available other.resources = true) :
    job.priority ≤ other.priority := by
  obtain ⟨index, rfl, hfirst⟩ := h.first
  obtain ⟨i, rfl⟩ := List.mem_iff_get.mp hother
  have hle := hfirst i hav
  simp only [fairKey, Prod.Lex.toLex_le_toLex] at hle
  rcases hle with hlt | ⟨heq, -⟩
  · exact hlt.le
  · exact heq.le

/-! ## The admissions of an operation -/

/-- The states in which the turns of the loop admit, with the jobs admitted. -/
def turnsFrom : (turns : ℕ) → State → List (State × Job)
  | 0, _ => []
  | turns + 1, s =>
    match admitNext s with
    | none => []
    | some (job, s') => (s, job) :: turnsFrom turns s'

/-- The state in which the loop of `dispatch` starts at the end of an operation. -/
def loopStart (s : State) (call : Clock × Op) : State :=
  refreshDemandPriorities call.1.dispatch
    (requestPreemption call.1.preempt (call.2.enter call.1 s))

/-- The admissions an operation makes. -/
def admissions (s : State) (call : Clock × Op) : List (State × Job) :=
  if call.2.settles s then turnsFrom (loopStart s call).pending.length (loopStart s call) else []

/-- What holds when the loop starts and is kept by every turn holds whenever a
    job is admitted. -/
theorem turnsFrom_induct {P : State → Prop}
    (hturn : ∀ s job s', P s → Admits s job s' → P s') {t : State} {job : Job} :
    ∀ (turns : ℕ) (s : State), P s → (t, job) ∈ turnsFrom turns s →
      P t ∧ ∃ t', Admits t job t' := by
  intro turns
  induction turns with
  | zero => intro s _ ht; cases ht
  | succ turns ih =>
    intro s hs ht
    rw [turnsFrom] at ht
    cases hnext : admitNext s with
    | none => rw [hnext] at ht; cases ht
    | some r =>
      obtain ⟨job', s'⟩ := r
      have hadm := admitNext_spec hnext
      rw [hnext] at ht
      rcases List.mem_cons.mp ht with heq | ht
      · obtain ⟨rfl, rfl⟩ := Prod.mk.inj heq
        exact ⟨hs, s', hadm⟩
      · exact ih s' (hturn _ _ _ hs hadm) ht

theorem effective_of_mem_turns {s t : State} {call : Clock × Op} {job : Job}
    (h : (t, job) ∈ admissions s call) :
    Refreshed (call.2.enter call.1 s).hints call.1.dispatch t ∧ ∃ t', Admits t job t' := by
  unfold admissions at h
  split at h
  · exact turnsFrom_induct (fun _ _ _ hr hadm => hadm.refreshed hr) _ _
      (refreshed_refresh call.1.preempt_le_dispatch rfl) h
  · cases h

/-- After every operation no pending job is admissible; whenever an operation
    admits a job, every pending job of strictly higher effective priority is
    inadmissible at that instant; and the dispatch loop reaches its `break` from
    every state. -/
theorem work_conserving (cpuSlots : ℕ) (ioCapacity : String → Option ℕ)
    (calls : List (Clock × Op)) :
    (∀ job ∈ (run calls (State.new cpuSlots ioCapacity)).pending,
      (run calls (State.new cpuSlots ioCapacity)).available job.resources = false) ∧
    (∀ call : Clock × Op, ∀ t job,
      (t, job) ∈ admissions (run calls (State.new cpuSlots ioCapacity)) call →
      let hints := (call.2.enter call.1 (run calls (State.new cpuSlots ioCapacity))).hints
      ∀ other ∈ t.pending, effectivePriority hints call.1.dispatch other <
          effectivePriority hints call.1.dispatch job →
        t.available other.resources = false) ∧
    ∀ s : State, ∃ turns ≤ s.pending.length, admitNext (dispatchLoop turns s) = none := by
  refine ⟨(quiet_run (quiet_new cpuSlots ioCapacity) calls).unavailable, ?_,
    fun s => ⟨_, le_rfl, admitNext_dispatchLoop _ s le_rfl⟩⟩
  intro call t job ht hints other hother hlt
  obtain ⟨hfresh, t', hadm⟩ := effective_of_mem_turns ht
  rw [← hfresh.priority other hother, ← hfresh.priority job hadm.mem] at hlt
  by_contra hav
  exact absurd (hadm.le_priority hother (by simpa using hav)) (not_le.mpr hlt)

end Kahawai.Mediahost.Scheduler
