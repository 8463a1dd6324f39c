import Kahawai.Mediahost.Scheduler.State

/-!
# What the scheduler's parts do

One lemma for each part of an operation that says all it does, so that the
invariants of the following modules never unfold it: refreshing priorities and
asking for preemption change only priorities and flags (`stamp_refresh`,
`stamp_requestPreemption`), a turn of the dispatch loop moves one available
job (`admitNext_spec`), and a property kept by every turn is kept by `dispatch`
(`dispatchLoop_induct`).
-/

namespace Kahawai.Mediahost.Scheduler

open Kahawai.Lib

/-! ## Removal from a vector -/

theorem swapRemove_perm {α : Type*} (l : List α) {i : ℕ} (h : i < l.length) :
    (l[i] :: swapRemove l i).Perm l := by
  have hne : l ≠ [] := by rintro rfl; simp at h
  obtain ⟨last, hlast⟩ : ∃ last, l.getLast hne = last := ⟨_, rfl⟩
  have hset : l.set i last ≠ [] := by simpa using hne
  have hsame : (l.set i last).getLast hset = last := by
    rw [List.getLast_eq_getElem, List.getElem_set]
    split_ifs
    · rfl
    · simp [← hlast, List.getLast_eq_getElem]
  have hswap : swapRemove l i ++ [last] = l.set i last := by
    simp only [swapRemove, List.getLast?_eq_some_getLast hne, hlast]
    conv_rhs => rw [← List.dropLast_append_getLast hset, hsame]
  have hperm : (last :: swapRemove l i).Perm (last :: l.eraseIdx i) := by
    refine (List.perm_append_singleton _ _).symm.trans ?_
    rw [hswap]
    exact List.set_perm_cons_eraseIdx h _
  exact ((List.Perm.cons_inv hperm).cons _).trans (List.getElem_cons_eraseIdx_perm h)

/-! ## Jobs up to priority and flags -/

/-- A job without its effective priority and its flags. -/
def Job.stamp (job : Job) : Job :=
  { job with priority := job.basePriority, control := Control.default }

@[simp] theorem stamp_refreshJob (hints : Table Hint.key) (job : Job) :
    (refreshJob hints job).stamp = job.stamp := rfl

@[simp] theorem stamp_setPause (value : Bool) (job : Job) :
    (job.setPause value).stamp = job.stamp := rfl

@[simp] theorem stamp_grant (job : Job) : job.grant.stamp = job.stamp := rfl

@[simp] theorem stamp_cancel (job : Job) : job.cancel.stamp = job.stamp := rfl

@[simp] theorem stamp_hintJob (source : Source) (job : Job) :
    (hintJob source job).stamp = job.stamp := by
  unfold hintJob
  split <;> rfl

/-- Mapping a function that keeps stamps keeps the list of stamps. -/
theorem map_stamp_of {f : Job → Job} (hf : ∀ job, (f job).stamp = job.stamp) (jobs : List Job) :
    (jobs.map f).map Job.stamp = jobs.map Job.stamp := by
  rw [List.map_map]
  exact List.map_congr_left fun job _ => hf job

/-- Two lists of jobs with the same stamps agree on everything a stamp shows. -/
theorem map_eq_of_stamp {β : Type*} {g : Job → β} (hg : ∀ job, g job.stamp = g job)
    {a b : List Job} (h : a.map Job.stamp = b.map Job.stamp) : a.map g = b.map g := by
  have hmap : ∀ l : List Job, (l.map Job.stamp).map g = l.map g := fun l => by
    rw [List.map_map]
    exact List.map_congr_left fun job _ => hg job
  rw [← hmap a, h, hmap b]

/-- The two states hold the same jobs, in the same places, up to priorities and
    flags, and are otherwise equal in what admission reads. -/
structure SameJobs (s s' : State) : Prop where
  pending : s'.pending.map Job.stamp = s.pending.map Job.stamp
  active : s'.active.rows.map Job.stamp = s.active.rows.map Job.stamp
  nextId : s'.nextId = s.nextId
  cpuCapacity : s'.cpuCapacity = s.cpuCapacity
  ioCapacity : s'.ioCapacity = s.ioCapacity
  interactive : s'.interactive = s.interactive
  served : s'.served = s.served

theorem SameJobs.refl (s : State) : SameJobs s s := ⟨rfl, rfl, rfl, rfl, rfl, rfl, rfl⟩

theorem SameJobs.trans {s s' s'' : State} (h : SameJobs s s') (h' : SameJobs s' s'') :
    SameJobs s s'' :=
  ⟨h'.pending.trans h.pending, h'.active.trans h.active, h'.nextId.trans h.nextId,
    h'.cpuCapacity.trans h.cpuCapacity, h'.ioCapacity.trans h.ioCapacity,
    h'.interactive.trans h.interactive, h'.served.trans h.served⟩

theorem stamp_refresh (now : ℕ) (s : State) : SameJobs s (refreshDemandPriorities now s) where
  pending := map_stamp_of (stamp_refreshJob _) _
  active := map_stamp_of (stamp_refreshJob _) _
  nextId := rfl
  cpuCapacity := rfl
  ioCapacity := rfl
  interactive := rfl
  served := rfl

/-! ## Preemption requests -/

/-- What all the turns of the loops of `request_preemption` do to one job. -/
def pauseForAny (requests : List Request) (job : Job) : Job :=
  if requests.any fun r => r.blockedBy job then job.setPause true else job

theorem rows_foldl_pauseFor (requests : List Request) (active : Table Job.id) :
    (requests.foldl pauseFor active).rows = active.rows.map (pauseForAny requests) := by
  induction requests generalizing active with
  | nil => exact (List.map_id _).symm
  | cons r requests ih =>
    rw [List.foldl_cons, ih, pauseFor, Table.rows_mapRows, List.map_map]
    refine List.map_congr_left fun job _ => ?_
    have hkeep : ∀ r' : Request, r'.blockedBy (job.setPause true) = r'.blockedBy job :=
      fun _ => rfl
    by_cases hr : r.blockedBy job = true
    · simp only [Function.comp_apply, hr, if_true, pauseForAny, List.any_cons, Bool.true_or,
        hkeep]
      split <;> rfl
    · simp [pauseForAny, hr]

@[simp] theorem stamp_pauseForAny (requests : List Request) (job : Job) :
    (pauseForAny requests job).stamp = job.stamp := by
  unfold pauseForAny
  split <;> rfl

theorem stamp_requestPreemption (now : ℕ) (s : State) : SameJobs s (requestPreemption now s) where
  pending := (stamp_refresh now s).pending
  active := by
    refine Eq.trans ?_ (stamp_refresh now s).active
    simp only [requestPreemption, rows_foldl_pauseFor, map_stamp_of (stamp_pauseForAny _)]
    exact map_stamp_of (fun job => stamp_setPause _ job) _
  nextId := rfl
  cpuCapacity := rfl
  ioCapacity := rfl
  interactive := rfl
  served := rfl

/-! ## What admission reads -/

theorem SameJobs.usedCpu_eq {s s' : State} (h : SameJobs s s') : s'.usedCpu = s.usedCpu := by
  unfold State.usedCpu
  rw [map_eq_of_stamp (g := fun job => job.resources.cpu) (fun _ => rfl) h.active]

theorem SameJobs.usedIo_eq {s s' : State} (h : SameJobs s s') (domain : String) :
    s'.usedIo domain = s.usedIo domain := by
  have hcount : ∀ rows : List Job, (rows.countP fun job => domain ∈ job.resources.io) =
      (rows.map fun job => job.resources).countP fun r => domain ∈ r.io := fun rows => by
    rw [List.countP_map]
    rfl
  unfold State.usedIo
  rw [hcount, hcount, map_eq_of_stamp (g := fun job => job.resources) (fun _ => rfl) h.active]

theorem SameJobs.interrupted_eq {s s' : State} (h : SameJobs s s') (resources : Resources) :
    s'.interrupted resources = s.interrupted resources := by
  rw [State.interrupted, State.interrupted, h.interactive]

theorem available_iff (s : State) (resources : Resources) :
    s.available resources = true ↔ s.interrupted resources = false ∧
      s.usedCpu + resources.cpu ≤ s.cpuCapacity ∧
      (∀ domain ∈ resources.io, s.usedIo domain < s.ioLimit domain) ∧
      ∀ job ∈ s.active, Disjoint job.resources.exclusive resources.exclusive := by
  simp [State.available, Table.mem_def, and_assoc]

theorem SameJobs.available_eq {s s' : State} (h : SameJobs s s') (resources : Resources) :
    s'.available resources = s.available resources := by
  have hall : ∀ t : State, (∀ job ∈ t.active, Disjoint job.resources.exclusive resources.exclusive)
      ↔ ∀ r ∈ t.active.rows.map (fun job => job.resources),
        Disjoint r.exclusive resources.exclusive := fun t => by
    simp [Table.mem_def]
  rw [Bool.eq_iff_iff, available_iff, available_iff, hall, hall, h.interrupted_eq, h.usedCpu_eq,
    map_eq_of_stamp (g := fun job => job.resources) (fun _ => rfl) h.active, h.cpuCapacity]
  simp only [State.ioLimit, h.usedIo_eq, h.ioCapacity]

/-! ## The admission order -/

theorem fairOrder_perm (pending : List Job) (served : Lane → ℕ) :
    (fairOrder pending served).Perm (List.finRange pending.length) :=
  (List.perm_insertionSort _ _).trans (List.perm_insertionSort _ _)

theorem mem_fairOrder (pending : List Job) (served : Lane → ℕ) (index : Fin pending.length) :
    index ∈ fairOrder pending served :=
  (fairOrder_perm pending served).mem_iff.mpr (List.mem_finRange index)

theorem mem_sequenceOrder (pending : List Job) (index : Fin pending.length) :
    index ∈ sequenceOrder pending :=
  (List.perm_insertionSort _ _).mem_iff.mpr (List.mem_finRange index)

theorem fairOrder_sorted (pending : List Job) (served : Lane → ℕ) :
    (fairOrder pending served).Pairwise fun i j =>
      fairKey pending served (ranks pending served) i ≤
        fairKey pending served (ranks pending served) j :=
  haveI : Std.Total fun i j : Fin pending.length =>
      fairKey pending served (ranks pending served) i ≤
        fairKey pending served (ranks pending served) j := ⟨fun _ _ => le_total _ _⟩
  haveI : IsTrans (Fin pending.length) fun i j =>
      fairKey pending served (ranks pending served) i ≤
        fairKey pending served (ranks pending served) j := ⟨fun _ _ _ => le_trans⟩
  List.pairwise_insertionSort _ _

/-- In a sorted list, what a search finds first is least among what it could
    have found. -/
theorem le_of_find?_sorted {α κ : Type*} [LinearOrder κ] {f : α → κ} {p : α → Bool} {l : List α}
    (hl : l.Pairwise fun a b => f a ≤ f b) {a : α} (ha : l.find? p = some a) {b : α} (hb : b ∈ l)
    (hp : p b = true) : f a ≤ f b := by
  induction l with
  | nil => simp at ha
  | cons x l ih =>
    rw [List.pairwise_cons] at hl
    rw [List.find?_cons] at ha
    rcases hx : p x with _ | _
    · rw [hx] at ha
      rcases List.mem_cons.mp hb with rfl | hb
      · rw [hx] at hp
        cases hp
      · exact ih hl.2 ha hb
    · rw [hx] at ha
      obtain rfl : x = a := Option.some.inj ha
      rcases List.mem_cons.mp hb with rfl | hb
      · exact le_rfl
      · exact hl.1 b hb

/-! ## One turn of the dispatch loop -/

/-- All that a turn of the loop does: the available job that comes first in
    fair order leaves the queue and becomes active. -/
structure Admits (s : State) (job : Job) (s' : State) : Prop where
  available : s.available job.resources = true
  pending : (job :: s'.pending).Perm s.pending
  active : s'.active = s.active.put job.grant
  served : s'.served = Function.update s.served job.lane (s.served job.lane + 1)
  nextId : s'.nextId = s.nextId
  cpuCapacity : s'.cpuCapacity = s.cpuCapacity
  ioCapacity : s'.ioCapacity = s.ioCapacity
  interactive : s'.interactive = s.interactive
  hints : s'.hints = s.hints
  first : ∃ index, s.pending.get index = job ∧ ∀ other : Fin s.pending.length,
    s.available (s.pending.get other).resources = true →
      fairKey s.pending s.served (ranks s.pending s.served) index ≤
        fairKey s.pending s.served (ranks s.pending s.served) other

theorem admitNext_spec {s s' : State} {job : Job} (h : admitNext s = some (job, s')) :
    Admits s job s' := by
  obtain ⟨index, hsel, heq⟩ := Option.map_eq_some_iff.mp h
  obtain ⟨rfl, rfl⟩ := Prod.mk.inj heq
  exact {
    available := by simpa using List.find?_some hsel
    pending := swapRemove_perm s.pending index.isLt
    active := rfl
    served := rfl
    nextId := rfl
    cpuCapacity := rfl
    ioCapacity := rfl
    interactive := rfl
    hints := rfl
    first := ⟨index, rfl, fun other hother =>
      le_of_find?_sorted (fairOrder_sorted _ _) hsel (mem_fairOrder _ _ other) hother⟩ }

theorem admitNext_eq_none {s : State} :
    admitNext s = none ↔ ∀ job ∈ s.pending, s.available job.resources = false := by
  rw [admitNext, Option.map_eq_none_iff, selected, List.find?_eq_none]
  constructor
  · intro h job hjob
    obtain ⟨index, hindex⟩ := List.mem_iff_get.mp hjob
    rw [← hindex]
    simpa using h index (mem_fairOrder _ _ index)
  · intro h index _
    simpa using h _ (List.get_mem s.pending index)

theorem Admits.mem {s s' : State} {job : Job} (h : Admits s job s') : job ∈ s.pending :=
  h.pending.subset List.mem_cons_self

theorem Admits.length {s s' : State} {job : Job} (h : Admits s job s') :
    s'.pending.length + 1 = s.pending.length := by
  simpa using h.pending.length_eq

/-- What every turn of the loop keeps, `dispatch` keeps. -/
theorem dispatchLoop_induct {P : State → Prop}
    (hturn : ∀ s job s', P s → Admits s job s' → P s') :
    ∀ (turns : ℕ) (s : State), P s → P (dispatchLoop turns s) := by
  intro turns
  induction turns with
  | zero => intro s hs; exact hs
  | succ turns ih =>
    intro s hs
    rw [dispatchLoop]
    cases h : admitNext s with
    | none => exact hs
    | some r =>
      obtain ⟨job, s'⟩ := r
      exact ih s' (hturn s job s' hs (admitNext_spec h))

/-- What refreshing, asking for preemption and every turn of the loop keep,
    the end of an operation keeps. -/
theorem settle_induct {P : State → Prop} (hsame : ∀ s s', P s → SameJobs s s' → P s')
    (hturn : ∀ s job s', P s → Admits s job s' → P s') (c : Clock) {s : State} (hs : P s) :
    P (settle c s) := by
  have hpre := hsame _ _ hs (stamp_requestPreemption c.preempt s)
  exact dispatchLoop_induct hturn _ _ (hsame _ _ hpre (stamp_refresh c.dispatch _))

/-! ## Frames of the operations -/

theorem joinServiceLevel_eq (priority : Priority) (owner : Option String) (s : State) :
    ∃ served, joinServiceLevel priority owner s = { s with served := served } := by
  unfold joinServiceLevel
  split
  · exact ⟨_, rfl⟩
  · split
    · exact ⟨_, rfl⟩
    · exact ⟨_, rfl⟩

theorem sameJobs_addHint (now : ℕ) (owner : String) (source : Source) (ttl : ℕ) (s : State) :
    SameJobs s (addHint now owner source ttl s) where
  pending := map_stamp_of (stamp_hintJob source) _
  active := map_stamp_of (stamp_hintJob source) _
  nextId := rfl
  cpuCapacity := rfl
  ioCapacity := rfl
  interactive := rfl
  served := rfl

theorem stamp_enterInteractive (resources : Resources) (s : State) :
    (enterInteractive resources s).active.rows.map Job.stamp =
      s.active.rows.map Job.stamp :=
  map_stamp_of (fun job => by split <;> rfl) _

theorem nextId_settle (c : Clock) (s : State) : (settle c s).nextId = s.nextId :=
  settle_induct (P := fun s' => s'.nextId = s.nextId) (fun _ _ h hsame => hsame.nextId.trans h)
    (fun _ _ _ h hadm => hadm.nextId.trans h) c rfl

theorem nextId_step (s : State) (call : Clock × Op) :
    (step s call).nextId = (call.2.enter call.1 s).nextId := by
  unfold step
  dsimp only
  split
  · exact nextId_settle _ _
  · rfl

theorem nextId_enqueue (priority : Priority) (resources : Resources) (owner : Option String)
    (demandSources : Finset Source) (s : State) :
    (enqueue priority resources owner demandSources s).nextId = s.nextId + 1 := by
  obtain ⟨served, hs⟩ := joinServiceLevel_eq priority owner
    { s with nextId := s.nextId + 1, nextSequence := s.nextSequence + 1 }
  rw [enqueue, hs]

theorem nextId_remove (id : ℕ) (s : State) : (remove id s).nextId = s.nextId := by
  unfold remove
  dsimp only
  split <;> rfl

theorem nextId_enter (c : Clock) (op : Op) (s : State) : s.nextId ≤ (op.enter c s).nextId := by
  cases op with
  | acquire priority resources owner demandSources =>
    exact (Nat.le_succ _).trans (nextId_enqueue _ _ _ _ s).ge
  | yieldJob id =>
    simp only [Op.enter]
    split <;> exact le_rfl
  | finishJob id => exact (nextId_remove id s).ge
  | cancelOwner owner => exact le_rfl
  | hintSegment owner source ttl => exact le_rfl
  | enterInteractive resources => exact Nat.le_succ _
  | dropInteractive id => exact le_rfl

end Kahawai.Mediahost.Scheduler
