import Kahawai.Lib.Admission
import Kahawai.Mediahost.Scheduler.Effect

/-!
# The scheduler as admission control

A scheduler state shows an admission desk: the bundles of the pending jobs
wait, those of the active jobs run, and CPU, I/O domains and exclusive
resources are resources with the capacities of the state. Every operation is a
sequence of desk steps (`steps_step`), so the active jobs stay within capacity.
Which job ids are where is followed beside it (`count_ids_step`).

Results:
* `admission_safe`: after any operations, the active jobs use at most the CPU
  capacity, no I/O domain is held by more active jobs than its capacity, no two
  active jobs share an exclusive resource, and every unfinished job id is in
  exactly one of pending and active, exactly once, unless it was cancelled
  while it was pending, in which case it is in neither.
-/

namespace Kahawai.Mediahost.Scheduler

open Kahawai.Lib

/-! ## The desk -/

/-- The kinds of resource a bundle names. -/
inductive Resource
  | cpu
  | io (domain : String)
  | exclusive (name : String)

/-- How much of a resource a bundle asks for. -/
def Resources.amount (bundle : Resources) : Resource → ℕ
  | .cpu => bundle.cpu
  | .io domain => if domain ∈ bundle.io then 1 else 0
  | .exclusive name => if name ∈ bundle.exclusive then 1 else 0

/-- The capacity of a resource. -/
def State.limit (s : State) : Resource → ℕ
  | .cpu => s.cpuCapacity
  | .io domain => s.ioLimit domain
  | .exclusive _ => 1

/-- The bundles of a list of jobs. -/
def bundles (jobs : List Job) : Multiset Resources := ↑(jobs.map Job.resources)

/-- The desk a state shows. -/
def State.desk (s : State) : Desk Resources := ⟨bundles s.pending, bundles s.active.rows⟩

theorem bundles_perm {a b : List Job} (h : a.Perm b) : bundles a = bundles b :=
  Multiset.coe_eq_coe.mpr (h.map _)

@[simp] theorem bundles_cons (job : Job) (jobs : List Job) :
    bundles (job :: jobs) = job.resources ::ₘ bundles jobs := rfl

theorem bundles_append_singleton (jobs : List Job) (job : Job) :
    bundles (jobs ++ [job]) = job.resources ::ₘ bundles jobs :=
  bundles_perm (List.perm_append_singleton job jobs)

theorem bundles_sublist {a b : List Job} (h : a.Sublist b) : bundles a ≤ bundles b :=
  (h.map _).subperm

theorem bundles_eq_of_stamp {a b : List Job} (h : a.map Job.stamp = b.map Job.stamp) :
    bundles a = bundles b := by
  rw [bundles, bundles, map_eq_of_stamp (g := Job.resources) (fun _ => rfl) h]

theorem load_cpu (s : State) :
    load Resources.amount (bundles s.active.rows) .cpu = s.usedCpu := by
  simp only [load, bundles, Multiset.map_coe, List.map_map, Multiset.sum_coe, State.usedCpu]
  rfl

/-- The load of a resource that a bundle holds or does not hold is the number
    of jobs that hold it. -/
theorem load_eq_countP {r : Resource} {p : Job → Bool} {jobs : List Job}
    (h : ∀ job ∈ jobs, job.resources.amount r = if p job then 1 else 0) :
    load Resources.amount (bundles jobs) r = jobs.countP p := by
  induction jobs with
  | nil => rfl
  | cons job jobs ih =>
    rw [bundles_cons, load_cons, ih fun j hj => h j (List.mem_cons_of_mem _ hj),
      h job List.mem_cons_self, List.countP_cons]
    omega

theorem load_io (s : State) (domain : String) :
    load Resources.amount (bundles s.active.rows) (.io domain) = s.usedIo domain :=
  load_eq_countP fun job _ => by simp [Resources.amount]

theorem load_exclusive (s : State) (name : String) :
    load Resources.amount (bundles s.active.rows) (.exclusive name) =
      s.active.rows.countP fun job => name ∈ job.resources.exclusive :=
  load_eq_countP fun job _ => by simp [Resources.amount]

/-- A bundle that is available fits. -/
theorem fits_of_available {s : State} {bundle : Resources} (h : s.available bundle = true) :
    Fits Resources.amount s.limit s.desk.running bundle := by
  obtain ⟨-, hcpu, hio, hex⟩ := (available_iff s bundle).mp h
  intro r hr
  cases r with
  | cpu => exact (load_cpu s).symm ▸ hcpu
  | io domain =>
    have hmem : domain ∈ bundle.io := by simpa [Resources.amount] using hr
    simp only [State.desk, load_io, Resources.amount, hmem, if_true]
    exact hio domain hmem
  | exclusive name =>
    have hmem : name ∈ bundle.exclusive := by simpa [Resources.amount] using hr
    have hnone : (s.active.rows.countP fun job => name ∈ job.resources.exclusive) = 0 := by
      refine List.countP_eq_zero.mpr fun job hjob hname => ?_
      exact Finset.disjoint_left.mp (hex job hjob) (by simpa using hname) hmem
    simp only [State.desk, load_exclusive, hnone, Resources.amount, hmem, if_true, State.limit,
      Nat.zero_add, le_refl]

/-! ## Operations as desk steps -/

/-- `s` and `s'` have the same capacities and any number of desk steps lead
    from the one to the other. -/
structure Moves (s s' : State) : Prop where
  limit : s'.limit = s.limit
  steps : Desk.Steps Resources.amount s.limit s.desk s'.desk

theorem Moves.refl (s : State) : Moves s s := ⟨rfl, Relation.ReflTransGen.refl⟩

theorem Moves.trans {s s' s'' : State} (h : Moves s s') (h' : Moves s' s'') : Moves s s'' :=
  ⟨h'.limit.trans h.limit, h.steps.trans (h.limit ▸ h'.steps)⟩

theorem limit_eq {s s' : State} (hcpu : s'.cpuCapacity = s.cpuCapacity)
    (hio : s'.ioCapacity = s.ioCapacity) : s'.limit = s.limit := by
  funext r
  cases r <;> simp [State.limit, State.ioLimit, hcpu, hio]

/-- Operations that only drop jobs. -/
theorem moves_of_leave {s s' : State} (hlimit : s'.limit = s.limit)
    (hpending : bundles s'.pending ≤ bundles s.pending)
    (hactive : bundles s'.active.rows ≤ bundles s.active.rows) : Moves s s' :=
  ⟨hlimit, Relation.ReflTransGen.single (Desk.Step.leave hpending hactive)⟩

theorem SameJobs.moves {s s' : State} (h : SameJobs s s') : Moves s s' :=
  moves_of_leave (limit_eq h.cpuCapacity h.ioCapacity) (bundles_eq_of_stamp h.pending).le
    (bundles_eq_of_stamp h.active).le

theorem Admits.moves {s s' : State} {job : Job} (h : Admits s job s') : Moves s s' := by
  refine ⟨limit_eq h.cpuCapacity h.ioCapacity, ?_⟩
  -- a job that was active under the same id would be replaced: it leaves first
  have hleave : bundles (s.active.erase job.id).rows ≤ bundles s.active.rows :=
    bundles_sublist List.filter_sublist
  have hfit := (fits_of_available h.available).mono hleave
  have hrows : bundles s'.active.rows =
      job.resources ::ₘ bundles (s.active.erase job.id).rows := by
    rw [h.active, Table.rows_put]
    exact bundles_append_singleton _ _
  have hpending : bundles s.pending = job.resources ::ₘ bundles s'.pending :=
    (bundles_perm h.pending).symm
  have hdesk : s'.desk = ⟨bundles s'.pending,
      job.resources ::ₘ bundles (s.active.erase job.id).rows⟩ := by
    rw [State.desk, hrows]
  refine (Relation.ReflTransGen.single (Desk.Step.leave le_rfl hleave)).tail ?_
  rw [hpending, hdesk]
  exact Desk.Step.start _ _ _ hfit

theorem moves_settle (c : Clock) (s : State) : Moves s (settle c s) :=
  settle_induct (P := Moves s) (fun _ _ h hsame => h.trans hsame.moves)
    (fun _ _ _ h hadm => h.trans hadm.moves) c (Moves.refl s)

theorem moves_enqueue (priority : Priority) (resources : Resources) (owner : Option String)
    (demandSources : Finset Source) (s : State) :
    Moves s (enqueue priority resources owner demandSources s) := by
  obtain ⟨served, hs⟩ := joinServiceLevel_eq priority owner
    { s with nextId := s.nextId + 1, nextSequence := s.nextSequence + 1 }
  rw [enqueue, hs]
  refine ⟨rfl, Relation.ReflTransGen.single ?_⟩
  rw [State.desk, State.desk, bundles_append_singleton]
  exact Desk.Step.submit _ _ _

theorem moves_park {s : State} {job : Job} (h : job ∈ s.active) : Moves s (park job s) := by
  refine ⟨rfl, Relation.ReflTransGen.single ?_⟩
  have hrows : bundles s.active.rows = job.resources ::ₘ bundles (s.active.erase job.id).rows :=
    (bundles_perm (Table.perm_cons_erase h)).symm
  have hdesk : (park job s).desk = ⟨job.resources ::ₘ bundles s.pending,
      bundles (s.active.erase job.id).rows⟩ := by
    rw [State.desk, park, bundles_append_singleton]
  rw [State.desk, hrows, hdesk]
  exact Desk.Step.park _ _ _

theorem moves_remove (id : ℕ) (s : State) : Moves s (remove id s) := by
  have hactive : bundles (s.active.erase id).rows ≤ bundles s.active.rows :=
    bundles_sublist List.filter_sublist
  unfold remove
  dsimp only
  split
  · exact moves_of_leave rfl le_rfl hactive
  · rename_i index hindex
    have hlt := (List.findIdx?_eq_some_iff_getElem.mp hindex).1
    refine moves_of_leave rfl ?_ hactive
    rw [← bundles_perm (swapRemove_perm s.pending hlt), bundles_cons]
    exact Multiset.le_cons_self _ _

theorem moves_dropOwner (owner : String) (s : State) : Moves s (dropOwner owner s) := by
  refine moves_of_leave rfl (bundles_sublist List.filter_sublist) (bundles_eq_of_stamp ?_).le
  refine map_stamp_of (fun job => ?_) _
  split <;> rfl

theorem moves_enterInteractive (resources : Resources) (s : State) :
    Moves s (enterInteractive resources s) :=
  moves_of_leave rfl le_rfl (bundles_eq_of_stamp (stamp_enterInteractive resources s)).le

theorem moves_enter (c : Clock) (op : Op) (s : State) : Moves s (op.enter c s) := by
  cases op with
  | acquire priority resources owner demandSources => exact moves_enqueue _ _ _ _ s
  | yieldJob id =>
    simp only [Op.enter]
    split
    · exact Moves.refl s
    · rename_i job hjob
      exact moves_park (Table.get?_mem hjob)
  | finishJob id => exact moves_remove id s
  | cancelOwner owner => exact moves_dropOwner owner s
  | hintSegment owner source ttl => exact (sameJobs_addHint _ _ _ _ s).moves
  | enterInteractive resources => exact moves_enterInteractive resources s
  | dropInteractive id => exact moves_of_leave rfl le_rfl le_rfl

/-- Every operation is a sequence of desk steps. -/
theorem moves_step (s : State) (call : Clock × Op) : Moves s (step s call) := by
  unfold step
  dsimp only
  split
  · exact (moves_enter _ _ s).trans (moves_settle _ _)
  · exact moves_enter _ _ s

/-! ## Where the job ids are -/

/-- How often the id is in `pending` and in `active`. -/
def placed (s : State) (id : ℕ) : ℕ :=
  (s.pending.map Job.id).count id + (s.active.rows.map Job.id).count id

/-- No id is in two places. -/
def Separate (s : State) : Prop := ∀ id, placed s id ≤ 1

theorem SameJobs.placed_eq {s s' : State} (h : SameJobs s s') : placed s' = placed s := by
  funext id
  rw [placed, placed, map_eq_of_stamp (g := Job.id) (fun _ => rfl) h.pending,
    map_eq_of_stamp (g := Job.id) (fun _ => rfl) h.active]

theorem count_map_cons (id : ℕ) (job : Job) (jobs : List Job) :
    ((job :: jobs).map Job.id).count id =
      (jobs.map Job.id).count id + if job.id = id then 1 else 0 := by
  rw [List.map_cons, List.count_cons]
  simp

theorem count_perm {a b : List Job} (h : a.Perm b) (id : ℕ) :
    (a.map Job.id).count id = (b.map Job.id).count id :=
  (h.map _).count_eq id

theorem count_map_append (id : ℕ) (job : Job) (jobs : List Job) :
    ((jobs ++ [job]).map Job.id).count id =
      (jobs.map Job.id).count id + if job.id = id then 1 else 0 := by
  rw [count_perm (List.perm_append_singleton job jobs), count_map_cons]

theorem count_erase (active : Table Job.id) (id id' : ℕ) :
    ((active.erase id).rows.map Job.id).count id' =
      if id' = id then 0 else (active.rows.map Job.id).count id' := by
  have hrest : ((active.rows.filter fun job => job.id = id).map Job.id).count id' =
      if id' = id then (active.rows.map Job.id).count id' else 0 := by
    split_ifs with h
    · subst h
      simp only [List.count_eq_countP, List.countP_map, List.countP_filter]
      exact List.countP_congr fun job _ => by simp
    · refine List.count_eq_zero.mpr fun hmem => h ?_
      obtain ⟨job, hjob, rfl⟩ := List.mem_map.mp hmem
      simpa using (List.mem_filter.mp hjob).2
  have hsplit := count_perm (List.filter_append_perm (fun job => job.id = id) active.rows) id'
  rw [List.map_append, List.count_append, hrest] at hsplit
  have herase : (active.erase id).rows = active.rows.filter fun job => !decide (job.id = id) := by
    rw [Table.rows_erase]
    exact List.filter_congr fun job _ => by simp
  rw [herase]
  split_ifs at hsplit ⊢ <;> omega

theorem Admits.placed_eq {s s' : State} {job : Job} (h : Admits s job s') (hs : Separate s) :
    placed s' = placed s := by
  funext id
  have hpending := count_perm h.pending id
  rw [count_map_cons] at hpending
  have hactive : (s'.active.rows.map Job.id).count id =
      (if id = job.id then 0 else (s.active.rows.map Job.id).count id) +
        if job.id = id then 1 else 0 := by
    rw [h.active, Table.rows_put]
    refine (count_map_append id job.grant _).trans ?_
    rw [← count_erase, Table.rows_erase]
    rfl
  have hone := hs id
  unfold placed at hone ⊢
  by_cases hid : job.id = id
  · rw [if_pos hid] at hpending hactive
    rw [if_pos hid.symm] at hactive
    omega
  · rw [if_neg hid] at hpending hactive
    rw [if_neg (Ne.symm hid)] at hactive
    omega

theorem placed_settle (c : Clock) {s : State} (hs : Separate s) :
    placed (settle c s) = placed s := by
  refine settle_induct (P := fun s' => placed s' = placed s) ?_ ?_ c rfl
  · intro a b ha hab
    exact hab.placed_eq.trans ha
  · intro a job b ha hab
    refine (hab.placed_eq fun id => ?_).trans ha
    rw [ha]
    exact hs id

theorem placed_enqueue (priority : Priority) (resources : Resources) (owner : Option String)
    (demandSources : Finset Source) (s : State) (id : ℕ) :
    placed (enqueue priority resources owner demandSources s) id =
      placed s id + if s.nextId = id then 1 else 0 := by
  obtain ⟨served, hs⟩ := joinServiceLevel_eq priority owner
    { s with nextId := s.nextId + 1, nextSequence := s.nextSequence + 1 }
  rw [enqueue, hs, placed, placed, count_map_append]
  exact Nat.add_right_comm _ _ _

theorem placed_park {s : State} {job : Job} (h : job ∈ s.active) :
    placed (park job s) = placed s := by
  funext id
  have hactive := count_perm (Table.perm_cons_erase h) id
  rw [count_map_cons] at hactive
  unfold placed
  rw [park, count_map_append, ← hactive]
  dsimp only
  omega

theorem placed_remove (id id' : ℕ) {s : State} (hs : Separate s) :
    placed (remove id s) id' = if id' = id then 0 else placed s id' := by
  have hone := hs id
  unfold remove
  dsimp only
  split
  · rename_i hnone
    have habsent : (s.pending.map Job.id).count id = 0 := by
      refine List.count_eq_zero.mpr fun hmem => ?_
      obtain ⟨job, hjob, hid⟩ := List.mem_map.mp hmem
      simpa [hid] using List.findIdx?_eq_none_iff.mp hnone job hjob
    simp only [placed, count_erase]
    split_ifs with h
    · subst h
      omega
    · rfl
  · rename_i index hindex
    obtain ⟨hlt, hid, -⟩ := List.findIdx?_eq_some_iff_getElem.mp hindex
    have hpending := count_perm (swapRemove_perm s.pending hlt) id'
    rw [count_map_cons, show (s.pending[index]).id = id by simpa using hid] at hpending
    simp only [placed, count_erase] at hone ⊢
    by_cases h : id' = id
    · rw [if_pos h.symm, h] at hpending
      rw [if_pos h, if_pos h, h]
      omega
    · rw [if_neg (Ne.symm h)] at hpending
      rw [if_neg h, if_neg h]
      omega

/-- The ids `cancel_owner` takes out of the queue. -/
def cancelledIds (owner : String) (s : State) : Finset ℕ :=
  ((s.pending.filter fun job => job.owner = some owner).map Job.id).toFinset

theorem placed_dropOwner (owner : String) {s : State} (hs : Separate s) (id : ℕ) :
    placed (dropOwner owner s) id = if id ∈ cancelledIds owner s then 0 else placed s id := by
  have hone := hs id
  have hactive : (dropOwner owner s).active.rows.map Job.id = s.active.rows.map Job.id :=
    map_eq_of_stamp (fun _ => rfl) (map_stamp_of (fun job => by split <;> rfl) _)
  have hkept : (dropOwner owner s).pending =
      s.pending.filter fun job => !decide (job.owner = some owner) :=
    List.filter_congr fun job _ => by simp
  have hsplit := count_perm
    (List.filter_append_perm (fun job => job.owner = some owner) s.pending) id
  rw [List.map_append, List.count_append] at hsplit
  have hmem : id ∈ cancelledIds owner s ↔
      0 < ((s.pending.filter fun job => job.owner = some owner).map Job.id).count id := by
    rw [cancelledIds, List.mem_toFinset, List.count_pos_iff]
  rw [placed, hactive, hkept]
  unfold placed at hone ⊢
  split_ifs with h
  · rw [hmem] at h
    omega
  · rw [hmem] at h
    omega

/-! ## Runs with their unfinished ids -/

/-- A state with the ids `acquire` has issued and whose permit or guard has not
    been dropped, and those of them that `cancel_owner` took out of the queue. -/
structure Tracked where
  state : State
  unfinished : Finset ℕ
  withdrawn : Finset ℕ

namespace Tracked

/-- A new scheduler. -/
def new (cpuSlots : ℕ) (ioCapacity : String → Option ℕ) : Tracked :=
  ⟨State.new cpuSlots ioCapacity, ∅, ∅⟩

/-- One operation. -/
def step (t : Tracked) (call : Clock × Op) : Tracked where
  state := Scheduler.step t.state call
  unfinished := match call.2 with
    | .acquire .. => insert t.state.nextId t.unfinished
    | .finishJob id => t.unfinished.erase id
    | _ => t.unfinished
  withdrawn := match call.2 with
    | .cancelOwner owner => t.withdrawn ∪ cancelledIds owner t.state
    | .finishJob id => t.withdrawn.erase id
    | _ => t.withdrawn

/-- The operations of `calls` one after another. -/
def run (calls : List (Clock × Op)) (t : Tracked) : Tracked := calls.foldl step t

/-- Ids are where they should be, and `acquire` issues a fresh one. -/
structure Placed (t : Tracked) : Prop where
  counted : ∀ id, placed t.state id = if id ∈ t.unfinished \ t.withdrawn then 1 else 0
  fresh : ∀ id ∈ t.unfinished ∪ t.withdrawn, id < t.state.nextId

end Tracked

theorem Tracked.Placed.separate {t : Tracked} (h : t.Placed) : Separate t.state := by
  intro id
  rw [h.counted]
  split_ifs <;> omega

/-- After its own part an operation places no id anew. -/
theorem placed_step (s : State) (call : Clock × Op) (h : Separate (call.2.enter call.1 s)) :
    placed (step s call) = placed (call.2.enter call.1 s) := by
  unfold step
  dsimp only
  split
  · exact placed_settle _ h
  · rfl

/-- What an operation does to the ids, given that no id was in two places. -/
theorem placed_enter (c : Clock) (op : Op) {s : State} (hs : Separate s) (id : ℕ) :
    placed (op.enter c s) id = match op with
      | .acquire .. => placed s id + if s.nextId = id then 1 else 0
      | .finishJob id' => if id = id' then 0 else placed s id
      | .cancelOwner owner => if id ∈ cancelledIds owner s then 0 else placed s id
      | _ => placed s id := by
  cases op with
  | acquire priority resources owner demandSources => exact placed_enqueue _ _ _ _ s id
  | yieldJob id' =>
    simp only [Op.enter]
    split
    · rfl
    · rename_i job hjob
      rw [placed_park (Table.get?_mem hjob)]
  | finishJob id' => exact placed_remove id' id hs
  | cancelOwner owner => exact placed_dropOwner owner hs id
  | hintSegment owner source ttl => exact congrFun (sameJobs_addHint _ _ _ _ s).placed_eq id
  | enterInteractive resources =>
    have hactive : (enterInteractive resources s).active.rows.map Job.id =
        s.active.rows.map Job.id :=
      map_eq_of_stamp (fun _ => rfl) (stamp_enterInteractive resources s)
    simp only [Op.enter, placed, hactive]
    rfl
  | dropInteractive id' => rfl

/-- An operation that issues a fresh id puts no id in two places. -/
theorem separate_enter (c : Clock) (op : Op) {s : State} (hs : Separate s)
    (hfresh : placed s s.nextId = 0) : Separate (op.enter c s) := by
  intro id
  have hone := hs id
  rw [placed_enter c op hs]
  cases op with
  | acquire priority resources owner demandSources =>
    dsimp only
    split_ifs with hid
    · rw [← hid]
      omega
    · exact hone
  | finishJob id' =>
    dsimp only
    split_ifs <;> omega
  | cancelOwner owner =>
    dsimp only
    split_ifs <;> omega
  | _ => exact hone

theorem fresh_nextId {t : Tracked} (h : t.Placed) : placed t.state t.state.nextId = 0 := by
  rw [h.counted, if_neg]
  intro hmem
  exact lt_irrefl _ (h.fresh _ (Finset.mem_union_left _ (Finset.mem_sdiff.mp hmem).1))

theorem tracked_step {t : Tracked} (h : t.Placed) (call : Clock × Op) :
    (t.step call).Placed := by
  obtain ⟨c, op⟩ := call
  have hnew : t.state.nextId ∉ t.unfinished ∪ t.withdrawn := fun hmem =>
    lt_irrefl _ (h.fresh _ hmem)
  simp only [Finset.mem_union, not_or] at hnew
  have hentered : ∀ id, placed (op.enter c t.state) id =
      if id ∈ (t.step (c, op)).unfinished \ (t.step (c, op)).withdrawn then 1 else 0 := by
    intro id
    rw [placed_enter c op h.separate, h.counted]
    cases op with
    | acquire priority resources owner demandSources =>
      by_cases hid : t.state.nextId = id
      · subst hid
        simp [Tracked.step, hnew]
      · simp [Tracked.step, hid, Ne.symm hid]
    | finishJob id' =>
      by_cases hid : id = id' <;> simp [Tracked.step, hid]
    | cancelOwner owner =>
      by_cases hid : id ∈ cancelledIds owner t.state <;> simp [Tracked.step, hid]
    | yieldJob id' => rfl
    | hintSegment owner source ttl => rfl
    | enterInteractive resources => rfl
    | dropInteractive id' => rfl
  have hsep := separate_enter c op h.separate (fresh_nextId h)
  refine ⟨fun id => ?_, fun id hid => ?_⟩
  · rw [← hentered id]
    exact congrFun (placed_step t.state (c, op) hsep) id
  · have hmono := nextId_enter c op t.state
    rw [show (t.step (c, op)).state.nextId = _ from nextId_step t.state (c, op)]
    cases op with
    | acquire priority resources owner demandSources =>
      have hnext : (Op.enter c t.state (.acquire priority resources owner demandSources)).nextId =
          t.state.nextId + 1 := nextId_enqueue _ _ _ _ _
      simp only [Tracked.step, Finset.mem_union, Finset.mem_insert] at hid
      have hold := h.fresh id
      simp only [Finset.mem_union] at hold
      rw [hnext]
      rcases hid with (rfl | hid) | hid
      · exact Nat.lt_succ_self _
      · exact Nat.lt_succ_of_lt (hold (Or.inl hid))
      · exact Nat.lt_succ_of_lt (hold (Or.inr hid))
    | finishJob id' =>
      refine (h.fresh id ?_).trans_le hmono
      simp only [Tracked.step, Finset.mem_union, Finset.mem_erase] at hid ⊢
      tauto
    | cancelOwner owner =>
      simp only [Tracked.step, Finset.mem_union] at hid
      rcases hid with hid | hid | hid
      · exact (h.fresh id (Finset.mem_union_left _ hid)).trans_le hmono
      · exact (h.fresh id (Finset.mem_union_right _ hid)).trans_le hmono
      · refine (h.fresh id ?_).trans_le hmono
        -- an id that `cancel_owner` takes out was pending, so it was unfinished
        have hplaced := h.counted id
        rw [cancelledIds, List.mem_toFinset] at hid
        have hin := (List.filter_sublist.map Job.id).subset hid
        have hpos := List.count_pos_iff.mpr hin
        unfold placed at hplaced
        split_ifs at hplaced with hmem
        · exact Finset.mem_union_left _ (Finset.mem_sdiff.mp hmem).1
        · omega
    | yieldJob id' => exact (h.fresh id hid).trans_le hmono
    | hintSegment owner source ttl => exact (h.fresh id hid).trans_le hmono
    | enterInteractive resources => exact (h.fresh id hid).trans_le hmono
    | dropInteractive id' => exact (h.fresh id hid).trans_le hmono

theorem tracked_new (cpuSlots : ℕ) (ioCapacity : String → Option ℕ) :
    (Tracked.new cpuSlots ioCapacity).Placed :=
  ⟨fun _ => rfl, by simp [Tracked.new]⟩

theorem tracked_run {t : Tracked} (h : t.Placed) (calls : List (Clock × Op)) :
    (t.run calls).Placed := by
  induction calls generalizing t with
  | nil => exact h
  | cons call calls ih => exact ih (tracked_step h call)

theorem state_run (t : Tracked) (calls : List (Clock × Op)) :
    (t.run calls).state = Scheduler.run calls t.state := by
  induction calls generalizing t with
  | nil => rfl
  | cons call calls ih => exact ih (t.step call)

/-- The state in which an operation asks for preemption has no id in two places. -/
theorem separate_enter_run (cpuSlots : ℕ) (ioCapacity : String → Option ℕ)
    (calls : List (Clock × Op)) (c : Clock) (op : Op) :
    Separate (op.enter c (run calls (State.new cpuSlots ioCapacity))) := by
  have hplaced := tracked_run (tracked_new cpuSlots ioCapacity) calls
  have hstate := state_run (Tracked.new cpuSlots ioCapacity) calls
  rw [show State.new cpuSlots ioCapacity = (Tracked.new cpuSlots ioCapacity).state from rfl,
    ← hstate]
  exact separate_enter c op hplaced.separate (fresh_nextId hplaced)

theorem Separate.ne {s : State} (h : Separate s) {p a : Job} (hp : p ∈ s.pending)
    (ha : a ∈ s.active) : p.id ≠ a.id := by
  intro heq
  have hone := h a.id
  have hpending : 0 < (s.pending.map Job.id).count a.id :=
    List.count_pos_iff.mpr (heq ▸ List.mem_map_of_mem hp)
  have hactive : 0 < (s.active.rows.map Job.id).count a.id :=
    List.count_pos_iff.mpr (List.mem_map_of_mem (f := Job.id) ha)
  unfold placed at hone
  omega

/-! ## Admission safety -/

/-- The active jobs stay within the capacities of the desk. -/
def WithinCapacity (s : State) : Prop := Within Resources.amount s.limit s.desk.running

theorem withinCapacity_step {s : State} (h : WithinCapacity s) (call : Clock × Op) :
    WithinCapacity (step s call) := by
  have hmoves := moves_step s call
  unfold WithinCapacity
  rw [hmoves.limit]
  exact Desk.within_of_steps hmoves.steps h

theorem withinCapacity_run {t : Tracked} (h : WithinCapacity t.state)
    (calls : List (Clock × Op)) : WithinCapacity (t.run calls).state := by
  induction calls generalizing t with
  | nil => exact h
  | cons call calls ih => exact ih (withinCapacity_step h call)

/-- What admission must never break. -/
structure AdmissionSafe (t : Tracked) : Prop where
  cpu : t.state.usedCpu ≤ t.state.cpuCapacity
  io : ∀ domain, t.state.usedIo domain ≤ t.state.ioLimit domain
  exclusive : ∀ a ∈ t.state.active, ∀ b ∈ t.state.active, a.id ≠ b.id →
    Disjoint a.resources.exclusive b.resources.exclusive
  placed : ∀ id, (t.state.pending.map Job.id).count id +
    (t.state.active.rows.map Job.id).count id = if id ∈ t.unfinished \ t.withdrawn then 1 else 0

/-- Two active jobs within capacity share no exclusive resource. -/
theorem disjoint_of_withinCapacity {s : State} (h : WithinCapacity s) {a b : Job}
    (ha : a ∈ s.active) (hb : b ∈ s.active) (hab : a.id ≠ b.id) :
    Disjoint a.resources.exclusive b.resources.exclusive := by
  refine Finset.disjoint_left.mpr fun name hna hnb => ?_
  have hrest : b ∈ s.active.erase a.id := Table.mem_erase.mpr ⟨hb, Ne.symm hab⟩
  have hpair : a.resources ::ₘ {b.resources} ≤ s.desk.running := by
    have hrows : s.desk.running = a.resources ::ₘ bundles (s.active.erase a.id).rows :=
      (bundles_perm (Table.perm_cons_erase ha)).symm
    rw [hrows]
    refine Multiset.cons_le_cons _ (Multiset.singleton_le.mpr ?_)
    exact Multiset.mem_coe.mpr (List.mem_map_of_mem (f := Job.resources) hrest)
  have hnot := h.not_both (r := .exclusive name) rfl hpair
  simp [Resources.amount, hna, hnb] at hnot

/-- In every state the scheduler can reach, admission is safe. -/
theorem admission_safe (cpuSlots : ℕ) (ioCapacity : String → Option ℕ)
    (calls : List (Clock × Op)) :
    AdmissionSafe ((Tracked.new cpuSlots ioCapacity).run calls) := by
  have hnew : WithinCapacity (Tracked.new cpuSlots ioCapacity).state := Within.zero
  have hcap := withinCapacity_run hnew calls
  refine ⟨?_, fun domain => ?_, fun a ha b hb hab => disjoint_of_withinCapacity hcap ha hb hab,
    (tracked_run (tracked_new cpuSlots ioCapacity) calls).counted⟩
  · exact load_cpu _ ▸ hcap .cpu
  · exact load_io _ domain ▸ hcap (.io domain)

end Kahawai.Mediahost.Scheduler
