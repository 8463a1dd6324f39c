import Kahawai.Mediahost.Scheduler.Capacity
import Kahawai.Mediahost.Scheduler.Priority

/-!
# Preemption requests

`request_preemption` looks at the active jobs before `dispatch` admits more.
It asks every active job that then stands in the way of a pending job of
higher priority (`preemptionComplete_requestPreemption`), and `dispatch` takes
no flag back. Admission stays work-conserving, though: while a pending job
waits for one resource, `dispatch` may give another resource it needs to a job
of lower priority, which is asked only by the next operation.

Results:
* `preemption_incomplete`: after such an admission a lower-priority job blocks
  a pending job without having been asked to yield.
* `preemption_requested`: what does hold after every operation.
-/

namespace Kahawai.Mediahost.Scheduler

open Kahawai.Lib

/-- The active job `l` has strictly lower priority than the pending job `p` and
    holds CPU while `p`'s CPU request does not fit, or an I/O domain `p` needs
    that is at capacity, or an exclusive resource `p` needs. -/
def Blocks (s : State) (p l : Job) : Prop :=
  p.priority < l.priority ∧
    ((p.resources.cpu ≠ 0 ∧ l.resources.cpu ≠ 0 ∧
        s.cpuCapacity < s.usedCpu + p.resources.cpu) ∨
      (∃ domain ∈ p.resources.io, domain ∈ l.resources.io ∧ s.ioLimit domain ≤ s.usedIo domain) ∨
      ∃ name ∈ p.resources.exclusive, name ∈ l.resources.exclusive)

instance (s : State) (p l : Job) : Decidable (Blocks s p l) :=
  inferInstanceAs (Decidable (_ ∧ _))

/-- Every active job that blocks a pending job which conflicts with no
    interactive reservation has its pause flag set. -/
def PreemptionComplete (s : State) : Prop :=
  ∀ p ∈ s.pending, s.interrupted p.resources = false →
    ∀ l ∈ s.active.rows, Blocks s p l → l.control.pause = true

instance (s : State) : Decidable (PreemptionComplete s) :=
  inferInstanceAs (Decidable (∀ p ∈ s.pending, _))

/-! ## What is asked -/

theorem Request.blockedBy_iff (r : Request) (job : Job) :
    r.blockedBy job = true ↔ r.priority < job.priority ∧
      ((r.cpuFull = true ∧ r.requestedCpu ≠ 0 ∧ job.resources.cpu ≠ 0) ∨
        ¬ Disjoint job.resources.io r.fullIo ∨
        ¬ Disjoint job.resources.exclusive r.exclusive) := by
  simp [Request.blockedBy, and_assoc, or_assoc]

theorem blockedBy_of_blocks {s s' : State} (hsame : SameJobs s s') {p l : Job}
    (h : Blocks s' p l) : (request s p).blockedBy l = true := by
  obtain ⟨hlt, h⟩ := h
  refine (Request.blockedBy_iff _ l).mpr ⟨hlt, ?_⟩
  rcases h with ⟨hp, hl, hfull⟩ | ⟨domain, hp, hl, hfull⟩ | ⟨name, hp, hl⟩
  · rw [hsame.usedCpu_eq, hsame.cpuCapacity] at hfull
    exact Or.inl ⟨by simpa [request] using ⟨hp, hfull⟩, hp, hl⟩
  · rw [hsame.usedIo_eq, State.ioLimit, hsame.ioCapacity] at hfull
    refine Or.inr (Or.inl fun hdisj => ?_)
    exact Finset.disjoint_left.mp hdisj hl (Finset.mem_filter.mpr ⟨hp, hfull⟩)
  · exact Or.inr (Or.inr fun hdisj => Finset.disjoint_left.mp hdisj hl hp)

/-- `request_preemption` asks every active job that stands in the way. -/
theorem preemptionComplete_requestPreemption (now : ℕ) (s : State) :
    PreemptionComplete (requestPreemption now s) := by
  intro p hp hfree l hl hblocks
  -- the state whose requests are collected: priorities refreshed, flags reset
  obtain ⟨mid, hmid⟩ : ∃ mid : State, mid = { refreshDemandPriorities now s with
      active := (refreshDemandPriorities now s).active.mapRows
        (fun job => job.setPause ((refreshDemandPriorities now s).interrupted job.resources))
        fun _ => rfl } := ⟨_, rfl⟩
  have hreq : requestPreemption now s = { mid with
      active := ((mid.pending.filter fun job => !mid.interrupted job.resources).map
        (request mid)).foldl pauseFor mid.active } := by
    rw [hmid]
    rfl
  rw [hreq] at hp hfree hl hblocks
  have hsame : SameJobs mid { mid with
      active := ((mid.pending.filter fun job => !mid.interrupted job.resources).map
        (request mid)).foldl pauseFor mid.active } :=
    ⟨rfl, by rw [rows_foldl_pauseFor]; exact map_stamp_of (stamp_pauseForAny _) _,
      rfl, rfl, rfl, rfl, rfl⟩
  rw [rows_foldl_pauseFor] at hl
  obtain ⟨l₀, -, rfl⟩ := List.mem_map.mp hl
  have hblocked := blockedBy_of_blocks hsame hblocks
  have hmem : request mid p ∈
      (mid.pending.filter fun job => !mid.interrupted job.resources).map (request mid) := by
    refine List.mem_map_of_mem (List.mem_filter.mpr ⟨hp, ?_⟩)
    rw [Bool.not_eq_true']
    exact hfree
  unfold pauseForAny at hblocked ⊢
  split_ifs with hany
  · rfl
  · rw [if_neg hany] at hblocked
    exact absurd (List.any_eq_true.mpr ⟨_, hmem, hblocked⟩) hany

/-! ## What dispatch leaves -/

/-- The active jobs of `s` are still active in `s'`, with the same flags. -/
def KeepsActive (s s' : State) : Prop :=
  ∀ l ∈ s.active.rows, ∃ l' ∈ s'.active.rows, l'.id = l.id ∧ l'.control = l.control

theorem keepsActive_refresh (now : ℕ) (s : State) :
    KeepsActive s (refreshDemandPriorities now s) :=
  fun _ hl => ⟨_, List.mem_map_of_mem hl, rfl, rfl⟩

theorem Admits.keepsActive {s s' : State} {job : Job} (h : Admits s job s') (hs : Separate s) :
    KeepsActive s s' := by
  intro l hl
  refine ⟨l, ?_, rfl, rfl⟩
  have hne : l.id ≠ job.id := (hs.ne h.mem hl).symm
  rw [h.active]
  exact Table.mem_put.mpr (Or.inr ⟨hl, hne⟩)

theorem KeepsActive.trans {s s' s'' : State} (h : KeepsActive s s') (h' : KeepsActive s' s'') :
    KeepsActive s s'' := by
  intro l hl
  obtain ⟨l', hl', hid, hcontrol⟩ := h l hl
  obtain ⟨l'', hl'', hid', hcontrol'⟩ := h' l' hl'
  exact ⟨l'', hl'', hid'.trans hid, hcontrol'.trans hcontrol⟩

theorem keepsActive_dispatch (now : ℕ) {s : State} (hs : Separate s) :
    KeepsActive s (dispatch now s) := by
  have hsep : Separate (refreshDemandPriorities now s) := fun id => by
    rw [(stamp_refresh now s).placed_eq]
    exact hs id
  refine (dispatchLoop_induct (P := fun s' => KeepsActive s s' ∧ Separate s') ?_ _ _
    ⟨keepsActive_refresh now s, hsep⟩).1
  rintro a job b ⟨hkeep, ha⟩ hadm
  refine ⟨hkeep.trans (hadm.keepsActive ha), fun id => ?_⟩
  rw [hadm.placed_eq ha]
  exact ha id

/-- A job active after the loop was active before it or was admitted by it. -/
theorem active_dispatchLoop {l : Job} :
    ∀ (turns : ℕ) (s : State), l ∈ (dispatchLoop turns s).active →
      l ∈ s.active ∨ ∃ t job, (t, job) ∈ turnsFrom turns s ∧ l = job.grant := by
  intro turns
  induction turns with
  | zero => intro s hl; exact Or.inl hl
  | succ turns ih =>
    intro s hl
    rw [dispatchLoop] at hl
    rw [turnsFrom]
    cases hnext : admitNext s with
    | none =>
      rw [hnext] at hl
      exact Or.inl hl
    | some r =>
      obtain ⟨job, s'⟩ := r
      rw [hnext] at hl
      rcases ih s' hl with hl' | ⟨t, job', ht, rfl⟩
      · rw [(admitNext_spec hnext).active] at hl'
        rcases Table.mem_put.mp hl' with rfl | ⟨hl', -⟩
        · exact Or.inr ⟨s, job, List.mem_cons_self, rfl⟩
        · exact Or.inl hl'
      · exact Or.inr ⟨t, job', List.mem_cons_of_mem _ ht, rfl⟩

/-! ## Operations -/

/-- The state an operation leaves to `dispatch`. -/
def asked (s : State) (call : Clock × Op) : State :=
  requestPreemption call.1.preempt (call.2.enter call.1 s)

/-- In every operation that requests preemption, every active job that then
    blocks a pending job is asked to yield and is still asked after the
    operation. Any other job active after it was admitted by the operation's
    own dispatch, at an instant at which no pending job of strictly higher
    priority was admissible. -/
theorem preemption_requested (cpuSlots : ℕ) (ioCapacity : String → Option ℕ)
    (calls : List (Clock × Op)) (call : Clock × Op)
    (hsettles : call.2.settles (run calls (State.new cpuSlots ioCapacity)) = true) :
    let s := run calls (State.new cpuSlots ioCapacity)
    (∀ p ∈ (asked s call).pending, (asked s call).interrupted p.resources = false →
      ∀ l ∈ (asked s call).active.rows, Blocks (asked s call) p l →
        ∃ l' ∈ (step s call).active.rows, l'.id = l.id ∧ l'.control.pause = true) ∧
    ∀ l ∈ (step s call).active.rows, (∀ a ∈ (asked s call).active.rows, a.id ≠ l.id) →
      ∃ t job, (t, job) ∈ admissions s call ∧ l = job.grant ∧
        ∀ p ∈ t.pending, p.priority < l.priority → t.available p.resources = false := by
  intro s
  have hstep : step s call = dispatch call.1.dispatch (asked s call) := if_pos hsettles
  have hsep : Separate (asked s call) := fun id => by
    rw [asked, (stamp_requestPreemption _ _).placed_eq]
    exact separate_enter_run cpuSlots ioCapacity calls call.1 call.2 id
  constructor
  · intro p hp hfree l hl hblocks
    have hpause := preemptionComplete_requestPreemption _ _ p hp hfree l hl hblocks
    obtain ⟨l', hl', hid, hcontrol⟩ := keepsActive_dispatch call.1.dispatch hsep l hl
    exact ⟨l', hstep ▸ hl', hid, hcontrol ▸ hpause⟩
  · intro l hl hnew
    rw [hstep] at hl
    rcases active_dispatchLoop _ _ hl with hold | ⟨t, job, ht, rfl⟩
    · obtain ⟨a, ha, rfl⟩ := List.mem_map.mp hold
      exact absurd rfl (hnew a ha)
    · have hmem : (t, job) ∈ admissions s call := by
        rw [admissions, if_pos hsettles]
        exact ht
      refine ⟨t, job, hmem, rfl, fun p hp hlt => ?_⟩
      obtain ⟨-, t', hadm⟩ := effective_of_mem_turns hmem
      by_contra hav
      exact absurd (hadm.le_priority hp (by simpa using hav)) (not_le.mpr hlt)

/-! ## An admission behind the back of a waiting job -/

/-- A scan holds `disk1` and a segments job waits for both disks and the CPU. -/
def segmentsBehindScan : List (Clock × Op) :=
  [(Clock.still 0, .acquire .catalogFreshness ⟨0, {"disk1"}, ∅⟩ none ∅),
    (Clock.still 0, .acquire .segments ⟨1, {"disk1", "disk2"}, ∅⟩ none ∅)]

/-- A loudness job then takes `disk2` and the CPU, and is not asked to yield
    although the segments job needs both. -/
theorem preemption_incomplete :
    ¬ PreemptionComplete (step (run segmentsBehindScan (State.new 1 fun _ => none))
      (Clock.still 0, .acquire .loudness ⟨1, {"disk2"}, ∅⟩ none ∅)) := by
  decide

/-- The operation after that asks it. -/
theorem preemption_requested_next :
    let s := run (segmentsBehindScan ++
      [(Clock.still 0, .acquire .loudness ⟨1, {"disk2"}, ∅⟩ none ∅)]) (State.new 1 fun _ => none)
    let call : Clock × Op := (Clock.still 0, .finishJob 1)
    (∀ p ∈ (asked s call).pending, (asked s call).interrupted p.resources = false →
      ∀ l ∈ (asked s call).active.rows, Blocks (asked s call) p l →
        ∃ l' ∈ (step s call).active.rows, l'.id = l.id ∧ l'.control.pause = true) ∧
    ∀ l ∈ (step s call).active.rows, (∀ a ∈ (asked s call).active.rows, a.id ≠ l.id) →
      ∃ t job, (t, job) ∈ admissions s call ∧ l = job.grant ∧
        ∀ p ∈ t.pending, p.priority < l.priority → t.available p.resources = false :=
  preemption_requested 1 (fun _ => none) _ _ rfl

end Kahawai.Mediahost.Scheduler
