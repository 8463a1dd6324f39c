import Kahawai.Mediahost.Scheduler.Effect

/-!
# Waiting for a grant on the condition variable

`Control::wait_blocking` locks `control.mutex`, reads `cancelled` and then
`granted`, and sleeps on the condition variable, which releases the mutex in
the same step. `Control::wake` calls `notify_all` without that mutex, after
`dispatch` has stored `granted` or `cancel_owner` has stored `cancelled`. A
notification wakes only a thread that already sleeps. The steps of both sides
are atomic and sequentially consistent; the scheduler's own mutex orders the
stores and notifications of one `Control`.

A flag can therefore be stored and announced after the waiter has read it and
before it sleeps. `wait_async` registers with its notifier before it reads the
flags, so it has no such window.

Results:
* `lost_wakeup`: a waiter sleeps on although it is granted and nothing will
  wake it.
* `not_lost_of_outside`: there is no such state in a run in which no
  notification is sent while the waiter is in that window.
* `lost_of_notify_in_window`: every notification sent in the window can be lost.
* `grantedActive_run`: in the scheduler the jobs `dispatch` has moved to active
  are the granted ones, so a waiter lost on `granted` holds its resources.
-/

namespace Kahawai.Mediahost.Scheduler

open Kahawai.Lib

/-! ## Steps -/

/-- Where a thread is in `wait_blocking` (lines 108–119). -/
inductive Waiter
  /-- Not in `wait_blocking`. -/
  | outside
  /-- At `self.mutex.lock()`, or woken in `condvar.wait` and locking again. -/
  | locking
  /-- At `self.cancelled.load`. -/
  | readingCancelled
  /-- At `self.granted.load`. -/
  | readingGranted
  /-- At `self.condvar.wait`, still holding the mutex. -/
  | parking
  | asleep
  deriving DecidableEq

/-- The flags of `Control` that wake a waiter. -/
inductive Flag
  | granted
  | cancelled
  deriving DecidableEq

/-- A waiter, the flags of its `Control`, and the flag that the scheduler has
    stored and not yet announced. -/
structure Handshake where
  waiter : Waiter
  granted : Bool
  cancelled : Bool
  announcing : Option Flag
  deriving DecidableEq

/-- A job that has just been queued. -/
def Handshake.start : Handshake := ⟨.outside, false, false, none⟩

/-- The atomic steps. -/
inductive WaitStep
  | enter
  | lock
  | readCancelled
  | readGranted
  | sleep
  /-- A wake-up without a notification. -/
  | spuriousWake
  /-- `dispatch` stores `granted` (line 700). -/
  | storeGranted
  /-- `cancel_owner` stores `cancelled` (lines 421 and 433). -/
  | storeCancelled
  /-- `notify_all` (line 92). -/
  | notifyAll
  /-- `yield_job` clears `granted` (line 731). -/
  | clearGranted
  deriving DecidableEq

/-- One step; a step that is not possible in a state leaves it as it is. -/
def waitStep (s : Handshake) : WaitStep → Handshake
  | .enter => if s.waiter = .outside then { s with waiter := .locking } else s
  | .lock => if s.waiter = .locking then { s with waiter := .readingCancelled } else s
  | .readCancelled =>
    if s.waiter = .readingCancelled then
      { s with waiter := if s.cancelled then .outside else .readingGranted }
    else s
  | .readGranted =>
    if s.waiter = .readingGranted then
      { s with waiter := if s.granted then .outside else .parking }
    else s
  | .sleep => if s.waiter = .parking then { s with waiter := .asleep } else s
  | .spuriousWake => if s.waiter = .asleep then { s with waiter := .locking } else s
  | .storeGranted =>
    if s.announcing = none then { s with granted := true, announcing := some .granted } else s
  | .storeCancelled =>
    if s.announcing = none then { s with cancelled := true, announcing := some .cancelled } else s
  | .notifyAll =>
    if s.announcing = none then s
    else { s with
      announcing := none
      waiter := if s.waiter = .asleep then .locking else s.waiter }
  | .clearGranted => if s.announcing = none then { s with granted := false } else s

/-- The steps one after another. -/
def waitRun (steps : List WaitStep) (s : Handshake) : Handshake := steps.foldl waitStep s

/-- The waiter sleeps, a flag is set, and the step that set it has no
    notification still to send. -/
def Lost (s : Handshake) : Prop :=
  s.waiter = .asleep ∧ ((s.granted = true ∧ s.announcing ≠ some .granted) ∨
    (s.cancelled = true ∧ s.announcing ≠ some .cancelled))

instance (s : Handshake) : Decidable (Lost s) := inferInstanceAs (Decidable (_ ∧ _))

/-- The waiter has read a flag as clear that is set now, and does not sleep yet. -/
def inWindow (s : Handshake) : Bool :=
  (s.waiter = .readingGranted && s.cancelled) ||
    (s.waiter = .parking && (s.granted || s.cancelled))

/-- No notification is sent in the window. -/
def outsideWindow : List WaitStep → Handshake → Bool
  | [], _ => true
  | step :: steps, s =>
    !(step = .notifyAll && s.announcing.isSome && inWindow s) &&
      outsideWindow steps (waitStep s step)

/-! ## Safe runs -/

/-- What a waiter has read as clear and finds set is about to be announced. -/
structure Announced (s : Handshake) : Prop where
  granted : s.waiter = .parking ∨ s.waiter = .asleep → s.granted = true →
    s.announcing = some .granted
  cancelled : s.waiter = .readingGranted ∨ s.waiter = .parking ∨ s.waiter = .asleep →
    s.cancelled = true → s.announcing = some .cancelled

theorem announced_waitStep {s : Handshake} (h : Announced s) (step : WaitStep)
    (hout : (step = .notifyAll && s.announcing.isSome && inWindow s) = false) :
    Announced (waitStep s step) := by
  obtain ⟨waiter, granted, cancelled, announcing⟩ := s
  obtain ⟨hg, hc⟩ := h
  cases step with
  | notifyAll =>
    -- outside the window nothing set is unread, and a sleeper is woken
    cases announcing with
    | none => exact ⟨hg, hc⟩
    | some flag =>
      cases waiter <;> constructor <;> simp_all [waitStep, inWindow]
  | _ => constructor <;> simp only [waitStep] <;> split_ifs <;> simp_all

/-- In a run that sends no notification in the window, the waiter never sleeps
    on a flag that is set and announced. -/
theorem not_lost_of_outside (steps : List WaitStep)
    (hout : outsideWindow steps Handshake.start = true) :
    ∀ n, ¬ Lost (waitRun (steps.take n) Handshake.start) := by
  have hrun : ∀ (steps : List WaitStep) (s : Handshake), Announced s →
      outsideWindow steps s = true → ∀ n, Announced (waitRun (steps.take n) s) := by
    intro steps
    induction steps with
    | nil =>
      intro s hs _ n
      rw [List.take_nil]
      exact hs
    | cons step steps ih =>
      intro s hs hout n
      rw [outsideWindow, Bool.and_eq_true, Bool.not_eq_true'] at hout
      cases n with
      | zero => exact hs
      | succ n => exact ih _ (announced_waitStep hs step hout.1) hout.2 n
  intro n
  have hann := hrun steps Handshake.start ⟨by decide, by decide⟩ hout n
  rintro ⟨hasleep, ⟨hset, hnone⟩ | ⟨hset, hnone⟩⟩
  · exact hnone (hann.granted (Or.inr hasleep) hset)
  · exact hnone (hann.cancelled (Or.inr (Or.inr hasleep)) hset)

/-- A run outside the window: the grant comes while the waiter sleeps. -/
theorem not_lost_of_outside_asleep :
    ¬ Lost (waitRun ([WaitStep.enter, .lock, .readCancelled, .readGranted, .sleep,
      .storeGranted, .notifyAll].take 6) Handshake.start) :=
  not_lost_of_outside _ (by decide) 6

/-- The grant is stored and announced between the waiter's check and its sleep. -/
theorem lost_wakeup :
    ¬ ∀ steps : List WaitStep, ¬ Lost (waitRun steps Handshake.start) := by
  intro h
  refine h [.enter, .lock, .readCancelled, .readGranted, .storeGranted, .notifyAll, .sleep] ?_
  decide

/-- Every notification sent in the window can be lost. -/
theorem lost_of_notify_in_window {s : Handshake} (hsome : s.announcing.isSome)
    (hwindow : inWindow s = true) : ∃ steps, Lost (waitRun (.notifyAll :: steps) s) := by
  obtain ⟨waiter, granted, cancelled, announcing⟩ := s
  cases announcing with
  | none => cases hsome
  | some flag =>
    cases waiter with
    | parking =>
      refine ⟨[.sleep], rfl, ?_⟩
      rcases Bool.or_eq_true_iff.mp (show (granted || cancelled) = true from by
        simpa [inWindow] using hwindow) with h | h
      · exact Or.inl ⟨h, by simp [waitRun, waitStep]⟩
      · exact Or.inr ⟨h, by simp [waitRun, waitStep]⟩
    | readingGranted =>
      refine ⟨[.clearGranted, .readGranted, .sleep], rfl, Or.inr ⟨?_, ?_⟩⟩
      · have hcancelled : cancelled = true := by simpa [inWindow] using hwindow
        simpa [waitRun, waitStep] using hcancelled
      · simp [waitRun, waitStep]
    | _ => simp [inWindow] at hwindow

/-! ## Granted jobs are active -/

/-- The active jobs are granted and the pending jobs are not. -/
structure GrantedActive (s : State) : Prop where
  active : ∀ job ∈ s.active.rows, job.control.granted = true
  pending : ∀ job ∈ s.pending, job.control.granted = false

/-- Changes that keep the `granted` flag of every job. -/
theorem GrantedActive.map {s s' : State} (h : GrantedActive s) {f g : Job → Job}
    (hactive : s'.active.rows = s.active.rows.map f) (hpending : s'.pending = s.pending.map g)
    (hf : ∀ job, (f job).control.granted = job.control.granted)
    (hg : ∀ job, (g job).control.granted = job.control.granted) : GrantedActive s' := by
  constructor
  · intro job hjob
    rw [hactive] at hjob
    obtain ⟨job₀, hjob₀, rfl⟩ := List.mem_map.mp hjob
    rw [hf]
    exact h.active job₀ hjob₀
  · intro job hjob
    rw [hpending] at hjob
    obtain ⟨job₀, hjob₀, rfl⟩ := List.mem_map.mp hjob
    rw [hg]
    exact h.pending job₀ hjob₀

theorem grantedActive_refresh {s : State} (h : GrantedActive s) (now : ℕ) :
    GrantedActive (refreshDemandPriorities now s) :=
  h.map rfl rfl (fun _ => rfl) fun _ => rfl

theorem grantedActive_requestPreemption {s : State} (h : GrantedActive s) (now : ℕ) :
    GrantedActive (requestPreemption now s) := by
  have hpaused : GrantedActive { refreshDemandPriorities now s with
      active := (refreshDemandPriorities now s).active.mapRows
        (fun job => job.setPause ((refreshDemandPriorities now s).interrupted job.resources))
        fun _ => rfl } :=
    (grantedActive_refresh h now).map rfl (List.map_id _).symm (fun _ => rfl) fun _ => rfl
  refine hpaused.map (rows_foldl_pauseFor _ _) (List.map_id _).symm (fun job => ?_) fun _ => rfl
  unfold pauseForAny
  split <;> rfl

theorem Admits.grantedActive {s s' : State} {job : Job} (h : Admits s job s')
    (hs : GrantedActive s) : GrantedActive s' := by
  constructor
  · intro j hj
    rw [h.active] at hj
    rcases Table.mem_put.mp hj with rfl | ⟨hj, -⟩
    · rfl
    · exact hs.active j hj
  · exact fun j hj => hs.pending j (h.pending.subset (List.mem_cons_of_mem _ hj))

theorem grantedActive_settle {s : State} (h : GrantedActive s) (c : Clock) :
    GrantedActive (settle c s) :=
  dispatchLoop_induct (fun _ _ _ hs hadm => hadm.grantedActive hs) _ _
    (grantedActive_refresh (grantedActive_requestPreemption h _) _)

theorem grantedActive_enter {s : State} (h : GrantedActive s) (c : Clock) (op : Op) :
    GrantedActive (op.enter c s) := by
  cases op with
  | acquire priority resources owner demandSources =>
    obtain ⟨served, hs⟩ := joinServiceLevel_eq priority owner
      { s with nextId := s.nextId + 1, nextSequence := s.nextSequence + 1 }
    rw [Op.enter, enqueue, hs]
    refine ⟨h.active, fun job hjob => ?_⟩
    rcases List.mem_append.mp hjob with hjob | hjob
    · exact h.pending job hjob
    · rw [List.mem_singleton.mp hjob]
      rfl
  | yieldJob id =>
    simp only [Op.enter]
    split
    · exact h
    · refine ⟨fun job hjob => h.active job (Table.mem_erase.mp hjob).1, fun job hjob => ?_⟩
      rcases List.mem_append.mp hjob with hjob | hjob
      · exact h.pending job hjob
      · rw [List.mem_singleton.mp hjob]
  | finishJob id =>
    have hactive : ∀ job ∈ (s.active.erase id).rows, job.control.granted = true :=
      fun job hjob => h.active job (Table.mem_erase.mp hjob).1
    simp only [Op.enter, remove]
    split
    · exact ⟨hactive, h.pending⟩
    · rename_i index hindex
      have hlt := (List.findIdx?_eq_some_iff_getElem.mp hindex).1
      exact ⟨hactive, fun job hjob => h.pending job
        ((swapRemove_perm s.pending hlt).subset (List.mem_cons_of_mem _ hjob))⟩
  | cancelOwner owner =>
    constructor
    · intro job hjob
      obtain ⟨job₀, hjob₀, rfl⟩ := List.mem_map.mp hjob
      split <;> exact h.active job₀ hjob₀
    · exact fun job hjob => h.pending job (List.mem_filter.mp hjob).1
  | hintSegment owner source ttl =>
    have hkeep : ∀ job, (hintJob source job).control.granted = job.control.granted := fun job => by
      unfold hintJob
      split <;> rfl
    exact h.map rfl rfl hkeep hkeep
  | enterInteractive resources =>
    refine h.map rfl (List.map_id _).symm (fun job => ?_) fun _ => rfl
    split <;> rfl
  | dropInteractive id => exact ⟨h.active, h.pending⟩

/-- In every state the scheduler can reach, the jobs `dispatch` has moved to
    active are the granted ones. -/
theorem grantedActive_run (cpuSlots : ℕ) (ioCapacity : String → Option ℕ)
    (calls : List (Clock × Op)) : GrantedActive (run calls (State.new cpuSlots ioCapacity)) := by
  have hrun : ∀ (calls : List (Clock × Op)) (s : State), GrantedActive s →
      GrantedActive (run calls s) := by
    intro calls
    induction calls with
    | nil => exact fun _ hs => hs
    | cons call calls ih =>
      intro s hs
      refine ih _ ?_
      have hentered := grantedActive_enter hs call.1 call.2
      unfold step
      dsimp only
      split
      · exact grantedActive_settle hentered call.1
      · exact hentered
  exact hrun calls _ ⟨fun _ hjob => (List.not_mem_nil hjob).elim,
    fun _ hjob => (List.not_mem_nil hjob).elim⟩

end Kahawai.Mediahost.Scheduler
