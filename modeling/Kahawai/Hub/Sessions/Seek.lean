import Mathlib.Data.List.Induction
import Mathlib.Data.List.Pairwise
import Mathlib.Order.Basic
import Mathlib.Data.Nat.Basic
import Kahawai.Lib.Processes
import Kahawai.Lib.Runs

/-!
# Coalesced seeks

Every seek request of a session registers its intent and spawns an executor
(`crates/kahawai-hub/src/sessions/seek.rs`, lines 137–205). The executors take
turns under `seek_lock`: the one that finds a pending intent runs it and
publishes the generation on `seek_done`, the others return. The intents merge
with `PendingSeek::merge` (`crates/kahawai-playback/src/seek.rs`).

The generation is drawn before the lock of `pending_seek` is taken, and a
request subscribes to `seek_done` after its intent is registered. `end` takes
`seek_lock` too and makes a restart fail (`until_session_ends`); here a restart
may fail at any time.

Results:
* `settled`: where intents are registered in the order of their generations and
  no outcome is published past a request that has yet to subscribe, no request
  is left waiting and the last restart is the newest intent.
* `not_settled`: without either condition a request is left waiting.
-/

namespace Kahawai.Hub.Sessions.Seek

open Kahawai.Lib

/-! ## Intents -/

/-- `PendingSeek`. -/
structure PendingSeek where
  generation : ℕ
  positionMs : ℕ
  audioTrack : Option ℕ
  videoTrack : Option ℕ
  replanSubs : Bool
  deriving DecidableEq

/-- `PendingSeek::merge`: the newer intent wins the position, explicit track
    choices survive. -/
def PendingSeek.merge (prev : Option PendingSeek) (next : PendingSeek) : PendingSeek :=
  match prev with
  | some prev =>
    { next with
      audioTrack := next.audioTrack.or prev.audioTrack
      videoTrack := next.videoTrack.or prev.videoTrack
      replanSubs := next.replanSubs || prev.replanSubs }
  | none => next

/-- The tracks of a plan, or how many tracks the source has. -/
structure Tracks where
  audio : ℕ
  video : ℕ
  deriving DecidableEq

/-- `want_audio` and `want_video` of `execute_seek` (lines 228–229). -/
def Tracks.choose (plan : Tracks) (todo : PendingSeek) : Tracks :=
  ⟨todo.audioTrack.getD plan.audio, todo.videoTrack.getD plan.video⟩

/-- `negotiate_for_executors_impl` clamps a track to the last of the source
    (`crates/kahawai-media/src/negotiate.rs`, lines 622–623). -/
def Tracks.clamp (info t : Tracks) : Tracks :=
  ⟨min t.audio (info.audio - 1), min t.video (info.video - 1)⟩

/-! ## The model -/

/-- Where a request is. -/
inductive Stage
  /-- `fetch_add` on `seek_gen` gave the generation (line 141). -/
  | drawn
  /-- The intent is in `pending_seek` (line 151). -/
  | merged
  /-- Subscribed to `seek_done` (line 154), the executor not yet spawned. -/
  | subscribed
  /-- Awaiting a generation that covers its own (line 189). -/
  | waiting
  /-- Answered, cancelled or timed out. -/
  | left
  deriving DecidableEq

/-- Where the executor of a request is. -/
inductive Exec
  | unspawned
  /-- Waiting for `seek_lock` (line 160). -/
  | queued
  /-- In `execute_seek`. -/
  | running
  /-- `execute_seek` has returned. -/
  | ran
  /-- `seek_done.send` was called; the lock is still held. -/
  | published
  | done
  deriving DecidableEq

structure Request where
  intent : PendingSeek
  stage : Stage
  exec : Exec
  deriving DecidableEq

/-- A restart and the tracks it uses. -/
structure Restart where
  todo : PendingSeek
  tracks : Tracks
  /-- An earlier restart failed before it stored its plan and a track choice
      went with it. -/
  lost : Bool
  deriving DecidableEq

structure State where
  seekGen : ℕ
  pendingSeek : Option PendingSeek
  /-- The executor that holds `seek_lock`. -/
  seekLock : Option ℕ
  seekDone : ℕ × Except String ℕ
  plan : Tracks
  requests : List Request
  /-- The restart in `execute_seek`. -/
  running : Option Restart
  /-- The restart that began last: `todo` of the executor that holds the lock. -/
  last : Option Restart
  /-- The intents in the order in which they were registered. -/
  merged : List PendingSeek
  lost : Bool

def State.new (info start : Tracks) : State where
  seekGen := 0
  pendingSeek := none
  seekLock := none
  seekDone := (0, .ok 0)
  plan := info.clamp start
  requests := []
  running := none
  last := none
  merged := []
  lost := false

inductive Event
  | draw (positionMs : ℕ) (audioTrack videoTrack : Option ℕ) (replanSubs : Bool)
  | merge (i : ℕ)
  | subscribe (i : ℕ)
  | spawn (i : ℕ)
  /-- An executor has `seek_lock` and takes the pending intent, if there is one. -/
  | take (i : ℕ)
  /-- `execute_seek` returns, having stored the plan for its tracks or not. -/
  | run (i : ℕ) (stored : Bool)
  | publish (i : ℕ) (outcome : Except String ℕ)
  | release (i : ℕ)
  /-- A request sees a generation that covers its own. -/
  | receive (i : ℕ)
  /-- A request is cancelled or its 60 s are over. -/
  | leave (i : ℕ)

def State.setRequest (s : State) (i : ℕ) (r : Request) : State :=
  { s with requests := s.requests.set i r }

/-- `seek_done` has a receiver. -/
def State.hasReceiver (s : State) : Bool :=
  s.requests.any fun r => r.stage = .subscribed ∨ r.stage = .waiting

/-- An executor takes its turn. -/
def State.take (s : State) (info : Tracks) (i : ℕ) (r : Request) : State :=
  match s.pendingSeek with
  | none => s.setRequest i { r with exec := .done }
  | some todo =>
    let restart : Restart := ⟨todo, info.clamp (s.plan.choose todo), s.lost⟩
    { s.setRequest i { r with exec := .running } with
      pendingSeek := none
      seekLock := some i
      running := some restart
      last := some restart }

/-- `execute_seek` returns. -/
def State.run (s : State) (i : ℕ) (r : Request) (stored : Bool) : State :=
  let tracks := (s.running.map Restart.tracks).getD s.plan
  { s.setRequest i { r with exec := .ran } with
    plan := if stored then tracks else s.plan
    running := none
    lost := s.lost || (!stored && tracks ≠ s.plan) }

/-- The generation of the restart that began last. -/
def State.lastGeneration (s : State) : ℕ := (s.last.map (·.todo.generation)).getD 0

/-- `watch::Sender::send` stores nothing when no receiver is left. -/
def State.publish (s : State) (i : ℕ) (r : Request) (outcome : Except String ℕ) : State :=
  { s.setRequest i { r with exec := .published } with
    seekDone := if s.hasReceiver then (s.lastGeneration, outcome) else s.seekDone }

/-- One step. -/
def seekNext (info : Tracks) (s : State) : Event → Option State
  | .draw positionMs audioTrack videoTrack replanSubs =>
    let generation := s.seekGen + 1
    some { s with
      seekGen := generation
      requests := s.requests ++
        [⟨⟨generation, positionMs, audioTrack, videoTrack, replanSubs⟩, .drawn, .unspawned⟩] }
  | .merge i =>
    move s.requests i (fun r => r.stage = .drawn) fun r =>
      { s.setRequest i { r with stage := .merged } with
        pendingSeek := some (PendingSeek.merge s.pendingSeek r.intent)
        merged := s.merged ++ [r.intent] }
  | .subscribe i =>
    move s.requests i (fun r => r.stage = .merged) fun r =>
      s.setRequest i { r with stage := .subscribed }
  | .spawn i =>
    move s.requests i (fun r => r.stage = .subscribed) fun r =>
      s.setRequest i { r with stage := .waiting, exec := .queued }
  | .take i =>
    move s.requests i (fun r => r.exec = .queued ∧ s.seekLock = none) (s.take info i)
  | .run i stored =>
    move s.requests i (fun r => r.exec = .running) fun r => s.run i r stored
  | .publish i outcome =>
    move s.requests i (fun r => r.exec = .ran) fun r => s.publish i r outcome
  | .release i =>
    move s.requests i (fun r => r.exec = .published) fun r =>
      { s.setRequest i { r with exec := .done } with seekLock := none }
  | .receive i =>
    move s.requests i (fun r => r.stage = .waiting ∧ r.intent.generation ≤ s.seekDone.1) fun r =>
      s.setRequest i { r with stage := .left }
  | .leave i =>
    move s.requests i (fun r => r.stage = .waiting) fun r =>
      s.setRequest i { r with stage := .left }

/-- The seeks of a session that began on the tracks `start` of a source with
    `info` tracks. -/
def seeks (info start : Tracks) : Machine State Event := ⟨State.new info start, seekNext info⟩

/-! ## What is claimed of the seeks -/

/-- Every executor there is has returned. -/
def State.quiet (s : State) : Prop :=
  ∀ r ∈ s.requests, r.exec = .unspawned ∨ r.exec = .done

/-- Besides, no request that is registered has yet to spawn its executor. -/
def State.settled (s : State) : Prop :=
  ∀ r ∈ s.requests, r.stage = .drawn ∨ r.exec = .done

structure Settled (info : Tracks) (s : State) : Prop where
  /-- No request waits for a generation that nobody will publish. -/
  answered : s.quiet → ∀ r ∈ s.requests, r.stage = .waiting →
    r.intent.generation ≤ s.seekDone.1
  /-- The last restart goes where the newest registered intent goes. -/
  position : s.settled → ∀ m ∈ s.merged, (∀ m' ∈ s.merged, m'.generation ≤ m.generation) →
    ∃ l, s.last = some l ∧ l.todo.positionMs = m.positionMs
  /-- It uses the newest choice of each track. -/
  audio : s.settled → ∀ l, s.last = some l → l.lost = false → ∀ m ∈ s.merged, ∀ t,
    m.audioTrack = some t →
    (∀ m' ∈ s.merged, m'.audioTrack.isSome → m'.generation ≤ m.generation) →
    l.tracks.audio = min t (info.audio - 1)
  video : s.settled → ∀ l, s.last = some l → l.lost = false → ∀ m ∈ s.merged, ∀ t,
    m.videoTrack = some t →
    (∀ m' ∈ s.merged, m'.videoTrack.isSome → m'.generation ≤ m.generation) →
    l.tracks.video = min t (info.video - 1)

/-- An intent is registered after all intents of smaller generations that are
    registered at all, and a publication without a receiver passes no request
    that is registered and has yet to subscribe. -/
def InOrder (s : State) : Event → Prop
  | .merge i => ∀ r ∈ s.requests[i]?, ∀ m ∈ s.merged, m.generation < r.intent.generation
  | .publish _ _ => s.hasReceiver = true ∨ ∀ r ∈ s.requests, r.stage = .merged →
      s.lastGeneration < r.intent.generation
  | _ => True

instance (s : State) : DecidablePred (InOrder s) := fun e =>
  match e with
  | .merge i => inferInstanceAs (Decidable
      (∀ r ∈ s.requests[i]?, ∀ m ∈ s.merged, m.generation < r.intent.generation))
  | .publish _ _ => inferInstanceAs (Decidable (s.hasReceiver = true ∨
      ∀ r ∈ s.requests, r.stage = .merged → s.lastGeneration < r.intent.generation))
  | .draw _ _ _ _ | .subscribe _ | .spawn _ | .take _ | .run _ _ | .release _ | .receive _
  | .leave _ => .isTrue trivial

/-! ## Choices of tracks -/

section Tracks

variable {info start plan : Tracks} {p next : PendingSeek}

theorem Tracks.choose_merge (plan : Tracks) (prev : Option PendingSeek) (next : PendingSeek) :
    plan.choose (PendingSeek.merge prev next) =
      ((prev.map plan.choose).getD plan).choose next := by
  cases prev with
  | none => rfl
  | some prev =>
    simp only [PendingSeek.merge, Tracks.choose, Option.map_some, Option.getD_some,
      Tracks.mk.injEq]
    cases next.audioTrack <;> cases next.videoTrack <;> exact ⟨rfl, rfl⟩

@[simp] theorem Tracks.clamp_clamp (info t : Tracks) : info.clamp (info.clamp t) = info.clamp t := by
  simp [Tracks.clamp]

/-- A choice does not depend on how the track it replaces was clamped. -/
theorem Tracks.clamp_choose_congr {a b : Tracks} (h : info.clamp a = info.clamp b)
    (p : PendingSeek) : info.clamp (a.choose p) = info.clamp (b.choose p) := by
  simp only [Tracks.clamp, Tracks.mk.injEq] at h
  simp only [Tracks.clamp, Tracks.choose, Tracks.mk.injEq]
  constructor
  · cases p.audioTrack with
    | none => exact h.1
    | some t => rfl
  · cases p.videoTrack with
    | none => exact h.2
    | some t => rfl

/-- The intents of a session, one after the other. -/
def Tracks.chosen (start : Tracks) (ms : List PendingSeek) : Tracks := ms.foldl Tracks.choose start

theorem Tracks.chosen_concat (start : Tracks) (ms : List PendingSeek) (m : PendingSeek) :
    start.chosen (ms ++ [m]) = (start.chosen ms).choose m := by
  simp [Tracks.chosen]

/-- In the order of the generations the newest choice of a track stands. -/
theorem Tracks.chosen_newest (start : Tracks) (f : PendingSeek → Option ℕ) (g : Tracks → ℕ)
    (hfg : ∀ plan p, g (Tracks.choose plan p) = (f p).getD (g plan)) {ms : List PendingSeek}
    (hsorted : ms.Pairwise fun a b => a.generation < b.generation) {m : PendingSeek} (hm : m ∈ ms)
    {t : ℕ} (ht : f m = some t) (hmax : ∀ m' ∈ ms, (f m').isSome → m'.generation ≤ m.generation) :
    g (start.chosen ms) = t := by
  induction ms using List.reverseRecOn with
  | nil => cases hm
  | append_singleton ms last ih =>
    rw [List.pairwise_append] at hsorted
    obtain ⟨hms, -, hlast⟩ := hsorted
    rw [Tracks.chosen_concat, hfg]
    rcases List.mem_append.mp hm with hold | hnew
    · have hnone : f last = none := by
        rw [← Option.not_isSome_iff_eq_none]
        intro hsome
        have hle := hmax last (by simp) hsome
        have hlt := hlast m hold last (by simp)
        omega
      rw [hnone]
      exact ih hms hold fun m' hm' => hmax m' (List.mem_append_left _ hm')
    · rw [List.mem_singleton] at hnew
      subst hnew
      rw [ht, Option.getD_some]

end Tracks

/-! ## The invariant -/

section Invariant

variable {info start : Tracks} {s s' : State} {i : ℕ} {r r' : Request}

/-- The executor has an intent and has not published. -/
def Request.atWork (r : Request) : Prop := r.exec = .running ∨ r.exec = .ran

/-- The executor has yet to take its turn. -/
def Request.ahead (r : Request) : Prop := r.exec = .unspawned ∨ r.exec = .queued

/-- The request has not spawned its executor. -/
def Request.early (r : Request) : Prop :=
  r.stage = .drawn ∨ r.stage = .merged ∨ r.stage = .subscribed

/-- The intent is registered and the request is there for the answer. -/
def Request.live (r : Request) : Prop :=
  r.stage = .merged ∨ r.stage = .subscribed ∨ r.stage = .waiting

theorem Request.not_ahead (h : r.atWork) : ¬ r.ahead := by
  rintro (ha | ha) <;> rcases h with hw | hw <;> rw [ha] at hw <;> cases hw

/-- Somebody publishes a generation from `g` on, or somebody has. -/
def Covered (s : State) (g : ℕ) : Prop :=
  (g ≤ s.lastGeneration ∧ ∃ q ∈ s.requests, q.atWork) ∨ g ≤ s.seekDone.1

/-- The plan that the next restart starts from. -/
def State.base (s : State) : Tracks := (s.running.map Restart.tracks).getD s.plan

structure Inv (info start : Tracks) (s : State) : Prop where
  sorted : s.merged.Pairwise fun a b => a.generation < b.generation
  /-- The pending intent, or else the last restart, is the newest intent. -/
  pending : ∀ p, s.pendingSeek = some p → ∃ m, s.merged.getLast? = some m ∧
    p.generation = m.generation ∧ p.positionMs = m.positionMs
  last : s.pendingSeek = none → ∀ m, s.merged.getLast? = some m → ∃ l, s.last = some l ∧
    l.todo.generation = m.generation ∧ l.todo.positionMs = m.positionMs
  last_lt : ∀ p, s.pendingSeek = some p → s.lastGeneration < p.generation
  last_mem : s.lastGeneration = 0 ∨ ∃ m ∈ s.merged, s.lastGeneration = m.generation
  done_le : s.seekDone.1 ≤ s.lastGeneration
  early : ∀ r ∈ s.requests, 0 < r.intent.generation ∧ (r.early ↔ r.exec = .unspawned)
  holder : ∀ (i : ℕ) (r : Request), s.requests[i]? = some r → r.atWork ∨ r.exec = .published →
    s.seekLock = some i
  idle : s.seekLock = none → s.running = none
  resting : ∀ r ∈ s.requests, r.exec = .ran ∨ r.exec = .published → s.running = none
  covered : ∀ r ∈ s.requests, r.live →
    (r.ahead ∧ ∃ p, s.pendingSeek = some p ∧ r.intent.generation ≤ p.generation) ∨
    Covered s r.intent.generation
  progress : s.pendingSeek ≠ none → ∃ r ∈ s.requests, r.stage ≠ .drawn ∧ r.ahead
  tracks : s.lost = false →
    info.clamp ((s.pendingSeek.map s.base.choose).getD s.base) = info.clamp (start.chosen s.merged)
  used : s.pendingSeek = none → ∀ l, s.last = some l → l.lost = false →
    l.tracks = info.clamp (start.chosen s.merged)

theorem inv_new : Inv info start (State.new info start) where
  sorted := List.Pairwise.nil
  pending := nofun
  last := nofun
  last_lt := nofun
  last_mem := Or.inl rfl
  done_le := Nat.le_refl 0
  early := nofun
  holder := nofun
  idle := fun _ => rfl
  resting := nofun
  covered := nofun
  progress := fun h => absurd rfl h
  tracks := fun _ => Tracks.clamp_clamp info start
  used := nofun

/-- A request that moves leaves somebody at work at work. -/
theorem Covered.set {g : ℕ} (h : Covered s g) (hr : s.requests[i]? = some r)
    (hrequests : s'.requests = s.requests.set i r') (hwork : r.atWork → r'.atWork)
    (hlast : s'.last = s.last) (hdone : s'.seekDone = s.seekDone) : Covered s' g := by
  rcases h with ⟨hle, q, hq, hat⟩ | hle
  · refine Or.inl ⟨by rwa [State.lastGeneration, hlast], ?_⟩
    rw [hrequests]
    rcases mem_set_or_eq (p := r') hr hq with hold | rfl
    · exact ⟨q, hold, hat⟩
    · exact ⟨r', mem_set_moved hr, hwork hat⟩
  · exact Or.inr (by rwa [hdone])

/-- A request whose executor moves has registered its intent. -/
theorem Inv.early_exec (h : Inv info start s) (hr : s.requests[i]? = some r)
    (he : r.exec ≠ .unspawned) {exec : Exec} (he' : exec ≠ .unspawned) :
    ∀ q ∈ s.requests.set i { r with exec },
      0 < q.intent.generation ∧ (q.early ↔ q.exec = .unspawned) := by
  intro q hq
  have hearly := h.early r (List.mem_of_getElem? hr)
  rcases mem_set_cases hq with rfl | ⟨j, -, hold⟩
  · exact ⟨hearly.1, iff_of_false (fun hd => he (hearly.2.mp hd)) he'⟩
  · exact h.early q (List.mem_of_getElem? hold)

/-- A request that moves on, its executor neither starting nor ending a turn. -/
theorem Inv.setRequest (h : Inv info start s) (hr : s.requests[i]? = some r)
    (hintent : r'.intent = r.intent) (hstage : r'.stage ≠ .drawn)
    (hearly : r'.early ↔ r'.exec = .unspawned) (hlive : r'.live → r.live)
    (hexec : r'.exec = r.exec ∨ (r.exec = .unspawned ∧ r'.exec = .queued)) :
    Inv info start (s.setRequest i r') := by
  have hmem : r ∈ s.requests := List.mem_of_getElem? hr
  have hwork : r'.atWork ↔ r.atWork := by
    rcases hexec with heq | ⟨hold, hnew⟩
    · simp [Request.atWork, heq]
    · simp [Request.atWork, hold, hnew]
  have hahead : r'.ahead ↔ r.ahead := by
    rcases hexec with heq | ⟨hold, hnew⟩
    · simp [Request.ahead, heq]
    · simp [Request.ahead, hold, hnew]
  have hpublished : r'.exec = .published → r.exec = .published := by
    rcases hexec with heq | ⟨-, hnew⟩
    · rw [heq]
      exact id
    · rw [hnew]
      nofun
  have hcover : ∀ {g}, Covered s g → Covered (s.setRequest i r') g := fun hg =>
    hg.set hr rfl hwork.mpr rfl rfl
  exact
    { h with
      early := by
        intro q hq
        rcases mem_set_cases hq with rfl | ⟨j, -, hold⟩
        · exact ⟨hintent ▸ (h.early r hmem).1, hearly⟩
        · exact h.early q (List.mem_of_getElem? hold)
      resting := by
        intro q hq hqe
        rcases mem_set_cases hq with rfl | ⟨j, -, hold⟩
        · rcases hexec with heq | ⟨-, hnew⟩
          · exact h.resting r hmem (by rwa [heq] at hqe)
          · rcases hqe with hqe | hqe <;> rw [hnew] at hqe <;> cases hqe
        · exact h.resting q (List.mem_of_getElem? hold) hqe
      holder := by
        intro j q hj hq
        rcases getElem?_set_cases hj with ⟨rfl, rfl⟩ | ⟨-, hold⟩
        · exact h.holder j r hr (hq.imp hwork.mp hpublished)
        · exact h.holder j q hold hq
      covered := by
        intro q hq hql
        rcases mem_set_cases hq with rfl | ⟨j, -, hold⟩
        · rw [hintent]
          exact (h.covered r hmem (hlive hql)).imp (And.imp_left hahead.mpr) hcover
        · exact (h.covered q (List.mem_of_getElem? hold) hql).imp_right hcover
      progress := by
        intro hp
        obtain ⟨q, hq, hqs, hqa⟩ := h.progress hp
        rcases mem_set_or_eq (p := r') hr hq with hold | rfl
        · exact ⟨q, hold, hqs, hqa⟩
        · exact ⟨r', mem_set_moved hr, hstage, hahead.mpr hqa⟩ }

theorem Inv.spawned (h : Inv info start s) (hr : r ∈ s.requests) (hstage : r.stage = .waiting) :
    r.exec ≠ .unspawned := by
  rw [Ne, ← (h.early r hr).2]
  rintro (he | he | he) <;> rw [hstage] at he <;> cases he

/-- A request that is answered or gives up. -/
theorem Inv.leave (h : Inv info start s) (hr : s.requests[i]? = some r)
    (hstage : r.stage = .waiting) : Inv info start (s.setRequest i { r with stage := .left }) := by
  have hspawned : r.exec ≠ .unspawned := h.spawned (List.mem_of_getElem? hr) hstage
  exact h.setRequest hr rfl nofun
    (iff_of_false (by rintro (he | he | he) <;> cases he) hspawned)
    (fun _ => Or.inr (Or.inr hstage)) (Or.inl rfl)

/-- A new request, whose intent is not registered. -/
theorem Inv.draw (h : Inv info start s) {intent : PendingSeek} (hpos : 0 < intent.generation)
    (seekGen : ℕ) :
    Inv info start { s with seekGen, requests := s.requests ++ [⟨intent, .drawn, .unspawned⟩] } where
  sorted := h.sorted
  pending := h.pending
  last := h.last
  last_lt := h.last_lt
  last_mem := h.last_mem
  done_le := h.done_le
  early := by
    intro q hq
    rcases List.mem_append.mp hq with hold | hnew
    · exact h.early q hold
    · rw [List.mem_singleton.mp hnew]
      exact ⟨hpos, iff_of_true (Or.inl rfl) rfl⟩
  resting := by
    intro q hq hqe
    rcases List.mem_append.mp hq with hold | hnew
    · exact h.resting q hold hqe
    · rw [List.mem_singleton.mp hnew] at hqe
      rcases hqe with hqe | hqe <;> cases hqe
  holder := by
    intro j q hj hq
    rcases getElem?_append_cases hj with ⟨-, rfl⟩ | hold
    · rcases hq with (hq | hq) | hq <;> cases hq
    · exact h.holder j q hold hq
  idle := h.idle
  covered := by
    intro q hq hql
    rcases List.mem_append.mp hq with hold | hnew
    · refine (h.covered q hold hql).imp_right (Or.imp_left ?_)
      rintro ⟨hle, w, hw, hat⟩
      exact ⟨hle, w, List.mem_append_left _ hw, hat⟩
    · rw [List.mem_singleton.mp hnew] at hql
      rcases hql with hq | hq | hq <;> cases hq
  progress := by
    intro hp
    obtain ⟨q, hq, hq'⟩ := h.progress hp
    exact ⟨q, List.mem_append_left _ hq, hq'⟩
  tracks := h.tracks
  used := h.used

/-- An intent is registered in its turn. -/
theorem Inv.merge (h : Inv info start s) (hr : s.requests[i]? = some r)
    (hstage : r.stage = .drawn) (hturn : ∀ m ∈ s.merged, m.generation < r.intent.generation) :
    Inv info start { s.setRequest i { r with stage := .merged } with
      pendingSeek := some (PendingSeek.merge s.pendingSeek r.intent)
      merged := s.merged ++ [r.intent] } := by
  have hmem : r ∈ s.requests := List.mem_of_getElem? hr
  have hexec : r.exec = .unspawned := (h.early r hmem).2.mp (Or.inl hstage)
  have hgen : (PendingSeek.merge s.pendingSeek r.intent).generation = r.intent.generation ∧
      (PendingSeek.merge s.pendingSeek r.intent).positionMs = r.intent.positionMs := by
    cases s.pendingSeek <;> exact ⟨rfl, rfl⟩
  have hcover : ∀ {g}, Covered s g → Covered { s.setRequest i { r with stage := .merged } with
      pendingSeek := some (PendingSeek.merge s.pendingSeek r.intent)
      merged := s.merged ++ [r.intent] } g := fun hg => hg.set hr rfl id rfl rfl
  exact
    { sorted := by
        rw [List.pairwise_append]
        refine ⟨h.sorted, List.pairwise_singleton _ _, fun m hm m' hm' => ?_⟩
        rw [List.mem_singleton.mp hm']
        exact hturn m hm
      pending := by
        rintro p ⟨⟩
        exact ⟨r.intent, List.getLast?_concat, hgen⟩
      last := nofun
      last_lt := by
        rintro p ⟨⟩
        rw [hgen.1]
        rcases h.last_mem with hzero | ⟨m, hm, heq⟩
        · exact hzero.trans_lt (h.early r hmem).1
        · exact heq.trans_lt (hturn m hm)
      last_mem := h.last_mem.imp_right fun ⟨m, hm, heq⟩ => ⟨m, List.mem_append_left _ hm, heq⟩
      done_le := h.done_le
      early := by
        intro q hq
        rcases mem_set_cases hq with rfl | ⟨j, -, hold⟩
        · exact ⟨(h.early r hmem).1, iff_of_true (Or.inr (Or.inl rfl)) hexec⟩
        · exact h.early q (List.mem_of_getElem? hold)
      resting := by
        intro q hq hqe
        rcases mem_set_cases hq with rfl | ⟨j, -, hold⟩
        · exact h.resting r hmem hqe
        · exact h.resting q (List.mem_of_getElem? hold) hqe
      holder := by
        intro j q hj hq
        rcases getElem?_set_cases hj with ⟨rfl, rfl⟩ | ⟨-, hold⟩
        · exact h.holder j r hr hq
        · exact h.holder j q hold hq
      idle := h.idle
      covered := by
        intro q hq hql
        rcases mem_set_cases hq with rfl | ⟨j, -, hold⟩
        · exact Or.inl ⟨Or.inl hexec, _, rfl, hgen.1.ge⟩
        · rcases h.covered q (List.mem_of_getElem? hold) hql with ⟨hahead, p, hp, hle⟩ | hc
          · obtain ⟨m, hm, hpm, -⟩ := h.pending p hp
            have hlt := hturn m (List.mem_of_getLast? hm)
            exact Or.inl ⟨hahead, _, rfl, by rw [hgen.1]; omega⟩
          · exact Or.inr (hcover hc)
      progress := fun _ => ⟨_, mem_set_moved hr, nofun, Or.inl hexec⟩
      tracks := by
        intro hlost
        have hbase := h.tracks hlost
        rw [Tracks.chosen_concat, ← Tracks.clamp_choose_congr hbase]
        simp only [Option.map_some, Option.getD_some]
        rw [Tracks.choose_merge]
        rfl
      used := nofun }

/-- An executor that finds nothing to do. -/
theorem Inv.take_none (h : Inv info start s) (hr : s.requests[i]? = some r)
    (hexec : r.exec = .queued) (hnone : s.pendingSeek = none) :
    Inv info start (s.setRequest i { r with exec := .done }) := by
  have hmem : r ∈ s.requests := List.mem_of_getElem? hr
  have hcover : ∀ {g}, Covered s g → Covered (s.setRequest i { r with exec := .done }) g :=
    fun hg => hg.set hr rfl (by rintro (hw | hw) <;> rw [hexec] at hw <;> cases hw) rfl rfl
  have hcovered : ∀ q ∈ s.requests, q.live → Covered s q.intent.generation := by
    intro q hq hql
    refine (h.covered q hq hql).resolve_left ?_
    rintro ⟨-, p, hp, -⟩
    rw [hnone] at hp
    cases hp
  exact
    { h with
      early := h.early_exec hr (by simp [hexec]) nofun
      holder := by
        intro j q hj hq
        rcases getElem?_set_cases hj with ⟨rfl, rfl⟩ | ⟨-, hold⟩
        · rcases hq with (hq | hq) | hq <;> cases hq
        · exact h.holder j q hold hq
      resting := by
        intro q hq hqe
        rcases mem_set_cases hq with rfl | ⟨j, -, hold⟩
        · rcases hqe with hqe | hqe <;> cases hqe
        · exact h.resting q (List.mem_of_getElem? hold) hqe
      covered := by
        intro q hq hql
        rcases mem_set_cases hq with rfl | ⟨j, -, hold⟩
        · exact Or.inr (hcover (hcovered r hmem hql))
        · exact Or.inr (hcover (hcovered q (List.mem_of_getElem? hold) hql))
      progress := fun hp => absurd hnone hp }

/-- The executor that takes the pending intent covers every registered one. -/
theorem Inv.take_some (h : Inv info start s) (hr : s.requests[i]? = some r)
    (hexec : r.exec = .queued) (hlock : s.seekLock = none) {todo : PendingSeek}
    (htodo : s.pendingSeek = some todo) : Inv info start (s.take info i r) := by
  have hmem : r ∈ s.requests := List.mem_of_getElem? hr
  have hidle : s.running = none := h.idle hlock
  have hfree : ∀ q ∈ s.requests, ¬ (q.atWork ∨ q.exec = .published) := by
    intro q hq hat
    obtain ⟨j, hj⟩ := List.mem_iff_getElem?.mp hq
    have hheld := h.holder j q hj hat
    rw [hlock] at hheld
    cases hheld
  have hnewest : ∀ q ∈ s.requests, q.live → q.intent.generation ≤ todo.generation := by
    intro q hq hql
    rcases h.covered q hq hql with ⟨-, p, hp, hle⟩ | ⟨-, w, hw, hat⟩ | hle
    · rw [htodo] at hp
      cases hp
      exact hle
    · exact absurd (Or.inl hat) (hfree w hw)
    · exact (hle.trans h.done_le).trans (h.last_lt todo htodo).le
  obtain ⟨m, hm, hgen, hpos⟩ := h.pending todo htodo
  have hused : s.lost = false →
      info.clamp (s.plan.choose todo) = info.clamp (start.chosen s.merged) := by
    intro hlost
    have hbase := h.tracks hlost
    rwa [htodo, State.base, hidle] at hbase
  simp only [State.take, htodo]
  exact
    { sorted := h.sorted
      pending := nofun
      last := by
        intro _ m' hm'
        rw [show s.merged.getLast? = some m' from hm'] at hm
        cases hm
        exact ⟨_, rfl, hgen, hpos⟩
      last_lt := nofun
      last_mem := Or.inr ⟨m, List.mem_of_getLast? hm, hgen⟩
      done_le := h.done_le.trans (h.last_lt todo htodo).le
      early := h.early_exec hr (by simp [hexec]) nofun
      holder := by
        intro j q hj hq
        rcases getElem?_set_cases hj with ⟨rfl, rfl⟩ | ⟨-, hold⟩
        · rfl
        · have hheld := h.holder j q hold hq
          rw [hlock] at hheld
          cases hheld
      idle := nofun
      resting := by
        intro q hq hqe
        rcases mem_set_cases hq with rfl | ⟨j, -, hold⟩
        · rcases hqe with hqe | hqe <;> cases hqe
        · exact absurd (hqe.imp_left Or.inr) (hfree q (List.mem_of_getElem? hold))
      covered := by
        intro q hq hql
        have hwork : ∃ w ∈ s.requests.set i { r with exec := .running }, w.atWork :=
          ⟨_, mem_set_moved hr, Or.inl rfl⟩
        rcases mem_set_cases hq with rfl | ⟨j, -, hold⟩
        · exact Or.inr (Or.inl ⟨hnewest r hmem hql, hwork⟩)
        · exact Or.inr (Or.inl ⟨hnewest q (List.mem_of_getElem? hold) hql, hwork⟩)
      progress := fun hp => absurd rfl hp
      tracks := fun hlost => (Tracks.clamp_clamp _ _).trans (hused hlost)
      used := by
        rintro - l ⟨⟩ hlost
        exact hused hlost }

/-- `execute_seek` returns. -/
theorem Inv.run (h : Inv info start s) (hr : s.requests[i]? = some r) (hexec : r.exec = .running)
    (stored : Bool) : Inv info start (s.run i r stored) := by
  have hmem : r ∈ s.requests := List.mem_of_getElem? hr
  have hworks : r.atWork := Or.inl hexec
  have hcover : ∀ {g}, Covered s g → Covered (s.run i r stored) g := fun hg =>
    hg.set hr rfl (fun _ => Or.inr rfl) rfl rfl
  have hbase : (s.run i r stored).lost = false →
      s.lost = false ∧ (s.run i r stored).base = s.base := by
    intro hlost
    have hlost' : s.lost = false ∧ (stored = false → s.base = s.plan) := by
      simpa [State.run, State.base] using hlost
    refine ⟨hlost'.1, ?_⟩
    cases stored with
    | false => exact (hlost'.2 rfl).symm
    | true => rfl
  exact
    { h with
      early := h.early_exec hr (by simp [hexec]) nofun
      holder := by
        intro j q hj hq
        rcases getElem?_set_cases hj with ⟨rfl, rfl⟩ | ⟨-, hold⟩
        · exact h.holder j r hr (Or.inl hworks)
        · exact h.holder j q hold hq
      idle := fun _ => rfl
      resting := fun _ _ _ => rfl
      covered := by
        intro q hq hql
        rcases mem_set_cases hq with rfl | ⟨j, -, hold⟩
        · refine Or.inr (hcover ((h.covered r hmem hql).resolve_left ?_))
          exact fun hahead => Request.not_ahead hworks hahead.1
        · exact (h.covered q (List.mem_of_getElem? hold) hql).imp_right hcover
      progress := by
        intro hp
        obtain ⟨q, hq, hqs, hqa⟩ := h.progress hp
        rcases mem_set_or_eq (p := { r with exec := .ran }) hr hq with hold | rfl
        · exact ⟨q, hold, hqs, hqa⟩
        · exact absurd hqa (Request.not_ahead hworks)
      tracks := by
        intro hlost
        rw [(hbase hlost).2]
        exact h.tracks (hbase hlost).1 }

/-- The outcome of the last restart is published, past nobody. -/
theorem Inv.publish (h : Inv info start s) (hr : s.requests[i]? = some r) (hexec : r.exec = .ran)
    {outcome : Except String ℕ}
    (hheard : s.hasReceiver = true ∨ ∀ r ∈ s.requests, r.stage = .merged →
      s.lastGeneration < r.intent.generation) :
    Inv info start (s.publish i r outcome) ∧ s.seekDone.1 ≤ (s.publish i r outcome).seekDone.1 := by
  have hmem : r ∈ s.requests := List.mem_of_getElem? hr
  have hworks : r.atWork := Or.inr hexec
  have hgrow : s.seekDone.1 ≤ (s.publish i r outcome).seekDone.1 := by
    simp only [State.publish]
    split
    · exact h.done_le
    · exact le_rfl
  have hcover : ∀ q ∈ s.requests, q.live → Covered s q.intent.generation →
      Covered (s.publish i r outcome) q.intent.generation := by
    intro q hq hql hc
    rcases hc with ⟨hle, -⟩ | hle
    · refine Or.inr ?_
      simp only [State.publish]
      split
      · exact hle
      · rename_i hdeaf
        have hdeaf' : ∀ q ∈ s.requests, q.stage ≠ .subscribed ∧ q.stage ≠ .waiting := by
          simpa [State.hasReceiver] using hdeaf
        rcases hql with hq' | hq' | hq'
        · exact absurd (hheard.resolve_left hdeaf q hq hq') (Nat.not_lt.mpr hle)
        · exact absurd hq' (hdeaf' q hq).1
        · exact absurd hq' (hdeaf' q hq).2
    · exact Or.inr (hle.trans hgrow)
  refine ⟨?_, hgrow⟩
  exact
    { h with
      done_le := by
        simp only [State.publish]
        split
        · exact le_rfl
        · exact h.done_le
      early := h.early_exec hr (by simp [hexec]) nofun
      holder := by
        intro j q hj hq
        rcases getElem?_set_cases hj with ⟨rfl, rfl⟩ | ⟨-, hold⟩
        · exact h.holder j r hr (Or.inl hworks)
        · exact h.holder j q hold hq
      resting := fun _ _ _ => h.resting r hmem (Or.inl hexec)
      covered := by
        intro q hq hql
        rcases mem_set_cases hq with rfl | ⟨j, -, hold⟩
        · refine Or.inr (hcover r hmem hql ((h.covered r hmem hql).resolve_left ?_))
          exact fun hahead => Request.not_ahead hworks hahead.1
        · have hold' := List.mem_of_getElem? hold
          exact (h.covered q hold' hql).imp_right (hcover q hold' hql)
      progress := by
        intro hp
        obtain ⟨q, hq, hqs, hqa⟩ := h.progress hp
        rcases mem_set_or_eq (p := { r with exec := .published }) hr hq with hold | rfl
        · exact ⟨q, hold, hqs, hqa⟩
        · exact absurd hqa (Request.not_ahead hworks) }

/-- The lock is given back. -/
theorem Inv.release (h : Inv info start s) (hr : s.requests[i]? = some r)
    (hexec : r.exec = .published) :
    Inv info start { s.setRequest i { r with exec := .done } with seekLock := none } := by
  have hmem : r ∈ s.requests := List.mem_of_getElem? hr
  have hlock : s.seekLock = some i := h.holder i r hr (Or.inr hexec)
  have hahead : ¬ r.ahead := by simp [Request.ahead, hexec]
  have hcover : ∀ {g}, Covered s g →
      Covered { s.setRequest i { r with exec := .done } with seekLock := none } g := fun hg =>
    hg.set hr rfl (by simp [Request.atWork, hexec]) rfl rfl
  exact
    { h with
      early := h.early_exec hr (by simp [hexec]) nofun
      holder := by
        intro j q hj hq
        rcases getElem?_set_cases hj with ⟨-, rfl⟩ | ⟨hne, hold⟩
        · rcases hq with (hq | hq) | hq <;> cases hq
        · have hheld := h.holder j q hold hq
          rw [hlock] at hheld
          exact absurd (Option.some.inj hheld).symm hne
      idle := fun _ => h.resting r hmem (Or.inr hexec)
      resting := fun _ _ _ => h.resting r hmem (Or.inr hexec)
      covered := by
        intro q hq hql
        rcases mem_set_cases hq with rfl | ⟨j, -, hold⟩
        · refine Or.inr (hcover ((h.covered r hmem hql).resolve_left ?_))
          exact fun hw => hahead hw.1
        · exact (h.covered q (List.mem_of_getElem? hold) hql).imp_right hcover
      progress := by
        intro hp
        obtain ⟨q, hq, hqs, hqa⟩ := h.progress hp
        rcases mem_set_or_eq (p := { r with exec := .done }) hr hq with hold | rfl
        · exact ⟨q, hold, hqs, hqa⟩
        · exact absurd hqa hahead }

/-- Every event of a run in order keeps the invariant and lowers no published
    generation. -/
theorem inv_next {e : Event} (h : Inv info start s) (hok : InOrder s e)
    (hs : seekNext info s e = some s') : Inv info start s' ∧ s.seekDone.1 ≤ s'.seekDone.1 := by
  cases e with
  | draw positionMs audioTrack videoTrack replanSubs =>
    cases hs
    exact ⟨h.draw (Nat.succ_pos _) _, le_rfl⟩
  | merge i =>
    obtain ⟨r, hr, hstage, rfl⟩ := move_eq_some.mp hs
    exact ⟨h.merge hr hstage (hok r hr), le_rfl⟩
  | subscribe i =>
    obtain ⟨r, hr, hstage, rfl⟩ := move_eq_some.mp hs
    have hlive : r.live := Or.inl hstage
    have hexec : r.exec = .unspawned :=
      (h.early r (List.mem_of_getElem? hr)).2.mp (Or.inr (Or.inl hstage))
    exact ⟨h.setRequest hr rfl nofun (iff_of_true (Or.inr (Or.inr rfl)) hexec) (fun _ => hlive)
      (Or.inl rfl), le_rfl⟩
  | spawn i =>
    obtain ⟨r, hr, hstage, rfl⟩ := move_eq_some.mp hs
    have hlive : r.live := Or.inr (Or.inl hstage)
    have hexec : r.exec = .unspawned :=
      (h.early r (List.mem_of_getElem? hr)).2.mp (Or.inr (Or.inr hstage))
    exact ⟨h.setRequest hr rfl nofun (by simp [Request.early]) (fun _ => hlive)
      (Or.inr ⟨hexec, rfl⟩), le_rfl⟩
  | take i =>
    obtain ⟨r, hr, ⟨hexec, hlock⟩, rfl⟩ := move_eq_some.mp hs
    cases htodo : s.pendingSeek with
    | none =>
      rw [State.take, htodo]
      exact ⟨h.take_none hr hexec htodo, le_rfl⟩
    | some todo =>
      refine ⟨h.take_some hr hexec hlock htodo, ?_⟩
      rw [State.take, htodo]
      exact le_rfl
  | run i stored =>
    obtain ⟨r, hr, hexec, rfl⟩ := move_eq_some.mp hs
    exact ⟨h.run hr hexec stored, le_rfl⟩
  | publish i outcome =>
    obtain ⟨r, hr, hexec, rfl⟩ := move_eq_some.mp hs
    exact h.publish hr hexec hok
  | release i =>
    obtain ⟨r, hr, hexec, rfl⟩ := move_eq_some.mp hs
    exact ⟨h.release hr hexec, le_rfl⟩
  | receive i =>
    obtain ⟨r, hr, ⟨hstage, -⟩, rfl⟩ := move_eq_some.mp hs
    exact ⟨h.leave hr hstage, le_rfl⟩
  | leave i =>
    obtain ⟨r, hr, hstage, rfl⟩ := move_eq_some.mp hs
    exact ⟨h.leave hr hstage, le_rfl⟩

theorem inv_of_reaches (h : (seeks info start).Reaches InOrder s) : Inv info start s :=
  h.invariant inv_new fun ha hok hb => (inv_next ha hok hb).1

theorem Inv.answered (h : Inv info start s) (hquiet : s.quiet) (hr : r ∈ s.requests)
    (hstage : r.stage = .waiting) : r.intent.generation ≤ s.seekDone.1 := by
  have hdone : r.exec = .done := (hquiet r hr).resolve_left (h.spawned hr hstage)
  rcases h.covered r hr (Or.inr (Or.inr hstage)) with ⟨hahead, -⟩ | ⟨-, q, hq, hat⟩ | hle
  · rcases hahead with ha | ha <;> rw [hdone] at ha <;> cases ha
  · rcases hat with ha | ha <;> rcases hquiet q hq with hq' | hq' <;> rw [ha] at hq' <;> cases hq'
  · exact hle

theorem Inv.pending_none (h : Inv info start s) (hsettled : s.settled) : s.pendingSeek = none := by
  by_contra hp
  obtain ⟨r, hr, hstage, hahead⟩ := h.progress hp
  have hdone : r.exec = .done := (hsettled r hr).resolve_left hstage
  rcases hahead with ha | ha <;> rw [hdone] at ha <;> cases ha

/-- The newest registered intent is the one registered last. -/
theorem Inv.newest (h : Inv info start s) {m : PendingSeek} (hm : m ∈ s.merged)
    (hmax : ∀ m' ∈ s.merged, m'.generation ≤ m.generation) : s.merged.getLast? = some m := by
  have hsorted := h.sorted
  rcases List.eq_nil_or_concat' s.merged with hnil | ⟨ms, last, heq⟩
  · rw [hnil] at hm
    cases hm
  · rw [heq, List.pairwise_append] at hsorted
    rw [heq] at hm hmax ⊢
    rcases List.mem_append.mp hm with hold | hnew
    · have hlt := hsorted.2.2 m hold last (by simp)
      have hle := hmax last (by simp)
      omega
    · rw [List.getLast?_concat, List.mem_singleton.mp hnew]

end Invariant

/-! ## No request is left waiting -/

/-- In every run in order every state is as claimed, and no later state of the
    run has a smaller published generation. -/
theorem settled {info start : Tracks} {s : State} (h : (seeks info start).Reaches InOrder s) :
    Settled info s ∧
    ∀ s', (seeks info start).Steps InOrder s s' → s.seekDone.1 ≤ s'.seekDone.1 := by
  have hinv := inv_of_reaches h
  refine ⟨?_, fun s' hs' => hs'.monotone (fun s => s.seekDone.1) hinv
    fun ha hok hb => inv_next ha hok hb⟩
  exact
    { answered := fun hquiet r hr hstage => hinv.answered hquiet hr hstage
      position := by
        intro hsettled m hm hmax
        obtain ⟨l, hl, -, hpos⟩ := hinv.last (hinv.pending_none hsettled) m (hinv.newest hm hmax)
        exact ⟨l, hl, hpos⟩
      audio := by
        intro hsettled l hl hlost m hm t ht hmax
        have htracks := hinv.used (hinv.pending_none hsettled) l hl hlost
        rw [htracks, ← Tracks.chosen_newest start PendingSeek.audioTrack Tracks.audio
          (fun _ _ => rfl) hinv.sorted hm ht hmax]
        rfl
      video := by
        intro hsettled l hl hlost m hm t ht hmax
        have htracks := hinv.used (hinv.pending_none hsettled) l hl hlost
        rw [htracks, ← Tracks.chosen_newest start PendingSeek.videoTrack Tracks.video
          (fun _ _ => rfl) hinv.sorted hm ht hmax]
        rfl }

/-- Two requests, the first cancelled while its restart runs. -/
def calm : List Event :=
  [.draw 5000 (some 1) none false, .merge 0, .subscribe 0, .spawn 0, .take 0, .leave 0,
    .draw 9000 none none false, .merge 1, .subscribe 1, .spawn 1, .run 0 true, .publish 0 (.ok 0),
    .release 0, .take 1, .run 1 true, .publish 1 (.ok 0), .release 1]

theorem settled_calm : ∃ s, (seeks ⟨2, 1⟩ ⟨0, 0⟩).replay (fun s e => decide (InOrder s e)) calm
      (State.new ⟨2, 1⟩ ⟨0, 0⟩) = some s ∧ Settled ⟨2, 1⟩ s ∧
      ∀ s', (seeks ⟨2, 1⟩ ⟨0, 0⟩).Steps InOrder s s' → s.seekDone.1 ≤ s'.seekDone.1 := by
  have hrun : ((seeks ⟨2, 1⟩ ⟨0, 0⟩).replay (fun s e => decide (InOrder s e)) calm
      (State.new ⟨2, 1⟩ ⟨0, 0⟩)).isSome := by decide
  obtain ⟨s, hs⟩ := Option.isSome_iff_exists.mp hrun
  exact ⟨s, hs, settled ((Machine.reaches_of_replay hs).mono fun _ _ => of_decide_eq_true)⟩

/-! ## Two ways to wait for nobody -/

/-- A request waits and nobody is left to publish its generation. -/
def State.stuck (s : State) : Bool :=
  (s.requests.all fun r => r.exec = .unspawned ∨ r.exec = .done) &&
    s.requests.any fun r => r.stage = .waiting ∧ s.seekDone.1 < r.intent.generation

theorem not_settled_of_stuck {info : Tracks} {s : State} (h : s.stuck = true) :
    ¬ Settled info s := by
  intro hsettled
  simp only [State.stuck, Bool.and_eq_true, List.all_eq_true, List.any_eq_true,
    decide_eq_true_eq] at h
  obtain ⟨hquiet, r, hr, hstage, hlt⟩ := h
  exact absurd (hsettled.answered hquiet r hr hstage) (Nat.not_le.mpr hlt)

theorem stuck_run {info start : Tracks} {es : List Event}
    (h : ((seeks info start).replay (fun _ _ => true) es (State.new info start)).any
      State.stuck = true) :
    ∃ s, (seeks info start).replay (fun _ _ => true) es (State.new info start) = some s ∧
      (seeks info start).Reachable s ∧ ¬ Settled info s := by
  obtain ⟨s, hs, hstuck⟩ := (Option.any_eq_true _ _).mp h
  exact ⟨s, hs, (Machine.reaches_of_replay hs).reachable, not_settled_of_stuck hstuck⟩

/-- A burst of two: the second request registers before the first, which then
    takes its place. -/
def overtaken : List Event :=
  [.draw 5000 none none false, .draw 9000 none none false, .merge 1, .subscribe 1, .spawn 1,
    .merge 0, .subscribe 0, .spawn 0, .take 0, .run 0 true, .publish 0 (.ok 0), .release 0,
    .take 1]

/-- A request is cancelled and the next one registers; the executor of the first
    publishes before the second has subscribed. -/
def unheard : List Event :=
  [.draw 5000 none none false, .merge 0, .subscribe 0, .spawn 0, .leave 0,
    .draw 9000 none none false, .merge 1, .take 0, .run 0 true, .publish 0 (.ok 0), .release 0,
    .subscribe 1, .spawn 1, .take 1]

/-- Either run leaves a request waiting for a generation that nobody publishes. -/
theorem not_settled :
    (∃ s, (seeks ⟨1, 1⟩ ⟨0, 0⟩).replay (fun _ _ => true) overtaken (State.new ⟨1, 1⟩ ⟨0, 0⟩) = some s ∧
      (seeks ⟨1, 1⟩ ⟨0, 0⟩).Reachable s ∧ ¬ Settled ⟨1, 1⟩ s) ∧
    ∃ s, (seeks ⟨1, 1⟩ ⟨0, 0⟩).replay (fun _ _ => true) unheard (State.new ⟨1, 1⟩ ⟨0, 0⟩) = some s ∧
      (seeks ⟨1, 1⟩ ⟨0, 0⟩).Reachable s ∧ ¬ Settled ⟨1, 1⟩ s :=
  ⟨stuck_run (by decide), stuck_run (by decide)⟩

end Kahawai.Hub.Sessions.Seek
