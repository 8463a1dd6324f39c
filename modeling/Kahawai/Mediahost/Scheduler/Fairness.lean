import Kahawai.Mediahost.Scheduler.Priority

/-!
# Turns between owners

`fair_order` compares the lifetime admission counts of the owners of one
priority, so two owners alternate when their counts are equal at the start.
`join_service_level` is there to make them equal when an owner joins. It
raises the count of the joining owner to the lowest count among the owners
waiting; it does nothing when nobody waits and never lowers a count.

Events are finer than operations here: one event is the part of an operation
before the loop of `dispatch`, or one turn of that loop. An event that is not
possible in a state leaves it as it is.

Results:
* `unfair_stretch`: an owner that joins first after others have been served
  takes two turns in a row while the other waits.
* `turns_le`: over any stretch in which both owners wait, an owner either takes
  no turn or ends at most one admission count above the other.
* `fair_of_level`: over any stretch that starts with equal counts the numbers
  of turns differ by at most one.
* `level_of_join`: an owner that joins while only the other one waits, and that
  was served no more often, starts with an equal count.
-/

namespace Kahawai.Mediahost.Scheduler

open Kahawai.Lib

/-! ## Events -/

/-- A part of an operation. -/
inductive Event
  /-- An operation up to the loop of its `dispatch`. -/
  | start (c : Clock) (op : Op)
  /-- One turn of that loop. -/
  | turn

/-- The state after an event. An operation starts only when the loop of the
    operation before it has ended. -/
def advance (s : State) : Event → State
  | .start c op =>
    if (admitNext s).isNone then
      if op.settles s then loopStart s (c, op) else op.enter c s
    else s
  | .turn =>
    match admitNext s with
    | none => s
    | some (_, s') => s'

/-- The job an event admits. -/
def admitted (s : State) : Event → Option Job
  | .start _ _ => none
  | .turn => (admitNext s).map Prod.fst

/-- The events one after another. -/
def advanceAll (events : List Event) (s : State) : State := events.foldl advance s

/-- How often the events admit a job of the lane. -/
def turnsOf (lane : Lane) : List Event → State → ℕ
  | [], _ => 0
  | e :: events, s =>
    (if (admitted s e).any fun job => job.lane = lane then 1 else 0) +
      turnsOf lane events (advance s e)

/-- Both owners have pending jobs at the priority, and these jobs need the same
    resources. -/
def bothWait (p : Priority) (a b : Option String) (s : State) : Bool :=
  (s.pending.any fun job => job.lane = (p, a)) && (s.pending.any fun job => job.lane = (p, b)) &&
    s.pending.all fun job => s.pending.all fun job' =>
      job.lane ≠ (p, a) || job'.lane ≠ (p, b) || job.resources = job'.resources

/-- Both owners wait whenever an event happens. -/
def contended (p : Priority) (a b : Option String) : List Event → State → Bool
  | [], _ => true
  | e :: events, s => bothWait p a b s && contended p a b events (advance s e)

theorem bothWait_iff {p : Priority} {a b : Option String} {s : State} :
    bothWait p a b s = true ↔ (∃ job ∈ s.pending, job.lane = (p, a)) ∧
      (∃ job ∈ s.pending, job.lane = (p, b)) ∧
      ∀ job ∈ s.pending, ∀ job' ∈ s.pending, job.lane = (p, a) → job'.lane = (p, b) →
        job.resources = job'.resources := by
  simp only [bothWait, Bool.and_eq_true, List.any_eq_true, decide_eq_true_eq, List.all_eq_true,
    Bool.or_eq_true, and_assoc]
  refine and_congr_right fun _ => and_congr_right fun _ => forall₂_congr fun job _ =>
    forall₂_congr fun job' _ => ?_
  tauto

theorem bothWait_symm {p : Priority} {a b : Option String} {s : State} :
    bothWait p a b s = bothWait p b a s := by
  rw [Bool.eq_iff_iff, bothWait_iff, bothWait_iff]
  constructor
  · rintro ⟨ha, hb, h⟩
    exact ⟨hb, ha, fun j hj j' hj' hb ha => (h j' hj' j hj ha hb).symm⟩
  · rintro ⟨hb, ha, h⟩
    exact ⟨ha, hb, fun j hj j' hj' ha hb => (h j' hj' j hj hb ha).symm⟩

theorem contended_symm {p : Priority} {a b : Option String} (events : List Event) (s : State) :
    contended p a b events s = contended p b a events s := by
  induction events generalizing s with
  | nil => rfl
  | cons e events ih => rw [contended, contended, bothWait_symm, ih]

/-! ## Ranks -/

/-- What the loop of `fair_order` has computed after the indexes `done`. -/
structure RanksOf (pending : List Job) (served : Lane → ℕ) (done : List (Fin pending.length))
    (t : Ranks pending.length) : Prop where
  nextRank : ∀ lane : Lane, (∀ i ∈ done, (pending.get i).lane ≠ lane) → t.nextRank lane = 0
  head : ∀ i ∈ done, ∃ j ∈ done, (pending.get j).lane = (pending.get i).lane ∧ t.rank j = 0
  floor : ∀ i ∈ done, ∃ low, t.floor (pending.get i).priority = some low ∧
    low ≤ served (pending.get i).lane

theorem ranksOf_step {pending : List Job} {served : Lane → ℕ} {done : List (Fin pending.length)}
    {t : Ranks pending.length} (h : RanksOf pending served done t) {i : Fin pending.length}
    (hi : i ∉ done) : RanksOf pending served (done ++ [i]) (rankStep pending served t i) where
  nextRank := by
    intro lane hlane
    have hne : (pending.get i).lane ≠ lane := hlane i (by simp)
    simp only [rankStep]
    rw [Function.update_of_ne (Ne.symm hne)]
    exact h.nextRank lane fun j hj => hlane j (List.mem_append_left _ hj)
  head := by
    have hkeep : ∀ j ∈ done, (rankStep pending served t i).rank j = t.rank j := fun j hj =>
      Function.update_of_ne (by rintro rfl; exact hi hj) _ _
    intro j hj
    rw [List.mem_append, List.mem_singleton] at hj
    by_cases hold : ∃ k ∈ done, (pending.get k).lane = (pending.get j).lane
    · obtain ⟨k, hk, hlane⟩ := hold
      obtain ⟨l, hl, hlane', hrank⟩ := h.head k hk
      exact ⟨l, List.mem_append_left _ hl, hlane'.trans hlane, (hkeep l hl).trans hrank⟩
    · rcases hj with hj | rfl
      · exact absurd ⟨j, hj, rfl⟩ hold
      · refine ⟨j, by simp, rfl, ?_⟩
        have hfirst := h.nextRank (pending.get j).lane fun k hk hlane => hold ⟨k, hk, hlane⟩
        simp only [rankStep]
        rw [Function.update_self, hfirst]
  floor := by
    intro j hj
    rw [List.mem_append, List.mem_singleton] at hj
    simp only [rankStep]
    by_cases hp : (pending.get j).priority = (pending.get i).priority
    · rw [hp, Function.update_self]
      refine ⟨_, rfl, ?_⟩
      rcases hj with hj | rfl
      · obtain ⟨low, hlow, hle⟩ := h.floor j hj
        rw [hp] at hlow
        rw [hlow]
        exact (min_le_left _ _).trans hle
      · split
        · exact min_le_right _ _
        · exact le_rfl
    · rw [Function.update_of_ne hp]
      rcases hj with hj | rfl
      · exact h.floor j hj
      · exact absurd rfl hp

theorem ranksOf_ranks (pending : List Job) (served : Lane → ℕ) :
    RanksOf pending served (sequenceOrder pending) (ranks pending served) := by
  have hnodup : (sequenceOrder pending).Nodup :=
    (List.perm_insertionSort _ _).nodup_iff.mpr (List.nodup_finRange _)
  unfold ranks
  generalize sequenceOrder pending = order at hnodup ⊢
  induction order using List.reverseRecOn with
  | nil => exact ⟨fun _ _ => rfl, fun i hi => (List.not_mem_nil hi).elim,
      fun i hi => (List.not_mem_nil hi).elim⟩
  | append_singleton done i ih =>
    rw [List.foldl_append, List.foldl_cons, List.foldl_nil]
    rw [List.nodup_append] at hnodup
    refine ranksOf_step (ih hnodup.1) fun hi => ?_
    exact hnodup.2.2 i hi i (by simp) rfl

/-! ## The rule of turns -/

/-- While both owners wait, an owner is admitted only when its count is at most
    the other's. -/
theorem Admits.served_le {s s' : State} {job : Job} (h : Admits s job s') {p : Priority}
    {a b : Option String} (hwait : bothWait p a b s = true) (hjob : job.lane = (p, a)) :
    s.served (p, a) ≤ s.served (p, b) := by
  obtain ⟨-, ⟨other, hother, hlane⟩, hsame⟩ := bothWait_iff.mp hwait
  have hranks := ranksOf_ranks s.pending s.served
  obtain ⟨index, rfl, hfirst⟩ := h.first
  obtain ⟨i, rfl⟩ := List.mem_iff_get.mp hother
  -- the oldest job of `b` has rank zero and is as available as the job admitted
  obtain ⟨j, -, hj, hrank⟩ := hranks.head i (mem_sequenceOrder _ i)
  rw [hlane] at hj
  have hres := hsame _ (List.get_mem _ index) _ (List.get_mem _ j) hjob hj
  have hle := hfirst j (hres ▸ h.available)
  obtain ⟨low, hlow, hlowa⟩ := hranks.floor index (mem_sequenceOrder _ index)
  obtain ⟨low', hlow', hlowb⟩ := hranks.floor j (mem_sequenceOrder _ j)
  have hpa : (s.pending.get index).priority = p := congrArg Prod.fst hjob
  have hpb : (s.pending.get j).priority = p := congrArg Prod.fst hj
  rw [hpa] at hlow
  rw [hpb, hlow] at hlow'
  obtain rfl := Option.some.inj hlow'
  rw [hjob] at hlowa
  rw [hj] at hlowb
  simp only [fairKey, Prod.Lex.toLex_le_toLex, hpa, hpb, hjob, hj, hlow, hrank,
    Option.getD_some, lt_self_iff_false, true_and, false_or] at hle
  omega

/-- Refreshing and asking for preemption leave the counts. -/
theorem served_loopStart (s : State) (call : Clock × Op) :
    (loopStart s call).served = (call.2.enter call.1 s).served :=
  (stamp_refresh _ _).served.trans (stamp_requestPreemption _ _).served

/-- `join_service_level` touches only an owner with nothing queued. -/
theorem served_joinServiceLevel {priority : Priority} {owner : Option String} {s : State}
    {lane : Lane} (h : ∃ job ∈ s.pending, job.lane = lane) :
    (joinServiceLevel priority owner s).served lane = s.served lane := by
  unfold joinServiceLevel
  split
  · rfl
  · rename_i hnone
    split
    · rfl
    · refine Function.update_of_ne ?_ _ _
      rintro rfl
      obtain ⟨job, hjob, hlane⟩ := h
      refine hnone (List.any_eq_true.mpr ⟨job, hjob, ?_⟩)
      simpa [Job.lane] using hlane

theorem served_enter (c : Clock) (op : Op) {s : State} {lane : Lane}
    (h : ∃ job ∈ s.pending, job.lane = lane) : (op.enter c s).served lane = s.served lane := by
  cases op with
  | acquire priority resources owner demandSources =>
    exact served_joinServiceLevel
      (s := { s with nextId := s.nextId + 1, nextSequence := s.nextSequence + 1 }) h
  | yieldJob id =>
    simp only [Op.enter]
    split <;> rfl
  | finishJob id =>
    simp only [Op.enter, remove]
    split <;> rfl
  | cancelOwner owner => rfl
  | hintSegment owner source ttl => rfl
  | enterInteractive resources => rfl
  | dropInteractive id => rfl

/-- The count of a waiting owner grows by one when it is admitted and changes
    in no other way. -/
theorem served_advance {s : State} {lane : Lane} (h : ∃ job ∈ s.pending, job.lane = lane)
    (e : Event) : (advance s e).served lane =
      s.served lane + if (admitted s e).any fun job => job.lane = lane then 1 else 0 := by
  cases e with
  | start c op =>
    simp only [advance, admitted, Option.any_none, Bool.false_eq_true, if_false, Nat.add_zero]
    split
    · split
      · rw [served_loopStart]
        exact served_enter c op h
      · exact served_enter c op h
    · rfl
  | turn =>
    cases hnext : admitNext s with
    | none => simp [advance, admitted, hnext]
    | some r =>
      obtain ⟨job, s'⟩ := r
      have hstate : advance s .turn = s' := by simp [advance, hnext]
      have hjob : admitted s .turn = some job := by simp [admitted, hnext]
      rw [hstate, hjob, (admitNext_spec hnext).served]
      by_cases hlane : job.lane = lane
      · subst hlane
        simp
      · rw [Function.update_of_ne (Ne.symm hlane)]
        simp [hlane]

/-- An event admits the lane of a waiting owner only when its count is at most
    the other's. -/
theorem served_le_of_admitted {p : Priority} {a b : Option String} {s : State} {e : Event}
    (hwait : bothWait p a b s = true)
    (h : ((admitted s e).any fun job => job.lane = (p, a)) = true) :
    s.served (p, a) ≤ s.served (p, b) := by
  cases e with
  | start c op => simp [admitted] at h
  | turn =>
    simp only [admitted] at h
    cases hnext : admitNext s with
    | none => simp [hnext] at h
    | some r =>
      obtain ⟨job, s'⟩ := r
      rw [hnext] at h
      exact (admitNext_spec hnext).served_le hwait (by simpa using h)

/-! ## Stretches -/

/-- Over a stretch in which both owners wait, `a` takes no turn, or its count
    ends at most one above that of `b`. -/
theorem turns_le {p : Priority} {a b : Option String} (events : List Event) {s : State}
    (h : contended p a b events s = true) :
    turnsOf (p, a) events s = 0 ∨ s.served (p, a) + turnsOf (p, a) events s ≤
      s.served (p, b) + turnsOf (p, b) events s + 1 := by
  induction events generalizing s with
  | nil => exact Or.inl rfl
  | cons e events ih =>
    rw [contended, Bool.and_eq_true] at h
    obtain ⟨ha, hb, -⟩ := bothWait_iff.mp h.1
    have hrest := ih h.2
    have hrule := served_le_of_admitted (e := e) h.1
    rw [served_advance ha, served_advance hb] at hrest
    rw [turnsOf, turnsOf]
    by_cases hta : ((admitted s e).any fun job => job.lane = (p, a)) = true
    · have hle := hrule hta
      rw [if_pos hta] at hrest ⊢
      omega
    · rw [if_neg hta] at hrest ⊢
      omega

/-- Over a stretch in which both owners wait from equal counts on, the numbers
    of their turns differ by at most one. -/
theorem fair_of_level (cpuSlots : ℕ) (ioCapacity : String → Option ℕ) (history : List Event)
    (p : Priority) (a b : Option String) (stretch : List Event)
    (hwait : contended p a b stretch (advanceAll history (State.new cpuSlots ioCapacity)) = true)
    (hlevel : (advanceAll history (State.new cpuSlots ioCapacity)).served (p, a) =
      (advanceAll history (State.new cpuSlots ioCapacity)).served (p, b)) :
    turnsOf (p, a) stretch (advanceAll history (State.new cpuSlots ioCapacity)) ≤
        turnsOf (p, b) stretch (advanceAll history (State.new cpuSlots ioCapacity)) + 1 ∧
      turnsOf (p, b) stretch (advanceAll history (State.new cpuSlots ioCapacity)) ≤
        turnsOf (p, a) stretch (advanceAll history (State.new cpuSlots ioCapacity)) + 1 := by
  have hab := turns_le stretch hwait
  have hba := turns_le stretch (contended_symm stretch _ ▸ hwait)
  omega

/-- An owner that joins while the only owner waiting has been served at least
    as often starts with the same count. -/
theorem level_of_join {p : Priority} {a b : Option String} {s : State}
    (hwaits : ∃ job ∈ s.pending, job.lane = (p, a))
    (honly : ∀ job ∈ s.pending, job.priority = p → job.owner = a) (hab : a ≠ b)
    (hle : s.served (p, b) ≤ s.served (p, a)) :
    (joinServiceLevel p b s).served (p, b) = (joinServiceLevel p b s).served (p, a) := by
  obtain ⟨job, hjob, hlane⟩ := hwaits
  obtain ⟨hp, ho⟩ := Prod.mk.inj hlane
  have hnone : (s.pending.any fun job => job.priority = p && job.owner = b) = false := by
    refine List.any_eq_false.mpr fun j hj hb => hab ?_
    simp only [Bool.and_eq_true, decide_eq_true_eq] at hb
    exact (honly j hj hb.1).symm.trans hb.2
  have hall : ∀ count ∈ (s.pending.filter fun job => job.priority = p).map fun job =>
      s.served (p, job.owner), count = s.served (p, a) := by
    intro count hcount
    obtain ⟨j, hj, rfl⟩ := List.mem_map.mp hcount
    rw [List.mem_filter, decide_eq_true_eq] at hj
    rw [honly j hj.1 hj.2]
  have hmem : s.served (p, a) ∈ (s.pending.filter fun job => job.priority = p).map fun job =>
      s.served (p, job.owner) :=
    List.mem_map.mpr ⟨job, List.mem_filter.mpr ⟨hjob, by simpa using hp⟩, by rw [ho]⟩
  unfold joinServiceLevel
  rw [hnone, if_neg Bool.false_ne_true]
  cases hmin : ((s.pending.filter fun job => job.priority = p).map fun job =>
      s.served (p, job.owner)).min? with
  | none =>
    rw [List.min?_eq_none_iff] at hmin
    rw [hmin] at hmem
    cases hmem
  | some floor =>
    have hfloor : floor = s.served (p, a) := hall floor (List.min?_mem hmin)
    dsimp only
    rw [Function.update_self, Function.update_of_ne (by simp [hab]), hfloor]
    exact max_eq_right hle

/-! ## Back pay -/

/-- `hub` asks for one prewarm on the only disk, and the dispatch loop takes the
    turns it can. -/
def prewarm (hub : String) : List Event :=
  [.start (Clock.still 0) (.acquire .subtitlePrewarm ⟨0, {"disk"}, ∅⟩ (some hub) ∅), .turn]

/-- The permit of a job is dropped, and the dispatch loop takes its turn. -/
def finish (id : ℕ) : List Event := [.start (Clock.still 0) (.finishJob id), .turn]

/-- `old` has been served three times and runs its third job. `new` then joins
    first, while nobody waits. -/
def newJoinsFirst : List Event :=
  prewarm "old" ++ finish 1 ++ prewarm "old" ++ finish 2 ++ prewarm "old" ++
    prewarm "new" ++ prewarm "old" ++ prewarm "new" ++ prewarm "new" ++ prewarm "new"

/-- Witness of `fair_of_level`: from equal counts on, `one` and `two` alternate. -/
theorem fair_of_level_alternating :
    turnsOf (.subtitlePrewarm, some "one") (finish 1 ++ finish 2)
        (advanceAll (prewarm "hold" ++ prewarm "one" ++ prewarm "two" ++ prewarm "one" ++
          prewarm "two") (State.new 1 fun _ => none)) ≤
      turnsOf (.subtitlePrewarm, some "two") (finish 1 ++ finish 2)
        (advanceAll (prewarm "hold" ++ prewarm "one" ++ prewarm "two" ++ prewarm "one" ++
          prewarm "two") (State.new 1 fun _ => none)) + 1 ∧
      turnsOf (.subtitlePrewarm, some "two") (finish 1 ++ finish 2)
        (advanceAll (prewarm "hold" ++ prewarm "one" ++ prewarm "two" ++ prewarm "one" ++
          prewarm "two") (State.new 1 fun _ => none)) ≤
      turnsOf (.subtitlePrewarm, some "one") (finish 1 ++ finish 2)
        (advanceAll (prewarm "hold" ++ prewarm "one" ++ prewarm "two" ++ prewarm "one" ++
          prewarm "two") (State.new 1 fun _ => none)) + 1 :=
  fair_of_level 1 (fun _ => none) _ .subtitlePrewarm (some "one") (some "two") _
    (by decide +kernel) (by decide +kernel)

/-- `new` takes three turns in a row while `old` waits. -/
theorem unfair_stretch :
    ¬ ∀ (cpuSlots : ℕ) (ioCapacity : String → Option ℕ) (history : List Event) (p : Priority)
        (a b : Option String) (stretch : List Event), a ≠ b →
      contended p a b stretch (advanceAll history (State.new cpuSlots ioCapacity)) = true →
      turnsOf (p, a) stretch (advanceAll history (State.new cpuSlots ioCapacity)) ≤
        turnsOf (p, b) stretch (advanceAll history (State.new cpuSlots ioCapacity)) + 1 := by
  intro h
  have hthree := h 1 (fun _ => none) newJoinsFirst .subtitlePrewarm (some "new") (some "old")
    (finish 3 ++ finish 4 ++ finish 6) (by decide) (by decide +kernel)
  revert hthree
  decide +kernel

end Kahawai.Mediahost.Scheduler
