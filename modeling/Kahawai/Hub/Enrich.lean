import Mathlib.Data.List.MinMax
import Kahawai.MediaDb.Enrichment.Checks
import Kahawai.MediaDb.Enrichment.Requests

/-!
# A step of an enrichment lane

Model of `catalogue_step` in `crates/kahawai-hub/src/enrich/catalogue.rs` (lines
95–176) and of `idle_for` in `crates/kahawai-hub/src/queue.rs`. A step claims a job
of its provider. If there is none it asks when to look again; otherwise it reads
the input, asks the provider and stores what came of it.

Other transactions run while the provider is asked, so `catalogueReturn`, the end
of a step, has the tables of that moment. What the provider answered, and whether
the input could be read, is its `Attempt`.

Main results:

* `claim_sleeps_iff`: where nothing is claimable, the lane sleeps unless its pause
  is over and a due job is in a collection whose snapshot is active.
  `enrichment_next_due` does not look at snapshots.
* `return_releases_iff`: a step that held its job lets go of it unless the input was
  not read or the answer does not land. Both end the step with the claim in place.
-/

namespace Kahawai.Hub.Enrich

open Kahawai.Core Kahawai.Lib Kahawai.Proto Kahawai.MediaDb.Enrichment

variable {setup : Setup} {now : ℤ} {db db' : Db} {job : EnrichmentJob} {provider : Text}

/-! ## Model -/

/-- `CLAIM_SECONDS`. -/
def claimSeconds : ℤ := 180

/-- `idle_for` of `queue.rs`, in seconds. -/
def idleFor (nextDue : Option ℤ) (fallback : ℕ) (now : ℤ) : ℕ :=
  match nextDue with
  | some due => min (max (due - now) 0).toNat fallback
  | none => fallback

/-- A `reqwest::Error` in the chain of an error. -/
structure HttpError where
  status : Option ℕ
  isBuilder : Bool
  deriving DecidableEq

/-- What a step asks of an error. `paused`, `unconfigured` and `timedOut` are its
    types `ProviderPaused`, `Unconfigured` and `AttemptTimedOut`; a `ProviderBackoff`
    has its seconds and its text. -/
structure ProviderError where
  paused : Bool
  unconfigured : Bool
  timedOut : Bool
  aniDbPaused : Option ℤ
  backoff : Option (ℕ × Text)
  http : List HttpError
  text : Text
  deriving DecidableEq

namespace ProviderError

/-- `is_http_status`. -/
def isHttpStatus (e : ProviderError) (wanted : ℕ) : Bool :=
  e.http.any fun cause => cause.status = some wanted

/-- `is_http_transient`. -/
def isHttpTransient (e : ProviderError) : Bool :=
  e.http.any fun cause => match cause.status with
    | some status => 500 ≤ status && status < 600
    | none => !cause.isBuilder

def blocked (e : ProviderError) : Bool :=
  e.unconfigured || e.isHttpStatus 401 || e.isHttpStatus 403

/-- The seconds until the next attempt. -/
def delay (e : ProviderError) (attempts : ℕ) : ℤ :=
  match e.aniDbPaused with
  | some seconds => seconds
  | none =>
    match e.backoff with
    | some (seconds, _) => seconds
    | none => 60 * 2 ^ min attempts 6

def message (e : ProviderError) (provider : Text) : Text :=
  if e.blocked then lit "Provider credentials are not configured"
  else
    match e.backoff with
    | some (_, text) => text
    | none =>
      if [lit "local", lit "local-artwork", lit "artist-collage"].contains provider then
        provider ++ lit ": " ++ e.text ++ lit "; retry scheduled"
      else provider ++ lit " request failed; retry scheduled"

def providerWide (e : ProviderError) : Bool :=
  e.blocked || e.backoff.isSome || e.aniDbPaused.isSome || e.timedOut || e.isHttpTransient

end ProviderError

/-- What happened between the claim of a job and the end of the step. -/
inductive Attempt
  /-- `enrichment_input` failed. -/
  | unread (error : Text)
  | failed (error : ProviderError)
  | answered (answer : EnrichmentAnswer)
  deriving DecidableEq

variable (setup) in
/-- The end of `catalogue_step`: the tables after it and what it returns. -/
def catalogueReturn (now : ℤ) (job : EnrichmentJob) (attempt : Attempt) (db : Db) : Db × Tx Unit :=
  match attempt with
  | .unread error => (db, .error error)
  | .answered answer =>
    match finishEnrichment setup now job answer db with
    | .error error => (db, .error error)
    | .ok (_, db) => (db, .ok ())
  | .failed error =>
    if error.paused then (deferEnrichment setup now job db, .ok ())
    else
      (failEnrichment setup now job (now + error.delay job.attempts) (error.message job.provider)
        error.providerWide error.blocked db, .ok ())

/-! ## Sleep -/

theorem idleFor_pos_iff {nextDue : Option ℤ} {fallback : ℕ} :
    0 < idleFor nextDue fallback now ↔
      0 < fallback ∧ ∀ due, nextDue = some due → now < due := by
  unfold idleFor
  cases nextDue with
  | none => simp
  | some due =>
    dsimp only
    rw [lt_min_iff, and_comm]
    refine and_congr_right fun _ => ?_
    simp

/-- Nothing can be claimed. -/
theorem claimEnrichment_eq_none {token : Id} :
    claimEnrichment provider now claimSeconds token db = .ok (none, db) ↔
      ∀ j ∈ db.jobs, db.claimable provider now j = false := by
  have hlease : ensure (decide (0 < claimSeconds)) "lease must be positive" = .ok () :=
    ensure_eq_ok.mpr rfl
  unfold claimEnrichment
  rw [hlease]
  dsimp only [bind, Except.bind]
  cases hrow : (db.jobs.rows.filter (db.claimable provider now)).argmin
      (fun j => (toLex (j.dueAt, j.item) : ℤ ×ₗ ℕ)) with
  | none =>
    rw [List.argmin_eq_none, List.filter_eq_nil_iff] at hrow
    exact ⟨fun _ j hj => Bool.eq_false_iff.mpr (hrow j hj), fun _ => rfl⟩
  | some row =>
    obtain ⟨hmem, hclaimable⟩ := List.mem_filter.mp (List.argmin_mem hrow)
    constructor
    · intro h
      cases h
    · intro h
      rw [h row hmem] at hclaimable
      cases hclaimable

/-- A queued job that is due is claimable, unless its collection's snapshot is
    active. -/
theorem claimable_iff {j : Job} :
    db.claimable provider now j = true ↔ db.queued provider j = true ∧ j.time ≤ now ∧
      ∃ item, db.current? j = some item ∧ db.snapshots item.collection = false := by
  unfold Db.claimable Db.queued Job.time
  cases db.current? j with
  | none => simp
  | some item => cases j.state <;> simp [and_comm, and_left_comm, and_assoc]

theorem nextDue_eq_some {due : ℤ} (h : db.enrichmentNextDue provider = some due) :
    ∃ j ∈ db.jobs, db.queued provider j = true ∧ due = max (db.pauseUntil provider) j.time := by
  unfold Db.enrichmentNextDue at h
  obtain ⟨time, hmin, rfl⟩ := Option.map_eq_some_iff.mp h
  obtain ⟨j, hj, rfl⟩ := List.mem_map.mp (List.min?_mem hmin)
  obtain ⟨hj, hqueued⟩ := List.mem_filter.mp hj
  exact ⟨j, hj, hqueued, rfl⟩

theorem nextDue_le {j : Job} (hj : j ∈ db.jobs) (hqueued : db.queued provider j = true) :
    ∃ due, db.enrichmentNextDue provider = some due ∧
      due ≤ max (db.pauseUntil provider) j.time := by
  have hmem : j.time ∈ (db.jobs.rows.filter (db.queued provider)).map Job.time :=
    List.mem_map.mpr ⟨j, List.mem_filter.mpr ⟨hj, hqueued⟩, rfl⟩
  unfold Db.enrichmentNextDue
  cases hmin : ((db.jobs.rows.filter (db.queued provider)).map Job.time).min? with
  | none =>
    rw [List.min?_eq_none_iff] at hmin
    rw [hmin] at hmem
    cases hmem
  | some time =>
    exact ⟨_, rfl, max_le_max le_rfl ((List.min?_eq_some_iff.mp hmin).2 _ hmem)⟩

/-- Where nothing is claimable the next look is later than now, unless the pause is
    over and a due job is in a collection whose snapshot is active. -/
theorem claim_sleeps_iff (token : Id) (provider : Text) (now : ℤ) (db : Db) :
    (claimEnrichment provider now claimSeconds token db = .ok (none, db) →
        ∀ due, db.enrichmentNextDue provider = some due → now < due) ↔
      (∃ j ∈ db.jobs, db.claimable provider now j = true) ∨ now < db.pauseUntil provider ∨
        ∀ j ∈ db.jobs, db.queued provider j = true → j.time ≤ now →
          ∀ item, db.current? j = some item → db.snapshots item.collection = false := by
  rw [claimEnrichment_eq_none]
  constructor
  · intro hsleeps
    by_contra hnot
    simp only [not_or, not_exists, not_and, not_lt] at hnot
    obtain ⟨hnone, hpause, hsnapshot⟩ := hnot
    refine hsnapshot fun j hj hqueued htime item hitem => ?_
    obtain ⟨due, hdue, hle⟩ := nextDue_le hj hqueued
    have hlt := hsleeps (fun j hj => Bool.eq_false_iff.mpr (hnone j hj)) due hdue
    exact absurd (hlt.trans_le hle) (not_lt.mpr (max_le hpause htime))
  · rintro hor hnone due hdue
    obtain ⟨j, hj, hqueued, rfl⟩ := nextDue_eq_some hdue
    by_contra hle
    rw [not_lt, max_le_iff] at hle
    rcases hor with ⟨j', hj', hclaimable⟩ | hpause | hsnapshots
    · rw [hnone j' hj'] at hclaimable
      cases hclaimable
    · exact absurd hle.1 (not_le.mpr hpause)
    · have hcurrent : (db.current? j).isSome = true := by
        unfold Db.queued at hqueued
        simp only [Bool.and_eq_true] at hqueued
        exact hqueued.1.2
      obtain ⟨item, hitem⟩ := Option.isSome_iff_exists.mp hcurrent
      have hclaimable := claimable_iff.mpr
        ⟨hqueued, hle.2, item, hitem, hsnapshots j hj hqueued hle.2 item hitem⟩
      rw [hnone j hj] at hclaimable
      cases hclaimable

/-! ## Claims -/

/-- The job is running under the claim's token. -/
def Held (db : Db) (job : EnrichmentJob) : Prop :=
  ∃ j, db.jobs.get? (job.itemId, job.provider) = some j ∧ j.token = some job.token ∧
    j.state = .running

/-- No row has the claim's token. -/
def Free (db : Db) (job : EnrichmentJob) : Prop :=
  ∀ j, db.jobs.get? (job.itemId, job.provider) = some j → j.token ≠ some job.token

theorem Free.not_held (h : Free db job) : ¬ Held db job :=
  fun ⟨j, hj, htoken, _⟩ => h j hj htoken

theorem free_iff : Free db job ↔ db.holds job = false := by
  unfold Free Db.holds
  cases db.jobs.get? (job.itemId, job.provider) with
  | none => simp
  | some j => simp

theorem Held.holds (h : Held db job) : db.holds job = true := by
  obtain ⟨j, hj, htoken, -⟩ := h
  unfold Db.holds
  rw [hj, Option.any_some, decide_eq_true_eq]
  exact htoken

theorem Free.bump_of (h : Free db job) (hjobs : db'.jobs = db.jobs) (id : Id) :
    Free (db'.bump setup id) job := by
  intro j hj
  have hcases := jobs_bump_cases setup id db' (job.itemId, job.provider)
  rcases hcases with hsame | ⟨-, j', hj', -, hnone⟩
  · rw [hsame, hjobs] at hj
    exact h j hj
  · rw [hj] at hj'
    cases hj'
    rw [hnone]
    exact fun heq => by cases heq

theorem Free.note (h : Free db job) (hnote : Note db db') : Free db' job := by
  cases hnote with
  | records hsame =>
    unfold Free
    rw [hsame.jobs]
    exact h
  | request p =>
    intro j hj
    rw [Db.get?_jobs_request] at hj
    obtain ⟨j₀, hj₀, rfl⟩ := Option.map_eq_some_iff.mp hj
    have htoken : (if p j₀ then j₀.request else j₀).token = j₀.token := by
      split <;> rfl
    rw [htoken]
    exact h j₀ hj₀

/-- No statement of the machine takes a claim. -/
theorem Free.edits {id : Id} (h : Free db job) (hedits : Edits setup id db db') : Free db' job := by
  refine hedits.invariant (I := fun d => Free d job) h fun hedit hd => ?_
  cases hedit with
  | note hnote => exact hd.note hnote
  | store => exact hd
  | unassign =>
    unfold Db.unassign
    split
    · exact hd
    · exact hd.bump_of (by rfl) id
  | assign =>
    unfold Db.assign
    exact hd.bump_of (by rfl) id

theorem Free.chooseAutomatic (h : Free db job) (now : ℤ) (id : Id) :
    Free (db.chooseAutomatic setup now id) job :=
  h.edits (chooseAutomatic_edits now id db)

/-! ## An answer -/

theorem get?_jobs_complete (changed : Bool) (refreshAt : ℤ) (db : Db) (k : Id × Text) :
    (db.complete job changed refreshAt).jobs.get? k = (db.jobs.get? k).map fun j =>
      if decide (j.key = (job.itemId, job.provider)) = true then j.complete job changed refreshAt
      else j :=
  Db.get?_jobs_updateJobs _ _ _ _ _

/-- An answer that lands completes its job. -/
theorem free_of_finish {answer : EnrichmentAnswer}
    (h : finishEnrichment setup now job answer db = .ok (true, db')) : Free db' job := by
  rcases finishEnrichment_cases h with ⟨-, hlanded, -⟩ | ⟨-, -, answered, -, rfl⟩
  · cases hlanded
  · have hcompleted : ∀ changed refreshAt, Free (answered.complete job changed refreshAt) job := by
      intro changed refreshAt j hj
      rw [get?_jobs_complete] at hj
      obtain ⟨j₀, hj₀, rfl⟩ := Option.map_eq_some_iff.mp hj
      have hkey : j₀.key = (job.itemId, job.provider) := Table.get?_key hj₀
      rw [if_pos (decide_eq_true hkey)]
      exact fun heq => by cases heq
    have hfollowed : ∀ d : Db, Free d job → Free (d.followUp job) job := fun d hd =>
      (followUp_notes job d).invariant (I := fun d => Free d job) hd fun hnote ha => ha.note hnote
    exact (hfollowed _ (hcompleted _ _)).chooseAutomatic now _

/-- An answer lets go of the claim if and only if it lands. -/
theorem answered_held_iff {answer : EnrichmentAnswer} :
    Held (catalogueReturn setup now job (.answered answer) db).1 job ↔
      Held db job ∧ ¬ Lands setup job answer db := by
  unfold catalogueReturn
  dsimp only
  cases hfinish : finishEnrichment setup now job answer db with
  | error error =>
    refine ⟨fun hheld => ⟨hheld, fun hlands => ?_⟩, And.left⟩
    obtain ⟨db', hdb'⟩ := finishEnrichment_lands.mpr hlands
    rw [hfinish] at hdb'
    cases hdb'
  | ok result =>
    obtain ⟨landed, after⟩ := result
    dsimp only
    by_cases hlands : Lands setup job answer db
    · obtain ⟨db', hdb'⟩ := finishEnrichment_lands.mpr hlands
      rw [hfinish] at hdb'
      cases hdb'
      exact ⟨fun hheld => absurd hheld (free_of_finish hfinish).not_held,
        fun hheld => absurd hlands hheld.2⟩
    · rw [finishEnrichment_of_not_lands hlands hfinish]
      exact ⟨fun hheld => ⟨hheld, hlands⟩, And.left⟩

/-! ## A failure -/

theorem get?_jobs_release (blocked : Bool) (dueAt : ℤ) (error : Option Text) (attempts : ℕ → ℕ)
    (db : Db) (k : Id × Text) :
    (db.release job blocked dueAt error attempts).jobs.get? k = (db.jobs.get? k).map fun j =>
      if job.isRow j = true then j.release blocked dueAt error (attempts j.attempts) else j :=
  Db.get?_jobs_updateJobs _ _ _ _ _

/-- The job's row after a failed request. -/
theorem get?_release {blocked : Bool} {dueAt : ℤ} {error : Option Text} {attempts : ℕ → ℕ} {j : Job}
    (hj : db.jobs.get? (job.itemId, job.provider) = some j) (htoken : j.token = some job.token) :
    (db.release job blocked dueAt error attempts).jobs.get? (job.itemId, job.provider) =
      some (j.release blocked dueAt error (attempts j.attempts)) := by
  have hrow : job.isRow j = true := by
    unfold EnrichmentJob.isRow
    rw [Bool.and_eq_true, decide_eq_true_eq, decide_eq_true_eq]
    exact ⟨Table.get?_key hj, htoken⟩
  rw [get?_jobs_release, hj, Option.map_some, if_pos hrow]

theorem free_release {blocked : Bool} {dueAt : ℤ} {error : Option Text} {attempts : ℕ → ℕ} (db : Db) :
    Free (db.release job blocked dueAt error attempts) job := by
  intro j hj
  by_cases hholds : Free db job
  · rw [get?_jobs_release] at hj
    obtain ⟨j₀, hj₀, rfl⟩ := Option.map_eq_some_iff.mp hj
    split_ifs
    · exact fun heq => by cases heq
    · exact hholds j₀ hj₀
  · rw [free_iff, Bool.not_eq_false] at hholds
    obtain ⟨j₀, hj₀, htoken⟩ := (Option.any_eq_true _ _).mp hholds
    rw [get?_release hj₀ (of_decide_eq_true htoken)] at hj
    rw [← Option.some.inj hj]
    exact fun heq => by cases heq

/-- The choice assigns an item that has no assignment, or does nothing. -/
theorem chooseAutomatic_cases (setup : Setup) (now : ℤ) (id : Id) (db : Db) :
    db.chooseAutomatic setup now id = db ∨ ∃ record strength, db.selected id = none ∧
      db.chooseAutomatic setup now id = db.assign setup ⟨id, record, false, strength⟩ := by
  unfold Db.chooseAutomatic
  cases hchoice : db.choice setup now id with
  | none => exact Or.inl rfl
  | some c =>
    obtain ⟨item, -, hnone, -⟩ := choice_eq_some hchoice
    refine Or.inr ⟨c.record, c.strength, ?_, ?_⟩
    · unfold Db.selected
      rw [hnone]
      rfl
    · show Db.assign setup _ (db.unassign setup id) = _
      unfold Db.unassign
      rw [hnone]

/-- The row of a failed job is as the failure left it, or the item has been assigned
    since and the job was renewed. -/
def Kept (row : Job) (id : Id) (provider : Text) (before d : Db) : Prop :=
  (d.jobs.get? (id, provider) = some row ∧ d.selected id = before.selected id) ∨
    (before.selected id = none ∧ d.selected id ≠ none ∧
      ∃ j, d.jobs.get? (id, provider) = some j ∧ j.token = none)

theorem Kept.chooseAutomatic {row : Job} {id id' : Id} {before : Db} (hrow : row.token = none)
    (h : Kept row id provider before db) :
    Kept row id provider before (db.chooseAutomatic setup now id') := by
  have hchoice := chooseAutomatic_cases setup now id' db
  rcases hchoice with heq | ⟨record, strength, hnone, heq⟩
  · rw [heq]
    exact h
  · rw [heq]
    have hselected : (db.assign setup ⟨id', record, false, strength⟩).selected id =
        if id' = id then some record else db.selected id := by
      unfold Db.selected
      rw [Db.assignments_assign]
      split_ifs <;> rfl
    have hjobs := jobs_bump_cases setup id'
      { db with assignments := db.assignments.put ⟨id', record, false, strength⟩ } (id, provider)
    by_cases hid : id' = id
    · subst hid
      rcases h with ⟨hget, hsame⟩ | ⟨-, hsome, -⟩
      · refine Or.inr ⟨hsame ▸ hnone, by rw [hselected, if_pos rfl]; exact Option.some_ne_none _, ?_⟩
        rcases hjobs with hkept | ⟨-, j, hj, -, htoken⟩
        · exact ⟨row, hkept.trans hget, hrow⟩
        · exact ⟨j, hj, htoken⟩
      · exact absurd hnone hsome
    · have hkept : (db.assign setup ⟨id', record, false, strength⟩).jobs.get? (id, provider) =
          db.jobs.get? (id, provider) := by
        rcases hjobs with hkept | ⟨heq, -⟩
        · exact hkept
        · exact absurd heq.symm hid
      unfold Kept
      rw [hselected, if_neg hid, hkept]
      exact h

/-- A failed request lets go of the claim. -/
theorem free_of_failed (setup : Setup) (now : ℤ) (job : EnrichmentJob) (error : ProviderError)
    (db : Db) : Free (catalogueReturn setup now job (.failed error) db).1 job := by
  have hfree : ¬ db.holds job = true → Free db job := fun h => free_iff.mpr (Bool.not_eq_true _ ▸ h)
  unfold catalogueReturn
  dsimp only
  split_ifs
  · dsimp only
    unfold deferEnrichment
    split
    split_ifs with hholds
    · exact (free_release db).chooseAutomatic now _
    · exact hfree hholds
  · dsimp only
    unfold failEnrichment
    dsimp only
    split_ifs with hholds
    · have hpaused : ∀ row, Free ((db.release job error.blocked (now + error.delay job.attempts)
          (some (error.message job.provider)) id).pause row) job := fun row => free_release db
      exact List.foldlRecOn (motive := fun d => Free d job) _ _
        ((hpaused _).chooseAutomatic now _) fun _ hd id _ => hd.chooseAutomatic now id
    · exact (free_release db).chooseAutomatic now _
    · exact hfree hholds

/-- The job is blocked, or waits for the delay, unless the item has been assigned in
    the same transaction. -/
def Delayed (now : ℤ) (job : EnrichmentJob) (error : ProviderError) (before after : Db) : Prop :=
  ∃ j, after.jobs.get? (job.itemId, job.provider) = some j ∧ j.token = none ∧
    ((j.state = (if error.blocked then .blocked else .retry) ∧
        j.dueAt = now + error.delay job.attempts) ∨
      (before.selected job.itemId = none ∧ after.selected job.itemId ≠ none))

theorem failed_delayed (setup : Setup) (now : ℤ) {error : ProviderError}
    (hpaused : error.paused = false) (hholds : db.holds job = true) :
    Delayed now job error db (catalogueReturn setup now job (.failed error) db).1 := by
  obtain ⟨j, hj, htoken⟩ := (Option.any_eq_true _ _).mp hholds
  let row : Job := j.release error.blocked (now + error.delay job.attempts)
    (some (error.message job.provider)) j.attempts
  have hkept : Kept row job.itemId job.provider db
      (catalogueReturn setup now job (.failed error) db).1 := by
    have hreleased : Kept row job.itemId job.provider db (db.release job error.blocked
        (now + error.delay job.attempts) (some (error.message job.provider)) id) :=
      Or.inl ⟨get?_release hj (of_decide_eq_true htoken), rfl⟩
    unfold catalogueReturn
    dsimp only
    rw [hpaused, if_neg Bool.false_ne_true]
    dsimp only
    unfold failEnrichment
    rw [if_pos hholds]
    dsimp only
    split_ifs
    · have hpausedToo : ∀ pause, Kept row job.itemId job.provider db ((db.release job error.blocked
          (now + error.delay job.attempts) (some (error.message job.provider)) id).pause pause) :=
        fun pause => hreleased
      exact List.foldlRecOn (motive := fun d => Kept row job.itemId job.provider db d) _ _
        ((hpausedToo _).chooseAutomatic rfl) fun _ hd id _ => hd.chooseAutomatic rfl
    · exact hreleased.chooseAutomatic rfl
  rcases hkept with ⟨hget, -⟩ | ⟨hnone, hsome, j', hj', hfree⟩
  · exact ⟨row, hget, rfl, Or.inl ⟨rfl, rfl⟩⟩
  · exact ⟨j', hj', hfree, Or.inr ⟨hnone, hsome⟩⟩

/-! ## The end of a step -/

variable (setup) in
/-- The input was read, and the answer lands if there is one. -/
def Attempt.Completes (job : EnrichmentJob) (db : Db) : Attempt → Prop
  | .unread _ => False
  | .failed _ => True
  | .answered answer => Lands setup job answer db

/-- A step that holds its job at the end lets go of it, and delays it after a failure,
    if and only if the attempt completes. -/
theorem return_releases_iff (setup : Setup) (now : ℤ) (job : EnrichmentJob) (attempt : Attempt)
    (db : Db) :
    (¬ Held (catalogueReturn setup now job attempt db).1 job ∧
        ∀ error, attempt = .failed error → error.paused = false → db.holds job = true →
          Delayed now job error db (catalogueReturn setup now job attempt db).1) ↔
      (Held db job → attempt.Completes setup job db) := by
  cases attempt with
  | unread error =>
    exact ⟨fun h hheld => h.1 hheld, fun h => ⟨h, fun _ heq => by cases heq⟩⟩
  | failed error =>
    refine ⟨fun _ _ => trivial, fun _ => ⟨(free_of_failed setup now job error db).not_held, ?_⟩⟩
    rintro _ ⟨⟩ hpaused hholds
    exact failed_delayed setup now hpaused hholds
  | answered answer =>
    rw [answered_held_iff, not_and, not_not]
    exact ⟨fun h => h.1, fun h => ⟨h, fun _ heq => by cases heq⟩⟩

/-- When an idle lane sleeps, and when a step lets go of its job. -/
theorem lane_rests_and_releases_iff (setup : Setup) :
    (∀ token provider now db,
      (claimEnrichment provider now claimSeconds token db = .ok (none, db) →
          ∀ due, db.enrichmentNextDue provider = some due → now < due) ↔
        (∃ j ∈ db.jobs, db.claimable provider now j = true) ∨ now < db.pauseUntil provider ∨
          ∀ j ∈ db.jobs, db.queued provider j = true → j.time ≤ now →
            ∀ item, db.current? j = some item → db.snapshots item.collection = false) ∧
      ∀ now job attempt db,
        (¬ Held (catalogueReturn setup now job attempt db).1 job ∧
            ∀ error, attempt = .failed error → error.paused = false → db.holds job = true →
              Delayed now job error db (catalogueReturn setup now job attempt db).1) ↔
          (Held db job → attempt.Completes setup job db) :=
  ⟨claim_sleeps_iff, return_releases_iff setup⟩

/-- Series, which are asked at `tmdb` before `tvdb`. -/
def shows : Setup where
  mediaType _ := .series
  order _ := [lit "tmdb", lit "tvdb"]
  nodup _ := nodup_tmdb_tvdb

/-- While the snapshot of a collection is active its jobs are not claimable, but the
    next look is due at once. And `tmdb` takes a series without episodes for a film:
    the answer fails its check, and the job stays claimed. -/
theorem lane_spins_and_keeps : ∃ s t : System, ∃ job ∈ t.claims,
    (machine shows 0).Reachable s ∧
    claimEnrichment (lit "tmdb") s.now claimSeconds 9 s.db = .ok (none, s.db) ∧
    s.db.enrichmentNextDue (lit "tmdb") = some s.now ∧
    (machine shows 0).Reachable t ∧ Held t.db job ∧
    Held (catalogueReturn shows t.now job
      (.answered (answerOf [(filmOf (lit "tmdb") (lit "7"), 10)])) t.db).1 job ∧
    (catalogueReturn shows t.now job
      (.answered (answerOf [(filmOf (lit "tmdb") (lit "7"), 10)])) t.db).2 ≠ .ok () := by
  have hidle : (((machine shows 0).replay (fun _ _ => true)
      [.addMembership 1 1, .insertItem 1 1, .snapshot 1 true] (emptyTables 0)).any fun s =>
        s.db.jobs.rows.all (fun j => !s.db.claimable (lit "tmdb") s.now j) &&
        s.db.enrichmentNextDue (lit "tmdb") = some s.now) = true := by
    decide
  have hclaimed : (((machine shows 0).replay (fun _ _ => true)
      [.addMembership 1 1, .insertItem 1 1, .claim (lit "tmdb") claimSeconds 1]
      (emptyTables 0)).any fun t => t.claims.any fun job =>
        (t.db.jobs.get? (job.itemId, job.provider)).any (fun j =>
          j.token = some job.token && j.state = .running) &&
        match finishEnrichment shows t.now job
            (answerOf [(filmOf (lit "tmdb") (lit "7"), 10)]) t.db with
        | .error _ => true
        | .ok _ => false) = true := by
    decide
  obtain ⟨s, hs, hsleepless⟩ := (Option.any_eq_true _ _).mp hidle
  obtain ⟨t, ht, hclaims⟩ := (Option.any_eq_true _ _).mp hclaimed
  obtain ⟨job, hjob, hrefused⟩ := List.any_eq_true.mp hclaims
  simp only [Bool.and_eq_true, List.all_eq_true, Bool.not_eq_true', decide_eq_true_eq] at hsleepless
  rw [Bool.and_eq_true] at hrefused
  obtain ⟨hrow, hrefused⟩ := hrefused
  obtain ⟨j, hj, hrunning⟩ := (Option.any_eq_true _ _).mp hrow
  simp only [Bool.and_eq_true, decide_eq_true_eq] at hrunning
  have hheld : Held t.db job := ⟨j, hj, hrunning.1, hrunning.2⟩
  refine ⟨s, t, job, hjob, (Machine.reaches_of_replay hs).reachable,
    claimEnrichment_eq_none.mpr hsleepless.1, hsleepless.2,
    (Machine.reaches_of_replay ht).reachable, hheld, ?_⟩
  cases hfinish : finishEnrichment shows t.now job
      (answerOf [(filmOf (lit "tmdb") (lit "7"), 10)]) t.db with
  | ok result =>
    rw [hfinish] at hrefused
    cases hrefused
  | error error =>
    unfold catalogueReturn
    dsimp only
    rw [hfinish]
    exact ⟨hheld, fun h => by cases h⟩

end Kahawai.Hub.Enrich
