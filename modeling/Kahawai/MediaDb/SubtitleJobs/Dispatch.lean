import Kahawai.MediaDb.SubtitleJobs.State

/-!
# When the queue of subtitle work is dispatched

The driver of `crates/kahawai-hub/src/queue.rs` asks `subtitle_dispatch_state`
whether to claim at once or how long to sleep, and `claim_subtitle_jobs` decides
what there is to claim.

* `claim_of_refillDue`: when a refill is due, a claim with a limit above the
  threshold returns a job.
* `idle_until`: otherwise the time to look again is in the future, and no refill
  is due before it. Above the threshold a claim could still take jobs then, and by
  design nobody makes it.
* `leases_le_of_reaches`: where no claim is given a limit above `limit`, a host
  never has more than `limit` unexpired leases of a kind.
* `reconcile_stale`, `fail_stale`: a reply about another version of a file changes
  nothing.
-/

namespace Kahawai.MediaDb.SubtitleJobs

open Kahawai.Core Kahawai.Lib

variable {db : Db} {kind : Kind} {host : Text} {inFlight : List Text} {now later leaseSeconds : ℤ}
  {limit refillAt : ℕ}

/-! ## What can be claimed -/

theorem leased_iff (j : Job) : j.leased kind host now ↔
    j.kind = kind ∧ j.host = some host ∧ j.state = .running ∧ now < j.leaseUntil := by
  simp [Job.leased, and_assoc]

/-- The two ways of saying when a row can be claimed agree. -/
theorem claimable_iff (j : Job) : j.claimable now ↔ j.state ≠ .blocked ∧ j.wake ≤ now := by
  unfold Job.claimable Job.wake
  cases j.state <;> simp

/-- A row that the clock can make claimable. -/
def Db.Waiting (db : Db) (kind : Kind) (host : Text) (j : Job) : Prop :=
  j ∈ db.jobs ∧ j.kind = kind ∧ (db.catalogue.offered host j).isSome ∧ j.state ≠ .blocked

theorem candidates_eq_nil :
    db.candidates kind host inFlight now = [] ↔ ∀ j, db.Waiting kind host j → now < j.wake := by
  unfold Db.candidates
  dsimp only
  rw [List.map_eq_nil_iff, ← List.length_eq_zero_iff, List.length_insertionSort,
    List.length_eq_zero_iff, List.filterMap_eq_nil_iff]
  constructor
  · rintro h j ⟨hj, hkind, hoffered, hstate⟩
    by_contra hwake
    have hclaimable : j.claimable now := (claimable_iff j).mpr ⟨hstate, Int.not_lt.mp hwake⟩
    have hnone := h j (List.mem_filter.mpr ⟨hj, by simp [hkind, hclaimable]⟩)
    rw [Option.map_eq_none_iff] at hnone
    rw [hnone] at hoffered
    cases hoffered
  · intro h j hj
    obtain ⟨hmem, hj⟩ := List.mem_filter.mp hj
    simp only [Bool.and_eq_true, decide_eq_true_eq] at hj
    obtain ⟨hstate, hwake⟩ := (claimable_iff j).mp hj.2
    cases hoffered : db.catalogue.offered host j with
    | none => rfl
    | some offer =>
      have hlater := h j ⟨hmem, hj.1, by simp [hoffered], hstate⟩
      omega

/-- A claim returns the most wanted rows that fit. -/
theorem claim_eq (db : Db) (kind : Kind) (host : Text) (inFlight : List Text) (now : ℤ)
    (limit : ℕ) (hlease : 0 < leaseSeconds) :
    ∃ db', claimSubtitleJobs kind host inFlight now leaseSeconds limit db =
      some (((db.candidates kind host inFlight now).take (limit - db.leases kind host now)).map
        fun c => ⟨kind, c.1 + 1, c.2⟩, db') := by
  unfold claimSubtitleJobs
  rw [if_neg (by omega)]
  dsimp only
  split
  · rename_i hfull
    exact ⟨db, by rw [hfull, List.take_zero, List.map_nil]⟩
  · exact ⟨_, rfl⟩

/-! ## What a claim leases -/

theorem mem_update {p : Job → Bool} {f : Job → Job} {hf : ∀ j, (f j).key = j.key} {row : Job} :
    row ∈ (db.update p f hf).jobs ↔ ∃ old ∈ db.jobs, (if p old then f old else old) = row := by
  simp only [Db.update, Table.mem_mapRows]

/-- The key of the row of a job. -/
def SubtitleJob.key (job : SubtitleJob) : Text × Kind := (job.file.fileId, job.kind)

theorem offered_spec {c : Catalogue} {j : Job} {file : FileRow} {source : SourceFile}
    (h : c.offered host j = some (file, source)) :
    source.fileId = j.fileId ∧ source.host = host ∧ c.files.get? j.fileId = some file ∧
      source.observedVersion = file.version := by
  unfold Catalogue.offered at h
  simp only [bind, Option.bind_eq_some_iff] at h
  obtain ⟨file', hfile, root, -, collection, -, media, -, size, -, hif⟩ := h
  split at hif
  · rename_i hcond
    simp only [Option.some.injEq, Prod.mk.injEq] at hif
    obtain ⟨rfl, rfl⟩ := hif
    have hid : file'.id = j.fileId := Table.get?_key hfile
    exact ⟨hid, hcond.1, hfile, rfl⟩
  · cases hif

theorem mem_candidates {c : ℕ × SourceFile} (h : c ∈ db.candidates kind host inFlight now) :
    ∃ j ∈ db.jobs, j.kind = kind ∧ j.claimable now ∧
      ∃ file, db.catalogue.offered host j = some (file, c.2) := by
  unfold Db.candidates at h
  obtain ⟨⟨attempts, file, source⟩, hsorted, rfl⟩ := List.mem_map.mp h
  obtain ⟨j, hj, hoffer⟩ := List.mem_filterMap.mp (List.mem_insertionSort _ |>.mp hsorted)
  obtain ⟨hmem, hcond⟩ := List.mem_filter.mp hj
  simp only [Bool.and_eq_true, decide_eq_true_eq] at hcond
  obtain ⟨offer, hoffered, hoffer⟩ := Option.map_eq_some_iff.mp hoffer
  cases hoffer
  exact ⟨j, hmem, hcond.1, hcond.2, _, hoffered⟩

/-- The jobs of a claim are current files of the host, whose rows were claimable. -/
theorem claim_jobs {jobs : List SubtitleJob} {db' : Db}
    (h : claimSubtitleJobs kind host inFlight now leaseSeconds limit db = some (jobs, db')) :
    ∀ job ∈ jobs, job.kind = kind ∧ job.file.host = host ∧ db.current job.file = true ∧
      ∃ j ∈ db.jobs, j.key = job.key ∧ j.claimable now := by
  intro job hjob
  have hlease : 0 < leaseSeconds := by
    by_contra hlease
    rw [claimSubtitleJobs, if_pos (Int.not_lt.mp hlease)] at h
    cases h
  obtain ⟨db'', heq⟩ := claim_eq db kind host inFlight now limit hlease
  rw [h] at heq
  simp only [Option.some.injEq, Prod.mk.injEq] at heq
  rw [heq.1] at hjob
  obtain ⟨c, hc, rfl⟩ := List.mem_map.mp hjob
  obtain ⟨j, hj, hkind, hclaimable, file, hoffered⟩ := mem_candidates (List.mem_of_mem_take hc)
  obtain ⟨hid, hhost, hget, hversion⟩ := offered_spec hoffered
  refine ⟨rfl, hhost, ?_, j, hj, ?_, hclaimable⟩
  · simp [Db.current, hid, hget, hversion]
  · simp [Job.key, SubtitleJob.key, hid, hkind]

/-- A claim leases the rows of its jobs and changes no other. -/
theorem claim_rows {jobs : List SubtitleJob} {db' : Db}
    (h : claimSubtitleJobs kind host inFlight now leaseSeconds limit db = some (jobs, db')) :
    db'.catalogue = db.catalogue ∧ ∀ row ∈ db'.jobs,
      (row ∈ db.jobs ∧ ∀ job ∈ jobs, job.key ≠ row.key) ∨
      (∃ job ∈ jobs, job.key = row.key) ∧ row.state = .running ∧ row.host = some host ∧
        row.leaseUntil = now + leaseSeconds := by
  unfold claimSubtitleJobs at h
  split at h
  · cases h
  · dsimp only at h
    split at h
    · cases h
      exact ⟨rfl, fun row hrow => Or.inl ⟨hrow, by simp⟩⟩
    · simp only [Option.some.injEq, Prod.mk.injEq] at h
      obtain ⟨rfl, rfl⟩ := h
      refine ⟨rfl, fun row hrow => ?_⟩
      obtain ⟨old, hold, rfl⟩ := mem_update.mp hrow
      split
      · rename_i hclaimed
        simp only [Bool.and_eq_true, decide_eq_true_eq, List.contains_iff_mem] at hclaimed
        obtain ⟨c, hc, hid⟩ := List.mem_map.mp hclaimed.2
        refine Or.inr ⟨⟨_, List.mem_map.mpr ⟨c, hc, rfl⟩, ?_⟩, rfl, rfl, rfl⟩
        show (c.2.fileId, kind) = (old.fileId, old.kind)
        rw [hclaimed.1, ← hid]
      · rename_i hother
        refine Or.inl ⟨hold, fun job hjob hkey => hother ?_⟩
        obtain ⟨c, hc, rfl⟩ := List.mem_map.mp hjob
        simp only [SubtitleJob.key, Job.key, Prod.mk.injEq] at hkey
        simp only [Bool.and_eq_true, decide_eq_true_eq, List.contains_iff_mem]
        exact ⟨hkey.2.symm, List.mem_map.mpr ⟨c, hc, hkey.1⟩⟩

/-! ## Refills -/

/-- The smallest of two lists together. -/
theorem min?_append (l l' : List ℤ) : (l ++ l').min? = (l.min?.toList ++ l'.min?.toList).min? := by
  cases hmin : (l ++ l').min? with
  | none =>
    rw [List.min?_eq_none_iff, List.append_eq_nil_iff] at hmin
    rw [hmin.1, hmin.2]
    rfl
  | some t =>
    obtain ⟨hmem, hle⟩ := List.min?_eq_some_iff.mp hmin
    symm
    rw [List.min?_eq_some_iff]
    constructor
    · rcases List.mem_append.mp hmem with hl | hl
      · have hfirst : l.min? = some t :=
          List.min?_eq_some_iff.mpr ⟨hl, fun b hb => hle b (List.mem_append_left _ hb)⟩
        simp [hfirst]
      · have hsecond : l'.min? = some t :=
          List.min?_eq_some_iff.mpr ⟨hl, fun b hb => hle b (List.mem_append_right _ hb)⟩
        simp [hsecond]
    · intro b hb
      rcases List.mem_append.mp hb with hb | hb
      · exact hle b (List.mem_append_left _ (List.min?_mem (Option.mem_toList.mp hb)))
      · exact hle b (List.mem_append_right _ (List.min?_mem (Option.mem_toList.mp hb)))

/-- The unexpired leases of a host. -/
theorem leases_eq : db.leases kind host now =
    (db.jobs.rows.filter (Job.leased kind host now)).length := List.countP_eq_length_filter

/-- `step` claims: at most `refillAt` leases are unexpired and the time to look is
    not in the future. -/
def RefillDue (kind : Kind) (host : Text) (now : ℤ) (refillAt : ℕ) (db : Db) : Prop :=
  (subtitleDispatchState kind host now refillAt db).1 ≤ refillAt ∧
    ∃ t ∈ (subtitleDispatchState kind host now refillAt db).2, t ≤ now

theorem dispatch_running :
    (subtitleDispatchState kind host now refillAt db).1 = db.leases kind host now := by
  unfold subtitleDispatchState
  rw [leases_eq]
  dsimp only
  split
  · rfl
  · rfl

/-- Above the threshold the driver looks again when the first lease expires. -/
theorem dispatch_above (h : refillAt < db.leases kind host now) :
    (subtitleDispatchState kind host now refillAt db).2 =
      ((db.jobs.rows.filter (Job.leased kind host now)).map Job.leaseUntil).min? := by
  rw [leases_eq] at h
  unfold subtitleDispatchState
  dsimp only
  rw [if_pos h]

/-- The rows that the clock can make claimable. -/
def Db.waiting (db : Db) (kind : Kind) (host : Text) : List Job :=
  db.jobs.rows.filter fun j =>
    j.kind = kind && (db.catalogue.offered host j).isSome && j.state ≠ .blocked

theorem mem_waiting {j : Job} : j ∈ db.waiting kind host ↔ db.Waiting kind host j := by
  unfold Db.waiting Db.Waiting
  rw [List.mem_filter]
  simp [Table.mem_def, and_assoc]

/-- Up to the threshold it also looks when a row can be claimed. -/
theorem dispatch_below (h : db.leases kind host now ≤ refillAt) :
    (subtitleDispatchState kind host now refillAt db).2 =
      ((db.waiting kind host).map Job.wake ++
        (db.jobs.rows.filter (Job.leased kind host now)).map Job.leaseUntil).min? := by
  rw [leases_eq] at h
  unfold subtitleDispatchState
  dsimp only
  rw [if_neg (Nat.not_lt.mpr h)]
  exact (min?_append _ _).symm

/-- No time before `min?` is in the list. -/
theorem lt_of_lt_min? {l : List ℤ} (h : ∀ t ∈ l.min?, later < t) {x : ℤ} (hx : x ∈ l) :
    later < x := by
  cases hmin : l.min? with
  | none =>
    rw [List.min?_eq_none_iff] at hmin
    rw [hmin] at hx
    cases hx
  | some t =>
    have hle : t ≤ x := (List.min?_eq_some_iff.mp hmin).2 x hx
    exact lt_of_lt_of_le (h t hmin) hle

/-- When a refill is due, a claim whose limit is above the threshold returns a job. -/
theorem claim_of_refillDue (h : RefillDue kind host now refillAt db) (hlimit : refillAt < limit)
    (hlease : 0 < leaseSeconds) (inFlight : List Text) :
    ∃ jobs db', claimSubtitleJobs kind host inFlight now leaseSeconds limit db = some (jobs, db') ∧
      jobs ≠ [] := by
  obtain ⟨hrunning, t, ht, hnow⟩ := h
  rw [dispatch_running] at hrunning
  obtain ⟨db', hclaim⟩ := claim_eq db kind host inFlight now limit hlease
  refine ⟨_, db', hclaim, ?_⟩
  have hcandidates : db.candidates kind host inFlight now ≠ [] := by
    rw [Ne, candidates_eq_nil]
    intro hnone
    rw [dispatch_below hrunning] at ht
    have hmem := List.min?_mem ht
    rcases List.mem_append.mp hmem with hmem | hmem
    · obtain ⟨j, hj, rfl⟩ := List.mem_map.mp hmem
      have := hnone j (mem_waiting.mp hj)
      omega
    · obtain ⟨j, hj, rfl⟩ := List.mem_map.mp hmem
      obtain ⟨-, -, -, hlease⟩ := (leased_iff j).mp (List.mem_filter.mp hj).2
      omega
  have hroom : limit - db.leases kind host now ≠ 0 := by omega
  simp [hcandidates, hroom]

/-- When no refill is due, the time to look again is in the future and no refill is
    due before it. -/
theorem idle_until (h : ¬RefillDue kind host now refillAt db) :
    (∀ t ∈ (subtitleDispatchState kind host now refillAt db).2, now < t) ∧
    ∀ later, now ≤ later →
      (∀ t ∈ (subtitleDispatchState kind host now refillAt db).2, later < t) →
      (refillAt < db.leases kind host now ∧ db.leases kind host later = db.leases kind host now) ∨
      ∀ inFlight, db.candidates kind host inFlight later = [] := by
  have hfuture : ∀ t ∈ (subtitleDispatchState kind host now refillAt db).2, now < t := by
    intro t ht
    by_cases habove : refillAt < db.leases kind host now
    · rw [dispatch_above habove] at ht
      obtain ⟨j, hj, rfl⟩ := List.mem_map.mp (List.min?_mem ht)
      exact ((leased_iff j).mp (List.mem_filter.mp hj).2).2.2.2
    · by_contra hnow
      exact h ⟨by rw [dispatch_running]; omega, t, ht, Int.not_lt.mp hnow⟩
  refine ⟨hfuture, fun later hlater hbefore => ?_⟩
  by_cases habove : refillAt < db.leases kind host now
  · rw [dispatch_above habove] at hbefore
    refine Or.inl ⟨habove, ?_⟩
    unfold Db.leases
    refine List.countP_congr fun j hj => ?_
    have hkept : j.leased kind host now → later < j.leaseUntil := fun hleased =>
      lt_of_lt_min? hbefore (List.mem_map.mpr ⟨j, List.mem_filter.mpr ⟨hj, hleased⟩, rfl⟩)
    rw [leased_iff] at hkept
    rw [leased_iff, leased_iff]
    constructor
    · rintro ⟨hkind, hhost, hstate, hlease⟩
      exact ⟨hkind, hhost, hstate, by omega⟩
    · rintro ⟨hkind, hhost, hstate, hlease⟩
      exact ⟨hkind, hhost, hstate, hkept ⟨hkind, hhost, hstate, hlease⟩⟩
  · rw [dispatch_below (Nat.not_lt.mp habove)] at hbefore
    refine Or.inr fun inFlight => candidates_eq_nil.mpr fun j hj => ?_
    exact lt_of_lt_min? hbefore
      (List.mem_append_left _ (List.mem_map.mpr ⟨j, mem_waiting.mpr hj, rfl⟩))

/-! ## The window -/

/-- Time only ends leases. -/
theorem leases_antitone (h : now ≤ later) : db.leases kind host later ≤ db.leases kind host now := by
  refine List.countP_mono_left fun j _ hleased => ?_
  rw [leased_iff] at hleased ⊢
  exact ⟨hleased.1, hleased.2.1, hleased.2.2.1, by omega⟩

/-- An update that leases nothing adds no lease. -/
theorem leases_update_le {p : Job → Bool} {f : Job → Job} {hf : ∀ j, (f j).key = j.key}
    (hended : ∀ j, (f j).leased kind host now = false) :
    (db.update p f hf).leases kind host now ≤ db.leases kind host now := by
  unfold Db.leases Db.update
  rw [Table.rows_mapRows, List.countP_map]
  refine List.countP_mono_left fun j _ hleased => ?_
  rw [Function.comp_apply] at hleased
  split at hleased
  · rw [hended] at hleased
    cases hleased
  · exact hleased

theorem leased_of_not_running {j : Job} (h : j.state ≠ .running) :
    j.leased kind host now = false := by
  simp [Job.leased, h]

/-- A new row is not leased. -/
theorem countP_put_fresh (jobs : Table Job.key) (fileId : Text) (k : Kind) :
    (jobs.put (.fresh fileId k)).rows.countP (Job.leased kind host now) ≤
      jobs.rows.countP (Job.leased kind host now) := by
  have hfresh : (Job.fresh fileId k).leased kind host now = false :=
    leased_of_not_running (by simp [Job.fresh])
  rw [Table.countP_put, hfresh]
  exact List.filter_sublist.countP_le

theorem countP_upsert (fileId : Text) (changed : Bool) (jobs : Table Job.key) :
    (upsertSubtitleJobs fileId changed jobs).rows.countP (Job.leased kind host now) ≤
      jobs.rows.countP (Job.leased kind host now) := by
  have hone : ∀ (jobs : Table Job.key) (k : Kind),
      (upsertSubtitleJob fileId changed jobs k).rows.countP (Job.leased kind host now) ≤
        jobs.rows.countP (Job.leased kind host now) := by
    intro jobs k
    unfold upsertSubtitleJob
    split
    · exact countP_put_fresh jobs fileId k
    · split
      · exact countP_put_fresh jobs fileId k
      · exact le_rfl
  exact (hone _ .sets).trans (hone jobs .text)

theorem leases_commit (catalogue : Catalogue) (upserts : List (Text × Bool)) :
    (commitCatalogue catalogue upserts db).leases kind host now ≤ db.leases kind host now := by
  have hall : ∀ jobs : Table Job.key,
      (upserts.foldl (fun jobs u => upsertSubtitleJobs u.1 u.2 jobs) jobs).rows.countP (Job.leased kind host now) ≤
        jobs.rows.countP (Job.leased kind host now) := by
    induction upserts with
    | nil => exact fun jobs => le_rfl
    | cons u us ih => exact fun jobs => (ih _).trans (countP_upsert u.1 u.2 jobs)
  exact (hall _).trans List.filter_sublist.countP_le

theorem leases_reconcile (file : SourceFile) (k : Kind) (missing : Bool) :
    (reconcileSubtitleJob file k missing db).leases kind host now ≤ db.leases kind host now := by
  unfold reconcileSubtitleJob
  split
  · exact le_rfl
  · split
    · split
      · exact countP_put_fresh db.jobs file.fileId k
      · exact le_rfl
    · exact List.filter_sublist.countP_le

theorem leases_fail (file : SourceFile) (k : Kind) (dueAt : ℤ) :
    (failSubtitleJob file k dueAt db).leases kind host now ≤ db.leases kind host now :=
  leases_update_le fun j => leased_of_not_running <| by
    rw [Job.fail]
    split <;> simp

theorem leases_release (host' : Text) :
    (releaseSubtitleHost host' db).leases kind host now ≤ db.leases kind host now :=
  leases_update_le fun j => leased_of_not_running (by simp [Job.release])

theorem leases_rerun (k : Kind) :
    (rerunSubtitleJobs k db).leases kind host now ≤ db.leases kind host now :=
  leases_update_le fun j => leased_of_not_running (by simp [Job.release])

/-- A row that satisfies one of two conditions is counted by one of them. -/
theorem countP_le_add {l : List Job} {a b c : Job → Bool} (h : ∀ j ∈ l, a j → b j ∨ c j) :
    l.countP a ≤ l.countP b + l.countP c := by
  induction l with
  | nil => exact le_rfl
  | cons j l ih =>
    have hrest := ih fun x hx => h x (List.mem_cons_of_mem j hx)
    have hj := h j List.mem_cons_self
    simp only [List.countP_cons]
    by_cases ha : a j
    · rcases hj ha with hb | hc
      · rw [if_pos ha, if_pos hb]
        omega
      · rw [if_pos ha, if_pos hc]
        omega
    · rw [if_neg ha]
      omega

/-- As many rows of a kind have one of some files as there are files. -/
theorem countP_claimed (jobs : Table Job.key) (claimed : List Text) :
    jobs.rows.countP (fun j => j.kind = kind && claimed.contains j.fileId) ≤ claimed.length := by
  rw [List.countP_eq_length_filter]
  set rows := jobs.rows.filter fun j => j.kind = kind && claimed.contains j.fileId with hrows
  have hmem : ∀ j ∈ rows, j.kind = kind ∧ j.fileId ∈ claimed := by
    intro j hj
    have := (List.mem_filter.mp hj).2
    simpa using this
  have hnodup : (rows.map Job.fileId).Nodup := by
    refine List.Nodup.map_on ?_ ((List.Nodup.of_map _ jobs.nodup).filter _)
    intro j hj j' hj' hfile
    have hkey : j.key = j'.key := by
      rw [Job.key, Job.key, hfile, (hmem j hj).1, (hmem j' hj').1]
    exact Table.eq_of_key_eq (List.mem_filter.mp hj).1 (List.mem_filter.mp hj').1 hkey
  have hsub : rows.map Job.fileId ⊆ claimed := by
    intro file hfile
    obtain ⟨j, hj, rfl⟩ := List.mem_map.mp hfile
    exact (hmem j hj).2
  have hle := (List.subperm_of_subset hnodup hsub).length_le
  rwa [List.length_map] at hle

/-- A claim adds at most the jobs it returns, to its host and kind only, and returns
    at most what the limit leaves. -/
theorem leases_claim {jobs : List SubtitleJob} {db' : Db}
    (h : claimSubtitleJobs kind host inFlight now leaseSeconds limit db = some (jobs, db')) :
    jobs.length ≤ limit - db.leases kind host now ∧
    ∀ kind' host', db'.leases kind' host' now ≤
      db.leases kind' host' now + if kind' = kind ∧ host' = host then jobs.length else 0 := by
  unfold claimSubtitleJobs at h
  split at h
  · cases h
  · dsimp only at h
    split at h
    · cases h
      simp
    · simp only [Option.some.injEq, Prod.mk.injEq] at h
      obtain ⟨rfl, rfl⟩ := h
      refine ⟨by simp, fun kind' host' => ?_⟩
      set rows := (db.candidates kind host inFlight now).take (limit - db.leases kind host now)
      set claimed := rows.map fun c => c.2.fileId
      have hlength : (rows.map fun c => (⟨kind, c.1 + 1, c.2⟩ : SubtitleJob)).length =
          claimed.length := by simp [claimed]
      unfold Db.leases Db.update
      rw [Table.rows_mapRows, List.countP_map]
      split
      · rename_i hsame
        obtain ⟨rfl, rfl⟩ := hsame
        refine (countP_le_add (b := Job.leased kind' host' now)
          (c := fun j => j.kind = kind' && claimed.contains j.fileId) ?_).trans ?_
        · intro j _ hleased
          rw [Function.comp_apply] at hleased
          split at hleased
          · rename_i hclaimed
            exact Or.inr hclaimed
          · exact Or.inl hleased
        · rw [hlength]
          exact Nat.add_le_add_left (countP_claimed db.jobs claimed) _
      · rename_i hother
        refine List.countP_mono_left fun j _ hleased => ?_
        rw [Function.comp_apply] at hleased
        split at hleased
        · rename_i hclaimed
          simp only [Bool.and_eq_true, decide_eq_true_eq] at hclaimed
          obtain ⟨hkind, hhost, -⟩ := (leased_iff _).mp hleased
          exact absurd ⟨hkind.symm.trans hclaimed.1, (Option.some.inj hhost).symm⟩ hother
        · exact hleased

/-- No claim is given a larger limit. -/
def LimitedTo (limit : ℕ) (_ : System) : Event → Prop
  | .claim _ _ _ _ limit' => limit' ≤ limit
  | _ => True

theorem leases_next {s s' : System} {e : Event} (hok : LimitedTo limit s e)
    (hs : s.next e = some s') (h : ∀ kind host, s.db.leases kind host s.now ≤ limit) :
    ∀ kind host, s'.db.leases kind host s'.now ≤ limit := by
  intro kind' host'
  have hold := h kind' host'
  cases e with
  | tick seconds =>
    cases hs
    have hlater : s.now ≤ s.now + seconds := by omega
    exact (leases_antitone hlater).trans hold
  | commit catalogue upserts =>
    cases hs
    exact (leases_commit catalogue upserts).trans hold
  | claim kind host inFlight leaseSeconds limit' =>
    simp only [System.next] at hs
    split at hs
    · cases hs
      exact hold
    · rename_i jobs db' hclaim
      cases hs
      obtain ⟨hjobs, hleases⟩ := leases_claim hclaim
      have hafter := hleases kind' host'
      have hlimit : limit' ≤ limit := hok
      split at hafter
      · rename_i hsame
        obtain ⟨rfl, rfl⟩ := hsame
        show db'.leases kind' host' s.now ≤ limit
        omega
      · exact hafter.trans hold
  | reconcile file kind missing =>
    cases hs
    exact (leases_reconcile file kind missing).trans hold
  | fail file kind dueAt =>
    cases hs
    exact (leases_fail file kind dueAt).trans hold
  | release host =>
    cases hs
    exact (leases_release host).trans hold
  | rerun kind =>
    cases hs
    exact (leases_rerun kind).trans hold

/-- The window of a host and kind is never exceeded. -/
theorem leases_le_of_reaches {start : ℤ} {s : System}
    (h : (machine start).Reaches (LimitedTo limit) s) (kind : Kind) (host : Text) :
    s.db.leases kind host s.now ≤ limit := by
  have hall : ∀ kind host, s.db.leases kind host s.now ≤ limit := by
    refine h.invariant (I := fun s => ∀ kind host, s.db.leases kind host s.now ≤ limit) ?_ ?_
    · intro kind host
      exact Nat.zero_le limit
    · intro a e b ha hok he
      exact leases_next hok he ha
  exact hall kind host

/-! ## Stale replies -/

theorem reconcile_stale {file : SourceFile} (h : db.current file = false) (k : Kind)
    (missing : Bool) : reconcileSubtitleJob file k missing db = db := by
  simp [reconcileSubtitleJob, h]

theorem fail_stale {file : SourceFile} (h : db.current file = false) (k : Kind) (dueAt : ℤ) :
    failSubtitleJob file k dueAt db = db := by
  unfold failSubtitleJob Db.update
  rw [Table.mapRows_eq_self]
  intro j _
  simp [h]

/-! ## The driver -/

/-- `idle_for` of `queue.rs` in seconds. -/
def idleFor (nextDue : Option ℤ) (fallback : ℕ) (now : ℤ) : ℕ :=
  match nextDue with
  | some due => min (due - now).toNat fallback
  | none => fallback

/-- `next_due.into_iter().chain(due).min()` over the windows of a step. -/
def nextDue (windows : List (Kind × Text)) (now : ℤ) (refillAt : ℕ) (db : Db) : Option ℤ :=
  windows.foldl (fun next w =>
    (next.toList ++ (subtitleDispatchState w.1 w.2 now refillAt db).2.toList).min?) none

/-- The combined time is the smallest of the windows' times. -/
theorem nextDue_eq (windows : List (Kind × Text)) : nextDue windows now refillAt db =
    (windows.filterMap fun w => (subtitleDispatchState w.1 w.2 now refillAt db).2).min? := by
  have hfold : ∀ (ws : List (Kind × Text)) (ts : List ℤ),
      ws.foldl (fun next w =>
        (next.toList ++ (subtitleDispatchState w.1 w.2 now refillAt db).2.toList).min?) ts.min? =
      (ts ++ ws.filterMap fun w => (subtitleDispatchState w.1 w.2 now refillAt db).2).min? := by
    intro ws
    induction ws with
    | nil => simp
    | cons w ws ih =>
      intro ts
      have hstep : (ts.min?.toList ++ (subtitleDispatchState w.1 w.2 now refillAt db).2.toList).min? =
          (ts ++ (subtitleDispatchState w.1 w.2 now refillAt db).2.toList).min? := by
        rw [min?_append ts]
        cases (subtitleDispatchState w.1 w.2 now refillAt db).2 <;> rfl
      rw [List.foldl_cons, hstep, ih]
      cases hw : (subtitleDispatchState w.1 w.2 now refillAt db).2 <;> simp [hw]
  exact hfold windows []

/-- A refill that is due has a row to claim. -/
theorem not_refillDue (h : db.candidates kind host inFlight now = []) :
    ¬RefillDue kind host now refillAt db := by
  intro hdue
  obtain ⟨jobs, db', hclaim, hjobs⟩ :=
    claim_of_refillDue hdue (Nat.lt_succ_self refillAt) Int.zero_lt_one inFlight
  obtain ⟨db'', heq⟩ := claim_eq db kind host inFlight now (refillAt + 1) Int.zero_lt_one
  rw [hclaim, h, List.take_nil, List.map_nil] at heq
  simp only [Option.some.injEq, Prod.mk.injEq] at heq
  exact hjobs heq.1

/-- The driver sleeps some time where no window is due, and no window becomes due
    while it sleeps. -/
theorem sleeps_in_time {windows : List (Kind × Text)} {fallback : ℕ} (hfallback : 0 < fallback)
    (h : ∀ w ∈ windows, ¬RefillDue w.1 w.2 now refillAt db) :
    0 < idleFor (nextDue windows now refillAt db) fallback now ∧
    ∀ later, now ≤ later → later < now + idleFor (nextDue windows now refillAt db) fallback now →
      ∀ w ∈ windows, ¬RefillDue w.1 w.2 later refillAt db := by
  have hfuture : ∀ t ∈ nextDue windows now refillAt db, now < t := by
    intro t ht
    rw [nextDue_eq] at ht
    obtain ⟨w, hw, ht⟩ := List.mem_filterMap.mp (List.min?_mem ht)
    exact (idle_until (h w hw)).1 t ht
  have hpause : ∀ later, later < now + idleFor (nextDue windows now refillAt db) fallback now →
      ∀ t ∈ nextDue windows now refillAt db, later < t := by
    intro later hlater t ht
    rw [Option.mem_def.mp ht, idleFor] at hlater
    have hnow := hfuture t ht
    omega
  constructor
  · cases hnext : nextDue windows now refillAt db with
    | none => exact hfallback
    | some t =>
      have hnow := hfuture t hnext
      simp only [idleFor]
      omega
  · intro later hnow hlater w hw
    have hbefore : ∀ t ∈ (subtitleDispatchState w.1 w.2 now refillAt db).2, later < t := by
      intro t ht
      have hmem : t ∈ windows.filterMap fun w =>
          (subtitleDispatchState w.1 w.2 now refillAt db).2 := List.mem_filterMap.mpr ⟨w, hw, ht⟩
      refine lt_of_lt_min? ?_ hmem
      rw [← nextDue_eq]
      exact hpause later hlater
    rcases (idle_until (h w hw)).2 later hnow hbefore with ⟨habove, hsame⟩ | hnone
    · rintro ⟨hrunning, -⟩
      rw [dispatch_running] at hrunning
      omega
    · exact not_refillDue (hnone [])

/-! ## The queue -/

/-- The queue keeps its windows, ignores stale replies, has work for every refill,
    and between refills sleeps until one can be due. -/
theorem queue_neither_overclaims_nor_sleeps_past_a_refill {start : ℤ} {s : System}
    (h : (machine start).Reaches (LimitedTo limit) s) (hrefill : refillAt < limit) :
    (∀ kind host, s.db.leases kind host s.now ≤ limit) ∧
    (∀ kind host inFlight leaseSeconds limit' jobs db',
      claimSubtitleJobs kind host inFlight s.now leaseSeconds limit' s.db = some (jobs, db') →
      jobs ≠ [] → db'.leases kind host s.now ≤ limit') ∧
    (∀ file, s.db.current file = false → ∀ kind missing dueAt,
      reconcileSubtitleJob file kind missing s.db = s.db ∧
        failSubtitleJob file kind dueAt s.db = s.db) ∧
    (∀ kind host, RefillDue kind host s.now refillAt s.db → ∀ inFlight leaseSeconds,
      0 < leaseSeconds → ∃ jobs db',
        claimSubtitleJobs kind host inFlight s.now leaseSeconds limit s.db = some (jobs, db') ∧
          jobs ≠ []) ∧
    (∀ kind host, ¬RefillDue kind host s.now refillAt s.db →
      (∀ t ∈ (subtitleDispatchState kind host s.now refillAt s.db).2, s.now < t) ∧
      ∀ later, s.now ≤ later →
        (∀ t ∈ (subtitleDispatchState kind host s.now refillAt s.db).2, later < t) →
        (refillAt < s.db.leases kind host s.now ∧
          s.db.leases kind host later = s.db.leases kind host s.now) ∨
        ∀ inFlight leaseSeconds limit' jobs db',
          claimSubtitleJobs kind host inFlight later leaseSeconds limit' s.db = some (jobs, db') →
          jobs = []) ∧
    ∀ (windows : List (Kind × Text)) (fallback : ℕ), 0 < fallback →
      (∀ w ∈ windows, ¬RefillDue w.1 w.2 s.now refillAt s.db) →
      0 < idleFor (nextDue windows s.now refillAt s.db) fallback s.now ∧
      ∀ later, s.now ≤ later →
        later < s.now + idleFor (nextDue windows s.now refillAt s.db) fallback s.now →
        ∀ w ∈ windows, ¬RefillDue w.1 w.2 later refillAt s.db := by
  refine ⟨leases_le_of_reaches h, ?_, ?_, ?_, ?_, fun _ _ => sleeps_in_time⟩
  · intro kind host inFlight leaseSeconds limit' jobs db' hclaim hjobs
    obtain ⟨hlength, hleases⟩ := leases_claim hclaim
    have hafter := hleases kind host
    have hpos := List.length_pos_iff.mpr hjobs
    simp only [and_self, ↓reduceIte] at hafter
    omega
  · intro file hstale kind missing dueAt
    exact ⟨reconcile_stale hstale kind missing, fail_stale hstale kind dueAt⟩
  · intro kind host hdue inFlight leaseSeconds hlease
    exact claim_of_refillDue hdue hrefill hlease inFlight
  · intro kind host hidle
    refine ⟨(idle_until hidle).1, fun later hlater hbefore => ?_⟩
    rcases (idle_until hidle).2 later hlater hbefore with habove | hnone
    · exact Or.inl habove
    · refine Or.inr fun inFlight leaseSeconds limit' jobs db' hclaim => ?_
      by_cases hlease : 0 < leaseSeconds
      · obtain ⟨db'', heq⟩ := claim_eq s.db kind host inFlight later limit' hlease
        rw [hclaim, hnone, List.take_nil, List.map_nil] at heq
        simp only [Option.some.injEq, Prod.mk.injEq] at heq
        exact heq.1
      · rw [claimSubtitleJobs, if_pos (Int.not_lt.mp hlease)] at hclaim
        cases hclaim

/-! ## Above the threshold -/

/-- A catalogue of one collection whose files are the given ones. -/
def oneCollection (files : Table FileRow.id) : Catalogue where
  collections := Table.empty.put ⟨lit "c", lit "host", lit "films", .movies, false⟩
  roots := Table.empty.put ⟨lit "r", lit "root"⟩
  files := files

def filmRow (n : ℕ) : FileRow :=
  ⟨List.replicate (n + 1) 'f', lit "c", lit "r", List.replicate (n + 1) 'p', 1, some 10, some n,
    some 1, some 2, some [], none⟩

def films (n : ℕ) : Table FileRow.id := (List.range n).foldl (fun t i => t.put (filmRow i)) Table.empty

/-- Ten films are claimed and then another is found. -/
def eleventhFilm : List Event :=
  [.commit (oneCollection (films 10)) ((List.range 10).map fun i => ((filmRow i).id, true)),
    .claim .text (lit "host") [] 3600 16,
    .commit (oneCollection (films 11)) [((filmRow 10).id, true)]]

/-- With ten leases the driver is told to sleep until the first expires, and a claim
    would return the eleventh film at once. -/
theorem claimable_while_idle :
    ∃ s, (machine 1000).Reachable s ∧
      subtitleDispatchState .text (lit "host") s.now 8 s.db = (10, some 4600) ∧
      (claimSubtitleJobs .text (lit "host") [] s.now 3600 16 s.db).map (fun r => r.1.length) =
        some 1 := by
  have hrun : (((machine 1000).replay (fun _ _ => true) eleventhFilm (machine 1000).start).map
      fun s => decide (subtitleDispatchState .text (lit "host") s.now 8 s.db = (10, some 4600) ∧
        (claimSubtitleJobs .text (lit "host") [] s.now 3600 16 s.db).map (fun r => r.1.length) =
          some 1)) = some true := by decide
  obtain ⟨s, hs, hclaim⟩ := Option.map_eq_some_iff.mp hrun
  exact ⟨s, (Machine.reaches_of_replay hs).mono fun _ _ _ => trivial, of_decide_eq_true hclaim⟩

/-- The queue of that run. -/
theorem queue_of_eleven_films :
    ∃ s, (machine 1000).Reaches (LimitedTo 16) s ∧ s.db.leases .text (lit "host") s.now = 10 ∧
      ∀ kind host, s.db.leases kind host s.now ≤ 16 := by
  let ok : System → Event → Bool := fun _ e =>
    match e with
    | .claim _ _ _ _ limit => limit ≤ 16
    | _ => true
  have hrun : (((machine 1000).replay ok eleventhFilm (machine 1000).start).map
      fun s => decide (s.db.leases .text (lit "host") s.now = 10)) = some true := by decide
  obtain ⟨s, hs, hleases⟩ := Option.map_eq_some_iff.mp hrun
  have hreach : (machine 1000).Reaches (LimitedTo 16) s := by
    refine (Machine.reaches_of_replay hs).mono fun _ e hok => ?_
    cases e <;> simp_all [ok, LimitedTo]
  exact ⟨s, hreach, of_decide_eq_true hleases,
    (queue_neither_overclaims_nor_sleeps_past_a_refill hreach (show 8 < 16 by decide)).1⟩

end Kahawai.MediaDb.SubtitleJobs
