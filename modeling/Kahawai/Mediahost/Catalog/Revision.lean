import Kahawai.Mediahost.Catalog.Log

/-!
# Revisions, claims and facts

A claim carries the version of the revision that it was taken at, and a result
is stored while the claim names the current revision. `Carries` says what a scan
does meanwhile: a claim that names the current revision after the scan named a
revision with the same bytes before it, and a derived record that is live after
the scan was live before it, of the same bytes.

Main results:

* `Reachable.stamped`: no claim and no row is newer than the current version.
* `ScanEffects.carries`: what a scan does to claims and derived records.
* `storeOne_upsertFile`: a metadata-only update does not make a result stale.
-/

namespace Kahawai.Mediahost.Catalog

open Kahawai.Core Kahawai.Lib Kahawai.Proto Relation

variable (json : StreamsJson)

/-! ## Versions of claims -/

/-- No claim and no row of `catalog_files` is newer than the current version. -/
def Stamped (c : Catalog) : Prop := ∀ version, c.Stamp version → version ≤ c.currentVersion

/-- Where the versions of `c'` come from. -/
def Restamps (c c' : Catalog) : Prop :=
  ∀ version, c'.Stamp version → c.Stamp version ∨ version ≤ c'.currentVersion

theorem restamps {c c' : Catalog}
    (hjobs : ∀ j ∈ c'.jobs, (∃ j₀ ∈ c.jobs, j₀.sourceVersion = j.sourceVersion) ∨
      j.sourceVersion ≤ c'.currentVersion)
    (hfiles : ∀ row ∈ c'.files, (∃ row₀ ∈ c.files, row₀.version = row.version) ∨
      row.version ≤ c'.currentVersion) : Restamps c c' := by
  rintro version (⟨j, hj, rfl⟩ | ⟨row, hrow, rfl⟩)
  · exact (hjobs j hj).imp_left Or.inl
  · exact (hfiles row hrow).imp_left Or.inr

/-- Some of the rows are dropped. -/
theorem restamps_of_subset {c c' : Catalog} (hjobs : ∀ j ∈ c'.jobs, j ∈ c.jobs)
    (hfiles : ∀ row ∈ c'.files, row ∈ c.files) : Restamps c c' :=
  restamps (fun j hj => Or.inl ⟨j, hjobs j hj, rfl⟩)
    fun row hrow => Or.inl ⟨row, hfiles row hrow, rfl⟩

theorem Touched.restamps {c c' : Catalog} (h : Touched c c') : Restamps c c' := by
  refine Catalog.restamps (fun j hj => Or.inl ⟨j, h.jobs ▸ hj, rfl⟩) fun row hrow => Or.inl ?_
  have hmap := h.files row.source
  rw [Table.get?_of_mem hrow, Option.map_some, eq_comm, Option.map_eq_some_iff] at hmap
  obtain ⟨row₀, hrow₀, hrevision⟩ := hmap
  exact ⟨row₀, Table.get?_mem hrow₀, congrArg (fun r => r.2.1) hrevision⟩

/-- A row is written, and some of the jobs are dropped. -/
theorem restamps_withFile {c c' : Catalog} {row : StoredFile} (hjobs : ∀ j ∈ c'.jobs, j ∈ c.jobs)
    (hfiles : c'.files = (c.withFile row).files) (hrow : row.version ≤ c'.currentVersion) :
    Restamps c c' := by
  refine restamps (fun j hj => Or.inl ⟨j, hjobs j hj, rfl⟩) fun r hr => ?_
  rw [hfiles] at hr
  rcases Table.mem_put.mp hr with rfl | ⟨hr, -⟩
  · exact Or.inr hrow
  · exact Or.inl ⟨r, hr, rfl⟩

theorem version_erroredFile (error : FileError) (generation version : ℕ)
    (previous : Option StoredFile) :
    (erroredFile error generation version previous).version = version := by
  cases previous <;> rfl

theorem mem_dropIdleJobs {source : SourceKey} {c : Catalog} {j : Job} :
    j ∈ (c.dropIdleJobs source).jobs ↔ j ∈ c.jobs ∧ (j.source = source → j.state = .running) := by
  unfold dropIdleJobs
  rw [Table.mem_filter]
  simp [imp_iff_not_or]

theorem mem_rebaseJobs {source : SourceKey} {old new : ℕ} {c : Catalog} {j : Job} :
    j ∈ (c.rebaseJobs source old new).jobs ↔ ∃ j₀ ∈ c.jobs, rebaseJob source old new j₀ = j := by
  unfold rebaseJobs
  rw [Table.mem_mapRows]

theorem succ_le_written (source : SourceKey) (w : Kind × Option Payload)
    (ws : List (Kind × Option Payload)) (c : Catalog) :
    c.currentVersion + 1 ≤ (c.written source (w :: ws)).currentVersion := by
  rw [currentVersion_written, List.length_cons]
  omega

theorem ScanEffect.restamps {c c' : Catalog} (h : ScanEffect c c') : Restamps c c' := by
  cases h with
  | touched htouched => exact htouched.restamps
  | upserted file generation musicTagGeneration probed hupserts =>
    cases hupserts with
    | unchanged => exact (touched_touchFile _ _ _ _ c).restamps
    | replaced =>
      refine restamps_withFile (fun j hj => ?_) (files_written _ _ (c.withFile _)) ?_
      · have := (mem_dropIdleJobs.mp hj).1
        rwa [jobs_written] at this
      · exact succ_le_written file.source _ _ (c.withFile _)
    | refreshed stored =>
      refine Catalog.restamps (fun j hj => ?_) fun r hr => ?_
      · rw [jobs_written] at hj
        obtain ⟨j₀, hj₀, rfl⟩ := mem_rebaseJobs.mp hj
        unfold rebaseJob
        split_ifs
        · exact Or.inr (succ_le_written file.source _ _ (rebaseJobs _ _ _ (c.withFile _)))
        · exact Or.inl ⟨j₀, hj₀, rfl⟩
      · rw [files_written] at hr
        rcases Table.mem_put.mp hr with rfl | ⟨hr, -⟩
        · exact Or.inr (succ_le_written file.source _ _ (rebaseJobs _ _ _ (c.withFile _)))
        · exact Or.inl ⟨r, hr, rfl⟩
  | errored error generation herror herrors =>
    cases herrors with
    | repeated => exact (touched_markSeen _ _ c).restamps
    | lost stored =>
      refine restamps_withFile (fun j hj => ?_) (files_written _ _ (c.withFile _)) ?_
      · have := (mem_dropIdleJobs.mp hj).1
        rwa [jobs_written] at this
      · rw [version_erroredFile]
        show _ ≤ (written _ _ _).currentVersion
        rw [currentVersion_written, List.length_append, List.length_cons]
        show _ ≤ c.currentVersion + (_ + 1 + 1)
        omega
    | failed =>
      refine restamps_withFile (fun j hj => by rwa [jobs_written] at hj) (by rw [files_written]) ?_
      rw [version_erroredFile, currentVersion_written]
      exact le_rfl
  | removed source =>
    refine restamps_of_subset (fun j hj => by rwa [jobs_written] at hj) fun row hrow => ?_
    rw [files_written] at hrow
    exact (Table.mem_erase.mp hrow).1

theorem Effect.restamps {c c' : Catalog} (h : Effect c c') : Restamps c c' := by
  cases h with
  | scan hscan => exact hscan.restamps
  | claimed jobs hjobs =>
    rintro version (⟨j, hj, rfl⟩ | hfile)
    · exact Or.inl (hjobs j hj)
    · exact Or.inl (Or.inr hfile)
  | stored fact hstores =>
    cases hstores with
    | stale => exact restamps_of_subset (fun j hj => (Table.mem_erase.mp hj).1) fun _ hrow => hrow
    | stored =>
      refine restamps_of_subset (fun j hj => ?_) fun row hrow => by rwa [files_written] at hrow
      rw [jobs_written] at hj
      exact (Table.mem_erase.mp hj).1
  | invalidated =>
    exact restamps_of_subset (fun j hj => by rwa [jobs_written] at hj)
      fun row hrow => by rwa [files_written] at hrow

theorem Effect.stamped {c c' : Catalog} (h : Effect c c') (hc : Stamped c) : Stamped c' := by
  intro version hv
  rcases h.restamps version hv with hold | hnew
  · exact (hc version hold).trans h.extends.2
  · exact hnew

/-! ## Claims and derived records -/

/-- What a scan does to claims and derived records. -/
structure Carries (c c' : Catalog) : Prop where
  /-- A claim stays; if it names the current revision now, it did before, and the
      bytes are the same. -/
  claim : ∀ key job, c.claim? key = some job → ∃ job', c'.claim? key = some job' ∧
    ∀ row', c'.current? key.2 = some row' → sameRevision job' row' →
      ∃ row, c.current? key.2 = some row ∧ sameRevision job row ∧ row.identity = row'.identity
  /-- A derived record that is live now was live before, of the same bytes. -/
  fact : ∀ kind source, kind.IsDerived → (c'.log.live (kind, source)).isSome →
    (c.log.live (kind, source)).isSome ∧
      (c'.current? source).map StoredFile.identity = (c.current? source).map StoredFile.identity

theorem Carries.refl (c : Catalog) : Carries c c :=
  ⟨fun _ job hjob => ⟨job, hjob, fun row hrow hsame => ⟨row, hrow, hsame, rfl⟩⟩,
    fun _ _ _ hlive => ⟨hlive, rfl⟩⟩

theorem Carries.trans {c d e : Catalog} (h : Carries c d) (h' : Carries d e) : Carries c e := by
  constructor
  · intro key job hjob
    obtain ⟨job', hjob', hsound⟩ := h.claim key job hjob
    obtain ⟨job'', hjob'', hsound'⟩ := h'.claim key job' hjob'
    refine ⟨job'', hjob'', fun row'' hrow'' hsame'' => ?_⟩
    obtain ⟨row', hrow', hsame', heq'⟩ := hsound' row'' hrow'' hsame''
    obtain ⟨row, hrow, hsame, heq⟩ := hsound row' hrow' hsame'
    exact ⟨row, hrow, hsame, heq.trans heq'⟩
  · intro kind source hkind hlive
    obtain ⟨hlive', heq'⟩ := h'.fact kind source hkind hlive
    obtain ⟨hlive'', heq⟩ := h.fact kind source hkind hlive'
    exact ⟨hlive'', heq'.trans heq⟩

/-- Nothing changes but what belongs to a source. -/
structure OnlySource (source : SourceKey) (c c' : Catalog) : Prop where
  claim : ∀ key : RecordKey, key.2 ≠ source → c'.claim? key = c.claim? key
  current : ∀ other, other ≠ source → c'.current? other = c.current? other
  log : ∀ kind other, other ≠ source → c'.log (kind, other) = c.log (kind, other)

theorem OnlySource.carries {source : SourceKey} {c c' : Catalog} (h : OnlySource source c c')
    (hclaim : ∀ kind job, c.claim? (kind, source) = some job →
      ∃ job', c'.claim? (kind, source) = some job' ∧
        ∀ row', c'.current? source = some row' → sameRevision job' row' →
          ∃ row, c.current? source = some row ∧ sameRevision job row ∧
            row.identity = row'.identity)
    (hfact : ∀ kind, kind.IsDerived → (c'.log.live (kind, source)).isSome →
      (c.log.live (kind, source)).isSome ∧
        (c'.current? source).map StoredFile.identity =
          (c.current? source).map StoredFile.identity) : Carries c c' := by
  constructor
  · rintro ⟨kind, other⟩ job hjob
    by_cases hother : other = source
    · subst hother
      exact hclaim kind job hjob
    · refine ⟨job, (h.claim (kind, other) hother).trans hjob, fun row hrow hsame => ?_⟩
      exact ⟨row, (h.current other hother).symm.trans hrow, hsame, rfl⟩
  · intro kind other hkind hlive
    by_cases hother : other = source
    · subst hother
      exact hfact kind hkind hlive
    · refine ⟨?_, by rw [h.current other hother]⟩
      unfold Log.live at hlive ⊢
      rwa [← h.log kind other hother]

/-- A claim on a source that is not available now names no revision. -/
theorem OnlySource.carries_unavailable {source : SourceKey} {c c' : Catalog}
    (h : OnlySource source c c')
    (hclaim : ∀ kind, c'.claim? (kind, source) = c.claim? (kind, source))
    (hcurrent : c'.current? source = none)
    (hdead : ∀ kind, kind.IsDerived → c'.log.live (kind, source) = none) : Carries c c' := by
  refine h.carries (fun kind job hjob => ⟨job, (hclaim kind).trans hjob, fun row hrow => ?_⟩)
    fun kind hkind hlive => ?_
  · rw [hcurrent] at hrow
    cases hrow
  · rw [hdead kind hkind] at hlive
    cases hlive

theorem current?_revision (source : SourceKey) (c : Catalog) :
    (c.current? source).map StoredFile.revision =
      ((c.files.get? source).map StoredFile.revision).filter fun r => r.2.2.isEmpty := by
  unfold current?
  cases c.files.get? source with
  | none => rfl
  | some row => cases herror : row.error <;> simp [Option.filter, herror, StoredFile.revision]

theorem sameRevision_congr {row row' : StoredFile} (h : row.revision = row'.revision) (job : Job) :
    sameRevision job row = sameRevision job row' := by
  have hidentity : row.identity = row'.identity := congrArg Prod.fst h
  have hversion : row.version = row'.version := congrArg (fun r => r.2.1) h
  have hsize : row.size = row'.size := congrArg Identity.size hidentity
  have hmtime : row.mtime = row'.mtime := congrArg Identity.mtime hidentity
  unfold sameRevision
  rw [hversion, hsize, hmtime]

theorem Touched.current {c c' : Catalog} (h : Touched c c') (source : SourceKey) :
    (c'.current? source).map StoredFile.revision = (c.current? source).map StoredFile.revision := by
  rw [current?_revision, current?_revision, h.files source]

theorem Touched.carries {c c' : Catalog} (h : Touched c c') : Carries c c' := by
  constructor
  · intro key job hjob
    refine ⟨job, by unfold claim?; rw [h.jobs]; exact hjob, fun row' hrow' hsame => ?_⟩
    have hcurrent := h.current key.2
    rw [hrow', Option.map_some, eq_comm, Option.map_eq_some_iff] at hcurrent
    obtain ⟨row, hrow, heq⟩ := hcurrent
    exact ⟨row, hrow, (sameRevision_congr heq job).trans hsame, congrArg Prod.fst heq⟩
  · intro kind source _ hlive
    have hlog : c'.log = c.log := by
      unfold log
      rw [h.records]
    refine ⟨hlog ▸ hlive, ?_⟩
    have hcurrent := congrArg (Option.map Prod.fst) (h.current source)
    rwa [Option.map_map, Option.map_map] at hcurrent

/-! ## Reads after an effect -/

theorem claim?_dropIdleJobs (source : SourceKey) (c : Catalog) (key : RecordKey) :
    (c.dropIdleJobs source).claim? key = c.claim? key := by
  unfold claim? dropIdleJobs
  rw [Table.get?_filter]
  cases c.jobs.get? key with
  | none => rfl
  | some j =>
    by_cases hsource : j.source = source <;> cases hstate : j.state <;>
      simp [Option.filter, hsource, hstate]

theorem claim?_rebaseJobs (source : SourceKey) (old new : ℕ) (c : Catalog) (key : RecordKey) :
    (c.rebaseJobs source old new).claim? key = (c.claim? key).map (rebaseJob source old new) := by
  unfold claim? rebaseJobs
  rw [Table.get?_mapRows]
  cases c.jobs.get? key with
  | none => rfl
  | some j =>
    have hstate : (rebaseJob source old new j).state = j.state := by
      unfold rebaseJob
      split <;> rfl
    cases hrunning : j.state <;> simp [Option.filter, hstate, hrunning]

theorem source_of_claim? {key : RecordKey} {c : Catalog} {job : Job} (h : c.claim? key = some job) :
    job.source = key.2 := by
  unfold claim? at h
  rw [← Table.get?_key (Option.filter_eq_some_iff.mp h).1]
  rfl

theorem claim?_rebaseJobs_of_ne {source : SourceKey} {key : RecordKey} (h : key.2 ≠ source)
    (old new : ℕ) (c : Catalog) :
    (c.rebaseJobs source old new).claim? key = c.claim? key := by
  rw [claim?_rebaseJobs]
  cases hjob : c.claim? key with
  | none => rfl
  | some job =>
    have hsource : job.source ≠ source := by
      rw [source_of_claim? hjob]
      exact h
    simp [rebaseJob, hsource]

theorem current?_rebaseJobs (source : SourceKey) (old new : ℕ) (c : Catalog) (other : SourceKey) :
    (c.rebaseJobs source old new).current? other = c.current? other := rfl

theorem log_rebaseJobs (source : SourceKey) (old new : ℕ) (c : Catalog) :
    (c.rebaseJobs source old new).log = c.log := rfl

theorem claim?_written (source : SourceKey) (ws : List (Kind × Option Payload)) (c : Catalog)
    (key : RecordKey) : (c.written source ws).claim? key = c.claim? key := by
  unfold claim?
  rw [jobs_written]

theorem current?_written (source : SourceKey) (ws : List (Kind × Option Payload)) (c : Catalog)
    (other : SourceKey) : (c.written source ws).current? other = c.current? other := by
  unfold current?
  rw [files_written]

theorem current?_withFile {row : StoredFile} {source : SourceKey} (hrow : row.source = source)
    (c : Catalog) : (c.withFile row).current? source = if row.error = [] then some row else none := by
  unfold current?
  rw [get?_withFile, if_pos hrow]
  cases h : row.error <;> simp [Option.filter, h]

theorem current?_upserted (file : FileRecord) (generation musicTagGeneration version : ℕ)
    (probed : Bool) (previous : Option StoredFile) (c : Catalog) :
    (c.withFile (upsertedFile file generation musicTagGeneration version probed
      previous)).current? file.source =
        some (upsertedFile file generation musicTagGeneration version probed previous) := by
  have hrow : (upsertedFile file generation musicTagGeneration version probed previous).source =
      file.source := rfl
  rw [current?_withFile hrow]
  exact if_pos rfl

theorem current?_withFile_of_ne {row : StoredFile} {source other : SourceKey}
    (hrow : row.source = source) (hother : other ≠ source) (c : Catalog) :
    (c.withFile row).current? other = c.current? other := by
  unfold current?
  rw [get?_withFile_of_ne hrow hother]

theorem live_written (source : SourceKey) (ws : List (Kind × Option Payload)) (c : Catalog)
    (kind : Kind) :
    (c.written source ws).log.live (kind, source) =
      Log.live (applyWrites c.currentVersion ws (c.sourceLog source)) kind := by
  unfold Log.live
  rw [log_written]
  rfl

/-- Writes of a source after a change of its row. -/
theorem onlySource_written {source : SourceKey} {row : StoredFile} (hrow : row.source = source)
    (ws : List (Kind × Option Payload)) (c : Catalog) :
    OnlySource source c ((c.withFile row).written source ws) := by
  refine ⟨fun key _ => claim?_written source ws _ key, fun other hother => ?_,
    fun kind other hother => log_written_of_ne hother ws _ kind⟩
  rw [current?_written, current?_withFile_of_ne hrow hother]

theorem OnlySource.rebaseJobs {source : SourceKey} {c c' : Catalog} (h : OnlySource source c c')
    (old new : ℕ) : OnlySource source c (c'.rebaseJobs source old new) :=
  ⟨fun key hkey => (claim?_rebaseJobs_of_ne hkey old new c').trans (h.claim key hkey), h.current,
    h.log⟩

/-! ## What a scan carries -/

theorem sameBytes_iff {stored : StoredFile} {file : FileRecord} :
    stored.sameBytes file = true ↔
      stored.identity = ⟨file.size, file.mtime, file.headXxh3, file.tailXxh3, file.oshash⟩ := by
  unfold StoredFile.sameBytes StoredFile.identity
  simp [and_assoc]

theorem current?_of_get? {source : SourceKey} {c : Catalog} {row : StoredFile}
    (hrow : c.files.get? source = some row) (hlive : row.error = []) :
    c.current? source = some row := by
  simp [current?, hrow, Option.filter, hlive]

/-- The claims on a source whose row is written at a new version with the same
    bytes. -/
theorem sameRevision_rebaseJob {source : SourceKey} {c : Catalog} (hc : Stamped c) {job : Job}
    {key : RecordKey} (hjob : c.claim? key = some job) (hsource : key.2 = source)
    {stored row : StoredFile} (hidentity : stored.identity = row.identity)
    (hversion : row.version = c.currentVersion + 1) :
    sameRevision (rebaseJob source stored.version (c.currentVersion + 1) job) row =
      sameRevision job stored := by
  unfold claim? at hjob
  rw [Option.filter_eq_some_iff, Table.get?_eq_some] at hjob
  obtain ⟨⟨hmem, hkey⟩, hrunning⟩ := hjob
  have hle : job.sourceVersion ≤ c.currentVersion := hc _ (Or.inl ⟨job, hmem, rfl⟩)
  have hjobsource : job.source = source := by rw [← hsource, ← hkey]; rfl
  have hsize : stored.size = row.size := congrArg Identity.size hidentity
  have hmtime : stored.mtime = row.mtime := congrArg Identity.mtime hidentity
  have hstate : job.state = .running := by simpa using hrunning
  unfold sameRevision rebaseJob
  by_cases hold : job.sourceVersion = stored.version
  · simp [hjobsource, hstate, hold, hsize, hmtime, hversion]
  · have hne : job.sourceVersion ≠ c.currentVersion + 1 := by omega
    simp [hold, hversion, hne]

/-- The version of a claim is not that of a revision written later. -/
theorem not_sameRevision {c : Catalog} (hc : Stamped c) {key : RecordKey} {job : Job}
    (hjob : c.claim? key = some job) {row : StoredFile}
    (hversion : c.currentVersion < row.version) : sameRevision job row = false := by
  unfold claim? at hjob
  have hmem := Table.get?_mem (Option.filter_eq_some_iff.mp hjob).1
  have hle : job.sourceVersion ≤ c.currentVersion := hc _ (Or.inl ⟨job, hmem, rfl⟩)
  have hne : job.sourceVersion ≠ row.version := by omega
  simp [sameRevision, hne]

/-- A row is written at a new version, and no derived record of its source stays
    live: the claims on the source name no revision any more. -/
theorem carries_withFile {c : Catalog} {source : SourceKey} {row : StoredFile}
    {ws : List (Kind × Option Payload)} (hc : Stamped c) (hrow : row.source = source)
    (hversion : c.currentVersion < row.version)
    (hdead : ∀ kind, kind.IsDerived →
      Log.live (applyWrites c.currentVersion ws (c.sourceLog source)) kind = none) :
    Carries c ((c.withFile row).written source ws) := by
  refine (onlySource_written hrow ws c).carries
    (fun kind job hjob => ⟨job, ?_, fun row' hrow' hsame => ?_⟩) fun kind hkind hlive => ?_
  · rw [claim?_written]
    exact hjob
  · rw [current?_written, current?_withFile hrow] at hrow'
    split_ifs at hrow'
    cases hrow'
    rw [not_sameRevision hc hjob hversion] at hsame
    cases hsame
  · rw [live_written] at hlive
    have hnone : Log.live (applyWrites c.currentVersion ws (c.sourceLog source)) kind = none :=
      hdead kind hkind
    exact absurd (hlive.symm.trans (congrArg Option.isSome hnone)) (by decide)

theorem Carries.dropIdleJobs {c c' : Catalog} (h : Carries c c') (source : SourceKey) :
    Carries c (c'.dropIdleJobs source) := by
  refine ⟨fun key job hjob => ?_, h.fact⟩
  obtain ⟨job', hjob', hsound⟩ := h.claim key job hjob
  exact ⟨job', (claim?_dropIdleJobs source c' key).trans hjob', hsound⟩

theorem Upserts.carries {c c' : Catalog} {file : FileRecord} {generation musicTagGeneration : ℕ}
    {probed : Bool} (h : Upserts file generation musicTagGeneration probed c c')
    (hc : Stamped c) : Carries c c' := by
  cases h with
  | unchanged => exact (touched_touchFile _ _ _ _ c).carries
  | replaced =>
    have hrow : (upsertedFile file generation musicTagGeneration (c.currentVersion + 1) probed
        (c.files.get? file.source)).source = file.source := rfl
    refine Carries.dropIdleJobs (carries_withFile hc hrow (Nat.lt_succ_self _)
      fun kind hkind => ?_) _
    exact (tombstoned_after file.source _ c).2 kind hkind.1
  | refreshed stored hstored hlive hbytes =>
    have hcurrent := current?_of_get? hstored hlive
    have hidentity : stored.identity = (upsertedFile file generation musicTagGeneration
        (c.currentVersion + 1) probed (some stored)).identity := sameBytes_iff.mp hbytes
    have hrow : (upsertedFile file generation musicTagGeneration (c.currentVersion + 1) probed
        (some stored)).source = file.source := rfl
    have honly := onlySource_written hrow
      ((.file, some (.fileUpsert c.id [file])) :: c.kept file.source) c
    rw [written_comm (rebaseJobs _ _ _) fun _ _ _ => rfl]
    refine (honly.rebaseJobs stored.version (c.currentVersion + 1)).carries
      (fun kind job hjob => ⟨rebaseJob file.source stored.version (c.currentVersion + 1) job, ?_,
        fun row' hrow' hsame => ?_⟩) fun kind hkind hlive' => ?_
    · rw [claim?_rebaseJobs, claim?_written]
      exact congrArg (Option.map _) hjob
    · rw [current?_rebaseJobs, current?_written, current?_upserted, Option.some.injEq] at hrow'
      rw [← hrow', sameRevision_rebaseJob hc hjob rfl hidentity rfl] at hsame
      exact ⟨stored, hcurrent, hsame, hrow' ▸ hidentity⟩
    · rw [log_rebaseJobs, live_written] at hlive'
      have hkept := ((kept_after file.source (some (.fileUpsert c.id [file])) c).2 kind hkind.1).1
      refine ⟨(congrArg Option.isSome hkept).symm.trans hlive', ?_⟩
      rw [current?_rebaseJobs, current?_written, current?_upserted, hcurrent]
      exact congrArg some hidentity.symm

theorem RecordsError.carries {c c' : Catalog} {error : FileError} {generation : ℕ}
    (h : RecordsError error generation c c') (hc : Stamped c) (hcoherent : AllCoherent c) :
    Carries c c' := by
  cases h with
  | repeated => exact (touched_markSeen _ _ c).carries
  | lost stored hstored hlive =>
    have hrow : (erroredFile error generation
        (c.currentVersion + (c.tombstones error.source).length + 2) (some stored)).source =
          error.source := by
      rw [← hstored]
      exact source_erroredFile ..
    refine Carries.dropIdleJobs (carries_withFile hc hrow ?_ fun kind hkind => ?_) _
    · rw [version_erroredFile]
      omega
    · rw [applyWrites_concat]
      unfold Log.live
      rw [Function.update_of_ne hkind.2]
      exact (tombstoned_after error.source none c).2 kind hkind.1
  | failed hstored =>
    refine carries_withFile hc (source_erroredFile ..) ?_ fun kind hkind => ?_
    · rw [version_erroredFile]
      omega
    · have hold := hcoherent error.source
      rw [not_available_of_get? hstored] at hold
      rw [applyWrites, applyWrites]
      unfold Log.live
      rw [Function.update_of_ne hkind.2, ← Option.not_isSome_iff_eq_none]
      exact fun hlive => absurd (hold.derived kind hkind hlive) (by decide)

theorem carries_removed {c : Catalog} (source : SourceKey) :
    Carries c (({ c with files := c.files.erase source } : Catalog).written source
      (c.tombstones source ++ [(.file, none)])) := by
  have hget : ∀ other, (c.files.erase source).get? other =
      if source = other then none else c.files.get? other := fun other =>
    Table.get?_erase c.files other source
  have honly : OnlySource source c
      (({ c with files := c.files.erase source } : Catalog).written source
        (c.tombstones source ++ [(.file, none)])) := by
    refine ⟨fun key _ => claim?_written source _ _ key, fun other hother => ?_,
      fun kind other hother => log_written_of_ne hother _ _ kind⟩
    rw [current?_written]
    exact congrArg (Option.filter _) ((hget other).trans (if_neg hother.symm))
  refine honly.carries_unavailable (fun kind => claim?_written source _ _ _) ?_ fun kind hkind => ?_
  · rw [current?_written]
    exact congrArg (Option.filter _) ((hget source).trans (if_pos rfl))
  · have hnodup : ((c.tombstones source).map Prod.fst).Nodup := by
      rw [map_fst_tombstones]
      exact nodup_liveDerived source c
    rw [live_written, applyWrites_concat]
    unfold Log.live
    rw [Function.update_of_ne hkind.1]
    rcases applyWrites_cases hnodup (c.sourceLog source) kind with
      ⟨q, n, hq, -, -, heq⟩ | ⟨hnot, heq⟩
    · exact (live_of_eq heq).trans (mem_tombstones.mp hq).1
    · rw [map_fst_tombstones, mem_kinds_liveDerived, not_and] at hnot
      exact (congrArg (Option.bind · Entry.value) heq).trans
        (Option.not_isSome_iff_eq_none.mp (hnot hkind.1))

theorem ScanEffect.carries {c c' : Catalog} (h : ScanEffect c c') (hc : Stamped c)
    (hcoherent : AllCoherent c) : Carries c c' := by
  cases h with
  | touched htouched => exact htouched.carries
  | upserted file generation musicTagGeneration probed hupserts => exact hupserts.carries hc
  | errored error generation herror herrors => exact herrors.carries hc hcoherent
  | removed source => exact carries_removed source

/-- The invariants of the preceding modules and of this one. -/
structure Sound (c : Catalog) : Prop where
  numbered : Numbered c
  coherent : AllCoherent c
  stamped : Stamped c

theorem Effect.sound {c c' : Catalog} (h : Effect c c') (hc : Sound c) : Sound c' :=
  ⟨h.numbered hc.numbered, h.coherent hc.numbered hc.coherent, h.stamped hc.stamped⟩

theorem sound_insert (id epoch : Text) (mediaType : MediaType) (analyzer : Kind → Option Text) :
    Sound (insertCollection id epoch mediaType analyzer) := by
  refine ⟨numbered_insert .., coherent_insert id epoch mediaType analyzer, ?_⟩
  rintro version (⟨j, hj, -⟩ | ⟨row, hrow, -⟩)
  · exact absurd hj (Table.not_mem_empty j)
  · exact absurd hrow (Table.not_mem_empty row)

theorem Step.sound {c c' : Catalog} (h : Step json c c') (hc : Sound c) : Sound c' :=
  (h.effects json).keep (fun _ _ hc heffect => heffect.sound hc) hc

theorem ScanEffects.carries {c c' : Catalog} (h : ScanEffects c c') (hc : Sound c) :
    Carries c c' ∧ Sound c' := by
  induction h with
  | refl => exact ⟨Carries.refl c, hc⟩
  | tail _ heffect ih =>
    exact ⟨ih.1.trans (heffect.carries ih.2.stamped ih.2.coherent),
      (Effect.scan heffect).sound ih.2⟩

/-! ## Metadata-only updates -/

/-- A result is as good for a revision of the same size and time. -/
theorem storeOne_ok_of {c c' : Catalog} {fact : Fact} (hok : (c.storeOne fact).1.isOk)
    (hafter : ∀ claim current, c.claim? (fact.kind, fact.source) = some claim →
      c.current? fact.source = some current → sameRevision claim current →
      ∃ claim' current', c'.claim? (fact.kind, fact.source) = some claim' ∧
        c'.current? fact.source = some current' ∧ sameRevision claim' current' ∧
        current.identity = current'.identity) : (c'.storeOne fact).1.isOk := by
  have hstores := storeOne_spec fact c
  rw [hok] at hstores
  generalize (c.storeOne fact).2 = d at hstores
  cases hstores with
  | stored claim current hclaim hcurrent hsame hsize hmtime =>
    obtain ⟨claim', current', hclaim', hcurrent', hsame', hidentity⟩ :=
      hafter claim current hclaim hcurrent hsame
    have hsize' : current.size = current'.size := congrArg Identity.size hidentity
    have hmtime' : current.mtime = current'.mtime := congrArg Identity.mtime hidentity
    exact storeOne_ok hclaim' hcurrent' hsame' (hsize' ▸ hsize) (hmtime' ▸ hmtime)

/-- A metadata-only update does not make a result stale: what would have been
    stored before it is stored after it. -/
theorem storeOne_upsertFile {c : Catalog} (hc : Stamped c) {file : FileRecord}
    {stored : StoredFile} (hstored : c.current? file.source = some stored)
    (hbytes : stored.sameBytes file) (generation musicTagGeneration : ℕ) (probed : Bool)
    {fact : Fact} (hok : (c.storeOne fact).1.isOk) :
    ((c.upsertFile file generation musicTagGeneration probed).2.storeOne fact).1.isOk := by
  refine storeOne_ok_of hok fun claim current hclaim hcurrent hsame => ?_
  obtain ⟨hget, herror⟩ := Option.filter_eq_some_iff.mp hstored
  rw [List.isEmpty_iff] at herror
  have hspec := upsertFile_spec file generation musicTagGeneration probed c
  generalize (c.upsertFile file generation musicTagGeneration probed).2 = d at hspec ⊢
  cases hspec with
  | unchanged =>
    have htouched := touched_touchFile file.source generation musicTagGeneration probed c
    have hrevision := htouched.current fact.source
    rw [hcurrent, Option.map_some, Option.map_eq_some_iff] at hrevision
    obtain ⟨current', hcurrent', heq⟩ := hrevision
    exact ⟨claim, current', hclaim, hcurrent', (sameRevision_congr heq claim).trans hsame,
      (congrArg Prod.fst heq).symm⟩
  | replaced hdiff =>
    rcases hdiff stored hget with hne | hne
    · exact absurd herror hne
    · rw [hbytes] at hne
      cases hne
  | refreshed stored' hstored' hlive' hbytes' =>
    rw [hget, Option.some.injEq] at hstored'
    subst hstored'
    have hidentity : stored.identity = (upsertedFile file generation musicTagGeneration
        (c.currentVersion + 1) probed (some stored)).identity := sameBytes_iff.mp hbytes
    have hrow : (upsertedFile file generation musicTagGeneration (c.currentVersion + 1) probed
        (some stored)).source = file.source := rfl
    rw [written_comm (rebaseJobs _ _ _) fun _ _ _ => rfl]
    by_cases hsource : fact.source = file.source
    · -- The claim is carried to the new version.
      rw [hsource, hstored, Option.some.injEq] at hcurrent
      subst hcurrent
      refine ⟨rebaseJob file.source stored.version (c.currentVersion + 1) claim, _, ?_, ?_,
        (sameRevision_rebaseJob hc hclaim hsource hidentity rfl).trans hsame, hidentity⟩
      · rw [claim?_rebaseJobs, claim?_written]
        exact congrArg (Option.map _) hclaim
      · rw [hsource, current?_rebaseJobs, current?_written, current?_upserted]
    · refine ⟨claim, current, ?_, ?_, hsame, rfl⟩
      · rw [claim?_rebaseJobs_of_ne hsource, claim?_written]
        exact hclaim
      · rw [current?_rebaseJobs, current?_written, current?_withFile_of_ne hrow hsource]
        exact hcurrent

end Kahawai.Mediahost.Catalog
