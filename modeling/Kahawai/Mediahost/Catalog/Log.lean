import Kahawai.Mediahost.Catalog.Step

/-!
# The replay log

The records of a collection are a log that hubs replay by version. Each source
has a base record, `file`, a diagnostic, `file_error`, and derived records;
`Coherent` is what every operation keeps of the records of one source, and
`Numbered` what it keeps of all versions.

Main results:

* `Reachable.numbered`: no two records have the same version, and none is newer
  than the current version.
* `Reachable.coherent`: live records of a source are newer than its base record;
  base record and diagnostic are not both live; the base record is live exactly
  when the source is available.
* `Step.extends`: an operation writes above the version it starts from, so what a
  hub has read stays read.
-/

namespace Kahawai.Mediahost.Catalog

open Kahawai.Core Kahawai.Lib Kahawai.Proto

variable (json : StreamsJson)

/-! ## Versions -/

/-- The versions of the records are distinct, and none exceeds the current one. -/
structure Numbered (c : Catalog) : Prop where
  pos : ∀ r ∈ c.records, 0 < r.version
  le : ∀ r ∈ c.records, r.version ≤ c.currentVersion
  inj : ∀ r ∈ c.records, ∀ r' ∈ c.records, r.version = r'.version → r = r'

theorem Numbered.write {c : Catalog} (h : Numbered c) (kind : Kind) (source : SourceKey)
    (payload : Option Payload) :
    Numbered (c.nextVersion.2.putRecord kind source (c.currentVersion + 1) payload) := by
  have hmem : ∀ r, r ∈ (c.nextVersion.2.putRecord kind source (c.currentVersion + 1)
      payload).records ↔ r = ⟨kind, source, c.currentVersion + 1, payload⟩ ∨
        r ∈ c.records ∧ r.key ≠ (kind, source) := fun r => Table.mem_put
  refine ⟨fun r hr => ?_, fun r hr => ?_, fun r hr r' hr' heq => ?_⟩
  · rcases (hmem r).mp hr with rfl | ⟨hr, -⟩
    · exact Nat.succ_pos _
    · exact h.pos r hr
  · show r.version ≤ c.currentVersion + 1
    rcases (hmem r).mp hr with rfl | ⟨hr, -⟩
    · exact le_rfl
    · have := h.le r hr
      omega
  · rcases (hmem r).mp hr with rfl | ⟨hr, -⟩ <;> rcases (hmem r').mp hr' with rfl | ⟨hr', -⟩
    · rfl
    · have := h.le r' hr'
      simp only at heq
      omega
    · have := h.le r hr
      simp only at heq
      omega
    · exact h.inj r hr r' hr' heq

theorem Numbered.written {c : Catalog} (h : Numbered c) (source : SourceKey)
    (ws : List (Kind × Option Payload)) : Numbered (c.written source ws) := by
  induction ws generalizing c with
  | nil => exact h
  | cons w rest ih =>
    rw [written_cons]
    exact ih (h.write w.1 source w.2)

/-- Only the records and the current version matter. -/
theorem Numbered.congr {c c' : Catalog} (h : Numbered c) (hrecords : c'.records = c.records)
    (hversion : c'.currentVersion = c.currentVersion) : Numbered c' := by
  constructor
  · rw [hrecords]
    exact h.pos
  · rw [hrecords, hversion]
    exact h.le
  · rw [hrecords]
    exact h.inj

/-- In a log, a version belongs to one key. -/
theorem Numbered.log_le {c : Catalog} (h : Numbered c) {key : RecordKey} {e : Entry Payload}
    (he : c.log key = some e) : 0 < e.version ∧ e.version ≤ c.currentVersion := by
  obtain ⟨r, hr, -, rfl⟩ := log_eq_some.mp he
  exact ⟨h.pos r hr, h.le r hr⟩

theorem Numbered.log_inj {c : Catalog} (h : Numbered c) {key key' : RecordKey}
    {e e' : Entry Payload} (he : c.log key = some e) (he' : c.log key' = some e')
    (heq : e.version = e'.version) : key = key' := by
  obtain ⟨r, hr, rfl, rfl⟩ := log_eq_some.mp he
  obtain ⟨r', hr', rfl, rfl⟩ := log_eq_some.mp he'
  rw [h.inj r hr r' hr' heq]

/-! ## The records of a source -/

/-- The records of a source. -/
def sourceLog (source : SourceKey) (c : Catalog) : Log Kind Payload :=
  fun kind => c.log (kind, source)

/-- Whether a source is available: `catalog_files` has a row without error. -/
def available (source : SourceKey) (c : Catalog) : Bool := (c.current? source).isSome

/-- What holds of the records of a source that is available or not. -/
structure Coherent (l : Log Kind Payload) (available : Bool) : Prop where
  /-- A live record is newer than the base record, live or dead. -/
  after : ∀ kind e base, kind ≠ .file → l kind = some e → e.value.isSome → l .file = some base →
    base.version < e.version
  /-- Base record and diagnostic are not both live. -/
  exclusive : (l.live .file).isSome → l.live .fileError = none
  /-- The base record is live exactly when the source is available. -/
  base : (l.live .file).isSome = available
  /-- Derived records need an available source. -/
  derived : ∀ kind, kind.IsDerived → (l.live kind).isSome → available = true
  /-- Of a source without base record and diagnostic, the tombstone of the base
      record is the last record. -/
  last : available = false → l.live .fileError = none → ∀ kind e, l kind = some e →
    ∃ base, l .file = some base ∧ e.version ≤ base.version

theorem live_of_eq {l : Log Kind Payload} {kind : Kind} {e : Entry Payload}
    (h : l kind = some e) : l.live kind = e.value := by
  rw [Log.live, h]
  rfl

/-- Only the base record is live. -/
theorem Coherent.of_base {l : Log Kind Payload} {n : ℕ} {payload : Payload}
    (hbase : l .file = some ⟨n, some payload⟩) (hdead : ∀ kind, kind ≠ .file → l.live kind = none) :
    Coherent l true := by
  refine ⟨fun kind e base hkind he hlive _ => ?_, fun _ => hdead _ (by decide), ?_, ?_, ?_⟩
  · rw [← live_of_eq he, hdead kind hkind] at hlive
    cases hlive
  · rw [live_of_eq hbase]
    rfl
  · exact fun _ _ _ => rfl
  · exact fun h => by cases h

/-- A new base record, older than the live records of its source. -/
theorem Coherent.rebase {l l' : Log Kind Payload} (h : Coherent l true) {n : ℕ} {payload : Payload}
    (hbase : l' .file = some ⟨n, some payload⟩)
    (hlive : ∀ kind, kind ≠ .file → l'.live kind = l.live kind)
    (hnew : ∀ kind e, kind ≠ .file → l' kind = some e → e.value.isSome → n < e.version) :
    Coherent l' true := by
  refine ⟨fun kind e base hkind he hsome hb => ?_, fun _ => ?_, ?_, fun _ _ _ => rfl, ?_⟩
  · rw [hbase] at hb
    cases hb
    exact hnew kind e hkind he hsome
  · rw [hlive _ (by decide)]
    exact h.exclusive h.base
  · rw [live_of_eq hbase]
    rfl
  · exact fun h => by cases h

/-- Only the diagnostic is live. -/
theorem Coherent.of_error {l : Log Kind Payload} {n : ℕ} {payload : Payload}
    (herror : l .fileError = some ⟨n, some payload⟩)
    (hdead : ∀ kind, kind ≠ .fileError → l.live kind = none)
    (hnew : ∀ base, l .file = some base → base.version < n) : Coherent l false := by
  refine ⟨fun kind e base hkind he hlive hb => ?_, fun hfile => ?_, ?_, ?_, ?_⟩
  · by_cases hk : kind = .fileError
    · rw [hk, herror] at he
      cases he
      exact hnew base hb
    · rw [← live_of_eq he, hdead kind hk] at hlive
      cases hlive
  · rw [hdead .file (by decide)] at hfile
    cases hfile
  · rw [hdead .file (by decide)]
    rfl
  · intro kind hkind hlive
    rw [hdead kind hkind.2] at hlive
    cases hlive
  · intro _ hnone
    rw [live_of_eq herror] at hnone
    cases hnone

/-- No record is live, and the tombstone of the base record is the last. -/
theorem Coherent.of_dead {l : Log Kind Payload} {n : ℕ} (hbase : l .file = some ⟨n, none⟩)
    (hdead : ∀ kind, l.live kind = none) (hlast : ∀ kind e, l kind = some e → e.version ≤ n) :
    Coherent l false := by
  refine ⟨fun kind e base _ he hlive _ => ?_, fun _ => hdead _, ?_, ?_, ?_⟩
  · rw [← live_of_eq he, hdead kind] at hlive
    cases hlive
  · rw [hdead]
    rfl
  · intro kind _ hlive
    rw [hdead kind] at hlive
    cases hlive
  · exact fun _ _ kind e he => ⟨_, hbase, hlast kind e he⟩

/-- A new derived record of an available source, or a tombstone of one. -/
theorem Coherent.update {l : Log Kind Payload} (h : Coherent l true) {kind : Kind}
    (hkind : kind.IsDerived) {n : ℕ} (hnew : ∀ k e, l k = some e → e.version < n)
    (payload : Option Payload) : Coherent (Function.update l kind (some ⟨n, payload⟩)) true := by
  have hne : ∀ k, k ≠ kind → Function.update l kind (some ⟨n, payload⟩) k = l k := fun k hk =>
    Function.update_of_ne hk _ _
  have hfile := hne .file hkind.1.symm
  have herror := hne .fileError hkind.2.symm
  refine ⟨fun k e base hk he hlive hb => ?_, ?_, ?_, fun _ _ _ => rfl, ?_⟩
  · rw [hfile] at hb
    by_cases hkk : k = kind
    · rw [hkk, Function.update_self] at he
      cases he
      exact hnew .file base hb
    · rw [hne k hkk] at he
      exact h.after k e base hk he hlive hb
  · unfold Log.live
    rw [hfile, herror]
    exact h.exclusive
  · unfold Log.live
    rw [hfile]
    exact h.base
  · exact fun h => by cases h

/-! ## Effects on the records of a source -/

/-- A base record is written and every other live record dropped. -/
theorem tombstoned_after (source : SourceKey) (payload : Option Payload) (c : Catalog) :
    applyWrites c.currentVersion ((.file, payload) :: c.tombstones source) (c.sourceLog source)
        .file = some ⟨c.currentVersion + 1, payload⟩ ∧
      ∀ kind, kind ≠ .file → Log.live (applyWrites c.currentVersion
        ((.file, payload) :: c.tombstones source) (c.sourceLog source)) kind = none := by
  have hfile : Kind.file ∉ (c.tombstones source).map Prod.fst := fun hmem => by
    obtain ⟨⟨_, q⟩, hq, rfl⟩ := List.mem_map.mp hmem
    exact (mem_tombstones.mp hq).2.1 rfl
  have hnodup : (((Kind.file, payload) :: c.tombstones source).map Prod.fst).Nodup := by
    rw [List.map_cons, List.nodup_cons, map_fst_tombstones]
    exact ⟨by rwa [← map_fst_tombstones], nodup_liveDerived source c⟩
  refine ⟨applyWrites_append [] hfile, fun kind hkind => ?_⟩
  rcases applyWrites_cases hnodup (c.sourceLog source) kind with
    ⟨q, n, hq, -, -, heq⟩ | ⟨hnot, heq⟩
  · rcases List.mem_cons.mp hq with h | h
    · exact absurd (congrArg Prod.fst h) hkind
    · rw [live_of_eq heq]
      exact (mem_tombstones.mp h).1
  · unfold Log.live
    rw [heq, ← Option.not_isSome_iff_eq_none]
    intro hlive
    refine hnot (List.mem_cons_of_mem _ ?_)
    rw [map_fst_tombstones]
    exact mem_kinds_liveDerived.mpr ⟨hkind, hlive⟩

/-- A base record is written and every other live record written again. -/
theorem kept_after (source : SourceKey) (payload : Option Payload) (c : Catalog) :
    applyWrites c.currentVersion ((.file, payload) :: c.kept source) (c.sourceLog source)
        .file = some ⟨c.currentVersion + 1, payload⟩ ∧
      ∀ kind, kind ≠ .file →
        Log.live (applyWrites c.currentVersion ((.file, payload) :: c.kept source)
          (c.sourceLog source)) kind = (c.sourceLog source).live kind ∧
        ∀ e, applyWrites c.currentVersion ((.file, payload) :: c.kept source)
          (c.sourceLog source) kind = some e → e.value.isSome → c.currentVersion + 1 < e.version := by
  have hfile : Kind.file ∉ (c.kept source).map Prod.fst := fun hmem => by
    obtain ⟨⟨_, q⟩, hq, rfl⟩ := List.mem_map.mp hmem
    exact (mem_kept.mp hq).1 rfl
  have hkinds : ((c.kept source).map Prod.fst).Nodup := by
    rw [map_fst_kept]
    exact nodup_liveDerived source c
  refine ⟨applyWrites_append [] hfile, fun kind hkind => ?_⟩
  rw [applyWrites]
  have hold : Function.update (c.sourceLog source) .file (some ⟨c.currentVersion + 1, payload⟩)
      kind = c.sourceLog source kind := Function.update_of_ne hkind _ _
  rcases applyWrites_cases (v := c.currentVersion + 1) hkinds
      (Function.update (c.sourceLog source) .file (some ⟨c.currentVersion + 1, payload⟩)) kind with
    ⟨q, n, hq, hlt, -, heq⟩ | ⟨hnot, heq⟩
  · refine ⟨?_, fun e he _ => ?_⟩
    · rw [live_of_eq heq]
      exact (mem_kept.mp hq).2.1
    · rw [heq] at he
      cases he
      exact hlt
  · have hdead : (c.sourceLog source).live kind = none := by
      rw [← Option.not_isSome_iff_eq_none]
      intro hlive
      rw [map_fst_kept] at hnot
      exact hnot (mem_kinds_liveDerived.mpr ⟨hkind, hlive⟩)
    refine ⟨by rw [Log.live, heq, hold]; rfl, fun e he hsome => ?_⟩
    rw [heq, hold] at he
    rw [← live_of_eq he, hdead] at hsome
    cases hsome

/-! ## Every effect keeps the records coherent -/

/-- The records of every source are coherent. -/
def AllCoherent (c : Catalog) : Prop :=
  ∀ source, Coherent (c.sourceLog source) (c.available source)

theorem available_of_get? {source : SourceKey} {c : Catalog} {row : StoredFile}
    (hrow : c.files.get? source = some row) (hlive : row.error = []) :
    c.available source = true := by
  simp [available, current?, hrow, Option.filter, hlive]

theorem not_available_of_get? {source : SourceKey} {c : Catalog}
    (hrow : ∀ row, c.files.get? source = some row → row.error ≠ []) :
    c.available source = false := by
  unfold available current?
  cases hget : c.files.get? source with
  | none => rfl
  | some row => simp [Option.filter, hrow row hget]

/-- Writes of one source, after a change of its row, keep the records of every
    source coherent if they keep those of that source coherent. -/
theorem AllCoherent.written {c d : Catalog} (h : AllCoherent c) (source : SourceKey)
    {ws : List (Kind × Option Payload)} (hrecords : d.records = c.records)
    (hfiles : ∀ other, other ≠ source → d.files.get? other = c.files.get? other)
    (hsource : Coherent (applyWrites d.currentVersion ws (d.sourceLog source))
      (d.available source)) : AllCoherent (d.written source ws) := by
  intro other
  have havailable : (d.written source ws).available other = d.available other := by
    unfold available current?
    rw [files_written]
  rw [havailable]
  by_cases hother : other = source
  · have hlog : (d.written source ws).sourceLog source =
        applyWrites d.currentVersion ws (d.sourceLog source) :=
      funext fun kind => log_written source ws d kind
    rw [hother, hlog]
    exact hsource
  · have hlog : (d.written source ws).sourceLog other = c.sourceLog other := funext fun kind => by
      unfold sourceLog
      rw [log_written_of_ne hother]
      unfold log
      rw [hrecords]
    have hold : d.available other = c.available other := by
      unfold available current?
      rw [hfiles other hother]
    rw [hlog, hold]
    exact h other

/-- Effects that leave the records and the revisions of `catalog_files` as they
    are. -/
theorem AllCoherent.congr {c c' : Catalog} (h : AllCoherent c) (hrecords : c'.records = c.records)
    (havailable : ∀ source, c'.available source = c.available source) : AllCoherent c' := by
  intro source
  have hlog : c'.sourceLog source = c.sourceLog source := by
    unfold sourceLog log
    rw [hrecords]
  rw [hlog, havailable source]
  exact h source

theorem Touched.available {c c' : Catalog} (h : Touched c c') (source : SourceKey) :
    c'.available source = c.available source := by
  have hrow := congrArg (Option.map fun r => r.2.2) (h.files source)
  rw [Option.map_map, Option.map_map] at hrow
  have hread : ∀ d : Catalog, d.available source =
      ((d.files.get? source).map StoredFile.error).any List.isEmpty := fun d => by
    unfold Catalog.available current?
    cases d.files.get? source with
    | none => rfl
    | some row => cases hrow : row.error <;> simp [Option.filter, hrow]
  rw [hread, hread]
  exact congrArg (Option.any List.isEmpty) hrow

theorem Touched.coherent {c c' : Catalog} (h : Touched c c') (hc : AllCoherent c) :
    AllCoherent c' :=
  hc.congr h.records h.available

theorem touched_markSeen (source : SourceKey) (generation : ℕ) (c : Catalog) :
    Touched c (c.markSeen source generation) := by
  refine Touched.mapFiles c _ _ fun row => ?_
  split <;> rfl

theorem touched_touchFile (source : SourceKey) (generation musicTagGeneration : ℕ) (probed : Bool)
    (c : Catalog) : Touched c (c.touchFile source generation musicTagGeneration probed) := by
  refine Touched.mapFiles c _ _ fun row => ?_
  split <;> rfl

theorem get?_withFile (row : StoredFile) (c : Catalog) (source : SourceKey) :
    (c.withFile row).files.get? source =
      if row.source = source then some row else c.files.get? source :=
  Table.get?_put row c.files source

theorem get?_withFile_of_ne {row : StoredFile} {source other : SourceKey}
    (hrow : row.source = source) (hother : other ≠ source) (c : Catalog) :
    (c.withFile row).files.get? other = c.files.get? other := by
  rw [get?_withFile, if_neg]
  rw [hrow]
  exact hother.symm

theorem available_withFile {row : StoredFile} {source : SourceKey} (hrow : row.source = source)
    (c : Catalog) : (c.withFile row).available source = row.error.isEmpty := by
  unfold available current?
  rw [get?_withFile, if_pos hrow]
  cases h : row.error <;> simp [Option.filter, h]

theorem source_erroredFile (error : FileError) (generation version : ℕ) (c : Catalog) :
    (erroredFile error generation version (c.files.get? error.source)).source = error.source := by
  cases h : c.files.get? error.source with
  | none => rfl
  | some row =>
    show row.source = error.source
    exact Table.get?_key h

theorem isEmpty_erroredFile (error : FileError) (generation version : ℕ)
    (previous : Option StoredFile) :
    (erroredFile error generation version previous).error.isEmpty = false := by
  have herror : (erroredFile error generation version previous).error = error.error := by
    cases previous <;> rfl
  rw [herror]
  simpa using error.error_ne

theorem available_upserted (file : FileRecord) (generation musicTagGeneration version : ℕ)
    (probed : Bool) (previous : Option StoredFile) (c : Catalog) :
    (c.withFile (upsertedFile file generation musicTagGeneration version probed
      previous)).available file.source = true :=
  available_withFile
    (show (upsertedFile file generation musicTagGeneration version probed previous).source =
      file.source from rfl) c

theorem available_errored (error : FileError) (generation version : ℕ) (c : Catalog) :
    (c.withFile (erroredFile error generation version
      (c.files.get? error.source))).available error.source = false := by
  rw [available_withFile (source_erroredFile error generation version c)]
  exact isEmpty_erroredFile error generation version _

theorem Upserts.coherent {c c' : Catalog} {file : FileRecord} {generation musicTagGeneration : ℕ}
    {probed : Bool} (h : Upserts file generation musicTagGeneration probed c c')
    (hc : AllCoherent c) : AllCoherent c' := by
  cases h with
  | unchanged => exact (touched_touchFile _ _ _ _ c).coherent hc
  | replaced hstored =>
    obtain ⟨hbase, hdead⟩ := tombstoned_after file.source (some (.fileUpsert c.id [file])) c
    refine hc.written file.source rfl (fun other hother => get?_withFile_of_ne rfl hother c) ?_
    rw [available_upserted]
    exact Coherent.of_base hbase hdead
  | refreshed stored hstored hlive hbytes =>
    obtain ⟨hbase, hkept⟩ := kept_after file.source (some (.fileUpsert c.id [file])) c
    have hcoherent := hc file.source
    rw [available_of_get? hstored hlive] at hcoherent
    refine hc.written file.source rfl (fun other hother => get?_withFile_of_ne rfl hother c) ?_
    have havailable := available_upserted file generation musicTagGeneration
      (c.currentVersion + 1) probed (some stored) c
    refine Eq.mpr (congrArg (Coherent _) havailable) ?_
    exact hcoherent.rebase hbase (fun kind hkind => (hkept kind hkind).1)
      fun kind e hkind => (hkept kind hkind).2 e

theorem RecordsError.coherent {c c' : Catalog} {error : FileError} {generation : ℕ}
    (h : RecordsError error generation c c') (hn : Numbered c) (hc : AllCoherent c) :
    AllCoherent c' := by
  have hlogle : ∀ kind e, c.sourceLog error.source kind = some e → e.version ≤ c.currentVersion :=
    fun kind e he => (hn.log_le he).2
  cases h with
  | repeated => exact (touched_markSeen _ _ c).coherent hc
  | lost stored hstored hlive =>
    obtain ⟨hbase, hdead⟩ := tombstoned_after error.source none c
    rw [← hstored]
    refine hc.written error.source rfl
      (fun other hother => get?_withFile_of_ne (source_erroredFile error _ _ c) hother c) ?_
    rw [available_errored, applyWrites_concat]
    refine Coherent.of_error (Function.update_self ..) (fun kind hkind => ?_) fun base hb => ?_
    · unfold Log.live
      rw [Function.update_of_ne hkind]
      by_cases hfile : kind = .file
      · rw [hfile]
        exact live_of_eq hbase
      · exact hdead kind hfile
    · rw [Function.update_of_ne (by decide)] at hb
      have hle := applyWrites_le hlogle hb
      show base.version < c.currentVersion + _ + 1
      omega
  | failed hstored =>
    refine hc.written error.source rfl
      (fun other hother => get?_withFile_of_ne (source_erroredFile error _ _ c) hother c) ?_
    have hold := hc error.source
    rw [not_available_of_get? hstored] at hold
    rw [available_errored, applyWrites, applyWrites]
    refine Coherent.of_error (Function.update_self ..) (fun kind hkind => ?_) fun base hb => ?_
    · unfold Log.live
      rw [Function.update_of_ne hkind, ← Option.not_isSome_iff_eq_none]
      intro hlive
      by_cases hfile : kind = .file
      · rw [hfile] at hlive
        exact absurd (hold.base.symm.trans hlive) (by decide)
      · exact absurd (hold.derived kind ⟨hfile, hkind⟩ hlive) (by decide)
    · rw [Function.update_of_ne (by decide)] at hb
      have hle := hlogle _ _ hb
      show base.version < c.currentVersion + 1
      omega

theorem coherent_removed {c : Catalog} (source : SourceKey) (hn : Numbered c)
    (hc : AllCoherent c) :
    AllCoherent (({ c with files := c.files.erase source } : Catalog).written source
      (c.tombstones source ++ [(.file, none)])) := by
  have hget : ∀ other, (c.files.erase source).get? other =
      if source = other then none else c.files.get? other := fun other =>
    Table.get?_erase c.files other source
  have hgone : ({ c with files := c.files.erase source } : Catalog).available source = false :=
    not_available_of_get? fun row hrow => by
      rw [show Table.get? _ source = _ from hget source, if_pos rfl] at hrow
      cases hrow
  refine hc.written source rfl (fun other hother => (hget other).trans (if_neg hother.symm)) ?_
  rw [hgone, applyWrites_concat]
  refine Coherent.of_dead (Function.update_self ..) (fun kind => ?_) fun kind e he => ?_
  · by_cases hfile : kind = .file
    · rw [hfile]
      exact live_of_eq (Function.update_self ..)
    · have hnodup : ((c.tombstones source).map Prod.fst).Nodup := by
        rw [map_fst_tombstones]
        exact nodup_liveDerived source c
      unfold Log.live
      rw [Function.update_of_ne hfile]
      rcases applyWrites_cases hnodup (c.sourceLog source) kind with
        ⟨q, n, hq, -, -, heq⟩ | ⟨hnot, heq⟩
      · exact (live_of_eq heq).trans (mem_tombstones.mp hq).1
      · rw [map_fst_tombstones, mem_kinds_liveDerived, not_and] at hnot
        exact (congrArg (Option.bind · Entry.value) heq).trans
          (Option.not_isSome_iff_eq_none.mp (hnot hfile))
  · rw [← applyWrites_concat] at he
    have hle := applyWrites_le
      (fun kind e (he : c.sourceLog source kind = some e) => (hn.log_le he).2) he
    rwa [List.length_append] at hle

/-- The write of a fact keeps the records of its available source coherent. -/
theorem AllCoherent.fact {c d : Catalog} (hn : Numbered c) (hc : AllCoherent c)
    (hrecords : d.records = c.records) (hversion : d.currentVersion = c.currentVersion)
    (hfiles : d.files = c.files) {kind : Kind} (hkind : kind.IsDerived) (source : SourceKey)
    (havailable : c.available source = true) (payload : Option Payload) :
    AllCoherent (d.written source [(kind, payload)]) := by
  have hlog : d.sourceLog source = c.sourceLog source := by
    unfold sourceLog log
    rw [hrecords]
  have hsame : d.available source = c.available source := by
    unfold available current?
    rw [hfiles]
  have hold := hc source
  rw [havailable] at hold
  refine hc.written source hrecords (fun other _ => by rw [hfiles]) ?_
  rw [hsame, havailable, applyWrites, applyWrites, hlog, hversion]
  refine hold.update hkind (fun k e he => ?_) payload
  have := (hn.log_le he).2
  omega

/-- Every effect keeps versions distinct. -/
theorem Effect.numbered {c c' : Catalog} (h : Effect c c') (hn : Numbered c) : Numbered c' := by
  obtain ⟨source, ws, hrecords, hversion⟩ := h.writes
  exact (hn.written source ws).congr hrecords hversion

/-- Every effect keeps the records of every source coherent. -/
theorem ScanEffect.coherent {c c' : Catalog} (h : ScanEffect c c') (hn : Numbered c)
    (hc : AllCoherent c) : AllCoherent c' := by
  cases h with
  | touched htouched => exact htouched.coherent hc
  | upserted file generation musicTagGeneration probed hupserts => exact hupserts.coherent hc
  | errored error generation herror herrors => exact herrors.coherent hn hc
  | removed source => exact coherent_removed source hn hc

theorem Effect.coherent {c c' : Catalog} (h : Effect c c') (hn : Numbered c)
    (hc : AllCoherent c) : AllCoherent c' := by
  cases h with
  | scan hscan => exact hscan.coherent hn hc
  | claimed jobs => exact hc.congr rfl fun _ => rfl
  | stored fact hstores =>
    cases hstores with
    | stale => exact hc.congr rfl fun _ => rfl
    | stored claim current hclaim hcurrent =>
      exact AllCoherent.fact hn hc rfl rfl rfl fact.derived fact.source
        (by rw [available, hcurrent]; rfl) _
  | @invalidated kind hkind source hlive =>
    exact AllCoherent.fact hn hc rfl rfl rfl hkind source
      ((hc source).derived kind hkind hlive) none

/-! ## Reachable states -/

theorem numbered_insert (id epoch : Text) (mediaType : MediaType)
    (analyzer : Kind → Option Text) : Numbered (insertCollection id epoch mediaType analyzer) :=
  ⟨fun r hr => absurd hr (Table.not_mem_empty r), fun r hr => absurd hr (Table.not_mem_empty r),
    fun r hr => absurd hr (Table.not_mem_empty r)⟩

theorem coherent_insert (id epoch : Text) (mediaType : MediaType)
    (analyzer : Kind → Option Text) :
    AllCoherent (insertCollection id epoch mediaType analyzer) := by
  intro source
  refine ⟨fun kind e base _ he => ?_, fun _ => rfl, rfl, fun kind _ hlive => ?_,
    fun _ _ kind e he => ?_⟩
  · cases he
  · cases hlive
  · cases he

theorem Reachable.invariants {c : Catalog} (h : Reachable json c) : Numbered c ∧ AllCoherent c :=
  h.invariant json (P := fun c => Numbered c ∧ AllCoherent c)
    (fun id epoch mediaType analyzer => ⟨numbered_insert id epoch mediaType analyzer,
      coherent_insert id epoch mediaType analyzer⟩)
    fun _ _ hc heffect => ⟨heffect.numbered hc.1, heffect.coherent hc.1 hc.2⟩

theorem extends_written (source : SourceKey) (ws : List (Kind × Option Payload)) (c : Catalog) :
    Log.Extends c.currentVersion c.log (c.written source ws).log := by
  induction ws generalizing c with
  | nil => exact Log.Extends.refl _ _
  | cons w rest ih =>
    rw [written_cons]
    refine Log.Extends.trans (fun key => ?_) (Log.Extends.mono (Nat.le_succ _) (ih _))
    rw [log_putRecord]
    split_ifs with hkey
    · exact Or.inr ⟨_, rfl, Nat.lt_succ_self _⟩
    · exact Or.inl rfl

/-- An effect writes above the version it starts from. -/
theorem Effect.extends {c c' : Catalog} (h : Effect c c') :
    Log.Extends c.currentVersion c.log c'.log ∧ c.currentVersion ≤ c'.currentVersion := by
  obtain ⟨source, ws, hrecords, hversion⟩ := h.writes
  have hlog : c'.log = (c.written source ws).log := by
    unfold log
    rw [hrecords]
  rw [hlog, hversion, currentVersion_written]
  exact ⟨extends_written source ws c, Nat.le_add_right _ _⟩

theorem Effects.extends {c c' : Catalog} (h : Effects c c') :
    Log.Extends c.currentVersion c.log c'.log ∧ c.currentVersion ≤ c'.currentVersion := by
  induction h with
  | refl => exact ⟨Log.Extends.refl _ _, le_rfl⟩
  | tail _ heffect ih =>
    exact ⟨ih.1.trans (heffect.extends.1.mono ih.2), ih.2.trans heffect.extends.2⟩

theorem Step.extends {c c' : Catalog} (h : Step json c c') :
    Log.Extends c.currentVersion c.log c'.log ∧ c.currentVersion ≤ c'.currentVersion :=
  (h.effects json).extends

end Kahawai.Mediahost.Catalog
