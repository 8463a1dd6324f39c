import Mathlib.Data.Char
import Mathlib.Data.List.Lex
import Mathlib.Data.Prod.Lex
import Kahawai.Lib.Paging
import Kahawai.Mediahost.Catalog.Log

/-!
# Replay in pages

Model of `delta_pages` (`crates/kahawai-mediahost/src/catalog.rs`, lines
1214–1329). The read transaction that is held across the pages makes them pages
of one state of the catalogue.

Main results:

* `deltaPages_paged`: the pages are the records above the cursor in the order of
  their versions, or for a snapshot the live base records and then the other
  live records; every page but the last is filled, and the last ends the stream.
* `replay_log`: the replay log as a whole.
-/

namespace Kahawai.Mediahost.Catalog

open Kahawai.Core Kahawai.Lib Kahawai.Proto

variable (json : StreamsJson)

/-! ## Model -/

/-- `struct Delta` (lines 129–136). -/
structure Delta where
  epoch : Text
  currentVersion : ℕ
  oldestReplayableVersion : ℕ
  records : List CatalogRecord
  done : Bool
  deriving DecidableEq

/-- `RECORDS_PER_PAGE`. -/
def recordsPerPage : ℕ := 256

/-- `source_key`: the column `record_key`. -/
def sourceKey (source : SourceKey) : Text := source.root ++ '\x00' :: source.path

/-- `ORDER BY version,kind,record_key`. The statement for the base records of a
    snapshot leaves out the kind, which they share. -/
def sortKey (r : CatalogRecord) : ℕ ×ₗ (Text ×ₗ Text) :=
  toLex (r.version, toLex (r.kind.name, sourceKey r.source))

/-- The order of the rows. -/
def recordOrder (a b : CatalogRecord) : Prop := sortKey a ≤ sortKey b

instance : DecidableRel recordOrder := fun a b => inferInstanceAs (Decidable (sortKey a ≤ sortKey b))

/-- The `WHERE` clauses of the three statements, but for the version. -/
def wanted (snapshot snapshotFiles : Bool) (r : CatalogRecord) : Bool :=
  if snapshot then
    !r.deleted && if snapshotFiles then decide (r.kind = .file) else decide (r.kind ≠ .file)
  else true

/-- The rows of one of the three statements (lines 1242–1277). -/
def fetchRows (snapshot snapshotFiles : Bool) (after : ℕ) (c : Catalog) : List CatalogRecord :=
  ((c.records.rows.filter fun r =>
    wanted snapshot snapshotFiles r && after < r.version).insertionSort recordOrder).take
      (recordsPerPage + 1)

/-- A page of the stream. -/
def page (records : List CatalogRecord) (done : Bool) (c : Catalog) : Delta :=
  ⟨c.epoch, c.currentVersion, c.oldestReplayableVersion, records, done⟩

/-- The loop of the producer (lines 1239–1323). -/
def produce (snapshot : Bool) (c : Catalog) :
    (fuel : ℕ) → (snapshotFiles : Bool) → (after : ℕ) → List Delta
  | 0, _, _ => []
  | fuel + 1, snapshotFiles, after =>
    let rows := c.fetchRows snapshot snapshotFiles after
    if snapshot && snapshotFiles && rows.isEmpty then produce snapshot c fuel false 0
    else
      let more : Bool := rows.length > recordsPerPage
      let records := rows.take recordsPerPage
      let next : Bool × ℕ :=
        if more then (snapshotFiles, (records.getLast?.map CatalogRecord.version).getD after)
        else if snapshot && snapshotFiles then (false, 0)
        else (snapshotFiles, after)
      let done := !more && (!snapshot || !snapshotFiles)
      c.page records done :: if done then [] else produce snapshot c fuel next.1 next.2

/-- `delta_pages` (lines 1214–1329). The loop passes through the records at most
    once, and once more to end each of its two phases. -/
def deltaPages (cursor : ℕ) (snapshot : Bool) (c : Catalog) : Option (List Delta) :=
  if snapshot || (c.oldestReplayableVersion ≤ cursor && cursor ≤ c.currentVersion) then
    some (produce snapshot c (c.records.rows.length + 2) snapshot (if snapshot then 0 else cursor))
  else none

/-! ## Phases -/

/-- All rows of one of the three statements, in order. -/
def phase (snapshot snapshotFiles : Bool) (c : Catalog) : List CatalogRecord :=
  (c.records.rows.filter (wanted snapshot snapshotFiles)).insertionSort recordOrder

theorem mem_phase {snapshot snapshotFiles : Bool} {c : Catalog} {r : CatalogRecord} :
    r ∈ c.phase snapshot snapshotFiles ↔ r ∈ c.records ∧ wanted snapshot snapshotFiles r := by
  unfold phase
  rw [List.mem_insertionSort, List.mem_filter]
  rfl

instance : Std.Total recordOrder := ⟨fun a b => le_total (sortKey a) (sortKey b)⟩

instance : IsTrans CatalogRecord recordOrder :=
  ⟨fun _ _ _ hab hbc => le_trans (α := ℕ ×ₗ (Text ×ₗ Text)) hab hbc⟩

theorem version_le_of_order (a b : CatalogRecord) (h : recordOrder a b) :
    a.version ≤ b.version := by
  unfold recordOrder sortKey at h
  rw [Prod.Lex.toLex_le_toLex] at h
  rcases h with hlt | ⟨heq, -⟩
  · exact le_of_lt hlt
  · exact le_of_eq heq

/-- Rows of distinct versions, sorted. -/
theorem Numbered.increasing {c : Catalog} (h : Numbered c) (p : CatalogRecord → Bool) :
    Paging.Increasing CatalogRecord.version
      ((c.records.rows.filter p).insertionSort recordOrder) := by
  refine Paging.sorted_of_distinct _ version_le_of_order
    ((List.Nodup.of_map _ c.records.nodup).filter _) fun a ha b hb => ?_
  exact h.inj a (List.mem_filter.mp ha).1 b (List.mem_filter.mp hb).1

theorem fetchRows_eq {c : Catalog} (h : Numbered c) (snapshot snapshotFiles : Bool) (after : ℕ) :
    c.fetchRows snapshot snapshotFiles after =
      (Paging.rowsAfter CatalogRecord.version after (c.phase snapshot snapshotFiles)).take
        (recordsPerPage + 1) := by
  unfold fetchRows
  congr 1
  have hleft := h.increasing fun r => wanted snapshot snapshotFiles r && after < r.version
  have hright : Paging.Increasing CatalogRecord.version
      (Paging.rowsAfter CatalogRecord.version after (c.phase snapshot snapshotFiles)) :=
    (h.increasing (wanted snapshot snapshotFiles)).sublist List.filter_sublist
  refine List.Perm.eq_of_pairwise (fun a b _ _ hab hba => ?_) hleft hright ?_
  · omega
  · refine (List.perm_insertionSort _ _).trans ?_
    unfold Paging.rowsAfter phase
    refine List.Perm.trans ?_ ((List.perm_insertionSort recordOrder _).symm.filter _)
    rw [List.filter_filter]
    refine List.Perm.of_eq (List.filter_congr fun r _ => ?_)
    exact Bool.and_comm _ _

/-! ## Pages -/

/-- A stream of pages of `rows`: every page but the last has records, and the last
    ends the stream. -/
inductive Paged (c : Catalog) : List CatalogRecord → List Delta → Prop
  | last (rows : List CatalogRecord) (hlength : rows.length ≤ recordsPerPage) :
      Paged c rows [c.page rows true]
  | more {records rest : List CatalogRecord} {pages : List Delta} (hne : records ≠ [])
      (hlength : records.length ≤ recordsPerPage) (h : Paged c rest pages) :
      Paged c (records ++ rest) (c.page records false :: pages)

theorem Paged.flatMap {c : Catalog} {rows : List CatalogRecord} {pages : List Delta}
    (h : Paged c rows pages) : pages.flatMap Delta.records = rows := by
  induction h with
  | last rows => exact List.append_nil rows
  | more _ _ _ ih => rw [List.flatMap_cons, ih]; rfl

/-- What remains to be read in a phase. -/
def remaining (snapshot snapshotFiles : Bool) (after : ℕ) (c : Catalog) : List CatalogRecord :=
  Paging.rowsAfter CatalogRecord.version after (c.phase snapshot snapshotFiles) ++
    if snapshot && snapshotFiles then c.phase snapshot false else []

/-- The rows after version zero are all rows. -/
theorem remaining_facts {c : Catalog} (h : Numbered c) (snapshot : Bool) :
    c.remaining snapshot false 0 = c.phase snapshot false := by
  unfold remaining
  rw [Paging.rowsAfter_zero _ fun r hr => h.pos r (mem_phase.mp hr).1, Bool.and_false]
  exact List.append_nil _

/-- A page that another page of its statement follows. -/
theorem produce_more {c : Catalog} {snapshot snapshotFiles : Bool} {after fuel : ℕ}
    (hmore : recordsPerPage < (c.fetchRows snapshot snapshotFiles after).length)
    (hne : (c.fetchRows snapshot snapshotFiles after).take recordsPerPage ≠ []) :
    c.produce snapshot (fuel + 1) snapshotFiles after =
      c.page ((c.fetchRows snapshot snapshotFiles after).take recordsPerPage) false ::
        c.produce snapshot fuel snapshotFiles
          (((c.fetchRows snapshot snapshotFiles after).take recordsPerPage).getLast hne).version := by
  have hempty : (c.fetchRows snapshot snapshotFiles after).isEmpty = false := by
    cases hrows : c.fetchRows snapshot snapshotFiles after with
    | nil => simp [hrows] at hne
    | cons r rest => rfl
  rw [produce]
  simp only [hempty, Bool.and_false, Bool.false_eq_true, if_false, hmore, decide_true, if_true,
    Bool.not_true, Bool.false_and, List.getLast?_eq_some_getLast hne, Option.map_some,
    Option.getD_some]

theorem produce_paged {c : Catalog} (h : Numbered c) (snapshot : Bool) :
    ∀ (fuel : ℕ) (snapshotFiles : Bool) (after : ℕ),
      (c.remaining snapshot snapshotFiles after).length +
        (if snapshot && snapshotFiles then 1 else 0) < fuel →
      Paged c (c.remaining snapshot snapshotFiles after)
        (c.produce snapshot fuel snapshotFiles after) := by
  intro fuel
  induction fuel with
  | zero => exact fun _ _ hfuel => absurd hfuel (Nat.not_lt_zero _)
  | succ fuel ih =>
    intro snapshotFiles after hfuel
    have hfetch := fetchRows_eq h snapshot snapshotFiles after
    have hphase : Paging.Increasing CatalogRecord.version (c.phase snapshot snapshotFiles) :=
      h.increasing _
    by_cases hmore : recordsPerPage < (c.fetchRows snapshot snapshotFiles after).length
    · -- The statement has more rows: the rest of them is read from the last version on.
      have hne : (c.fetchRows snapshot snapshotFiles after).take recordsPerPage ≠ [] := by
        rw [Ne, List.take_eq_nil_iff, not_or]
        exact ⟨by decide, fun hnil => by rw [hnil] at hmore; exact absurd hmore (by decide)⟩
      have htake : (c.fetchRows snapshot snapshotFiles after).take recordsPerPage =
          (Paging.rowsAfter CatalogRecord.version after (c.phase snapshot snapshotFiles)).take
            recordsPerPage := by
        rw [hfetch, List.take_take, Nat.min_eq_left (Nat.le_succ _)]
      have happend := Paging.page_append CatalogRecord.version hphase htake hne
      have hrest : c.remaining snapshot snapshotFiles after =
          (c.fetchRows snapshot snapshotFiles after).take recordsPerPage ++
            c.remaining snapshot snapshotFiles
              (((c.fetchRows snapshot snapshotFiles after).take recordsPerPage).getLast
                hne).version := by
        unfold remaining
        rw [← List.append_assoc, happend]
      rw [produce_more hmore hne, hrest]
      refine Paged.more hne (List.length_take_le ..) (ih _ _ ?_)
      rw [hrest, List.length_append] at hfuel
      have hpos := List.length_pos_iff.mpr hne
      omega
    · -- The statement ends with this page.
      have hall : c.fetchRows snapshot snapshotFiles after =
          Paging.rowsAfter CatalogRecord.version after (c.phase snapshot snapshotFiles) := by
        rw [hfetch, List.length_take, not_lt] at hmore
        rw [hfetch]
        exact List.take_of_length_le (by omega)
      have htake : (c.fetchRows snapshot snapshotFiles after).take recordsPerPage =
          c.fetchRows snapshot snapshotFiles after := List.take_of_length_le (not_lt.mp hmore)
      rw [produce]
      simp only [htake, hmore, decide_false, Bool.false_eq_true, if_false, Bool.not_false,
        Bool.true_and]
      by_cases hfiles : (snapshot && snapshotFiles) = true
      · have hrest : c.remaining snapshot snapshotFiles after =
            c.fetchRows snapshot snapshotFiles after ++ c.phase snapshot false := by
          unfold remaining
          rw [if_pos hfiles, hall]
        have hfacts := ih false 0
        rw [remaining_facts h] at hfacts
        rw [hrest, List.length_append, if_pos hfiles] at hfuel
        obtain ⟨rfl, rfl⟩ := Bool.and_eq_true_iff.mp hfiles
        rw [hrest]
        simp only [Bool.and_self, Bool.true_and, Bool.not_true, Bool.or_self, Bool.false_eq_true,
          if_false, if_true]
        split_ifs with hempty
        · rw [List.isEmpty_iff.mp hempty, List.nil_append]
          refine hfacts ?_
          simp only [Bool.and_false, Bool.false_eq_true, if_false]
          omega
        · rw [List.isEmpty_iff] at hempty
          refine Paged.more hempty (not_lt.mp hmore) (hfacts ?_)
          have hpos := List.length_pos_iff.mpr hempty
          simp only [Bool.and_false, Bool.false_eq_true, if_false]
          omega
      · have hrest : c.remaining snapshot snapshotFiles after =
            c.fetchRows snapshot snapshotFiles after := by
          unfold remaining
          rw [if_neg hfiles, List.append_nil, hall]
        rw [Bool.not_eq_true] at hfiles
        have hdone : (!snapshot || !snapshotFiles) = true := by
          rw [← Bool.not_and, hfiles]
          rfl
        rw [hrest]
        simp only [hfiles, Bool.false_and, Bool.false_eq_true, if_false, hdone, if_true]
        exact Paged.last _ (not_lt.mp hmore)

/-- What a stream delivers, in order. -/
def replay (cursor : ℕ) (snapshot : Bool) (c : Catalog) : List CatalogRecord :=
  if snapshot then c.phase true true ++ c.phase true false
  else Paging.rowsAfter CatalogRecord.version cursor (c.phase false false)

theorem length_phase_le (snapshot snapshotFiles : Bool) (c : Catalog) :
    (c.phase snapshot snapshotFiles).length ≤ c.records.rows.length := by
  unfold phase
  rw [List.length_insertionSort]
  exact List.length_filter_le _ _

/-- No record is in both phases of a snapshot. -/
theorem length_phases_le (c : Catalog) :
    (c.phase true true).length + (c.phase true false).length ≤ c.records.rows.length := by
  unfold phase
  rw [List.length_insertionSort, List.length_insertionSort,
    List.length_eq_length_filter_add (l := c.records.rows) (wanted true true)]
  refine Nat.add_le_add_left (List.Sublist.length_le (List.monotone_filter_right _ fun r hr => ?_)) _
  unfold wanted at hr ⊢
  simp only [if_true, Bool.false_eq_true, if_false, Bool.and_eq_true, decide_eq_true_eq,
    Bool.not_eq_true'] at hr
  simp [hr.2]

/-- Whether `delta_pages` accepts the request. -/
def Replayable (cursor : ℕ) (snapshot : Bool) (c : Catalog) : Prop :=
  snapshot = true ∨ c.oldestReplayableVersion ≤ cursor ∧ cursor ≤ c.currentVersion

/-- The stream of a request that is accepted. -/
theorem deltaPages_paged {c : Catalog} (h : Numbered c) {cursor : ℕ} {snapshot : Bool}
    (hrange : c.Replayable cursor snapshot) :
    ∃ pages, c.deltaPages cursor snapshot = some pages ∧
      Paged c (c.replay cursor snapshot) pages := by
  unfold deltaPages
  rw [if_pos (by simpa [Replayable] using hrange)]
  refine ⟨_, rfl, ?_⟩
  cases snapshot with
  | true =>
    have hrest : c.remaining true true 0 = c.replay cursor true := by
      unfold remaining replay
      rw [Paging.rowsAfter_zero _ fun r hr => h.pos r (mem_phase.mp hr).1]
      rfl
    rw [← hrest]
    refine produce_paged h true _ true 0 ?_
    have hlength := c.length_phases_le
    rw [hrest]
    simp only [replay, if_true, Bool.and_self, List.length_append]
    omega
  | false =>
    have hrest : c.remaining false false cursor = c.replay cursor false := List.append_nil _
    rw [← hrest]
    refine produce_paged h false _ false cursor ?_
    have hlength : (Paging.rowsAfter CatalogRecord.version cursor (c.phase false false)).length ≤
        c.records.rows.length :=
      (List.length_filter_le _ _).trans (c.length_phase_le false false)
    rw [hrest]
    simp only [replay, Bool.false_eq_true, if_false, Bool.and_self]
    omega

/-! ## The replay log -/

theorem mem_replay {cursor : ℕ} {snapshot : Bool} {c : Catalog} {r : CatalogRecord} :
    r ∈ c.replay cursor snapshot ↔
      r ∈ c.records ∧ if snapshot then r.deleted = false else cursor < r.version := by
  cases snapshot with
  | true =>
    simp only [replay, if_true, List.mem_append, mem_phase, wanted, Bool.false_eq_true, if_false,
      Bool.and_eq_true, Bool.not_eq_true', decide_eq_true_eq]
    tauto
  | false =>
    simp only [replay, Bool.false_eq_true, if_false, Paging.rowsAfter, List.mem_filter, mem_phase,
      wanted, decide_eq_true_eq, and_true]

/-- What a hub gets from the pages of a request. -/
structure Delivers (c : Catalog) (cursor : ℕ) (snapshot : Bool) (pages : List Delta) : Prop where
  /-- The last page, and no other, ends the stream. -/
  ends : ∃ pre final, pages = pre ++ [final] ∧ final.done = true ∧ ∀ p ∈ pre, p.done = false
  /-- No record is delivered twice. -/
  once : (pages.flatMap Delta.records).Nodup
  /-- Every record newer than the cursor is delivered, and for a snapshot every live
      record. -/
  all : ∀ r, r ∈ pages.flatMap Delta.records ↔
    r ∈ c.records ∧ if snapshot then r.deleted = false else cursor < r.version
  /-- No live fact comes before the live base record of its source. -/
  baseFirst : (pages.flatMap Delta.records).Pairwise fun fact base =>
    ¬ (base.kind = .file ∧ base.deleted = false ∧ fact.kind ≠ .file ∧ fact.deleted = false ∧
      fact.source = base.source)

theorem Paged.ends {c : Catalog} {rows : List CatalogRecord} {pages : List Delta}
    (h : Paged c rows pages) :
    ∃ pre final, pages = pre ++ [final] ∧ final.done = true ∧ ∀ p ∈ pre, p.done = false := by
  induction h with
  | last rows => exact ⟨[], c.page rows true, rfl, rfl, fun p hp => by cases hp⟩
  | @more records rest pages _ _ _ ih =>
    obtain ⟨pre, final, rfl, hdone, hpre⟩ := ih
    refine ⟨c.page records false :: pre, final, rfl, hdone, fun p hp => ?_⟩
    rcases List.mem_cons.mp hp with rfl | hp
    · rfl
    · exact hpre p hp

theorem nodup_replay (cursor : ℕ) (snapshot : Bool) (c : Catalog) :
    (c.replay cursor snapshot).Nodup := by
  have hphase : ∀ snapshotFiles, (c.phase snapshot snapshotFiles).Nodup := fun snapshotFiles =>
    (List.perm_insertionSort _ _).nodup_iff.mpr ((List.Nodup.of_map _ c.records.nodup).filter _)
  cases snapshot with
  | true =>
    refine List.nodup_append'.mpr ⟨hphase true, hphase false, fun r hr hr' => ?_⟩
    have hfile := (mem_phase.mp hr).2
    have hfact := (mem_phase.mp hr').2
    simp_all [wanted]
  | false => exact (hphase false).filter _

/-- The live record of a key. -/
theorem live_log {c : Catalog} {r : CatalogRecord} (hr : r ∈ c.records)
    (hlive : r.deleted = false) :
    c.log r.key = some ⟨r.version, r.payload⟩ ∧ (c.log.live r.key).isSome := by
  have hlog : c.log r.key = some ⟨r.version, r.payload⟩ := log_eq_some.mpr ⟨r, hr, rfl, rfl⟩
  refine ⟨hlog, ?_⟩
  rw [Log.live, hlog]
  unfold CatalogRecord.deleted at hlive
  exact Option.isSome_iff_ne_none.mpr fun hnone => by simp_all

/-- A live fact is newer than the live base record of its source. -/
theorem base_lt_fact {c : Catalog} (hc : AllCoherent c) {fact base : CatalogRecord}
    (hfact : fact ∈ c.records) (hbase : base ∈ c.records) (hkind : fact.kind ≠ .file)
    (hlive : fact.deleted = false) (hfile : base.kind = .file)
    (hsource : fact.source = base.source) : base.version < fact.version := by
  have hl := (live_log hfact hlive).1
  have hb : c.log (.file, fact.source) = some ⟨base.version, base.payload⟩ :=
    log_eq_some.mpr ⟨base, hbase, by rw [CatalogRecord.key, hfile, hsource], rfl⟩
  refine (hc fact.source).after fact.kind _ _ hkind hl ?_ hb
  unfold CatalogRecord.deleted at hlive
  exact Option.isSome_iff_ne_none.mpr fun hnone => by simp_all

theorem delivers_of_paged {c : Catalog} (hn : Numbered c) (hc : AllCoherent c) {cursor : ℕ}
    {snapshot : Bool} {pages : List Delta} (h : Paged c (c.replay cursor snapshot) pages) :
    Delivers c cursor snapshot pages := by
  refine ⟨h.ends, ?_, fun r => ?_, ?_⟩
  · rw [h.flatMap]
    exact nodup_replay cursor snapshot c
  · rw [h.flatMap]
    exact mem_replay
  · rw [h.flatMap]
    cases snapshot with
    | true =>
      refine List.pairwise_append.mpr ⟨?_, ?_, ?_⟩
      · refine List.pairwise_iff_forall_sublist.mpr fun {fact base} hsub => ?_
        rintro ⟨-, -, hkind, -⟩
        have hmem := (mem_phase.mp (hsub.subset (List.mem_cons_self ..))).2
        simp_all [wanted]
      · refine List.pairwise_iff_forall_sublist.mpr fun {fact base} hsub => ?_
        rintro ⟨hkind, -⟩
        have hmem := (mem_phase.mp (hsub.subset (by simp : base ∈ [fact, base]))).2
        simp_all [wanted]
      · rintro fact hfact base - ⟨-, -, hkind, -⟩
        have hmem := (mem_phase.mp hfact).2
        simp_all [wanted]
    | false =>
      have hincreasing : Paging.Increasing CatalogRecord.version (c.replay cursor false) :=
        (hn.increasing _).sublist List.filter_sublist
      refine hincreasing.imp_of_mem ?_
      rintro fact base hfact hbase hlt ⟨hfile, -, hkind, hlive, hsource⟩
      have := base_lt_fact hc (mem_replay.mp hfact).1 (mem_replay.mp hbase).1 hkind hlive hfile
        hsource
      omega

/-- The invariant of the replay log, and what paging through it delivers. -/
structure ReplayLog (c : Catalog) : Prop where
  bounded : ∀ r ∈ c.records, r.version ≤ c.currentVersion
  distinct : ∀ r ∈ c.records, ∀ r' ∈ c.records, r.version = r'.version → r = r'
  factsAfter : ∀ base ∈ c.records, base.kind = .file → base.deleted = false →
    ∀ fact ∈ c.records, fact.kind ≠ .file → fact.deleted = false → fact.source = base.source →
      base.version < fact.version
  exclusive : ∀ base ∈ c.records, base.kind = .file → base.deleted = false →
    ∀ error ∈ c.records, error.kind = .fileError → error.deleted = false →
      error.source ≠ base.source
  stored : ∀ source,
    (∃ base ∈ c.records, base.key = (.file, source) ∧ base.deleted = false) ↔
      ∃ row ∈ c.files, row.source = source ∧ row.error = []
  paged : ∀ cursor snapshot, snapshot = true ∨ cursor ≤ c.currentVersion →
    ∃ pages, c.deltaPages cursor snapshot = some pages ∧ Delivers c cursor snapshot pages

theorem live_iff {c : Catalog} {key : RecordKey} :
    (c.log.live key).isSome ↔ ∃ r ∈ c.records, r.key = key ∧ r.deleted = false := by
  rw [← isSome_live?]
  constructor
  · intro h
    obtain ⟨r, hr⟩ := Option.isSome_iff_exists.mp h
    obtain ⟨hmem, hkey, hsome⟩ := live?_eq_some.mp hr
    refine ⟨r, hmem, hkey, ?_⟩
    unfold CatalogRecord.deleted
    rwa [Option.isNone_eq_false_iff]
  · rintro ⟨r, hr, rfl, hlive⟩
    rw [isSome_live?]
    exact (live_log hr hlive).2

theorem available_iff {c : Catalog} {source : SourceKey} :
    c.available source = true ↔ ∃ row ∈ c.files, row.source = source ∧ row.error = [] := by
  unfold available current?
  rw [Option.isSome_iff_exists]
  simp only [Option.filter_eq_some_iff, Table.get?_eq_some, List.isEmpty_iff]
  constructor
  · rintro ⟨row, ⟨hrow, hsource⟩, herror⟩
    exact ⟨row, hrow, hsource, herror⟩
  · rintro ⟨row, hrow, hsource, herror⟩
    exact ⟨row, ⟨hrow, hsource⟩, herror⟩

/-- In every reachable state the records are a replay log. -/
theorem replay_log {c : Catalog} (h : Reachable json c) : ReplayLog c := by
  obtain ⟨hn, hc⟩ := h.invariants json
  have holdest : c.oldestReplayableVersion = 0 := h.invariant json
    (P := fun c => c.oldestReplayableVersion = 0) (fun _ _ _ _ => rfl)
    fun c c' hc heffect => (congrArg (fun header => header.2.2.2) heffect.header).trans hc
  refine ⟨hn.le, hn.inj, fun base hbase hfile _ fact hfact hkind hlive hsource => ?_,
    fun base hbase hfile hlive error herror hkind hlive' hsource => ?_, fun source => ?_,
    fun cursor snapshot hcursor => ?_⟩
  · exact base_lt_fact hc hfact hbase hkind hlive hfile hsource
  · have hb : (c.log.live (.file, base.source)).isSome :=
      live_iff.mpr ⟨base, hbase, by rw [CatalogRecord.key, hfile], hlive⟩
    have he : (c.log.live (.fileError, base.source)).isSome :=
      live_iff.mpr ⟨error, herror, by rw [CatalogRecord.key, hkind, hsource], hlive'⟩
    have hnone : c.log.live (.fileError, base.source) = none := (hc base.source).exclusive hb
    rw [hnone] at he
    cases he
  · rw [← live_iff, ← available_iff, ← (hc source).base]
    rfl
  · have hrange : c.Replayable cursor snapshot :=
      hcursor.imp_right fun hle => ⟨by omega, hle⟩
    obtain ⟨pages, hpages, hpaged⟩ := deltaPages_paged hn hrange
    exact ⟨pages, hpages, delivers_of_paged hn hc hpaged⟩

/-! ## A catalogue with one film -/

/-- A film. -/
def film : FileRecord := ⟨⟨lit "root", lit "Film.mkv"⟩, 9, 1, 2, 3, 4, lit "\x7b\x7d"⟩

/-- The catalogue after a scan has found the film. -/
def filmCatalog : Catalog :=
  ((insertCollection (lit "movies") (lit "epoch") .movies fun _ => none).upsertFile film 1 0 true).2

theorem reachable_filmCatalog : Reachable emptyObject filmCatalog :=
  .step (.insert ..) (.scan (.upsertFile _ film 1 0 true))

theorem replay_log_film : ReplayLog filmCatalog := replay_log emptyObject reachable_filmCatalog

end Kahawai.Mediahost.Catalog
