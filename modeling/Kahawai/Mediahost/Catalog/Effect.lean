import Kahawai.Lib.Replica
import Kahawai.Mediahost.Catalog.State

/-!
# What the catalogue's operations write

Every operation that changes records writes the records of one source after
another: `written source ws c` is the catalogue after the writes `ws` at
consecutive new versions. One lemma for each operation says what it writes and
what becomes of `catalog_files` and `catalog_jobs` (`upsertFile_spec`,
`recordError_spec`, `removeFile_eq`, `storeSourceFact_spec`), so that the
invariants of the following modules never unfold an operation.

`log` reads the records as a versioned log, and `applyWrites` is what the writes
do to the log of their source.
-/

namespace Kahawai.Mediahost.Catalog

open Kahawai.Core Kahawai.Lib Kahawai.Proto

/-! ## The log -/

/-- The records as a log. -/
def log (c : Catalog) : Log RecordKey Payload :=
  fun key => (c.records.get? key).map fun r => ⟨r.version, r.payload⟩

theorem log_eq_some {c : Catalog} {key : RecordKey} {e : Entry Payload} :
    c.log key = some e ↔ ∃ r ∈ c.records, r.key = key ∧ e = ⟨r.version, r.payload⟩ := by
  unfold log
  rw [Option.map_eq_some_iff]
  constructor
  · rintro ⟨r, hr, rfl⟩
    exact ⟨r, Table.get?_mem hr, Table.get?_key hr, rfl⟩
  · rintro ⟨r, hr, rfl, rfl⟩
    exact ⟨r, Table.get?_of_mem hr, rfl⟩

theorem log_putRecord (kind : Kind) (source : SourceKey) (version : ℕ) (payload : Option Payload)
    (c : Catalog) (key : RecordKey) :
    (c.putRecord kind source version payload).log key =
      if (kind, source) = key then some ⟨version, payload⟩ else c.log key := by
  unfold log putRecord
  rw [Table.get?_put]
  by_cases h : (kind, source) = key
  · rw [if_pos h]
    exact congrArg _ (if_pos h)
  · rw [if_neg h]
    exact congrArg _ (if_neg h)

/-- `live?` is the live part of the log. -/
theorem live?_map (key : RecordKey) (c : Catalog) :
    (c.live? key).bind CatalogRecord.payload = c.log.live key := by
  unfold live? Log.live log CatalogRecord.deleted
  cases c.records.get? key with
  | none => rfl
  | some r => cases hp : r.payload <;> simp [Option.filter, hp]

theorem isSome_live? (key : RecordKey) (c : Catalog) :
    (c.live? key).isSome = (c.log.live key).isSome := by
  rw [← live?_map]
  unfold live? CatalogRecord.deleted
  cases c.records.get? key with
  | none => rfl
  | some r => cases hp : r.payload <;> simp [Option.filter, hp]

/-! ## Writes -/

/-- What writes of one source do to its log, from version `v` on. -/
def applyWrites : ℕ → List (Kind × Option Payload) → (Kind → Option (Entry Payload)) →
    Kind → Option (Entry Payload)
  | _, [], l => l
  | v, (kind, payload) :: rest, l =>
    applyWrites (v + 1) rest (Function.update l kind (some ⟨v + 1, payload⟩))

theorem applyWrites_cons (v : ℕ) (w : Kind × Option Payload) (rest : List (Kind × Option Payload))
    (l : Kind → Option (Entry Payload)) :
    applyWrites v (w :: rest) l =
      applyWrites (v + 1) rest (Function.update l w.1 (some ⟨v + 1, w.2⟩)) := rfl

theorem applyWrites_of_not_mem {kind : Kind} :
    ∀ {v : ℕ} {ws : List (Kind × Option Payload)} {l : Kind → Option (Entry Payload)},
      kind ∉ ws.map Prod.fst → applyWrites v ws l kind = l kind := by
  intro v ws
  induction ws generalizing v with
  | nil => exact fun _ => rfl
  | cons w rest ih =>
    intro l h
    rw [List.map_cons, List.mem_cons, not_or] at h
    rw [applyWrites_cons, ih h.2, Function.update_of_ne h.1]

/-- A write that no later one overrides. -/
theorem applyWrites_append {v : ℕ} (pre : List (Kind × Option Payload))
    {post : List (Kind × Option Payload)} {kind : Kind} {payload : Option Payload}
    {l : Kind → Option (Entry Payload)}
    (h : kind ∉ post.map Prod.fst) :
    applyWrites v (pre ++ (kind, payload) :: post) l kind =
      some ⟨v + pre.length + 1, payload⟩ := by
  induction pre generalizing v l with
  | nil =>
    rw [List.nil_append, applyWrites_cons, applyWrites_of_not_mem h, Function.update_self]
    rfl
  | cons w rest ih =>
    rw [List.cons_append, applyWrites_cons, ih, List.length_cons]
    congr 2
    omega

/-- Every write of distinct kinds shows, at a version of its own. -/
theorem applyWrites_of_mem {v : ℕ} {ws : List (Kind × Option Payload)} {kind : Kind}
    {payload : Option Payload} {l : Kind → Option (Entry Payload)}
    (hnodup : (ws.map Prod.fst).Nodup) (h : (kind, payload) ∈ ws) :
    ∃ n, v < n ∧ n ≤ v + ws.length ∧ applyWrites v ws l kind = some ⟨n, payload⟩ := by
  obtain ⟨pre, post, rfl⟩ := List.append_of_mem h
  have hpost : kind ∉ post.map Prod.fst := by
    rw [List.map_append, List.map_cons, List.nodup_append] at hnodup
    exact (List.nodup_cons.mp hnodup.2.1).1
  refine ⟨v + pre.length + 1, by omega, ?_, applyWrites_append pre hpost⟩
  rw [List.length_append, List.length_cons]
  omega

/-- After writes of distinct kinds, a kind has what was written or what it had. -/
theorem applyWrites_cases {v : ℕ} {ws : List (Kind × Option Payload)}
    (hnodup : (ws.map Prod.fst).Nodup) (l : Kind → Option (Entry Payload)) (kind : Kind) :
    (∃ payload n, (kind, payload) ∈ ws ∧ v < n ∧ n ≤ v + ws.length ∧
      applyWrites v ws l kind = some ⟨n, payload⟩) ∨
    (kind ∉ ws.map Prod.fst ∧ applyWrites v ws l kind = l kind) := by
  by_cases hkind : kind ∈ ws.map Prod.fst
  · obtain ⟨⟨_, payload⟩, hw, rfl⟩ := List.mem_map.mp hkind
    obtain ⟨n, hlt, hle, heq⟩ := applyWrites_of_mem hnodup hw
    exact Or.inl ⟨payload, n, hw, hlt, hle, heq⟩
  · exact Or.inr ⟨hkind, applyWrites_of_not_mem hkind⟩

theorem applyWrites_concat {v : ℕ} (ws : List (Kind × Option Payload)) (kind : Kind)
    (payload : Option Payload) (l : Kind → Option (Entry Payload)) :
    applyWrites v (ws ++ [(kind, payload)]) l =
      Function.update (applyWrites v ws l) kind (some ⟨v + ws.length + 1, payload⟩) := by
  induction ws generalizing v l with
  | nil => rfl
  | cons w rest ih =>
    rw [List.cons_append, applyWrites_cons, ih, applyWrites_cons, List.length_cons,
      show v + 1 + rest.length + 1 = v + (rest.length + 1) + 1 by omega]

theorem applyWrites_le {v : ℕ} {ws : List (Kind × Option Payload)}
    {l : Kind → Option (Entry Payload)} (hl : ∀ kind e, l kind = some e → e.version ≤ v)
    {kind : Kind} {e : Entry Payload} (he : applyWrites v ws l kind = some e) :
    e.version ≤ v + ws.length := by
  induction ws generalizing v l with
  | nil => exact hl kind e he
  | cons w rest ih =>
    rw [applyWrites] at he
    have hle := ih (v := v + 1) (fun k e' he' => ?_) he
    · rw [List.length_cons]
      omega
    · by_cases hk : k = w.1
      · rw [hk, Function.update_self] at he'
        cases he'
        exact le_rfl
      · rw [Function.update_of_ne hk] at he'
        have := hl k e' he'
        omega

/-- The catalogue after the writes `ws` of a source. -/
def written (source : SourceKey) (ws : List (Kind × Option Payload)) (c : Catalog) : Catalog :=
  (rewriteRecords source ws none c).2

theorem rewriteRecords_snd (source : SourceKey) (ws : List (Kind × Option Payload))
    (last : Option ℕ) (c : Catalog) :
    (rewriteRecords source ws last c).2 = c.written source ws := by
  cases ws <;> rfl

theorem written_cons (source : SourceKey) (kind : Kind) (payload : Option Payload)
    (rest : List (Kind × Option Payload)) (c : Catalog) :
    c.written source ((kind, payload) :: rest) =
      (c.nextVersion.2.putRecord kind source (c.currentVersion + 1) payload).written source rest :=
  rewriteRecords_snd source rest _ _

theorem written_append (source : SourceKey) (ws ws' : List (Kind × Option Payload)) (c : Catalog) :
    c.written source (ws ++ ws') = (c.written source ws).written source ws' := by
  induction ws generalizing c with
  | nil => rfl
  | cons w rest ih => rw [List.cons_append, written_cons, written_cons, ih]

/-- Writes change nothing but the records and the current version. -/
theorem written_frame (source : SourceKey) (ws : List (Kind × Option Payload)) (c : Catalog) :
    c.written source ws =
      { c with
        currentVersion := c.currentVersion + ws.length
        records := (c.written source ws).records } := by
  induction ws generalizing c with
  | nil => rfl
  | cons w rest ih =>
    rw [written_cons, ih]
    simp only [nextVersion, putRecord, List.length_cons]
    congr 1
    omega

@[simp] theorem currentVersion_written (source : SourceKey) (ws : List (Kind × Option Payload))
    (c : Catalog) : (c.written source ws).currentVersion = c.currentVersion + ws.length := by
  rw [written_frame]

@[simp] theorem files_written (source : SourceKey) (ws : List (Kind × Option Payload))
    (c : Catalog) : (c.written source ws).files = c.files := by
  rw [written_frame]

@[simp] theorem jobs_written (source : SourceKey) (ws : List (Kind × Option Payload))
    (c : Catalog) : (c.written source ws).jobs = c.jobs := by
  rw [written_frame]

@[simp] theorem id_written (source : SourceKey) (ws : List (Kind × Option Payload))
    (c : Catalog) : (c.written source ws).id = c.id := by
  rw [written_frame]

/-- Writes do to the log of their source what `applyWrites` says. -/
theorem log_written (source : SourceKey) (ws : List (Kind × Option Payload)) (c : Catalog)
    (kind : Kind) :
    (c.written source ws).log (kind, source) =
      applyWrites c.currentVersion ws (fun k => c.log (k, source)) kind := by
  induction ws generalizing c with
  | nil => rfl
  | cons w rest ih =>
    rw [written_cons, ih, applyWrites]
    congr 1
    funext k
    rw [log_putRecord, Function.update_apply]
    by_cases hk : k = w.1
    · rw [if_pos hk, if_pos (by rw [hk])]
    · rw [if_neg hk, if_neg (by simpa using fun h => hk h.symm)]
      rfl

theorem log_written_of_ne {source source' : SourceKey} (h : source' ≠ source)
    (ws : List (Kind × Option Payload)) (c : Catalog) (kind : Kind) :
    (c.written source ws).log (kind, source') = c.log (kind, source') := by
  induction ws generalizing c with
  | nil => rfl
  | cons w rest ih =>
    rw [written_cons, ih, log_putRecord, if_neg (by simpa using fun _ hs => h hs.symm)]
    rfl

/-- Writes commute with what commutes with one write. -/
theorem written_comm {source : SourceKey} (g : Catalog → Catalog)
    (hg : ∀ c kind payload,
      (g c).nextVersion.2.putRecord kind source ((g c).currentVersion + 1) payload =
        g (c.nextVersion.2.putRecord kind source (c.currentVersion + 1) payload))
    (ws : List (Kind × Option Payload)) (c : Catalog) :
    (g c).written source ws = g (c.written source ws) := by
  induction ws generalizing c with
  | nil => rfl
  | cons w rest ih => rw [written_cons, written_cons, hg, ih]

/-! ## Live records of a source -/

/-- A tombstone for every live record of a source but its file. -/
def tombstones (source : SourceKey) (c : Catalog) : List (Kind × Option Payload) :=
  (c.liveDerived source).map fun r => (r.kind, none)

/-- Every live record of a source but its file. -/
def kept (source : SourceKey) (c : Catalog) : List (Kind × Option Payload) :=
  (c.liveDerived source).map fun r => (r.kind, r.payload)

theorem live?_eq_some {key : RecordKey} {c : Catalog} {r : CatalogRecord} :
    c.live? key = some r ↔ r ∈ c.records ∧ r.key = key ∧ r.payload.isSome := by
  unfold live?
  rw [Option.filter_eq_some_iff, Table.get?_eq_some, and_assoc]
  simp [CatalogRecord.deleted]

theorem mem_otherKinds {kind : Kind} : kind ∈ otherKinds ↔ kind ≠ .file := by
  cases kind <;> decide

theorem mem_liveDerived {source : SourceKey} {c : Catalog} {r : CatalogRecord} :
    r ∈ c.liveDerived source ↔ r.kind ≠ .file ∧ c.live? (r.kind, source) = some r := by
  unfold liveDerived
  simp only [List.mem_filterMap, mem_otherKinds]
  constructor
  · rintro ⟨kind, hkind, hr⟩
    have hrk : r.kind = kind := congrArg Prod.fst (live?_eq_some.mp hr).2.1
    rw [hrk]
    exact ⟨hkind, hr⟩
  · rintro ⟨hkind, hr⟩
    exact ⟨r.kind, hkind, hr⟩

theorem nodup_liveDerived (source : SourceKey) (c : Catalog) :
    ((c.liveDerived source).map CatalogRecord.kind).Nodup := by
  have hsub : ((c.liveDerived source).map CatalogRecord.kind).Sublist otherKinds := by
    unfold liveDerived
    generalize otherKinds = kinds
    induction kinds with
    | nil => exact List.Sublist.slnil
    | cons kind rest ih =>
      rw [List.filterMap_cons]
      cases hr : c.live? (kind, source) with
      | none => exact ih.cons _
      | some r =>
        have hrk : r.kind = kind := congrArg Prod.fst (live?_eq_some.mp hr).2.1
        rw [List.map_cons, hrk]
        exact ih.cons_cons _
  exact List.Nodup.sublist hsub (by decide)

@[simp] theorem map_fst_tombstones (source : SourceKey) (c : Catalog) :
    (c.tombstones source).map Prod.fst = (c.liveDerived source).map CatalogRecord.kind := by
  simp [tombstones]

@[simp] theorem map_fst_kept (source : SourceKey) (c : Catalog) :
    (c.kept source).map Prod.fst = (c.liveDerived source).map CatalogRecord.kind := by
  simp [kept]

/-- The kinds of the live records are those with a live value. -/
theorem mem_kinds_liveDerived {source : SourceKey} {c : Catalog} {kind : Kind} :
    kind ∈ (c.liveDerived source).map CatalogRecord.kind ↔
      kind ≠ .file ∧ (c.log.live (kind, source)).isSome := by
  rw [← isSome_live?, List.mem_map]
  constructor
  · rintro ⟨r, hr, rfl⟩
    obtain ⟨hkind, hlive⟩ := mem_liveDerived.mp hr
    exact ⟨hkind, by rw [hlive]; rfl⟩
  · rintro ⟨hkind, hlive⟩
    obtain ⟨r, hr⟩ := Option.isSome_iff_exists.mp hlive
    have hrk : r.kind = kind := congrArg Prod.fst (live?_eq_some.mp hr).2.1
    exact ⟨r, mem_liveDerived.mpr ⟨hrk ▸ hkind, hrk ▸ hr⟩, hrk⟩

theorem mem_kept {source : SourceKey} {c : Catalog} {kind : Kind} {payload : Option Payload} :
    (kind, payload) ∈ c.kept source ↔
      kind ≠ .file ∧ payload = c.log.live (kind, source) ∧ payload.isSome := by
  unfold kept
  rw [List.mem_map]
  constructor
  · rintro ⟨r, hr, heq⟩
    obtain ⟨rfl, rfl⟩ := Prod.mk.inj heq
    obtain ⟨hkind, hlive⟩ := mem_liveDerived.mp hr
    refine ⟨hkind, ?_, (live?_eq_some.mp hlive).2.2⟩
    rw [← live?_map, hlive]
    rfl
  · rintro ⟨hkind, hpayload, hsome⟩
    have hlive : (c.live? (kind, source)).isSome := by
      rw [isSome_live?, ← hpayload]
      exact hsome
    obtain ⟨r, hr⟩ := Option.isSome_iff_exists.mp hlive
    have hrk : r.kind = kind := congrArg Prod.fst (live?_eq_some.mp hr).2.1
    refine ⟨r, mem_liveDerived.mpr ⟨hrk ▸ hkind, hrk ▸ hr⟩, ?_⟩
    rw [← live?_map, hr] at hpayload
    rw [hrk, hpayload]
    rfl

theorem mem_tombstones {source : SourceKey} {c : Catalog} {kind : Kind}
    {payload : Option Payload} :
    (kind, payload) ∈ c.tombstones source ↔
      payload = none ∧ kind ≠ .file ∧ (c.log.live (kind, source)).isSome := by
  rw [← mem_kinds_liveDerived]
  unfold tombstones
  simp only [List.mem_map, Prod.mk.injEq]
  constructor
  · rintro ⟨r, hr, hkind, hpayload⟩
    exact ⟨hpayload.symm, r, hr, hkind⟩
  · rintro ⟨hpayload, r, hr, hkind⟩
    exact ⟨r, hr, hkind, hpayload.symm⟩

/-- The records of the other kinds do not change when the file record is put. -/
theorem liveDerived_putRecord_file (source : SourceKey) (version : ℕ) (payload : Option Payload)
    (c : Catalog) :
    (c.putRecord .file source version payload).liveDerived source = c.liveDerived source := by
  unfold liveDerived
  apply List.filterMap_congr
  intro kind hkind
  unfold live? putRecord
  rw [Table.get?_put, if_neg]
  intro heq
  exact mem_otherKinds.mp hkind (congrArg Prod.fst heq).symm

/-! ## Operations -/

/-- The catalogue with a row of `catalog_files` written. -/
def withFile (row : StoredFile) (c : Catalog) : Catalog := { c with files := c.files.put row }

theorem tombstone_after_file (source : SourceKey) (payload : Option Payload) (c : Catalog) :
    ((c.nextVersion.2.putRecord .file source (c.currentVersion + 1)
      payload).tombstoneDerivedRecords source).2 =
        c.written source ((.file, payload) :: c.tombstones source) := by
  unfold tombstoneDerivedRecords
  rw [rewriteRecords_snd, written_cons, liveDerived_putRecord_file]
  rfl

theorem reversion_after_file (source : SourceKey) (payload : Option Payload) (c : Catalog) :
    ((c.nextVersion.2.putRecord .file source (c.currentVersion + 1)
      payload).reversionDerivedRecords source).2 =
        c.written source ((.file, payload) :: c.kept source) := by
  unfold reversionDerivedRecords
  rw [rewriteRecords_snd, written_cons, liveDerived_putRecord_file]
  rfl

/-- What `upsert_file_inner` does. -/
inductive Upserts (file : FileRecord) (generation musicTagGeneration : ℕ) (probed : Bool)
    (c : Catalog) : Catalog → Prop
  /-- The file is stored as it is. -/
  | unchanged (stored : StoredFile) (hstored : c.files.get? file.source = some stored)
      (hlive : stored.error = []) (hbytes : stored.sameBytes file) :
      Upserts file generation musicTagGeneration probed c
        (c.touchFile file.source generation musicTagGeneration probed)
  /-- The file is new, was in error or has new bytes. -/
  | replaced (hstored : ∀ stored, c.files.get? file.source = some stored →
        stored.error ≠ [] ∨ stored.sameBytes file = false) :
      Upserts file generation musicTagGeneration probed c
        (((c.withFile (upsertedFile file generation musicTagGeneration (c.currentVersion + 1) probed
          (c.files.get? file.source))).written file.source
            ((.file, some (.fileUpsert c.id [file])) :: c.tombstones file.source)).dropIdleJobs
              file.source)
  /-- The bytes are the same, but what is known of them is not. -/
  | refreshed (stored : StoredFile) (hstored : c.files.get? file.source = some stored)
      (hlive : stored.error = []) (hbytes : stored.sameBytes file) :
      Upserts file generation musicTagGeneration probed c
        (((c.withFile (upsertedFile file generation musicTagGeneration (c.currentVersion + 1) probed
          (some stored))).rebaseJobs file.source stored.version (c.currentVersion + 1)).written
            file.source ((.file, some (.fileUpsert c.id [file])) :: c.kept file.source))

theorem upsertFile_spec (file : FileRecord) (generation musicTagGeneration : ℕ) (probed : Bool)
    (c : Catalog) :
    Upserts file generation musicTagGeneration probed c
      (c.upsertFile file generation musicTagGeneration probed).2 := by
  have hreplace : ∀ previous, c.files.get? file.source = previous →
      (∀ stored, previous = some stored → stored.error ≠ [] ∨ stored.sameBytes file = false) →
      (c.upsertFile file generation musicTagGeneration probed).2 =
        ((c.withFile (upsertedFile file generation musicTagGeneration (c.currentVersion + 1) probed
          previous)).written file.source
            ((.file, some (.fileUpsert c.id [file])) :: c.tombstones file.source)).dropIdleJobs
              file.source := by
    intro previous hprev hdiff
    have hunchanged : (previous.any fun stored => stored.error.isEmpty && stored.sameBytes file &&
        stored.streams = file.streams) = false := by
      cases previous with
      | none => rfl
      | some stored => rcases hdiff stored rfl with h | h <;> simp [h]
    have hchanged : (previous.all fun stored =>
        !stored.error.isEmpty || !stored.sameBytes file) = true := by
      cases previous with
      | none => rfl
      | some stored => rcases hdiff stored rfl with h | h <;> simp [h]
    unfold upsertFile
    simp only [hprev, hunchanged, hchanged, Bool.false_and, Bool.false_eq_true, if_false, if_true]
    exact congrArg (dropIdleJobs file.source) (tombstone_after_file file.source _ (c.withFile _))
  cases hprev : c.files.get? file.source with
  | none =>
    rw [hreplace none hprev (by simp), ← hprev]
    exact Upserts.replaced (by simp [hprev])
  | some stored =>
    by_cases hsame : stored.error = [] ∧ stored.sameBytes file = true
    · obtain ⟨hlive, hbytes⟩ := hsame
      unfold upsertFile
      simp only [hprev, Option.any_some, Option.all_some, hlive, hbytes, List.isEmpty_nil,
        Bool.true_and, Bool.not_true, Bool.or_self, Bool.false_eq_true, if_false]
      split_ifs
      · exact Upserts.unchanged stored hprev hlive hbytes
      · refine Eq.mpr (congrArg (Upserts file generation musicTagGeneration probed c) ?_)
          (Upserts.refreshed stored hprev hlive hbytes)
        exact reversion_after_file file.source _ ((c.withFile _).rebaseJobs file.source _ _)
    · have hdiff : stored.error ≠ [] ∨ stored.sameBytes file = false := by
        by_contra hnot
        simp only [ne_eq, not_or, not_not, Bool.not_eq_false] at hnot
        exact hsame hnot
      rw [hreplace (some stored) hprev (by rintro _ ⟨⟩; exact hdiff), ← hprev]
      refine Upserts.replaced ?_
      rw [hprev]
      rintro _ ⟨⟩
      exact hdiff

/-- What `record_error` does. -/
inductive RecordsError (error : FileError) (generation : ℕ) (c : Catalog) : Catalog → Prop
  /-- The error is stored as it is. -/
  | repeated (stored : StoredFile) (hstored : c.files.get? error.source = some stored)
      (herror : stored.error = error.error) :
      RecordsError error generation c (c.markSeen error.source generation)
  /-- The source was available. -/
  | lost (stored : StoredFile) (hstored : c.files.get? error.source = some stored)
      (hlive : stored.error = []) :
      RecordsError error generation c
        (((c.withFile (erroredFile error generation
          (c.currentVersion + (c.tombstones error.source).length + 2) (some stored))).written
            error.source
            (((.file, none) :: c.tombstones error.source) ++
              [(.fileError, some (.fileError error))])).dropIdleJobs error.source)
  /-- The source was not available. -/
  | failed (hstored : ∀ stored, c.files.get? error.source = some stored → stored.error ≠ []) :
      RecordsError error generation c
        ((c.withFile (erroredFile error generation (c.currentVersion + 1)
          (c.files.get? error.source))).written error.source
            [(.fileError, some (.fileError error))])

theorem recordError_spec (error : FileError) (generation : ℕ) (c : Catalog) :
    RecordsError error generation c (c.recordError error generation).2 := by
  have hfailed : ∀ previous, c.files.get? error.source = previous →
      (∀ stored, previous = some stored → stored.error ≠ [] ∧ stored.error ≠ error.error) →
      (c.recordError error generation).2 =
        (c.withFile (erroredFile error generation (c.currentVersion + 1) previous)).written
          error.source [(.fileError, some (.fileError error))] := by
    intro previous hprev hdiff
    have hnew : (previous.filter fun stored => stored.error = error.error) = none := by
      cases previous with
      | none => rfl
      | some stored => simp [Option.filter, (hdiff stored rfl).2]
    have hlive : (previous.any fun stored => stored.error.isEmpty) = false := by
      cases previous with
      | none => rfl
      | some stored => simp [(hdiff stored rfl).1]
    unfold recordError
    simp only [hprev, hnew, hlive, Bool.false_eq_true, if_false]
    rfl
  cases hprev : c.files.get? error.source with
  | none =>
    rw [hfailed none hprev (by simp), ← hprev]
    exact RecordsError.failed (by simp [hprev])
  | some stored =>
    by_cases hsame : stored.error = error.error
    · unfold recordError
      simp only [hprev, Option.filter, hsame, decide_true, if_true]
      exact RecordsError.repeated stored hprev hsame
    · by_cases hlive : stored.error = []
      · unfold recordError
        have hnew : ((some stored).filter fun stored => stored.error = error.error) = none := by
          simp [Option.filter, hsame]
        simp only [hprev, hnew, Option.any_some, hlive, List.isEmpty_nil, if_true]
        refine Eq.mpr (congrArg (RecordsError error generation c) ?_)
          (RecordsError.lost stored hprev hlive)
        have htomb : (tombstoneDerivedRecords error.source (putRecord .file error.source
            c.nextVersion.1 none c.nextVersion.2)).2 =
              c.written error.source ((.file, none) :: c.tombstones error.source) :=
          tombstone_after_file error.source none c
        have hversion : c.currentVersion + (c.tombstones error.source).length + 2 =
            (c.written error.source
              ((.file, none) :: c.tombstones error.source)).currentVersion + 1 := by
          rw [currentVersion_written, List.length_cons]
          omega
        rw [written_append, written_comm (withFile _) fun _ _ _ => rfl, htomb, hversion]
        rfl
      · rw [hfailed (some stored) hprev (by rintro _ ⟨⟩; exact ⟨hlive, hsame⟩), ← hprev]
        refine RecordsError.failed ?_
        rw [hprev]
        rintro _ ⟨⟩
        exact hlive

/-- `remove_file` drops the row and leaves tombstones, that of the file last. -/
theorem removeFile_eq (source : SourceKey) (c : Catalog) :
    (c.removeFile source).2 =
      ({ c with files := c.files.erase source } : Catalog).written source
        (c.tombstones source ++ [(.file, none)]) := by
  rw [written_comm (fun c => { c with files := c.files.erase source }) fun _ _ _ => rfl,
    written_append]
  rfl

/-- What `store_source_fact` does, and whether it stores the fact. -/
inductive Stores (fact : Fact) (c : Catalog) : Bool → Catalog → Prop
  /-- The result is stale: it only ends the claim. -/
  | stale : Stores fact c false { c with jobs := c.jobs.erase (fact.kind, fact.source) }
  /-- The claim still names the current revision. -/
  | stored (claim : Job) (current : StoredFile)
      (hclaim : c.claim? (fact.kind, fact.source) = some claim)
      (hcurrent : c.current? fact.source = some current)
      (hsame : sameRevision claim current)
      (hsize : fact.expectedSize.all fun size => size = current.size)
      (hmtime : fact.expectedMtime.all fun mtime => mtime = current.mtime) :
      Stores fact c true
        (({ c with jobs := c.jobs.erase (fact.kind, fact.source) } : Catalog).written
          fact.source [(fact.kind, some fact.payload)])

theorem storeOne_spec (fact : Fact) (c : Catalog) :
    Stores fact c (c.storeOne fact).1.isOk (c.storeOne fact).2 := by
  unfold storeOne storeSourceFact
  dsimp only
  cases hcurrent : c.current? fact.source with
  | none => exact Stores.stale
  | some current =>
    dsimp only
    cases hclaim : c.claim? (fact.kind, fact.source) with
    | none => exact Stores.stale
    | some claim =>
      dsimp only
      split_ifs with hrevision hexpected
      · exact Stores.stale
      · exact Stores.stale
      · simp only [Bool.not_eq_true', Bool.not_eq_false, Bool.or_eq_true, not_or] at hrevision hexpected
        exact Stores.stored claim current hclaim hcurrent hrevision hexpected.1 hexpected.2

/-- A result is stored when its claim names the current revision and the result
    agrees with it. -/
theorem storeOne_ok {fact : Fact} {c : Catalog} {claim : Job} {current : StoredFile}
    (hclaim : c.claim? (fact.kind, fact.source) = some claim)
    (hcurrent : c.current? fact.source = some current) (hsame : sameRevision claim current)
    (hsize : fact.expectedSize.all fun size => size = current.size)
    (hmtime : fact.expectedMtime.all fun mtime => mtime = current.mtime) :
    (c.storeOne fact).1.isOk := by
  unfold storeOne storeSourceFact
  simp only [hclaim, hcurrent, hsame, hsize, hmtime, Bool.not_true, Bool.or_self,
    Bool.false_eq_true, if_false]
  rfl

end Kahawai.Mediahost.Catalog
