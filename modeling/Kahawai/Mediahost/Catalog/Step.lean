import Mathlib.Logic.Relation
import Kahawai.Mediahost.Catalog.Effect

/-!
# Runs of the catalogue

`Step` is one call of an operation, with any arguments. Most operations change
one source; `reconcile_root`, `finish_scan`, `store_fact` and
`ensure_discovery_generation` change several, one after another.
`Step.effects` splits every operation into `Effect`s, each of which writes
records of at most one source, so that an invariant has to be checked for the
effects only.
-/

namespace Kahawai.Mediahost.Catalog

open Kahawai.Core Kahawai.Lib Kahawai.Proto Relation

variable (json : StreamsJson)

/-! ## Effects -/

/-- `c'` differs from `c` in columns that no record and no claim depends on. -/
structure Touched (c c' : Catalog) : Prop where
  id : c'.id = c.id
  mediaType : c'.mediaType = c.mediaType
  epoch : c'.epoch = c.epoch
  currentVersion : c'.currentVersion = c.currentVersion
  oldest : c'.oldestReplayableVersion = c.oldestReplayableVersion
  records : c'.records = c.records
  jobs : c'.jobs = c.jobs
  files : ∀ source, (c'.files.get? source).map StoredFile.revision =
    (c.files.get? source).map StoredFile.revision

/-- A part of a scan that writes records of at most one source. -/
inductive ScanEffect : Catalog → Catalog → Prop
  | touched {c c' : Catalog} (h : Touched c c') : ScanEffect c c'
  | upserted {c c' : Catalog} (file : FileRecord) (generation musicTagGeneration : ℕ)
      (probed : Bool) (h : Upserts file generation musicTagGeneration probed c c') :
      ScanEffect c c'
  | errored {c c' : Catalog} (error : FileError) (generation : ℕ)
      (herror : error.collection = c.id) (h : RecordsError error generation c c') :
      ScanEffect c c'
  | removed (c : Catalog) (source : SourceKey) :
      ScanEffect c (({ c with files := c.files.erase source } : Catalog).written source
        (c.tombstones source ++ [(.file, none)]))

/-- The version of a job or of a row of `catalog_files`. -/
def Stamp (c : Catalog) (version : ℕ) : Prop :=
  (∃ j ∈ c.jobs, j.sourceVersion = version) ∨ ∃ row ∈ c.files, row.version = version

/-- A part of an operation that writes records of at most one source. -/
inductive Effect : Catalog → Catalog → Prop
  | scan {c c' : Catalog} (h : ScanEffect c c') : Effect c c'
  | claimed (c : Catalog) (jobs : Table Job.key) (hjobs : ∀ j ∈ jobs, c.Stamp j.sourceVersion) :
      Effect c { c with jobs := jobs }
  | stored {c c' : Catalog} (fact : Fact) {ok : Bool} (h : Stores fact c ok c') : Effect c c'
  | invalidated (c : Catalog) {kind : Kind} (hkind : kind.IsDerived) {source : SourceKey}
      (hlive : (c.log.live (kind, source)).isSome) : Effect c (c.written source [(kind, none)])

/-- One scan effect after another. -/
abbrev ScanEffects : Catalog → Catalog → Prop := ReflTransGen ScanEffect

/-- One effect after another. -/
abbrev Effects : Catalog → Catalog → Prop := ReflTransGen Effect

theorem ScanEffects.effects {c c' : Catalog} (h : ScanEffects c c') : Effects c c' :=
  ReflTransGen.mono (fun _ _ => Effect.scan) c c' h

/-- The records of `c'` are those of `c` after writes of one source. -/
def Writes (c c' : Catalog) : Prop :=
  ∃ source ws, c'.records = (c.written source ws).records ∧
    c'.currentVersion = (c.written source ws).currentVersion

theorem records_written {c d : Catalog} (hrecords : d.records = c.records)
    (hversion : d.currentVersion = c.currentVersion) (source : SourceKey)
    (ws : List (Kind × Option Payload)) :
    (d.written source ws).records = (c.written source ws).records := by
  induction ws generalizing c d with
  | nil => exact hrecords
  | cons w rest ih =>
    rw [written_cons, written_cons]
    refine ih ?_ (congrArg (· + 1) hversion)
    show d.records.put _ = c.records.put _
    rw [hrecords, hversion]

/-- Writes after and before changes that are not to records. -/
theorem writes_written {c d c' : Catalog} {source : SourceKey}
    {ws : List (Kind × Option Payload)} (hafter : c'.records = (d.written source ws).records)
    (hafter' : c'.currentVersion = (d.written source ws).currentVersion)
    (hbefore : d.records = c.records) (hbefore' : d.currentVersion = c.currentVersion) :
    Writes c c' := by
  refine ⟨source, ws, hafter.trans (records_written hbefore hbefore' source ws), ?_⟩
  rw [hafter', currentVersion_written, currentVersion_written, hbefore']

/-- No records are written. -/
theorem writes_nil {c c' : Catalog} (hrecords : c'.records = c.records)
    (hversion : c'.currentVersion = c.currentVersion) (source : SourceKey) : Writes c c' :=
  ⟨source, [], hrecords, hversion⟩

theorem ScanEffect.writes {c c' : Catalog} (h : ScanEffect c c') : Writes c c' := by
  cases h with
  | touched htouched => exact writes_nil htouched.records htouched.currentVersion ⟨[], []⟩
  | upserted file generation musicTagGeneration probed hupserts =>
    cases hupserts with
    | unchanged => exact writes_nil rfl rfl file.source
    | replaced => exact writes_written rfl rfl rfl rfl
    | refreshed => exact writes_written rfl rfl rfl rfl
  | errored error generation herror herrors =>
    cases herrors with
    | repeated => exact writes_nil rfl rfl error.source
    | lost => exact writes_written rfl rfl rfl rfl
    | failed => exact writes_written rfl rfl rfl rfl
  | removed source => exact writes_written rfl rfl rfl rfl

theorem Effect.writes {c c' : Catalog} (h : Effect c c') : Writes c c' := by
  cases h with
  | scan hscan => exact hscan.writes
  | claimed jobs => exact writes_nil rfl rfl ⟨[], []⟩
  | stored fact hstores =>
    cases hstores with
    | stale => exact writes_nil rfl rfl fact.source
    | stored => exact writes_written rfl rfl rfl rfl
  | invalidated => exact writes_written rfl rfl rfl rfl

/-- What identifies a collection to a hub. -/
def header (c : Catalog) : Text × MediaType × Text × ℕ :=
  (c.id, c.mediaType, c.epoch, c.oldestReplayableVersion)

@[simp] theorem header_written (source : SourceKey) (ws : List (Kind × Option Payload))
    (c : Catalog) : (c.written source ws).header = c.header := by
  rw [written_frame]
  rfl

theorem ScanEffect.header {c c' : Catalog} (h : ScanEffect c c') : c'.header = c.header := by
  cases h with
  | touched htouched =>
    unfold Catalog.header
    rw [htouched.id, htouched.mediaType, htouched.epoch, htouched.oldest]
  | upserted file generation musicTagGeneration probed hupserts =>
    cases hupserts with
    | unchanged => rfl
    | replaced => exact header_written _ _ (c.withFile _)
    | refreshed => exact header_written _ _ _
  | errored error generation herror herrors =>
    cases herrors with
    | repeated => rfl
    | lost => exact header_written _ _ (c.withFile _)
    | failed => exact header_written _ _ _
  | removed source => exact header_written _ _ _

theorem Effect.header {c c' : Catalog} (h : Effect c c') : c'.header = c.header := by
  cases h with
  | scan hscan => exact hscan.header
  | claimed jobs => rfl
  | stored fact hstores =>
    cases hstores with
    | stale => rfl
    | stored => exact header_written _ _ _
  | invalidated => exact header_written _ _ _

/-- Columns of `catalog_files` that are not part of a revision. -/
theorem Touched.mapFiles (c : Catalog) (f : StoredFile → StoredFile)
    (hf : ∀ row, (f row).source = row.source) (hrevision : ∀ row, (f row).revision = row.revision) :
    Touched c { c with files := c.files.mapRows f hf } := by
  refine ⟨rfl, rfl, rfl, rfl, rfl, rfl, rfl, fun source => ?_⟩
  rw [Table.get?_mapRows, Option.map_map]
  exact congrArg (Option.map · _) (funext hrevision)

/-- Effects one after another, for the rows of a list. -/
theorem chain_foldl {α : Type*} {r : Catalog → Catalog → Prop} (f : Catalog → α → Catalog)
    (hf : ∀ c a, ReflTransGen r c (f c a)) (rows : List α) (c : Catalog) :
    ReflTransGen r c (rows.foldl f c) := by
  induction rows generalizing c with
  | nil => exact ReflTransGen.refl
  | cons a rest ih => exact (hf c a).trans (ih (f c a))

/-! ## Operations as effects -/

theorem effects_removeFiles (rows : List StoredFile) (c : Catalog) :
    ScanEffects c (rows.foldl (fun c row => (c.removeFile row.source).2) c) := by
  refine chain_foldl (fun c (row : StoredFile) => (c.removeFile row.source).2) (fun c row => ?_)
    rows c
  show ScanEffects c (c.removeFile row.source).2
  rw [removeFile_eq]
  exact ReflTransGen.single (ScanEffect.removed c row.source)

theorem effects_finishScan (generation : ℕ) (retainedRoots : List Text) (c : Catalog) :
    ScanEffects c (c.finishScan generation retainedRoots).2 := by
  have htouch : ∀ d : Catalog, ScanEffect d
      { d with scanning := false, completedGeneration := generation } := fun _ =>
    ScanEffect.touched ⟨rfl, rfl, rfl, rfl, rfl, rfl, rfl, fun _ => rfl⟩
  exact (effects_removeFiles _ c).tail (htouch _)

theorem effects_baselineSidecars (root : Text) (baselines : List (Text × Text)) (c : Catalog) :
    ScanEffects c (c.baselineSidecars json root baselines) := by
  refine chain_foldl _ (fun c baseline => ReflTransGen.single (ScanEffect.touched ?_)) _ c
  refine Touched.mapFiles c _ _ fun row => ?_
  split <;> rfl

/-- Some of the jobs are dropped. -/
theorem effect_filterJobs (p : Job → Bool) (c : Catalog) :
    Effect c { c with jobs := c.jobs.filter p } :=
  Effect.claimed c _ fun j hj => Or.inl ⟨j, (Table.mem_filter.mp hj).1, rfl⟩

theorem effects_releaseClaims (kind : Kind) (sources : List SourceKey) (c : Catalog) :
    Effects c (c.releaseClaims kind sources) :=
  chain_foldl _ (fun c _ => ReflTransGen.single (effect_filterJobs _ c)) _ c

theorem effects_claimRows (kind : Kind) (rows : List StoredFile) (c : Catalog)
    (hrows : ∀ row ∈ rows, row ∈ c.files) : Effects c (c.claimRows kind rows) := by
  induction rows generalizing c with
  | nil => exact ReflTransGen.refl
  | cons f rest ih =>
    refine ReflTransGen.head (Effect.claimed c _ fun j hj => ?_)
      (ih _ fun row hrow => hrows row (List.mem_cons_of_mem _ hrow))
    rcases Table.mem_put.mp hj with rfl | ⟨hj, -⟩
    · exact Or.inr ⟨f, hrows f (List.mem_cons_self ..), rfl⟩
    · exact Or.inl ⟨j, hj, rfl⟩

theorem effects_claimWhere (wanted : StoredFile → Bool) (kind : Kind) (limit : ℕ) (c : Catalog) :
    Effects c (c.claimWhere wanted kind limit).2 := by
  unfold claimWhere
  dsimp only
  split_ifs
  · exact ReflTransGen.refl
  · refine effects_claimRows kind _ c fun row hrow => ?_
    have hsorted := List.mem_of_mem_take hrow
    rw [List.mem_insertionSort] at hsorted
    exact (List.mem_filter.mp hsorted).1

theorem claimCheapSources_eq {kind : Kind} {limit : ℕ} {c : Catalog}
    {claimed : List SourceKey × Catalog}
    (h : c.claimCheapSources json kind limit = some claimed) :
    claimed = c.claimWhere (cheapMissing json kind c.mediaType) kind limit := by
  cases kind <;> simp_all [claimCheapSources]

theorem effects_claimCheapSources {kind : Kind} {limit : ℕ} {c : Catalog}
    {claimed : List SourceKey × Catalog}
    (h : c.claimCheapSources json kind limit = some claimed) : Effects c claimed.2 := by
  rw [claimCheapSources_eq json h]
  exact effects_claimWhere _ kind limit c

theorem effects_storeOne (fact : Fact) (c : Catalog) : Effects c (c.storeOne fact).2 :=
  ReflTransGen.single (Effect.stored fact (storeOne_spec fact c))

theorem effects_storeHashes (collection : Text) (hashes : List FileHash)
    (failure : Except StaleFact Unit) (c : Catalog) :
    Effects c (c.storeHashes collection hashes failure).2 := by
  induction hashes generalizing failure c with
  | nil => exact ReflTransGen.refl
  | cons hash rest ih =>
    rw [storeHashes]
    exact (effects_storeOne _ c).trans (ih _ _)

theorem effects_storeEpisodes (value : SegmentDetectionResult)
    (episodes : List SegmentEpisodeResult) (c : Catalog) :
    Effects c (c.storeEpisodes value episodes) := by
  induction episodes generalizing c with
  | nil => exact ReflTransGen.refl
  | cons episode rest ih =>
    rw [storeEpisodes]
    split_ifs
    · exact (effects_releaseClaims _ _ c).trans (ih _)
    · exact (effects_storeOne _ c).trans (ih _)

theorem effects_storeSingle (collection : Text) (fact : Fact) (c : Catalog) :
    Effects c (c.storeSingle collection fact).2 := by
  unfold storeSingle
  split_ifs
  · exact effects_storeOne fact c
  · exact ReflTransGen.refl

theorem effects_storeFact (message : Payload) (c : Catalog) :
    Effects c (c.storeFact message).2 := by
  unfold storeFact
  cases message with
  | fileHashes collection hashes =>
    dsimp only
    split_ifs
    · exact effects_storeHashes collection hashes _ c
    · exact ReflTransGen.refl
  | fileSegments value =>
    dsimp only
    split_ifs
    · exact effects_storeEpisodes value value.episodes c
    · exact ReflTransGen.refl
  | fileLoudness value => exact effects_storeSingle _ _ c
  | fileAttachments value => exact effects_storeSingle _ _ c
  | fileKeyframe value => exact effects_storeSingle _ _ c
  | fileGeometry value => exact effects_storeSingle _ _ c
  | fileUpsert collection files => exact ReflTransGen.refl
  | fileError value => exact ReflTransGen.refl

/-- The records of an outdated analyzer are dropped one after another. Each of
    them is still live when its turn comes, since they have different sources. -/
theorem effects_invalidate {kind : Kind} (hkind : kind.IsDerived) (records : List CatalogRecord)
    (hnodup : (records.map CatalogRecord.source).Nodup) (c : Catalog)
    (hlive : ∀ r ∈ records, (c.log.live (kind, r.source)).isSome) :
    Effects c (records.foldl (fun c r =>
      let (version, c) := c.nextVersion
      c.putRecord kind r.source version none) c) := by
  induction records generalizing c with
  | nil => exact ReflTransGen.refl
  | cons r rest ih =>
    rw [List.map_cons, List.nodup_cons] at hnodup
    refine ReflTransGen.head (Effect.invalidated c hkind (hlive r (List.mem_cons_self ..)))
      (ih hnodup.2 _ fun r' hr' => ?_)
    have hne : r'.source ≠ r.source := fun heq =>
      hnodup.1 (heq ▸ List.mem_map_of_mem hr')
    unfold Log.live
    rw [log_written_of_ne hne]
    exact hlive r' (List.mem_cons_of_mem _ hr')

theorem effects_ensureDiscoveryGeneration {kind : Kind} (hkind : kind.IsDerived)
    (generation : Text) (c : Catalog) :
    Effects c (c.ensureDiscoveryGeneration kind generation) := by
  unfold ensureDiscoveryGeneration
  split_ifs
  · exact ReflTransGen.refl
  · have hdrop : ∀ d : Catalog, Effects d
        { d with
          jobs := d.jobs.filter fun j => j.kind ≠ kind
          analyzer := Function.update d.analyzer kind (some generation) } := fun d =>
      (ReflTransGen.single (effect_filterJobs (fun j => j.kind ≠ kind) d)).tail
        (Effect.scan (ScanEffect.touched ⟨rfl, rfl, rfl, rfl, rfl, rfl, rfl, fun _ => rfl⟩))
    refine ReflTransGen.trans (effects_invalidate hkind _ ?_ c ?_) (hdrop _)
    · refine List.Nodup.map_on ?_ ((List.Nodup.of_map _ c.records.nodup).filter _)
      intro r hr r' hr' hsource
      simp only [List.mem_filter, Bool.and_eq_true, decide_eq_true_eq] at hr hr'
      refine Table.eq_of_key_eq hr.1 hr'.1 ?_
      unfold CatalogRecord.key
      rw [hr.2.1, hr'.2.1, hsource]
    · intro r hr
      simp only [List.mem_filter, Bool.and_eq_true, decide_eq_true_eq] at hr
      have hkey : (kind, r.source) = r.key := by rw [← hr.2.1]; rfl
      have hdeleted : r.payload.isSome := by
        have := hr.2.2
        unfold CatalogRecord.deleted at this
        simpa using this
      rw [← isSome_live?, hkey, live?_eq_some.mpr ⟨hr.1, rfl, hdeleted⟩]
      rfl

theorem effects_openCatalog (loudness : Text) (segments : Option Text) (c : Catalog) :
    Effects c (c.openCatalog loudness segments) := by
  have hreset : Effects c c.resetJobs := by
    refine ReflTransGen.single (Effect.claimed c _ fun j hj => ?_)
    obtain ⟨j₀, hj₀, rfl⟩ := Table.mem_mapRows.mp hj
    exact Or.inl ⟨j₀, hj₀, by split <;> rfl⟩
  have hloudness : Effects c (c.resetJobs.ensureDiscoveryGeneration .fileLoudness loudness) :=
    hreset.trans (effects_ensureDiscoveryGeneration (by decide) loudness _)
  have htouch : ∀ d : Catalog, Effect d { d with scanning := true } := fun d =>
    Effect.scan (ScanEffect.touched ⟨rfl, rfl, rfl, rfl, rfl, rfl, rfl, fun _ => rfl⟩)
  unfold openCatalog
  cases segments with
  | none => exact hloudness.tail (htouch _)
  | some generation =>
    exact (hloudness.trans (effects_ensureDiscoveryGeneration (by decide) generation _)).tail
      (htouch _)

/-! ## Steps -/

/-- One call of an operation of a scan. -/
inductive ScanStep : Catalog → Catalog → Prop
  | beginScan (c : Catalog) : ScanStep c c.beginScan.2
  | markSeen (c : Catalog) (source : SourceKey) (generation : ℕ) :
      ScanStep c (c.markSeen source generation)
  | upsertFile (c : Catalog) (file : FileRecord) (generation musicTagGeneration : ℕ)
      (probed : Bool) : ScanStep c (c.upsertFile file generation musicTagGeneration probed).2
  | recordError (c : Catalog) (error : FileError) (generation : ℕ)
      (herror : error.collection = c.id) : ScanStep c (c.recordError error generation).2
  | baselineSidecars (c : Catalog) (root : Text) (baselines : List (Text × Text)) :
      ScanStep c (c.baselineSidecars json root baselines)
  | reconcileRoot (c : Catalog) (root : Text) (present : List Text) :
      ScanStep c (c.reconcileRoot root present)
  | finishScan (c : Catalog) (generation : ℕ) (retainedRoots : List Text) :
      ScanStep c (c.finishScan generation retainedRoots).2

/-- One call of an operation. -/
inductive Step : Catalog → Catalog → Prop
  | scan {c c' : Catalog} (h : ScanStep json c c') : Step c c'
  | claimSources (c : Catalog) (kind : Kind) (limit : ℕ) :
      Step c (c.claimSources json kind limit).2
  | claimCheapSources (c : Catalog) (kind : Kind) (limit : ℕ) {claimed : List SourceKey × Catalog}
      (h : c.claimCheapSources json kind limit = some claimed) : Step c claimed.2
  | releaseClaims (c : Catalog) (kind : Kind) (sources : List SourceKey) :
      Step c (c.releaseClaims kind sources)
  | storeFact (c : Catalog) (message : Payload) : Step c (c.storeFact message).2
  /-- The mediahost restarts: `ensure_discovery_generation` runs. -/
  | openCatalog (c : Catalog) (loudness : Text) (segments : Option Text) :
      Step c (c.openCatalog loudness segments)

/-- Every operation of a scan is a sequence of scan effects. -/
theorem ScanStep.effects {c c' : Catalog} (h : ScanStep json c c') : ScanEffects c c' := by
  cases h with
  | beginScan =>
    exact ReflTransGen.single
      (ScanEffect.touched ⟨rfl, rfl, rfl, rfl, rfl, rfl, rfl, fun _ => rfl⟩)
  | markSeen source generation =>
    refine ReflTransGen.single (ScanEffect.touched (Touched.mapFiles c _ _ fun row => ?_))
    split <;> rfl
  | upsertFile file generation musicTagGeneration probed =>
    exact ReflTransGen.single (ScanEffect.upserted file generation musicTagGeneration probed
      (upsertFile_spec file generation musicTagGeneration probed c))
  | recordError error generation herror =>
    exact ReflTransGen.single
      (ScanEffect.errored error generation herror (recordError_spec error generation c))
  | baselineSidecars root baselines => exact effects_baselineSidecars json root baselines c
  | reconcileRoot root present => exact effects_removeFiles _ c
  | finishScan generation retainedRoots => exact effects_finishScan generation retainedRoots c

/-- Every operation is a sequence of effects. -/
theorem Step.effects {c c' : Catalog} (h : Step json c c') : Effects c c' := by
  cases h with
  | scan hscan => exact (hscan.effects json).effects
  | claimSources kind limit => exact effects_claimWhere _ kind limit c
  | claimCheapSources kind limit hclaim => exact effects_claimCheapSources json hclaim
  | releaseClaims kind sources => exact effects_releaseClaims kind sources c
  | storeFact message => exact effects_storeFact message c
  | openCatalog loudness segments => exact effects_openCatalog loudness segments c

theorem Effects.header {c c' : Catalog} (h : Effects c c') : c'.header = c.header := by
  induction h with
  | refl => rfl
  | tail _ heffect ih => rw [heffect.header, ih]

/-- The states of a catalogue created with an ID, an epoch and a media type. -/
inductive Reachable : Catalog → Prop
  | insert (id epoch : Text) (mediaType : MediaType) (analyzer : Kind → Option Text) :
      Reachable (insertCollection id epoch mediaType analyzer)
  | step {c c' : Catalog} (h : Reachable c) (hstep : Step json c c') : Reachable c'

/-- What effects keep is kept by operations. -/
theorem Effects.keep {P : Catalog → Prop} (hP : ∀ c c', P c → Effect c c' → P c') {c c' : Catalog}
    (h : Effects c c') (hc : P c) : P c' := by
  induction h with
  | refl => exact hc
  | tail _ heffect ih => exact hP _ _ ih heffect

/-- What holds of an empty catalogue and is kept by effects holds in every
    reachable state. -/
theorem Reachable.invariant {P : Catalog → Prop}
    (hinsert : ∀ id epoch mediaType analyzer, P (insertCollection id epoch mediaType analyzer))
    (hP : ∀ c c', P c → Effect c c' → P c') {c : Catalog} (h : Reachable json c) : P c := by
  induction h with
  | insert => exact hinsert _ _ _ _
  | step _ hstep ih => exact (hstep.effects json).keep hP ih

end Kahawai.Mediahost.Catalog
