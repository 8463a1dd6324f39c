import Mathlib.Data.List.Perm.Subperm
import Kahawai.Mediahost.Catalog.Revision

/-!
# Claims and workers

The catalogue together with the workers that compute derived facts. A `Ticket`
is a claim that a worker was given and has not ended; it remembers the bytes of
the source when the claim was taken. `origin` remembers the bytes that the live
derived record of a key was computed from. Tickets and origins are no part of
the program: they say what a worker knows.

A worker ends a claim with a result, which `store_fact` gets, or by giving it
back, which calls `release_claims` (`retry_local_claim` in
`crates/kahawai-mediahost/src/hasher.rs`, and the batches that
`crates/kahawai-mediahost/src/lib.rs` could not hand to a worker). `Step late`
is the system in which, if `late`, the result of a claim that was released may
still be delivered.

Main results:

* `facts_attached`: a live derived record was computed from the bytes that its
  source has now, provided that no result is delivered after a release; and a
  metadata-only update makes no result stale.
* `late_result`: without the proviso, it need not be.
-/

namespace Kahawai.Mediahost.Catalog

open Kahawai.Core Kahawai.Lib Kahawai.Proto

variable (json : StreamsJson)

/-! ## Messages -/

/-- What a message does about one claim. -/
inductive Delivery
  | result (fact : Fact)
  | retry (kind : Kind) (source : SourceKey)

/-- The key of the claim. -/
def Delivery.key : Delivery → RecordKey
  | .result fact => (fact.kind, fact.source)
  | .retry kind source => (kind, source)

/-- What `store_fact` does about one claim. -/
def perform (c : Catalog) : Delivery → Catalog
  | .result fact => (c.storeOne fact).2
  | .retry kind source => c.releaseClaims kind [source]

/-- What a message is about. -/
def deliveries (collection : Text) : Payload → List Delivery
  | .fileHashes of hashes =>
    if of = collection then hashes.map fun hash => .result (hashFact of hash) else []
  | .fileLoudness value =>
    if value.collection = collection then [.result (loudnessFact value)] else []
  | .fileAttachments value =>
    if value.collection = collection then
      [.result (measureFact .fileAttachments isDerived_fileAttachments .fileAttachments value)]
    else []
  | .fileKeyframe value =>
    if value.collection = collection then
      [.result (measureFact .fileKeyframe isDerived_fileKeyframe .fileKeyframe value)]
    else []
  | .fileGeometry value =>
    if value.collection = collection then
      [.result (measureFact .fileGeometry isDerived_fileGeometry .fileGeometry value)]
    else []
  | .fileSegments value =>
    if value.collection = collection then
      value.episodes.map fun episode =>
        if episode.retryable then .retry .fileSegments episode.source
        else .result (segmentFact value episode)
    else []
  | _ => []

theorem storeHashes_eq (collection : Text) (hashes : List FileHash)
    (failure : Except StaleFact Unit) (c : Catalog) :
    (c.storeHashes collection hashes failure).2 =
      (hashes.map fun hash => Delivery.result (hashFact collection hash)).foldl perform c := by
  induction hashes generalizing failure c with
  | nil => rfl
  | cons hash rest ih =>
    rw [storeHashes, List.map_cons, List.foldl_cons]
    exact ih _ _

theorem storeEpisodes_eq (value : SegmentDetectionResult) (episodes : List SegmentEpisodeResult)
    (c : Catalog) :
    c.storeEpisodes value episodes =
      (episodes.map fun episode =>
        if episode.retryable then Delivery.retry .fileSegments episode.source
        else .result (segmentFact value episode)).foldl perform c := by
  induction episodes generalizing c with
  | nil => rfl
  | cons episode rest ih =>
    rw [storeEpisodes, List.map_cons, List.foldl_cons]
    split_ifs
    · exact ih _
    · exact ih _

/-- `store_fact` deals with the claims of a message one after another. -/
theorem storeFact_eq (message : Payload) (c : Catalog) :
    (c.storeFact message).2 = (deliveries c.id message).foldl perform c := by
  have hsingle : ∀ (collection : Text) (fact : Fact),
      (c.storeSingle collection fact).2 =
        (if collection = c.id then [Delivery.result fact] else []).foldl perform c := by
    intro collection fact
    unfold storeSingle
    split_ifs <;> rfl
  cases message with
  | fileHashes collection hashes =>
    unfold storeFact deliveries
    dsimp only
    split_ifs
    · exact storeHashes_eq collection hashes _ c
    · rfl
  | fileSegments value =>
    unfold storeFact deliveries
    dsimp only
    split_ifs
    · exact storeEpisodes_eq value value.episodes c
    · rfl
  | fileLoudness value => exact hsingle _ _
  | fileAttachments value => exact hsingle _ _
  | fileKeyframe value => exact hsingle _ _
  | fileGeometry value => exact hsingle _ _
  | fileUpsert collection files => rfl
  | fileError value => rfl

/-! ## The system -/

/-- A claim that a worker was given, with the bytes of its source then. -/
structure Ticket where
  kind : Kind
  source : SourceKey
  identity : Identity
  deriving DecidableEq

/-- The key of the claim. -/
def Ticket.key (t : Ticket) : RecordKey := (t.kind, t.source)

/-- The catalogue and its workers. -/
structure System where
  catalog : Catalog
  tickets : List Ticket
  origin : RecordKey → Option Identity

/-- The tickets for sources that were claimed. -/
def issued (kind : Kind) (sources : List SourceKey) (c : Catalog) : List Ticket :=
  sources.filterMap fun source => (c.current? source).map fun row => ⟨kind, source, row.identity⟩

namespace System

/-- A worker ends the claim of a ticket. -/
def settle (s : System) (answer : Delivery × Ticket) : System where
  catalog := s.catalog.perform answer.1
  tickets := s.tickets.erase answer.2
  origin :=
    match answer.1 with
    | .result fact =>
      if (s.catalog.storeOne fact).1.isOk then
        Function.update s.origin (fact.kind, fact.source) (some answer.2.identity)
      else s.origin
    | .retry _ _ => s.origin

/-- A step of the catalogue or of a worker. -/
inductive Step (late : Bool) : System → System → Prop
  | scan (s : System) {c' : Catalog} (h : ScanStep json s.catalog c') :
      Step late s { s with catalog := c' }
  | claimSources (s : System) (kind : Kind) (limit : ℕ) {claimed : List SourceKey × Catalog}
      (h : s.catalog.claimSources json kind limit = claimed) :
      Step late s ⟨claimed.2, s.tickets ++ s.catalog.issued kind claimed.1, s.origin⟩
  | claimCheapSources (s : System) (kind : Kind) (limit : ℕ) {claimed : List SourceKey × Catalog}
      (h : s.catalog.claimCheapSources json kind limit = some claimed) :
      Step late s ⟨claimed.2, s.tickets ++ s.catalog.issued kind claimed.1, s.origin⟩
  | release (s : System) (kind : Kind) (ts : List Ticket) (hts : ts.Subperm s.tickets)
      (hkind : ∀ t ∈ ts, t.kind = kind) :
      Step late s
        ⟨s.catalog.releaseClaims kind (ts.map Ticket.source),
          if late then s.tickets else s.tickets.diff ts, s.origin⟩
  /-- The workers of the tickets deliver their results in one message. -/
  | deliver (s : System) (message : Payload) (answers : List (Delivery × Ticket))
      (hmessage : answers.map Prod.fst = deliveries s.catalog.id message)
      (hkeys : ∀ answer ∈ answers, answer.1.key = answer.2.key)
      (htickets : (answers.map Prod.snd).Subperm s.tickets) :
      Step late s (answers.foldl settle s)
  /-- The mediahost restarts, and its workers with it. -/
  | restart (s : System) (loudness : Text) (segments : Option Text) :
      Step late s ⟨s.catalog.openCatalog loudness segments, [], s.origin⟩

/-- The runs from an empty catalogue. -/
inductive Reachable (late : Bool) : System → Prop
  | start (id epoch : Text) (mediaType : MediaType) (analyzer : Kind → Option Text) :
      Reachable late ⟨insertCollection id epoch mediaType analyzer, [], fun _ => none⟩
  | step {s s' : System} (h : Reachable late s) (hstep : Step json late s s') : Reachable late s'

/-- Every live derived record was computed from the bytes that its source has now. -/
def Attached (s : System) : Prop :=
  ∀ kind source, kind.IsDerived → (s.catalog.log.live (kind, source)).isSome →
    ∃ row, s.catalog.current? source = some row ∧ s.origin (kind, source) = some row.identity

/-- The message of a `deliver` step is stored by `store_fact`. -/
theorem catalog_deliver (s : System) {message : Payload} {answers : List (Delivery × Ticket)}
    (hmessage : answers.map Prod.fst = deliveries s.catalog.id message) :
    (answers.foldl settle s).catalog = (s.catalog.storeFact message).2 := by
  have hfold : ∀ (answers : List (Delivery × Ticket)) (s : System),
      (answers.foldl settle s).catalog = (answers.map Prod.fst).foldl perform s.catalog := by
    intro answers
    induction answers with
    | nil => exact fun _ => rfl
    | cons answer rest ih => exact fun s => ih (s.settle answer)
  rw [hfold, hmessage, storeFact_eq]

end System

/-! ## What claims and releases do -/

theorem claim?_claimRows_of_not {kind : Kind} {rows : List StoredFile} {key : RecordKey}
    (h : ∀ row ∈ rows, (kind, row.source) ≠ key) (c : Catalog) :
    (c.claimRows kind rows).claim? key = c.claim? key := by
  induction rows generalizing c with
  | nil => rfl
  | cons f rest ih =>
    have hrest := ih (fun row hrow => h row (List.mem_cons_of_mem _ hrow))
      { c with jobs := c.jobs.put ⟨kind, f.source, f.size, f.mtime, f.version, .running⟩ }
    refine hrest.trans ?_
    unfold claim?
    rw [Table.get?_put, if_neg]
    exact h f (List.mem_cons_self ..)

theorem claim?_claimRows {kind : Kind} {rows : List StoredFile}
    (hnodup : (rows.map StoredFile.source).Nodup) {f : StoredFile} (hf : f ∈ rows) (c : Catalog) :
    (c.claimRows kind rows).claim? (kind, f.source) =
      some ⟨kind, f.source, f.size, f.mtime, f.version, .running⟩ := by
  induction rows generalizing c with
  | nil => cases hf
  | cons g rest ih =>
    rw [List.map_cons, List.nodup_cons] at hnodup
    rcases List.mem_cons.mp hf with rfl | hf
    · have hother : ∀ row ∈ rest, (kind, row.source) ≠ (kind, f.source) := fun row hrow heq =>
        hnodup.1 (List.mem_map.mpr ⟨row, hrow, (Prod.mk.inj heq).2⟩)
      have hrest := claim?_claimRows_of_not hother
        { c with jobs := c.jobs.put ⟨kind, f.source, f.size, f.mtime, f.version, .running⟩ }
      refine hrest.trans ?_
      unfold claim?
      rw [Table.get?_put]
      exact congrArg (Option.filter _) (if_pos rfl)
    · exact ih hnodup.2 hf _

/-- Claiming changes nothing but the jobs. -/
theorem claimRows_frame (kind : Kind) (rows : List StoredFile) (c : Catalog) :
    c.claimRows kind rows = { c with jobs := (c.claimRows kind rows).jobs } := by
  induction rows generalizing c with
  | nil => rfl
  | cons f rest ih => exact ih _

/-- What `claim_sources` and `claim_cheap_sources` do: they claim current revisions
    that nobody has claimed. -/
structure Claimed (c : Catalog) (kind : Kind) (claimed : List SourceKey × Catalog)
    (rows : List StoredFile) : Prop where
  eq : claimed = (rows.map StoredFile.source, c.claimRows kind rows)
  nodup : (rows.map StoredFile.source).Nodup
  current : ∀ row ∈ rows, c.current? row.source = some row
  free : ∀ row ∈ rows, c.claim? (kind, row.source) = none

theorem claimWhere_spec (wanted : StoredFile → Bool) (kind : Kind) (limit : ℕ) (c : Catalog) :
    ∃ rows, Claimed c kind (c.claimWhere wanted kind limit) rows := by
  unfold claimWhere
  dsimp only
  split_ifs
  · exact ⟨[], rfl, List.nodup_nil, fun row hrow => absurd hrow (List.not_mem_nil),
      fun row hrow => absurd hrow (List.not_mem_nil)⟩
  · have hmem : ∀ row ∈ ((c.files.rows.filter fun f =>
        f.error.isEmpty && wanted f && (c.live? (kind, f.source)).isNone &&
          !c.jobs.rows.any fun j =>
            j.kind = kind && j.source = f.source && j.state = .running).insertionSort
              fun a b => claimOrder a b).take (limit - c.jobs.rows.countP fun j =>
                j.kind = kind && j.state = .running),
        row ∈ c.files ∧ row.error = [] ∧ ∀ j ∈ c.jobs, j.key = (kind, row.source) →
          j.state ≠ .running := by
      intro row hrow
      have hsorted := List.mem_of_mem_take hrow
      rw [List.mem_insertionSort, List.mem_filter] at hsorted
      obtain ⟨hfile, hwhere⟩ := hsorted
      simp only [Bool.and_eq_true, List.isEmpty_iff, Bool.not_eq_true', List.any_eq_false,
        decide_eq_true_eq, not_and] at hwhere
      refine ⟨hfile, hwhere.1.1.1, fun j hj hkey => ?_⟩
      obtain ⟨hkind, hsource⟩ := Prod.mk.inj hkey
      exact hwhere.2 j hj ⟨hkind, hsource⟩
    refine ⟨_, rfl, ?_, fun row hrow => ?_, fun row hrow => ?_⟩
    · refine List.Nodup.sublist ((List.take_sublist _ _).map _) ?_
      have hperm := (List.perm_insertionSort (fun a b => claimOrder a b = true)
        (c.files.rows.filter fun f =>
          f.error.isEmpty && wanted f && (c.live? (kind, f.source)).isNone &&
            !c.jobs.rows.any fun j =>
              j.kind = kind && j.source = f.source && j.state = .running)).map StoredFile.source
      exact hperm.nodup_iff.mpr (c.files.nodup.sublist (List.filter_sublist.map _))
    · obtain ⟨hfile, herror, -⟩ := hmem row hrow
      exact current?_of_get? (Table.get?_of_mem hfile) herror
    · obtain ⟨-, -, hfree⟩ := hmem row hrow
      unfold claim?
      rw [Option.filter_eq_none_iff]
      intro j hj
      obtain ⟨hj, hkey⟩ := Table.get?_eq_some.mp hj
      simpa using hfree j hj hkey

theorem claimCheapSources_spec {kind : Kind} {limit : ℕ} {c : Catalog}
    {claimed : List SourceKey × Catalog}
    (h : c.claimCheapSources json kind limit = some claimed) :
    ∃ rows, Claimed c kind claimed rows := by
  rw [claimCheapSources_eq json h]
  exact claimWhere_spec _ kind limit c

theorem claim?_releaseClaims (kind : Kind) (sources : List SourceKey) (c : Catalog)
    (key : RecordKey) :
    (c.releaseClaims kind sources).claim? key =
      if key.1 = kind ∧ key.2 ∈ sources then none else c.claim? key := by
  induction sources generalizing c with
  | nil => simp [releaseClaims]
  | cons source rest ih =>
    have hone : ({ c with
        jobs := c.jobs.filter fun j => !(j.key = (kind, source) && j.state = .running) } :
          Catalog).claim? key = if key = (kind, source) then none else c.claim? key := by
      unfold claim?
      rw [Table.get?_filter]
      cases hjob : c.jobs.get? key with
      | none => simp
      | some j =>
        have hkey := Table.get?_key hjob
        by_cases hsource : key = (kind, source) <;> cases hstate : j.state <;>
          simp [Option.filter, hkey, hsource, hstate]
    refine (ih _).trans ?_
    rw [hone]
    obtain ⟨k, s⟩ := key
    by_cases hrest : k = kind ∧ s ∈ rest
    · simp [hrest]
    · by_cases hsource : (k, s) = (kind, source)
      · simp_all
      · have hnot : ¬ (k = kind ∧ s ∈ source :: rest) := by
          rintro ⟨rfl, hs⟩
          rcases List.mem_cons.mp hs with rfl | hs
          · exact hsource rfl
          · exact hrest ⟨rfl, hs⟩
        rw [if_neg hrest, if_neg hsource, if_neg hnot]

/-- Releasing changes nothing but the jobs. -/
theorem releaseClaims_frame (kind : Kind) (sources : List SourceKey) (c : Catalog) :
    c.releaseClaims kind sources = { c with jobs := (c.releaseClaims kind sources).jobs } := by
  unfold releaseClaims
  induction sources generalizing c with
  | nil => rfl
  | cons source rest ih => exact ih _

/-! ## Invariant -/

namespace System

/-- The invariant of a system in which no result is delivered after a release. -/
structure Tracked (s : System) : Prop where
  sound : Sound s.catalog
  nodup : (s.tickets.map Ticket.key).Nodup
  /-- The claim of a ticket is running; if it names the current revision, that has
      the bytes of the ticket. -/
  claimed : ∀ t ∈ s.tickets, ∃ job, s.catalog.claim? t.key = some job ∧
    ∀ row, s.catalog.current? t.source = some row → sameRevision job row →
      row.identity = t.identity
  attached : s.Attached

theorem Tracked.scan {s : System} (h : Tracked s) {c' : Catalog}
    (hstep : ScanStep json s.catalog c') : Tracked { s with catalog := c' } := by
  obtain ⟨hcarries, hsound⟩ := (hstep.effects json).carries h.sound
  refine ⟨hsound, h.nodup, fun t ht => ?_, fun kind source hkind hlive => ?_⟩
  · obtain ⟨job, hjob, hticket⟩ := h.claimed t ht
    obtain ⟨job', hjob', hcarried⟩ := hcarries.claim t.key job hjob
    refine ⟨job', hjob', fun row' hrow' hsame' => ?_⟩
    obtain ⟨row, hrow, hsame, heq⟩ := hcarried row' hrow' hsame'
    rw [← heq]
    exact hticket row hrow hsame
  · obtain ⟨hlive', heq⟩ := hcarries.fact kind source hkind hlive
    obtain ⟨row, hrow, horigin⟩ := h.attached kind source hkind hlive'
    rw [hrow, Option.map_some, Option.map_eq_some_iff] at heq
    obtain ⟨row', hrow', heq⟩ := heq
    exact ⟨row', hrow', heq ▸ horigin⟩

theorem issued_rows {c : Catalog} {rows : List StoredFile}
    (hcurrent : ∀ row ∈ rows, c.current? row.source = some row) (kind : Kind) :
    c.issued kind (rows.map StoredFile.source) =
      rows.map fun row => ⟨kind, row.source, row.identity⟩ := by
  induction rows with
  | nil => rfl
  | cons f rest ih =>
    have hf := hcurrent f (List.mem_cons_self ..)
    have hrest := ih fun row hrow => hcurrent row (List.mem_cons_of_mem _ hrow)
    unfold issued at hrest ⊢
    rw [List.map_cons, List.filterMap_cons, hf, List.map_cons, ← hrest]
    rfl

theorem Tracked.claim {s : System} (h : Tracked s) {kind : Kind}
    {claimed : List SourceKey × Catalog} {rows : List StoredFile}
    (hclaimed : Claimed s.catalog kind claimed rows) (hsound : Sound claimed.2) :
    Tracked ⟨claimed.2, s.tickets ++ s.catalog.issued kind claimed.1, s.origin⟩ := by
  obtain ⟨rfl, hnodup, hcurrent, hfree⟩ := hclaimed
  have hsame : ∀ source, (s.catalog.claimRows kind rows).current? source =
      s.catalog.current? source := fun source => by
    rw [claimRows_frame]
    rfl
  have hlog : (s.catalog.claimRows kind rows).log = s.catalog.log := by
    rw [claimRows_frame]
    rfl
  dsimp only at hsound ⊢
  rw [issued_rows hcurrent]
  refine ⟨hsound, ?_, fun t ht => ?_, fun k source hk hlive => ?_⟩
  · -- A claim is issued for a key that no ticket has, since the tickets' claims run.
    rw [List.map_append, List.map_map, List.nodup_append']
    refine ⟨h.nodup, ?_, fun key hold hnew => ?_⟩
    · exact List.Nodup.of_map Prod.snd (by rw [List.map_map]; exact hnodup)
    · obtain ⟨t, ht, rfl⟩ := List.mem_map.mp hold
      obtain ⟨row, hrow, hkey⟩ := List.mem_map.mp hnew
      obtain ⟨job, hjob, -⟩ := h.claimed t ht
      have hnone := hfree row hrow
      rw [show (kind, row.source) = t.key from hkey, hjob] at hnone
      cases hnone
  · rcases List.mem_append.mp ht with ht | ht
    · obtain ⟨job, hjob, hticket⟩ := h.claimed t ht
      refine ⟨job, (claim?_claimRows_of_not (fun row hrow hkey => ?_) _).trans hjob, ?_⟩
      · rw [← hkey, hfree row hrow] at hjob
        cases hjob
      · intro row hrow
        exact hticket row ((hsame t.source).symm.trans hrow)
    · obtain ⟨f, hf, rfl⟩ := List.mem_map.mp ht
      refine ⟨_, claim?_claimRows hnodup hf _, fun row hrow _ => ?_⟩
      have hrow' := (hsame f.source).symm.trans hrow
      rw [hcurrent f hf, Option.some.injEq] at hrow'
      rw [hrow']
  · rw [hlog] at hlive
    obtain ⟨row, hrow, horigin⟩ := h.attached k source hk hlive
    exact ⟨row, (hsame source).trans hrow, horigin⟩

/-- Tickets that are not given up keep their claims. -/
theorem Tracked.release {s : System} (h : Tracked s) {kind : Kind} {ts : List Ticket}
    (hts : ts.Subperm s.tickets) (hkind : ∀ t ∈ ts, t.kind = kind) :
    Tracked ⟨s.catalog.releaseClaims kind (ts.map Ticket.source), s.tickets.diff ts, s.origin⟩ := by
  have hdistinct : s.tickets.Nodup := List.Nodup.of_map _ h.nodup
  have hsame : ∀ source, (s.catalog.releaseClaims kind (ts.map Ticket.source)).current? source =
      s.catalog.current? source := fun source => by
    rw [releaseClaims_frame]
    rfl
  have hlog : (s.catalog.releaseClaims kind (ts.map Ticket.source)).log = s.catalog.log := by
    rw [releaseClaims_frame]
    rfl
  refine ⟨(effects_releaseClaims kind _ s.catalog).keep (fun _ _ hc heffect => heffect.sound hc)
    h.sound, ?_, fun t ht => ?_, fun k source hk hlive => ?_⟩
  · exact h.nodup.sublist ((List.diff_sublist _ _).map _)
  · rw [hdistinct.mem_sdiff_iff] at ht
    obtain ⟨job, hjob, hticket⟩ := h.claimed t ht.1
    refine ⟨job, ?_, fun row hrow => hticket row ((hsame t.source).symm.trans hrow)⟩
    rw [claim?_releaseClaims, if_neg]
    · exact hjob
    · rintro ⟨hk, hsource⟩
      obtain ⟨t', ht', hsource'⟩ := List.mem_map.mp hsource
      have hkey : t'.key = t.key := Prod.ext ((hkind t' ht').trans hk.symm) hsource'
      have heq : t' = t := List.inj_on_of_nodup_map h.nodup (hts.subset ht') ht.1 hkey
      exact ht.2 (heq ▸ ht')
  · rw [hlog] at hlive
    obtain ⟨row, hrow, horigin⟩ := h.attached k source hk hlive
    exact ⟨row, (hsame source).trans hrow, horigin⟩

/-- Other tickets than the one that is answered have other keys. -/
theorem Tracked.key_ne {s : System} (h : Tracked s) {t t' : Ticket} (ht : t ∈ s.tickets)
    (ht' : t' ∈ s.tickets.erase t) : t' ∈ s.tickets ∧ t'.key ≠ t.key := by
  have hdistinct : s.tickets.Nodup := List.Nodup.of_map _ h.nodup
  rw [hdistinct.mem_erase_iff] at ht'
  exact ⟨ht'.2, fun hkey => ht'.1 (List.inj_on_of_nodup_map h.nodup ht'.2 ht hkey)⟩

/-- The claim of a result is gone, whether the result is stored or stale. -/
theorem claim?_stores {fact : Fact} {c c' : Catalog} {ok : Bool} (h : Stores fact c ok c')
    {key : RecordKey} (hkey : key ≠ (fact.kind, fact.source)) : c'.claim? key = c.claim? key := by
  have herase : ({ c with jobs := c.jobs.erase (fact.kind, fact.source) } : Catalog).claim? key =
      c.claim? key := by
    unfold claim?
    rw [Table.get?_erase, if_neg hkey.symm]
  cases h with
  | stale => exact herase
  | stored => exact (claim?_written _ _ _ key).trans herase

theorem current?_stores {fact : Fact} {c c' : Catalog} {ok : Bool} (h : Stores fact c ok c')
    (source : SourceKey) : c'.current? source = c.current? source := by
  cases h with
  | stale => rfl
  | stored => exact current?_written _ _ _ source

/-- A fact that is stored replaces the record of its key only. -/
theorem log_stores {fact : Fact} {c c' : Catalog} {ok : Bool} (h : Stores fact c ok c')
    {key : RecordKey} (hkey : key ≠ (fact.kind, fact.source)) : c'.log key = c.log key := by
  obtain ⟨kind, source⟩ := key
  cases h with
  | stale => rfl
  | stored =>
    by_cases hsource : source = fact.source
    · subst hsource
      rw [log_written, applyWrites, applyWrites, Function.update_of_ne]
      · rfl
      · exact fun hkind => hkey (by rw [hkind])
    · exact log_written_of_ne hsource _ _ kind

theorem Tracked.result {s : System} (h : Tracked s) {fact : Fact} {t : Ticket}
    (hkey : (fact.kind, fact.source) = t.key) (ht : t ∈ s.tickets) :
    Tracked (s.settle (.result fact, t)) := by
  have hstores := storeOne_spec fact s.catalog
  refine ⟨(effects_storeOne fact s.catalog).keep (fun _ _ hc heffect => heffect.sound hc) h.sound,
    h.nodup.sublist (List.erase_sublist.map _), fun t' ht' => ?_,
    fun kind source hkind hlive => ?_⟩
  · obtain ⟨hmem, hne⟩ := h.key_ne ht ht'
    obtain ⟨job, hjob, hticket⟩ := h.claimed t' hmem
    refine ⟨job, ?_, fun row hrow => hticket row ?_⟩
    · rw [← hjob]
      exact claim?_stores hstores (hkey ▸ hne)
    · rw [← hrow]
      exact (current?_stores hstores _).symm
  · have hcurrent : ∀ row, s.catalog.current? source = some row →
        (s.settle (.result fact, t)).catalog.current? source = some row := fun row hrow =>
      (current?_stores hstores source).trans hrow
    by_cases hother : (kind, source) = (fact.kind, fact.source)
    · obtain ⟨hk, hs⟩ := Prod.mk.inj hother
      subst hk hs
      -- The claim of the ticket is running, so the result is judged by it.
      obtain ⟨job, hjob, hticket⟩ := h.claimed t ht
      cases hok : (s.catalog.storeOne fact).1.isOk with
      | true =>
        rw [hok] at hstores
        have hstored := hstores
        generalize (s.catalog.storeOne fact).2 = c' at hstored
        cases hstored with
        | stored claim current hclaim hrow hsame =>
          rw [hkey, hjob, Option.some.injEq] at hclaim
          subst hclaim
          have hsource : fact.source = t.source := (Prod.mk.inj hkey).2
          refine ⟨current, hcurrent current hrow, ?_⟩
          have horigin : (s.settle (.result fact, t)).origin (fact.kind, fact.source) =
              some t.identity := by
            unfold settle
            dsimp only
            rw [if_pos hok, Function.update_self]
          rw [horigin, hticket current (hsource ▸ hrow) hsame]
      | false =>
        rw [hok] at hstores
        have hlog : (s.settle (.result fact, t)).catalog.log = s.catalog.log := by
          show (s.catalog.storeOne fact).2.log = s.catalog.log
          generalize (s.catalog.storeOne fact).2 = c' at hstores ⊢
          cases hstores with
          | stale => rfl
        rw [hlog] at hlive
        obtain ⟨row, hrow, horigin⟩ := h.attached _ _ hkind hlive
        refine ⟨row, hcurrent row hrow, ?_⟩
        rw [← horigin]
        unfold settle
        dsimp only
        rw [if_neg (by rw [hok]; decide)]
    · have hlive' : (s.catalog.log.live (kind, source)).isSome := by
        unfold Log.live at hlive ⊢
        rwa [← log_stores hstores hother]
      obtain ⟨row, hrow, horigin⟩ := h.attached kind source hkind hlive'
      refine ⟨row, hcurrent row hrow, ?_⟩
      rw [← horigin]
      unfold settle
      dsimp only
      split_ifs
      · exact Function.update_of_ne hother _ _
      · rfl

theorem Tracked.settle {s : System} (h : Tracked s) {answer : Delivery × Ticket}
    (hkey : answer.1.key = answer.2.key) (ht : answer.2 ∈ s.tickets) :
    Tracked (s.settle answer) := by
  obtain ⟨delivery, t⟩ := answer
  cases delivery with
  | result fact => exact h.result hkey ht
  | retry kind source =>
    obtain ⟨hkind, hsource⟩ := Prod.mk.inj hkey
    have hts : [t].Subperm s.tickets := List.singleton_subperm_iff.mpr ht
    have hkinds : ∀ t' ∈ [t], t'.kind = kind := fun t' ht' => by
      rw [List.mem_singleton.mp ht']
      exact hkind.symm
    have hrelease := h.release hts hkinds
    rw [List.map_singleton, ← hsource, List.diff_cons, List.diff_nil] at hrelease
    exact hrelease

theorem Tracked.deliver {s : System} (h : Tracked s) {answers : List (Delivery × Ticket)}
    (hkeys : ∀ answer ∈ answers, answer.1.key = answer.2.key)
    (htickets : (answers.map Prod.snd).Subperm s.tickets) :
    Tracked (answers.foldl System.settle s) := by
  induction answers generalizing s with
  | nil => exact h
  | cons answer rest ih =>
    have ht : answer.2 ∈ s.tickets := htickets.subset (List.mem_cons_self ..)
    refine ih (h.settle (hkeys answer (List.mem_cons_self ..)) ht)
      (fun a ha => hkeys a (List.mem_cons_of_mem _ ha)) ?_
    have hrest := htickets.erase answer.2
    rwa [List.map_cons, List.erase_cons_head] at hrest

end System

/-! ## Restarts -/

/-- No record comes to life, and `catalog_files` stays as it is. -/
structure Shrinks (c c' : Catalog) : Prop where
  files : c'.files = c.files
  live : ∀ key, (c'.log.live key).isSome → (c.log.live key).isSome

theorem Shrinks.trans {c d e : Catalog} (h : Shrinks c d) (h' : Shrinks d e) : Shrinks c e :=
  ⟨h'.files.trans h.files, fun key hlive => h.live key (h'.live key hlive)⟩

theorem shrinks_of_eq {c c' : Catalog} (hfiles : c'.files = c.files)
    (hrecords : c'.records = c.records) : Shrinks c c' := by
  refine ⟨hfiles, fun key hlive => ?_⟩
  have hlog : c'.log = c.log := by
    unfold log
    rw [hrecords]
  rwa [← hlog]

theorem shrinks_tombstone (kind : Kind) (source : SourceKey) (version : ℕ) (c : Catalog) :
    Shrinks c (c.putRecord kind source version none) := by
  refine ⟨rfl, fun key hlive => ?_⟩
  unfold Log.live at hlive ⊢
  rw [log_putRecord] at hlive
  split_ifs at hlive with hkey
  · cases hlive
  · exact hlive

theorem shrinks_ensureDiscoveryGeneration (kind : Kind) (generation : Text) (c : Catalog) :
    Shrinks c (c.ensureDiscoveryGeneration kind generation) := by
  have hfold : ∀ (records : List CatalogRecord) (c : Catalog),
      Shrinks c (records.foldl (fun c r =>
        c.nextVersion.2.putRecord kind r.source c.nextVersion.1 none) c) := by
    intro records
    induction records with
    | nil => exact fun c => shrinks_of_eq rfl rfl
    | cons r rest ih =>
      intro c
      refine Shrinks.trans ?_ (ih _)
      have hversion : Shrinks c c.nextVersion.2 := shrinks_of_eq rfl rfl
      exact hversion.trans (shrinks_tombstone kind r.source _ c.nextVersion.2)
  unfold ensureDiscoveryGeneration
  split_ifs
  · exact shrinks_of_eq rfl rfl
  · exact (hfold _ c).trans (shrinks_of_eq rfl rfl)

theorem shrinks_openCatalog (loudness : Text) (segments : Option Text) (c : Catalog) :
    Shrinks c (c.openCatalog loudness segments) := by
  have hreset : Shrinks c c.resetJobs := shrinks_of_eq rfl rfl
  have hloudness : Shrinks c (c.resetJobs.ensureDiscoveryGeneration .fileLoudness loudness) :=
    hreset.trans (shrinks_ensureDiscoveryGeneration _ loudness c.resetJobs)
  unfold openCatalog
  cases segments with
  | none => exact hloudness.trans (shrinks_of_eq rfl rfl)
  | some generation =>
    exact (hloudness.trans (shrinks_ensureDiscoveryGeneration _ generation _)).trans
      (shrinks_of_eq rfl rfl)

/-! ## Runs -/

namespace System

theorem Tracked.step {s s' : System} (h : Tracked s) (hstep : Step json false s s') :
    Tracked s' := by
  cases hstep with
  | scan hscan => exact h.scan json hscan
  | claimSources kind limit hclaim =>
    subst hclaim
    obtain ⟨rows, hrows⟩ := claimWhere_spec
      (fun f => kind ≠ .fileLoudness || json.audioTracks f.streams > 0) kind limit s.catalog
    exact h.claim hrows ((Catalog.Step.claimSources s.catalog kind limit).sound json h.sound)
  | claimCheapSources kind limit hclaim =>
    obtain ⟨rows, hrows⟩ := claimCheapSources_spec json hclaim
    exact h.claim hrows
      ((Catalog.Step.claimCheapSources s.catalog kind limit hclaim).sound json h.sound)
  | release kind ts hts hkind => exact h.release hts hkind
  | deliver message answers hmessage hkeys htickets => exact h.deliver hkeys htickets
  | restart loudness segments =>
    have hshrinks := shrinks_openCatalog loudness segments s.catalog
    refine ⟨(Catalog.Step.openCatalog s.catalog loudness segments).sound json h.sound,
      List.nodup_nil, fun t ht => absurd ht List.not_mem_nil, fun kind source hkind hlive => ?_⟩
    obtain ⟨row, hrow, horigin⟩ := h.attached kind source hkind (hshrinks.live _ hlive)
    refine ⟨row, ?_, horigin⟩
    rw [← hrow]
    unfold current?
    exact congrArg (fun files => (Table.get? files source).filter _) hshrinks.files

theorem Reachable.tracked {s : System} (h : Reachable json false s) : Tracked s := by
  induction h with
  | start id epoch mediaType analyzer =>
    exact ⟨sound_insert id epoch mediaType analyzer, List.nodup_nil,
      fun t ht => absurd ht List.not_mem_nil, fun kind source _ hlive => by cases hlive⟩
  | step _ hstep ih => exact ih.step json hstep

/-- What workers may rely on: derived records are attached to the bytes they were
    computed from, and a metadata-only update makes no result stale. -/
structure Faithful (s : System) : Prop where
  attached : s.Attached
  metadataOnly : ∀ (file : FileRecord) (stored : StoredFile),
    s.catalog.current? file.source = some stored → stored.sameBytes file →
    ∀ (generation musicTagGeneration : ℕ) (probed : Bool) (fact : Fact),
      (s.catalog.storeOne fact).1.isOk →
      ((s.catalog.upsertFile file generation musicTagGeneration probed).2.storeOne fact).1.isOk

/-- If no result is delivered after a release, derived records stay attached to
    the bytes they were computed from. -/
theorem facts_attached {s : System} (h : Reachable json false s) : Faithful s :=
  ⟨(h.tracked json).attached, fun _ _ hstored hbytes generation musicTagGeneration probed _ hok =>
    storeOne_upsertFile (h.tracked json).sound.stamped hstored hbytes generation musicTagGeneration
      probed hok⟩

/-! ## A result after a release -/

/-- A film. -/
def original : FileRecord := ⟨⟨lit "root", lit "Film.mkv"⟩, 9, 1, 2, 3, 4, lit "\x7b\x7d"⟩

/-- Another film of the same size and time in its place. -/
def replacement : FileRecord := { original with headXxh3 := 7 }

/-- A scan finds a file. -/
def finds (file : FileRecord) (s : System) : System :=
  { s with catalog := (s.catalog.upsertFile file 1 0 true).2 }

/-- A worker claims a file that has no hashes. -/
def claims (s : System) : System :=
  let claimed := s.catalog.claimSources emptyObject .fileHashes 1
  ⟨claimed.2, s.tickets ++ s.catalog.issued .fileHashes claimed.1, s.origin⟩

/-- The ticket for the first film. -/
def firstTicket : Ticket := ⟨.fileHashes, original.source, ⟨9, 1, 2, 3, 4⟩⟩

/-- The first claim is released, but its worker goes on. -/
def releases (s : System) : System :=
  ⟨s.catalog.releaseClaims .fileHashes [original.source], s.tickets, s.origin⟩

/-- The hashes of the first film. -/
def firstHash : FileHash := ⟨original.source, 9, [], lit "hashes of the first film"⟩

/-- The worker of the first claim delivers. -/
def delivers (s : System) : System :=
  s.settle (.result (hashFact (lit "movies") firstHash), firstTicket)

/-- The collection before the first scan. -/
def unscanned : System :=
  ⟨insertCollection (lit "movies") (lit "epoch") .movies fun _ => none, [], fun _ => none⟩

theorem step_finds (late : Bool) (file : FileRecord) (s : System) :
    Step emptyObject late s (s.finds file) :=
  .scan s (.upsertFile s.catalog file 1 0 true)

theorem step_claims (late : Bool) (s : System) : Step emptyObject late s s.claims :=
  .claimSources s .fileHashes 1 rfl

theorem step_delivers (late : Bool) {s : System} (hid : s.catalog.id = lit "movies")
    (ht : firstTicket ∈ s.tickets) : Step emptyObject late s s.delivers := by
  refine .deliver s (.fileHashes (lit "movies") [firstHash])
    [(.result (hashFact (lit "movies") firstHash), firstTicket)] ?_ (fun answer hanswer => ?_)
    (List.singleton_subperm_iff.mpr ht)
  · rw [hid]
    rfl
  · rw [List.mem_singleton.mp hanswer]
    rfl

theorem reachable_unscanned (late : Bool) : Reachable emptyObject late unscanned :=
  .start (lit "movies") (lit "epoch") .movies fun _ => none

/-- The first film is found, claimed and hashed. -/
theorem facts_attached_film : Faithful ((unscanned.finds original).claims).delivers :=
  facts_attached emptyObject
    (.step (.step (.step (reachable_unscanned false) (step_finds false original _))
      (step_claims false _)) (step_delivers false rfl (by decide)))

/-- The hashes of the first film are stored for the second, since both claims name
    a size and a time that the films share, and the second claim names the current
    version. -/
theorem late_result : ¬ ∀ s, Reachable emptyObject true s → Faithful s := by
  intro h
  have hrun : Reachable emptyObject true
      ((((unscanned.finds original).claims).releases).finds replacement).claims.delivers := by
    refine .step (.step (.step (.step (.step (.step (reachable_unscanned true)
      (step_finds true original _)) (step_claims true _)) ?_) (step_finds true replacement _))
        (step_claims true _)) (step_delivers true rfl (by decide))
    exact .release _ .fileHashes [firstTicket] (List.singleton_subperm_iff.mpr (by decide))
      fun t ht => by rw [List.mem_singleton.mp ht]; rfl
  obtain ⟨row, hrow, horigin⟩ := (h _ hrun).attached .fileHashes original.source (by decide)
    (by decide)
  have hdifferent :
      (((((unscanned.finds original).claims).releases).finds replacement).claims.delivers).origin
        (.fileHashes, original.source) ≠
      ((((((unscanned.finds original).claims).releases).finds
        replacement).claims.delivers).catalog.current? original.source).map
          StoredFile.identity := by
    decide
  rw [horigin, hrow] at hdifferent
  exact hdifferent rfl

end System

end Kahawai.Mediahost.Catalog
