import Mathlib.Data.Finset.Dedup
import Mathlib.Data.Finset.Insert
import Kahawai.MediaDb.Enrichment.Changes
import Kahawai.MediaDb.Enrichment.Requests

/-!
# What a search does to confidence

`offer_candidates` stores what a person searched for. A new candidate gets the
strength 0, so that the automatic choice leaves it alone; but the upsert of a row
that is there writes its revision and keeps its strength. If the row was confident
at an earlier revision, it is confident at the present one after the search.

`Offering` says what a search does to the candidates, and `Earned` is what the
automatic choice relies on: the strength of an eligible candidate is from a claim
at the item's revision.

Main result:

* `search_revives_iff`: a search leaves the eligible records of the item as they
  are if and only if no offered record has a confident candidate of another
  revision that is not rejected. In every run of such searches each eligible
  candidate has its strength from a claim at the item's revision.
-/

namespace Kahawai.MediaDb.Enrichment

open Kahawai.Core Kahawai.Lib Kahawai.Proto

variable {setup : Setup} {db db' d d' : Db} {item : Item} {offered : List EnrichmentCandidate}
  {decided : Id → Prop}

/-! ## Searches -/

/-- The record is one of those offered. -/
def Db.offers (db : Db) (offered : List EnrichmentCandidate) (record : Id) : Bool :=
  (db.keyOf record).any fun k => offered.any fun c => c.record.key = k

/-- The search offers a record that was confident for the item at another revision
    and is not rejected. -/
def Db.revives (db : Db) (item : Item) (offered : List EnrichmentCandidate) : Bool :=
  db.candidates.rows.any fun c =>
    c.item = item.id && c.revision ≠ item.enrichmentRevision && 10 ≤ c.strength &&
      !db.rejected c.item c.record && db.offers offered c.record

/-- The records that the automatic choice may assign to the item. -/
def Db.eligibleRecords (db : Db) (item : Item) : Finset Id :=
  ((db.eligible item).map Candidate.record).toFinset

/-- What a search did to the candidates, as far as it went. -/
structure Offering (db : Db) (item : Item) (offered : List EnrichmentCandidate) (d : Db) :
    Prop where
  items : d.items = db.items
  rejections : d.rejections = db.rejections
  assignments : d.assignments = db.assignments
  keys : ∀ record k, db.keyOf record = some k → d.keyOf record = some k
  old : ∀ c ∈ db.candidates, d.candidates.get? c.key =
    some (if c.item = item.id ∧ db.offers offered c.record = true then
      { c with revision := item.enrichmentRevision } else c)
  new : ∀ c ∈ d.candidates, db.candidates.get? c.key = none → c.strength = 0

theorem Offering.start : Offering db item [] db := by
  refine ⟨rfl, rfl, rfl, fun _ _ hk => hk, fun c hc => ?_, fun c hc hnone => ?_⟩
  · rw [if_neg fun h => ?_]
    · exact Table.get?_of_mem hc
    · have hoffers := h.2
      unfold Db.offers at hoffers
      simp at hoffers
  · rw [Table.get?_of_mem hc] at hnone
    cases hnone

theorem offers_append (c : EnrichmentCandidate) (record : Id) :
    db.offers (offered ++ [c]) record =
      (db.offers offered record || decide (db.keyOf record = some c.record.key)) := by
  unfold Db.offers
  cases db.keyOf record with
  | none => rfl
  | some k => simp [eq_comm]

/-- The fields that notes leave alone. -/
theorem Notes.same (h : Notes db db') : db'.items = db.items ∧ db'.rejections = db.rejections ∧
    db'.candidates = db.candidates ∧ db'.assignments = db.assignments ∧
    ∀ record k, db.keyOf record = some k → db'.keyOf record = some k := by
  refine h.invariant (I := fun d => d.items = db.items ∧ d.rejections = db.rejections ∧
    d.candidates = db.candidates ∧ d.assignments = db.assignments ∧
    ∀ record k, db.keyOf record = some k → d.keyOf record = some k)
    ⟨rfl, rfl, rfl, rfl, fun _ _ hk => hk⟩ ?_
  rintro a b hnote ⟨hitems, hrejections, hcandidates, hassignments, hkeys⟩
  cases hnote with
  | records hsame hkeys' =>
    exact ⟨hsame.items.trans hitems, hsame.rejections.trans hrejections,
      hsame.candidates.trans hcandidates, hsame.assignments.trans hassignments,
      fun record k hk => hkeys' record k (hkeys record k hk)⟩
  | request p => exact ⟨hitems, hrejections, hcandidates, hassignments, hkeys⟩

theorem Notes.memberships (h : Notes db db') : db'.memberships = db.memberships := by
  refine h.invariant (I := fun d => d.memberships = db.memberships) rfl fun hnote hd => ?_
  cases hnote with
  | records hsame => exact hsame.memberships.trans hd
  | request p => exact hd

/-- The row that a search stores for a record. -/
def Db.offeredRow (db : Db) (id record : Id) (revision : ℕ) : Candidate :=
  match db.candidates.get? (id, record) with
  | none => ⟨id, record, revision, 0, none⟩
  | some c => { c with revision := revision }

theorem key_offeredRow (db : Db) (id record : Id) (revision : ℕ) :
    (db.offeredRow id record revision).key = (id, record) := by
  unfold Db.offeredRow
  cases hrow : db.candidates.get? (id, record) with
  | none => rfl
  | some c =>
    have hkey : c.key = (id, record) := Table.get?_key hrow
    exact hkey

theorem get?_offerCandidate (db : Db) (id record : Id) (revision : ℕ) (k : Id × Id) :
    (db.offerCandidate id record revision).candidates.get? k =
      if (id, record) = k then some (db.offeredRow id record revision)
      else db.candidates.get? k := by
  rw [← key_offeredRow db id record revision]
  exact Table.get?_put _ _ _

theorem offerCandidateRow_cases {id : Id} {revision : ℕ} {kind : MediaType}
    {c : EnrichmentCandidate} (h : offerCandidateRow id revision kind d c = .ok d') :
    ∃ noted record, Notes d noted ∧ noted.keyOf record = some c.record.key ∧
      d' = noted.offerCandidate id record revision := by
  unfold offerCandidateRow at h
  obtain ⟨⟨record, noted⟩, hput, h⟩ := except_bind_eq_ok.mp h
  obtain ⟨-, -, h⟩ := except_bind_eq_ok.mp h
  cases h
  exact ⟨noted, record, (putCandidate_notes hput).1, (putCandidate_notes hput).2, rfl⟩

theorem Dated.offerRow {kind : MediaType} {c : EnrichmentCandidate} (hd : Dated d)
    (hitem : d.items.get? item.id = some item)
    (hrow : offerCandidateRow item.id item.enrichmentRevision kind d c = .ok d') : Dated d' := by
  obtain ⟨noted, record, hnotes, hkey, rfl⟩ := offerCandidateRow_cases hrow
  obtain ⟨hid, hrecord⟩ := Prod.mk.inj (key_offeredRow noted item.id record item.enrichmentRevision)
  have hitem' : noted.items.get? (noted.offeredRow item.id record item.enrichmentRevision).item =
      some item := by
    rw [hid, hnotes.same.1]
    exact hitem
  refine (hd.notes hnotes).store hitem' ?_ (Option.isSome_iff_exists.mpr ⟨_, hrecord ▸ hkey⟩)
  show (noted.offeredRow item.id record item.enrichmentRevision).revision ≤ _
  unfold Db.offeredRow
  split <;> exact le_rfl

theorem Offering.row {kind : MediaType} {c : EnrichmentCandidate} (h : Offering db item offered d)
    (hdb : Dated db) (hd : Dated d)
    (hrow : offerCandidateRow item.id item.enrichmentRevision kind d c = .ok d') :
    Offering db item (offered ++ [c]) d' := by
  obtain ⟨noted, record, hnotes, hkey, rfl⟩ := offerCandidateRow_cases hrow
  obtain ⟨hitems, hrejections, hcandidates, hassignments, hkeys⟩ := hnotes.same
  refine ⟨hitems.trans h.items, hrejections.trans h.rejections, hassignments.trans h.assignments,
    fun r k hk => hkeys r k (h.keys r k hk), fun c' hc' => ?_, fun c' hc' hnone => ?_⟩
  · rw [get?_offerCandidate, offers_append]
    by_cases heq : (item.id, record) = c'.key
    · -- The record that is offered now.
      obtain ⟨hid, hrecord⟩ := Prod.mk.inj heq
      obtain ⟨k, hk⟩ := Option.isSome_iff_exists.mp (hdb.record c' hc')
      have hsame : k = c.record.key := by
        have hk' := hkeys _ _ (h.keys _ _ hk)
        rw [← hrecord, hkey] at hk'
        exact (Option.some.inj hk').symm
      rw [if_pos heq, if_pos ⟨hid.symm, by rw [hk, hsame]; simp⟩]
      unfold Db.offeredRow
      rw [heq, hcandidates, h.old c' hc']
      split_ifs <;> rfl
    · rw [if_neg heq, hcandidates, h.old c' hc']
      refine congrArg some ?_
      have hother : c'.item = item.id → db.keyOf c'.record ≠ some c.record.key := fun hid hk => by
        have hk' := hkeys _ _ (h.keys _ _ hk)
        exact heq (Prod.ext hid.symm ((hd.notes hnotes).distinct _ _ _ hkey hk'))
      by_cases hid : c'.item = item.id
      · simp [hid, hother hid]
      · simp [hid]
  · have hget := Table.get?_of_mem hc'
    rw [get?_offerCandidate] at hget
    split_ifs at hget with heq
    · rw [← Option.some.inj hget]
      unfold Db.offeredRow
      rw [heq, hcandidates]
      cases hold : d.candidates.get? c'.key with
      | none => rfl
      | some c₀ =>
        have hk : c₀.key = c'.key := Table.get?_key hold
        exact h.new c₀ (Table.get?_mem hold) (hk ▸ hnone)
    · rw [hcandidates] at hget
      exact h.new c' (Table.get?_mem hget) hnone

/-- What a search commits. -/
theorem offerCandidates_offering {id : Id} {revision : ℕ} {candidates : List EnrichmentCandidate}
    (hdb : Dated db) (h : offerCandidates setup id revision candidates db = .ok db') :
    ∃ item, db.items.get? id = some item ∧ Offering db item candidates db' ∧ Dated db' := by
  unfold offerCandidates at h
  obtain ⟨item, hitem, h⟩ := except_bind_eq_ok.mp h
  obtain ⟨_, hrevision, h⟩ := except_bind_eq_ok.mp h
  have hsome : db.items.get? id = some item := by
    cases hget : db.items.get? id with
    | none =>
      rw [hget] at hitem
      cases hitem
    | some item' =>
      rw [hget] at hitem
      cases hitem
      rfl
  have hsame : item.enrichmentRevision = revision := by
    unfold checkRevision at hrevision
    by_contra hne
    rw [if_pos hne] at hrevision
    cases hrevision
  obtain rfl : item.id = id := Table.get?_key hsome
  subst hsame
  refine ⟨item, hsome, except_foldlM_prefix (I := fun offered d => Offering db item offered d ∧ Dated d)
    h ⟨Offering.start, hdb⟩ ?_⟩
  rintro offered c d d' ⟨hoffering, hd⟩ hrow
  exact ⟨hoffering.row hdb hd hrow, hd.offerRow (hoffering.items ▸ hsome) hrow⟩

/-! ## Eligible candidates -/

/-- The rows of an item are the same before and after a search that revives none. -/
theorem Offering.eligible_iff (h : Offering db item offered d) {other : Item}
    (hrevives : other.id = item.id → db.revives item offered = false) {c : Candidate} :
    c ∈ d.eligible other ↔ c ∈ db.eligible other := by
  have hrejected : ∀ id r, d.rejected id r = db.rejected id r := fun id r => by
    unfold Db.rejected
    rw [h.rejections]
  have hkept : ∀ c ∈ db.candidates, c.item = other.id → 10 ≤ c.strength →
      db.rejected c.item c.record = false → c.item = item.id →
      db.offers offered c.record = true → c.revision = item.enrichmentRevision := by
    intro c hc hother hstrength hnot hid hoffers
    by_contra hne
    have hnone := hrevives (hother.symm.trans hid)
    unfold Db.revives at hnone
    rw [List.any_eq_false] at hnone
    refine hnone c hc ?_
    simp only [Bool.and_eq_true, decide_eq_true_eq, Bool.not_eq_true']
    exact ⟨⟨⟨⟨hid, hne⟩, hstrength⟩, hnot⟩, hoffers⟩
  rw [mem_eligible, mem_eligible, hrejected]
  constructor
  · rintro ⟨hc, hid, hrevision, hstrength, hnot⟩
    cases hold : db.candidates.get? c.key with
    | none =>
      have hzero := h.new c hc hold
      omega
    | some c₀ =>
      have hc₀ := Table.get?_mem hold
      have hkey : c₀.key = c.key := Table.get?_key hold
      obtain ⟨hid₀, hrecord₀⟩ := Prod.mk.inj hkey
      have hrow := h.old c₀ hc₀
      rw [hkey, Table.get?_of_mem hc] at hrow
      split_ifs at hrow with hoffered
      · have hc' : c = { c₀ with revision := item.enrichmentRevision } := Option.some.inj hrow
        have hsame : c₀.revision = item.enrichmentRevision := by
          refine hkept c₀ hc₀ (hid₀.trans hid) ?_ ?_ hoffered.1 hoffered.2
          · rw [hc'] at hstrength
            exact hstrength
          · rw [hid₀, hrecord₀]
            exact hnot
        have hback : c = c₀ := by
          rw [hc', ← hsame]
        rw [hback] at hid hrevision hstrength hnot ⊢
        exact ⟨hc₀, hid, hrevision, hstrength, hnot⟩
      · rw [Option.some.inj hrow]
        rw [Option.some.inj hrow] at hid hrevision hstrength hnot
        exact ⟨hc₀, hid, hrevision, hstrength, hnot⟩
  · rintro ⟨hc, hid, hrevision, hstrength, hnot⟩
    refine ⟨?_, hid, hrevision, hstrength, hnot⟩
    have hrow := h.old c hc
    have hsame : (if c.item = item.id ∧ db.offers offered c.record = true then
        { c with revision := item.enrichmentRevision } else c) = c := by
      split_ifs with hoffered
      · rw [← hkept c hc hid hstrength hnot hoffered.1 hoffered.2]
      · rfl
    rw [hsame] at hrow
    exact Table.get?_mem hrow

theorem mem_eligibleRecords {record : Id} :
    record ∈ db.eligibleRecords item ↔ ∃ c ∈ db.eligible item, c.record = record := by
  unfold Db.eligibleRecords
  rw [List.mem_toFinset, List.mem_map]

/-- A search leaves the eligible records alone if it revives none, and only then. -/
theorem Offering.eligibleRecords_iff (h : Offering db item offered d) :
    d.eligibleRecords item = db.eligibleRecords item ↔ db.revives item offered = false := by
  constructor
  · intro hsame
    unfold Db.revives
    rw [List.any_eq_false]
    intro c hc hrevived
    simp only [Bool.and_eq_true, decide_eq_true_eq, Bool.not_eq_true'] at hrevived
    obtain ⟨⟨⟨⟨hid, hne⟩, hstrength⟩, hnot⟩, hoffers⟩ := hrevived
    have hrow := h.old c hc
    rw [if_pos ⟨hid, hoffers⟩] at hrow
    have hmem : c.record ∈ d.eligibleRecords item := by
      refine mem_eligibleRecords.mpr ⟨{ c with revision := item.enrichmentRevision }, ?_, rfl⟩
      refine mem_eligible.mpr ⟨Table.get?_mem hrow, hid, rfl, hstrength, ?_⟩
      unfold Db.rejected at hnot ⊢
      rw [h.rejections]
      exact hnot
    rw [hsame] at hmem
    obtain ⟨c', hc', hrecord⟩ := mem_eligibleRecords.mp hmem
    obtain ⟨hc', hid', hrevision, -⟩ := mem_eligible.mp hc'
    have heq : c' = c := Table.eq_of_key_eq hc' hc (Prod.ext (hid'.trans hid.symm) hrecord)
    exact hne (heq ▸ hrevision)
  · intro hrevives
    ext record
    rw [mem_eligibleRecords, mem_eligibleRecords]
    simp only [h.eligible_iff fun _ => hrevives]

/-! ## Strength is earned -/

theorem eligible_congr (hcandidates : db'.candidates = db.candidates)
    (hrejections : db'.rejections = db.rejections) (item : Item) :
    db'.eligible item = db.eligible item := by
  unfold Db.eligible Db.rejected
  rw [hcandidates, hrejections]

/-- A new revision leaves no candidate eligible. -/
theorem Ages.eligible (hages : Ages db db') (hdated : Dated db) {c : Candidate}
    (hitem : item ∈ db'.items) (hc : c ∈ db'.eligible item) :
    item ∈ db.items ∧ c ∈ db.eligible item := by
  obtain ⟨hc, hid, hrevision, hstrength, hnot⟩ := mem_eligible.mp hc
  rw [hages.candidates] at hc
  have hget := Table.get?_of_mem hitem
  rcases hages.items item.id with ⟨hsame, hrejected⟩ | ⟨old, new, hold, hnew, hlt⟩
  · rw [hsame] at hget
    refine ⟨Table.get?_mem hget, mem_eligible.mpr ⟨hc, hid, hrevision, hstrength, ?_⟩⟩
    rw [← hnot, hid, hrejected (by rw [hget]; rfl)]
  · rw [hget] at hnew
    cases hnew
    obtain ⟨old', hold', hle⟩ := hdated.item c hc
    rw [hid, hold] at hold'
    cases hold'
    omega

theorem rejected_removeItem {id id' r : Id} (hne : id' ≠ id) :
    (removeItem id db).rejected id' r = db.rejected id' r := by
  unfold Db.rejected removeItem
  dsimp only
  rw [Table.rows_filter, List.any_filter]
  refine congrArg (List.any _) (funext fun row => ?_)
  by_cases heq : row.item = id'
  · simp [heq, hne]
  · simp [heq]

/-- A candidate is eligible after a statement only if the statement gave it its
    strength, or it was before. -/
theorem Change.eligible (hchange : Change setup decided db db') (hdated : Dated db) {c : Candidate}
    (hitem : item ∈ db'.items) (hc : c ∈ db'.eligible item) :
    c.earned = some item.enrichmentRevision ∨ (item ∈ db.items ∧ c ∈ db.eligible item) := by
  cases hchange with
  | edit hedit =>
    cases hedit with
    | note hnote =>
      obtain ⟨hitems, hrejections, hcandidates, -⟩ := hnote.notes.same
      rw [hitems] at hitem
      rw [eligible_congr hcandidates hrejections] at hc
      exact Or.inr ⟨hitem, hc⟩
    | store c' item' hid hrecord hitem' hrevision hearned =>
      obtain ⟨hc, hid', hrevision', hstrength, hnot⟩ := mem_eligible.mp hc
      rcases Table.mem_put.mp hc with rfl | ⟨hc, -⟩
      · exact Or.inl (hrevision' ▸ hearned)
      · exact Or.inr ⟨hitem, mem_eligible.mpr ⟨hc, hid', hrevision', hstrength, hnot⟩⟩
    | unassign => exact Or.inr ((Ages.unassign _).eligible hdated hitem hc)
    | assign => exact Or.inr ((Ages.assign _).eligible hdated hitem hc)
  | work hsame =>
    rw [hsame.items] at hitem
    rw [eligible_congr hsame.candidates hsame.rejections] at hc
    exact Or.inr ⟨hitem, hc⟩
  | bump id => exact Or.inr ((Ages.bump id).eligible hdated hitem hc)
  | decide hid hdecides =>
    obtain ⟨stored, hstored, hages⟩ := hdecides.ages
    obtain ⟨hitem, hc⟩ := hages.eligible (hdated.notes hstored) hitem hc
    obtain ⟨hitems, hrejections, hcandidates, -⟩ := hstored.same
    rw [hitems] at hitem
    rw [eligible_congr hcandidates hrejections] at hc
    exact Or.inr ⟨hitem, hc⟩
  | insert id collection hnew =>
    unfold insertItem at hitem hc
    rw [hnew] at hitem hc
    have hc' : c ∈ db.eligible item := hc
    refine Or.inr ⟨?_, hc'⟩
    rcases Table.mem_put.mp hitem with rfl | ⟨hitem, -⟩
    · -- No candidate is of the new item yet.
      obtain ⟨hc, hid, -⟩ := mem_eligible.mp hc'
      obtain ⟨old, hold, -⟩ := hdated.item c hc
      rw [hid, show db.items.get? _ = none from hnew] at hold
      cases hold
    · exact hitem
  | remove id hid =>
    obtain ⟨hc, hid', hrevision, hstrength, hnot⟩ := mem_eligible.mp hc
    obtain ⟨hc, hne⟩ := Table.mem_filter.mp hc
    refine Or.inr ⟨(Table.mem_erase.mp hitem).1,
      mem_eligible.mpr ⟨hc, hid', hrevision, hstrength, ?_⟩⟩
    rw [← hnot, rejected_removeItem (of_decide_eq_true hne)]

/-- The strength of an eligible candidate is from a claim at the item's revision. -/
def Earned (db : Db) : Prop :=
  ∀ item ∈ db.items, ∀ c ∈ db.eligible item, c.earned = some item.enrichmentRevision

theorem Changes.earned (hchanges : Changes setup decided db db') (hdated : Dated db)
    (h : Earned db) : Dated db' ∧ Earned db' := by
  refine hchanges.invariant (I := fun d => Dated d ∧ Earned d) ⟨hdated, h⟩ ?_
  rintro a b hchange ⟨ha, hearned⟩
  refine ⟨ha.change hchange, fun item hitem c hc => ?_⟩
  rcases hchange.eligible ha hitem hc with hdone | ⟨hitem, hc⟩
  · exact hdone
  · exact hearned item hitem c hc

theorem dated_emptyTables (now : ℤ) : Dated (emptyTables now).db :=
  ⟨fun c hc => absurd hc (Table.not_mem_empty c), fun c hc => absurd hc (Table.not_mem_empty c),
    fun _ _ _ hk => by cases hk⟩

/-- A search commits, or it leaves the tables alone. -/
theorem System.next_offer {s s' : System} {id : Id} {revision : ℕ}
    {candidates : List EnrichmentCandidate}
    (h : s.next setup (.offer id revision candidates) = some s') :
    s'.db = s.db ∨ offerCandidates setup id revision candidates s.db = .ok s'.db := by
  cases h
  rcases s.commit_cases (offerCandidates setup id revision candidates s.db) with
    heq | ⟨db, hdb, heq⟩
  · exact Or.inl (congrArg System.db heq)
  · rw [heq]
    exact Or.inr hdb

theorem Dated.next {s s' : System} {e : Event} (h : Dated s.db) (he : s.next setup e = some s') :
    Dated s'.db := by
  by_cases hsearch : ∃ id revision candidates, e = .offer id revision candidates
  · obtain ⟨id, revision, candidates, rfl⟩ := hsearch
    rcases System.next_offer he with heq | hoffer
    · rw [heq]
      exact h
    · obtain ⟨item, -, -, hdated⟩ := offerCandidates_offering h hoffer
      exact hdated
  · have hchanges := System.next_changes he fun id revision candidates heq =>
      hsearch ⟨id, revision, candidates, heq⟩
    exact hchanges.invariant h fun hchange ha => ha.change hchange

theorem dated_of_reachable {start : ℤ} {s : System} (h : (machine setup start).Reachable s) :
    Dated s.db :=
  Machine.Reaches.invariant (I := fun s : System => Dated s.db) h (dated_emptyTables start)
    fun ha _ he => ha.next he

def Event.isOffer : Event → Bool
  | .offer _ _ _ => true
  | _ => false

/-- A search revives no candidate of its item. -/
def Suggests (s : System) : Event → Prop
  | .offer id _ candidates => ∀ item, s.db.items.get? id = some item →
      s.db.revives item candidates = false
  | _ => True

theorem Earned.next {s s' : System} {e : Event} (h : Dated s.db ∧ Earned s.db)
    (hok : Suggests s e) (he : s.next setup e = some s') : Dated s'.db ∧ Earned s'.db := by
  by_cases hsearch : ∃ id revision candidates, e = .offer id revision candidates
  · obtain ⟨id, revision, candidates, rfl⟩ := hsearch
    refine ⟨h.1.next he, ?_⟩
    rcases System.next_offer he with heq | hoffer
    · rw [heq]
      exact h.2
    · obtain ⟨item, hitem, hoffering, -⟩ := offerCandidates_offering h.1 hoffer
      intro other hother c hc
      rw [hoffering.items] at hother
      exact h.2 other hother c ((hoffering.eligible_iff fun _ => hok item hitem).mp hc)
  · exact (System.next_changes he fun id revision candidates heq =>
      hsearch ⟨id, revision, candidates, heq⟩).earned h.1 h.2

/-- In a reachable state a search that commits leaves the eligible records of its
    item as they are if and only if it revives none. In a run of such searches every
    eligible candidate got its strength from a claim at the item's revision. -/
theorem search_revives_iff (setup : Setup) (start : ℤ) :
    (∀ s, (machine setup start).Reachable s → ∀ id revision candidates db item,
      offerCandidates setup id revision candidates s.db = .ok db →
      s.db.items.get? id = some item →
      (db.eligibleRecords item = s.db.eligibleRecords item ↔
        s.db.revives item candidates = false)) ∧
      ∀ s, (machine setup start).Reaches Suggests s → ∀ item ∈ s.db.items,
        ∀ c ∈ s.db.eligible item, c.earned = some item.enrichmentRevision := by
  refine ⟨fun s h id revision candidates db item hoffer hitem => ?_, fun s h => ?_⟩
  · obtain ⟨item', hitem', hoffering, -⟩ := offerCandidates_offering (dated_of_reachable h) hoffer
    rw [hitem] at hitem'
    cases hitem'
    exact hoffering.eligibleRecords_iff
  · have hearned : Dated s.db ∧ Earned s.db :=
      Machine.Reaches.invariant (I := fun s : System => Dated s.db ∧ Earned s.db) h
        ⟨dated_emptyTables start, fun item hitem => absurd hitem (Table.not_mem_empty item)⟩
        fun ha hok he => Earned.next ha hok he
    exact hearned.2

/-- `tvdb` finds a film. Its title changes before `tmdb` has answered, and then
    neither provider finds it. -/
def titleChanged : List Event :=
  [.addMembership 1 1, .insertItem 1 1, .claim (lit "tvdb") 180 1,
    .finish 0 (answerOf [(filmOf (lit "tvdb") (lit "7"), 10)]), .changeItem 1,
    .claim (lit "tmdb") 180 2, .finish 1 (answerOf []), .claim (lit "tvdb") 180 3,
    .finish 2 (answerOf [])]

/-- What a person finds for the film. -/
def offerOf (externalId : Text) : EnrichmentCandidate :=
  ⟨true, filmOf (lit "tvdb") externalId, 20, []⟩

/-- A search for another film changes no eligible record, and every eligible
    candidate after it is earned. -/
theorem search_revives_iff_other : ∃ (s : System) (db : Db),
    (machine films 0).Reaches Suggests { s with db := db } ∧
    offerCandidates films 1 1 [offerOf (lit "8")] s.db = .ok db ∧
    db.candidates.rows.length = 2 ∧
    db.eligibleRecords ⟨1, 1, 1⟩ = s.db.eligibleRecords ⟨1, 1, 1⟩ ∧
    ∀ item ∈ db.items, ∀ c ∈ db.eligible item, c.earned = some item.enrichmentRevision := by
  have hrun : (((machine films 0).replay (fun _ e => !e.isOffer) titleChanged
      (emptyTables 0)).any fun s =>
        (offerCandidates films 1 1 [offerOf (lit "8")] s.db).toOption.any fun db =>
          s.db.items.get? 1 = some ⟨1, 1, 1⟩ && db.candidates.rows.length = 2 &&
          !s.db.revives ⟨1, 1, 1⟩ [offerOf (lit "8")]) = true := by
    decide
  obtain ⟨s, hs, hstates⟩ := (Option.any_eq_true _ _).mp hrun
  have hreach : (machine films 0).Reaches Suggests s :=
    (Machine.reaches_of_replay hs).mono fun s e he => by
      cases e with
      | offer => cases he
      | _ => trivial
  cases hoffer : offerCandidates films 1 1 [offerOf (lit "8")] s.db with
  | error message =>
    rw [hoffer] at hstates
    cases hstates
  | ok db =>
    simp only [hoffer, Except.toOption, Option.any_some, Bool.and_eq_true, decide_eq_true_eq,
      Bool.not_eq_true'] at hstates
    obtain ⟨⟨hitem, hlength⟩, hrevives⟩ := hstates
    have hnext : (machine films 0).Reaches Suggests { s with db := db } := by
      refine Machine.Reaches.next (e := .offer 1 1 [offerOf (lit "8")]) hreach (fun item hitem' => ?_) ?_
      · rw [hitem] at hitem'
        cases hitem'
        exact hrevives
      · show some (s.commit (offerCandidates films 1 1 [offerOf (lit "8")] s.db)) = _
        rw [hoffer]
        rfl
    exact ⟨s, db, hnext, hoffer, hlength,
      ((search_revives_iff films 0).1 s hreach.reachable 1 1 _ db _ hoffer hitem).mpr hrevives,
      (search_revives_iff films 0).2 _ hnext⟩

/-- The film of the old title is offered, and it is eligible again. -/
theorem search_revives : ∃ s db, (machine films 0).Reachable s ∧
    offerCandidates films 1 1 [offerOf (lit "7")] s.db = .ok db ∧
    s.db.items.get? 1 = some ⟨1, 1, 1⟩ ∧ s.db.eligibleRecords ⟨1, 1, 1⟩ = ∅ ∧
    db.eligibleRecords ⟨1, 1, 1⟩ = {1} ∧
    ∃ c ∈ db.eligible ⟨1, 1, 1⟩, c.earned = some 0 ∧ db.choice films s.now 1 = some c := by
  have hrun : (((machine films 0).replay (fun _ _ => true) titleChanged (emptyTables 0)).any fun s =>
      (offerCandidates films 1 1 [offerOf (lit "7")] s.db).toOption.any fun db =>
        s.db.items.get? 1 = some ⟨1, 1, 1⟩ && s.db.eligibleRecords ⟨1, 1, 1⟩ = ∅ &&
        db.eligibleRecords ⟨1, 1, 1⟩ = {1} &&
        (db.eligible ⟨1, 1, 1⟩).any fun c =>
          c.earned = some 0 && db.choice films s.now 1 = some c) = true := by
    decide
  obtain ⟨s, hs, hstates⟩ := (Option.any_eq_true _ _).mp hrun
  have hreach := (Machine.reaches_of_replay hs).reachable
  cases hoffer : offerCandidates films 1 1 [offerOf (lit "7")] s.db with
  | error message =>
    rw [hoffer] at hstates
    cases hstates
  | ok db =>
    simp only [hoffer, Except.toOption, Option.any_some, Bool.and_eq_true, decide_eq_true_eq,
      List.any_eq_true] at hstates
    obtain ⟨⟨⟨hitem, hbefore⟩, hafter⟩, c, hc, hearned, hchoice⟩ := hstates
    exact ⟨s, db, hreach, hoffer, hitem, hbefore, hafter, c, hc, hearned, hchoice⟩

end Kahawai.MediaDb.Enrichment
