import Kahawai.MediaDb.Enrichment.Edits

/-!
# What `finish_enrichment` checks of an answer

An answer that fails a check is not stored at all. `Fits` collects the checks,
each in the state in which the function comes to it, and `finishAnswer_isOk` says
that there are no others.
-/

namespace Kahawai.MediaDb.Enrichment

open Kahawai.Core Kahawai.Lib Kahawai.Proto

variable {setup : Setup} {db : Db} {job : EnrichmentJob} {kind : MediaType}

/-! ## Checks of the parts -/

/-- The record has the media type of the stored one. -/
def Db.fitsRecord (db : Db) (record : ProviderRecord) : Bool :=
  (db.findRecord record).all fun row => row.record.mediaType = record.mediaType

/-- A record of that media type can be about an item of the collection. -/
def isCompatible (actual kind : MediaType) : Bool :=
  actual = kind || (kind = .anime && (actual = .movies || actual = .series))

/-- The media type of the stored record, or of the new one. -/
def Db.typeOf (db : Db) (record : ProviderRecord) : MediaType :=
  match db.findRecord record with
  | none => record.mediaType
  | some row => row.record.mediaType

/-- The candidate is of the job's provider. Its record has the media type of the
    stored one, if it is complete, and this is compatible with the item. -/
def Db.fitsCandidate (db : Db) (job : EnrichmentJob) (kind : MediaType)
    (candidate : EnrichmentCandidate) : Bool :=
  candidate.record.provider = job.provider &&
    (!candidate.complete || db.fitsRecord candidate.record) &&
    isCompatible (db.typeOf candidate.record) kind

/-- The auxiliary artwork may be of the lane, and its record has the media type of
    the stored one. -/
def Db.fitsArtwork (db : Db) (job : EnrichmentJob) (kind : MediaType)
    (supplement : Option ProviderRecord) : Bool :=
  supplement.all fun record =>
    isAuxiliary job kind record && (!(db.verified job.itemId record).isSome || db.fitsRecord record)

variable (setup) in
/-- Each part of the answer passes its check when the function comes to it. -/
def Fits (job : EnrichmentJob) (kind : MediaType) (answer : EnrichmentAnswer) (db : Db) : Prop :=
  AllAlong (finishCandidate setup job kind) (fun d c => d.fitsCandidate job kind c = true)
    answer.candidates db ∧
  ∀ d₁, answer.candidates.foldlM (finishCandidate setup job kind) db = .ok d₁ →
    d₁.fitsArtwork job kind answer.artworkSupplement = true ∧
  ∀ d₂, finishArtwork job kind answer.artworkSupplement d₁ = .ok d₂ →
    AllAlong (finishLink job) (fun d link => d.selected job.itemId = some link.1) answer.links d₂ ∧
  ∀ d₃, answer.links.foldlM (finishLink job) d₂ = .ok d₃ →
    (job.provider = lit "local" → answer.localRecord.all d₃.fitsRecord = true) ∧
    (answer.artist.isSome = true → job.provider = lit "musicbrainz")

/-! ## The functions -/

theorem putRecord_isOk {record : ProviderRecord} :
    (∃ stored, putRecord record db = .ok stored) ↔ db.fitsRecord record = true := by
  unfold putRecord Db.fitsRecord
  cases db.findRecord record with
  | none => exact ⟨fun _ => rfl, fun _ => ⟨_, rfl⟩⟩
  | some row =>
    dsimp only
    rw [except_bind_isOk, Option.all_some]
    constructor
    · rintro ⟨⟨_, hensure⟩, -⟩
      exact ensure_eq_ok.mp hensure
    · exact fun htype => ⟨⟨(), ensure_eq_ok.mpr htype⟩, fun _ _ => ⟨_, rfl⟩⟩

theorem putCandidate_isOk {c : EnrichmentCandidate} :
    (∃ stored, putCandidate c db = .ok stored) ↔
      (!c.complete || db.fitsRecord c.record) = true := by
  unfold putCandidate
  cases hfound : db.findRecord c.record with
  | none =>
    have hfits : db.fitsRecord c.record = true := by
      unfold Db.fitsRecord
      rw [hfound]
      rfl
    dsimp only
    rw [putRecord_isOk, hfits, Bool.or_true]
  | some row =>
    dsimp only
    cases c.complete with
    | false => exact ⟨fun _ => rfl, fun _ => ⟨_, rfl⟩⟩
    | true =>
      rw [if_pos rfl, putRecord_isOk]
      exact Iff.rfl

theorem compatible_isOk {record : Id} {row : RecordRow} (hrow : db.records.get? record = some row) :
    (∃ u, compatible record kind db = .ok u) ↔ isCompatible row.record.mediaType kind = true := by
  unfold compatible isCompatible
  rw [except_bind_isOk, hrow]
  constructor
  · rintro ⟨-, hall⟩
    obtain ⟨_, hensure⟩ := hall row rfl
    exact ensure_eq_ok.mp hensure
  · refine fun h => ⟨⟨row, rfl⟩, fun row' hrow' => ⟨(), ?_⟩⟩
    cases hrow'
    exact ensure_eq_ok.mpr h

/-- The stored record of a candidate. -/
theorem putCandidate_typeOf {c : EnrichmentCandidate} {record : Id} {stored : Db}
    (h : putCandidate c db = .ok (record, stored)) :
    ∃ row, stored.records.get? record = some row ∧ row.record.mediaType = db.typeOf c.record := by
  have hput : ∀ {row : RecordRow}, db.findRecord c.record = some row →
      row.record.mediaType = c.record.mediaType →
      ∃ row', (db.updateRecord row c.record).records.get? row.id = some row' ∧
        row'.record.mediaType = row.record.mediaType := by
    intro row _ htype
    refine ⟨{ row with record := c.record }, ?_, htype.symm⟩
    have hstored : (db.records.put { row with record := c.record }).get? row.id =
        some { row with record := c.record } := (Table.get?_put _ _ _).trans (if_pos rfl)
    unfold Db.updateRecord
    dsimp only
    split_ifs
    · exact hstored
    · exact hstored
  unfold Db.typeOf
  unfold putCandidate putRecord at h
  cases hfound : db.findRecord c.record with
  | none =>
    rw [hfound] at h
    cases h
    exact ⟨⟨db.newRecord, c.record⟩, (Table.get?_put _ _ _).trans (if_pos rfl), rfl⟩
  | some row =>
    rw [hfound] at h
    dsimp only at h
    split_ifs at h
    · obtain ⟨_, hensure, h⟩ := except_bind_eq_ok.mp h
      cases h
      exact hput hfound (of_decide_eq_true (ensure_eq_ok.mp hensure))
    · cases h
      exact ⟨row, Table.get?_of_mem (findRecord_eq_some hfound).1, rfl⟩

theorem finishCandidate_isOk {c : EnrichmentCandidate} :
    (∃ d, finishCandidate setup job kind db c = .ok d) ↔ db.fitsCandidate job kind c = true := by
  unfold finishCandidate Db.fitsCandidate
  rw [except_bind_isOk, Bool.and_eq_true, Bool.and_eq_true, and_assoc]
  have hprovider : (∃ u, ensure (decide (c.record.provider = job.provider))
      "provider answered as another provider" = .ok u) ↔
        decide (c.record.provider = job.provider) = true :=
    ⟨fun ⟨_, hu⟩ => ensure_eq_ok.mp hu, fun h => ⟨(), ensure_eq_ok.mpr h⟩⟩
  rw [hprovider]
  refine and_congr_right fun hsame => ?_
  constructor
  · intro hall
    have hrest := hall () (ensure_eq_ok.mpr hsame)
    rw [except_bind_isOk] at hrest
    obtain ⟨⟨⟨record, stored⟩, hput⟩, hstored⟩ := hrest
    obtain ⟨row, hrow, htype⟩ := putCandidate_typeOf hput
    refine ⟨putCandidate_isOk.mp ⟨_, hput⟩, htype ▸ (compatible_isOk hrow).mp ?_⟩
    obtain ⟨hcompatible, -⟩ := except_bind_isOk.mp (hstored _ hput)
    exact hcompatible
  · rintro ⟨hfits, hcompatible⟩ _ -
    refine except_bind_isOk.mpr ⟨putCandidate_isOk.mpr hfits, ?_⟩
    rintro ⟨record, stored⟩ hput
    obtain ⟨row, hrow, htype⟩ := putCandidate_typeOf hput
    exact except_bind_isOk.mpr ⟨(compatible_isOk hrow).mpr (htype ▸ hcompatible),
      fun _ _ => ⟨_, rfl⟩⟩

theorem finishArtwork_isOk {supplement : Option ProviderRecord} :
    (∃ d, finishArtwork job kind supplement db = .ok d) ↔
      db.fitsArtwork job kind supplement = true := by
  unfold finishArtwork Db.fitsArtwork
  cases supplement with
  | none => exact ⟨fun _ => rfl, fun _ => ⟨_, rfl⟩⟩
  | some record =>
    dsimp only
    rw [except_bind_isOk, Option.all_some, Bool.and_eq_true]
    have hauxiliary : (∃ u, ensure (isAuxiliary job kind record) "invalid auxiliary artwork answer" =
        .ok u) ↔ isAuxiliary job kind record = true :=
      ⟨fun ⟨_, hu⟩ => ensure_eq_ok.mp hu, fun h => ⟨(), ensure_eq_ok.mpr h⟩⟩
    rw [hauxiliary]
    refine and_congr_right fun hgood => ?_
    cases db.verified job.itemId record with
    | none => exact ⟨fun _ => rfl, fun _ _ _ => ⟨_, rfl⟩⟩
    | some primary =>
      dsimp only
      rw [show (!(some primary).isSome || db.fitsRecord record) = db.fitsRecord record from rfl,
        ← putRecord_isOk]
      constructor
      · intro hall
        exact (except_bind_isOk.mp (hall () (ensure_eq_ok.mpr hgood))).1
      · exact fun hput _ _ => except_bind_isOk.mpr ⟨hput, fun _ _ => ⟨_, rfl⟩⟩

theorem finishLink_isOk (d : Db) (link : Id × RecordLink) :
    (∃ d', finishLink job d link = .ok d') ↔ d.selected job.itemId = some link.1 := by
  unfold finishLink
  rw [except_bind_isOk]
  constructor
  · rintro ⟨⟨_, hensure⟩, -⟩
    exact of_decide_eq_true (ensure_eq_ok.mp hensure)
  · intro hselected
    refine ⟨⟨(), ensure_eq_ok.mpr (decide_eq_true hselected)⟩, fun _ _ => ?_⟩
    split_ifs
    · exact ⟨_, rfl⟩
    · exact ⟨_, rfl⟩

theorem finishLocal_isOk {answer : EnrichmentAnswer} :
    (∃ d, finishLocal setup job answer db = .ok d) ↔
      (job.provider = lit "local" → answer.localRecord.all db.fitsRecord = true) := by
  unfold finishLocal
  split_ifs with hlocal
  · rw [except_bind_isOk]
    have hstore : (∃ d, storeLocal job.itemId answer.localRecord db = .ok d) ↔
        answer.localRecord.all db.fitsRecord = true := by
      unfold storeLocal
      cases answer.localRecord with
      | none => exact ⟨fun _ => rfl, fun _ => ⟨_, rfl⟩⟩
      | some record =>
        dsimp only
        rw [except_bind_isOk, putRecord_isOk]
        exact ⟨fun h => h.1, fun h => ⟨h, fun _ _ => ⟨_, rfl⟩⟩⟩
    rw [hstore]
    exact ⟨fun h _ => h.1, fun h => ⟨h hlocal, fun _ _ => ⟨_, rfl⟩⟩⟩
  · exact ⟨fun _ h => absurd h hlocal, fun _ => ⟨_, rfl⟩⟩

theorem finishArtist_isOk {artist : Option Text} :
    (∃ d, finishArtist job artist db = .ok d) ↔
      (artist.isSome = true → job.provider = lit "musicbrainz") := by
  unfold finishArtist
  cases artist with
  | none => exact ⟨fun _ h => (by cases h), fun _ => ⟨_, rfl⟩⟩
  | some artist =>
    dsimp only
    rw [except_bind_isOk]
    constructor
    · rintro ⟨⟨_, hensure⟩, -⟩ -
      exact of_decide_eq_true (ensure_eq_ok.mp hensure)
    · exact fun h => ⟨⟨(), ensure_eq_ok.mpr (decide_eq_true (h rfl))⟩, fun _ _ => ⟨_, rfl⟩⟩

/-- An answer is stored if and only if its parts pass their checks. -/
theorem finishAnswer_isOk {answer : EnrichmentAnswer} :
    (∃ d, finishAnswer setup job answer kind db = .ok d) ↔ Fits setup job kind answer db := by
  unfold finishAnswer Fits
  rw [except_bind_isOk, except_foldlM_isOk fun d c => finishCandidate_isOk]
  refine and_congr_right fun _ => forall₂_congr fun d₁ _ => ?_
  rw [except_bind_isOk, finishArtwork_isOk]
  refine and_congr_right fun _ => forall₂_congr fun d₂ _ => ?_
  rw [except_bind_isOk, except_foldlM_isOk finishLink_isOk]
  refine and_congr_right fun _ => forall₂_congr fun d₃ _ => ?_
  rw [except_bind_isOk, finishLocal_isOk]
  exact and_congr_right fun hlocal =>
    ⟨fun hall => by
      obtain ⟨d₄, h₄⟩ := finishLocal_isOk.mpr hlocal
      exact finishArtist_isOk.mp (hall d₄ h₄), fun h _ _ => finishArtist_isOk.mpr h⟩

variable (setup) in
/-- The job is still its item's, and the answer passes the checks. -/
def Lands (job : EnrichmentJob) (answer : EnrichmentAnswer) (db : Db) : Prop :=
  db.accepts job = true ∧ ∀ item, db.items.get? job.itemId = some item →
    Fits setup job (setup.mediaType item.collection) answer db

theorem finishEnrichment_lands {now : ℤ} {answer : EnrichmentAnswer} :
    (∃ db', finishEnrichment setup now job answer db = .ok (true, db')) ↔
      Lands setup job answer db := by
  unfold finishEnrichment Lands
  cases haccepts : db.accepts job with
  | false =>
    constructor
    · rintro ⟨db', h⟩
      cases h
    · rintro ⟨h, -⟩
      cases h
  | true =>
    unfold Db.accepts at haccepts
    rw [Bool.and_eq_true, Option.any_eq_true] at haccepts
    obtain ⟨-, item, hitem, -⟩ := haccepts
    rw [hitem]
    constructor
    · rintro ⟨db', h⟩
      refine ⟨rfl, fun item' hitem' => ?_⟩
      cases hitem'
      obtain ⟨item', hfetch, h⟩ := except_bind_eq_ok.mp h
      cases hfetch
      obtain ⟨d, hd, -⟩ := except_bind_eq_ok.mp h
      exact finishAnswer_isOk.mp ⟨d, hd⟩
    · rintro ⟨-, hfits⟩
      obtain ⟨d, hd⟩ := finishAnswer_isOk.mpr (hfits item rfl)
      exact ⟨_, except_bind_eq_ok.mpr ⟨item, rfl, except_bind_eq_ok.mpr ⟨d, hd, rfl⟩⟩⟩

/-- Otherwise nothing is stored. -/
theorem finishEnrichment_of_not_lands {now : ℤ} {answer : EnrichmentAnswer} {landed : Bool}
    {db' : Db} (hlands : ¬ Lands setup job answer db)
    (h : finishEnrichment setup now job answer db = .ok (landed, db')) : db' = db := by
  rcases finishEnrichment_cases h with ⟨-, -, rfl⟩ | ⟨-, rfl, -⟩
  · rfl
  · exact absurd (finishEnrichment_lands.mp ⟨db', h⟩) hlands

end Kahawai.MediaDb.Enrichment
