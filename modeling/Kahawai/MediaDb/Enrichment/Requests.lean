import Kahawai.MediaDb.Enrichment.Edits

/-!
# No request is lost

A request for a job, or a change of its item's revision, while the job is
claimed must not be lost when the claim completes it. `Db.asks` counts the
requests and the changes. A claim remembers the count (`EnrichmentJob.asked`)
next to the request generation, and a completed row remembers that of its claim
(`Job.answered`).

`Queued` is the invariant: a job that is done was completed by a claim since
which nobody asked, and of a claim that still holds its row, as long as the
generation of the row is that of the claim, nobody asked since.

Main result:

* `requests_kept`: in every run a job of an item in a library that is done was
  not asked for since the claim that completed it, and a claim that lost its
  token changes nothing.
-/

namespace Kahawai.MediaDb.Enrichment

open Kahawai.Core Kahawai.Lib Kahawai.Proto

variable {setup : Setup} {db db' : Db} {claims : List EnrichmentJob} {touching : List Id}

/-! ## The invariant -/

/-- If the row has the generation of the claim, nobody asked since. -/
def Unasked (db : Db) (job : EnrichmentJob) (j : Job) : Prop :=
  job.requestGeneration ≤ j.requestGeneration ∧
    (job.requestGeneration = j.requestGeneration → job.asked = db.asks j.item j.provider)

/-- The item of the job has it for a lane, and a library has the item. -/
def Db.Listed (db : Db) (id : Id) : Prop :=
  ∃ item, db.items.get? id = some item ∧ db.inLibrary item.collection = true

variable (setup) in
/-- The items in `touching` are still to get a new revision by the statement. -/
structure Queued (touching : List Id) (db : Db) (claims : List EnrichmentJob) : Prop where
  lane : ∀ j ∈ db.jobs, ∃ item, db.items.get? j.item = some item ∧
    j.provider ∈ setup.lanes (setup.mediaType item.collection)
  done : ∀ j ∈ db.jobs, j.state = .done → db.Listed j.item → j.item ∉ touching →
    j.answered = some (db.asks j.item j.provider)
  held : ∀ job ∈ claims, ∀ j ∈ db.jobs, j.key = (job.itemId, job.provider) →
    j.token = some job.token → ∀ item, db.items.get? j.item = some item →
    job.revision ≤ item.enrichmentRevision ∧
      (job.revision = item.enrichmentRevision → Unasked db job j)

theorem Queued.congr (h : Queued setup touching db claims) (hitems : db'.items = db.items)
    (hmemberships : db'.memberships = db.memberships) (hjobs : db'.jobs = db.jobs)
    (hasks : db'.asks = db.asks) : Queued setup touching db' claims := by
  have hlisted : ∀ id, db'.Listed id → db.Listed id := fun id hid => by
    unfold Db.Listed Db.inLibrary at hid
    rw [hitems, hmemberships] at hid
    exact hid
  refine ⟨?_, fun j hj hstate hlisted' hid => ?_, ?_⟩
  · rw [hjobs, hitems]
    exact h.lane
  · rw [hjobs] at hj
    rw [hasks]
    exact h.done j hj hstate (hlisted _ hlisted') hid
  · unfold Unasked
    rw [hjobs, hitems, hasks]
    exact h.held

/-- A statement has more to touch. -/
theorem Queued.touch (h : Queued setup touching db claims) (ids : List Id)
    (hids : ∀ id ∈ touching, id ∈ ids) : Queued setup ids db claims :=
  ⟨h.lane, fun j hj hstate hlisted hid => h.done j hj hstate hlisted fun hmem => hid (hids _ hmem),
    h.held⟩

/-! ## Statements -/

/-- An update that completes no job and takes no token over. -/
theorem Queued.update (h : Queued setup touching db claims) (p : Job → Bool) (f : Job → Job)
    (hf : ∀ j, (f j).key = j.key)
    (hstate : ∀ j, (f j).state = .done → j.state = .done ∧ (f j).answered = j.answered)
    (htoken : ∀ j, (f j).token = none ∨ (f j).token = j.token)
    (hgeneration : ∀ j, (f j).requestGeneration = j.requestGeneration) :
    Queued setup touching (db.updateJobs p f hf) claims := by
  have hrow : ∀ j ∈ (db.updateJobs p f hf).jobs, ∃ j₀ ∈ db.jobs, j.key = j₀.key ∧
      (j.state = .done → j₀.state = .done ∧ j.answered = j₀.answered) ∧
      (j.token = none ∨ j.token = j₀.token) ∧ j.requestGeneration = j₀.requestGeneration := by
    intro j hj
    unfold Db.updateJobs at hj
    rw [Table.mem_mapRows] at hj
    obtain ⟨j₀, hj₀, rfl⟩ := hj
    refine ⟨j₀, hj₀, ?_⟩
    split_ifs
    · exact ⟨hf j₀, hstate j₀, htoken j₀, hgeneration j₀⟩
    · exact ⟨rfl, fun h => ⟨h, rfl⟩, Or.inr rfl, rfl⟩
  refine ⟨fun j hj => ?_, fun j hj hdone hlisted hid => ?_, fun job hjob j hj hkey htok item hitem => ?_⟩
  · obtain ⟨j₀, hj₀, hkey, -⟩ := hrow j hj
    obtain ⟨hitem, hprovider⟩ := Prod.mk.inj hkey
    rw [hitem, hprovider]
    exact h.lane j₀ hj₀
  · obtain ⟨j₀, hj₀, hkey, hdone₀, -⟩ := hrow j hj
    obtain ⟨hitem, hprovider⟩ := Prod.mk.inj hkey
    rw [(hdone₀ hdone).2]
    rw [hitem] at hlisted hid ⊢
    rw [hprovider]
    exact h.done j₀ hj₀ (hdone₀ hdone).1 hlisted hid
  · obtain ⟨j₀, hj₀, hkey₀, -, htok₀, hgen⟩ := hrow j hj
    obtain ⟨hid, hprovider⟩ := Prod.mk.inj hkey₀
    have htok' : j₀.token = some job.token := by
      rcases htok₀ with hnone | hsame
      · rw [hnone] at htok
        cases htok
      · rw [← hsame, htok]
    rw [hid] at hitem
    unfold Unasked
    rw [hgen, hid, hprovider]
    exact h.held job hjob j₀ hj₀ (hkey₀.symm.trans hkey) htok' item hitem

/-- A row after a request. -/
theorem row_request {p : Job → Bool} {j : Job} (hj : j ∈ (db.request p).jobs) :
    ∃ j₀ ∈ db.jobs, j.item = j₀.item ∧ j.provider = j₀.provider ∧ j.token = j₀.token ∧
      ((j = j₀ ∧ (db.request p).asks j.item j.provider = db.asks j.item j.provider) ∨
        (j.state ≠ .done ∧ j.requestGeneration = j₀.requestGeneration + 1)) := by
  rw [Db.mem_jobs_request] at hj
  obtain ⟨j₀, hj₀, rfl⟩ := hj
  refine ⟨j₀, hj₀, ?_⟩
  split_ifs with hp
  · refine ⟨rfl, rfl, rfl, Or.inr ⟨?_, rfl⟩⟩
    unfold Job.request
    dsimp only
    split_ifs with hdone
    · exact fun h => by cases h
    · exact hdone
  · refine ⟨rfl, rfl, rfl, Or.inl ⟨rfl, ?_⟩⟩
    show (if (db.jobs.get? j₀.key).any p then _ else _) = _
    rw [Table.get?_of_mem hj₀, Option.any_some, if_neg hp]

theorem Queued.request (h : Queued setup touching db claims) (p : Job → Bool) :
    Queued setup touching (db.request p) claims := by
  refine ⟨fun j hj => ?_, fun j hj hdone hlisted hid => ?_, fun job hjob j hj hkey htok item hitem => ?_⟩
  · obtain ⟨j₀, hj₀, hid, hprovider, -⟩ := row_request hj
    rw [hid, hprovider]
    exact h.lane j₀ hj₀
  · obtain ⟨j₀, hj₀, -, -, -, ⟨rfl, hasks⟩ | ⟨hstate, -⟩⟩ := row_request hj
    · rw [hasks]
      exact h.done j hj₀ hdone hlisted hid
    · exact absurd hdone hstate
  · obtain ⟨j₀, hj₀, hid, hprovider, htoken, hrow⟩ := row_request hj
    have hkey₀ : j₀.key = (job.itemId, job.provider) := by
      rw [← hkey]
      exact Prod.ext hid.symm hprovider.symm
    obtain ⟨hle, hheld⟩ :=
      h.held job hjob j₀ hj₀ hkey₀ (htoken.symm.trans htok) item (hid ▸ hitem)
    refine ⟨hle, fun hrevision => ?_⟩
    obtain ⟨hgeneration, hasked⟩ := hheld hrevision
    rcases hrow with ⟨rfl, hasks⟩ | ⟨-, hgen⟩
    · exact ⟨hgeneration, fun hsame => (hasked hsame).trans hasks.symm⟩
    · exact ⟨by omega, fun hsame => by omega⟩

theorem get?_jobs_bump {id : Id} {item : Item} (hitem : db.items.get? id = some item)
    (k : Id × Text) :
    (db.bump setup id).jobs.get? k =
      if k.1 = id ∧ k.2 ∈ setup.lanes (setup.mediaType item.collection) ∧
          db.inLibrary item.collection = true then
        some (match db.jobs.get? k with
          | none => newJob id k.2 (item.enrichmentRevision + 1)
          | some j => j.renew (item.enrichmentRevision + 1))
      else db.jobs.get? k := by
  obtain rfl : item.id = id := Table.get?_key hitem
  unfold Db.bump
  rw [hitem]
  exact Db.get?_jobs_enqueue _ _ k

/-- A read after a new revision of an item: it is as before, or of a renewed row. -/
theorem jobs_bump_cases (setup : Setup) (id : Id) (db : Db) (k : Id × Text) :
    (db.bump setup id).jobs.get? k = db.jobs.get? k ∨
      (k.1 = id ∧ ∃ j, (db.bump setup id).jobs.get? k = some j ∧ j.state = .pending ∧
        j.token = none) := by
  cases hitem : db.items.get? id with
  | none =>
    unfold Db.bump
    rw [hitem]
    exact Or.inl rfl
  | some item =>
    rw [get?_jobs_bump hitem]
    split_ifs with hlane
    · refine Or.inr ⟨hlane.1, _, rfl, ?_, ?_⟩ <;> split <;> rfl
    · exact Or.inl rfl

/-- A row after a new revision of the item with that ID: it is pending without a
    token, or it is as before and the item is in no library. -/
theorem row_bump {id : Id} {j : Job} (hlane : ∀ j ∈ db.jobs, ∃ item,
      db.items.get? j.item = some item ∧ j.provider ∈ setup.lanes (setup.mediaType item.collection))
    (hj : j ∈ (db.bump setup id).jobs) :
    (j.item = id ∧ j.state = .pending ∧ j.token = none ∧ ∃ item, db.items.get? id = some item ∧
        j.provider ∈ setup.lanes (setup.mediaType item.collection)) ∨
      (j ∈ db.jobs ∧ (j.item = id → ¬ db.Listed id)) := by
  cases hitem : db.items.get? id with
  | none =>
    unfold Db.bump at hj
    rw [hitem] at hj
    refine Or.inr ⟨hj, fun _ hlisted => ?_⟩
    obtain ⟨item, hsome, -⟩ := hlisted
    rw [hitem] at hsome
    cases hsome
  | some item =>
    have hget := Table.get?_of_mem hj
    rw [get?_jobs_bump hitem] at hget
    split_ifs at hget with hlane'
    · left
      obtain ⟨hid, hprovider, -⟩ := hlane'
      refine ⟨hid, ?_, ?_, item, rfl, hprovider⟩ <;> rw [← Option.some.inj hget] <;> split <;> rfl
    · right
      have hold : j ∈ db.jobs := Table.get?_mem hget
      refine ⟨hold, fun hid hlisted => hlane' ⟨hid, ?_, ?_⟩⟩
      · obtain ⟨item', hitem', hprovider⟩ := hlane j hold
        rw [hid, hitem] at hitem'
        cases hitem'
        exact hprovider
      · obtain ⟨item', hitem', hlibrary⟩ := hlisted
        rw [hitem] at hitem'
        cases hitem'
        exact hlibrary

theorem asks_bump_of_ne {id id' : Id} (hne : id' ≠ id) (provider : Text) :
    (db.bump setup id).asks id' provider = db.asks id' provider := by
  unfold Db.bump
  cases hitem : db.items.get? id with
  | none => rfl
  | some item =>
    show (if id' = item.id then _ else _) = _
    rw [if_neg fun heq => hne (heq.trans (Table.get?_key hitem))]

theorem Queued.bump {id : Id} (h : Queued setup (id :: touching) db claims) :
    Queued setup touching (db.bump setup id) claims := by
  have hlisted : ∀ id', (db.bump setup id).Listed id' → db.Listed id' := by
    rintro id' ⟨item, hitem, hlibrary⟩
    unfold Db.inLibrary at hlibrary
    rw [Db.memberships_bump] at hlibrary
    rw [Db.get?_items_bump] at hitem
    split_ifs at hitem
    · obtain ⟨item₀, hitem₀, rfl⟩ := Option.map_eq_some_iff.mp hitem
      exact ⟨item₀, hitem₀, hlibrary⟩
    · exact ⟨item, hitem, hlibrary⟩
  refine ⟨fun j hj => ?_, fun j hj hdone hlisted' hid => ?_,
    fun job hjob j hj hkey htok item hitem => ?_⟩
  · have hlane : ∃ item, db.items.get? j.item = some item ∧
        j.provider ∈ setup.lanes (setup.mediaType item.collection) := by
      rcases row_bump h.lane hj with ⟨hid, -, -, hlane⟩ | ⟨hold, -⟩
      · rw [hid]
        exact hlane
      · exact h.lane j hold
    obtain ⟨item, hitem, hprovider⟩ := hlane
    rw [Db.get?_items_bump, hitem]
    split_ifs
    · exact ⟨_, rfl, hprovider⟩
    · exact ⟨item, rfl, hprovider⟩
  · rcases row_bump h.lane hj with ⟨-, hpending, -⟩ | ⟨hold, hunlisted⟩
    · rw [hpending] at hdone
      cases hdone
    · have hne : j.item ≠ id := fun heq => hunlisted heq (heq ▸ hlisted _ hlisted')
      rw [asks_bump_of_ne hne]
      refine h.done j hold hdone (hlisted _ hlisted') fun hmem => ?_
      rcases List.mem_cons.mp hmem with heq | hmem
      · exact hne heq
      · exact hid hmem
  · rcases row_bump h.lane hj with ⟨-, -, hnone, -⟩ | ⟨hold, -⟩
    · rw [hnone] at htok
      cases htok
    · rw [Db.get?_items_bump] at hitem
      split_ifs at hitem with heq
      · obtain ⟨item₀, hitem₀, rfl⟩ := Option.map_eq_some_iff.mp hitem
        have hle := (h.held job hjob j hold hkey htok item₀ hitem₀).1
        exact ⟨Nat.le_succ_of_le hle, fun hrevision => by dsimp only at hrevision; omega⟩
      · obtain ⟨hle, hheld⟩ := h.held job hjob j hold hkey htok item hitem
        refine ⟨hle, fun hrevision => ?_⟩
        unfold Unasked
        rw [asks_bump_of_ne (Ne.symm heq)]
        exact hheld hrevision

theorem Queued.bump_of {id : Id} (h : Queued setup touching db claims)
    (hitems : db'.items = db.items) (hmemberships : db'.memberships = db.memberships)
    (hjobs : db'.jobs = db.jobs) (hasks : db'.asks = db.asks) :
    Queued setup touching (db'.bump setup id) claims :=
  ((h.congr hitems hmemberships hjobs hasks).touch (id :: touching)
    fun _ => List.mem_cons_of_mem id).bump

theorem Queued.unassign (h : Queued setup touching db claims) (id : Id) :
    Queued setup touching (db.unassign setup id) claims := by
  unfold Db.unassign
  split
  · exact h
  · exact h.bump_of rfl rfl rfl rfl

theorem Queued.assign (h : Queued setup touching db claims) (row : Assignment) :
    Queued setup touching (db.assign setup row) claims :=
  h.bump_of rfl rfl rfl rfl

theorem Queued.replaceAssignment (h : Queued setup touching db claims) (id : Id)
    (record : Option Id) (manual : Bool) (strength : ℤ) :
    Queued setup touching (db.replaceAssignment setup id record manual strength) claims := by
  have hunassigned := h.unassign id
  unfold Db.replaceAssignment
  cases record with
  | none => exact hunassigned
  | some record =>
    dsimp only
    split_ifs
    · have hunrejected : Queued setup touching ((db.unassign setup id).unreject id record) claims :=
        hunassigned.congr rfl rfl rfl rfl
      exact hunrejected.assign _
    · exact hunassigned.assign _

theorem Queued.note (h : Queued setup touching db claims) (hnote : Note db db') :
    Queued setup touching db' claims := by
  cases hnote with
  | records hsame => exact h.congr hsame.items hsame.memberships hsame.jobs hsame.asks
  | request p => exact h.request p

theorem Queued.notes (h : Queued setup touching db claims) (hnotes : Notes db db') :
    Queued setup touching db' claims :=
  hnotes.invariant (I := fun d => Queued setup touching d claims) h fun hnote hd => hd.note hnote

theorem Queued.edit {id : Id} (h : Queued setup touching db claims) (hedit : Edit setup id db db') :
    Queued setup touching db' claims := by
  cases hedit with
  | note hnote => exact h.note hnote
  | store => exact h.congr rfl rfl rfl rfl
  | unassign => exact h.unassign id
  | assign => exact h.assign _

theorem Queued.edits {id : Id} (h : Queued setup touching db claims)
    (hedits : Edits setup id db db') : Queued setup touching db' claims :=
  hedits.invariant (I := fun d => Queued setup touching d claims) h fun hedit hd => hd.edit hedit

/-! ## A completion -/

/-- Whoever asks for the job or changes its item after the claim raises the
    generation of the row. -/
structure Since (db : Db) (job : EnrichmentJob) : Prop where
  listed : db.Listed job.itemId
  unasked : ∃ j, db.jobs.get? (job.itemId, job.provider) = some j ∧ Unasked db job j

theorem Since.bump {id : Id} {job : EnrichmentJob} (h : Since db job)
    (hlane : ∀ j ∈ db.jobs, ∃ item, db.items.get? j.item = some item ∧
      j.provider ∈ setup.lanes (setup.mediaType item.collection)) :
    Since (db.bump setup id) job := by
  obtain ⟨item, hitem, hlibrary⟩ := h.listed
  obtain ⟨j, hj, hunasked⟩ := h.unasked
  constructor
  · unfold Db.Listed Db.inLibrary
    rw [Db.get?_items_bump, Db.memberships_bump, hitem]
    split_ifs
    · exact ⟨_, rfl, hlibrary⟩
    · exact ⟨item, rfl, hlibrary⟩
  · by_cases heq : id = job.itemId
    · -- The row is renewed, which raises its generation.
      obtain ⟨item', hitem', hprovider⟩ := hlane j (Table.get?_mem hj)
      have hkey : j.key = (job.itemId, job.provider) := Table.get?_key hj
      obtain ⟨hid, hp⟩ := Prod.mk.inj hkey
      rw [hid, hitem] at hitem'
      cases hitem'
      refine ⟨j.renew (item.enrichmentRevision + 1), ?_, ?_, fun hsame => ?_⟩
      · rw [get?_jobs_bump (heq ▸ hitem), if_pos ⟨heq.symm, hp ▸ hprovider, hlibrary⟩, hj]
      · exact Nat.le_succ_of_le hunasked.1
      · have hgeneration : job.requestGeneration = j.requestGeneration + 1 := hsame
        have hle := hunasked.1
        omega
    · refine ⟨j, ?_, hunasked.1, ?_⟩
      · cases hitem' : db.items.get? id with
        | none =>
          unfold Db.bump
          rw [hitem']
          exact hj
        | some item' =>
          rw [get?_jobs_bump hitem', if_neg fun hid => heq hid.1.symm]
          exact hj
      · have hkey : j.key = (job.itemId, job.provider) := Table.get?_key hj
        rw [asks_bump_of_ne fun hid => heq (hid.symm.trans (Prod.mk.inj hkey).1)]
        exact hunasked.2

theorem Since.congr {job : EnrichmentJob} (h : Since db job) (hitems : db'.items = db.items)
    (hmemberships : db'.memberships = db.memberships) (hjobs : db'.jobs = db.jobs)
    (hasks : db'.asks = db.asks) : Since db' job := by
  refine ⟨?_, ?_⟩
  · unfold Db.Listed Db.inLibrary
    rw [hitems, hmemberships]
    exact h.listed
  · unfold Unasked
    rw [hjobs, hasks]
    exact h.unasked

theorem Since.request {job : EnrichmentJob} (h : Since db job) (p : Job → Bool) :
    Since (db.request p) job := by
  obtain ⟨j, hj, hunasked⟩ := h.unasked
  refine ⟨h.listed, if p j then j.request else j, ?_, ?_⟩
  · rw [Db.get?_jobs_request, hj]
    rfl
  · split_ifs with hp
    · exact ⟨Nat.le_succ_of_le hunasked.1, fun hsame => by
        have hgeneration : job.requestGeneration = j.requestGeneration + 1 := hsame
        have hle := hunasked.1
        omega⟩
    · refine ⟨hunasked.1, fun hsame => ?_⟩
      rw [hunasked.2 hsame]
      show _ = if (db.jobs.get? j.key).any p then _ else _
      rw [Table.get?_key hj, hj, Option.any_some, if_neg hp]

theorem Since.edit {id : Id} {job : EnrichmentJob} (h : Since db job)
    (hlane : ∀ j ∈ db.jobs, ∃ item, db.items.get? j.item = some item ∧
      j.provider ∈ setup.lanes (setup.mediaType item.collection))
    (hedit : Edit setup id db db') : Since db' job := by
  cases hedit with
  | note hnote =>
    cases hnote with
    | records hsame => exact h.congr hsame.items hsame.memberships hsame.jobs hsame.asks
    | request p => exact h.request p
  | store => exact h.congr rfl rfl rfl rfl
  | unassign =>
    unfold Db.unassign
    split
    · exact h
    · exact Since.bump (h.congr rfl rfl rfl rfl) hlane
  | assign => exact Since.bump (h.congr rfl rfl rfl rfl) hlane

theorem Since.edits {id : Id} {job : EnrichmentJob} (h : Since db job)
    (hqueued : Queued setup touching db claims) (hedits : Edits setup id db db') :
    Since db' job :=
  (hedits.invariant (I := fun d => Queued setup touching d claims ∧ Since d job) ⟨hqueued, h⟩
    fun hedit hd => ⟨hd.1.edit hedit, hd.2.edit hd.1.lane hedit⟩).2

/-- The final update completes the job only if nobody asked since. -/
theorem Queued.complete {job : EnrichmentJob} {changed : Bool} {refreshAt : ℤ}
    (h : Queued setup touching db claims) (hsince : Since db job) :
    Queued setup touching (db.complete job changed refreshAt) claims := by
  have hrow : ∀ j ∈ (db.complete job changed refreshAt).jobs, ∃ j₀ ∈ db.jobs,
      j.item = j₀.item ∧ j.provider = j₀.provider ∧ (j = j₀ ∨ (j.token = none ∧
        (j.state = .done → j.answered = some (db.asks j₀.item j₀.provider)))) := by
    intro j hj
    unfold Db.complete Db.updateJobs at hj
    rw [Table.mem_mapRows] at hj
    obtain ⟨j₀, hj₀, rfl⟩ := hj
    refine ⟨j₀, hj₀, ?_⟩
    split_ifs with hkey
    · refine ⟨rfl, rfl, Or.inr ⟨rfl, fun hdone => ?_⟩⟩
      obtain ⟨j₁, hj₁, hle, hunasked⟩ := hsince.unasked
      have hget := Table.get?_of_mem hj₀
      rw [of_decide_eq_true hkey, hj₁] at hget
      cases hget
      have hagain : (decide (job.requestGeneration < j₀.requestGeneration) || changed) = false := by
        by_contra hagain
        rw [Bool.not_eq_false] at hagain
        have hstate : (if (decide (job.requestGeneration < j₀.requestGeneration) || changed) = true
            then JobState.pending else .done) = .done := hdone
        rw [if_pos hagain] at hstate
        cases hstate
      rw [Bool.or_eq_false_iff, decide_eq_false_iff_not] at hagain
      exact congrArg some (hunasked (by omega))
    · exact ⟨rfl, rfl, Or.inl rfl⟩
  refine ⟨fun j hj => ?_, fun j hj hdone hlisted hid => ?_, fun claim hclaim j hj hkey htok item hitem => ?_⟩
  · obtain ⟨j₀, hj₀, hitem, hprovider, -⟩ := hrow j hj
    rw [hitem, hprovider]
    exact h.lane j₀ hj₀
  · obtain ⟨j₀, hj₀, hitem, hprovider, rfl | ⟨-, hanswered⟩⟩ := hrow j hj
    · exact h.done j hj₀ hdone hlisted hid
    · rw [hanswered hdone, hitem, hprovider]
      rfl
  · obtain ⟨j₀, hj₀, -, -, rfl | ⟨hnone, -⟩⟩ := hrow j hj
    · exact h.held claim hclaim j hj₀ hkey htok item hitem
    · rw [hnone] at htok
      cases htok

/-! ## Transactions -/

theorem Queued.finishEnrichment {now : ℤ} {job : EnrichmentJob} {answer : EnrichmentAnswer}
    {landed : Bool} (h : Queued setup [] db claims) (hjob : job ∈ claims)
    (hfinish : finishEnrichment setup now job answer db = .ok (landed, db')) :
    Queued setup [] db' claims := by
  rcases finishEnrichment_cases hfinish with ⟨-, -, rfl⟩ | ⟨haccepts, -, answered, hedits, rfl⟩
  · exact h
  · -- At the start nobody asked since the claim, as the token is still there.
    have hsince : Since db job := by
      unfold Db.accepts Db.holds at haccepts
      rw [Bool.and_eq_true, Option.any_eq_true, Option.any_eq_true] at haccepts
      obtain ⟨⟨j, hj, htoken⟩, item, hitem, hcurrent⟩ := haccepts
      rw [Bool.and_eq_true, decide_eq_true_eq] at hcurrent
      have hkey : j.key = (job.itemId, job.provider) := Table.get?_key hj
      have hid : j.item = job.itemId := (Prod.mk.inj hkey).1
      exact ⟨⟨item, hitem, hcurrent.2⟩, j, hj,
        (h.held job hjob j (Table.get?_mem hj) hkey (of_decide_eq_true htoken) item
          (hid ▸ hitem)).2 hcurrent.1.symm⟩
    have hcomplete : Queued setup [] (answered.complete job
        (db.selected job.itemId ≠ answered.selected job.itemId) (answer.refreshAt.getD 0)) claims :=
      (h.edits hedits).complete (hsince.edits h hedits)
    exact (hcomplete.notes (followUp_notes job _)).edits (chooseAutomatic_edits now _ _)

theorem Queued.release {job : EnrichmentJob} {blocked : Bool} {dueAt : ℤ} {error : Option Text}
    {attempts : ℕ → ℕ} (h : Queued setup touching db claims) :
    Queued setup touching (db.release job blocked dueAt error attempts) claims := by
  refine h.update _ _ _ (fun j hdone => ?_) (fun _ => Or.inl rfl) fun _ => rfl
  -- The state is `blocked` or `retry`.
  cases blocked <;> cases hdone

theorem Queued.chooseAutomatic (h : Queued setup touching db claims) (now : ℤ) (id : Id) :
    Queued setup touching (db.chooseAutomatic setup now id) claims :=
  h.edits (chooseAutomatic_edits now id db)

theorem Queued.chooseWaiting (h : Queued setup touching db claims) (now : ℤ) (provider : Text) :
    Queued setup touching (db.chooseWaiting setup now provider) claims :=
  List.foldlRecOn (motive := fun d => Queued setup touching d claims) _ _ h
    fun _ hd id _ => hd.chooseAutomatic now id

theorem Queued.deferEnrichment {now : ℤ} {job : EnrichmentJob} (h : Queued setup touching db claims) :
    Queued setup touching (deferEnrichment setup now job db) claims := by
  unfold Enrichment.deferEnrichment
  split
  split_ifs
  · exact h.release.chooseAutomatic now _
  · exact h

theorem Queued.failEnrichment {now dueAt : ℤ} {job : EnrichmentJob} {error : Text}
    {providerWide blocked : Bool} (h : Queued setup touching db claims) :
    Queued setup touching (failEnrichment setup now job dueAt error providerWide blocked db)
      claims := by
  have hreleased : Queued setup touching (db.release job blocked dueAt (some error) id) claims :=
    h.release
  unfold Enrichment.failEnrichment
  dsimp only
  split_ifs
  · have hpaused : Queued setup touching ((db.release job blocked dueAt (some error) id).pause
        ⟨job.provider, dueAt, blocked, some error⟩) claims := hreleased.congr rfl rfl rfl rfl
    exact (hpaused.chooseAutomatic now job.itemId).chooseWaiting now job.provider
  · exact hreleased.chooseAutomatic now _
  · exact h

theorem Queued.wakeEnrichment {provider : Option Text} (h : Queued setup touching db claims) :
    Queued setup touching (wakeEnrichment provider db) claims := by
  have hunblocked : Queued setup touching (db.unblock provider) claims :=
    h.congr rfl rfl rfl rfl
  exact hunblocked.update _ _ _ (fun _ hdone => by cases hdone) (fun _ => Or.inr rfl) fun _ => rfl

/-- A new claim has the generation and the count of its row. -/
theorem Queued.claimEnrichment {provider : Text} {now leaseSeconds : ℤ} {token : Id}
    {job : EnrichmentJob} (h : Queued setup touching db claims)
    (hfresh : ∀ claim ∈ claims, claim.token ≠ token)
    (hclaim : claimEnrichment provider now leaseSeconds token db = .ok (some job, db')) :
    Queued setup touching db' (claims ++ [job]) := by
  unfold Enrichment.claimEnrichment at hclaim
  obtain ⟨-, -, hclaim⟩ := except_bind_eq_ok.mp hclaim
  split at hclaim
  · cases hclaim
  · rename_i row hrow
    cases hclaim
    obtain ⟨hrow, hclaimable⟩ := List.mem_filter.mp (List.argmin_mem hrow)
    have hprovider : row.provider = provider := by
      unfold Db.claimable at hclaimable
      simp only [Bool.and_eq_true, decide_eq_true_eq] at hclaimable
      exact hclaimable.1.1
    have hcurrent : ∀ item, db.items.get? row.item = some item →
        row.revision = item.enrichmentRevision := by
      intro item hitem
      unfold Db.claimable Db.current? at hclaimable
      simp only [Bool.and_eq_true, hitem, Option.any_eq_true, Option.filter_eq_some_iff] at hclaimable
      obtain ⟨⟨-, item', ⟨hsame, hcurrent⟩, -⟩, -⟩ := hclaimable
      cases hsame
      exact of_decide_eq_true hcurrent.1
    have hmem : ∀ j, j ∈ db.jobs.put (row.claim token (now + leaseSeconds)) →
        j = row.claim token (now + leaseSeconds) ∨ (j ∈ db.jobs ∧ j.key ≠ row.key) :=
      fun j hj => Table.mem_put.mp hj
    refine ⟨fun j hj => ?_, fun j hj hdone hlisted hid => ?_, fun claim hclaim j hj hkey htok item hitem => ?_⟩
    · rcases hmem j hj with rfl | ⟨hold, -⟩
      · exact h.lane row hrow
      · exact h.lane j hold
    · rcases hmem j hj with rfl | ⟨hold, -⟩
      · cases hdone
      · exact h.done j hold hdone hlisted hid
    · rcases List.mem_append.mp hclaim with hold | hnew
      · rcases hmem j hj with rfl | ⟨hj, -⟩
        · exact absurd (Option.some.inj htok).symm (hfresh claim hold)
        · exact h.held claim hold j hj hkey htok item hitem
      · rw [List.mem_singleton] at hnew
        subst hnew
        rcases hmem j hj with rfl | ⟨-, hne⟩
        · exact ⟨(hcurrent item hitem).le, fun _ => ⟨le_rfl, fun _ => by rw [← hprovider]; rfl⟩⟩
        · have hsame : (row.item, provider) = row.key := Prod.ext rfl hprovider.symm
          exact absurd (hkey.trans hsame) hne

theorem Queued.offerCandidates {id : Id} {revision : ℕ} {candidates : List EnrichmentCandidate}
    (h : Queued setup touching db claims)
    (hoffer : offerCandidates setup id revision candidates db = .ok db') :
    Queued setup touching db' claims := by
  unfold Enrichment.offerCandidates at hoffer
  obtain ⟨item, -, hoffer⟩ := except_bind_eq_ok.mp hoffer
  obtain ⟨-, -, hoffer⟩ := except_bind_eq_ok.mp hoffer
  refine except_foldlM_invariant (I := fun d => Queued setup touching d claims) hoffer h
    fun c _ a b ha hb => ?_
  unfold offerCandidateRow at hb
  obtain ⟨⟨record, stored⟩, hput, hb⟩ := except_bind_eq_ok.mp hb
  obtain ⟨-, -, hb⟩ := except_bind_eq_ok.mp hb
  cases hb
  exact (ha.notes (putCandidate_notes hput).1).congr rfl rfl rfl rfl

theorem Queued.decides {id : Id} (h : Queued setup touching db claims)
    (hdecides : Decides setup id db db') : Queued setup touching db' claims := by
  cases hdecides with
  | assigns stored hstored record => exact (h.notes hstored).replaceAssignment id _ true 100
  | clears => exact h.replaceAssignment id none false 0
  | rejectsSelected record =>
    have hrejected : Queued setup touching
        { db with rejections := db.rejections.put ⟨id, record⟩ } claims := h.congr rfl rfl rfl rfl
    exact hrejected.replaceAssignment id none false 0
  | rejectsOther record => exact h.bump_of rfl rfl rfl rfl
  | retries =>
    have hbumped : Queued setup touching (db.bump setup id) claims := h.bump_of rfl rfl rfl rfl
    exact hbumped.update _ _ _ (fun _ hdone => ⟨hdone, rfl⟩) (fun _ => Or.inr rfl) fun _ => rfl
  | restores record => exact h.bump_of rfl rfl rfl rfl
  | supplements stored hstored => exact (h.notes hstored).bump_of rfl rfl rfl rfl

theorem Queued.insertItem (h : Queued setup touching db claims) (id collection : Id) :
    Queued setup touching (insertItem setup id collection db) claims := by
  unfold Enrichment.insertItem
  split_ifs with hexists
  · exact h
  · rw [Option.not_isSome_iff_eq_none] at hexists
    -- No job is of the new item yet.
    have hother : ∀ j ∈ db.jobs, j.item ≠ id := fun j hj heq => by
      obtain ⟨item, hitem, -⟩ := h.lane j hj
      rw [heq, hexists] at hitem
      cases hitem
    have hitems : ∀ id', id' ≠ id → (db.items.put ⟨id, collection, 0⟩).get? id' =
        db.items.get? id' := fun id' hne => by
      rw [Table.get?_put, if_neg hne.symm]
    have hrow : ∀ j ∈ (Db.enqueue setup ⟨id, collection, 0⟩
        { db with items := db.items.put ⟨id, collection, 0⟩ }).jobs,
        (j = newJob id j.provider 0 ∧
          j.provider ∈ setup.lanes (setup.mediaType collection)) ∨ j ∈ db.jobs := by
      intro j hj
      have hget := Table.get?_of_mem hj
      rw [Db.get?_jobs_enqueue] at hget
      split_ifs at hget with hlane
      · have hnone : db.jobs.get? j.key = none := by
          by_contra hsome
          obtain ⟨j₀, hj₀⟩ := Option.ne_none_iff_exists'.mp hsome
          have hkey : j₀.key = j.key := Table.get?_key hj₀
          exact hother j₀ (Table.get?_mem hj₀) ((Prod.mk.inj hkey).1.trans hlane.1)
        rw [show Table.get? ({ db with items := db.items.put ⟨id, collection, 0⟩ } : Db).jobs j.key =
          none from hnone] at hget
        exact Or.inl ⟨(Option.some.inj hget).symm, hlane.2.1⟩
      · exact Or.inr (Table.get?_mem hget)
    refine ⟨fun j hj => ?_, fun j hj hdone hlisted hid => ?_,
      fun claim hclaim j hj hkey htok item hitem => ?_⟩
    · rcases hrow j hj with ⟨hnew, hprovider⟩ | hold
      · refine ⟨⟨id, collection, 0⟩, ?_, hprovider⟩
        rw [Db.items_enqueue, hnew]
        exact (Table.get?_put _ _ _).trans (if_pos rfl)
      · obtain ⟨item, hitem, hprovider⟩ := h.lane j hold
        refine ⟨item, ?_, hprovider⟩
        rw [Db.items_enqueue]
        exact (hitems j.item (hother j hold)).trans hitem
    · rcases hrow j hj with ⟨hnew, -⟩ | hold
      · rw [hnew] at hdone
        cases hdone
      · obtain ⟨item, hitem, hlibrary⟩ := hlisted
        rw [Db.items_enqueue] at hitem
        show _ = some (if j.item = id then _ else _)
        rw [if_neg (hother j hold)]
        exact h.done j hold hdone
          ⟨item, (hitems j.item (hother j hold)).symm.trans hitem, hlibrary⟩ hid
    · rcases hrow j hj with ⟨hnew, -⟩ | hold
      · rw [hnew] at htok
        cases htok
      · rw [Db.items_enqueue] at hitem
        unfold Unasked
        show _ ∧ (_ → _ ∧ (_ → _ = if j.item = id then _ else _))
        rw [if_neg (hother j hold)]
        exact h.held claim hclaim j hold hkey htok item
          ((hitems j.item (hother j hold)).symm.trans hitem)

theorem Queued.removeItem (h : Queued setup touching db claims) (id : Id) :
    Queued setup touching (removeItem id db) claims := by
  have hrow : ∀ j ∈ (Enrichment.removeItem id db).jobs, j ∈ db.jobs ∧
      (Enrichment.removeItem id db).items.get? j.item = db.items.get? j.item := by
    intro j hj
    obtain ⟨hj, hne⟩ := Table.mem_filter.mp hj
    refine ⟨hj, ?_⟩
    show (db.items.erase id).get? j.item = _
    rw [Table.get?_erase, if_neg (of_decide_eq_true hne).symm]
  refine ⟨fun j hj => ?_, fun j hj hdone hlisted hid => ?_,
    fun claim hclaim j hj hkey htok item hitem => ?_⟩
  · obtain ⟨hold, hitems⟩ := hrow j hj
    rw [hitems]
    exact h.lane j hold
  · obtain ⟨hold, hitems⟩ := hrow j hj
    obtain ⟨item, hitem, hlibrary⟩ := hlisted
    exact h.done j hold hdone ⟨item, hitems.symm.trans hitem, hlibrary⟩ hid
  · obtain ⟨hold, hitems⟩ := hrow j hj
    exact h.held claim hclaim j hold hkey htok item (hitems.symm.trans hitem)

theorem Queued.bumps (ids : List Id) (h : Queued setup ids db claims) :
    Queued setup [] (ids.foldl (fun db id => db.bump setup id) db) claims := by
  induction ids generalizing db with
  | nil => exact h
  | cons id ids ih => exact ih h.bump

/-- A second library of a collection changes nothing for its items. -/
theorem inLibrary_of_count {library collection : Id} {memberships : Table fun m : Membership => m}
    (hcount : ((memberships.put ⟨library, collection⟩).rows.countP
      fun m => m.collection = collection) ≠ 1) :
    memberships.rows.any (fun m => m.collection = collection) = true := by
  by_contra hnone
  rw [List.any_eq_true] at hnone
  refine hcount ?_
  rw [Table.rows_put, List.countP_append, List.countP_eq_zero.mpr]
  · simp
  · intro m hm hcollection
    exact hnone ⟨m, (List.mem_filter.mp hm).1, hcollection⟩

theorem Queued.addMembership (h : Queued setup [] db claims) (library collection : Id) :
    Queued setup [] (addMembership setup library collection db) claims := by
  unfold Enrichment.addMembership
  dsimp only
  have hput : ∀ c, (db.memberships.put ⟨library, collection⟩).rows.any
      (fun m => m.collection = c) = true → c = collection ∨ db.inLibrary c = true := by
    intro c hc
    obtain ⟨m, hm, hcollection⟩ := List.any_eq_true.mp hc
    rcases Table.mem_put.mp hm with rfl | ⟨hm, -⟩
    · exact Or.inl (of_decide_eq_true hcollection).symm
    · exact Or.inr (List.any_eq_true.mpr ⟨m, hm, hcollection⟩)
  split_ifs with hthere hcount
  · exact h
  · refine Queued.bumps _ ⟨h.lane, fun j hj hdone hlisted hid => ?_, h.held⟩
    obtain ⟨item, hitem, hlibrary⟩ := hlisted
    rcases hput _ hlibrary with hcollection | hlibrary
    · refine absurd (List.mem_map.mpr ⟨item, List.mem_filter.mpr
        ⟨Table.get?_mem hitem, decide_eq_true hcollection⟩, Table.get?_key hitem⟩) hid
    · exact h.done j hj hdone ⟨item, hitem, hlibrary⟩ List.not_mem_nil
  · refine ⟨h.lane, fun j hj hdone hlisted hid => ?_, h.held⟩
    obtain ⟨item, hitem, hlibrary⟩ := hlisted
    refine h.done j hj hdone ⟨item, hitem, ?_⟩ hid
    rcases hput _ hlibrary with hcollection | hlibrary
    · rw [hcollection]
      exact inLibrary_of_count hcount
    · exact hlibrary

theorem Queued.removeMembership (h : Queued setup touching db claims) (library collection : Id) :
    Queued setup touching (removeMembership library collection db) claims := by
  have hstored : Queued setup touching { db with
      memberships := db.memberships.filter fun m =>
        !(m.library = library && m.collection = collection) } claims := by
    refine ⟨h.lane, fun j hj hdone hlisted hid => ?_, h.held⟩
    obtain ⟨item, hitem, hlibrary⟩ := hlisted
    obtain ⟨m, hm, hcollection⟩ := List.any_eq_true.mp hlibrary
    exact h.done j hj hdone ⟨item, hitem,
      List.any_eq_true.mpr ⟨m, (Table.mem_filter.mp hm).1, hcollection⟩⟩ hid
  exact hstored.request _

/-! ## All runs -/

theorem queued_emptyTables (now : ℤ) :
    Queued setup [] (emptyTables now).db (emptyTables now).claims :=
  ⟨fun j hj => absurd hj (Table.not_mem_empty j), fun j hj => absurd hj (Table.not_mem_empty j),
    List.forall_mem_nil _⟩

theorem Queued.next {s s' : System} {e : Event} (h : Queued setup [] s.db s.claims)
    (he : s.next setup e = some s') : Queued setup [] s'.db s'.claims := by
  have hcommit : ∀ (tx : Tx Db), (∀ db, tx = .ok db → Queued setup [] db s.claims) →
      Queued setup [] (s.commit tx).db (s.commit tx).claims := fun tx htx => by
    rcases s.commit_cases tx with heq | ⟨db, hdb, heq⟩
    · rw [heq]
      exact h
    · rw [heq]
      exact htx db hdb
  cases e with
  | tick seconds =>
    cases he
    exact h
  | claim provider leaseSeconds token =>
    rw [System.next] at he
    split_ifs at he with hused
    have hfresh : ∀ claim ∈ s.claims, claim.token ≠ token := by simpa using hused
    split at he
    · rename_i job db hclaim
      cases he
      exact h.claimEnrichment hfresh hclaim
    · cases he
      exact h
  | finish place answer =>
    obtain ⟨job, hjob, rfl⟩ := Option.map_eq_some_iff.mp he
    refine hcommit _ fun db hdb => ?_
    obtain ⟨landed, hfinish⟩ := except_map_snd_eq_ok hdb
    exact h.finishEnrichment (List.mem_of_getElem? hjob) hfinish
  | fail place dueAt error providerWide blocked =>
    obtain ⟨job, -, rfl⟩ := Option.map_eq_some_iff.mp he
    exact h.failEnrichment
  | defer place =>
    obtain ⟨job, -, rfl⟩ := Option.map_eq_some_iff.mp he
    exact h.deferEnrichment
  | wake provider =>
    cases he
    exact h.wakeEnrichment
  | offer item revision candidates =>
    cases he
    exact hcommit _ fun db hdb => h.offerCandidates hdb
  | correct item revision action record =>
    cases he
    exact hcommit _ fun db hdb => h.decides (correctMetadata_decides hdb)
  | assignIdentity item revision saved =>
    cases he
    exact hcommit _ fun db hdb => h.decides (assignIdentity_decides hdb)
  | addSupplement item revision record =>
    cases he
    exact hcommit _ fun db hdb => h.decides (addSupplement_decides hdb)
  | changeItem item =>
    cases he
    exact h.bump_of rfl rfl rfl rfl
  | insertItem item collection =>
    cases he
    exact h.insertItem item collection
  | removeItem item =>
    cases he
    exact h.removeItem item
  | addMembership library collection =>
    cases he
    exact h.addMembership library collection
  | removeMembership library collection =>
    cases he
    exact h.removeMembership library collection
  | snapshot collection active =>
    cases he
    exact h.congr rfl rfl rfl rfl

/-- A claim that lost its token changes nothing. -/
theorem stale_of_not_holds {job : EnrichmentJob} (h : db.holds job = false) (now : ℤ) :
    (∀ answer, finishEnrichment setup now job answer db = .ok (false, db)) ∧
      (∀ dueAt error providerWide blocked,
        failEnrichment setup now job dueAt error providerWide blocked db = db) ∧
      deferEnrichment setup now job db = db := by
  refine ⟨fun answer => ?_, fun dueAt error providerWide blocked => ?_, ?_⟩
  · unfold finishEnrichment Db.accepts
    rw [h]
    rfl
  · unfold failEnrichment
    rw [h]
    rfl
  · unfold deferEnrichment
    rw [h]
    rfl

/-- A job that is done, of an item in a library, was not asked for since the claim
    that completed it, and a claim that lost its token changes nothing. -/
theorem requests_kept {start : ℤ} {s : System} (h : (machine setup start).Reachable s) :
    (∀ j ∈ s.db.jobs, j.state = .done → s.db.Listed j.item →
        j.answered = some (s.db.asks j.item j.provider)) ∧
      ∀ job ∈ s.claims, s.db.holds job = false →
        (∀ answer, finishEnrichment setup s.now job answer s.db = .ok (false, s.db)) ∧
        (∀ dueAt error providerWide blocked,
          failEnrichment setup s.now job dueAt error providerWide blocked s.db = s.db) ∧
        deferEnrichment setup s.now job s.db = s.db := by
  have hqueued : Queued setup [] s.db s.claims :=
    Machine.Reaches.invariant (I := fun s => Queued setup [] s.db s.claims) h
      (queued_emptyTables start) fun ha _ he => ha.next he
  exact ⟨fun j hj hdone hlisted => hqueued.done j hj hdone hlisted List.not_mem_nil,
    fun job _ hstale => stale_of_not_holds hstale s.now⟩

theorem nodup_tmdb_tvdb : [lit "tmdb", lit "tvdb"].Nodup := by decide

/-- Films, which are asked at `tmdb` before `tvdb`. -/
def films : Setup where
  mediaType _ := .movies
  order _ := [lit "tmdb", lit "tvdb"]
  nodup _ := nodup_tmdb_tvdb

/-- What a provider knows of a film. -/
def filmOf (provider externalId : Text) : ProviderRecord :=
  ⟨provider, lit "movie", externalId, lit "en", .movies, ⟨none, none, none, none, none⟩, none, none⟩

/-- An answer with one candidate at most. -/
def answerOf (candidates : List (ProviderRecord × ℤ)) : EnrichmentAnswer :=
  ⟨none, none, [], none, candidates.map fun (record, strength) => ⟨true, record, strength, []⟩, none⟩

/-- A film is found, and while `fanart` is asked about it, `tmdb` links it to
    another of its own records. -/
def linkedWhileClaimed : List Event :=
  [.addMembership 1 1, .insertItem 1 1, .claim (lit "tmdb") 180 1,
    .finish 0 (answerOf [(filmOf (lit "tmdb") (lit "7"), 20)]), .claim (lit "fanart") 180 2,
    .claim (lit "tmdb") 180 3,
    .finish 2 { answerOf [] with links := [(1, ⟨lit "tmdb", lit "movie", lit "8"⟩)] },
    .finish 1 (answerOf []), .claim (lit "tvdb") 180 4, .finish 3 (answerOf [])]

/-- Both lanes are asked again, and `tvdb` is done. -/
theorem requests_kept_linked : ∃ s,
    (machine films 0).replay (fun _ _ => true) linkedWhileClaimed (emptyTables 0) = some s ∧
    (s.db.jobs.get? (1, lit "fanart")).any (fun j => j.state = .pending) = true ∧
    (s.db.jobs.get? (1, lit "tmdb")).any (fun j => j.state = .pending) = true ∧
    (s.db.jobs.get? (1, lit "tvdb")).any (fun j => j.state = .done) = true ∧
    ∀ j ∈ s.db.jobs, j.state = .done → s.db.Listed j.item →
      j.answered = some (s.db.asks j.item j.provider) := by
  have hrun : (((machine films 0).replay (fun _ _ => true) linkedWhileClaimed
      (emptyTables 0)).any fun s =>
        (s.db.jobs.get? (1, lit "fanart")).any (fun j => j.state = .pending) &&
        (s.db.jobs.get? (1, lit "tmdb")).any (fun j => j.state = .pending) &&
        (s.db.jobs.get? (1, lit "tvdb")).any (fun j => j.state = .done)) = true := by
    decide
  obtain ⟨s, hs, hstates⟩ := (Option.any_eq_true _ _).mp hrun
  simp only [Bool.and_eq_true] at hstates
  exact ⟨s, hs, hstates.1.1, hstates.1.2, hstates.2,
    (requests_kept (Machine.reaches_of_replay hs).reachable).1⟩

end Kahawai.MediaDb.Enrichment
