import Mathlib.Data.List.Dedup
import Kahawai.MediaDb.Enrichment.Functions

/-!
# What a transaction does

The functions of enrichment are made of a few statements. `Edit` lists those that
the machine runs for an item: it stores records and links, asks for jobs, stores
candidates, and removes or makes automatic assignments. `finishAnswer_edits` and
`chooseAutomatic_cases` say that answers and the automatic choice do nothing
else; `correctMetadata_cases` and its neighbours say what people do. The
invariants of the other modules are proved for these steps.
-/

namespace Kahawai.MediaDb.Enrichment

open Kahawai.Core Kahawai.Lib Kahawai.Proto

variable {setup : Setup} {db db' : Db}

/-! ## Fields -/

namespace Db

@[simp] theorem items_request (p : Job → Bool) (db : Db) : (db.request p).items = db.items := rfl

@[simp] theorem memberships_request (p : Job → Bool) (db : Db) :
    (db.request p).memberships = db.memberships := rfl

@[simp] theorem pauses_request (p : Job → Bool) (db : Db) : (db.request p).pauses = db.pauses :=
  rfl

@[simp] theorem candidates_request (p : Job → Bool) (db : Db) :
    (db.request p).candidates = db.candidates := rfl

@[simp] theorem assignments_request (p : Job → Bool) (db : Db) :
    (db.request p).assignments = db.assignments := rfl

@[simp] theorem rejections_request (p : Job → Bool) (db : Db) :
    (db.request p).rejections = db.rejections := rfl

@[simp] theorem records_request (p : Job → Bool) (db : Db) :
    (db.request p).records = db.records := rfl

@[simp] theorem providerOf_request (p : Job → Bool) (db : Db) (record : Id) :
    (db.request p).providerOf record = db.providerOf record := rfl

theorem mem_jobs_request {p : Job → Bool} {j : Job} :
    j ∈ (db.request p).jobs ↔ ∃ j₀ ∈ db.jobs, (if p j₀ then j₀.request else j₀) = j := by
  unfold request updateJobs
  dsimp only
  rw [Table.mem_mapRows]

theorem get?_jobs_request (p : Job → Bool) (db : Db) (k : Id × Text) :
    (db.request p).jobs.get? k =
      (db.jobs.get? k).map fun j => if p j then j.request else j := by
  unfold request updateJobs
  dsimp only
  rw [Table.get?_mapRows]

theorem get?_jobs_updateJobs (p : Job → Bool) (f : Job → Job) (hf : ∀ j, (f j).key = j.key)
    (db : Db) (k : Id × Text) :
    (db.updateJobs p f hf).jobs.get? k = (db.jobs.get? k).map fun j => if p j then f j else j := by
  unfold updateJobs
  dsimp only
  rw [Table.get?_mapRows]

@[simp] theorem items_enqueue (item : Item) (db : Db) :
    (db.enqueue setup item).items = db.items := rfl

@[simp] theorem memberships_bump (id : Id) (db : Db) :
    (db.bump setup id).memberships = db.memberships := by
  unfold bump
  split <;> rfl

@[simp] theorem pauses_bump (id : Id) (db : Db) : (db.bump setup id).pauses = db.pauses := by
  unfold bump
  split <;> rfl

@[simp] theorem candidates_bump (id : Id) (db : Db) :
    (db.bump setup id).candidates = db.candidates := by
  unfold bump
  split <;> rfl

@[simp] theorem assignments_bump (id : Id) (db : Db) :
    (db.bump setup id).assignments = db.assignments := by
  unfold bump
  split <;> rfl

@[simp] theorem rejections_bump (id : Id) (db : Db) :
    (db.bump setup id).rejections = db.rejections := by
  unfold bump
  split <;> rfl

@[simp] theorem records_bump (id : Id) (db : Db) : (db.bump setup id).records = db.records := by
  unfold bump
  split <;> rfl

/-- The items after a new revision. -/
theorem get?_items_bump (id id' : Id) (db : Db) :
    (db.bump setup id).items.get? id' =
      if id = id' then (db.items.get? id').map fun item =>
        { item with enrichmentRevision := item.enrichmentRevision + 1 }
      else db.items.get? id' := by
  unfold bump
  cases hitem : db.items.get? id with
  | none =>
    split_ifs with h
    · rw [← h, hitem]
      rfl
    · rfl
  | some item =>
    obtain rfl : item.id = id := Table.get?_key hitem
    simp only [items_enqueue, Table.get?_put]
    split_ifs with h
    · rw [← h, hitem]
      rfl
    · rfl

/-! ## Jobs of a new revision -/

theorem get?_upsertJob (item : Id) (revision : ℕ) (jobs : Table Job.key) (provider : Text)
    (k : Id × Text) :
    (upsertJob item revision jobs provider).get? k =
      if (item, provider) = k then
        some (match jobs.get? k with
          | none => newJob item provider revision
          | some j => j.renew revision)
      else jobs.get? k := by
  unfold upsertJob
  rw [Table.get?_put]
  cases hjob : jobs.get? (item, provider) with
  | none =>
    show (if (item, provider) = k then _ else _) = _
    split_ifs with h
    · rw [← h, hjob]
    · rfl
  | some j =>
    have hkey : j.key = (item, provider) := Table.get?_key hjob
    show (if j.key = k then _ else _) = _
    rw [hkey]
    split_ifs with h
    · rw [← h, hjob]
    · rfl

/-- Every lane has a job at the revision, and other rows are as they were. -/
theorem get?_upsertJobs (item : Id) (revision : ℕ) {lanes : List Text} (hnodup : lanes.Nodup)
    (jobs : Table Job.key) (k : Id × Text) :
    (lanes.foldl (upsertJob item revision) jobs).get? k =
      if k.1 = item ∧ k.2 ∈ lanes then
        some (match jobs.get? k with
          | none => newJob item k.2 revision
          | some j => j.renew revision)
      else jobs.get? k := by
  induction lanes generalizing jobs with
  | nil => simp
  | cons lane lanes ih =>
    rw [List.foldl_cons, ih (List.nodup_cons.mp hnodup).2, get?_upsertJob]
    obtain ⟨id, provider⟩ := k
    have hlane := (List.nodup_cons.mp hnodup).1
    by_cases hid : id = item
    · subst hid
      by_cases heq : lane = provider
      · subst heq
        simp [hlane]
      · have hne : (id, lane) ≠ (id, provider) := fun h => heq (Prod.mk.inj h).2
        simp [hne, Ne.symm heq]
    · have hne : (item, lane) ≠ (id, provider) := fun h => hid (Prod.mk.inj h).1.symm
      simp [hid, hne]

theorem nodup_lanes (setup : Setup) (kind : MediaType) : (setup.lanes kind).Nodup :=
  List.nodup_dedup _

theorem get?_jobs_enqueue (item : Item) (db : Db) (k : Id × Text) :
    (db.enqueue setup item).jobs.get? k =
      if k.1 = item.id ∧ k.2 ∈ setup.lanes (setup.mediaType item.collection) ∧
          db.inLibrary item.collection = true then
        some (match db.jobs.get? k with
          | none => newJob item.id k.2 item.enrichmentRevision
          | some j => j.renew item.enrichmentRevision)
      else db.jobs.get? k := by
  unfold enqueue
  dsimp only
  split_ifs with hlib h h
  · rw [get?_upsertJobs _ _ (nodup_lanes setup _), if_pos ⟨h.1, h.2.1⟩]
  · rw [get?_upsertJobs _ _ (nodup_lanes setup _), if_neg fun h' => h ⟨h'.1, h'.2, hlib⟩]
  · exact absurd h.2.2 hlib
  · rfl

/-! ## Assignments -/

@[simp] theorem memberships_unassign (item : Id) (db : Db) :
    (db.unassign setup item).memberships = db.memberships := by
  unfold unassign
  split
  · rfl
  · rw [memberships_bump]

@[simp] theorem candidates_unassign (item : Id) (db : Db) :
    (db.unassign setup item).candidates = db.candidates := by
  unfold unassign
  split
  · rfl
  · rw [candidates_bump]

@[simp] theorem rejections_unassign (item : Id) (db : Db) :
    (db.unassign setup item).rejections = db.rejections := by
  unfold unassign
  split
  · rfl
  · rw [rejections_bump]

theorem assignments_unassign (item : Id) (db : Db) (id : Id) :
    (db.unassign setup item).assignments.get? id =
      if item = id then none else db.assignments.get? id := by
  unfold unassign
  cases hold : db.assignments.get? item with
  | none =>
    split_ifs with h
    · rw [← h, hold]
    · rfl
  | some old =>
    dsimp only
    rw [assignments_bump, Table.get?_erase]

theorem assignments_assign (row : Assignment) (db : Db) (id : Id) :
    (db.assign setup row).assignments.get? id =
      if row.item = id then some row else db.assignments.get? id := by
  unfold assign
  rw [assignments_bump, Table.get?_put]

end Db

/-! ## The machine's steps -/

/-- Only what is known of the records differs. -/
structure SameWork (db db' : Db) : Prop where
  items : db'.items = db.items
  memberships : db'.memberships = db.memberships
  snapshots : db'.snapshots = db.snapshots
  jobs : db'.jobs = db.jobs
  pauses : db'.pauses = db.pauses
  candidates : db'.candidates = db.candidates
  assignments : db'.assignments = db.assignments
  rejections : db'.rejections = db.rejections
  asks : db'.asks = db.asks

/-- The unique key of a record. -/
def Db.keyOf (db : Db) (record : Id) : Option (Text × Text × Text × Text) :=
  (db.records.get? record).map fun row => row.record.key

/-- `UNIQUE(provider,namespace,external_id,language)` holds. -/
def Db.Distinct (db : Db) : Prop :=
  ∀ r r' k, db.keyOf r = some k → db.keyOf r' = some k → r = r'

/-- One statement that stores what is known of records, or asks for jobs. -/
inductive Note (db : Db) : Db → Prop
  | records {db' : Db} (hsame : SameWork db db')
      (hkeys : ∀ record k, db.keyOf record = some k → db'.keyOf record = some k)
      (hdistinct : db.Distinct → db'.Distinct) : Note db db'
  | request (p : Job → Bool) : Note db (db.request p)

/-- Any number of such statements. -/
def Notes : Db → Db → Prop := Relation.ReflTransGen Note

theorem Note.notes (h : Note db db') : Notes db db' := Relation.ReflTransGen.single h

theorem Notes.refl : Notes db db := Relation.ReflTransGen.refl

theorem Notes.trans {db'' : Db} (h : Notes db db') (h' : Notes db' db'') : Notes db db'' :=
  Relation.ReflTransGen.trans h h'

theorem Notes.foldl {α : Type} {f : Db → α → Db} (hf : ∀ db a, Notes db (f db a)) (l : List α)
    (db : Db) : Notes db (l.foldl f db) := by
  induction l generalizing db with
  | nil => exact Notes.refl
  | cons a l ih => exact (hf db a).trans (ih (f db a))

/-- What every statement preserves holds after any number of them. -/
theorem Notes.invariant {I : Db → Prop} (h : Notes db db') (hdb : I db)
    (hstep : ∀ {a b}, Note a b → I a → I b) : I db' := by
  induction h with
  | refl => exact hdb
  | tail _ hlast ih => exact hstep hlast ih

variable (setup) in
/-- One statement of the machine for an item. -/
inductive Edit (id : Id) (db : Db) : Db → Prop
  | note {db' : Db} (h : Note db db') : Edit id db db'
  /-- A candidate of an answer to a question about the item. -/
  | store (c : Candidate) (item : Item) (hid : c.item = id)
      (hrecord : (db.keyOf c.record).isSome) (hitem : db.items.get? id = some item)
      (hrevision : c.revision ≤ item.enrichmentRevision) (hearned : c.earned = some c.revision) :
      Edit id db { db with candidates := db.candidates.put c }
  | unassign (hauto : ∀ a, db.assignments.get? id = some a → a.manual = false) :
      Edit id db (db.unassign setup id)
  | assign (record : Id) (strength : ℤ) (hnone : db.assignments.get? id = none)
      (hrejected : db.rejected id record = false) :
      Edit id db (db.assign setup ⟨id, record, false, strength⟩)

variable (setup) in
/-- Any number of such statements. -/
def Edits (id : Id) : Db → Db → Prop := Relation.ReflTransGen (Edit setup id)

theorem Edit.edits {id : Id} (h : Edit setup id db db') : Edits setup id db db' :=
  Relation.ReflTransGen.single h

theorem Edits.trans {id : Id} {db'' : Db} (h : Edits setup id db db')
    (h' : Edits setup id db' db'') : Edits setup id db db'' :=
  Relation.ReflTransGen.trans h h'

/-- What every statement preserves holds after any number of them. -/
theorem Edits.invariant {id : Id} {I : Db → Prop} (h : Edits setup id db db') (hdb : I db)
    (hstep : ∀ {a b}, Edit setup id a b → I a → I b) : I db' := by
  induction h with
  | refl => exact hdb
  | tail _ hlast ih => exact hstep hlast ih

theorem Notes.edits {id : Id} (h : Notes db db') : Edits setup id db db' :=
  Relation.ReflTransGen.mono (fun _ _ hnote => .note hnote) _ _ h

/-! ### Items -/

/-- An item stays in its collection, and its revision does not fall. -/
theorem Edit.get?_items {id id' : Id} {item : Item} (h : Edit setup id db db')
    (hitem : db.items.get? id' = some item) : ∃ item', db'.items.get? id' = some item' ∧
      item'.collection = item.collection ∧ item.enrichmentRevision ≤ item'.enrichmentRevision ∧
      (id ≠ id' → item' = item) := by
  have hsame : ∀ d : Db, d.items = db.items → ∃ item', d.items.get? id' = some item' ∧
      item'.collection = item.collection ∧ item.enrichmentRevision ≤ item'.enrichmentRevision ∧
      (id ≠ id' → item' = item) := fun d hd => ⟨item, hd ▸ hitem, rfl, le_rfl, fun _ => rfl⟩
  have hbump : ∀ d : Db, d.items = db.items → ∃ item', (d.bump setup id).items.get? id' = some item' ∧
      item'.collection = item.collection ∧ item.enrichmentRevision ≤ item'.enrichmentRevision ∧
      (id ≠ id' → item' = item) := fun d hd => by
    rw [Db.get?_items_bump, hd, hitem]
    split_ifs with heq
    · exact ⟨_, rfl, rfl, Nat.le_succ _, fun hne => absurd heq hne⟩
    · exact ⟨item, rfl, rfl, le_rfl, fun _ => rfl⟩
  cases h with
  | note h =>
    cases h with
    | records h => exact hsame _ h.items
    | request p => exact hsame _ rfl
  | store => exact hsame _ rfl
  | unassign hauto =>
    unfold Db.unassign
    split
    · exact hsame _ rfl
    · exact hbump _ rfl
  | assign => exact hbump _ rfl

theorem Edits.get?_items {id id' : Id} {item : Item} (h : Edits setup id db db')
    (hitem : db.items.get? id' = some item) : ∃ item', db'.items.get? id' = some item' ∧
      item'.collection = item.collection ∧ item.enrichmentRevision ≤ item'.enrichmentRevision ∧
      (id ≠ id' → item' = item) := by
  refine h.invariant (I := fun d => ∃ item', d.items.get? id' = some item' ∧
    item'.collection = item.collection ∧ item.enrichmentRevision ≤ item'.enrichmentRevision ∧
    (id ≠ id' → item' = item)) ⟨item, hitem, rfl, le_rfl, fun _ => rfl⟩ ?_
  rintro a b hab ⟨item₁, hitem₁, hcollection, hle, hother⟩
  obtain ⟨item₂, hitem₂, hcollection', hle', hother'⟩ := hab.get?_items hitem₁
  exact ⟨item₂, hitem₂, hcollection'.trans hcollection, hle.trans hle',
    fun hne => (hother' hne).trans (hother hne)⟩

/-! ### Records -/

theorem findRecord_eq_some {record : ProviderRecord} {row : RecordRow}
    (h : db.findRecord record = some row) : row ∈ db.records ∧ row.record.key = record.key :=
  ⟨List.mem_of_find?_eq_some h, by simpa using List.find?_some h⟩

theorem lt_newRecord {row : RecordRow} (h : row ∈ db.records) : row.id < db.newRecord := by
  have hle : ∀ l : List RecordRow, row ∈ l → row.id ≤ (l.map RecordRow.id).foldr max 0 := by
    intro l
    induction l with
    | nil => exact fun hrow => absurd hrow List.not_mem_nil
    | cons a l ih =>
      intro hrow
      rcases List.mem_cons.mp hrow with rfl | hrow
      · exact le_max_left _ _
      · exact (ih hrow).trans (le_max_right _ _)
  exact Nat.lt_succ_of_le (hle _ h)

/-- A row whose key is that of the old row, or is new. -/
theorem keyOf_put {row : RecordRow} (id : Id) :
    ({ db with records := db.records.put row } : Db).keyOf id =
      if row.id = id then some row.record.key else db.keyOf id := by
  unfold Db.keyOf
  dsimp only
  rw [Table.get?_put]
  split_ifs <;> rfl

theorem keyOf_of_mem {row : RecordRow} (h : row ∈ db.records) :
    db.keyOf row.id = some row.record.key := by
  unfold Db.keyOf
  rw [Table.get?_of_mem h]
  rfl

theorem keyOf_eq_some {id : Id} {k : Text × Text × Text × Text} (h : db.keyOf id = some k) :
    ∃ row ∈ db.records, row.id = id ∧ row.record.key = k := by
  obtain ⟨row, hrow, rfl⟩ := Option.map_eq_some_iff.mp h
  exact ⟨row, Table.get?_mem hrow, Table.get?_key hrow, rfl⟩

/-- `put_record` stores notes, and its record has that ID. -/
theorem putRecord_notes {record : ProviderRecord} {r : Id} (h : putRecord record db = .ok (r, db')) :
    Notes db db' ∧ db'.keyOf r = some record.key := by
  unfold putRecord at h
  cases hfound : db.findRecord record with
  | none =>
    rw [hfound] at h
    cases h
    have hnew : db.keyOf db.newRecord = none := by
      by_contra hsome
      obtain ⟨k, hk⟩ := Option.ne_none_iff_exists'.mp hsome
      obtain ⟨row, hrow, hid, -⟩ := keyOf_eq_some hk
      exact absurd (lt_newRecord hrow) (hid ▸ lt_irrefl _)
    have hother : ∀ id, db.keyOf id ≠ some record.key := fun id hid => by
      obtain ⟨row, hrow, -, hkey⟩ := keyOf_eq_some hid
      exact List.find?_eq_none.mp hfound row hrow (decide_eq_true hkey)
    refine ⟨Note.notes (.records ⟨rfl, rfl, rfl, rfl, rfl, rfl, rfl, rfl, rfl⟩ (fun id k hk => ?_)
      fun hdistinct id id' k hk hk' => ?_), ?_⟩
    · rw [keyOf_put, if_neg fun heq => ?_]
      · exact hk
      · rw [← show db.newRecord = id from heq, hnew] at hk
        cases hk
    · rw [keyOf_put] at hk hk'
      split_ifs at hk hk' with heq heq'
      · exact heq.symm.trans heq'
      · exact absurd (hk'.trans hk.symm) (hother id')
      · exact absurd (hk.trans hk'.symm) (hother id)
      · exact hdistinct id id' k hk hk'
    · rw [keyOf_put, if_pos rfl]
  | some row =>
    obtain ⟨hrow, hkey⟩ := findRecord_eq_some hfound
    rw [hfound] at h
    simp only [ensure, bind, Except.bind] at h
    split_ifs at h
    cases h
    have hsame : ∀ id, ({ db with records := db.records.put { row with record := record } } : Db).keyOf
        id = db.keyOf id := fun id => by
      rw [keyOf_put]
      split_ifs with heq
      · rw [← show row.id = id from heq, keyOf_of_mem hrow, hkey]
      · rfl
    have hstored : Note db { db with records := db.records.put { row with record := record } } :=
      .records ⟨rfl, rfl, rfl, rfl, rfl, rfl, rfl, rfl, rfl⟩ (fun id k hk => (hsame id).trans hk)
        fun hdistinct id id' k hk hk' =>
          hdistinct id id' k ((hsame id).symm.trans hk) ((hsame id').symm.trans hk')
    have hid : db.keyOf row.id = some record.key := (keyOf_of_mem hrow).trans (congrArg some hkey)
    unfold Db.updateRecord
    dsimp only
    split_ifs
    · exact ⟨hstored.notes, (hsame _).trans hid⟩
    · exact ⟨hstored.notes.trans (Note.notes (.request _)), (hsame _).trans hid⟩

theorem putCandidate_notes {candidate : EnrichmentCandidate} {r : Id}
    (h : putCandidate candidate db = .ok (r, db')) :
    Notes db db' ∧ db'.keyOf r = some candidate.record.key := by
  unfold putCandidate at h
  cases hfound : db.findRecord candidate.record with
  | none =>
    rw [hfound] at h
    exact putRecord_notes h
  | some row =>
    rw [hfound] at h
    dsimp only at h
    split_ifs at h
    · exact putRecord_notes h
    · cases h
      obtain ⟨hrow, hkey⟩ := findRecord_eq_some hfound
      exact ⟨Notes.refl, (keyOf_of_mem hrow).trans (congrArg some hkey)⟩

/-- A statement on links, supplements or local metadata. -/
theorem note_evidence (hsame : SameWork db db') (hrecords : db'.records = db.records) :
    Note db db' := by
  have hkeys : ∀ record, db'.keyOf record = db.keyOf record := fun record => by
    unfold Db.keyOf
    rw [hrecords]
  refine .records hsame (fun record k hk => (hkeys record).trans hk) fun hdistinct r r' k hk hk' => ?_
  rw [hkeys] at hk hk'
  exact hdistinct r r' k hk hk'

theorem requestWork_notes (item : Id) (providers : List Text) (db : Db) :
    Notes db (db.requestWork item providers) :=
  Notes.foldl (fun _ _ => Note.notes (.request _)) providers db

theorem addLink_notes (record : Id) (link : RecordLink) (db : Db) :
    Notes db (db.addLink record link) := by
  have hstored : Note db { db with links := db.links.put ⟨record, link⟩ } :=
    note_evidence ⟨rfl, rfl, rfl, rfl, rfl, rfl, rfl, rfl, rfl⟩ rfl
  unfold Db.addLink
  split_ifs
  · exact Notes.refl
  · exact hstored.notes.trans (Note.notes (.request _))
  · exact hstored.notes

theorem dropSupplements_notes (item : Id) (provider : Text) (db : Db) :
    Notes db (db.dropSupplements item provider) :=
  Note.notes (note_evidence ⟨rfl, rfl, rfl, rfl, rfl, rfl, rfl, rfl, rfl⟩ rfl)

theorem insertSupplement_notes (row : Supplement) (db : Db) :
    Notes db (db.insertSupplement row) := by
  have hstored : Note db { db with supplements := db.supplements.put row } :=
    note_evidence ⟨rfl, rfl, rfl, rfl, rfl, rfl, rfl, rfl, rfl⟩ rfl
  unfold Db.insertSupplement
  cases db.records.get? row.record with
  | none => exact hstored.notes
  | some record =>
    dsimp only
    split_ifs
    · exact (hstored.notes.trans (Note.notes (.request _))).trans (Note.notes (.request _))
    · exact hstored.notes.trans (Note.notes (.request _))

theorem addSupplementRow_notes (row : Supplement) (db : Db) :
    Notes db (db.addSupplementRow row) := by
  unfold Db.addSupplementRow
  split_ifs
  · exact Notes.refl
  · exact insertSupplement_notes row db

theorem insertLocal_notes (row : LocalMetadata) (db : Db) : Notes db (db.insertLocal row) := by
  have hstored : Note db { db with locals := db.locals.put row } :=
    note_evidence ⟨rfl, rfl, rfl, rfl, rfl, rfl, rfl, rfl, rfl⟩ rfl
  exact hstored.notes.trans (Note.notes (.request _))

/-! ### Automatic assignments -/

/-- The machine replaces an automatic assignment. -/
theorem replaceAssignment_edits {id : Id} {record : Option Id} {strength : ℤ}
    (hauto : ∀ a, db.assignments.get? id = some a → a.manual = false)
    (hrejected : ∀ r, record = some r → db.rejected id r = false) :
    Edits setup id db (db.replaceAssignment setup id record false strength) := by
  have hunassign : Edit setup id db (db.unassign setup id) := .unassign hauto
  unfold Db.replaceAssignment
  cases record with
  | none => exact hunassign.edits
  | some r =>
    refine hunassign.edits.trans (Edit.edits (.assign r strength ?_ ?_))
    · rw [Db.assignments_unassign, if_pos rfl]
    · unfold Db.rejected
      rw [Db.rejections_unassign]
      exact hrejected r rfl

theorem judge_edits (job : EnrichmentJob) (record : Id) (strength : ℤ) (db : Db) :
    Edits setup job.itemId db (db.judge setup job record strength) := by
  unfold Db.judge
  dsimp only
  split_ifs with hskip htakes
  · exact Relation.ReflTransGen.refl
  · simp only [Bool.or_eq_true, decide_eq_true_eq, not_or, Bool.not_eq_true] at hskip
    refine replaceAssignment_edits (fun a ha => ?_) fun r hr => ?_
    · -- A pinned assignment is not taken over.
      rw [ha, takes, Bool.and_eq_true] at htakes
      simpa using htakes.1
    · rw [← Option.some.inj hr]
      exact hskip.1
  · cases db.assignments.get? job.itemId with
    | none => exact Relation.ReflTransGen.refl
    | some old =>
      dsimp only
      split_ifs
      · exact ((dropSupplements_notes _ _ _).trans (addSupplementRow_notes _ _)).edits
      · exact Relation.ReflTransGen.refl

theorem choice_eq_some {now : ℤ} {id : Id} {c : Candidate}
    (h : db.choice setup now id = some c) : ∃ item, db.items.get? id = some item ∧
      db.assignments.get? id = none ∧ c ∈ db.eligible item := by
  unfold Db.choice at h
  cases hitem : db.items.get? id with
  | none => simp [hitem] at h
  | some item =>
    simp only [hitem] at h
    split_ifs at h with hguard
    cases hbest : (db.eligible item).argmin (db.preference setup item) with
    | none => simp [hbest] at h
    | some best =>
      simp only [hbest] at h
      split_ifs at h
      cases h
      rw [Bool.or_eq_true, not_or, Bool.not_eq_true, Option.isSome_eq_false_iff,
        Option.isNone_iff_eq_none] at hguard
      unfold Db.selected at hguard
      exact ⟨item, rfl, Option.map_eq_none_iff.mp hguard.1, List.argmin_mem hbest⟩

theorem mem_eligible {item : Item} {c : Candidate} :
    c ∈ db.eligible item ↔ c ∈ db.candidates ∧ c.item = item.id ∧
      c.revision = item.enrichmentRevision ∧ 10 ≤ c.strength ∧
      db.rejected c.item c.record = false := by
  unfold Db.eligible
  rw [List.mem_filter]
  simp [Table.mem_def, and_assoc]

theorem chooseAutomatic_edits (now : ℤ) (id : Id) (db : Db) :
    Edits setup id db (db.chooseAutomatic setup now id) := by
  unfold Db.chooseAutomatic
  cases hchoice : db.choice setup now id with
  | none => exact Relation.ReflTransGen.refl
  | some c =>
    obtain ⟨item, hitem, hnone, hmem⟩ := choice_eq_some hchoice
    obtain ⟨-, hid, -, -, hrejected⟩ := mem_eligible.mp hmem
    refine replaceAssignment_edits (fun a ha => ?_) fun r hr => ?_
    · rw [hnone] at ha
      cases ha
    · rw [← Option.some.inj hr, ← hrejected, hid, Table.get?_key hitem]

/-! ### Answers -/

theorem ensure_eq_ok {p : Bool} {message : String} {u : Unit} :
    ensure p message = .ok u ↔ p = true := by
  unfold ensure
  cases p with
  | true => exact ⟨fun _ => rfl, fun _ => rfl⟩
  | false => exact ⟨fun h => (by cases h), fun h => (by cases h)⟩

/-- A question about the item was asked at a revision it has reached. -/
def Db.Reaches (db : Db) (job : EnrichmentJob) : Prop :=
  ∃ item, db.items.get? job.itemId = some item ∧ job.revision ≤ item.enrichmentRevision

theorem Edits.reaches {id : Id} {job : EnrichmentJob} (h : Edits setup id db db')
    (hjob : db.Reaches job) : db'.Reaches job := by
  obtain ⟨item, hitem, hle⟩ := hjob
  obtain ⟨item', hitem', -, hle', -⟩ := h.get?_items hitem
  exact ⟨item', hitem', hle.trans hle'⟩

theorem finishCandidate_edits {job : EnrichmentJob} {kind : MediaType}
    {candidate : EnrichmentCandidate} (hjob : db.Reaches job)
    (h : finishCandidate setup job kind db candidate = .ok db') :
    Edits setup job.itemId db db' := by
  unfold finishCandidate at h
  obtain ⟨-, -, h⟩ := except_bind_eq_ok.mp h
  obtain ⟨⟨record, stored⟩, hput, h⟩ := except_bind_eq_ok.mp h
  obtain ⟨-, -, h⟩ := except_bind_eq_ok.mp h
  cases h
  obtain ⟨hnotes, hkey⟩ := putCandidate_notes hput
  have hedits : Edits setup job.itemId db stored := hnotes.edits
  obtain ⟨item, hitem, hle⟩ := hedits.reaches hjob
  refine (hedits.trans (Edit.edits ?_)).trans
    ((Notes.foldl (fun db link => addLink_notes record link db) _ _).edits.trans (judge_edits job _ _ _))
  exact .store _ item rfl (by rw [hkey]; rfl) hitem hle rfl

theorem finishArtwork_notes {job : EnrichmentJob} {kind : MediaType}
    {supplement : Option ProviderRecord}
    (h : finishArtwork job kind supplement db = .ok db') : Notes db db' := by
  unfold finishArtwork at h
  cases supplement with
  | none =>
    cases h
    exact Notes.refl
  | some record =>
    obtain ⟨-, -, h⟩ := except_bind_eq_ok.mp h
    cases hverified : db.verified job.itemId record with
    | none =>
      rw [hverified] at h
      cases h
      exact Notes.refl
    | some primary =>
      rw [hverified] at h
      obtain ⟨⟨id, stored⟩, hput, h⟩ := except_bind_eq_ok.mp h
      cases h
      exact (putRecord_notes hput).1.trans
        ((dropSupplements_notes _ _ _).trans (addSupplementRow_notes _ _))

theorem finishLink_notes {job : EnrichmentJob} {link : Id × RecordLink}
    (h : finishLink job db link = .ok db') : Notes db db' := by
  unfold finishLink at h
  obtain ⟨-, -, h⟩ := except_bind_eq_ok.mp h
  split_ifs at h
  · cases h
    exact Notes.refl
  · cases h
    exact (addLink_notes _ _ _).trans (requestWork_notes _ _ _)

theorem storeLocal_notes {item : Id} {record : Option ProviderRecord}
    (h : storeLocal item record db = .ok db') : Notes db db' := by
  have herase : Notes db { db with locals := db.locals.erase item } :=
    Note.notes (note_evidence ⟨rfl, rfl, rfl, rfl, rfl, rfl, rfl, rfl, rfl⟩ rfl)
  unfold storeLocal at h
  cases record with
  | none =>
    cases h
    exact herase
  | some record =>
    obtain ⟨⟨r, put⟩, hput, h⟩ := except_bind_eq_ok.mp h
    cases h
    exact herase.trans ((putRecord_notes hput).1.trans (insertLocal_notes _ _))

theorem finishLocal_edits {job : EnrichmentJob} {answer : EnrichmentAnswer}
    (h : finishLocal setup job answer db = .ok db') : Edits setup job.itemId db db' := by
  unfold finishLocal at h
  split_ifs at h
  · obtain ⟨stored, hstored, h⟩ := except_bind_eq_ok.mp h
    have hlocal : Edits setup job.itemId db stored := (storeLocal_notes hstored).edits
    cases h
    split_ifs with hgone
    · rw [Bool.and_eq_true] at hgone
      refine hlocal.trans (replaceAssignment_edits (fun a ha => ?_) fun r hr => by cases hr)
      have hselected := hgone.2
      unfold Db.selectedLocal at hselected
      rw [ha] at hselected
      simp only [Option.any_some, Bool.and_eq_true] at hselected
      simpa using hselected.1
    · exact hlocal
  · cases h
    exact Relation.ReflTransGen.refl

theorem finishArtist_notes {job : EnrichmentJob} {artist : Option Text}
    (h : finishArtist job artist db = .ok db') : Notes db db' := by
  unfold finishArtist at h
  cases artist with
  | none =>
    cases h
    exact Notes.refl
  | some artist =>
    obtain ⟨-, -, h⟩ := except_bind_eq_ok.mp h
    cases h
    exact requestWork_notes _ _ _

theorem finishAnswer_edits {job : EnrichmentJob} {answer : EnrichmentAnswer} {kind : MediaType}
    (hjob : db.Reaches job) (h : finishAnswer setup job answer kind db = .ok db') :
    Edits setup job.itemId db db' := by
  unfold finishAnswer at h
  obtain ⟨d₁, h₁, h⟩ := except_bind_eq_ok.mp h
  obtain ⟨d₂, h₂, h⟩ := except_bind_eq_ok.mp h
  obtain ⟨d₃, h₃, h⟩ := except_bind_eq_ok.mp h
  obtain ⟨d₄, h₄, h₅⟩ := except_bind_eq_ok.mp h
  have hcandidates : Edits setup job.itemId db d₁ :=
    except_foldlM_invariant h₁ Relation.ReflTransGen.refl fun c _ a b ha hb =>
      ha.trans (finishCandidate_edits (ha.reaches hjob) hb)
  have hlinks : Notes d₂ d₃ :=
    except_foldlM_invariant h₃ Notes.refl fun link _ a b ha hb => ha.trans (finishLink_notes hb)
  exact hcandidates.trans (((finishArtwork_notes h₂).trans hlinks).edits.trans
    ((finishLocal_edits h₄).trans (finishArtist_notes h₅).edits))

theorem followUp_notes (job : EnrichmentJob) (db : Db) : Notes db (db.followUp job) := by
  have hoptional : ∀ (p : Prop) [Decidable p] (providers : List Text) (d : Db),
      Notes d (if p then d.requestWork job.itemId providers else d) :=
    fun p _ providers d => by
      split_ifs
      · exact requestWork_notes _ _ _
      · exact Notes.refl
  exact (hoptional _ _ _).trans (hoptional _ _ _)

/-- `finish_enrichment` does nothing, or it runs statements for the item, completes
    the job and chooses. -/
theorem finishEnrichment_cases {now : ℤ} {job : EnrichmentJob} {answer : EnrichmentAnswer}
    {landed : Bool} (h : finishEnrichment setup now job answer db = .ok (landed, db')) :
    (db.accepts job = false ∧ landed = false ∧ db' = db) ∨
      (db.accepts job = true ∧ landed = true ∧ ∃ answered, Edits setup job.itemId db answered ∧
        db' = ((answered.complete job (db.selected job.itemId ≠ answered.selected job.itemId)
          (answer.refreshAt.getD 0)).followUp job).chooseAutomatic setup now job.itemId) := by
  unfold finishEnrichment at h
  split_ifs at h with haccepts
  · cases h
    rw [Bool.not_eq_true'] at haccepts
    exact Or.inl ⟨haccepts, rfl, rfl⟩
  · rw [Bool.not_eq_true', Bool.not_eq_false] at haccepts
    obtain ⟨item, hitem, h⟩ := except_bind_eq_ok.mp h
    obtain ⟨answered, hanswered, h⟩ := except_bind_eq_ok.mp h
    cases h
    refine Or.inr ⟨haccepts, rfl, answered, finishAnswer_edits ?_ hanswered, rfl⟩
    unfold Db.accepts at haccepts
    rw [Bool.and_eq_true, Option.any_eq_true] at haccepts
    obtain ⟨item', hitem', hrevision⟩ := haccepts.2
    rw [Bool.and_eq_true, decide_eq_true_eq] at hrevision
    exact ⟨item', hitem', hrevision.1.ge⟩

/-! ## What people do -/

variable (setup) in
/-- What a transaction of a person commits. -/
inductive Decides (id : Id) (db : Db) : Db → Prop
  | assigns (stored : Db) (hstored : Notes db stored) (record : Id) :
      Decides id db (stored.replaceAssignment setup id (some record) true 100)
  | clears : Decides id db (db.replaceAssignment setup id none false 0)
  | rejectsSelected (record : Id) (hselected : db.selected id = some record) :
      Decides id db (({ db with
        rejections := db.rejections.put ⟨id, record⟩ } : Db).replaceAssignment setup id none false 0)
  | rejectsOther (record : Id) (hselected : db.selected id ≠ some record) :
      Decides id db (({ db with rejections := db.rejections.put ⟨id, record⟩ } : Db).bump setup id)
  | retries : Decides id db ((db.bump setup id).updateJobs (fun j => j.item = id)
      (fun j => { j with force := true }) fun _ => rfl)
  | restores (record : Id) : Decides id db ((db.unreject id record).bump setup id)
  | supplements (stored : Db) (hstored : Notes db stored) :
      Decides id db (stored.bump setup id)

theorem correctMetadata_decides {id : Id} {revision : ℕ} {action : Action} {record : Option Id}
    (h : correctMetadata setup id revision action record db = .ok db') :
    Decides setup id db db' := by
  have hassigns : ∀ r : Id, Decides setup id db (db.replaceAssignment setup id (some r) true 100) :=
    fun r => .assigns db Notes.refl r
  unfold correctMetadata at h
  obtain ⟨item, -, h⟩ := except_bind_eq_ok.mp h
  obtain ⟨-, -, h⟩ := except_bind_eq_ok.mp h
  cases action with
  | pick =>
    obtain ⟨r, -, h⟩ := except_bind_eq_ok.mp h
    obtain ⟨-, -, h⟩ := except_bind_eq_ok.mp h
    obtain ⟨-, -, h⟩ := except_bind_eq_ok.mp h
    cases h
    exact hassigns r
  | confirm =>
    obtain ⟨r, -, h⟩ := except_bind_eq_ok.mp h
    obtain ⟨-, -, h⟩ := except_bind_eq_ok.mp h
    obtain ⟨-, -, h⟩ := except_bind_eq_ok.mp h
    cases h
    exact hassigns r
  | reject =>
    obtain ⟨r, -, h⟩ := except_bind_eq_ok.mp h
    obtain ⟨-, -, h⟩ := except_bind_eq_ok.mp h
    cases h
    split_ifs with hselected
    · exact .rejectsSelected r hselected
    · exact .rejectsOther r hselected
  | clear =>
    cases h
    exact .clears
  | retry =>
    cases h
    exact .retries
  | restore =>
    obtain ⟨r, -, h⟩ := except_bind_eq_ok.mp h
    cases h
    exact .restores r
  | unknown => cases h

theorem assignIdentity_decides {id : Id} {revision : ℕ} {saved : Saved}
    (h : assignIdentity setup id revision saved db = .ok db') : Decides setup id db db' := by
  unfold assignIdentity at h
  obtain ⟨item, -, h⟩ := except_bind_eq_ok.mp h
  obtain ⟨-, -, h⟩ := except_bind_eq_ok.mp h
  cases saved with
  | found record =>
    obtain ⟨row, -, h⟩ := except_bind_eq_ok.mp h
    cases h
    exact .assigns db Notes.refl _
  | manual externalId =>
    obtain ⟨⟨record, stored⟩, hput, h⟩ := except_bind_eq_ok.mp h
    cases h
    exact .assigns stored (putRecord_notes hput).1 _

theorem addSupplement_notes {id : Id} {revision : ℕ} {record : Id}
    (h : addSupplement setup id revision record db = .ok db') :
    ∃ stored, Notes db stored ∧ db' = stored.bump setup id := by
  unfold addSupplement at h
  obtain ⟨item, -, h⟩ := except_bind_eq_ok.mp h
  obtain ⟨primary, -, h⟩ := except_bind_eq_ok.mp h
  obtain ⟨-, -, h⟩ := except_bind_eq_ok.mp h
  obtain ⟨-, -, h⟩ := except_bind_eq_ok.mp h
  obtain ⟨-, -, h⟩ := except_bind_eq_ok.mp h
  obtain ⟨-, -, h⟩ := except_bind_eq_ok.mp h
  obtain ⟨provider, -, h⟩ := except_bind_eq_ok.mp h
  cases h
  exact ⟨_, (dropSupplements_notes _ _ _).trans (insertSupplement_notes _ _), rfl⟩

theorem addSupplement_decides {id : Id} {revision : ℕ} {record : Id}
    (h : addSupplement setup id revision record db = .ok db') : Decides setup id db db' := by
  obtain ⟨stored, hstored, rfl⟩ := addSupplement_notes h
  exact .supplements stored hstored

/-! ## Commits -/

theorem System.commit_cases (s : System) (tx : Tx Db) :
    s.commit tx = s ∨ ∃ db, tx = .ok db ∧ s.commit tx = { s with db := db } := by
  cases tx with
  | error message => exact Or.inl rfl
  | ok db => exact Or.inr ⟨db, rfl, rfl⟩

theorem except_map_snd_eq_ok {tx : Tx (Bool × Db)} (h : tx.map Prod.snd = .ok db) :
    ∃ landed, tx = .ok (landed, db) := by
  cases tx with
  | error message => cases h
  | ok result =>
    cases h
    exact ⟨result.1, rfl⟩

end Kahawai.MediaDb.Enrichment
