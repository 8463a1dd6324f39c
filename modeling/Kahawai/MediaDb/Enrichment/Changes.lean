import Kahawai.MediaDb.Enrichment.Edits

/-!
# What an event does to identities

The candidates, the assignments, the rejections and the items, seen apart from
the queue. `Change` lists what an event other than a search can do to them;
`System.next_changes` is the inversion lemma. A search is one transaction, and
`Offering` says what it does to the candidates.

`Dated` is an invariant of these tables: a candidate is of an item and a record
that exist, and its revision is one that the item has reached.
-/

namespace Kahawai.MediaDb.Enrichment

open Kahawai.Core Kahawai.Lib Kahawai.Proto

variable {setup : Setup} {db db' : Db} {decided : Id → Prop}

/-- Only the queue and the libraries differ. -/
structure SameIdentity (db db' : Db) : Prop where
  items : db'.items = db.items
  candidates : db'.candidates = db.candidates
  assignments : db'.assignments = db.assignments
  rejections : db'.rejections = db.rejections
  records : db'.records = db.records

variable (setup) in
/-- One statement of an event, in which a person decides about the items that are
    `decided` only. -/
inductive Change (decided : Id → Prop) (db : Db) : Db → Prop
  | edit {id : Id} {db' : Db} (h : Edit setup id db db') : Change decided db db'
  | work {db' : Db} (h : SameIdentity db db') : Change decided db db'
  | bump (id : Id) : Change decided db (db.bump setup id)
  | decide {id : Id} {db' : Db} (hid : decided id) (h : Decides setup id db db') :
      Change decided db db'
  | insert (id collection : Id) (hnew : db.items.get? id = none) :
      Change decided db (insertItem setup id collection db)
  | remove (id : Id) (hid : decided id) : Change decided db (removeItem id db)

variable (setup) in
/-- Any number of such statements. -/
def Changes (decided : Id → Prop) : Db → Db → Prop :=
  Relation.ReflTransGen (Change setup decided)

theorem Change.changes (h : Change setup decided db db') : Changes setup decided db db' :=
  Relation.ReflTransGen.single h

theorem Changes.refl : Changes setup decided db db := Relation.ReflTransGen.refl

theorem Changes.trans {db'' : Db} (h : Changes setup decided db db')
    (h' : Changes setup decided db' db'') : Changes setup decided db db'' :=
  Relation.ReflTransGen.trans h h'

theorem Changes.invariant {I : Db → Prop} (h : Changes setup decided db db') (hdb : I db)
    (hstep : ∀ {a b}, Change setup decided a b → I a → I b) : I db' := by
  induction h with
  | refl => exact hdb
  | tail _ hlast ih => exact hstep hlast ih

theorem Edits.changes {id : Id} (h : Edits setup id db db') : Changes setup decided db db' :=
  Relation.ReflTransGen.mono (fun _ _ hedit => .edit hedit) _ _ h

theorem Notes.changes (h : Notes db db') : Changes setup decided db db' :=
  have hedits : Edits setup 0 db db' := h.edits
  hedits.changes

theorem changes_foldl {f : Db → Id → Db} (hf : ∀ db id, Changes setup decided db (f db id))
    (ids : List Id) (db : Db) : Changes setup decided db (ids.foldl f db) := by
  induction ids generalizing db with
  | nil => exact Changes.refl
  | cons id ids ih => exact (hf db id).trans (ih (f db id))

/-! ## Transactions -/

theorem changes_updateJobs (p : Job → Bool) (f : Job → Job) (hf : ∀ j, (f j).key = j.key)
    (db : Db) : Changes setup decided db (db.updateJobs p f hf) :=
  Change.changes (.work ⟨rfl, rfl, rfl, rfl, rfl⟩)

theorem claimEnrichment_changes {provider : Text} {now leaseSeconds : ℤ} {token : Id}
    {job : Option EnrichmentJob}
    (h : claimEnrichment provider now leaseSeconds token db = .ok (job, db')) :
    Changes setup decided db db' := by
  unfold claimEnrichment at h
  obtain ⟨-, -, h⟩ := except_bind_eq_ok.mp h
  split at h
  · cases h
    exact Changes.refl
  · cases h
    exact Change.changes (.work ⟨rfl, rfl, rfl, rfl, rfl⟩)

theorem chooseAutomatic_changes (now : ℤ) (id : Id) (db : Db) :
    Changes setup decided db (db.chooseAutomatic setup now id) :=
  (chooseAutomatic_edits now id db).changes

theorem chooseWaiting_changes (now : ℤ) (provider : Text) (db : Db) :
    Changes setup decided db (db.chooseWaiting setup now provider) :=
  changes_foldl (fun d id => chooseAutomatic_changes now id d) _ db

theorem finishEnrichment_changes {now : ℤ} {job : EnrichmentJob} {answer : EnrichmentAnswer}
    {landed : Bool} (h : finishEnrichment setup now job answer db = .ok (landed, db')) :
    Changes setup decided db db' := by
  rcases finishEnrichment_cases h with ⟨-, -, rfl⟩ | ⟨-, -, answered, hedits, rfl⟩
  · exact Changes.refl
  · exact ((hedits.changes.trans (changes_updateJobs _ _ _ _)).trans
      (followUp_notes job _).changes).trans (chooseAutomatic_changes now _ _)

theorem failEnrichment_changes (now dueAt : ℤ) (job : EnrichmentJob) (error : Text)
    (providerWide blocked : Bool) (db : Db) : Changes setup decided db
      (failEnrichment setup now job dueAt error providerWide blocked db) := by
  have hreleased : Changes setup decided db (db.release job blocked dueAt (some error) id) :=
    changes_updateJobs _ _ _ _
  have hpaused : ∀ (row : Pause) (d : Db), Changes setup decided d (d.pause row) :=
    fun row d => Change.changes (.work ⟨rfl, rfl, rfl, rfl, rfl⟩)
  unfold failEnrichment
  dsimp only
  split_ifs
  · exact ((hreleased.trans (hpaused ⟨job.provider, dueAt, blocked, some error⟩ _)).trans
      (chooseAutomatic_changes now job.itemId _)).trans (chooseWaiting_changes now _ _)
  · exact hreleased.trans (chooseAutomatic_changes now _ _)
  · exact Changes.refl

theorem deferEnrichment_changes (now : ℤ) (job : EnrichmentJob) (db : Db) :
    Changes setup decided db (deferEnrichment setup now job db) := by
  unfold deferEnrichment
  split
  split_ifs
  · exact (changes_updateJobs _ _ _ _).trans (chooseAutomatic_changes now _ _)
  · exact Changes.refl

theorem wakeEnrichment_changes (provider : Option Text) (db : Db) :
    Changes setup decided db (wakeEnrichment provider db) :=
  Change.changes (.work ⟨rfl, rfl, rfl, rfl, rfl⟩)

theorem addSupplement_changes {id : Id} {revision : ℕ} {record : Id}
    (h : addSupplement setup id revision record db = .ok db') : Changes setup decided db db' := by
  obtain ⟨stored, hstored, rfl⟩ := addSupplement_notes h
  exact hstored.changes.trans (Change.changes (.bump id))

theorem insertItem_changes (id collection : Id) (db : Db) :
    Changes setup decided db (insertItem setup id collection db) := by
  by_cases hnew : db.items.get? id = none
  · exact Change.changes (.insert id collection hnew)
  · unfold insertItem
    rw [if_pos (Option.isSome_iff_ne_none.mpr hnew)]
    exact Changes.refl

theorem addMembership_changes (library collection : Id) (db : Db) :
    Changes setup decided db (addMembership setup library collection db) := by
  have hstored : Changes setup decided db
      { db with memberships := db.memberships.put ⟨library, collection⟩ } :=
    Change.changes (.work ⟨rfl, rfl, rfl, rfl, rfl⟩)
  unfold addMembership
  dsimp only
  split_ifs
  · exact Changes.refl
  · exact hstored.trans (changes_foldl (fun d id => Change.changes (.bump id)) _ _)
  · exact hstored

theorem removeMembership_changes (library collection : Id) (db : Db) :
    Changes setup decided db (removeMembership library collection db) :=
  Change.changes (.work ⟨rfl, rfl, rfl, rfl, rfl⟩)

/-! ## Events -/

/-- A person decides about the item, or it is removed. -/
def Event.Decides (id : Id) : Event → Prop
  | .correct item _ _ _ | .assignIdentity item _ _ | .removeItem item => item = id
  | _ => False

instance (id : Id) (e : Event) : Decidable (e.Decides id) := by
  unfold Event.Decides
  split <;> infer_instance

/-- An event other than a search. -/
theorem System.next_changes {s s' : System} {e : Event} (h : s.next setup e = some s')
    (hsearch : ∀ item revision candidates, e ≠ .offer item revision candidates) :
    Changes setup (fun id => e.Decides id) s.db s'.db := by
  have hcommit : ∀ (e : Event) (tx : Tx Db),
      (∀ db, tx = .ok db → Changes setup (fun id => e.Decides id) s.db db) →
      Changes setup (fun id => e.Decides id) s.db (s.commit tx).db := fun e tx htx => by
    rcases s.commit_cases tx with heq | ⟨db, hdb, heq⟩
    · rw [heq]
      exact Changes.refl
    · rw [heq]
      exact htx db hdb
  cases e with
  | tick seconds =>
    cases h
    exact Changes.refl
  | claim provider leaseSeconds token =>
    rw [System.next] at h
    split_ifs at h with hused
    split at h
    · rename_i job db hclaim
      cases h
      exact claimEnrichment_changes hclaim
    · cases h
      exact Changes.refl
  | finish place answer =>
    obtain ⟨job, hjob, rfl⟩ := Option.map_eq_some_iff.mp h
    refine hcommit _ _ fun db hdb => ?_
    obtain ⟨landed, hfinish⟩ := except_map_snd_eq_ok hdb
    exact finishEnrichment_changes hfinish
  | fail place dueAt error providerWide blocked =>
    obtain ⟨job, -, rfl⟩ := Option.map_eq_some_iff.mp h
    exact failEnrichment_changes _ _ _ _ _ _ _
  | defer place =>
    obtain ⟨job, -, rfl⟩ := Option.map_eq_some_iff.mp h
    exact deferEnrichment_changes _ _ _
  | wake provider =>
    cases h
    exact wakeEnrichment_changes provider s.db
  | offer item revision candidates => exact absurd rfl (hsearch item revision candidates)
  | correct item revision action record =>
    cases h
    exact hcommit _ _ fun db hdb => Change.changes (.decide rfl (correctMetadata_decides hdb))
  | assignIdentity item revision saved =>
    cases h
    exact hcommit _ _ fun db hdb => Change.changes (.decide rfl (assignIdentity_decides hdb))
  | addSupplement item revision record =>
    cases h
    exact hcommit _ _ fun db hdb => addSupplement_changes hdb
  | changeItem item =>
    cases h
    exact Change.changes (.bump item)
  | insertItem item collection =>
    cases h
    exact insertItem_changes item collection s.db
  | removeItem item =>
    cases h
    exact Change.changes (.remove item rfl)
  | addMembership library collection =>
    cases h
    exact addMembership_changes library collection s.db
  | removeMembership library collection =>
    cases h
    exact removeMembership_changes library collection s.db
  | snapshot collection active =>
    cases h
    exact Change.changes (.work ⟨rfl, rfl, rfl, rfl, rfl⟩)

/-! ## Rejections -/

@[simp] theorem Db.rejected_bump (id id' r : Id) (db : Db) :
    (db.bump setup id).rejected id' r = db.rejected id' r := by
  unfold Db.rejected
  rw [Db.rejections_bump]

@[simp] theorem Db.rejected_unassign (id id' r : Id) (db : Db) :
    (db.unassign setup id).rejected id' r = db.rejected id' r := by
  unfold Db.rejected
  rw [Db.rejections_unassign]

theorem rejected_unreject {id record id' r : Id} (hne : (id', r) ≠ (id, record)) :
    (db.unreject id record).rejected id' r = db.rejected id' r := by
  rw [Bool.eq_iff_iff]
  unfold Db.rejected Db.unreject
  simp only [List.any_eq_true, Bool.and_eq_true, decide_eq_true_eq]
  constructor
  · rintro ⟨row, hrow, hid, hr⟩
    exact ⟨row, (Table.mem_filter.mp hrow).1, hid, hr⟩
  · rintro ⟨row, hrow, rfl, rfl⟩
    refine ⟨row, Table.mem_filter.mpr ⟨hrow, ?_⟩, rfl, rfl⟩
    by_contra hgone
    simp only [Bool.not_eq_true', Bool.not_eq_false, Bool.and_eq_true, decide_eq_true_eq] at hgone
    exact hne (Prod.ext hgone.1 hgone.2)

/-- A manual assignment takes back the rejection of its record only. -/
theorem rejected_replaceAssignment {id record id' r : Id} {strength : ℤ}
    (hne : (id', r) ≠ (id, record)) :
    (db.replaceAssignment setup id (some record) true strength).rejected id' r =
      db.rejected id' r := by
  show ((((db.unassign setup id).unreject id record).assign setup _).rejected id' r) = _
  unfold Db.assign
  rw [Db.rejected_bump]
  show ((db.unassign setup id).unreject id record).rejected id' r = _
  rw [rejected_unreject hne, Db.rejected_unassign]

theorem rejected_put {id record id' : Id} (r : Id) :
    ({ db with rejections := db.rejections.put ⟨id, record⟩ } : Db).rejected id' r =
      (db.rejected id' r || (decide (id = id') && decide (record = r))) := by
  rw [Bool.eq_iff_iff]
  unfold Db.rejected
  simp only [List.any_eq_true, Bool.or_eq_true, Bool.and_eq_true, decide_eq_true_eq]
  constructor
  · rintro ⟨row, hrow, rfl, rfl⟩
    rcases Table.mem_put.mp hrow with rfl | ⟨hrow, -⟩
    · exact Or.inr ⟨rfl, rfl⟩
    · exact Or.inl ⟨row, hrow, rfl, rfl⟩
  · rintro (⟨row, hrow, rfl, rfl⟩ | ⟨rfl, rfl⟩)
    · by_cases heq : row = ⟨id, record⟩
      · exact ⟨row, Table.mem_put.mpr (Or.inl heq), rfl, rfl⟩
      · exact ⟨row, Table.mem_put.mpr (Or.inr ⟨hrow, heq⟩), rfl, rfl⟩
    · exact ⟨⟨id, record⟩, Table.mem_put.mpr (Or.inl rfl), rfl, rfl⟩

/-! ## Selected records -/

theorem selected_bump (id id' : Id) (db : Db) :
    (db.bump setup id).selected id' = db.selected id' := by
  unfold Db.selected
  rw [Db.assignments_bump]

theorem selected_unassign (id id' : Id) (db : Db) :
    (db.unassign setup id).selected id' = if id = id' then none else db.selected id' := by
  unfold Db.selected
  rw [Db.assignments_unassign]
  split_ifs <;> rfl

theorem selected_assign (row : Assignment) (id' : Id) (db : Db) :
    (db.assign setup row).selected id' =
      if row.item = id' then some row.record else db.selected id' := by
  unfold Db.selected
  rw [Db.assignments_assign]
  split_ifs <;> rfl

/-! ## Revisions -/

/-- A statement that deletes no item and stores no candidate. An item is as it was,
    with its rejections, or it has a new revision. -/
structure Ages (db db' : Db) : Prop where
  candidates : db'.candidates = db.candidates
  records : db'.records = db.records
  items : ∀ id, (db'.items.get? id = db.items.get? id ∧
      ((db.items.get? id).isSome → ∀ r, db'.rejected id r = db.rejected id r)) ∨
    ∃ item item', db.items.get? id = some item ∧ db'.items.get? id = some item' ∧
      item.enrichmentRevision < item'.enrichmentRevision

theorem Ages.refl : Ages db db := ⟨rfl, rfl, fun _ => Or.inl ⟨rfl, fun _ _ => rfl⟩⟩

theorem Ages.trans {db'' : Db} (h : Ages db db') (h' : Ages db' db'') : Ages db db'' := by
  refine ⟨h'.candidates.trans h.candidates, h'.records.trans h.records, fun id => ?_⟩
  rcases h.items id with ⟨hitem, hrejected⟩ | ⟨item, item', hitem, hitem', hlt⟩
  · rcases h'.items id with ⟨hitem', hrejected'⟩ | ⟨item, item', hold, hnew, hlt⟩
    · exact Or.inl ⟨hitem'.trans hitem, fun hsome r =>
        (hrejected' (hitem ▸ hsome) r).trans (hrejected hsome r)⟩
    · exact Or.inr ⟨item, item', hitem ▸ hold, hnew, hlt⟩
  · rcases h'.items id with ⟨hsame, -⟩ | ⟨item₁, item₂, hold, hnew, hlt'⟩
    · exact Or.inr ⟨item, item', hitem, hsame.trans hitem', hlt⟩
    · rw [hitem'] at hold
      cases hold
      exact Or.inr ⟨item, item₂, hitem, hnew, hlt.trans hlt'⟩

/-- A new revision hides what else changed for the item. -/
theorem Ages.bump_of {id : Id} (hitems : db'.items = db.items)
    (hcandidates : db'.candidates = db.candidates) (hrecords : db'.records = db.records)
    (hrejected : ∀ id', id' ≠ id → ∀ r, db'.rejected id' r = db.rejected id' r) :
    Ages db (db'.bump setup id) := by
  refine ⟨by rw [Db.candidates_bump, hcandidates], by rw [Db.records_bump, hrecords], fun id' => ?_⟩
  rw [Db.get?_items_bump, hitems]
  by_cases heq : id = id'
  · cases hitem : db.items.get? id' with
    | none => exact Or.inl ⟨by rw [if_pos heq]; rfl, fun hsome => by cases hsome⟩
    | some item =>
      exact Or.inr ⟨item, _, rfl, by rw [if_pos heq]; rfl, Nat.lt_succ_self _⟩
  · exact Or.inl ⟨if_neg heq, fun _ r =>
      (Db.rejected_bump _ _ _ _).trans (hrejected id' (Ne.symm heq) r)⟩

theorem Ages.bump (id : Id) : Ages db (db.bump setup id) :=
  Ages.bump_of rfl rfl rfl fun _ _ _ => rfl

theorem Ages.unassign (id : Id) : Ages db (db.unassign setup id) := by
  unfold Db.unassign
  split
  · exact Ages.refl
  · exact Ages.bump_of rfl rfl rfl fun _ _ _ => rfl

/-- An item that loses its assignment gets a new revision. -/
theorem unassign_eq_bump {id : Id} (h : db.assignments.get? id ≠ none) :
    ∃ d : Db, db.unassign setup id = d.bump setup id ∧ d.items = db.items ∧
      d.candidates = db.candidates ∧ d.records = db.records := by
  obtain ⟨old, hold⟩ := Option.ne_none_iff_exists'.mp h
  unfold Db.unassign
  rw [hold]
  exact ⟨_, rfl, rfl, rfl, rfl⟩

theorem Ages.assign (row : Assignment) : Ages db (db.assign setup row) :=
  Ages.bump_of rfl rfl rfl fun _ _ _ => rfl

/-- A decision stores what is known of the record, and the item ages. -/
theorem Decides.ages {id : Id} (h : Decides setup id db db') :
    ∃ stored, Notes db stored ∧ Ages stored db' := by
  have hput : ∀ record id', id' ≠ id → ∀ r, ({ db with
      rejections := db.rejections.put ⟨id, record⟩ } : Db).rejected id' r = db.rejected id' r :=
    fun record id' hne r => by simp [rejected_put, hne.symm]
  cases h with
  | assigns stored hstored record =>
    refine ⟨stored, hstored, (Ages.unassign id).trans (Ages.bump_of rfl rfl rfl fun id' hne r => ?_)⟩
    exact rejected_unreject fun h => hne (Prod.mk.inj h).1
  | clears => exact ⟨db, Notes.refl, Ages.unassign id⟩
  | rejectsSelected record hselected =>
    refine ⟨db, Notes.refl, ?_⟩
    obtain ⟨old, hold, -⟩ := Option.map_eq_some_iff.mp hselected
    show Ages db (Db.unassign setup id { db with rejections := db.rejections.put ⟨id, record⟩ })
    unfold Db.unassign
    dsimp only
    rw [hold]
    exact Ages.bump_of rfl rfl rfl (hput record)
  | rejectsOther record => exact ⟨db, Notes.refl, Ages.bump_of rfl rfl rfl (hput record)⟩
  | retries =>
    have hbump : Ages db (db.bump setup id) := Ages.bump id
    exact ⟨db, Notes.refl, hbump.candidates, hbump.records, hbump.items⟩
  | restores record =>
    exact ⟨db, Notes.refl, Ages.bump_of rfl rfl rfl fun id' hne r =>
      rejected_unreject fun h => hne (Prod.mk.inj h).1⟩
  | supplements stored hstored => exact ⟨stored, hstored, Ages.bump id⟩

/-! ## Candidates have items and records -/

/-- A candidate is of an item and a record that exist, and its revision is one that
    the item has reached. The keys of the records are unique. -/
structure Dated (db : Db) : Prop where
  item : ∀ c ∈ db.candidates, ∃ item, db.items.get? c.item = some item ∧
    c.revision ≤ item.enrichmentRevision
  record : ∀ c ∈ db.candidates, (db.keyOf c.record).isSome
  distinct : db.Distinct

theorem Dated.congr (h : Dated db) (hitems : db'.items = db.items)
    (hcandidates : db'.candidates = db.candidates) (hrecords : db'.records = db.records) :
    Dated db' := by
  have hkeys : ∀ record, db'.keyOf record = db.keyOf record := fun record => by
    unfold Db.keyOf
    rw [hrecords]
  refine ⟨?_, fun c hc => ?_, fun r r' k hk hk' => ?_⟩
  · rw [hcandidates, hitems]
    exact h.item
  · rw [hcandidates] at hc
    rw [hkeys]
    exact h.record c hc
  · rw [hkeys] at hk hk'
    exact h.distinct r r' k hk hk'

theorem Dated.note (h : Dated db) (hnote : Note db db') : Dated db' := by
  cases hnote with
  | records hsame hkeys hdistinct =>
    refine ⟨?_, fun c hc => ?_, hdistinct h.distinct⟩
    · rw [hsame.candidates, hsame.items]
      exact h.item
    · rw [hsame.candidates] at hc
      obtain ⟨k, hk⟩ := Option.isSome_iff_exists.mp (h.record c hc)
      exact Option.isSome_iff_exists.mpr ⟨k, hkeys _ _ hk⟩
  | request p => exact h.congr rfl rfl rfl

theorem Dated.notes (h : Dated db) (hnotes : Notes db db') : Dated db' :=
  hnotes.invariant h fun hnote hd => hd.note hnote

theorem Dated.ages (h : Dated db) (hages : Ages db db') : Dated db' := by
  have hkeys : ∀ record, db'.keyOf record = db.keyOf record := fun record => by
    unfold Db.keyOf
    rw [hages.records]
  refine ⟨fun c hc => ?_, fun c hc => ?_, fun r r' k hk hk' => ?_⟩
  · rw [hages.candidates] at hc
    obtain ⟨item, hitem, hle⟩ := h.item c hc
    rcases hages.items c.item with ⟨hsame, -⟩ | ⟨old, item', hold, hnew, hlt⟩
    · exact ⟨item, hsame.trans hitem, hle⟩
    · rw [hitem] at hold
      cases hold
      exact ⟨item', hnew, hle.trans hlt.le⟩
  · rw [hages.candidates] at hc
    rw [hkeys]
    exact h.record c hc
  · rw [hkeys] at hk hk'
    exact h.distinct r r' k hk hk'

/-- A candidate of an item at a revision that the item has reached. -/
theorem Dated.store (h : Dated db) {c : Candidate} {item : Item}
    (hitem : db.items.get? c.item = some item) (hrevision : c.revision ≤ item.enrichmentRevision)
    (hrecord : (db.keyOf c.record).isSome) :
    Dated { db with candidates := db.candidates.put c } := by
  refine ⟨fun c' hc' => ?_, fun c' hc' => ?_, h.distinct⟩
  · rcases Table.mem_put.mp hc' with rfl | ⟨hc', -⟩
    · exact ⟨item, hitem, hrevision⟩
    · exact h.item c' hc'
  · rcases Table.mem_put.mp hc' with rfl | ⟨hc', -⟩
    · exact hrecord
    · exact h.record c' hc'

theorem Dated.work (h : Dated db) (hsame : SameIdentity db db') : Dated db' :=
  h.congr hsame.items hsame.candidates hsame.records

theorem Dated.change (h : Dated db) (hchange : Change setup decided db db') : Dated db' := by
  cases hchange with
  | edit hedit =>
    cases hedit with
    | note hnote => exact h.note hnote
    | store c item hid hrecord hitem hrevision hearned =>
      exact h.store (hid ▸ hitem) hrevision hrecord
    | unassign => exact h.ages (Ages.unassign _)
    | assign => exact h.ages (Ages.assign _)
  | work hsame => exact h.work hsame
  | bump id => exact h.ages (Ages.bump id)
  | decide hid hdecides =>
    obtain ⟨stored, hstored, hages⟩ := hdecides.ages
    exact (h.notes hstored).ages hages
  | insert id collection hnew =>
    unfold insertItem
    rw [hnew]
    refine ⟨fun c hc => ?_, h.record, h.distinct⟩
    obtain ⟨item, hitem, hle⟩ := h.item c hc
    refine ⟨item, (Table.get?_put _ _ _).trans ?_, hle⟩
    rw [if_neg fun heq => ?_]
    · exact hitem
    · rw [← show id = c.item from heq, hnew] at hitem
      cases hitem
  | remove id hid =>
    refine ⟨fun c hc => ?_, fun c hc => h.record c (Table.mem_filter.mp hc).1, h.distinct⟩
    obtain ⟨hc, hne⟩ := Table.mem_filter.mp hc
    obtain ⟨item, hitem, hle⟩ := h.item c hc
    exact ⟨item, (Table.get?_erase _ _ _).trans
      ((if_neg (of_decide_eq_true hne).symm).trans hitem), hle⟩

theorem Dated.edits (h : Dated db) {id : Id} (hedits : Edits setup id db db') : Dated db' :=
  hedits.invariant h fun hedit hd => hd.change (.edit hedit : Change setup (fun _ => False) _ _)

theorem Dated.chooseAutomatic (h : Dated db) (now : ℤ) (id : Id) :
    Dated (db.chooseAutomatic setup now id) :=
  h.edits (chooseAutomatic_edits now id db)

end Kahawai.MediaDb.Enrichment
