import Mathlib.Data.Set.Insert
import Kahawai.MediaDb.Enrichment.Candidates

/-!
# Nobody waits for nothing

`choose_automatic` leaves an item alone while a provider that ranks higher than
that of its best candidate may still answer. It runs only in the transactions that
land, fail or defer a job, so whatever else takes the reason for waiting away
leaves the item unidentified.

`Settled busy` says that every item in a library, except those in `busy`, waits
with reason. A statement about one item is `Calm` for the others: nothing that
they wait for goes, and no candidate of theirs becomes eligible. `chooseAutomatic`
then settles the item itself, and a new revision settles it too, as it leaves no
candidate eligible.

Main result:

* `waits_with_reason`: in every run all of whose searches revive no candidate of an
  unassigned item in a library, an item that waits has a question of a higher
  ranked provider that is runnable. `waits_for_nobody` is a run with a search that
  revives one.
-/

namespace Kahawai.MediaDb.Enrichment

open Kahawai.Core Kahawai.Lib Kahawai.Proto

variable {setup : Setup} {now now' : ℤ} {db db' : Db} {busy busy' : Set Id} {item : Item}

/-! ## Waiting -/

/-- The job is pending or running, and its provider is neither blocked nor paused. -/
def Db.runnable (db : Db) (now : ℤ) (j : Job) : Prop :=
  (j.state = .pending ∨ j.state = .running) ∧ db.open? j.provider now = true

variable (setup) in
/-- The provider ranks above that of the record for the item. -/
def Above (db : Db) (item : Item) (record : Id) (provider : Text) : Prop :=
  ∃ position, (setup.order (setup.mediaType item.collection)).idxOf? provider = some position ∧
    (position : ℤ) < db.rank setup item record

variable (setup) in
/-- A question of the item that ranks above the record is runnable. -/
def Asked (db : Db) (now : ℤ) (item : Item) (record : Id) : Prop :=
  ∃ j ∈ db.jobs, j.item = item.id ∧ j.revision = item.enrichmentRevision ∧
    Above setup db item record j.provider ∧ db.runnable now j

theorem waiting_iff {record : Id} :
    db.waiting setup now item (db.rank setup item record) = true ↔
      Asked setup db now item record := by
  unfold Db.waiting Asked Above Db.runnable
  rw [List.any_eq_true]
  refine exists_congr fun j => and_congr_right fun _ => ?_
  simp only [Bool.and_eq_true, Bool.or_eq_true, decide_eq_true_eq, Option.any_eq_true]
  constructor
  · rintro ⟨⟨⟨⟨hid, hrevision⟩, habove⟩, hstate⟩, hopen⟩
    exact ⟨hid, hrevision, habove, hstate, hopen⟩
  · rintro ⟨hid, hrevision, habove, hstate, hopen⟩
    exact ⟨⟨⟨⟨hid, hrevision⟩, habove⟩, hstate⟩, hopen⟩

/-- The strength is the highest of the eligible candidates. -/
def Strongest (db : Db) (item : Item) (c : Candidate) : Prop :=
  c ∈ db.eligible item ∧ ∀ c' ∈ db.eligible item, c'.strength ≤ c.strength

variable (setup) in
/-- The item is not assigned for a reason. -/
def Waits (db : Db) (now : ℤ) (item : Item) : Prop :=
  ∀ c, Strongest db item c → c.strength < 20 ∧ Asked setup db now item c.record

variable (setup) in
/-- Every item in a library that is not assigned waits for a reason, except those
    in `busy`. -/
def Settled (busy : Set Id) (now : ℤ) (db : Db) : Prop :=
  ∀ item ∈ db.items, item.id ∉ busy → db.inLibrary item.collection = true →
    db.selected item.id = none → Waits setup db now item

theorem Settled.mono (h : Settled setup busy now db) (hsub : busy ⊆ busy') :
    Settled setup busy' now db :=
  fun item hitem hid => h item hitem fun hmem => hid (hsub hmem)

/-- An item that waits for a reason after all is not busy. -/
theorem Settled.drop {id : Id} (h : Settled setup (insert id busy) now db)
    (hid : ∀ item ∈ db.items, item.id = id → db.inLibrary item.collection = true →
      db.selected item.id = none → Waits setup db now item) : Settled setup busy now db := by
  intro item hitem hbusy hlibrary hselected
  by_cases heq : item.id = id
  · exact hid item hitem heq hlibrary hselected
  · refine h item hitem (fun hmem => ?_) hlibrary hselected
    rcases Set.mem_insert_iff.mp hmem with hsame | hmem
    · exact heq hsame
    · exact hbusy hmem

/-! ## Calm statements -/

/-- Nothing that the items outside `busy` wait for is gone, and no candidate of
    theirs has become eligible. -/
structure Calm (busy : Set Id) (now now' : ℤ) (db db' : Db) : Prop where
  items : ∀ item ∈ db'.items, item.id ∉ busy → item ∈ db.items ∧
    (db'.inLibrary item.collection = true → db.inLibrary item.collection = true)
  selected : ∀ id, id ∉ busy → db'.selected id = none → db.selected id = none
  eligible : ∀ item : Item, item.id ∉ busy → ∀ c, c ∈ db'.eligible item ↔ c ∈ db.eligible item
  keys : ∀ record k, db.keyOf record = some k → db'.keyOf record = some k
  jobs : ∀ j ∈ db.jobs, j.item ∉ busy → db.runnable now j → ∃ j' ∈ db'.jobs,
    j'.key = j.key ∧ j'.revision = j.revision ∧ db'.runnable now' j'

theorem Calm.refl : Calm busy now now db db :=
  ⟨fun _ h _ => ⟨h, id⟩, fun _ _ h => h, fun _ _ _ => Iff.rfl, fun _ _ h => h,
    fun j hj _ hrunnable => ⟨j, hj, rfl, rfl, hrunnable⟩⟩

theorem Calm.trans {now'' : ℤ} {db'' : Db} (h : Calm busy now now' db db')
    (h' : Calm busy now' now'' db' db'') : Calm busy now now'' db db'' := by
  refine ⟨fun item hitem hid => ?_, fun id hid hnone => h.selected id hid (h'.selected id hid hnone),
    fun item hid c => (h'.eligible item hid c).trans (h.eligible item hid c),
    fun record k hk => h'.keys record k (h.keys record k hk), fun j hj hid hrunnable => ?_⟩
  · obtain ⟨hitem', hlibrary'⟩ := h'.items item hitem hid
    obtain ⟨hitem, hlibrary⟩ := h.items item hitem' hid
    exact ⟨hitem, fun hin => hlibrary (hlibrary' hin)⟩
  · obtain ⟨j', hj', hkey, hrevision, hrunnable'⟩ := h.jobs j hj hid hrunnable
    have hid' : j'.item ∉ busy := fun hmem => hid ((Prod.mk.inj hkey).1 ▸ hmem)
    obtain ⟨j'', hj'', hkey', hrevision', hrunnable''⟩ := h'.jobs j' hj' hid' hrunnable'
    exact ⟨j'', hj'', hkey'.trans hkey, hrevision'.trans hrevision, hrunnable''⟩

theorem Calm.mono (h : Calm busy now now' db db') (hsub : busy ⊆ busy') :
    Calm busy' now now' db db' :=
  ⟨fun item hitem hid => h.items item hitem fun hmem => hid (hsub hmem),
    fun id hid => h.selected id fun hmem => hid (hsub hmem),
    fun item hid => h.eligible item fun hmem => hid (hsub hmem), h.keys,
    fun j hj hid => h.jobs j hj fun hmem => hid (hsub hmem)⟩

theorem rank_congr {record : Id} {k : Text × Text × Text × Text} (h : db.keyOf record = some k)
    (h' : db'.keyOf record = some k) (item : Item) :
    db'.rank setup item record = db.rank setup item record := by
  have hprovider : ∀ d : Db, d.providerOf record = (d.keyOf record).map Prod.fst := fun d => by
    unfold Db.providerOf Db.keyOf
    rw [Option.map_map]
    rfl
  unfold Db.rank
  rw [hprovider, hprovider, h, h']

theorem Calm.keeps_settled (h : Calm busy now now' db db') (hdated : Dated db)
    (hs : Settled setup busy now db) : Settled setup busy now' db' := by
  intro item hitem hid hlibrary hselected c hc
  obtain ⟨hitem', hlibrary'⟩ := h.items item hitem hid
  have heligible := h.eligible item hid
  have hc' : Strongest db item c :=
    ⟨(heligible c).mp hc.1, fun c' hc' => hc.2 c' ((heligible c').mpr hc')⟩
  obtain ⟨hstrength, j, hj, hjid, hrevision, ⟨position, hposition, hlt⟩, hrunnable⟩ :=
    hs item hitem' hid (hlibrary' hlibrary) (h.selected item.id hid hselected) c hc'
  obtain ⟨k, hk⟩ := Option.isSome_iff_exists.mp (hdated.record c (mem_eligible.mp hc'.1).1)
  obtain ⟨j', hj', hkey, hrevision', hrunnable'⟩ :=
    h.jobs j hj (fun hmem => hid (hjid ▸ hmem)) hrunnable
  obtain ⟨hjid', hprovider⟩ := Prod.mk.inj hkey
  refine ⟨hstrength, j', hj', hjid'.trans hjid, hrevision'.trans hrevision, ⟨position, ?_, ?_⟩,
    hrunnable'⟩
  · rw [show j'.provider = j.provider from hprovider]
    exact hposition
  · rw [rank_congr hk (h.keys _ k hk)]
    exact hlt

/-! ## Statements -/

/-- A statement on the queue that keeps the runnable jobs. -/
theorem calm_of_jobs (hitems : db'.items = db.items) (hmemberships : db'.memberships = db.memberships)
    (hcandidates : db'.candidates = db.candidates) (hassignments : db'.assignments = db.assignments)
    (hrejections : db'.rejections = db.rejections)
    (hkeys : ∀ record k, db.keyOf record = some k → db'.keyOf record = some k)
    (hjobs : ∀ j ∈ db.jobs, j.item ∉ busy → db.runnable now j → ∃ j' ∈ db'.jobs,
      j'.key = j.key ∧ j'.revision = j.revision ∧ db'.runnable now' j') :
    Calm busy now now' db db' := by
  refine ⟨fun item hitem _ => ⟨hitems ▸ hitem, fun hlibrary => ?_⟩, fun id _ hnone => ?_,
    fun item _ c => by rw [eligible_congr hcandidates hrejections], hkeys, hjobs⟩
  · unfold Db.inLibrary at hlibrary ⊢
    rwa [hmemberships] at hlibrary
  · unfold Db.selected at hnone ⊢
    rwa [hassignments] at hnone

theorem Note.calm (h : Note db db') : Calm busy now now db db' := by
  cases h with
  | records hsame hkeys =>
    refine calm_of_jobs hsame.items hsame.memberships hsame.candidates hsame.assignments
      hsame.rejections hkeys fun j hj _ hrunnable => ⟨j, hsame.jobs ▸ hj, rfl, rfl, hrunnable.1, ?_⟩
    unfold Db.open?
    rw [hsame.pauses]
    exact hrunnable.2
  | request p =>
    refine calm_of_jobs rfl rfl rfl rfl rfl (fun _ _ hk => hk) fun j hj _ hrunnable =>
      ⟨if p j then j.request else j, Db.mem_jobs_request.mpr ⟨j, hj, rfl⟩, ?_⟩
    split_ifs
    · refine ⟨rfl, rfl, ?_, hrunnable.2⟩
      -- A request leaves a state that is not `done`.
      have hstate : j.request.state = j.state := by
        unfold Job.request
        dsimp only
        rw [if_neg fun hdone => ?_]
        rcases hrunnable.1 with hpending | hrunning
        · rw [hdone] at hpending
          cases hpending
        · rw [hdone] at hrunning
          cases hrunning
      rw [hstate]
      exact hrunnable.1
    · exact ⟨rfl, rfl, hrunnable⟩

theorem Notes.calm (h : Notes db db') : Calm busy now now db db' :=
  h.invariant (I := fun d => Calm busy now now db d) Calm.refl fun hnote hd => hd.trans hnote.calm

/-- An update of jobs that leaves those outside `busy` runnable. -/
theorem calm_updateJobs (p : Job → Bool) (f : Job → Job) (hf : ∀ j, (f j).key = j.key)
    (hkept : ∀ j, p j = true → j.item ∉ busy → j.state = .pending ∨ j.state = .running →
      (f j).revision = j.revision ∧ ((f j).state = .pending ∨ (f j).state = .running)) (db : Db) :
    Calm busy now now db (db.updateJobs p f hf) := by
  refine calm_of_jobs rfl rfl rfl rfl rfl (fun _ _ hk => hk) fun j hj hid hrunnable => ?_
  have hmem : (if p j then f j else j) ∈ (db.updateJobs p f hf).jobs := by
    unfold Db.updateJobs
    dsimp only
    rw [Table.mem_mapRows]
    exact ⟨j, hj, rfl⟩
  refine ⟨_, hmem, ?_⟩
  split_ifs with hp
  · obtain ⟨hrevision, hstate⟩ := hkept j hp hid hrunnable.1
    refine ⟨hf j, hrevision, hstate, ?_⟩
    have hprovider : (f j).provider = j.provider := (Prod.mk.inj (hf j)).2
    rw [hprovider]
    exact hrunnable.2
  · exact ⟨rfl, rfl, hrunnable⟩

/-- A statement that only gives one item a new revision. -/
theorem calm_bump_of {id : Id} (hitems : db'.items = db.items)
    (hmemberships : db'.memberships = db.memberships) (hcandidates : db'.candidates = db.candidates)
    (hrecords : db'.records = db.records) (hjobs : db'.jobs = db.jobs)
    (hpauses : db'.pauses = db.pauses)
    (hassignments : ∀ id', id' ≠ id → db'.assignments.get? id' = db.assignments.get? id')
    (hrejected : ∀ id', id' ≠ id → ∀ r, db'.rejected id' r = db.rejected id' r) :
    Calm {id} now now db (db'.bump setup id) := by
  refine ⟨fun item hitem hid => ⟨?_, fun hlibrary => ?_⟩, fun id' hid hnone => ?_,
    fun item hid c => ?_, fun record k hk => ?_, fun j hj hid hrunnable => ?_⟩
  · have hget := Table.get?_of_mem hitem
    rw [Db.get?_items_bump, if_neg (Ne.symm hid), hitems] at hget
    exact Table.get?_mem hget
  · unfold Db.inLibrary at hlibrary ⊢
    rwa [Db.memberships_bump, hmemberships] at hlibrary
  · rw [selected_bump] at hnone
    unfold Db.selected at hnone ⊢
    rwa [hassignments id' hid] at hnone
  · rw [mem_eligible, mem_eligible, Db.candidates_bump, hcandidates, Db.rejected_bump]
    refine and_congr_right fun _ => and_congr_right fun hid' => ?_
    rw [hrejected c.item (hid' ▸ hid)]
  · unfold Db.keyOf
    rw [Db.records_bump, hrecords]
    exact hk
  · refine ⟨j, ?_, rfl, rfl, hrunnable.1, ?_⟩
    · cases hitem : db'.items.get? id with
      | none =>
        unfold Db.bump
        rw [hitem]
        exact hjobs ▸ hj
      | some item =>
        have hget := Table.get?_of_mem hj
        rw [← hjobs] at hget
        have hkept : (db'.bump setup id).jobs.get? j.key = some j := by
          rw [get?_jobs_bump hitem, if_neg fun h => hid h.1, hget]
        exact Table.get?_mem hkept
    · unfold Db.open?
      rw [Db.pauses_bump, hpauses]
      exact hrunnable.2

theorem calm_bump (id : Id) (db : Db) : Calm {id} now now db (db.bump setup id) :=
  calm_bump_of rfl rfl rfl rfl rfl rfl (fun _ _ => rfl) fun _ _ _ => rfl

theorem calm_unassign (id : Id) (db : Db) : Calm {id} now now db (db.unassign setup id) := by
  unfold Db.unassign
  split
  · exact Calm.refl
  · refine calm_bump_of rfl rfl rfl rfl rfl rfl (fun id' hne => ?_) fun _ _ _ => rfl
    exact (Table.get?_erase _ _ _).trans (if_neg hne.symm)

theorem calm_assign (row : Assignment) (db : Db) :
    Calm {row.item} now now db (db.assign setup row) := by
  refine calm_bump_of rfl rfl rfl rfl rfl rfl (fun id' hne => ?_) fun _ _ _ => rfl
  exact (Table.get?_put _ _ _).trans (if_neg hne.symm)

/-- A decision is calm for the other items. -/
theorem Decides.calm {id : Id} (h : Decides setup id db db') : Calm {id} now now db db' := by
  have hput : ∀ record id', id' ≠ id → ∀ r, ({ db with
      rejections := db.rejections.put ⟨id, record⟩ } : Db).rejected id' r = db.rejected id' r :=
    fun record id' hne r => by simp [rejected_put, hne.symm]
  have hunreject : ∀ (d : Db) (record id' : Id), id' ≠ id → ∀ r,
      (d.unreject id record).rejected id' r = d.rejected id' r := fun d record id' hne r =>
    rejected_unreject fun heq => hne (Prod.mk.inj heq).1
  cases h with
  | assigns stored hstored record =>
    have hunassigned : Calm {id} now now db (stored.unassign setup id) :=
      hstored.calm.trans (calm_unassign id stored)
    refine hunassigned.trans ?_
    refine calm_bump_of rfl rfl rfl rfl rfl rfl (fun id' hne => ?_) (hunreject _ record)
    exact (Table.get?_put _ _ _).trans (if_neg hne.symm)
  | clears => exact calm_unassign id db
  | rejectsSelected record hselected =>
    obtain ⟨old, hold, -⟩ := Option.map_eq_some_iff.mp hselected
    show Calm {id} now now db
      (Db.unassign setup id { db with rejections := db.rejections.put ⟨id, record⟩ })
    unfold Db.unassign
    dsimp only
    rw [hold]
    refine calm_bump_of rfl rfl rfl rfl rfl rfl (fun id' hne => ?_) (hput record)
    exact (Table.get?_erase _ _ _).trans (if_neg hne.symm)
  | rejectsOther record =>
    exact calm_bump_of rfl rfl rfl rfl rfl rfl (fun _ _ => rfl) (hput record)
  | retries =>
    have hbumped : Calm {id} now now db (db.bump setup id) := calm_bump id db
    exact hbumped.trans <| calm_updateJobs (fun j => j.item = id) (fun j => { j with force := true }) (fun _ => rfl)
      (fun j _ _ hstate => ⟨rfl, hstate⟩) _
  | restores record =>
    exact calm_bump_of rfl rfl rfl rfl rfl rfl (fun _ _ => rfl) (hunreject db record)
  | supplements stored hstored => exact hstored.calm.trans (calm_bump id stored)

theorem Edits.calm {id : Id} (h : Edits setup id db db') : Calm {id} now now db db' := by
  refine h.invariant (I := fun d => Calm {id} now now db d) Calm.refl fun hedit hd => hd.trans ?_
  cases hedit with
  | note hnote => exact hnote.calm
  | store c item' hid =>
    refine ⟨fun item hitem _ => ⟨hitem, fun hlibrary => hlibrary⟩, fun _ _ hnone => hnone,
      fun item hne c' => ?_, fun _ _ hk => hk, fun j hj _ hrunnable => ⟨j, hj, rfl, rfl, hrunnable⟩⟩
    rw [mem_eligible, mem_eligible]
    refine and_congr_left fun ⟨hid', _⟩ => ?_
    rw [Table.mem_put]
    constructor
    · rintro (rfl | ⟨hc', -⟩)
      · exact absurd (hid'.symm.trans hid) hne
      · exact hc'
    · refine fun hc' => Or.inr ⟨hc', fun hkey => hne ?_⟩
      exact hid'.symm.trans ((Prod.mk.inj hkey).1.trans hid)
  | unassign => exact calm_unassign id _
  | assign record strength => exact calm_assign ⟨id, record, false, strength⟩ _

/-! ## Items that wait no more -/

theorem waits_of_eligible (h : ∀ c, c ∉ db.eligible item) : Waits setup db now item :=
  fun c hc => absurd hc.1 (h c)

/-- After a new revision there is nothing to wait for. -/
theorem eligible_bump (hdated : Dated db) {id : Id} (hitem : item ∈ (db.bump setup id).items)
    (hid : item.id = id) (c : Candidate) : c ∉ (db.bump setup id).eligible item := by
  intro heligible
  obtain ⟨hc, hid', hrevision, -⟩ := mem_eligible.mp heligible
  rw [Db.candidates_bump] at hc
  have hget := Table.get?_of_mem hitem
  rw [Db.get?_items_bump, if_pos hid.symm] at hget
  obtain ⟨old, hold, rfl⟩ := Option.map_eq_some_iff.mp hget
  obtain ⟨old', hold', hle⟩ := hdated.item c hc
  rw [hid', hold] at hold'
  cases hold'
  exact absurd hle (by rw [hrevision]; exact Nat.not_succ_le_self _)

theorem settled_bump {id : Id} (hdated : Dated db) (h : Settled setup (insert id busy) now db) :
    Settled setup busy now (db.bump setup id) := by
  have hcalm : Calm (insert id busy) now now db (db.bump setup id) :=
    (calm_bump id db).mono (Set.singleton_subset_iff.mpr (Set.mem_insert id busy))
  exact (hcalm.keeps_settled hdated h).drop fun item hitem hid _ _ =>
    waits_of_eligible (eligible_bump hdated hitem hid)

/-- The choice leaves an item alone only if it waits for a reason. -/
theorem waits_of_choice (hitem : item ∈ db.items) (hlibrary : db.inLibrary item.collection = true)
    (hselected : db.selected item.id = none) (hchoice : db.choice setup now item.id = none) :
    Waits setup db now item := by
  intro c hc
  unfold Db.choice at hchoice
  rw [Table.get?_of_mem hitem] at hchoice
  simp only [hselected, hlibrary, Option.isSome_none, Bool.not_true, Bool.or_self,
    Bool.false_eq_true, if_false] at hchoice
  cases hbest : (db.eligible item).argmin (db.preference setup item) with
  | none =>
    rw [List.argmin_eq_none] at hbest
    rw [Strongest, hbest] at hc
    exact absurd hc.1 List.not_mem_nil
  | some best =>
    rw [hbest] at hchoice
    dsimp only at hchoice
    split_ifs at hchoice with hnow
    rw [Bool.or_eq_true, not_or, Bool.not_eq_true', Bool.not_eq_false, decide_eq_true_eq,
      not_le] at hnow
    obtain ⟨hwaiting, hstrength⟩ := hnow
    obtain ⟨j, hj, hid, hrevision, ⟨position, hposition, hlt⟩, hrunnable⟩ := waiting_iff.mp hwaiting
    -- The candidate is as strong as the best one and does not rank before it.
    have hle : db.preference setup item best ≤ db.preference setup item c :=
      List.le_of_mem_argmin hc.1 hbest
    have hbestle := hc.2 best (List.argmin_mem hbest)
    unfold Db.preference at hle
    rw [Prod.Lex.toLex_le_toLex, Prod.Lex.toLex_le_toLex] at hle
    have hsame : c.strength = best.strength := by
      rcases hle with hlt | ⟨heq, -⟩
      · dsimp only at hlt
        omega
      · dsimp only at heq
        omega
    have hrank : db.rank setup item best.record ≤ db.rank setup item c.record := by
      rcases hle with hlt | ⟨-, hlt | ⟨heq, -⟩⟩
      · dsimp only at hlt
        omega
      · exact le_of_lt hlt
      · exact le_of_eq heq
    exact ⟨hsame ▸ hstrength, j, hj, hid, hrevision, ⟨position, hposition, hlt.trans_le hrank⟩,
      hrunnable⟩

theorem settled_chooseAutomatic {id : Id} (hdated : Dated db)
    (h : Settled setup (insert id busy) now db) :
    Settled setup busy now (db.chooseAutomatic setup now id) := by
  have hcalm : Calm (insert id busy) now now db (db.chooseAutomatic setup now id) :=
    (chooseAutomatic_edits now id db).calm.mono
      (Set.singleton_subset_iff.mpr (Set.mem_insert id busy))
  refine (hcalm.keeps_settled hdated h).drop fun item hitem hid hlibrary hselected => ?_
  unfold Db.chooseAutomatic at hitem hlibrary hselected ⊢
  cases hchoice : db.choice setup now id with
  | none =>
    simp only [hchoice] at hitem hlibrary hselected ⊢
    exact waits_of_choice hitem hlibrary hselected (hid ▸ hchoice)
  | some c =>
    simp only [hchoice] at hselected
    -- It is assigned now.
    rw [hid] at hselected
    change (Db.assign setup ⟨id, c.record, false, c.strength⟩
      (db.unassign setup id)).selected id = none at hselected
    rw [selected_assign, if_pos rfl] at hselected
    cases hselected

/-- What settles one item, done for a list of items. -/
theorem settled_foldl {f : Db → Id → Db}
    (hf : ∀ d id busy, Dated d → Settled setup (insert id busy) now d →
      Dated (f d id) ∧ Settled setup busy now (f d id)) (ids : List Id) (hdated : Dated db)
    (h : Settled setup {id | id ∈ ids} now db) : Settled setup ∅ now (ids.foldl f db) := by
  induction ids generalizing db with
  | nil => exact h.mono fun id hid => absurd hid List.not_mem_nil
  | cons id ids ih =>
    have hsub : {id' | id' ∈ id :: ids} ⊆ insert id {id' | id' ∈ ids} := fun id' hid' =>
      List.mem_cons.mp hid'
    obtain ⟨hdated', h'⟩ := hf db id _ hdated (h.mono hsub)
    exact ih hdated' h'

/-! ## Transactions -/

/-- The choice ends a transaction about one item. -/
theorem settled_of_choice {id : Id} (hdated : Dated db) (h : Settled setup {id} now db) :
    Settled setup ∅ now (db.chooseAutomatic setup now id) :=
  settled_chooseAutomatic hdated (h.mono (Set.singleton_subset_iff.mpr (Set.mem_insert id ∅)))

theorem settled_finishEnrichment {job : EnrichmentJob} {answer : EnrichmentAnswer} {landed : Bool}
    (hdated : Dated db) (h : Settled setup ∅ now db)
    (hfinish : finishEnrichment setup now job answer db = .ok (landed, db')) :
    Settled setup ∅ now db' := by
  rcases finishEnrichment_cases hfinish with ⟨-, -, rfl⟩ | ⟨-, -, answered, hedits, rfl⟩
  · exact h
  · have hbusy : Settled setup {job.itemId} now db := h.mono (Set.empty_subset _)
    have hdated' : Dated answered := hdated.edits hedits
    generalize decide (db.selected job.itemId ≠ answered.selected job.itemId) = changed
    generalize answer.refreshAt.getD 0 = refreshAt
    have hcompleted : Calm {job.itemId} now now answered (answered.complete job changed refreshAt) := by
      refine calm_updateJobs _ _ _ (fun j hj hid _ => ?_) _
      exact absurd (Prod.mk.inj (of_decide_eq_true hj)).1 hid
    have hfollowed := followUp_notes job (answered.complete job changed refreshAt)
    have hdated'' : Dated (answered.complete job changed refreshAt) :=
      hdated'.work ⟨rfl, rfl, rfl, rfl, rfl⟩
    refine settled_of_choice (hdated''.notes hfollowed) ?_
    exact ((hedits.calm.trans hcompleted).trans hfollowed.calm).keeps_settled hdated hbusy

theorem calm_release {job : EnrichmentJob} {blocked : Bool} {dueAt : ℤ} {error : Option Text}
    {attempts : ℕ → ℕ} (db : Db) :
    Calm {job.itemId} now now db (db.release job blocked dueAt error attempts) := by
  refine calm_updateJobs _ _ _ (fun j hj hid _ => ?_) db
  unfold EnrichmentJob.isRow at hj
  rw [Bool.and_eq_true, decide_eq_true_eq] at hj
  exact absurd (Prod.mk.inj hj.1).1 hid

theorem settled_deferEnrichment {job : EnrichmentJob} (hdated : Dated db)
    (h : Settled setup ∅ now db) : Settled setup ∅ now (deferEnrichment setup now job db) := by
  unfold deferEnrichment
  split
  split_ifs
  · refine settled_of_choice (hdated.work ⟨rfl, rfl, rfl, rfl, rfl⟩) ?_
    exact (calm_release db).keeps_settled hdated (h.mono (Set.empty_subset _))
  · exact h

/-- A pause concerns the items that have a job of the provider. -/
theorem calm_pause (row : Pause) (db : Db) :
    Calm {id | (db.jobs.get? (id, row.provider)).isSome = true} now now db (db.pause row) := by
  refine calm_of_jobs rfl rfl rfl rfl rfl (fun _ _ hk => hk) fun j hj hid hrunnable =>
    ⟨j, hj, rfl, rfl, hrunnable.1, ?_⟩
  have hne : row.provider ≠ j.provider := fun heq => hid <| by
    show (db.jobs.get? (j.item, row.provider)).isSome = true
    rw [heq, show db.jobs.get? (j.item, j.provider) = some j from Table.get?_of_mem hj]
    rfl
  have hpause : (db.pauses.put row).get? j.provider = db.pauses.get? j.provider := by
    rw [Table.get?_put, if_neg hne]
  unfold Db.open? Db.pause
  dsimp only
  rw [hpause]
  exact hrunnable.2

/-- No statement of the machine deletes a job. -/
theorem Edits.get?_jobs {id : Id} (h : Edits setup id db db') {k : Id × Text}
    (hjob : (db.jobs.get? k).isSome = true) : (db'.jobs.get? k).isSome = true := by
  have hbump : ∀ d : Db, (d.jobs.get? k).isSome = true →
      ((d.bump setup id).jobs.get? k).isSome = true := fun d hd => by
    cases hitem : d.items.get? id with
    | none =>
      unfold Db.bump
      rw [hitem]
      exact hd
    | some item =>
      rw [get?_jobs_bump hitem]
      split_ifs
      · rfl
      · exact hd
  refine h.invariant (I := fun d => (d.jobs.get? k).isSome = true) hjob fun hedit hd => ?_
  cases hedit with
  | note hnote =>
    cases hnote with
    | records hsame =>
      rw [hsame.jobs]
      exact hd
    | request p =>
      rw [Db.get?_jobs_request, Option.isSome_map]
      exact hd
  | store => exact hd
  | unassign =>
    unfold Db.unassign
    split
    · exact hd
    · exact hbump _ hd
  | assign => exact hbump _ hd

/-- The items that a pause of the provider may leave without a reason to wait. -/
theorem settled_chooseWaiting {provider : Text} (hdated : Dated db)
    (h : Settled setup {id | (db.jobs.get? (id, provider)).isSome = true} now db) :
    Settled setup ∅ now (db.chooseWaiting setup now provider) := by
  refine settled_foldl (fun d id busy hd hsettled =>
    ⟨hd.chooseAutomatic now id, settled_chooseAutomatic hd hsettled⟩) _ hdated ?_
  intro item hitem hid hlibrary hselected
  by_cases hjob : (db.jobs.get? (item.id, provider)).isSome = true
  · refine waits_of_eligible fun c hc => hid ?_
    obtain ⟨hc, hcid, hrevision, hstrength, -⟩ := mem_eligible.mp hc
    refine List.mem_map.mpr ⟨item, List.mem_filter.mpr ⟨hitem, ?_⟩, rfl⟩
    rw [hselected, hjob]
    simp only [Option.isSome_none, Bool.not_false, Bool.and_true, List.any_eq_true,
      Bool.and_eq_true, decide_eq_true_eq]
    exact ⟨c, hc, ⟨hcid, hrevision⟩, hstrength⟩
  · exact h item hitem hjob hlibrary hselected

theorem settled_failEnrichment {job : EnrichmentJob} {dueAt : ℤ} {error : Text}
    {providerWide blocked : Bool} (hdated : Dated db) (h : Settled setup ∅ now db) :
    Settled setup ∅ now (failEnrichment setup now job dueAt error providerWide blocked db) := by
  have hreleased : Settled setup {job.itemId} now (db.release job blocked dueAt (some error) id) :=
    (calm_release db).keeps_settled hdated (h.mono (Set.empty_subset _))
  have hdated' : Dated (db.release job blocked dueAt (some error) id) :=
    hdated.work ⟨rfl, rfl, rfl, rfl, rfl⟩
  unfold failEnrichment
  dsimp only
  split_ifs
  · generalize db.release job blocked dueAt (some error) id = released at hreleased hdated'
    let row : Pause := ⟨job.provider, dueAt, blocked, some error⟩
    let asked : Set Id := {id | (released.jobs.get? (id, job.provider)).isSome = true}
    have hpaused : Settled setup (insert job.itemId asked) now (released.pause row) := by
      have hcalm : Calm (insert job.itemId asked) now now released (released.pause row) :=
        (calm_pause row released).mono (Set.subset_insert _ _)
      exact hcalm.keeps_settled hdated' (hreleased.mono (Set.singleton_subset_iff.mpr (Set.mem_insert _ _)))
    have hdated'' : Dated (released.pause row) := hdated'.work ⟨rfl, rfl, rfl, rfl, rfl⟩
    have hchosen := settled_chooseAutomatic hdated'' hpaused
    refine settled_chooseWaiting (hdated''.chooseAutomatic now job.itemId) (hchosen.mono ?_)
    exact fun id hid => (chooseAutomatic_edits now job.itemId (released.pause row)).get?_jobs hid
  · exact settled_of_choice hdated' hreleased
  · exact h

theorem calm_wakeEnrichment (provider : Option Text) (db : Db) :
    Calm busy now now db (wakeEnrichment provider db) := by
  have hunblocked : Calm busy now now db (db.unblock provider) := by
    refine calm_of_jobs rfl rfl rfl rfl rfl (fun _ _ hk => hk) fun j hj _ hrunnable =>
      ⟨j, hj, rfl, rfl, hrunnable.1, ?_⟩
    have hopen := hrunnable.2
    unfold Db.open? at hopen ⊢
    unfold Db.unblock
    dsimp only
    rw [Table.get?_mapRows]
    cases hpause : db.pauses.get? j.provider with
    | none => rfl
    | some pause =>
      rw [hpause] at hopen
      dsimp only at hopen
      rw [Option.map_some]
      dsimp only
      rw [Bool.and_eq_true, Bool.not_eq_true'] at hopen
      rw [hopen.1, Bool.and_false, if_neg Bool.false_ne_true, hopen.1, hopen.2]
      rfl
  refine hunblocked.trans (calm_updateJobs _ _ _ (fun j hj _ hstate => ?_) _)
  rw [Bool.and_eq_true, decide_eq_true_eq] at hj
  rcases hstate with hstate | hstate <;> rw [hj.1] at hstate <;> cases hstate

theorem settled_claimEnrichment {provider : Text} {leaseSeconds : ℤ} {token : Id}
    {job : Option EnrichmentJob} (hdated : Dated db) (h : Settled setup ∅ now db)
    (hclaim : claimEnrichment provider now leaseSeconds token db = .ok (job, db')) :
    Settled setup ∅ now db' := by
  unfold claimEnrichment at hclaim
  obtain ⟨-, -, hclaim⟩ := except_bind_eq_ok.mp hclaim
  split at hclaim
  · cases hclaim
    exact h
  · rename_i row hrow
    cases hclaim
    obtain ⟨hrow, -⟩ := List.mem_filter.mp (List.argmin_mem hrow)
    have hcalm : Calm ∅ now now db
        { db with jobs := db.jobs.put (row.claim token (now + leaseSeconds)) } := ?_
    · exact hcalm.keeps_settled hdated h
    refine calm_of_jobs rfl rfl rfl rfl rfl (fun _ _ hk => hk) fun j hj _ hrunnable => ?_
    by_cases hkey : j.key = row.key
    · -- The claimed job is running.
      obtain rfl : j = row := Table.eq_of_key_eq hj hrow hkey
      exact ⟨j.claim token (now + leaseSeconds), Table.mem_put.mpr (Or.inl rfl), rfl, rfl, Or.inr rfl,
        hrunnable.2⟩
    · exact ⟨j, Table.mem_put.mpr (Or.inr ⟨hj, hkey⟩), rfl, rfl, hrunnable⟩

/-- A decision settles its item, or it changes nothing. -/
theorem settled_decides {id : Id} (hdated : Dated db) (h : Settled setup ∅ now db)
    (hdecides : Decides setup id db db') : Settled setup ∅ now db' := by
  have hother : Settled setup (insert id ∅) now db' := by
    have hcalm : Calm (insert id ∅) now now db db' :=
      hdecides.calm.mono (Set.singleton_subset_iff.mpr (Set.mem_insert id ∅))
    exact hcalm.keeps_settled hdated (h.mono (Set.empty_subset _))
  have hbumped : ∀ d : Db, Dated d → Settled setup (insert id ∅) now (d.bump setup id) →
      Settled setup ∅ now (d.bump setup id) := fun d hd hsettled =>
    hsettled.drop fun item hitem hid _ _ => waits_of_eligible (eligible_bump hd hitem hid)
  have hunassigned : ∀ d : Db, Dated d → d.assignments.get? id ≠ none →
      Settled setup (insert id ∅) now (d.unassign setup id) →
      Settled setup ∅ now (d.unassign setup id) := fun d hd hold hsettled => by
    obtain ⟨d', heq, hitems, hcandidates, hrecords⟩ := unassign_eq_bump hold
    rw [heq] at hsettled ⊢
    exact hbumped d' (hd.congr hitems hcandidates hrecords) hsettled
  cases hdecides with
  | assigns stored hstored record =>
    refine hother.drop fun item hitem hid _ hselected => ?_
    change (Db.assign setup ⟨id, record, true, 100⟩ _).selected item.id = none at hselected
    rw [selected_assign, if_pos hid.symm] at hselected
    cases hselected
  | clears =>
    by_cases hold : db.assignments.get? id = none
    · have hsame : db.replaceAssignment setup id none false 0 = db := by
        show db.unassign setup id = db
        unfold Db.unassign
        rw [hold]
      rw [hsame]
      exact h
    · exact hunassigned db hdated hold hother
  | rejectsSelected record hselected =>
    refine hunassigned _ (hdated.congr rfl rfl rfl) (fun hnone => ?_) hother
    have hold : db.assignments.get? id = none := hnone
    unfold Db.selected at hselected
    rw [hold] at hselected
    cases hselected
  | rejectsOther record => exact hbumped _ (hdated.congr rfl rfl rfl) hother
  | retries =>
    exact hother.drop fun item hitem hid _ _ =>
      waits_of_eligible fun c hc => eligible_bump hdated hitem hid c hc
  | restores record => exact hbumped _ (hdated.congr rfl rfl rfl) hother
  | supplements stored hstored => exact hbumped stored (hdated.notes hstored) hother

/-- A search that revives nothing, or is about an item that does not wait. -/
theorem settled_offerCandidates {id : Id} {revision : ℕ} {candidates : List EnrichmentCandidate}
    (hdated : Dated db) (h : Settled setup ∅ now db)
    (hoffer : offerCandidates setup id revision candidates db = .ok db')
    (hrevives : ∀ item, db.items.get? id = some item → db.inLibrary item.collection = true →
      db.selected id = none → db.revives item candidates = false) : Settled setup ∅ now db' := by
  obtain ⟨item, hitem, hoffering, -⟩ := offerCandidates_offering hdated hoffer
  obtain rfl : item.id = id := Table.get?_key hitem
  have hwork : db'.memberships = db.memberships ∧ ∀ j ∈ db.jobs, db.runnable now j →
      ∃ j' ∈ db'.jobs, j'.key = j.key ∧ j'.revision = j.revision ∧ db'.runnable now j' := by
    unfold offerCandidates at hoffer
    obtain ⟨item', -, hoffer⟩ := except_bind_eq_ok.mp hoffer
    obtain ⟨-, -, hoffer⟩ := except_bind_eq_ok.mp hoffer
    refine except_foldlM_invariant (I := fun d => d.memberships = db.memberships ∧
      ∀ j ∈ db.jobs, db.runnable now j → ∃ j' ∈ d.jobs, j'.key = j.key ∧
        j'.revision = j.revision ∧ d.runnable now j') hoffer
      ⟨rfl, fun j hj hrunnable => ⟨j, hj, rfl, rfl, hrunnable⟩⟩ ?_
    rintro c - a b ⟨hmemberships, hjobs⟩ hrow
    obtain ⟨noted, record, hnotes, -, rfl⟩ := offerCandidateRow_cases hrow
    have hcalm : Calm ∅ now now a noted := hnotes.calm
    refine ⟨hnotes.memberships.trans hmemberships, fun j hj hrunnable => ?_⟩
    obtain ⟨j₁, hj₁, hkey₁, hrevision₁, hrunnable₁⟩ := hjobs j hj hrunnable
    obtain ⟨j₂, hj₂, hkey₂, hrevision₂, hrunnable₂⟩ :=
      hcalm.jobs j₁ hj₁ (Set.notMem_empty _) hrunnable₁
    exact ⟨j₂, hj₂, hkey₂.trans hkey₁, hrevision₂.trans hrevision₁, hrunnable₂⟩
  let busy : Set Id := {x | x = item.id ∧ db.revives item candidates = true}
  have hcalm : Calm busy now now db db' := by
    refine ⟨fun other hother hid => ⟨hoffering.items ▸ hother, fun hlibrary => ?_⟩,
      fun other hid hnone => ?_, fun other hid c => hoffering.eligible_iff fun heq => ?_,
      hoffering.keys, fun j hj _ hrunnable => hwork.2 j hj hrunnable⟩
    · unfold Db.inLibrary at hlibrary ⊢
      rwa [hwork.1] at hlibrary
    · unfold Db.selected at hnone ⊢
      rwa [hoffering.assignments] at hnone
    · exact Bool.eq_false_iff.mpr fun hrevived => hid ⟨heq, hrevived⟩
  have hsettled := hcalm.keeps_settled hdated (h.mono (Set.empty_subset busy))
  intro other hother _ hlibrary hselected
  refine hsettled other hother (fun hid => ?_) hlibrary hselected
  obtain ⟨heq, hrevived⟩ := hid
  have hget := Table.get?_of_mem hother
  rw [hoffering.items, heq, hitem] at hget
  cases hget
  have hnot := hrevives item hitem ?_ ?_
  · rw [hnot] at hrevived
    cases hrevived
  · unfold Db.inLibrary at hlibrary ⊢
    rwa [hwork.1] at hlibrary
  · unfold Db.selected at hselected ⊢
    rwa [hoffering.assignments] at hselected

/-! ## The rest of the catalogue -/

theorem settled_insertItem (id collection : Id) (hdated : Dated db) (h : Settled setup ∅ now db) :
    Settled setup ∅ now (insertItem setup id collection db) := by
  unfold insertItem
  split_ifs with hthere
  · exact h
  · rw [Bool.not_eq_true, Option.isSome_eq_false_iff, Option.isNone_iff_eq_none] at hthere
    let d : Db := Db.enqueue setup ⟨id, collection, 0⟩
      { db with items := db.items.put ⟨id, collection, 0⟩ }
    have hcalm : Calm (insert id ∅) now now db d := by
      refine ⟨fun item hitem hid => ⟨?_, fun hlibrary => hlibrary⟩, fun _ _ hnone => hnone,
        fun _ _ _ => Iff.rfl, fun _ _ hk => hk, fun j hj hid hrunnable => ?_⟩
      · rcases Table.mem_put.mp hitem with rfl | ⟨hitem, -⟩
        · exact absurd (Set.mem_insert id ∅) hid
        · exact hitem
      · have hkept : d.jobs.get? j.key = some j := by
          show (Db.enqueue setup ⟨id, collection, 0⟩ _).jobs.get? j.key = _
          rw [Db.get?_jobs_enqueue, if_neg fun hnew => ?_]
          · exact Table.get?_of_mem hj
          · exact hid (Set.mem_insert_iff.mpr (Or.inl hnew.1))
        exact ⟨j, Table.get?_mem hkept, rfl, rfl, hrunnable⟩
    refine (hcalm.keeps_settled hdated (h.mono (Set.empty_subset _))).drop fun item hitem hid _ _ => ?_
    refine waits_of_eligible fun c hc => ?_
    -- No candidate is of the new item yet.
    obtain ⟨hc, hcid, -⟩ := mem_eligible.mp hc
    obtain ⟨old, hold, -⟩ := hdated.item c hc
    rw [hcid, hid, hthere] at hold
    cases hold

theorem settled_removeItem (id : Id) (hdated : Dated db) (h : Settled setup ∅ now db) :
    Settled setup ∅ now (removeItem id db) := by
  have hcalm : Calm (insert id ∅) now now db (removeItem id db) := by
    refine ⟨fun item hitem hid => ⟨(Table.mem_erase.mp hitem).1, fun hlibrary => hlibrary⟩,
      fun id' hid hnone => ?_, fun item hid c => ?_, fun _ _ hk => hk, fun j hj hid hrunnable => ?_⟩
    · have hne : id ≠ id' := fun heq => hid (Set.mem_insert_iff.mpr (Or.inl heq.symm))
      unfold Db.selected removeItem at hnone
      dsimp only at hnone
      rw [Table.get?_erase, if_neg hne] at hnone
      exact hnone
    · have hne : item.id ≠ id := fun heq => hid (Set.mem_insert_iff.mpr (Or.inl heq))
      rw [mem_eligible, mem_eligible]
      constructor
      · rintro ⟨hc, hcid, hrevision, hstrength, hnot⟩
        refine ⟨(Table.mem_filter.mp hc).1, hcid, hrevision, hstrength, ?_⟩
        rw [← hnot, rejected_removeItem (hcid ▸ hne)]
      · rintro ⟨hc, hcid, hrevision, hstrength, hnot⟩
        refine ⟨Table.mem_filter.mpr ⟨hc, decide_eq_true (hcid ▸ hne)⟩, hcid, hrevision, hstrength, ?_⟩
        rw [rejected_removeItem (hcid ▸ hne), hnot]
    · have hne : j.item ≠ id := fun heq => hid (Set.mem_insert_iff.mpr (Or.inl heq))
      exact ⟨j, Table.mem_filter.mpr ⟨hj, decide_eq_true hne⟩, rfl, rfl, hrunnable⟩
  refine (hcalm.keeps_settled hdated (h.mono (Set.empty_subset _))).drop fun item hitem hid _ _ => ?_
  exact absurd hid (Table.mem_erase.mp hitem).2

theorem settled_addMembership (library collection : Id) (hdated : Dated db)
    (h : Settled setup ∅ now db) :
    Settled setup ∅ now (addMembership setup library collection db) := by
  have hlibrary : ∀ c, (db.memberships.put ⟨library, collection⟩).rows.any
      (fun m => m.collection = c) = true → c = collection ∨ db.inLibrary c = true := by
    intro c hc
    obtain ⟨m, hm, hcollection⟩ := List.any_eq_true.mp hc
    rcases Table.mem_put.mp hm with rfl | ⟨hm, -⟩
    · exact Or.inl (of_decide_eq_true hcollection).symm
    · exact Or.inr (List.any_eq_true.mpr ⟨m, hm, hcollection⟩)
  have hcalm : ∀ busy : Set Id, (∀ item ∈ db.items, item.id ∉ busy →
      item.collection = collection → db.inLibrary item.collection = true) →
      Calm busy now now db { db with memberships := db.memberships.put ⟨library, collection⟩ } := by
    refine fun busy hin => ⟨fun item hitem hid => ⟨hitem, fun hstored => ?_⟩,
      fun _ _ hnone => hnone, fun _ _ _ => Iff.rfl, fun _ _ hk => hk,
      fun j hj _ hrunnable => ⟨j, hj, rfl, rfl, hrunnable⟩⟩
    rcases hlibrary _ hstored with hcollection | hold
    · exact hin item hitem hid hcollection
    · exact hold
  unfold addMembership
  dsimp only
  split_ifs with hthere hcount
  · exact h
  · refine settled_foldl (fun d id busy hd hsettled =>
      ⟨hd.ages (Ages.bump id), settled_bump hd hsettled⟩) _ (hdated.congr rfl rfl rfl) ?_
    refine (hcalm _ fun item hitem hid hcollection => ?_).keeps_settled hdated
      (h.mono (Set.empty_subset _))
    exact absurd (List.mem_map.mpr ⟨item, List.mem_filter.mpr
      ⟨hitem, decide_eq_true hcollection⟩, rfl⟩) hid
  · refine (hcalm ∅ fun item _ _ hcollection => ?_).keeps_settled hdated h
    rw [hcollection]
    exact inLibrary_of_count hcount

theorem calm_removeMembership (library collection : Id) (db : Db) :
    Calm busy now now db (removeMembership library collection db) := by
  have hstored : Calm busy now now db { db with
      memberships := db.memberships.filter fun m =>
        !(m.library = library && m.collection = collection) } := by
    refine ⟨fun item hitem _ => ⟨hitem, fun hlibrary => ?_⟩, fun _ _ hnone => hnone,
      fun _ _ _ => Iff.rfl, fun _ _ hk => hk, fun j hj _ hrunnable => ⟨j, hj, rfl, rfl, hrunnable⟩⟩
    obtain ⟨m, hm, hcollection⟩ := List.any_eq_true.mp hlibrary
    exact List.any_eq_true.mpr ⟨m, (Table.mem_filter.mp hm).1, hcollection⟩
  exact hstored.trans (Note.request _).calm

theorem calm_tick (seconds : ℕ) (db : Db) : Calm busy now (now + seconds) db db := by
  refine calm_of_jobs rfl rfl rfl rfl rfl (fun _ _ hk => hk) fun j hj _ hrunnable =>
    ⟨j, hj, rfl, rfl, hrunnable.1, ?_⟩
  have hopen := hrunnable.2
  unfold Db.open? at hopen ⊢
  split at hopen
  · rfl
  · rename_i pause hpause
    rw [Bool.and_eq_true, decide_eq_true_eq] at hopen
    rw [Bool.and_eq_true, decide_eq_true_eq]
    exact ⟨hopen.1, by omega⟩

/-! ## All runs -/

/-- A search revives no candidate of an item that is in a library and not assigned. -/
def SuggestsWaiting (s : System) : Event → Prop
  | .offer id _ candidates => ∀ item, s.db.items.get? id = some item →
      s.db.inLibrary item.collection = true → s.db.selected id = none →
      s.db.revives item candidates = false
  | _ => True

theorem Settled.next {s s' : System} {e : Event} (hdated : Dated s.db)
    (h : Settled setup ∅ s.now s.db) (hok : SuggestsWaiting s e) (he : s.next setup e = some s') :
    Settled setup ∅ s'.now s'.db := by
  have hcommit : ∀ tx : Tx Db, (∀ db, tx = .ok db → Settled setup ∅ s.now db) →
      Settled setup ∅ (s.commit tx).now (s.commit tx).db := fun tx htx => by
    rcases s.commit_cases tx with heq | ⟨db, hdb, heq⟩
    · rw [heq]
      exact h
    · rw [heq]
      exact htx db hdb
  cases e with
  | tick seconds =>
    cases he
    exact (calm_tick seconds s.db).keeps_settled hdated h
  | claim provider leaseSeconds token =>
    rw [System.next] at he
    split_ifs at he with hused
    split at he
    · rename_i job db hclaim
      cases he
      exact settled_claimEnrichment hdated h hclaim
    · cases he
      exact h
  | finish place answer =>
    obtain ⟨job, -, rfl⟩ := Option.map_eq_some_iff.mp he
    refine hcommit _ fun db hdb => ?_
    obtain ⟨landed, hfinish⟩ := except_map_snd_eq_ok hdb
    exact settled_finishEnrichment hdated h hfinish
  | fail place dueAt error providerWide blocked =>
    obtain ⟨job, -, rfl⟩ := Option.map_eq_some_iff.mp he
    exact settled_failEnrichment hdated h
  | defer place =>
    obtain ⟨job, -, rfl⟩ := Option.map_eq_some_iff.mp he
    exact settled_deferEnrichment hdated h
  | wake provider =>
    cases he
    exact (calm_wakeEnrichment provider s.db).keeps_settled hdated h
  | offer item revision candidates =>
    cases he
    exact hcommit _ fun db hdb => settled_offerCandidates hdated h hdb hok
  | correct item revision action record =>
    cases he
    exact hcommit _ fun db hdb => settled_decides hdated h (correctMetadata_decides hdb)
  | assignIdentity item revision saved =>
    cases he
    exact hcommit _ fun db hdb => settled_decides hdated h (assignIdentity_decides hdb)
  | addSupplement item revision record =>
    cases he
    exact hcommit _ fun db hdb => settled_decides hdated h (addSupplement_decides hdb)
  | changeItem item =>
    cases he
    exact settled_bump hdated (h.mono (Set.empty_subset _))
  | insertItem item collection =>
    cases he
    exact settled_insertItem item collection hdated h
  | removeItem item =>
    cases he
    exact settled_removeItem item hdated h
  | addMembership library collection =>
    cases he
    exact settled_addMembership library collection hdated h
  | removeMembership library collection =>
    cases he
    exact (calm_removeMembership library collection s.db).keeps_settled hdated h
  | snapshot collection active =>
    cases he
    exact h

/-- In every run all of whose searches revive no candidate of an unassigned item in a
    library: the strongest eligible candidate of such an item has a strength below
    20, and a question of the item that ranks above it is runnable. -/
theorem waits_with_reason {start : ℤ} {s : System}
    (h : (machine setup start).Reaches SuggestsWaiting s) :
    ∀ item ∈ s.db.items, s.db.inLibrary item.collection = true →
      s.db.selected item.id = none → ∀ c, Strongest s.db item c →
      c.strength < 20 ∧ Asked setup s.db s.now item c.record := by
  have hall : Dated s.db ∧ Settled setup ∅ s.now s.db :=
    Machine.Reaches.invariant (I := fun s : System => Dated s.db ∧ Settled setup ∅ s.now s.db) h
      ⟨dated_emptyTables start, fun item hitem => absurd hitem (Table.not_mem_empty item)⟩
      fun ha hok he => ⟨ha.1.next he, ha.2.next ha.1 hok he⟩
  exact fun item hitem hlibrary hselected =>
    hall.2 item hitem (Set.notMem_empty _) hlibrary hselected

/-- While `tmdb` is still asked, `tvdb` finds a film, and a person searches for
    another one. -/
def foundByTvdb : List Event :=
  [.addMembership 1 1, .insertItem 1 1, .claim (lit "tvdb") 180 1,
    .finish 0 (answerOf [(filmOf (lit "tvdb") (lit "7"), 10)]), .offer 1 0 [offerOf (lit "8")]]

/-- The film waits for `tmdb`. -/
theorem waits_with_reason_found : ∃ s : System,
    (machine films 0).Reaches SuggestsWaiting s ∧ s.db.candidates.rows.length = 2 ∧
    Asked films s.db s.now ⟨1, 1, 0⟩ 1 := by
  have hrun : (((machine films 0).replay (fun s e => match e with
      | .offer id _ candidates =>
        (s.db.items.get? id).all fun item => !s.db.revives item candidates
      | _ => true) foundByTvdb (emptyTables 0)).any fun s =>
        s.db.items.get? 1 = some ⟨1, 1, 0⟩ && s.db.inLibrary 1 && s.db.selected 1 = none &&
        s.db.eligible ⟨1, 1, 0⟩ = [⟨1, 1, 0, 10, some 0⟩] &&
        s.db.candidates.rows.length = 2) = true := by
    decide
  obtain ⟨s, hs, hstates⟩ := (Option.any_eq_true _ _).mp hrun
  simp only [Bool.and_eq_true, decide_eq_true_eq] at hstates
  obtain ⟨⟨⟨⟨hitem, hlibrary⟩, hselected⟩, heligible⟩, hlength⟩ := hstates
  have hreach : (machine films 0).Reaches SuggestsWaiting s :=
    (Machine.reaches_of_replay hs).mono fun s e he => by
      cases e with
      | offer id revision candidates =>
        intro item hitem _ _
        have hall := (Option.all_eq_true _ _).mp he item hitem
        rwa [Bool.not_eq_true'] at hall
      | _ => trivial
  have hstrongest : Strongest s.db ⟨1, 1, 0⟩ ⟨1, 1, 0, 10, some 0⟩ := by
    unfold Strongest
    rw [heligible]
    simp
  exact ⟨s, hreach, hlength, (waits_with_reason hreach ⟨1, 1, 0⟩ (Table.get?_mem hitem) hlibrary
    hselected _ hstrongest).2⟩

/-- A film that a search revives waits for nobody. -/
theorem waits_for_nobody : ∃ s : System, (machine films 0).Reachable s ∧
    s.db.items.get? 1 = some ⟨1, 1, 1⟩ ∧ s.db.inLibrary 1 = true ∧ s.db.selected 1 = none ∧
    Strongest s.db ⟨1, 1, 1⟩ ⟨1, 1, 1, 10, some 0⟩ ∧ ¬ Asked films s.db s.now ⟨1, 1, 1⟩ 1 ∧
    ∀ j ∈ s.db.jobs, j.provider = lit "tmdb" ∨ j.provider = lit "tvdb" → j.state = .done := by
  have hrun : (((machine films 0).replay (fun _ _ => true)
      (titleChanged ++ [.offer 1 1 [offerOf (lit "7")]]) (emptyTables 0)).any fun s =>
        s.db.items.get? 1 = some ⟨1, 1, 1⟩ && s.db.inLibrary 1 && s.db.selected 1 = none &&
        s.db.eligible ⟨1, 1, 1⟩ = [⟨1, 1, 1, 10, some 0⟩] &&
        !s.db.waiting films s.now ⟨1, 1, 1⟩ (s.db.rank films ⟨1, 1, 1⟩ 1) &&
        s.db.jobs.rows.all fun j =>
          !(j.provider = lit "tmdb" || j.provider = lit "tvdb") || j.state = .done) = true := by
    decide
  obtain ⟨s, hs, hstates⟩ := (Option.any_eq_true _ _).mp hrun
  simp only [Bool.and_eq_true, decide_eq_true_eq, Bool.not_eq_true', List.all_eq_true] at hstates
  obtain ⟨⟨⟨⟨⟨hitem, hlibrary⟩, hselected⟩, heligible⟩, hwaiting⟩, hdone⟩ := hstates
  refine ⟨s, (Machine.reaches_of_replay hs).reachable, hitem, hlibrary, hselected, ?_, fun hasked => ?_,
    fun j hj hprovider => ?_⟩
  · unfold Strongest
    rw [heligible]
    simp
  · rw [waiting_iff.mpr hasked] at hwaiting
    cases hwaiting
  · have hstate := hdone j hj
    simp only [Bool.or_eq_true, Bool.not_eq_true', Bool.or_eq_false_iff, decide_eq_false_iff_not,
      decide_eq_true_eq] at hstate
    rcases hstate with ⟨htmdb, htvdb⟩ | hstate
    · rcases hprovider with heq | heq
      · exact absurd heq htmdb
      · exact absurd heq htvdb
    · exact hstate

end Kahawai.MediaDb.Enrichment
