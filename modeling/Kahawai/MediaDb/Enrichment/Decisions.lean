import Kahawai.MediaDb.Enrichment.Candidates

/-!
# Decisions are final

What a person decides about an item, the machine leaves alone. `Change` tells
which statements belong to a decision; of the others none removes a manual
assignment, deletes a rejection or assigns a rejected record.

Main result:

* `decisions_final`: a manual assignment stays as it is until somebody decides
  about the item again; a rejected record is not assigned, and stays rejected
  until somebody takes it back; and an item has at most one assignment.
-/

namespace Kahawai.MediaDb.Enrichment

open Kahawai.Core Kahawai.Lib Kahawai.Proto

variable {setup : Setup} {db db' : Db} {decided : Id → Prop}

/-! ## Decisions -/

/-- A decision about one item leaves the assignments of the others alone. -/
theorem Decides.assignments_of_ne {id id' : Id} (h : Decides setup id db db') (hne : id ≠ id') :
    db'.assignments.get? id' = db.assignments.get? id' := by
  have hunassign : ∀ d : Db, (d.unassign setup id).assignments.get? id' = d.assignments.get? id' :=
    fun d => by rw [Db.assignments_unassign, if_neg hne]
  cases h with
  | assigns stored hstored record =>
    show (Db.assign setup ⟨id, record, true, 100⟩ _).assignments.get? id' = _
    rw [Db.assignments_assign, if_neg hne]
    show (stored.unassign setup id).assignments.get? id' = _
    rw [hunassign, hstored.same.2.2.2.1]
  | clears => exact hunassign db
  | rejectsSelected => exact hunassign _
  | rejectsOther => rw [Db.assignments_bump]
  | retries =>
    show (db.bump setup id).assignments.get? id' = _
    rw [Db.assignments_bump]
  | restores record =>
    rw [Db.assignments_bump]
    rfl
  | supplements stored hstored => rw [Db.assignments_bump, hstored.same.2.2.2.1]

theorem Notes.rejected (h : Notes db db') (id r : Id) : db'.rejected id r = db.rejected id r := by
  unfold Db.rejected
  rw [h.same.2.1]

/-- No rejection of another item is deleted. -/
theorem Decides.rejected_of_ne {id id' r : Id} (h : Decides setup id db db') (hne : id' ≠ id)
    (hrejected : db.rejected id' r = true) : db'.rejected id' r = true := by
  have hother : ∀ record, (id', r) ≠ (id, record) := fun record h => hne (Prod.mk.inj h).1
  have hput : ∀ record, ({ db with rejections := db.rejections.put ⟨id, record⟩ } : Db).rejected
      id' r = true := fun record => by rw [rejected_put, hrejected, Bool.true_or]
  cases h with
  | assigns stored hstored record =>
    rw [rejected_replaceAssignment (hother record), hstored.rejected, hrejected]
  | clears => exact (Db.rejected_unassign _ _ _ _).trans hrejected
  | rejectsSelected record => exact (Db.rejected_unassign _ _ _ _).trans (hput record)
  | rejectsOther record => exact (Db.rejected_bump _ _ _ _).trans (hput record)
  | retries => exact (Db.rejected_bump _ _ _ _).trans hrejected
  | restores record => rw [Db.rejected_bump, rejected_unreject (hother record), hrejected]
  | supplements stored hstored => rw [Db.rejected_bump, hstored.rejected, hrejected]

/-- A correction takes back a rejection only if it is about the record. -/
theorem correctMetadata_rejected {id r : Id} {revision : ℕ} {action : Action} {record : Option Id}
    (h : correctMetadata setup id revision action record db = .ok db')
    (hother : action = .pick ∨ action = .confirm ∨ action = .restore → record ≠ some r)
    (hrejected : db.rejected id r = true) : db'.rejected id r = true := by
  have hrequired : ∀ r', required record = .ok r' → record ≠ some r → (id, r) ≠ (id, r') := by
    rintro r' hr' hne heq
    cases record with
    | none => cases hr'
    | some record =>
      cases hr'
      exact hne (congrArg some (Prod.mk.inj heq).2.symm)
  have hassigned : ∀ r', required record = .ok r' → record ≠ some r →
      (db.replaceAssignment setup id (some r') true 100).rejected id r = true := fun r' hr' hne => by
    rw [rejected_replaceAssignment (hrequired r' hr' hne), hrejected]
  unfold correctMetadata at h
  obtain ⟨item, -, h⟩ := except_bind_eq_ok.mp h
  obtain ⟨-, -, h⟩ := except_bind_eq_ok.mp h
  cases action with
  | pick =>
    obtain ⟨r', hr', h⟩ := except_bind_eq_ok.mp h
    obtain ⟨-, -, h⟩ := except_bind_eq_ok.mp h
    obtain ⟨-, -, h⟩ := except_bind_eq_ok.mp h
    cases h
    exact hassigned r' hr' (hother (Or.inl rfl))
  | confirm =>
    obtain ⟨r', hr', h⟩ := except_bind_eq_ok.mp h
    obtain ⟨-, -, h⟩ := except_bind_eq_ok.mp h
    obtain ⟨-, -, h⟩ := except_bind_eq_ok.mp h
    cases h
    exact hassigned r' hr' (hother (Or.inr (Or.inl rfl)))
  | reject =>
    obtain ⟨r', -, h⟩ := except_bind_eq_ok.mp h
    obtain ⟨-, -, h⟩ := except_bind_eq_ok.mp h
    cases h
    have hput : ({ db with rejections := db.rejections.put ⟨id, r'⟩ } : Db).rejected id r = true := by
      rw [rejected_put, hrejected, Bool.true_or]
    split_ifs
    · exact (Db.rejected_unassign _ _ _ _).trans hput
    · exact (Db.rejected_bump _ _ _ _).trans hput
  | clear =>
    cases h
    exact (Db.rejected_unassign _ _ _ _).trans hrejected
  | retry =>
    cases h
    exact (Db.rejected_bump _ _ _ _).trans hrejected
  | restore =>
    obtain ⟨r', hr', h⟩ := except_bind_eq_ok.mp h
    cases h
    rw [Db.rejected_bump,
      rejected_unreject (hrequired r' hr' (hother (Or.inr (Or.inr rfl)))), hrejected]
  | unknown => cases h

/-! ## Statements -/

/-- A manual assignment goes only with a decision about its item. -/
theorem Change.manual {a : Assignment} (h : Change setup decided db db') (hid : ¬ decided a.item)
    (ha : db.assignments.get? a.item = some a) (hmanual : a.manual = true) :
    db'.assignments.get? a.item = some a := by
  cases h with
  | @edit id db' hedit =>
    cases hedit with
    | note hnote => rw [hnote.notes.same.2.2.2.1, ha]
    | store => exact ha
    | unassign hauto =>
      rw [Db.assignments_unassign, if_neg fun heq => ?_]
      · exact ha
      · rw [hauto a (heq ▸ ha)] at hmanual
        cases hmanual
    | assign record strength hnone =>
      rw [Db.assignments_assign, if_neg fun heq => ?_]
      · exact ha
      · rw [show db.assignments.get? a.item = none from heq ▸ hnone] at ha
        cases ha
  | work hsame => rw [hsame.assignments, ha]
  | bump id => rw [Db.assignments_bump, ha]
  | @decide id db' hdecided hdecides =>
    have hne : id ≠ a.item := fun heq => hid (heq ▸ hdecided)
    rw [hdecides.assignments_of_ne hne, ha]
  | insert id collection hnew =>
    unfold insertItem
    rw [hnew]
    exact ha
  | remove id hdecided =>
    have hne : id ≠ a.item := fun heq => hid (heq ▸ hdecided)
    show (db.assignments.erase id).get? a.item = _
    rw [Table.get?_erase, if_neg hne, ha]

/-- A rejection goes only with a decision about its item. -/
theorem Change.rejected {id r : Id} (h : Change setup decided db db') (hid : ¬ decided id)
    (hrejected : db.rejected id r = true) : db'.rejected id r = true := by
  cases h with
  | edit hedit =>
    cases hedit with
    | note hnote => rw [hnote.notes.rejected, hrejected]
    | store => exact hrejected
    | unassign => rw [Db.rejected_unassign, hrejected]
    | assign => exact (Db.rejected_bump _ _ _ _).trans hrejected
  | work hsame =>
    unfold Db.rejected
    rw [hsame.rejections]
    exact hrejected
  | bump => rw [Db.rejected_bump, hrejected]
  | @decide id' db' hdecided hdecides =>
    have hne : id ≠ id' := fun heq => hid (heq ▸ hdecided)
    exact hdecides.rejected_of_ne hne hrejected
  | insert id' collection hnew =>
    unfold insertItem
    rw [hnew]
    exact hrejected
  | remove id' hdecided =>
    obtain ⟨row, hrow, heq⟩ := List.any_eq_true.mp hrejected
    rw [Bool.and_eq_true, decide_eq_true_eq] at heq
    refine List.any_eq_true.mpr ⟨row, Table.mem_filter.mpr ⟨hrow, decide_eq_true ?_⟩, ?_⟩
    · exact fun hgone => hid (heq.1.symm.trans hgone ▸ hdecided)
    · rw [Bool.and_eq_true, decide_eq_true_eq]
      exact heq

/-! ## Rejected records -/

theorem rejected_unreject_self (id record : Id) (db : Db) :
    (db.unreject id record).rejected id record = false := by
  unfold Db.rejected Db.unreject
  rw [List.any_eq_false]
  intro row hrow heq
  obtain ⟨-, hkept⟩ := Table.mem_filter.mp hrow
  rw [heq] at hkept
  cases hkept

/-- A decision assigns no rejected record, and what it rejects it does not keep. -/
theorem Decides.upheld {id id' r : Id} (h : Decides setup id db db')
    (hselected : db'.selected id' = some r) (hrejected : db'.rejected id' r = true) :
    db.selected id' = some r ∧ db.rejected id' r = true := by
  have hnotes : ∀ {stored : Db}, Notes db stored → stored.selected id' = db.selected id' :=
    fun hstored => by
      unfold Db.selected
      rw [hstored.same.2.2.2.1]
  cases h with
  | assigns stored hstored record =>
    change (Db.assign setup ⟨id, record, true, 100⟩
      ((stored.unassign setup id).unreject id record)).selected id' = some r at hselected
    rw [selected_assign] at hselected
    split_ifs at hselected with heq
    · -- The record that is assigned is not rejected any more.
      obtain rfl : record = r := Option.some.inj hselected
      change (Db.assign setup ⟨id, record, true, 100⟩
        ((stored.unassign setup id).unreject id record)).rejected id' record = true at hrejected
      unfold Db.assign at hrejected
      rw [Db.rejected_bump] at hrejected
      change ((stored.unassign setup id).unreject id record).rejected id' record = true at hrejected
      rw [show id' = id from heq.symm, rejected_unreject_self] at hrejected
      cases hrejected
    · have hne : id ≠ id' := heq
      rw [rejected_replaceAssignment fun h => hne (Prod.mk.inj h).1.symm,
        hstored.rejected] at hrejected
      change (stored.unassign setup id).selected id' = some r at hselected
      rw [selected_unassign, if_neg hne, hnotes hstored] at hselected
      exact ⟨hselected, hrejected⟩
  | clears =>
    change (db.unassign setup id).selected id' = some r at hselected
    rw [selected_unassign] at hselected
    split_ifs at hselected
    exact ⟨hselected, (Db.rejected_unassign _ _ _ _).symm.trans hrejected⟩
  | rejectsSelected record =>
    change (Db.unassign setup id { db with
      rejections := db.rejections.put ⟨id, record⟩ }).selected id' = some r at hselected
    rw [selected_unassign] at hselected
    split_ifs at hselected with heq
    refine ⟨hselected, ?_⟩
    have hput := (Db.rejected_unassign _ _ _ _).symm.trans hrejected
    rw [rejected_put] at hput
    simpa [heq] using hput
  | rejectsOther record hother =>
    rw [selected_bump] at hselected
    rw [Db.rejected_bump, rejected_put] at hrejected
    refine ⟨hselected, ?_⟩
    rw [Bool.or_eq_true, Bool.and_eq_true, decide_eq_true_eq, decide_eq_true_eq] at hrejected
    rcases hrejected with hrejected | ⟨rfl, rfl⟩
    · exact hrejected
    · exact absurd hselected hother
  | retries =>
    exact ⟨(selected_bump _ _ _).symm.trans hselected,
      (Db.rejected_bump _ _ _ _).symm.trans hrejected⟩
  | restores record =>
    rw [selected_bump] at hselected
    rw [Db.rejected_bump] at hrejected
    refine ⟨hselected, ?_⟩
    obtain ⟨row, hrow, heq⟩ := List.any_eq_true.mp hrejected
    exact List.any_eq_true.mpr ⟨row, (Table.mem_filter.mp hrow).1, heq⟩
  | supplements stored hstored =>
    rw [selected_bump, hnotes hstored] at hselected
    rw [Db.rejected_bump, hstored.rejected] at hrejected
    exact ⟨hselected, hrejected⟩

/-- No statement assigns a rejected record or keeps what it rejects. -/
theorem Change.upheld {id r : Id} (h : Change setup decided db db')
    (hselected : db'.selected id = some r) (hrejected : db'.rejected id r = true) :
    db.selected id = some r ∧ db.rejected id r = true := by
  cases h with
  | edit hedit =>
    cases hedit with
    | note hnote =>
      unfold Db.selected at hselected
      rw [hnote.notes.same.2.2.2.1] at hselected
      exact ⟨hselected, hnote.notes.rejected id r ▸ hrejected⟩
    | store => exact ⟨hselected, hrejected⟩
    | unassign =>
      rw [selected_unassign] at hselected
      split_ifs at hselected
      exact ⟨hselected, (Db.rejected_unassign _ _ _ _).symm.trans hrejected⟩
    | assign record strength hnone hnot =>
      have hsame : db.rejected id r = true := by
        unfold Db.assign at hrejected
        rw [Db.rejected_bump] at hrejected
        exact hrejected
      rw [selected_assign] at hselected
      split_ifs at hselected with heq
      · rw [← Option.some.inj hselected, ← show _ = id from heq, hnot] at hsame
        cases hsame
      · exact ⟨hselected, hsame⟩
  | work hsame =>
    unfold Db.selected at hselected
    unfold Db.rejected at hrejected
    rw [hsame.assignments] at hselected
    rw [hsame.rejections] at hrejected
    exact ⟨hselected, hrejected⟩
  | bump =>
    exact ⟨(selected_bump _ _ _).symm.trans hselected,
      (Db.rejected_bump _ _ _ _).symm.trans hrejected⟩
  | decide hdecided hdecides => exact hdecides.upheld hselected hrejected
  | insert id' collection hnew =>
    unfold insertItem at hselected hrejected
    rw [hnew] at hselected hrejected
    exact ⟨hselected, hrejected⟩
  | remove id' hdecided =>
    constructor
    · obtain ⟨a, ha, hrecord⟩ := Option.map_eq_some_iff.mp hselected
      change (db.assignments.erase id').get? id = some a at ha
      rw [Table.get?_erase] at ha
      split_ifs at ha
      exact Option.map_eq_some_iff.mpr ⟨a, ha, hrecord⟩
    · obtain ⟨row, hrow, heq⟩ := List.any_eq_true.mp hrejected
      exact List.any_eq_true.mpr ⟨row, (Table.mem_filter.mp hrow).1, heq⟩

/-! ## All runs -/

/-- A search decides nothing. -/
theorem offer_decides_nothing {s s' : System} {id : Id} {revision : ℕ}
    {candidates : List EnrichmentCandidate} (hdated : Dated s.db)
    (h : s.next setup (.offer id revision candidates) = some s') :
    s'.db.assignments = s.db.assignments ∧ s'.db.rejections = s.db.rejections := by
  rcases System.next_offer h with heq | hoffer
  · rw [heq]
    exact ⟨rfl, rfl⟩
  · obtain ⟨item, -, hoffering, -⟩ := offerCandidates_offering hdated hoffer
    exact ⟨hoffering.assignments, hoffering.rejections⟩

/-- The event can take back the rejection of the record for the item. -/
def Event.Acquits (id r : Id) : Event → Prop
  | .correct item _ action record =>
    item = id ∧ (action = .pick ∨ action = .confirm ∨ action = .restore) ∧ record = some r
  | .assignIdentity item _ _ | .removeItem item => item = id
  | _ => False

theorem Event.Acquits.decides {id r : Id} {e : Event} (h : e.Acquits id r) : e.Decides id := by
  cases e with
  | correct => exact h.1
  | assignIdentity => exact h
  | removeItem => exact h
  | _ => cases h

/-- No rejected record is assigned. -/
def Upheld (db : Db) : Prop := ∀ id r, db.rejected id r = true → db.selected id ≠ some r

theorem Upheld.next {s s' : System} {e : Event} (h : Dated s.db ∧ Upheld s.db)
    (he : s.next setup e = some s') : Dated s'.db ∧ Upheld s'.db := by
  refine ⟨h.1.next he, ?_⟩
  by_cases hsearch : ∃ id revision candidates, e = .offer id revision candidates
  · obtain ⟨id, revision, candidates, rfl⟩ := hsearch
    obtain ⟨hassignments, hrejections⟩ := offer_decides_nothing h.1 he
    unfold Upheld Db.rejected Db.selected
    rw [hassignments, hrejections]
    exact h.2
  · have hchanges := System.next_changes he fun id revision candidates heq =>
      hsearch ⟨id, revision, candidates, heq⟩
    refine hchanges.invariant h.2 fun hchange ha id r hrejected hselected => ?_
    obtain ⟨hselected', hrejected'⟩ := hchange.upheld hselected hrejected
    exact ha id r hrejected' hselected'

theorem upheld_of_reachable {start : ℤ} {s : System} (h : (machine setup start).Reachable s) :
    Dated s.db ∧ Upheld s.db :=
  Machine.Reaches.invariant (I := fun s : System => Dated s.db ∧ Upheld s.db) h
    ⟨dated_emptyTables start, fun _ _ hrejected => by cases hrejected⟩
    fun ha _ he => Upheld.next ha he

theorem System.next_manual {s s' : System} {e : Event} {a : Assignment} (hdated : Dated s.db)
    (he : s.next setup e = some s') (hid : ¬ e.Decides a.item)
    (ha : s.db.assignments.get? a.item = some a) (hmanual : a.manual = true) :
    s'.db.assignments.get? a.item = some a := by
  by_cases hsearch : ∃ id revision candidates, e = .offer id revision candidates
  · obtain ⟨id, revision, candidates, rfl⟩ := hsearch
    rw [(offer_decides_nothing hdated he).1, ha]
  · have hchanges := System.next_changes he fun id revision candidates heq =>
      hsearch ⟨id, revision, candidates, heq⟩
    exact hchanges.invariant (I := fun d => d.assignments.get? a.item = some a) ha
      fun hchange ha => hchange.manual hid ha hmanual

theorem System.next_rejected {s s' : System} {e : Event} {id r : Id} (hdated : Dated s.db)
    (he : s.next setup e = some s') (hacquits : ¬ e.Acquits id r)
    (hrejected : s.db.rejected id r = true) : s'.db.rejected id r = true := by
  by_cases hdecides : e.Decides id
  · cases e with
    | correct item revision action record =>
      cases he
      obtain rfl : item = id := hdecides
      rcases s.commit_cases (correctMetadata setup item revision action record s.db) with
        heq | ⟨db, hdb, heq⟩
      · rw [heq]
        exact hrejected
      · rw [heq]
        exact correctMetadata_rejected hdb (fun haction hrecord => hacquits ⟨rfl, haction, hrecord⟩)
          hrejected
    | assignIdentity => exact absurd hdecides hacquits
    | removeItem => exact absurd hdecides hacquits
    | _ => cases hdecides
  · by_cases hsearch : ∃ id revision candidates, e = .offer id revision candidates
    · obtain ⟨id', revision, candidates, rfl⟩ := hsearch
      unfold Db.rejected
      rw [(offer_decides_nothing hdated he).2]
      exact hrejected
    · have hchanges := System.next_changes he fun id revision candidates heq =>
        hsearch ⟨id, revision, candidates, heq⟩
      exact hchanges.invariant (I := fun d => d.rejected id r = true) hrejected
        fun hchange ha => hchange.rejected hdecides ha

/-- From any reachable state: a manual assignment stays until somebody decides about
    its item, a rejected record is not assigned and stays rejected until somebody
    takes it back, and an item has one assignment at most. -/
theorem decisions_final {start : ℤ} {s : System} (h : (machine setup start).Reachable s) :
    (∀ a ∈ s.db.assignments, a.manual = true → ∀ s',
        (machine setup start).Steps (fun _ e => ¬ e.Decides a.item) s s' →
        s'.db.assignments.get? a.item = some a) ∧
      (∀ id r, s.db.rejected id r = true → s.db.selected id ≠ some r ∧ ∀ s',
        (machine setup start).Steps (fun _ e => ¬ e.Acquits id r) s s' →
        s'.db.rejected id r = true ∧ s'.db.selected id ≠ some r) ∧
      ∀ a ∈ s.db.assignments, ∀ a' ∈ s.db.assignments, a.item = a'.item → a = a' := by
  have hall : Dated s.db ∧ Upheld s.db := upheld_of_reachable h
  refine ⟨fun a ha hmanual s' hrun => ?_, fun id r hrejected => ⟨hall.2 id r hrejected, fun s' hrun => ?_⟩,
    fun a ha a' ha' heq => Table.eq_of_key_eq ha ha' heq⟩
  · have hkept : Dated s'.db ∧ s'.db.assignments.get? a.item = some a :=
      hrun.invariant (I := fun s : System => Dated s.db ∧ s.db.assignments.get? a.item = some a)
        ⟨hall.1, Table.get?_of_mem ha⟩ fun hI hok he =>
          ⟨hI.1.next he, System.next_manual hI.1 he hok hI.2 hmanual⟩
    exact hkept.2
  · have hkept : (Dated s'.db ∧ Upheld s'.db) ∧ s'.db.rejected id r = true :=
      hrun.invariant (I := fun s : System => (Dated s.db ∧ Upheld s.db) ∧ s.db.rejected id r = true)
        ⟨hall, hrejected⟩ fun hI hok he =>
          ⟨Upheld.next hI.1 he, System.next_rejected hI.1.1 he hok hI.2⟩
    exact ⟨hkept.2, hkept.1.2 id r hkept.2⟩

/-- A film of `tmdb` is found and rejected, and one of `tvdb` is picked, while both
    providers are asked. -/
def decidedWhileClaimed : List Event :=
  [.addMembership 1 1, .insertItem 1 1, .claim (lit "tmdb") 180 1,
    .finish 0 (answerOf [(filmOf (lit "tmdb") (lit "7"), 20)]), .correct 1 1 .reject (some 1),
    .offer 1 2 [offerOf (lit "9")], .correct 1 2 .pick (some 2), .claim (lit "tmdb") 180 2,
    .claim (lit "tvdb") 180 3]

/-- The answers, which know better. -/
def lateAnswers : List Event :=
  [.finish 1 (answerOf [(filmOf (lit "tmdb") (lit "7"), 30)]),
    .finish 2 (answerOf [(filmOf (lit "tvdb") (lit "8"), 30)])]

/-- The picked film stays, and the rejected one is stored as a candidate only. -/
theorem decisions_final_late : ∃ s s' : System,
    (machine films 0).replay (fun _ _ => true) decidedWhileClaimed (emptyTables 0) = some s ∧
    (machine films 0).replay (fun _ e => !decide (e.Decides 1)) lateAnswers s = some s' ∧
    s'.db.candidates.rows.length = 3 ∧
    s'.db.assignments.get? 1 = some ⟨1, 2, true, 100⟩ ∧
    s'.db.rejected 1 1 = true ∧ s'.db.selected 1 ≠ some 1 := by
  have hrun : (((machine films 0).replay (fun _ _ => true) decidedWhileClaimed
      (emptyTables 0)).any fun s =>
        s.db.assignments.get? 1 = some ⟨1, 2, true, 100⟩ && s.db.rejected 1 1 &&
        ((machine films 0).replay (fun _ e => !decide (e.Decides 1)) lateAnswers s).any fun s' =>
          s'.db.candidates.rows.length = 3) = true := by
    decide
  obtain ⟨s, hs, hstates⟩ := (Option.any_eq_true _ _).mp hrun
  simp only [Bool.and_eq_true, decide_eq_true_eq, Option.any_eq_true] at hstates
  obtain ⟨⟨hassigned, hrejected⟩, s', hs', hlength⟩ := hstates
  have hfinal := decisions_final (Machine.reaches_of_replay hs).reachable
  have hsteps := Machine.steps_of_replay lateAnswers hs'
  have hundecided : (machine films 0).Steps (fun _ e => ¬ e.Decides 1) s s' := by
    refine Relation.ReflTransGen.mono ?_ _ _ hsteps
    rintro _ _ ⟨e, he, hnext⟩
    exact ⟨e, by simpa using he, hnext⟩
  have hkept : (machine films 0).Steps (fun _ e => ¬ e.Acquits 1 1) s s' := by
    refine Relation.ReflTransGen.mono ?_ _ _ hundecided
    rintro _ _ ⟨e, he, hnext⟩
    exact ⟨e, fun h => he h.decides, hnext⟩
  exact ⟨s, s', hs, hs', hlength, hfinal.1 _ (Table.get?_mem hassigned) rfl s' hundecided,
    (hfinal.2.1 1 1 hrejected).2 s' hkept⟩

end Kahawai.MediaDb.Enrichment
