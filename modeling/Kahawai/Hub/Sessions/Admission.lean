import Mathlib.Data.Finset.Card
import Kahawai.Lib.Processes
import Kahawai.Lib.Runs
import Kahawai.Lib.Table

/-!
# The cap on the sessions of a user

`Sessions::start` mints a session id, takes a slot with `admit` and holds it in
a `SlotGuard` for as long as the start is in flight
(`crates/kahawai-hub/src/sessions/admission.rs`, `start.rs`, lines 27–92). A
start that succeeds puts the session into `active` before its guard drops; the
guard drops on every exit, a dropped future included. `end`, the janitor and
the other callers of `end` remove sessions from `active` at any time.

`admit` holds the lock of `reserved` from its count to its insert, and the lock
of `active` for the count only, so sessions may begin and end between the two.
Of a session the model keeps the id and the user.

Results:
* `heldCount_eq`: the count of `admit` is the number of ids in the union.
* `cap_holds`: the union never exceeds the cap, a start that is over holds no
  slot, and `admit` refuses only when the union has reached the cap.
-/

namespace Kahawai.Hub.Sessions.Admission

open Kahawai.Lib

/-! ## The model -/

/-- A session id and its user: an entry of `reserved` or of `active`. -/
structure Slot where
  id : String
  user : String
  deriving DecidableEq

/-- Where a call of `start` is. -/
inductive Stage
  /-- The id is minted (line 40). -/
  | minted
  /-- In `admit` after the count, holding the lock of `reserved`. -/
  | admitting
  /-- In `start_inner`, holding the guard. -/
  | guarded
  /-- The session is in `active`; the guard is still held. -/
  | inserted
  /-- Refused, or the guard is dropped. -/
  | over
  deriving DecidableEq

structure Start where
  slot : Slot
  stage : Stage
  deriving DecidableEq

structure State where
  starts : List Start
  /-- The start that holds the lock of `reserved`. -/
  locked : Option ℕ
  reserved : Table Slot.id
  active : Table Slot.id

/-- `with_limits`: no sessions and no starts. -/
def State.new : State := ⟨[], none, Table.empty, Table.empty⟩

/-- `held` (lines 32–41). -/
def heldCount (s : State) (user : String) : ℕ :=
  (s.reserved.rows.filter fun r => r.user = user).length +
    (s.active.rows.filter fun a =>
      a.user = user && (s.reserved.rows.all fun r => r.id ≠ a.id)).length

inductive Event
  /-- `start` mints an id that no start had before. -/
  | mint (slot : Slot)
  /-- `admit` counts and refuses (line 42). -/
  | refuse (i : ℕ)
  /-- `admit` counts and goes on to the insert. -/
  | count (i : ℕ)
  /-- `admit` inserts into `reserved` and gives the lock back (line 45). -/
  | reserve (i : ℕ)
  /-- `start_inner` inserts into `active` (`start.rs`, line 598). -/
  | activate (i : ℕ)
  /-- `SlotGuard::drop`: an early return, a failure, a success or a dropped future. -/
  | drop (i : ℕ)
  /-- `end` removes the session from `active` (`mod.rs`, line 602). -/
  | remove (id : String)
  deriving DecidableEq

def State.setStage (s : State) (i : ℕ) (st : Start) (stage : Stage) : State :=
  { s with starts := s.starts.set i { st with stage } }

/-- One step. -/
def admissionNext (maxPerUser : ℕ) (s : State) : Event → Option State
  | .mint slot =>
    if s.starts.all fun st => st.slot.id ≠ slot.id then
      some { s with starts := s.starts ++ [⟨slot, .minted⟩] }
    else none
  | .refuse i =>
    move s.starts i (fun st => st.stage = .minted ∧ s.locked = none ∧
      maxPerUser ≤ heldCount s st.slot.user) fun st => s.setStage i st .over
  | .count i =>
    move s.starts i (fun st => st.stage = .minted ∧ s.locked = none ∧
      heldCount s st.slot.user < maxPerUser) fun st =>
      { s.setStage i st .admitting with locked := some i }
  | .reserve i =>
    move s.starts i (fun st => st.stage = .admitting) fun st =>
      { s.setStage i st .guarded with
        locked := none
        reserved := s.reserved.put st.slot }
  | .activate i =>
    move s.starts i (fun st => st.stage = .guarded) fun st =>
      { s.setStage i st .inserted with active := s.active.put st.slot }
  | .drop i =>
    move s.starts i (fun st => (st.stage = .guarded ∨ st.stage = .inserted) ∧
      s.locked = none) fun st =>
      { s.setStage i st .over with reserved := s.reserved.erase st.slot.id }
  | .remove id => some { s with active := s.active.erase id }

/-- Admission with the cap `maxPerUser`. -/
def admission (maxPerUser : ℕ) : Machine State Event := ⟨State.new, admissionNext maxPerUser⟩

/-! ## The union -/

/-- The ids of a user's slots. -/
def idsOf (t : Table Slot.id) (user : String) : Finset String :=
  ((t.rows.filter fun r => r.user = user).map Slot.id).toFinset

/-- The ids of a user in `reserved` or in `active`. -/
def heldIds (s : State) (user : String) : Finset String :=
  idsOf s.reserved user ∪ idsOf s.active user

variable {s s' : State} {maxPerUser i : ℕ} {st : Start}

theorem mem_idsOf {t : Table Slot.id} {user id : String} :
    id ∈ idsOf t user ↔ (⟨id, user⟩ : Slot) ∈ t := by
  simp only [idsOf, List.mem_toFinset, List.mem_map, List.mem_filter, decide_eq_true_eq]
  constructor
  · rintro ⟨⟨id, user⟩, ⟨hmem, rfl⟩, rfl⟩
    exact hmem
  · intro hmem
    exact ⟨_, ⟨hmem, rfl⟩, rfl⟩

theorem card_idsOf (t : Table Slot.id) (user : String) :
    (idsOf t user).card = (t.rows.filter fun r => r.user = user).length := by
  rw [idsOf, List.toFinset_card_of_nodup, List.length_map]
  exact t.nodup.sublist (List.filter_sublist.map _)

theorem mem_heldIds {user id : String} :
    id ∈ heldIds s user ↔ (⟨id, user⟩ : Slot) ∈ s.reserved ∨ (⟨id, user⟩ : Slot) ∈ s.active := by
  rw [heldIds, Finset.mem_union, mem_idsOf, mem_idsOf]

/-- Slots that were all held before. -/
theorem heldIds_subset (h : ∀ slot, slot ∈ s'.reserved ∨ slot ∈ s'.active →
    slot ∈ s.reserved ∨ slot ∈ s.active) (user : String) : heldIds s' user ⊆ heldIds s user := by
  intro id hid
  exact mem_heldIds.mpr (h _ (mem_heldIds.mp hid))

/-! ## The invariant -/

structure Inv (maxPerUser : ℕ) (s : State) : Prop where
  distinct : (s.starts.map fun st => st.slot.id).Nodup
  /-- No id has two users. -/
  known : ∀ slot : Slot, slot ∈ s.reserved ∨ slot ∈ s.active → ∃ st ∈ s.starts, st.slot = slot
  reserved : ∀ st ∈ s.starts,
    (st.slot ∈ s.reserved ↔ st.stage = .guarded ∨ st.stage = .inserted)
  locked : ∀ (i : ℕ) (st : Start), s.starts[i]? = some st → st.stage = .admitting →
    s.locked = some i
  room : ∀ st ∈ s.starts, st.stage = .admitting → (heldIds s st.slot.user).card < maxPerUser
  cap : ∀ user, (heldIds s user).card ≤ maxPerUser

theorem Inv.slot_eq (h : Inv maxPerUser s) {a b : Slot} (ha : a ∈ s.reserved ∨ a ∈ s.active)
    (hb : b ∈ s.reserved ∨ b ∈ s.active) (hid : a.id = b.id) : a = b := by
  obtain ⟨x, hx, rfl⟩ := h.known a ha
  obtain ⟨y, hy, rfl⟩ := h.known b hb
  rw [List.inj_on_of_nodup_map h.distinct hx hy hid]

/-- The count of `admit` is the number of ids in the union. -/
theorem heldCount_eq (h : Inv maxPerUser s) (user : String) :
    heldCount s user = (heldIds s user).card := by
  have hactive : ((s.active.rows.filter fun a =>
      a.user = user && (s.reserved.rows.all fun r => r.id ≠ a.id)).map Slot.id).toFinset =
      idsOf s.active user \ idsOf s.reserved user := by
    ext id
    simp only [List.mem_toFinset, List.mem_map, List.mem_filter, Bool.and_eq_true,
      decide_eq_true_eq, List.all_eq_true, Finset.mem_sdiff, mem_idsOf]
    constructor
    · rintro ⟨⟨id, user⟩, ⟨hmem, rfl, hfree⟩, rfl⟩
      exact ⟨hmem, fun hres => hfree _ hres rfl⟩
    · rintro ⟨hmem, hfree⟩
      refine ⟨_, ⟨hmem, rfl, fun r hr hid => hfree ?_⟩, rfl⟩
      rwa [← h.slot_eq (Or.inl hr) (Or.inr hmem) hid]
  have hlength : (s.active.rows.filter fun a =>
      a.user = user && (s.reserved.rows.all fun r => r.id ≠ a.id)).length =
      (idsOf s.active user \ idsOf s.reserved user).card := by
    rw [← hactive, List.toFinset_card_of_nodup, List.length_map]
    exact s.active.nodup.sublist (List.filter_sublist.map _)
  calc heldCount s user
      = (idsOf s.reserved user).card + (idsOf s.active user \ idsOf s.reserved user).card := by
        rw [heldCount, hlength, card_idsOf]
    _ = (heldIds s user).card := by
        rw [heldIds, ← Finset.union_sdiff_self_eq_union,
          Finset.card_union_of_disjoint Finset.disjoint_sdiff]

theorem inv_new : Inv maxPerUser State.new where
  distinct := List.nodup_nil
  known := by simp [State.new]
  reserved := by simp [State.new]
  locked := by simp [State.new]
  room := by simp [State.new]
  cap := fun user => by simp [heldIds, idsOf, State.new]

/-- What the other starts' clauses need of a step of start `i`, which takes it
    from stage `st.stage` to `stage`. -/
structure Moves (s s' : State) (i : ℕ) (st : Start) (stage : Stage) : Prop where
  found : s.starts[i]? = some st
  starts : s'.starts = s.starts.set i { st with stage }
  known : ∀ slot : Slot, slot ∈ s'.reserved ∨ slot ∈ s'.active →
    slot = st.slot ∨ slot ∈ s.reserved ∨ slot ∈ s.active
  self : st.slot ∈ s'.reserved ↔ stage = .guarded ∨ stage = .inserted
  other : ∀ slot : Slot, slot.id ≠ st.slot.id → (slot ∈ s'.reserved ↔ slot ∈ s.reserved)
  lock : stage = .admitting → s'.locked = some i
  unlocked : ∀ j, j ≠ i → s.locked = some j → s'.locked = some j

theorem Moves.map_slot {stage : Stage} (hm : Moves s s' i st stage) :
    (s'.starts.map fun t => t.slot) = s.starts.map fun t => t.slot := by
  rw [hm.starts]
  exact map_set_eq hm.found rfl

/-- A start that moves leaves the invariant, where the step keeps the cap and
    the room of the start in `admit`. -/
theorem Inv.moves (h : Inv maxPerUser s) (stage : Stage) (hm : Moves s s' i st stage)
    (hroom : ∀ t ∈ s'.starts, t.stage = .admitting →
      (heldIds s' t.slot.user).card < maxPerUser)
    (hcap : ∀ user, (heldIds s' user).card ≤ maxPerUser) : Inv maxPerUser s' where
  distinct := by
    have hids : (s'.starts.map fun t => t.slot.id) = s.starts.map fun t => t.slot.id := by
      rw [hm.starts]
      exact map_set_eq hm.found rfl
    rw [hids]
    exact h.distinct
  known := by
    intro slot hslot
    have hin : slot ∈ s.starts.map fun t => t.slot := by
      rcases hm.known slot hslot with rfl | hold
      · exact List.mem_map.mpr ⟨st, List.mem_of_getElem? hm.found, rfl⟩
      · exact List.mem_map.mpr (h.known slot hold)
    rw [← hm.map_slot] at hin
    exact List.mem_map.mp hin
  reserved := by
    intro t ht
    rw [hm.starts] at ht
    rcases mem_set_cases ht with rfl | ⟨j, hne, hold⟩
    · exact hm.self
    · have hid : t.slot.id ≠ st.slot.id := fun heq =>
        hne (index_eq_of_nodup h.distinct hold hm.found heq)
      rw [hm.other _ hid]
      exact h.reserved t (List.mem_of_getElem? hold)
  locked := by
    intro j t hj hadm
    rw [hm.starts] at hj
    rcases getElem?_set_cases hj with ⟨rfl, rfl⟩ | ⟨hne, hold⟩
    · exact hm.lock hadm
    · exact hm.unlocked j hne (h.locked j t hold hadm)
  room := hroom
  cap := hcap

/-- A start that moves and holds no new slot leaves the invariant. -/
theorem Inv.moves_shrink (h : Inv maxPerUser s) (stage : Stage) (hm : Moves s s' i st stage)
    (hheld : ∀ slot : Slot, slot ∈ s'.reserved ∨ slot ∈ s'.active →
      slot ∈ s.reserved ∨ slot ∈ s.active)
    (hself : stage = .admitting → (heldIds s st.slot.user).card < maxPerUser) :
    Inv maxPerUser s' := by
  have hcard : ∀ user, (heldIds s' user).card ≤ (heldIds s user).card := fun user =>
    Finset.card_le_card (heldIds_subset hheld user)
  refine h.moves stage hm ?_ fun user => (hcard user).trans (h.cap user)
  intro t ht hadm
  rw [hm.starts] at ht
  rcases mem_set_cases ht with rfl | ⟨j, -, hold⟩
  · exact (hcard _).trans_lt (hself hadm)
  · exact (hcard _).trans_lt (h.room t (List.mem_of_getElem? hold) hadm)

/-- The insert of `admit`: one new id, for which there is room. -/
theorem Inv.reserve (h : Inv maxPerUser s) (hst : s.starts[i]? = some st)
    (hadm : st.stage = .admitting)
    (hs' : s' = { s.setStage i st .guarded with
      locked := none
      reserved := s.reserved.put st.slot }) : Inv maxPerUser s' := by
  subst hs'
  have hlock : s.locked = some i := h.locked i st hst hadm
  have halone : ∀ t ∈ s.starts.set i { st with stage := .guarded }, t.stage ≠ .admitting := by
    intro t ht hta
    rcases mem_set_cases ht with rfl | ⟨j, hne, hold⟩
    · cases hta
    · have hj : s.locked = some j := h.locked j t hold hta
      rw [hlock] at hj
      exact hne (Option.some.inj hj).symm
  have hm : Moves s { s.setStage i st .guarded with
      locked := none
      reserved := s.reserved.put st.slot } i st .guarded := by
    refine ⟨hst, rfl, ?_, ?_, ?_, nofun, ?_⟩
    · rintro slot (hslot | hslot)
      · rcases Table.mem_put.mp hslot with rfl | ⟨hold, -⟩
        · exact Or.inl rfl
        · exact Or.inr (Or.inl hold)
      · exact Or.inr (Or.inr hslot)
    · simp
    · intro slot hid
      rw [Table.mem_put]
      constructor
      · rintro (rfl | ⟨hold, -⟩)
        · exact absurd rfl hid
        · exact hold
      · exact fun hold => Or.inr ⟨hold, hid⟩
    · intro j hne hj
      rw [hlock] at hj
      exact absurd (Option.some.inj hj).symm hne
  refine h.moves .guarded hm (fun t ht hta => absurd hta (halone t ht)) fun user => ?_
  have hsub : ∀ id ∈ heldIds { s.setStage i st .guarded with
      locked := none
      reserved := s.reserved.put st.slot } user,
      id ∈ heldIds s user ∨ (id = st.slot.id ∧ user = st.slot.user) := by
    intro id hid
    rcases mem_heldIds.mp hid with hput | hact
    · rcases Table.mem_put.mp hput with heq | ⟨hold, -⟩
      · exact Or.inr ⟨congrArg Slot.id heq, congrArg Slot.user heq⟩
      · exact Or.inl (mem_heldIds.mpr (Or.inl hold))
    · exact Or.inl (mem_heldIds.mpr (Or.inr hact))
  by_cases huser : user = st.slot.user
  · subst huser
    have hinsert := Finset.card_le_card (s := heldIds _ _)
      (t := insert st.slot.id (heldIds s st.slot.user)) fun id hid => by
        rcases hsub id hid with hold | ⟨rfl, -⟩
        · exact Finset.mem_insert_of_mem hold
        · exact Finset.mem_insert_self _ _
    calc _ ≤ (insert st.slot.id (heldIds s st.slot.user)).card := hinsert
      _ ≤ (heldIds s st.slot.user).card + 1 := Finset.card_insert_le _ _
      _ ≤ maxPerUser := h.room st (List.mem_of_getElem? hst) hadm
  · refine (Finset.card_le_card fun id hid => ?_).trans (h.cap user)
    rcases hsub id hid with hold | ⟨-, heq⟩
    · exact hold
    · exact absurd heq huser

/-- A new start, which holds nothing. -/
theorem Inv.mint (h : Inv maxPerUser s) {slot : Slot}
    (hfresh : ∀ st ∈ s.starts, st.slot.id ≠ slot.id) :
    Inv maxPerUser { s with starts := s.starts ++ [⟨slot, .minted⟩] } where
  distinct := by
    rw [List.map_append, List.map_singleton, List.nodup_append]
    refine ⟨h.distinct, List.nodup_singleton _, ?_⟩
    intro a ha b hb hab
    obtain ⟨st, hst, rfl⟩ := List.mem_map.mp ha
    exact hfresh st hst (hab.trans (List.mem_singleton.mp hb))
  known := by
    intro r hr
    obtain ⟨st, hst, heq⟩ := h.known r hr
    exact ⟨st, List.mem_append_left _ hst, heq⟩
  reserved := by
    intro st hst
    rcases List.mem_append.mp hst with hold | hnew
    · exact h.reserved st hold
    · rw [List.mem_singleton.mp hnew]
      constructor
      · intro hres
        obtain ⟨t, ht, heq⟩ := h.known slot (Or.inl hres)
        exact absurd (congrArg Slot.id heq) (hfresh t ht)
      · rintro (hstage | hstage) <;> cases hstage
  locked := by
    intro i st hi hadm
    rcases getElem?_append_cases hi with ⟨-, rfl⟩ | hold
    · cases hadm
    · exact h.locked i st hold hadm
  room := by
    intro st hst hadm
    rcases List.mem_append.mp hst with hold | hnew
    · exact h.room st hold hadm
    · rw [List.mem_singleton.mp hnew] at hadm
      cases hadm
  cap := h.cap

/-- A session that ends. -/
theorem Inv.remove (h : Inv maxPerUser s) (id : String) :
    Inv maxPerUser { s with active := s.active.erase id } := by
  have hheld : ∀ slot : Slot, slot ∈ s.reserved ∨ slot ∈ s.active.erase id →
      slot ∈ s.reserved ∨ slot ∈ s.active := by
    rintro slot (hres | hact)
    · exact Or.inl hres
    · exact Or.inr (Table.mem_erase.mp hact).1
  have hcard : ∀ user, (heldIds { s with active := s.active.erase id } user).card ≤
      (heldIds s user).card := fun user =>
    Finset.card_le_card (heldIds_subset hheld user)
  exact
    { distinct := h.distinct
      known := fun slot hslot => h.known slot (hheld slot hslot)
      reserved := h.reserved
      locked := h.locked
      room := fun st hst hadm => (hcard _).trans_lt (h.room st hst hadm)
      cap := fun user => (hcard user).trans (h.cap user) }

/-- Every event keeps the invariant. -/
theorem inv_next {e : Event} (h : Inv maxPerUser s) (hs : admissionNext maxPerUser s e = some s') :
    Inv maxPerUser s' := by
  cases e with
  | mint slot =>
    simp only [admissionNext] at hs
    split at hs
    · rename_i hfresh
      cases hs
      exact h.mint (by simpa using hfresh)
    · cases hs
  | refuse i =>
    obtain ⟨st, hst, ⟨hstage, -, -⟩, rfl⟩ := move_eq_some.mp hs
    have hfree : st.slot ∉ s.reserved := by
      simp [h.reserved st (List.mem_of_getElem? hst), hstage]
    exact h.moves_shrink .over
      ⟨hst, rfl, fun _ => Or.inr, by simpa [State.setStage] using hfree, fun _ _ => Iff.rfl,
        nofun, fun _ _ => id⟩ (fun _ => id) nofun
  | count i =>
    obtain ⟨st, hst, ⟨hstage, hlock, hroom⟩, rfl⟩ := move_eq_some.mp hs
    have hfree : st.slot ∉ s.reserved := by
      simp [h.reserved st (List.mem_of_getElem? hst), hstage]
    rw [heldCount_eq h] at hroom
    exact h.moves_shrink .admitting
      ⟨hst, rfl, fun _ => Or.inr, by simpa [State.setStage] using hfree, fun _ _ => Iff.rfl,
        fun _ => rfl, fun j _ hj => by rw [hlock] at hj; cases hj⟩ (fun _ => id) fun _ => hroom
  | reserve i =>
    obtain ⟨st, hst, hstage, rfl⟩ := move_eq_some.mp hs
    exact h.reserve hst hstage rfl
  | activate i =>
    obtain ⟨st, hst, hstage, rfl⟩ := move_eq_some.mp hs
    have hres : st.slot ∈ s.reserved := by
      simp [h.reserved st (List.mem_of_getElem? hst), hstage]
    have hheld : ∀ slot : Slot, slot ∈ s.reserved ∨ slot ∈ s.active.put st.slot →
        slot ∈ s.reserved ∨ slot ∈ s.active := by
      rintro slot (hold | hput)
      · exact Or.inl hold
      · rcases Table.mem_put.mp hput with rfl | ⟨hold, -⟩
        · exact Or.inl hres
        · exact Or.inr hold
    exact h.moves_shrink .inserted
      ⟨hst, rfl, fun slot hslot => Or.inr (hheld slot hslot),
        by simpa [State.setStage] using hres, fun _ _ => Iff.rfl, nofun, fun _ _ => id⟩ hheld nofun
  | drop i =>
    obtain ⟨st, hst, ⟨-, hlock⟩, rfl⟩ := move_eq_some.mp hs
    have hheld : ∀ slot : Slot, slot ∈ s.reserved.erase st.slot.id ∨ slot ∈ s.active →
        slot ∈ s.reserved ∨ slot ∈ s.active := by
      rintro slot (hres | hact)
      · exact Or.inl (Table.mem_erase.mp hres).1
      · exact Or.inr hact
    exact h.moves_shrink .over
      ⟨hst, rfl, fun slot hslot => Or.inr (hheld slot hslot), by simp,
        fun slot hid => by simp [hid], nofun, fun j _ hj => by
          rw [hlock] at hj
          cases hj⟩ hheld nofun
  | remove id =>
    cases hs
    exact h.remove id

theorem inv_of_reachable (h : (admission maxPerUser).Reachable s) : Inv maxPerUser s :=
  h.invariant inv_new fun ha _ hb => inv_next ha hb

/-! ## The cap -/

/-- At every moment no user holds more than `max_per_user` ids, an id whose
    start has finished or been dropped is not in `reserved`, and a start that
    `admit` refuses finds `max_per_user` ids held. -/
theorem cap_holds (h : (admission maxPerUser).Reachable s) :
    (∀ user, (heldIds s user).card ≤ maxPerUser) ∧
    (∀ st ∈ s.starts, st.stage = .over → ∀ r ∈ s.reserved, r.id ≠ st.slot.id) ∧
    (∀ i s', admissionNext maxPerUser s (.refuse i) = some s' →
      ∃ st, s.starts[i]? = some st ∧ (heldIds s st.slot.user).card = maxPerUser) := by
  have hinv := inv_of_reachable h
  refine ⟨hinv.cap, ?_, ?_⟩
  · intro st hst hover r hr hid
    obtain ⟨t, ht, rfl⟩ := hinv.known r (Or.inl hr)
    have heq : t = st := List.inj_on_of_nodup_map hinv.distinct ht hst hid
    subst heq
    rcases (hinv.reserved t ht).mp hr with hstage | hstage
    · rw [hover] at hstage
      cases hstage
    · rw [hover] at hstage
      cases hstage
  · intro i s' hs
    obtain ⟨st, hst, ⟨-, -, hfull⟩, -⟩ := move_eq_some.mp hs
    rw [heldCount_eq hinv] at hfull
    exact ⟨st, hst, le_antisymm (hinv.cap _) hfull⟩

/-- With a cap of one: a session begins and its guard is still held when a
    second start of the user is refused. -/
theorem cap_holds_one : ∃ s s', (admission 1).replay (fun _ _ => true)
      [.mint ⟨"s0", "ann"⟩, .count 0, .mint ⟨"s1", "ann"⟩, .reserve 0, .activate 0]
      State.new = some s ∧ admissionNext 1 s (.refuse 1) = some s' ∧
      (heldIds s "ann").card ≤ 1 ∧
      ∃ st, s.starts[1]? = some st ∧ (heldIds s st.slot.user).card = 1 := by
  have hrun : (((admission 1).replay (fun _ _ => true)
      [.mint ⟨"s0", "ann"⟩, .count 0, .mint ⟨"s1", "ann"⟩, .reserve 0, .activate 0]
      State.new).bind fun s => admissionNext 1 s (.refuse 1)).isSome := by
    decide
  obtain ⟨s', hs'⟩ := Option.isSome_iff_exists.mp hrun
  obtain ⟨s, hs, hrefuse⟩ := Option.bind_eq_some_iff.mp hs'
  have hcap := cap_holds (Machine.reaches_of_replay hs).reachable
  exact ⟨s, s', hs, hrefuse, hcap.1 "ann", hcap.2.2 1 s' hrefuse⟩

end Kahawai.Hub.Sessions.Admission
