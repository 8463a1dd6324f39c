import Mathlib.Data.Nat.Basic
import Mathlib.Order.Basic
import Kahawai.Transcoder.Runner

/-!
# Superseded starts

A start is safe when it can neither answer nor register any more: it is over,
an abort has caught it, or its generation is ended. `Orderly` asks of a run
that a new start finds the earlier starts of its id safe, and that an end finds
no start between the outcome of its executor and its verdict.

Results:
* `runs_owned`: in an orderly run no superseded start answers, and no run is
  registered for an id after its end, nor any after `end_all`.
* `not_owned`: a start that is not safe when the next one of its id arrives
  answers for it, or registers after both are ended.
-/

namespace Kahawai.Transcoder.Runner

open Kahawai.Lib

/-! ## What is claimed of the runner -/

structure Owned (s : State) : Prop where
  silent : ∀ v ∈ s.verdicts, v.superseded = false
  single : ∀ a ∈ s.sessions, ∀ b ∈ s.sessions, a.id = b.id → a = b
  ended : ∀ r ∈ s.sessions, r.id ∉ s.quiet
  closed : s.link = .closed → s.sessions.rows = []

/-- Between the outcome of the executor and the verdict. -/
def Start.answering (t : Start) : Prop :=
  t.phase = .failed ∨ t.phase = .registering ∨ t.phase = .ready

instance (t : Start) : Decidable t.answering := inferInstanceAs (Decidable (_ ∨ _))

/-- The start can neither answer nor register any more. -/
def Safe (gens : String → Generations) (t : Start) : Prop :=
  t.phase = .over ∨ t.phase = .leaving ∨ ¬ t.runs ∨
    ∃ g ∈ t.generation, g ≤ (gens t.id).ended

instance (gens : String → Generations) (t : Start) : Decidable (Safe gens t) :=
  inferInstanceAs (Decidable (_ ∨ _ ∨ _ ∨ _))

/-- Marking every generation makes the start safe. -/
def Start.catchable (t : Start) : Prop :=
  t.phase = .over ∨ t.phase = .leaving ∨ ¬ t.runs ∨ (t.generation.isSome ∧ ¬ t.answering)

instance (t : Start) : Decidable t.catchable := inferInstanceAs (Decidable (_ ∨ _ ∨ _ ∨ _))

/-- The mark of an `EndSession` for the id is next. -/
def Link.marks : Link → String → Bool
  | .ending id .marking, id' => id = id'
  | _, _ => false

/-- The start that `end` waits for on behalf of an `EndSession`. -/
def Link.settlesOn : Link → Option ℕ
  | .ending _ (.settling j) => some j
  | _ => none

/-- * A start arrives when the earlier starts of its id are safe.
    * No executor fails a start whose generation is ended.
    * The mark of an `EndSession` finds no start of the id that is answering.
    * The mark of `end_all` finds no start that is answering, and none without a
      generation, unless the abort has caught it.
    * `settle` gives up, for an `EndSession`, on a start that is safe. -/
def Orderly (s : State) : Event → Prop
  | .startSession id => ∀ t ∈ s.starts, t.id = id → Safe s.generations t
  | .outcome i ready => ready = true ∨
      ∀ t ∈ s.starts[i]?, ∀ g ∈ t.generation, (s.generations t.id).ended < g
  | .link => (∀ t ∈ s.starts, s.link.marks t.id → t.answering → ¬ t.runs) ∧
      (s.link = .marking → ∀ t ∈ s.starts, t.catchable)
  | .linkGivesUp => ∀ j ∈ s.link.settlesOn, ∀ t ∈ s.starts[j]?, Safe s.generations t
  | _ => True

instance (s : State) : DecidablePred (Orderly s) := fun e =>
  match e with
  | .startSession id => inferInstanceAs (Decidable
      (∀ t ∈ s.starts, t.id = id → Safe s.generations t))
  | .outcome i ready => inferInstanceAs (Decidable (ready = true ∨
      ∀ t ∈ s.starts[i]?, ∀ g ∈ t.generation, (s.generations t.id).ended < g))
  | .link => inferInstanceAs (Decidable
      ((∀ t ∈ s.starts, s.link.marks t.id → t.answering → ¬ t.runs) ∧
        (s.link = .marking → ∀ t ∈ s.starts, t.catchable)))
  | .linkGivesUp => inferInstanceAs (Decidable
      (∀ j ∈ s.link.settlesOn, ∀ t ∈ s.starts[j]?, Safe s.generations t))
  | .endSession _ | .teardown | .begin _ _ | .ownEnd _ | .ownGivesUp _ | .number _ | .check _
  | .stopped _ | .register _ | .send _ | .retain _ | .suspend _ | .cancel _ => .isTrue trivial

/-! ## The invariant -/

section Invariant

variable {s s' : State} {i : ℕ} {t t' : Start} {gens gens' : String → Generations}

/-- What holds of every start. -/
structure Sound (gens : String → Generations) (t : Start) : Prop where
  awaits : t.suspended = true → t.phase.awaits = true ∨ t.phase = .over
  bounded : ∀ g ∈ t.generation, g ≤ (gens t.id).latest
  early : t.phase = .spawned ∨ t.phase = .malformed ∨ t.phase = .numbering ∨
    (∃ e, t.phase = .ending e) → t.generation = none
  fresh : t.answering → t.runs → ∀ g ∈ t.generation, (gens t.id).ended < g

/-- The ids for which no start is left that is not safe. -/
def Link.clears : Link → String → Prop
  | .ending id e, id' => id' = id ∧ (e = .removing ∨ e = .closing)
  | .listing, _ | .sweeping _ _ _, _ | .closed, _ => True
  | _, _ => False

/-- The ids whose session may still be there. -/
def Link.keeps : Link → String → Prop
  | .ending id .closing, id' => id' ≠ id
  | .sweeping id e ids, id' => id' ∈ id :: ids ∧ (e = .closing → id' ≠ id)
  | .closed, _ => False
  | _, _ => True

/-- A session whose id has starts left stays. -/
theorem Link.keeps_of_not_clears (l : Link) {id : String} (h : ¬ l.clears id) : l.keeps id := by
  cases l with
  | ending id' e =>
    cases e with
    | closing => exact fun hid => h ⟨hid, Or.inr rfl⟩
    | marking | taking | settling _ | removing => trivial
  | sweeping | closed => exact absurd trivial h
  | idle | aborting _ | settling _ _ | marking | listing => trivial

/-- `end_all` is under way or has returned. -/
def Link.tears : Link → Bool
  | .idle | .ending _ _ => false
  | _ => true

structure Inv (s : State) : Prop where
  sound : ∀ t ∈ s.starts, Sound s.generations t
  ended_le : ∀ id, (s.generations id).ended ≤ (s.generations id).latest
  newest : ∀ (i : ℕ) (t : Start), s.starts[i]? = some t → ¬ Safe s.generations t →
    ∀ (j : ℕ) (u : Start), s.starts[j]? = some u → u.id = t.id → j ≤ i
  pending : ∀ p ∈ s.pending, (∃ t, s.starts[p.task]? = some t ∧ t.id = p.id) ∧
    ∀ (j : ℕ) (u : Start), s.starts[j]? = some u → u.id = p.id → j ≤ p.task
  tracked : ∀ (i : ℕ) (t : Start), s.starts[i]? = some t → ¬ Safe s.generations t →
    s.link.tears = true ∨ (⟨t.id, i⟩ : Pending) ∈ s.pending ∨ s.link = .ending t.id (.settling i)
  taken : ∀ id j, s.link = .ending id (.settling j) → ∀ p ∈ s.pending, p.id ≠ id
  cleared : ∀ id, id ∈ s.quiet ∨ s.link.clears id → ∀ t ∈ s.starts, t.id = id →
    Safe s.generations t
  gone : ∀ r ∈ s.sessions, r.id ∉ s.quiet ∧ s.link.keeps r.id
  silent : ∀ v ∈ s.verdicts, v.superseded = false

theorem inv_new : Inv State.new where
  sound := nofun
  ended_le := fun _ => Nat.le_refl 0
  newest := nofun
  pending := nofun
  tracked := nofun
  taken := nofun
  cleared := nofun
  gone := nofun
  silent := nofun

/-- What later generations leave of a safe start. -/
theorem Safe.mono (h : Safe gens t) (hle : ∀ id, (gens id).ended ≤ (gens' id).ended) :
    Safe gens' t :=
  h.imp_right (Or.imp_right (Or.imp_right fun ⟨g, hg, hge⟩ => ⟨g, hg, hge.trans (hle _)⟩))

theorem Sound.not_answering (h : Sound gens t) (hsafe : Safe gens t) (hruns : t.runs) :
    ¬ t.answering := by
  intro hanswer
  rcases hsafe with hp | hp | hno | ⟨g, hg, hle⟩
  · rcases hanswer with ha | ha | ha <;> rw [hp] at ha <;> cases ha
  · rcases hanswer with ha | ha | ha <;> rw [hp] at ha <;> cases ha
  · exact hno hruns
  · exact absurd (h.fresh hanswer hruns g hg) (Nat.not_lt.mpr hle)

/-- A start that moves, nothing else changing. -/
theorem Inv.move (h : Inv s) (ht : s.starts[i]? = some t) (hid : t'.id = t.id)
    (hsound : Sound s.generations t') (hsafe : Safe s.generations t → Safe s.generations t') :
    Inv (s.setStart i t') where
  sound := by
    intro u hu
    rcases mem_set_cases hu with rfl | ⟨j, -, hold⟩
    · exact hsound
    · exact h.sound u (List.mem_of_getElem? hold)
  ended_le := h.ended_le
  newest := by
    intro k v hk hv j u hj hu
    have hold : ∃ u₀, s.starts[j]? = some u₀ ∧ u₀.id = u.id := by
      rcases getElem?_set_cases hj with ⟨rfl, rfl⟩ | ⟨-, hj'⟩
      · exact ⟨t, ht, hid.symm⟩
      · exact ⟨u, hj', rfl⟩
    obtain ⟨u₀, hj₀, hu₀⟩ := hold
    rcases getElem?_set_cases hk with ⟨rfl, rfl⟩ | ⟨-, hk'⟩
    · exact h.newest k t ht (fun hs => hv (hsafe hs)) j u₀ hj₀ (by rw [hu₀, hu, hid])
    · exact h.newest k v hk' hv j u₀ hj₀ (by rw [hu₀, hu])
  pending := by
    intro p hp
    obtain ⟨⟨v, hv, hvid⟩, hmax⟩ := h.pending p hp
    constructor
    · by_cases hpi : p.task = i
      · refine ⟨t', ?_, ?_⟩
        · rw [hpi]
          exact getElem?_set_moved ht
        · rw [hpi, ht] at hv
          cases hv
          rw [hid, hvid]
      · refine ⟨v, ?_, hvid⟩
        rw [State.setStart, List.getElem?_set_ne (fun heq => hpi heq.symm)]
        exact hv
    · intro j u hj hu
      rcases getElem?_set_cases hj with ⟨rfl, rfl⟩ | ⟨-, hj'⟩
      · exact hmax j t ht (by rw [← hid, hu])
      · exact hmax j u hj' hu
  tracked := by
    intro k v hk hv
    rcases getElem?_set_cases hk with ⟨rfl, rfl⟩ | ⟨-, hk'⟩
    · rw [hid]
      exact h.tracked k t ht fun hs => hv (hsafe hs)
    · exact h.tracked k v hk' hv
  taken := h.taken
  cleared := by
    intro id hc u hu hui
    rcases mem_set_cases hu with rfl | ⟨j, -, hold⟩
    · exact hsafe (h.cleared id hc t (List.mem_of_getElem? ht) (by rw [← hid, hui]))
    · exact h.cleared id hc u (List.mem_of_getElem? hold) hui
  gone := h.gone
  silent := h.silent

/-- Other generations that end no less and take none away. -/
theorem Inv.regenerate (h : Inv s) (hended : ∀ id, (s.generations id).ended ≤ (gens' id).ended)
    (hle : ∀ id, (gens' id).ended ≤ (gens' id).latest)
    (hlatest : ∀ id, (s.generations id).latest ≤ (gens' id).latest)
    (hfresh : ∀ t ∈ s.starts, t.answering → t.runs →
      (gens' t.id).ended ≤ (s.generations t.id).ended) : Inv { s with generations := gens' } where
  sound := fun t ht =>
    { awaits := (h.sound t ht).awaits
      bounded := fun g hg => ((h.sound t ht).bounded g hg).trans (hlatest _)
      early := (h.sound t ht).early
      fresh := fun ha hr g hg => (hfresh t ht ha hr).trans_lt ((h.sound t ht).fresh ha hr g hg) }
  ended_le := hle
  newest := fun i t ht hs => h.newest i t ht fun hs' => hs (hs'.mono hended)
  pending := h.pending
  tracked := fun i t ht hs => h.tracked i t ht fun hs' => hs (hs'.mono hended)
  taken := h.taken
  cleared := fun id hc t ht hid => (h.cleared id hc t ht hid).mono hended
  gone := h.gone
  silent := h.silent

/-- The mark of an id none of whose starts is answering. -/
theorem Inv.markEnded (h : Inv s) {id : String}
    (hquiet : ∀ t ∈ s.starts, t.id = id → t.answering → ¬ t.runs) : Inv (s.markEnded id) := by
  refine h.regenerate ?_ ?_ ?_ ?_
  · intro id'
    by_cases hid : id' = id
    · subst hid
      simpa using h.ended_le id'
    · simp [hid]
  · intro id'
    by_cases hid : id' = id
    · subst hid
      simp
    · simpa [hid] using h.ended_le id'
  · intro id'
    by_cases hid : id' = id
    · subst hid
      simp
    · simp [hid]
  · intro t ht ha hr
    have hid : t.id ≠ id := fun hid => hquiet t ht hid ha hr
    simp [hid]

theorem Inv.abort (h : Inv s) (j : ℕ) : Inv (s.abort j) := by
  cases hj : s.starts[j]? with
  | none =>
    have hsame : s.abort j = s := by
      rw [State.abort, List.modify_eq_self (List.getElem?_eq_none_iff.mp hj)]
    rwa [hsame]
  | some t =>
    have hset : s.abort j = s.setStart j { t with aborted := true } := by
      rw [State.abort, State.setStart, List.modify_eq_set_getElem?, hj]
      rfl
    have hsound := h.sound t (List.mem_of_getElem? hj)
    have hruns : ({ t with aborted := true } : Start).runs → t.runs := by
      intro hr hb
      exact hr ⟨hb.1, rfl⟩
    rw [hset]
    refine h.move hj rfl ⟨hsound.awaits, hsound.bounded, hsound.early, ?_⟩ ?_
    · exact fun ha hr g hg => hsound.fresh ha (hruns hr) g hg
    · rintro (hp | hp | hr | hg)
      · exact Or.inl hp
      · exact Or.inr (Or.inl hp)
      · exact Or.inr (Or.inr (Or.inl fun hr' => hr (hruns hr')))
      · exact Or.inr (Or.inr (Or.inr hg))

/-- The link loop moves. -/
theorem Inv.setLink (h : Inv s) {l : Link}
    (htracked : ∀ (i : ℕ) (t : Start), s.starts[i]? = some t → ¬ Safe s.generations t →
      l.tears = true ∨ (⟨t.id, i⟩ : Pending) ∈ s.pending ∨ l = .ending t.id (.settling i))
    (htaken : ∀ id j, l = .ending id (.settling j) → ∀ p ∈ s.pending, p.id ≠ id)
    (hcleared : ∀ id, l.clears id → ∀ t ∈ s.starts, t.id = id → Safe s.generations t)
    (hkeeps : ∀ r ∈ s.sessions, l.keeps r.id) : Inv { s with link := l } where
  sound := h.sound
  ended_le := h.ended_le
  newest := h.newest
  pending := h.pending
  tracked := htracked
  taken := htaken
  cleared := by
    rintro id (hq | hc)
    · exact h.cleared id (Or.inl hq)
    · exact hcleared id hc
  gone := fun r hr => ⟨(h.gone r hr).1, hkeeps r hr⟩
  silent := h.silent

/-- Sessions that go. -/
theorem Inv.eraseSession (h : Inv s) (id : String) :
    Inv { s with sessions := s.sessions.erase id } :=
  { h with gone := fun r hr => h.gone r (Table.mem_erase.mp hr).1 }

/-! ## The link loop -/

theorem Inv.startSession (h : Inv s) (hlink : s.link = .idle) {id : String}
    (hsafe : ∀ t ∈ s.starts, t.id = id → Safe s.generations t) :
    Inv { s with
      starts := s.starts ++ [⟨id, .spawned, none, true, false⟩]
      pending := s.pending.put ⟨id, s.starts.length⟩
      quiet := s.quiet.filter (· ≠ id) } where
  sound := by
    intro t ht
    rcases List.mem_append.mp ht with hold | hnew
    · exact h.sound t hold
    · rw [List.mem_singleton.mp hnew]
      exact ⟨fun _ => Or.inl rfl, nofun, fun _ => rfl, fun _ _ => nofun⟩
  ended_le := h.ended_le
  newest := by
    intro i t hi hs j u hj hu
    rcases getElem?_append_cases hj with ⟨rfl, rfl⟩ | hj'
    · rcases getElem?_append_cases hi with ⟨rfl, -⟩ | hi'
      · exact le_rfl
      · exact absurd (hsafe t (List.mem_of_getElem? hi') hu.symm) hs
    · rcases getElem?_append_cases hi with ⟨rfl, -⟩ | hi'
      · exact (List.getElem?_eq_some_iff.mp hj').1.le
      · exact h.newest i t hi' hs j u hj' hu
  pending := by
    intro p hp
    rcases Table.mem_put.mp hp with rfl | ⟨hold, hne⟩
    · refine ⟨⟨_, List.getElem?_concat_length, rfl⟩, fun j u hj _ => ?_⟩
      rcases getElem?_append_cases hj with ⟨rfl, -⟩ | hj'
      · exact le_rfl
      · exact (List.getElem?_eq_some_iff.mp hj').1.le
    · obtain ⟨⟨t, ht, htid⟩, hmax⟩ := h.pending p hold
      have hlt := (List.getElem?_eq_some_iff.mp ht).1
      refine ⟨⟨t, (List.getElem?_append_left hlt).trans ht, htid⟩, fun j u hj hu => ?_⟩
      rcases getElem?_append_cases hj with ⟨-, rfl⟩ | hj'
      · exact absurd hu.symm hne
      · exact hmax j u hj' hu
  tracked := by
    intro i t hi hs
    rcases getElem?_append_cases hi with ⟨rfl, rfl⟩ | hi'
    · exact Or.inr (Or.inl (Table.mem_put.mpr (Or.inl rfl)))
    · rcases h.tracked i t hi' hs with ht | hp | hl
      · exact Or.inl ht
      · have hne : t.id ≠ id := fun hid => hs (hsafe t (List.mem_of_getElem? hi') hid)
        exact Or.inr (Or.inl (Table.mem_put.mpr (Or.inr ⟨hp, hne⟩)))
      · exact Or.inr (Or.inr hl)
  taken := by
    intro id' j hl
    rw [hlink] at hl
    cases hl
  cleared := by
    rintro id' (hq | hc) t ht htid
    · have hq' : id' ∈ s.quiet ∧ id' ≠ id := by simpa using hq
      rcases List.mem_append.mp ht with hold | hnew
      · exact h.cleared id' (Or.inl hq'.1) t hold htid
      · rw [List.mem_singleton.mp hnew] at htid
        exact absurd htid.symm hq'.2
    · rw [show _ = Link.idle from hlink] at hc
      exact hc.elim
  gone := fun r hr =>
    ⟨fun hq => (h.gone r hr).1 (List.mem_filter.mp hq).1, (h.gone r hr).2⟩
  silent := h.silent

/-- `settle` returns, the start it waited for being safe. -/
theorem Inv.setLink_removing (h : Inv s) {id : String} {j : ℕ}
    (hlink : s.link = .ending id (.settling j))
    (hsafe : ∀ t, s.starts[j]? = some t → Safe s.generations t) :
    Inv { s with link := .ending id .removing } := by
  have htracked : ∀ (i : ℕ) (t : Start), s.starts[i]? = some t → ¬ Safe s.generations t →
      (⟨t.id, i⟩ : Pending) ∈ s.pending := by
    intro i t hi hu
    rcases h.tracked i t hi hu with htear | hp | hl
    · rw [hlink] at htear
      cases htear
    · exact hp
    · rw [hlink] at hl
      cases hl
      exact absurd (hsafe t hi) hu
  refine h.setLink (fun i t hi hu => Or.inr (Or.inl (htracked i t hi hu))) nofun ?_
    fun r _ => trivial
  rintro id' ⟨rfl, -⟩ t ht hid
  by_contra hu
  obtain ⟨i, hi⟩ := List.mem_iff_getElem?.mp ht
  exact h.taken _ j hlink _ (htracked i t hi hu) hid

/-- `end` returns to the link loop. -/
theorem Inv.setLink_idle (h : Inv s) {id : String} {e : EndStage} (hlink : s.link = .ending id e)
    (he : e = .removing ∨ e = .closing)
    (hclear : ∀ t ∈ s.starts, t.id = id → Safe s.generations t)
    (hgone : ∀ r ∈ s.sessions, r.id ≠ id) :
    Inv { s with link := .idle, quiet := id :: s.quiet } where
  sound := h.sound
  ended_le := h.ended_le
  newest := h.newest
  pending := h.pending
  tracked := by
    intro i t hi hu
    rcases h.tracked i t hi hu with htear | hp | hl
    · rw [hlink] at htear
      cases htear
    · exact Or.inr (Or.inl hp)
    · rw [hlink] at hl
      rcases he with rfl | rfl <;> cases hl
  taken := nofun
  cleared := by
    rintro id' (hq | hc) t ht hid
    · rcases List.mem_cons.mp hq with rfl | hold
      · exact hclear t ht hid
      · exact h.cleared id' (Or.inl hold) t ht hid
    · exact hc.elim
  gone := by
    intro r hr
    refine ⟨fun hq => ?_, trivial⟩
    rcases List.mem_cons.mp hq with heq | hold
    · exact hgone r hr heq
    · exact (h.gone r hr).1 hold
  silent := h.silent

/-- `end` on behalf of an `EndSession`. -/
theorem Inv.ending (h : Inv s) {id : String} {e : EndStage} (hlink : s.link = .ending id e)
    (hok : Orderly s .link) {next : Option EndStage} (hs : s.advance id none e = some (s', next)) :
    Inv (s'.afterStage id next) := by
  have htracked : ∀ (i : ℕ) (t : Start), s.starts[i]? = some t → ¬ Safe s.generations t →
      (⟨t.id, i⟩ : Pending) ∈ s.pending ∨ (t.id = id ∧ e = .settling i) := by
    intro i t hi hu
    rcases h.tracked i t hi hu with htear | hp | hl
    · rw [hlink] at htear
      cases htear
    · exact Or.inl hp
    · rw [hlink] at hl
      cases hl
      exact Or.inr ⟨rfl, rfl⟩
  cases e with
  | marking =>
    cases hs
    have hmark : Inv (s.markEnded id) := h.markEnded fun t ht hid =>
      hok.1 t ht (by simp [hlink, Link.marks, hid])
    refine hmark.setLink ?_ (by simp) (by rintro id' ⟨-, hc | hc⟩ <;> cases hc) fun r _ => trivial
    intro i t hi hu
    refine Or.inr (Or.inl ?_)
    rcases hmark.tracked i t hi hu with htear | hp | hl
    · rw [show (s.markEnded id).link = _ from hlink] at htear
      cases htear
    · exact hp
    · rw [show (s.markEnded id).link = _ from hlink] at hl
      cases hl
  | taking =>
    simp only [State.advance] at hs
    split at hs
    · rename_i hnone
      cases hs
      refine h.setLink ?_ (by simp) ?_ fun r _ => trivial
      · intro i t hi hu
        rcases htracked i t hi hu with hp | ⟨-, he⟩
        · exact Or.inr (Or.inl hp)
        · cases he
      · rintro id' ⟨rfl, -⟩ t ht hid
        by_contra hu
        obtain ⟨i, hi⟩ := List.mem_iff_getElem?.mp ht
        rcases htracked i t hi hu with hp | ⟨-, he⟩
        · exact Table.get?_eq_none.mp hnone _ hp hid
        · cases he
    · rename_i p hp
      obtain ⟨hmem, hpid⟩ := Table.get?_eq_some.mp hp
      simp only [reduceCtorEq, if_false] at hs
      cases hs
      have habort : Inv (s.abort p.task) := h.abort p.task
      exact
        { habort with
          pending := fun q hq => habort.pending q (Table.mem_erase.mp hq).1
          tracked := by
            intro i t hi hu
            rcases habort.tracked i t hi hu with htear | hq | hl
            · rw [show (s.abort p.task).link = _ from hlink] at htear
              cases htear
            · by_cases hid : t.id = id
              · have heq : (⟨t.id, i⟩ : Pending) = p :=
                  Table.eq_of_key_eq hq hmem (hid.trans hpid.symm)
                subst heq
                exact Or.inr (Or.inr (congrArg (Link.ending · (.settling i)) hid.symm))
              · exact Or.inr (Or.inl (Table.mem_erase.mpr ⟨hq, hid⟩))
            · rw [show (s.abort p.task).link = _ from hlink] at hl
              cases hl
          taken := by
            rintro id' j ⟨⟩ q hq
            exact (Table.mem_erase.mp hq).2
          cleared := by
            rintro id' (hq | ⟨-, hc | hc⟩)
            · exact habort.cleared id' (Or.inl hq)
            · cases hc
            · cases hc
          gone := fun r hr => ⟨(h.gone r hr).1, trivial⟩ }
  | settling j =>
    simp only [State.advance] at hs
    split at hs
    · rename_i hover
      cases hs
      obtain ⟨t, ht, hto⟩ := (Option.any_eq_true _ _).mp hover
      refine h.setLink_removing hlink fun u hu => ?_
      rw [ht] at hu
      cases hu
      exact Or.inl (of_decide_eq_true hto)
    · cases hs
  | removing =>
    have hclear : ∀ t ∈ s.starts, t.id = id → Safe s.generations t :=
      h.cleared id (Or.inr (by rw [hlink]; exact ⟨rfl, Or.inl rfl⟩))
    simp only [State.advance] at hs
    split at hs
    · rename_i hnone
      cases hs
      exact h.setLink_idle hlink (Or.inl rfl) hclear fun r hr =>
        Table.get?_eq_none.mp hnone r hr
    · cases hs
      refine (h.eraseSession id).setLink ?_ (by simp) ?_ fun r hr => (Table.mem_erase.mp hr).2
      · intro i t hi hu
        rcases htracked i t hi hu with hp | ⟨-, he⟩
        · exact Or.inr (Or.inl hp)
        · cases he
      · rintro id' ⟨rfl, -⟩
        exact hclear
  | closing =>
    cases hs
    have hclear : ∀ t ∈ s.starts, t.id = id → Safe s.generations t :=
      h.cleared id (Or.inr (by rw [hlink]; exact ⟨rfl, Or.inr rfl⟩))
    refine h.setLink_idle hlink (Or.inr rfl) hclear fun r hr => ?_
    have hkeep := (h.gone r hr).2
    rw [hlink] at hkeep
    exact hkeep

/-- The teardown moves on: it tracks no start, and what it has to keep. -/
theorem Inv.setLink_tears (h : Inv s) {l : Link} (htears : l.tears = true)
    (hcleared : ∀ id, l.clears id → ∀ t ∈ s.starts, t.id = id → Safe s.generations t)
    (hkeeps : ∀ r ∈ s.sessions, l.keeps r.id) : Inv { s with link := l } := by
  refine h.setLink (fun _ _ _ _ => Or.inl htears) ?_ hcleared hkeeps
  rintro id j rfl
  cases htears

/-- The next session of `end_all`, all starts being safe. -/
theorem Inv.sweep (h : Inv s) {ids : List String} (hsafe : ∀ t ∈ s.starts, Safe s.generations t)
    (hids : ∀ r ∈ s.sessions, r.id ∈ ids) : Inv { s with link := .sweep ids } := by
  cases ids with
  | nil =>
    exact h.setLink_tears rfl (fun _ _ t ht _ => hsafe t ht) fun r hr => nomatch hids r hr
  | cons id ids => exact h.setLink_tears rfl (fun _ _ t ht _ => hsafe t ht) fun r hr =>
      ⟨hids r hr, nofun⟩

/-- `end` on behalf of `end_all`. -/
theorem Inv.sweeping (h : Inv s) {id : String} {e : EndStage} {ids : List String}
    (hlink : s.link = .sweeping id e ids) {next : Option EndStage}
    (hs : s.advance id none e = some (s', next)) :
    Inv (s'.afterSweep id ids next) := by
  have hsafe : ∀ t ∈ s.starts, Safe s.generations t := fun t ht =>
    h.cleared t.id (Or.inr (by rw [hlink]; trivial)) t ht rfl
  have hkeeps : ∀ r ∈ s.sessions, r.id ∈ id :: ids ∧ (e = .closing → r.id ≠ id) := by
    intro r hr
    have hkeep := (h.gone r hr).2
    rwa [hlink] at hkeep
  cases e with
  | marking =>
    cases hs
    have hmark : Inv (s.markEnded id) := h.markEnded fun t ht _ ha hr =>
      (h.sound t ht).not_answering (hsafe t ht) hr ha
    have hsafe' : ∀ t ∈ (s.markEnded id).starts, Safe (s.markEnded id).generations t := fun t ht =>
      hmark.cleared t.id (Or.inr (by rw [show (s.markEnded id).link = _ from hlink]; trivial)) t
        ht rfl
    exact hmark.setLink_tears rfl (fun _ _ t ht _ => hsafe' t ht) fun r hr => ⟨(hkeeps r hr).1, by simp⟩
  | taking =>
    simp only [State.advance] at hs
    split at hs
    · cases hs
      exact h.setLink_tears rfl (fun _ _ t ht _ => hsafe t ht) fun r hr => ⟨(hkeeps r hr).1, by simp⟩
    · rename_i p hp
      simp only [reduceCtorEq, if_false] at hs
      cases hs
      have habort : Inv (s.abort p.task) := h.abort p.task
      have hsafe' : ∀ t ∈ (s.abort p.task).starts, Safe s.generations t := fun t ht =>
        habort.cleared t.id (Or.inr (by rw [show (s.abort p.task).link = _ from hlink]; trivial)) t
          ht rfl
      exact
        { habort with
          pending := fun q hq => habort.pending q (Table.mem_erase.mp hq).1
          tracked := fun _ _ _ _ => Or.inl rfl
          taken := by simp [State.afterSweep]
          cleared := fun id' _ t ht _ => hsafe' t ht
          gone := fun r hr => ⟨(h.gone r hr).1, (hkeeps r hr).1, by simp⟩ }
  | settling j =>
    simp only [State.advance] at hs
    split at hs
    · cases hs
      exact h.setLink_tears rfl (fun _ _ t ht _ => hsafe t ht) fun r hr => ⟨(hkeeps r hr).1, by simp⟩
    · cases hs
  | removing =>
    simp only [State.advance] at hs
    split at hs
    · rename_i hnone
      cases hs
      refine h.sweep hsafe fun r hr => ?_
      exact (List.mem_cons.mp (hkeeps r hr).1).resolve_left (Table.get?_eq_none.mp hnone r hr)
    · cases hs
      refine (h.eraseSession id).setLink_tears rfl (fun _ _ t ht _ => hsafe t ht) fun r hr => ?_
      exact ⟨(hkeeps r (Table.mem_erase.mp hr).1).1, fun _ => (Table.mem_erase.mp hr).2⟩
  | closing =>
    cases hs
    refine h.sweep hsafe fun r hr => ?_
    exact (List.mem_cons.mp (hkeeps r hr).1).resolve_left ((hkeeps r hr).2 rfl)

/-- The mark of `end_all` makes every start safe. -/
theorem Inv.markAll (h : Inv s) (hcatch : ∀ t ∈ s.starts, t.catchable) :
    Inv { s.markAll with link := .listing } := by
  have hmark : Inv s.markAll := by
    refine h.regenerate (fun id => h.ended_le id) (fun _ => le_rfl) (fun _ => le_rfl) ?_
    intro t ht ha hr
    rcases hcatch t ht with hp | hp | hno | ⟨-, hno⟩
    · rcases ha with ha | ha | ha <;> rw [hp] at ha <;> cases ha
    · rcases ha with ha | ha | ha <;> rw [hp] at ha <;> cases ha
    · exact absurd hr hno
    · exact absurd ha hno
  refine hmark.setLink_tears rfl ?_ fun _ _ => trivial
  intro _ _ t ht _
  rcases hcatch t ht with hp | hp | hno | ⟨hsome, -⟩
  · exact Or.inl hp
  · exact Or.inr (Or.inl hp)
  · exact Or.inr (Or.inr (Or.inl hno))
  · obtain ⟨g, hg⟩ := Option.isSome_iff_exists.mp hsome
    exact Or.inr (Or.inr (Or.inr ⟨g, hg, (h.sound t ht).bounded g hg⟩))

/-- Every step of the link loop keeps the invariant. -/
theorem inv_linkNext (h : Inv s) (hok : Orderly s .link) (hs : s.linkNext = some s') : Inv s' := by
  unfold State.linkNext at hs
  split at hs
  · cases hs
  · cases hs
  · rename_i id e hlink
    obtain ⟨⟨s₁, next⟩, hadv, rfl⟩ := Option.map_eq_some_iff.mp hs
    exact h.ending hlink hok hadv
  · cases hs
    exact h.setLink_tears rfl (fun _ => False.elim) fun _ _ => trivial
  · rename_i j js hlink
    cases hs
    exact (h.abort j).setLink_tears rfl (fun _ => False.elim) fun _ _ => trivial
  · split at hs
    · cases hs
      exact h.setLink_tears rfl (fun _ => False.elim) fun _ _ => trivial
    · cases hs
  · rename_i hlink
    cases hs
    exact h.markAll (hok.2 hlink)
  · rename_i hlink
    cases hs
    refine h.sweep (fun t ht => h.cleared t.id (Or.inr (by rw [hlink]; trivial)) t ht rfl) ?_
    exact fun r hr => List.mem_map.mpr ⟨r, hr, rfl⟩
  · rename_i id e ids hlink
    obtain ⟨⟨s₁, next⟩, hadv, rfl⟩ := Option.map_eq_some_iff.mp hs
    exact h.sweeping hlink hadv

theorem inv_linkGivesUp (h : Inv s) (hok : Orderly s .linkGivesUp)
    (hs : s.linkGivesUp = some s') : Inv s' := by
  unfold State.linkGivesUp at hs
  split at hs
  · rename_i id j hlink
    cases hs
    exact h.setLink_removing hlink fun t ht => hok j (by rw [hlink]; rfl) t ht
  · cases hs
    exact h.setLink_tears rfl (fun _ => False.elim) fun _ _ => trivial
  · rename_i id j ids hlink
    cases hs
    refine h.setLink_tears rfl ?_ ?_
    · exact fun _ _ t ht hid => h.cleared t.id (Or.inr (by rw [hlink]; trivial)) t ht rfl
    · intro r hr
      have hkeep := (h.gone r hr).2
      rw [hlink] at hkeep
      exact ⟨hkeep.1, nofun⟩
  · cases hs

/-! ## The tasks -/

/-- A task that runs, with something left to do. -/
structure Busy (t : Start) : Prop where
  runs : t.runs
  not_over : t.phase ≠ .over
  not_leaving : t.phase ≠ .leaving

/-- Only an ended generation makes a busy start safe. -/
theorem Busy.ended (hb : Busy t) (hs : Safe gens t) :
    ∃ g ∈ t.generation, g ≤ (gens t.id).ended := by
  rcases hs with hp | hp | hno | hg
  · exact absurd hp hb.not_over
  · exact absurd hp hb.not_leaving
  · exact absurd hb.runs hno
  · exact hg

theorem Busy.not_safe (hb : Busy t) (hnone : t.generation = none) : ¬ Safe gens t := by
  intro hs
  obtain ⟨g, hg, -⟩ := hb.ended hs
  rw [hnone] at hg
  cases hg

/-- A task that does not await is not suspended. -/
theorem Sound.busy (h : Sound gens t) (hawaits : t.phase.awaits = false) (hover : t.phase ≠ .over)
    (hleaving : t.phase ≠ .leaving) : Busy t := by
  refine ⟨fun hr => ?_, hover, hleaving⟩
  rcases h.awaits hr.1 with ha | ho
  · rw [hawaits] at ha
    cases ha
  · exact hover ho

/-- A busy task runs on to the phase `phase`. -/
theorem Inv.goTo (h : Inv s) (ht : s.starts[i]? = some t) (hb : Busy t) (phase : Phase)
    (hearly : phase = .spawned ∨ phase = .malformed ∨ phase = .numbering ∨
      (∃ e, phase = .ending e) → t.generation = none)
    (hfresh : phase = .failed ∨ phase = .registering ∨ phase = .ready →
      ∀ g ∈ t.generation, (s.generations t.id).ended < g) : Inv (s.goTo i t phase) :=
  h.move ht rfl
    ⟨nofun, (h.sound t (List.mem_of_getElem? ht)).bounded, hearly, fun ha _ => hfresh ha⟩
    fun hs => Or.inr (Or.inr (Or.inr (hb.ended hs)))

/-- A task that has not taken its generation runs on before it takes it. -/
theorem Inv.goTo_early (h : Inv s) (ht : s.starts[i]? = some t) (hb : Busy t)
    (hnone : t.generation = none) (phase : Phase) : Inv (s.goTo i t phase) :=
  h.goTo ht hb phase (fun _ => hnone) fun _ g hg => by
    rw [hnone] at hg
    cases hg

/-- The other starts of the id are safe while one is not. -/
theorem Inv.others_safe (h : Inv s) (ht : s.starts[i]? = some t) (hu : ¬ Safe s.generations t)
    {u : Start} (hmem : u ∈ s.starts) (hid : u.id = t.id) : u = t ∨ Safe s.generations u := by
  by_contra hcon
  have hcon' : u ≠ t ∧ ¬ Safe s.generations u := by simpa using hcon
  obtain ⟨j, hj⟩ := List.mem_iff_getElem?.mp hmem
  have hji : j ≤ i := h.newest i t ht hu j u hj hid
  have hij : i ≤ j := h.newest j u hj hcon'.2 i t ht hid.symm
  rw [le_antisymm hji hij, ht] at hj
  exact hcon'.1 (Option.some.inj hj).symm

/-- A start ends the previous run of its id: it finds no other start to abort. -/
theorem Inv.ownEnd (h : Inv s) (ht : s.starts[i]? = some t) (hruns : t.runs)
    (hs : s.ownEnd i t = some s') : Inv s' := by
  unfold State.ownEnd at hs
  split at hs
  · rename_i e hphase
    obtain ⟨⟨s₁, next⟩, hadv, rfl⟩ := Option.map_eq_some_iff.mp hs
    have hmem : t ∈ s.starts := List.mem_of_getElem? ht
    have hb : Busy t := ⟨hruns, by rw [hphase]; nofun, by rw [hphase]; nofun⟩
    have hnone : t.generation = none :=
      (h.sound t hmem).early (Or.inr (Or.inr (Or.inr ⟨e, hphase⟩)))
    have hu : ¬ Safe s.generations t := hb.not_safe hnone
    cases e with
    | marking =>
      cases hadv
      have hmark : Inv (s.markEnded t.id) := by
        refine h.markEnded fun u hu' hid ha hr => ?_
        rcases h.others_safe ht hu hu' hid with rfl | hsafe
        · rcases ha with ha | ha | ha <;> rw [hphase] at ha <;> cases ha
        · exact (h.sound u hu').not_answering hsafe hr ha
      exact hmark.goTo_early ht hb hnone _
    | taking =>
      simp only [State.advance] at hadv
      split at hadv
      · cases hadv
        exact h.goTo_early ht hb hnone _
      · rename_i p hp
        obtain ⟨hpm, hpid⟩ := Table.get?_eq_some.mp hp
        obtain ⟨⟨u, hu', huid⟩, hmax⟩ := h.pending p hpm
        have hle : p.task ≤ i := h.newest i t ht hu p.task u hu' (huid.trans hpid)
        have hge : i ≤ p.task := hmax i t ht hpid.symm
        rw [if_pos (congrArg some (le_antisymm hge hle))] at hadv
        cases hadv
        exact h.goTo_early ht hb hnone _
    | settling j =>
      simp only [State.advance] at hadv
      split at hadv
      · cases hadv
        exact h.goTo_early ht hb hnone _
      · cases hadv
    | removing =>
      simp only [State.advance] at hadv
      split at hadv
      · cases hadv
        exact h.goTo_early ht hb hnone _
      · cases hadv
        exact (h.eraseSession t.id).goTo_early ht hb hnone _
    | closing =>
      cases hadv
      exact h.goTo_early ht hb hnone _
  · cases hs

theorem Inv.bump (h : Inv s) (id : String) : Inv (s.bump id) := by
  refine h.regenerate ?_ ?_ ?_ ?_
  · intro id'
    by_cases hid : id' = id
    · subst hid
      simp
    · simp [hid]
  · intro id'
    by_cases hid : id' = id
    · subst hid
      simpa using (h.ended_le id').trans (Nat.le_succ _)
    · simpa [hid] using h.ended_le id'
  · intro id'
    by_cases hid : id' = id
    · subst hid
      simp
    · simp [hid]
  · intro u _ _ _
    by_cases hid : u.id = id
    · simp [hid]
    · simp [hid]

/-- A start takes its generation. -/
theorem Inv.number (h : Inv s) (ht : s.starts[i]? = some t) (hphase : t.phase = .numbering) :
    Inv ((s.bump t.id).goTo i { t with generation := some ((s.generations t.id).latest + 1) }
      .executing) := by
  have hsound := h.sound t (List.mem_of_getElem? ht)
  have hb : Busy t := hsound.busy (by rw [hphase]; rfl) (by rw [hphase]; nofun)
    (by rw [hphase]; nofun)
  have hnone : t.generation = none := hsound.early (Or.inr (Or.inr (Or.inl hphase)))
  refine (h.bump t.id).move ht rfl ⟨nofun, ?_, ?_, ?_⟩ fun hs => absurd hs (hb.not_safe hnone)
  · rintro g ⟨⟩
    simp [State.bump]
  · rintro (hp | hp | hp | ⟨e, hp⟩) <;> cases hp
  · rintro (hp | hp | hp) <;> cases hp

/-- A start registers its run. -/
theorem Inv.register (h : Inv s) (ht : s.starts[i]? = some t) (hphase : t.phase = .registering) :
    Inv { s.goTo i t .ready with sessions := s.sessions.put ⟨t.id, i⟩ } := by
  have hmem : t ∈ s.starts := List.mem_of_getElem? ht
  have hsound := h.sound t hmem
  have hb : Busy t := hsound.busy (by rw [hphase]; rfl) (by rw [hphase]; nofun)
    (by rw [hphase]; nofun)
  have hfresh := hsound.fresh (Or.inr (Or.inl hphase)) hb.runs
  have hmoved : Inv (s.goTo i t .ready) := h.goTo ht hb .ready
    (by rintro (hp | hp | hp | ⟨e, hp⟩) <;> cases hp) fun _ => hfresh
  have hu : ¬ Safe s.generations t := by
    intro hs
    obtain ⟨g, hg, hle⟩ := hb.ended hs
    exact absurd (hfresh g hg) (Nat.not_lt.mpr hle)
  refine { hmoved with gone := fun r hr => ?_ }
  rcases Table.mem_put.mp hr with rfl | ⟨hold, -⟩
  · refine ⟨fun hq => hu (h.cleared t.id (Or.inl hq) t hmem rfl), ?_⟩
    exact s.link.keeps_of_not_clears fun hc => hu (h.cleared t.id (Or.inr hc) t hmem rfl)
  · exact h.gone r hold

/-- A start sends its verdict. -/
theorem Inv.send (h : Inv s) (ht : s.starts[i]? = some t)
    (hphase : t.phase = .malformed ∨ t.phase = .failed ∨ t.phase = .ready) (hruns : t.runs) :
    Inv { s.goTo i t .leaving with verdicts := s.verdicts ++ [⟨i, s.superseded i t⟩] } := by
  have hsound := h.sound t (List.mem_of_getElem? ht)
  have hb : Busy t := by
    refine ⟨hruns, ?_, ?_⟩ <;> rcases hphase with hp | hp | hp <;> rw [hp] <;> nofun
  have hfresh : ∀ g ∈ t.generation, (s.generations t.id).ended < g := by
    intro g hg
    rcases hphase with hp | hp | hp
    · rw [hsound.early (Or.inr (Or.inl hp))] at hg
      cases hg
    · exact hsound.fresh (Or.inl hp) hruns g hg
    · exact hsound.fresh (Or.inr (Or.inr hp)) hruns g hg
  have hu : ¬ Safe s.generations t := by
    intro hs
    obtain ⟨g, hg, hle⟩ := hb.ended hs
    exact absurd (hfresh g hg) (Nat.not_lt.mpr hle)
  have hnewest : s.superseded i t = false := by
    rw [State.superseded, Bool.or_eq_false_iff]
    constructor
    · rw [← Bool.not_eq_true, Option.any_eq_true]
      rintro ⟨g, hg, hle⟩
      exact absurd (of_decide_eq_true hle) (Nat.not_le.mpr (hfresh g hg))
    · rw [List.any_eq_false]
      intro u hu' hid
      obtain ⟨j, hj⟩ := List.mem_iff_getElem?.mp hu'
      rw [List.getElem?_drop] at hj
      have hle := h.newest i t ht hu (i + 1 + j) u hj (by simpa using hid)
      omega
  have hmoved : Inv (s.goTo i t .leaving) := h.goTo ht hb .leaving
    (by rintro (hp | hp | hp | ⟨e, hp⟩) <;> cases hp) (by rintro (hp | hp | hp) <;> cases hp)
  refine { hmoved with silent := fun v hv => ?_ }
  rcases List.mem_append.mp hv with hold | hnew
  · exact h.silent v hold
  · rw [List.mem_singleton.mp hnew]
    exact hnewest

/-- A start forgets itself. -/
theorem Inv.retain (h : Inv s) (ht : s.starts[i]? = some t) :
    Inv { s.goTo i t .over with pending := s.pending.filter fun p => p.task ≠ i } := by
  have hsound := h.sound t (List.mem_of_getElem? ht)
  have hmoved : Inv (s.goTo i t .over) := by
    refine h.move ht rfl ⟨nofun, hsound.bounded, ?_, ?_⟩ fun _ => Or.inl rfl
    · rintro (hp | hp | hp | ⟨e, hp⟩) <;> cases hp
    · rintro (hp | hp | hp) <;> cases hp
  exact
    { hmoved with
      pending := fun p hp => hmoved.pending p (Table.mem_filter.mp hp).1
      tracked := by
        intro k u hk hu
        refine (hmoved.tracked k u hk hu).imp_right (Or.imp_left fun hp => ?_)
        refine Table.mem_filter.mpr ⟨hp, ?_⟩
        rcases getElem?_set_cases hk with ⟨rfl, rfl⟩ | ⟨hne, -⟩
        · exact absurd (Or.inl rfl) hu
        · simpa using hne
      taken := fun id j hl p hp => hmoved.taken id j hl p (Table.mem_filter.mp hp).1 }

/-- Every event of an orderly run keeps the invariant. -/
theorem inv_next {e : Event} (h : Inv s) (hok : Orderly s e) (hs : runnerNext s e = some s') :
    Inv s' := by
  cases e with
  | startSession id =>
    simp only [runnerNext] at hs
    split at hs
    · rename_i hlink
      split at hs
      · cases hs
        exact h
      · cases hs
        exact h.startSession hlink hok
    · cases hs
  | endSession id =>
    simp only [runnerNext] at hs
    split at hs
    · rename_i hlink
      cases hs
      refine h.setLink ?_ nofun (by rintro id' ⟨-, hc | hc⟩ <;> cases hc) fun _ _ => trivial
      intro i t hi hu
      rcases h.tracked i t hi hu with htear | hp | hl
      · rw [hlink] at htear
        cases htear
      · exact Or.inr (Or.inl hp)
      · rw [hlink] at hl
        cases hl
    · cases hs
  | teardown =>
    simp only [runnerNext] at hs
    split at hs
    · cases hs
      have hlink := h.setLink_tears (l := .aborting (s.pending.rows.map Pending.task)) rfl
        (fun _ => False.elim) fun _ _ => trivial
      exact
        { hlink with
          pending := nofun
          tracked := fun _ _ _ _ => Or.inl rfl
          taken := nofun }
    · cases hs
  | link => exact inv_linkNext h hok hs
  | linkGivesUp => exact inv_linkGivesUp h hok hs
  | begin i malformed =>
    obtain ⟨t, ht, ⟨hphase, hruns⟩, rfl⟩ := move_eq_some.mp hs
    have hnone := (h.sound t (List.mem_of_getElem? ht)).early (Or.inl hphase)
    exact h.goTo_early ht ⟨hruns, by rw [hphase]; nofun, by rw [hphase]; nofun⟩ hnone _
  | ownEnd i =>
    obtain ⟨t, ht, hs⟩ := Option.bind_eq_some_iff.mp hs
    split at hs
    · rename_i hruns
      exact h.ownEnd ht hruns hs
    · cases hs
  | ownGivesUp i =>
    obtain ⟨t, ht, ⟨hsettles, hruns⟩, rfl⟩ := move_eq_some.mp hs
    obtain ⟨e, hphase⟩ : ∃ e, t.phase = .ending e := by
      unfold Phase.settles at hsettles
      split at hsettles
      · rename_i hp
        exact ⟨_, hp⟩
      · cases hsettles
    have hnone := (h.sound t (List.mem_of_getElem? ht)).early (Or.inr (Or.inr (Or.inr ⟨e, hphase⟩)))
    exact h.goTo_early ht ⟨hruns, by rw [hphase]; nofun, by rw [hphase]; nofun⟩ hnone _
  | number i =>
    obtain ⟨t, ht, hphase, rfl⟩ := move_eq_some.mp hs
    exact h.number ht hphase
  | outcome i ready =>
    obtain ⟨t, ht, ⟨hphase, hruns⟩, rfl⟩ := move_eq_some.mp hs
    refine h.goTo ht ⟨hruns, by rw [hphase]; nofun, by rw [hphase]; nofun⟩ _ ?_ ?_
    · cases ready <;> rintro (hp | hp | hp | ⟨e, hp⟩) <;> cases hp
    · cases ready with
      | true => rintro (hp | hp | hp) <;> cases hp
      | false => exact fun _ => (hok.resolve_left nofun) t ht
  | check i =>
    obtain ⟨t, ht, hphase, rfl⟩ := move_eq_some.mp hs
    have hb : Busy t := (h.sound t (List.mem_of_getElem? ht)).busy (by rw [hphase]; rfl)
      (by rw [hphase]; nofun) (by rw [hphase]; nofun)
    refine h.goTo ht hb _ ?_ ?_
    · split <;> rintro (hp | hp | hp | ⟨e, hp⟩) <;> cases hp
    · split
      · rintro (hp | hp | hp) <;> cases hp
      · rename_i hfresh
        intro _ g hg
        rw [hg] at hfresh
        simpa using hfresh
  | stopped i =>
    obtain ⟨t, ht, ⟨hphase, hruns⟩, rfl⟩ := move_eq_some.mp hs
    refine h.goTo ht ⟨hruns, by rw [hphase]; nofun, by rw [hphase]; nofun⟩ _ ?_ ?_
    · rintro (hp | hp | hp | ⟨e, hp⟩) <;> cases hp
    · rintro (hp | hp | hp) <;> cases hp
  | register i =>
    obtain ⟨t, ht, hphase, rfl⟩ := move_eq_some.mp hs
    exact h.register ht hphase
  | send i =>
    obtain ⟨t, ht, ⟨hphase, hruns⟩, rfl⟩ := move_eq_some.mp hs
    exact h.send ht hphase hruns
  | retain i =>
    obtain ⟨t, ht, -, rfl⟩ := move_eq_some.mp hs
    exact h.retain ht
  | suspend i =>
    obtain ⟨t, ht, hawaits, rfl⟩ := move_eq_some.mp hs
    have hsound := h.sound t (List.mem_of_getElem? ht)
    have hruns : ({ t with suspended := true } : Start).runs → t.runs := fun hr hb => hr ⟨rfl, hb.2⟩
    refine h.move ht rfl ⟨fun _ => Or.inl hawaits, hsound.bounded, hsound.early,
      fun ha hr => hsound.fresh ha (hruns hr)⟩ ?_
    exact Or.imp_right (Or.imp_right (Or.imp_left fun hno hr => hno (hruns hr)))
  | cancel i =>
    obtain ⟨t, ht, -, rfl⟩ := move_eq_some.mp hs
    have hsound := h.sound t (List.mem_of_getElem? ht)
    refine h.move ht rfl ⟨fun _ => Or.inr rfl, hsound.bounded, ?_, ?_⟩ fun _ => Or.inl rfl
    · rintro (hp | hp | hp | ⟨e, hp⟩) <;> cases hp
    · rintro (hp | hp | hp) <;> cases hp

theorem inv_of_reaches (h : runner.Reaches Orderly s) : Inv s :=
  h.invariant inv_new fun ha hok hb => inv_next ha hok hb

end Invariant

/-! ## No superseded start answers -/

/-- In every orderly run, whatever the order of the link's messages, the tasks
    and the outcomes of the executor. -/
theorem runs_owned {s : State} (h : runner.Reaches Orderly s) : Owned s where
  silent := (inv_of_reaches h).silent
  single := fun a ha b hb hid => Table.eq_of_key_eq ha hb hid
  ended := fun r hr => ((inv_of_reaches h).gone r hr).1
  closed := by
    intro hlink
    rw [List.eq_nil_iff_forall_not_mem]
    intro r hr
    have hkeep := ((inv_of_reaches h).gone r hr).2
    rw [hlink] at hkeep
    exact hkeep

/-- A seek restarts a session that prerolls, and the link dies later. -/
def seekRestart : List Event :=
  [.startSession "a", .begin 0 false, .ownEnd 0, .ownEnd 0, .ownEnd 0, .number 0, .suspend 0,
    .endSession "a", .link, .link, .cancel 0, .link, .link,
    .startSession "a", .begin 1 false, .ownEnd 1, .ownEnd 1, .ownEnd 1, .number 1, .suspend 1,
    .outcome 1 true, .check 1, .register 1, .send 1, .retain 1,
    .teardown, .link, .link, .link, .link, .link, .link, .link]

theorem runs_owned_seekRestart : ∃ s,
    runner.replay (fun s e => decide (Orderly s e)) seekRestart State.new = some s ∧ Owned s := by
  have hrun : (runner.replay (fun s e => decide (Orderly s e)) seekRestart State.new).isSome := by
    decide
  obtain ⟨s, hs⟩ := Option.isSome_iff_exists.mp hrun
  exact ⟨s, hs, runs_owned ((Machine.reaches_of_replay hs).mono fun _ _ => of_decide_eq_true)⟩

/-! ## Two starts of one id -/

/-- The executor fails the first start after the second has its generation. -/
def answersLate : List Event :=
  [.startSession "a", .begin 0 false, .ownEnd 0, .ownEnd 0, .ownEnd 0, .number 0, .suspend 0,
    .startSession "a", .begin 1 false, .ownEnd 1, .ownEnd 1, .ownEnd 1, .number 1, .suspend 1,
    .outcome 0 false, .send 0]

/-- The second start takes the abort handle of the first, which has not run
    yet; `EndSession` aborts the second only. -/
def registersLate : List Event :=
  [.startSession "a", .startSession "a", .begin 1 false, .ownEnd 1, .ownEnd 1, .ownEnd 1,
    .number 1, .suspend 1, .endSession "a", .link, .link, .cancel 1, .link, .link,
    .begin 0 false, .ownEnd 0, .ownEnd 0, .ownEnd 0, .number 0, .suspend 0, .outcome 0 true,
    .check 0, .register 0, .send 0]

/-- A superseded start has answered, or a run is registered after its end. -/
def State.disowned (s : State) : Bool :=
  s.verdicts.any (fun v => v.superseded) || s.sessions.rows.any fun r => r.id ∈ s.quiet

theorem not_owned_of_disowned {s : State} (h : s.disowned = true) : ¬ Owned s := by
  intro howned
  simp only [State.disowned, Bool.or_eq_true, List.any_eq_true, decide_eq_true_eq] at h
  rcases h with ⟨v, hv, hsup⟩ | ⟨r, hr, hq⟩
  · rw [howned.silent v hv] at hsup
    cases hsup
  · exact howned.ended r hr hq

theorem disowned_run {es : List Event}
    (h : (runner.replay (fun _ _ => true) es State.new).any State.disowned = true) :
    ∃ s, runner.replay (fun _ _ => true) es State.new = some s ∧ runner.Reachable s ∧
      ¬ Owned s := by
  obtain ⟨s, hs, hdisowned⟩ := (Option.any_eq_true _ _).mp h
  exact ⟨s, hs, (Machine.reaches_of_replay hs).reachable, not_owned_of_disowned hdisowned⟩

/-- The first run answers for the newer start, the second leaves a run that
    nobody owns. -/
theorem not_owned :
    (∃ s, runner.replay (fun _ _ => true) answersLate State.new = some s ∧
      runner.Reachable s ∧ ¬ Owned s) ∧
    ∃ s, runner.replay (fun _ _ => true) registersLate State.new = some s ∧
      runner.Reachable s ∧ ¬ Owned s :=
  ⟨disowned_run (by decide), disowned_run (by decide)⟩

end Kahawai.Transcoder.Runner
