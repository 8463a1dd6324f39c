import Kahawai.Hub.Sessions.Dispatch.Invariant

/-!
# What dispatch attempts leave behind

Results:
* `attempts_kept`: in a run whose events are orderly no attempt removes what a
  later one registered, every verdict reaches the attempt it is about, and when
  `end` has returned and all operations are over nothing is left.
* `not_attempts_kept`: a reschedule that overlaps a seek, or the end of the
  session, breaks each of these.
-/

namespace Kahawai.Hub.Sessions.Dispatch

open Kahawai.Lib

variable {s s' : State} {tc : String}

/-- Every orderly event keeps the invariant. -/
theorem inv_next {e : Event} (h : Inv s) (hok : Orderly s e) (hs : dispatchNext s e = some s') :
    Inv s' := by
  cases e with
  | register a =>
    obtain ⟨x, hx, hstage, rfl⟩ := move_eq_some.mp hs
    exact h.attemptStep
      { found := hx
        inFlight := by simp [Attempt.inFlight, hstage]
        attempts := rfl
        box := rfl
        session := ⟨rfl, rfl, rfl, rfl, rfl⟩
        pending := fun p hp => ⟨(Option.some.inj hp).symm, rfl⟩
        leases := fun _ => id
        last := fun _ => Or.inl
        removed := fun _ => Or.inl
        answered := fun _ => Or.inl }
  | send a delivered =>
    obtain ⟨x, hx, hstage, rfl⟩ := move_eq_some.mp hs
    refine h.attemptMoves hx (by simp [Attempt.inFlight, hstage]) ?_ fun t => last_of_start
    cases delivered <;> rfl
  | verdict a ready =>
    obtain ⟨x, -, -, hs⟩ := move_eq_some.mp (Option.join_eq_some_iff.mp hs)
    exact h.deliver hok hs
  | hear a =>
    obtain ⟨x, hx, ⟨hstage, -⟩, rfl⟩ := move_eq_some.mp hs
    exact h.attemptMoves hx (by simp [Attempt.inFlight, hstage]) rfl fun t => Or.inl
  | giveUp a =>
    obtain ⟨x, hx, ⟨hstage, -⟩, rfl⟩ := move_eq_some.mp hs
    exact h.attemptMoves hx (by simp [Attempt.inFlight, hstage]) rfl fun t => Or.inl
  | close a delivered =>
    obtain ⟨x, hx, hstage, rfl⟩ := move_eq_some.mp hs
    exact h.attemptMoves hx (by simp [Attempt.inFlight, hstage]) rfl fun t ht =>
      Or.inl (last_of_end ht)
  | cancel a =>
    obtain ⟨x, hx, hstage, rfl⟩ := move_eq_some.mp hs
    refine h.attemptMoves hx ?_ rfl fun t => Or.inl
    rcases hstage with hstage | hstage | hstage <;> simp [Attempt.inFlight, hstage]
  | unregister a keep =>
    obtain ⟨x, hx, hstage, rfl⟩ := move_eq_some.mp hs
    exact h.unregister hx hstage
  | unlease a keep =>
    obtain ⟨x, hx, hstage, rfl⟩ := move_eq_some.mp hs
    exact h.unlease hx hstage
  | seek =>
    simp only [dispatchNext] at hs
    split at hs
    · rename_i hguard
      obtain ⟨hidle, hstage⟩ := hguard
      cases hs
      exact h.seekStep
        { seek := rfl
          session := ⟨rfl, rfl, rfl, rfl, rfl, rfl, rfl⟩
          notClosed := by rcases hstage with hstage | hstage <;> simp [hstage, EndStage.isClosed]
          owner := fun a x _ _ => by simp [hidle]
          box := fun tc htc => (Option.some.inj htc).symm
          leases := fun _ => id
          holds := Finset.Subset.refl _
          last := fun _ => id }
    · cases hs
  | seekEnd tc delivered =>
    simp only [dispatchNext] at hs
    split at hs
    · rename_i hseek
      cases hs
      exact h.seekMoves (by simp [hseek]) (by simp [hseek]) (by simp [hseek, SeekStage.box?])
        (fun _ => id) (Finset.Subset.refl _) fun t => last_of_end
    · cases hs
  | seekRelease tc =>
    simp only [dispatchNext] at hs
    split at hs
    · rename_i hseek
      cases hs
      exact h.seekMoves (by simp [hseek]) (by simp [hseek]) (by simp [hseek, SeekStage.box?])
        (fun _ => id) (Finset.erase_subset _ _) fun t => id
    · cases hs
  | seekTake tc =>
    simp only [dispatchNext] at hs
    split at hs
    · rename_i hseek
      cases hs
      exact h.seekMoves (by simp [hseek]) (by simp [hseek]) (by simp [hseek, SeekStage.box?])
        (fun _ heq => by cases heq) (Finset.Subset.refl _) fun t => id
    · cases hs
  | seekStart tc =>
    simp only [dispatchNext] at hs
    split at hs
    · rename_i hseek
      cases hs
      have hnext : Inv { s with seek := .attempting tc s.attempts.length } :=
        h.seekMoves (by simp [hseek]) (by simp [hseek]) (by simp [hseek, SeekStage.box?])
          (fun _ => id) (Finset.Subset.refl _) fun t => id
      refine hnext.newAttempt hok ?_ (Or.inl rfl)
      exact h.not_closed_of_seek (by simp [hseek])
    · cases hs
  | seekRetry tc a =>
    simp only [dispatchNext] at hs
    split at hs
    · rename_i hguard
      obtain ⟨hseek, hreturned⟩ := hguard
      cases hs
      refine h.seekMoves (by simp [hseek]) ?_ (by simp [hseek, SeekStage.box?])
        (fun _ => id) (Finset.Subset.refl _) fun t => id
      intro b x hx hin heq
      rw [hseek] at heq
      cases heq
      rw [hreturned.inFlight hx] at hin
      cases hin
    · cases hs
  | seekDone =>
    simp only [dispatchNext] at hs
    split at hs
    · rename_i hstops
      cases hs
      refine h.seekMoves ?_ ?_ (fun _ heq => by cases heq) (fun _ => id) (Finset.Subset.refl _) fun t => id
      · intro hidle
        rw [hidle] at hstops
        exact hstops
      · intro b x hx hin heq
        rw [heq] at hstops
        rcases hstops with hreturned | hreturned
        · rw [hreturned.inFlight hx] at hin
          cases hin
        · rw [hreturned.inFlight hx] at hin
          cases hin
    · cases hs
  | reschedule =>
    simp only [dispatchNext] at hs
    split at hs
    · rename_i hstage
      cases hs
      exact h.reschedule hok (by simp [hstage, EndStage.isClosed])
    · cases hs
  | look k =>
    obtain ⟨m, hm, rfl, rfl⟩ := move_eq_some.mp hs
    refine h.moveMoves hm (by simp) (by simp) (fun _ => id) ?_ (fun t ht => ?_) (by simp [MoveStage.target])
    · exact fun old hold => (MoveStage.looked.inj hold).symm
    · exact Or.inl ⟨((h.holds_of_move hm (by simp) ht).resolve_right (by simp [MoveStage.target])).1, rfl⟩
  | release k old =>
    obtain ⟨m, hm, rfl, rfl⟩ := move_eq_some.mp hs
    refine h.moveMoves hm (by simp) (by simp) (fun _ => id) (fun _ heq => by cases heq) (fun t ht => ?_) (by simp [MoveStage.target])
    obtain ⟨hne, ht⟩ := Finset.mem_erase.mp ht
    have hbox := ((h.holds_of_move hm (by simp) ht).resolve_right (by simp [MoveStage.target])).1
    exact absurd (hbox.trans (h.looked old (List.mem_of_getElem? hm)).symm) hne
  | refuse k =>
    obtain ⟨m, hm, rfl, rfl⟩ := move_eq_some.mp hs
    refine h.moveMoves hm (by simp) (by simp) (fun _ => id) (fun _ heq => by cases heq) (fun t ht => ?_) (by simp [MoveStage.target])
    cases ((h.holds_of_move hm (by simp) ht).resolve_right (by simp [MoveStage.target])).2
  | reserve k new =>
    obtain ⟨m, hm, rfl, rfl⟩ := move_eq_some.mp hs
    refine h.moveMoves hm (by simp) (by simp) (fun _ => id) (fun _ heq => by cases heq) (fun t ht => ?_) (by simp [MoveStage.target])
    rcases Finset.mem_insert.mp ht with rfl | ht
    · exact Or.inr rfl
    · cases ((h.holds_of_move hm (by simp) ht).resolve_right (by simp [MoveStage.target])).2
  | take k new =>
    obtain ⟨m, hm, rfl, rfl⟩ := move_eq_some.mp hs
    refine h.moveMoves hm (by simp) (by simp) (fun _ heq => by cases heq) (fun _ heq => by cases heq) (fun t ht => ?_) fun t htarget _ => ?_
    · exact Or.inr ((h.holds_of_move hm (by simp) ht).resolve_left (by simp [MoveStage.isReleased]))
    · exact Or.inr htarget
  | begin k new =>
    obtain ⟨m, hm, rfl, rfl⟩ := move_eq_some.mp hs
    have hnext : Inv (s.setMove k (.attempting new s.attempts.length)) := by
      refine h.moveMoves hm (by simp) (by simp) (fun _ => id) (fun _ heq => by cases heq) (fun t ht => ?_) fun t htarget _ => ?_
      · exact Or.inr ((h.holds_of_move hm (by simp) ht).resolve_left (by simp [MoveStage.isReleased]))
      · exact Or.inr htarget
    refine hnext.newAttempt hok ?_ (Or.inr (mem_set_moved hm))
    exact h.not_closed_of_move (List.mem_of_getElem? hm) (by simp)
  | finish k new a =>
    obtain ⟨m, hm, ⟨rfl, hreturned⟩, rfl⟩ := move_eq_some.mp hs
    exact h.finish hm hreturned hok
  | fail k new =>
    obtain ⟨m, hm, hfails, rfl⟩ := move_eq_some.mp hs
    exact h.fail hm hfails hok
  | cancelMove k => exact hok.elim
  | remove =>
    simp only [dispatchNext] at hs
    split at hs
    · cases hs
      exact
        { h with
          closed := by simp [EndStage.isClosed]
          endBox := by simp [EndStage.box?]
          kept := by simp
          unleased := by simp [EndStage.isUnleased]
          released := by simp [EndStage.isReleased]
          told := by simp }
    · cases hs
  | endLock =>
    simp only [dispatchNext] at hs
    split at hs
    · rename_i hguard
      cases hs
      exact h.endLock hguard.2 hok
    · cases hs
  | endUnlease tc =>
    simp only [dispatchNext] at hs
    split at hs
    · rename_i hstage
      cases hs
      exact h.endUnlease hstage
    · cases hs
  | endUnregister tc =>
    simp only [dispatchNext] at hs
    split at hs
    · rename_i hstage
      cases hs
      exact h.endUnregister hstage
    · cases hs
  | endRelease tc =>
    simp only [dispatchNext] at hs
    split at hs
    · rename_i hstage
      cases hs
      exact h.endRelease hstage
    · cases hs
  | endSend tc delivered =>
    simp only [dispatchNext] at hs
    split at hs
    · rename_i hstage
      cases hs
      exact h.endSend hstage hok
    · cases hs
  | dropEnd => exact hok.elim

theorem inv_of_reaches (h : (dispatch tc).Reaches Orderly s) : Inv s :=
  h.invariant (inv_new tc) fun ha hok hb => inv_next ha hok hb

/-! ## What is left -/

/-- In a run whose events are all orderly, the drop of an attempt removes only
    what that attempt registered, and a verdict is consumed by the attempt it is
    about. When `end` has returned and every operation is over, neither map has
    an entry of the session, no slot is taken for it, and the last message about
    it to any transcoder is `EndSession`. -/
theorem attempts_kept (h : (dispatch tc).Reaches Orderly s) :
    (∀ x ∈ s.removed, x.1 = x.2) ∧ (∀ x ∈ s.answered, x.1 = x.2) ∧
    (s.Finished → s.pendingReady = none ∧ s.tcLeases = none ∧ s.holds = ∅ ∧
      ∀ t msg, s.last t = some msg → msg = .endSession) := by
  have hinv := inv_of_reaches h
  refine ⟨hinv.removed, hinv.answered, fun hfin => ?_⟩
  have hdone : s.stage = .done := hfin.stage.resolve_right hinv.kept
  refine ⟨?_, hinv.unleased (by rw [hdone]; rfl), hinv.released (by rw [hdone]; rfl), ?_⟩
  · cases hp : s.pendingReady with
    | none => rfl
    | some p =>
      obtain ⟨x, hx, hreg⟩ := hinv.pending p hp
      have hin := Attempt.inFlight_of_isRegistered hreg
      rw [hfin.attempts x (List.mem_of_getElem? hx)] at hin
      cases hin
  · intro t msg hlast
    cases msg with
    | endSession => rfl
    | startSession =>
      rcases hinv.last t hlast with rfl | ⟨m, hm, htarget⟩
      · exact absurd hlast (hinv.told hdone)
      · rw [hfin.moves m hm] at htarget
        cases htarget

/-- The steps of an attempt whose verdict is `ready`. -/
def attemptRun (a : ℕ) (ready : Bool) : List Event :=
  [.register a, .send a true, .verdict a ready, .hear a, .unregister a ready, .unlease a ready]

/-- The steps of `end` on the box `tc`. -/
def endRun (tc : String) : List Event :=
  [.remove, .endLock, .endUnlease tc, .endUnregister tc, .endRelease tc, .endSend tc true]

/-- A seek that falls back to a second attempt, a worker that dies and a
    reschedule onto the same box, and the end. -/
def calmRun : List Event :=
  [.seek, .seekEnd "a" true, .seekRelease "a", .seekTake "a", .seekStart "a"] ++
    attemptRun 1 false ++ [.seekRetry "a" 1, .seekStart "a"] ++ attemptRun 2 true ++
    [.seekDone, .verdict 2 false, .reschedule, .look 0, .release 0 "a", .reserve 0 "a",
      .take 0 "a", .begin 0 "a"] ++ attemptRun 3 true ++ [.finish 0 "a" 3] ++ endRun "a"

theorem attempts_kept_calm : ∃ s, (dispatch "a").replay (fun s e => decide (Orderly s e)) calmRun
      (State.new "a") = some s ∧ s.Finished ∧ (∀ x ∈ s.answered, x.1 = x.2) ∧
      s.tcLeases = none ∧ s.holds = ∅ ∧ s.last "a" = some .endSession := by
  have hrun : (((dispatch "a").replay (fun s e => decide (Orderly s e)) calmRun
      (State.new "a")).any fun s => s.Finished && (s.last "a").isSome) = true := by
    decide
  obtain ⟨s, hs, hfin⟩ := (Option.any_eq_true _ _).mp hrun
  simp only [Bool.and_eq_true, decide_eq_true_eq] at hfin
  have hreach := (Machine.reaches_of_replay hs).mono fun _ _ => of_decide_eq_true
  obtain ⟨-, hanswered, hleft⟩ := attempts_kept hreach
  obtain ⟨-, hleases, hholds, hlast⟩ := hleft hfin.1
  obtain ⟨msg, hmsg⟩ := Option.isSome_iff_exists.mp hfin.2
  exact ⟨s, hs, hfin.1, hanswered, hleases, hholds, by rw [hmsg, hlast "a" msg hmsg]⟩

/-- The box of a seek is lost while it starts the session again, and a
    reschedule dispatches the session to another box. -/
def overlapRun : List Event :=
  [.seek, .seekEnd "a" true, .seekRelease "a", .seekTake "a", .seekStart "a", .register 1,
    .send 1 true, .reschedule, .look 0, .release 0 "a", .reserve 0 "b", .take 0 "b",
    .begin 0 "b", .register 2, .send 2 true]

/-- The session ends while a reschedule opens its leases. -/
def orphanRun : List Event :=
  [.reschedule, .look 0, .release 0 "a", .reserve 0 "b", .take 0 "b"] ++ endRun "a" ++
    [.begin 0 "b"] ++ attemptRun 1 true ++ [.finish 0 "b" 1]

/-- The seek's attempt gives up and removes the sender and the leases of the
    reschedule's. A report on the first `StartSession` is consumed by the second
    attempt. After the end of the session the leases, a slot and a started box
    are left behind. -/
theorem not_attempts_kept :
    (((dispatch "a").replay (fun _ _ => true)
      (overlapRun ++ [.giveUp 1, .close 1 false, .unregister 1 false, .unlease 1 false])
      (State.new "a")).any fun s => s.removed = [(1, 2), (1, 2)]) = true ∧
    (((dispatch "a").replay (fun _ _ => true) (overlapRun ++ [.verdict 1 false])
      (State.new "a")).any fun s => s.answered = [(2, 1)]) = true ∧
    (((dispatch "a").replay (fun _ _ => true) orphanRun (State.new "a")).any fun s =>
      s.Finished && s.tcLeases = some 1 && "b" ∈ s.holds &&
        s.last "b" = some .startSession) = true := by
  decide

end Kahawai.Hub.Sessions.Dispatch
