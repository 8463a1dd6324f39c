import Kahawai.Media.Subindex.Index

/-!
# Reads that do not fail

A reader whose checkpoint, budget and source never fail returns the bytes of the
source, whatever its window is: `yields_readAt` and `yields_readAt_eof`. What a
program makes of the file is then a function of its bytes.
-/

namespace Kahawai.Media.Subindex

open Kahawai.Lib

/-- The bytes `off .. off + n`. -/
def Source.bytes (src : Source) (off n : ℕ) : Bytes := (List.range n).map fun i => src.byte (off + i)

/-- No read fails, and the window is a part of the source. -/
structure Quiet (src : Source) (overflowChecks : Bool) (r : Reader) : Prop where
  source : r.src = src
  checks : r.overflowChecks = overflowChecks
  checkpoint : ∀ k, r.faults.checkpoint k = false
  deadline : ∀ k, r.faults.deadline k = false
  io : ∀ k, r.faults.io k = false
  window : r.winLen = 0 ∨ r.winStart + r.winLen ≤ src.size

variable {src : Source} {overflowChecks : Bool} {r r' : Reader} {off n : ℕ} {α : Type}

theorem quiet_new (src : Source) (overflowChecks : Bool) :
    Quiet src overflowChecks
      (.new src ⟨fun _ => false, fun _ => false, fun _ => false⟩ overflowChecks) :=
  ⟨rfl, rfl, fun _ => rfl, fun _ => rfl, fun _ => rfl, Or.inl rfl⟩

theorem Quiet.refill (h : Quiet src overflowChecks r) (off n : ℕ) :
    Quiet src overflowChecks { r with winStart := off, winLen := r.want off n } := by
  refine ⟨h.source, h.checks, h.checkpoint, h.deadline, h.io, ?_⟩
  have hle : r.want off n ≤ src.size - off := by
    unfold Reader.want
    rw [h.source]
    exact min_le_right _ _
  show r.want off n = 0 ∨ off + r.want off n ≤ src.size
  omega

/-- A read without faults, after the sum `stop`. -/
theorem Quiet.read_eq (h : Quiet src overflowChecks r) (k : ℕ) :
    r.read k off n =
      match addU64 off n r with
      | .error stop r' => .error stop r'
      | .ok stop r' => r'.fetch k off n stop := by
  unfold Reader.read
  rw [h.checkpoint, h.deadline]
  rfl

theorem addU64_eq {a b : ℕ} (h : a + b < 2 ^ 64) (r : Reader) : addU64 a b r = .ok (a + b) r := by
  unfold addU64 checkU64
  rw [if_pos h]

theorem yields_addU64 {I : Reader → Prop} {a b : ℕ} (h : a + b < 2 ^ 64) :
    Yields I (addU64 a b) (.ok (a + b)) := by
  intro s hI
  unfold outcome
  rw [addU64_eq h]
  exact ⟨rfl, fun _ _ heq => by cases heq; exact hI⟩

theorem yields_subU64 {I : Reader → Prop} {a b : ℕ} (h : b ≤ a) :
    Yields I (subU64 a b) (.ok (a - b)) := by
  intro s hI
  unfold outcome subU64 checkU64
  rw [if_pos h]
  exact ⟨rfl, fun _ _ heq => by cases heq; exact hI⟩

theorem yields_ofExcept {I : Reader → Prop} (x : Except Error α) :
    Yields I (ofExcept x) (x.mapError Stop.err) := by
  cases x with
  | ok a => exact yields_pure a
  | error e => exact yields_throw _

/-- A read inside the source returns its bytes. -/
theorem yields_readAt (hsize : src.size < 2 ^ 64) (hle : off + n ≤ src.size) :
    Yields (Quiet src overflowChecks) (readAt off n) (.ok (src.bytes off n)) := by
  intro r hr
  have hcount : Quiet src overflowChecks { r with calls := r.calls + 1 } :=
    ⟨hr.source, hr.checks, hr.checkpoint, hr.deadline, hr.io, hr.window⟩
  have hslice : ∀ r' : Reader, Quiet src overflowChecks r' →
      off + n ≤ r'.winStart + r'.winLen → r'.slice off n = .ok (src.bytes off n) r' := by
    intro r' hr' hwindow
    unfold Reader.slice Source.bytes
    rw [if_pos hwindow, hr'.source]
  have hread : ∃ r', readAt off n r = .ok (src.bytes off n) r' ∧ Quiet src overflowChecks r' := by
    show ∃ r', Reader.read _ r.calls off n = _ ∧ _
    rw [hcount.read_eq, addU64_eq (hle.trans_lt hsize)]
    dsimp only
    generalize { r with calls := r.calls + 1 } = q at hcount
    unfold Reader.fetch
    split
    · rename_i hwindow
      unfold Reader.inWindow at hwindow
      rw [Bool.and_eq_true, decide_eq_true_eq, decide_eq_true_eq] at hwindow
      exact ⟨q, hslice q hcount hwindow.2, hcount⟩
    · have hwant : n ≤ q.want off n := by
        unfold Reader.want
        rw [hcount.source]
        exact le_min (le_max_left _ _) (by omega)
      rw [if_neg (not_lt.mpr hwant), hcount.io, Bool.and_false, if_neg Bool.false_ne_true]
      have hfilled := hcount.refill off n
      exact ⟨_, hslice _ hfilled (Nat.add_le_add_left hwant off), hfilled⟩
  obtain ⟨r', hread, hquiet⟩ := hread
  unfold outcome
  rw [hread]
  exact ⟨rfl, fun _ _ heq => by cases heq; exact hquiet⟩

/-- A read past the end of the source fails. -/
theorem yields_readAt_eof (hsum : off + n < 2 ^ 64) (hn : 0 < n) (hlt : src.size < off + n) :
    Yields (Quiet src overflowChecks) (readAt off n) (.error (.err (.shape "read past eof"))) := by
  intro r hr
  have hcount : Quiet src overflowChecks { r with calls := r.calls + 1 } :=
    ⟨hr.source, hr.checks, hr.checkpoint, hr.deadline, hr.io, hr.window⟩
  have hread : readAt off n r =
      .error (.err (.shape "read past eof")) { r with calls := r.calls + 1 } := by
    show Reader.read _ r.calls off n = _
    rw [hcount.read_eq, addU64_eq hsum]
    dsimp only
    generalize { r with calls := r.calls + 1 } = q at hcount
    unfold Reader.fetch
    have hwindow : q.inWindow off (off + n) = false := by
      unfold Reader.inWindow
      rw [Bool.and_eq_false_iff, decide_eq_false_iff_not, decide_eq_false_iff_not]
      rcases hcount.window with hempty | hinside
      · omega
      · omega
    have hwant : q.want off n < n := by
      refine (min_le_right _ _).trans_lt ?_
      rw [hcount.source]
      omega
    rw [hwindow, if_neg Bool.false_ne_true, if_pos hwant]
  unfold outcome
  rw [hread]
  exact ⟨rfl, fun _ _ heq => by cases heq⟩

/-! ## Every program keeps the reader quiet -/

theorem keeps_quiet_readAt (off n : ℕ) : Keeps (Quiet src overflowChecks) (readAt off n) := by
  intro r data r' hr h
  have hcount : Quiet src overflowChecks { r with calls := r.calls + 1 } :=
    ⟨hr.source, hr.checks, hr.checkpoint, hr.deadline, hr.io, hr.window⟩
  change Reader.read _ r.calls off n = _ at h
  rw [hcount.read_eq] at h
  generalize { r with calls := r.calls + 1 } = q at hcount h
  split at h
  · cases h
  · rename_i hadd
    rw [checkU64_ok hadd] at h
    unfold Reader.fetch at h
    split at h
    · rw [slice_ok h]
      exact hcount
    · split at h
      · cases h
      · split at h
        · cases h
        · rw [slice_ok h]
          exact hcount.refill off n

theorem keeps_quiet_addU64 (a b : ℕ) : Keeps (Quiet src overflowChecks) (addU64 a b) := by
  intro r c r' hr h
  rw [checkU64_ok h]
  exact hr

theorem keeps_quiet_ofExcept (x : Except Error α) :
    Keeps (Quiet src overflowChecks) (ofExcept x) := by
  cases x with
  | ok a => exact keeps_pure a
  | error e => exact keeps_throw _

/-- A failed read leaves the reader quiet. -/
theorem Quiet.of_readAt_error {stop : Stop} (hr : Quiet src overflowChecks r)
    (h : readAt off n r = .error stop r') : Quiet src overflowChecks r' := by
  have hcount : Quiet src overflowChecks { r with calls := r.calls + 1 } :=
    ⟨hr.source, hr.checks, hr.checkpoint, hr.deadline, hr.io, hr.window⟩
  have hslice : ∀ {q q' : Reader}, Quiet src overflowChecks q → q.slice off n = .error stop q' →
      Quiet src overflowChecks q' := by
    intro q q' hq hslice
    unfold Reader.slice at hslice
    split at hslice
    · cases hslice
    · cases hslice
      exact hq
  change Reader.read _ r.calls off n = _ at h
  rw [hcount.read_eq] at h
  generalize { r with calls := r.calls + 1 } = q at hcount h
  split at h
  · rename_i hadd
    cases h
    unfold addU64 checkU64 at hadd
    split at hadd
    · cases hadd
    · split at hadd
      · cases hadd
        exact hcount
      · cases hadd
  · rename_i hadd
    rw [checkU64_ok hadd] at h
    unfold Reader.fetch at h
    split at h
    · exact hslice hcount h
    · split at h
      · cases h
        exact hcount
      · rw [hcount.io, Bool.and_false, if_neg Bool.false_ne_true] at h
        exact hslice (hcount.refill off n) h

theorem keeps_quiet_readHeader (pos n : ℕ) :
    Keeps (Quiet src overflowChecks) (readHeader pos n) := by
  refine keeps_bind ?_ fun head => keeps_pure _
  intro r a r' hr h
  unfold hop at h
  cases hread : readAt pos n r with
  | ok data q =>
    rw [hread] at h
    cases h
    exact keeps_quiet_readAt pos n r data _ hr hread
  | error stop q =>
    rw [hread] at h
    have hq := hr.of_readAt_error hread
    cases stop with
    | err e =>
      cases h
      exact ⟨hq.source, hq.checks, hq.checkpoint, hq.deadline, hq.io, hq.window⟩
    | panic => cases h
    | unfinished => cases h

theorem keeps_quiet_readElement (fns : TextFns) (h : Hunt) (id body size : ℕ) :
    Keeps (Quiet src overflowChecks) (h.readElement fns id body size) := by
  have hsection : ∀ {β : Type} (parse : Bytes → Except Error β) (k : β → Hunt),
      Keeps (Quiet src overflowChecks) (do
        let data ← readAt body size
        let b ← ofExcept (parse data)
        pure (k b)) := fun parse k =>
    keeps_bind (keeps_quiet_readAt body size) fun data =>
      keeps_bind (keeps_quiet_ofExcept (parse data)) fun b => keeps_pure (k b)
  unfold Hunt.readElement
  split_ifs
  · exact hsection _ _
  · exact hsection _ _
  · exact hsection _ _
  · exact hsection _ _
  · exact keeps_pure _
  · exact keeps_pure _

theorem keeps_quiet_hunt_step (fns : TextFns) (stop : ℕ) (h : Hunt) :
    Keeps (Quiet src overflowChecks) (h.step fns stop) := by
  unfold Hunt.step
  split_ifs
  · refine keeps_bind (keeps_quiet_readHeader _ 16) fun e => ?_
    cases e with
    | none => exact keeps_pure _
    | some e =>
      refine keeps_bind (keeps_quiet_addU64 _ _) fun body => ?_
      split
      · exact keeps_pure _
      · refine keeps_bind (keeps_quiet_readElement fns _ _ _ _) fun h' => ?_
        refine keeps_bind (keeps_quiet_addU64 _ _) fun after => ?_
        split_ifs
        · exact keeps_pure _
        · exact keeps_pure _
  · exact keeps_pure _

theorem keeps_quiet_readSegment (len : ℕ) : Keeps (Quiet src overflowChecks) (readSegment len) := by
  refine keeps_bind (keeps_quiet_readAt _ _) fun head => ?_
  refine keeps_bind (keeps_quiet_ofExcept _) fun id => ?_
  dsimp only
  split_ifs
  · exact keeps_throw _
  · refine keeps_bind (keeps_quiet_ofExcept _) ?_
    rintro ⟨hsize, hsl⟩
    cases hsize with
    | none => exact keeps_throw _
    | some hsize =>
      refine keeps_bind (keeps_quiet_readAt _ _) fun seg => ?_
      refine keeps_bind (keeps_quiet_ofExcept _) fun id' => ?_
      dsimp only
      split_ifs
      · exact keeps_throw _
      · refine keeps_bind (keeps_quiet_ofExcept _) ?_
        rintro ⟨segSize, sl⟩
        cases segSize with
        | none => exact keeps_pure _
        | some size => exact keeps_pure _

theorem keeps_quiet_mkvReadIndex (fns : TextFns) (len : ℕ) :
    Keeps (Quiet src overflowChecks) (mkvReadIndex fns len) :=
  keeps_bind (keeps_quiet_readSegment len) fun _ =>
    keeps_loop (keeps_quiet_hunt_step fns _) _ _

end Kahawai.Media.Subindex
