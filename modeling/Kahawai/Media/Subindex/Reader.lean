import Kahawai.Lib.Programs
import Kahawai.Media.Subindex.Ebml

/-!
# The reader of an index walk

`Reader` gives a walk the bytes at any offset of a source, through a readahead
window (`crates/kahawai-media/src/subindex.rs`, lines 65–153). Every read may
fail: the checkpoint of the scheduler permit and the budget are asked before
each read, and the source may fail whenever the window does not cover the read.
Which reads fail is the input `Faults`; a read is identified by its number.

The window is kept as an interval, since the bytes of the source do not change.
A `u64` operation that overflows panics in a build with overflow checks and
wraps in one without; the model has both. Three fields of the state are no part
of the source and only record what happened to the reads.
-/

namespace Kahawai.Media.Subindex

open Kahawai.Lib

/-- `RemuxSource`: `size` bytes. -/
structure Source where
  size : ℕ
  byte : ℕ → UInt8

/-- The reads that fail, by their number. -/
structure Faults where
  checkpoint : ℕ → Bool
  deadline : ℕ → Bool
  io : ℕ → Bool

/-- `READAHEAD`. -/
def readahead : ℕ := 256 * 1024

/-- `Reader`, with the inputs of the run. -/
structure Reader where
  src : Source
  faults : Faults
  overflowChecks : Bool
  winStart : ℕ
  winLen : ℕ
  /-- The number of reads so far. -/
  calls : ℕ
  /-- A read was interrupted. -/
  interrupted : Bool
  /-- An interruption was taken for the end of the walk. -/
  lost : Bool

/-- Why a program stops. -/
inductive Stop
  | err (e : Error)
  /-- The thread panics. -/
  | panic
  /-- A loop of the model is out of fuel. -/
  | unfinished
  deriving DecidableEq

abbrev Walk (α : Type) : Type := EStateM Stop Reader α

variable {α : Type}

/-- `?` on a parse. -/
def ofExcept : Except Error α → Walk α
  | .ok a => pure a
  | .error e => throw (.err e)

/-- `bail!`, and `context` on a missing value. -/
def bail (context : String) : Walk α := throw (.err (.shape context))

/-- A `u64` result: exact, wrapped, or a panic. -/
def checkU64 (exact : Option ℕ) (wrapped : ℕ) : Walk ℕ := fun r =>
  match exact with
  | some n => .ok n r
  | none => if r.overflowChecks then .error .panic r else .ok wrapped r

def addU64 (a b : ℕ) : Walk ℕ :=
  checkU64 (if a + b < 2 ^ 64 then some (a + b) else none) ((a + b) % 2 ^ 64)

def subU64 (a b : ℕ) : Walk ℕ :=
  checkU64 (if b ≤ a then some (a - b) else none) (2 ^ 64 + a - b)

namespace Reader

/-- `Reader::new` on a source whose reads so far were not interrupted. -/
def new (src : Source) (faults : Faults) (overflowChecks : Bool) : Reader :=
  { src, faults, overflowChecks
    winStart := 0, winLen := 0, calls := 0, interrupted := false, lost := false }

variable (r : Reader)

/-- `in_window`; `stop` is the `u64` sum. -/
def inWindow (off stop : ℕ) : Bool := r.winStart ≤ off && stop ≤ r.winStart + r.winLen

/-- `near`. -/
def near (off : ℕ) : Bool := r.winStart ≤ off && off ≤ r.winStart + r.winLen + 65536

/-- `want`. -/
def want (off n : ℕ) : ℕ :=
  min (max n (if r.near off then readahead else 4096)) (r.src.size - off)

/-- The bytes of the window, `self.win[s..s + n]`. -/
def slice (off n : ℕ) : EStateM.Result Stop Reader Bytes :=
  if off + n ≤ r.winStart + r.winLen then
    .ok ((List.range n).map fun i => r.src.byte (off + i)) r
  else .error .panic r

/-- The read is interrupted. -/
def interrupt (e : Error) : EStateM.Result Stop Reader α :=
  .error (.err e) { r with interrupted := true }

/-- `read_at` after the checkpoint and the budget; `k` is the number of the
    read. -/
def fetch (k off n stop : ℕ) : EStateM.Result Stop Reader Bytes :=
  if r.inWindow off stop then r.slice off n
  else if r.want off n < n then .error (.err (.shape "read past eof")) r
  else if 0 < r.want off n && r.faults.io k then r.interrupt .io
  else { r with winStart := off, winLen := r.want off n }.slice off n

/-- Read number `k`. -/
def read (k off n : ℕ) : EStateM.Result Stop Reader Bytes :=
  if r.faults.checkpoint k then r.interrupt .checkpoint
  else if r.faults.deadline k then r.interrupt .deadline
  else
    match addU64 off n r with
    | .error stop r' => .error stop r'
    | .ok stop r' => r'.fetch k off n stop

end Reader

/-- `read_at`. -/
def readAt (off n : ℕ) : Walk Bytes := fun r =>
  { r with calls := r.calls + 1 }.read r.calls off n

/-- The read of a walk that goes on without it: `Err(_) => break`. The
    interruption, if it is one, is lost. -/
def hop (m : Walk α) : Walk (Option α) := fun r =>
  match m r with
  | .ok a r' => .ok (some a) r'
  | .error (.err e) r' => .ok none { r' with lost := r'.lost || e.interrupts }
  | .error stop r' => .error stop r'

/-- `or_else(|_| Ok(None))`. -/
def orNone (m : Walk α) : Walk (Option α) := fun r =>
  match m r with
  | .ok a r' => .ok (some a) r'
  | .error (.err _) r' => .ok none r'
  | .error stop r' => .error stop r'

/-! ## Interruptions -/

/-- Every interruption so far was lost, and nothing else was. -/
def Accounted (r : Reader) : Prop := r.interrupted = r.lost

/-- A program accounts for every interruption if it returns, and under `p` it
    ends. -/
structure Sound (p : Prop) (m : Walk α) : Prop where
  keeps : Keeps Accounted m
  ends : p → Avoids .unfinished m

section Sound

variable {β τ : Type} {p : Prop} {m : Walk α} {f : α → Walk β}

theorem sound_pure (a : α) : Sound p (pure a : Walk α) := ⟨keeps_pure a, fun _ => avoids_pure a⟩

theorem sound_bail (context : String) : Sound p (bail context : Walk α) :=
  ⟨keeps_throw _, fun _ => avoids_throw nofun⟩

theorem sound_bind (hm : Sound p m) (hf : ∀ a, Sound p (f a)) : Sound p (m >>= f) :=
  ⟨keeps_bind hm.keeps fun a => (hf a).keeps,
    fun h => avoids_bind (hm.ends h) fun a => (hf a).ends h⟩

theorem sound_bind_returns {Q : α → Prop} (hm : Sound p m) (hQ : Returns m Q)
    (hf : ∀ a, Q a → Sound p (f a)) : Sound p (m >>= f) :=
  ⟨keeps_bind_returns hm.keeps hQ fun a ha => (hf a ha).keeps,
    fun h => avoids_bind_returns (hm.ends h) hQ fun a ha => (hf a ha).ends h⟩

theorem sound_foldlM {g : β → α → Walk β} (hg : ∀ b a, Sound p (g b a)) (l : List α) (b : β) :
    Sound p (l.foldlM g b) :=
  ⟨keeps_foldlM (fun b a => (hg b a).keeps) l b,
    fun h => avoids_foldlM (fun b a => (hg b a).ends h) l b⟩

theorem sound_loop {body : τ → Walk (τ ⊕ α)} (μ : τ → ℕ) (hbody : ∀ t, Sound p (body t))
    (hμ : p → ∀ t, Returns (body t) fun r => ∀ t', r = .inl t' → μ t' < μ t)
    {fuel : ℕ} {t : τ} (hfuel : μ t < fuel) : Sound p (loop .unfinished body fuel t) :=
  ⟨keeps_loop (fun t => (hbody t).keeps) fuel t,
    fun h => loop_avoids μ (fun t => (hbody t).ends h) (hμ h) hfuel⟩

theorem sound_ofExcept (x : Except Error α) : Sound p (ofExcept x) := by
  cases x with
  | ok a => exact sound_pure a
  | error e => exact ⟨keeps_throw _, fun _ => avoids_throw nofun⟩

end Sound

variable {p : Prop} {r r' : Reader}

theorem checkU64_ok {exact : Option ℕ} {wrapped n : ℕ}
    (h : checkU64 exact wrapped r = .ok n r') : r' = r := by
  simp only [checkU64] at h
  split at h
  · cases h
    rfl
  · split at h
    · cases h
    · cases h
      rfl

theorem checkU64_error {exact : Option ℕ} {wrapped : ℕ} {stop : Stop}
    (h : checkU64 exact wrapped r = .error stop r') : stop = .panic := by
  simp only [checkU64] at h
  split at h
  · cases h
  · split at h
    · cases h
      rfl
    · cases h

theorem sound_checkU64 (exact : Option ℕ) (wrapped : ℕ) : Sound p (checkU64 exact wrapped) := by
  constructor
  · intro s n s' hI h
    rw [checkU64_ok h]
    exact hI
  · intro _ s s' h
    cases checkU64_error h

/-- A sum that does not overflow is exact. -/
theorem returns_addU64 {a b : ℕ} (h : a + b < 2 ^ 64) :
    Returns (addU64 a b) fun n => n = a + b := by
  intro s n s' hn
  simp only [addU64, checkU64, if_pos h] at hn
  cases hn
  rfl

/-- A sum that wraps is smaller. -/
theorem addU64_le (a b : ℕ) : Returns (addU64 a b) fun n => n ≤ a + b := by
  intro s n s' hn
  simp only [addU64, checkU64] at hn
  split at hn
  · rename_i hexact
    split at hexact
    · cases hexact
      cases hn
      exact le_rfl
    · cases hexact
  · split at hn
    · cases hn
    · cases hn
      exact Nat.mod_le _ _

theorem sound_addU64 (a b : ℕ) : Sound p (addU64 a b) := sound_checkU64 _ _

theorem sound_subU64 (a b : ℕ) : Sound p (subU64 a b) := sound_checkU64 _ _

theorem slice_ok {off n : ℕ} {data : Bytes} (h : r.slice off n = .ok data r') : r' = r := by
  rw [Reader.slice] at h
  split at h
  · cases h
    rfl
  · cases h

theorem slice_error {off n : ℕ} {stop : Stop} (h : r.slice off n = .error stop r') :
    stop = .panic := by
  rw [Reader.slice] at h
  split at h
  · cases h
  · cases h
    rfl

/-- A read that returns was not interrupted. -/
theorem fetch_ok {k off n stop : ℕ} {data : Bytes} (h : r.fetch k off n stop = .ok data r') :
    r'.interrupted = r.interrupted ∧ r'.lost = r.lost := by
  rw [Reader.fetch] at h
  split at h
  · rw [slice_ok h]
    exact ⟨rfl, rfl⟩
  · split at h
    · cases h
    · split at h
      · cases h
      · rw [slice_ok h]
        exact ⟨rfl, rfl⟩

theorem read_ok {k off n : ℕ} {data : Bytes} (h : r.read k off n = .ok data r') :
    r'.interrupted = r.interrupted ∧ r'.lost = r.lost := by
  rw [Reader.read] at h
  split at h
  · cases h
  · split at h
    · cases h
    · split at h
      · cases h
      · rename_i hadd
        rw [checkU64_ok hadd] at h
        exact fetch_ok h

/-- A read that fails panics, or was interrupted exactly if its error says so. -/
def FailedRead (r : Reader) (stop : Stop) (r' : Reader) : Prop :=
  stop = .panic ∨ ∃ e, stop = .err e ∧ r'.interrupted = (r.interrupted || e.interrupts) ∧
    r'.lost = r.lost

theorem failedRead_interrupt {e : Error} (h : e.interrupts = true) :
    FailedRead r (.err e) { r with interrupted := true } :=
  Or.inr ⟨e, rfl, by rw [h, Bool.or_true], rfl⟩

theorem fetch_error {k off n sum : ℕ} {stop : Stop} (h : r.fetch k off n sum = .error stop r') :
    FailedRead r stop r' := by
  rw [Reader.fetch] at h
  split at h
  · exact Or.inl (slice_error h)
  · split at h
    · cases h
      exact Or.inr ⟨_, rfl, by rw [Error.interrupts, Bool.or_false], rfl⟩
    · split at h
      · cases h
        exact failedRead_interrupt rfl
      · exact Or.inl (slice_error h)

theorem read_error {k off n : ℕ} {stop : Stop} (h : r.read k off n = .error stop r') :
    FailedRead r stop r' := by
  rw [Reader.read] at h
  split at h
  · cases h
    exact failedRead_interrupt rfl
  · split at h
    · cases h
      exact failedRead_interrupt rfl
    · split at h
      · rename_i hadd
        cases h
        exact Or.inl (checkU64_error hadd)
      · rename_i hadd
        rw [checkU64_ok hadd] at h
        exact fetch_error h

theorem sound_readAt (off n : ℕ) : Sound p (readAt off n) := by
  constructor
  · intro s data s' hI h
    obtain ⟨hint, hlost⟩ := read_ok h
    rw [Accounted, hint, hlost]
    exact hI
  · intro _ s s' h
    rcases read_error h with hpanic | ⟨e, herr, -⟩
    · cases hpanic
    · cases herr

/-- A hop loses exactly the interruption of its read. -/
theorem sound_hop_readAt (off n : ℕ) : Sound p (hop (readAt off n)) := by
  constructor
  · intro s a s' hI h
    simp only [hop] at h
    cases hread : readAt off n s with
    | ok data s₁ =>
      rw [hread] at h
      cases h
      exact (sound_readAt (p := True) off n).keeps s data _ hI hread
    | error stop s₁ =>
      rw [hread] at h
      rcases read_error hread with rfl | ⟨e, rfl, hint, hlost⟩
      · cases h
      · simp only [EStateM.Result.ok.injEq] at h
        obtain ⟨-, rfl⟩ := h
        simp only [Accounted, hint, hlost]
        rw [show s.interrupted = s.lost from hI]
  · intro _ s s' h
    simp only [hop] at h
    cases hread : readAt off n s with
    | ok data s₁ =>
      rw [hread] at h
      cases h
    | error stop s₁ =>
      rw [hread] at h
      rcases read_error hread with rfl | ⟨e, rfl, -⟩
      · cases h
      · cases h

end Kahawai.Media.Subindex
