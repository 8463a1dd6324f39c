import Kahawai.Lib.RunTables
import Kahawai.Media.Subindex.Boxes

/-!
# The MP4 sample table

`mp4_sample_table` (`crates/kahawai-media/src/subindex.rs`, lines 1709–1794): from the run-length
tables of a `stbl`, where each sample is and when it is shown. Sums and products of `u64` wrap, as
the release profile does not check arithmetic; the capacities of the vectors are left out.

Results:
* `sampleTable_sound`: what is returned begins with the samples that the tables define.
* `sampleTable_complete`: of tables that agree it is all of them.
-/

namespace Kahawai.Media.Subindex

open Kahawai.Lib Kahawai.Lib.RunTables

/-- `(offset, size, start_ms, duration_ms)`. -/
structure Sample where
  offset : ℕ
  size : ℕ
  startMs : ℕ
  durationMs : ℕ
  deriving DecidableEq

/-- A result of `u64`. -/
def wrap (n : ℕ) : ℕ := n % 2 ^ 64

def kindOf (name : String) : Bytes := name.toList.map fun c => UInt8.ofNat c.toNat

/-- Two numbers at `base`. -/
def pairAt (data : Bytes) (base : ℕ) : Option (ℕ × ℕ) := do
  return (← u32At data base, ← u32At data (base + 4))

/-- The boxes of the tables. -/
structure SampleBoxes where
  stts : Bytes
  stsz : Bytes
  stsc : Bytes
  co64 : Bool
  chunkOffsets : Bytes

/-- The boxes in a `stbl` (lines 1711–1717). -/
def sampleBoxes (stbl : Bytes) : Except Stop (Option SampleBoxes) := do
  let some stts ← findBox stbl (kindOf "stts") | return none
  let some stsz ← findBox stbl (kindOf "stsz") | return none
  let some stsc ← findBox stbl (kindOf "stsc") | return none
  match ← findBox stbl (kindOf "co64") with
  | some chunkOffsets => return some { stts, stsz, stsc, co64 := true, chunkOffsets }
  | none =>
    let some chunkOffsets ← findBox stbl (kindOf "stco") | return none
    return some { stts, stsz, stsc, co64 := false, chunkOffsets }

namespace SampleBoxes

variable (b : SampleBoxes)

/-- The closure `size_of` (lines 1722–1729). -/
def sizeOf (uniform i : ℕ) : Option ℕ :=
  if uniform ≠ 0 then some uniform else u32At b.stsz (12 + i * 4)

/-- An entry of `stts`: the count and the delta (lines 1737–1739). -/
def sttsEntry (e : ℕ) : Option (ℕ × ℕ) := pairAt b.stts (8 + e * 8)

/-- The closure `stsc_entry` (lines 1749–1755). -/
def stscEntry (i : ℕ) : Option (ℕ × ℕ) := pairAt b.stsc (8 + i * 12)

/-- The closure `chunk_off` (lines 1757–1767). -/
def chunkOff (i : ℕ) : Option ℕ :=
  if b.co64 then u64At b.chunkOffsets (8 + i * 8) else u32At b.chunkOffsets (8 + i * 4)

end SampleBoxes

/-! ## Times -/

/-- `t * 1000 / timescale.max(1)`. -/
def ticksToMs (timescale t : ℕ) : ℕ := wrap (t * 1000) / max timescale 1

/-- The samples of a run: their times, and the time after them (lines 1740–1743). -/
def timesRun (timescale delta : ℕ) : (cnt t : ℕ) → List (ℕ × ℕ) × ℕ
  | 0, t => ([], t)
  | cnt + 1, t =>
    let (rest, stop) := timesRun timescale delta cnt (wrap (t + delta))
    ((ticksToMs timescale t, ticksToMs timescale delta) :: rest, stop)

/-- The loop over the runs of `stts` from entry `e` on (lines 1736–1744). -/
def timesLoop (b : SampleBoxes) (timescale : ℕ) : (left e t : ℕ) → Option (List (ℕ × ℕ))
  | 0, _, _ => some []
  | left + 1, e, t => do
    let (cnt, delta) ← b.sttsEntry e
    let (run, stop) := timesRun timescale delta cnt t
    return run ++ (← timesLoop b timescale left (e + 1) stop)

/-! ## Chunks -/

/-- The loop that goes on to the run of the chunk (lines 1773–1779); `left` are the entries behind
`entry`. -/
def advance (b : SampleBoxes) (chunk : ℕ) : (left entry : ℕ) → ℕ
  | 0, entry => entry
  | left + 1, entry =>
    if ((b.stscEntry (entry + 1)).map fun run => decide (run.1 ≤ chunk + 1)).getD false then
      advance b chunk left (entry + 1)
    else entry

/-- What the loop over the chunks reads. -/
structure ChunkInput where
  boxes : SampleBoxes
  uniform : ℕ
  count : ℕ
  chunkRuns : ℕ
  times : List (ℕ × ℕ)

variable (x : ChunkInput)

/-- The loop over the samples of a chunk (lines 1782–1791). -/
def fillChunk : (perChunk off sample : ℕ) → Option (List Sample)
  | 0, _, _ => some []
  | perChunk + 1, off, sample =>
    if x.count ≤ sample then some []
    else
      match x.times[sample]? with
      | none => some []
      | some (start, dur) => do
        let size ← x.boxes.sizeOf x.uniform sample
        return ⟨off, size, start, dur⟩ :: (← fillChunk perChunk (wrap (off + size)) (sample + 1))

/-- The loop over the chunks (lines 1772–1792). -/
def chunkLoop : (left chunk entry sample : ℕ) → Option (List Sample)
  | 0, _, _, _ => some []
  | left + 1, chunk, entry, sample => do
    let entry := advance x.boxes chunk (x.chunkRuns - (entry + 1)) entry
    let (_, perChunk) ← x.boxes.stscEntry entry
    let off ← x.boxes.chunkOff chunk
    let samples ← fillChunk x perChunk off sample
    return samples ++ (← chunkLoop left (chunk + 1) entry (sample + samples.length))

/-- The tables read (lines 1719–1793). -/
def SampleBoxes.samples (b : SampleBoxes) (timescale : ℕ) : Option (List Sample) := do
  let uniform ← u32At b.stsz 4
  let count ← u32At b.stsz 8
  let runs ← u32At b.stts 4
  let times ← timesLoop b timescale runs 0 0
  let chunkRuns ← u32At b.stsc 4
  let chunks ← u32At b.chunkOffsets 4
  chunkLoop { boxes := b, uniform, count, chunkRuns, times } chunks 0 0 0

/-- `mp4_sample_table`. -/
def mp4SampleTable (stbl : Bytes) (timescale : ℕ) : Except Stop (Option (List Sample)) := do
  match ← sampleBoxes stbl with
  | none => return none
  | some b => return b.samples timescale

/-! ## What the tables define -/

namespace SampleBoxes

variable (b : SampleBoxes)

/-- `stts` run by run. -/
def runs : List (ℕ × ℕ) := present b.sttsEntry ((u32At b.stts 4).getD 0) 0

/-- The duration of each sample that `stts` counts. -/
def deltas : List ℕ := expand b.runs

/-- `stsc` run by run. -/
def chunkRuns : List (ℕ × ℕ) := present b.stscEntry ((u32At b.stsc 4).getD 0) 0

/-- How many samples chunk `c`, from 0, has. -/
def perChunk (c : ℕ) : ℕ := (current b.chunkRuns (c + 1)).getD 0

/-- The number of the first sample of chunk `c`. -/
def firstSample (c : ℕ) : ℕ := firstOf b.perChunk c

/-- The number of samples that `stsz` states. -/
def count : ℕ := (u32At b.stsz 8).getD 0

/-- The number of chunks that is stated. -/
def chunks : ℕ := (u32At b.chunkOffsets 4).getD 0

/-- The size of a sample. -/
def size (i : ℕ) : Option ℕ := b.sizeOf ((u32At b.stsz 4).getD 0) i

/-- The sizes of the first `k` samples of chunk `c`. -/
def sizesBefore (c k : ℕ) : ℕ :=
  ((List.range k).map fun j => (b.size (b.firstSample c + j)).getD 0).sum

/-- Sample `i` is the `k`-th one of a chunk: it lies behind the samples before it in the chunk, and
is shown when those before it in the track are over. Times are scaled by `scale`. -/
inductive IsSample (scale : ℕ → ℕ) (i : ℕ) (s : Sample) : Prop
  | intro (c k off delta : ℕ) (chunk : c < b.chunks) (place : k < b.perChunk c)
      (number : i = b.firstSample c + k) (counted : i < b.count)
      (chunkOff : b.chunkOff c = some off) (offset : s.offset = off + b.sizesBefore c k)
      (size : b.size i = some s.size) (timed : b.deltas[i]? = some delta)
      (start : s.startMs = scale (RunTables.startOf b.deltas i)) (duration : s.durationMs = scale delta)

end SampleBoxes

theorem SampleBoxes.IsSample.counted {b : SampleBoxes} {scale : ℕ → ℕ} {i : ℕ} {s : Sample}
    (h : b.IsSample scale i s) : i < b.count := by
  obtain ⟨_, _, _, _, _, _, _, hi, _⟩ := h
  exact hi

/-- The definition gives one sample for each number. -/
theorem isSample_unique {b : SampleBoxes} {scale : ℕ → ℕ} {i : ℕ} {s s' : Sample}
    (h : b.IsSample scale i s) (h' : b.IsSample scale i s') : s = s' := by
  obtain ⟨c, k, off, delta, hc, hk, hi, -, hoff, hoffset, hsize, htimed, hstart, hdur⟩ := h
  obtain ⟨c', k', off', delta', hc', hk', hi', -, hoff', hoffset', hsize', htimed', hstart', hdur'⟩ :=
    h'
  obtain ⟨rfl, rfl⟩ := block_unique hk hk' (hi.symm.trans hi')
  obtain rfl : off = off' := Option.some.inj (hoff.symm.trans hoff')
  obtain rfl : delta = delta' := Option.some.inj (htimed.symm.trans htimed')
  obtain ⟨offset, size, start, dur⟩ := s
  obtain ⟨offset', size', start', dur'⟩ := s'
  have hsizes : size = size' := Option.some.inj (hsize.symm.trans hsize')
  simp only at hoffset hstart hdur hoffset' hstart' hdur'
  rw [hoffset, hoffset', hsizes, hstart, hstart', hdur, hdur']

/-- The run of a chunk is the last that begins at it or before. -/
theorem perChunk_eq {b : SampleBoxes} {c e : ℕ} {run : ℕ × ℕ}
    (hsorted : b.chunkRuns.Pairwise fun r r' => r.1 < r'.1) (hrun : b.chunkRuns[e]? = some run)
    (hbegun : run.1 ≤ c + 1) (hnext : ∀ r, b.chunkRuns[e + 1]? = some r → c + 1 < r.1) :
    b.perChunk c = run.2 := by
  rw [SampleBoxes.perChunk, current_eq hsorted hrun hbegun hnext, Option.getD_some]

/-! ## Entries -/

theorem pairAt_isSome {data : Bytes} {base : ℕ} :
    (pairAt data base).isSome ↔ base + 8 ≤ data.length := by
  have hfirst : (u32At data base).isSome ↔ _ := u32At_isSome
  have hsecond : (u32At data (base + 4)).isSome ↔ _ := u32At_isSome
  unfold pairAt
  cases h : u32At data base with
  | none =>
    rw [h] at hfirst
    simp only [Option.isSome_none, Bool.false_eq_true, false_iff] at hfirst
    simp only [bind, Option.bind, Option.isSome_none, Bool.false_eq_true, false_iff]
    omega
  | some first =>
    cases h' : u32At data (base + 4) with
    | none =>
      rw [h'] at hsecond
      simp only [Option.isSome_none, Bool.false_eq_true, false_iff] at hsecond
      simp only [bind, Option.bind, Option.isSome_none, Bool.false_eq_true, false_iff]
      omega
    | some second =>
      rw [h'] at hsecond
      simp only [Option.isSome_some, true_iff] at hsecond
      simp only [bind, Option.bind, pure, Option.isSome_some, true_iff]
      omega

theorem pairAt_lt {data : Bytes} {base : ℕ} {p : ℕ × ℕ} (h : pairAt data base = some p) :
    p.1 < 2 ^ 32 ∧ p.2 < 2 ^ 32 := by
  obtain ⟨first, hfirst, h⟩ := Option.bind_eq_some_iff.mp h
  obtain ⟨second, hsecond, h⟩ := Option.bind_eq_some_iff.mp h
  obtain rfl := Option.some.inj h
  exact ⟨u32At_lt hfirst, u32At_lt hsecond⟩

section
variable {b : SampleBoxes}

theorem getElem?_chunkRuns (i : ℕ) :
    b.chunkRuns[i]? = if i < (u32At b.stsc 4).getD 0 then b.stscEntry i else none := by
  have hdown : ∀ e, (b.stscEntry (e + 1)).isSome → (b.stscEntry e).isSome := by
    intro e he
    rw [SampleBoxes.stscEntry, pairAt_isSome] at he ⊢
    omega
  rw [SampleBoxes.chunkRuns, getElem?_present hdown, Nat.zero_add]

/-! ## Times -/

/-- The numbers of the tables stay below `2^64`: a thousand times a start, and an offset. -/
structure SampleBoxes.Fits (b : SampleBoxes) : Prop where
  times : ∀ i < b.deltas.length, RunTables.startOf b.deltas i * 1000 < 2 ^ 64
  offsets : ∀ c k off, c < b.chunks → k < b.perChunk c →
    b.firstSample c + k < min b.count b.deltas.length → b.chunkOff c = some off →
    off + b.sizesBefore c k < 2 ^ 64

/-- Milliseconds, rounded down. -/
def millis (timescale t : ℕ) : ℕ := t * 1000 / max timescale 1

/-- The start and the duration of each sample from `t` on. -/
def timesOf (timescale : ℕ) : (t : ℕ) → List ℕ → List (ℕ × ℕ)
  | _, [] => []
  | t, delta :: deltas =>
    (millis timescale t, millis timescale delta) :: timesOf timescale (t + delta) deltas

theorem getElem?_timesOf (timescale t : ℕ) (deltas : List ℕ) (i : ℕ) :
    (timesOf timescale t deltas)[i]? =
      deltas[i]?.map fun delta =>
        (millis timescale (t + RunTables.startOf deltas i), millis timescale delta) := by
  induction deltas generalizing t i with
  | nil => rfl
  | cons delta deltas ih =>
    cases i with
    | zero => rfl
    | succ i =>
      simp only [timesOf, List.getElem?_cons_succ, ih, startOf_cons]
      rw [Nat.add_assoc]

theorem length_timesOf (timescale t : ℕ) (deltas : List ℕ) :
    (timesOf timescale t deltas).length = deltas.length := by
  induction deltas generalizing t with
  | nil => rfl
  | cons delta deltas ih => simp only [timesOf, List.length_cons, ih]

theorem timesOf_append (timescale t : ℕ) (deltas deltas' : List ℕ) :
    timesOf timescale t (deltas ++ deltas') =
      timesOf timescale t deltas ++ timesOf timescale (t + deltas.sum) deltas' := by
  induction deltas generalizing t with
  | nil => rfl
  | cons delta deltas ih =>
    simp only [List.cons_append, timesOf, ih, List.sum_cons]
    rw [Nat.add_assoc]

theorem ticksToMs_eq {timescale t : ℕ} (h : t * 1000 < 2 ^ 64) :
    ticksToMs timescale t = millis timescale t := by
  rw [ticksToMs, wrap, Nat.mod_eq_of_lt h, millis]

/-- A run of samples whose starts fit. -/
theorem timesRun_eq (timescale : ℕ) {delta : ℕ} (hdelta : delta < 2 ^ 32) {cnt t : ℕ} (ht : t < 2 ^ 64)
    (hfits : ∀ k < cnt, (t + k * delta) * 1000 < 2 ^ 64) :
    timesRun timescale delta cnt t =
      (timesOf timescale t (List.replicate cnt delta), t + cnt * delta) ∧
      t + cnt * delta < 2 ^ 64 := by
  have hscaled : delta * 1000 < 2 ^ 64 := by omega
  induction cnt generalizing t with
  | zero =>
    rw [Nat.zero_mul, Nat.add_zero]
    exact ⟨rfl, ht⟩
  | succ cnt ih =>
    have hfirst : t * 1000 < 2 ^ 64 := by
      have := hfits 0 (Nat.succ_pos cnt)
      rwa [Nat.zero_mul, Nat.add_zero] at this
    have hnext : t + delta < 2 ^ 64 := by omega
    have hlast : t + (cnt + 1) * delta = t + delta + cnt * delta := by
      rw [Nat.succ_mul]
      omega
    have hrest : ∀ k < cnt, (t + delta + k * delta) * 1000 < 2 ^ 64 := by
      intro k hk
      have := hfits (k + 1) (Nat.succ_lt_succ hk)
      rwa [Nat.succ_mul, Nat.add_comm _ delta, ← Nat.add_assoc] at this
    obtain ⟨hrun, hstop⟩ := ih hnext hrest
    rw [hlast]
    refine ⟨?_, hstop⟩
    rw [timesRun, wrap, Nat.mod_eq_of_lt hnext, hrun, List.replicate_succ, timesOf,
      ticksToMs_eq hfirst, ticksToMs_eq hscaled]

/-- The loop reads the times of the samples. -/
theorem timesLoop_eq {timescale left e t : ℕ} {times : List (ℕ × ℕ)} (ht : t < 2 ^ 64)
    (hfits : ∀ i < (expand (present b.sttsEntry left e)).length,
      (t + RunTables.startOf (expand (present b.sttsEntry left e)) i) * 1000 < 2 ^ 64)
    (h : timesLoop b timescale left e t = some times) :
    times = timesOf timescale t (expand (present b.sttsEntry left e)) := by
  induction left generalizing e t times with
  | zero => exact (Option.some.inj h).symm
  | succ left ih =>
    obtain ⟨⟨cnt, delta⟩, hentry, h⟩ := Option.bind_eq_some_iff.mp h
    obtain ⟨rest, hrest, h⟩ := Option.bind_eq_some_iff.mp h
    obtain rfl := Option.some.inj h
    have hpresent : expand (present b.sttsEntry (left + 1) e) =
        List.replicate cnt delta ++ expand (present b.sttsEntry left (e + 1)) := by
      rw [present, hentry]
      rfl
    rw [hpresent] at hfits ⊢
    rw [List.length_append, List.length_replicate] at hfits
    have hstarts : ∀ k < cnt, (t + k * delta) * 1000 < 2 ^ 64 := by
      intro k hk
      have hstart := hfits k (by omega)
      rwa [startOf_replicate (Nat.le_of_lt hk)] at hstart
    obtain ⟨hrun, hstop⟩ := timesRun_eq timescale (pairAt_lt hentry).2 ht hstarts
    have hlater : ∀ i < (expand (present b.sttsEntry left (e + 1))).length,
        (t + cnt * delta + RunTables.startOf (expand (present b.sttsEntry left (e + 1))) i) * 1000 <
          2 ^ 64 := by
      intro i hi
      have hstart := hfits (cnt + i) (by omega)
      have hright := startOf_append_right (List.replicate cnt delta)
        (expand (present b.sttsEntry left (e + 1))) i
      rw [List.length_replicate, List.sum_replicate_nat] at hright
      rwa [hright, ← Nat.add_assoc] at hstart
    rw [hrun] at hrest ⊢
    rw [ih hstop hlater hrest, timesOf_append, List.sum_replicate_nat]

theorem timesLoop_isSome (timescale t : ℕ) {left e : ℕ}
    (h : (present b.sttsEntry left e).length = left) : (timesLoop b timescale left e t).isSome := by
  induction left generalizing e t with
  | zero => rfl
  | succ left ih =>
    cases hentry : b.sttsEntry e with
    | none =>
      simp only [present, hentry, List.length_nil] at h
      omega
    | some run =>
      simp only [present, hentry, List.length_cons] at h
      obtain ⟨rest, hrest⟩ := Option.isSome_iff_exists.mp
        (ih (timesRun timescale run.2 run.1 t).2 (e := e + 1) (by omega))
      simp [timesLoop, hentry, hrest]

/-! ## Chunks -/

theorem u32_claimed {i : ℕ} {run : ℕ × ℕ} (h : b.chunkRuns[i]? = some run) :
    i < (u32At b.stsc 4).getD 0 ∧ b.stscEntry i = some run := by
  rw [getElem?_chunkRuns] at h
  split_ifs at h with hi
  exact ⟨hi, h⟩

/-- The loop goes on to the run of the chunk. -/
theorem advance_eq {chunk left entry : ℕ} (hleft : left = (u32At b.stsc 4).getD 0 - (entry + 1))
    (hbegun : ∀ i < entry, ∃ run, b.chunkRuns[i + 1]? = some run ∧ run.1 ≤ chunk + 1) :
    advance b chunk left entry = cursor b.chunkRuns (chunk + 1) := by
  induction left generalizing entry with
  | zero =>
    refine (cursor_eq hbegun fun run hrun => ?_).symm
    have := (u32_claimed hrun).1
    omega
  | succ left ih =>
    have hclaimed : entry + 1 < (u32At b.stsc 4).getD 0 := by omega
    have hentry : b.chunkRuns[entry + 1]? = b.stscEntry (entry + 1) := by
      rw [getElem?_chunkRuns, if_pos hclaimed]
    unfold advance
    cases hnext : b.stscEntry (entry + 1) with
    | none =>
      refine (cursor_eq hbegun fun run hrun => ?_).symm
      rw [hentry, hnext] at hrun
      cases hrun
    | some run =>
      rw [hnext] at hentry
      by_cases hle : run.1 ≤ chunk + 1
      · rw [if_pos (by simpa using hle)]
        refine ih (by omega) fun i hi => ?_
        rcases Nat.lt_succ_iff_lt_or_eq.mp hi with hi | rfl
        · exact hbegun i hi
        · exact ⟨run, hentry, hle⟩
      · rw [if_neg (by simpa using hle)]
        refine (cursor_eq hbegun fun run' hrun' => ?_).symm
        obtain rfl := Option.some.inj (hentry.symm.trans hrun')
        omega

/-- What the loop over the chunks is given. -/
def SampleBoxes.input (b : SampleBoxes) (timescale : ℕ) : ChunkInput where
  boxes := b
  uniform := (u32At b.stsz 4).getD 0
  count := b.count
  chunkRuns := (u32At b.stsc 4).getD 0
  times := timesOf timescale 0 b.deltas

/-- The samples that both `stsz` and `stts` have. -/
def SampleBoxes.limit (b : SampleBoxes) : ℕ := min b.count b.deltas.length

theorem sizesBefore_succ (c k : ℕ) :
    b.sizesBefore c (k + 1) = b.sizesBefore c k + (b.size (b.firstSample c + k)).getD 0 := by
  simp [SampleBoxes.sizesBefore, List.range_succ]

variable {timescale : ℕ}

/-- Behind the limit a chunk has no samples. -/
theorem fillChunk_of_le {left off sample : ℕ} (h : b.limit ≤ sample) :
    fillChunk (b.input timescale) left off sample = some [] := by
  cases left with
  | zero => rfl
  | succ left =>
    unfold fillChunk
    by_cases hcount : b.count ≤ sample
    · exact if_pos hcount
    · have hnone : (b.input timescale).times[sample]? = none := by
        refine List.getElem?_eq_none ?_
        show (timesOf timescale 0 b.deltas).length ≤ sample
        rw [length_timesOf]
        unfold SampleBoxes.limit at h
        omega
      have hnot : ¬(b.input timescale).count ≤ sample := hcount
      rw [if_neg hnot, hnone]

/-- Before the limit there is a next sample. -/
theorem fillChunk_succ (timescale left off : ℕ) {sample : ℕ} (h : sample < b.limit) :
    ∃ delta, b.deltas[sample]? = some delta ∧
      fillChunk (b.input timescale) (left + 1) off sample = (b.size sample).bind fun size =>
        (fillChunk (b.input timescale) left (wrap (off + size)) (sample + 1)).map
          (⟨off, size, millis timescale (RunTables.startOf b.deltas sample),
            millis timescale delta⟩ :: ·) := by
  have hcount : ¬b.count ≤ sample := by
    unfold SampleBoxes.limit at h
    omega
  have htimed : sample < b.deltas.length := by
    unfold SampleBoxes.limit at h
    omega
  have hdelta := List.getElem?_eq_getElem htimed
  refine ⟨_, hdelta, ?_⟩
  have htimes : (b.input timescale).times[sample]? =
      some (millis timescale (RunTables.startOf b.deltas sample), millis timescale b.deltas[sample]) := by
    show (timesOf timescale 0 b.deltas)[sample]? = _
    rw [getElem?_timesOf, hdelta, Option.map_some, Nat.zero_add]
  have hnot : ¬(b.input timescale).count ≤ sample := hcount
  rw [fillChunk, if_neg hnot, htimes]
  show ((b.size sample).bind fun size => (fillChunk (b.input timescale) left (wrap (off + size))
    (sample + 1)).bind fun rest => some (_ :: rest)) = _
  cases b.size sample with
  | none => rfl
  | some size =>
    cases hrest : fillChunk (b.input timescale) left (wrap (off + size)) (sample + 1) with
    | none => simp [hrest]
    | some rest => simp [hrest]

/-- What is returned for a chunk are its samples up to the limit. -/
theorem fillChunk_sound (hfits : b.Fits) {c off₀ : ℕ} (hc : c < b.chunks)
    (hoff : b.chunkOff c = some off₀) {left k sample off : ℕ} (hk : k + left = b.perChunk c)
    (hsample : sample = b.firstSample c + k)
    (hoffset : sample < b.limit → left ≠ 0 → off = off₀ + b.sizesBefore c k) {samples : List Sample}
    (h : fillChunk (b.input timescale) left off sample = some samples) :
    samples.length = min left (b.limit - sample) ∧
      ∀ (m : ℕ) (s : Sample), samples[m]? = some s → b.IsSample (millis timescale) (sample + m) s := by
  induction left generalizing k sample off samples with
  | zero =>
    obtain rfl : [] = samples := Option.some.inj h
    exact ⟨by simp, fun m s hs => by cases hs⟩
  | succ left ih =>
    by_cases hlimit : b.limit ≤ sample
    · rw [fillChunk_of_le hlimit] at h
      obtain rfl : [] = samples := Option.some.inj h
      refine ⟨?_, fun m s hs => by cases hs⟩
      rw [Nat.sub_eq_zero_of_le hlimit, Nat.min_zero]
      rfl
    · have hlt : sample < b.limit := by omega
      obtain ⟨delta, hdelta, hsucc⟩ := fillChunk_succ timescale left off hlt
      rw [hsucc] at h
      obtain ⟨size, hsize, h⟩ := Option.bind_eq_some_iff.mp h
      obtain ⟨rest, hrest, rfl⟩ := Option.map_eq_some_iff.mp h
      have hexact : off = off₀ + b.sizesBefore c k := hoffset hlt (Nat.succ_ne_zero left)
      have hnext : sample + 1 < b.limit → left ≠ 0 →
          wrap (off + size) = off₀ + b.sizesBefore c (k + 1) := by
        intro hlimit' hleft
        have hbound := hfits.offsets c (k + 1) off₀ hc (by omega)
          (by unfold SampleBoxes.limit at hlimit'; omega) hoff
        have hsum : off + size = off₀ + b.sizesBefore c (k + 1) := by
          rw [sizesBefore_succ, ← hsample, hsize, Option.getD_some, hexact, Nat.add_assoc]
        rw [wrap, hsum, Nat.mod_eq_of_lt hbound]
      obtain ⟨hlength, hsound⟩ := ih (by omega) (by omega) hnext hrest
      refine ⟨by rw [List.length_cons, hlength]; omega, fun m s hs => ?_⟩
      cases m with
      | zero =>
        obtain rfl := Option.some.inj hs
        refine ⟨c, k, off₀, delta, hc, by omega, hsample, ?_, hoff, hexact, hsize, hdelta, rfl, rfl⟩
        unfold SampleBoxes.limit at hlt
        omega
      | succ m =>
        rw [List.getElem?_cons_succ] at hs
        have := hsound m s hs
        rwa [Nat.add_assoc, Nat.add_comm 1 m] at this

theorem fillChunk_isSome (timescale : ℕ) (hsizes : ∀ i < b.limit, (b.size i).isSome)
    (left off sample : ℕ) :
    (fillChunk (b.input timescale) left off sample).isSome := by
  induction left generalizing off sample with
  | zero => rfl
  | succ left ih =>
    by_cases hlimit : b.limit ≤ sample
    · rw [fillChunk_of_le hlimit]
      rfl
    · have hlt : sample < b.limit := by omega
      obtain ⟨delta, -, hsucc⟩ := fillChunk_succ timescale left off hlt
      obtain ⟨size, hsize⟩ := Option.isSome_iff_exists.mp (hsizes sample hlt)
      rw [hsucc, hsize, Option.bind_some, Option.isSome_map]
      exact ih _ _

/-- The run that the loop finds for a chunk. -/
theorem stscEntry_cursor {c : ℕ} (hruns : 0 < (u32At b.stsc 4).getD 0) :
    (b.stscEntry (cursor b.chunkRuns (c + 1))).map Prod.snd = current b.chunkRuns (c + 1) := by
  have hclaimed : cursor b.chunkRuns (c + 1) < (u32At b.stsc 4).getD 0 := by
    rcases Nat.eq_zero_or_pos (cursor b.chunkRuns (c + 1)) with hzero | hpos
    · omega
    · obtain ⟨run, hrun, -⟩ := cursor_begun (Nat.sub_lt hpos Nat.one_pos)
      rw [Nat.sub_add_cancel hpos] at hrun
      exact (u32_claimed hrun).1
  rw [current, getElem?_chunkRuns, if_pos hclaimed]

/-- What is returned from chunk `c` on are the samples up to the limit. -/
theorem chunkLoop_sound (hfits : b.Fits) {left c entry sample : ℕ} (hleft : c + left = b.chunks)
    (hruns : 0 < left → 0 < (u32At b.stsc 4).getD 0)
    (hbegun : ∀ i < entry, ∃ run, b.chunkRuns[i + 1]? = some run ∧ run.1 ≤ c + 1)
    (hsample : sample = min (b.firstSample c) b.limit) {samples : List Sample}
    (h : chunkLoop (b.input timescale) left c entry sample = some samples) :
    samples.length = min (b.firstSample b.chunks) b.limit - sample ∧
      ∀ (m : ℕ) (s : Sample), samples[m]? = some s → b.IsSample (millis timescale) (sample + m) s := by
  induction left generalizing c entry sample samples with
  | zero =>
    obtain rfl : [] = samples := Option.some.inj h
    obtain rfl : c = b.chunks := hleft
    exact ⟨by rw [hsample, Nat.sub_self]; rfl, fun m s hs => by cases hs⟩
  | succ left ih =>
    unfold chunkLoop at h
    dsimp only at h
    have hadvance : advance (b.input timescale).boxes c
        ((b.input timescale).chunkRuns - (entry + 1)) entry = cursor b.chunkRuns (c + 1) :=
      advance_eq rfl hbegun
    rw [hadvance] at h
    obtain ⟨⟨first, per⟩, hrun, h⟩ := Option.bind_eq_some_iff.mp h
    obtain ⟨off, hoff, h⟩ := Option.bind_eq_some_iff.mp h
    obtain ⟨here, hhere, h⟩ := Option.bind_eq_some_iff.mp h
    obtain ⟨rest, hrest, h⟩ := Option.bind_eq_some_iff.mp h
    obtain rfl : here ++ rest = samples := Option.some.inj h
    have hper : per = b.perChunk c := by
      have hcurrent := stscEntry_cursor (c := c) (hruns (Nat.succ_pos left))
      have hrun' : b.stscEntry (cursor b.chunkRuns (c + 1)) = some (first, per) := hrun
      rw [hrun', Option.map_some] at hcurrent
      rw [SampleBoxes.perChunk, ← hcurrent, Option.getD_some]
    have hnextFirst : b.firstSample (c + 1) = b.firstSample c + per := by
      rw [SampleBoxes.firstSample, firstOf_succ, ← hper]
      rfl
    -- a chunk behind the limit has no samples, and the number stays at the limit
    obtain ⟨hlength, hsound⟩ : here.length = min per (b.limit - sample) ∧
        ∀ (m : ℕ) (s : Sample), here[m]? = some s →
          b.IsSample (millis timescale) (sample + m) s := by
      by_cases hbehind : b.limit ≤ sample
      · rw [fillChunk_of_le hbehind] at hhere
        obtain rfl : [] = here := Option.some.inj hhere
        refine ⟨?_, fun m s hs => by cases hs⟩
        rw [Nat.sub_eq_zero_of_le hbehind, Nat.min_zero]
        rfl
      · have hfirst : sample = b.firstSample c := by omega
        exact fillChunk_sound hfits (by omega) hoff (k := 0) (by rw [Nat.zero_add, hper])
          (by rw [Nat.add_zero, hfirst]) (fun _ _ => by simp [SampleBoxes.sizesBefore]) hhere
    have hbegun' : ∀ i < cursor b.chunkRuns (c + 1), ∃ run, b.chunkRuns[i + 1]? = some run ∧
        run.1 ≤ c + 1 + 1 := by
      intro i hi
      obtain ⟨run, hrun, hle⟩ := cursor_begun hi
      exact ⟨run, hrun, by omega⟩
    obtain ⟨hlength', hsound'⟩ := ih (c := c + 1) (by omega)
      (fun _ => hruns (Nat.succ_pos left)) hbegun'
      (by rw [hlength, hnextFirst, hsample]; omega) hrest
    refine ⟨?_, fun m s hs => ?_⟩
    · rw [List.length_append, hlength', hlength]
      have hmono : b.firstSample (c + 1) ≤ b.firstSample b.chunks := firstOf_le (by omega)
      omega
    · rcases Nat.lt_or_ge m here.length with hm | hm
      · rw [List.getElem?_append_left hm] at hs
        exact hsound m s hs
      · rw [List.getElem?_append_right hm] at hs
        have := hsound' (m - here.length) s hs
        rwa [Nat.add_assoc, Nat.add_sub_cancel' hm] at this

/-- Tables that agree: none is cut off, every chunk and every sample is there, and the three
counts of samples are the same. -/
structure SampleBoxes.Agree (b : SampleBoxes) : Prop where
  headers : (u32At b.stts 4).isSome ∧ (u32At b.stsz 4).isSome ∧ (u32At b.stsz 8).isSome ∧
    (u32At b.stsc 4).isSome ∧ (u32At b.chunkOffsets 4).isSome
  runs : b.runs.length = (u32At b.stts 4).getD 0
  chunkRuns : b.chunkRuns.length = (u32At b.stsc 4).getD 0
  begins : 0 < b.chunks → b.chunkRuns ≠ []
  offsets : ∀ c < b.chunks, (b.chunkOff c).isSome
  sizes : ∀ i < b.count, (b.size i).isSome
  timed : b.deltas.length = b.count
  placed : b.firstSample b.chunks = b.count

theorem chunkLoop_isSome (timescale : ℕ) (h : b.Agree) {left c entry : ℕ} (sample : ℕ)
    (hleft : c + left = b.chunks)
    (hbegun : ∀ i < entry, ∃ run, b.chunkRuns[i + 1]? = some run ∧ run.1 ≤ c + 1) :
    (chunkLoop (b.input timescale) left c entry sample).isSome := by
  induction left generalizing c entry sample with
  | zero => rfl
  | succ left ih =>
    have hruns : 0 < (u32At b.stsc 4).getD 0 := by
      rw [← h.chunkRuns]
      exact List.length_pos_of_ne_nil (h.begins (by omega))
    have hcursor : cursor b.chunkRuns (c + 1) < b.chunkRuns.length := by
      rcases Nat.eq_zero_or_pos (cursor b.chunkRuns (c + 1)) with hzero | hpos
      · rw [hzero, h.chunkRuns]
        exact hruns
      · obtain ⟨run, hrun, -⟩ := cursor_begun (Nat.sub_lt hpos Nat.one_pos)
        rw [Nat.sub_add_cancel hpos] at hrun
        exact (List.getElem?_eq_some_iff.mp hrun).1
    have hrun := (u32_claimed (List.getElem?_eq_getElem hcursor)).2
    obtain ⟨off, hoff⟩ := Option.isSome_iff_exists.mp (h.offsets c (by omega))
    have hsizes : ∀ i < b.limit, (b.size i).isSome := fun i hi =>
      h.sizes i (Nat.lt_of_lt_of_le hi (Nat.min_le_left _ _))
    obtain ⟨here, hhere⟩ := Option.isSome_iff_exists.mp (fillChunk_isSome timescale hsizes
      b.chunkRuns[cursor b.chunkRuns (c + 1)].2 off sample)
    have hadvance : advance (b.input timescale).boxes c
        ((b.input timescale).chunkRuns - (entry + 1)) entry = cursor b.chunkRuns (c + 1) :=
      advance_eq rfl hbegun
    have hbegun' : ∀ i < cursor b.chunkRuns (c + 1), ∃ run, b.chunkRuns[i + 1]? = some run ∧
        run.1 ≤ c + 1 + 1 := by
      intro i hi
      obtain ⟨run, hrun, hle⟩ := cursor_begun hi
      exact ⟨run, hrun, by omega⟩
    obtain ⟨rest, hrest⟩ := Option.isSome_iff_exists.mp
      (ih (sample + here.length) (by omega) hbegun')
    have hrun' : (b.input timescale).boxes.stscEntry (cursor b.chunkRuns (c + 1)) = some _ := hrun
    have hoff' : (b.input timescale).boxes.chunkOff c = some off := hoff
    unfold chunkLoop
    simp only [hadvance, hrun', hoff', hhere, hrest, Option.bind_eq_bind, Option.bind_some,
      Option.pure_def, Option.isSome_some]

/-! ## The table -/

/-- The times that are read are those that `stts` defines. -/
theorem times_eq (hfits : b.Fits) {runs : ℕ} (hruns : u32At b.stts 4 = some runs)
    {times : List (ℕ × ℕ)} (h : timesLoop b timescale runs 0 0 = some times) :
    times = timesOf timescale 0 b.deltas := by
  have hdeltas : b.deltas = expand (present b.sttsEntry runs 0) := by
    rw [SampleBoxes.deltas, SampleBoxes.runs, hruns, Option.getD_some]
  rw [hdeltas]
  refine timesLoop_eq (by omega) (fun i hi => ?_) h
  rw [← hdeltas] at hi ⊢
  rw [Nat.zero_add]
  exact hfits.times i hi

/-- A table that is returned was read by the loop over the chunks. -/
theorem samples_eq (hfits : b.Fits) {samples : List Sample}
    (h : b.samples timescale = some samples) :
    chunkLoop (b.input timescale) b.chunks 0 0 0 = some samples := by
  obtain ⟨uniform, huniform, h⟩ := Option.bind_eq_some_iff.mp h
  obtain ⟨count, hcount, h⟩ := Option.bind_eq_some_iff.mp h
  obtain ⟨runs, hruns, h⟩ := Option.bind_eq_some_iff.mp h
  obtain ⟨times, htimes, h⟩ := Option.bind_eq_some_iff.mp h
  obtain ⟨chunkRuns, hchunkRuns, h⟩ := Option.bind_eq_some_iff.mp h
  obtain ⟨chunks, hchunks, h⟩ := Option.bind_eq_some_iff.mp h
  rw [SampleBoxes.input, SampleBoxes.count, SampleBoxes.chunks, huniform, hcount, hchunkRuns, hchunks,
    ← times_eq hfits hruns htimes]
  exact h

/-- Where no table is cut off, the table is what the loop over the chunks reads. -/
theorem samples_of_agree (hfits : b.Fits) (h : b.Agree) :
    b.samples timescale = chunkLoop (b.input timescale) b.chunks 0 0 0 := by
  obtain ⟨hstts, huniform, hcount, hstsc, hchunks⟩ := h.headers
  obtain ⟨runs, hruns⟩ := Option.isSome_iff_exists.mp hstts
  obtain ⟨uniform, huniform⟩ := Option.isSome_iff_exists.mp huniform
  obtain ⟨count, hcount⟩ := Option.isSome_iff_exists.mp hcount
  obtain ⟨chunkRuns, hstsc⟩ := Option.isSome_iff_exists.mp hstsc
  obtain ⟨chunks, hchunks⟩ := Option.isSome_iff_exists.mp hchunks
  have hwhole : (present b.sttsEntry runs 0).length = runs := by
    have := h.runs
    rwa [SampleBoxes.runs, hruns, Option.getD_some] at this
  obtain ⟨times, htimes⟩ := Option.isSome_iff_exists.mp (timesLoop_isSome timescale 0 hwhole)
  unfold SampleBoxes.samples
  simp only [huniform, hcount, hruns, htimes, hstsc, hchunks, Option.bind_eq_bind, Option.bind_some]
  rw [SampleBoxes.input, SampleBoxes.count, SampleBoxes.chunks, huniform, hcount, hstsc, hchunks,
    ← times_eq hfits hruns htimes]
  rfl

/-- What is returned begins with the samples that the tables define. -/
theorem sampleTable_sound (hfits : b.Fits) (hruns : 0 < b.chunks → 0 < (u32At b.stsc 4).getD 0)
    {samples : List Sample} (h : b.samples timescale = some samples) :
    samples.length = min (b.firstSample b.chunks) b.limit ∧
      ∀ (i : ℕ) (s : Sample), samples[i]? = some s → b.IsSample (millis timescale) i s := by
  obtain ⟨hlength, hsound⟩ := chunkLoop_sound hfits (Nat.zero_add _) hruns
    (fun i hi => absurd hi (Nat.not_lt_zero i))
    (by rw [SampleBoxes.firstSample, firstOf_zero, Nat.zero_min]) (samples_eq hfits h)
  refine ⟨hlength, fun i s hs => ?_⟩
  rw [← Nat.zero_add i]
  exact hsound i s hs

/-- Of tables that agree it is all of them. -/
theorem sampleTable_complete (timescale : ℕ) (hfits : b.Fits) (hagree : b.Agree) :
    ∃ samples, b.samples timescale = some samples ∧ samples.length = b.count ∧
      ∀ (i : ℕ) (s : Sample), samples[i]? = some s ↔ b.IsSample (millis timescale) i s := by
  obtain ⟨samples, hsamples⟩ := Option.isSome_iff_exists.mp (chunkLoop_isSome timescale hagree 0
    (Nat.zero_add b.chunks) fun i hi => absurd hi (Nat.not_lt_zero i))
  rw [← samples_of_agree hfits hagree] at hsamples
  have hruns : 0 < b.chunks → 0 < (u32At b.stsc 4).getD 0 := by
    intro hpos
    rw [← hagree.chunkRuns]
    exact List.length_pos_of_ne_nil (hagree.begins hpos)
  obtain ⟨hlength, hsound⟩ := sampleTable_sound hfits hruns hsamples
  have hcount : samples.length = b.count := by
    rw [hlength, hagree.placed, SampleBoxes.limit, hagree.timed, Nat.min_self, Nat.min_self]
  refine ⟨samples, hsamples, hcount, fun i s => ⟨hsound i s, fun hs => ?_⟩⟩
  have hi : i < samples.length := by
    rw [hcount]
    exact hs.counted
  have hthere := List.getElem?_eq_getElem hi
  rw [isSample_unique hs (hsound i _ hthere), hthere]

end

end Kahawai.Media.Subindex
