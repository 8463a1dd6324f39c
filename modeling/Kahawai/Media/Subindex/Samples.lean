import Kahawai.Media.Subindex.SampleTable

/-!
# The samples of an MP4 track

`mp4_sample_table` (`crates/kahawai-media/src/subindex.rs`, lines 1709–1794) on the bytes of a
`stbl`: which samples it returns, and how often its loops turn.

Results:
* `turns_le`: the loops turn as often as the tables have bytes and `stts` counts samples.
* `sampleBoxes_encode`: the tables are found in boxes one after the other.
* `mp4SampleTable_samples`: of tables that agree the samples are returned; of others, a beginning.
-/

namespace Kahawai.Media.Subindex

open Kahawai.Lib Kahawai.Lib.RunTables

variable {b : SampleBoxes}

/-! ## Turns -/

/-- The turns of the two loops over `stts`. -/
def timesTurns (b : SampleBoxes) : (left e : ℕ) → ℕ
  | 0, _ => 0
  | left + 1, e =>
    match b.sttsEntry e with
    | none => 1
    | some (cnt, _) => 1 + cnt + timesTurns b left (e + 1)

/-- The turns of the loop over the samples of a chunk; the last one may end the loop. -/
def fillTurns (x : ChunkInput) : (perChunk sample : ℕ) → ℕ
  | 0, _ => 0
  | perChunk + 1, sample =>
    if x.count ≤ sample ∨ x.times.length ≤ sample ∨ (x.boxes.sizeOf x.uniform sample).isNone then 1
    else 1 + fillTurns x perChunk (sample + 1)

/-- The turns of the loop over the chunks and of those in it. -/
def chunkTurns (x : ChunkInput) : (left chunk entry sample : ℕ) → ℕ
  | 0, _, _, _ => 0
  | left + 1, chunk, entry, sample =>
    let next := advance x.boxes chunk (x.chunkRuns - (entry + 1)) entry
    1 + (next - entry) +
      match x.boxes.stscEntry next, x.boxes.chunkOff chunk with
      | some (_, perChunk), some off =>
        fillTurns x perChunk sample +
          match fillChunk x perChunk off sample with
          | some samples => chunkTurns x left (chunk + 1) next (sample + samples.length)
          | none => 0
      | _, _ => 0

/-- The turns of all loops of `mp4_sample_table`. -/
def SampleBoxes.turns (b : SampleBoxes) (timescale : ℕ) : ℕ :=
  match u32At b.stsz 4, u32At b.stsz 8, u32At b.stts 4 with
  | some uniform, some count, some runs =>
    timesTurns b runs 0 +
      match timesLoop b timescale runs 0 0, u32At b.stsc 4, u32At b.chunkOffsets 4 with
      | some times, some chunkRuns, some chunks =>
        chunkTurns { boxes := b, uniform, count, chunkRuns, times } chunks 0 0 0
      | _, _, _ => 0
  | _, _, _ => 0

theorem timesTurns_le {left e : ℕ} (he : e ≤ b.stts.length) :
    timesTurns b left e + e ≤ b.stts.length + (expand (present b.sttsEntry left e)).length + 1 := by
  induction left generalizing e with
  | zero =>
    rw [timesTurns]
    omega
  | succ left ih =>
    unfold timesTurns present
    cases hentry : b.sttsEntry e with
    | none =>
      simp only [expand_nil, List.length_nil]
      omega
    | some run =>
      have hthere : (pairAt b.stts (8 + e * 8)).isSome := Option.isSome_of_eq_some hentry
      rw [pairAt_isSome] at hthere
      have := ih (e := e + 1) (by omega)
      simp only [expand_cons, List.length_append, List.length_replicate]
      omega

theorem length_timesRun (timescale delta cnt t : ℕ) :
    (timesRun timescale delta cnt t).1.length = cnt := by
  induction cnt generalizing t with
  | zero => rfl
  | succ cnt ih => simp only [timesRun, List.length_cons, ih]

theorem length_timesLoop {left e t : ℕ} {times : List (ℕ × ℕ)}
    (h : timesLoop b timescale left e t = some times) :
    times.length = (expand (present b.sttsEntry left e)).length := by
  induction left generalizing e t times with
  | zero =>
    obtain rfl := Option.some.inj h
    rfl
  | succ left ih =>
    obtain ⟨⟨cnt, delta⟩, hentry, h⟩ := Option.bind_eq_some_iff.mp h
    obtain ⟨rest, hrest, h⟩ := Option.bind_eq_some_iff.mp h
    obtain rfl := Option.some.inj h
    rw [present, hentry]
    simp only [expand_cons, List.length_append, List.length_replicate, length_timesRun, ih hrest]

/-- The loop goes on only to entries that are there. -/
theorem advance_bounds (chunk left : ℕ) {entry : ℕ} (h : entry ≤ b.stsc.length) :
    entry ≤ advance b chunk left entry ∧ advance b chunk left entry ≤ b.stsc.length := by
  induction left generalizing entry with
  | zero => exact ⟨Nat.le_refl _, h⟩
  | succ left ih =>
    unfold advance
    cases hnext : b.stscEntry (entry + 1) with
    | none => exact ⟨Nat.le_refl _, h⟩
    | some run =>
      have hthere : (pairAt b.stsc (8 + (entry + 1) * 12)).isSome := Option.isSome_of_eq_some hnext
      rw [pairAt_isSome] at hthere
      split_ifs
      · obtain ⟨hle, hbound⟩ := @ih (entry + 1) (by omega)
        exact ⟨by omega, hbound⟩
      · exact ⟨Nat.le_refl _, h⟩

section
variable {x : ChunkInput}

theorem fillTurns_le (perChunk : ℕ) {sample : ℕ} (h : sample ≤ x.times.length) :
    fillTurns x perChunk sample + sample ≤ x.times.length + 1 := by
  induction perChunk generalizing sample with
  | zero =>
    rw [fillTurns]
    omega
  | succ perChunk ih =>
    unfold fillTurns
    split_ifs with hstop
    · omega
    · have := @ih (sample + 1) (by omega)
      omega

/-- A chunk that is filled takes one turn more than it has samples, at most. -/
theorem fillTurns_of_some {perChunk off sample : ℕ} {samples : List Sample}
    (hsample : sample ≤ x.times.length) (h : fillChunk x perChunk off sample = some samples) :
    fillTurns x perChunk sample ≤ samples.length + 1 ∧
      sample + samples.length ≤ x.times.length := by
  induction perChunk generalizing off sample samples with
  | zero =>
    obtain rfl : [] = samples := Option.some.inj h
    exact ⟨Nat.zero_le _, hsample⟩
  | succ perChunk ih =>
    unfold fillChunk at h
    unfold fillTurns
    by_cases hcount : x.count ≤ sample
    · rw [if_pos hcount] at h
      obtain rfl := Option.some.inj h
      rw [if_pos (Or.inl hcount)]
      exact ⟨Nat.le_refl _, hsample⟩
    · rw [if_neg hcount] at h
      cases htime : x.times[sample]? with
      | none =>
        rw [htime] at h
        obtain rfl := Option.some.inj h
        rw [if_pos (Or.inr (Or.inl (List.getElem?_eq_none_iff.mp htime)))]
        exact ⟨Nat.le_refl _, hsample⟩
      | some time =>
        rw [htime] at h
        obtain ⟨size, hsize, h⟩ := Option.bind_eq_some_iff.mp h
        obtain ⟨rest, hrest, h⟩ := Option.bind_eq_some_iff.mp h
        obtain rfl := Option.some.inj h
        have hlt : sample < x.times.length := (List.getElem?_eq_some_iff.mp htime).1
        obtain ⟨hturns, hlength⟩ := @ih _ (sample + 1) _ hlt hrest
        have hgoes : ¬(x.count ≤ sample ∨ x.times.length ≤ sample ∨
            (x.boxes.sizeOf x.uniform sample).isNone) := by
          rw [hsize, Option.isNone_some]
          rintro (hle | hle | hnone)
          · exact hcount hle
          · omega
          · cases hnone
        rw [if_neg hgoes, List.length_cons]
        omega

theorem chunkTurns_le {left chunk entry sample : ℕ} (hchunk : chunk ≤ x.boxes.chunkOffsets.length)
    (hentry : entry ≤ x.boxes.stsc.length) (hsample : sample ≤ x.times.length) :
    chunkTurns x left chunk entry sample + entry + sample + 2 * chunk ≤
      x.boxes.stsc.length + x.times.length + 2 * x.boxes.chunkOffsets.length + 2 := by
  induction left generalizing chunk entry sample with
  | zero =>
    rw [chunkTurns]
    omega
  | succ left ih =>
    obtain ⟨hle, hbound⟩ := advance_bounds (b := x.boxes) chunk (x.chunkRuns - (entry + 1)) hentry
    unfold chunkTurns
    dsimp only
    generalize advance x.boxes chunk (x.chunkRuns - (entry + 1)) entry = next at hle hbound ⊢
    cases x.boxes.stscEntry next with
    | none =>
      dsimp only
      omega
    | some run =>
      cases hoff : x.boxes.chunkOff chunk with
      | none =>
        dsimp only
        omega
      | some off =>
        have hthere : chunk + 1 ≤ x.boxes.chunkOffsets.length := by
          have hsome := Option.isSome_of_eq_some hoff
          unfold SampleBoxes.chunkOff at hsome
          split_ifs at hsome
          · rw [u64At_isSome] at hsome
            omega
          · rw [u32At_isSome] at hsome
            omega
        cases hfill : fillChunk x run.2 off sample with
        | none =>
          have := fillTurns_le run.2 hsample
          simp only [hfill]
          omega
        | some samples =>
          obtain ⟨hturns, hlength⟩ := fillTurns_of_some hsample hfill
          have := ih hthere hbound hlength
          simp only [hfill]
          omega

end

/-- The loops turn as often as the tables have bytes and `stts` counts samples. -/
theorem turns_le (b : SampleBoxes) (timescale : ℕ) :
    b.turns timescale ≤
      b.stts.length + b.stsc.length + 2 * b.chunkOffsets.length + 2 * b.deltas.length + 3 := by
  unfold SampleBoxes.turns
  cases u32At b.stsz 4 with
  | none => exact Nat.zero_le _
  | some uniform =>
    cases u32At b.stsz 8 with
    | none => exact Nat.zero_le _
    | some count =>
      cases hruns : u32At b.stts 4 with
      | none => exact Nat.zero_le _
      | some runs =>
        have hdeltas : b.deltas = expand (present b.sttsEntry runs 0) := by
          rw [SampleBoxes.deltas, SampleBoxes.runs, hruns, Option.getD_some]
        have hread := @timesTurns_le b runs 0 (Nat.zero_le _)
        rw [← hdeltas] at hread
        cases htimes : timesLoop b timescale runs 0 0 with
        | none =>
          simp only [htimes]
          omega
        | some times =>
          have hlength := length_timesLoop htimes
          rw [← hdeltas] at hlength
          cases u32At b.stsc 4 with
          | none =>
            simp only [htimes]
            omega
          | some chunkRuns =>
            cases u32At b.chunkOffsets 4 with
            | none =>
              simp only [htimes]
              omega
            | some chunks =>
              have hfill := @chunkTurns_le { boxes := b, uniform, count, chunkRuns, times } chunks 0 0 0
                (Nat.zero_le _) (Nat.zero_le _) (Nat.zero_le _)
              simp only [htimes] at hfill ⊢
              omega

/-! ## The samples of a track -/

/-- The boxes one after the other. -/
def SampleBoxes.encode (b : SampleBoxes) : Bytes :=
  [(kindOf "stts", b.stts), (kindOf "stsz", b.stsz), (kindOf "stsc", b.stsc),
    (if b.co64 then kindOf "co64" else kindOf "stco", b.chunkOffsets)].flatMap encodeBox

theorem sampleBoxes_encode (hstts : 8 + b.stts.length < 2 ^ 32) (hstsz : 8 + b.stsz.length < 2 ^ 32)
    (hstsc : 8 + b.stsc.length < 2 ^ 32) (hoffsets : 8 + b.chunkOffsets.length < 2 ^ 32) :
    sampleBoxes b.encode = .ok (some b) := by
  have hwidth : ∀ kind ∈ [kindOf "stts", kindOf "stsz", kindOf "stsc", kindOf "co64", kindOf "stco"],
      kind.length = 4 := by decide
  simp only [List.forall_mem_cons] at hwidth
  obtain ⟨w₁, w₂, w₃, w₄, w₅, -⟩ := hwidth
  have hkind : (if b.co64 then kindOf "co64" else kindOf "stco").length = 4 := by
    split_ifs
    · exact w₄
    · exact w₅
  have hboxes : ∀ box ∈ [(kindOf "stts", b.stts), (kindOf "stsz", b.stsz), (kindOf "stsc", b.stsc),
      (if b.co64 then kindOf "co64" else kindOf "stco", b.chunkOffsets)], IsBox box := by
    simp only [List.forall_mem_cons, IsBox]
    exact ⟨⟨w₁, hstts⟩, ⟨w₂, hstsz⟩, ⟨w₃, hstsc⟩, ⟨hkind, hoffsets⟩, by simp⟩
  have hlen : b.encode.length < 2 ^ 64 := by
    obtain ⟨h₁, h₂, h₃, h₄, -⟩ := by simpa only [List.forall_mem_cons] using hboxes
    simp only [SampleBoxes.encode, List.flatMap_cons, List.flatMap_nil, List.length_append,
      List.length_nil, length_encodeBox h₁, length_encodeBox h₂, length_encodeBox h₃,
      length_encodeBox h₄]
    omega
  have hfind (kind : Bytes) := findBox_flatMap hboxes hlen kind
  have hothers : (kindOf "stsz" == kindOf "stts") = false ∧ (kindOf "stsc" == kindOf "stts") = false ∧
      (kindOf "stsc" == kindOf "stsz") = false ∧ (kindOf "co64" == kindOf "stts") = false ∧
      (kindOf "co64" == kindOf "stsz") = false ∧ (kindOf "co64" == kindOf "stsc") = false ∧
      (kindOf "stco" == kindOf "stts") = false ∧ (kindOf "stco" == kindOf "stsz") = false ∧
      (kindOf "stco" == kindOf "stsc") = false ∧ (kindOf "co64" == kindOf "stco") = false := by
    decide
  obtain ⟨n₁, n₂, n₃, n₄, n₅, n₆, n₇, n₈, n₉, n₁₀⟩ := hothers
  obtain ⟨stts, stsz, stsc, co64, chunkOffsets⟩ := b
  unfold sampleBoxes
  cases co64 <;>
    simp only [SampleBoxes.encode, Bool.false_eq_true, if_false, if_true] at hfind ⊢ <;>
    simp only [hfind, List.lookup_cons, BEq.rfl, n₁, n₂, n₃, n₄, n₅, n₆, n₇, n₈, n₉, n₁₀] <;>
    rfl

/-- A table is returned from the boxes that are found. -/
theorem mp4SampleTable_eq {stbl : Bytes} {b : SampleBoxes} (h : sampleBoxes stbl = .ok (some b))
    (timescale : ℕ) : mp4SampleTable stbl timescale = .ok (b.samples timescale) := by
  rw [mp4SampleTable, h]
  rfl

theorem boxes_of_samples {stbl : Bytes} {timescale : ℕ} {samples : List Sample}
    (h : mp4SampleTable stbl timescale = .ok (some samples)) :
    ∃ b, sampleBoxes stbl = .ok (some b) ∧ b.samples timescale = some samples := by
  cases hboxes : sampleBoxes stbl with
  | error stop =>
    rw [mp4SampleTable, hboxes] at h
    cases h
  | ok found =>
    cases found with
    | none =>
      rw [mp4SampleTable, hboxes] at h
      cases h
    | some b =>
      rw [mp4SampleTable_eq hboxes] at h
      exact ⟨b, rfl, Except.ok.inj h⟩

/-- Of tables that agree every sample is returned, with its times in milliseconds; of others the
samples up to some number. The loops turn as often as the tables have bytes and `stts` counts
samples. -/
theorem mp4SampleTable_samples (stbl : Bytes) (timescale : ℕ) :
    (∀ b, sampleBoxes stbl = .ok (some b) → b.Fits → b.Agree →
      ∃ samples, mp4SampleTable stbl timescale = .ok (some samples) ∧ samples.length = b.count ∧
        ∀ (i : ℕ) (s : Sample), samples[i]? = some s ↔ b.IsSample (millis timescale) i s) ∧
    (∀ samples, mp4SampleTable stbl timescale = .ok (some samples) →
      ∃ b, sampleBoxes stbl = .ok (some b) ∧
        (b.Fits → (0 < b.chunks → 0 < (u32At b.stsc 4).getD 0) →
          ∀ (i : ℕ) (s : Sample), samples[i]? = some s → b.IsSample (millis timescale) i s)) ∧
    ∀ b, sampleBoxes stbl = .ok (some b) → b.turns timescale ≤
      b.stts.length + b.stsc.length + 2 * b.chunkOffsets.length + 2 * b.deltas.length + 3 := by
  refine ⟨fun b hboxes hfits hagree => ?_, fun samples h => ?_, fun b _ => turns_le b timescale⟩
  · obtain ⟨samples, hsamples, hlength, hiff⟩ := sampleTable_complete timescale hfits hagree
    refine ⟨samples, ?_, hlength, hiff⟩
    rw [mp4SampleTable_eq hboxes, hsamples]
  · obtain ⟨b, hboxes, hsamples⟩ := boxes_of_samples h
    exact ⟨b, hboxes, fun hfits hruns => (sampleTable_sound hfits hruns hsamples).2⟩

/-- Numbers of 32 bits. -/
def words (ns : List ℕ) : Bytes := ns.flatMap (beBytes 4)

/-- Two chunks, of two samples and of one, at 600 ticks a second. -/
def threeSamples : SampleBoxes where
  stts := words [0, 2, 1, 600, 2, 300]
  stsz := words [0, 0, 3, 5, 6, 7]
  stsc := words [0, 2, 1, 2, 1, 2, 1, 1]
  co64 := false
  chunkOffsets := words [0, 2, 100, 200]

/-- Two samples of one byte each, the first of which is the last byte below `2^64`. -/
def lastByte : SampleBoxes where
  stts := words [0, 1, 2, 1]
  stsz := words [0, 1, 2]
  stsc := words [0, 1, 1, 2, 1]
  co64 := true
  chunkOffsets := words [0, 1, 2 ^ 32 - 1, 2 ^ 32 - 1]

/-- A run of `2^32 - 1` samples. -/
def longRun : SampleBoxes where
  stts := words [0, 1, 2 ^ 32 - 1, 1]
  stsz := words [0, 1, 1]
  stsc := words [0, 1, 1, 1, 1]
  co64 := false
  chunkOffsets := words [0, 1, 0]

/-- Offsets below `2^64`, put so that it can be decided. -/
theorem fits_of_bounded (htimes : ∀ i < b.deltas.length, RunTables.startOf b.deltas i * 1000 < 2 ^ 64)
    (hoffsets : ∀ c < b.chunks, ∀ k < b.perChunk c,
      (b.chunkOff c).getD 0 + b.sizesBefore c k < 2 ^ 64) : b.Fits := by
  refine ⟨htimes, fun c k off hc hk _ hoff => ?_⟩
  have := hoffsets c hc k hk
  rwa [hoff, Option.getD_some] at this

theorem threeSamples_fits : threeSamples.Fits :=
  fits_of_bounded (by decide) (by decide)

theorem threeSamples_agree : threeSamples.Agree where
  headers := by decide
  runs := by decide
  chunkRuns := by decide
  begins := by decide
  offsets := by decide
  sizes := by decide
  timed := by decide
  placed := by decide

theorem lastByte_agree : lastByte.Agree where
  headers := by decide
  runs := by decide
  chunkRuns := by decide
  begins := by decide
  offsets := by decide
  sizes := by decide
  timed := by decide
  placed := by decide

theorem mp4SampleTable_threeSamples :
    ∃ samples, mp4SampleTable threeSamples.encode 600 = .ok (some samples) ∧ samples.length = 3 ∧
      ∀ (i : ℕ) (s : Sample), samples[i]? = some s ↔ threeSamples.IsSample (millis 600) i s := by
  have hboxes : sampleBoxes threeSamples.encode = .ok (some threeSamples) :=
    sampleBoxes_encode (by decide) (by decide) (by decide) (by decide)
  obtain ⟨samples, hsamples, hlength, hiff⟩ := (mp4SampleTable_samples threeSamples.encode 600).1
    threeSamples hboxes threeSamples_fits threeSamples_agree
  have hcount : threeSamples.count = 3 := by decide
  exact ⟨samples, hsamples, hlength.trans hcount, hiff⟩

theorem threeSamples_start {samples : List Sample}
    (h : mp4SampleTable threeSamples.encode 600 = .ok (some samples)) :
    ¬∀ (i : ℕ) (s : Sample), samples[i]? = some s ↔ threeSamples.IsSample id i s := by
  intro hiff
  have hread : mp4SampleTable threeSamples.encode 600 =
      .ok (some [⟨100, 5, 0, 1000⟩, ⟨105, 6, 1000, 500⟩, ⟨200, 7, 1500, 500⟩]) := by decide +kernel
  obtain rfl := Option.some.inj (Except.ok.inj (hread.symm.trans h))
  obtain ⟨_, _, _, _, _, _, _, _, _, _, _, _, hstart, _⟩ := (hiff 1 ⟨105, 6, 1000, 500⟩).mp rfl
  exact absurd hstart (by decide)

theorem lastByte_offset {samples : List Sample}
    (h : mp4SampleTable lastByte.encode 1000 = .ok (some samples)) :
    ¬∀ (i : ℕ) (s : Sample), samples[i]? = some s ↔ lastByte.IsSample (millis 1000) i s := by
  intro hiff
  have hread : mp4SampleTable lastByte.encode 1000 =
      .ok (some [⟨2 ^ 64 - 1, 1, 0, 1⟩, ⟨0, 1, 1, 1⟩]) := by decide
  obtain rfl := Option.some.inj (Except.ok.inj (hread.symm.trans h))
  obtain ⟨c, k, off, _, hc, _, _, _, hoff, hoffset, _⟩ := (hiff 1 ⟨0, 1, 1, 1⟩).mp rfl
  have hchunks : lastByte.chunks = 1 := by decide
  obtain rfl : c = 0 := by omega
  have hpos : 0 < (lastByte.chunkOff 0).getD 0 := by decide
  rw [hoff, Option.getD_some] at hpos
  simp only at hoffset
  omega

theorem longRun_turns (timescale : ℕ) : 2 ^ 32 ≤ longRun.turns timescale := by
  have hentry : longRun.sttsEntry 0 = some (2 ^ 32 - 1, 1) := by decide
  have hheaders : u32At longRun.stsz 4 = some 1 ∧ u32At longRun.stsz 8 = some 1 ∧
      u32At longRun.stts 4 = some 1 := by decide
  obtain ⟨huniform, hcount, hruns⟩ := hheaders
  have hturns : 2 ^ 32 ≤ timesTurns longRun 1 0 := by
    unfold timesTurns
    rw [hentry]
    dsimp only
    omega
  unfold SampleBoxes.turns
  rw [huniform, hcount, hruns]
  exact Nat.le_trans hturns (Nat.le_add_right _ _)

/-- The starts are in milliseconds, not in ticks; an offset from `2^64` on wraps; and a few bytes of
`stts` make the loops turn `2^32` times. -/
theorem sampleTable_differs :
    (threeSamples.Agree ∧ ∀ samples,
      mp4SampleTable threeSamples.encode 600 = .ok (some samples) →
        ¬∀ (i : ℕ) (s : Sample), samples[i]? = some s ↔ threeSamples.IsSample id i s) ∧
    (lastByte.Agree ∧ ∀ samples, mp4SampleTable lastByte.encode 1000 = .ok (some samples) →
      ¬∀ (i : ℕ) (s : Sample), samples[i]? = some s ↔ lastByte.IsSample (millis 1000) i s) ∧
    longRun.encode.length < 128 ∧ 2 ^ 32 ≤ longRun.turns 1000 :=
  ⟨⟨threeSamples_agree, fun _ => threeSamples_start⟩, ⟨lastByte_agree, fun _ => lastByte_offset⟩,
    by decide, longRun_turns 1000⟩

end Kahawai.Media.Subindex
