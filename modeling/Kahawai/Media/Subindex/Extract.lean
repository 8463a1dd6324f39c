import Kahawai.Media.Subindex.Walk

/-!
# Sparse extraction

`extract_sparse` and `extract_image_track` run the subtitle walk over a source
and decide what a failed walk means to their caller
(`crates/kahawai-media/src/subindex.rs`, lines 26–56 and 1299–1356): for text it
means to extract the file linearly, for an image track that there is none.
-/

namespace Kahawai.Media.Subindex

open Kahawai.Lib

/-- What a program ends with, and the reader it leaves. -/
abbrev Run (α : Type) : Type := EStateM.Result Stop Reader α

/-- The reader a run leaves. -/
def Run.reader {α : Type} : Run α → Reader
  | .ok _ r => r
  | .error _ r => r

/-- `[0x1A, 0x45, 0xDF, 0xA3]`. -/
def ebmlMagic : Bytes := [0x1A, 0x45, 0xDF, 0xA3]

/-- `b"ftyp"`. -/
def ftyp : Bytes := [0x66, 0x74, 0x79, 0x70]

/-- The first bytes of a source. -/
def Source.head (src : Source) (n : ℕ) : Bytes := (List.range n).map src.byte

/-- `File::read_exact` at the start of the file. -/
def readExact (n : ℕ) : Walk Bytes := fun r₀ =>
  let r := { r₀ with calls := r₀.calls + 1 }
  if r.faults.io r₀.calls then r.interrupt .io
  else if r.src.size < n then .error (.err (.shape "failed to fill whole buffer")) r
  else .ok (r.src.head n) r

/-- `mkv_extract`. -/
def mkvExtract (fns : TextFns) (len : ℕ) : Walk (List (ℕ × Extracted)) := do
  let out ← mkvWalk fns len none
  pure out.text

/-- `extract_sparse` on an open file; `mp4Extract` is the branch for MP4. -/
def extractSparseInner (fns : TextFns) (mp4Extract : Walk (List (ℕ × Extracted))) (len : ℕ) :
    Walk (Option (List (ℕ × Extracted))) := do
  match ← orNone (readExact 12) with
  | none => pure none
  | some magic =>
    if magic.take 4 = ebmlMagic then orNone (mkvExtract fns len)
    else if (magic.drop 4).take 4 = ftyp then orNone mp4Extract
    else pure none

/-- `extract_sparse`: its reader has neither a checkpoint nor a budget. -/
def extractSparse (fns : TextFns) (mp4Extract : Walk (List (ℕ × Extracted))) (src : Source)
    (faults : Faults) (overflowChecks : Bool) : Run (Option (List (ℕ × Extracted))) :=
  extractSparseInner fns mp4Extract src.size
    (.new src ⟨fun _ => false, fun _ => false, faults.io⟩ overflowChecks)

/-- `extract_image_track_inner`. -/
def extractImageTrackInner (fns : TextFns) (len subIndex : ℕ) : Walk (Option ImageTrack) := do
  let magic ← readAt 0 4
  if magic ≠ ebmlMagic then pure none
  else
    let out ← orNone (mkvWalk fns len (some subIndex))
    pure (out.bind MkvOut.image)

/-- `extract_image_track_interruptible`. -/
def extractImageTrackInterruptible (fns : TextFns) (src : Source) (faults : Faults)
    (overflowChecks : Bool) (subIndex : ℕ) : Run (Option ImageTrack) :=
  extractImageTrackInner fns src.size subIndex (.new src faults overflowChecks)

section Ends

variable {fns : TextFns} {src : Source} {faults : Faults} {overflowChecks : Bool} {r : Reader}

theorem orNone_ends {α : Type} {m : Walk α} (hm : Avoids .unfinished m) :
    Avoids .unfinished (orNone m) := by
  intro s s' h
  simp only [orNone] at h
  cases hrun : m s with
  | ok a s₁ =>
    rw [hrun] at h
    cases h
  | error stop s₁ =>
    rw [hrun] at h
    cases stop with
    | err e => cases h
    | panic => cases h
    | unfinished => exact hm s s₁ hrun

theorem mkvExtract_ends {len : ℕ} (hlen : len < 2 ^ 63) :
    Avoids .unfinished (mkvExtract fns len) :=
  avoids_bind ((sound_mkvWalk len none).ends hlen) fun out => avoids_pure out.text

/-- An image extraction ends. -/
theorem extractImageTrack_ends (hsize : src.size < 2 ^ 63) (subIndex : ℕ) :
    extractImageTrackInterruptible fns src faults overflowChecks subIndex ≠
      .error .unfinished r := by
  have hinner : Avoids .unfinished (extractImageTrackInner fns src.size subIndex) := by
    refine avoids_bind ((sound_readAt 0 4).ends trivial) fun magic => ?_
    split
    · exact avoids_pure _
    · exact avoids_bind (orNone_ends ((sound_mkvWalk _ _).ends hsize)) fun out => avoids_pure _
  exact hinner _ r

/-- A sparse extraction ends if its branch for MP4 does. -/
theorem extractSparse_ends (hsize : src.size < 2 ^ 63)
    {mp4Extract : Walk (List (ℕ × Extracted))} (hmp4 : Avoids .unfinished mp4Extract) :
    extractSparse fns mp4Extract src faults overflowChecks ≠ .error .unfinished r := by
  have hexact : Avoids .unfinished (readExact 12) := by
    intro s s' h
    simp only [readExact] at h
    split at h
    · cases h
    · split at h <;> cases h
  have hinner : Avoids .unfinished (extractSparseInner fns mp4Extract src.size) := by
    refine avoids_bind (orNone_ends hexact) fun magic => ?_
    cases magic with
    | none => exact avoids_pure _
    | some magic =>
      dsimp only
      split
      · exact orNone_ends (mkvExtract_ends hsize)
      · split
        · exact orNone_ends hmp4
        · exact avoids_pure _
  exact hinner _ r

end Ends

end Kahawai.Media.Subindex
