import Mathlib.Logic.Function.Basic
import Kahawai.Media.ImageSubs.Vobsub

/-!
# PGS display sets

`PgsDecoder::feed` and `pgs_rle_decode` (`crates/kahawai-media/src/imagesubs.rs`, lines 52–247) with
their arithmetic and their accesses checked. Palettes and objects persist from payload to payload
until an epoch starts. The conversion of a colour to RGB, which is arithmetic of `f32`, is a
parameter.

Results:
* `feed_ensures`: a payload is fed without a failing access, and the objects of its set are whole.
* `feed_startsEpoch`: a payload that starts an epoch is fed alike whatever was fed before.
-/

namespace Kahawai.Media.ImageSubs

open Kahawai.Core Kahawai.Lib Kahawai.Lib.Codec Kahawai.Lib.Checked Kahawai.Media.Burnin
  Kahawai.Media.VobsubFile

/-! ## Run lengths -/

/-- `put` (lines 202–211): the pixels of a run that lie in the picture. -/
def putRun (px : Bytes) (w h y : ℕ) : (run x : ℕ) → Bytes → Checked (ℕ × Bytes)
  | 0, x, out => return (x, out)
  | run + 1, x, out => do
    if x < w ∧ y < h then
      let o ← mul 64 (← add 64 (← mul 64 y w) x) 4
      let _ ← add 64 o 4
      let out ← copyAt out o px
      putRun px w h y run (← add 64 x 1) out
    else putRun px w h y run (← add 64 x 1) out

/-- The length of a run (lines 230–234), behind its flags; `none` is an error. -/
def runLength (rle : Bytes) (f : UInt8) (i : ℕ) : Checked (Option (ℕ × ℕ)) :=
  let run := (f &&& 0x3F).toNat
  if f &&& 0x40 ≠ 0 then
    match rle[i]? with
    | none => return none
    | some low => do return some (run <<< 8 ||| low.toNat, ← add 64 i 1)
  else return some (run, i)

/-- The colour of a run (lines 235–241); `none` is an error. -/
def runColor (rle : Bytes) (f : UInt8) (i : ℕ) : Checked (Option (UInt8 × ℕ)) :=
  if f &&& 0x80 ≠ 0 then
    match rle[i]? with
    | none => return none
    | some c => do return some (c, ← add 64 i 1)
  else return some (0, i)

/-- A colour of the palette (line 203). -/
def paletteColor (palette : List Bytes) (color : UInt8) : Bytes :=
  (palette[color.toNat]?).getD [0, 0, 0, 0]

/-- The loop of `pgs_rle_decode` (lines 212–245). -/
def rleLoop (rle : Bytes) (w h : ℕ) (palette : List Bytes) : (fuel i x y : ℕ) → Bytes →
    Checked (Except Failure Bytes)
  | 0, _, _, _, _ => .error .unfinished
  | fuel + 1, i, x, y, out =>
    if i < rle.length ∧ y < h then do
      let c ← index rle i
      let i ← add 64 i 1
      if c ≠ 0 then
        let (x, out) ← putRun (paletteColor palette c) w h y 1 x out
        rleLoop rle w h palette fuel i x y out
      else
        match rle[i]? with
        | none => return .ok out
        | some f =>
          let i ← add 64 i 1
          -- the end of a line
          if f = 0 then rleLoop rle w h palette fuel i 0 (← add 64 y 1) out
          else
            match ← runLength rle f i with
            | none => return .error (.bail (lit "PGS RLE truncated"))
            | some (run, i) =>
              match ← runColor rle f i with
              | none => return .error (.bail (lit "PGS RLE truncated"))
              | some (color, i) =>
                let (x, out) ← putRun (paletteColor palette color) w h y run x out
                rleLoop rle w h palette fuel i x y out
    else return .ok out

/-- `pgs_rle_decode` (lines 197–247). -/
def pgsRleDecode (rle : Bytes) (w h : ℕ) (palette : List Bytes) : Checked (Except Failure Bytes) := do
  let size ← mul 64 (← mul 64 w h) 4
  rleLoop rle w h palette (rle.length + 1) 0 0 0 (List.replicate size 0)

/-! ## The decoder -/

/-- `PgsObject`. -/
structure PgsObject where
  w : ℕ
  h : ℕ
  rle : Bytes
  declaredLen : ℕ
  deriving DecidableEq

/-- `PgsDecoder`: the maps by their reads. -/
@[ext]
structure PgsDecoder where
  palettes : UInt8 → Option (List Bytes)
  objects : ℕ → Option PgsObject
  pending : ℕ → Option PgsObject

/-- `PgsDecoder::default`, and what `clear` leaves (lines 74–79). -/
def PgsDecoder.empty : PgsDecoder := ⟨fun _ => none, fun _ => none, fun _ => none⟩

/-- What a presentation composes (lines 54–57): object, x and y of each reference. -/
structure Composition where
  w : ℕ
  h : ℕ
  paletteId : UInt8
  refs : List (ℕ × ℕ × ℕ)

/-- `u16::from_be_bytes([l[i], l[i + 1]])`. -/
def be16At (l : Bytes) (i : ℕ) : Checked ℕ := do
  let high ← index l i
  let low ← index l (← add 64 i 1)
  return 256 * high.toNat + low.toNat

/-- The segment at `pos` (lines 59–64): its type, its body and where the next begins; `none` is an
    error. -/
def readSegment (data : Bytes) (pos : ℕ) : Checked (Option (UInt8 × Bytes × ℕ)) := do
  let segType ← index data pos
  let size ← be16At data (← add 64 pos 1)
  let start ← add 64 pos 3
  let stop ← add 64 start size
  return (getRange data start size).map fun body => (segType, body, stop)

/-- The references of a presentation from `o` on, at most `n` of them (lines 82–94). -/
def readRefs (body : Bytes) : (n o : ℕ) → Checked (List (ℕ × ℕ × ℕ))
  | 0, _ => return []
  | n + 1, o => do
    let stop ← add 64 o 8
    if body.length < stop then return []
    else
      let oid ← be16At body o
      let cropped ← index body (← add 64 o 3)
      let x ← be16At body (← add 64 o 4)
      let y ← be16At body (← add 64 o 6)
      let rest ← readRefs body n (← add 64 o (if cropped &&& 0x80 ≠ 0 then 16 else 8))
      return (oid, x, y) :: rest

/-- A presentation (lines 66–96), of 11 bytes at least. -/
def present (d : PgsDecoder) (body : Bytes) : Checked (PgsDecoder × Composition) := do
  let w ← be16At body 0
  let h ← be16At body 2
  let state ← index body 7
  let paletteId ← index body 9
  let n ← index body 10
  let refs ← readRefs body n.toNat 11
  -- an epoch start resets everything
  return (if state &&& 0x80 ≠ 0 then .empty else d, ⟨w, h, paletteId, refs⟩)

/-- The entries of a palette (lines 106–120). -/
def setEntries (rgb : UInt8 → UInt8 → UInt8 → UInt8 × UInt8 × UInt8) : Bytes → List Bytes →
    Checked (List Bytes)
  | i :: y :: cr :: cb :: a :: rest, palette => do
    let (r, g, b) := rgb y cr cb
    setEntries rgb rest (← copyAt palette i.toNat [[r, g, b, a]])
  | _, palette => return palette

/-- A palette definition (lines 97–121). -/
def definePalette (rgb : UInt8 → UInt8 → UInt8 → UInt8 × UInt8 × UInt8) (d : PgsDecoder)
    (body : Bytes) : Checked PgsDecoder :=
  if body.length < 2 then return d
  else do
    let id ← index body 0
    let palette := (d.palettes id).getD (List.replicate 256 [0, 0, 0, 0])
    let palette ← setEntries rgb (← slice body 2 body.length) palette
    return { d with palettes := Function.update d.palettes id (some palette) }

/-- The last fragment makes the object (lines 151–155). -/
def closeObject (d : PgsDecoder) (oid : ℕ) (seq : UInt8) : PgsDecoder :=
  if seq &&& 0x40 ≠ 0 then
    match d.pending oid with
    | some done =>
      { d with pending := Function.update d.pending oid none
               objects := Function.update d.objects oid (some done) }
    | none => d
  else d

/-- An object definition (lines 122–156). -/
def defineObject (d : PgsDecoder) (body : Bytes) : Checked PgsDecoder :=
  if body.length < 4 then return d
  else do
    let oid ← be16At body 0
    let seq ← index body 3
    if seq &&& 0x80 ≠ 0 then
      if body.length < 11 then return d
      else
        let declared := 65536 * (← index body 4).toNat + (← be16At body 5) - 4
        let w ← be16At body 7
        let h ← be16At body 9
        let p : PgsObject := ⟨w, h, ← slice body 11 body.length, declared⟩
        return closeObject { d with pending := Function.update d.pending oid (some p) } oid seq
    else
      match d.pending oid with
      | some p =>
        let p := { p with rle := p.rle ++ (← slice body 4 body.length) }
        return closeObject { d with pending := Function.update d.pending oid (some p) } oid seq
      | none => return closeObject d oid seq

/-- The loop over the segments (lines 58–160). -/
def feedLoop (rgb : UInt8 → UInt8 → UInt8 → UInt8 × UInt8 × UInt8) (data : Bytes) :
    (fuel pos : ℕ) → PgsDecoder → Option Composition →
      Checked (PgsDecoder × Except Failure (Option Composition))
  | 0, _, _, _ => .error .unfinished
  | fuel + 1, pos, d, composition => do
    if (← add 64 pos 3) ≤ data.length then
      match ← readSegment data pos with
      | none => return (d, .error (.bail (lit "PGS segment overruns block")))
      | some (segType, body, pos) =>
        if segType = 0x16 then
          if body.length < 11 then return (d, .error (.bail (lit "short PCS")))
          else
            let (d, c) ← present d body
            feedLoop rgb data fuel pos d (some c)
        else if segType = 0x14 then
          feedLoop rgb data fuel pos (← definePalette rgb d body) composition
        else if segType = 0x15 then feedLoop rgb data fuel pos (← defineObject d body) composition
        else feedLoop rgb data fuel pos d composition
    else return (d, .ok composition)

/-- One reference of the composition (lines 171–187), if it can be shown. -/
def composeObject (d : PgsDecoder) (palette : List Bytes) (ref : ℕ × ℕ × ℕ) :
    Checked (Option ImageObject) :=
  match d.objects ref.1 with
  | none => return none
  | some obj =>
    if obj.rle.length < obj.declaredLen then return none
    else do
      match ← pgsRleDecode obj.rle obj.w obj.h palette with
      | .ok rgba => return some ⟨ref.2.1, ref.2.2, obj.w, obj.h, rgba⟩
      | .error _ => return none

/-- The set that a composition makes (lines 162–192). -/
def compose (d : PgsDecoder) (c : Composition) : Checked DisplaySet := do
  let palette := (d.palettes c.paletteId).getD (List.replicate 256 [0, 0, 0, 0])
  let objects ← c.refs.mapM (composeObject d palette)
  return ⟨c.w, c.h, objects.filterMap id⟩

/-- `PgsDecoder::feed` (lines 52–193): the decoder it leaves and what it returns. -/
def feed (rgb : UInt8 → UInt8 → UInt8 → UInt8 × UInt8 × UInt8) (d : PgsDecoder) (data : Bytes) :
    Checked (PgsDecoder × Except Failure (Option DisplaySet)) := do
  match ← feedLoop rgb data (data.length + 1) 0 d none with
  | (d, .error e) => return (d, .error e)
  | (d, .ok none) => return (d, .ok none)
  | (d, .ok (some c)) => return (d, .ok (some (← compose d c)))

/-! ## Pictures -/

theorem ensures_putRun {px : Bytes} (hpx : px.length = 4) {w h y : ℕ} (hw : w < 2 ^ 16)
    (hh : h < 2 ^ 16) {run x : ℕ} (hrun : x + run < 2 ^ 64) {out : Bytes} (hout : Picture w h out) :
    Ensures (putRun px w h y run x out) fun r => r.1 = x + run ∧ Picture w h r.2 := by
  have hsize : w * h ≤ 2 ^ 16 * 2 ^ 16 := Nat.mul_le_mul (Nat.le_of_lt hw) (Nat.le_of_lt hh)
  induction run generalizing x out with
  | zero => exact ensures_ok ⟨rfl, hout⟩
  | succ run ih =>
    have hnext : ∀ {out' : Bytes}, Picture w h out' →
        Ensures (add 64 x 1 >>= fun x => putRun px w h y run x out')
          fun r => r.1 = x + (run + 1) ∧ Picture w h r.2 := by
      intro out' hout'
      refine (ensures_add (by omega)).bind fun x' hx' => ?_
      exact (ih (by omega) hout').mono fun r hr => ⟨by omega, hr.2⟩
    rw [putRun]
    split_ifs with hin
    · have hplace := place_lt hin.1 hin.2
      refine (ensures_mul (by omega)).bind fun row hrow => ?_
      refine (ensures_add (by omega)).bind fun cell hcell => ?_
      refine (ensures_mul (by omega)).bind fun o ho => ?_
      refine (ensures_add (by omega)).bind fun _ _ => ?_
      refine (ensures_copyAt (by rw [hpx, hout]; omega)).bind fun out' hout' => ?_
      exact hnext (hout'.trans hout)
    · exact hnext hout

theorem ensures_runLength {rle : Bytes} (f : UInt8) {i : ℕ} (hi : i < 2 ^ 63) :
    Ensures (runLength rle f i) fun r => ∀ m ∈ r, m.1 < 2 ^ 14 ∧ i ≤ m.2 ∧ m.2 ≤ i + 1 ∧
      (m.2 ≤ i ∨ i < rle.length) := by
  have hshort : (f &&& 0x3F).toNat < 2 ^ 6 := by
    rw [UInt8.toNat_and]
    exact Nat.and_lt_two_pow _ (by decide)
  unfold runLength
  dsimp only
  split_ifs
  · cases hlow : rle[i]? with
    | none => exact ensures_ok (by simp)
    | some low =>
      have hin := (List.getElem?_eq_some_iff.mp hlow).1
      refine (ensures_add (by omega)).bind fun n hn => ensures_ok fun m hm => ?_
      obtain rfl := Option.some.inj hm
      have hlt : (f &&& 0x3F).toNat <<< 8 ||| low.toNat < 2 ^ 14 := by
        have := low.toNat_lt
        refine Nat.or_lt_two_pow ?_ (by omega)
        rw [Nat.shiftLeft_eq]
        omega
      exact ⟨hlt, by dsimp only; omega, by dsimp only; omega, .inr hin⟩
  · refine ensures_ok fun m hm => ?_
    obtain rfl := Option.some.inj hm
    exact ⟨by dsimp only; omega, Nat.le_refl _, Nat.le_succ _, .inl (Nat.le_refl _)⟩

theorem ensures_runColor {rle : Bytes} (f : UInt8) {i : ℕ} (hi : i < 2 ^ 63) :
    Ensures (runColor rle f i) fun r => ∀ m ∈ r, i ≤ m.2 ∧ m.2 ≤ i + 1 ∧
      (m.2 ≤ i ∨ i < rle.length) := by
  unfold runColor
  split_ifs
  · cases hc : rle[i]? with
    | none => exact ensures_ok (by simp)
    | some c =>
      have hin := (List.getElem?_eq_some_iff.mp hc).1
      refine (ensures_add (by omega)).bind fun n hn => ensures_ok fun m hm => ?_
      obtain rfl := Option.some.inj hm
      exact ⟨by dsimp only; omega, by dsimp only; omega, .inr hin⟩
  · refine ensures_ok fun m hm => ?_
    obtain rfl := Option.some.inj hm
    exact ⟨Nat.le_refl _, Nat.le_succ _, .inl (Nat.le_refl _)⟩

/-- 256 colours of four bytes. -/
def PaletteOk (palette : List Bytes) : Prop := palette.length = 256 ∧ ∀ px ∈ palette, px.length = 4

theorem paletteColor_length {palette : List Bytes} (h : PaletteOk palette) (color : UInt8) :
    (paletteColor palette color).length = 4 := by
  unfold paletteColor
  cases hc : palette[color.toNat]? with
  | none => rfl
  | some px => exact h.2 px (List.mem_of_getElem? hc)

/-- Every round takes a byte at least and adds less than 2^14 to the place in the line. -/
theorem ensures_rleLoop {rle : Bytes} (hrle : rle.length < 2 ^ 50) {w h : ℕ} (hw : w < 2 ^ 16)
    (hh : h < 2 ^ 16) {palette : List Bytes} (hpalette : PaletteOk palette) {fuel i x y : ℕ}
    {out : Bytes} (hi : i ≤ rle.length) (hx : x ≤ 2 ^ 14 * i) (hfuel : rle.length < i + fuel)
    (hout : Picture w h out) :
    Ensures (rleLoop rle w h palette fuel i x y out) fun r => ∀ o, r = .ok o → Picture w h o := by
  induction fuel generalizing i x y out with
  | zero => omega
  | succ fuel ih =>
    rw [rleLoop]
    split_ifs with hmore
    · obtain ⟨hin, hy⟩ := hmore
      refine (ensures_index hin).bind fun c _ => ?_
      refine (ensures_add (by omega)).bind fun i₁ hi₁ => ?_
      split_ifs with hc
      · refine (ensures_putRun (paletteColor_length hpalette c) hw hh (by omega) hout).bind
          fun ⟨x', out'⟩ hput => ?_
        obtain ⟨hx', hout'⟩ := hput
        exact ih (by omega) (by dsimp only at hx' ⊢; omega) (by omega) hout'
      · cases hf : rle[i₁]? with
        | none => exact ensures_ok fun o ho => Except.ok.inj ho ▸ hout
        | some f =>
          have hin₁ := (List.getElem?_eq_some_iff.mp hf).1
          refine (ensures_add (by omega)).bind fun i₂ hi₂ => ?_
          split_ifs with hzero
          · refine (ensures_add (by omega)).bind fun y' hy' => ?_
            exact ih (by omega) (by omega) (by omega) hout
          · refine (ensures_runLength f (by omega)).bind fun r hr => ?_
            cases r with
            | none => exact ensures_ok fun o ho => by cases ho
            | some m =>
              obtain ⟨run, i₃⟩ := m
              obtain ⟨hrun, hlow₃, hhigh₃, hend₃⟩ := hr _ rfl
              dsimp only at hrun hlow₃ hhigh₃ hend₃ ⊢
              refine (ensures_runColor f (by omega)).bind fun r' hr' => ?_
              cases r' with
              | none => exact ensures_ok fun o ho => by cases ho
              | some m' =>
                obtain ⟨color, i₄⟩ := m'
                obtain ⟨hlow₄, hhigh₄, hend₄⟩ := hr' _ rfl
                dsimp only at hlow₄ hhigh₄ hend₄ ⊢
                refine (ensures_putRun (paletteColor_length hpalette color) hw hh (by omega)
                  hout).bind fun ⟨x', out'⟩ hput => ?_
                obtain ⟨hx', hout'⟩ := hput
                exact ih (by omega) (by dsimp only at hx' ⊢; omega) (by omega) hout'
    · exact ensures_ok fun o ho => Except.ok.inj ho ▸ hout

theorem ensures_pgsRleDecode {rle : Bytes} (hrle : rle.length < 2 ^ 50) {w h : ℕ} (hw : w < 2 ^ 16)
    (hh : h < 2 ^ 16) {palette : List Bytes} (hpalette : PaletteOk palette) :
    Ensures (pgsRleDecode rle w h palette) fun r => ∀ o, r = .ok o → Picture w h o := by
  have hsize : w * h ≤ 2 ^ 16 * 2 ^ 16 := Nat.mul_le_mul (Nat.le_of_lt hw) (Nat.le_of_lt hh)
  refine (ensures_mul (by omega)).bind fun area harea => ?_
  refine (ensures_mul (by omega)).bind fun size hs => ?_
  exact ensures_rleLoop hrle hw hh hpalette (Nat.zero_le _) (Nat.zero_le _) (by omega)
    (by rw [Picture, List.length_replicate, hs, harea])

/-! ## What a decoder holds -/

/-- An object of sixteen-bit sides that has gathered `n` bytes at most. -/
structure PgsObject.Held (n : ℕ) (p : PgsObject) : Prop where
  rle : p.rle.length ≤ n
  w : p.w < 2 ^ 16
  h : p.h < 2 ^ 16

/-- A decoder that was fed `n` bytes. -/
structure PgsDecoder.Held (n : ℕ) (d : PgsDecoder) : Prop where
  palettes : ∀ id palette, d.palettes id = some palette → PaletteOk palette
  objects : ∀ oid p, d.objects oid = some p → p.Held n
  pending : ∀ oid p, d.pending oid = some p → p.Held n

theorem PgsObject.Held.mono {p : PgsObject} {n m : ℕ} (h : p.Held n) (hle : n ≤ m) : p.Held m :=
  ⟨Nat.le_trans h.rle hle, h.w, h.h⟩

theorem PgsDecoder.Held.mono {d : PgsDecoder} {n m : ℕ} (h : d.Held n) (hle : n ≤ m) : d.Held m :=
  ⟨h.palettes, fun oid p hp => (h.objects oid p hp).mono hle,
    fun oid p hp => (h.pending oid p hp).mono hle⟩

theorem PgsDecoder.empty_held (n : ℕ) : PgsDecoder.empty.Held n :=
  ⟨fun _ _ h => absurd h (by simp [PgsDecoder.empty]), fun _ _ h => absurd h (by simp [PgsDecoder.empty]),
    fun _ _ h => absurd h (by simp [PgsDecoder.empty])⟩

/-- A map with one entry changed holds what both hold. -/
theorem update_forall {κ ρ : Type} [DecidableEq κ] {f : κ → Option ρ} {P : ρ → Prop}
    (h : ∀ k r, f k = some r → P r) (key : κ) {value : Option ρ} (hvalue : ∀ r ∈ value, P r) :
    ∀ k r, Function.update f key value k = some r → P r := by
  intro k r hr
  by_cases hk : k = key
  · subst hk
    rw [Function.update_self] at hr
    exact hvalue r hr
  · rw [Function.update_of_ne hk] at hr
    exact h k r hr

theorem ensures_be16At {l : Bytes} {i : ℕ} (hi : i + 1 < l.length) (hl : i < 2 ^ 63) :
    Ensures (be16At l i) (· < 2 ^ 16) := by
  refine (ensures_index (by omega)).bind fun high _ => ?_
  refine (ensures_add (by omega)).bind fun j hj => ?_
  refine (ensures_index (by omega)).bind fun low _ => ensures_ok (be_lt high low)

/-! ## Palettes -/

theorem ensures_setPixel {palette : List Bytes} (h : PaletteOk palette) {i : ℕ} (hi : i < 256)
    {px : Bytes} (hpx : px.length = 4) : Ensures (copyAt palette i [px]) PaletteOk := by
  obtain ⟨hlength, hpixels⟩ := h
  refine ⟨_, if_pos (by rw [List.length_singleton]; omega), ?_, ?_⟩
  · simp only [List.length_append, List.length_take, List.length_drop, List.length_singleton]
    omega
  · intro p hp
    rw [List.mem_append, List.mem_append, List.mem_singleton] at hp
    rcases hp with (hp | rfl) | hp
    · exact hpixels p (List.mem_of_mem_take hp)
    · exact hpx
    · exact hpixels p (List.mem_of_mem_drop hp)

theorem ensures_setEntries (rgb : UInt8 → UInt8 → UInt8 → UInt8 × UInt8 × UInt8) (entries : Bytes)
    {palette : List Bytes} (h : PaletteOk palette) :
    Ensures (setEntries rgb entries palette) PaletteOk := by
  fun_induction setEntries rgb entries palette with
  | case1 i y cr cb a rest palette r g b hcolor ih =>
    obtain ⟨hlength, hpixels⟩ := h
    have hi := i.toNat_lt
    refine (ensures_setPixel ⟨hlength, hpixels⟩ (by omega) rfl).bind fun palette' h' => ?_
    exact ih _ h'
  | case2 palette => exact ensures_ok h

theorem ensures_definePalette (rgb : UInt8 → UInt8 → UInt8 → UInt8 × UInt8 × UInt8) {n : ℕ}
    {d : PgsDecoder} (hd : d.Held n) (body : Bytes) :
    Ensures (definePalette rgb d body) (PgsDecoder.Held n) := by
  unfold definePalette
  split_ifs with hshort
  · exact ensures_ok hd
  refine (ensures_index (by omega)).bind fun id _ => ?_
  have hpalette : PaletteOk ((d.palettes id).getD (List.replicate 256 [0, 0, 0, 0])) := by
    cases hp : d.palettes id with
    | some palette => exact hd.palettes id palette hp
    | none => exact ⟨List.length_replicate, fun px hpx => List.eq_of_mem_replicate hpx ▸ rfl⟩
  dsimp only
  rw [slice_suffix (by omega), ok_bind]
  refine (ensures_setEntries rgb _ hpalette).bind fun palette hp => ensures_ok ?_
  exact ⟨update_forall hd.palettes id fun _ hr => Option.some.inj hr ▸ hp, hd.objects, hd.pending⟩

/-! ## Objects -/

theorem closeObject_held {n : ℕ} {d : PgsDecoder} (hd : d.Held n) (oid : ℕ) (seq : UInt8) :
    (closeObject d oid seq).Held n := by
  unfold closeObject
  split_ifs
  · cases hp : d.pending oid with
    | none => exact hd
    | some p =>
      exact ⟨hd.palettes, update_forall hd.objects oid fun _ hr =>
        Option.some.inj hr ▸ hd.pending oid p hp, update_forall hd.pending oid fun _ hr => by cases hr⟩
  · exact hd

theorem pending_held {n : ℕ} {d : PgsDecoder} (hd : d.Held n) (oid : ℕ) {p : PgsObject}
    (hp : p.Held n) :
    PgsDecoder.Held n { d with pending := Function.update d.pending oid (some p) } :=
  ⟨hd.palettes, hd.objects, update_forall hd.pending oid fun _ hr => Option.some.inj hr ▸ hp⟩

/-- A fragment adds to what is held. -/
theorem ensures_defineObject {n : ℕ} {d : PgsDecoder} (hd : d.Held n) (body : Bytes) :
    Ensures (defineObject d body) (PgsDecoder.Held (n + body.length)) := by
  have hmore := hd.mono (Nat.le_add_right n body.length)
  unfold defineObject
  by_cases hshort : body.length < 4
  · rw [if_pos hshort]
    exact ensures_ok hmore
  rw [if_neg hshort]
  refine (ensures_be16At (by omega) (by omega)).bind fun oid _ => ?_
  refine (ensures_index (by omega)).bind fun seq _ => ?_
  by_cases hfirst : seq &&& 0x80 ≠ 0
  · rw [if_pos hfirst]
    by_cases hheader : body.length < 11
    · rw [if_pos hheader]
      exact ensures_ok hmore
    rw [if_neg hheader]
    refine (ensures_index (by omega)).bind fun b4 _ => ?_
    refine (ensures_be16At (by omega) (by omega)).bind fun low _ => ?_
    refine (ensures_be16At (by omega) (by omega)).bind fun w hw => ?_
    refine (ensures_be16At (by omega) (by omega)).bind fun h hh => ?_
    rw [slice_suffix (by omega), ok_bind]
    refine ensures_ok (closeObject_held (pending_held hmore oid ?_) oid seq)
    exact ⟨by rw [List.length_drop]; omega, hw, hh⟩
  · rw [if_neg hfirst]
    cases hp : d.pending oid with
    | none => exact ensures_ok (closeObject_held hmore oid seq)
    | some p =>
      have hheld := hd.pending oid p hp
      dsimp only
      rw [slice_suffix (by omega), ok_bind]
      refine ensures_ok (closeObject_held (pending_held hmore oid ?_) oid seq)
      have hrle := hheld.rle
      exact ⟨by rw [List.length_append, List.length_drop]; omega, hheld.w, hheld.h⟩

/-! ## Presentations -/

theorem ensures_readRefs {body : Bytes} (n : ℕ) {o : ℕ} (ho : o + 16 * n < 2 ^ 32) :
    Ensures (readRefs body n o) (·.length ≤ n) := by
  induction n generalizing o with
  | zero => exact ensures_ok (Nat.le_refl 0)
  | succ n ih =>
    rw [readRefs]
    refine (ensures_add (by omega)).bind fun stop hstop => ?_
    split_ifs with hend
    · exact ensures_ok (Nat.zero_le _)
    refine (ensures_be16At (by omega) (by omega)).bind fun oid _ => ?_
    refine (ensures_add (by omega)).bind fun o₃ ho₃ => ?_
    refine (ensures_index (by omega)).bind fun cropped _ => ?_
    refine (ensures_add (by omega)).bind fun o₄ ho₄ => ?_
    refine (ensures_be16At (by omega) (by omega)).bind fun x _ => ?_
    refine (ensures_add (by omega)).bind fun o₆ ho₆ => ?_
    refine (ensures_be16At (by omega) (by omega)).bind fun y _ => ?_
    have hstep : (if cropped &&& 0x80 ≠ 0 then 16 else 8) ≤ 16 := by split_ifs <;> omega
    refine (ensures_add (by omega)).bind fun o' ho' => ?_
    refine (ih (by omega)).bind fun rest hrest => ensures_ok ?_
    rw [List.length_cons]
    omega

/-- What a presentation says of the picture, and that it resets the decoder if it starts an epoch. -/
theorem ensures_present (d : PgsDecoder) {body : Bytes} (h : 11 ≤ body.length) :
    Ensures (present d body) fun r =>
      (r.1 = d ∨ r.1 = .empty) ∧ r.2.refs.length ≤ 255 := by
  refine (ensures_be16At (by omega) (by omega)).bind fun w _ => ?_
  refine (ensures_be16At (by omega) (by omega)).bind fun h _ => ?_
  refine (ensures_index (by omega)).bind fun state _ => ?_
  refine (ensures_index (by omega)).bind fun paletteId _ => ?_
  refine (ensures_index (by omega)).bind fun n _ => ?_
  have hn := n.toNat_lt
  refine (ensures_readRefs n.toNat (by omega)).bind fun refs hrefs =>
    ensures_ok ⟨?_, Nat.le_trans hrefs (by omega)⟩
  dsimp only
  split_ifs
  · exact .inr rfl
  · exact .inl rfl

/-! ## Payloads -/

theorem ensures_readSegment {data : Bytes} (hdata : data.length < 2 ^ 63) {pos : ℕ}
    (hpos : pos + 3 ≤ data.length) :
    Ensures (readSegment data pos) fun r => ∀ t body next, r = some (t, body, next) →
      next = pos + 3 + body.length ∧ next ≤ data.length := by
  refine (ensures_index (by omega)).bind fun segType _ => ?_
  refine (ensures_add (by omega)).bind fun place hplace => ?_
  refine (ensures_be16At (by omega) (by omega)).bind fun size hsize => ?_
  refine (ensures_add (by omega)).bind fun start hstart => ?_
  refine (ensures_add (by omega)).bind fun stop hstop => ensures_ok fun t body next hr => ?_
  obtain ⟨bytes, hbytes, heq⟩ := Option.map_eq_some_iff.mp hr
  cases heq
  unfold getRange at hbytes
  by_cases hfits : start + size ≤ data.length
  · rw [if_pos hfits] at hbytes
    obtain rfl := Option.some.inj hbytes
    rw [List.length_take, List.length_drop]
    omega
  · rw [if_neg hfits] at hbytes
    cases hbytes

/-- Every segment takes three bytes at least, and what is held is bounded by what was read. -/
theorem ensures_feedLoop (rgb : UInt8 → UInt8 → UInt8 → UInt8 × UInt8 × UInt8) {data : Bytes}
    (hdata : data.length < 2 ^ 63) {n fuel pos : ℕ} {d : PgsDecoder} {c : Option Composition}
    (hd : d.Held (n + pos)) (hc : ∀ x ∈ c, x.refs.length ≤ 255) (hpos : pos ≤ data.length)
    (hfuel : data.length < pos + fuel) :
    Ensures (feedLoop rgb data fuel pos d c) fun r =>
      r.1.Held (n + data.length) ∧ ∀ x, r.2 = .ok (some x) → x.refs.length ≤ 255 := by
  induction fuel generalizing pos d c with
  | zero => omega
  | succ fuel ih =>
    have hstop : Ensures (.ok (d, .ok c) : Checked (PgsDecoder × Except Failure (Option Composition)))
        fun r => r.1.Held (n + data.length) ∧ ∀ x, r.2 = .ok (some x) → x.refs.length ≤ 255 :=
      ensures_ok ⟨hd.mono (by omega), fun x hx => hc x (Except.ok.inj hx)⟩
    have hfail : ∀ e, Ensures (.ok (d, .error e) :
        Checked (PgsDecoder × Except Failure (Option Composition)))
        fun r => r.1.Held (n + data.length) ∧ ∀ x, r.2 = .ok (some x) → x.refs.length ≤ 255 :=
      fun e => ensures_ok ⟨hd.mono (by omega), fun x hx => by cases hx⟩
    rw [feedLoop]
    refine (ensures_add (by omega)).bind fun header hheader => ?_
    split_ifs with hmore
    · refine (ensures_readSegment hdata (by omega)).bind fun r hr => ?_
      cases r with
      | none => exact hfail _
      | some segment =>
        obtain ⟨segType, body, next⟩ := segment
        obtain ⟨hnext, hend⟩ := hr _ _ _ rfl
        have hskip := hd.mono (m := n + next) (by omega)
        dsimp only
        by_cases hpcs : segType = 0x16
        · rw [if_pos hpcs]
          by_cases hshort : body.length < 11
          · rw [if_pos hshort]
            exact hfail _
          · rw [if_neg hshort]
            refine (ensures_present d (by omega)).bind fun ⟨d', c'⟩ hpresent => ?_
            obtain ⟨hd', hrefs⟩ := hpresent
            dsimp only at hd' hrefs ⊢
            refine ih ?_ (fun x hx => Option.some.inj hx ▸ hrefs) hend (by omega)
            rcases hd' with rfl | rfl
            · exact hskip
            · exact PgsDecoder.empty_held _
        rw [if_neg hpcs]
        by_cases hpds : segType = 0x14
        · rw [if_pos hpds]
          exact (ensures_definePalette rgb hskip body).bind fun d' hd' => ih hd' hc hend (by omega)
        rw [if_neg hpds]
        by_cases hods : segType = 0x15
        · rw [if_pos hods]
          refine (ensures_defineObject hd body).bind fun d' hd' => ?_
          exact ih (hd'.mono (by omega)) hc hend (by omega)
        · rw [if_neg hods]
          exact ih hskip hc hend (by omega)
    · exact hstop

/-! ## Sets -/

/-- A whole object of sixteen-bit sides. -/
def Bounded (o : ImageObject) : Prop := Whole o ∧ o.w < 2 ^ 16 ∧ o.h < 2 ^ 16

theorem ensures_composeObject {n : ℕ} (hn : n < 2 ^ 50) {d : PgsDecoder} (hd : d.Held n)
    {palette : List Bytes} (hpalette : PaletteOk palette) (ref : ℕ × ℕ × ℕ) :
    Ensures (composeObject d palette ref) fun r => ∀ o ∈ r, Bounded o := by
  unfold composeObject
  cases hobj : d.objects ref.1 with
  | none => exact ensures_ok (by simp)
  | some obj =>
    obtain ⟨hrle, hw, hh⟩ := hd.objects _ obj hobj
    dsimp only
    split_ifs
    · exact ensures_ok (by simp)
    · refine (ensures_pgsRleDecode (by omega) hw hh hpalette).bind fun r hr => ?_
      cases r with
      | error e => exact ensures_ok (by simp)
      | ok rgba =>
        refine ensures_ok fun o ho => ?_
        obtain rfl := Option.some.inj ho
        exact ⟨hr rgba rfl, hw, hh⟩

/-- A set of at most 255 bounded objects. -/
def SetOk (s : DisplaySet) : Prop := s.objects.length ≤ 255 ∧ ∀ o ∈ s.objects, Bounded o

theorem ensures_compose {n : ℕ} (hn : n < 2 ^ 50) {d : PgsDecoder} (hd : d.Held n) {c : Composition}
    (hc : c.refs.length ≤ 255) : Ensures (compose d c) SetOk := by
  have hpalette : PaletteOk ((d.palettes c.paletteId).getD (List.replicate 256 [0, 0, 0, 0])) := by
    cases hp : d.palettes c.paletteId with
    | some palette => exact hd.palettes _ palette hp
    | none => exact ⟨List.length_replicate, fun px hpx => List.eq_of_mem_replicate hpx ▸ rfl⟩
  refine (Ensures.mapM fun ref _ => ensures_composeObject hn hd hpalette ref).bind fun os hos => ?_
  refine ensures_ok ⟨?_, fun o ho => ?_⟩
  · exact Nat.le_trans (List.length_filterMap_le _ _) (hos.1.trans_le hc)
  · obtain ⟨r, hr, heq⟩ := List.mem_filterMap.mp ho
    exact hos.2 r hr o heq

/-- A payload is fed to its end; its set is whole, and what is held grows by the payload at most. -/
theorem feed_ensures (rgb : UInt8 → UInt8 → UInt8 → UInt8 × UInt8 × UInt8) {n : ℕ} {data : Bytes}
    (hn : n + data.length < 2 ^ 50) {d : PgsDecoder} (hd : d.Held n) :
    Ensures (feed rgb d data) fun r =>
      r.1.Held (n + data.length) ∧ ∀ s, r.2 = .ok (some s) → SetOk s := by
  have hstart : d.Held (n + 0) := hd
  refine (ensures_feedLoop rgb (by omega) hstart (by simp) (Nat.zero_le _) (by omega)).bind
    fun ⟨d', r⟩ hloop => ?_
  obtain ⟨hd', hrefs⟩ := hloop
  match r with
  | .error e => exact ensures_ok ⟨hd', fun s hs => by cases hs⟩
  | .ok none => exact ensures_ok ⟨hd', fun s hs => by cases hs⟩
  | .ok (some c) =>
    refine (ensures_compose hn hd' (hrefs c rfl)).bind fun s hs => ensures_ok ⟨hd', fun s' hs' => ?_⟩
    exact Option.some.inj (Except.ok.inj hs') ▸ hs

/-! ## Runs -/

/-- Payload after payload: the decoder at the end and what each returned. -/
def feedAll (rgb : UInt8 → UInt8 → UInt8 → UInt8 × UInt8 × UInt8) : PgsDecoder → List Bytes →
    Checked (PgsDecoder × List (Except Failure (Option DisplaySet)))
  | d, [] => return (d, [])
  | d, data :: payloads => do
    let (d, r) ← feed rgb d data
    let (d, rs) ← feedAll rgb d payloads
    return (d, r :: rs)

/-- The bytes of the payloads. -/
def totalLength (payloads : List Bytes) : ℕ := (payloads.map List.length).sum

/-- Any run goes through, and every set of it is whole. -/
theorem feedAll_ensures (rgb : UInt8 → UInt8 → UInt8 → UInt8 × UInt8 × UInt8) {n : ℕ}
    {payloads : List Bytes} (hn : n + totalLength payloads < 2 ^ 50) {d : PgsDecoder} (hd : d.Held n) :
    Ensures (feedAll rgb d payloads) fun r =>
      r.1.Held (n + totalLength payloads) ∧ ∀ s, .ok (some s) ∈ r.2 → SetOk s := by
  induction payloads generalizing n d with
  | nil => exact ensures_ok ⟨hd, by simp⟩
  | cons data payloads ih =>
    have htotal : totalLength (data :: payloads) = data.length + totalLength payloads := by
      rw [totalLength, List.map_cons, List.sum_cons, totalLength]
    rw [htotal] at hn ⊢
    refine (feed_ensures rgb (by omega) hd).bind fun ⟨d', r⟩ hfeed => ?_
    obtain ⟨hd', hset⟩ := hfeed
    refine (ih (by omega) hd').bind fun ⟨d'', rs⟩ hrest => ensures_ok ⟨?_, fun s hs => ?_⟩
    · rw [← Nat.add_assoc]
      exact hrest.1
    · rcases List.mem_cons.mp hs with hs | hs
      · exact hset s hs.symm
      · exact hrest.2 s hs

/-! ## Epochs -/

/-- From `pos` on the payload has a presentation that starts an epoch, and no error before it. -/
inductive StartsEpoch (data : Bytes) : ℕ → Prop
  | here {pos next : ℕ} {body : Bytes} {state : UInt8} (header : pos + 3 ≤ data.length)
      (segment : readSegment data pos = .ok (some (0x16, body, next)))
      (long : 11 ≤ body.length) (flags : body[7]? = some state) (start : state &&& 0x80 ≠ 0) :
      StartsEpoch data pos
  | later {pos next : ℕ} {segType : UInt8} {body : Bytes} (header : pos + 3 ≤ data.length)
      (segment : readSegment data pos = .ok (some (segType, body, next)))
      (long : segType = 0x16 → 11 ≤ body.length) (rest : StartsEpoch data next) :
      StartsEpoch data pos

/-- A presentation that starts an epoch says the same to every decoder. -/
theorem present_start {body : Bytes} {state : UInt8} (flags : body[7]? = some state)
    (start : state &&& 0x80 ≠ 0) (d d' : PgsDecoder) : present d body = present d' body := by
  unfold present
  rw [index_eq flags]
  simp only [ok_bind, if_pos start]

/-- One round over a segment that can be read. -/
theorem feedLoop_segment (rgb : UInt8 → UInt8 → UInt8 → UInt8 × UInt8 × UInt8) {data : Bytes}
    {pos next : ℕ} {segType : UInt8} {body : Bytes} (hadd : pos + 3 < 2 ^ 64)
    (header : pos + 3 ≤ data.length)
    (segment : readSegment data pos = .ok (some (segType, body, next)))
    (long : segType = 0x16 → 11 ≤ body.length) (d : PgsDecoder) (c : Option Composition) (fuel : ℕ) :
    feedLoop rgb data (fuel + 1) pos d c =
      if segType = 0x16 then do
        let (d, c) ← present d body
        feedLoop rgb data fuel next d (some c)
      else if segType = 0x14 then do feedLoop rgb data fuel next (← definePalette rgb d body) c
      else if segType = 0x15 then do feedLoop rgb data fuel next (← defineObject d body) c
      else feedLoop rgb data fuel next d c := by
  rw [feedLoop, add_eq hadd, ok_bind, if_pos header, segment, ok_bind]
  by_cases hpcs : segType = 0x16
  · simp only [if_pos hpcs, if_neg (Nat.not_lt.mpr (long hpcs))]
  · simp only [if_neg hpcs]

/-- From any two decoders the loop comes to the same, once it passes an epoch start. -/
theorem feedLoop_startsEpoch (rgb : UInt8 → UInt8 → UInt8 → UInt8 × UInt8 × UInt8) {data : Bytes}
    {pos : ℕ} (h : StartsEpoch data pos) {n n' : ℕ} {d d' : PgsDecoder} (hd : d.Held n)
    (hd' : d'.Held n') (c c' : Option Composition) (fuel : ℕ) :
    feedLoop rgb data fuel pos d c = feedLoop rgb data fuel pos d' c' := by
  induction h generalizing n n' d d' c c' fuel with
  | @here pos next body state header segment long flags start =>
    cases fuel with
    | zero => rfl
    | succ fuel =>
      by_cases hadd : pos + 3 < 2 ^ 64
      · rw [feedLoop_segment rgb hadd header segment fun _ => long,
          feedLoop_segment rgb hadd header segment fun _ => long, if_pos rfl, if_pos rfl,
          present_start flags start d d']
      · rw [feedLoop, feedLoop, add_overflow (Nat.not_lt.mp hadd), error_bind, error_bind]
  | @later pos next segType body header segment long rest ih =>
    cases fuel with
    | zero => rfl
    | succ fuel =>
      by_cases hadd : pos + 3 < 2 ^ 64
      · rw [feedLoop_segment rgb hadd header segment long,
          feedLoop_segment rgb hadd header segment long]
        split_ifs with hpcs hpds hods
        · obtain ⟨⟨d₁, c₁⟩, h₁, hreset, -⟩ := ensures_present d (long hpcs)
          obtain ⟨⟨d₂, c₂⟩, h₂, hreset', -⟩ := ensures_present d' (long hpcs)
          rw [h₁, h₂, ok_bind, ok_bind]
          have held₁ : d₁.Held n := by
            rcases hreset with heq | heq
            · exact (show d₁ = d from heq) ▸ hd
            · exact (show d₁ = .empty from heq) ▸ PgsDecoder.empty_held n
          have held₂ : d₂.Held n' := by
            rcases hreset' with heq | heq
            · exact (show d₂ = d' from heq) ▸ hd'
            · exact (show d₂ = .empty from heq) ▸ PgsDecoder.empty_held n'
          exact ih held₁ held₂ _ _ fuel
        · obtain ⟨d₁, h₁, held₁⟩ := ensures_definePalette rgb hd body
          obtain ⟨d₂, h₂, held₂⟩ := ensures_definePalette rgb hd' body
          rw [h₁, h₂, ok_bind, ok_bind]
          exact ih held₁ held₂ _ _ fuel
        · obtain ⟨d₁, h₁, held₁⟩ := ensures_defineObject hd body
          obtain ⟨d₂, h₂, held₂⟩ := ensures_defineObject hd' body
          rw [h₁, h₂, ok_bind, ok_bind]
          exact ih held₁ held₂ _ _ fuel
        · exact ih hd hd' _ _ fuel
      · rw [feedLoop, feedLoop, add_overflow (Nat.not_lt.mp hadd), error_bind, error_bind]

/-- A payload that starts an epoch is fed alike to every decoder, which it leaves alike. -/
theorem feed_startsEpoch (rgb : UInt8 → UInt8 → UInt8 → UInt8 × UInt8 × UInt8) {data : Bytes}
    (h : StartsEpoch data 0) {n n' : ℕ} {d d' : PgsDecoder} (hd : d.Held n) (hd' : d'.Held n') :
    feed rgb d data = feed rgb d' data := by
  rw [feed, feedLoop_startsEpoch rgb h hd hd' none none, feed]

/-- From an epoch start on, a run depends on the payloads since then only. -/
theorem feedAll_startsEpoch (rgb : UInt8 → UInt8 → UInt8 → UInt8 × UInt8 × UInt8) {data : Bytes}
    (h : StartsEpoch data 0) {n n' : ℕ} {d d' : PgsDecoder} (hd : d.Held n) (hd' : d'.Held n')
    (payloads : List Bytes) :
    feedAll rgb d (data :: payloads) = feedAll rgb d' (data :: payloads) := by
  rw [feedAll, feedAll, feed_startsEpoch rgb h hd hd']

end Kahawai.Media.ImageSubs
