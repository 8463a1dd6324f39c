import Kahawai.Media.Burnin.Timeline
import Kahawai.Media.VobsubFile.Assembly

/-!
# VobSub bitmaps

`vobsub_decode` (`crates/kahawai-media/src/imagesubs.rs`, lines 300–420) with its arithmetic and its
accesses checked: the control sequences of a unit give the place, the colours and the two fields of
a bitmap, which is written run by run.

Results:
* `vobsubDecode_ensures`: it returns for every unit and palette, and the object has four bytes for
  each of its pixels, 4096 by 4096 of them at most.
-/

namespace Kahawai.Media.ImageSubs

open Kahawai.Core Kahawai.Lib Kahawai.Lib.Codec Kahawai.Lib.Checked Kahawai.Media.Burnin
  Kahawai.Media.VobsubFile

/-! ## Model -/

/-- What the control sequences set (lines 309–311). -/
structure Controls where
  palIdx : Bytes
  alpha : Bytes
  x1 : ℕ
  x2 : ℕ
  y1 : ℕ
  y2 : ℕ
  topAt : ℕ
  botAt : ℕ

/-- The values before any command. -/
def Controls.initial : Controls := ⟨[0, 0, 0, 0], [0, 0, 0, 0], 0, 0, 0, 0, 0, 0⟩

/-- `spu.get(pos + 1..pos + 1 + n)` (line 323). -/
def operand (spu : Bytes) (pos n : ℕ) : Checked (Option Bytes) := do
  let start ← add 64 pos 1
  let _ ← add 64 start n
  return getRange spu start n

/-- The four half bytes of an operand (lines 329 and 334). -/
def nibbles (b : Bytes) : Checked Bytes := do
  let b0 ← index b 0
  let b1 ← index b 1
  return [b0 >>> 4, b0 &&& 0xF, b1 >>> 4, b1 &&& 0xF]

/-- The command `05` (lines 337–344). -/
def setArea (c : Controls) (b : Bytes) : Checked Controls := do
  let b0 ← index b 0
  let b1 ← index b 1
  let b2 ← index b 2
  let b3 ← index b 3
  let b4 ← index b 4
  let b5 ← index b 5
  return { c with
    x1 := b0.toNat <<< 4 ||| (b1 >>> 4).toNat
    x2 := (b1 &&& 0xF).toNat <<< 8 ||| b2.toNat
    y1 := b3.toNat <<< 4 ||| (b4 >>> 4).toNat
    y2 := (b4 &&& 0xF).toNat <<< 8 ||| b5.toNat }

/-- The command `06` (lines 345–350). -/
def setFields (c : Controls) (b : Bytes) : Checked Controls := do
  let b0 ← index b 0
  let b1 ← index b 1
  let b2 ← index b 2
  let b3 ← index b 3
  return { c with topAt := 256 * b0.toNat + b1.toNat, botAt := 256 * b2.toNat + b3.toNat }

/-- The walk over the commands from `pos` on (lines 322–354). -/
def readControls (spu : Bytes) : (fuel pos : ℕ) → Controls → Checked Controls
  | 0, _, _ => .error .unfinished
  | fuel + 1, pos, c =>
    if pos < spu.length then do
      match ← index spu pos with
      | 0x00 | 0x01 => readControls spu fuel (← add 64 pos 1) c
      | 0x02 => return c
      | 0x03 =>
        match ← operand spu pos 2 with
        | none => return c
        | some b => readControls spu fuel (← add 64 pos 3) { c with palIdx := ← nibbles b }
      | 0x04 =>
        match ← operand spu pos 2 with
        | none => return c
        | some b => readControls spu fuel (← add 64 pos 3) { c with alpha := ← nibbles b }
      | 0x05 =>
        match ← operand spu pos 6 with
        | none => return c
        | some b => readControls spu fuel (← add 64 pos 7) (← setArea c b)
      | 0x06 =>
        match ← operand spu pos 4 with
        | none => return c
        | some b => readControls spu fuel (← add 64 pos 5) (← setFields c b)
      | 0xFF => return c
      | _ => readControls spu fuel (← add 64 pos 1) c
    else return c

/-- The closure `read` (lines 367–374): a half byte of the unit. -/
def readNibble (spu : Bytes) (n : ℕ) : UInt8 :=
  let byte := (spu[n / 2]?).getD 0
  if n % 2 = 0 then byte >>> 4 else byte &&& 0xF

/-- `v << 4 | read(nib)`, and the next half byte. -/
def widen (spu : Bytes) (v nib : ℕ) : Checked (ℕ × ℕ) := do
  return (v <<< 4 ||| (readNibble spu nib).toNat, ← add 64 nib 1)

/-- A code of one to four half bytes at `nib` (lines 378–395), in a line that has reached `x`. -/
def readCode (spu : Bytes) (w x nib : ℕ) : Checked (ℕ × ℕ) := do
  let (v, nib) ← widen spu 0 nib
  if v < 0x4 then
    let (v, nib) ← widen spu v nib
    if v < 0x10 then
      let (v, nib) ← widen spu v nib
      if v < 0x40 then
        let (v, nib) ← widen spu v nib
        -- 0x000c: fill to the end of the line
        if v < 4 then return (v ||| (← sub w x) <<< 2, nib)
        else return (v, nib)
      else return (v, nib)
    else return (v, nib)
  else return (v, nib)

/-- The pixels of a run (lines 401–405). -/
def paintRun (px : Bytes) (w y : ℕ) : (run x : ℕ) → Bytes → Checked (ℕ × Bytes)
  | 0, x, out => return (x, out)
  | run + 1, x, out => do
    let o ← mul 64 (← add 64 (← mul 64 y w) x) 4
    let _ ← add 64 o 4
    let out ← copyAt out o px
    paintRun px w y run (← add 64 x 1) out

/-- The pixel of a colour (lines 398–400 and 403); the control order is reversed. -/
def pixel (palette16 : List (ℕ × ℕ × ℕ)) (c : Controls) (color : ℕ) : Checked Bytes := do
  let slot ← sub 3 color
  let pi ← index c.palIdx slot
  let a ← index c.alpha slot
  let (r, g, b) := (palette16[pi.toNat]?).getD (0, 0, 0)
  return [UInt8.ofNat r, UInt8.ofNat g, UInt8.ofNat b, a <<< 4 ||| a]

/-- The runs of one field (lines 375–411). -/
def decodeField (spu : Bytes) (palette16 : List (ℕ × ℕ × ℕ)) (c : Controls) (w h : ℕ) :
    (fuel y x nib : ℕ) → Bytes → Checked Bytes
  | 0, _, _, _, _ => .error .unfinished
  | fuel + 1, y, x, nib, out =>
    if y < h ∧ nib / 2 < spu.length then do
      let (v, nib) ← readCode spu w x nib
      let run := min (v >>> 2) (← sub w x)
      let px ← pixel palette16 c (v &&& 3)
      let (x, out) ← paintRun px w y run x out
      if w ≤ x then
        -- the next line of this field begins at a byte
        decodeField spu palette16 c w h fuel (← add 64 y 2) 0 ((← add 64 nib 1) / 2 * 2) out
      else decodeField spu palette16 c w h fuel y x nib out
    else return out

/-- The two interlaced fields (lines 365–412). -/
def decodeFields (spu : Bytes) (palette16 : List (ℕ × ℕ × ℕ)) (c : Controls) (w h : ℕ)
    (out : Bytes) : Checked Bytes := do
  let out ← decodeField spu palette16 c w h (2 * spu.length + 1) 0 0 (← mul 64 c.topAt 2) out
  decodeField spu palette16 c w h (2 * spu.length + 1) 1 0 (← mul 64 c.botAt 2) out

/-- `vobsub_decode` (lines 300–420). -/
def vobsubDecode (spu : Bytes) (palette16 : List (ℕ × ℕ × ℕ)) :
    Checked (Except Failure (Option ImageObject)) :=
  if spu.length < 6 then return .ok none
  else do
    let ctrlAt := 256 * (← index spu 2).toNat + (← index spu 3).toNat
    if spu.length ≤ ctrlAt then return .error (.bail (lit "SPU control offset out of range"))
    else
      let c ← readControls spu (spu.length + 1) (← add 64 ctrlAt 4) .initial
      if c.x2 < c.x1 ∨ c.y2 < c.y1 ∨ c.topAt = 0 then return .ok none
      else
        let w ← add 64 (← sub c.x2 c.x1) 1
        let h ← add 64 (← sub c.y2 c.y1) 1
        if w = 0 ∨ h = 0 ∨ 4096 < w ∨ 4096 < h then return .ok none
        else
          let size ← mul 64 (← mul 64 w h) 4
          let out ← decodeFields spu palette16 c w h (List.replicate size 0)
          return .ok (some ⟨c.x1, c.y1, w, h, out⟩)

/-! ## Commands -/

/-- What the commands can have set. -/
structure Controls.Typed (c : Controls) : Prop where
  palIdx : c.palIdx.length = 4
  alpha : c.alpha.length = 4
  x2 : c.x2 < 2 ^ 12
  y2 : c.y2 < 2 ^ 12
  topAt : c.topAt < 2 ^ 16
  botAt : c.botAt < 2 ^ 16

theorem Controls.initial_typed : Controls.initial.Typed :=
  ⟨rfl, rfl, by decide, by decide, by decide, by decide⟩

theorem ensures_operand {spu : Bytes} {pos n : ℕ} (hpos : pos < 2 ^ 63) (hn : n ≤ 6) :
    Ensures (operand spu pos n) fun b => ∀ bytes ∈ b, bytes.length = n := by
  refine (ensures_add (by omega)).bind fun start hstart => ?_
  refine (ensures_add (by omega)).bind fun _ _ => ensures_ok fun bytes hbytes => ?_
  unfold getRange at hbytes
  by_cases hfits : start + n ≤ spu.length
  · rw [if_pos hfits] at hbytes
    obtain rfl := Option.some.inj hbytes
    rw [List.length_take, List.length_drop]
    omega
  · rw [if_neg hfits] at hbytes
    cases hbytes

theorem ensures_nibbles {b : Bytes} (h : b.length = 2) :
    Ensures (nibbles b) (·.length = 4) := by
  refine (ensures_index (by omega)).bind fun b0 _ => ?_
  exact (ensures_index (by omega)).bind fun b1 _ => ensures_ok rfl

/-- A half byte and a byte. -/
theorem halfByte_or_lt (a b : UInt8) : (a &&& 0xF).toNat <<< 8 ||| b.toNat < 2 ^ 12 := by
  have ha : (a &&& 0xF).toNat < 2 ^ 4 := by
    rw [UInt8.toNat_and]
    exact Nat.and_lt_two_pow _ (by decide)
  have hb : b.toNat < 2 ^ 8 := b.toNat_lt
  refine Nat.or_lt_two_pow ?_ (by omega)
  rw [Nat.shiftLeft_eq]
  omega

theorem ensures_setArea {c : Controls} (hc : c.Typed) {b : Bytes} (h : b.length = 6) :
    Ensures (setArea c b) Controls.Typed := by
  refine (ensures_index (by omega)).bind fun b0 _ => ?_
  refine (ensures_index (by omega)).bind fun b1 _ => ?_
  refine (ensures_index (by omega)).bind fun b2 _ => ?_
  refine (ensures_index (by omega)).bind fun b3 _ => ?_
  refine (ensures_index (by omega)).bind fun b4 _ => ?_
  refine (ensures_index (by omega)).bind fun b5 _ => ?_
  exact ensures_ok ⟨hc.palIdx, hc.alpha, halfByte_or_lt b1 b2, halfByte_or_lt b4 b5, hc.topAt, hc.botAt⟩

theorem be_lt (a b : UInt8) : 256 * a.toNat + b.toNat < 2 ^ 16 := by
  have ha := a.toNat_lt
  have hb := b.toNat_lt
  omega

theorem ensures_setFields {c : Controls} (hc : c.Typed) {b : Bytes} (h : b.length = 4) :
    Ensures (setFields c b) Controls.Typed := by
  refine (ensures_index (by omega)).bind fun b0 _ => ?_
  refine (ensures_index (by omega)).bind fun b1 _ => ?_
  refine (ensures_index (by omega)).bind fun b2 _ => ?_
  refine (ensures_index (by omega)).bind fun b3 _ => ?_
  exact ensures_ok ⟨hc.palIdx, hc.alpha, hc.x2, hc.y2, be_lt b0 b1, be_lt b2 b3⟩

/-- Every command takes a byte at least. -/
theorem ensures_readControls {spu : Bytes} (hspu : spu.length < 2 ^ 63) {fuel pos : ℕ} {c : Controls}
    (hc : c.Typed) (hfuel : spu.length < pos + fuel) (hpos : 0 < fuel) :
    Ensures (readControls spu fuel pos c) Controls.Typed := by
  induction fuel generalizing pos c with
  | zero => omega
  | succ fuel ih =>
    rw [readControls]
    split_ifs with hin
    · have hnext : ∀ (n : ℕ) {set : Checked Controls}, Ensures set Controls.Typed → 0 < n → n ≤ 7 →
          Ensures (add 64 pos n >>= fun pos => set >>= fun c' => readControls spu fuel pos c')
            Controls.Typed := by
        intro n set hset hn hn7
        refine (ensures_add (by omega)).bind fun p hp => hset.bind fun c' hc' => ?_
        exact ih hc' (by omega) (by omega)
      refine (ensures_index hin).bind fun command _ => ?_
      split
      · exact hnext 1 (ensures_ok hc) (by omega) (by omega)
      · exact hnext 1 (ensures_ok hc) (by omega) (by omega)
      · exact ensures_ok hc
      · refine (ensures_operand (by omega) (by omega)).bind fun o ho => ?_
        cases o with
        | none => exact ensures_ok hc
        | some b =>
          refine (ensures_add (by omega)).bind fun p hp => ?_
          refine (ensures_nibbles (ho b rfl)).bind fun ns hns => ?_
          exact ih ⟨hns, hc.alpha, hc.x2, hc.y2, hc.topAt, hc.botAt⟩ (by omega) (by omega)
      · refine (ensures_operand (by omega) (by omega)).bind fun o ho => ?_
        cases o with
        | none => exact ensures_ok hc
        | some b =>
          refine (ensures_add (by omega)).bind fun p hp => ?_
          refine (ensures_nibbles (ho b rfl)).bind fun ns hns => ?_
          exact ih ⟨hc.palIdx, hns, hc.x2, hc.y2, hc.topAt, hc.botAt⟩ (by omega) (by omega)
      · refine (ensures_operand (by omega) (by omega)).bind fun o ho => ?_
        cases o with
        | none => exact ensures_ok hc
        | some b => exact hnext 7 (ensures_setArea hc (ho b rfl)) (by omega) (by omega)
      · refine (ensures_operand (by omega) (by omega)).bind fun o ho => ?_
        cases o with
        | none => exact ensures_ok hc
        | some b => exact hnext 5 (ensures_setFields hc (ho b rfl)) (by omega) (by omega)
      · exact ensures_ok hc
      · exact hnext 1 (ensures_ok hc) (by omega) (by omega)
    · exact ensures_ok hc

/-! ## Runs -/

/-- The bytes of a picture. -/
def Picture (w h : ℕ) (out : Bytes) : Prop := out.length = w * h * 4

theorem readNibble_lt (spu : Bytes) (n : ℕ) : (readNibble spu n).toNat < 2 ^ 4 := by
  unfold readNibble
  dsimp only
  split_ifs
  · have hlt := (spu[n / 2]?.getD 0).toNat_lt
    rw [UInt8.toNat_shiftRight, Nat.shiftRight_eq_div_pow]
    simp only [UInt8.reduceToNat, Nat.reduceMod]
    omega
  · rw [UInt8.toNat_and]
    exact Nat.and_lt_two_pow _ (by decide)

theorem ensures_widen (spu : Bytes) {v nib : ℕ} (h : nib + 1 < 2 ^ 64) :
    Ensures (widen spu v nib) fun r => r.2 = nib + 1 :=
  (ensures_add h).bind fun _ hn => ensures_ok hn

/-- A code paints a pixel at least. -/
theorem ensures_readCode (spu : Bytes) {w x nib : ℕ} (hx : x < w) (hnib : nib + 4 < 2 ^ 64) :
    Ensures (readCode spu w x nib) fun r => 4 ≤ r.1 ∧ nib < r.2 ∧ r.2 ≤ nib + 4 := by
  refine (ensures_widen spu (by omega)).bind fun ⟨v₁, n₁⟩ h₁ => ?_
  dsimp only at h₁ ⊢
  split_ifs with hv₁
  · refine (ensures_widen spu (by omega)).bind fun ⟨v₂, n₂⟩ h₂ => ?_
    dsimp only at h₂ ⊢
    split_ifs with hv₂
    · refine (ensures_widen spu (by omega)).bind fun ⟨v₃, n₃⟩ h₃ => ?_
      dsimp only at h₃ ⊢
      split_ifs with hv₃
      · refine (ensures_widen spu (by omega)).bind fun ⟨v₄, n₄⟩ h₄ => ?_
        dsimp only at h₄ ⊢
        split_ifs with hv₄
        · refine (ensures_sub (Nat.le_of_lt hx)).bind fun room hroom => ensures_ok ⟨?_, by omega, by omega⟩
          have hfill : room <<< 2 ≤ v₄ ||| room <<< 2 := Nat.right_le_or
          rw [Nat.shiftLeft_eq] at hfill ⊢
          omega
        · exact ensures_ok ⟨Nat.not_lt.mp hv₄, by omega, by omega⟩
      · exact ensures_ok ⟨by omega, by omega, by omega⟩
    · exact ensures_ok ⟨by omega, by omega, by omega⟩
  · exact ensures_ok ⟨by omega, by omega, by omega⟩

/-- The place of a pixel of the picture. -/
theorem place_lt {w h x y : ℕ} (hx : x < w) (hy : y < h) : y * w + x + 1 ≤ w * h := by
  calc y * w + x + 1 ≤ y * w + w := by omega
    _ = (y + 1) * w := (Nat.succ_mul y w).symm
    _ ≤ h * w := Nat.mul_le_mul_right w hy
    _ = w * h := Nat.mul_comm h w

theorem ensures_paintRun {px : Bytes} (hpx : px.length = 4) {w h y : ℕ} (hy : y < h)
    (hsize : w * h ≤ 2 ^ 24) {run x : ℕ} (hrun : x + run ≤ w) {out : Bytes} (hout : Picture w h out) :
    Ensures (paintRun px w y run x out) fun r => r.1 = x + run ∧ Picture w h r.2 := by
  induction run generalizing x out with
  | zero => exact ensures_ok ⟨rfl, hout⟩
  | succ run ih =>
    have hplace := place_lt (show x < w by omega) hy
    rw [paintRun]
    refine (ensures_mul (by omega)).bind fun row hrow => ?_
    refine (ensures_add (by omega)).bind fun cell hcell => ?_
    refine (ensures_mul (by omega)).bind fun o ho => ?_
    refine (ensures_add (by omega)).bind fun _ _ => ?_
    refine (ensures_copyAt (by rw [hpx, hout]; omega)).bind fun out' hout' => ?_
    refine (ensures_add (by omega)).bind fun x' hx' => ?_
    refine (ih (x := x') (by omega) (hout'.trans hout)).mono fun r hr => ⟨by omega, hr.2⟩

theorem ensures_pixel (palette16 : List (ℕ × ℕ × ℕ)) {c : Controls} (hc : c.Typed) (v : ℕ) :
    Ensures (pixel palette16 c (v &&& 3)) (·.length = 4) := by
  have hcolor : v &&& 3 ≤ 3 := Nat.and_le_right
  have hpal := hc.palIdx
  have halpha := hc.alpha
  refine (ensures_sub hcolor).bind fun slot hslot => ?_
  refine (ensures_index (by omega)).bind fun pi _ => ?_
  refine (ensures_index (by omega)).bind fun a _ => ?_
  exact ensures_ok rfl

/-! ## Fields -/

/-- Every code moves on in the picture and in the unit. The half bytes read are bounded by the pixels
    painted. -/
theorem ensures_decodeField (spu : Bytes) (palette16 : List (ℕ × ℕ × ℕ)) {c : Controls} (hc : c.Typed)
    {w h : ℕ} (hw : 0 < w) (hh : h ≤ 4096) (hsize : w * h ≤ 2 ^ 24) {fuel y x nib : ℕ} {out : Bytes}
    (hx : x < w) (hnib : nib ≤ 2 ^ 17 + 5 * (y * w + x)) (hfuel : 2 * spu.length < nib + fuel)
    (hpos : 0 < fuel) (hout : Picture w h out) :
    Ensures (decodeField spu palette16 c w h fuel y x nib out) (Picture w h) := by
  induction fuel generalizing y x nib out with
  | zero => omega
  | succ fuel ih =>
    rw [decodeField]
    by_cases hmore : y < h ∧ nib / 2 < spu.length
    · rw [if_pos hmore]
      obtain ⟨hy, hin⟩ := hmore
      have hplace := place_lt hx hy
      refine (ensures_readCode spu hx (by omega)).bind fun ⟨v, n⟩ hcode => ?_
      obtain ⟨hv, hlow, hhigh⟩ := hcode
      dsimp only at hv hlow hhigh ⊢
      refine (ensures_sub (Nat.le_of_lt hx)).bind fun room hroom => ?_
      refine (ensures_pixel palette16 hc v).bind fun px hpx => ?_
      have hrun : 0 < min (v >>> 2) room := by
        rw [Nat.shiftRight_eq_div_pow]
        omega
      refine (ensures_paintRun hpx hy hsize (by omega) hout).bind fun ⟨x', out'⟩ hpaint => ?_
      obtain ⟨hx', hout'⟩ := hpaint
      dsimp only at hx' hout' ⊢
      split_ifs with hline
      · refine (ensures_add (by omega)).bind fun y' hy' => ?_
        refine (ensures_add (by omega)).bind fun n' hn' => ?_
        have hrows : y' * w + 0 = y * w + 2 * w := by rw [hy', Nat.add_mul, Nat.add_zero]
        exact ih hw (by omega) (by omega) (by omega) hout'
      · exact ih (Nat.not_le.mp hline) (by omega) (by omega) (by omega) hout'
    · rw [if_neg hmore]
      exact ensures_ok hout

theorem ensures_decodeFields (spu : Bytes) (palette16 : List (ℕ × ℕ × ℕ)) {c : Controls} (hc : c.Typed)
    {w h : ℕ} (hw : 0 < w) (hh : h ≤ 4096) (hsize : w * h ≤ 2 ^ 24) {out : Bytes}
    (hout : Picture w h out) :
    Ensures (decodeFields spu palette16 c w h out) (Picture w h) := by
  have htop := hc.topAt
  have hbot := hc.botAt
  refine (ensures_mul (by omega)).bind fun top htop' => ?_
  refine (ensures_decodeField spu palette16 hc hw hh hsize hw (by omega) (by omega) (by omega)
    hout).bind fun out' hout' => ?_
  refine (ensures_mul (by omega)).bind fun bot hbot' => ?_
  exact ensures_decodeField spu palette16 hc hw hh hsize hw (by omega) (by omega) (by omega) hout'

/-! ## The unit -/

/-- An object with four bytes for each of its pixels. -/
def Whole (o : ImageObject) : Prop := o.rgba.length = o.w * o.h * 4

/-- `vobsub_decode` returns for every unit and palette; the object is whole and at most 4096 by
    4096. -/
theorem vobsubDecode_ensures {spu : Bytes} (hspu : spu.length < 2 ^ 63)
    (palette16 : List (ℕ × ℕ × ℕ)) :
    Ensures (vobsubDecode spu palette16) fun r =>
      ∀ o, r = .ok (some o) → Whole o ∧ o.w ≤ 4096 ∧ o.h ≤ 4096 := by
  unfold vobsubDecode
  by_cases hshort : spu.length < 6
  · rw [if_pos hshort]
    exact ensures_ok fun o ho => by cases ho
  rw [if_neg hshort]
  refine (ensures_index (by omega)).bind fun b2 _ => ?_
  refine (ensures_index (by omega)).bind fun b3 _ => ?_
  have hctrl := be_lt b2 b3
  dsimp only
  split_ifs with hrange
  · exact ensures_ok fun o ho => by cases ho
  refine (ensures_add (by omega)).bind fun start hstart => ?_
  refine (ensures_readControls hspu Controls.initial_typed (by omega) (by omega)).bind fun c hc => ?_
  split_ifs with hempty
  · exact ensures_ok fun o ho => by cases ho
  have hx2 := hc.x2
  have hy2 := hc.y2
  refine (ensures_sub (by omega)).bind fun dx hdx => ?_
  refine (ensures_add (by omega)).bind fun w hw => ?_
  refine (ensures_sub (by omega)).bind fun dy hdy => ?_
  refine (ensures_add (by omega)).bind fun h hh => ?_
  split_ifs with hlarge
  · exact ensures_ok fun o ho => by cases ho
  have hsize : w * h ≤ 4096 * 4096 := Nat.mul_le_mul (by omega) (by omega)
  refine (ensures_mul (by omega)).bind fun area harea => ?_
  refine (ensures_mul (by omega)).bind fun size hs => ?_
  refine (ensures_decodeFields spu palette16 hc (by omega) (by omega) hsize
    (by rw [Picture, List.length_replicate, hs, harea])).bind fun out hout => ?_
  refine ensures_ok fun o ho => ?_
  obtain rfl := Option.some.inj (Except.ok.inj ho)
  exact ⟨hout, by dsimp only; omega, by dsimp only; omega⟩

end Kahawai.Media.ImageSubs
