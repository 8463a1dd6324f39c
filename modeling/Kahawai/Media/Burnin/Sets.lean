import Kahawai.Core.Text
import Kahawai.Lib.Codec
import Kahawai.Lib.Programs
import Kahawai.Lib.Utf8

/-!
# Display-set files

`encode_sets`, `encode_sets_zstd` and `decode_sets` (`crates/kahawai-media/src/burnin.rs`, lines
166–249): the file in which the hub hands a worker the blocks of an image track, and
`store_image_sets` (`crates/kahawai-hub/src/subtitles.rs`, lines 869–912), which writes it.

`KBS1`, the codec behind two bytes of length, its private data behind four, then for each block
its start and duration (eight bytes each) and the payload behind four bytes of length. A
compressed file is told by the magic number of its frame. The library zstd is a parameter.

Results:
* `decodeRaw_eq_ok`: what a file decodes to, with no reference to the cursor.
* `bails_decodeSets`: a decoder that ends with an error says so; it does not panic.
* `sets_travel_iff`: both round trips, and when a file is the encoding of what it decodes to.
-/

namespace Kahawai.Media.Burnin

open Kahawai.Core Kahawai.Lib Kahawai.Lib.Codec

/-- `SetBlock`: start, duration and payload. -/
abbrev SetBlock := ℕ × Option ℕ × Bytes

/-- How a decoder ends without a result. -/
inductive Failure
  /-- An error with its text. -/
  | bail (message : Text)
  | panic
  /-- A loop has not ended in as many rounds as the file has bytes. -/
  | endless
  deriving DecidableEq

/-- `zstd::encode_all` and `zstd::decode_all`. -/
structure Zstd where
  encodeAll : Bytes → (level : ℕ) → Option Bytes
  decodeAll : Bytes → Option Bytes

def zstdMagic : Bytes := [0x28, 0xB5, 0x2F, 0xFD]

/-- `b"KBS1"`. -/
def kbs1 : Bytes := [0x4B, 0x42, 0x53, 0x31]

/-! ## Writing -/

/-- One block of the file (lines 203–206). -/
def encodeBlock (b : SetBlock) : Bytes :=
  le 8 b.1 ++ le 8 (b.2.1.getD 0) ++ le 4 b.2.2.length ++ b.2.2

/-- `encode_sets` for the bytes of the codec; `as u16` and `as u32` cut a length as `le` does. -/
def encodeBytes (codec priv : Bytes) (blocks : List SetBlock) : Bytes :=
  kbs1 ++ le 2 codec.length ++ codec ++ le 4 priv.length ++ priv ++ blocks.flatMap encodeBlock

/-- `encode_sets` (lines 193–209). -/
def encodeSets (codec : Text) (codecPrivate : Option Bytes) (blocks : List SetBlock) : Bytes :=
  encodeBytes (Utf8.encode codec) (codecPrivate.getD []) blocks

/-- `encode_sets_zstd` (lines 188–191). -/
def encodeSetsZstd (z : Zstd) (codec : Text) (codecPrivate : Option Bytes)
    (blocks : List SetBlock) : Bytes :=
  let raw := encodeSets codec codecPrivate blocks
  (z.encodeAll raw 9).getD raw

/-! ## Reading -/

/-- `take` of `decode_sets`: the next `n` bytes and the position behind them. An end that does
    not fit a `usize` lies behind the data too. -/
def take (data : Bytes) (p n : ℕ) : Except Failure (Bytes × ℕ) :=
  if p + n ≤ data.length then .ok ((data.drop p).take n, p + n)
  else .error (.bail (lit "display-set file truncated"))

/-- `from_le_bytes(bytes.try_into().unwrap())` for a number of `width` bytes. -/
def fromLe (width : ℕ) (bytes : Bytes) : Except Failure ℕ :=
  if bytes.length = width then .ok (ofLe bytes) else .error .panic

/-- `from_le_bytes(take(..)?.try_into().unwrap())`. -/
def readLe (data : Bytes) (p width : ℕ) : Except Failure (ℕ × ℕ) := do
  let (bytes, p) ← take data p width
  return (← fromLe width bytes, p)

/-- The loop over the blocks (lines 237–246), at most `fuel` rounds of it. -/
def decodeBlocks (data : Bytes) : (fuel p : ℕ) → Except Failure (List SetBlock)
  | 0, p => if p < data.length then .error .endless else .ok []
  | fuel + 1, p =>
    if p < data.length then do
      let (start, p) ← readLe data p 8
      let (dur, p) ← readLe data p 8
      let (n, p) ← readLe data p 4
      let (payload, p) ← take data p n
      return (start, if 0 < dur then some dur else none, payload) :: (← decodeBlocks data fuel p)
    else .ok []

/-- The private data (lines 233–235): no bytes, no data. -/
def takePrivate (data : Bytes) (p n : ℕ) : Except Failure (Option Bytes × ℕ) :=
  if 0 < n then (take data p n).map fun r => (some r.1, r.2) else .ok (none, p)

/-- `decode_sets` from line 227 on, for data that is not compressed. -/
def decodeRaw (data : Bytes) : Except Failure (Text × Option Bytes × List SetBlock) := do
  let (magic, p) ← take data 0 4
  if magic ≠ kbs1 then .error (.bail (lit "not a display-set file"))
  else
    let (n, p) ← readLe data p 2
    let (codec, p) ← take data p n
    let (n, p) ← readLe data p 4
    let (priv, p) ← takePrivate data p n
    return (Utf8.fromUtf8Lossy codec, priv, ← decodeBlocks data data.length p)

/-- `decode_sets` (lines 216–249). -/
def decodeSets (z : Zstd) (data : Bytes) : Except Failure (Text × Option Bytes × List SetBlock) :=
  if zstdMagic.isPrefixOf data then
    match z.decodeAll data with
    | none => .error (.bail (lit "inflating display-set file"))
    | some inflated => decodeRaw inflated
  else decodeRaw data

/-- `validate_sets` (lines 212–214). -/
def validateSets (z : Zstd) (data : Bytes) : Except Failure Unit :=
  (decodeSets z data).map fun _ => ()

/-! ## What is written -/

/-- A block as the producers build it. -/
structure SetBlock.Built (b : SetBlock) : Prop where
  start : b.1 < 2 ^ 64
  duration : ∀ d, b.2.1 = some d → 0 < d ∧ d < 2 ^ 64
  payload : b.2.2.length < 2 ^ 32

/-- The private data as the producers build it: absent or not empty. -/
def BuiltPrivate (priv : Option Bytes) : Prop :=
  ∀ bytes, priv = some bytes → bytes ≠ [] ∧ bytes.length < 2 ^ 32

/-- What `encode_sets` is handed. -/
structure Built (codec : Text) (priv : Option Bytes) (blocks : List SetBlock) : Prop where
  codec : (Utf8.encode codec).length < 2 ^ 16
  priv : BuiltPrivate priv
  blocks : ∀ b ∈ blocks, b.Built

/-- `message ImageSubtitles`, the fields that `store_image_sets` writes. -/
structure ImageSubtitles where
  codec : Text
  codecPrivate : Bytes
  blocks : List (ℕ × ℕ × Bytes)

/-- The file of `store_image_sets` (lines 893–907). -/
def ImageSubtitles.sets (m : ImageSubtitles) : Text × Option Bytes × List SetBlock :=
  (m.codec, if m.codecPrivate ≠ [] then some m.codecPrivate else none,
    m.blocks.map fun b => (b.1, if 0 < b.2.1 then some b.2.1 else none, b.2.2))

/-- The hub hands over what is built, within the limits of the format. -/
theorem ImageSubtitles.built (m : ImageSubtitles) (hcodec : (Utf8.encode m.codec).length < 2 ^ 16)
    (hpriv : m.codecPrivate.length < 2 ^ 32)
    (hblocks : ∀ b ∈ m.blocks, b.1 < 2 ^ 64 ∧ b.2.1 < 2 ^ 64 ∧ b.2.2.length < 2 ^ 32) :
    Built m.sets.1 m.sets.2.1 m.sets.2.2 where
  codec := hcodec
  priv := by
    intro bytes h
    simp only [sets] at h
    split_ifs at h with hne
    rw [← Option.some.inj h]
    exact ⟨hne, hpriv⟩
  blocks := by
    intro b hb
    obtain ⟨c, hc, rfl⟩ := List.mem_map.mp hb
    obtain ⟨hstart, hdur, hpayload⟩ := hblocks c hc
    refine ⟨hstart, fun d hd => ?_, hpayload⟩
    simp only at hd
    split_ifs at hd with hpos
    rw [← Option.some.inj hd]
    exact ⟨hpos, hdur⟩

/-! ## What is read -/

theorem drop_add_length {α : Type} {data x y : List α} {p : ℕ} (h : data.drop p = x ++ y) :
    data.drop (p + x.length) = y := by
  rw [← List.drop_drop, h, List.drop_left]

theorem add_length_le {α : Type} {data x y : List α} {p : ℕ} (hp : p ≤ data.length)
    (h : data.drop p = x ++ y) : p + x.length ≤ data.length := by
  have hlength := congrArg List.length h
  rw [List.length_drop, List.length_append] at hlength
  omega

section Cursor

variable {data : Bytes} {p q n width : ℕ} {bytes : Bytes}

theorem take_sound (h : take data p n = .ok (bytes, q)) :
    bytes.length = n ∧ q = p + n ∧ q ≤ data.length ∧ data.drop p = bytes ++ data.drop q := by
  unfold take at h
  split_ifs at h with hend
  obtain ⟨rfl, rfl⟩ := Prod.mk.injEq .. ▸ Except.ok.inj h
  refine ⟨?_, rfl, hend, ?_⟩
  · rw [List.length_take, List.length_drop]
    omega
  · rw [← List.drop_drop, List.take_append_drop]

theorem take_complete {rest : Bytes} (hp : p ≤ data.length) (h : data.drop p = bytes ++ rest) :
    take data p bytes.length = .ok (bytes, p + bytes.length) ∧
      data.drop (p + bytes.length) = rest ∧ p + bytes.length ≤ data.length := by
  have hend := add_length_le hp h
  have htake : (data.drop p).take bytes.length = bytes := by
    rw [h]
    exact List.take_left
  refine ⟨?_, drop_add_length h, hend⟩
  rw [take, if_pos hend, htake]

theorem fromLe_of_length (h : bytes.length = width) : fromLe width bytes = .ok (ofLe bytes) :=
  if_pos h

theorem readLe_sound (h : readLe data p width = .ok (n, q)) :
    n < 256 ^ width ∧ q = p + width ∧ q ≤ data.length ∧ data.drop p = le width n ++ data.drop q := by
  unfold readLe at h
  obtain ⟨⟨bytes, r⟩, htake, h⟩ := except_bind_eq_ok.mp h
  obtain ⟨m, hm, h⟩ := except_bind_eq_ok.mp h
  obtain ⟨hlength, hr, hend, hdrop⟩ := take_sound htake
  rw [fromLe_of_length hlength] at hm
  obtain rfl := Except.ok.inj hm
  obtain ⟨rfl, rfl⟩ := Prod.mk.injEq .. ▸ Except.ok.inj h
  rw [← hlength, le_ofLe]
  exact ⟨ofLe_lt bytes, hr.trans (hlength ▸ rfl), hend, hdrop⟩

theorem readLe_complete {rest : Bytes} (hp : p ≤ data.length) (hn : n < 256 ^ width)
    (h : data.drop p = le width n ++ rest) :
    readLe data p width = .ok (n, p + width) ∧ data.drop (p + width) = rest ∧
      p + width ≤ data.length := by
  obtain ⟨htake, hdrop, hend⟩ := take_complete hp h
  rw [length_le] at htake hdrop hend
  have hvalue : fromLe width (le width n) = .ok n := by
    rw [fromLe_of_length (length_le width n), ofLe_le hn]
  exact ⟨except_bind_eq_ok.mpr ⟨_, htake, except_bind_eq_ok.mpr ⟨n, hvalue, rfl⟩⟩, hdrop, hend⟩

end Cursor

/-! ## The blocks -/

theorem encodeBlock_ne_nil (b : SetBlock) : encodeBlock b ≠ [] := by
  apply List.ne_nil_of_length_pos
  simp only [encodeBlock, List.length_append, length_le]
  omega

/-- A duration of zero is undeclared. -/
theorem getD_ite (d : ℕ) : (if 0 < d then some d else none : Option ℕ).getD 0 = d := by
  split_ifs with h
  · rfl
  · rw [Option.getD_none]
    omega

theorem SetBlock.Built.ite_getD {b : SetBlock} (h : b.Built) :
    (if 0 < b.2.1.getD 0 then some (b.2.1.getD 0) else none) = b.2.1 := by
  cases hd : b.2.1 with
  | none => rfl
  | some d => exact if_pos (h.duration d hd).1

/-- One round of the loop: the block at `p`, and where the next one is. -/
theorem decodeBlocks_succ {data : Bytes} {fuel p : ℕ} {blocks : List SetBlock}
    (hp : p < data.length) : decodeBlocks data (fuel + 1) p = .ok blocks ↔
      ∃ (b : SetBlock) (q : ℕ) (rest : List SetBlock), b.Built ∧ blocks = b :: rest ∧ p < q ∧
        q ≤ data.length ∧ data.drop p = encodeBlock b ++ data.drop q ∧
        decodeBlocks data fuel q = .ok rest := by
  rw [decodeBlocks, if_pos hp]
  constructor
  · intro h
    obtain ⟨⟨start, p₁⟩, hstart, h₁⟩ := except_bind_eq_ok.mp h
    obtain ⟨⟨dur, p₂⟩, hdur, h₂⟩ := except_bind_eq_ok.mp h₁
    obtain ⟨⟨n, p₃⟩, hn, h₃⟩ := except_bind_eq_ok.mp h₂
    obtain ⟨⟨payload, q⟩, hpayload, h₄⟩ := except_bind_eq_ok.mp h₃
    obtain ⟨rest, hrest, h₅⟩ := except_bind_eq_ok.mp h₄
    obtain ⟨hs, hp₁, -, hdrop⟩ := readLe_sound hstart
    obtain ⟨hd, hp₂, -, hdrop₁⟩ := readLe_sound hdur
    obtain ⟨hn, hp₃, -, hdrop₂⟩ := readLe_sound hn
    obtain ⟨hlength, hq, hend, hdrop₃⟩ := take_sound hpayload
    rw [← hlength] at hn hdrop₂
    refine ⟨(start, if 0 < dur then some dur else none, payload), q, rest, ⟨hs, ?_, hn⟩,
      (Except.ok.inj h₅).symm, by omega, hend, ?_, hrest⟩
    · intro d hsome
      simp only at hsome
      split_ifs at hsome with hpos
      rw [← Option.some.inj hsome]
      exact ⟨hpos, hd⟩
    · rw [hdrop, hdrop₁, hdrop₂, hdrop₃]
      simp only [encodeBlock, getD_ite, List.append_assoc]
  · rintro ⟨b, q, rest, hb, rfl, -, hle, hdrop, hrest⟩
    have hq : q = p + 8 + 8 + 4 + b.2.2.length := by
      have hlength := congrArg List.length hdrop
      simp only [List.length_drop, encodeBlock, List.length_append, length_le] at hlength
      omega
    have hdur : b.2.1.getD 0 < 256 ^ 8 := by
      cases hd : b.2.1 with
      | none => norm_num
      | some d => exact (hb.duration d hd).2
    simp only [encodeBlock, List.append_assoc] at hdrop
    obtain ⟨hstart, hdrop, hend⟩ := readLe_complete hp.le hb.start hdrop
    obtain ⟨hdur, hdrop, hend⟩ := readLe_complete hend hdur hdrop
    obtain ⟨hn, hdrop, hend⟩ := readLe_complete hend hb.payload hdrop
    obtain ⟨hpayload, hdrop, hend⟩ := take_complete hend hdrop
    refine except_bind_eq_ok.mpr ⟨_, hstart, except_bind_eq_ok.mpr ⟨_, hdur,
      except_bind_eq_ok.mpr ⟨_, hn, except_bind_eq_ok.mpr ⟨_, hpayload, except_bind_eq_ok.mpr
      ⟨rest, hq ▸ hrest, ?_⟩⟩⟩⟩⟩
    simp only [hb.ite_getD]
    rfl

/-- At the end of the file the loop is over. -/
theorem decodeBlocks_end {data : Bytes} {fuel p : ℕ} {blocks : List SetBlock}
    (hp : data.length ≤ p) : decodeBlocks data fuel p = .ok blocks ↔
      (∀ b ∈ blocks, b.Built) ∧ data.drop p = blocks.flatMap encodeBlock := by
  have hend : decodeBlocks data fuel p = .ok [] := by
    cases fuel <;> rw [decodeBlocks, if_neg (Nat.not_lt.mpr hp)]
  rw [hend, List.drop_eq_nil_of_le hp]
  constructor
  · intro h
    obtain rfl := Except.ok.inj h
    exact ⟨by simp, rfl⟩
  · rintro ⟨-, h⟩
    cases blocks with
    | nil => rfl
    | cons b rest => exact absurd (List.append_eq_nil_iff.mp h.symm).1 (encodeBlock_ne_nil b)

/-- The loop reads the words of the rest of the file. -/
theorem decodeBlocks_eq_ok {data : Bytes} {fuel p : ℕ} {blocks : List SetBlock}
    (hp : p ≤ data.length) (hfuel : data.length - p ≤ fuel) :
    decodeBlocks data fuel p = .ok blocks ↔
      (∀ b ∈ blocks, b.Built) ∧ data.drop p = blocks.flatMap encodeBlock := by
  induction fuel generalizing p blocks with
  | zero => exact decodeBlocks_end (by omega)
  | succ fuel ih =>
    rcases Nat.lt_or_ge p data.length with hlt | hge
    · rw [decodeBlocks_succ hlt]
      constructor
      · rintro ⟨b, q, rest, hb, rfl, hpq, hq, hdrop, hrest⟩
        obtain ⟨hbuilt, hdrop'⟩ := (ih hq (by omega)).mp hrest
        refine ⟨List.forall_mem_cons.mpr ⟨hb, hbuilt⟩, ?_⟩
        rw [hdrop, hdrop', List.flatMap_cons]
      · rintro ⟨hbuilt, hdrop⟩
        cases blocks with
        | nil =>
          have hlength := congrArg List.length hdrop
          rw [List.length_drop, List.flatMap_nil, List.length_nil] at hlength
          omega
        | cons b rest =>
          obtain ⟨hb, hrest⟩ := List.forall_mem_cons.mp hbuilt
          rw [List.flatMap_cons] at hdrop
          have hend := add_length_le hp hdrop
          have hdrop' := drop_add_length hdrop
          have hpos := List.length_pos_iff.mpr (encodeBlock_ne_nil b)
          exact ⟨b, p + (encodeBlock b).length, rest, hb, rfl, by omega, hend,
            hdrop.trans (by rw [hdrop']), (ih hend (by omega)).mpr ⟨hrest, hdrop'⟩⟩
    · exact decodeBlocks_end hge

/-! ## The file -/

/-- The bytes that stand for the codec. -/
def codecBytes (data : Bytes) : Bytes := (data.drop 6).take (ofLe ((data.drop 4).take 2))

theorem codecBytes_encodeBytes {codec : Bytes} (h : codec.length < 2 ^ 16) (priv : Bytes)
    (blocks : List SetBlock) : codecBytes (encodeBytes codec priv blocks) = codec := by
  have hlength : ofLe (le 2 codec.length) = codec.length := ofLe_le h
  have htake : ((encodeBytes codec priv blocks).drop 4).take 2 = le 2 codec.length := by
    simp only [encodeBytes, List.append_assoc]
    rw [List.drop_left' (by rfl), List.take_left' (length_le 2 _)]
  have hdrop : (encodeBytes codec priv blocks).drop 6 =
      codec ++ (le 4 priv.length ++ priv ++ blocks.flatMap encodeBlock) := by
    simp only [encodeBytes, List.append_assoc]
    rw [← List.append_assoc kbs1, List.drop_left' (by simp [kbs1])]
  rw [codecBytes, htake, hlength, hdrop, List.take_left]

theorem takePrivate_eq_ok {data : Bytes} {p n q : ℕ} {priv : Option Bytes} (hp : p ≤ data.length)
    (hn : n < 2 ^ 32) :
    takePrivate data p n = .ok (priv, q) ↔ BuiltPrivate priv ∧
      (priv.getD []).length = n ∧ q = p + n ∧ q ≤ data.length ∧
      data.drop p = priv.getD [] ++ data.drop q := by
  unfold takePrivate
  split_ifs with hpos
  · constructor
    · intro h
      cases htake : take data p n with
      | error e => simp [htake, Except.map] at h
      | ok r =>
        obtain ⟨bytes, r⟩ := r
        simp only [htake, Except.map, Except.ok.injEq, Prod.mk.injEq] at h
        obtain ⟨rfl, rfl⟩ := h
        obtain ⟨hlength, hr, hend, hdrop⟩ := take_sound htake
        refine ⟨?_, hlength, hr, hend, hdrop⟩
        intro bytes' h
        obtain rfl := Option.some.inj h
        exact ⟨List.ne_nil_of_length_pos (by omega), by omega⟩
    · rintro ⟨-, hlength, rfl, hend, hdrop⟩
      cases priv with
      | none =>
        rw [Option.getD_none, List.length_nil] at hlength
        omega
      | some bytes =>
        rw [Option.getD_some] at hlength hdrop
        obtain ⟨htake, -, -⟩ := take_complete hp hdrop
        rw [hlength] at htake
        rw [htake]
        rfl
  · obtain rfl : n = 0 := by omega
    constructor
    · intro h
      simp only [Except.ok.injEq, Prod.mk.injEq] at h
      obtain ⟨rfl, rfl⟩ := h
      exact ⟨nofun, rfl, rfl, hp, rfl⟩
    · rintro ⟨hpriv, hlength, rfl, -, -⟩
      cases priv with
      | none => rfl
      | some bytes => exact absurd (List.eq_nil_of_length_eq_zero hlength) (hpriv bytes rfl).1

/-- What a file decodes to, and that it is the file of that. -/
theorem decodeRaw_eq_ok {data : Bytes} {codec : Text} {priv : Option Bytes}
    {blocks : List SetBlock} : decodeRaw data = .ok (codec, priv, blocks) ↔
      ∃ bytes : Bytes, codec = Utf8.fromUtf8Lossy bytes ∧ bytes.length < 2 ^ 16 ∧
        BuiltPrivate priv ∧ (∀ b ∈ blocks, b.Built) ∧
        data = encodeBytes bytes (priv.getD []) blocks := by
  constructor
  · intro h
    obtain ⟨⟨magic, p₁⟩, hmagic, h₁⟩ := except_bind_eq_ok.mp h
    simp only at h₁
    split_ifs at h₁ with hkbs1
    obtain ⟨⟨n, p₂⟩, hn, h₂⟩ := except_bind_eq_ok.mp h₁
    obtain ⟨⟨bytes, p₃⟩, hbytes, h₃⟩ := except_bind_eq_ok.mp h₂
    obtain ⟨⟨m, p₄⟩, hm, h₄⟩ := except_bind_eq_ok.mp h₃
    obtain ⟨⟨priv', p₅⟩, hpriv, h₅⟩ := except_bind_eq_ok.mp h₄
    obtain ⟨blocks', hblocks, h₆⟩ := except_bind_eq_ok.mp h₅
    obtain ⟨rfl, rfl, rfl⟩ : Utf8.fromUtf8Lossy bytes = codec ∧ priv' = priv ∧ blocks' = blocks := by
      simpa using Except.ok.inj h₆
    obtain ⟨-, -, -, hdrop⟩ := take_sound hmagic
    obtain ⟨hn, -, -, hdrop₁⟩ := readLe_sound hn
    obtain ⟨hlength, -, -, hdrop₂⟩ := take_sound hbytes
    obtain ⟨hm, -, hend₄, hdrop₃⟩ := readLe_sound hm
    obtain ⟨hbuilt, hlength', -, hend₅, hdrop₄⟩ := (takePrivate_eq_ok hend₄ hm).mp hpriv
    obtain ⟨hall, hdrop₅⟩ := (decodeBlocks_eq_ok hend₅ (Nat.sub_le _ _)).mp hblocks
    refine ⟨bytes, rfl, hlength ▸ hn, hbuilt, hall, ?_⟩
    rw [List.drop_zero] at hdrop
    rw [hdrop, hdrop₁, hdrop₂, hdrop₃, hdrop₄, hdrop₅, Decidable.not_not.mp hkbs1]
    simp only [encodeBytes, List.append_assoc, hlength, hlength']
  · rintro ⟨bytes, rfl, hbytes, hpriv, hall, rfl⟩
    have hprivLength : (priv.getD []).length < 256 ^ 4 := by
      cases hp : priv with
      | none => norm_num
      | some b => exact (hpriv b hp).2
    have hdrop : (encodeBytes bytes (priv.getD []) blocks).drop 0 =
        kbs1 ++ (le 2 bytes.length ++ (bytes ++ (le 4 (priv.getD []).length ++
          (priv.getD [] ++ blocks.flatMap encodeBlock)))) := by
      simp only [encodeBytes, List.append_assoc, List.drop_zero]
    obtain ⟨hmagic, hdrop, hend⟩ := take_complete (Nat.zero_le _) hdrop
    obtain ⟨hn, hdrop, hend⟩ := readLe_complete hend hbytes hdrop
    obtain ⟨hcodec, hdrop, hend⟩ := take_complete hend hdrop
    obtain ⟨hm, hdrop, hend⟩ := readLe_complete hend hprivLength hdrop
    have hdrop' := drop_add_length hdrop
    have hend' := add_length_le hend hdrop
    have hread := (takePrivate_eq_ok hend hprivLength).mpr
      ⟨hpriv, rfl, rfl, hend', hdrop.trans (by rw [hdrop'])⟩
    have hblocks := (decodeBlocks_eq_ok hend' (Nat.sub_le _ _)).mpr ⟨hall, hdrop'⟩
    refine except_bind_eq_ok.mpr ⟨_, hmagic, ?_⟩
    simp only [ne_eq, not_true_eq_false, if_false]
    exact except_bind_eq_ok.mpr ⟨_, hn, except_bind_eq_ok.mpr ⟨_, hcodec, except_bind_eq_ok.mpr
      ⟨_, hm, except_bind_eq_ok.mpr ⟨_, hread, except_bind_eq_ok.mpr ⟨_, hblocks, rfl⟩⟩⟩⟩⟩

/-! ## Errors -/

/-- A run that ends without a result ends with an error that has a text. -/
def Bails {α : Type} (r : Except Failure α) : Prop := ∀ e, r = .error e → ∃ text, e = .bail text

section Bails

variable {α β : Type} {r : Except Failure α} {data : Bytes} {p n : ℕ}

theorem bails_ok (a : α) : Bails (Except.ok a : Except Failure α) := nofun

theorem bails_bail (text : Text) : Bails (.error (.bail text) : Except Failure α) := by
  intro e h
  obtain rfl := Except.error.inj h
  exact ⟨text, rfl⟩

theorem bails_bind {f : α → Except Failure β} (hr : Bails r)
    (hf : ∀ a, r = .ok a → Bails (f a)) : Bails (r >>= f) := by
  cases hcase : r with
  | error e =>
    obtain ⟨text, rfl⟩ := hr e hcase
    exact bails_bail text
  | ok a => exact hf a hcase

theorem bails_map {f : α → β} (hr : Bails r) : Bails (r.map f) := by
  cases hcase : r with
  | error e =>
    obtain ⟨text, rfl⟩ := hr e hcase
    exact bails_bail text
  | ok a => exact bails_ok (f a)

theorem bails_take : Bails (take data p n) := by
  unfold take
  split_ifs
  · exact bails_ok _
  · exact bails_bail _

/-- The slice has as many bytes as the number, so the conversion does not panic. -/
theorem bails_readLe : Bails (readLe data p n) := by
  refine bails_bind bails_take fun r htake => ?_
  obtain ⟨hlength, -⟩ := take_sound htake
  simp only [fromLe_of_length hlength]
  exact bails_ok _

theorem bails_takePrivate : Bails (takePrivate data p n) := by
  unfold takePrivate
  split_ifs
  · exact bails_map bails_take
  · exact bails_ok _

/-- Every round moves on, so the loop ends. -/
theorem bails_decodeBlocks {fuel : ℕ} (hfuel : data.length - p ≤ fuel) :
    Bails (decodeBlocks data fuel p) := by
  induction fuel generalizing p with
  | zero =>
    rw [decodeBlocks, if_neg (by omega)]
    exact bails_ok _
  | succ fuel ih =>
    rw [decodeBlocks]
    split_ifs with hlt
    · refine bails_bind bails_readLe fun start hstart => bails_bind bails_readLe fun dur hdur => ?_
      refine bails_bind bails_readLe fun n hn => bails_bind bails_take fun payload hpayload => ?_
      obtain ⟨-, hp₁, -⟩ := readLe_sound hstart
      obtain ⟨-, hp₂, -⟩ := readLe_sound hdur
      obtain ⟨-, hp₃, -⟩ := readLe_sound hn
      obtain ⟨-, hp₄, -⟩ := take_sound hpayload
      exact bails_bind (ih (by omega)) fun rest _ => bails_ok _
    · exact bails_ok _

theorem bails_decodeRaw : Bails (decodeRaw data) := by
  refine bails_bind bails_take fun magic _ => ?_
  simp only
  split_ifs
  · exact bails_bail _
  · refine bails_bind bails_readLe fun n _ => bails_bind bails_take fun codec _ => ?_
    refine bails_bind bails_readLe fun m _ => bails_bind bails_takePrivate fun priv _ => ?_
    exact bails_bind (bails_decodeBlocks (Nat.sub_le _ _)) fun blocks _ => bails_ok _

theorem bails_decodeSets (z : Zstd) (data : Bytes) : Bails (decodeSets z data) := by
  unfold decodeSets
  split_ifs
  · split
    · exact bails_bail _
    · exact bails_decodeRaw
  · exact bails_decodeRaw

end Bails

/-! ## One reading -/

theorem selfDelimiting_encodeBlock : SelfDelimiting SetBlock.Built encodeBlock := by
  intro a b ha hb x y h
  have hdur : ∀ {c : SetBlock}, c.Built → c.2.1.getD 0 < 256 ^ 8 := by
    intro c hc
    cases hd : c.2.1 with
    | none => norm_num
    | some d => exact (hc.duration d hd).2
  simp only [encodeBlock, List.append_assoc] at h
  obtain ⟨hstart, h⟩ := selfDelimiting_le 8 ha.start hb.start h
  obtain ⟨hd, h⟩ := selfDelimiting_le 8 (hdur ha) (hdur hb) h
  rw [← List.append_assoc (le 4 a.2.2.length), ← List.append_assoc (le 4 b.2.2.length)] at h
  obtain ⟨hpayload, h⟩ := selfDelimiting_counted 4 ha.payload hb.payload h
  refine ⟨Prod.ext hstart (Prod.ext ?_ hpayload), h⟩
  rw [← ha.ite_getD, hd, hb.ite_getD]

/-- Of a file that goes on like another one, the fields are the same and the blocks come first. -/
theorem encodeBytes_isPrefix {codec codec' priv priv' : Bytes} {blocks blocks' : List SetBlock}
    (hcodec : codec.length < 2 ^ 16) (hcodec' : codec'.length < 2 ^ 16)
    (hpriv : priv.length < 2 ^ 32) (hpriv' : priv'.length < 2 ^ 32)
    (hblocks : ∀ b ∈ blocks, b.Built) (hblocks' : ∀ b ∈ blocks', b.Built)
    (h : encodeBytes codec priv blocks <+: encodeBytes codec' priv' blocks') :
    codec = codec' ∧ priv = priv' ∧ blocks <+: blocks' := by
  have hshape : ∀ codec priv blocks, encodeBytes codec priv blocks =
      kbs1 ++ (counted 2 codec ++ (counted 4 priv ++ blocks.flatMap encodeBlock)) := by
    intro codec priv blocks
    simp only [encodeBytes, counted, List.append_assoc]
  rw [hshape, hshape, List.prefix_append_right_inj] at h
  obtain ⟨heq, h₁⟩ := selfDelimiting_counted 2 hcodec hcodec' h
  obtain ⟨heq', h₂⟩ := selfDelimiting_counted 4 hpriv hpriv' h₁
  exact ⟨heq, heq', selfDelimiting_encodeBlock.flatMap_prefix (fun b _ => encodeBlock_ne_nil b)
    hblocks hblocks' h₂⟩

theorem BuiltPrivate.length_lt {priv : Option Bytes} (h : BuiltPrivate priv) :
    (priv.getD []).length < 2 ^ 32 := by
  cases hp : priv with
  | none => norm_num
  | some bytes => exact (h bytes hp).2

theorem BuiltPrivate.ext {priv priv' : Option Bytes} (h : BuiltPrivate priv)
    (h' : BuiltPrivate priv') (heq : priv.getD [] = priv'.getD []) : priv = priv' := by
  cases priv with
  | none =>
    cases priv' with
    | none => rfl
    | some bytes => exact absurd heq.symm (h' bytes rfl).1
  | some bytes =>
    cases priv' with
    | none => exact absurd heq (h bytes rfl).1
    | some bytes' => exact congrArg some heq

/-! ## Round trips -/

/-- What the library promises: frames begin with their magic number and inflate to the data. -/
structure Zstd.Lossless (z : Zstd) : Prop where
  magic : ∀ raw level frame, z.encodeAll raw level = some frame → zstdMagic <+: frame
  inflates : ∀ raw level frame, z.encodeAll raw level = some frame → z.decodeAll frame = some raw

section RoundTrips

variable {z : Zstd} {codec : Text} {priv : Option Bytes} {blocks : List SetBlock} {data : Bytes}

theorem decodeSets_of_not_magic (h : ¬ zstdMagic <+: data) : decodeSets z data = decodeRaw data := by
  rw [decodeSets, if_neg (by rwa [List.isPrefixOf_iff_prefix])]

/-- A file that is not compressed does not look compressed. -/
theorem not_magic_encodeSets : ¬ zstdMagic <+: encodeSets codec priv blocks := by
  intro h
  obtain ⟨rest, h⟩ := h
  simp [zstdMagic, encodeSets, encodeBytes, kbs1] at h

theorem decodeRaw_encodeSets (h : Built codec priv blocks) :
    decodeRaw (encodeSets codec priv blocks) = .ok (codec, priv, blocks) :=
  decodeRaw_eq_ok.mpr ⟨Utf8.encode codec, (Utf8.fromUtf8Lossy_encode codec).symm, h.codec, h.priv,
    h.blocks, rfl⟩

theorem decodeSets_encodeSets (h : Built codec priv blocks) :
    decodeSets z (encodeSets codec priv blocks) = .ok (codec, priv, blocks) := by
  rw [decodeSets_of_not_magic not_magic_encodeSets, decodeRaw_encodeSets h]

theorem decodeSets_encodeSetsZstd (hz : z.Lossless) (h : Built codec priv blocks) :
    decodeSets z (encodeSetsZstd z codec priv blocks) = .ok (codec, priv, blocks) := by
  cases hframe : z.encodeAll (encodeSets codec priv blocks) 9 with
  | none =>
    simp only [encodeSetsZstd, hframe, Option.getD_none]
    exact decodeSets_encodeSets h
  | some frame =>
    have hmagic := List.isPrefixOf_iff_prefix.mpr (hz.magic _ _ _ hframe)
    simp only [encodeSetsZstd, hframe, Option.getD_some, decodeSets, hmagic, if_true, hz.inflates _ _ _ hframe, decodeRaw_encodeSets h]

/-- A file is the encoding of what it decodes to if its codec is in UTF-8. -/
theorem encodeSets_of_decode (hdata : ¬ zstdMagic <+: data)
    (h : decodeSets z data = .ok (codec, priv, blocks)) :
    encodeSets codec priv blocks = data ↔ Utf8.Valid (codecBytes data) := by
  rw [decodeSets_of_not_magic hdata] at h
  obtain ⟨bytes, rfl, hbytes, hpriv, hblocks, rfl⟩ := decodeRaw_eq_ok.mp h
  rw [codecBytes_encodeBytes hbytes, ← Utf8.encode_fromUtf8Lossy]
  constructor
  · intro heq
    -- files of one length have codecs of one length
    have hlength := congrArg List.length heq
    simp only [encodeSets, encodeBytes, List.length_append, length_le] at hlength
    exact (encodeBytes_isPrefix (by omega) hbytes hpriv.length_lt hpriv.length_lt hblocks hblocks
      (heq ▸ List.prefix_rfl)).1
  · intro hcodec
    rw [encodeSets, hcodec]

/-- A piece of a file is accepted only if it ends between two blocks. -/
theorem decodeSets_of_prefix (h : Built codec priv blocks)
    (hpre : data <+: encodeSets codec priv blocks) {r : Text × Option Bytes × List SetBlock}
    (hr : decodeSets z data = .ok r) :
    ∃ n, r = (codec, priv, blocks.take n) ∧ data = encodeSets codec priv (blocks.take n) := by
  have hdata : ¬ zstdMagic <+: data := fun hmagic => not_magic_encodeSets (hmagic.trans hpre)
  rw [decodeSets_of_not_magic hdata] at hr
  obtain ⟨codec', priv', blocks'⟩ := r
  obtain ⟨bytes, rfl, hbytes, hpriv, hblocks, rfl⟩ := decodeRaw_eq_ok.mp hr
  obtain ⟨rfl, hp, hb⟩ := encodeBytes_isPrefix hbytes h.codec hpriv.length_lt h.priv.length_lt hblocks
    h.blocks hpre
  obtain rfl := hpriv.ext h.priv hp
  refine ⟨blocks'.length, ?_, ?_⟩
  · rw [Utf8.fromUtf8Lossy_encode, ← List.prefix_iff_eq_take.mp hb]
  · rw [← List.prefix_iff_eq_take.mp hb]
    rfl

end RoundTrips

/-- Display-set files survive the trip, and nothing makes the decoder panic; a file that is not
    compressed is the encoding of what it decodes to exactly when its codec is in UTF-8, and a
    piece of an encoding is accepted only if it ends between two blocks. -/
theorem sets_travel_iff (z : Zstd) (hz : z.Lossless) :
    (∀ codec priv blocks, Built codec priv blocks →
      decodeSets z (encodeSets codec priv blocks) = .ok (codec, priv, blocks) ∧
      decodeSets z (encodeSetsZstd z codec priv blocks) = .ok (codec, priv, blocks)) ∧
    (∀ data, Bails (decodeSets z data)) ∧
    (∀ data codec priv blocks, ¬ zstdMagic <+: data →
      decodeSets z data = .ok (codec, priv, blocks) →
      (encodeSets codec priv blocks = data ↔ Utf8.Valid (codecBytes data))) ∧
    (∀ codec priv blocks data r, Built codec priv blocks →
      data <+: encodeSets codec priv blocks → decodeSets z data = .ok r →
      ∃ n, r = (codec, priv, blocks.take n) ∧ data = encodeSets codec priv (blocks.take n)) :=
  ⟨fun _ _ _ h => ⟨decodeSets_encodeSets h, decodeSets_encodeSetsZstd hz h⟩, bails_decodeSets z,
    fun _ _ _ _ => encodeSets_of_decode, fun _ _ _ _ _ h hpre => decodeSets_of_prefix h hpre⟩

/-! ## Stored frames -/

/-- zstd frames whose content is one stored block, as the library writes data that it cannot
    compress: descriptor, content size, block header, content. -/
def storedFrames : Zstd where
  encodeAll raw _ :=
    if raw.length ≤ 2 ^ 17 then
      some (zstdMagic ++ [0xA0] ++ le 4 raw.length ++ le 3 (8 * raw.length + 1) ++ raw)
    else none
  decodeAll frame := if zstdMagic ++ [0xA0] <+: frame then some (frame.drop 12) else none

theorem storedFrames_lossless : storedFrames.Lossless where
  magic := by
    intro raw level frame h
    simp only [storedFrames, Option.ite_none_right_eq_some, Option.some.injEq] at h
    obtain ⟨-, rfl⟩ := h
    simp only [List.append_assoc]
    exact List.prefix_append _ _
  inflates := by
    intro raw level frame h
    simp only [storedFrames, Option.ite_none_right_eq_some, Option.some.injEq] at h ⊢
    obtain ⟨-, rfl⟩ := h
    refine ⟨?_, ?_⟩
    · simp only [List.append_assoc]
      exact ⟨_, rfl⟩
    · exact List.drop_left' (by simp [zstdMagic])

theorem sets_travel_iff_pgs :
    decodeSets storedFrames (encodeSetsZstd storedFrames (lit "S_HDMV/PGS") (some [0x73, 0x69])
      [(100, none, [1, 2, 3]), (2000, some 3000, [9, 9])]) =
    .ok (lit "S_HDMV/PGS", some [0x73, 0x69], [(100, none, [1, 2, 3]), (2000, some 3000, [9, 9])]) := by
  refine ((sets_travel_iff storedFrames storedFrames_lossless).1 _ _ _ ⟨by decide, ?_, ?_⟩).2
  · intro bytes h
    rw [← Option.some.inj h]
    decide
  · intro b hb
    rcases List.mem_cons.mp hb with rfl | hb
    · exact ⟨by decide, by simp, by decide⟩
    · obtain rfl := List.mem_singleton.mp hb
      exact ⟨by decide, by simp, by decide⟩

/-- A file whose codec is the byte `FF` alone. -/
def brokenCodec : Bytes := encodeBytes [0xFF] [] []

/-- It is accepted, but what it decodes to is the codec U+FFFD, whose own file differs. -/
theorem not_reencoded :
    (¬ ∀ (z : Zstd), z.Lossless → ∀ data codec priv blocks, ¬ zstdMagic <+: data →
      decodeSets z data = .ok (codec, priv, blocks) → encodeSets codec priv blocks = data) ∧
    decodeSets storedFrames brokenCodec =
      decodeSets storedFrames (encodeSets ['\uFFFD'] none []) ∧
    brokenCodec ≠ encodeSets ['\uFFFD'] none [] := by
  have hdecode : decodeSets storedFrames brokenCodec = .ok (['\uFFFD'], none, []) := by rfl
  have hfile : Built ['\uFFFD'] none [] := ⟨by decide, nofun, by simp⟩
  refine ⟨fun h => ?_, hdecode.trans (decodeSets_encodeSets hfile).symm, by decide⟩
  exact absurd (h storedFrames storedFrames_lossless brokenCodec _ _ _ (by decide) hdecode) (by decide)

end Kahawai.Media.Burnin
