import Mathlib.Algebra.GroupWithZero.Nat
import Mathlib.Data.List.Sort

/-!
# EBML elements

The element parser and writer of `crates/kahawai-media/src/subindex.rs` (lines
157–277, 1578–1599): ids and sizes of variable length, the walk over the
children of an element, and the writers that the cue path rewraps its blocks
with. Everything here works on bytes that were read before.
-/

namespace Kahawai.Media.Subindex

abbrev Bytes := List UInt8

/-- Why a read or a parse failed. -/
inductive Error
  /-- The checkpoint callback returned an error. -/
  | checkpoint
  /-- The budget of the walk is used up. -/
  | deadline
  /-- The source failed, or ended before its size. -/
  | io
  /-- The bytes are not what was expected. -/
  | shape (context : String)
  deriving DecidableEq

/-- The error interrupts the walk; the bytes are not to blame. -/
def Error.interrupts : Error → Bool
  | .shape _ => false
  | _ => true

/-! ## Ids and sizes -/

/-- `u8::leading_zeros`. -/
def leadingZeros (b : UInt8) : ℕ := if b = 0 then 8 else 7 - b.toNat.log2

/-- `(acc << 8) | b`, on as many bits as it takes. -/
def shiftIn (acc : ℕ) (b : UInt8) : ℕ := acc * 256 + b.toNat

/-- `ebml_id`: the id with its marker, and its length. -/
def ebmlId (buf : Bytes) : Except Error (ℕ × ℕ) :=
  match buf with
  | [] => .error (.shape "eof at id")
  | first :: _ =>
    let len := leadingZeros first + 1
    if 4 < len ∨ buf.length < len then .error (.shape "bad EBML id")
    else .ok ((buf.take len).foldl shiftIn 0, len)

/-- A number of variable length without its marker: the value and the length. -/
def vint (buf : Bytes) : Option (ℕ × ℕ) :=
  match buf with
  | [] => none
  | first :: rest =>
    let len := leadingZeros first + 1
    if 8 < len ∨ buf.length < len then none
    else some ((rest.take (len - 1)).foldl shiftIn (first.toNat % 2 ^ (8 - len)), len)

/-- `ebml_size`: the size, unless all its bits are set, and its length. -/
def ebmlSize (buf : Bytes) : Except Error (Option ℕ × ℕ) :=
  match buf with
  | [] => .error (.shape "eof at size")
  | first :: _ =>
    if first = 0 then .error (.shape "bad EBML size")
    else
      match vint buf with
      | none => .error (.shape "bad EBML size len")
      | some (val, len) => .ok (if val = 2 ^ (7 * len) - 1 then none else some val, len)

/-- `uint`: a `u64`, whose high bytes fall off. -/
def uint (data : Bytes) : ℕ := data.foldl shiftIn 0 % 2 ^ 64

/-! ## Children -/

/-- One round of `walk_children`: the id and the body of the first child, and
    what follows it. -/
def readChild (data : Bytes) : Except Error (ℕ × Bytes × Bytes) :=
  match ebmlId data with
  | .error e => .error e
  | .ok (id, il) =>
    match ebmlSize (data.drop il) with
    | .error e => .error e
    | .ok (none, _) => .error (.shape "unknown-size child")
    | .ok (some size, sl) =>
      if data.length < il + sl + size then .error (.shape "child overruns parent")
      else .ok (id, (data.drop (il + sl)).take size, data.drop (il + sl + size))

/-- `walk_children`: the state `f` has built when the walk ends, and how it
    ends. `f` answers `false` to stop. A child takes at least a byte, so
    `data.length` rounds are enough. -/
def walkChildrenFuel {σ : Type} (f : σ → ℕ → Bytes → σ × Except Error Bool) :
    ℕ → σ → Bytes → σ × Except Error Unit
  | 0, s, _ => (s, .ok ())
  | fuel + 1, s, data =>
    if data = [] then (s, .ok ())
    else
      match readChild data with
      | .error e => (s, .error e)
      | .ok (id, body, rest) =>
        match f s id body with
        | (s', .error e) => (s', .error e)
        | (s', .ok false) => (s', .ok ())
        | (s', .ok true) => walkChildrenFuel f fuel s' rest

def walkChildren {σ : Type} (f : σ → ℕ → Bytes → σ × Except Error Bool) (s : σ) (data : Bytes) :
    σ × Except Error Unit :=
  walkChildrenFuel f data.length s data

/-- A walk whose error is passed on. -/
def walkChildrenOk {σ : Type} (f : σ → ℕ → Bytes → Except Error σ) (s : σ) (data : Bytes) :
    Except Error σ :=
  let visit := fun s id v =>
    match f s id v with
    | .ok s' => (s', .ok true)
    | .error e => (s, .error e)
  match walkChildren visit s data with
  | (s', .ok ()) => .ok s'
  | (_, .error e) => .error e

/-! ## Writers -/

/-- The bytes of `n` from the highest, `count` of them. -/
def beBytes : ℕ → ℕ → Bytes
  | 0, _ => []
  | count + 1, n => UInt8.ofNat (n / 256 ^ count) :: beBytes count (n % 256 ^ count)

/-- `encode_uint`: at least one byte. -/
def encodeUint (v : ℕ) : Bytes :=
  let bytes := beBytes 8 v
  bytes.drop (min (bytes.takeWhile (· = 0)).length 7)

/-- `encode_size`: always eight bytes. -/
def encodeSize (n : ℕ) : Bytes := 1 :: beBytes 7 (n % 2 ^ 56)

/-- `encode_element`. -/
def encodeElement (id : ℕ) (body : Bytes) : Bytes :=
  (beBytes 4 id).dropWhile (· = 0) ++ encodeSize body.length ++ body

/-! ## Bounds -/

theorem foldl_shiftIn_lt (l : Bytes) (acc : ℕ) :
    l.foldl shiftIn acc < (acc + 1) * 256 ^ l.length := by
  induction l generalizing acc with
  | nil => simp
  | cons b l ih =>
    have hb : shiftIn acc b + 1 ≤ (acc + 1) * 256 := by
      have := b.toNat_lt
      rw [shiftIn]
      omega
    calc (b :: l).foldl shiftIn acc
        < (shiftIn acc b + 1) * 256 ^ l.length := ih _
      _ ≤ (acc + 1) * 256 * 256 ^ l.length := Nat.mul_le_mul_right _ hb
      _ = (acc + 1) * 256 ^ (b :: l).length := by
        rw [List.length_cons, Nat.pow_succ, Nat.mul_assoc, Nat.mul_comm 256]

/-- A number of variable length has seven bits for each of its bytes, of which
    there are at most eight. -/
theorem vint_lt {buf : Bytes} {val len : ℕ} (h : vint buf = some (val, len)) :
    len ≤ 8 ∧ val < 2 ^ (7 * len) := by
  cases buf with
  | nil => cases h
  | cons first rest =>
    simp only [vint] at h
    split at h
    · cases h
    · rename_i hlen
      simp only [not_or, not_lt] at hlen
      generalize hl : leadingZeros first + 1 = n at h hlen
      simp only [Option.some.injEq, Prod.mk.injEq] at h
      obtain ⟨rfl, rfl⟩ := h
      refine ⟨hlen.1, ?_⟩
      have hrest : (rest.take (n - 1)).length = n - 1 := by
        have := hlen.2
        rw [List.length_cons] at this
        rw [List.length_take]
        omega
      have hfirst : first.toNat % 2 ^ (8 - n) + 1 ≤ 2 ^ (8 - n) :=
        Nat.mod_lt _ (Nat.two_pow_pos _)
      have hpow : 2 ^ (8 - n) * 256 ^ (n - 1) = 2 ^ (7 * n) := by
        rw [show (256 : ℕ) = 2 ^ 8 from rfl, ← Nat.pow_mul, ← Nat.pow_add]
        congr 1
        omega
      calc (rest.take (n - 1)).foldl shiftIn (first.toNat % 2 ^ (8 - n))
          < (first.toNat % 2 ^ (8 - n) + 1) * 256 ^ (rest.take (n - 1)).length :=
            foldl_shiftIn_lt _ _
        _ ≤ 2 ^ (8 - n) * 256 ^ (n - 1) := by
          rw [hrest]
          exact Nat.mul_le_mul_right _ hfirst
        _ = 2 ^ (7 * n) := hpow

/-- A known size is below `2 ^ 56`. -/
theorem ebmlSize_lt {buf : Bytes} {size : Option ℕ} {sl : ℕ} (h : ebmlSize buf = .ok (size, sl)) :
    sl ≤ 8 ∧ ∀ n ∈ size, n < 2 ^ 56 := by
  cases buf with
  | nil => cases h
  | cons first rest =>
    simp only [ebmlSize] at h
    split at h
    · cases h
    · split at h
      · cases h
      · rename_i val len hvint
        obtain ⟨hlen, hval⟩ := vint_lt hvint
        simp only [Except.ok.injEq, Prod.mk.injEq] at h
        obtain ⟨rfl, rfl⟩ := h
        refine ⟨hlen, fun n hn => ?_⟩
        split at hn
        · cases hn
        · cases hn
          exact hval.trans_le (Nat.pow_le_pow_right (by omega) (by omega))

/-! ## Fuel -/

/-- A parsed id has one to four bytes, and the buffer has as many. -/
theorem ebmlId_length {buf : Bytes} {id il : ℕ} (h : ebmlId buf = .ok (id, il)) :
    1 ≤ il ∧ il ≤ 4 ∧ il ≤ buf.length := by
  cases buf with
  | nil => cases h
  | cons first rest =>
    simp only [ebmlId] at h
    split at h
    · cases h
    · rename_i hlen
      cases h
      simp only [not_or, not_lt] at hlen
      exact ⟨by omega, hlen.1, hlen.2⟩

theorem readChild_length {data body rest : Bytes} {id : ℕ}
    (h : readChild data = .ok (id, body, rest)) : rest.length < data.length := by
  rw [readChild] at h
  split at h
  · cases h
  · rename_i id' il hid
    obtain ⟨hil, -, hle⟩ := ebmlId_length hid
    split at h
    · cases h
    · cases h
    · split at h
      · cases h
      · cases h
        rw [List.length_drop]
        omega

/-- With at least as many rounds as bytes the number of rounds does not
    matter. -/
theorem walkChildrenFuel_congr {σ : Type} {f : σ → ℕ → Bytes → σ × Except Error Bool}
    {n m : ℕ} {s : σ} {data : Bytes} (hn : data.length ≤ n) (hm : data.length ≤ m) :
    walkChildrenFuel f n s data = walkChildrenFuel f m s data := by
  induction n generalizing m s data with
  | zero =>
    obtain rfl : data = [] := List.length_eq_zero_iff.mp (by omega)
    cases m <;> rfl
  | succ n ih =>
    cases m with
    | zero =>
      obtain rfl : data = [] := List.length_eq_zero_iff.mp (by omega)
      rfl
    | succ m =>
      simp only [walkChildrenFuel]
      cases hchild : readChild data with
      | error e => rfl
      | ok child =>
        obtain ⟨id, body, rest⟩ := child
        have hrest := readChild_length hchild
        have hsame (s' : σ) : walkChildrenFuel f n s' rest = walkChildrenFuel f m s' rest :=
          ih (by omega) (by omega)
        simp only [hsame]

/-- The loop of the source. -/
theorem walkChildren_eq {σ : Type} (f : σ → ℕ → Bytes → σ × Except Error Bool) (s : σ)
    (data : Bytes) :
    walkChildren f s data =
      if data = [] then (s, .ok ())
      else
        match readChild data with
        | .error e => (s, .error e)
        | .ok (id, body, rest) =>
          match f s id body with
          | (s', .error e) => (s', .error e)
          | (s', .ok false) => (s', .ok ())
          | (s', .ok true) => walkChildren f s' rest := by
  have hmore : walkChildren f s data = walkChildrenFuel f (data.length + 1) s data :=
    walkChildrenFuel_congr le_rfl (Nat.le_succ _)
  rw [hmore]
  simp only [walkChildrenFuel]
  cases hchild : readChild data with
  | error e => rfl
  | ok child =>
    obtain ⟨id, body, rest⟩ := child
    have hrest := readChild_length hchild
    have hsame (s' : σ) : walkChildrenFuel f data.length s' rest = walkChildren f s' rest :=
      walkChildrenFuel_congr (by omega) le_rfl
    simp only [hsame]

end Kahawai.Media.Subindex
