import Kahawai.Media.Subindex.Headers
import Kahawai.Media.Subindex.Reader

/-!
# MP4 boxes

The walk over the boxes of a container (`crates/kahawai-media/src/subindex.rs`, lines 1796–1833)
and the fields of a box. Sums of `usize` wrap, and a slice that ends before it begins panics.

Results:
* `walkBoxes_ne_unfinished`: the walk ends.
* `findBox_flatMap`: among boxes one after the other, the first of a kind is found.
-/

namespace Kahawai.Media.Subindex

/-! ## Fields -/

/-- `from_be_bytes`. -/
def be (data : Bytes) : ℕ := data.foldl shiftIn 0

/-- `get(pos..pos + n)`. -/
def bytesAt (data : Bytes) (pos n : ℕ) : Option Bytes :=
  if pos + n ≤ data.length then some ((data.drop pos).take n) else none

def u32At (data : Bytes) (pos : ℕ) : Option ℕ := (bytesAt data pos 4).map be

def u64At (data : Bytes) (pos : ℕ) : Option ℕ := (bytesAt data pos 8).map be

variable {data : Bytes} {pos n : ℕ}

theorem bytesAt_isSome : (bytesAt data pos n).isSome ↔ pos + n ≤ data.length := by
  unfold bytesAt
  split_ifs with h <;> simp [h]

@[simp] theorem u32At_isSome : (u32At data pos).isSome ↔ pos + 4 ≤ data.length := by
  rw [u32At, Option.isSome_map, bytesAt_isSome]

@[simp] theorem u64At_isSome : (u64At data pos).isSome ↔ pos + 8 ≤ data.length := by
  rw [u64At, Option.isSome_map, bytesAt_isSome]

theorem be_lt (data : Bytes) : be data < 256 ^ data.length := by
  have := foldl_shiftIn_lt data 0
  rwa [Nat.zero_add, Nat.one_mul] at this

theorem bytesAt_length {bytes : Bytes} (h : bytesAt data pos n = some bytes) : bytes.length = n := by
  unfold bytesAt at h
  split_ifs at h with hlen
  obtain rfl := Option.some.inj h
  rw [List.length_take, List.length_drop]
  omega

theorem u32At_lt (h : u32At data pos = some n) : n < 2 ^ 32 := by
  obtain ⟨bytes, hbytes, rfl⟩ := Option.map_eq_some_iff.mp h
  have := be_lt bytes
  rwa [bytesAt_length hbytes] at this

theorem u64At_lt (h : u64At data pos = some n) : n < 2 ^ 64 := by
  obtain ⟨bytes, hbytes, rfl⟩ := Option.map_eq_some_iff.mp h
  have := be_lt bytes
  rwa [bytesAt_length hbytes] at this

/-! ## The walk -/

/-- The size of the box at `pos` and of its header (lines 1801–1815). -/
def boxSize (data : Bytes) (pos size32 : ℕ) : Option (ℕ × ℕ) :=
  if size32 = 1 then (u64At data (pos + 8)).map fun size => (size, 16)
  else if size32 = 0 then some (data.length - pos, 8)
  else some (size32, 8)

/-- The boxes from `pos` on, each with its kind and its body. -/
def walkBoxes (data : Bytes) : (fuel pos : ℕ) → Except Stop (List (Bytes × Bytes))
  | 0, _ => .error .unfinished
  | fuel + 1, pos =>
    match u32At data pos, bytesAt data (pos + 4) 4 with
    | some size32, some kind =>
      match boxSize data pos size32 with
      | none => .ok []
      | some (size, hdr) =>
        let stop := (pos + size) % 2 ^ 64
        if size < hdr ∨ data.length < stop then .ok []
        else if stop < pos + hdr then .error .panic
        else (walkBoxes data fuel stop).map
          ((kind, (data.drop (pos + hdr)).take (stop - (pos + hdr))) :: ·)
    | _, _ => .ok []

/-- `find_box`: the walk goes on behind the box that is found. -/
def findBox (data : Bytes) (kind : Bytes) : Except Stop (Option Bytes) :=
  (walkBoxes data (data.length + 1) 0).map fun boxes => boxes.lookup kind

theorem boxSize_header {size32 size hdr : ℕ} (h : boxSize data pos size32 = some (size, hdr)) :
    8 ≤ hdr := by
  unfold boxSize at h
  split_ifs at h
  · obtain ⟨size', -, heq⟩ := Option.map_eq_some_iff.mp h
    cases heq
    omega
  · cases Option.some.inj h
    omega
  · cases Option.some.inj h
    omega

/-- Every round moves on by a header. -/
theorem walkBoxes_ne_unfinished {fuel : ℕ} (h : data.length < pos + fuel) (hpos : pos ≤ data.length) :
    walkBoxes data fuel pos ≠ .error .unfinished := by
  induction fuel generalizing pos with
  | zero => omega
  | succ fuel ih =>
    unfold walkBoxes
    split
    · split
      · exact fun h => by cases h
      · rename_i size hdr hsize
        have hhdr := boxSize_header hsize
        dsimp only
        split_ifs with hend hslice
        · exact fun h => by cases h
        · exact fun h => by cases h
        · have hrest : walkBoxes data fuel ((pos + size) % 2 ^ 64) ≠ .error .unfinished :=
            ih (by omega) (by omega)
          intro hmap
          cases hwalk : walkBoxes data fuel ((pos + size) % 2 ^ 64) with
          | ok boxes =>
            rw [hwalk] at hmap
            cases hmap
          | error e =>
            rw [hwalk] at hmap hrest
            cases hmap
            exact hrest rfl
    · exact fun h => by cases h

/-! ## Boxes one after the other -/

/-- A box with a size of 32 bits. -/
def encodeBox (box : Bytes × Bytes) : Bytes := beBytes 4 (8 + box.2.length) ++ box.1 ++ box.2

/-- A kind of four bytes, and a size that fits. -/
def IsBox (box : Bytes × Bytes) : Prop := box.1.length = 4 ∧ 8 + box.2.length < 2 ^ 32

theorem bytesAt_append (pre bytes rest : Bytes) :
    bytesAt (pre ++ (bytes ++ rest)) pre.length bytes.length = some bytes := by
  have hlen : pre.length + bytes.length ≤ (pre ++ (bytes ++ rest)).length := by
    simp only [List.length_append]
    omega
  rw [bytesAt, if_pos hlen, List.drop_left, List.take_left]

theorem length_encodeBox {box : Bytes × Bytes} (h : IsBox box) :
    (encodeBox box).length = 8 + box.2.length := by
  simp only [encodeBox, List.length_append, length_beBytes, h.1]

theorem length_le_flatMap {boxes : List (Bytes × Bytes)} (hboxes : ∀ box ∈ boxes, IsBox box) :
    boxes.length ≤ (boxes.flatMap encodeBox).length := by
  induction boxes with
  | nil => exact Nat.le_refl _
  | cons box boxes ih =>
    obtain ⟨hbox, hrest⟩ := List.forall_mem_cons.mp hboxes
    have := ih hrest
    rw [List.flatMap_cons, List.length_append, length_encodeBox hbox, List.length_cons]
    omega

/-- The walk over boxes finds the boxes. -/
theorem walkBoxes_flatMap {boxes : List (Bytes × Bytes)} (hboxes : ∀ box ∈ boxes, IsBox box)
    (pre : Bytes) (hsize : (pre ++ boxes.flatMap encodeBox).length < 2 ^ 64) {fuel : ℕ}
    (hfuel : boxes.length < fuel) :
    walkBoxes (pre ++ boxes.flatMap encodeBox) fuel pre.length = .ok boxes := by
  induction boxes generalizing pre fuel with
  | nil =>
    obtain ⟨fuel, rfl⟩ : ∃ n, fuel = n + 1 := ⟨fuel - 1, by omega⟩
    have hnone : u32At (pre ++ []) pre.length = none := by
      rw [← Option.not_isSome_iff_eq_none, u32At_isSome, List.append_nil]
      omega
    simp only [List.flatMap_nil, walkBoxes, hnone]
  | cons box boxes ih =>
    obtain ⟨fuel, rfl⟩ : ∃ n, fuel = n + 1 := ⟨fuel - 1, by omega⟩
    obtain ⟨hbox, hrest⟩ := List.forall_mem_cons.mp hboxes
    obtain ⟨kind, body⟩ := box
    have hlength := length_encodeBox hbox
    obtain ⟨hkind, hfit⟩ := hbox
    simp only at hkind hfit hlength
    rw [List.flatMap_cons] at hsize ⊢
    have hdata : pre ++ (encodeBox (kind, body) ++ boxes.flatMap encodeBox) =
        pre ++ (beBytes 4 (8 + body.length) ++ (kind ++ (body ++ boxes.flatMap encodeBox))) := by
      simp only [encodeBox, List.append_assoc]
    have hwidth : (beBytes 4 (8 + body.length)).length = 4 := length_beBytes _ _
    have hsize32 : u32At (pre ++ (encodeBox (kind, body) ++ boxes.flatMap encodeBox)) pre.length =
        some (8 + body.length) := by
      have hbytes := bytesAt_append pre (beBytes 4 (8 + body.length))
        (kind ++ (body ++ boxes.flatMap encodeBox))
      rw [hwidth] at hbytes
      rw [u32At, hdata, hbytes, Option.map_some, be, foldl_beBytes 4 _ 0 (by omega), Nat.zero_mul,
        Nat.zero_add]
    have hkindAt : bytesAt (pre ++ (encodeBox (kind, body) ++ boxes.flatMap encodeBox))
        (pre.length + 4) 4 = some kind := by
      have hbytes := bytesAt_append (pre ++ beBytes 4 (8 + body.length)) kind
        (body ++ boxes.flatMap encodeBox)
      rw [List.length_append, hwidth, hkind, List.append_assoc] at hbytes
      rw [hdata, hbytes]
    have hbody : ((pre ++ (encodeBox (kind, body) ++ boxes.flatMap encodeBox)).drop
        (pre.length + 8)).take (8 + body.length - 8) = body := by
      have hdrop : (pre ++ (beBytes 4 (8 + body.length) ++ (kind ++
          (body ++ boxes.flatMap encodeBox)))).drop (pre.length + 8) =
          body ++ boxes.flatMap encodeBox := by
        rw [← List.append_assoc, ← List.append_assoc]
        refine List.drop_left' ?_
        simp only [List.length_append, hwidth, hkind]
      rw [hdata, hdrop]
      exact List.take_left' (by omega)
    simp only [List.length_append] at hsize
    have hstop : (pre.length + (8 + body.length)) % 2 ^ 64 = pre.length + (8 + body.length) :=
      Nat.mod_eq_of_lt (by omega)
    have hend : ¬((8 + body.length) < 8 ∨ (pre ++ (encodeBox (kind, body) ++
        boxes.flatMap encodeBox)).length < pre.length + (8 + body.length)) := by
      simp only [List.length_append]
      omega
    rw [List.length_cons] at hfuel
    have hshorter : ((pre ++ encodeBox (kind, body)) ++ boxes.flatMap encodeBox).length < 2 ^ 64 := by
      simp only [List.length_append]
      omega
    have hnext : walkBoxes ((pre ++ encodeBox (kind, body)) ++ boxes.flatMap encodeBox) fuel
        (pre ++ encodeBox (kind, body)).length = .ok boxes := ih hrest _ hshorter (by omega)
    rw [List.append_assoc, List.length_append, hlength] at hnext
    unfold walkBoxes
    simp only [hsize32, hkindAt, boxSize, if_neg (show ¬8 + body.length = 1 by omega),
      if_neg (show ¬8 + body.length = 0 by omega), hstop, if_neg hend,
      if_neg (show ¬pre.length + (8 + body.length) < pre.length + 8 by omega), hnext]
    rw [show pre.length + (8 + body.length) - (pre.length + 8) = 8 + body.length - 8 by omega, hbody]
    rfl

/-- Among boxes one after the other, the first of a kind is found. -/
theorem findBox_flatMap {boxes : List (Bytes × Bytes)} (hboxes : ∀ box ∈ boxes, IsBox box)
    (hsize : (boxes.flatMap encodeBox).length < 2 ^ 64) (kind : Bytes) :
    findBox (boxes.flatMap encodeBox) kind = .ok (boxes.lookup kind) := by
  have hfuel : boxes.length < (boxes.flatMap encodeBox).length + 1 :=
    Nat.lt_succ_of_le (length_le_flatMap hboxes)
  have hwalk := walkBoxes_flatMap hboxes [] hsize hfuel
  rw [List.nil_append, List.length_nil] at hwalk
  rw [findBox, hwalk]
  rfl

end Kahawai.Media.Subindex
