import Mathlib.Data.List.Basic
import Mathlib.Tactic.Common

/-!
# Chunks

A list cut into chunks of `n` items and what is left.

Results:
* `isCut_unique`: there is only one cut into chunks of `n` items and fewer than `n` behind them.
* `IsCut.extend`, `IsCut.fill`: the cut of a list that grows.
-/

namespace Kahawai.Lib.Chunks

variable {α : Type*} {n : ℕ}

/-- The chunks of `n` items that the list fills. -/
def fullChunks (n : ℕ) (data : List α) : List (List α) :=
  (List.range (data.length / n)).map fun i => (data.drop (i * n)).take n

/-- What is behind them. -/
def remainder (n : ℕ) (data : List α) : List α := data.drop (data.length / n * n)

/-- The list is these chunks of `n` items, and then fewer than `n`. -/
structure IsCut (n : ℕ) (chunks : List (List α)) (rest data : List α) : Prop where
  full : ∀ chunk ∈ chunks, chunk.length = n
  short : rest.length < n
  whole : chunks.flatten ++ rest = data

theorem fullChunks_of_lt {data : List α} (h : data.length < n) : fullChunks n data = [] := by
  rw [fullChunks, Nat.div_eq_of_lt h]
  rfl

theorem remainder_of_lt {data : List α} (h : data.length < n) : remainder n data = data := by
  rw [remainder, Nat.div_eq_of_lt h, Nat.zero_mul]
  rfl

/-- A chunk in front is the first one. -/
theorem fullChunks_append {chunk : List α} (hn : 0 < n) (h : chunk.length = n) (data : List α) :
    fullChunks n (chunk ++ data) = chunk :: fullChunks n data := by
  have hcount : (chunk ++ data).length / n = data.length / n + 1 := by
    rw [List.length_append, h, Nat.add_div_left _ hn]
  rw [fullChunks, hcount, List.range_succ_eq_map, List.map_cons, List.map_map]
  congr 1
  · rw [Nat.zero_mul, List.drop_zero, List.take_left' h]
  · refine List.map_congr_left fun i _ => ?_
    show ((chunk ++ data).drop ((i + 1) * n)).take n = _
    rw [Nat.succ_mul, Nat.add_comm, ← h, List.drop_length_add_append]

theorem remainder_append {chunk : List α} (hn : 0 < n) (h : chunk.length = n) (data : List α) :
    remainder n (chunk ++ data) = remainder n data := by
  have hcount : (chunk ++ data).length / n = data.length / n + 1 := by
    rw [List.length_append, h, Nat.add_div_left _ hn]
  rw [remainder, hcount, Nat.succ_mul, Nat.add_comm, ← h, List.drop_length_add_append, remainder, h]

/-- A list can be cut in one way only. -/
theorem isCut_unique {chunks : List (List α)} {rest data : List α} (h : IsCut n chunks rest data) :
    fullChunks n data = chunks ∧ remainder n data = rest := by
  obtain ⟨hfull, hshort, rfl⟩ := h
  have hn : 0 < n := Nat.lt_of_le_of_lt (Nat.zero_le _) hshort
  induction chunks with
  | nil => exact ⟨fullChunks_of_lt hshort, remainder_of_lt hshort⟩
  | cons chunk chunks ih =>
    obtain ⟨hchunk, hchunks⟩ := List.forall_mem_cons.mp hfull
    obtain ⟨hcut, hrest⟩ := ih hchunks
    rw [List.flatten_cons, List.append_assoc]
    exact ⟨by rw [fullChunks_append hn hchunk, hcut], by rw [remainder_append hn hchunk, hrest]⟩

theorem isCut_nil (hn : 0 < n) : IsCut n [] ([] : List α) [] :=
  ⟨fun _ hmem => absurd hmem (by simp), hn, rfl⟩

namespace IsCut

variable {chunks : List (List α)} {rest data more : List α}

/-- What does not fill the chunk is added to it. -/
theorem extend (h : IsCut n chunks rest data) (hshort : rest.length + more.length < n) :
    IsCut n chunks (rest ++ more) (data ++ more) := by
  refine ⟨h.full, by rwa [List.length_append], ?_⟩
  rw [← List.append_assoc, h.whole]

/-- What fills the chunk completes it. -/
theorem fill (h : IsCut n chunks rest data) (hfull : rest.length + more.length = n) :
    IsCut n (chunks ++ [rest ++ more]) [] (data ++ more) := by
  refine ⟨fun chunk hmem => ?_, ?_, ?_⟩
  · rcases List.mem_append.mp hmem with hmem | hmem
    · exact h.full chunk hmem
    · obtain rfl := List.mem_singleton.mp hmem
      rwa [List.length_append]
  · have := h.short
    rw [List.length_nil]
    omega
  · rw [List.flatten_append, List.flatten_singleton, List.append_nil, ← List.append_assoc, h.whole]

end IsCut

end Kahawai.Lib.Chunks
