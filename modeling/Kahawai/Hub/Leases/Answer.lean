import Mathlib.Order.MinMax
import Kahawai.Hub.Leases.State

/-!
# The answer to one request

A serving peer sends the bytes of a request in order and then an end chunk.
`Answer` describes the chunks of one answer that are still on their way: the
peer adds at the end (`Answer.append`), the lease takes from the front (the
constructors), and a peer that goes away leaves a part (`Answer.hangUp`).
-/

namespace Kahawai.Hub.Leases

open Kahawai.Lib

variable {src : Source}

/-! ## Bytes of the file -/

theorem take_drop_append {α : Type*} (l : List α) {a b : ℕ} (h : a ≤ b) :
    (l.take b).drop a ++ l.drop b = l.drop a := by
  have hlen : (l.drop b).drop (a - (l.take b).length) = l.drop b := by
    rw [List.length_take]
    rcases Nat.le_total b l.length with hb | hb
    · rw [Nat.min_eq_left hb, Nat.sub_eq_zero_of_le h, List.drop_zero]
    · rw [List.drop_eq_nil_of_le hb, List.drop_nil]
  calc (l.take b).drop a ++ l.drop b
      = (l.take b).drop a ++ (l.drop b).drop (a - (l.take b).length) := by rw [hlen]
    _ = (l.take b ++ l.drop b).drop a := List.drop_append.symm
    _ = l.drop a := by rw [List.take_append_drop]

/-- Two adjacent parts of the file are one part. -/
theorem slice_append {a b c : ℕ} (hab : a ≤ b) (hbc : b ≤ c) :
    src.slice a b ++ src.slice b c = src.slice a c := by
  have htake : src.bytes.take (min b src.size) =
      (src.bytes.take (min c src.size)).take (min b src.size) := by
    rw [List.take_take, Nat.min_eq_left (min_le_min_right _ hbc)]
  unfold Source.slice
  rw [htake]
  exact take_drop_append _ (min_le_min_right _ hab)

/-- Positions past the end of the file count as its end. -/
theorem slice_congr {a b a' b' : ℕ} (ha : min a src.size = min a' src.size)
    (hb : min b src.size = min b' src.size) : src.slice a b = src.slice a' b' := by
  unfold Source.slice
  rw [ha, hb]

theorem payload_append (items items' : List Item) :
    payload (items ++ items') = payload items ++ payload items' := by
  induction items with
  | nil => rfl
  | cons item items ih =>
    cases item with
    | bytes call data => rw [List.cons_append, payload, payload, ih, List.append_assoc]
    | error msg => rw [List.cons_append, payload, payload, ih]

/-! ## The answer to a request -/

/-- The chunks are what is on its way of the answer to a request of the call `i`
    from the position `a` on; the request ends at `stop`. -/
inductive Answer (src : Source) (i stop : ℕ) (peer : Peer) : ℕ → List (Sent ByteChunk) → Prop
  | serving {a : ℕ} : a ≤ stop → peer = .serving (some i) a stop → Answer src i stop peer a []
  | cut {a : ℕ} : peer = .closed → Answer src i stop peer a []
  | failed {a : ℕ} {chunk : Sent ByteChunk} : peer = .closed → chunk.msg.eof = false →
      chunk.msg.data = [] → chunk.call = none ∧ chunk.msg.error ≠ "" ∨ chunk.call = some i →
      Answer src i stop peer a [chunk]
  | ended (offset : ℕ) : peer = .idle ∨ peer = .closed →
      Answer src i stop peer stop [⟨some i, endChunk offset⟩]
  | data {a : ℕ} (offset : ℕ) {data : List UInt8} {rest : List (Sent ByteChunk)} :
      a + data.length ≤ stop → data = src.slice a (a + data.length) →
      Answer src i stop peer (a + data.length) rest →
      Answer src i stop peer a (⟨some i, dataChunk offset data⟩ :: rest)

variable {i stop q : ℕ}

/-- What a serving peer sends next comes after what is on its way. -/
theorem Answer.append {peer peer' : Peer} {a : ℕ} {chunks tail : List (Sent ByteChunk)}
    (h : Answer src i stop peer a chunks) (hpeer : peer = .serving (some i) q stop)
    (htail : Answer src i stop peer' q tail) : Answer src i stop peer' a (chunks ++ tail) := by
  induction h with
  | serving hle hserving =>
    rw [hpeer] at hserving
    cases hserving
    exact htail
  | cut hclosed => rw [hpeer] at hclosed; cases hclosed
  | failed hclosed => rw [hpeer] at hclosed; cases hclosed
  | ended _ hdone => rw [hpeer] at hdone; rcases hdone with h | h <;> cases h
  | data offset hle hdata _ ih => exact .data offset hle hdata ih

/-- A peer that goes away leaves a part of its answer. -/
theorem Answer.hangUp {peer : Peer} {a : ℕ} {chunks : List (Sent ByteChunk)}
    (h : Answer src i stop peer a chunks) (kept : ℕ) :
    Answer src i stop .closed a (chunks.take kept) := by
  induction h generalizing kept with
  | serving =>
    rw [List.take_nil]
    exact .cut rfl
  | cut =>
    rw [List.take_nil]
    exact .cut rfl
  | failed _ heof hdata hcall =>
    cases kept with
    | zero => exact .cut rfl
    | succ kept =>
      rw [List.take_succ_cons, List.take_nil]
      exact .failed rfl heof hdata hcall
  | ended offset =>
    cases kept with
    | zero => exact .cut rfl
    | succ kept =>
      rw [List.take_succ_cons, List.take_nil]
      exact .ended offset (.inr rfl)
  | data offset hle hdata _ ih =>
    cases kept with
    | zero => exact .cut rfl
    | succ kept => exact .data offset hle hdata (ih kept)

end Kahawai.Hub.Leases
