import Kahawai.Core.Text
import Kahawai.Lib.Chunks
import Kahawai.Lib.Codec

/-!
# The eD2k hash

`Ed2k::update` and `Ed2k::finish` (`crates/kahawai-mediahost/src/ed2k.rs`, lines 12–63): chunks of
9,728,000 bytes, an MD4 for each, and an MD4 over those if there is more than one. The hasher of
the `md4` crate is a parameter.

Results:
* `update_fed`: a call keeps that the state is that of the bytes fed so far.
* `hash_slices`: whatever the slices, the hash is that of the bytes.
-/

namespace Kahawai.Mediahost.Ed2k

open Kahawai.Core Kahawai.Lib.Chunks Kahawai.Lib.Codec

/-- `CHUNK`. -/
def CHUNK : ℕ := 9728000

theorem CHUNK_pos : 0 < CHUNK := by decide

/-- `[u8; 16]`. -/
abbrev Digest := Vector UInt8 16

/-! ## The hasher -/

/-- `md4::Md4`. -/
structure Md4 (H : Type*) where
  new : H
  update : H → Bytes → H
  finalize : H → Digest

variable {H : Type*}

/-- Incremental updates equal hashing the concatenation. -/
def Md4.Incremental (md4 : Md4 H) (digest : Bytes → Digest) : Prop :=
  ∀ parts : List Bytes, md4.finalize (parts.foldl md4.update md4.new) = digest parts.flatten

/-! ## The state -/

/-- `Ed2k`. -/
structure State (H : Type*) where
  chunkHasher : H
  chunkFill : ℕ
  chunks : List Digest
  fill_lt : chunkFill < CHUNK

variable (md4 : Md4 H)

/-- `Ed2k::default`. -/
def default : State H := ⟨md4.new, 0, [], CHUNK_pos⟩

/-- `take`: what the turn takes of the data. -/
def takeLen (s : State H) (data : Bytes) : ℕ := min data.length (CHUNK - s.chunkFill)

theorem length_take (s : State H) (data : Bytes) :
    (data.take (takeLen s data)).length = takeLen s data := by
  rw [List.length_take]
  exact Nat.min_eq_left (Nat.min_le_left _ _)

theorem takeLen_le (s : State H) (data : Bytes) : s.chunkFill + takeLen s data ≤ CHUNK := by
  have := s.fill_lt
  unfold takeLen
  omega

/-- A part goes into the chunk; one that fills it completes it. -/
def feed (s : State H) (part : Bytes) (hroom : s.chunkFill + part.length ≤ CHUNK) : State H :=
  let hasher := md4.update s.chunkHasher part
  if hfill : s.chunkFill + part.length = CHUNK then
    ⟨md4.new, 0, s.chunks ++ [md4.finalize hasher], CHUNK_pos⟩
  else ⟨hasher, s.chunkFill + part.length, s.chunks, Nat.lt_of_le_of_ne hroom hfill⟩

/-- `Ed2k::update`. -/
def update (s : State H) (data : Bytes) : State H :=
  if data = [] then s
  else
    update (feed md4 s (data.take (takeLen s data)) (by rw [length_take]; exact takeLen_le s data))
      (data.drop (takeLen s data))
termination_by data.length
decreasing_by
  have := s.fill_lt
  have := List.length_pos_of_ne_nil ‹¬data = []›
  rw [List.length_drop, takeLen]
  omega

/-- A digit of `x`. -/
def hexDigit (n : ℕ) : Char := Char.ofNat (if n < 10 then 48 + n else 87 + n)

/-- `format!("\x7bb:02x\x7d")`. -/
def hexByte (b : UInt8) : Text := [hexDigit (b.toNat / 16), hexDigit (b.toNat % 16)]

def hex (digest : Digest) : Text := digest.toList.flatMap hexByte

/-- `Ed2k::finish`. -/
def finish (s : State H) : Text :=
  hex <|
    if s.chunks = [] then md4.finalize s.chunkHasher
    else
      let chunks := s.chunks ++ [md4.finalize s.chunkHasher]
      md4.finalize (chunks.foldl (fun root c => md4.update root c.toList) md4.new)

/-! ## The hash of a file -/

/-- The MD4 of less than a chunk; of more, the MD4 over those of the full chunks and of what is
behind them. -/
def reference (digest : Bytes → Digest) (data : Bytes) : Digest :=
  if data.length < CHUNK then digest data
  else
    digest (((fullChunks CHUNK data ++ [remainder CHUNK data]).map digest).flatMap Vector.toList)

/-- The state of these bytes: the chunks have their digests, and the hasher has what is behind
them. -/
def Fed (digest : Bytes → Digest) (s : State H) (data : Bytes) : Prop :=
  ∃ (chunks parts : List Bytes), IsCut CHUNK chunks parts.flatten data ∧
    s.chunks = chunks.map digest ∧ s.chunkHasher = parts.foldl md4.update md4.new ∧
    s.chunkFill = parts.flatten.length

variable {md4} {digest : Bytes → Digest} {s : State H} {data : Bytes}

theorem default_fed : Fed md4 digest (default md4) [] :=
  ⟨[], [], isCut_nil CHUNK_pos, rfl, rfl, rfl⟩

theorem feed_fed (hmd4 : md4.Incremental digest) (h : Fed md4 digest s data) {part : Bytes}
    (hroom : s.chunkFill + part.length ≤ CHUNK) :
    Fed md4 digest (feed md4 s part hroom) (data ++ part) := by
  obtain ⟨chunks, parts, hcut, hchunks, hhasher, hlength⟩ := h
  have hflatten : (parts ++ [part]).flatten = parts.flatten ++ part := by
    rw [List.flatten_append, List.flatten_singleton]
  have hfed : md4.update s.chunkHasher part = (parts ++ [part]).foldl md4.update md4.new := by
    rw [List.foldl_append, ← hhasher]
    rfl
  unfold feed
  dsimp only
  split_ifs with hfill
  · refine ⟨chunks ++ [parts.flatten ++ part], [], hcut.fill (by rw [← hlength, hfill]), ?_, rfl, rfl⟩
    rw [hchunks, hfed, hmd4, hflatten, List.map_append]
    rfl
  · refine ⟨chunks, parts ++ [part], ?_, hchunks, hfed, ?_⟩
    · rw [hflatten]
      exact hcut.extend (by rw [← hlength]; omega)
    · show s.chunkFill + part.length = _
      rw [hflatten, List.length_append, hlength]

/-- A call feeds the slice, whatever it spans. -/
theorem update_fed (hmd4 : md4.Incremental digest) (h : Fed md4 digest s data) (slice : Bytes) :
    Fed md4 digest (update md4 s slice) (data ++ slice) := by
  induction s, slice using update.induct md4 generalizing data with
  | case1 s =>
    rw [update, if_pos rfl, List.append_nil]
    exact h
  | case2 s slice hslice ih =>
    have hsplit : data ++ slice =
        data ++ slice.take (takeLen s slice) ++ slice.drop (takeLen s slice) := by
      rw [List.append_assoc, List.take_append_drop]
    rw [update, if_neg hslice, hsplit]
    exact ih (feed_fed hmd4 h _)

theorem foldl_update_fed (hmd4 : md4.Incremental digest) (h : Fed md4 digest s data)
    (slices : List Bytes) : Fed md4 digest (slices.foldl (update md4) s) (data ++ slices.flatten) := by
  induction slices generalizing s data with
  | nil =>
    rw [List.flatten_nil, List.append_nil]
    exact h
  | cons slice slices ih =>
    rw [List.flatten_cons, ← List.append_assoc]
    exact ih (update_fed hmd4 h slice)

/-- The hash of what was fed. -/
theorem finish_eq (hmd4 : md4.Incremental digest) (h : Fed md4 digest s data) :
    finish md4 s = hex (reference digest data) := by
  obtain ⟨chunks, parts, hcut, hchunks, hhasher, -⟩ := h
  obtain ⟨hfull, hrest⟩ := isCut_unique hcut
  have hlast : md4.finalize s.chunkHasher = digest parts.flatten := by rw [hhasher, hmd4]
  have hwhole := hcut.whole
  rw [finish, reference, hlast]
  congr 1
  by_cases hnone : chunks = []
  · rw [hnone] at hwhole
    have hempty : s.chunks = [] := by rw [hchunks, hnone, List.map_nil]
    rw [if_pos hempty, if_pos (by rw [← hwhole]; exact hcut.short), ← hwhole]
    rfl
  · have hsome : s.chunks ≠ [] := by
      rw [hchunks]
      exact fun h => hnone (List.map_eq_nil_iff.mp h)
    have hlong : ¬data.length < CHUNK := by
      obtain ⟨first, others, rfl⟩ := List.exists_cons_of_ne_nil hnone
      have hfirst := hcut.full first List.mem_cons_self
      rw [← hwhole, List.flatten_cons, List.length_append, List.length_append]
      omega
    rw [if_neg hsome, if_neg hlong, hfull, hrest, hchunks, List.map_append, List.map_singleton]
    have hroot := hmd4 ((chunks.map digest ++ [digest parts.flatten]).map Vector.toList)
    rw [List.foldl_map] at hroot
    rw [hroot, List.flatMap_def]

/-- Whatever the slices, the hash is that of the bytes. -/
theorem hash_slices (hmd4 : md4.Incremental digest) (slices : List Bytes) :
    finish md4 (slices.foldl (update md4) (default md4)) = hex (reference digest slices.flatten) := by
  have h := foldl_update_fed hmd4 default_fed slices
  rw [List.nil_append] at h
  exact finish_eq hmd4 h

/-- A hasher that keeps the bytes and knows two of the digests. -/
def vectorMd4 : Md4 Bytes where
  new := []
  update := (· ++ ·)
  finalize data :=
    if data = [0x61, 0x62, 0x63] then
      #v[0xa4, 0x48, 0x01, 0x7a, 0xaf, 0x21, 0xd8, 0x52, 0x5f, 0xc1, 0x0a, 0xe8, 0x7a, 0xa6, 0x72, 0x9d]
    else
      #v[0x31, 0xd6, 0xcf, 0xe0, 0xd1, 0x6a, 0xe9, 0x31, 0xb7, 0x3c, 0x59, 0xd7, 0xe0, 0xc0, 0x89, 0xc0]

theorem vectorMd4_incremental : vectorMd4.Incremental vectorMd4.finalize := by
  intro parts
  have hkept (start : Bytes) : parts.foldl vectorMd4.update start = start ++ parts.flatten := by
    induction parts generalizing start with
    | nil => simp
    | cons part parts ih =>
      rw [List.foldl_cons, ih, List.flatten_cons, ← List.append_assoc]
      rfl
  rw [hkept]
  rfl

theorem hash_abc :
    finish vectorMd4 ([[0x61], [], [0x62, 0x63]].foldl (update vectorMd4) (default vectorMd4)) =
      lit "a448017aaf21d8525fc10ae87aa6729d" := by
  rw [hash_slices vectorMd4_incremental]
  decide

end Kahawai.Mediahost.Ed2k
