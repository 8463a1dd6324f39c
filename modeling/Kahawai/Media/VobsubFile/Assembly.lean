import Kahawai.Lib.Checked
import Kahawai.Media.VobsubFile

/-!
# Reassembly of VobSub units

`assemble_spu` (`crates/kahawai-media/src/vobsub_file.rs`, lines 120–172) with its arithmetic and
its accesses checked, and the program stream that its units are split over.

Results:
* `assembleSpuChecked_eq`: nothing is out of range and nothing overflows but the end of the pack.
* `assembleSpu_packs`: the fragments of a unit are put together, whatever lies between them.
-/

namespace Kahawai.Media.VobsubFile

open Kahawai.Lib Kahawai.Lib.Codec Kahawai.Lib.Checked Kahawai.Media.Burnin

/-! ## Model -/

/-- The data of one packet of private stream 1 (lines 146–161); `none` is an error. -/
def gatherPacketChecked (substream : UInt8) (body : Bytes) (g : Gathered) :
    Checked (Option Gathered) :=
  match body[2]? with
  | none => return none
  | some headerLength => do
    let hdr ← add 64 3 headerLength.toNat
    if hdr ≤ body.length then
      match body.drop hdr with
      | [] => return some g
      | ss :: rest =>
        if ss ≠ substream then return some g
        else if g.spu.isEmpty then
          if 2 ≤ rest.length then do
            let high ← index rest 0
            let low ← index rest 1
            return some ⟨rest, 256 * high.toNat + low.toNat⟩
          else return none
        else return some ⟨g.spu ++ rest, g.want⟩
    else return none

/-- The packets of one pack from position `p` on (lines 134–162). -/
def gatherPackChecked (substream : UInt8) (pack : Bytes) : (fuel p : ℕ) → Gathered →
    Checked (Option Gathered)
  | 0, _, _ => .error .unfinished
  | fuel + 1, p, g => do
    let header ← add 64 p 6
    if header ≤ packSize then
      let stop ← add 64 p 3
      let code ← slice pack p stop
      if code = [0, 0, 1] then
        let sid ← index pack stop
        let high ← index pack (← add 64 p 4)
        let low ← index pack (← add 64 p 5)
        let len := 256 * high.toNat + low.toNat
        let _ ← add 64 header len
        match getRange pack header len with
        | none => return none
        | some body =>
          let p ← add 64 p (6 + len)
          if sid = 0xBD then
            match ← gatherPacketChecked substream body g with
            | none => return none
            | some g => gatherPackChecked substream pack fuel p g
          else gatherPackChecked substream pack fuel p g
      else return some g
    else return some g

/-- The packs from `start` on, at most `rounds` of them (lines 125–164). -/
def gatherPacksChecked (sub : Bytes) (substream : UInt8) : (rounds start : ℕ) → Gathered →
    Checked (Option Gathered)
  | 0, _, g => return some g
  | rounds + 1, start, g =>
    if g.want ≤ g.spu.length ∧ 0 < g.want then return some g
    else do
      let _ ← add 64 start packSize
      match getRange sub start packSize with
      | none => return none
      | some pack =>
        let code ← slice pack 0 4
        if code = [0, 0, 1, 0xBA] then
          let stuffing ← index pack 13
          match ← gatherPackChecked substream pack packSize (14 + stuffing.toNat % 8) g with
          | none => return none
          | some g => gatherPacksChecked sub substream rounds (← add 64 start packSize) g
        else return none

/-- `assemble_spu` (lines 120–172). -/
def assembleSpuChecked (sub : Bytes) (start : ℕ) (substream : UInt8) : Checked (Option Bytes) := do
  match ← gatherPacksChecked sub substream 64 start ⟨[], 0⟩ with
  | none => return none
  | some g =>
    return if 0 < g.want ∧ g.want ≤ g.spu.length then some (g.spu.take g.want) else none

/-! ## Nothing is out of range -/

theorem be16_eq {data : Bytes} {i : ℕ} {high low : UInt8} (hhigh : data[i]? = some high)
    (hlow : data[i + 1]? = some low) : be16 data i = some (256 * high.toNat + low.toNat) := by
  rw [be16, hhigh, hlow]
  rfl

theorem gatherPacketChecked_eq (substream : UInt8) (body : Bytes) (g : Gathered) :
    gatherPacketChecked substream body g = .ok (gatherPacket substream body g) := by
  unfold gatherPacketChecked gatherPacket
  cases body[2]? with
  | none => rfl
  | some headerLength =>
    have hlt := headerLength.toNat_lt
    simp only [add_eq (show 3 + headerLength.toNat < 2 ^ 64 by omega), ok_bind,
      Option.bind_eq_bind, Option.bind_some]
    by_cases hfits : 3 + headerLength.toNat ≤ body.length
    · simp only [if_pos hfits]
      cases body.drop (3 + headerLength.toNat) with
      | nil => rfl
      | cons ss rest =>
        dsimp only
        by_cases hss : ss ≠ substream
        · simp only [if_pos hss]
          rfl
        · simp only [if_neg hss]
          by_cases hempty : g.spu.isEmpty = true
          · simp only [if_pos hempty]
            rcases rest with _ | ⟨high, _ | ⟨low, rest⟩⟩ <;> rfl
          · simp only [if_neg hempty]
            rfl
    · simp only [if_neg hfits]
      rfl

/-- Every packet takes six bytes at least. -/
theorem gatherPackChecked_eq {substream : UInt8} {pack : Bytes} (hpack : pack.length = packSize)
    {fuel p : ℕ} (hp : p < 2 ^ 63) (hfuel : packSize < p + fuel) (hpos : 0 < fuel) (g : Gathered) :
    gatherPackChecked substream pack fuel p g = .ok (gatherPack substream pack fuel p g) := by
  have hsize : packSize = 2048 := rfl
  induction fuel generalizing p g with
  | zero => exact absurd hpos (Nat.lt_irrefl 0)
  | succ fuel ih =>
    unfold gatherPackChecked gatherPack
    simp only [add_eq (show p + 6 < 2 ^ 64 by omega), ok_bind]
    by_cases hroom : p + 6 ≤ packSize
    · have hcode : slice pack p (p + 3) = .ok ((pack.drop p).take 3) := by
        rw [slice_eq (by omega) (by omega), Nat.add_sub_cancel_left]
      obtain ⟨sid, hsid⟩ : ∃ b, pack[p + 3]? = some b :=
        ⟨_, List.getElem?_eq_getElem (by omega)⟩
      obtain ⟨high, hhigh⟩ : ∃ b, pack[p + 4]? = some b :=
        ⟨_, List.getElem?_eq_getElem (by omega)⟩
      obtain ⟨low, hlow⟩ : ∃ b, pack[p + 5]? = some b :=
        ⟨_, List.getElem?_eq_getElem (by omega)⟩
      have hlen : 256 * high.toNat + low.toNat < 65536 := by
        have := high.toNat_lt
        have := low.toNat_lt
        omega
      simp only [add_eq (show p + 3 < 2 ^ 64 by omega), hcode, ok_bind, true_and,
        hroom]
      by_cases hstart : (pack.drop p).take 3 = [0, 0, 1]
      · simp only [if_pos hstart, add_eq (show p + 4 < 2 ^ 64 by omega),
          add_eq (show p + 5 < 2 ^ 64 by omega), index_eq hsid, index_eq hhigh, index_eq hlow, ok_bind,
          add_eq (show p + 6 + (256 * high.toNat + low.toNat) < 2 ^ 64 by omega), hsid,
          be16_eq hhigh hlow, Option.bind_eq_bind, Option.bind_some]
        cases getRange pack (p + 6) (256 * high.toNat + low.toNat) with
        | none => rfl
        | some body =>
          have hnext : ∀ g, gatherPackChecked substream pack fuel
              (p + (6 + (256 * high.toNat + low.toNat))) g =
              .ok (gatherPack substream pack fuel (p + (6 + (256 * high.toNat + low.toNat))) g) :=
            fun g => ih (by omega) (by omega) (by omega) g
          simp only [add_eq (show p + (6 + (256 * high.toNat + low.toNat)) < 2 ^ 64 by omega), ok_bind,
            Option.bind_some]
          by_cases hprivate : sid = 0xBD
          · simp only [if_pos hprivate, gatherPacketChecked_eq, ok_bind]
            cases gatherPacket substream body g with
            | none => rfl
            | some g => exact hnext g
          · simp only [if_neg hprivate]
            exact hnext g
      · simp only [if_neg hstart]
        rfl
    · simp only [hroom, false_and, if_false]
      rfl

/-- Only the end of a pack can overflow, and only that of the first. -/
theorem gatherPacksChecked_eq {sub : Bytes} (hsub : sub.length < 2 ^ 63) {substream : UInt8}
    {rounds start : ℕ} (hstart : start + packSize < 2 ^ 64) (g : Gathered) :
    gatherPacksChecked sub substream rounds start g = .ok (gatherPacks sub substream rounds start g) := by
  have hsize : packSize = 2048 := rfl
  induction rounds generalizing start g with
  | zero => rfl
  | succ rounds ih =>
    unfold gatherPacksChecked gatherPacks
    split_ifs with hdone
    · rfl
    · simp only [add_eq hstart, ok_bind, Option.bind_eq_bind]
      cases hrange : getRange sub start packSize with
      | none => rfl
      | some pack =>
        have hend : start + packSize ≤ sub.length ∧ pack.length = packSize := by
          unfold getRange at hrange
          split_ifs at hrange with hle
          obtain rfl := Option.some.inj hrange
          rw [List.length_take, List.length_drop]
          omega
        have hcode : slice pack 0 4 = .ok (pack.take 4) := by
          rw [slice_eq (by omega) (by omega)]
          rfl
        simp only [hcode, ok_bind, Option.bind_some]
        split_ifs with hpack
        · obtain ⟨stuffing, hstuffing⟩ : ∃ b, pack[13]? = some b :=
            ⟨_, List.getElem?_eq_getElem (by omega)⟩
          have hgather := @gatherPackChecked_eq substream _ hend.2 packSize (14 + stuffing.toNat % 8)
            (by omega) (by omega) (by omega) g
          simp only [index_eq hstuffing, hstuffing, ok_bind, Option.bind_some, hgather]
          cases gatherPack substream pack packSize (14 + stuffing.toNat % 8) g with
          | none => rfl
          | some g => exact ih (by omega) g
        · rfl

/-- Nothing is out of range, and only the end of the first pack can overflow. -/
theorem assembleSpuChecked_eq {sub : Bytes} (hsub : sub.length < 2 ^ 63) {start : ℕ}
    (hstart : start + packSize < 2 ^ 64) (substream : UInt8) :
    assembleSpuChecked sub start substream = .ok (assembleSpu sub start substream) := by
  unfold assembleSpuChecked assembleSpu
  rw [gatherPacksChecked_eq hsub hstart, ok_bind]
  cases gatherPacks sub substream 64 start ⟨[], 0⟩ <;> rfl

theorem assembleSpuChecked_overflow {sub : Bytes} {start : ℕ} (hstart : 2 ^ 64 ≤ start + packSize)
    (substream : UInt8) : assembleSpuChecked sub start substream = .error .overflow := by
  have hfirst : gatherPacksChecked sub substream 64 start ⟨[], 0⟩ = .error .overflow := by
    unfold gatherPacksChecked
    rw [if_neg (by simp), add_overflow hstart]
    rfl
  rw [assembleSpuChecked, hfirst]
  rfl

/-! ## Program streams -/

/-- A packet: one of private stream 1, with its two bytes of flags, its header and the data of a
substream; or one of another stream. -/
inductive Packet
  | ofSubstream (flags₁ flags₂ : UInt8) (header : Bytes) (ss : UInt8) (data : Bytes)
  | ofStream (sid : UInt8) (body : Bytes)

namespace Packet

def sid : Packet → UInt8
  | ofSubstream .. => 0xBD
  | ofStream sid _ => sid

def body : Packet → Bytes
  | ofSubstream flags₁ flags₂ header ss data =>
    flags₁ :: flags₂ :: UInt8.ofNat header.length :: (header ++ ss :: data)
  | ofStream _ body => body

def encode (p : Packet) : Bytes :=
  0 :: 0 :: 1 :: p.sid :: UInt8.ofNat (p.body.length / 256) :: UInt8.ofNat (p.body.length % 256) ::
    p.body

/-- The lengths fit, and another stream is not private stream 1. -/
def WellFormed : Packet → Prop
  | p@(ofSubstream _ _ header _ _) => header.length < 256 ∧ p.body.length < 65536
  | ofStream sid body => sid ≠ 0xBD ∧ body.length < 65536

/-- The data of the substream that the packet carries. -/
def fragments (substream : UInt8) : Packet → List Bytes
  | ofSubstream _ _ _ ss data => if ss = substream then [data] else []
  | ofStream .. => []

end Packet

/-- A pack: nine bytes of clock, a byte whose low bits count the stuffing, the stuffing, packets, and
what is left. -/
structure Pack where
  clock : Bytes
  marker : UInt8
  stuffing : Bytes
  packets : List Packet
  rest : Bytes

namespace Pack

def encode (p : Pack) : Bytes :=
  [0, 0, 1, 0xBA] ++ p.clock ++ p.marker :: p.stuffing ++ (p.packets.flatMap Packet.encode ++ p.rest)

/-- The pack has its size, and what is left is no packet. -/
structure WellFormed (p : Pack) : Prop where
  clock : p.clock.length = 9
  stuffing : p.stuffing.length = p.marker.toNat % 8
  packets : ∀ packet ∈ p.packets, packet.WellFormed
  size : p.encode.length = packSize
  ends : p.rest.length < 6 ∨ p.rest.take 3 ≠ [0, 0, 1]

/-- The data of the substream in the pack. -/
def fragments (substream : UInt8) (p : Pack) : List Bytes :=
  p.packets.flatMap (Packet.fragments substream)

end Pack

/-! ## Fragments -/

/-- What a fragment adds; the first one declares the length. -/
def Gathered.add (g : Gathered) (fragment : Bytes) : Option Gathered :=
  if g.spu.isEmpty then (be16 fragment 0).bind fun want => some ⟨fragment, want⟩
  else some ⟨g.spu ++ fragment, g.want⟩

theorem gatherPacket_ofSubstream {substream ss flags₁ flags₂ : UInt8} {header data : Bytes}
    (hheader : header.length < 256) (g : Gathered) :
    gatherPacket substream (Packet.ofSubstream flags₁ flags₂ header ss data).body g =
      if ss ≠ substream then some g else g.add data := by
  have hlength : (UInt8.ofNat header.length).toNat = header.length :=
    UInt8.toNat_ofNat_of_lt hheader
  have hdrop : (flags₁ :: flags₂ :: UInt8.ofNat header.length :: (header ++ ss :: data)).drop
      (3 + header.length) = ss :: data := by
    rw [Nat.add_comm]
    simp
  have hfits : 3 + header.length ≤
      (flags₁ :: flags₂ :: UInt8.ofNat header.length :: (header ++ ss :: data)).length := by
    simp only [List.length_cons, List.length_append]
    omega
  simp only [gatherPacket, Packet.body, List.getElem?_cons_succ, List.getElem?_cons_zero,
    Option.bind_eq_bind, Option.bind_some, hlength, if_pos hfits, hdrop]
  split_ifs with hss hempty
  · rfl
  · rw [Gathered.add, if_pos hempty]
  · rw [Gathered.add, if_neg hempty]

/-- A packet is read where it begins. -/
theorem read_packet {pack before after : Bytes} {packet : Packet}
    (hpack : pack = before ++ (packet.encode ++ after)) (hsize : pack.length = packSize)
    (hlength : packet.body.length < 65536) :
    before.length + 6 ≤ packSize ∧ (pack.drop before.length).take 3 = [0, 0, 1] ∧
      pack[before.length + 3]? = some packet.sid ∧
      be16 pack (before.length + 4) = some packet.body.length ∧
      getRange pack (before.length + 6) packet.body.length = some packet.body := by
  have hdrop : pack.drop before.length = packet.encode ++ after := by
    rw [hpack, List.drop_left]
  have hget (k : ℕ) : pack[before.length + k]? = (packet.encode ++ after)[k]? := by
    rw [← List.getElem?_drop, hdrop]
  have htotal : before.length + (6 + packet.body.length + after.length) = packSize := by
    rw [← hsize, hpack]
    simp only [Packet.encode, List.length_append, List.length_cons]
    omega
  have hhigh : (UInt8.ofNat (packet.body.length / 256)).toNat = packet.body.length / 256 :=
    UInt8.toNat_ofNat_of_lt (show packet.body.length / 256 < 256 by omega)
  have hlow : (UInt8.ofNat (packet.body.length % 256)).toNat = packet.body.length % 256 :=
    UInt8.toNat_ofNat_of_lt (show packet.body.length % 256 < 256 by omega)
  refine ⟨by omega, ?_, ?_, ?_, ?_⟩
  · rw [hdrop]
    rfl
  · rw [hget]
    rfl
  · have h₄ : pack[before.length + 4]? = some (UInt8.ofNat (packet.body.length / 256)) := by
      rw [hget]
      rfl
    have h₅ : pack[before.length + 4 + 1]? = some (UInt8.ofNat (packet.body.length % 256)) := by
      rw [Nat.add_assoc, hget]
      rfl
    rw [be16_eq h₄ h₅, hhigh, hlow]
    congr 1
    omega
  · have hbody : pack.drop (before.length + 6) = packet.body ++ after := by
      rw [← List.drop_drop, hdrop]
      rfl
    rw [getRange, if_pos (by omega), hbody, List.take_left]

/-- The walk over a pack adds the fragments of its packets. -/
theorem gatherPack_packets {substream : UInt8} {pack rest : Bytes} {packets : List Packet}
    (hpackets : ∀ packet ∈ packets, packet.WellFormed) (hends : rest.length < 6 ∨ rest.take 3 ≠ [0, 0, 1])
    (hsize : pack.length = packSize) (before : Bytes)
    (hpack : pack = before ++ (packets.flatMap Packet.encode ++ rest)) {fuel : ℕ}
    (hfuel : packets.length < fuel) (g : Gathered) :
    gatherPack substream pack fuel before.length g =
      (packets.flatMap (Packet.fragments substream)).foldlM Gathered.add g := by
  induction packets generalizing before fuel g with
  | nil =>
    obtain ⟨fuel, rfl⟩ : ∃ n, fuel = n + 1 := ⟨fuel - 1, by omega⟩
    have hstop : ¬(before.length + 6 ≤ packSize ∧ (pack.drop before.length).take 3 = [0, 0, 1]) := by
      rintro ⟨hroom, hcode⟩
      rw [hpack, List.flatMap_nil, List.nil_append, List.drop_left] at hcode
      rcases hends with hshort | hno
      · rw [hpack, List.flatMap_nil, List.nil_append, List.length_append] at hsize
        omega
      · exact hno hcode
    rw [gatherPack, if_neg hstop]
    rfl
  | cons packet packets ih =>
    obtain ⟨fuel, rfl⟩ : ∃ n, fuel = n + 1 := ⟨fuel - 1, by omega⟩
    obtain ⟨hwell, hothers⟩ := List.forall_mem_cons.mp hpackets
    have hlength : packet.body.length < 65536 := by
      cases packet with
      | ofSubstream => exact hwell.2
      | ofStream => exact hwell.2
    rw [List.flatMap_cons, List.append_assoc] at hpack
    obtain ⟨hroom, hcode, hsid, hlen, hbody⟩ := read_packet hpack hsize hlength
    have hnext : before.length + (6 + packet.body.length) = (before ++ packet.encode).length := by
      simp only [Packet.encode, List.length_append, List.length_cons]
      omega
    have hrest := @ih hothers (before ++ packet.encode) (by rw [hpack, List.append_assoc]) fuel
      (by rw [List.length_cons] at hfuel; omega)
    rw [List.flatMap_cons, List.foldlM_append]
    simp only [gatherPack, if_pos (And.intro hroom hcode), hsid, hlen, hbody, Option.bind_eq_bind,
      Option.bind_some, hnext]
    cases packet with
    | ofStream sid body =>
      rw [if_neg (show ¬(Packet.ofStream sid body).sid = 0xBD from hwell.1)]
      exact hrest g
    | ofSubstream flags₁ flags₂ header ss data =>
      rw [if_pos (show (Packet.ofSubstream flags₁ flags₂ header ss data).sid = 0xBD from rfl),
        gatherPacket_ofSubstream hwell.1]
      by_cases hss : ss = substream
      · rw [if_neg (not_not.mpr hss), Packet.fragments, if_pos hss]
        show (g.add data).bind _ = ((g.add data).bind pure).bind _
        cases g.add data with
        | none => rfl
        | some g => exact hrest g
      · rw [if_pos hss, Packet.fragments, if_neg hss]
        exact hrest g

/-- So does the reading of a pack. -/
theorem gatherPack_pack {substream : UInt8} {p : Pack} (hp : p.WellFormed) (g : Gathered) :
    ∃ stuffing, p.encode[13]? = some stuffing ∧ p.encode.take 4 = [0, 0, 1, 0xBA] ∧
      gatherPack substream p.encode packSize (14 + stuffing.toNat % 8) g =
        (p.fragments substream).foldlM Gathered.add g := by
  obtain ⟨hclock, hstuffing, hpackets, hsize, hends⟩ := hp
  have hget : p.encode[13]? = some p.marker := by
    have hbefore : ([0, 0, 1, 0xBA] ++ p.clock).length = 13 := by
      rw [List.length_append, hclock]
      rfl
    have hencode : p.encode = ([0, 0, 1, 0xBA] ++ p.clock) ++
        (p.marker :: p.stuffing ++ (p.packets.flatMap Packet.encode ++ p.rest)) := by
      simp only [Pack.encode, List.append_assoc]
    rw [hencode, List.getElem?_append_right (by omega), hbefore]
    rfl
  refine ⟨p.marker, hget, rfl, ?_⟩
  have hbefore : ([0, 0, 1, 0xBA] ++ p.clock ++ p.marker :: p.stuffing).length =
      14 + p.marker.toNat % 8 := by
    simp only [List.length_append, List.length_cons, List.length_nil, hclock, hstuffing]
    omega
  have hcount : p.packets.length < packSize := by
    have hshort (packets : List Packet) :
        packets.length ≤ (packets.flatMap Packet.encode).length := by
      induction packets with
      | nil => exact Nat.le_refl _
      | cons packet packets ih =>
        rw [List.flatMap_cons, List.length_append, List.length_cons]
        simp only [Packet.encode, List.length_cons]
        omega
    have := hshort p.packets
    have hwhole := hsize
    rw [Pack.encode, List.length_append, hbefore, List.length_append] at hwhole
    omega
  rw [← hbefore]
  exact gatherPack_packets hpackets hends hsize _ rfl hcount g

/-! ## Units -/

/-- What is gathered of a unit, and the fragments that are to come: nothing yet, and the first one
declares the length; or a part, and the length. -/
inductive Gathering (spu later : Bytes) (g : Gathered) (rest : List Bytes) : Prop
  | nothing (empty : g = ⟨[], 0⟩) (first : Bytes) (others : List Bytes) (more : rest = first :: others)
      (declares : 2 ≤ first.length) (whole : rest.flatten = spu ++ later)
  | part (some : g.spu ≠ []) (want : g.want = spu.length)
      (whole : g.spu ++ rest.flatten = spu ++ later)

section
variable {spu later : Bytes} {g : Gathered} {substream : UInt8}

/-- The length stands in the first two bytes. -/
theorem be16_append {data : Bytes} (h : 2 ≤ data.length) (more : Bytes) :
    be16 (data ++ more) 0 = be16 data 0 := by
  match data, h with
  | high :: low :: data, _ => rfl

theorem add_gathering (hsize : be16 spu 0 = some spu.length) (hlong : 2 ≤ spu.length)
    {fragment : Bytes} {rest : List Bytes} (h : Gathering spu later g (fragment :: rest)) :
    ∃ g', g.add fragment = some g' ∧ Gathering spu later g' rest := by
  cases h with
  | nothing hempty first others hmore hdeclares hwhole =>
    obtain ⟨rfl, rfl⟩ := List.cons.inj hmore
    have hdeclared : be16 fragment 0 = some spu.length := by
      rw [← hsize, ← be16_append hlong later, ← hwhole, List.flatten_cons, be16_append hdeclares]
    refine ⟨⟨fragment, spu.length⟩, ?_, .part ?_ rfl hwhole⟩
    · simp only [hempty, Gathered.add, List.isEmpty_nil, if_true, hdeclared, Option.bind_some]
    · rintro rfl
      rw [List.length_nil] at hdeclares
      omega
  | part hsome hwant hwhole =>
    refine ⟨⟨g.spu ++ fragment, g.want⟩, ?_, .part ?_ hwant ?_⟩
    · rw [Gathered.add, if_neg (by simpa using hsome)]
    · exact List.append_ne_nil_of_left_ne_nil hsome _
    · rw [List.append_assoc]
      exact hwhole

theorem foldlM_gathering (hsize : be16 spu 0 = some spu.length) (hlong : 2 ≤ spu.length)
    {fragments rest : List Bytes} (h : Gathering spu later g (fragments ++ rest)) :
    ∃ g', fragments.foldlM Gathered.add g = some g' ∧ Gathering spu later g' rest := by
  induction fragments generalizing g with
  | nil => exact ⟨g, rfl, h⟩
  | cons fragment fragments ih =>
    obtain ⟨g₁, hadd, hg₁⟩ := add_gathering hsize hlong h
    obtain ⟨g', hfold, hg'⟩ := ih hg₁
    refine ⟨g', ?_, hg'⟩
    rw [List.foldlM_cons, hadd]
    exact hfold

/-- The walk over the packs ends with the unit, and perhaps more. -/
theorem gatherPacks_packs (hsize : be16 spu 0 = some spu.length) (hlong : 2 ≤ spu.length)
    {packs : List Pack} (hpacks : ∀ p ∈ packs, p.WellFormed) {rounds : ℕ}
    (hrounds : packs.length ≤ rounds) (before after : Bytes)
    (h : Gathering spu later g (packs.flatMap (Pack.fragments substream))) :
    ∃ g' rest, gatherPacks (before ++ (packs.flatMap Pack.encode ++ after)) substream rounds
        before.length g = some g' ∧
      g'.want = spu.length ∧ spu.length ≤ g'.spu.length ∧ g'.spu ++ rest = spu ++ later := by
  induction packs generalizing rounds before g with
  | nil =>
    cases h with
    | nothing _ _ _ hmore => cases hmore
    | part _ hwant hwhole =>
      rw [List.flatMap_nil, List.flatten_nil, List.append_nil] at hwhole
      have hcomplete : spu.length ≤ g.spu.length := by
        rw [hwhole, List.length_append]
        omega
      refine ⟨g, [], ?_, hwant, hcomplete, by rw [List.append_nil, hwhole]⟩
      cases rounds with
      | zero => rfl
      | succ rounds => rw [gatherPacks, if_pos ⟨by omega, by omega⟩]
  | cons pack packs ih =>
    obtain ⟨rounds, rfl⟩ : ∃ n, rounds = n + 1 := by
      rw [List.length_cons] at hrounds
      exact ⟨rounds - 1, by omega⟩
    obtain ⟨hpack, hothers⟩ := List.forall_mem_cons.mp hpacks
    by_cases hdone : g.want ≤ g.spu.length ∧ 0 < g.want
    · cases h with
      | nothing hempty =>
        rw [hempty] at hdone
        exact absurd hdone.2 (Nat.lt_irrefl 0)
      | part _ hwant hwhole =>
        exact ⟨g, _, by rw [gatherPacks, if_pos hdone], hwant, by omega, hwhole⟩
    · have hlength := hpack.size
      have hrange : getRange (before ++ ((pack :: packs).flatMap Pack.encode ++ after)) before.length
          packSize = some pack.encode := by
        rw [List.flatMap_cons, List.append_assoc, getRange, if_pos, List.drop_left,
          List.take_left' hlength]
        simp only [List.length_append]
        omega
      obtain ⟨stuffing, hstuffing, hstart, hread⟩ := @gatherPack_pack substream _ hpack g
      rw [List.flatMap_cons] at h
      obtain ⟨g₁, hfold, hg₁⟩ := foldlM_gathering hsize hlong h
      have hnext : before.length + packSize = (before ++ pack.encode).length := by
        rw [List.length_append, hlength]
      obtain ⟨g', rest, hg', hends⟩ := @ih _ hothers rounds
        (by rw [List.length_cons] at hrounds; omega) (before ++ pack.encode) hg₁
      refine ⟨g', rest, ?_, hends⟩
      rw [gatherPacks, if_neg hdone, hrange]
      simp only [Option.bind_eq_bind, Option.bind_some, if_pos hstart, hstuffing, hread, hfold, hnext]
      rw [List.flatMap_cons, List.append_assoc, ← List.append_assoc before]
      exact hg'

/-- The fragments of a unit are put together, whatever lies between them and behind. -/
theorem assembleSpu_packs (hsize : be16 spu 0 = some spu.length) (hlong : 2 ≤ spu.length)
    {packs : List Pack} (hpacks : ∀ p ∈ packs, p.WellFormed) (hcount : packs.length ≤ 64)
    {first : Bytes} {fragments others : List Bytes} (hfirst : 2 ≤ first.length)
    (hwhole : (first :: fragments).flatten = spu)
    (hcarried : packs.flatMap (Pack.fragments substream) = first :: fragments ++ others)
    (before after : Bytes) :
    assembleSpu (before ++ (packs.flatMap Pack.encode ++ after)) before.length substream = some spu := by
  have hstart : Gathering spu others.flatten ⟨[], 0⟩ (packs.flatMap (Pack.fragments substream)) := by
    refine .nothing rfl first (fragments ++ others) hcarried hfirst ?_
    rw [hcarried, List.flatten_append, hwhole]
  obtain ⟨g, rest, hg, hwant, hcomplete, hends⟩ :=
    gatherPacks_packs hsize hlong hpacks hcount before after hstart
  have htake : g.spu.take spu.length = spu := by
    have := congrArg (List.take spu.length) hends
    rwa [List.take_append_of_le_length hcomplete, List.take_left] at this
  simp only [assembleSpu, hg, Option.bind_eq_bind, Option.bind_some, hwant,
    if_pos (And.intro (show 0 < spu.length by omega) hcomplete), htake]

end

/-- A unit declares its own length. -/
structure IsSpu (spu : Bytes) : Prop where
  long : 4 ≤ spu.length
  size : be16 spu 0 = some spu.length

/-- The packs hold the fragments of the unit, in order, and then perhaps those of others. -/
structure Placed (substream : UInt8) (spu : Bytes) (packs : List Pack) : Prop where
  wellFormed : ∀ p ∈ packs, p.WellFormed
  count : packs.length ≤ 64
  fragments : ∃ (first : Bytes) (fragments others : List Bytes), 2 ≤ first.length ∧
    (first :: fragments).flatten = spu ∧
    packs.flatMap (Pack.fragments substream) = first :: fragments ++ others

/-- A unit comes out as it went in; and the function goes through on all bytes, exactly if the end of
the first pack is a number of 64 bits. -/
theorem assembleSpuChecked_spec (substream : UInt8) :
    (∀ (spu before after : Bytes) (packs : List Pack), IsSpu spu → Placed substream spu packs →
      (before ++ (packs.flatMap Pack.encode ++ after)).length < 2 ^ 63 →
      assembleSpuChecked (before ++ (packs.flatMap Pack.encode ++ after)) before.length substream =
        .ok (some spu)) ∧
    ∀ (sub : Bytes) (start : ℕ), sub.length < 2 ^ 63 →
      ((∃ unit, assembleSpuChecked sub start substream = .ok unit) ↔ start + packSize < 2 ^ 64) := by
  have hsize : packSize = 2048 := rfl
  constructor
  · rintro spu before after packs ⟨hlong, hdeclared⟩ ⟨hpacks, hcount, hfragments⟩ hlength
    obtain ⟨first, fragments, others, hfirst, hwhole, hcarried⟩ := hfragments
    have hstart : before.length + packSize < 2 ^ 64 := by
      rw [List.length_append] at hlength
      omega
    rw [assembleSpuChecked_eq hlength hstart, assembleSpu_packs hdeclared (by omega) hpacks hcount
      hfirst hwhole hcarried]
  · intro sub start hlength
    constructor
    · rintro ⟨unit, h⟩
      by_contra hover
      rw [assembleSpuChecked_overflow (Nat.not_lt.mp hover)] at h
      cases h
    · intro hstart
      exact ⟨_, assembleSpuChecked_eq hlength hstart substream⟩

/-- A unit of ten bytes in two packets, with padding and a packet of another substream between. -/
def splitPack : Pack where
  clock := List.replicate 9 0x44
  marker := 0xFA
  stuffing := [0xFF, 0xFF]
  packets := [.ofSubstream 0x81 0x80 [0x21, 0] 0x20 [0, 10, 0, 4], .ofStream 0xBE [0xFF],
    .ofSubstream 0x81 0 [] 0x21 [1, 2, 3], .ofSubstream 0x81 0 [] 0x20 [0, 90, 0, 4, 0x02, 0xFF]]
  rest := List.replicate 1980 0

theorem assembleSpuChecked_splitPack :
    assembleSpuChecked splitPack.encode 0 0x20 = .ok (some [0, 10, 0, 4, 0, 90, 0, 4, 0x02, 0xFF]) := by
  have hplaced : Placed 0x20 [0, 10, 0, 4, 0, 90, 0, 4, 0x02, 0xFF] [splitPack] := by
    refine ⟨?_, by decide, [0, 10, 0, 4], [[0, 90, 0, 4, 0x02, 0xFF]], [], by decide, rfl, rfl⟩
    intro p hp
    obtain rfl := List.mem_singleton.mp hp
    refine ⟨by decide, by decide, ?_, by decide +kernel, Or.inr (by decide +kernel)⟩
    simp only [splitPack, List.forall_mem_cons]
    exact ⟨⟨by decide, by decide⟩, ⟨by decide, by decide⟩, ⟨by decide, by decide⟩,
      ⟨by decide, by decide⟩, fun _ h => by cases h⟩
  have h := (assembleSpuChecked_spec 0x20).1 _ [] [] [splitPack] ⟨by decide, by decide⟩ hplaced
    (by decide +kernel)
  rwa [List.nil_append, List.append_nil, List.flatMap_cons, List.flatMap_nil, List.append_nil] at h

/-- The last of all offsets. -/
theorem assembleSpuChecked_last : ¬∃ unit, assembleSpuChecked [] (2 ^ 64 - 1) 0x20 = .ok unit := by
  rintro ⟨unit, h⟩
  rw [assembleSpuChecked_overflow (by decide)] at h
  cases h

end Kahawai.Media.VobsubFile
