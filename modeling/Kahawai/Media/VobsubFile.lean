import Kahawai.Media.Burnin.Sets

/-!
# VobSub sidecar files

`parse_idx`, `extract_track`, `assemble_spu` and `spu_stop_ms`
(`crates/kahawai-media/src/vobsub_file.rs`), and `vobsub_palette` and `vobsub_size`
(`crates/kahawai-media/src/imagesubs.rs`, lines 251–275), which read the same text: the index of
a pair of files says when each subtitle starts and where in the other file its packets begin.

Numbers are those of a release build: the milliseconds of a timestamp wrap at 64 bits.

Results:
* `extractTrack_file_order`: the blocks come in the order of the index, whatever their times.
* `extractTrack_typed`: what the blocks carry fits their types.
-/

namespace Kahawai.Media.VobsubFile

open Kahawai.Core Kahawai.Core.Text Kahawai.Lib Kahawai.Lib.Codec Kahawai.Media.Burnin

/-! ## The index -/

/-- `str::lines`. -/
def lines (s : Text) : List Text :=
  let parts := split (· = '\n') s
  parts.dropLast.map (fun line => if line.getLast? = some '\r' then line.dropLast else line) ++
    (parts.getLast?.toList.filter fun line => !line.isEmpty)

/-- The value of a hexadecimal digit. -/
def hexDigit (c : Char) : Option ℕ :=
  if isAsciiDigit c then some (c.toNat - '0'.toNat)
  else if 'a' ≤ c && c ≤ 'f' then some (c.toNat - 'a'.toNat + 10)
  else if 'A' ≤ c && c ≤ 'F' then some (c.toNat - 'A'.toNat + 10)
  else none

/-- `from_str_radix(s, 16)` for an unsigned type of values below `bound`. -/
def fromStrRadix16 (bound : ℕ) (s : Text) : Option ℕ := do
  let digits := (stripPrefixChar (· = '+') s).getD s
  if digits.isEmpty then none
  else
    let values ← digits.mapM hexDigit
    let n := values.foldl (fun n d => 16 * n + d) 0
    if n < bound then some n else none

/-- `IdxTrack`. -/
structure IdxTrack where
  id : ℕ
  language : Option Text
  entries : List (ℕ × ℕ)
  deriving DecidableEq

/-- One part of an `id:` line (lines 42–49). -/
def idPart (u : Unicode) (st : Option Text × ℕ) (part : Text) : Option Text × ℕ :=
  let part := trim part
  match stripPrefix (lit "index:") part with
  | some n => (st.1, (parseU32 (trim n)).getD st.2)
  | none => if !part.isEmpty && st.1.isNone then (some (u.toLower part), st.2) else st

/-- An `id:` line behind the tracks read so far. -/
def idLine (u : Unicode) (tracks : List IdxTrack) (rest : Text) : IdxTrack :=
  let (lang, id) := (split (· = ',') rest).foldl (idPart u) (none, tracks.length % 2 ^ 32)
  { id, language := lang, entries := [] }

/-- `((h * 60 + m) * 60 + s) * 1000 + ms`. -/
def timestampMs (h m s ms : ℕ) : ℕ := (((h * 60 + m) * 60 + s) * 1000 + ms) % 2 ^ 64

/-- A `timestamp:` line (lines 59–80). -/
def timestampLine (rest : Text) : Option (ℕ × ℕ) := do
  let (ts, fp) ← splitOnce (· = ',') rest
  let pos ← stripPrefix (lit "filepos:") (trim fp)
  match split (· = ':') (trim ts) with
  | [h, m, s, ms] =>
    let start := timestampMs (← parseUnsigned (2 ^ 64) h) (← parseUnsigned (2 ^ 64) m)
      (← parseUnsigned (2 ^ 64) s) (← parseUnsigned (2 ^ 64) ms)
    let pos ← fromStrRadix16 (2 ^ 64) (trim pos)
    some (start, pos)
  | _ => none

/-- `tracks.last_mut()`, with one more entry. -/
def pushEntry (entry : ℕ × ℕ) : List IdxTrack → List IdxTrack
  | [] => []
  | [t] => [{ t with entries := t.entries ++ [entry] }]
  | t :: tracks => t :: pushEntry entry tracks

/-- One line of the index. -/
def idxLine (u : Unicode) (tracks : List IdxTrack) (line : Text) : List IdxTrack :=
  let line := trim line
  match stripPrefix (lit "id:") line with
  | some rest => tracks ++ [idLine u tracks rest]
  | none =>
    match (stripPrefix (lit "timestamp:") line).bind timestampLine with
    | some entry => pushEntry entry tracks
    | none => tracks

/-- `parse_idx` (lines 30–84). -/
def parseIdx (u : Unicode) (text : Text) : List IdxTrack := (lines text).foldl (idxLine u) []

/-- `vobsub_palette`: red, green and blue of each colour. -/
def vobsubPalette (codecPrivate : Text) : List (ℕ × ℕ × ℕ) :=
  let palette := (lines codecPrivate).findSome? fun line =>
    stripPrefix (lit "palette:") (trim line)
  (split (· = ',') (palette.getD [])).filterMap fun c =>
    (fromStrRadix16 (2 ^ 32) (trim c)).map fun v =>
      (v / 2 ^ 16 % 256, v / 2 ^ 8 % 256, v % 256)

/-- `vobsub_size`. -/
def vobsubSize (codecPrivate : Text) : Option (ℕ × ℕ) :=
  (lines codecPrivate).findSome? fun line => do
    let rest ← stripPrefix (lit "size:") (trim line)
    let (w, h) ← splitOnce (· = 'x') (trim rest)
    some (← parseU32 (trim w), ← parseU32 (trim h))

/-! ## The stream -/

/-- `u16::from_be_bytes` of two bytes of `data`, if it has them. -/
def be16 (data : Bytes) (i : ℕ) : Option ℕ := do
  let high ← data[i]?
  let low ← data[i + 1]?
  some (256 * high.toNat + low.toNat)

/-- `data.get(start..start + n)`. -/
def getRange (data : Bytes) (start n : ℕ) : Option Bytes :=
  if start + n ≤ data.length then some ((data.drop start).take n) else none

/-- `PACK`. -/
def packSize : ℕ := 2048

/-- What is gathered of a unit, and the length its first bytes declare. -/
structure Gathered where
  spu : Bytes
  want : ℕ

/-- The data of one packet of private stream 1 (lines 146–161); `none` is an error. -/
def gatherPacket (substream : UInt8) (body : Bytes) (g : Gathered) : Option Gathered := do
  let headerLength ← body[2]?
  let hdr := 3 + headerLength.toNat
  if hdr ≤ body.length then
    match body.drop hdr with
    | [] => some g
    | ss :: rest =>
      if ss ≠ substream then some g
      else if g.spu.isEmpty then do
        let want ← be16 rest 0
        some ⟨rest, want⟩
      else some ⟨g.spu ++ rest, g.want⟩
  else none

/-- The packets of one pack from position `p` on (lines 134–162). -/
def gatherPack (substream : UInt8) (pack : Bytes) : (fuel p : ℕ) → Gathered → Option Gathered
  | 0, _, g => some g
  | fuel + 1, p, g =>
    if p + 6 ≤ packSize ∧ (pack.drop p).take 3 = [0, 0, 1] then do
      let sid ← pack[p + 3]?
      let len ← be16 pack (p + 4)
      let body ← getRange pack (p + 6) len
      let p := p + (6 + len)
      if sid = 0xBD then do
        let g ← gatherPacket substream body g
        gatherPack substream pack fuel p g
      else gatherPack substream pack fuel p g
    else some g

/-- The packs from `start` on, at most `rounds` of them (lines 125–164). -/
def gatherPacks (sub : Bytes) (substream : UInt8) : (rounds start : ℕ) → Gathered →
    Option Gathered
  | 0, _, g => some g
  | rounds + 1, start, g =>
    if g.want ≤ g.spu.length ∧ 0 < g.want then some g
    else do
      let pack ← getRange sub start packSize
      if pack.take 4 = [0, 0, 1, 0xBA] then do
        let stuffing ← pack[13]?
        -- a packet takes at least six bytes of its pack
        let g ← gatherPack substream pack packSize (14 + stuffing.toNat % 8) g
        gatherPacks sub substream rounds (start + packSize) g
      else none

/-- `assemble_spu` (lines 120–172); its errors are only traced. -/
def assembleSpu (sub : Bytes) (start : ℕ) (substream : UInt8) : Option Bytes := do
  let g ← gatherPacks sub substream 64 start ⟨[], 0⟩
  if 0 < g.want ∧ g.want ≤ g.spu.length then some (g.spu.take g.want) else none

/-- How the commands of a control block end. -/
inductive Commands
  | stopDisplay
  | endOfBlock
  | unreadable
  deriving DecidableEq

/-- The commands from position `p` on (lines 184–195). -/
def commands (spu : Bytes) : (fuel p : ℕ) → Commands
  | 0, _ => .unreadable
  | fuel + 1, p =>
    match spu[p]? with
    | some 0x00 | some 0x01 => commands spu fuel (p + 1)
    | some 0x02 => .stopDisplay
    | some 0x03 | some 0x04 => commands spu fuel (p + 3)
    | some 0x05 => commands spu fuel (p + 7)
    | some 0x06 => commands spu fuel (p + 5)
    | some 0xFF => .endOfBlock
    | _ => .unreadable

/-- The control blocks from `block` on, at most `rounds` of them. -/
def stopMs (spu : Bytes) : (rounds block : ℕ) → Option ℕ
  | 0, _ => none
  | rounds + 1, block => do
    let date ← be16 spu block
    let next ← be16 spu (block + 2)
    match commands spu (spu.length + 1) (block + 4) with
    | .stopDisplay => some (date * 1024 / 90)
    | .unreadable => none
    | .endOfBlock => if next = block then none else stopMs spu rounds next

/-- `spu_stop_ms` (lines 177–202). -/
def spuStopMs (spu : Bytes) : Option ℕ := do
  let ctrl ← be16 spu 2
  stopMs spu 64 ctrl

/-! ## The blocks -/

/-- The block of an entry, if its unit can be read. -/
def entryBlock (sub : Bytes) (substream : UInt8) (entry : ℕ × ℕ) : Option SetBlock :=
  (assembleSpu sub entry.2 substream).map fun spu => (entry.1, spuStopMs spu, spu)

/-- `0x20u8 + (track_id as u8 & 0x1F)`. -/
def substreamOf (trackId : ℕ) : UInt8 := UInt8.ofNat (0x20 + trackId % 0x20)

/-- `extract_track` (lines 91–118). -/
def extractTrack (u : Unicode) (idxText : Text) (sub : Bytes) (trackId : ℕ) :
    Except Failure (List SetBlock) :=
  match (parseIdx u idxText).find? fun t => t.id = trackId with
  | none => .error (.bail (lit "no track index " ++ ofNat trackId ++ lit " in idx"))
  | some track =>
    let blocks := track.entries.filterMap (entryBlock sub (substreamOf trackId))
    if blocks.isEmpty then
      .error (.bail (lit "no readable SPUs for track " ++ ofNat trackId))
    else .ok blocks

variable {u : Unicode} {idxText : Text} {sub : Bytes} {trackId : ℕ} {blocks : List SetBlock}

theorem extractTrack_eq_ok (h : extractTrack u idxText sub trackId = .ok blocks) :
    ∃ track ∈ parseIdx u idxText, track.id = trackId ∧
      blocks = track.entries.filterMap (entryBlock sub (substreamOf trackId)) := by
  unfold extractTrack at h
  cases hfind : (parseIdx u idxText).find? fun t => t.id = trackId with
  | none =>
    rw [hfind] at h
    cases h
  | some track =>
    rw [hfind] at h
    refine ⟨track, List.mem_of_find?_eq_some hfind, ?_, ?_⟩
    · simpa using List.find?_some hfind
    · simp only at h
      split at h
      · cases h
      · simpa [eq_comm] using h

/-- The blocks come in the order of the index. -/
theorem extractTrack_file_order (h : extractTrack u idxText sub trackId = .ok blocks) :
    ∃ track ∈ parseIdx u idxText, track.id = trackId ∧
      (blocks.map Prod.fst).Sublist (track.entries.map Prod.fst) := by
  obtain ⟨track, hmem, hid, rfl⟩ := extractTrack_eq_ok h
  refine ⟨track, hmem, hid, ?_⟩
  induction track.entries with
  | nil => simp
  | cons entry entries ih =>
    rw [List.filterMap_cons, List.map_cons]
    cases hblock : entryBlock sub (substreamOf trackId) entry with
    | none => exact ih.cons _
    | some block =>
      obtain ⟨spu, -, rfl⟩ := Option.map_eq_some_iff.1 hblock
      exact ih.cons_cons _

theorem timestampLine_lt {rest : Text} {entry : ℕ × ℕ} (h : timestampLine rest = some entry) :
    entry.1 < 2 ^ 64 := by
  simp only [timestampLine, Option.bind_eq_bind, Option.bind_eq_some_iff] at h
  obtain ⟨_, -, _, -, h⟩ := h
  split at h
  · simp only [Option.bind_eq_some_iff] at h
    obtain ⟨_, -, _, -, _, -, _, -, _, -, h⟩ := h
    cases h
    exact Nat.mod_lt _ (Nat.two_pow_pos 64)
  · cases h

/-- The starts of a track fit their type. -/
def EntriesTyped (tracks : List IdxTrack) : Prop :=
  ∀ t ∈ tracks, ∀ entry ∈ t.entries, entry.1 < 2 ^ 64

theorem EntriesTyped.pushEntry {entry : ℕ × ℕ} (hentry : entry.1 < 2 ^ 64) :
    ∀ {tracks : List IdxTrack}, EntriesTyped tracks → EntriesTyped (pushEntry entry tracks)
  | [], h => h
  | [t], h => by
    intro t' ht' e he
    obtain rfl : t' = { t with entries := t.entries ++ [entry] } := by
      simpa [VobsubFile.pushEntry] using ht'
    obtain he | rfl : e ∈ t.entries ∨ e = entry := by simpa using he
    · exact h t List.mem_cons_self e he
    · exact hentry
  | t :: t' :: tracks, h => by
    have hrest : EntriesTyped (t' :: tracks) := fun x hx => h x (List.mem_cons_of_mem _ hx)
    intro x hx
    obtain rfl | hx := List.mem_cons.1 hx
    · exact h x List.mem_cons_self
    · exact hrest.pushEntry hentry x hx

theorem EntriesTyped.idxLine {tracks : List IdxTrack} (h : EntriesTyped tracks) (line : Text) :
    EntriesTyped (idxLine u tracks line) := by
  unfold VobsubFile.idxLine
  simp only
  split
  · intro t ht
    obtain ht | rfl : t ∈ tracks ∨ t = _ := by simpa using ht
    · exact h t ht
    · simp [idLine]
  · split
    · rename_i entry hentry
      obtain ⟨rest, -, hrest⟩ := Option.bind_eq_some_iff.1 hentry
      exact h.pushEntry (timestampLine_lt hrest)
    · exact h

theorem parseIdx_typed : EntriesTyped (parseIdx u idxText) := by
  have hfold : ∀ (ls : List Text) (tracks : List IdxTrack), EntriesTyped tracks →
      EntriesTyped (ls.foldl (VobsubFile.idxLine u) tracks) := by
    intro ls
    induction ls with
    | nil => exact fun _ h => h
    | cons line ls ih => exact fun tracks h => ih _ (h.idxLine line)
  exact hfold _ _ (by simp [EntriesTyped])

theorem be16_lt {data : Bytes} {i n : ℕ} (h : be16 data i = some n) : n < 2 ^ 16 := by
  simp only [be16, Option.bind_eq_bind, Option.bind_eq_some_iff] at h
  obtain ⟨high, -, low, -, h⟩ := h
  have := high.toNat_lt
  have := low.toNat_lt
  simp only [Option.some.injEq] at h
  omega

theorem stopMs_le {spu : Bytes} {d : ℕ} : ∀ {rounds block : ℕ},
    stopMs spu rounds block = some d → d ≤ 745654
  | 0, _, h => by cases h
  | rounds + 1, block, h => by
    simp only [stopMs, Option.bind_eq_bind, Option.bind_eq_some_iff] at h
    obtain ⟨date, hdate, next, -, h⟩ := h
    have := be16_lt hdate
    split at h
    · simp only [Option.some.injEq] at h
      omega
    · cases h
    · split at h
      · cases h
      · exact stopMs_le h

/-- A unit declares twelve minutes and a half at most. -/
theorem spuStopMs_le {spu : Bytes} {d : ℕ} (h : spuStopMs spu = some d) : d ≤ 745654 := by
  obtain ⟨ctrl, -, hstop⟩ := Option.bind_eq_some_iff.1 h
  exact stopMs_le hstop

theorem extractTrack_typed (h : extractTrack u idxText sub trackId = .ok blocks) :
    ∀ b ∈ blocks, b.1 < 2 ^ 64 ∧ ∀ d, b.2.1 = some d → d < 2 ^ 64 := by
  obtain ⟨track, hmem, -, rfl⟩ := extractTrack_eq_ok h
  intro b hb
  obtain ⟨entry, hentry, hblock⟩ := List.mem_filterMap.1 hb
  obtain ⟨spu, -, rfl⟩ := Option.map_eq_some_iff.1 hblock
  refine ⟨parseIdx_typed track hmem entry hentry, fun d hd => ?_⟩
  have := spuStopMs_le hd
  omega

end Kahawai.Media.VobsubFile
