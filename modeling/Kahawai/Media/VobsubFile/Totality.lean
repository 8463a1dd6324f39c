import Kahawai.Media.VobsubFile.Assembly

/-!
# Totality of the VobSub reader

`parse_idx`, `extract_track` and `spu_stop_ms` (`crates/kahawai-media/src/vobsub_file.rs`, lines 28–118
and 174–202) with their arithmetic checked. The fields of a timestamp are numbers of 64 bits that are
multiplied up to milliseconds, and the position is the start of a range.

Results:
* `parseIdxChecked_spec`: the index is read exactly if every time in it fits 64 bits.
* `spuStopMsChecked_eq`: the stop of a unit is always found.
* `extractTrackChecked_spec`: a track is extracted exactly if its index is read and every pack that
  it points to ends at a number of 64 bits.
-/

namespace Kahawai.Media.VobsubFile

open Kahawai.Core Kahawai.Core.Text Kahawai.Lib Kahawai.Lib.Codec Kahawai.Lib.Checked
  Kahawai.Media.Burnin

/-! ## Model -/

/-- Hours, minutes, seconds, milliseconds and the position of a `timestamp:` line (lines 61–77). -/
def timestampFields (rest : Text) : Option (ℕ × ℕ × ℕ × ℕ × ℕ) := do
  let (ts, fp) ← splitOnce (· = ',') rest
  let pos ← stripPrefix (lit "filepos:") (trim fp)
  match split (· = ':') (trim ts) with
  | [h, m, s, ms] =>
    let h ← parseUnsigned (2 ^ 64) h
    let m ← parseUnsigned (2 ^ 64) m
    let s ← parseUnsigned (2 ^ 64) s
    let ms ← parseUnsigned (2 ^ 64) ms
    let pos ← fromStrRadix16 (2 ^ 64) (trim pos)
    some (h, m, s, ms, pos)
  | _ => none

/-- `((h * 60 + m) * 60 + s) * 1000 + ms` (line 80). -/
def timestampMsChecked (h m s ms : ℕ) : Checked ℕ := do
  let minutes ← add 64 (← mul 64 h 60) m
  let seconds ← add 64 (← mul 64 minutes 60) s
  add 64 (← mul 64 seconds 1000) ms

/-- One line of the index (lines 34–82). -/
def idxLineChecked (u : Unicode) (tracks : List IdxTrack) (line : Text) : Checked (List IdxTrack) :=
  let line := trim line
  match stripPrefix (lit "id:") line with
  | some rest => return tracks ++ [idLine u tracks rest]
  | none =>
    match stripPrefix (lit "timestamp:") line with
    | none => return tracks
    | some rest =>
      -- there is no track to add to
      if tracks.isEmpty then return tracks
      else
        match timestampFields rest with
        | none => return tracks
        | some (h, m, s, ms, pos) => do
          return pushEntry (← timestampMsChecked h m s ms, pos) tracks

/-- `parse_idx` (lines 30–84). -/
def parseIdxChecked (u : Unicode) (text : Text) : Checked (List IdxTrack) :=
  (lines text).foldlM (idxLineChecked u) []

/-- `u16::from_be_bytes([*spu.get(i)?, *spu.get(i + 1)?])`. -/
def be16Checked (spu : Bytes) (i : ℕ) : Checked (Option ℕ) :=
  match spu[i]? with
  | none => return none
  | some high => do
    let i ← add 64 i 1
    return (spu[i]?).map fun low => 256 * high.toNat + low.toNat

/-- The commands from position `p` on (lines 184–195). -/
def commandsChecked (spu : Bytes) : (fuel p : ℕ) → Checked Commands
  | 0, _ => .error .unfinished
  | fuel + 1, p =>
    match spu[p]? with
    | some 0x00 | some 0x01 => do commandsChecked spu fuel (← add 64 p 1)
    | some 0x02 => return .stopDisplay
    | some 0x03 | some 0x04 => do commandsChecked spu fuel (← add 64 p 3)
    | some 0x05 => do commandsChecked spu fuel (← add 64 p 7)
    | some 0x06 => do commandsChecked spu fuel (← add 64 p 5)
    | some 0xFF => return .endOfBlock
    | _ => return .unreadable

/-- The control blocks from `block` on, at most `rounds` of them (lines 180–200). -/
def stopMsChecked (spu : Bytes) : (rounds block : ℕ) → Checked (Option ℕ)
  | 0, _ => return none
  | rounds + 1, block => do
    match ← be16Checked spu block with
    | none => return none
    | some date =>
      match ← be16Checked spu (← add 64 block 2) with
      | none => return none
      | some next =>
        match ← commandsChecked spu (spu.length + 1) (← add 64 block 4) with
        | .stopDisplay => return some ((← mul 64 date 1024) / 90)
        | .unreadable => return none
        | .endOfBlock => if next = block then return none else stopMsChecked spu rounds next

/-- `spu_stop_ms` (lines 177–202). -/
def spuStopMsChecked (spu : Bytes) : Checked (Option ℕ) := do
  match ← be16Checked spu 2 with
  | none => return none
  | some ctrl => stopMsChecked spu 64 ctrl

/-- The block of an entry (lines 105–115), if its unit can be read. -/
def entryBlockChecked (sub : Bytes) (substream : UInt8) (entry : ℕ × ℕ) :
    Checked (Option SetBlock) := do
  match ← assembleSpuChecked sub entry.2 substream with
  | none => return none
  | some spu => return some (entry.1, ← spuStopMsChecked spu, spu)

/-- `extract_track` (lines 91–118). -/
def extractTrackChecked (u : Unicode) (idxText : Text) (sub : Bytes) (trackId : ℕ) :
    Checked (Except Failure (List SetBlock)) := do
  let tracks ← parseIdxChecked u idxText
  match tracks.find? fun t => t.id = trackId with
  | none => return .error (.bail (lit "no track index " ++ ofNat trackId ++ lit " in idx"))
  | some track =>
    let substream ← add 8 0x20 (trackId % 0x20)
    let blocks ← track.entries.mapM (entryBlockChecked sub (UInt8.ofNat substream))
    let blocks := blocks.filterMap id
    if blocks.isEmpty then
      return .error (.bail (lit "no readable SPUs for track " ++ ofNat trackId))
    else return .ok blocks

/-! ## The index -/

/-- A time of the index in milliseconds. -/
def exactMs (h m s ms : ℕ) : ℕ := ((h * 60 + m) * 60 + s) * 1000 + ms

/-- An `id:` line. -/
def isIdLine (line : Text) : Bool := (stripPrefix (lit "id:") (trim line)).isSome

/-- If this is a timestamp, its time is a number of 64 bits. -/
def LineFits (line : Text) : Prop :=
  isIdLine line = false → ∀ rest, stripPrefix (lit "timestamp:") (trim line) = some rest →
    ∀ h m s ms pos, timestampFields rest = some (h, m, s, ms, pos) → exactMs h m s ms < 2 ^ 64

/-- Every time behind the first `id:` line is a number of 64 bits. -/
def IdxFits (text : Text) : Prop := ∀ line ∈ (lines text).dropWhile (!isIdLine ·), LineFits line

theorem timestampLine_eq (rest : Text) : timestampLine rest =
    (timestampFields rest).map fun f => (timestampMs f.1 f.2.1 f.2.2.1 f.2.2.2.1, f.2.2.2.2) := by
  unfold timestampLine timestampFields
  simp only [Option.bind_eq_bind]
  cases splitOnce (· = ',') rest with
  | none => rfl
  | some parts =>
    simp only [Option.bind_some]
    cases stripPrefix (lit "filepos:") (trim parts.2) with
    | none => rfl
    | some pos =>
      simp only [Option.bind_some]
      generalize split (· = ':') (trim parts.1) = fields
      rcases fields with _ | ⟨h, _ | ⟨m, _ | ⟨s, _ | ⟨ms, _ | ⟨extra, fields⟩⟩⟩⟩⟩
      case cons.cons.cons.cons.nil =>
        simp only [Option.map_bind, Function.comp_def, Option.map_some]
      all_goals rfl

/-- The parts of the time do not exceed it. -/
theorem goesThrough_timestampMs (h m s ms : ℕ) :
    GoesThrough (timestampMsChecked h m s ms) (exactMs h m s ms < 2 ^ 64) (timestampMs h m s ms) := by
  have hsum : GoesThrough (timestampMsChecked h m s ms) _ (exactMs h m s ms) :=
    goesThrough_mul.bind fun _ => goesThrough_add.bind fun _ => goesThrough_mul.bind fun _ =>
      goesThrough_add.bind fun _ => goesThrough_mul.bind fun _ => goesThrough_add
  have hiff := hsum.congr (d := exactMs h m s ms < 2 ^ 64) (by unfold exactMs; omega)
  refine ⟨fun hlt => ?_, hiff.2⟩
  rw [hiff.1 hlt, timestampMs, ← exactMs, Nat.mod_eq_of_lt hlt]

theorem pushEntry_ne_nil {tracks : List IdxTrack} (h : tracks ≠ []) (entry : ℕ × ℕ) :
    pushEntry entry tracks ≠ [] := by
  match tracks with
  | [_] => exact List.cons_ne_nil _ _
  | _ :: _ :: _ => exact List.cons_ne_nil _ _

theorem idxLine_ne_nil {u : Unicode} {tracks : List IdxTrack} (h : tracks ≠ []) (line : Text) :
    idxLine u tracks line ≠ [] := by
  unfold idxLine
  dsimp only
  split
  · exact List.append_ne_nil_of_left_ne_nil h _
  · split
    · exact pushEntry_ne_nil h _
    · exact h

/-- Once there is a track, every timestamp counts. -/
theorem goesThrough_idxLine {u : Unicode} {tracks : List IdxTrack} (h : tracks ≠ []) (line : Text) :
    GoesThrough (idxLineChecked u tracks line) (LineFits line) (idxLine u tracks line) := by
  unfold idxLineChecked idxLine LineFits isIdLine
  dsimp only
  cases stripPrefix (lit "id:") (trim line) with
  | some rest => exact goesThrough_ok.congr (by simp)
  | none =>
    cases stripPrefix (lit "timestamp:") (trim line) with
    | none => exact goesThrough_ok.congr (by simp)
    | some rest =>
      simp only [Option.bind_some, timestampLine_eq]
      rw [if_neg (by simpa using h)]
      cases hfields : timestampFields rest with
      | none => exact goesThrough_ok.congr (by simp [hfields])
      | some f =>
        obtain ⟨hour, m, s, ms, pos⟩ := f
        have htime := goesThrough_timestampMs hour m s ms
        refine (htime.bind (f := fun t => .ok (pushEntry (t, pos) tracks)) fun _ =>
          goesThrough_ok).congr ?_
        simp only [and_true]
        constructor
        · rintro hlt - _ hrest _ _ _ _ _ heq
          cases hrest
          cases hfields.symm.trans heq
          exact hlt
        · exact fun hall => hall rfl rest rfl hour m s ms pos hfields

/-- Before, none does. -/
theorem idxLineChecked_nil (u : Unicode) {line : Text} (h : isIdLine line = false) :
    idxLineChecked u [] line = .ok [] ∧ idxLine u [] line = [] := by
  unfold isIdLine at h
  unfold idxLineChecked idxLine
  dsimp only
  cases hid : stripPrefix (lit "id:") (trim line) with
  | some rest =>
    rw [hid] at h
    cases h
  | none =>
    cases stripPrefix (lit "timestamp:") (trim line) with
    | none => exact ⟨rfl, rfl⟩
    | some rest =>
      refine ⟨rfl, ?_⟩
      simp only [Option.bind_some]
      cases timestampLine rest with
      | none => rfl
      | some entry => rfl

/-- An `id:` line opens a track. -/
theorem idxLine_idLine (u : Unicode) (tracks : List IdxTrack) {line : Text}
    (h : isIdLine line = true) : idxLineChecked u tracks line = .ok (idxLine u tracks line) ∧
      idxLine u tracks line ≠ [] := by
  obtain ⟨rest, hid⟩ := Option.isSome_iff_exists.mp h
  unfold idxLineChecked idxLine
  simp only [hid]
  exact ⟨rfl, List.append_ne_nil_of_right_ne_nil _ (List.cons_ne_nil _ _)⟩

/-- The lines before the first `id:` line are passed over, and behind it every time counts. -/
theorem goesThrough_parseIdx (u : Unicode) (text : Text) :
    GoesThrough (parseIdxChecked u text) (IdxFits text) (parseIdx u text) := by
  unfold parseIdxChecked IdxFits parseIdx
  induction lines text with
  | nil => exact goesThrough_ok.congr (by simp)
  | cons line ls ih =>
    rw [List.foldlM_cons, List.foldl_cons]
    cases hid : isIdLine line with
    | false =>
      obtain ⟨hchecked, hline⟩ := idxLineChecked_nil u hid
      rw [hchecked, hline, ok_bind, List.dropWhile_cons_of_pos (by rw [hid]; rfl)]
      exact ih
    | true =>
      obtain ⟨hchecked, hsome⟩ := idxLine_idLine u [] hid
      have hrest := GoesThrough.foldlM (f := idxLineChecked u) (I := (· ≠ []))
        (fun tracks line h => goesThrough_idxLine h line) (fun _ line h => idxLine_ne_nil h line) ls hsome
      have hfits : LineFits line := fun h => absurd hid (by rw [h]; decide)
      rw [hchecked, ok_bind, List.dropWhile_cons_of_neg (by rw [hid]; decide)]
      exact hrest.congr (by rw [List.forall_mem_cons]; exact ⟨fun h => ⟨hfits, h⟩, And.right⟩)

/-- The tracks of an index and their entries. -/
def idxSize (tracks : List IdxTrack) : ℕ := tracks.length + (tracks.map (·.entries.length)).sum

theorem idxSize_cons (t : IdxTrack) (tracks : List IdxTrack) :
    idxSize (t :: tracks) = t.entries.length + 1 + idxSize tracks := by
  simp only [idxSize, List.length_cons, List.map_cons, List.sum_cons]
  omega

theorem idxSize_pushEntry (entry : ℕ × ℕ) :
    ∀ tracks : List IdxTrack, idxSize (pushEntry entry tracks) ≤ idxSize tracks + 1
  | [] => Nat.zero_le _
  | [t] => by
    simp only [pushEntry, idxSize_cons, List.length_append, List.length_cons, List.length_nil]
    omega
  | t :: t' :: tracks => by
    have hrest := idxSize_pushEntry entry (t' :: tracks)
    rw [pushEntry, idxSize_cons, idxSize_cons t]
    · omega
    · exact List.cons_ne_nil _ _

/-- A line adds one of them at most. -/
theorem idxSize_idxLine (u : Unicode) (tracks : List IdxTrack) (line : Text) :
    idxSize (idxLine u tracks line) ≤ idxSize tracks + 1 := by
  unfold idxLine
  dsimp only
  split
  · simp [idxSize, idLine]
    omega
  · split
    · exact idxSize_pushEntry _ _
    · omega

/-- The index holds no more tracks and entries than its text has lines. -/
theorem idxSize_parseIdx (u : Unicode) (text : Text) :
    idxSize (parseIdx u text) ≤ (lines text).length := by
  have hfold : ∀ (ls : List Text) (tracks : List IdxTrack),
      idxSize (ls.foldl (idxLine u) tracks) ≤ idxSize tracks + ls.length := by
    intro ls
    induction ls with
    | nil => exact fun _ => Nat.le_refl _
    | cons line ls ih =>
      intro tracks
      have hline := idxSize_idxLine u tracks line
      have hrest := ih (idxLine u tracks line)
      rw [List.foldl_cons, List.length_cons]
      omega
  exact (hfold (lines text) []).trans (by simp [idxSize])

theorem entries_le_idxSize {tracks : List IdxTrack} {track : IdxTrack} (h : track ∈ tracks) :
    track.entries.length ≤ idxSize tracks := by
  induction tracks with
  | nil => cases h
  | cons t tracks ih =>
    rw [idxSize_cons]
    rcases List.mem_cons.mp h with rfl | h
    · omega
    · exact (ih h).trans (Nat.le_add_left _ _)

/-! ## The stop -/

variable {spu : Bytes}

theorem be16Checked_eq (hspu : spu.length < 2 ^ 63) (i : ℕ) :
    be16Checked spu i = .ok (be16 spu i) := by
  unfold be16Checked be16
  cases hhigh : spu[i]? with
  | none => rfl
  | some high =>
    obtain ⟨hi, -⟩ := List.getElem?_eq_some_iff.mp hhigh
    simp only [add_eq (show i + 1 < 2 ^ 64 by omega), ok_bind, Option.bind_eq_bind, Option.bind_some]
    cases spu[i + 1]? with
    | none => rfl
    | some low => rfl

/-- Every command moves on, and only inside the unit. -/
theorem commandsChecked_eq (hspu : spu.length < 2 ^ 63) {fuel p : ℕ} (hfuel : spu.length < p + fuel)
    (hpos : 0 < fuel) : commandsChecked spu fuel p = .ok (commands spu fuel p) := by
  induction fuel generalizing p with
  | zero => exact absurd hpos (Nat.lt_irrefl 0)
  | succ fuel ih =>
    have hnext (n : ℕ) (hp : p < spu.length) (hn : 0 < n) (hn' : n < 8) :
        (do commandsChecked spu fuel (← add 64 p n)) = .ok (commands spu fuel (p + n)) := by
      rw [add_eq (by omega), ok_bind]
      exact ih (by omega) (by omega)
    unfold commandsChecked commands
    cases hcode : spu[p]? with
    | none => rfl
    | some code =>
      obtain ⟨hp, -⟩ := List.getElem?_eq_some_iff.mp hcode
      split
      all_goals rename_i hcase
      case h_9 => first | rfl | (split <;> simp_all)
      all_goals obtain rfl := Option.some.inj hcase
      all_goals first | exact hnext _ hp (by decide) (by decide) | rfl

theorem stopMsChecked_eq (hspu : spu.length < 2 ^ 63) {rounds block : ℕ} :
    stopMsChecked spu rounds block = .ok (stopMs spu rounds block) := by
  induction rounds generalizing block with
  | zero => rfl
  | succ rounds ih =>
    unfold stopMsChecked stopMs
    simp only [be16Checked_eq hspu, ok_bind, Option.bind_eq_bind]
    cases hdate : be16 spu block with
    | none => rfl
    | some date =>
      have hblock : block < spu.length := by
        simp only [be16, Option.bind_eq_bind, Option.bind_eq_some_iff] at hdate
        obtain ⟨high, hhigh, -⟩ := hdate
        exact (List.getElem?_eq_some_iff.mp hhigh).1
      have hlt := be16_lt hdate
      simp only [add_eq (show block + 2 < 2 ^ 64 by omega), ok_bind, Option.bind_some]
      cases be16 spu (block + 2) with
      | none => rfl
      | some next =>
        simp only [add_eq (show block + 4 < 2 ^ 64 by omega), ok_bind, Option.bind_some,
          commandsChecked_eq hspu (show spu.length < block + 4 + (spu.length + 1) by omega)
            (Nat.succ_pos _), mul_eq (show date * 1024 < 2 ^ 64 by omega)]
        cases commands spu (spu.length + 1) (block + 4) with
        | stopDisplay => rfl
        | unreadable => rfl
        | endOfBlock =>
          dsimp only
          by_cases hlast : next = block
          · rw [if_pos hlast, if_pos hlast]
            rfl
          · rw [if_neg hlast, if_neg hlast]
            exact ih

/-- The stop of a unit is read without a failing access. -/
theorem spuStopMsChecked_eq (hspu : spu.length < 2 ^ 63) :
    spuStopMsChecked spu = .ok (spuStopMs spu) := by
  unfold spuStopMsChecked spuStopMs
  simp only [be16Checked_eq hspu, ok_bind, Option.bind_eq_bind]
  cases be16 spu 2 with
  | none => rfl
  | some ctrl => exact stopMsChecked_eq hspu

/-! ## The units -/

/-- The declared length is one of 16 bits. -/
theorem gatherPacket_want {substream : UInt8} {body : Bytes} {g g' : Gathered}
    (hg : g.want < 2 ^ 16) (h : gatherPacket substream body g = some g') : g'.want < 2 ^ 16 := by
  simp only [gatherPacket, Option.bind_eq_bind, Option.bind_eq_some_iff] at h
  obtain ⟨headerLength, -, h⟩ := h
  split at h
  · split at h
    · obtain rfl := Option.some.inj h
      exact hg
    · split at h
      · obtain rfl := Option.some.inj h
        exact hg
      · split at h
        · obtain ⟨want, hwant, h⟩ := Option.bind_eq_some_iff.mp h
          obtain rfl := Option.some.inj h
          exact be16_lt hwant
        · obtain rfl := Option.some.inj h
          exact hg
  · cases h

theorem gatherPack_want {substream : UInt8} {pack : Bytes} {fuel p : ℕ} {g g' : Gathered}
    (hg : g.want < 2 ^ 16) (h : gatherPack substream pack fuel p g = some g') :
    g'.want < 2 ^ 16 := by
  induction fuel generalizing p g with
  | zero =>
    obtain rfl := Option.some.inj h
    exact hg
  | succ fuel ih =>
    unfold gatherPack at h
    split_ifs at h
    · simp only [Option.bind_eq_bind, Option.bind_eq_some_iff] at h
      obtain ⟨sid, -, len, -, body, -, h⟩ := h
      split_ifs at h
      · obtain ⟨g₁, hpacket, h⟩ := Option.bind_eq_some_iff.mp h
        exact ih (gatherPacket_want hg hpacket) h
      · exact ih hg h
    · obtain rfl := Option.some.inj h
      exact hg

theorem gatherPacks_want {sub : Bytes} {substream : UInt8} {rounds start : ℕ} {g g' : Gathered}
    (hg : g.want < 2 ^ 16) (h : gatherPacks sub substream rounds start g = some g') :
    g'.want < 2 ^ 16 := by
  induction rounds generalizing start g with
  | zero =>
    obtain rfl := Option.some.inj h
    exact hg
  | succ rounds ih =>
    unfold gatherPacks at h
    split_ifs at h
    · obtain rfl := Option.some.inj h
      exact hg
    · simp only [Option.bind_eq_bind, Option.bind_eq_some_iff] at h
      obtain ⟨pack, -, h⟩ := h
      split_ifs at h
      obtain ⟨stuffing, -, h⟩ := Option.bind_eq_some_iff.mp h
      obtain ⟨g₁, hpack, h⟩ := Option.bind_eq_some_iff.mp h
      exact ih (gatherPack_want hg hpack) h

/-- A unit has no more than 64 KiB. -/
theorem assembleSpu_length {sub : Bytes} {start : ℕ} {substream : UInt8} {spu : Bytes}
    (h : assembleSpu sub start substream = some spu) : spu.length < 2 ^ 16 := by
  simp only [assembleSpu, Option.bind_eq_bind, Option.bind_eq_some_iff] at h
  obtain ⟨g, hg, h⟩ := h
  split_ifs at h
  obtain rfl := Option.some.inj h
  have hwant := gatherPacks_want (by decide) hg
  rw [List.length_take]
  omega

/-! ## The blocks -/

variable {sub : Bytes}

/-- Only the end of the first pack can overflow. -/
theorem goesThrough_entryBlock (hsub : sub.length < 2 ^ 63) (substream : UInt8) (entry : ℕ × ℕ) :
    GoesThrough (entryBlockChecked sub substream entry) (entry.2 + packSize < 2 ^ 64)
      (entryBlock sub substream entry) := by
  constructor
  · intro hstart
    unfold entryBlockChecked entryBlock
    rw [assembleSpuChecked_eq hsub hstart, ok_bind]
    cases hspu : assembleSpu sub entry.2 substream with
    | none => rfl
    | some spu =>
      have hlength := assembleSpu_length hspu
      simp only [spuStopMsChecked_eq (show spu.length < 2 ^ 63 by omega), ok_bind]
      rfl
  · rintro ⟨block, hblock⟩
    by_contra hover
    rw [entryBlockChecked, assembleSpuChecked_overflow (Nat.not_lt.mp hover), error_bind] at hblock
    cases hblock

/-- Every pack that the track points to ends at a number of 64 bits. -/
def TrackFits (u : Unicode) (idxText : Text) (trackId : ℕ) : Prop :=
  ∀ track, (parseIdx u idxText).find? (fun t => t.id = trackId) = some track →
    ∀ entry ∈ track.entries, entry.2 + packSize < 2 ^ 64

theorem goesThrough_extractTrack (hsub : sub.length < 2 ^ 63) (u : Unicode) (idxText : Text)
    (trackId : ℕ) :
    GoesThrough (extractTrackChecked u idxText sub trackId)
      (IdxFits idxText ∧ TrackFits u idxText trackId) (extractTrack u idxText sub trackId) := by
  unfold extractTrackChecked
  refine (goesThrough_parseIdx u idxText).bind fun _ => ?_
  unfold extractTrack TrackFits
  cases (parseIdx u idxText).find? fun t => t.id = trackId with
  | none => exact goesThrough_ok.congr (by simp)
  | some track =>
    have hsubstream : add 8 0x20 (trackId % 0x20) = .ok (0x20 + trackId % 0x20) :=
      add_eq (by omega)
    simp only [hsubstream, ok_bind]
    have hblocks := GoesThrough.mapM (l := track.entries) fun entry _ =>
      goesThrough_entryBlock hsub (UInt8.ofNat (0x20 + trackId % 0x20)) entry
    refine ((hblocks.bind (d := True) fun _ => ⟨fun _ => ?_, fun _ => trivial⟩)).congr ?_
    · rw [List.filterMap_map, Function.id_comp]
      exact (apply_ite Except.ok _ _ _).symm
    · simp

/-- What is extracted: a block for an entry at most, and 64 KiB for a block. -/
theorem extractTrack_bounded {u : Unicode} {idxText : Text} {trackId : ℕ} {blocks : List SetBlock}
    (h : extractTrack u idxText sub trackId = .ok blocks) :
    blocks.length ≤ (lines idxText).length ∧ ∀ b ∈ blocks, b.2.2.length < 2 ^ 16 := by
  obtain ⟨track, htrack, -, rfl⟩ := extractTrack_eq_ok h
  constructor
  · calc _ ≤ track.entries.length := List.length_filterMap_le _ _
      _ ≤ idxSize (parseIdx u idxText) := entries_le_idxSize htrack
      _ ≤ _ := idxSize_parseIdx u idxText
  · intro b hb
    obtain ⟨entry, -, hblock⟩ := List.mem_filterMap.mp hb
    obtain ⟨spu, hspu, rfl⟩ := Option.map_eq_some_iff.mp hblock
    exact assembleSpu_length hspu

end Kahawai.Media.VobsubFile
