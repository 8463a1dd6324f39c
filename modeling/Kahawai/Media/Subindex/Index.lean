import Kahawai.Core.Text
import Kahawai.Media.Subindex.Reader

/-!
# The Matroska index

`mkv_read_index` walks the top level of a Matroska file and collects the
subtitle tracks, the cues that address their blocks and the first cluster
(`crates/kahawai-media/src/subindex.rs`, lines 278–567). A `SeekHead` lets the
walk jump to sections that lie behind the clusters.

`sound_mkvReadIndex`: an index that is read accounts for every interrupted read
(only the read of an element's header is ever lost), and reading it ends, since
the walk visits no position twice.
-/

namespace Kahawai.Media.Subindex

open Kahawai.Core Kahawai.Core.Text Kahawai.Lib

/-! ## Ids -/

namespace Id

def ebmlHeader : ℕ := 0x1A45DFA3
def segment : ℕ := 0x18538067
def seekHead : ℕ := 0x114D9B74
def seek : ℕ := 0x4DBB
def seekId : ℕ := 0x53AB
def seekPosition : ℕ := 0x53AC
def info : ℕ := 0x1549A966
def timestampScale : ℕ := 0x2AD7B1
def tracks : ℕ := 0x1654AE6B
def trackEntry : ℕ := 0xAE
def trackNumber : ℕ := 0xD7
def trackType : ℕ := 0x83
def codecId : ℕ := 0x86
def codecPrivate : ℕ := 0x63A2
def cues : ℕ := 0x1C53BB6B
def cuePoint : ℕ := 0xBB
def cueTime : ℕ := 0xB3
def cueTrackPositions : ℕ := 0xB7
def cueTrack : ℕ := 0xF7
def cueClusterPosition : ℕ := 0xF1
def cueRelativePosition : ℕ := 0xF0
def contentEncodings : ℕ := 0x6D80
def contentEncoding : ℕ := 0x6240
def contentCompression : ℕ := 0x5034
def contentCompAlgo : ℕ := 0x4254
def contentCompSettings : ℕ := 0x4255
def cluster : ℕ := 0x1F43B675
def clusterTimestamp : ℕ := 0xE7
def simpleBlock : ℕ := 0xA3
def blockGroup : ℕ := 0xA0
def block : ℕ := 0xA1
def blockDuration : ℕ := 0x9B

end Id

/-! ## Tracks -/

/-- The functions that text and payloads pass through: `from_utf8_lossy`, the
    zlib decoder and those of `crates/kahawai-media/src/subtitles.rs`. The walk
    only applies them. -/
structure TextFns where
  utf8Lossy : Bytes → Text
  inflate : Bytes → Option Bytes
  decodeText : Bytes → Text
  cleanCueText : Text → Text
  composeHeader : Text → Text
  assDialogue : Text → ℕ → ℕ → Option Text

inductive Compression
  | zlib
  | headerStrip (removed : Bytes)
  deriving DecidableEq

/-- `MkvTrack`; `codecPrivate` is the field `private`. -/
structure MkvTrack where
  number : ℕ
  subIndex : ℕ
  codec : Text
  isAss : Bool
  header : Option Text
  codecPrivate : Option Bytes
  compression : Option Compression

def MkvTrack.isText (t : MkvTrack) : Bool := startsWith (lit "S_TEXT/") t.codec

/-- `SubCue`: time, cluster, position in the cluster and track. -/
structure SubCue where
  time : ℕ
  cluster : ℕ
  rel : Option ℕ
  track : ℕ

structure MkvIndex where
  segmentStart : ℕ
  timestampScale : ℕ
  tracks : List MkvTrack
  subCues : List SubCue
  firstCluster : Option ℕ

/-- `str::contains`. -/
def contains (sub s : Text) : Bool := s.tails.any (startsWith sub)

/-- The algorithm and the settings of a `ContentCompression`; whatever follows a
    malformed child is not looked at. -/
def readCompressionSettings (data : Bytes) : ℕ × Bytes :=
  let visit := fun (st : ℕ × Bytes) id v =>
    if id = Id.contentCompAlgo then ((uint v, st.2), .ok true)
    else if id = Id.contentCompSettings then ((st.1, v), .ok true)
    else (st, .ok true)
  (walkChildren visit (0, []) data).1

/-- A child of `ContentEncoding`. -/
def visitCompression (out : Option Compression) (id : ℕ) (v : Bytes) :
    Option Compression × Except Error Bool :=
  if id = Id.contentCompression then
    let (algo, settings) := readCompressionSettings v
    if algo = 0 then (some .zlib, .ok true)
    else if algo = 3 then (some (.headerStrip settings), .ok true)
    else (none, .ok true)
  else (out, .ok true)

/-- `read_compression`. -/
def readCompression (data : Bytes) : Option Compression :=
  let visit := fun (out : Option Compression) id v =>
    if id = Id.contentEncoding then ((walkChildren visitCompression out v).1, .ok true)
    else (out, .ok true)
  (walkChildren visit none data).1

/-- A `TrackEntry` before it is known to be a subtitle track. -/
structure TrackEntry where
  number : ℕ
  ttype : ℕ
  codec : Text
  codecPrivate : Option Bytes
  compression : Option Compression

def readTrackEntry (fns : TextFns) (entry : Bytes) : Except Error TrackEntry :=
  let visit := fun (t : TrackEntry) id v =>
    if id = Id.trackNumber then .ok { t with number := uint v }
    else if id = Id.trackType then .ok { t with ttype := uint v }
    else if id = Id.codecId then .ok { t with codec := fns.utf8Lossy v }
    else if id = Id.codecPrivate then .ok { t with codecPrivate := some v }
    else if id = Id.contentEncodings then .ok { t with compression := readCompression v }
    else .ok t
  walkChildrenOk visit ⟨0, 0, [], none, none⟩ entry

/-- The subtitle track of an entry, the `subSeen`-th of its `Tracks`. -/
def TrackEntry.subtitle (fns : TextFns) (t : TrackEntry) (subSeen : ℕ) : MkvTrack :=
  let isAss := contains (lit "ASS") t.codec || contains (lit "SSA") t.codec
  { number := t.number
    subIndex := subSeen
    codec := t.codec
    isAss
    header := (t.codecPrivate.filter fun _ => isAss).map fns.decodeText
    codecPrivate := t.codecPrivate
    compression := t.compression }

/-- The arm `TRACKS`: the tracks so far and how many subtitle tracks this
    element has. -/
def readTracks (fns : TextFns) (tracks : List MkvTrack) (data : Bytes) :
    Except Error (List MkvTrack) :=
  let visit := fun (st : List MkvTrack × ℕ) id entry =>
    if id = Id.trackEntry then
      match readTrackEntry fns entry with
      | .error e => .error e
      | .ok t =>
        if t.ttype = 0x11 then .ok (st.1 ++ [t.subtitle fns st.2], st.2 + 1) else .ok st
    else .ok st
  (walkChildrenOk visit (tracks, 0) data).map Prod.fst

/-! ## SeekHead, Info and Cues -/

/-- A `Seek`: the id (a `u32`) and the position. -/
def readSeek (data : Bytes) : Except Error (ℕ × Option ℕ) :=
  let visit := fun (st : ℕ × Option ℕ) id v =>
    if id = Id.seekId then .ok (uint v % 2 ^ 32, st.2)
    else if id = Id.seekPosition then .ok (st.1, some (uint v))
    else .ok st
  walkChildrenOk visit (0, none) data

/-- The arm `SEEK_HEAD`: the promised positions, unless they overflow. -/
def readSeekHead (segmentStart : ℕ) (pending : List ℕ) (data : Bytes) : Except Error (List ℕ) :=
  let visit := fun (pending : List ℕ) id v =>
    if id = Id.seek then
      match readSeek v with
      | .error e => .error e
      | .ok (target, position) =>
        match position with
        | some p =>
          if target ∈ [Id.tracks, Id.cues, Id.info] ∧ segmentStart + p < 2 ^ 64 then
            .ok (pending ++ [segmentStart + p])
          else .ok pending
        | none => .ok pending
    else .ok pending
  walkChildrenOk visit pending data

/-- The arm `INFO`. -/
def readInfo (scale : ℕ) (data : Bytes) : Except Error ℕ :=
  let visit := fun (scale : ℕ) id v =>
    if id = Id.timestampScale then .ok (max (uint v) 1) else .ok scale
  walkChildrenOk visit scale data

/-- `CueTrackPositions`: track, cluster and position in the cluster. -/
def readCueTrackPositions (data : Bytes) : Except Error (ℕ × ℕ × Option ℕ) :=
  let visit := fun (st : ℕ × ℕ × Option ℕ) id v =>
    if id = Id.cueTrack then .ok (uint v, st.2.1, st.2.2)
    else if id = Id.cueClusterPosition then .ok (st.1, uint v, st.2.2)
    else if id = Id.cueRelativePosition then .ok (st.1, st.2.1, some (uint v))
    else .ok st
  walkChildrenOk visit (0, 0, none) data

/-- A `CuePoint`: the cues of wanted tracks are appended. -/
def readCuePoint (wanted : List ℕ) (cues : List SubCue) (data : Bytes) :
    Except Error (List SubCue) :=
  let visit := fun (st : ℕ × List SubCue) id v =>
    if id = Id.cueTime then .ok (uint v, st.2)
    else if id = Id.cueTrackPositions then
      match readCueTrackPositions v with
      | .error e => .error e
      | .ok (track, cluster, rel) =>
        if track ∈ wanted then .ok (st.1, st.2 ++ [⟨st.1, cluster, rel, track⟩]) else .ok st
    else .ok st
  (walkChildrenOk visit (0, cues) data).map Prod.snd

/-- The arm `CUES`. -/
def readCues (wanted : List ℕ) (cues : List SubCue) (data : Bytes) : Except Error (List SubCue) :=
  let visit := fun (cues : List SubCue) id v =>
    if id = Id.cuePoint then readCuePoint wanted cues v else .ok cues
  walkChildrenOk visit cues data

/-! ## The top level -/

/-- The variables of the top-level walk. -/
structure Hunt where
  idx : MkvIndex
  pos : ℕ
  pending : List ℕ
  visited : List ℕ

/-- An element header that was read: the id, the length of the header and the
    size, if it is known. -/
structure Header where
  id : ℕ
  len : ℕ
  size : Option ℕ

/-- The header that `head` starts with. -/
def parseHeader (head : Bytes) : Option Header :=
  match ebmlId head with
  | .error _ => none
  | .ok (id, il) =>
    match ebmlSize (head.drop il) with
    | .error _ => none
    | .ok (size, sl) => some ⟨id, il + sl, size⟩

/-- The header read of a walk that ends where no header can be read (lines
    414–421 and 1459–1467). -/
def readHeader (pos n : ℕ) : Walk (Option Header) := do
  let head ← hop (readAt pos n)
  pure (head.bind parseHeader)

/-- The arms of the `match` on the id. -/
def Hunt.readElement (fns : TextFns) (h : Hunt) (id body size : ℕ) : Walk Hunt := do
  if id = Id.seekHead then
    let data ← readAt body size
    let pending ← ofExcept (readSeekHead h.idx.segmentStart h.pending data)
    pure { h with pending }
  else if id = Id.info then
    let data ← readAt body size
    let timestampScale ← ofExcept (readInfo h.idx.timestampScale data)
    pure { h with idx := { h.idx with timestampScale } }
  else if id = Id.tracks then
    let data ← readAt body size
    let tracks ← ofExcept (readTracks fns h.idx.tracks data)
    pure { h with idx := { h.idx with tracks } }
  else if id = Id.cues then
    let data ← readAt body size
    let subCues ← ofExcept (readCues (h.idx.tracks.map MkvTrack.number) h.idx.subCues data)
    pure { h with idx := { h.idx with subCues } }
  else if id = Id.cluster ∧ h.idx.firstCluster.isNone then
    pure { h with idx := { h.idx with firstCluster := some h.pos } }
  else pure h

/-- Everything an exact pass needs was read (lines 547–556). -/
def Hunt.complete (h : Hunt) (id : ℕ) : Bool :=
  id = Id.cluster && !h.idx.tracks.isEmpty && h.idx.firstCluster.isSome &&
    !h.idx.subCues.isEmpty && h.pending.all (· ∈ h.visited)

/-- Where the walk goes on: after the element, or at a promise (lines 557–563). -/
def Hunt.next (h : Hunt) (after : ℕ) : ℕ :=
  match h.pending.find? (· ∉ h.visited) with
  | some promised => if h.idx.firstCluster.isSome then promised else after
  | none => after

/-- One round of the top-level walk; `stop` is the end of the segment or of the
    file. -/
def Hunt.step (fns : TextFns) (stop : ℕ) (h : Hunt) : Walk (Hunt ⊕ MkvIndex) := do
  if h.pos < stop ∧ h.pos ∉ h.visited then
    let h := { h with visited := h.pos :: h.visited }
    match ← readHeader h.pos 16 with
    | none => pure (.inr h.idx)
    | some e =>
      let body ← addU64 h.pos e.len
      match e.size with
      | none => pure (.inr h.idx)
      | some size =>
        let h ← h.readElement fns e.id body size
        let after ← addU64 body size
        if h.complete e.id then pure (.inr h.idx) else pure (.inl { h with pos := h.next after })
  else pure (.inr h.idx)

/-- The start and the end of the segment (lines 378–394). -/
def readSegment (len : ℕ) : Walk (ℕ × ℕ) := do
  let head ← readAt 0 (min 32 len)
  let (id, il) ← ofExcept (ebmlId head)
  if id ≠ Id.ebmlHeader then bail "not matroska"
  else
    let (hsize, hsl) ← ofExcept (ebmlSize (head.drop il))
    match hsize with
    | none => bail "unknown EBML header size"
    | some hsize =>
      let pos := il + hsl + hsize
      let seg ← readAt pos 16
      let (id, il) ← ofExcept (ebmlId seg)
      if id ≠ Id.segment then bail "no segment"
      else
        let (segSize, sl) ← ofExcept (ebmlSize (seg.drop il))
        let start := pos + il + sl
        match segSize with
        | none => pure (start, len)
        | some size => pure (start, if start + size < 2 ^ 64 then start + size else len)

/-- The index before the top-level walk. -/
def MkvIndex.empty (segmentStart : ℕ) : MkvIndex :=
  { segmentStart, timestampScale := 1000000, tracks := [], subCues := [], firstCluster := none }

/-- `mkv_read_index`; `len` is the length of the source. Every round visits a new position below `stop`, so
    `stop + 1` rounds are enough. -/
def mkvReadIndex (fns : TextFns) (len : ℕ) : Walk MkvIndex := do
  let (segmentStart, segmentEnd) ← readSegment len
  let stop := min segmentEnd len
  loop .unfinished (Hunt.step fns stop) (stop + 1) ⟨.empty segmentStart, segmentStart, [], []⟩

/-! ## Interruptions -/

section Sound

variable {p : Prop} {fns : TextFns}

theorem sound_readHeader (pos n : ℕ) : Sound p (readHeader pos n) :=
  sound_bind (sound_hop_readAt pos n) fun head => sound_pure (head.bind parseHeader)

/-- A header has one to twelve bytes, and a known size is below `2 ^ 56`. -/
theorem parseHeader_bounds {head : Bytes} {e : Header} (h : parseHeader head = some e) :
    1 ≤ e.len ∧ e.len ≤ 12 ∧ ∀ n ∈ e.size, n < 2 ^ 56 := by
  rw [parseHeader] at h
  split at h
  · cases h
  · rename_i id il hid
    split at h
    · cases h
    · rename_i size sl hsize
      cases h
      obtain ⟨h1, h4, -⟩ := ebmlId_length hid
      obtain ⟨h8, hlt⟩ := ebmlSize_lt hsize
      exact ⟨by show 1 ≤ il + sl; omega, by show il + sl ≤ 12; omega, hlt⟩

/-- A section is read, and what it says is parsed. -/
theorem sound_section {α : Type} (body size : ℕ) (parse : Bytes → Except Error α)
    (h : α → Hunt) :
    Sound p (do
      let data ← readAt body size
      let a ← ofExcept (parse data)
      pure (h a)) :=
  sound_bind (sound_readAt body size) fun data =>
    sound_bind (sound_ofExcept (parse data)) fun a => sound_pure (h a)

theorem sound_readElement (h : Hunt) (id body size : ℕ) :
    Sound p (h.readElement fns id body size) := by
  rw [Hunt.readElement]
  split
  · exact sound_section body size _ _
  · split
    · exact sound_section body size _ _
    · split
      · exact sound_section body size _ _
      · split
        · exact sound_section body size _ _
        · split
          · exact sound_pure _
          · exact sound_pure _

theorem returns_section {α : Type} {body size : ℕ} {parse : Bytes → Except Error α}
    {h : α → Hunt} {Q : Hunt → Prop} (hQ : ∀ a, Q (h a)) :
    Returns (do
      let data ← readAt body size
      let a ← ofExcept (parse data)
      pure (h a)) Q :=
  returns_any fun _ => returns_any fun a => returns_pure (hQ a)

/-- Reading an element does not change what was visited. -/
theorem readElement_visited (h : Hunt) (id body size : ℕ) :
    Returns (h.readElement fns id body size) fun h' => h'.visited = h.visited := by
  rw [Hunt.readElement]
  split
  · exact returns_section fun _ => rfl
  · split
    · exact returns_section fun _ => rfl
    · split
      · exact returns_section fun _ => rfl
      · split
        · exact returns_section fun _ => rfl
        · split
          · exact returns_pure rfl
          · exact returns_pure rfl

theorem sound_hunt_step (stop : ℕ) (h : Hunt) : Sound p (h.step fns stop) := by
  rw [Hunt.step]
  split
  · refine sound_bind (sound_readHeader _ 16) fun e => ?_
    cases e with
    | none => exact sound_pure _
    | some e =>
      refine sound_bind (sound_addU64 _ _) fun body => ?_
      split
      · exact sound_pure _
      · refine sound_bind (sound_readElement _ _ _ _) fun h' => ?_
        refine sound_bind (sound_addU64 _ _) fun after => ?_
        split
        · exact sound_pure _
        · exact sound_pure _
  · exact sound_pure _

/-- A round that goes on has visited its position. -/
theorem hunt_step_visited (stop : ℕ) (h : Hunt) :
    Returns (h.step fns stop) fun r => ∀ h', r = .inl h' →
      h.pos < stop ∧ h.pos ∉ h.visited ∧ h'.visited = h.pos :: h.visited := by
  rw [Hunt.step]
  split
  · rename_i hpos
    refine returns_any fun e => ?_
    cases e with
    | none => exact returns_pure nofun
    | some e =>
      refine returns_any fun body => ?_
      split
      · exact returns_pure nofun
      · refine returns_bind (readElement_visited _ _ _ _) fun h₁ hvisited => ?_
        refine returns_any fun after => ?_
        split
        · exact returns_pure nofun
        · refine returns_pure ?_
          rintro h' ⟨⟩
          exact ⟨hpos.1, hpos.2, hvisited⟩
  · exact returns_pure nofun

/-- The positions below `stop` that were not visited yet. -/
def Hunt.left (stop : ℕ) (h : Hunt) : ℕ := ((List.range stop).filter (· ∉ h.visited)).length

theorem hunt_left_lt {stop : ℕ} {h h' : Hunt} (hpos : h.pos < stop) (hnew : h.pos ∉ h.visited)
    (hvisited : h'.visited = h.pos :: h.visited) : h'.left stop < h.left stop := by
  have hsub : (List.range stop).filter (· ∉ h'.visited) =
      ((List.range stop).filter (· ∉ h.visited)).filter (· ≠ h.pos) := by
    rw [List.filter_filter]
    apply List.filter_congr
    intro p _
    simp [hvisited]
  rw [Hunt.left, Hunt.left, hsub]
  apply List.length_filter_lt_length_iff_exists.mpr
  refine ⟨h.pos, List.mem_filter.mpr ⟨List.mem_range.mpr hpos, by simpa using hnew⟩, by simp⟩

theorem sound_readSegment (len : ℕ) : Sound p (readSegment len) := by
  refine sound_bind (sound_readAt _ _) fun head => ?_
  refine sound_bind (sound_ofExcept _) ?_
  rintro ⟨id, il⟩
  dsimp only
  split
  · exact sound_bail _
  · refine sound_bind (sound_ofExcept _) ?_
    rintro ⟨hsize, hsl⟩
    cases hsize with
    | none => exact sound_bail _
    | some hsize =>
      refine sound_bind (sound_readAt _ _) fun seg => ?_
      refine sound_bind (sound_ofExcept _) ?_
      rintro ⟨id', il'⟩
      dsimp only
      split
      · exact sound_bail _
      · refine sound_bind (sound_ofExcept _) ?_
        rintro ⟨segSize, sl⟩
        cases segSize with
        | none => exact sound_pure _
        | some size => exact sound_pure _

/-- An index that is read accounts for every interruption, and reading it ends. -/
theorem sound_mkvReadIndex (len : ℕ) : Sound p (mkvReadIndex fns len) := by
  refine sound_bind (sound_readSegment _) ?_
  rintro ⟨segmentStart, segmentEnd⟩
  refine sound_loop (Hunt.left (min segmentEnd len)) (sound_hunt_step _) ?_ ?_
  · intro _ h s r' s' hstep h' hr'
    obtain ⟨hpos, hnew, hvisited⟩ := hunt_step_visited _ h s r' s' hstep h' hr'
    exact hunt_left_lt hpos hnew hvisited
  · exact Nat.lt_succ_of_le ((List.length_filter_le _ _).trans (List.length_range).le)

end Sound

end Kahawai.Media.Subindex
