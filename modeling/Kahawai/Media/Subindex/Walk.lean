import Kahawai.Media.Subindex.Index

/-!
# The subtitle walk

`mkv_walk` reads the blocks of the wanted subtitle tracks, either at the
addresses of the cues or by hopping from cluster to cluster, and assembles them
into text cues or display sets (`crates/kahawai-media/src/subindex.rs`, lines
1101–1576). `extract_sparse` and `extract_image_track` are its callers.

`sound_mkvWalk`: a walk that returns accounts for every interrupted read, and it
ends on a source of fewer than `2^63` bytes.
-/

namespace Kahawai.Media.Subindex

open Kahawai.Core Kahawai.Core.Text Kahawai.Lib

/-! ## Blocks -/

/-- `SubBlock`. -/
structure SubBlock where
  track : ℕ
  relTime : ℤ
  payload : Bytes
  duration : Option ℕ

/-- A block and the timestamp of its cluster. -/
abbrev TimedBlock := ℕ × SubBlock

/-- `i16::from_be_bytes`. -/
def i16 (hi lo : UInt8) : ℤ :=
  let n : ℤ := hi.toNat * 256 + lo.toNat
  if n < 2 ^ 15 then n else n - 2 ^ 16

/-- `block_track`. -/
def blockTrack (data : Bytes) : Option ℕ := (vint data).map Prod.fst

/-- `parse_block`: track, time and the start of the payload, unless the track is
    not wanted or the block is laced. -/
def parseBlock (data : Bytes) (wanted : List ℕ) : Option (ℕ × ℤ × ℕ) :=
  match vint data with
  | none => none
  | some (track, tl) =>
    match data.drop tl with
    | hi :: lo :: flags :: _ =>
      if track ∈ wanted ∧ flags.toNat / 2 % 4 = 0 then some (track, i16 hi lo, tl + 3) else none
    | _ => none

/-- The block of a wanted track. -/
def subBlock (data : Bytes) (wanted : List ℕ) : Option SubBlock :=
  (parseBlock data wanted).map fun (track, relTime, off) =>
    { track, relTime, payload := data.drop off, duration := none }

/-- The `BlockGroup` arm of `scan_cluster`: the last wanted block, with the last
    duration. -/
def readBlockGroup (wanted : List ℕ) (body : Bytes) : Except Error (Option SubBlock) :=
  let visit := fun (st : Option SubBlock × Option ℕ) id v =>
    if id = Id.block then .ok ((subBlock v wanted).or st.1, st.2)
    else if id = Id.blockDuration then .ok (st.1, some (uint v))
    else .ok st
  (walkChildrenOk visit (none, none) body).map fun (blk, duration) =>
    blk.map fun b => { b with duration }

/-- `scan_cluster`. -/
def scanCluster (data : Bytes) (wanted : List ℕ) : Except Error (List TimedBlock) :=
  let visit := fun (st : ℕ × List TimedBlock) id body =>
    if id = Id.clusterTimestamp then .ok (uint body, st.2)
    else if id = Id.simpleBlock then
      .ok (st.1, st.2 ++ ((subBlock body wanted).map (st.1, ·)).toList)
    else if id = Id.blockGroup then
      match readBlockGroup wanted body with
      | .error e => .error e
      | .ok blk => .ok (st.1, st.2 ++ (blk.map (st.1, ·)).toList)
    else .ok st
  (walkChildrenOk visit (0, []) data).map Prod.snd

/-- The blocks of one element, rewrapped as a cluster with the timestamp. -/
def rewrap (ts id : ℕ) (body : Bytes) (wanted : List ℕ) : Except Error (List TimedBlock) :=
  scanCluster (encodeElement Id.clusterTimestamp (encodeUint ts) ++ encodeElement id body) wanted

/-! ## The cluster walk -/

/-- The variables of `walk_cluster_sparse`. -/
structure ClusterPos where
  ts : ℕ
  p : ℕ
  out : List TimedBlock

/-- The peeked `BlockGroup` starts with a block of a wanted track, or that cannot
    be told from the peek. -/
def groupIsOurs (inner : Bytes) (wanted : List ℕ) : Bool :=
  match ebmlId inner with
  | .error _ => true
  | .ok (cid, cil) =>
    if cid ≠ Id.block then true
    else
      match ebmlSize (inner.drop cil) with
      | .error _ => true
      | .ok (_, csl) =>
        if inner.length < cil + csl then true
        else (blockTrack (inner.drop (cil + csl))).all (· ∈ wanted)

/-- The arms of `walk_cluster_sparse`; `head` is the peek. -/
def ClusterPos.readElement (wanted : List ℕ) (c : ClusterPos) (head : Bytes)
    (e : Header) (body size : ℕ) : Walk ClusterPos := do
  if e.id = Id.clusterTimestamp then
    if e.len + size ≤ head.length then
      pure { c with ts := uint ((head.drop e.len).take size) }
    else
      let data ← readAt body size
      pure { c with ts := uint data }
  else if e.id = Id.simpleBlock then
    if (blockTrack (head.drop e.len)).all (· ∈ wanted) then
      let data ← readAt body size
      pure { c with out := c.out ++ ((subBlock data wanted).map (c.ts, ·)).toList }
    else pure c
  else if e.id = Id.blockGroup then
    if groupIsOurs (head.drop e.len) wanted then
      let data ← readAt body size
      let blocks ← ofExcept (rewrap c.ts Id.blockGroup data wanted)
      pure { c with out := c.out ++ blocks }
    else pure c
  else pure c

/-- One round of `walk_cluster_sparse`; `stop` is the end of the cluster. -/
def ClusterPos.step (len : ℕ) (wanted : List ℕ) (stop : ℕ) (c : ClusterPos) :
    Walk (ClusterPos ⊕ List TimedBlock) := do
  if c.p < stop then
    let left ← subU64 len c.p
    let peek := min (min 48 (stop - c.p)) left
    if peek < 2 then pure (.inr c.out)
    else
      let head ← readAt c.p peek
      match parseHeader head with
      | none => pure (.inr c.out)
      | some e =>
        match e.size with
        | none => pure (.inr c.out)
        | some size =>
          let body ← addU64 c.p e.len
          let c ← c.readElement wanted head e body size
          let p ← addU64 body size
          pure (.inl { c with p })
  else pure (.inr c.out)

/-- `walk_cluster_sparse`. The position grows, so `bodyLen + 1` rounds are
    enough. -/
def walkClusterSparse (len bodyStart bodyLen : ℕ) (wanted : List ℕ) (out : List TimedBlock) :
    Walk (List TimedBlock) := do
  let stop ← addU64 bodyStart bodyLen
  loop .unfinished (ClusterPos.step len wanted stop) (bodyLen + 1) ⟨0, bodyStart, out⟩

/-- The variables of the cluster hops. -/
structure ClusterHop where
  pos : ℕ
  blocks : List TimedBlock

/-- The blocks after an element of the top level. -/
def ClusterHop.readCluster (len : ℕ) (wanted : List ℕ) (c : ClusterHop) (e : Header) (size : ℕ) :
    Walk (List TimedBlock) := do
  if e.id = Id.cluster then
    let body ← addU64 c.pos e.len
    walkClusterSparse len body size wanted c.blocks
  else pure c.blocks

/-- One round of the header walk (lines 1459–1485). -/
def ClusterHop.step (len : ℕ) (wanted : List ℕ) (c : ClusterHop) :
    Walk (ClusterHop ⊕ List TimedBlock) := do
  if c.pos < len then
    match ← readHeader c.pos (min 16 (len - c.pos)) with
    | none => pure (.inr c.blocks)
    | some e =>
      match e.size with
      | none => pure (.inr c.blocks)
      | some size =>
        let blocks ← c.readCluster len wanted e size
        let pos ← addU64 c.pos (e.len + size)
        pure (.inl ⟨pos, blocks⟩)
  else pure (.inr c.blocks)

/-- The header walk: hop from cluster to cluster. -/
def hopClusters (len : ℕ) (wanted : List ℕ) (first : ℕ) : Walk (List TimedBlock) :=
  loop .unfinished (ClusterHop.step len wanted) (len + 1) ⟨first, []⟩

/-! ## The cue reads -/

/-- The timestamps of the clusters that were looked at, by position, and the
    blocks. -/
structure CueReads where
  cache : List (ℕ × ℕ)
  blocks : List TimedBlock

/-- The first timestamp among the children. -/
def firstTimestamp (data : Bytes) : ℕ :=
  let visit := fun (ts : ℕ) id v =>
    if id = Id.clusterTimestamp then (uint v, .ok false) else (ts, .ok true)
  (walkChildren visit 0 data).1

/-- The timestamp of the cluster at a position that is not in the cache. -/
def readClusterTimestamp (clusterPos : ℕ) : Walk ℕ := do
  let head ← readAt clusterPos 64
  let (id, il) ← ofExcept (ebmlId head)
  if id ≠ Id.cluster then bail "cue does not point at a cluster"
  else
    let (_, sl) ← ofExcept (ebmlSize (head.drop il))
    pure (firstTimestamp ((head.drop (il + sl)).take 16))

/-- The timestamp of a cluster, from the cache if it is there. -/
def clusterTimestamp (cache : List (ℕ × ℕ)) (clusterPos : ℕ) : Walk ℕ :=
  match cache.lookup clusterPos with
  | some ts => pure ts
  | none => readClusterTimestamp clusterPos

/-- The element a cue points at: its id and its body (lines 1417–1433). -/
def readCueBlock (clusterPos rel : ℕ) : Walk (ℕ × Bytes) := do
  let head ← readAt clusterPos 16
  let (_, il) ← ofExcept (ebmlId head)
  let (_, sl) ← ofExcept (ebmlSize (head.drop il))
  let bodyStart ← addU64 clusterPos (il + sl)
  if 2 ^ 64 ≤ bodyStart + rel then bail "cue block position overflows"
  else
    let blockAt := bodyStart + rel
    let bh ← readAt blockAt 16
    let (bid, bil) ← ofExcept (ebmlId bh)
    let (bsize, bsl) ← ofExcept (ebmlSize (bh.drop bil))
    match bsize with
    | none => bail "unknown block size"
    | some bsize =>
      let blockBody ← addU64 blockAt (bil + bsl)
      let body ← readAt blockBody bsize
      pure (bid, body)

/-- One cue of the exact pass. A cue without a position in its cluster panics;
    the exact pass is only taken when there is none. -/
def CueReads.step (segmentStart : ℕ) (wanted : List ℕ) (c : CueReads) (cue : SubCue) :
    Walk CueReads := do
  if 2 ^ 64 ≤ segmentStart + cue.cluster then bail "cue position overflows"
  else
    let clusterPos := segmentStart + cue.cluster
    let ts ← clusterTimestamp c.cache clusterPos
    match cue.rel with
    | none => throw .panic
    | some rel =>
      let (bid, body) ← readCueBlock clusterPos rel
      let found ← ofExcept
        (if bid = Id.blockGroup ∨ bid = Id.simpleBlock then rewrap ts bid body wanted else .ok [])
      pure { cache := (clusterPos, ts) :: c.cache, blocks := c.blocks ++ found }

/-- The exact pass: every block is addressed by a cue. -/
def cueReads (segmentStart : ℕ) (wanted : List ℕ) (cues : List SubCue) :
    Walk (List TimedBlock) := do
  let c ← cues.foldlM (CueReads.step segmentStart wanted) ⟨[], []⟩
  pure c.blocks

/-! ## Assembly -/

/-- `decompress`. -/
def decompress (fns : TextFns) (payload : Bytes) : Option Compression → Bytes
  | some .zlib => (fns.inflate payload).getD payload
  | some (.headerStrip removed) => removed ++ payload
  | none => payload

/-- `to_ms`. -/
def toMs (scale ticks : ℕ) : ℕ := min (ticks * scale) (2 ^ 64 - 1) / 1000000

/-- `u64::saturating_add_signed`. -/
def saturatingAddSigned (a : ℕ) (b : ℤ) : ℕ := min (a + b).toNat (2 ^ 64 - 1)

structure ImageTrack where
  codec : Text
  codecPrivate : Option Bytes
  blocks : List (ℕ × Option ℕ × Bytes)
  deriving DecidableEq

structure Cue where
  startMs : ℕ
  endMs : ℕ
  text : Text
  deriving DecidableEq

structure Extracted where
  cues : List Cue
  ass : Option Text
  deriving DecidableEq

/-- `MkvOut`. -/
structure MkvOut where
  text : List (ℕ × Extracted)
  image : Option ImageTrack

def MkvOut.empty : MkvOut := ⟨[], none⟩

/-- The image track with its blocks in the order of their times; blocks of one
    time stay in the order of the file. -/
def assembleImage (fns : TextFns) (scale : ℕ) (t : MkvTrack) (blocks : List TimedBlock) :
    ImageTrack :=
  let sets := (blocks.filter fun b => b.2.track = t.number).map fun (clusterTs, b) =>
    (toMs scale (saturatingAddSigned clusterTs b.relTime), b.duration.map (toMs scale),
      decompress fns b.payload t.compression)
  { codec := t.codec
    codecPrivate := t.codecPrivate
    blocks := sets.insertionSort fun a b => a.1 ≤ b.1 }

/-- What follows the first `n` commas, or the last field if there are fewer:
    `raw.splitn(n + 1, ',').last()`. -/
def afterCommas : ℕ → Text → Text
  | 0, s => s
  | n + 1, s =>
    match splitOnce (· = ',') s with
    | none => s
    | some (_, rest) => afterCommas n rest

/-- The end of an event that may have a duration. -/
def eventEnd (scale startTicks fallback : ℕ) : Option ℕ → Walk ℕ
  | some d => do
    let stopTicks ← addU64 startTicks d
    pure (toMs scale stopTicks)
  | none => pure fallback

/-- A block as a start, an end and the decoded text. -/
def readEvent (fns : TextFns) (scale : ℕ) (t : MkvTrack) (b : TimedBlock) :
    Walk (ℕ × ℕ × Text) := do
  let startTicks := saturatingAddSigned b.1 b.2.relTime
  let start := toMs scale startTicks
  let fallback ← addU64 start 3000
  let stop ← eventEnd scale startTicks fallback b.2.duration
  pure (start, stop, fns.decodeText (decompress fns b.2.payload t.compression))

/-- One more event. -/
def addEvent (fns : TextFns) (scale : ℕ) (t : MkvTrack) (events : List (ℕ × ℕ × Text))
    (b : TimedBlock) : Walk (List (ℕ × ℕ × Text)) := do
  let e ← readEvent fns scale t b
  pure (events ++ [e])

/-- The cue of an event, unless its text is empty. -/
def eventCue (fns : TextFns) (t : MkvTrack) (e : ℕ × ℕ × Text) : Option Cue :=
  let text := fns.cleanCueText (if t.isAss then afterCommas 8 e.2.2 else e.2.2)
  if text = [] then none else some ⟨e.1, e.2.1, text⟩

/-- The script of an ASS track with events. -/
def assembleAss (fns : TextFns) (t : MkvTrack) (events : List (ℕ × ℕ × Text)) : Option Text :=
  (t.header.filter fun _ => t.isAss && !events.isEmpty).map fun header =>
    (events.insertionSort fun a b => a.1 ≤ b.1).foldl (fun s e =>
      match fns.assDialogue e.2.2 e.1 e.2.1 with
      | some line => s ++ line ++ ['\n']
      | none => s) (fns.composeHeader header)

/-- One text track. -/
def assembleText (fns : TextFns) (scale : ℕ) (blocks : List TimedBlock)
    (out : List (ℕ × Extracted)) (t : MkvTrack) : Walk (List (ℕ × Extracted)) := do
  let events ← (blocks.filter fun b => b.2.track = t.number).foldlM (addEvent fns scale t) []
  let cues := (events.filterMap (eventCue fns t)).insertionSort fun a b => a.startMs ≤ b.startMs
  pure (out ++ [(t.subIndex, { cues, ass := assembleAss fns t events })])

/-! ## The walk -/

/-- The tracks this caller assembles. -/
def wantedTracks (image : Option ℕ) (tracks : List MkvTrack) : List MkvTrack :=
  tracks.filter fun t =>
    match image with
    | some want => t.subIndex = want && !t.isText
    | none => t.isText

/-- The blocks of the wanted tracks, unless there is no first cluster. -/
def collect (len : ℕ) (idx : MkvIndex) (wanted : List ℕ) : Walk (Option (List TimedBlock)) := do
  if !idx.subCues.isEmpty && idx.subCues.all fun c => c.rel.isSome then
    let blocks ← cueReads idx.segmentStart wanted idx.subCues
    pure (some blocks)
  else
    match idx.firstCluster with
    | none => pure none
    | some first =>
      let blocks ← hopClusters len wanted first
      pure (some blocks)

/-- Assembly, for one image track or for every text track. -/
def assemble (fns : TextFns) (idx : MkvIndex) (image : Option ℕ) (blocks : List TimedBlock) :
    Walk MkvOut :=
  match image with
  | some _ =>
    match (wantedTracks image idx.tracks).head? with
    | none => pure .empty
    | some t => pure ⟨[], some (assembleImage fns idx.timestampScale t blocks)⟩
  | none => do
    let out ←
      (wantedTracks none idx.tracks).foldlM (assembleText fns idx.timestampScale blocks) []
    pure ⟨out, none⟩

/-- `mkv_walk`; `len` is the length of the source. -/
def mkvWalk (fns : TextFns) (len : ℕ) (image : Option ℕ) : Walk MkvOut := do
  let idx ← mkvReadIndex fns len
  let wanted := (wantedTracks image idx.tracks).map MkvTrack.number
  if wanted = [] then pure .empty
  else
    match ← collect len idx wanted with
    | none => pure .empty
    | some blocks => assemble fns idx image blocks

/-! ## Interruptions -/

section Sound

variable {p : Prop} {fns : TextFns}

/-- An element is read, and what it contains is used. -/
theorem sound_readThen {α : Type} (body size : ℕ) (f : Bytes → α) :
    Sound p (do
      let data ← readAt body size
      pure (f data)) :=
  sound_bind (sound_readAt body size) fun data => sound_pure (f data)

theorem sound_clusterPos_readElement (wanted : List ℕ) (c : ClusterPos) (head : Bytes) (e : Header)
    (body size : ℕ) : Sound p (c.readElement wanted head e body size) := by
  rw [ClusterPos.readElement]
  split
  · split
    · exact sound_pure _
    · exact sound_readThen body size _
  · split
    · split
      · exact sound_readThen body size _
      · exact sound_pure _
    · split
      · split
        · exact sound_bind (sound_readAt body size) fun data =>
            sound_bind (sound_ofExcept _) fun blocks => sound_pure _
        · exact sound_pure _
      · exact sound_pure _

theorem sound_clusterPos_step (len : ℕ) (wanted : List ℕ) (stop : ℕ) (c : ClusterPos) :
    Sound p (c.step len wanted stop) := by
  rw [ClusterPos.step]
  split
  · refine sound_bind (sound_subU64 _ _) fun left => ?_
    dsimp only
    split
    · exact sound_pure _
    · refine sound_bind (sound_readAt _ _) fun head => ?_
      split
      · exact sound_pure _
      · split
        · exact sound_pure _
        · refine sound_bind (sound_addU64 _ _) fun body => ?_
          refine sound_bind (sound_clusterPos_readElement wanted c head _ body _) fun c' => ?_
          exact sound_bind (sound_addU64 _ _) fun q => sound_pure _
  · exact sound_pure _

/-- A round that goes on moves the position forward. -/
theorem clusterPos_step_p (len : ℕ) (wanted : List ℕ) {stop : ℕ} (hstop : stop < 2 ^ 63 + 2 ^ 57)
    (c : ClusterPos) :
    Returns (c.step len wanted stop) fun r => ∀ c', r = .inl c' → c.p < stop ∧ c.p < c'.p := by
  rw [ClusterPos.step]
  split
  · rename_i hp
    refine returns_any fun left => ?_
    dsimp only
    split
    · exact returns_pure nofun
    · refine returns_any fun head => ?_
      split
      · exact returns_pure nofun
      · rename_i e hhead
        obtain ⟨hpos, hlen, hsize⟩ := parseHeader_bounds hhead
        split
        · exact returns_pure nofun
        · rename_i size hknown
          have hlt : size < 2 ^ 56 := hsize size hknown
          refine returns_bind (returns_addU64 (by omega)) fun body hbody => ?_
          refine returns_any fun c₁ => ?_
          refine returns_bind (returns_addU64 (by omega)) fun q hq => returns_pure ?_
          rintro c' ⟨⟩
          exact ⟨hp, by show c.p < q; omega⟩
  · exact returns_pure nofun

theorem sound_walkClusterSparse {len bodyStart bodyLen : ℕ}
    (hbounds : p → bodyStart + bodyLen < 2 ^ 63 + 2 ^ 57) (wanted : List ℕ)
    (out : List TimedBlock) : Sound p (walkClusterSparse len bodyStart bodyLen wanted out) := by
  refine sound_bind_returns (sound_addU64 _ _) (addU64_le _ _) fun stop hstop => ?_
  refine sound_loop (fun c => stop - c.p) (sound_clusterPos_step len wanted stop) ?_ ?_
  · intro hp c s r s' hstep c' hr
    obtain ⟨hlt, hmove⟩ :=
      clusterPos_step_p len wanted (hstop.trans_lt (hbounds hp)) c s r s' hstep c' hr
    show stop - c'.p < stop - c.p
    omega
  · show stop - bodyStart < bodyLen + 1
    omega

theorem sound_readCluster {len : ℕ} (hlen : p → len < 2 ^ 63) (wanted : List ℕ) (c : ClusterHop)
    (hpos : c.pos < len) {head : Bytes} {e : Header} (hhead : parseHeader head = some e) {size : ℕ}
    (hsize : size ∈ e.size) : Sound p (c.readCluster len wanted e size) := by
  obtain ⟨-, hmax, hlt⟩ := parseHeader_bounds hhead
  have hsize56 := hlt size hsize
  rw [ClusterHop.readCluster]
  split
  · refine sound_bind_returns (sound_addU64 _ _) (addU64_le _ _) fun body hbody => ?_
    refine sound_walkClusterSparse (fun hp => ?_) wanted c.blocks
    have := hlen hp
    omega
  · exact sound_pure _

/-- The header that was read parses. -/
theorem readHeader_parses (pos n : ℕ) :
    Returns (readHeader pos n) fun r => ∀ e ∈ r, ∃ head, parseHeader head = some e := by
  refine returns_any fun head => returns_pure ?_
  intro e he
  obtain ⟨bytes, -, hparse⟩ := Option.bind_eq_some_iff.mp he
  exact ⟨bytes, hparse⟩

theorem sound_clusterHop_step {len : ℕ} (hlen : p → len < 2 ^ 63) (wanted : List ℕ)
    (c : ClusterHop) : Sound p (c.step len wanted) := by
  rw [ClusterHop.step]
  split
  · rename_i hpos
    refine sound_bind_returns (sound_readHeader _ _) (readHeader_parses _ _) fun r hr => ?_
    cases r with
    | none => exact sound_pure _
    | some e =>
      obtain ⟨head, hhead⟩ := hr e rfl
      dsimp only
      split
      · exact sound_pure _
      · rename_i size hsize
        refine sound_bind (sound_readCluster hlen wanted c hpos hhead hsize) fun blocks => ?_
        exact sound_bind (sound_addU64 _ _) fun pos => sound_pure _
  · exact sound_pure _

/-- A hop that goes on moves the position forward. -/
theorem clusterHop_step_pos {len : ℕ} (hlen : len < 2 ^ 63) (wanted : List ℕ) (c : ClusterHop) :
    Returns (c.step len wanted) fun r => ∀ c', r = .inl c' → c.pos < len ∧ c.pos < c'.pos := by
  rw [ClusterHop.step]
  split
  · rename_i hpos
    refine returns_bind (readHeader_parses _ _) fun r hr => ?_
    cases r with
    | none => exact returns_pure nofun
    | some e =>
      obtain ⟨head, hhead⟩ := hr e rfl
      obtain ⟨hmin, hmax, hlt⟩ := parseHeader_bounds hhead
      dsimp only
      split
      · exact returns_pure nofun
      · rename_i size hsize
        have hsize56 := hlt size hsize
        refine returns_any fun blocks => ?_
        refine returns_bind (returns_addU64 (by omega)) fun pos hpos' => returns_pure ?_
        rintro c' ⟨⟩
        exact ⟨hpos, by show c.pos < pos; omega⟩
  · exact returns_pure nofun

theorem sound_hopClusters {len : ℕ} (hlen : p → len < 2 ^ 63) (wanted : List ℕ) (first : ℕ) :
    Sound p (hopClusters len wanted first) := by
  refine sound_loop (fun c => len - c.pos) (sound_clusterHop_step hlen wanted) ?_ ?_
  · intro hp c s r s' hstep c' hr
    obtain ⟨hlt, hmove⟩ := clusterHop_step_pos (hlen hp) wanted c s r s' hstep c' hr
    show len - c'.pos < len - c.pos
    omega
  · show len - first < len + 1
    omega

theorem sound_readClusterTimestamp (clusterPos : ℕ) :
    Sound p (readClusterTimestamp clusterPos) := by
  refine sound_bind (sound_readAt _ _) fun head => ?_
  refine sound_bind (sound_ofExcept _) ?_
  rintro ⟨id, il⟩
  dsimp only
  split
  · exact sound_bail _
  · exact sound_bind (sound_ofExcept _) fun q => sound_pure _

theorem sound_readCueBlock (clusterPos rel : ℕ) : Sound p (readCueBlock clusterPos rel) := by
  refine sound_bind (sound_readAt _ _) fun head => ?_
  refine sound_bind (sound_ofExcept _) fun q => ?_
  refine sound_bind (sound_ofExcept _) fun q' => ?_
  refine sound_bind (sound_addU64 _ _) fun bodyStart => ?_
  split
  · exact sound_bail _
  · refine sound_bind (sound_readAt _ _) fun bh => ?_
    refine sound_bind (sound_ofExcept _) fun b => ?_
    refine sound_bind (sound_ofExcept _) ?_
    rintro ⟨bsize, bsl⟩
    cases bsize with
    | none => exact sound_bail _
    | some bsize =>
      refine sound_bind (sound_addU64 _ _) fun blockBody => ?_
      exact sound_bind (sound_readAt _ _) fun body => sound_pure _

theorem sound_cueReads_step (segmentStart : ℕ) (wanted : List ℕ) (c : CueReads) (cue : SubCue) :
    Sound p (c.step segmentStart wanted cue) := by
  rw [CueReads.step]
  split
  · exact sound_bail _
  · have hts : Sound p (clusterTimestamp c.cache (segmentStart + cue.cluster)) := by
      rw [clusterTimestamp]
      split
      · exact sound_pure _
      · exact sound_readClusterTimestamp _
    refine sound_bind hts fun ts => ?_
    split
    · exact ⟨keeps_throw _, fun _ => avoids_throw nofun⟩
    · refine sound_bind (sound_readCueBlock _ _) fun found => ?_
      exact sound_bind (sound_ofExcept _) fun blocks => sound_pure _

theorem sound_collect {len : ℕ} (hlen : p → len < 2 ^ 63) (idx : MkvIndex) (wanted : List ℕ) :
    Sound p (collect len idx wanted) := by
  rw [collect]
  split
  · refine sound_bind ?_ fun blocks => sound_pure _
    exact sound_bind (sound_foldlM (sound_cueReads_step _ wanted) _ _) fun c => sound_pure _
  · split
    · exact sound_pure _
    · exact sound_bind (sound_hopClusters hlen wanted _) fun blocks => sound_pure _

theorem sound_addEvent (scale : ℕ) (t : MkvTrack) (events : List (ℕ × ℕ × Text))
    (b : TimedBlock) : Sound p (addEvent fns scale t events b) := by
  have hend (startTicks fallback : ℕ) (d : Option ℕ) :
      Sound p (eventEnd scale startTicks fallback d) := by
    cases d with
    | none => exact sound_pure _
    | some d => exact sound_bind (sound_addU64 _ _) fun stopTicks => sound_pure _
  refine sound_bind ?_ fun e => sound_pure _
  refine sound_bind (sound_addU64 _ _) fun fallback => ?_
  exact sound_bind (hend _ fallback _) fun stop => sound_pure _

theorem sound_assemble (idx : MkvIndex) (image : Option ℕ) (blocks : List TimedBlock) :
    Sound p (assemble fns idx image blocks) := by
  cases image with
  | some want =>
    rw [assemble]
    split
    · exact sound_pure _
    · exact sound_pure _
  | none =>
    refine sound_bind (sound_foldlM (fun out t => ?_) _ _) fun out => sound_pure _
    exact sound_bind (sound_foldlM (sound_addEvent _ t) _ _) fun events => sound_pure _

/-- A walk that returns accounts for every interrupted read, and on a source of
    fewer than `2 ^ 63` bytes it ends. -/
theorem sound_mkvWalk (len : ℕ) (image : Option ℕ) :
    Sound (len < 2 ^ 63) (mkvWalk fns len image) := by
  refine sound_bind (sound_mkvReadIndex len) fun idx => ?_
  dsimp only
  split
  · exact sound_pure _
  · refine sound_bind (sound_collect id idx _) fun blocks => ?_
    cases blocks with
    | none => exact sound_pure _
    | some blocks => exact sound_assemble idx image blocks

end Sound

end Kahawai.Media.Subindex
