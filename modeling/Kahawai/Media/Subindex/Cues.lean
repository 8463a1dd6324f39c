import Kahawai.Media.Subindex.Assembly
import Kahawai.Media.Subindex.FirstCluster

/-!
# The cue path against the header walk

If every cue of a subtitle track has a position in its cluster, `mkv_walk` reads the
blocks at these positions and nothing else. `mkvWalkHeaders` is `mkv_walk` without
that branch.
-/

namespace Kahawai.Media.Subindex

open Kahawai.Core Kahawai.Core.Text Kahawai.Lib

/-- The walk reads what the cues address. -/
def MkvIndex.exact (idx : MkvIndex) : Bool :=
  !idx.subCues.isEmpty && idx.subCues.all fun c => c.rel.isSome

/-- `mkv_walk` as it is without exact cues: it walks every cluster header. -/
def mkvWalkHeaders (fns : TextFns) (len : ℕ) (image : Option ℕ) : Walk MkvOut := do
  let idx ← mkvReadIndex fns len
  let wanted := (wantedTracks image idx.tracks).map MkvTrack.number
  if wanted = [] then pure .empty
  else
    match idx.firstCluster with
    | none => pure .empty
    | some first =>
      let blocks ← hopClusters len wanted first
      assemble fns idx image blocks

/-- The block that a cue addresses. -/
def Layout.address (L : Layout) (idx : MkvIndex) (cue : SubCue) : Option (Cluster × Element) :=
  L.blocks.find? fun b => idx.segmentStart + cue.cluster = b.1.element.pos ∧
    cue.rel.map (b.1.element.body + ·) = some b.2.pos

/-- Every position in a cluster that a cue gives is that of a block. -/
def Layout.CuesPoint (L : Layout) (idx : MkvIndex) : Prop :=
  ∀ cue ∈ idx.subCues, cue.rel.isSome = true → (L.address idx cue).isSome = true

/-- The blocks that the cues address, in the order of the cues. -/
def Layout.addressed (L : Layout) (idx : MkvIndex) : List (Cluster × Element) :=
  idx.subCues.filterMap (L.address idx)

variable {src : Source} {overflowChecks : Bool} {fns : TextFns} {L : Layout} {wanted : List ℕ}
  {idx : MkvIndex} {cue : SubCue} {c : Cluster} {e : Element}

theorem Tiles.isAt {p stop : ℕ} {es : List Element} (h : Tiles src p stop es) :
    ∀ e ∈ es, e.IsAt src stop := by
  induction es generalizing p with
  | nil => exact fun _ he => absurd he List.not_mem_nil
  | cons e es ih =>
    obtain ⟨-, hat, htiles⟩ := h
    intro e' he'
    rcases List.mem_cons.mp he' with rfl | he'
    · exact hat
    · exact ih htiles e' he'

theorem mem_blocks {b : Cluster × Element} :
    b ∈ L.blocks ↔ Top.cluster b.1 ∈ L.top ∧ b.2 ∈ b.1.after ∧ b.2.isBlock = true := by
  obtain ⟨c, e⟩ := b
  unfold Layout.blocks Layout.clusters
  simp only [List.mem_flatMap, List.mem_filterMap, List.mem_map, List.mem_filter, Prod.mk.injEq]
  constructor
  · rintro ⟨c', ⟨t, ht, hc'⟩, e', ⟨he', hblock⟩, rfl, rfl⟩
    cases t with
    | other e => cases hc'
    | cluster c =>
      cases hc'
      exact ⟨ht, he', hblock⟩
  · rintro ⟨ht, he, hblock⟩
    exact ⟨c, ⟨_, ht, rfl⟩, e, ⟨he, hblock⟩, rfl, rfl⟩

/-- A block of the file, where its elements are. -/
structure Block (src : Source) (c : Cluster) (e : Element) : Prop where
  cluster : c.Describes src
  element : c.element.IsAt src src.size
  block : e.IsAt src c.element.stop
  isBlock : e.isBlock = true
  grouped : e.Grouped src

theorem Layout.Describes.block (hL : L.Describes src) (h : (c, e) ∈ L.blocks) : Block src c e := by
  obtain ⟨htop, hafter, hblock⟩ := mem_blocks.mp h
  have hc := hL.clusters c htop
  have hmem : e ∈ c.before ++ c.timestamp :: c.after :=
    List.mem_append_right _ (List.mem_cons_of_mem _ hafter)
  exact ⟨hc, hL.tiles.isAt _ (List.mem_map_of_mem htop), hc.tiles.isAt e hmem, hblock,
    hc.grouped e hmem⟩

theorem address_eq_some (h : L.address idx cue = some (c, e)) :
    (c, e) ∈ L.blocks ∧ idx.segmentStart + cue.cluster = c.element.pos ∧
      ∃ rel, cue.rel = some rel ∧ c.element.body + rel = e.pos := by
  have hfound := List.find?_some h
  rw [decide_eq_true_eq] at hfound
  exact ⟨List.mem_of_find?_eq_some h, hfound.1, Option.map_eq_some_iff.mp hfound.2⟩

/-! ## The timestamp from the prefix -/

/-- The timestamp that the cue path takes for the cluster at a position. -/
def Source.prefixTimestamp (src : Source) (p : ℕ) : ℕ :=
  match parseHeader (src.bytes p 64) with
  | some h => firstTimestamp (src.bytes (p + h.len) 16)
  | none => 0

/-- It is that of the cluster, if this ends within the first sixteen bytes, and
    otherwise 0. -/
theorem prefixTimestamp_eq (hc : c.Describes src) (hat : c.element.IsAt src src.size) :
    src.prefixTimestamp c.element.pos =
      if c.timestamp.stop ≤ c.element.body + 16 then src.timestamp c else 0 := by
  have hlen := hat.len_le
  unfold Source.prefixTimestamp
  rw [hat.parse (by omega)]
  exact firstTimestamp_eq hc.tiles (fun e he => (hc.before e he).1) hc.timestamp 16

theorem prefixTimestamp_lt (hc : c.Describes src) (hat : c.element.IsAt src src.size) :
    src.prefixTimestamp c.element.pos < 2 ^ 64 := by
  rw [prefixTimestamp_eq hc hat]
  split_ifs
  · exact uint_lt _
  · exact Nat.two_pow_pos 64

/-! ## The reads of one cue -/

section Reads

variable (hsize : src.size < 2 ^ 64)

include hsize

theorem yields_readClusterTimestamp (hc : c.Describes src) (hat : c.element.IsAt src src.size)
    (hroom : c.element.pos + 64 ≤ src.size) :
    Yields (Quiet src overflowChecks) (readClusterTimestamp c.element.pos)
      (.ok (src.prefixTimestamp c.element.pos)) := by
  have hlen := hat.len_le
  have hparse := hat.parse (by omega : c.element.len ≤ 64)
  obtain ⟨il, sl, hil, hsl, hheader⟩ := parseHeader_eq_some.mp hparse
  have hsum : il + sl = c.element.len := hheader.symm
  have hshort : src.prefixTimestamp c.element.pos =
      firstTimestamp (((src.bytes c.element.pos 64).drop (il + sl)).take 16) := by
    rw [hsum, bytes_drop src _ (by omega), bytes_take src _ (by omega : 16 ≤ 64 - c.element.len)]
    unfold Source.prefixTimestamp
    rw [hparse]
    rfl
  unfold readClusterTimestamp
  refine yields_bind (yields_readAt hsize hroom) ?_
  rw [hil]
  refine yields_bind (yields_pure _) ?_
  dsimp only [Element.header]
  rw [if_neg (not_not.mpr hc.id)]
  refine yields_bind (by rw [hsl]; exact yields_pure _) ?_
  dsimp only
  rw [hshort]
  exact yields_pure _

theorem yields_readCueBlock (h : Block src c e) (hroom : c.element.pos + 64 ≤ src.size)
    (hroom' : e.pos + 16 ≤ src.size) {rel : ℕ} (hrel : c.element.body + rel = e.pos) :
    Yields (Quiet src overflowChecks) (readCueBlock c.element.pos rel) (.ok (e.id, src.bodyOf e)) := by
  have hlen := h.element.len_le
  have hlen' := h.block.len_le
  have hend := h.block.2.trans h.element.2
  unfold Element.stop Element.body at hend
  unfold Element.body at hrel
  obtain ⟨il, sl, hil, hsl, hheader⟩ := parseHeader_eq_some.mp
    (h.element.parse (by omega : c.element.len ≤ 16))
  obtain ⟨bil, bsl, hbil, hbsl, hbheader⟩ := parseHeader_eq_some.mp
    (h.block.parse (by omega : e.len ≤ 16))
  have hsum : il + sl = c.element.len := hheader.symm
  have hbsum : bil + bsl = e.len := hbheader.symm
  unfold readCueBlock
  refine yields_bind (yields_readAt hsize (by omega)) ?_
  rw [hil]
  refine yields_bind (yields_pure _) ?_
  dsimp only
  refine yields_bind (by rw [hsl]; exact yields_pure _) ?_
  dsimp only
  refine yields_bind (yields_addU64 (by omega)) ?_
  rw [hsum, hrel, if_neg (by omega)]
  refine yields_bind (yields_readAt hsize hroom') ?_
  rw [hbil]
  refine yields_bind (yields_pure _) ?_
  dsimp only
  refine yields_bind (by rw [hbsl]; exact yields_pure _) ?_
  dsimp only [Element.header]
  refine yields_bind (yields_addU64 (by omega)) ?_
  rw [hbsum]
  exact yields_bind (yields_bodyOf hsize h.block h.element.2) (yields_pure _)

/-- One cue of the exact pass. -/
theorem yields_cueReads_step (h : Block src c e) (hroom : c.element.pos + 64 ≤ src.size)
    (hroom' : e.pos + 16 ≤ src.size) {start : ℕ} (hcluster : start + cue.cluster = c.element.pos)
    {rel : ℕ} (hcue : cue.rel = some rel) (hrel : c.element.body + rel = e.pos)
    {reads : CueReads} (hcache : ∀ p ts, reads.cache.lookup p = some ts → ts = src.prefixTimestamp p) :
    Yields (Quiet src overflowChecks) (reads.step start wanted cue)
      (.ok ⟨(c.element.pos, src.prefixTimestamp c.element.pos) :: reads.cache,
        reads.blocks ++ ((src.block wanted e).map (src.prefixTimestamp c.element.pos, ·)).toList⟩) := by
  have hts : Yields (Quiet src overflowChecks) (clusterTimestamp reads.cache c.element.pos)
      (.ok (src.prefixTimestamp c.element.pos)) := by
    unfold clusterTimestamp
    cases hlookup : reads.cache.lookup c.element.pos with
    | none => exact yields_readClusterTimestamp hsize h.cluster h.element hroom
    | some ts =>
      rw [← hcache _ ts hlookup]
      exact yields_pure ts
  have hkind : e.id = Id.blockGroup ∨ e.id = Id.simpleBlock := by
    have hblock := h.isBlock
    unfold Element.isBlock at hblock
    rw [Bool.or_eq_true, decide_eq_true_eq, decide_eq_true_eq] at hblock
    exact hblock.symm
  unfold CueReads.step
  rw [hcluster, if_neg (by omega)]
  refine yields_bind hts ?_
  rw [hcue]
  refine yields_bind (yields_readCueBlock hsize h hroom hroom' hrel) ?_
  dsimp only
  rw [if_pos hkind, rewrap_eq h.block h.grouped h.isBlock (prefixTimestamp_lt h.cluster h.element)]
  exact yields_bind (yields_pure _) (yields_pure _)

end Reads

/-! ## All cues -/

/-- The block of an element as the cue path collects it. -/
def Source.cued (src : Source) (wanted : List ℕ) (b : Cluster × Element) : Option TimedBlock :=
  (src.block wanted b.2).map (src.prefixTimestamp b.1.element.pos, ·)

/-- Enough bytes follow for the reads of the cue path. -/
def Source.Room (src : Source) (b : Cluster × Element) : Prop :=
  b.1.element.pos + 64 ≤ src.size ∧ b.2.pos + 16 ≤ src.size

theorem yields_cueLoop (hL : L.Describes src) {cues : List SubCue}
    (hcues : ∀ cue ∈ cues, ∃ b, L.address idx cue = some b ∧ src.Room b) {reads : CueReads}
    (hcache : ∀ p ts, reads.cache.lookup p = some ts → ts = src.prefixTimestamp p) :
    ∃ cache, Yields (Quiet src overflowChecks)
      (cues.foldlM (CueReads.step idx.segmentStart wanted) reads)
      (.ok ⟨cache, reads.blocks ++ (cues.filterMap (L.address idx)).filterMap (src.cued wanted)⟩) := by
  induction cues generalizing reads with
  | nil => exact ⟨reads.cache, (List.append_nil reads.blocks).symm ▸ yields_pure reads⟩
  | cons cue cues ih =>
    obtain ⟨⟨c, e⟩, haddress, hroom, hroom'⟩ := hcues cue List.mem_cons_self
    obtain ⟨hmem, hcluster, rel, hrel, hpos⟩ := address_eq_some haddress
    let next : CueReads := ⟨(c.element.pos, src.prefixTimestamp c.element.pos) :: reads.cache,
      reads.blocks ++ (src.cued wanted (c, e)).toList⟩
    have hstep : Yields (Quiet src overflowChecks) (reads.step idx.segmentStart wanted cue)
        (.ok next) :=
      yields_cueReads_step hL.size (hL.block hmem) hroom hroom' hcluster hrel hpos hcache
    have hnext : ∀ p ts, next.cache.lookup p = some ts → ts = src.prefixTimestamp p := by
      intro p ts hlookup
      rw [List.lookup_cons] at hlookup
      split at hlookup
      · rename_i heq
        cases hlookup
        rw [eq_of_beq heq]
      · exact hcache p ts hlookup
    obtain ⟨cache, hrest⟩ := ih (fun cue' h' => hcues cue' (List.mem_cons_of_mem cue h')) hnext
    refine ⟨cache, ?_⟩
    rw [List.foldlM_cons]
    refine yields_bind hstep ?_
    have hblocks : (src.cued wanted (c, e)).toList ++
        (cues.filterMap (L.address idx)).filterMap (src.cued wanted) =
          ((cue :: cues).filterMap (L.address idx)).filterMap (src.cued wanted) := by
      rw [List.filterMap_cons_some haddress, List.filterMap_cons]
      cases src.cued wanted (c, e) <;> rfl
    rw [← hblocks, ← List.append_assoc]
    exact hrest

/-- The cue path collects what the cues address. -/
theorem yields_cueReads (hL : L.Describes src) (hexact : idx.exact = true) (hcues : L.CuesPoint idx)
    (hroom : ∀ b ∈ L.addressed idx, src.Room b) :
    Yields (Quiet src overflowChecks) (cueReads idx.segmentStart wanted idx.subCues)
      (.ok ((L.addressed idx).filterMap (src.cued wanted))) := by
  have hall : ∀ cue ∈ idx.subCues, ∃ b, L.address idx cue = some b ∧ src.Room b := by
    intro cue hcue
    unfold MkvIndex.exact at hexact
    rw [Bool.and_eq_true, List.all_eq_true] at hexact
    obtain ⟨b, hb⟩ := Option.isSome_iff_exists.mp (hcues cue hcue (hexact.2 cue hcue))
    exact ⟨b, hb, hroom b (List.mem_filterMap.mpr ⟨cue, hcue, hb⟩)⟩
  have hloop : ∃ cache, Yields (Quiet src overflowChecks)
      (idx.subCues.foldlM (CueReads.step idx.segmentStart wanted) ⟨[], []⟩)
      (.ok ⟨cache, (L.addressed idx).filterMap (src.cued wanted)⟩) :=
    yields_cueLoop hL hall fun p ts h => by cases h
  obtain ⟨cache, hloop⟩ := hloop
  exact yields_bind hloop (yields_pure _)

/-! ## The header walk -/

/-- The file up to and from its first cluster. -/
theorem exists_first_cluster {top : List Top} (h : Top.cluster c ∈ top) :
    ∃ front first rest, top = front ++ .cluster first :: rest ∧
      (∀ t ∈ front, t.cluster? = none) ∧ Top.cluster c ∈ Top.cluster first :: rest := by
  induction top with
  | nil => exact absurd h List.not_mem_nil
  | cons t top ih =>
    cases t with
    | cluster c' => exact ⟨[], c', top, rfl, fun _ ht => absurd ht List.not_mem_nil, h⟩
    | other e =>
      rcases List.mem_cons.mp h with heq | h
      · cases heq
      · obtain ⟨front, first, rest, rfl, hfront, hmem⟩ := ih h
        refine ⟨.other e :: front, first, rest, rfl, fun t ht => ?_, hmem⟩
        rcases List.mem_cons.mp ht with rfl | ht
        · rfl
        · exact hfront t ht

theorem Tiles.suffix {p stop : ℕ} {es es' : List Element} (h : Tiles src p stop (es ++ e :: es')) :
    Tiles src e.pos stop (e :: es') := by
  induction es generalizing p with
  | nil =>
    obtain ⟨-, hrest⟩ := h
    exact ⟨rfl, hrest⟩
  | cons e' es ih => exact ih h.2.2

theorem blocks_of_front {front rest : List Top} (htop : L.top = front ++ rest)
    (hfront : ∀ t ∈ front, t.cluster? = none) : L.blocks = topBlocks rest := by
  show topBlocks L.top = topBlocks rest
  unfold topBlocks
  rw [htop, List.filterMap_append, List.filterMap_eq_nil_iff.mpr hfront, List.nil_append]

/-- The header walk from the first cluster finds every block. -/
theorem yields_hopClusters (hL : L.Describes src) {front rest : List Top}
    (htop : L.top = front ++ .cluster c :: rest) (hfront : ∀ t ∈ front, t.cluster? = none) :
    Yields (Quiet src overflowChecks) (hopClusters src.size wanted c.element.pos)
      (.ok (L.blocks.filterMap (src.timed wanted))) := by
  have htiles := hL.tiles
  rw [htop, List.map_append, List.map_cons] at htiles
  have hothers : ∀ e, Top.other e ∈ Top.cluster c :: rest → e.id ≠ Id.cluster := fun e he =>
    hL.others e (htop ▸ List.mem_append_right _ he)
  have hclusters : ∀ c', Top.cluster c' ∈ Top.cluster c :: rest → c'.Describes src := fun c' hc' =>
    hL.clusters c' (htop ▸ List.mem_append_right _ hc')
  rw [blocks_of_front htop hfront]
  exact yields_hopLoop hL.size htiles.suffix hothers hclusters (by omega) []

/-! ## When they agree -/

/-- When the block of an element starts, in milliseconds. -/
def Source.startMs (src : Source) (wanted : List ℕ) (scale : ℕ) (b : Cluster × Element) : ℕ :=
  ((src.timed wanted b).map (startOf scale)).getD 0

/-- The blocks of a track among some of the file. -/
def Source.trackBlocks (src : Source) (wanted : List ℕ) (number : ℕ) (l : List (Cluster × Element)) :
    List (Cluster × Element) :=
  l.filter fun b => (src.timed wanted b).any fun b => b.2.track = number

/-- The cues suffice for the wanted tracks. -/
structure Layout.Complete (L : Layout) (src : Source) (idx : MkvIndex) (wanted : List ℕ) : Prop where
  /-- No read of the cue path goes past the end. -/
  room : ∀ b ∈ L.addressed idx, src.Room b
  /-- Timestamps end within the first sixteen bytes of their clusters. -/
  timestamps : ∀ b ∈ L.addressed idx, (src.timed wanted b).isSome = true →
    b.1.timestamp.stop ≤ b.1.element.body + 16 ∨ src.timestamp b.1 = 0
  /-- Each block of a wanted track is addressed by one cue, and the cues of blocks that
      start in the same millisecond are in the order of the file. -/
  once : ∀ number ∈ wanted, ∀ ms,
    ofKey (src.startMs wanted idx.timestampScale) ms
        (src.trackBlocks wanted number (L.addressed idx)) =
      ofKey (src.startMs wanted idx.timestampScale) ms (src.trackBlocks wanted number L.blocks)

theorem ofKey_timed (scale number ms : ℕ) (l : List (Cluster × Element)) :
    ofKey (startOf scale) ms (ofTrack number (l.filterMap (src.timed wanted))) =
      (ofKey (src.startMs wanted scale) ms (src.trackBlocks wanted number l)).filterMap
        (src.timed wanted) := by
  have htrack : ofTrack number (l.filterMap (src.timed wanted)) =
      (src.trackBlocks wanted number l).filterMap (src.timed wanted) := by
    unfold ofTrack Source.trackBlocks
    induction l with
    | nil => rfl
    | cons b l ih =>
      cases htimed : src.timed wanted b with
      | none =>
        rw [List.filterMap_cons_none htimed, ih, List.filter_cons_of_neg (by simp [htimed])]
      | some found =>
        rw [List.filterMap_cons_some htimed, List.filter_cons, ih, List.filter_cons]
        simp only [htimed, Option.any_some]
        split_ifs
        · rw [List.filterMap_cons_some htimed]
        · rfl
  rw [htrack]
  refine ofKey_filterMap (fun b _ found hfound => ?_) ms
  unfold Source.startMs
  rw [hfound]
  rfl

/-- What the cue path and the header walk collect. -/
theorem Layout.Complete.sameBlocks {tracks : List MkvTrack} (hL : L.Describes src)
    (h : L.Complete src idx (tracks.map MkvTrack.number)) :
    SameBlocks idx.timestampScale tracks
      ((L.addressed idx).filterMap (src.cued (tracks.map MkvTrack.number)))
      (L.blocks.filterMap (src.timed (tracks.map MkvTrack.number))) := by
  have hcued : (L.addressed idx).filterMap (src.cued (tracks.map MkvTrack.number)) =
      (L.addressed idx).filterMap (src.timed (tracks.map MkvTrack.number)) := by
    refine List.filterMap_congr fun b hb => ?_
    obtain ⟨cue, -, haddress⟩ := List.mem_filterMap.mp hb
    have hblock := hL.block (address_eq_some haddress).1
    have htimestamps := h.timestamps b hb
    unfold Source.timed Source.cued at *
    cases hfound : src.block (tracks.map MkvTrack.number) b.2 with
    | none => rfl
    | some found =>
      have htimestamp : src.prefixTimestamp b.1.element.pos = src.timestamp b.1 := by
        rw [prefixTimestamp_eq hblock.cluster hblock.element]
        split_ifs with hle
        · rfl
        · exact ((htimestamps (by rw [hfound]; rfl)).resolve_left hle).symm
      rw [htimestamp]
  intro t ht ms
  rw [hcued, ofKey_timed, ofKey_timed, h.once t.number (List.mem_map_of_mem ht) ms]

/-- The cue path does what the header walk does, if the cues are complete. -/
theorem collect_same (overflowChecks : Bool) (hL : L.Describes src) {image : Option ℕ} (hexact : idx.exact = true)
    (hcues : L.CuesPoint idx)
    (hcomplete : L.Complete src idx ((wantedTracks image idx.tracks).map MkvTrack.number))
    (hfound : ∀ front first rest, L.top = front ++ .cluster first :: rest →
      (∀ t ∈ front, t.cluster? = none) → first.element.pos + 16 ≤ src.size →
        idx.firstCluster = some first.element.pos) :
    ∃ first blocks blocks', idx.firstCluster = some first ∧
      Yields (Quiet src overflowChecks) (cueReads idx.segmentStart
        ((wantedTracks image idx.tracks).map MkvTrack.number) idx.subCues) (.ok blocks) ∧
      Yields (Quiet src overflowChecks) (hopClusters src.size
        ((wantedTracks image idx.tracks).map MkvTrack.number) first) (.ok blocks') ∧
      SameBlocks idx.timestampScale (wantedTracks image idx.tracks) blocks blocks' := by
  have hsome := hexact
  unfold MkvIndex.exact at hsome
  rw [Bool.and_eq_true, List.all_eq_true, Bool.not_eq_true', List.isEmpty_eq_false_iff] at hsome
  obtain ⟨cue, hcue⟩ := List.exists_mem_of_ne_nil _ hsome.1
  obtain ⟨⟨c, e⟩, haddress⟩ := Option.isSome_iff_exists.mp (hcues cue hcue (hsome.2 cue hcue))
  have hroom := (hcomplete.room _ (List.mem_filterMap.mpr ⟨cue, hcue, haddress⟩)).1
  obtain ⟨front, first, rest, htop, hfront, hmem⟩ :=
    exists_first_cluster (mem_blocks.mp (address_eq_some haddress).1).1
  have hle : first.element.pos ≤ c.element.pos := by
    have htiles := hL.tiles
    rw [htop, List.map_append, List.map_cons] at htiles
    exact htiles.suffix.le_pos c.element (List.mem_map_of_mem (f := Top.element) hmem)
  exact ⟨first.element.pos, _, _, hfound front first rest htop hfront (by dsimp only at hroom; omega),
    yields_cueReads hL hexact hcues hcomplete.room, yields_hopClusters hL htop hfront,
    hcomplete.sameBlocks hL⟩

/-- If the cues are complete, `mkv_walk` returns what walking every cluster header
    returns, for a text extraction and for an image track. -/
theorem cue_path_matches (hL : L.Describes src) {r : Reader} (hr : Quiet src overflowChecks r)
    (image : Option ℕ)
    (hcues : ∀ idx r₁, mkvReadIndex fns src.size r = .ok idx r₁ → L.CuesPoint idx)
    (hcomplete : ∀ idx r₁, mkvReadIndex fns src.size r = .ok idx r₁ → idx.exact = true →
      L.Complete src idx ((wantedTracks image idx.tracks).map MkvTrack.number)) :
    outcome (mkvWalk fns src.size image) r = outcome (mkvWalkHeaders fns src.size image) r := by
  unfold mkvWalk mkvWalkHeaders
  refine outcome_bind_congr fun idx r₁ hidx => ?_
  have hr₁ : Quiet src overflowChecks r₁ := keeps_quiet_mkvReadIndex fns src.size r idx r₁ hr hidx
  dsimp only
  split_ifs with hwanted
  · rfl
  · unfold collect
    by_cases hexact : idx.exact = true
    · obtain ⟨first, blocks, blocks', hfirst, hcued, hwalked, hsame⟩ :=
        collect_same overflowChecks hL hexact (hcues idx r₁ hidx)
          (hcomplete idx r₁ hidx hexact) fun front first rest htop hfront hspace =>
            (ensures_mkvReadIndex hL.size hL htop hfront hspace r idx r₁ hr hidx).1.2
      obtain ⟨x, hx, hx'⟩ := assemble_same src overflowChecks fns hsame
      rw [if_pos (show (!idx.subCues.isEmpty && _) = true from hexact), hfirst]
      have hcollect : Yields (Quiet src overflowChecks) (cueReads idx.segmentStart
          ((wantedTracks image idx.tracks).map MkvTrack.number) idx.subCues >>= fun blocks =>
            pure (some blocks)) (.ok (some blocks)) := yields_bind hcued (yields_pure _)
      refine (And.left (yields_bind hcollect ?_ r₁ hr₁)).trans (yields_bind hwalked hx' r₁ hr₁).1.symm
      exact hx
    · rw [if_neg (show ¬ (!idx.subCues.isEmpty && _) = true from hexact)]
      cases idx.firstCluster with
      | none => rfl
      | some first =>
        dsimp only
        rw [bind_assoc]
        rfl

/-! ## A film of two lines -/

/-- Decoders for ASCII text that is not compressed. -/
def plainFns : TextFns where
  utf8Lossy := fun b => b.map fun x => Char.ofNat x.toNat
  inflate := fun _ => none
  decodeText := fun b => b.map fun x => Char.ofNat x.toNat
  cleanCueText := id
  composeHeader := id
  assDialogue := fun _ _ _ => none

/-- A text track with a number. -/
def textTrack (number : UInt8) : Bytes :=
  encodeElement Id.trackEntry (encodeElement Id.trackNumber [number] ++
    encodeElement Id.trackType [0x11] ++
    encodeElement Id.codecId ("S_TEXT/UTF8".toList.map fun c => UInt8.ofNat c.toNat))

/-- A cue of a track, at a position in the cluster that starts at `cluster`. -/
def cueAt (cluster : ℕ) (cue : UInt8 × ℕ) : Bytes :=
  encodeElement Id.cuePoint (encodeElement Id.cueTrackPositions
    (encodeElement Id.cueTrack [cue.1] ++ encodeElement Id.cueClusterPosition (encodeUint cluster) ++
      encodeElement Id.cueRelativePosition (encodeUint cue.2)))

/-- A film with two text tracks and a line of each at one second, and its cues. -/
def twoLines (cues : List (UInt8 × ℕ)) : Bytes :=
  let tracks := encodeElement Id.tracks (textTrack 1 ++ textTrack 2)
  let cluster := encodeElement Id.cluster (encodeElement Id.clusterTimestamp [3, 232] ++
    encodeElement Id.simpleBlock [0x81, 0, 0, 0, 65] ++
    encodeElement Id.simpleBlock [0x82, 0, 0, 0, 66])
  encodeElement Id.ebmlHeader [] ++ encodeElement Id.segment (tracks ++ cluster ++
    encodeElement Id.cues (cues.flatMap (cueAt tracks.length)))

def film (cues : List (UInt8 × ℕ)) : Source :=
  ⟨(twoLines cues).length, fun i => (twoLines cues).getD i 0⟩


/-- The reader that a walk of the film starts with. -/
def filmReader (cues : List (UInt8 × ℕ)) : Reader :=
  .new (film cues) ⟨fun _ => false, fun _ => false, fun _ => false⟩ true

def filmCluster : Cluster where
  element := ⟨Id.cluster, 134, 12, 39⟩
  before := []
  timestamp := ⟨Id.clusterTimestamp, 146, 9, 2⟩
  after := [⟨Id.simpleBlock, 157, 9, 5⟩, ⟨Id.simpleBlock, 171, 9, 5⟩]

/-- Where everything is; the cues take `size` bytes. -/
def filmLayout (size : ℕ) : Layout where
  header := ⟨Id.ebmlHeader, 0, 12, 0⟩
  segmentLen := 12
  segmentSize := some (173 + size)
  top := [.other ⟨Id.tracks, 24, 12, 98⟩, .cluster filmCluster, .other ⟨Id.cues, 185, 12, size⟩]

theorem filmLayout_describes {cues : List (UInt8 × ℕ)} (size : ℕ)
    (hsize : (film cues).size = 197 + size ∧ (film cues).size < 2 ^ 64)
    (hbytes : Tiles (film cues) 24 (film cues).size ((filmLayout size).top.map Top.element) ∧
      Element.IsAt (film cues) (film cues).size (filmLayout size).header ∧
      parseHeader ((film cues).bytes 12 12) = some ⟨Id.segment, 12, some (173 + size)⟩ ∧
      Tiles (film cues) 146 185 (filmCluster.timestamp :: filmCluster.after)) :
    (filmLayout size).Describes (film cues) where
  size := hsize.2
  header := ⟨rfl, rfl, hbytes.2.1⟩
  segment := by
    have hmin : min 12 ((film cues).size - 12) = 12 := by omega
    show parseHeader ((film cues).bytes 12 (min 12 ((film cues).size - 12))) = _
    rw [hmin]
    exact hbytes.2.2.1
  ends := by
    rintro n ⟨⟩
    show 24 + (173 + size) = _
    omega
  tiles := hbytes.1
  others := by
    intro e he
    simp only [filmLayout, List.mem_cons, Top.other.injEq, List.not_mem_nil, or_false,
      reduceCtorEq, false_or] at he
    rcases he with rfl | rfl
    · show Id.tracks ≠ Id.cluster
      decide
    · show Id.cues ≠ Id.cluster
      decide
  clusters := by
    intro c hc
    simp only [filmLayout, List.mem_cons, Top.cluster.injEq, List.not_mem_nil, or_false,
      reduceCtorEq, false_or] at hc
    subst hc
    refine ⟨rfl, hbytes.2.2.2, fun _ he => absurd he List.not_mem_nil, rfl, fun e he => ?_⟩
    simp only [filmCluster, List.mem_cons, List.not_mem_nil, or_false] at he
    rcases he with rfl | rfl
    · exact ⟨by decide, fun h => by cases h⟩
    · exact ⟨by decide, fun h => by cases h⟩

theorem quiet_filmReader (cues : List (UInt8 × ℕ)) : Quiet (film cues) true (filmReader cues) :=
  quiet_new (film cues) true

/-- Both lines have a cue. -/
theorem cue_path_matches_film :
    outcome (mkvWalk plainFns (film [(1, 11), (2, 25)]).size none) (filmReader [(1, 11), (2, 25)]) =
      outcome (mkvWalkHeaders plainFns (film [(1, 11), (2, 25)]).size none)
        (filmReader [(1, 11), (2, 25)]) := by
  have hindex : (match mkvReadIndex plainFns (film [(1, 11), (2, 25)]).size
      (filmReader [(1, 11), (2, 25)]) with
    | .ok idx _ => decide ((filmLayout 96).addressed idx = (filmLayout 96).blocks) &&
        idx.subCues.all fun cue => ((filmLayout 96).address idx cue).isSome
    | .error _ _ => false) = true := by
    decide +kernel
  have hidx : ∀ idx r₁, mkvReadIndex plainFns (film [(1, 11), (2, 25)]).size
      (filmReader [(1, 11), (2, 25)]) = .ok idx r₁ →
        (filmLayout 96).addressed idx = (filmLayout 96).blocks ∧ (filmLayout 96).CuesPoint idx := by
    intro idx r₁ hidx
    rw [hidx] at hindex
    simp only [Bool.and_eq_true, decide_eq_true_eq, List.all_eq_true] at hindex
    exact ⟨hindex.1, fun cue hcue _ => hindex.2 cue hcue⟩
  refine cue_path_matches (filmLayout_describes 96 (by decide +kernel) (by decide +kernel))
    (quiet_filmReader _) none (fun idx r₁ h => (hidx idx r₁ h).2) fun idx r₁ h _ => ?_
  have hall := (hidx idx r₁ h).1
  refine ⟨fun b hb => ?_, fun b hb _ => Or.inl ?_, fun number _ ms => by rw [hall]⟩
  · rw [hall] at hb
    have hroom : ∀ b ∈ (filmLayout 96).blocks,
        b.1.element.pos + 64 ≤ (film [(1, 11), (2, 25)]).size ∧
          b.2.pos + 16 ≤ (film [(1, 11), (2, 25)]).size := by
      decide +kernel
    exact hroom b hb
  · rw [hall] at hb
    have htimestamps : ∀ b ∈ (filmLayout 96).blocks,
        b.1.timestamp.stop ≤ b.1.element.body + 16 := by
      decide
    exact htimestamps b hb

/-- Only the first line has a cue. The walk takes the cue path and returns nothing for
    the second track. -/
theorem cue_path_misses : ∃ (L : Layout) (src : Source) (r : Reader),
    L.Describes src ∧ Quiet src true r ∧
    (∃ idx r₁, mkvReadIndex plainFns src.size r = .ok idx r₁ ∧ idx.exact = true ∧
      L.CuesPoint idx) ∧
    (outcome (mkvWalk plainFns src.size none) r).toOption.map MkvOut.text =
      some [(0, ⟨[⟨1000, 4000, lit "A"⟩], none⟩), (1, ⟨[], none⟩)] ∧
    (outcome (mkvWalkHeaders plainFns src.size none) r).toOption.map MkvOut.text =
      some [(0, ⟨[⟨1000, 4000, lit "A"⟩], none⟩), (1, ⟨[⟨1000, 4000, lit "B"⟩], none⟩)] := by
  have hindex : (match mkvReadIndex plainFns (film [(1, 11)]).size (filmReader [(1, 11)]) with
    | .ok idx _ => idx.exact &&
        idx.subCues.all fun cue => ((filmLayout 48).address idx cue).isSome
    | .error _ _ => false) = true := by
    decide +kernel
  refine ⟨filmLayout 48, film [(1, 11)], filmReader [(1, 11)],
    filmLayout_describes 48 (by decide +kernel) (by decide +kernel), quiet_filmReader _, ?_,
    by decide +kernel, by decide +kernel⟩
  cases hrun : mkvReadIndex plainFns (film [(1, 11)]).size (filmReader [(1, 11)]) with
  | error stop r₁ =>
    rw [hrun] at hindex
    cases hindex
  | ok idx r₁ =>
    rw [hrun] at hindex
    simp only [Bool.and_eq_true, List.all_eq_true] at hindex
    exact ⟨idx, r₁, rfl, hindex.1, fun cue hcue _ => hindex.2 cue hcue⟩

end Kahawai.Media.Subindex
