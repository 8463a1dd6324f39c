import Kahawai.Media.Subindex.Layout

/-!
# The header walk over a laid out file

`hopClusters` finds every subtitle block of a wanted track, with the timestamp of
its cluster, in the order of the file (`yields_hopClusters`). A peek only skips
blocks of other tracks.

`rewrap_eq`: writing an element into a cluster of its own and reading that again
loses nothing.
-/

namespace Kahawai.Media.Subindex

open Kahawai.Lib

variable {src : Source} {overflowChecks : Bool} {wanted : List ℕ}

/-! ## What is written is read -/

theorem foldl_beBytes (count n acc : ℕ) (h : n < 256 ^ count) :
    (beBytes count n).foldl shiftIn acc = acc * 256 ^ count + n := by
  induction count generalizing n acc with
  | zero =>
    have hn : n = 0 := by simpa using h
    rw [hn]
    simp [beBytes]
  | succ count ih =>
    have hpos : 0 < 256 ^ count := Nat.pow_pos (by decide)
    have hbyte : n / 256 ^ count < 256 := by
      rw [Nat.div_lt_iff_lt_mul hpos, Nat.mul_comm, ← Nat.pow_succ]
      exact h
    have hshift : shiftIn acc (UInt8.ofNat (n / 256 ^ count)) = acc * 256 + n / 256 ^ count := by
      unfold shiftIn
      rw [UInt8.toNat_ofNat', Nat.mod_eq_of_lt hbyte]
    rw [beBytes, List.foldl_cons, hshift, ih _ _ (Nat.mod_lt _ hpos), Nat.pow_succ, Nat.add_mul,
      Nat.add_assoc, Nat.div_add_mod' n, Nat.mul_assoc, Nat.mul_comm 256]

theorem length_beBytes (count n : ℕ) : (beBytes count n).length = count := by
  induction count generalizing n with
  | zero => rfl
  | succ count ih => rw [beBytes, List.length_cons, ih]

/-- `uint` reads what `encode_uint` writes. -/
theorem uint_encodeUint {v : ℕ} (h : v < 2 ^ 64) : uint (encodeUint v) = v := by
  have hzeros : ∀ (l : Bytes) (k : ℕ), k ≤ (l.takeWhile (· = 0)).length →
      (l.drop k).foldl shiftIn 0 = l.foldl shiftIn 0 := by
    intro l
    induction l with
    | nil => simp
    | cons b l ih =>
      intro k hk
      cases k with
      | zero => rfl
      | succ k =>
        by_cases hb : b = 0
        · subst hb
          rw [List.takeWhile_cons_of_pos (by simp), List.length_cons] at hk
          exact ih k (by omega)
        · rw [List.takeWhile_cons_of_neg (by simpa using hb)] at hk
          simp at hk
  unfold uint encodeUint
  dsimp only
  rw [hzeros _ _ (min_le_left _ _), foldl_beBytes 8 v 0 (by omega)]
  omega

/-- The first child of a buffer that starts with an encoded element whose id has one
    byte. -/
theorem readChild_encoded {first : UInt8} (hfirst : 128 ≤ first.toNat) {body : Bytes}
    (hbody : body.length < 2 ^ 56 - 1) (rest : Bytes) :
    readChild (first :: encodeSize body.length ++ body ++ rest) = .ok (first.toNat, body, rest) := by
  have hzeros : leadingZeros first = 0 := by
    have hlog : first.toNat.log2 = 7 := by
      rw [Nat.log2_eq_iff (by omega)]
      have := first.toNat_lt
      omega
    unfold leadingZeros
    rw [if_neg (by rintro rfl; simp at hfirst), hlog]
  have hid : ebmlId (first :: encodeSize body.length ++ body ++ rest) = .ok (first.toNat, 1) := by
    simp only [ebmlId, List.cons_append, hzeros]
    rw [if_neg (by simp)]
    simp [shiftIn]
  have hsize : ebmlSize (encodeSize body.length ++ (body ++ rest)) = .ok (some body.length, 8) := by
    have hlength : body.length % 2 ^ 56 = body.length := Nat.mod_eq_of_lt (by omega)
    have hvalue : (beBytes 7 body.length).foldl shiftIn 0 = body.length := by
      rw [foldl_beBytes 7 _ 0 (by omega), Nat.zero_mul, Nat.zero_add]
    have hvint : vint (encodeSize body.length ++ (body ++ rest)) = some (body.length, 8) := by
      unfold encodeSize
      rw [hlength]
      simp only [vint, List.cons_append, show leadingZeros 1 = 7 from rfl]
      rw [if_neg (by simp [length_beBytes]),
        List.take_append_of_le_length (by rw [length_beBytes]),
        List.take_of_length_le (by rw [length_beBytes])]
      exact congrArg some (Prod.ext hvalue rfl)
    unfold encodeSize at hvint ⊢
    simp only [ebmlSize, List.cons_append] at hvint ⊢
    rw [if_neg (by decide), hvint]
    dsimp only
    rw [if_neg (by omega)]
  have hheader : parseHeader (first :: encodeSize body.length ++ body ++ rest) =
      some ⟨first.toNat, 1 + 8, some body.length⟩ :=
    parseHeader_eq_some.mpr ⟨1, 8, hid, by rw [← List.append_assoc] at hsize; exact hsize, rfl⟩
  have hlength : (first :: encodeSize body.length).length = 1 + 8 := by
    unfold encodeSize
    rw [List.length_cons, List.length_cons, length_beBytes]
  refine readChild_eq_ok.mpr ⟨1 + 8, body.length, hheader, ?_, ?_, ?_⟩
  · rw [List.length_append, List.length_append, hlength]
    omega
  · rw [List.append_assoc, List.drop_left' hlength, List.take_left' rfl]
  · rw [List.drop_left']
    rw [List.length_append, hlength]

/-- A known size is not all ones. -/
theorem ebmlSize_known_lt {buf : Bytes} {n sl : ℕ} (h : ebmlSize buf = .ok (some n, sl)) :
    n < 2 ^ 56 - 1 := by
  cases buf with
  | nil => cases h
  | cons first rest =>
    simp only [ebmlSize] at h
    split at h
    · cases h
    · split at h
      · cases h
      · rename_i val len hvint
        obtain ⟨hlen, hval⟩ := vint_lt hvint
        split_ifs at h with hones
        · cases h
        · cases h
          have hpow : 2 ^ (7 * sl) ≤ 2 ^ 56 := Nat.pow_le_pow_right (by decide) (by omega)
          omega

theorem Element.IsAt.size_known_lt {e : Element} {stop : ℕ} (h : e.IsAt src stop) :
    e.size < 2 ^ 56 - 1 := by
  obtain ⟨il, sl, -, hsize, -⟩ := parseHeader_eq_some.mp h.1
  exact ebmlSize_known_lt hsize

/-- The group has one block, if the element is a group. -/
def Element.Grouped (src : Source) (e : Element) : Prop :=
  e.id = Id.blockGroup → OneBlock (src.bodyOf e)

theorem rewrap_eq {e : Element} {stop ts : ℕ} (h : e.IsAt src stop) (hgroup : e.Grouped src)
    (hblock : e.isBlock = true) (hts : ts < 2 ^ 64) :
    rewrap ts e.id (src.bodyOf e) wanted = .ok ((src.block wanted e).map (ts, ·)).toList := by
  have hbody : (src.bodyOf e).length < 2 ^ 56 - 1 := by
    unfold Source.bodyOf
    rw [length_bytes]
    exact h.size_known_lt
  have hlength : (encodeUint ts).length < 2 ^ 56 - 1 := by
    unfold encodeUint
    rw [List.length_drop, length_beBytes]
    omega
  have htimestamp (rest : Bytes) :
      readChild (encodeElement Id.clusterTimestamp (encodeUint ts) ++ rest) =
        .ok (Id.clusterTimestamp, encodeUint ts, rest) :=
    readChild_encoded (by decide : 128 ≤ (0xE7 : UInt8).toNat) hlength rest
  have helement : readChild (encodeElement e.id (src.bodyOf e)) = .ok (e.id, src.bodyOf e, []) := by
    unfold Element.isBlock at hblock
    rw [Bool.or_eq_true, decide_eq_true_eq, decide_eq_true_eq] at hblock
    rw [← List.append_nil (encodeElement e.id _)]
    rcases hblock with hid | hid
    · rw [hid]
      exact readChild_encoded (by decide : 128 ≤ (0xA3 : UInt8).toNat) hbody []
    · rw [hid]
      exact readChild_encoded (by decide : 128 ≤ (0xA0 : UInt8).toNat) hbody []
  have hchildren := Children.cons (htimestamp _) (Children.cons helement Children.nil)
  unfold rewrap scanCluster
  dsimp only
  rw [hchildren.walk]
  simp only [List.foldlM_cons, List.foldlM_nil, if_true, uint_encodeUint hts, Except.bind, bind]
  unfold Element.isBlock at hblock
  rw [Bool.or_eq_true, decide_eq_true_eq, decide_eq_true_eq] at hblock
  unfold Source.block
  rcases hblock with hid | hid
  · rw [hid, if_neg (by decide), if_pos rfl, if_pos rfl]
    rfl
  · obtain ⟨b, hb⟩ := (hgroup hid).readBlockGroup wanted
    rw [hid, if_neg (by decide), if_neg (by decide), if_pos rfl, if_neg (by decide), if_pos rfl, hb]
    rfl

/-! ## One cluster -/

/-- The blocks that a walk over elements finds, from the timestamp `ts` on. -/
def Source.walked (src : Source) (wanted : List ℕ) : ℕ → List Element → List TimedBlock
  | _, [] => []
  | ts, e :: es => ((src.block wanted e).map (ts, ·)).toList ++
      src.walked wanted (if e.id = Id.clusterTimestamp then uint (src.bodyOf e) else ts) es

theorem uint_lt (data : Bytes) : uint data < 2 ^ 64 := Nat.mod_lt _ (Nat.two_pow_pos 64)

/-- The block of an element in a cluster, with the timestamp of the cluster. -/
def Source.timed (src : Source) (wanted : List ℕ) (b : Cluster × Element) : Option TimedBlock :=
  (src.block wanted b.2).map (src.timestamp b.1, ·)

theorem block_eq_none {e : Element} (h : e.isBlock = false) : src.block wanted e = none := by
  unfold Element.isBlock at h
  rw [Bool.or_eq_false_iff, decide_eq_false_iff_not, decide_eq_false_iff_not] at h
  unfold Source.block
  rw [if_neg h.1, if_neg h.2]

theorem walked_append (ts : ℕ) {es es' : List Element}
    (hes : ∀ e ∈ es, e.id ≠ Id.clusterTimestamp ∧ e.isBlock = false) :
    src.walked wanted ts (es ++ es') = src.walked wanted ts es' := by
  induction es with
  | nil => rfl
  | cons e es ih =>
    obtain ⟨hid, hblock⟩ := hes e List.mem_cons_self
    rw [List.cons_append, Source.walked, if_neg hid, block_eq_none hblock]
    exact ih fun e' he' => hes e' (List.mem_cons_of_mem e he')

theorem walked_blocks (ts : ℕ) {es : List Element} (hes : ∀ e ∈ es, e.id ≠ Id.clusterTimestamp) :
    src.walked wanted ts es =
      (es.filter Element.isBlock).filterMap fun e => (src.block wanted e).map (ts, ·) := by
  induction es with
  | nil => rfl
  | cons e es ih =>
    rw [Source.walked, if_neg (hes e List.mem_cons_self),
      ih fun e' he' => hes e' (List.mem_cons_of_mem e he')]
    cases hblock : e.isBlock with
    | false =>
      rw [block_eq_none hblock, List.filter_cons_of_neg (by simp [hblock])]
      rfl
    | true =>
      rw [List.filter_cons_of_pos hblock, List.filterMap_cons]
      cases src.block wanted e <;> rfl

/-- A cluster gives its blocks with its timestamp. -/
theorem Cluster.Describes.walked {c : Cluster} (h : c.Describes src) :
    src.walked wanted 0 (c.before ++ c.timestamp :: c.after) =
      ((c.after.filter Element.isBlock).map fun e => (c, e)).filterMap (src.timed wanted) := by
  have htimestamp : src.block wanted c.timestamp = none := by
    unfold Source.block
    rw [h.timestamp, if_neg (by decide), if_neg (by decide)]
  rw [walked_append 0 h.before, Source.walked, if_pos h.timestamp, htimestamp,
    walked_blocks _ fun e he => (h.after e he).1, List.filterMap_map]
  rfl

theorem Cluster.Describes.grouped {c : Cluster} (h : c.Describes src) :
    ∀ e ∈ c.before ++ c.timestamp :: c.after, e.Grouped src := by
  intro e he
  rcases List.mem_append.mp he with hbefore | he
  · intro hid
    have hblock := (h.before e hbefore).2
    unfold Element.isBlock at hblock
    rw [hid] at hblock
    cases hblock
  · rcases List.mem_cons.mp he with rfl | hafter
    · intro hid
      rw [h.timestamp] at hid
      cases hid
    · exact (h.after e hafter).2

section Walks

variable (hsize : src.size < 2 ^ 64)

include hsize

theorem yields_bodyOf {e : Element} {stop : ℕ} (h : e.IsAt src stop) (hstop : stop ≤ src.size) :
    Yields (Quiet src overflowChecks) (readAt e.body e.size) (.ok (src.bodyOf e)) :=
  yields_readAt hsize (h.2.trans hstop)

/-- The walk visits a child of a cluster: it sets the timestamp or collects a block. -/
theorem yields_clusterPos_readElement {e : Element} {stop peek : ℕ} (h : e.IsAt src stop)
    (hstop : stop ≤ src.size) (hgroup : e.Grouped src) (hpeek : e.len ≤ peek) {c : ClusterPos}
    (hts : c.ts < 2 ^ 64) :
    Yields (Quiet src overflowChecks)
      (c.readElement wanted (src.bytes e.pos peek) e.header e.body e.size)
      (.ok { c with
        ts := if e.id = Id.clusterTimestamp then uint (src.bodyOf e) else c.ts
        out := c.out ++ ((src.block wanted e).map (c.ts, ·)).toList }) := by
  have hread : Yields (Quiet src overflowChecks) (readAt e.body e.size) (.ok (src.bodyOf e)) :=
    yields_bodyOf hsize h hstop
  have hinner : (src.bytes e.pos peek).drop e.len = src.bytes e.body (peek - e.len) :=
    bytes_drop src e.pos hpeek
  have hcomparable : Comparable (src.bytes e.body (peek - e.len)) (src.bodyOf e) :=
    comparable_bytes src e.body _ _
  unfold ClusterPos.readElement
  rw [show e.header.id = e.id from rfl, show e.header.len = e.len from rfl, hinner]
  by_cases htimestamp : e.id = Id.clusterTimestamp
  · have hnone : src.block wanted e = none := by
      unfold Source.block
      rw [htimestamp, if_neg (by decide), if_neg (by decide)]
    rw [if_pos htimestamp, if_pos htimestamp, hnone, Option.map_none, Option.toList_none,
      List.append_nil]
    split_ifs with hcomplete
    · rw [length_bytes] at hcomplete
      rw [bytes_take src e.body (by omega : e.size ≤ peek - e.len)]
      exact yields_pure _
    · exact yields_bind hread (yields_pure _)
  · rw [if_neg htimestamp, if_neg htimestamp]
    by_cases hsimple : e.id = Id.simpleBlock
    · have hblock : src.block wanted e = subBlock (src.bodyOf e) wanted := by
        unfold Source.block
        rw [if_pos hsimple]
      rw [if_pos hsimple]
      split_ifs with hours
      · rw [hblock]
        exact yields_bind hread (yields_pure _)
      · rw [hblock, subBlock_eq_none hcomparable (Bool.not_eq_true _ ▸ hours), Option.map_none,
          Option.toList_none, List.append_nil]
        exact yields_pure c
    · rw [if_neg hsimple]
      by_cases hisgroup : e.id = Id.blockGroup
      · have hisblock : e.isBlock = true := by
          unfold Element.isBlock
          rw [Bool.or_eq_true, decide_eq_true_eq, decide_eq_true_eq]
          exact Or.inr hisgroup
        rw [if_pos hisgroup]
        split_ifs with hours
        · refine yields_bind hread (yields_bind ?_ (yields_pure _))
          rw [← hisgroup, rewrap_eq h hgroup hisblock hts]
          exact yields_pure _
        · have hnone : src.block wanted e = none := by
            unfold Source.block
            rw [if_neg hsimple, if_pos hisgroup,
              readBlockGroup_eq_none (hgroup hisgroup) hcomparable (Bool.not_eq_true _ ▸ hours)]
          rw [hnone, Option.map_none, Option.toList_none, List.append_nil]
          exact yields_pure c
      · have hnone : src.block wanted e = none := by
          unfold Source.block
          rw [if_neg hsimple, if_neg hisgroup]
        rw [if_neg hisgroup, hnone, Option.map_none, Option.toList_none, List.append_nil]
        exact yields_pure c

theorem yields_clusterLoop {es : List Element} {p stop ts fuel : ℕ} (htiles : Tiles src p stop es)
    (hstop : stop ≤ src.size) (hgroups : ∀ e ∈ es, e.Grouped src) (hts : ts < 2 ^ 64)
    (hfuel : stop - p < fuel) (out : List TimedBlock) :
    Yields (Quiet src overflowChecks)
      (loop .unfinished (ClusterPos.step src.size wanted stop) fuel ⟨ts, p, out⟩)
      (.ok (out ++ src.walked wanted ts es)) := by
  induction es generalizing p ts fuel out with
  | nil =>
    cases fuel with
    | zero => omega
    | succ fuel =>
      refine yields_loop_done fuel ?_
      unfold ClusterPos.step
      rw [if_neg (by rw [show p = stop from htiles]; exact lt_irrefl _), Source.walked,
        List.append_nil]
      exact yields_pure _
  | cons e es ih =>
    obtain ⟨rfl, hat, htiles⟩ := htiles
    have hspace := hat.two_le_sub
    have hend := hat.2
    have hlen := hat.two_le
    have hlen' := hat.len_le
    unfold Element.stop Element.body at hend
    cases fuel with
    | zero => omega
    | succ fuel =>
      have hpeek : e.len ≤ min (min 48 (stop - e.pos)) (src.size - e.pos) := by omega
      have hts' : (if e.id = Id.clusterTimestamp then uint (src.bodyOf e) else ts) < 2 ^ 64 := by
        split_ifs
        · exact uint_lt _
        · exact hts
      have hfuel' : stop - e.stop < fuel := by
        unfold Element.stop Element.body
        omega
      have hrest := ih htiles (fun e' he' => hgroups e' (List.mem_cons_of_mem e he')) hts' hfuel'
        (out ++ ((src.block wanted e).map (ts, ·)).toList)
      rw [List.append_assoc] at hrest
      refine yields_loop_next ?_ hrest
      unfold ClusterPos.step
      rw [if_pos (by omega : e.pos < stop)]
      refine yields_bind (yields_subU64 (by omega : e.pos ≤ src.size)) ?_
      dsimp only
      rw [if_neg (by omega)]
      refine yields_bind (yields_readAt hsize (by omega)) ?_
      rw [hat.parse hpeek]
      refine yields_bind (yields_addU64 (by dsimp only [Element.header]; omega)) ?_
      refine yields_bind (yields_clusterPos_readElement hsize hat hstop
        (hgroups e List.mem_cons_self) hpeek hts) ?_
      exact yields_bind (yields_addU64 (by show e.pos + e.len + e.size < 2 ^ 64; omega))
        (yields_pure _)

theorem yields_walkClusterSparse {c : Cluster} (h : c.Describes src)
    (hat : c.element.IsAt src src.size) (out : List TimedBlock) :
    Yields (Quiet src overflowChecks)
      (walkClusterSparse src.size c.element.body c.element.size wanted out)
      (.ok (out ++ ((c.after.filter Element.isBlock).map fun e => (c, e)).filterMap
        (src.timed wanted))) := by
  unfold walkClusterSparse
  refine yields_bind (yields_addU64 (hat.2.trans_lt hsize)) ?_
  rw [← h.walked]
  refine yields_clusterLoop hsize h.tiles hat.2 h.grouped (Nat.two_pow_pos 64) ?_ out
  show c.element.body + c.element.size - c.element.body < c.element.size + 1
  omega

/-! ## All clusters -/

theorem yields_readHeader {e : Element} {stop n : ℕ} (h : e.IsAt src stop) (hlen : e.len ≤ n)
    (hn : e.pos + n ≤ src.size) :
    Yields (Quiet src overflowChecks) (readHeader e.pos n) (.ok (some e.header)) := by
  have hread : Yields (Quiet src overflowChecks) (hop (readAt e.pos n))
      (.ok (some (src.bytes e.pos n))) := by
    intro r hr
    obtain ⟨r', hread, hr'⟩ := (yields_readAt hsize hn).eq_ok hr
    unfold outcome hop
    rw [hread]
    exact ⟨rfl, fun _ _ heq => by cases heq; exact hr'⟩
  refine yields_bind hread ?_
  rw [Option.bind_some, h.parse hlen]
  exact yields_pure _

/-- The blocks of the clusters among children of the segment. -/
def topBlocks (top : List Top) : List (Cluster × Element) :=
  (top.filterMap Top.cluster?).flatMap fun c => (c.after.filter Element.isBlock).map fun e => (c, e)

theorem yields_readCluster {t : Top} (hat : t.element.IsAt src src.size)
    (hother : ∀ e, t = .other e → e.id ≠ Id.cluster)
    (hcluster : ∀ c, t = .cluster c → c.Describes src) (blocks : List TimedBlock) :
    Yields (Quiet src overflowChecks)
      (ClusterHop.readCluster src.size wanted ⟨t.element.pos, blocks⟩ t.element.header
        t.element.size)
      (.ok (blocks ++ (topBlocks [t]).filterMap (src.timed wanted))) := by
  unfold ClusterHop.readCluster
  cases t with
  | other e =>
    rw [show (Top.other e).element.header.id = e.id from rfl, if_neg (hother e rfl)]
    exact (List.append_nil blocks).symm ▸ yields_pure _
  | cluster c =>
    have hc := hcluster c rfl
    have hbody : c.element.pos + c.element.len < 2 ^ 64 := hat.body_le.trans_lt hsize
    rw [show (Top.cluster c).element.header.id = c.element.id from rfl, if_pos hc.id]
    refine yields_bind (yields_addU64 hbody) ?_
    rw [show topBlocks [Top.cluster c] =
      (c.after.filter Element.isBlock).map fun e => (c, e) from List.append_nil _]
    exact yields_walkClusterSparse hsize hc hat blocks

theorem yields_hopLoop {top : List Top} {p fuel : ℕ}
    (htiles : Tiles src p src.size (top.map Top.element))
    (hothers : ∀ e, Top.other e ∈ top → e.id ≠ Id.cluster)
    (hclusters : ∀ c, Top.cluster c ∈ top → c.Describes src) (hfuel : src.size - p < fuel)
    (blocks : List TimedBlock) :
    Yields (Quiet src overflowChecks)
      (loop .unfinished (ClusterHop.step src.size wanted) fuel ⟨p, blocks⟩)
      (.ok (blocks ++ (topBlocks top).filterMap (src.timed wanted))) := by
  induction top generalizing p fuel blocks with
  | nil =>
    cases fuel with
    | zero => omega
    | succ fuel =>
      refine yields_loop_done fuel ?_
      unfold ClusterHop.step
      rw [if_neg (by rw [show p = src.size from htiles]; exact lt_irrefl _)]
      exact (List.append_nil blocks).symm ▸ yields_pure _
  | cons t top ih =>
    obtain ⟨rfl, hat, htiles⟩ := htiles
    have hspace := hat.two_le_sub
    have hend := hat.2
    have hlen := hat.two_le
    have hlen' := hat.len_le
    unfold Element.stop Element.body at hend
    cases fuel with
    | zero => omega
    | succ fuel =>
      have hpeek : t.element.len ≤ min 16 (src.size - t.element.pos) := by omega
      have hfuel' : src.size - t.element.stop < fuel := by
        unfold Element.stop Element.body
        omega
      have hrest := ih htiles (fun e he => hothers e (List.mem_cons_of_mem t he))
        (fun c hc => hclusters c (List.mem_cons_of_mem t hc)) hfuel'
        (blocks ++ (topBlocks [t]).filterMap (src.timed wanted))
      have htop : topBlocks (t :: top) = topBlocks [t] ++ topBlocks top := by
        unfold topBlocks
        rw [← List.singleton_append, List.filterMap_append, List.flatMap_append]
      rw [List.append_assoc, ← List.filterMap_append, ← htop] at hrest
      refine yields_loop_next ?_ hrest
      unfold ClusterHop.step
      rw [if_pos (by omega : t.element.pos < src.size)]
      have hinside : t.element.pos + min 16 (src.size - t.element.pos) ≤ src.size := by omega
      refine yields_bind (yields_readHeader hsize hat hpeek hinside) ?_
      refine yields_bind (yields_readCluster hsize hat (fun e he => hothers e (he ▸ List.mem_cons_self))
        (fun c hc => hclusters c (hc ▸ List.mem_cons_self)) blocks) ?_
      have hsum : t.element.pos + (t.element.len + t.element.size) = t.element.stop :=
        (Nat.add_assoc _ _ _).symm
      have hadd : Yields (Quiet src overflowChecks)
          (addU64 t.element.pos (t.element.len + t.element.size)) (.ok t.element.stop) := by
        have hadd := yields_addU64 (I := Quiet src overflowChecks)
          (by omega : t.element.pos + (t.element.len + t.element.size) < 2 ^ 64)
        rwa [hsum] at hadd
      exact yields_bind hadd (yields_pure _)

end Walks

end Kahawai.Media.Subindex
