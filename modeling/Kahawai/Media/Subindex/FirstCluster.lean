import Kahawai.Media.Subindex.Headers

/-!
# The index of a laid out file

Reading the index of a file visits the children of the segment one after another
until the first cluster, and only then jumps to what a `SeekHead` promises. So the
index has the first cluster of the file (`ensures_mkvReadIndex`).
-/

namespace Kahawai.Media.Subindex

open Kahawai.Lib

variable {src : Source} {overflowChecks : Bool} {fns : TextFns} {L : Layout}

/-! ## One element -/

/-- What reading an element leaves of the walk. -/
theorem readElement_index (h : Hunt) (id body size : ℕ) :
    Returns (h.readElement fns id body size) fun h' =>
      h'.pos = h.pos ∧ h'.visited = h.visited ∧ h'.idx.segmentStart = h.idx.segmentStart ∧
        h'.idx.firstCluster = if id = Id.cluster ∧ h.idx.firstCluster.isNone then some h.pos
          else h.idx.firstCluster := by
  unfold Hunt.readElement
  split
  · rename_i hid
    exact returns_section fun a => ⟨rfl, rfl, rfl, by rw [hid, if_neg (fun hand => by cases hand.1)]⟩
  · split
    · rename_i hid
      exact returns_section fun a => ⟨rfl, rfl, rfl, by rw [hid, if_neg (fun hand => by cases hand.1)]⟩
    · split
      · rename_i hid
        exact returns_section fun a =>
          ⟨rfl, rfl, rfl, by rw [hid, if_neg (fun hand => by cases hand.1)]⟩
      · split
        · rename_i hid
          exact returns_section fun a =>
            ⟨rfl, rfl, rfl, by rw [hid, if_neg (fun hand => by cases hand.1)]⟩
        · split
          · exact returns_pure ⟨rfl, rfl, rfl, rfl⟩
          · exact returns_pure ⟨rfl, rfl, rfl, rfl⟩

/-- Where the segment starts and which cluster is the first. -/
def MkvIndex.Found (start first : ℕ) (idx : MkvIndex) : Prop :=
  idx.segmentStart = start ∧ idx.firstCluster = some first

/-- Nothing changes the first cluster again. -/
theorem hunt_step_found {start first stop : ℕ} (h : Hunt) (hfound : h.idx.Found start first) :
    Returns (h.step fns stop) fun r => match r with
      | .inl h' => h'.idx.Found start first
      | .inr idx => idx.Found start first := by
  unfold Hunt.step
  split
  · refine returns_any fun e => ?_
    cases e with
    | none => exact returns_pure hfound
    | some e =>
      refine returns_any fun body => ?_
      split
      · exact returns_pure hfound
      · refine returns_bind (readElement_index _ _ _ _) fun h' hindex => ?_
        have hfound' : h'.idx.Found start first := by
          obtain ⟨-, -, hstart, hfirst⟩ := hindex
          refine ⟨hstart.trans hfound.1, hfirst.trans ?_⟩
          rw [hfound.2, if_neg (by simp)]
        refine returns_any fun after => ?_
        split
        · exact returns_pure hfound'
        · exact returns_pure hfound'
  · exact returns_pure hfound

theorem ensures_hunt_found {start first stop : ℕ} (fuel : ℕ) (h : Hunt)
    (hfound : h.idx.Found start first) :
    Ensures (Quiet src overflowChecks) (loop .unfinished (Hunt.step fns stop) fuel h)
      (MkvIndex.Found start first) := by
  induction fuel generalizing h with
  | zero => exact fun _ _ _ _ heq => by cases heq
  | succ fuel ih =>
    refine ensures_bind (ensures_of_returns (hunt_step_found h hfound)
      (keeps_quiet_hunt_step fns stop h)) fun r hr => ?_
    cases r with
    | inl h' => exact ih h' hr
    | inr idx => exact ensures_pure hr

/-! ## Up to the first cluster -/

/-- The walk stands at a position before the first cluster. -/
structure Hunt.Before (start p : ℕ) (h : Hunt) : Prop where
  pos : h.pos = p
  visited : ∀ v ∈ h.visited, v < p
  start : h.idx.segmentStart = start
  none : h.idx.firstCluster = none

variable (hsize : src.size < 2 ^ 64)

include hsize

/-- A round at an element: behind it if it is no cluster, otherwise it is the first. -/
theorem ensures_hunt_step {e : Element} {start : ℕ} (hat : e.IsAt src src.size)
    (hspace : e.pos + 16 ≤ src.size) {h : Hunt} (hbefore : h.Before start e.pos) :
    Ensures (Quiet src overflowChecks) (h.step fns src.size) fun r => match r with
      | .inl h' => if e.id = Id.cluster then h'.idx.Found start e.pos else h'.Before start e.stop
      | .inr idx => e.id = Id.cluster ∧ idx.Found start e.pos := by
  have hend := hat.2
  have hlen := hat.two_le
  have hlen' := hat.len_le
  unfold Element.stop Element.body at hend
  have hnew : e.pos ∉ h.visited := fun hmem => lt_irrefl _ (hbefore.visited _ hmem)
  unfold Hunt.step
  rw [hbefore.pos, if_pos ⟨by omega, hnew⟩]
  refine ensures_bind (ensures_of_yields (yields_readHeader hsize hat (by omega) hspace)) ?_
  rintro _ rfl
  refine ensures_bind (ensures_of_yields (yields_addU64
    (by show e.pos + e.len < 2 ^ 64; omega))) ?_
  rintro _ rfl
  refine ensures_bind (ensures_of_returns (readElement_index _ _ _ _)
    (keeps_quiet_readElement fns _ _ _ _)) ?_
  rintro h' ⟨-, hvisited, hstart, hfirst⟩
  refine ensures_bind (ensures_of_yields (yields_addU64
    (by show e.pos + e.len + e.size < 2 ^ 64; omega))) ?_
  rintro _ rfl
  dsimp only at hvisited hstart hfirst
  rw [hbefore.none] at hfirst
  by_cases hcluster : e.id = Id.cluster
  · have hfound : h'.idx.Found start e.pos := by
      refine ⟨hstart.trans hbefore.start, hfirst.trans ?_⟩
      exact if_pos ⟨hcluster, rfl⟩
    split_ifs
    · exact ensures_pure ⟨hcluster, hfound⟩
    · exact ensures_pure hfound
  · have hnone : h'.idx.firstCluster = none := hfirst.trans (if_neg fun hand => hcluster hand.1)
    have hcomplete : h'.complete e.header.id = false := by
      unfold Hunt.complete
      rw [show e.header.id = e.id from rfl, decide_eq_false hcluster]
      rfl
    have hnext : h'.next (e.pos + e.len + e.size) = e.stop := by
      unfold Hunt.next
      rw [hnone]
      split
      · rfl
      · rfl
    rw [hcomplete, if_neg Bool.false_ne_true]
    refine ensures_pure ?_
    dsimp only
    rw [if_neg hcluster]
    refine ⟨hnext, fun v hv => ?_, hstart.trans hbefore.start, hnone⟩
    have hlt : e.pos < e.stop := by
      unfold Element.stop Element.body
      omega
    rw [show ({ h' with pos := h'.next (e.pos + e.len + e.size) } : Hunt).visited = h'.visited from rfl,
      hvisited] at hv
    rcases List.mem_cons.mp hv with rfl | hv
    · exact hlt
    · exact (hbefore.visited v hv).trans hlt

theorem ensures_hunt {front rest : List Element} {c : Element} (hc : c.id = Id.cluster)
    (hfront : ∀ e ∈ front, e.id ≠ Id.cluster) (hspace : c.pos + 16 ≤ src.size) {start p : ℕ}
    (htiles : Tiles src p src.size (front ++ c :: rest)) (fuel : ℕ) {h : Hunt}
    (hbefore : h.Before start p) :
    Ensures (Quiet src overflowChecks) (loop .unfinished (Hunt.step fns src.size) fuel h)
      (MkvIndex.Found start c.pos) := by
  induction front generalizing p fuel h with
  | nil =>
    obtain ⟨rfl, hat, -⟩ := htiles
    cases fuel with
    | zero => exact fun _ _ _ _ heq => by cases heq
    | succ fuel =>
      refine ensures_bind (ensures_hunt_step hsize hat hspace hbefore) fun r hr => ?_
      cases r with
      | inl h' =>
        dsimp only at hr
        rw [if_pos hc] at hr
        exact ensures_hunt_found fuel h' hr
      | inr idx => exact ensures_pure hr.2
  | cons e front ih =>
    obtain ⟨rfl, hat, htiles⟩ := htiles
    have hid := hfront e List.mem_cons_self
    have hle : e.stop ≤ c.pos := htiles.le_pos c (List.mem_append_right _ List.mem_cons_self)
    cases fuel with
    | zero => exact fun _ _ _ _ heq => by cases heq
    | succ fuel =>
      have hspace' : e.pos + 16 ≤ src.size := by
        unfold Element.stop Element.body at hle
        omega
      refine ensures_bind (ensures_hunt_step hsize hat hspace' hbefore) fun r hr => ?_
      cases r with
      | inl h' =>
        dsimp only at hr
        rw [if_neg hid] at hr
        exact ih (fun e' he' => hfront e' (List.mem_cons_of_mem e he')) htiles fuel hr
      | inr idx => exact absurd hr.1 hid

/-! ## The whole index -/

theorem yields_readSegment (hL : L.Describes src) (hspace : L.header.stop + 16 ≤ src.size) :
    Yields (Quiet src overflowChecks) (readSegment src.size) (.ok (L.start, src.size)) := by
  obtain ⟨hpos, hid, hat⟩ := hL.header
  have hlen := hat.len_le
  have hend := hat.body_le
  unfold Element.body at hend
  rw [hpos] at hend
  obtain ⟨il, sl, hil, hsl, hheader⟩ := parseHeader_eq_some.mp
    (hat.parse (by omega : L.header.len ≤ min 32 src.size))
  have hlong : parseHeader (src.bytes L.header.stop 16) =
      some ⟨Id.segment, L.segmentLen, L.segmentSize⟩ := by
    rw [bytes_append_of_le src L.header.stop
      (by omega : min 12 (src.size - L.header.stop) ≤ 16)]
    exact parseHeader_append _ hL.segment
  obtain ⟨il', sl', hil', hsl', hsegment⟩ := parseHeader_eq_some.mp hlong
  rw [hpos] at hil hsl
  have hstop : il + sl + L.header.size = L.header.stop := by
    unfold Element.stop Element.body
    rw [hpos, Nat.zero_add, show L.header.len = il + sl from hheader]
  have hstart : L.header.stop + il' + sl' = L.start := by
    unfold Layout.start
    rw [Nat.add_assoc, show L.segmentLen = il' + sl' from hsegment]
  unfold readSegment
  refine yields_bind (yields_readAt hsize (by omega)) ?_
  rw [hil]
  refine yields_bind (yields_pure _) ?_
  dsimp only [Element.header]
  rw [if_neg (not_not.mpr hid)]
  refine yields_bind (by rw [hsl]; exact yields_pure _) ?_
  dsimp only [Element.header]
  rw [hstop]
  refine yields_bind (yields_readAt hsize hspace) ?_
  rw [hil']
  refine yields_bind (yields_pure _) ?_
  dsimp only
  rw [if_neg (not_not.mpr rfl)]
  refine yields_bind (by rw [hsl']; exact yields_pure _) ?_
  dsimp only
  rw [hstart]
  have hends := hL.ends
  cases hsegmentSize : L.segmentSize with
  | none => exact yields_pure _
  | some n =>
    have hn := hends n hsegmentSize
    dsimp only
    rw [hn, if_pos hsize]
    exact yields_pure _

/-- The index that is read knows where the segment starts and has its first cluster,
    if that is not within sixteen bytes of the end. -/
theorem ensures_mkvReadIndex (hL : L.Describes src) {front rest : List Top} {c : Cluster}
    (htop : L.top = front ++ .cluster c :: rest) (hfront : ∀ t ∈ front, t.cluster? = none)
    (hspace : c.element.pos + 16 ≤ src.size) :
    Ensures (Quiet src overflowChecks) (mkvReadIndex fns src.size)
      (MkvIndex.Found L.start c.element.pos) := by
  have hmem : Top.cluster c ∈ L.top := by
    rw [htop]
    exact List.mem_append_right _ List.mem_cons_self
  have hc := (hL.clusters c hmem).id
  have htiles := hL.tiles
  rw [htop, List.map_append, List.map_cons] at htiles
  have hothers : ∀ e ∈ front.map Top.element, e.id ≠ Id.cluster := by
    intro e he
    obtain ⟨t, ht, rfl⟩ := List.mem_map.mp he
    cases t with
    | other e => exact hL.others e (htop ▸ List.mem_append_left _ ht)
    | cluster c' => cases hfront _ ht
  have hle : L.start ≤ c.element.pos :=
    htiles.le_pos c.element (List.mem_append_right _ List.mem_cons_self)
  have hsegment : L.header.stop + 16 ≤ src.size := by
    unfold Layout.start at hle
    omega
  unfold mkvReadIndex
  refine ensures_bind (ensures_of_yields (yields_readSegment hsize hL hsegment)) ?_
  rintro _ rfl
  dsimp only
  rw [Nat.min_self]
  exact ensures_hunt hsize hc hothers hspace htiles _
    ⟨rfl, fun v hv => absurd hv List.not_mem_nil, rfl, rfl⟩

end Kahawai.Media.Subindex
