import Mathlib.Data.List.Infix
import Kahawai.Media.Subindex.Quiet
import Kahawai.Media.Subindex.Walk

/-!
# The layout of a Matroska file

A `Layout` says where the elements of a file are: the EBML header, the segment, its
children, and the children of each cluster. `Layout.Describes` says that the bytes
of a source are such a file. Every size is known, a cluster has one timestamp before
its blocks, possibly after other children, and a `BlockGroup` has one block.

What the parsers make of the bytes is expressed by the layout:
`Tiles.child_eq` for one child, `firstTimestamp_eq` for a prefix of a cluster, and
`Source.block`, the subtitle block of an element.
-/

namespace Kahawai.Media.Subindex

open Kahawai.Lib

/-! ## Elements -/

/-- An element of the file: its id, where it starts, the length of its header and the
    size of its body. -/
structure Element where
  id : ℕ
  pos : ℕ
  len : ℕ
  size : ℕ
  deriving DecidableEq

namespace Element

def body (e : Element) : ℕ := e.pos + e.len

def stop (e : Element) : ℕ := e.body + e.size

def header (e : Element) : Header := ⟨e.id, e.len, some e.size⟩

/-- The element is a child of one that ends at `stop`. A header has at most twelve
    bytes. -/
def IsAt (src : Source) (stop : ℕ) (e : Element) : Prop :=
  parseHeader (src.bytes e.pos (min 12 (stop - e.pos))) = some e.header ∧ e.stop ≤ stop

/-- The element contains blocks. -/
def isBlock (e : Element) : Bool := e.id = Id.simpleBlock || e.id = Id.blockGroup

end Element

/-- The bytes of an element's body. -/
def Source.bodyOf (src : Source) (e : Element) : Bytes := src.bytes e.body e.size

deriving instance DecidableEq for Header

instance (src : Source) (stop : ℕ) (e : Element) : Decidable (e.IsAt src stop) :=
  inferInstanceAs (Decidable (_ ∧ _))

/-- Elements that follow each other from `p` to `stop`. -/
def Tiles (src : Source) : ℕ → ℕ → List Element → Prop
  | p, stop, [] => p = stop
  | p, stop, e :: es => e.pos = p ∧ e.IsAt src stop ∧ Tiles src e.stop stop es

instance decidableTiles (src : Source) : ∀ (p stop : ℕ) (es : List Element),
    Decidable (Tiles src p stop es)
  | p, stop, [] => inferInstanceAs (Decidable (p = stop))
  | p, stop, e :: es =>
    haveI := decidableTiles src e.stop stop es
    inferInstanceAs (Decidable (e.pos = p ∧ e.IsAt src stop ∧ Tiles src e.stop stop es))

/-- The children of an element that was read. -/
inductive Children : Bytes → List (ℕ × Bytes) → Prop
  | nil : Children [] []
  | cons {data v rest : Bytes} {id : ℕ} {cs : List (ℕ × Bytes)} :
    readChild data = .ok (id, v, rest) → Children rest cs → Children data ((id, v) :: cs)

/-- A group of one block. -/
def OneBlock (body : Bytes) : Prop :=
  ∃ cs, Children body cs ∧ (cs.filter fun c => c.1 = Id.block).length = 1

/-! ## Clusters and files -/

structure Cluster where
  element : Element
  /-- What stands before the timestamp. -/
  before : List Element
  timestamp : Element
  after : List Element
  deriving DecidableEq

structure Cluster.Describes (src : Source) (c : Cluster) : Prop where
  id : c.element.id = Id.cluster
  tiles : Tiles src c.element.body c.element.stop (c.before ++ c.timestamp :: c.after)
  before : ∀ e ∈ c.before, e.id ≠ Id.clusterTimestamp ∧ e.isBlock = false
  timestamp : c.timestamp.id = Id.clusterTimestamp
  after : ∀ e ∈ c.after, e.id ≠ Id.clusterTimestamp ∧
    (e.id = Id.blockGroup → OneBlock (src.bodyOf e))

/-- The timestamp of a cluster. -/
def Source.timestamp (src : Source) (c : Cluster) : ℕ := uint (src.bodyOf c.timestamp)

/-- A child of the segment. -/
inductive Top
  | other (e : Element)
  | cluster (c : Cluster)
  deriving DecidableEq

def Top.element : Top → Element
  | .other e => e
  | .cluster c => c.element

def Top.cluster? : Top → Option Cluster
  | .other _ => none
  | .cluster c => some c

structure Layout where
  header : Element
  /-- The length of the segment's header. -/
  segmentLen : ℕ
  /-- The size of the segment, if it is known. -/
  segmentSize : Option ℕ
  top : List Top

namespace Layout

/-- Where the children of the segment start. -/
def start (L : Layout) : ℕ := L.header.stop + L.segmentLen

def clusters (L : Layout) : List Cluster := L.top.filterMap Top.cluster?

/-- The elements that contain blocks, with their clusters, in the order of the file. -/
def blocks (L : Layout) : List (Cluster × Element) :=
  L.clusters.flatMap fun c => (c.after.filter Element.isBlock).map fun e => (c, e)

/-- The source is such a file, and the segment ends with it. -/
structure Describes (L : Layout) (src : Source) : Prop where
  size : src.size < 2 ^ 64
  header : L.header.pos = 0 ∧ L.header.id = Id.ebmlHeader ∧ L.header.IsAt src src.size
  segment : parseHeader (src.bytes L.header.stop (min 12 (src.size - L.header.stop))) =
    some ⟨Id.segment, L.segmentLen, L.segmentSize⟩
  ends : ∀ n ∈ L.segmentSize, L.start + n = src.size
  tiles : Tiles src L.start src.size (L.top.map Top.element)
  others : ∀ e, Top.other e ∈ L.top → e.id ≠ Id.cluster
  clusters : ∀ c, Top.cluster c ∈ L.top → c.Describes src

end Layout

/-- The subtitle block of an element, if its track is wanted. -/
def Source.block (src : Source) (wanted : List ℕ) (e : Element) : Option SubBlock :=
  if e.id = Id.simpleBlock then subBlock (src.bodyOf e) wanted
  else if e.id = Id.blockGroup then
    match readBlockGroup wanted (src.bodyOf e) with
    | .ok b => b
    | .error _ => none
  else none

/-! ## Bytes of a source -/

variable {src : Source} {p stop n m : ℕ} {e : Element} {es es' : List Element}

@[simp] theorem length_bytes (src : Source) (p n : ℕ) : (src.bytes p n).length = n := by
  unfold Source.bytes
  rw [List.length_map, List.length_range]

theorem bytes_add (src : Source) (p n m : ℕ) :
    src.bytes p (n + m) = src.bytes p n ++ src.bytes (p + n) m := by
  unfold Source.bytes
  rw [List.range_add, List.map_append, List.map_map]
  refine congrArg _ (List.map_congr_left fun i _ => ?_)
  show src.byte (p + (n + i)) = src.byte (p + n + i)
  rw [Nat.add_assoc]

theorem bytes_append_of_le (src : Source) (p : ℕ) (h : n ≤ m) :
    src.bytes p m = src.bytes p n ++ src.bytes (p + n) (m - n) := by
  rw [← bytes_add, Nat.add_sub_cancel' h]

theorem bytes_take (src : Source) (p : ℕ) (h : n ≤ m) : (src.bytes p m).take n = src.bytes p n := by
  rw [bytes_append_of_le src p h, List.take_left' (length_bytes src p n)]

theorem bytes_drop (src : Source) (p : ℕ) (h : n ≤ m) :
    (src.bytes p m).drop n = src.bytes (p + n) (m - n) := by
  rw [bytes_append_of_le src p h, List.drop_left' (length_bytes src p n)]

/-! ## Parsers look at a prefix -/

section Prefix

variable {l : Bytes} (more : Bytes) {id il size sl : ℕ}

theorem ebmlId_append (h : ebmlId l = .ok (id, il)) : ebmlId (l ++ more) = .ok (id, il) := by
  cases l with
  | nil => cases h
  | cons first rest =>
    have hlength : (first :: rest).length ≤ (first :: rest ++ more).length := by simp
    simp only [ebmlId, List.cons_append] at h ⊢
    split at h
    · cases h
    · rename_i hlen
      simp only [not_or, not_lt] at hlen
      rw [if_neg (by simp only [not_or, not_lt]; exact ⟨hlen.1, hlen.2.trans hlength⟩),
        ← List.cons_append, List.take_append_of_le_length hlen.2]
      exact h

theorem vint_append {r : ℕ × ℕ} (h : vint l = some r) : vint (l ++ more) = some r := by
  cases l with
  | nil => cases h
  | cons first rest =>
    have hlength : (first :: rest).length ≤ (first :: rest ++ more).length := by simp
    simp only [vint, List.cons_append] at h ⊢
    split at h
    · cases h
    · rename_i hlen
      simp only [not_or, not_lt] at hlen
      have hrest : leadingZeros first + 1 - 1 ≤ rest.length := by
        have := hlen.2
        rw [List.length_cons] at this
        omega
      rw [if_neg (by simp only [not_or, not_lt]; exact ⟨hlen.1, hlen.2.trans hlength⟩),
        List.take_append_of_le_length hrest]
      exact h

theorem ebmlSize_append {r : Option ℕ × ℕ} (h : ebmlSize l = .ok r) :
    ebmlSize (l ++ more) = .ok r := by
  cases l with
  | nil => cases h
  | cons first rest =>
    simp only [ebmlSize, List.cons_append] at h ⊢
    split at h
    · cases h
    · rename_i hfirst
      rw [if_neg hfirst]
      cases hvint : vint (first :: rest) with
      | none =>
        rw [hvint] at h
        cases h
      | some r' =>
        rw [hvint] at h
        rw [← List.cons_append, vint_append more hvint]
        exact h

theorem parseHeader_eq_some {l : Bytes} {h : Header} :
    parseHeader l = some h ↔ ∃ il sl, ebmlId l = .ok (h.id, il) ∧
      ebmlSize (l.drop il) = .ok (h.size, sl) ∧ h.len = il + sl := by
  unfold parseHeader
  cases hid : ebmlId l with
  | error e => simp
  | ok r =>
    obtain ⟨id, il⟩ := r
    dsimp only
    cases hsize : ebmlSize (l.drop il) with
    | error e =>
      refine iff_of_false nofun ?_
      rintro ⟨il', sl, ⟨⟩, hsl, -⟩
      rw [hsize] at hsl
      cases hsl
    | ok r =>
      obtain ⟨size, sl⟩ := r
      constructor
      · rintro ⟨⟩
        exact ⟨il, sl, rfl, hsize, rfl⟩
      · rintro ⟨il', sl', ⟨⟩, hsl, hlen⟩
        rw [hsize] at hsl
        cases hsl
        dsimp only
        rw [← hlen]

theorem parseHeader_append {h : Header} (hl : parseHeader l = some h) :
    parseHeader (l ++ more) = some h := by
  obtain ⟨il, sl, hid, hsize, hlen⟩ := parseHeader_eq_some.mp hl
  obtain ⟨-, -, hle⟩ := ebmlId_length hid
  refine parseHeader_eq_some.mpr ⟨il, sl, ebmlId_append more hid, ?_, hlen⟩
  rw [List.drop_append_of_le_length hle]
  exact ebmlSize_append more hsize

/-- The bytes that are looked at are enough. -/
theorem ebmlId_take {k : ℕ} (h : ebmlId l = .ok (id, il)) (hk : il ≤ k) :
    ebmlId (l.take k) = .ok (id, il) := by
  obtain ⟨hpos, -, hle⟩ := ebmlId_length h
  have hlength : il ≤ (l.take k).length := by
    rw [List.length_take]
    exact le_min hk hle
  have htake : (l.take k).take il = l.take il := by rw [List.take_take, Nat.min_eq_left hk]
  cases l with
  | nil => cases h
  | cons first rest =>
    cases k with
    | zero => omega
    | succ k =>
      rw [List.take_succ_cons] at hlength htake ⊢
      simp only [ebmlId] at h ⊢
      split at h
      · cases h
      · rename_i hlen
        simp only [not_or, not_lt] at hlen
        cases h
        rw [if_neg (by simp only [not_or, not_lt]; exact ⟨hlen.1, hlength⟩), htake]

theorem ebmlSize_take {k : ℕ} {r : Option ℕ} (h : ebmlSize l = .ok (r, sl)) (hk : sl ≤ k) :
    ebmlSize (l.take k) = .ok (r, sl) := by
  cases l with
  | nil => cases h
  | cons first rest =>
    simp only [ebmlSize] at h
    split at h
    · cases h
    · rename_i hfirst
      cases hvint : vint (first :: rest) with
      | none =>
        rw [hvint] at h
        cases h
      | some found =>
        obtain ⟨val, len⟩ := found
        rw [hvint] at h
        simp only [Except.ok.injEq, Prod.mk.injEq] at h
        obtain ⟨rfl, rfl⟩ := h
        simp only [vint] at hvint
        split at hvint
        · cases hvint
        · rename_i hlen
          simp only [not_or, not_lt] at hlen
          simp only [Option.some.injEq, Prod.mk.injEq] at hvint
          obtain ⟨hval, rfl⟩ := hvint
          cases k with
          | zero => omega
          | succ k =>
            have hlength : leadingZeros first + 1 ≤ (first :: rest.take k).length := by
              have := hlen.2
              rw [List.length_cons] at this ⊢
              rw [List.length_take]
              omega
            rw [List.take_succ_cons]
            simp only [ebmlSize, vint]
            rw [if_neg hfirst, if_neg (by simp only [not_or, not_lt]; exact ⟨hlen.1, hlength⟩),
              List.take_take, Nat.min_eq_left (by omega), hval]

theorem one_le_of_ebmlSize {r : Option ℕ} (h : ebmlSize l = .ok (r, sl)) : 1 ≤ sl := by
  cases l with
  | nil => cases h
  | cons first rest =>
    simp only [ebmlSize] at h
    split at h
    · cases h
    · split at h
      · cases h
      · rename_i hvint
        simp only [vint] at hvint
        split at hvint
        · cases hvint
        · cases hvint
          cases h
          omega

theorem parseHeader_take {h : Header} (hl : parseHeader l = some h) :
    parseHeader (l.take h.len) = some h := by
  obtain ⟨il, sl, hid, hsize, hlen⟩ := parseHeader_eq_some.mp hl
  have hil : il ≤ h.len := by omega
  refine parseHeader_eq_some.mpr ⟨il, sl, ebmlId_take hid hil, ?_, hlen⟩
  rw [List.drop_take]
  exact ebmlSize_take hsize (by omega)

theorem two_le_len {h : Header} (hl : parseHeader l = some h) : 2 ≤ h.len := by
  obtain ⟨il, sl, hid, hsize, hlen⟩ := parseHeader_eq_some.mp hl
  have hil := (ebmlId_length hid).1
  have hsl := one_le_of_ebmlSize hsize
  omega

end Prefix

/-- One is a prefix of the other. -/
def Comparable (l l' : Bytes) : Prop := l <+: l' ∨ l' <+: l

section Comparable

variable {l l' : Bytes}

theorem comparable_bytes (src : Source) (p n m : ℕ) : Comparable (src.bytes p n) (src.bytes p m) := by
  rcases Nat.le_total n m with h | h
  · exact Or.inl ⟨_, (bytes_append_of_le src p h).symm⟩
  · exact Or.inr ⟨_, (bytes_append_of_le src p h).symm⟩

/-- A parser that looks at a prefix finds the same in both. -/
theorem Comparable.unique {β : Type} {parse : Bytes → Option β}
    (hparse : ∀ l more b, parse l = some b → parse (l ++ more) = some b) (h : Comparable l l')
    {b b' : β} (hb : parse l = some b) (hb' : parse l' = some b') : b = b' := by
  rcases h with ⟨more, rfl⟩ | ⟨more, rfl⟩
  · rw [hparse l more b hb] at hb'
    exact Option.some.inj hb'
  · rw [hparse l' more b' hb'] at hb
    exact (Option.some.inj hb).symm

end Comparable

/-! ## Elements of a file -/

namespace Element.IsAt

theorem two_le (h : e.IsAt src stop) : 2 ≤ e.len := two_le_len h.1

theorem len_le (h : e.IsAt src stop) : e.len ≤ 12 := (parseHeader_bounds h.1).2.1

theorem size_lt (h : e.IsAt src stop) : e.size < 2 ^ 56 := (parseHeader_bounds h.1).2.2 _ rfl

theorem body_le (h : e.IsAt src stop) : e.body ≤ stop := (Nat.le_add_right _ _).trans h.2

theorem two_le_sub (h : e.IsAt src stop) : 2 ≤ stop - e.pos := by
  have hbody := h.body_le
  have htwo := h.two_le
  unfold Element.body at hbody
  omega

/-- A peek that contains the header. -/
theorem parse (h : e.IsAt src stop) (hn : e.len ≤ n) :
    parseHeader (src.bytes e.pos n) = some e.header := by
  have hshort : parseHeader (src.bytes e.pos e.len) = some e.header := by
    have hbody := h.body_le
    unfold Element.body at hbody
    have hle : e.len ≤ min 12 (stop - e.pos) := le_min h.len_le (by omega)
    rw [← bytes_take src e.pos hle]
    exact parseHeader_take h.1
  rw [bytes_append_of_le src e.pos hn]
  exact parseHeader_append _ hshort

end Element.IsAt

theorem readChild_eq_ok {data v rest : Bytes} {id : ℕ} :
    readChild data = .ok (id, v, rest) ↔ ∃ len size, parseHeader data = some ⟨id, len, some size⟩ ∧
      len + size ≤ data.length ∧ v = (data.drop len).take size ∧ rest = data.drop (len + size) := by
  unfold readChild parseHeader
  cases hid : ebmlId data with
  | error e => simp
  | ok r =>
    obtain ⟨id', il⟩ := r
    dsimp only
    cases hsize : ebmlSize (data.drop il) with
    | error e => simp
    | ok r =>
      obtain ⟨size, sl⟩ := r
      cases size with
      | none => simp
      | some size =>
        dsimp only
        split_ifs with hlt
        · refine iff_of_false nofun ?_
          rintro ⟨len, size', ⟨⟩, hle, -⟩
          omega
        · constructor
          · rintro ⟨⟩
            exact ⟨il + sl, size, rfl, not_lt.mp hlt, rfl, rfl⟩
          · rintro ⟨len, size', ⟨⟩, -, rfl, rfl⟩
            rfl

/-- The first child of a piece of the file is the element there, if it is complete. -/
theorem readChild_bytes (h : e.IsAt src stop) (hle : e.stop ≤ e.pos + n) :
    readChild (src.bytes e.pos n) =
      .ok (e.id, src.bodyOf e, src.bytes e.stop (e.pos + n - e.stop)) := by
  unfold Element.stop Element.body at hle
  refine readChild_eq_ok.mpr ⟨e.len, e.size, ?_, ?_, ?_, ?_⟩
  · exact h.parse (by omega)
  · rw [length_bytes]
    omega
  · rw [bytes_drop src e.pos (by omega : e.len ≤ n), bytes_take src _ (by omega)]
    rfl
  · rw [bytes_drop src e.pos (by omega : e.len + e.size ≤ n)]
    unfold Element.stop Element.body
    rw [Nat.add_assoc, Nat.add_sub_add_left]

/-- A piece that ends inside the element there has no complete child. -/
theorem readChild_bytes_error (h : e.IsAt src stop) (hlt : e.pos + n < e.stop) :
    ∃ error, readChild (src.bytes e.pos n) = .error error := by
  cases hchild : readChild (src.bytes e.pos n) with
  | error error => exact ⟨error, rfl⟩
  | ok child =>
    obtain ⟨id, v, rest⟩ := child
    obtain ⟨len, size, hparse, hle, -, -⟩ := readChild_eq_ok.mp hchild
    have hheader : (⟨id, len, some size⟩ : Header) = e.header :=
      (comparable_bytes src e.pos n e.len).unique (fun _ more _ hl => parseHeader_append more hl)
        hparse (h.parse le_rfl)
    rw [length_bytes] at hle
    unfold Element.header at hheader
    obtain ⟨-, rfl, hsize⟩ := Header.mk.injEq .. ▸ hheader
    cases hsize
    unfold Element.stop Element.body at hlt
    omega

/-- The elements of a piece lie behind its start. -/
theorem Tiles.le_pos {es : List Element} {p : ℕ} (h : Tiles src p stop es) : ∀ e ∈ es, p ≤ e.pos := by
  induction es generalizing p with
  | nil => exact fun _ he => absurd he List.not_mem_nil
  | cons e es ih =>
    obtain ⟨rfl, -, htiles⟩ := h
    intro e' he'
    rcases List.mem_cons.mp he' with rfl | he'
    · exact le_rfl
    · have hle := ih htiles e' he'
      unfold Element.stop Element.body at hle
      omega

/-! ## The timestamp in a prefix -/

theorem firstTimestamp_child (data : Bytes) :
    firstTimestamp data = match readChild data with
      | .error _ => 0
      | .ok (id, v, rest) => if id = Id.clusterTimestamp then uint v else firstTimestamp rest := by
  unfold firstTimestamp
  dsimp only
  rw [walkChildren_eq]
  split_ifs with hempty
  · rw [hempty]
    rfl
  · cases readChild data with
    | error e => rfl
    | ok child =>
      dsimp only
      split_ifs
      · rfl
      · rfl

/-- The first timestamp that is complete in `n` bytes, and otherwise 0. -/
theorem firstTimestamp_eq {before after : List Element} {timestamp : Element}
    (htiles : Tiles src p stop (before ++ timestamp :: after))
    (hbefore : ∀ e ∈ before, e.id ≠ Id.clusterTimestamp)
    (htimestamp : timestamp.id = Id.clusterTimestamp) (n : ℕ) :
    firstTimestamp (src.bytes p n) =
      if timestamp.stop ≤ p + n then uint (src.bodyOf timestamp) else 0 := by
  induction before generalizing p n with
  | nil =>
    obtain ⟨rfl, hat, -⟩ := htiles
    rw [firstTimestamp_child]
    split_ifs with hle
    · rw [readChild_bytes hat hle]
      dsimp only
      rw [if_pos htimestamp]
    · obtain ⟨error, herror⟩ := readChild_bytes_error hat (not_le.mp hle)
      rw [herror]
  | cons e before ih =>
    obtain ⟨rfl, hat, htiles⟩ := htiles
    have hafter : e.stop ≤ timestamp.pos :=
      htiles.le_pos timestamp (List.mem_append_right _ List.mem_cons_self)
    rw [firstTimestamp_child]
    by_cases hle : e.stop ≤ e.pos + n
    · rw [readChild_bytes hat hle]
      dsimp only
      rw [if_neg (hbefore e List.mem_cons_self),
        ih htiles (fun e' he' => hbefore e' (List.mem_cons_of_mem e he')),
        Nat.add_sub_cancel' hle]
    · obtain ⟨error, herror⟩ := readChild_bytes_error hat (not_le.mp hle)
      have hlater : ¬ timestamp.stop ≤ e.pos + n := by
        unfold Element.stop Element.body at *
        omega
      rw [herror, if_neg hlater]

/-! ## Groups -/

/-- A walk over children that can be read is a loop over them. -/
theorem Children.walk {data : Bytes} {cs : List (ℕ × Bytes)} (h : Children data cs) {σ : Type}
    (f : σ → ℕ → Bytes → Except Error σ) (s : σ) :
    walkChildrenOk f s data = cs.foldlM (fun s c => f s c.1 c.2) s := by
  induction h generalizing s with
  | nil => rfl
  | @cons data v rest id cs hchild _ ih =>
    have hdata : data ≠ [] := by
      rintro rfl
      cases hchild
    have hrest := ih
    unfold walkChildrenOk at hrest ⊢
    dsimp only at hrest ⊢
    rw [walkChildren_eq, if_neg hdata, hchild, List.foldlM_cons]
    dsimp only
    cases hvisit : f s id v with
    | error e => rfl
    | ok s' => exact hrest s'

/-- One child of a `BlockGroup`. -/
def groupStep (wanted : List ℕ) (st : Option SubBlock × Option ℕ) (c : ℕ × Bytes) :
    Option SubBlock × Option ℕ :=
  if c.1 = Id.block then ((subBlock c.2 wanted).or st.1, st.2)
  else if c.1 = Id.blockDuration then (st.1, some (uint c.2))
  else st

theorem Children.readBlockGroup {body : Bytes} {cs : List (ℕ × Bytes)} (h : Children body cs)
    (wanted : List ℕ) :
    readBlockGroup wanted body = .ok ((cs.foldl (groupStep wanted) (none, none)).1.map fun b =>
      { b with duration := (cs.foldl (groupStep wanted) (none, none)).2 }) := by
  have hstep : (fun (st : Option SubBlock × Option ℕ) (c : ℕ × Bytes) =>
      if c.1 = Id.block then (.ok ((subBlock c.2 wanted).or st.1, st.2) : Except Error _)
      else if c.1 = Id.blockDuration then .ok (st.1, some (uint c.2))
      else .ok st) = fun st c => pure (groupStep wanted st c) := by
    funext st c
    unfold groupStep
    split_ifs
    · rfl
    · rfl
    · rfl
  unfold Kahawai.Media.Subindex.readBlockGroup
  dsimp only
  rw [h.walk, hstep, List.foldlM_pure]
  rfl

theorem OneBlock.readBlockGroup {body : Bytes} (h : OneBlock body) (wanted : List ℕ) :
    ∃ b, Kahawai.Media.Subindex.readBlockGroup wanted body = .ok b := by
  obtain ⟨cs, hcs, -⟩ := h
  exact ⟨_, hcs.readBlockGroup wanted⟩

/-- A group whose only block comes first and is not wanted has no subtitle block. -/
theorem OneBlock.skipped {body v rest : Bytes} {wanted : List ℕ} (h : OneBlock body)
    (hchild : readChild body = .ok (Id.block, v, rest)) (hskip : subBlock v wanted = none) :
    Kahawai.Media.Subindex.readBlockGroup wanted body = .ok none := by
  obtain ⟨cs, hcs, hone⟩ := h
  cases hcs with
  | nil => cases hchild
  | @cons _ v' rest' id cs hfirst hrest =>
    rw [hfirst] at hchild
    cases hchild
    rw [List.filter_cons_of_pos (by simp), List.length_cons, Nat.add_eq_right,
      List.length_eq_zero_iff, List.filter_eq_nil_iff] at hone
    have hnone : ∀ (cs : List (ℕ × Bytes)) (st : Option SubBlock × Option ℕ),
        (∀ c ∈ cs, ¬ decide (c.1 = Id.block) = true) → st.1 = none →
          (cs.foldl (groupStep wanted) st).1 = none := by
      intro cs
      induction cs with
      | nil => exact fun _ _ hst => hst
      | cons c cs ih =>
        intro st hothers hst
        refine ih _ (fun c' hc' => hothers c' (List.mem_cons_of_mem c hc')) ?_
        have hother : c.1 ≠ Id.block := of_decide_eq_false (Bool.eq_false_iff.mpr
          (hothers c List.mem_cons_self))
        unfold groupStep
        rw [if_neg hother]
        split_ifs
        · exact hst
        · exact hst
    rw [(Children.cons hfirst hrest).readBlockGroup, List.foldl_cons, hnone cs _ hone]
    · rfl
    · unfold groupStep
      rw [if_pos rfl, hskip]
      rfl

/-! ## Peeks at blocks -/

/-- A block of a track that is not wanted. -/
theorem subBlock_eq_none {body peek : Bytes} {wanted : List ℕ} (hpeek : Comparable peek body)
    (h : (blockTrack peek).all (· ∈ wanted) = false) : subBlock body wanted = none := by
  unfold blockTrack at h
  cases hvint : vint peek with
  | none =>
    rw [hvint] at h
    cases h
  | some found =>
    obtain ⟨track, len⟩ := found
    rw [hvint] at h
    have hunwanted : track ∉ wanted := by simpa using h
    unfold subBlock parseBlock
    cases hbody : vint body with
    | none => rfl
    | some found' =>
      obtain ⟨track', len'⟩ := found'
      obtain ⟨rfl, rfl⟩ := Prod.mk.inj (hpeek.unique (fun _ more _ hl => vint_append more hl) hvint hbody)
      dsimp only
      split
      · rw [if_neg fun hand => hunwanted hand.1]
        rfl
      · rfl

/-- A group that the peek skips has no subtitle block. -/
theorem readBlockGroup_eq_none {body peek : Bytes} {wanted : List ℕ} (hbody : OneBlock body)
    (hpeek : Comparable peek body) (h : groupIsOurs peek wanted = false) :
    readBlockGroup wanted body = .ok none := by
  obtain ⟨cil, psize, csl, hid, hsize, hall⟩ : ∃ cil psize csl, ebmlId peek = .ok (Id.block, cil) ∧
      ebmlSize (peek.drop cil) = .ok (psize, csl) ∧
        (blockTrack (peek.drop (cil + csl))).all (· ∈ wanted) = false := by
    unfold groupIsOurs at h
    split at h
    · cases h
    · rename_i cid cil hid
      split_ifs at h with hblock
      split at h
      · cases h
      · rename_i psize csl hsize
        split_ifs at h
        rw [not_not.mp hblock] at hid
        exact ⟨cil, psize, csl, hid, hsize, h⟩
  have hheader : parseHeader peek = some ⟨Id.block, cil + csl, psize⟩ :=
    parseHeader_eq_some.mpr ⟨cil, csl, hid, hsize, rfl⟩
  have hwhole := hbody
  obtain ⟨cs, hcs, hone⟩ := hwhole
  cases hcs with
  | nil => cases hone
  | @cons _ v rest id cs hfirst hrest =>
    obtain ⟨len, size, hparse, hle, hv, -⟩ := readChild_eq_ok.mp hfirst
    have hsame := hpeek.unique (fun _ more _ hl => parseHeader_append more hl) hheader hparse
    cases hsame
    have hdrop : Comparable (peek.drop (cil + csl)) (body.drop (cil + csl)) :=
      hpeek.imp (fun hshort => List.IsPrefix.drop hshort _) fun hshort =>
        List.IsPrefix.drop hshort _
    have htrack : Comparable (peek.drop (cil + csl)) v := by
      have hv' : v <+: body.drop (cil + csl) := hv ▸ List.take_prefix size _
      rcases hdrop with hshort | hshort
      · exact List.prefix_or_prefix_of_prefix hshort hv'
      · exact Or.inr (hv'.trans hshort)
    exact hbody.skipped hfirst (subBlock_eq_none htrack hall)

end Kahawai.Media.Subindex
