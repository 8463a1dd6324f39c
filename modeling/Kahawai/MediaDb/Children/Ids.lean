import Kahawai.MediaDb.Children.Pages
import Kahawai.MediaDb.Slots
import Kahawai.MediaDb.Stored

/-!
# Child identities

`ChildId` of `crates/kahawai-mediadb/src/children.rs` (lines 22–75) and the request that opens a
child by its identity (lines 562–576). Which texts `ulid::Ulid::from_string` accepts is a
parameter.

Results:
* `parse_iff`: `parse` reads the canonical spellings of the identities that can be named, and
  nothing else.
* `children_open`: every listed child can be opened.
-/

namespace Kahawai.MediaDb

open Kahawai.Core Kahawai.Core.Text Kahawai.Lib

/-- The texts that `ulid::Ulid::from_string` accepts: digits and letters. -/
structure Ulids where
  accepts : Text → Bool
  no_colon : ∀ s, accepts s = true → ':' ∉ s

/-- `struct ChildId`. -/
structure ChildId where
  parent : Text
  position : ChildPosition
  deriving DecidableEq

/-- `ChildId::encode`. -/
def ChildId.encode (id : ChildId) : Text := id.position.encode id.parent

/-- Why `str::parse::<u32>` fails. -/
def parseU32Error (s : Text) : Text :=
  let digits := (stripPrefixChar (· = '+') s).getD s
  if s.isEmpty then lit "cannot parse integer from empty string"
  else if 2 ^ 32 ≤ digitsValue (digits.takeWhile isAsciiDigit) then
    lit "number too large to fit in target type"
  else lit "invalid digit found in string"

/-- `s.parse()?`. -/
def parseNumber (s : Text) : Except ChildError ℕ :=
  match parseU32 s with
  | some n => .ok n
  | none => .error (.refused (parseU32Error s))

/-- The closure `opt` of `ChildId::parse`. -/
def parseOption (s : Text) : Except ChildError (Option ℕ) :=
  if s = lit "u" then .ok none else (parseNumber s).map some

/-- `ensure!`. -/
def ensure (cond : Bool) (message : String) : Except ChildError Unit :=
  if cond then .ok () else .error (.refused (lit message))

/-- The position in the parts of an identity. -/
def parsePosition (ulid : Ulids) : List Text → Except ChildError ChildPosition
  | [_, _, kind, group, rest] =>
    if kind = lit "e" then do
      let season ← parseOption group
      let episode ← parseNumber rest
      .ok (.episode season episode)
    else if kind = lit "t" then do
      let disc ← parseOption group
      let track ← parseNumber rest
      ensure (disc ≠ some 0 && track > 0) "invalid track position"
      .ok (.track disc track)
    else if kind = lit "u" then do
      let disc ← parseOption group
      ensure (disc ≠ some 0) "invalid disc"
      ensure (ulid.accepts rest) "invalid entry ID"
      .ok (.unnumberedTrack disc rest)
    else .error (.refused (lit "invalid child ID"))
  | _ => .error (.refused (lit "invalid child ID"))

/-- `ChildId::parse`. -/
def ChildId.parse (ulid : Ulids) (value : Text) : Except ChildError ChildId := do
  let p := split (· = ':') value
  ensure (4 ≤ p.length && p.getD 0 [] = lit "child1") "invalid child ID"
  ensure (ulid.accepts (p.getD 1 [])) "invalid parent ID"
  let position ← parsePosition ulid p
  let result : ChildId := ⟨p.getD 1 [], position⟩
  ensure (result.encode = value) "noncanonical child ID"
  .ok result

/-! ## Positions that can be named -/

variable (ulid : Ulids)

/-- The positions that an identity can name. -/
def ChildPosition.Named : ChildPosition → Prop
  | .episode season n => IsWord season ∧ n < 2 ^ 32
  | .track disc n => (IsWord disc ∧ disc ≠ some 0) ∧ 0 < n ∧ n < 2 ^ 32
  | .unnumberedTrack disc entryId => (IsWord disc ∧ disc ≠ some 0) ∧ ulid.accepts entryId = true

/-- An identity of an item and a position of it. -/
structure ChildId.Valid (id : ChildId) : Prop where
  parent : ulid.accepts id.parent = true
  position : id.position.Named ulid

variable {ulid}

/-! ## Spelling -/

theorem colon_not_mem_optionText (o : Option ℕ) : ':' ∉ optionText o := by
  cases o with
  | none => decide
  | some n => exact not_mem_ofNat (by decide)

theorem optionText_some_ne (n : ℕ) : optionText (some n) ≠ lit "u" := by
  intro h
  have hmem : 'u' ∈ ofNat n := by
    show 'u' ∈ optionText (some n)
    rw [h]
    decide
  exact not_mem_ofNat (by decide) hmem

/-- The kind of a position, its group and the rest. -/
def ChildPosition.parts : ChildPosition → Text × Option ℕ × Text
  | .episode season n => (lit "e", season, ofNat n)
  | .track disc n => (lit "t", disc, ofNat n)
  | .unnumberedTrack disc entryId => (lit "u", disc, entryId)

theorem encode_eq (id : ChildId) :
    id.encode = [':'].intercalate [lit "child1", id.parent, id.position.parts.1,
      optionText id.position.parts.2.1, id.position.parts.2.2] := by
  obtain ⟨parent, position⟩ := id
  cases position <;>
    simp [ChildId.encode, ChildPosition.encode, ChildPosition.parts, List.intercalate, lit]

/-- The parts of a spelling. -/
theorem split_encode {id : ChildId} (h : id.Valid ulid) :
    split (· = ':') id.encode = [lit "child1", id.parent, id.position.parts.1,
      optionText id.position.parts.2.1, id.position.parts.2.2] := by
  have hkind : ':' ∉ id.position.parts.1 := by
    cases id.position <;> simp [ChildPosition.parts, lit]
  have hrest : ':' ∉ id.position.parts.2.2 := by
    have hposition := h.position
    cases hcase : id.position with
    | episode season n => exact not_mem_ofNat (by decide)
    | track disc n => exact not_mem_ofNat (by decide)
    | unnumberedTrack disc entryId =>
      rw [hcase] at hposition
      exact ulid.no_colon _ hposition.2
  rw [encode_eq]
  refine List.splitOn_intercalate ':' ?_ (List.cons_ne_nil _ _)
  simp only [List.mem_cons, List.not_mem_nil, or_false, forall_eq_or_imp, forall_eq]
  exact ⟨by decide, ulid.no_colon _ h.parent, hkind, colon_not_mem_optionText _, hrest⟩

theorem parseNumber_ofNat {n : ℕ} (h : n < 2 ^ 32) : parseNumber (ofNat n) = .ok n := by
  simp only [parseNumber, parseU32, parseUnsigned_ofNat h]

theorem parseOption_optionText {o : Option ℕ} (h : IsWord o) : parseOption (optionText o) = .ok o := by
  cases o with
  | none => rfl
  | some n =>
    rw [parseOption, if_neg (optionText_some_ne n)]
    show (parseNumber (ofNat n)).map some = .ok (some n)
    rw [parseNumber_ofNat (isWord_some.mp h)]
    rfl

theorem parsePosition_parts {parent : Text} {p : ChildPosition} (h : p.Named ulid) :
    parsePosition ulid [lit "child1", parent, p.parts.1, optionText p.parts.2.1, p.parts.2.2] =
      .ok p := by
  cases p with
  | episode season n =>
    simp [parsePosition, ChildPosition.parts, parseOption_optionText h.1, parseNumber_ofNat h.2,
      bind, Except.bind]
  | track disc n =>
    obtain ⟨⟨hword, hdisc⟩, hpos, hlt⟩ := h
    have hkind : lit "t" ≠ lit "e" := by decide
    simp [parsePosition, ChildPosition.parts, parseOption_optionText hword, parseNumber_ofNat hlt,
      bind, Except.bind, ensure, hdisc, hpos, hkind]
  | unnumberedTrack disc entryId =>
    obtain ⟨⟨hword, hdisc⟩, hentry⟩ := h
    have hkind : lit "u" ≠ lit "e" := by decide
    have hkind' : lit "u" ≠ lit "t" := by decide
    simp [parsePosition, ChildPosition.parts, parseOption_optionText hword, bind, Except.bind,
      ensure, hdisc, hentry, hkind, hkind']

/-- A spelling is read. -/
theorem parse_encode {id : ChildId} (h : id.Valid ulid) : ChildId.parse ulid id.encode = .ok id := by
  simp only [ChildId.parse, split_encode h]
  simp [ensure, bind, Except.bind, h.parent, parsePosition_parts h.position]

/-! ## What is read -/

theorem ensure_ok {cond : Bool} {message : String} {x : Unit} (h : ensure cond message = .ok x) :
    cond = true := by
  unfold ensure at h
  split_ifs at h with hcond
  exact hcond

theorem parseNumber_lt {s : Text} {n : ℕ} (h : parseNumber s = .ok n) : n < 2 ^ 32 := by
  unfold parseNumber at h
  split at h
  · rename_i m hm
    obtain rfl := Except.ok.inj h
    exact parseUnsigned_lt hm
  · cases h

theorem parseOption_word {s : Text} {o : Option ℕ} (h : parseOption s = .ok o) : IsWord o := by
  unfold parseOption at h
  split_ifs at h
  · obtain rfl := Except.ok.inj h
    exact isWord_none
  · cases hn : parseNumber s with
    | error e =>
      rw [hn] at h
      cases h
    | ok n =>
      rw [hn] at h
      obtain rfl := Except.ok.inj h
      exact isWord_some.mpr (parseNumber_lt hn)

theorem parsePosition_named {parts : List Text} {p : ChildPosition}
    (h : parsePosition ulid parts = .ok p) : p.Named ulid := by
  unfold parsePosition at h
  split at h
  · split at h
    · obtain ⟨season, hseason, h⟩ := bind_eq_ok.mp h
      obtain ⟨n, hn, h⟩ := bind_eq_ok.mp h
      obtain rfl := Except.ok.inj h
      exact ⟨parseOption_word hseason, parseNumber_lt hn⟩
    split at h
    · obtain ⟨disc, hdisc, h⟩ := bind_eq_ok.mp h
      obtain ⟨n, hn, h⟩ := bind_eq_ok.mp h
      obtain ⟨_, hcheck, h⟩ := bind_eq_ok.mp h
      obtain rfl := Except.ok.inj h
      have hcheck := ensure_ok hcheck
      simp only [ne_eq, decide_not, Bool.and_eq_true, Bool.not_eq_true', decide_eq_false_iff_not,
        decide_eq_true_eq] at hcheck
      exact ⟨⟨parseOption_word hdisc, hcheck.1⟩, hcheck.2, parseNumber_lt hn⟩
    split at h
    · obtain ⟨disc, hdisc, h⟩ := bind_eq_ok.mp h
      obtain ⟨_, hzero, h⟩ := bind_eq_ok.mp h
      obtain ⟨_, hentry, h⟩ := bind_eq_ok.mp h
      obtain rfl := Except.ok.inj h
      exact ⟨⟨parseOption_word hdisc, of_decide_eq_true (ensure_ok hzero)⟩, ensure_ok hentry⟩
    · cases h
  · cases h

/-- What is read is a valid identity, and its spelling is the text. -/
theorem encode_of_parse {value : Text} {id : ChildId} (h : ChildId.parse ulid value = .ok id) :
    id.Valid ulid ∧ id.encode = value := by
  unfold ChildId.parse at h
  dsimp only at h
  obtain ⟨_, -, h⟩ := bind_eq_ok.mp h
  obtain ⟨_, hparent, h⟩ := bind_eq_ok.mp h
  obtain ⟨p, hposition, h⟩ := bind_eq_ok.mp h
  obtain ⟨_, hencode, h⟩ := bind_eq_ok.mp h
  obtain rfl := Except.ok.inj h
  exact ⟨⟨ensure_ok hparent, parsePosition_named hposition⟩,
    of_decide_eq_true (ensure_ok hencode)⟩

/-- `parse` reads the spellings of the valid identities, and nothing else. -/
theorem parse_iff {value : Text} {id : ChildId} :
    ChildId.parse ulid value = .ok id ↔ id.Valid ulid ∧ id.encode = value := by
  constructor
  · exact encode_of_parse
  · rintro ⟨hvalid, rfl⟩
    exact parse_encode hvalid

/-! ## Opening a child -/

/-- The rows of the items of one library; `read_item` names the item as it was asked for. -/
structure Library where
  items : Text → Option Source
  parent_id : ∀ parent x, items parent = some x → x.parent.id = parent

/-- `Store::library_child`. -/
def Library.libraryChild (ulid : Ulids) (library : Library) (child : Text) :
    Except ChildError LibraryChildDetail := do
  let key ← ChildId.parse ulid child
  match library.items key.parent with
  | none => .error .notFound
  | some x =>
    let (child, renditions) ← x.snapshot.resolve key.position
    .ok ⟨child, x.parent, renditions⟩

/-- `Store::library_children`. -/
def Library.libraryChildren (library : Library) (parent : Text) (offset limit : ℕ)
    (filter : ChildFilter) : Except ChildError LibraryChildren :=
  match library.items parent with
  | some x => x.libraryChildren offset limit filter
  | none => .error .notFound

variable (u : Unicode)

/-- The rows of a library: the entries are those of the media tables of its collections, and
every identity is generated by `ulid`. -/
structure Library.Over (library : Library) (ulid : Ulids) : Prop where
  parents : ∀ parent x, library.items parent = some x → ulid.accepts parent = true
  ids : ∀ parent x, library.items parent = some x → ∀ e ∈ x.entries, ulid.accepts e.id = true
  rows : ∀ parent x, library.items parent = some x → ∀ e ∈ x.entries,
    ∃ mediaType t, Reached u mediaType t ∧ ∃ row ∈ t.entries, row.kind = e.kind

/-- The positions of a stored entry can be named. -/
theorem named_of_mem_positions {e : MediaEntry} (hkind : e.kind.Stored)
    (hid : ulid.accepts e.id = true) {p : ChildPosition} (h : p ∈ e.positions) : p.Named ulid := by
  unfold MediaEntry.positions at h
  obtain ⟨hwords, hpositive, hcoverage⟩ := hkind
  cases hcase : e.kind with
  | movie => simp [hcase] at h
  | episode spans =>
    rw [hcase] at hwords
    simp only [hcase, Finset.mem_biUnion, List.mem_toFinset, Finset.mem_image, Finset.mem_Icc] at h
    obtain ⟨s, hs, n, ⟨-, hlast⟩, rfl⟩ := h
    obtain ⟨hseason, hepisode, hend⟩ := hwords s hs
    have hspan : s.last < 2 ^ 32 := hend.getD hepisode
    exact ⟨hseason, by omega⟩
  | track disc track =>
    rw [hcase] at hwords hpositive
    obtain ⟨hdisc, htrack⟩ := hwords
    simp only [positiveNumbers, Bool.and_eq_true, Option.all_eq_true] at hpositive
    have hzero : disc ≠ some 0 := by
      rintro rfl
      exact absurd (hpositive.1 0 rfl) (by decide)
    cases track with
    | none =>
      simp only [hcase, Finset.mem_singleton] at h
      subst h
      exact ⟨⟨hdisc, hzero⟩, hid⟩
    | some n =>
      simp only [hcase, Finset.mem_singleton] at h
      subst h
      exact ⟨⟨hdisc, hzero⟩, of_decide_eq_true (hpositive.2 n rfl), isWord_some.mp htrack⟩

/-- What a resolved position is. -/
theorem resolve_child {s : Snapshot} {p : ChildPosition} {c : LibraryChild}
    {renditions : List MediaEntry} (h : s.resolve p = .ok (c, renditions)) :
    c.id = p.encode s.parent.id ∧ renditions ≠ [] := by
  unfold Snapshot.resolve at h
  split at h
  · cases h
  · cases Except.ok.inj h
    exact ⟨rfl, List.cons_ne_nil _ _⟩

variable {u}

/-- A listed child is a covered position of the item, resolved. -/
theorem listed_child {x : Source} {offset limit : ℕ} {filter : ChildFilter} {page : LibraryChildren}
    (h : x.libraryChildren offset limit filter = .ok page) {c : LibraryChild}
    (hc : c ∈ page.children) : (∃ e ∈ x.entries, c.position ∈ e.positions) ∧
      ∃ renditions, x.snapshot.resolve c.position = .ok (c, renditions) := by
  have hlimit : 1 ≤ limit ∧ limit ≤ 200 := by
    by_contra hlimit
    rw [Source.libraryChildren, if_pos hlimit] at h
    cases h
  have hfilter : filter.Accepted := by
    refine not_or.mp fun hfilter => ?_
    rw [Source.libraryChildren, if_neg (not_not.mpr hlimit), if_pos hfilter] at h
    cases h
  obtain ⟨page', hpage, hexact⟩ := libraryChildren_exact (x := x) hfilter hlimit offset
  obtain rfl : page' = page := Except.ok.inj (hpage.symm.trans h)
  have hslice : c.position ∈ (((x.positions filter).sort (· ≤ ·)).drop offset).take limit := by
    rw [← hexact.children]
    exact List.mem_map_of_mem hc
  have hmem : c.position ∈ (x.positions filter).sort (· ≤ ·) :=
    List.mem_of_mem_drop (List.mem_of_mem_take hslice)
  exact ⟨(mem_sourcePositions.mp ((Finset.mem_sort _).mp hmem)).1, hexact.resolves c hc⟩

/-- Every listed child can be opened: its identity is read, and resolves under the same library
to the child, which has a rendition. Identities and their canonical spellings determine each
other. -/
theorem children_open (ulid : Ulids) {library : Library} (hover : library.Over u ulid) :
    (∀ parent offset limit filter page,
      library.libraryChildren parent offset limit filter = .ok page →
      ∀ child ∈ page.children,
        ChildId.parse ulid child.id = .ok ⟨parent, child.position⟩ ∧
        ∃ detail, library.libraryChild ulid child.id = .ok detail ∧ detail.child = child ∧
          detail.renditions ≠ []) ∧
    (∀ (value : Text) (id : ChildId),
      ChildId.parse ulid value = .ok id ↔ id.Valid ulid ∧ id.encode = value) ∧
    ∀ id id' : ChildId, id.Valid ulid → id'.Valid ulid → id.encode = id'.encode → id = id' := by
  refine ⟨fun parent offset limit filter page hpage child hchild => ?_,
    fun value id => parse_iff, fun id id' hid hid' heq => ?_⟩
  · unfold Library.libraryChildren at hpage
    split at hpage
    · rename_i x hx
      obtain ⟨⟨e, he, hposition⟩, renditions, hresolve⟩ := listed_child hpage hchild
      obtain ⟨mediaType, t, hreached, row, hrow, hkind⟩ := hover.rows parent x hx e he
      have hstored : e.kind.Stored := hkind ▸ reached_stored hreached row hrow
      obtain ⟨hid, hsome⟩ := resolve_child hresolve
      have hparse : ChildId.parse ulid child.id = .ok ⟨parent, child.position⟩ := by
        refine parse_iff.mpr ⟨⟨hover.parents parent x hx, ?_⟩, ?_⟩
        · exact named_of_mem_positions hstored (hover.ids parent x hx e he) hposition
        · rw [hid, ← library.parent_id parent x hx]
          rfl
      refine ⟨hparse, ⟨child, x.parent, renditions⟩, ?_, rfl, hsome⟩
      simp only [Library.libraryChild, hparse, bind, Except.bind, hx, hresolve]
    · cases hpage
  · have hparse := parse_encode hid
    rw [heq, parse_encode hid'] at hparse
    exact (Except.ok.inj hparse).symm

/-! ## An album without numbers -/

/-- Crockford's digits. -/
def crockford : Ulids where
  accepts s := s.length = 26 && s.all fun c => isAsciiAlphanumeric c && c ∉ lit "ILOUilou"
  no_colon s h hc := by
    have hall := List.all_eq_true.mp (Bool.and_eq_true_iff.mp h).2 ':' hc
    revert hall
    decide

/-- A track whose tags give its album. -/
def introTrack : Found :=
  ⟨lit "root", ⟨lit "Band/Live/intro.flac", by decide⟩,
    ⟨fun name => if name = lit "album" then some (lit "Live") else none, none, []⟩⟩

/-- The file of the track, probed. -/
def introTables : MediaTables := ⟨⟨[introTrack.row], by decide⟩, .empty, .empty, .empty⟩

theorem intro_stored : ∃ t, Reached Unicode.ascii .music t ∧
    ∃ row ∈ t.entries, row.kind = .track none none := by
  have hfiles : Reached Unicode.ascii .music introTables :=
    .drop .empty fun row hrow => absurd hrow (Table.not_mem_empty row)
  have hrun : ((resolveFile Unicode.ascii .music introTrack.file introTrack.media introTables).toOption.any
      fun t => t.entries.rows.any fun row => row.kind = .track none none) = true := by
    decide
  cases hresolve : resolveFile Unicode.ascii .music introTrack.file introTrack.media introTables with
  | error e =>
    rw [hresolve] at hrun
    cases hrun
  | ok t =>
    rw [hresolve] at hrun
    obtain ⟨row, hrow, hkind⟩ := List.any_eq_true.mp hrun
    exact ⟨t, .resolve introTrack.file introTrack.media hfiles hresolve, row, hrow, of_decide_eq_true hkind⟩

def liveId : Text := lit "01J8ZQ4Y7WN5T3M6K9R2B0XCDF"

def introId : Text := lit "01J8ZQ4Y7WN5T3M6K9R2B0XCDG"

/-- The album with its one track. -/
def liveAlbum : Source where
  parent := ⟨liveId, some (lit "Band")⟩
  copies := [⟨lit "01J8ZQ4Y7WN5T3M6K9R2B0XCDH",
    [⟨introId, lit "intro.flac", none, .track none none⟩], none⟩]
  ids_nodup := by decide
  forward := by decide

def liveLibrary : Library where
  items parent := if parent = liveId then some liveAlbum else none
  parent_id parent x h := by
    split_ifs at h with hparent
    obtain rfl := Option.some.inj h
    exact hparent.symm

/-- The track is listed, and is opened by the identity it is listed with. -/
theorem children_open_live :
    ∃ page, liveLibrary.libraryChildren liveId 0 50 ⟨none, none⟩ = .ok page ∧
      page.children.length = 1 ∧ ∀ child ∈ page.children,
        ∃ detail, liveLibrary.libraryChild crockford child.id = .ok detail ∧
          detail.child = child ∧ detail.renditions ≠ [] := by
  have hover : liveLibrary.Over Unicode.ascii crockford := by
    have hitems : ∀ parent x, liveLibrary.items parent = some x → parent = liveId ∧ x = liveAlbum := by
      intro parent x h
      change (if parent = liveId then some liveAlbum else none) = some x at h
      split_ifs at h with hparent
      exact ⟨hparent, (Option.some.inj h).symm⟩
    have hentries : ∀ e ∈ liveAlbum.entries, e = ⟨introId, lit "intro.flac", none, .track none none⟩ :=
      fun e he => List.mem_singleton.mp he
    refine ⟨fun parent x h => ?_, fun parent x h e he => ?_, fun parent x h e he => ?_⟩
    · rw [(hitems parent x h).1]
      decide
    · obtain ⟨-, rfl⟩ := hitems parent x h
      rw [hentries e he]
      decide
    · obtain ⟨-, rfl⟩ := hitems parent x h
      rw [hentries e he]
      obtain ⟨t, hreached, hrow⟩ := intro_stored
      exact ⟨.music, t, hreached, hrow⟩
  obtain ⟨page, hpage⟩ : ∃ page, liveLibrary.libraryChildren liveId 0 50 ⟨none, none⟩ = .ok page :=
    ⟨_, rfl⟩
  have hlength : page.children.length = 1 := by
    obtain rfl := Except.ok.inj hpage
    rfl
  exact ⟨page, hpage, hlength, fun child hchild =>
    ((children_open crockford hover).1 liveId 0 50 ⟨none, none⟩ page hpage child hchild).2⟩

end Kahawai.MediaDb
