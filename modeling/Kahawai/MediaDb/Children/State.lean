import Mathlib.Data.List.Lex
import Mathlib.Data.Char
import Mathlib.Data.Prod.Lex
import Mathlib.Order.Basic
import Kahawai.Lib.Intervals
import Kahawai.Lib.SortedMap
import Kahawai.MediaDb.Occurrence

/-!
# Child listing

The episodes and tracks of a library item (`crates/kahawai-mediadb/src/children.rs`). What
the entries of its copies cover is kept as merged intervals, which are counted and paged
without being expanded.

A snapshot is read from the rows of one transaction, here a `Source`. The rows are in the
order in which the statements return them. Of a child the description, the provenance and
the providers of its fields are left out, and so is the artwork of a group. Sums and
positions are natural numbers: `u64` holds a total of fewer than 2^32 groups.
-/

namespace Kahawai.MediaDb

open Kahawai.Core Kahawai.Lib

/-! ## Positions -/

/-- `enum ChildPosition`. -/
inductive ChildPosition
  | episode (season : Option ℕ) (episode : ℕ)
  | track (disc : Option ℕ) (track : ℕ)
  | unnumberedTrack (disc : Option ℕ) (entryId : Text)
  deriving DecidableEq

/-- `enum Group`. -/
inductive Group
  | episode (season : Option ℕ)
  | track (disc : Option ℕ)
  | unnumbered (disc : Option ℕ)
  deriving DecidableEq

/-- The order of `Option<u32>`: `None` is first. -/
def optionRank : Option ℕ → ℕ
  | none => 0
  | some n => n + 1

/-- The derived order of the groups. -/
def Group.key : Group → ℕ ×ₗ ℕ
  | .episode season => toLex (0, optionRank season)
  | .track disc => toLex (1, optionRank disc)
  | .unnumbered disc => toLex (2, optionRank disc)

theorem optionRank_injective : Function.Injective optionRank := by
  intro a b h
  cases a <;> cases b <;> simp_all [optionRank]

theorem Group.key_injective : Function.Injective Group.key := by
  intro a b h
  cases a <;> cases b <;> simp [Group.key] at h ⊢ <;> exact optionRank_injective h

instance : LinearOrder Group := LinearOrder.lift' Group.key Group.key_injective

def optionText (n : Option ℕ) : Text := (n.map Text.ofNat).getD (lit "u")

/-- `ChildId::encode`. -/
def ChildPosition.encode (parent : Text) (position : ChildPosition) : Text :=
  let suffix := match position with
    | .episode season n => lit "e:" ++ optionText season ++ lit ":" ++ Text.ofNat n
    | .track disc n => lit "t:" ++ optionText disc ++ lit ":" ++ Text.ofNat n
    | .unnumberedTrack disc entryId => lit "u:" ++ optionText disc ++ lit ":" ++ entryId
  lit "child1:" ++ parent ++ lit ":" ++ suffix

/-! ## Rows -/

/-- `struct MediaEntry` with the fields of its data that are read. -/
structure MediaEntry where
  id : Text
  title : Text
  artist : Option Text
  kind : EntryKind
  deriving DecidableEq

/-- `struct ProviderChildPosition`. -/
structure ProviderChildPosition where
  absolute : Option ℕ
  season : Option ℕ
  episode : Option ℕ
  disc : Option ℕ
  track : Option ℕ
  deriving DecidableEq

/-- `struct ProviderChild` without its description. -/
structure ProviderChild where
  title : Text
  position : ProviderChildPosition
  deriving DecidableEq

/-- `struct Copy`; of a catalogue its children. -/
structure Copy where
  id : Text
  entries : List MediaEntry
  children : Option (List ProviderChild)
  deriving DecidableEq

/-- What is read of a `LibraryItem`. -/
structure LibraryItem where
  id : Text
  artist : Option Text
  deriving DecidableEq

/-- The last episode of a span. -/
def EpisodeSpan.last (s : EpisodeSpan) : ℕ := s.episodeEnd.getD s.episode

/-- No span is reversed. -/
def EntryKind.Forward : EntryKind → Prop
  | .episode spans => ∀ s ∈ spans, s.episode ≤ s.last
  | _ => True

instance : DecidablePred EntryKind.Forward
  | .episode spans => inferInstanceAs (Decidable (∀ s ∈ spans, s.episode ≤ s.last))
  | .movie | .track _ _ => isTrue trivial

/-- The rows of a library item: `media_entries.id` is a primary key, and `put` stores no
    reversed span. -/
structure Source where
  parent : LibraryItem
  copies : List Copy
  ids_nodup : ((copies.flatMap Copy.entries).map MediaEntry.id).Nodup
  forward : ∀ e ∈ copies.flatMap Copy.entries, e.kind.Forward

/-- All entries, copy by copy. -/
def Source.entries (x : Source) : List MediaEntry := x.copies.flatMap Copy.entries

theorem forward_of_checkCoverage {before spans : List EpisodeSpan}
    (h : checkCoverage before spans = .ok ()) : ∀ s ∈ spans, s.episode ≤ s.last := by
  induction spans generalizing before with
  | nil => exact fun s hs => absurd hs List.not_mem_nil
  | cons span spans ih =>
    unfold checkCoverage at h
    dsimp only at h
    split_ifs at h with hreversed
    intro s hs
    rcases List.mem_cons.mp hs with rfl | hs
    · exact Nat.not_lt.mp hreversed
    · exact ih h s hs

/-- What `put` lets pass is not reversed. -/
theorem forward_of_coverage {kind : EntryKind} (h : coverage kind = .ok ()) : kind.Forward := by
  cases kind with
  | episode spans => exact forward_of_checkCoverage h
  | _ => trivial

/-! ## The snapshot -/

/-- `struct Snapshot`. The disc of `unnumbered` is given by its group. -/
structure Snapshot where
  parent : LibraryItem
  copies : List Copy
  ranges : List (Group × List Intervals.Interval)
  unnumbered : List (Group × List Text)
  deriving DecidableEq

/-- What an entry adds to `ranges`. -/
def MediaEntry.spans (e : MediaEntry) : List (Group × Intervals.Interval) :=
  match e.kind with
  | .movie => []
  | .episode episodes => episodes.map fun s => (.episode s.season, (s.episode, s.last))
  | .track disc (some track) => [(.track disc, (track, track))]
  | .track _ none => []

/-- What an entry adds to `unnumbered`. -/
def MediaEntry.unnumbered (e : MediaEntry) : List (Group × Text) :=
  match e.kind with
  | .track disc none => [(.unnumbered disc, e.id)]
  | _ => []

/-- The order of `(u32, u32)`. -/
def intervalOrder (a b : Intervals.Interval) : Prop := a.1 < b.1 ∨ (a.1 = b.1 ∧ a.2 ≤ b.2)

instance : DecidableRel intervalOrder := fun _ _ => inferInstanceAs (Decidable (_ ∨ _))

/-- Sorted and merged intervals. -/
def mergeSpans (intervals : List Intervals.Interval) : List Intervals.Interval :=
  Intervals.merge (intervals.insertionSort intervalOrder)

/-- `Snapshot::read_with_catalogues` (lines 168–240). -/
def Snapshot.read (parent : LibraryItem) (copies : List Copy) : Snapshot :=
  let entries := copies.flatMap Copy.entries
  let ranges := (SortedMap.collect (entries.flatMap MediaEntry.spans)).map fun (group, intervals) =>
    (group, mergeSpans intervals)
  let unnumbered := (SortedMap.collect (entries.flatMap MediaEntry.unnumbered)).map
    fun (group, ids) => (group, ids.insertionSort (· ≤ ·))
  { parent, copies
    ranges := unnumbered.foldl (fun ranges (group, _) => SortedMap.upsert group (fun _ => []) ranges)
      ranges
    unnumbered }

def Source.snapshot (x : Source) : Snapshot := Snapshot.read x.parent x.copies

/-- Why a request fails. -/
inductive ChildError
  | refused (message : Text)
  | notFound
  deriving DecidableEq

/-- `struct ChildGroup` without its artwork. -/
structure ChildGroup where
  kind : Text
  number : Option ℕ
  total : ℕ
  deriving DecidableEq

/-- `struct LibraryChild` without its metadata. -/
structure LibraryChild where
  id : Text
  parentId : Text
  position : ChildPosition
  title : Text
  artist : Option Text
  representativeId : Text
  sourceCount : ℕ
  deriving DecidableEq

namespace Snapshot

/-- `Snapshot::count`. -/
def count (s : Snapshot) (group : Group) : ℕ :=
  match group with
  | .unnumbered _ => ((SortedMap.get? group s.unnumbered).getD []).length
  | _ => (((SortedMap.get? group s.ranges).getD []).map Intervals.count).sum

/-- The kind and the number of a group in the answer. -/
def groupLabel : Group → Text × Option ℕ
  | .episode season => (lit "episode", season)
  | .track disc | .unnumbered disc => (lit "track", disc)

/-- `Snapshot::groups`: numbered and unnumbered tracks of a disc are one group. -/
def groups (s : Snapshot) : List ChildGroup :=
  s.ranges.foldl
    (fun groups (group, _) =>
      let (kind, number) := groupLabel group
      match groups.findIdx? fun g => g.kind = kind && g.number = number with
      | some i => groups.modify i fun g => { g with total := g.total + s.count group }
      | none => groups ++ [⟨kind, number, s.count group⟩])
    []

/-- `Snapshot::contains`. -/
def contains (entry : MediaEntry) (position : ChildPosition) : Bool :=
  match entry.kind, position with
  | .episode episodes, .episode season episode =>
    episodes.any fun s => s.season = season && s.episode ≤ episode && episode ≤ s.last
  | .track disc (some track), .track disc' track' => disc = disc' && track = track'
  | .track disc none, .unnumberedTrack disc' entryId => disc = disc' && entry.id = entryId
  | _, _ => false

/-- A provider's child describes the position. -/
def describes (position : ChildPosition) (d : ProviderChild) : Bool :=
  match position with
  | .episode (some season) episode =>
    d.position.season = some season && d.position.episode = some episode
  | .episode none episode =>
    d.position.absolute = some episode ||
      (d.position.season.isNone && d.position.episode = some episode)
  | .track disc track =>
    d.position.track = some track && (disc.isNone || d.position.disc = disc)
  | .unnumberedTrack _ _ => false

/-- The title of a child that no provider names: an episode of a file with several gets a
    number. -/
def fallbackTitle (entry : MediaEntry) (position : ChildPosition) : Text :=
  match position, entry.kind with
  | .episode _ episode, .episode episodes =>
    if 1 < episodes.length ∨ episodes.any fun s => s.episodeEnd.any fun last => last ≠ s.episode then
      lit "Episode " ++ Text.ofNat episode
    else entry.title
  | _, _ => entry.title

/-- The entries that contain a position, each with its copy. -/
def renditions (s : Snapshot) (position : ChildPosition) : List (Copy × MediaEntry) :=
  s.copies.flatMap fun copy => (copy.entries.filter (contains · position)).map fun e => (copy, e)

/-- `Snapshot::resolve`. -/
def resolve (s : Snapshot) (position : ChildPosition) :
    Except ChildError (LibraryChild × List MediaEntry) :=
  match s.renditions position with
  | [] => .error .notFound
  | (copy, entry) :: rest =>
    let matched := match (copy.children.getD []).filter (describes position) with
      | [d] => some d
      | _ => none
    let title := ((matched.map ProviderChild.title).filter fun t => Text.trim t ≠ []).getD
      (fallbackTitle entry position)
    .ok
      ({ id := position.encode s.parent.id
         parentId := s.parent.id
         position
         title
         artist := entry.artist.or s.parent.artist
         representativeId := copy.id
         sourceCount := rest.length + 1 },
        entry :: rest.map Prod.snd)

end Snapshot

/-! ## Pages -/

/-- `struct ChildFilter`; `some none` is the group without a number. -/
structure ChildFilter where
  season : Option (Option ℕ)
  disc : Option (Option ℕ)
  deriving DecidableEq

/-- The groups that a filter allows. -/
def ChildFilter.allowed (filter : ChildFilter) : Group → Bool
  | .episode season => filter.disc.isNone && filter.season.all (· = season)
  | .track disc | .unnumbered disc => filter.season.isNone && filter.disc.all (· = disc)

/-- `struct LibraryChildren`. -/
structure LibraryChildren where
  children : List LibraryChild
  total : ℕ
  groups : List ChildGroup
  offset : ℕ
  limit : ℕ
  deriving DecidableEq

namespace Snapshot

/-- The loop over the intervals of a group (lines 724–747). -/
def pageIntervals (s : Snapshot) (limit : ℕ) (position : ℕ → ChildPosition) :
    List Intervals.Interval → (skip : ℕ) → List LibraryChild → Except ChildError (ℕ × List LibraryChild)
  | [], skip, children => .ok (skip, children)
  | (start, stop) :: rest, skip, children =>
    let count := stop - start + 1
    if count ≤ skip then s.pageIntervals limit position rest (skip - count) children
    else do
      let first := start + skip
      let take := min (stop - first + 1) (limit - children.length)
      let more ← (List.range' first take).mapM fun n => Prod.fst <$> s.resolve (position n)
      s.pageIntervals limit position rest 0 (children ++ more)

/-- The loop over the groups (lines 690–749). -/
def pageGroups (s : Snapshot) (filter : ChildFilter) (limit : ℕ) :
    List (Group × List Intervals.Interval) → (skip total : ℕ) → List LibraryChild →
      Except ChildError (ℕ × List LibraryChild)
  | [], _, total, children => .ok (total, children)
  | (group, intervals) :: rest, skip, total, children =>
    let count := s.count group
    if !filter.allowed group then s.pageGroups filter limit rest skip total children
    else if count ≤ skip then s.pageGroups filter limit rest (skip - count) (total + count) children
    else
      match group with
      | .unnumbered disc => do
        let ids := (SortedMap.get? group s.unnumbered).getD []
        let more ← ((ids.drop skip).take (limit - children.length)).mapM fun id =>
          Prod.fst <$> s.resolve (.unnumberedTrack disc id)
        s.pageGroups filter limit rest 0 (total + count) (children ++ more)
      | .episode season => do
        let (skip, children) ← s.pageIntervals limit (.episode season) intervals skip children
        s.pageGroups filter limit rest skip (total + count) children
      | .track disc => do
        let (skip, children) ← s.pageIntervals limit (.track disc) intervals skip children
        s.pageGroups filter limit rest skip (total + count) children

end Snapshot

/-- `Store::library_children`. -/
def Source.libraryChildren (x : Source) (offset limit : ℕ) (filter : ChildFilter) :
    Except ChildError LibraryChildren :=
  if ¬ (1 ≤ limit ∧ limit ≤ 200) then .error (.refused (lit "invalid child page size"))
  else if (filter.season.isSome ∧ filter.disc.isSome) ∨ filter.disc = some (some 0) then
    .error (.refused (lit "invalid child group"))
  else do
    let s := x.snapshot
    let (total, children) ← s.pageGroups filter limit s.ranges offset 0 []
    .ok { children, total, groups := s.groups, offset, limit }

/-! ## The next episode -/

/-- `struct LibraryChildDetail`. -/
structure LibraryChildDetail where
  child : LibraryChild
  parent : LibraryItem
  renditions : List MediaEntry
  deriving DecidableEq

/-- The comparison of watched episodes that decides membership, under a name of its own. -/
instance lawfulBEqWatched : LawfulBEq (Option ℕ × ℕ) := inferInstance

namespace Snapshot

/-- The loop over the intervals of a season (lines 602–617). -/
def unfinishedIn (season : Option ℕ) (after : Option ℕ × ℕ) (finished : List (Option ℕ × ℕ)) :
    List Intervals.Interval → Option ℕ
  | [] => none
  | (start, stop) :: rest =>
    let n := if season = after.1 then max start (after.2 + 1) else start
    match (List.range' n (stop + 1 - n)).find? fun n => (season, n) ∉ finished with
    | some n => some n
    | none => unfinishedIn season after finished rest

/-- The loop over the groups (lines 595–618). -/
def nextPosition (after : Option ℕ × ℕ) (finished : List (Option ℕ × ℕ)) :
    List (Group × List Intervals.Interval) → Option ChildPosition
  | [] => none
  | (.episode season, intervals) :: rest =>
    if optionRank season < optionRank after.1 then nextPosition after finished rest
    else
      match unfinishedIn season after finished intervals with
      | some n => some (.episode season n)
      | none => nextPosition after finished rest
  | _ :: rest => nextPosition after finished rest

end Snapshot

/-- `Store::next_episode`. -/
def Source.nextEpisode (x : Source) (after : Option ℕ × ℕ) (finished : List (Option ℕ × ℕ)) :
    Except ChildError (Option LibraryChildDetail) :=
  match Snapshot.nextPosition after finished x.snapshot.ranges with
  | none => .ok none
  | some position => do
    let (child, renditions) ← x.snapshot.resolve position
    .ok (some ⟨child, x.snapshot.parent, renditions⟩)

end Kahawai.MediaDb
