import Mathlib.Data.Finset.Sort
import Mathlib.Order.Interval.Finset.Nat
import Kahawai.MediaDb.Children.State

/-!
# The covered positions

The positions that the entries of a library item cover form a finite set, in an order:
episodes, tracks, unnumbered tracks; then the groups, of which the one without a number is
the first; then the numbers.

Results:
* `mem_listed`, `pairwise_listed`, `length_listed`: the intervals of a group list its covered
  positions in order, and `count` counts them.
* `listing_eq_sort`: the groups of a snapshot list the covered positions in order.
-/

namespace Kahawai.MediaDb

open Kahawai.Core Kahawai.Lib

/-! ## Positions in order -/

def ChildPosition.group : ChildPosition → Group
  | .episode season _ => .episode season
  | .track disc _ => .track disc
  | .unnumberedTrack disc _ => .unnumbered disc

/-- The group, then the number or the entry. -/
def ChildPosition.key : ChildPosition → Group ×ₗ ℕ ×ₗ Text
  | .episode season n => toLex (.episode season, toLex (n, []))
  | .track disc n => toLex (.track disc, toLex (n, []))
  | .unnumberedTrack disc entryId => toLex (.unnumbered disc, toLex (0, entryId))

theorem ChildPosition.key_injective : Function.Injective ChildPosition.key := by
  intro p q h
  cases p <;> cases q <;> simp_all [ChildPosition.key]

instance : LinearOrder ChildPosition := LinearOrder.lift' ChildPosition.key ChildPosition.key_injective

theorem ChildPosition.lt_iff {p q : ChildPosition} : p < q ↔ p.key < q.key := Iff.rfl

theorem ChildPosition.lt_of_group_lt {p q : ChildPosition} (h : p.group < q.group) : p < q := by
  have hfirst : ∀ r : ChildPosition, (ofLex r.key).1 = r.group := by
    intro r
    cases r <;> rfl
  rw [ChildPosition.lt_iff, Prod.Lex.lt_iff]
  exact Or.inl (by rw [hfirst, hfirst]; exact h)

/-- The numbered position of a group. -/
def Group.position : Group → ℕ → ChildPosition
  | .episode season, n => .episode season n
  | .track disc, n => .track disc n
  | .unnumbered disc, _ => .unnumberedTrack disc []

/-- Episodes and numbered tracks. -/
def Group.IsNumbered (g : Group) : Prop := ∀ disc, g ≠ .unnumbered disc

theorem Group.position_lt {g : Group} (h : g.IsNumbered) {m n : ℕ} (hlt : m < n) :
    g.position m < g.position n := by
  rw [ChildPosition.lt_iff]
  cases g with
  | unnumbered disc => exact absurd rfl (h disc)
  | episode season => simp [Group.position, ChildPosition.key, Prod.Lex.lt_iff, hlt]
  | track disc => simp [Group.position, ChildPosition.key, Prod.Lex.lt_iff, hlt]

theorem unnumberedTrack_lt {disc : Option ℕ} {a b : Text} (h : a < b) :
    ChildPosition.unnumberedTrack disc a < .unnumberedTrack disc b := by
  rw [ChildPosition.lt_iff]
  simp [ChildPosition.key, Prod.Lex.lt_iff, h]

/-! ## The covered positions -/

/-- The positions of one entry. -/
def MediaEntry.positions (e : MediaEntry) : Finset ChildPosition :=
  match e.kind with
  | .movie => ∅
  | .episode spans =>
    spans.toFinset.biUnion fun s => (Finset.Icc s.episode s.last).image (.episode s.season)
  | .track disc (some n) => {.track disc n}
  | .track disc none => {.unnumberedTrack disc e.id}

/-- The positions of a library item that are covered by an entry and that the filter allows. -/
def Source.positions (x : Source) (filter : ChildFilter) : Finset ChildPosition :=
  (x.entries.toFinset.biUnion MediaEntry.positions).filter fun p => filter.allowed p.group

variable {x : Source} {g : Group} {n : ℕ} {e : MediaEntry}

theorem mem_sourcePositions {filter : ChildFilter} {p : ChildPosition} :
    p ∈ x.positions filter ↔ (∃ e ∈ x.entries, p ∈ e.positions) ∧ filter.allowed p.group = true := by
  simp [Source.positions]

/-- `contains` decides what an entry covers. -/
theorem contains_iff {p : ChildPosition} : Snapshot.contains e p = true ↔ p ∈ e.positions := by
  unfold Snapshot.contains MediaEntry.positions
  cases e.kind with
  | movie => cases p <;> simp
  | episode spans =>
    cases p with
    | episode season n =>
      simp only [List.any_eq_true, Bool.and_eq_true, decide_eq_true_eq, Finset.mem_biUnion,
        List.mem_toFinset, Finset.mem_image, Finset.mem_Icc, ChildPosition.episode.injEq]
      constructor
      · rintro ⟨s, hs, ⟨hseason, hfirst⟩, hlast⟩
        exact ⟨s, hs, n, ⟨hfirst, hlast⟩, hseason, rfl⟩
      · rintro ⟨s, hs, m, ⟨hfirst, hlast⟩, hseason, rfl⟩
        exact ⟨s, hs, ⟨hseason, hfirst⟩, hlast⟩
    | _ => simp
  | track disc m =>
    cases m <;> cases p <;>
      simp only [Bool.and_eq_true, decide_eq_true_eq, Finset.mem_singleton, reduceCtorEq,
        ChildPosition.track.injEq, ChildPosition.unnumberedTrack.injEq]
    all_goals exact and_congr eq_comm eq_comm

/-- The numbered positions of an entry are what it adds to the ranges. -/
theorem position_mem_positions (hg : g.IsNumbered) :
    g.position n ∈ e.positions ↔ ∃ i, (g, i) ∈ e.spans ∧ i.1 ≤ n ∧ n ≤ i.2 := by
  unfold MediaEntry.positions MediaEntry.spans
  cases g with
  | unnumbered disc => exact absurd rfl (hg disc)
  | episode season =>
    cases e.kind with
    | movie => simp
    | episode spans =>
      simp only [Group.position, Finset.mem_biUnion, List.mem_toFinset, Finset.mem_image, Finset.mem_Icc,
        ChildPosition.episode.injEq, List.mem_map, Prod.mk.injEq, Group.episode.injEq]
      constructor
      · rintro ⟨s, hs, m, hm, hseason, rfl⟩
        exact ⟨(s.episode, s.last), ⟨s, hs, hseason, rfl⟩, hm⟩
      · rintro ⟨i, ⟨s, hs, hseason, rfl⟩, hn⟩
        exact ⟨s, hs, n, hn, hseason, rfl⟩
    | track disc m => cases m <;> simp [Group.position]
  | track disc =>
    cases e.kind with
    | movie => simp
    | episode spans => simp [Group.position]
    | track disc' m =>
      cases m with
      | none => simp [Group.position]
      | some m =>
        simp only [Group.position, Finset.mem_singleton, ChildPosition.track.injEq, List.mem_singleton,
          Prod.mk.injEq, Group.track.injEq]
        constructor
        · rintro ⟨rfl, rfl⟩
          exact ⟨_, ⟨rfl, rfl⟩, Nat.le_refl _, Nat.le_refl _⟩
        · rintro ⟨_, ⟨rfl, rfl⟩, hfirst, hlast⟩
          exact ⟨rfl, Nat.le_antisymm hlast hfirst⟩

theorem unnumbered_mem_positions {disc : Option ℕ} {entryId : Text} :
    .unnumberedTrack disc entryId ∈ e.positions ↔ (.unnumbered disc, entryId) ∈ e.unnumbered := by
  unfold MediaEntry.positions MediaEntry.unnumbered
  cases e.kind with
  | movie => simp
  | episode spans => simp
  | track disc' m => cases m <;> simp

/-! ## The ranges of a snapshot -/

instance : Std.Total intervalOrder where
  total a b := by
    unfold intervalOrder
    omega

instance : IsTrans Intervals.Interval intervalOrder where
  trans a b c hab hbc := by
    unfold intervalOrder at *
    omega

section MergeSpans

variable {intervals : List Intervals.Interval}

theorem sorted_starts :
    (intervals.insertionSort intervalOrder).Pairwise fun a b : Intervals.Interval => a.1 ≤ b.1 := by
  refine (List.pairwise_insertionSort intervalOrder intervals).imp fun {a b} h => ?_
  unfold intervalOrder at h
  omega

theorem forward_insertionSort (h : Intervals.Forward intervals) :
    Intervals.Forward (intervals.insertionSort intervalOrder) := by
  intro i hi
  rw [List.mem_insertionSort] at hi
  exact h i hi

theorem forward_mergeSpans (h : Intervals.Forward intervals) :
    Intervals.Forward (mergeSpans intervals) :=
  Intervals.forward_merge (forward_insertionSort h)

theorem separated_mergeSpans (h : Intervals.Forward intervals) :
    Intervals.Separated (mergeSpans intervals) :=
  Intervals.separated_merge (forward_insertionSort h) sorted_starts

theorem covers_mergeSpans (h : Intervals.Forward intervals) :
    Intervals.Covers (mergeSpans intervals) n ↔ Intervals.Covers intervals n := by
  have hmerged : Intervals.Covers (mergeSpans intervals) n ↔
      Intervals.Covers (intervals.insertionSort intervalOrder) n :=
    Intervals.mem_merge (forward_insertionSort h) sorted_starts
  rw [hmerged]
  unfold Intervals.Covers
  simp only [List.mem_insertionSort]

end MergeSpans

/-- The intervals of a group, as they are read. -/
def Source.intervals (x : Source) (g : Group) : List Intervals.Interval :=
  SortedMap.valuesOf g (x.entries.flatMap MediaEntry.spans)

/-- The unnumbered entries of a group, as they are read. -/
def Source.unnumberedIds (x : Source) (g : Group) : List Text :=
  SortedMap.valuesOf g (x.entries.flatMap MediaEntry.unnumbered)

theorem isNumbered_of_mem_spans {i : Intervals.Interval} (h : (g, i) ∈ e.spans) : g.IsNumbered := by
  intro disc hg
  rw [hg] at h
  unfold MediaEntry.spans at h
  cases hkind : e.kind with
  | movie => simp [hkind] at h
  | episode spans => simp [hkind] at h
  | track disc m => cases m <;> simp [hkind] at h

theorem unnumbered_of_mem {id : Text} (h : (g, id) ∈ e.unnumbered) :
    id = e.id ∧ ∃ disc, g = .unnumbered disc := by
  unfold MediaEntry.unnumbered at h
  cases hkind : e.kind with
  | movie => simp [hkind] at h
  | episode spans => simp [hkind] at h
  | track disc m =>
    cases m with
    | some m => simp [hkind] at h
    | none =>
      simp only [hkind, List.mem_singleton, Prod.mk.injEq] at h
      exact ⟨h.2, disc, h.1⟩

theorem mem_intervals {i : Intervals.Interval} :
    i ∈ x.intervals g ↔ ∃ e ∈ x.entries, (g, i) ∈ e.spans := by
  rw [Source.intervals, SortedMap.mem_valuesOf, List.mem_flatMap]

theorem mem_unnumberedIds {id : Text} :
    id ∈ x.unnumberedIds g ↔ ∃ e ∈ x.entries, (g, id) ∈ e.unnumbered := by
  rw [Source.unnumberedIds, SortedMap.mem_valuesOf, List.mem_flatMap]

theorem forward_intervals : Intervals.Forward (x.intervals g) := by
  intro i hi
  obtain ⟨e, he, hspan⟩ := mem_intervals.mp hi
  have hforward := x.forward e he
  unfold MediaEntry.spans at hspan
  cases hkind : e.kind with
  | movie => simp [hkind] at hspan
  | episode spans =>
    rw [hkind] at hforward
    simp only [hkind, List.mem_map, Prod.mk.injEq] at hspan
    obtain ⟨s, hs, -, rfl⟩ := hspan
    exact hforward s hs
  | track disc m =>
    cases m with
    | none => simp [hkind] at hspan
    | some m =>
      simp only [hkind, List.mem_singleton, Prod.mk.injEq] at hspan
      rw [hspan.2]

theorem sorted_unnumbered : SortedMap.Sorted x.snapshot.unnumbered :=
  SortedMap.sorted_map _ (SortedMap.sorted_collect _)

theorem get?_unnumbered : SortedMap.get? g x.snapshot.unnumbered =
    if x.unnumberedIds g = [] then none else some ((x.unnumberedIds g).insertionSort (· ≤ ·)) := by
  have hmap : SortedMap.get? g x.snapshot.unnumbered =
      (SortedMap.get? g (SortedMap.collect (x.entries.flatMap MediaEntry.unnumbered))).map
        fun ids => ids.insertionSort (· ≤ ·) := SortedMap.get?_map _
  rw [hmap, SortedMap.get?_collect]
  unfold Source.unnumberedIds
  split_ifs <;> rfl

theorem sorted_ranges : SortedMap.Sorted x.snapshot.ranges :=
  SortedMap.sorted_foldl_upsert _ _ (SortedMap.sorted_map _ (SortedMap.sorted_collect _))

/-- The ranges after the groups of unnumbered tracks are added. -/
theorem get?_ranges : SortedMap.get? g x.snapshot.ranges =
    if x.unnumberedIds g ≠ [] then some []
    else if x.intervals g = [] then none
    else some (mergeSpans (x.intervals g)) := by
  have hsorted : SortedMap.Sorted ((SortedMap.collect (x.entries.flatMap MediaEntry.spans)).map
      fun e => (e.1, mergeSpans e.2)) := SortedMap.sorted_map _ (SortedMap.sorted_collect _)
  have hkeys : g ∈ x.snapshot.unnumbered.map Prod.fst ↔ x.unnumberedIds g ≠ [] := by
    have hget := get?_unnumbered (x := x) (g := g)
    rw [List.mem_map]
    constructor
    · rintro ⟨⟨g', ids⟩, hmem, rfl⟩ hnil
      rw [if_pos hnil] at hget
      rw [(SortedMap.mem_iff_get? sorted_unnumbered).mp hmem] at hget
      cases hget
    · intro hne
      rw [if_neg hne] at hget
      exact ⟨_, (SortedMap.mem_iff_get? sorted_unnumbered).mpr hget, rfl⟩
  have hbase : SortedMap.get? g ((SortedMap.collect (x.entries.flatMap MediaEntry.spans)).map
      fun e => (e.1, mergeSpans e.2)) =
        if x.intervals g = [] then none else some (mergeSpans (x.intervals g)) := by
    rw [SortedMap.get?_map, SortedMap.get?_collect]
    unfold Source.intervals
    split_ifs <;> rfl
  by_cases hne : x.unnumberedIds g ≠ []
  · rw [if_pos hne]
    exact SortedMap.get?_foldl_upsert_of_mem _ hsorted (hkeys.mpr hne)
  · rw [if_neg hne, ← hbase]
    exact SortedMap.get?_foldl_upsert_of_not_mem _ hsorted fun hmem => hne (hkeys.mp hmem)

/-! ## The listing -/

/-- The positions of one group of a snapshot. -/
def Snapshot.listed (s : Snapshot) (r : Group × List Intervals.Interval) : List ChildPosition :=
  match r.1 with
  | .unnumbered disc => ((SortedMap.get? r.1 s.unnumbered).getD []).map (.unnumberedTrack disc)
  | g => (Intervals.numbers r.2).map g.position

/-- The positions of the groups that a filter allows. -/
def Snapshot.listing (s : Snapshot) (filter : ChildFilter) (ranges : List (Group × List Intervals.Interval)) :
    List ChildPosition :=
  (ranges.filter fun r => filter.allowed r.1).flatMap s.listed

variable {is : List Intervals.Interval} {p : ChildPosition}

theorem group_position (g : Group) (n : ℕ) : (g.position n).group = g := by
  cases g <;> rfl

theorem exists_position (h : p.group.IsNumbered) : ∃ n, p = p.group.position n := by
  cases p with
  | episode season n => exact ⟨n, rfl⟩
  | track disc n => exact ⟨n, rfl⟩
  | unnumberedTrack disc entryId => exact absurd rfl (h disc)

theorem isNumbered_or (g : Group) : g.IsNumbered ∨ ∃ disc, g = .unnumbered disc := by
  cases g with
  | unnumbered disc => exact Or.inr ⟨disc, rfl⟩
  | _ => exact Or.inl nofun

theorem unnumberedIds_eq_nil (hg : g.IsNumbered) : x.unnumberedIds g = [] := by
  refine List.eq_nil_iff_forall_not_mem.mpr fun id hid => ?_
  obtain ⟨e, -, he⟩ := mem_unnumberedIds.mp hid
  obtain ⟨-, disc, hdisc⟩ := unnumbered_of_mem he
  exact hg disc hdisc

theorem listed_of_isNumbered {s : Snapshot} (hg : g.IsNumbered) :
    s.listed (g, is) = (Intervals.numbers is).map g.position := by
  cases g with
  | unnumbered disc => exact absurd rfl (hg disc)
  | _ => rfl

/-- The intervals of a numbered group. -/
theorem ranges_of_isNumbered (hg : g.IsNumbered) :
    (g, is) ∈ x.snapshot.ranges ↔ x.intervals g ≠ [] ∧ is = mergeSpans (x.intervals g) := by
  rw [SortedMap.mem_iff_get? sorted_ranges, get?_ranges, unnumberedIds_eq_nil hg, if_neg (not_not.mpr rfl)]
  split_ifs with hnil
  · simp [hnil]
  · simp [hnil, eq_comm]

/-- The groups of unnumbered tracks have none. -/
theorem ranges_of_unnumbered {disc : Option ℕ} :
    (Group.unnumbered disc, is) ∈ x.snapshot.ranges ↔ x.unnumberedIds (.unnumbered disc) ≠ [] ∧ is = [] := by
  have hnone : x.intervals (.unnumbered disc) = [] := by
    refine List.eq_nil_iff_forall_not_mem.mpr fun i hi => ?_
    obtain ⟨e, -, he⟩ := mem_intervals.mp hi
    exact isNumbered_of_mem_spans he disc rfl
  rw [SortedMap.mem_iff_get? sorted_ranges, get?_ranges, hnone, if_pos rfl]
  split_ifs with hne
  · rw [Option.some.injEq]
    exact ⟨fun h => ⟨hne, h.symm⟩, fun h => h.2.symm⟩
  · exact ⟨nofun, fun h => absurd h.1 hne⟩

theorem getD_unnumbered (g : Group) : (SortedMap.get? g x.snapshot.unnumbered).getD [] =
    (x.unnumberedIds g).insertionSort (· ≤ ·) := by
  rw [get?_unnumbered]
  split_ifs with hnil
  · rw [hnil]
    rfl
  · rfl

theorem listed_of_unnumbered {disc : Option ℕ} : x.snapshot.listed (.unnumbered disc, is) =
    ((x.unnumberedIds (.unnumbered disc)).insertionSort (· ≤ ·)).map (.unnumberedTrack disc) :=
  congrArg (List.map _) (getD_unnumbered _)

/-- The numbers of a group are covered by its entries. -/
theorem covers_intervals (hg : g.IsNumbered) :
    Intervals.Covers (x.intervals g) n ↔ ∃ e ∈ x.entries, g.position n ∈ e.positions := by
  unfold Intervals.Covers
  simp only [mem_intervals, position_mem_positions hg]
  constructor
  · rintro ⟨i, ⟨e, he, hi⟩, hn⟩
    exact ⟨e, he, i, hi, hn⟩
  · rintro ⟨e, he, i, hi, hn⟩
    exact ⟨i, ⟨e, he, hi⟩, hn⟩

/-- A group lists its covered positions. -/
theorem mem_listed (h : (g, is) ∈ x.snapshot.ranges) :
    p ∈ x.snapshot.listed (g, is) ↔ p.group = g ∧ ∃ e ∈ x.entries, p ∈ e.positions := by
  rcases isNumbered_or g with hg | ⟨disc, rfl⟩
  · obtain ⟨-, rfl⟩ := (ranges_of_isNumbered hg).mp h
    have hforward := forward_mergeSpans (forward_intervals (x := x) (g := g))
    rw [listed_of_isNumbered hg, List.mem_map]
    simp only [Intervals.mem_numbers hforward, covers_mergeSpans forward_intervals, covers_intervals hg]
    constructor
    · rintro ⟨n, hn, rfl⟩
      exact ⟨group_position g n, hn⟩
    · rintro ⟨rfl, hp⟩
      obtain ⟨n, hn⟩ := exists_position hg
      exact ⟨n, hn ▸ hp, hn.symm⟩
  · rw [listed_of_unnumbered, List.mem_map]
    simp only [List.mem_insertionSort, mem_unnumberedIds, ← unnumbered_mem_positions]
    constructor
    · rintro ⟨id, hid, rfl⟩
      exact ⟨rfl, hid⟩
    · rintro ⟨hgroup, hp⟩
      cases p with
      | unnumberedTrack disc' id =>
        cases hgroup
        exact ⟨id, hp, rfl⟩
      | _ => cases hgroup

/-- No entry is listed twice. -/
theorem nodup_unnumberedIds (x : Source) (g : Group) : (x.unnumberedIds g).Nodup := by
  have hids : ∀ entries : List MediaEntry, ((entries.flatMap MediaEntry.unnumbered).map Prod.snd).Sublist
      (entries.map MediaEntry.id) := by
    intro entries
    induction entries with
    | nil => exact List.Sublist.refl _
    | cons e entries ih =>
      rw [List.flatMap_cons, List.map_append, List.map_cons]
      have hhead : (e.unnumbered.map Prod.snd).Sublist [e.id] := by
        unfold MediaEntry.unnumbered
        split
        · exact List.Sublist.refl _
        · exact List.nil_sublist _
      exact hhead.append ih
  have hvalues : (x.unnumberedIds g).Sublist
      ((x.entries.flatMap MediaEntry.unnumbered).map Prod.snd) :=
    List.Sublist.map _ List.filter_sublist
  exact (x.ids_nodup.sublist (hids _)).sublist hvalues

/-- A group lists its positions in order. -/
theorem pairwise_listed (h : (g, is) ∈ x.snapshot.ranges) :
    (x.snapshot.listed (g, is)).Pairwise (· < ·) := by
  rcases isNumbered_or g with hg | ⟨disc, rfl⟩
  · obtain ⟨-, rfl⟩ := (ranges_of_isNumbered hg).mp h
    rw [listed_of_isNumbered hg, List.pairwise_map]
    exact (Intervals.pairwise_numbers (forward_mergeSpans forward_intervals)
      (separated_mergeSpans forward_intervals)).imp (Group.position_lt hg)
  · rw [listed_of_unnumbered, List.pairwise_map]
    have hsorted := List.pairwise_insertionSort (· ≤ ·) (x.unnumberedIds (.unnumbered disc))
    have hnodup : ((x.unnumberedIds (.unnumbered disc)).insertionSort (· ≤ ·)).Nodup :=
      (List.perm_insertionSort _ _).nodup_iff.mpr (nodup_unnumberedIds x _)
    exact (hsorted.and hnodup).imp fun h => unnumberedTrack_lt (lt_of_le_of_ne h.1 h.2)

/-- `count` counts what a group lists. -/
theorem length_listed (h : (g, is) ∈ x.snapshot.ranges) :
    (x.snapshot.listed (g, is)).length = x.snapshot.count g := by
  rcases isNumbered_or g with hg | ⟨disc, rfl⟩
  · have hget := (SortedMap.mem_iff_get? sorted_ranges).mp h
    rw [listed_of_isNumbered hg, List.length_map, Intervals.length_numbers]
    cases g with
    | unnumbered disc => exact absurd rfl (hg disc)
    | _ =>
      unfold Snapshot.count
      dsimp only
      rw [hget]
      rfl
  · rw [Snapshot.listed, List.length_map]
    rfl

/-- A covered position has a group. -/
theorem exists_range (h : ∃ e ∈ x.entries, p ∈ e.positions) : ∃ is, (p.group, is) ∈ x.snapshot.ranges := by
  rcases isNumbered_or p.group with hg | ⟨disc, hdisc⟩
  · obtain ⟨n, hn⟩ := exists_position hg
    refine ⟨_, (ranges_of_isNumbered hg).mpr ⟨?_, rfl⟩⟩
    obtain ⟨i, hi, -⟩ := (covers_intervals (n := n) hg).mpr (hn ▸ h)
    exact List.ne_nil_of_mem hi
  · refine ⟨[], ?_⟩
    rw [hdisc]
    refine ranges_of_unnumbered.mpr ⟨?_, rfl⟩
    obtain ⟨e, he, hp⟩ := h
    cases p with
    | unnumberedTrack disc' id =>
      cases hdisc
      exact List.ne_nil_of_mem (mem_unnumberedIds.mpr ⟨e, he, unnumbered_mem_positions.mp hp⟩)
    | _ => cases hdisc

/-- The snapshot lists the covered positions in order. -/
theorem listing_eq_sort (x : Source) (filter : ChildFilter) :
    x.snapshot.listing filter x.snapshot.ranges = (x.positions filter).sort (· ≤ ·) := by
  have hsorted : (x.snapshot.listing filter x.snapshot.ranges).Pairwise (· < ·) := by
    unfold Snapshot.listing
    rw [List.pairwise_flatMap]
    refine ⟨fun r hr => pairwise_listed (List.mem_filter.mp hr).1, ?_⟩
    refine (sorted_ranges.sublist List.filter_sublist).imp_of_mem ?_
    intro r r' hr hr' hlt q hq q' hq'
    have hgroup := (mem_listed (List.mem_filter.mp hr).1).mp hq
    have hgroup' := (mem_listed (List.mem_filter.mp hr').1).mp hq'
    exact ChildPosition.lt_of_group_lt (by rw [hgroup.1, hgroup'.1]; exact hlt)
  have hmem : ∀ q, q ∈ x.snapshot.listing filter x.snapshot.ranges ↔ q ∈ x.positions filter := by
    intro q
    unfold Snapshot.listing
    rw [mem_sourcePositions, List.mem_flatMap]
    constructor
    · rintro ⟨r, hr, hq⟩
      obtain ⟨hrange, hallowed⟩ := List.mem_filter.mp hr
      obtain ⟨hgroup, hcovered⟩ := (mem_listed hrange).mp hq
      exact ⟨hcovered, by rw [hgroup]; exact hallowed⟩
    · rintro ⟨hcovered, hallowed⟩
      obtain ⟨is, his⟩ := exists_range hcovered
      exact ⟨_, List.mem_filter.mpr ⟨his, hallowed⟩, (mem_listed his).mpr ⟨rfl, hcovered⟩⟩
  have hfinset : x.positions filter = (x.snapshot.listing filter x.snapshot.ranges).toFinset := by
    ext q
    rw [List.mem_toFinset, hmem]
  have hnodup : (x.snapshot.listing filter x.snapshot.ranges).Nodup := hsorted.imp ne_of_lt
  rw [hfinset]
  exact ((List.toFinset_sort _ hnodup).mpr (hsorted.imp le_of_lt)).symm

end Kahawai.MediaDb
