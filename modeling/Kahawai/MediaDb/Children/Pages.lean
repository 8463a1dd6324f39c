import Kahawai.Lib.Paging
import Kahawai.MediaDb.Children.Listing

/-!
# Exact pages of children

A page of children is a slice of the covered positions, although no interval is expanded to
find it: whole groups and whole intervals are skipped by their counts. The next episode is
the least one after an anchor that is not finished.

Results:
* `pageGroups_eq`: the loops of a request slice the listing.
* `nextPosition_eq`: the loops of the search find the first position of the listing.
* `children_exact`: pages, their totals, pages in a row and the next episode.
-/

namespace Kahawai.MediaDb

open Kahawai.Core Kahawai.Lib

variable {x : Source} {s : Snapshot} {p : ChildPosition} {ps : List ChildPosition}

/-! ## Resolved children -/

/-- The position resolves to the child. -/
def Snapshot.ResolvesTo (s : Snapshot) (p : ChildPosition) (c : LibraryChild) : Prop :=
  c.position = p ∧ ∃ renditions, s.resolve p = .ok (c, renditions)

/-- The children of positions, one by one. -/
def Snapshot.Resolved (s : Snapshot) (ps : List ChildPosition) (cs : List LibraryChild) : Prop :=
  List.Forall₂ s.ResolvesTo ps cs

theorem Snapshot.Resolved.append {ps' : List ChildPosition} {cs cs' : List LibraryChild}
    (h : s.Resolved ps cs) (h' : s.Resolved ps' cs') : s.Resolved (ps ++ ps') (cs ++ cs') :=
  List.rel_append h h'

theorem Snapshot.Resolved.map_position {cs : List LibraryChild} (h : s.Resolved ps cs) :
    cs.map LibraryChild.position = ps := by
  induction h with
  | nil => rfl
  | cons hhead _ ih => rw [List.map_cons, ih, hhead.1]

theorem Snapshot.Resolved.resolve {cs : List LibraryChild} (h : s.Resolved ps cs) {c : LibraryChild}
    (hc : c ∈ cs) : ∃ renditions, s.resolve c.position = .ok (c, renditions) := by
  induction h with
  | nil => cases hc
  | cons hhead _ ih =>
    rcases List.mem_cons.mp hc with rfl | hc
    · rw [hhead.1]
      exact hhead.2
    · exact ih hc

/-- A covered position resolves. -/
theorem resolve_of_covered (h : ∃ e ∈ x.entries, p ∈ e.positions) :
    ∃ c, x.snapshot.ResolvesTo p c := by
  obtain ⟨e, he, hp⟩ := h
  obtain ⟨copy, hcopy, hentry⟩ := List.mem_flatMap.mp he
  have hmem : (copy, e) ∈ x.snapshot.renditions p := by
    refine List.mem_flatMap.mpr ⟨copy, hcopy, List.mem_map.mpr ⟨e, ?_, rfl⟩⟩
    exact List.mem_filter.mpr ⟨hentry, contains_iff.mpr hp⟩
  unfold Snapshot.ResolvesTo Snapshot.resolve
  cases hrenditions : x.snapshot.renditions p with
  | nil =>
    rw [hrenditions] at hmem
    cases hmem
  | cons r rest => exact ⟨_, rfl, _, rfl⟩

/-- The children of covered positions. -/
theorem mapM_resolve (h : ∀ p ∈ ps, ∃ c, s.ResolvesTo p c) :
    ∃ cs, ps.mapM (fun p => Prod.fst <$> s.resolve p) = .ok cs ∧ s.Resolved ps cs := by
  induction ps with
  | nil => exact ⟨[], rfl, .nil⟩
  | cons p ps ih =>
    obtain ⟨c, hc⟩ := h p List.mem_cons_self
    obtain ⟨cs, hcs, hresolved⟩ := ih fun q hq => h q (List.mem_cons_of_mem _ hq)
    obtain ⟨renditions, hok⟩ := hc.2
    refine ⟨c :: cs, ?_, .cons hc hresolved⟩
    rw [List.mapM_cons, hok, hcs]
    rfl

/-! ## The loops of a request -/

/-- What is left of an interval, up to the room on the page. -/
theorem slice_range' {start stop skip room : ℕ} (h : skip < Intervals.count (start, stop)) :
    ((List.range' start (Intervals.count (start, stop))).drop skip).take room =
      List.range' (start + skip) (min (stop - (start + skip) + 1) room) := by
  rw [List.drop_range', Nat.mul_one]
  unfold Intervals.count at h ⊢
  by_cases hroom : room ≤ stop - start + 1 - skip
  · rw [List.take_range'_of_length_ge hroom]
    congr 1
    omega
  · rw [List.take_range'_of_length_le (by omega)]
    congr 1
    omega

theorem pageIntervals_eq (limit : ℕ) {position : ℕ → ChildPosition} {is : List Intervals.Interval}
    (hres : ∀ n ∈ Intervals.numbers is, ∃ c, s.ResolvesTo (position n) c) (skip : ℕ)
    (children : List LibraryChild) :
    ∃ more, s.pageIntervals limit position is skip children =
        .ok (skip - (Intervals.numbers is).length, children ++ more) ∧
      s.Resolved ((((Intervals.numbers is).map position).drop skip).take (limit - children.length))
        more := by
  induction is generalizing skip children with
  | nil =>
    refine ⟨[], by simp [Snapshot.pageIntervals, Intervals.numbers], ?_⟩
    simp only [Intervals.numbers, List.flatMap_nil, List.map_nil, List.drop_nil, List.take_nil]
    exact .nil
  | cons i rest ih =>
    obtain ⟨start, stop⟩ := i
    have hnumbers : Intervals.numbers ((start, stop) :: rest) =
        List.range' start (Intervals.count (start, stop)) ++ Intervals.numbers rest := rfl
    have hrest : ∀ n ∈ Intervals.numbers rest, ∃ c, s.ResolvesTo (position n) c := fun n hn =>
      hres n (hnumbers ▸ List.mem_append_right _ hn)
    have hlength : ((List.range' start (Intervals.count (start, stop))).map position).length =
        Intervals.count (start, stop) := by rw [List.length_map, List.length_range']
    rw [hnumbers, List.map_append, List.length_append, List.length_range']
    unfold Snapshot.pageIntervals
    change ∃ more, (if Intervals.count (start, stop) ≤ skip then _ else _) = _ ∧ _
    by_cases hskip : Intervals.count (start, stop) ≤ skip
    · obtain ⟨more, hmore, hresolved⟩ := ih hrest (skip - Intervals.count (start, stop)) children
      refine ⟨more, ?_, ?_⟩
      · rw [if_pos hskip]
        exact hmore.trans (by rw [Nat.sub_add_eq])
      · rw [Paging.slice_of_skipped (hlength.symm ▸ hskip), hlength]
        exact hresolved
    · -- the page starts, or goes on, in this interval
      have hlt := Nat.lt_of_not_le hskip
      have hslice : ((((List.range' start (Intervals.count (start, stop))).map position).drop skip).take
          (limit - children.length)) = (List.range' (start + skip)
            (min (stop - (start + skip) + 1) (limit - children.length))).map position := by
        rw [← List.map_drop, ← List.map_take, slice_range' hlt]
      have hblock : ∀ q ∈ (List.range' (start + skip)
          (min (stop - (start + skip) + 1) (limit - children.length))).map position,
            ∃ c, s.ResolvesTo q c := by
        intro q hq
        rw [← hslice] at hq
        obtain ⟨n, hn, rfl⟩ := List.mem_map.mp (List.mem_of_mem_drop (List.mem_of_mem_take hq))
        exact hres n (hnumbers ▸ List.mem_append_left _ hn)
      obtain ⟨taken, htaken, hresolved⟩ := mapM_resolve hblock
      obtain ⟨more, hmore, hresolved'⟩ := ih hrest 0 (children ++ taken)
      refine ⟨taken ++ more, ?_, ?_⟩
      · rw [if_neg hskip]
        rw [List.mapM_map, Function.comp_def] at htaken
        dsimp only
        rw [htaken]
        change s.pageIntervals limit position rest 0 (children ++ taken) = _
        refine hmore.trans ?_
        rw [List.append_assoc, Nat.zero_sub, Nat.sub_eq_zero_of_le (by omega)]
      · have hcount : taken.length = ((((List.range' start (Intervals.count (start, stop))).map
            position).drop skip).take (limit - children.length)).length := by
          rw [hslice, hresolved.length_eq]
        rw [Paging.slice_of_block (hlength.symm ▸ hlt) children.length taken.length hcount, hslice]
        rw [List.drop_zero, List.length_append] at hresolved'
        exact hresolved.append hresolved'

/-- The loop over the groups slices the listing, and counts it. -/
theorem pageGroups_eq (filter : ChildFilter) (limit : ℕ) {rs : List (Group × List Intervals.Interval)}
    (hrs : ∀ r ∈ rs, r ∈ x.snapshot.ranges) (skip total : ℕ) (children : List LibraryChild) :
    ∃ more, x.snapshot.pageGroups filter limit rs skip total children =
        .ok (total + (x.snapshot.listing filter rs).length, children ++ more) ∧
      x.snapshot.Resolved
        (((x.snapshot.listing filter rs).drop skip).take (limit - children.length)) more := by
  induction rs generalizing skip total children with
  | nil =>
    refine ⟨[], by simp [Snapshot.pageGroups, Snapshot.listing], ?_⟩
    simp only [Snapshot.listing, List.filter_nil, List.flatMap_nil, List.drop_nil, List.take_nil]
    exact .nil
  | cons r rest ih =>
    obtain ⟨g, is⟩ := r
    have hrange := hrs _ List.mem_cons_self
    have hrest : ∀ r ∈ rest, r ∈ x.snapshot.ranges := fun r hr => hrs r (List.mem_cons_of_mem _ hr)
    unfold Snapshot.pageGroups
    cases hallowed : filter.allowed g with
    | false =>
      have hlisting : x.snapshot.listing filter ((g, is) :: rest) = x.snapshot.listing filter rest := by
        simp [Snapshot.listing, hallowed]
      rw [hlisting]
      exact ih hrest skip total children
    | true =>
      have hlisting : x.snapshot.listing filter ((g, is) :: rest) =
          x.snapshot.listed (g, is) ++ x.snapshot.listing filter rest := by
        simp [Snapshot.listing, hallowed]
      have hlength := length_listed hrange
      have hres : ∀ q ∈ x.snapshot.listed (g, is), ∃ c, x.snapshot.ResolvesTo q c := fun q hq =>
        resolve_of_covered ((mem_listed hrange).mp hq).2
      rw [hlisting, List.length_append, hlength]
      dsimp only
      rw [Bool.not_true, if_neg Bool.false_ne_true]
      by_cases hskip : x.snapshot.count g ≤ skip
      · obtain ⟨more, hmore, hresolved⟩ :=
          ih hrest (skip - x.snapshot.count g) (total + x.snapshot.count g) children
        refine ⟨more, ?_, ?_⟩
        · rw [if_pos hskip, ← Nat.add_assoc]
          exact hmore
        · rw [Paging.slice_of_skipped (hlength.symm ▸ hskip), hlength]
          exact hresolved
      · have hlt := Nat.lt_of_not_le hskip
        rw [if_neg hskip]
        -- what the group adds to the page, and then the other groups
        have hgroup : ∀ taken, x.snapshot.Resolved
            (((x.snapshot.listed (g, is)).drop skip).take (limit - children.length)) taken →
            ∃ more, x.snapshot.pageGroups filter limit rest 0 (total + x.snapshot.count g)
                (children ++ taken) =
                .ok (total + (x.snapshot.count g + (x.snapshot.listing filter rest).length),
                  children ++ more) ∧
              x.snapshot.Resolved (((x.snapshot.listed (g, is) ++ x.snapshot.listing filter rest).drop
                skip).take (limit - children.length)) more := by
          intro taken hresolved
          obtain ⟨more, hmore, hresolved'⟩ := ih hrest 0 (total + x.snapshot.count g) (children ++ taken)
          refine ⟨taken ++ more, ?_, ?_⟩
          · rw [hmore, List.append_assoc, Nat.add_assoc]
          · rw [Paging.slice_of_block (hlength.symm ▸ hlt) children.length taken.length
              hresolved.length_eq.symm]
            rw [List.drop_zero, List.length_append] at hresolved'
            exact hresolved.append hresolved'
        have hnumbered : ∀ position : ℕ → ChildPosition,
            x.snapshot.listed (g, is) = (Intervals.numbers is).map position →
            ∃ more, (do
                let page ← x.snapshot.pageIntervals limit position is skip children
                x.snapshot.pageGroups filter limit rest page.1 (total + x.snapshot.count g) page.2) =
                .ok (total + (x.snapshot.count g + (x.snapshot.listing filter rest).length),
                  children ++ more) ∧
              x.snapshot.Resolved (((x.snapshot.listed (g, is) ++ x.snapshot.listing filter rest).drop
                skip).take (limit - children.length)) more := by
          intro position hlisted
          have hpositions : ∀ n ∈ Intervals.numbers is, ∃ c, x.snapshot.ResolvesTo (position n) c :=
            fun n hn => hres _ (hlisted ▸ List.mem_map_of_mem hn)
          obtain ⟨taken, htaken, hresolved⟩ := pageIntervals_eq limit hpositions skip children
          rw [hlisted, List.length_map] at hlength
          rw [Nat.sub_eq_zero_of_le (hlength.symm ▸ hlt.le)] at htaken
          rw [htaken]
          exact hgroup taken (hlisted ▸ hresolved)
        cases g with
        | episode season => exact hnumbered (.episode season) rfl
        | track disc => exact hnumbered (.track disc) rfl
        | unnumbered disc =>
          have hlisted : x.snapshot.listed (.unnumbered disc, is) =
              ((SortedMap.get? (.unnumbered disc) x.snapshot.unnumbered).getD []).map
                (.unnumberedTrack disc) := rfl
          have hids : ∀ q ∈ (((SortedMap.get? (.unnumbered disc) x.snapshot.unnumbered).getD []).drop
              skip |>.take (limit - children.length)).map (.unnumberedTrack disc),
              ∃ c, x.snapshot.ResolvesTo q c := by
            intro q hq
            rw [List.map_take, List.map_drop, ← hlisted] at hq
            exact hres q (List.mem_of_mem_drop (List.mem_of_mem_take hq))
          obtain ⟨taken, htaken, hresolved⟩ := mapM_resolve hids
          rw [List.mapM_map, Function.comp_def] at htaken
          rw [List.map_take, List.map_drop, ← hlisted] at hresolved
          dsimp only
          rw [htaken]
          exact hgroup taken hresolved

/-! ## The next episode -/

/-- An episode after the anchor that is not finished. -/
def upcoming (after : Option ℕ × ℕ) (finished : List (Option ℕ × ℕ)) : ChildPosition → Bool
  | .episode season n =>
    .episode after.1 after.2 < ChildPosition.episode season n && (season, n) ∉ finished
  | _ => false

section Next

variable {after : Option ℕ × ℕ} {finished : List (Option ℕ × ℕ)} {season : Option ℕ}

theorem episode_lt_iff {m n : ℕ} {season' : Option ℕ} :
    ChildPosition.episode season m < .episode season' n ↔
      optionRank season < optionRank season' ∨ (season = season' ∧ m < n) := by
  have hgroup : Group.episode season < .episode season' ↔ optionRank season < optionRank season' := by
    change (Group.episode season).key < (Group.episode season').key ↔ _
    simp [Group.key, Prod.Lex.lt_iff]
  rw [ChildPosition.lt_iff, Prod.Lex.lt_iff]
  simp [ChildPosition.key, hgroup, Prod.Lex.lt_iff]

theorem unfinishedIn_eq {is : List Intervals.Interval} (hforward : Intervals.Forward is)
    (hseason : ¬ optionRank season < optionRank after.1) :
    Snapshot.unfinishedIn season after finished is =
      (Intervals.numbers is).find? fun n => upcoming after finished (.episode season n) := by
  induction is with
  | nil => rfl
  | cons i rest ih =>
    obtain ⟨start, stop⟩ := i
    have hle : start ≤ stop := hforward _ List.mem_cons_self
    have hnumbers : Intervals.numbers ((start, stop) :: rest) =
        List.range' start (Intervals.count (start, stop)) ++ Intervals.numbers rest := rfl
    have hfirst : (List.range' (if season = after.1 then max start (after.2 + 1) else start)
        (stop + 1 - if season = after.1 then max start (after.2 + 1) else start)).find?
          (fun n => (season, n) ∉ finished) =
        (List.range' start (Intervals.count (start, stop))).find? fun n =>
          upcoming after finished (.episode season n) := by
      by_cases hsame : season = after.1
      · rw [if_pos hsame, ← Intervals.find?_range'_from hle]
        refine List.find?_congr fun n _ => ?_
        unfold upcoming
        rw [show decide (after.2 + 1 ≤ n) = decide (ChildPosition.episode after.1 after.2 < .episode season n) from
          decide_eq_decide.mpr (by rw [episode_lt_iff, hsame]; simp [Nat.succ_le_iff])]
      · have hlater : optionRank after.1 < optionRank season :=
          lt_of_le_of_ne (Nat.le_of_not_lt hseason) fun h => hsame (optionRank_injective h).symm
        rw [if_neg hsame, show stop + 1 - start = Intervals.count (start, stop) from
          Nat.succ_sub hle]
        refine List.find?_congr fun n _ => ?_
        have hafter : ChildPosition.episode after.1 after.2 < .episode season n :=
          episode_lt_iff.mpr (Or.inl hlater)
        simp [upcoming, hafter]
    unfold Snapshot.unfinishedIn
    dsimp only
    rw [hfirst, hnumbers, List.find?_append, ih fun j hj => hforward j (List.mem_cons_of_mem _ hj)]
    cases (List.range' start (Intervals.count (start, stop))).find? fun n =>
      upcoming after finished (.episode season n) <;> rfl

/-- The search finds the first position of the listing. -/
theorem nextPosition_eq {rs : List (Group × List Intervals.Interval)}
    (hrs : ∀ r ∈ rs, r ∈ x.snapshot.ranges) :
    Snapshot.nextPosition after finished rs =
      (x.snapshot.listing ⟨none, none⟩ rs).find? (upcoming after finished) := by
  induction rs with
  | nil => rfl
  | cons r rest ih =>
    obtain ⟨g, is⟩ := r
    have hrange := hrs _ List.mem_cons_self
    have hrest := ih fun r hr => hrs r (List.mem_cons_of_mem _ hr)
    have hlisting : x.snapshot.listing ⟨none, none⟩ ((g, is) :: rest) =
        x.snapshot.listed (g, is) ++ x.snapshot.listing ⟨none, none⟩ rest := by
      cases g <;> simp [Snapshot.listing, ChildFilter.allowed]
    rw [hlisting, List.find?_append, ← hrest]
    have hskip : (∀ q ∈ x.snapshot.listed (g, is), upcoming after finished q = false) →
        ((x.snapshot.listed (g, is)).find? (upcoming after finished)).or
          (Snapshot.nextPosition after finished rest) = Snapshot.nextPosition after finished rest := by
      intro hnone
      rw [List.find?_eq_none.mpr fun q hq => by rw [hnone q hq]; exact Bool.false_ne_true, Option.none_or]
    have hgroup : ∀ q ∈ x.snapshot.listed (g, is), q.group = g := fun q hq =>
      ((mem_listed hrange).mp hq).1
    cases g with
    | track disc =>
      refine (hskip fun q hq => ?_).symm
      have hq := hgroup q hq
      cases q <;> first | rfl | cases hq
    | unnumbered disc =>
      refine (hskip fun q hq => ?_).symm
      have hq := hgroup q hq
      cases q <;> first | rfl | cases hq
    | episode season =>
      have hforward : Intervals.Forward is := by
        obtain ⟨-, rfl⟩ := (ranges_of_isNumbered (g := .episode season) nofun).mp hrange
        exact forward_mergeSpans forward_intervals
      have hlisted : x.snapshot.listed (.episode season, is) =
          (Intervals.numbers is).map (.episode season) := rfl
      have hnext : Snapshot.nextPosition after finished ((.episode season, is) :: rest) =
          if optionRank season < optionRank after.1 then Snapshot.nextPosition after finished rest
          else
            (Snapshot.unfinishedIn season after finished is).elim
              (Snapshot.nextPosition after finished rest) fun n => some (.episode season n) := by
        conv_lhs => unfold Snapshot.nextPosition
        cases Snapshot.unfinishedIn season after finished is <;> rfl
      rw [hnext]
      by_cases hseason : optionRank season < optionRank after.1
      · rw [if_pos hseason]
        refine (hskip fun q hq => ?_).symm
        rw [hlisted] at hq
        obtain ⟨n, -, rfl⟩ := List.mem_map.mp hq
        have hnot : ¬ ChildPosition.episode after.1 after.2 < .episode season n := by
          rw [episode_lt_iff]
          rintro (hlt | ⟨heq, -⟩)
          · exact Nat.lt_asymm hseason hlt
          · exact absurd hseason (by rw [heq]; exact Nat.lt_irrefl _)
        simp [upcoming, hnot]
      · rw [if_neg hseason, hlisted, List.find?_map, unfinishedIn_eq hforward hseason]
        change _ = ((Option.map _ ((Intervals.numbers is).find? fun n =>
          upcoming after finished (.episode season n))).or _)
        cases (Intervals.numbers is).find? fun n => upcoming after finished (.episode season n) <;> rfl

end Next

/-! ## Exact answers -/

/-- The filters that the requests accept. -/
def ChildFilter.Accepted (filter : ChildFilter) : Prop :=
  ¬ (filter.season.isSome ∧ filter.disc.isSome) ∧ filter.disc ≠ some (some 0)

instance : DecidablePred ChildFilter.Accepted := fun _ => inferInstanceAs (Decidable (_ ∧ _))

/-- The page of the covered positions from the offset on. -/
structure Source.IsPage (x : Source) (filter : ChildFilter) (offset limit : ℕ)
    (page : LibraryChildren) : Prop where
  total : page.total = (x.positions filter).card
  children : page.children.map LibraryChild.position =
    (((x.positions filter).sort (· ≤ ·)).drop offset).take limit
  resolves : ∀ c ∈ page.children, ∃ renditions, x.snapshot.resolve c.position = .ok (c, renditions)

/-- The episodes after the anchor that are covered and not finished. -/
def Source.upcoming (x : Source) (after : Option ℕ × ℕ) (finished : List (Option ℕ × ℕ)) :
    Set ChildPosition :=
  {p | (∃ e ∈ x.entries, p ∈ e.positions) ∧ MediaDb.upcoming after finished p = true}

/-- The least of the upcoming episodes, or none if there is none. -/
inductive Source.IsNext (x : Source) (after : Option ℕ × ℕ) (finished : List (Option ℕ × ℕ)) :
    Option LibraryChildDetail → Prop
  | last (h : x.upcoming after finished = ∅) : x.IsNext after finished none
  | next (d : LibraryChildDetail) (hleast : IsLeast (x.upcoming after finished) d.child.position)
      (hresolve : x.snapshot.resolve d.child.position = .ok (d.child, d.renditions)) :
      x.IsNext after finished (some d)

/-- A request is answered with the slice of the covered positions that it names. -/
theorem libraryChildren_exact {filter : ChildFilter} {limit : ℕ} (hfilter : filter.Accepted)
    (hlimit : 1 ≤ limit ∧ limit ≤ 200) (offset : ℕ) :
    ∃ page, x.libraryChildren offset limit filter = .ok page ∧ x.IsPage filter offset limit page := by
  obtain ⟨children, hpage, hresolved⟩ :=
    pageGroups_eq (x := x) filter limit (fun _ hr => hr) offset 0 []
  rw [List.nil_append, Nat.zero_add] at hpage
  rw [listing_eq_sort] at hpage hresolved
  refine ⟨⟨children, ((x.positions filter).sort (· ≤ ·)).length, x.snapshot.groups, offset, limit⟩, ?_,
    Finset.length_sort _, hresolved.map_position, fun c hc => hresolved.resolve hc⟩
  · have hallowed : ¬ ((filter.season.isSome ∧ filter.disc.isSome) ∨ filter.disc = some (some 0)) :=
      not_or.mpr hfilter
    unfold Source.libraryChildren
    rw [if_neg (not_not.mpr hlimit), if_neg hallowed]
    dsimp only
    rw [hpage]
    rfl

/-- The listing without a filter. -/
theorem mem_sort_positions : p ∈ (x.positions ⟨none, none⟩).sort (· ≤ ·) ↔
    ∃ e ∈ x.entries, p ∈ e.positions := by
  rw [Finset.mem_sort, mem_sourcePositions, and_iff_left]
  cases p <;> rfl

/-- The next episode is the least upcoming one. -/
theorem nextEpisode_exact (x : Source) (after : Option ℕ × ℕ) (finished : List (Option ℕ × ℕ)) :
    ∃ next, x.nextEpisode after finished = .ok next ∧ x.IsNext after finished next := by
  have hfind : Snapshot.nextPosition after finished x.snapshot.ranges = _ :=
    nextPosition_eq (x := x) fun _ hr => hr
  rw [listing_eq_sort] at hfind
  unfold Source.nextEpisode
  rw [hfind]
  cases hp : ((x.positions ⟨none, none⟩).sort (· ≤ ·)).find? (upcoming after finished) with
  | none =>
    refine ⟨none, rfl, .last (Set.eq_empty_of_forall_notMem ?_)⟩
    rintro q ⟨hcovered, hupcoming⟩
    exact List.find?_eq_none.mp hp q (mem_sort_positions.mpr hcovered) hupcoming
  | some p =>
    have hcovered := mem_sort_positions.mp (List.mem_of_find?_eq_some hp)
    obtain ⟨c, rfl, renditions, hresolve⟩ := resolve_of_covered hcovered
    refine ⟨some ⟨c, x.snapshot.parent, renditions⟩, by dsimp only; rw [hresolve]; rfl, ?_⟩
    refine .next _ ⟨⟨hcovered, List.find?_some hp⟩, ?_⟩ hresolve
    -- the positions before the one found are not upcoming, and those after it are greater
    rintro q ⟨hq, hupcoming⟩
    obtain ⟨-, before, later, hsplit, hbefore⟩ := List.find?_eq_some_iff_append.mp hp
    have hsorted := Finset.pairwise_sort (x.positions ⟨none, none⟩) (· ≤ ·)
    have hmem := mem_sort_positions.mpr hq
    rw [hsplit] at hsorted hmem
    rcases List.mem_append.mp hmem with hmem | hmem
    · have hfalse := hbefore q hmem
      rw [hupcoming] at hfalse
      cases hfalse
    · rcases List.mem_cons.mp hmem with rfl | hmem
      · exact le_refl _
      · exact List.rel_of_pairwise_cons (List.pairwise_append.mp hsorted).2.1 hmem

/-- For every item and every filter that is accepted, a request is answered with the exact
    slice of the covered positions and with their number; pages in a row are all positions;
    and the next episode is the least covered one after the anchor that is not finished. -/
theorem children_exact (x : Source) :
    (∀ filter : ChildFilter, filter.Accepted → ∀ limit, 1 ≤ limit ∧ limit ≤ 200 →
      ∃ pages : ℕ → LibraryChildren,
        (∀ offset, x.libraryChildren offset limit filter = .ok (pages offset) ∧
          x.IsPage filter offset limit (pages offset)) ∧
        ∀ n, (x.positions filter).card ≤ n * limit →
          ((List.range n).flatMap fun k => (pages (k * limit)).children.map LibraryChild.position) =
            (x.positions filter).sort (· ≤ ·)) ∧
    ∀ after finished, ∃ next, x.nextEpisode after finished = .ok next ∧ x.IsNext after finished next := by
  refine ⟨fun filter hfilter limit hlimit => ?_, nextEpisode_exact x⟩
  choose pages hpages using libraryChildren_exact (x := x) hfilter hlimit
  refine ⟨pages, hpages, fun n hn => ?_⟩
  have hslices : (fun k => (pages (k * limit)).children.map LibraryChild.position) = fun k =>
      (((x.positions filter).sort (· ≤ ·)).drop (k * limit)).take limit :=
    funext fun k => (hpages _).2.children
  rw [hslices, Paging.flatMap_slices]
  exact List.take_of_length_le (by rwa [Finset.length_sort])

/-- Two files that share an episode, and an album track without a number. -/
def overlapping : Source where
  parent := ⟨lit "P", none⟩
  copies := [⟨lit "C",
    [⟨lit "a", lit "a", none, .episode [⟨some 1, 1, some 3⟩]⟩,
      ⟨lit "b", lit "b", none, .episode [⟨some 1, 3, some 4⟩]⟩,
      ⟨lit "c", lit "c", none, .track none none⟩], none⟩]
  ids_nodup := by decide
  forward := by decide

theorem children_exact_overlapping :
    (⟨none, none⟩ : ChildFilter).Accepted ∧ (1 ≤ 3 ∧ 3 ≤ 200) ∧
    (overlapping.positions ⟨none, none⟩).card ≤ 2 * 3 ∧
    ∃ pages : ℕ → LibraryChildren,
      (∀ offset, overlapping.libraryChildren offset 3 ⟨none, none⟩ = .ok (pages offset) ∧
        overlapping.IsPage ⟨none, none⟩ offset 3 (pages offset)) ∧
      ((List.range 2).flatMap fun k => (pages (k * 3)).children.map LibraryChild.position) =
        (overlapping.positions ⟨none, none⟩).sort (· ≤ ·) := by
  have haccepted : (⟨none, none⟩ : ChildFilter).Accepted := by decide
  have hcard : (overlapping.positions ⟨none, none⟩).card ≤ 2 * 3 := by decide
  obtain ⟨pages, hpages, hconcat⟩ :=
    (children_exact overlapping).1 ⟨none, none⟩ haccepted 3 (by decide)
  exact ⟨haccepted, by decide, hcard, pages, hpages, hconcat 2 hcard⟩

end Kahawai.MediaDb
