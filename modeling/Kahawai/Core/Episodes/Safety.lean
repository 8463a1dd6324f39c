import Kahawai.Core.Episodes.Fansub
import Kahawai.Core.Names.Revision

/-!
# What file names can do to their parsers

When `parse_episode`, `parse_anime` and `release_revision` of `crates/kahawai-core/src/names.rs`
return without a panic or an overflow, and with guesses that the catalogue can key on.

Results:
* `parseEpisode_wellFormed`, `parseFansub_wellFormed`: a show and an increasing span.
* `parseMovieDir_title_eq_nil_iff`: which directories name no show.
* `names_safe_iff`: the condition for a relative path.
-/

namespace Kahawai.Core.Names

open Text Lib Lib.Checked

/-- A guess with a show, and with a span that goes up if it has one. -/
structure EpisodeGuess.WellFormed (g : EpisodeGuess) : Prop where
  shown : g.showTitle ≠ []
  increasing : ∀ last ∈ g.episodeEnd, g.episode < last

/-! ## Words -/

theorem join_ne_nil {sep : Text} {parts : List Text} (hne : parts ≠ []) (h : ∀ p ∈ parts, p ≠ []) :
    join sep parts ≠ [] := by
  obtain ⟨p, rest, rfl⟩ := List.exists_cons_of_ne_nil hne
  have hp := h p List.mem_cons_self
  cases rest with
  | nil => simpa [join, List.intercalate] using hp
  | cons q rest => simp [join, List.intercalate, hp]

theorem ne_nil_of_mem_splitWhitespace {s w : Text} (h : w ∈ splitWhitespace s) : w ≠ [] := by
  have hnonempty := (List.mem_filter.mp h).2
  rintro rfl
  exact absurd hnonempty (by simp)

theorem ne_nil_of_mem_fansubTokens {path w : Text} (h : w ∈ fansubTokens path) : w ≠ [] :=
  ne_nil_of_mem_splitWhitespace (List.mem_filter.mp h).1

theorem takeParts_subset (tokens : List Text) (part : Option ℕ) :
    (takeParts tokens part).1 ⊆ tokens := by
  fun_induction takeParts tokens part with
  | case1 => exact List.Subset.refl _
  | case2 =>
    rename_i ih
    exact List.subset_cons_of_subset _ ih
  | case3 =>
    rename_i ih
    exact List.subset_cons_of_subset _ (List.subset_cons_of_subset _ ih)
  | case4 =>
    rename_i heq ih
    rw [heq] at ih
    exact List.cons_subset_cons _ ih
  | case5 => exact List.Subset.refl _

/-- The words of a directory that can name a show: those left when release tags and part markers
    are taken out. -/
def showWords (dir : Text) : List Text :=
  (takeParts (splitWhitespace (blankSeparators (stripReleaseTags dir))) none).1

/-- A directory names no show when no word is left. -/
theorem parseMovieDir_title_eq_nil_iff (dir : Text) :
    (parseMovieDir dir).title = [] ↔ showWords dir = [] := by
  have hwords : ∀ w ∈ showWords dir, w ≠ [] := fun w hw =>
    ne_nil_of_mem_splitWhitespace (takeParts_subset _ _ hw)
  unfold parseMovieDir parseMovieStem
  dsimp only
  rw [← showWords]
  constructor
  · intro h
    by_contra hne
    split_ifs at h with hempty
    · exact join_ne_nil hne hwords h
    · exact hempty (by rw [h]; rfl)
  · intro h
    rw [h]
    rfl

/-- The first directory of a relative path has a name. -/
theorem topDir_ne_nil {path top : Text} (hrel : path.head? ≠ some '/') (h : topDir path = some top) :
    top ≠ [] := by
  rintro rfl
  cases path with
  | nil => cases h
  | cons c path =>
    have hc : ¬ (c == '/') = true := fun heq => hrel (by rw [beq_iff_eq.mp heq]; rfl)
    unfold topDir components at h
    rw [List.splitOn_cons_eq_if_modifyHead, if_neg hc] at h
    cases hsplit : path.splitOn '/' with
    | nil => exact List.splitOn_ne_nil '/' path hsplit
    | cons first rest =>
      rw [hsplit] at h
      cases rest with
      | nil => cases h
      | cons second rest => cases h

/-! ## Series -/

theorem parseSxxeyy_increasing {tok : Text} {s e : ℕ} {last : Option ℕ}
    (h : parseSxxeyy tok = some (s, e, last)) : ∀ n ∈ last, e < n := by
  unfold parseSxxeyy at h
  dsimp only at h
  split at h
  · cases h
  split at h
  · cases h
  split_ifs at h
  split at h
  · cases h
  · obtain ⟨season, -, heq⟩ := Option.map_eq_some_iff.mp h
    cases heq
    intro n hn
    exact of_decide_eq_true (Option.mem_filter_iff.mp hn).2

theorem seriesMarker_increasing {stem : Text} {i s e : ℕ} {last : Option ℕ}
    (h : seriesMarker stem = some (i, s, e, last)) : ∀ n ∈ last, e < n := by
  unfold seriesMarker at h
  split at h
  · rename_i found hfound
    cases Option.some.inj h
    obtain ⟨⟨t, j⟩, -, hmark⟩ := List.exists_of_findSome?_eq_some hfound
    obtain ⟨marker, hmarker, heq⟩ := Option.map_eq_some_iff.mp hmark
    cases heq
    cases hs : parseSxxeyy t with
    | some m =>
      rw [hs, Option.some_or] at hmarker
      cases Option.some.inj hmarker
      exact parseSxxeyy_increasing hs
    | none =>
      rw [hs, Option.none_or] at hmarker
      obtain ⟨m, -, heq⟩ := Option.map_eq_some_iff.mp hmarker
      cases heq
      simp
  · obtain ⟨m, -, heq⟩ := Option.map_eq_some_iff.mp h
    cases heq
    simp

/-- Every guess of `parse_episode` has a show and an increasing span. -/
theorem parseEpisode_wellFormed {path : Text} {g : EpisodeGuess} (h : parseEpisode path = some g) :
    g.WellFormed := by
  rw [parseEpisode_eq] at h
  obtain ⟨⟨idx, season, episode, episodeEnd⟩, hmarker, rfl⟩ := Option.map_eq_some_iff.mp h
  refine ⟨?_, seriesMarker_increasing hmarker⟩
  dsimp only
  split_ifs with hempty
  · decide
  · exact fun hnil => hempty (by rw [hnil]; rfl)

/-! ## Fansub names -/

/-- The fallback for a show without a title. -/
theorem shown_of_title {title guessed : Text} (h : title ≠ []) :
    (if guessed.isEmpty then title else guessed) ≠ [] := by
  split_ifs with hempty
  · exact h
  · exact fun hnil => hempty (by rw [hnil]; rfl)

theorem topDir_getD_ne_nil {path : Text} (hrel : path.head? ≠ some '/') :
    (topDir path).getD (lit "Unknown Show") ≠ [] := by
  cases htop : topDir path with
  | none => decide
  | some top => exact topDir_ne_nil hrel htop

theorem join_take_ne_nil {path : Text} {i : ℕ} (hpos : 0 < i) (hi : i < (fansubTokens path).length) :
    join (lit " ") ((fansubTokens path).take i) ≠ [] := by
  refine join_ne_nil ?_ fun w hw => ne_nil_of_mem_fansubTokens (List.mem_of_mem_take hw)
  rw [← List.length_pos_iff, List.length_take]
  omega

theorem designatedGuess_wellFormed {path : Text} (hrel : path.head? ≠ some '/') {d : Designator}
    (hd : findDesignator (fansubTokens path) = some d) {b : ℕ} (hb : d.band = some b)
    (hindex : b + d.index < 2 ^ 32) :
    (designatedGuess path (fansubTokens path) d b).WellFormed := by
  obtain ⟨t, ht, hband, heq⟩ := findDesignator_token hd
  have hplace := (List.getElem?_eq_some_iff.mp ht).1
  rw [hb] at hband heq
  have htitle : (showBefore path (fansubTokens path) d.place).2 ≠ [] := by
    unfold showBefore
    dsimp only
    split_ifs with hzero
    · exact topDir_getD_ne_nil hrel
    · exact join_take_ne_nil (Nat.pos_of_ne_zero hzero) hplace
  constructor
  · unfold designatedGuess
    generalize showBefore path (fansubTokens path) d.place = shown at htitle
    obtain ⟨guess, title⟩ := shown
    exact shown_of_title htitle
  · intro last hlast
    obtain ⟨s, hs, rfl⟩ := Option.map_eq_some_iff.mp hlast
    have hspan := (designatorIn_sums d.place (fansubTokens path)[d.place + 1]? hband).2
    rw [← heq] at hspan
    obtain ⟨hsum, hlt⟩ := hspan s hs
    show wrappingAdd b d.index < wrappingAdd b s
    rw [wrappingAdd, wrappingAdd, Nat.mod_eq_of_lt hindex, Nat.mod_eq_of_lt hsum]
    omega

theorem episodeNumber_increasing {u : Unicode} {path : Text} {tokens : List Text}
    {designator : Option Designator} {i n : ℕ} {last : Option ℕ}
    (h : episodeNumber u path tokens designator = some (i, n, last)) : ∀ m ∈ last, n < m := by
  unfold episodeNumber at h
  split at h
  · cases Option.some.inj h
    simp
  · obtain ⟨⟨t, j⟩, -, hmark⟩ := List.exists_of_findSome?_eq_some h
    dsimp only at hmark
    split_ifs at hmark
    obtain ⟨⟨n', last'⟩, hnumber, heq⟩ := Option.map_eq_some_iff.mp hmark
    cases heq
    unfold standaloneNumber at hnumber
    split at hnumber
    · rename_i a b hrange
      cases Option.some.inj hnumber
      split_ifs at hrange
      simpa using (numRange_lt hrange).1
    · dsimp only at hnumber
      split_ifs at hnumber
      split at hnumber
      · cases hnumber
      · split_ifs at hnumber
        cases Option.some.inj hnumber
        simp

theorem numberedGuess_wellFormed {path : Text} (hrel : path.head? ≠ some '/') {idx episode : ℕ}
    {episodeEnd : Option ℕ} (h : ∀ m ∈ episodeEnd, episode < m) :
    (numberedGuess path (fansubTokens path) idx episode episodeEnd).WellFormed := by
  have htop := topDir_getD_ne_nil hrel
  unfold numberedGuess
  generalize (topDir path).getD (lit "Unknown Show") = top at htop
  dsimp only
  have htitle : (if (join (lit " ") ((fansubTokens path).take idx)).isEmpty then top
      else join (lit " ") ((fansubTokens path).take idx)) ≠ [] := shown_of_title htop
  generalize (if (join (lit " ") ((fansubTokens path).take idx)).isEmpty then top
      else join (lit " ") ((fansubTokens path).take idx)) = title at htitle
  generalize (parseMovieDir ((topDir path).getD title)) = guess
  exact ⟨shown_of_title htitle, h⟩

/-- Every guess of the fansub branch has a show and an increasing span. -/
theorem parseFansub_wellFormed {u : Unicode} {path : Text} (hrel : path.head? ≠ some '/')
    (hindexed : Indexed (fansubTokens path)) {g : EpisodeGuess} (h : parseFansub u path = some g) :
    g.WellFormed := by
  have hsum := (indexed_iff _).mp hindexed
  rw [parseFansub_eq] at h
  unfold settleGuess at h
  split at h
  · rename_i d hd
    obtain ⟨b, hb, rfl⟩ := Option.map_eq_some_iff.mp h
    have hd := (Option.mem_filter_iff.mp hd).1
    exact designatedGuess_wellFormed hrel hd hb (hsum d hd b hb)
  · split at h
    · obtain ⟨d, hd, h⟩ := Option.bind_eq_some_iff.mp h
      obtain ⟨b, hb, rfl⟩ := Option.map_eq_some_iff.mp h
      exact designatedGuess_wellFormed hrel hd hb (hsum d hd b hb)
    · rename_i idx episode episodeEnd hnumber
      obtain rfl := Option.some.inj h
      exact numberedGuess_wellFormed hrel (episodeNumber_increasing hnumber)

/-! ## Paths -/

/-- The file name carries a series marker. -/
def isSeriesName (path : Text) : Bool :=
  (seriesMarker (fileStem ((components path).getLast?.getD []))).isSome

/-- The three parsers return without a panic or an overflow, and every guess is well formed. -/
def NamesHold (u : Unicode) (path : Text) : Prop :=
  ∃ e a r, parseEpisodeChecked path = .ok e ∧ parseAnimeChecked u path = .ok a ∧
    releaseRevisionChecked path = .ok r ∧ (∀ g ∈ e, g.WellFormed) ∧ ∀ g ∈ a, g.WellFormed

/-- What a path needs for that. -/
structure NamesSafe (path : Text) : Prop where
  shown : isSeriesName path = true → ∀ top, topDir path = some top → showWords top ≠ []
  nested : isSeriesName path = false → nesting path < 2 ^ 32
  indexed : isSeriesName path = false → Indexed (fansubTokens path)
  revision : RevisionFits path

theorem isSeriesName_iff (path : Text) : isSeriesName path = (parseEpisode path).isSome := by
  rw [parseEpisode_eq, Option.isSome_map, isSeriesName]

/-- `parse_anime` on a path with a series marker takes the show from the top directory. -/
theorem parseAnimeChecked_top (u : Unicode) {path top : Text} {g : EpisodeGuess}
    (h : parseEpisode path = some g) (htop : topDir path = some top) :
    parseAnimeChecked u path = .ok (some { g with
      showTitle := (parseMovieDir top).title, showYear := (parseMovieDir top).year.or g.showYear }) := by
  rw [parseAnimeChecked, parseEpisodeChecked_eq, ok_bind, h, htop]
  dsimp only
  rw [parseMovieDirChecked_eq, ok_bind]
  rfl

theorem parseAnimeChecked_bare (u : Unicode) {path : Text} {g : EpisodeGuess}
    (h : parseEpisode path = some g) (htop : topDir path = none) :
    parseAnimeChecked u path = .ok (some g) := by
  rw [parseAnimeChecked, parseEpisodeChecked_eq, ok_bind, h, htop]
  rfl

theorem parseAnimeChecked_unmarked (u : Unicode) {path : Text} (h : parseEpisode path = none) :
    parseAnimeChecked u path = parseFansubChecked u path := by
  rw [parseAnimeChecked, parseEpisodeChecked_eq, ok_bind, h]

/-- The guess of a marked path is well formed exactly when the top directory names a show. -/
theorem anime_marked_iff (u : Unicode) {path : Text} {g : EpisodeGuess}
    (h : parseEpisode path = some g) :
    (∃ a, parseAnimeChecked u path = .ok a ∧ ∀ x ∈ a, x.WellFormed) ↔
      ∀ top, topDir path = some top → showWords top ≠ [] := by
  have hg := parseEpisode_wellFormed h
  cases htop : topDir path with
  | none =>
    rw [parseAnimeChecked_bare u h htop]
    exact ⟨fun _ top htop => absurd htop (by simp),
      fun _ => ⟨some g, rfl, fun x hx => Option.some.inj hx ▸ hg⟩⟩
  | some top =>
    rw [parseAnimeChecked_top u h htop]
    have htitle := parseMovieDir_title_eq_nil_iff top
    generalize parseMovieDir top = tg at htitle
    constructor
    · rintro ⟨a, ha, hwell⟩ top' htop' hwords
      obtain rfl := Option.some.inj htop'
      obtain rfl := Except.ok.inj ha
      exact (hwell _ rfl).shown (htitle.mpr hwords)
    · intro hwords
      refine ⟨_, rfl, fun x hx => ?_⟩
      obtain rfl := Option.some.inj hx
      exact ⟨mt htitle.mp (hwords top rfl), hg.increasing⟩

/-- The guess of an unmarked path is well formed when it is made at all. -/
theorem anime_unmarked_iff (u : Unicode) {path : Text} (hrel : path.head? ≠ some '/')
    (h : parseEpisode path = none) :
    (∃ a, parseAnimeChecked u path = .ok a ∧ ∀ x ∈ a, x.WellFormed) ↔
      nesting path < 2 ^ 32 ∧ Indexed (fansubTokens path) := by
  rw [parseAnimeChecked_unmarked u h]
  constructor
  · rintro ⟨a, ha, -⟩
    exact (parseFansubChecked_iff u path).mp ⟨a, ha⟩
  · rintro ⟨hnesting, hindexed⟩
    exact ⟨_, parseFansubChecked_eq u hnesting hindexed,
      fun x hx => parseFansub_wellFormed hrel hindexed hx⟩

/-- The three parsers are independent. -/
theorem namesHold_iff (u : Unicode) (path : Text) :
    NamesHold u path ↔ (∃ a, parseAnimeChecked u path = .ok a ∧ ∀ x ∈ a, x.WellFormed) ∧
      RevisionFits path := by
  rw [← releaseRevisionChecked_iff]
  constructor
  · rintro ⟨e, a, r, -, ha, hr, -, hwell⟩
    exact ⟨⟨a, ha, hwell⟩, r, hr⟩
  · rintro ⟨⟨a, ha, hwell⟩, r, hr⟩
    exact ⟨_, a, r, parseEpisodeChecked_eq path, ha, hr, fun g hg => parseEpisode_wellFormed hg, hwell⟩

/-- A relative path does no harm exactly when its top directory names a show where that is asked, and
    its numbers leave room for what is added to them. -/
theorem names_safe_iff (u : Unicode) {path : Text} (hrel : path.head? ≠ some '/') :
    NamesHold u path ↔ NamesSafe path := by
  have hmarked := isSeriesName_iff path
  rw [namesHold_iff]
  cases hparse : parseEpisode path with
  | some g =>
    rw [hparse, Option.isSome_some] at hmarked
    rw [anime_marked_iff u hparse]
    constructor
    · rintro ⟨hshown, hrevision⟩
      exact ⟨fun _ => hshown, fun h => absurd (hmarked.symm.trans h) (by decide),
        fun h => absurd (hmarked.symm.trans h) (by decide), hrevision⟩
    · exact fun hsafe => ⟨hsafe.shown hmarked, hsafe.revision⟩
  | none =>
    rw [hparse, Option.isSome_none] at hmarked
    rw [anime_unmarked_iff u hrel hparse]
    constructor
    · rintro ⟨⟨hnested, hindexed⟩, hrevision⟩
      exact ⟨fun h => absurd (hmarked.symm.trans h) (by decide), fun _ => hnested, fun _ => hindexed,
        hrevision⟩
    · exact fun hsafe => ⟨⟨hsafe.nested hmarked, hsafe.indexed hmarked⟩, hsafe.revision⟩

theorem names_safe_fansub :
    NamesHold Unicode.ascii (lit "Frieren/[Grp] Frieren - 05v2 [1080p].mkv") :=
  (names_safe_iff Unicode.ascii (by decide)).mpr
    { shown := fun h => absurd h (by decide)
      nested := fun _ => by decide
      indexed := fun _ => (indexed_iff _).mpr fun d hd => absurd hd
        (by rw [show findDesignator (fansubTokens (lit "Frieren/[Grp] Frieren - 05v2 [1080p].mkv")) =
          none by decide]; simp)
      revision := by unfold RevisionFits; decide }

/-- A directory that is a part marker, an index that passes `u32`, a version that leaves no room. -/
theorem names_unsafe :
    (∃ g, parseAnimeChecked Unicode.ascii (lit "CD1/Akira - S01E02.mkv") = .ok (some g) ∧
      g.showTitle = []) ∧
    parseAnimeChecked Unicode.ascii (lit "Akira NCOP4294967295.mkv") = .error .overflow ∧
    releaseRevisionChecked (lit "Akira - 05v4294967295.REPACK.mkv") = .error .overflow := by
  refine ⟨⟨⟨[], none, some 1, 2, none, none⟩, ?_, rfl⟩, ?_, ?_⟩
  all_goals decide

end Kahawai.Core.Names
