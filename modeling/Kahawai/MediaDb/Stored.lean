import Kahawai.Core.Decimal
import Kahawai.MediaDb.Parts

/-!
# Stored entries

Whatever a name or a tag says, the numbers of an entry in the media tables are numbers of `u32`,
no disc and no track is 0, and no coverage is reversed.

Results:
* `detect_words`: what the name parsers and the tags give fits `u32`.
* `put_stored`: `put` stores no other entries.
* `reached_stored`: so there are no others after any run.
-/

namespace Kahawai.MediaDb

open Kahawai.Core Kahawai.Core.Text Kahawai.Core.Names Kahawai.Lib Kahawai.Proto

/-! ## Numbers of `u32` -/

/-- A number of `Option<u32>`. -/
def IsWord (o : Option ℕ) : Prop := ∀ n ∈ o, n < 2 ^ 32

theorem isWord_none : IsWord none := fun _ h => absurd h (by simp)

@[simp] theorem isWord_some {n : ℕ} : IsWord (some n) ↔ n < 2 ^ 32 := by simp [IsWord]

theorem isWord_parseU32 (s : Text) : IsWord (parseU32 s) := fun _ h => parseUnsigned_lt h

theorem IsWord.or {a b : Option ℕ} (ha : IsWord a) (hb : IsWord b) : IsWord (a.or b) := by
  cases a with
  | none => exact hb
  | some n => exact ha

theorem IsWord.filter {o : Option ℕ} (h : IsWord o) (p : ℕ → Bool) : IsWord (o.filter p) :=
  fun n hn => h n (Option.mem_filter_iff.mp hn).1

theorem IsWord.getD {o : Option ℕ} (h : IsWord o) {n : ℕ} (hn : n < 2 ^ 32) : o.getD n < 2 ^ 32 := by
  cases o with
  | none => exact hn
  | some m => exact isWord_some.mp h

theorem wrappingAdd_lt (a b : ℕ) : wrappingAdd a b < 2 ^ 32 := Nat.mod_lt _ (by omega)

/-! ## Names -/

/-- The numbers of a marker. -/
def MarkerWords (m : ℕ × ℕ × Option ℕ) : Prop := m.1 < 2 ^ 32 ∧ m.2.1 < 2 ^ 32 ∧ IsWord m.2.2

theorem parseSxxeyy_words {tok : Text} {m : ℕ × ℕ × Option ℕ} (h : parseSxxeyy tok = some m) :
    MarkerWords m := by
  unfold parseSxxeyy at h
  dsimp only at h
  split at h
  · cases h
  split at h
  · cases h
  split_ifs at h
  split at h
  · cases h
  · rename_i first hfirst
    obtain ⟨season, hseason, rfl⟩ := Option.map_eq_some_iff.mp h
    exact ⟨parseUnsigned_lt hseason, parseUnsigned_lt hfirst, (isWord_parseU32 _).filter _⟩

theorem parseNnxnn_words {tok : Text} {m : ℕ × ℕ} (h : parseNnxnn tok = some m) :
    MarkerWords (m.1, m.2, none) := by
  unfold parseNnxnn at h
  dsimp only at h
  split at h
  · cases h
  split_ifs at h
  obtain ⟨season, hseason, h⟩ := Option.bind_eq_some_iff.mp h
  obtain ⟨episode, hepisode, h⟩ := Option.bind_eq_some_iff.mp h
  obtain rfl := Option.some.inj h
  exact ⟨parseUnsigned_lt hseason, parseUnsigned_lt hepisode, isWord_none⟩

theorem letteredMarker_words {tokens : List Text} {i : ℕ} {m : ℕ × ℕ × Option ℕ}
    (h : letteredMarker tokens = some (i, m)) : MarkerWords m := by
  obtain ⟨⟨t, j⟩, -, h⟩ := List.exists_of_findSome?_eq_some h
  obtain ⟨marker, hmarker, h⟩ := Option.map_eq_some_iff.mp h
  obtain rfl : marker = m := (Prod.mk.inj h).2
  cases hs : parseSxxeyy t with
  | some found =>
    rw [hs, Option.some_or] at hmarker
    obtain rfl := Option.some.inj hmarker
    exact parseSxxeyy_words hs
  | none =>
    rw [hs, Option.none_or] at hmarker
    obtain ⟨found, hx, rfl⟩ := Option.map_eq_some_iff.mp hmarker
    exact parseNnxnn_words hx

/-- A digit. -/
theorem digit_lt {c : Char} (h : isAsciiDigit c = true) : c.toNat - '0'.toNat < 10 := by
  simp only [isAsciiDigit, Bool.and_eq_true, decide_eq_true_eq, Char.le_def] at h
  have h9 : c.toNat ≤ '9'.toNat := h.2
  have : '9'.toNat = 57 := rfl
  have : '0'.toNat = 48 := rfl
  omega

theorem compactNumbers_words {t : Text} {m : ℕ × ℕ} (h : compactNumbers t = some m) :
    m.1 < 2 ^ 32 ∧ m.2 < 2 ^ 32 := by
  unfold compactNumbers at h
  split at h
  · rename_i a b c
    split_ifs at h with hdigits
    obtain rfl := Option.some.inj h
    simp only [Bool.and_eq_true] at hdigits
    have ha := digit_lt hdigits.1.1.1
    have hb := digit_lt hdigits.1.1.2
    have hc := digit_lt hdigits.1.2
    simp only [digitsValue, List.foldl_cons, List.foldl_nil]
    omega
  · cases h

theorem parseSceneCompact_words {stem : Text} {tokens : List Text} {i s e : ℕ}
    (h : parseSceneCompact stem tokens = some (i, s, e)) : s < 2 ^ 32 ∧ e < 2 ^ 32 := by
  unfold parseSceneCompact at h
  split_ifs at h
  obtain ⟨⟨t, j⟩, -, h⟩ := List.exists_of_findSome?_eq_some h
  dsimp only at h
  split at h
  · rename_i s' e' hnumbers
    split_ifs at h
    cases Option.some.inj h
    exact compactNumbers_words hnumbers
  · cases h

/-- The numbers of a guess. -/
structure GuessWords (g : EpisodeGuess) : Prop where
  season : IsWord g.season
  episode : g.episode < 2 ^ 32
  episodeEnd : IsWord g.episodeEnd

theorem parseEpisode_words {path : Text} {g : EpisodeGuess} (h : parseEpisode path = some g) :
    GuessWords g := by
  unfold parseEpisode at h
  dsimp only at h
  split at h
  · cases h
  · rename_i idx season episode episodeEnd hmarker
    have hwords : MarkerWords (season, episode, episodeEnd) := by
      split at hmarker
      · rename_i found hfound
        obtain rfl := Option.some.inj hmarker
        exact letteredMarker_words hfound
      · obtain ⟨⟨i, s, e⟩, hcompact, heq⟩ := Option.map_eq_some_iff.mp hmarker
        cases heq
        obtain ⟨hs, he⟩ := parseSceneCompact_words hcompact
        exact ⟨hs, he, isWord_none⟩
    obtain rfl := Option.some.inj h
    exact ⟨isWord_some.mpr hwords.1, hwords.2.1, hwords.2.2⟩

/-! ## Fansub names -/

theorem numRange_words {t : Text} {a b : ℕ} (h : numRange t = some (a, b)) :
    a < 2 ^ 32 ∧ b < 2 ^ 32 := by
  unfold numRange at h
  split at h
  · cases h
  split_ifs at h
  split at h
  · rename_i x y hx hy
    split_ifs at h
    cases Option.some.inj h
    exact ⟨parseUnsigned_lt hx, parseUnsigned_lt hy⟩
  · cases h

theorem explicitEpisode_words {tokens : List Text} {i n : ℕ}
    (h : explicitEpisode tokens = some (i, n)) : n < 2 ^ 32 := by
  obtain ⟨⟨t, j⟩, -, h⟩ := List.exists_of_findSome?_eq_some h
  dsimp only at h
  split at h
  · cases h
  split_ifs at h
  obtain ⟨m, hm, heq⟩ := Option.map_eq_some_iff.mp h
  cases heq
  exact parseUnsigned_lt hm

theorem standaloneNumber_words {t : Text} {final : Bool} {n : ℕ} {last : Option ℕ}
    (h : standaloneNumber t final = some (n, last)) : n < 2 ^ 32 ∧ IsWord last := by
  unfold standaloneNumber at h
  split at h
  · rename_i a b hrange
    cases Option.some.inj h
    split_ifs at hrange
    obtain ⟨ha, hb⟩ := numRange_words hrange
    exact ⟨ha, isWord_some.mpr hb⟩
  · dsimp only at h
    split_ifs at h
    split at h
    · cases h
    · rename_i m hm
      split_ifs at h
      cases Option.some.inj h
      exact ⟨parseUnsigned_lt hm, isWord_none⟩

variable (u : Unicode)

theorem episodeNumber_words {path : Text} {tokens : List Text} {designator : Option Designator}
    {i n : ℕ} {last : Option ℕ} (h : episodeNumber u path tokens designator = some (i, n, last)) :
    n < 2 ^ 32 ∧ IsWord last := by
  unfold episodeNumber at h
  split at h
  · rename_i j m hexplicit
    cases Option.some.inj h
    exact ⟨explicitEpisode_words hexplicit, isWord_none⟩
  · obtain ⟨⟨t, j⟩, -, h⟩ := List.exists_of_findSome?_eq_some h
    dsimp only at h
    split_ifs at h
    obtain ⟨⟨m, last'⟩, hnumber, heq⟩ := Option.map_eq_some_iff.mp h
    cases heq
    exact standaloneNumber_words hnumber

theorem designatedGuess_words (path : Text) (tokens : List Text) (d : Designator) (b : ℕ) :
    GuessWords (designatedGuess path tokens d b) where
  season := isWord_some.mpr (by omega)
  episode := wrappingAdd_lt _ _
  episodeEnd := by
    intro n hn
    obtain ⟨m, -, rfl⟩ := Option.map_eq_some_iff.mp hn
    exact wrappingAdd_lt _ _

theorem parseFansub_words {path : Text} {g : EpisodeGuess} (h : parseFansub u path = some g) :
    GuessWords g := by
  unfold parseFansub at h
  dsimp only at h
  split at h
  · obtain ⟨b, -, rfl⟩ := Option.map_eq_some_iff.mp h
    exact designatedGuess_words _ _ _ _
  split at h
  · obtain ⟨d, -, h⟩ := Option.bind_eq_some_iff.mp h
    obtain ⟨b, -, rfl⟩ := Option.map_eq_some_iff.mp h
    exact designatedGuess_words _ _ _ _
  · rename_i idx episode episodeEnd hnumber
    obtain rfl := Option.some.inj h
    obtain ⟨hepisode, hlast⟩ := episodeNumber_words u hnumber
    exact ⟨isWord_none, hepisode, hlast⟩

theorem parseAnime_words {path : Text} {g : EpisodeGuess} (h : parseAnime u path = some g) :
    GuessWords g := by
  unfold parseAnime at h
  split at h
  · rename_i found hfound
    obtain ⟨hseason, hepisode, hlast⟩ := parseEpisode_words hfound
    split at h <;> obtain rfl := Option.some.inj h <;> exact ⟨hseason, hepisode, hlast⟩
  · exact parseFansub_words u h

theorem parseMusic_words {path : Text} {g : MusicGuess} (h : parseMusic path = some g) :
    g.track < 2 ^ 32 := by
  unfold parseMusic at h
  split at h
  · rename_i file albumDir artistParts hparts
    dsimp only at h
    by_cases hempty : (parseAlbumDir albumDir).1.isEmpty = true
    · rw [if_pos hempty] at h
      cases h
    rw [if_neg hempty] at h
    split at h
    · cases h
    split at h
    · cases h
    · rename_i track htrack
      split at h
      · cases h
      · obtain ⟨artist, -, rfl⟩ := Option.map_eq_some_iff.mp h
        exact parseUnsigned_lt htrack
  · cases h

/-! ## Detection -/

/-- The numbers of an entry fit `u32`. -/
def EntryKind.Words : EntryKind → Prop
  | .movie => True
  | .episode spans => ∀ s ∈ spans, IsWord s.season ∧ s.episode < 2 ^ 32 ∧ IsWord s.episodeEnd
  | .track d n => IsWord d ∧ IsWord n

theorem tagNumber_words (media : MediaInfo) (name : String) : IsWord (tagNumber media name) := by
  refine IsWord.filter (fun n hn => ?_) _
  obtain ⟨v, -, hv⟩ := Option.bind_eq_some_iff.mp hn
  obtain ⟨first, -, hfirst⟩ := Option.bind_eq_some_iff.mp hv
  exact parseUnsigned_lt hfirst

theorem ownerDirectory_words (path : Text) (music : Bool) : IsWord (ownerDirectory u path music).2 := by
  unfold ownerDirectory
  dsimp only
  split
  · rename_i place n hmarker
    obtain ⟨⟨p, i⟩, -, hmarker⟩ := List.exists_of_findSome?_eq_some hmarker
    obtain ⟨m, hm, heq⟩ := Option.map_eq_some_iff.mp hmarker
    obtain ⟨pre, -, hpre⟩ := List.exists_of_findSome?_eq_some hm
    obtain ⟨rest, -, hrest⟩ := Option.bind_eq_some_iff.mp hpre
    cases heq
    exact isWord_some.mpr (parseUnsigned_lt hrest)
  · exact isWord_none

theorem detectTrack_words {path : Text} {media : MediaInfo} {o : NewOccurrence}
    (h : detectTrack u path media = some o) : ∀ e ∈ o.entries, e.kind.Words := by
  unfold detectTrack at h
  have hdisc := ownerDirectory_words u path true
  generalize ownerDirectory u path true = owner at h hdisc
  obtain ⟨parent, discFolder⟩ := owner
  dsimp only at h hdisc
  split at h
  · cases h
  · obtain rfl := Option.some.inj h
    intro e he
    obtain rfl := List.mem_singleton.mp he
    refine ⟨(tagNumber_words _ _).or (hdisc.filter _), (tagNumber_words _ _).or (IsWord.filter ?_ _)⟩
    intro n hn
    obtain ⟨guess, hguess, rfl⟩ := Option.map_eq_some_iff.mp hn
    exact parseMusic_words hguess

theorem detectEpisode_words {path : Text} {media : MediaInfo} {guess : EpisodeGuess}
    {o : NewOccurrence} (hguess : GuessWords guess) (h : detectEpisode u path media guess = some o) :
    ∀ e ∈ o.entries, e.kind.Words := by
  unfold detectEpisode at h
  split_ifs at h
  obtain rfl := Option.some.inj h
  intro e he
  obtain rfl := List.mem_singleton.mp he
  simp only [EntryKind.Words, wholeEntry, List.mem_singleton, forall_eq]
  exact ⟨hguess.season, hguess.episode, hguess.episodeEnd⟩

theorem detectFilm_words {path : Text} {media : MediaInfo} {o : NewOccurrence}
    (h : detectFilm u path media = some o) : ∀ e ∈ o.entries, e.kind.Words := by
  obtain ⟨guess, -, rfl⟩ := Option.map_eq_some_iff.mp h
  intro e he
  dsimp only at he
  split at he <;> obtain rfl := List.mem_singleton.mp he <;> exact True.intro

/-- What is detected fits `u32`. -/
theorem detect_words {kind : MediaType} {path : Text} {media : MediaInfo} {o : NewOccurrence}
    (h : detect u kind path media = some o) : ∀ e ∈ o.entries, e.kind.Words := by
  unfold detect at h
  by_cases hmusic : kind = .music
  · rw [if_pos hmusic] at h
    exact detectTrack_words u h
  · rw [if_neg hmusic] at h
    split at h
    · rename_i guess hguess
      refine detectEpisode_words u ?_ h
      unfold episodeGuess at hguess
      split at hguess
      · exact parseAnime_words u hguess
      · exact parseEpisode_words hguess
      · cases hguess
    · split_ifs at h
      exact detectFilm_words u h

/-! ## Storage -/

/-- An entry that `put` lets pass. -/
structure EntryKind.Stored (kind : EntryKind) : Prop where
  words : kind.Words
  numbered : WellNumbered kind

/-- All entries of the tables. -/
def AllStored (t : MediaTables) : Prop := ∀ row ∈ t.entries, row.kind.Stored

section
variable {α β ε : Type} {mediaType : MediaType} {t t' : MediaTables}

theorem bind_eq_ok {x : Except ε α} {f : α → Except ε β} {b : β} :
    x >>= f = .ok b ↔ ∃ a, x = .ok a ∧ f a = .ok b := by
  cases x with
  | error e => simp [bind, Except.bind]
  | ok a => simp [bind, Except.bind]

theorem putPart_entries {entry : (Text × Text) × Text} {part : Part}
    (h : putPart entry part t = .ok t') : t'.entries = t.entries := by
  unfold putPart at h
  split at h
  · cases h
  dsimp only at h
  split_ifs at h
  obtain rfl := Except.ok.inj h
  rfl

theorem putParts_entries {entry : (Text × Text) × Text} {parts : List Part}
    {seen seen' : List SourceKey} (h : putParts entry parts seen t = .ok (seen', t')) :
    t'.entries = t.entries := by
  induction parts generalizing seen t with
  | nil =>
    cases Except.ok.inj h
    rfl
  | cons part rest ih =>
    unfold putParts at h
    split_ifs at h
    obtain ⟨t₁, hpart, hrest⟩ := bind_eq_ok.mp h
    rw [ih hrest, putPart_entries hpart]

theorem putEntry_stored {item : Text × Text} {manual : Bool} {entry : NewEntry}
    {seen seen' : List SourceKey} (hwords : entry.kind.Words) (ht : AllStored t)
    (h : putEntry mediaType item manual entry seen t = .ok (seen', t')) : AllStored t' := by
  unfold putEntry at h
  split at h
  · cases h
  split at h
  · cases h
  rename_i hpositive
  obtain ⟨⟨⟩, hcoverage, h⟩ := bind_eq_ok.mp h
  have hpositive : positiveNumbers entry.kind = true := by simpa using hpositive
  intro row hrow
  rw [putParts_entries h] at hrow
  rcases Table.mem_put.mp hrow with rfl | ⟨hrow, -⟩
  · exact ⟨hwords, hpositive, hcoverage⟩
  · exact ht row hrow

theorem putEntries_stored {item : Text × Text} {manual : Bool} {entries : List NewEntry}
    {keys : List Text} {seen : List SourceKey} (hwords : ∀ e ∈ entries, e.kind.Words)
    (ht : AllStored t) (h : putEntries mediaType item manual entries keys seen t = .ok t') :
    AllStored t' := by
  induction entries generalizing keys seen t with
  | nil =>
    obtain rfl := Except.ok.inj h
    exact ht
  | cons entry rest ih =>
    obtain ⟨hentry, hrest⟩ := List.forall_mem_cons.mp hwords
    unfold putEntries at h
    split_ifs at h
    obtain ⟨⟨seen', t₁⟩, hput, h⟩ := bind_eq_ok.mp h
    exact ih hrest (putEntry_stored hentry ht hput) h

/-- `put` stores no other entries. -/
theorem put_stored {value : NewOccurrence} {manual : Bool}
    (hwords : ∀ e ∈ value.entries, e.kind.Words) (ht : AllStored t)
    (h : put mediaType value manual t = .ok t') : AllStored t' := by
  unfold put at h
  split_ifs at h
  refine putEntries_stored hwords ?_ h
  exact ht

theorem resolveFile_stored {file : SourceKey} {media : MediaInfo} (ht : AllStored t)
    (h : resolveFile u mediaType file media t = .ok t') : AllStored t' := by
  unfold resolveFile at h
  split_ifs at h
  · obtain rfl := Except.ok.inj h
    exact ht
  · split at h
    · rename_i value hdetect
      refine put_stored (fun e he => ?_) ht h
      have hwords := detect_words u hdetect
      cases hentries : value.entries with
      | nil =>
        rw [placeAt, hentries] at he
        cases he
      | cons first rest =>
        rw [hentries] at hwords
        rw [placeAt, hentries] at he
        rcases List.mem_cons.mp he with rfl | he
        · exact hwords first List.mem_cons_self
        · exact hwords e (List.mem_cons_of_mem _ he)
    · obtain rfl := Except.ok.inj h
      exact ht

/-- The tables of a collection after a run: files are resolved, occurrences of the API are put,
and `prune` and the inventory drop entries. -/
inductive Reached (mediaType : MediaType) : MediaTables → Prop
  | empty : Reached mediaType ⟨.empty, .empty, .empty, .empty⟩
  | resolve {t t' : MediaTables} (file : SourceKey) (media : MediaInfo) : Reached mediaType t →
      resolveFile u mediaType file media t = .ok t' → Reached mediaType t'
  | put {t t' : MediaTables} (value : NewOccurrence) (manual : Bool) : Reached mediaType t →
      (∀ e ∈ value.entries, e.kind.Words) → put mediaType value manual t = .ok t' →
      Reached mediaType t'
  | drop {t t' : MediaTables} : Reached mediaType t → (∀ row ∈ t'.entries, row ∈ t.entries) →
      Reached mediaType t'

variable {u}

/-- After any run there are no other entries. -/
theorem reached_stored (h : Reached u mediaType t) : AllStored t := by
  induction h with
  | empty => exact fun row hrow => absurd hrow (Table.not_mem_empty row)
  | resolve file media _ hresolve ih => exact resolveFile_stored u ih hresolve
  | put value manual _ hwords hput ih => exact put_stored hwords ih hput
  | drop _ hdrop ih => exact fun row hrow => ih row (hdrop row hrow)

end

end Kahawai.MediaDb
