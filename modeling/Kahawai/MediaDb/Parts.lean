import Kahawai.MediaDb.Occurrence

/-!
# The parts of a release

`detect` gives a file a slot: an item, an entry of it and a part number. Only
the numbered parts of a film can share one.

Main results:

* `multipart_eq_iff`: `multipart` takes two paths for the same part of the same
  release exactly when they are `SamePart`, which compares them component by
  component.
* `detect_sole`: what `detect` returns describes one file, in a slot for its
  path, and passes the checks of `put`.
* `clash_of_slotFor`, `Clash.slot_eq`: two paths can get one slot exactly when
  both are numbered parts of a film and `SamePart`.
-/

namespace Kahawai.MediaDb

open Kahawai.Core Kahawai.Core.Text Kahawai.Core.Names Kahawai.Lib Kahawai.Proto

variable (u : Unicode)

/-! ## Parts of a release -/

/-- The directories of a path. -/
def directories (path : Text) : List Text := (components path).dropLast

/-- Whether `multipart` takes a directory for a part marker. -/
def IsMarker (component : Text) : Prop :=
  ((numberedComponent u component false).filter (· > 0)).isSome

instance (component : Text) : Decidable (IsMarker u component) :=
  inferInstanceAs (Decidable (Option.isSome _ = true))

/-- Two directories that are equal, or both part markers. What `multipart` writes
    for a marker counts as one. -/
def SameDirectory (c d : Text) : Prop :=
  c = d ∨ (c = lit "{part}" ∨ IsMarker u c) ∧ (d = lit "{part}" ∨ IsMarker u d)

/-- A file name without its part marker. -/
def markedName (file : Text) : Text :=
  match fileMarker u (fileStem file) with
  | some (a, stop, _) => file.take a ++ lit "{part}" ++ file.drop stop
  | none => file

/-- The number of a part: that of its file name, else that of the last directory
    that is a marker. -/
def partNumber (path : Text) : Option ℕ :=
  match fileMarker u (fileStem (fileName path)) with
  | some (_, _, n) => some n
  | none => directoryPart u (directories path)

/-- Two paths that agree but for the spelling of part markers, and for the
    numbers of those that do not count. -/
structure SamePart (p q : Text) : Prop where
  directories : List.Forall₂ (SameDirectory u) (directories p) (directories q)
  name : markedName u (fileName p) = markedName u (fileName q)
  number : partNumber u p = partNumber u q

/-- The family of a path. -/
def family (path : Text) : Text :=
  joinPath (partDirectories u (directories path) ++ [markedName u (fileName path)])

theorem multipart_eq (path : Text) : multipart u path = (family u path, partNumber u path) := by
  unfold multipart family partNumber markedName fileName directories
  dsimp only
  cases fileMarker u (fileStem ((components path).getLast?.getD [])) <;> rfl

theorem SamePart.refl (p : Text) : SamePart u p p :=
  ⟨List.forall₂_same.mpr fun _ _ => Or.inl rfl, rfl, rfl⟩

theorem not_mem_fileName (path : Text) : '/' ∉ fileName path := by
  unfold fileName
  rw [List.getLast?_eq_some_getLast (components_ne_nil path), Option.getD_some]
  exact not_mem_components (List.getLast_mem _)

theorem not_mem_markedName {file : Text} (h : '/' ∉ file) : '/' ∉ markedName u file := by
  unfold markedName
  split
  · simp only [List.mem_append, not_or]
    refine ⟨⟨fun hmem => h (List.mem_of_mem_take hmem), by decide⟩,
      fun hmem => h (List.mem_of_mem_drop hmem)⟩
  · exact h

theorem not_mem_partDirectories {parts : List Text} (h : ∀ part ∈ parts, '/' ∉ part) :
    ∀ part ∈ partDirectories u parts, '/' ∉ part := by
  intro part hpart
  obtain ⟨component, hcomponent, rfl⟩ := List.mem_map.mp hpart
  split_ifs
  · decide
  · exact h component hcomponent

theorem sameDirectory_iff (c d : Text) :
    SameDirectory u c d ↔
      (if IsMarker u c then lit "{part}" else c) = if IsMarker u d then lit "{part}" else d := by
  unfold SameDirectory
  constructor
  · rintro (rfl | ⟨hc, hd⟩)
    · rfl
    · rw [ite_eq_left_iff.mpr fun hn => hc.resolve_right hn,
        ite_eq_left_iff.mpr fun hn => hd.resolve_right hn]
  · intro h
    split_ifs at h with hc hd hd
    · exact Or.inr ⟨Or.inr hc, Or.inr hd⟩
    · exact Or.inr ⟨Or.inr hc, Or.inl h.symm⟩
    · exact Or.inr ⟨Or.inl h, Or.inr hd⟩
    · exact Or.inl h

theorem partDirectories_eq_iff (cs ds : List Text) :
    partDirectories u cs = partDirectories u ds ↔ List.Forall₂ (SameDirectory u) cs ds := by
  have hmap : ∀ parts, partDirectories u parts =
      parts.map fun c => if IsMarker u c then lit "{part}" else c := fun _ => rfl
  rw [hmap, hmap, ← List.forall₂_eq_eq_eq, List.forall₂_map_left_iff, List.forall₂_map_right_iff]
  rw [show SameDirectory u = _ from funext₂ fun c d => propext (sameDirectory_iff u c d)]

theorem family_eq_iff (p q : Text) :
    family u p = family u q ↔
      List.Forall₂ (SameDirectory u) (directories p) (directories q) ∧
        markedName u (fileName p) = markedName u (fileName q) := by
  have hslash : ∀ path, ∀ part ∈ partDirectories u (directories path) ++
      [markedName u (fileName path)], '/' ∉ part := by
    intro path part hpart
    rcases List.mem_append.mp hpart with hpart | hpart
    · exact not_mem_partDirectories u
        (fun c hc => not_mem_components (List.dropLast_subset _ hc)) part hpart
    · rw [List.mem_singleton.mp hpart]
      exact not_mem_markedName u (not_mem_fileName path)
  unfold family
  rw [joinPath_inj (hslash p) (hslash q) (by simp) (by simp), List.append_singleton_inj,
    partDirectories_eq_iff]

/-- `multipart` compares paths component by component. -/
theorem multipart_eq_iff (p q : Text) : multipart u p = multipart u q ↔ SamePart u p q := by
  rw [multipart_eq, multipart_eq, Prod.mk.injEq, family_eq_iff]
  constructor
  · rintro ⟨⟨hdirs, hname⟩, hnumber⟩
    exact ⟨hdirs, hname, hnumber⟩
  · rintro ⟨hdirs, hname, hnumber⟩
    exact ⟨⟨hdirs, hname⟩, hnumber⟩

/-- Whether `detect` takes the path for a numbered part of a film. -/
def IsFilmPart (kind : MediaType) (path : Text) : Prop :=
  (kind = .movies ∨ kind = .anime) ∧ episodeGuess u kind path = none ∧
    (partNumber u path).isSome ∧ (filmGuess u path (partNumber u path)).isSome

instance (kind : MediaType) (path : Text) : Decidable (IsFilmPart u kind path) :=
  inferInstanceAs (Decidable (_ ∧ _ = none ∧ Option.isSome _ = true ∧ Option.isSome _ = true))

/-! ## Slots -/

/-- The place `detect` gives a part, within a root. -/
structure Slot where
  item : Text
  entry : Text
  ordinal : ℕ
  deriving DecidableEq

/-- The slots of an occurrence. -/
def NewOccurrence.slots (o : NewOccurrence) : List Slot :=
  o.entries.flatMap fun entry => entry.parts.map fun part =>
    ⟨o.occurrence, entry.occurrence, part.ordinal⟩

/-- The slot of the numbered part `n` of the release `family`. -/
def partSlot (family : Text) (n : ℕ) : Slot := ⟨lit "multipart:" ++ family, family, n⟩

/-- Where `detect` may put a path: a numbered part of a film into the slot that
    `multipart` names, and any other file into an entry that carries its path. -/
def SlotFor (kind : MediaType) (path : Text) (s : Slot) : Prop :=
  if IsFilmPart u kind path then
    ∃ n, partNumber u path = some n ∧ s = partSlot (family u path) n
  else s.entry = path ∧ ¬ lit "multipart:" <+: s.item

/-- The two checks of `put` on the kind of an entry that follow `compatible`. -/
def WellNumbered (kind : EntryKind) : Prop := positiveNumbers kind ∧ coverage kind = .ok ()

/-- An occurrence of one file, in the slot `s`, which the checks of `put` on the
    occurrence let pass in a collection of the type. -/
structure Sole (mediaType : MediaType) (o : NewOccurrence) (e : NewEntry) (s : Slot) : Prop where
  occurrence_eq : o.occurrence = s.item
  entries_eq : o.entries = [e]
  entry_eq : e.occurrence = s.entry
  parts_eq : e.parts = [⟨⟨[], []⟩, s.ordinal⟩]
  item_ne : s.item ≠ []
  entry_ne : s.entry ≠ []
  ordinal_pos : 0 < s.ordinal
  compatible : compatible mediaType e.kind
  numbered : WellNumbered e.kind

theorem Sole.slots_eq {mediaType : MediaType} {o : NewOccurrence} {e : NewEntry} {s : Slot}
    (h : Sole mediaType o e s) : o.slots = [s] := by
  rw [NewOccurrence.slots, h.entries_eq]
  simp [h.occurrence_eq, h.entry_eq, h.parts_eq]

theorem tagNumber_pos {media : MediaInfo} {name : String} {n : ℕ}
    (h : tagNumber media name = some n) : 0 < n := by
  have := (Option.filter_eq_some_iff.mp h).2
  simpa using this

theorem track_numbered {media : MediaInfo} {disc track : Option ℕ} :
    WellNumbered (.track ((tagNumber media "disc_number").or (disc.filter (· > 0)))
      ((tagNumber media "track_number").or (track.filter (· > 0)))) := by
  have hpos : ∀ (name : String) (o : Option ℕ),
      ((tagNumber media name).or (o.filter (· > 0))).all (· > 0) := by
    intro name o
    cases h : tagNumber media name with
    | some n => simpa using tagNumber_pos h
    | none => cases o <;> simp [Option.filter]; split <;> simp_all
  refine ⟨?_, rfl⟩
  rw [positiveNumbers, hpos, hpos, Bool.and_true]

theorem single_coverage {season : Option ℕ} {episode : ℕ} {episodeEnd : Option ℕ}
    (h : ¬ episodeEnd.getD episode < episode) :
    WellNumbered (.episode [⟨season, episode, episodeEnd⟩]) := by
  refine ⟨rfl, ?_⟩
  simp [coverage, checkCoverage, h]

theorem detectTrack_sole {path : Text} {media : MediaInfo} {o : NewOccurrence} (hpath : path ≠ [])
    (h : detectTrack u path media = some o) :
    ∃ entry s, Sole .music o entry s ∧ s.entry = path ∧ ¬ lit "multipart:" <+: s.item := by
  unfold detectTrack at h
  generalize ownerDirectory u path true = owner at h
  obtain ⟨parent, discFolder⟩ := owner
  dsimp only at h
  generalize (tag media "album").or _ = album at h
  cases album with
  | none => cases h
  | some title =>
    cases Option.some.inj h
    refine ⟨_, ⟨_, path, 1⟩, ⟨rfl, rfl, rfl, rfl, ?_, hpath, Nat.one_pos, rfl, track_numbered⟩,
      rfl, ?_⟩
    · dsimp only
      split_ifs <;> simp [lit]
    · dsimp only
      split_ifs <;> simp [lit, List.prefix_iff_eq_take]

theorem detectEpisode_sole {kind : MediaType} {path : Text} {media : MediaInfo}
    {guess : EpisodeGuess} {o : NewOccurrence} (hpath : path ≠ [])
    (hkind : kind = .series ∨ kind = .anime) (h : detectEpisode u path media guess = some o) :
    ∃ entry s, Sole kind o entry s ∧ s.entry = path ∧ ¬ lit "multipart:" <+: s.item := by
  unfold detectEpisode at h
  split_ifs at h with hend
  dsimp only at h
  cases Option.some.inj h
  refine ⟨_, ⟨_, path, 1⟩, ⟨rfl, rfl, rfl, rfl, ?_, hpath, Nat.one_pos, ?_, single_coverage hend⟩,
    rfl, ?_⟩
  · dsimp only
    split_ifs <;> simp [lit]
  · rcases hkind with rfl | rfl <;> rfl
  · dsimp only
    split_ifs <;> simp [lit, List.prefix_iff_eq_take]

theorem partNumber_pos {path : Text} {n : ℕ} (h : partNumber u path = some n) : 0 < n := by
  unfold partNumber at h
  split at h
  · rename_i a stop m hmarker
    obtain ⟨⟨⟨a, b⟩, index⟩, -, htoken⟩ := List.exists_of_findSome?_eq_some hmarker
    cases h
    dsimp only at htoken
    split at htoken
    · cases htoken
    · obtain ⟨marker, hfilter, hmap⟩ := Option.map_eq_some_iff.mp htoken
      have hpos := (Option.filter_eq_some_iff.mp hfilter).2
      cases hmap
      simpa using hpos
  · obtain ⟨component, -, hcomponent⟩ := List.exists_of_findSome?_eq_some h
    simpa using (Option.filter_eq_some_iff.mp hcomponent).2

theorem family_ne_nil {path : Text} (h : (partNumber u path).isSome) : family u path ≠ [] := by
  intro hnil
  have hparts : partDirectories u (directories path) ++ [markedName u (fileName path)] = [[]] := by
    unfold family at hnil
    refine (joinPath_inj ?_ (by simp) (by simp) (by simp)).mp hnil
    intro part hpart
    rcases List.mem_append.mp hpart with hpart | hpart
    · exact not_mem_partDirectories u
        (fun c hc => not_mem_components (List.dropLast_subset _ hc)) part hpart
    · rw [List.mem_singleton.mp hpart]
      exact not_mem_markedName u (not_mem_fileName path)
  obtain ⟨hdirs, hname⟩ := List.append_eq_singleton_iff.mp hparts |>.resolve_right (by simp)
  rw [List.singleton_inj] at hname
  have hnone : fileMarker u (fileStem (fileName path)) = none := by
    unfold markedName at hname
    split at hname
    · simp [lit] at hname
    · assumption
  have hempty : directories path = [] := by
    simpa [partDirectories] using hdirs
  simp [partNumber, hnone, hempty, directoryPart] at h

theorem detectFilm_sole {kind : MediaType} {path : Text} {media : MediaInfo} {o : NewOccurrence}
    (hpath : path ≠ []) (hkind : kind = .movies ∨ kind = .anime)
    (hepisode : episodeGuess u kind path = none) (h : detectFilm u path media = some o) :
    ∃ entry s, Sole kind o entry s ∧ SlotFor u kind path s := by
  unfold detectFilm at h
  rw [multipart_eq] at h
  obtain ⟨guess, hguess, rfl⟩ := Option.map_eq_some_iff.mp h
  have hcompatible : compatible kind .movie := by rcases hkind with rfl | rfl <;> rfl
  have hnumbered : WellNumbered .movie := ⟨rfl, rfl⟩
  cases hpart : partNumber u path with
  | some n =>
    rw [hpart] at hguess
    have hfilm : IsFilmPart u kind path := by
      refine ⟨hkind, hepisode, by rw [hpart]; rfl, ?_⟩
      rw [hpart, hguess]
      rfl
    refine ⟨_, partSlot (family u path) n, ⟨rfl, rfl, rfl, rfl, ?_, ?_, ?_, hcompatible, hnumbered⟩,
      ?_⟩
    · simp [partSlot, lit]
    · exact family_ne_nil u (by rw [hpart]; rfl)
    · exact partNumber_pos u hpart
    · rw [SlotFor, if_pos hfilm]
      exact ⟨n, hpart, rfl⟩
  | none =>
    have hfilm : ¬ IsFilmPart u kind path := by
      rintro ⟨-, -, hsome, -⟩
      rw [hpart] at hsome
      cases hsome
    refine ⟨_, ⟨_, path, 1⟩, ⟨rfl, rfl, rfl, rfl, ?_, hpath, Nat.one_pos, hcompatible, hnumbered⟩,
      ?_⟩
    · simp [lit]
    · rw [SlotFor, if_neg hfilm]
      exact ⟨rfl, by simp [lit, List.prefix_iff_eq_take]⟩

/-- What `detect` returns describes one file, in a slot for its path, and passes
    the checks of `put`. -/
theorem detect_sole {kind : MediaType} {path : Text} {media : MediaInfo} {o : NewOccurrence}
    (hpath : path ≠ []) (h : detect u kind path media = some o) :
    ∃ entry s, Sole kind o entry s ∧ SlotFor u kind path s := by
  have hother : ¬ IsFilmPart u kind path → (∃ entry s, Sole kind o entry s ∧ s.entry = path ∧
      ¬ lit "multipart:" <+: s.item) → ∃ entry s, Sole kind o entry s ∧ SlotFor u kind path s := by
    rintro hfilm ⟨entry, s, hsole, hs⟩
    refine ⟨entry, s, hsole, ?_⟩
    rw [SlotFor, if_neg hfilm]
    exact hs
  unfold detect at h
  by_cases hmusic : kind = .music
  · rw [if_pos hmusic] at h
    subst hmusic
    exact hother (by rintro ⟨hkind | hkind, -⟩ <;> cases hkind) (detectTrack_sole u hpath h)
  · rw [if_neg hmusic] at h
    cases hguess : episodeGuess u kind path with
    | some guess =>
      rw [hguess] at h
      refine hother (fun hfilm => ?_) (detectEpisode_sole u hpath ?_ h)
      · rw [hfilm.2.1] at hguess
        cases hguess
      · cases kind with
        | series => exact Or.inl rfl
        | anime => exact Or.inr rfl
        | movies => cases hguess
        | music => exact absurd rfl hmusic
    | none =>
      rw [hguess] at h
      dsimp only at h
      split_ifs at h with hseries
      refine detectFilm_sole u hpath ?_ hguess h
      cases kind with
      | movies => exact Or.inl rfl
      | anime => exact Or.inr rfl
      | series => exact absurd rfl hseries
      | music => exact absurd rfl hmusic

/-- A numbered part of a film is always detected. -/
theorem detect_filmPart {kind : MediaType} {path : Text} (media : MediaInfo)
    (h : IsFilmPart u kind path) : ∃ o, detect u kind path media = some o := by
  obtain ⟨hkind, hepisode, hpart, hguess⟩ := h
  obtain ⟨guess, hguess⟩ := Option.isSome_iff_exists.mp hguess
  have hfilm : ∃ o, detectFilm u path media = some o := by
    unfold detectFilm
    rw [multipart_eq]
    dsimp only
    rw [hguess]
    exact ⟨_, rfl⟩
  obtain ⟨o, ho⟩ := hfilm
  refine ⟨o, ?_⟩
  unfold detect
  rw [hepisode]
  rcases hkind with rfl | rfl <;> simpa using ho

/-- Two numbered parts of films that `multipart` takes for the same part. -/
def Clash (kind : MediaType) (p q : Text) : Prop :=
  IsFilmPart u kind p ∧ IsFilmPart u kind q ∧ SamePart u p q

/-- Only clashing paths may get the same slot. -/
theorem clash_of_slotFor {kind : MediaType} {p q : Text} {s : Slot} (hp : SlotFor u kind p s)
    (hq : SlotFor u kind q s) (hne : p ≠ q) : Clash u kind p q := by
  unfold SlotFor at hp hq
  split_ifs at hp hq with hfilm hfilm'
  · obtain ⟨n, hn, rfl⟩ := hp
    obtain ⟨m, hm, hslot⟩ := hq
    obtain ⟨-, hfamily, hnumber⟩ := Slot.mk.inj hslot
    refine ⟨hfilm, hfilm', (multipart_eq_iff u p q).mp ?_⟩
    rw [multipart_eq, multipart_eq, hn, hm, hfamily, hnumber]
  · obtain ⟨n, -, rfl⟩ := hp
    exact absurd (List.prefix_append _ _) hq.2
  · obtain ⟨n, -, rfl⟩ := hq
    exact absurd (List.prefix_append _ _) hp.2
  · exact absurd (hp.1.symm.trans hq.1) hne

/-- Clashing paths always get the same slot. -/
theorem Clash.slot_eq {kind : MediaType} {p q : Text} {s s' : Slot} (h : Clash u kind p q)
    (hp : SlotFor u kind p s) (hq : SlotFor u kind q s') : s = s' := by
  obtain ⟨hfilm, hfilm', hsame⟩ := h
  rw [SlotFor, if_pos hfilm] at hp
  rw [SlotFor, if_pos hfilm'] at hq
  obtain ⟨n, hn, rfl⟩ := hp
  obtain ⟨m, hm, rfl⟩ := hq
  have hmultipart := (multipart_eq_iff u p q).mpr hsame
  rw [multipart_eq, multipart_eq, hn, hm] at hmultipart
  obtain ⟨hfamily, hnumber⟩ := Prod.mk.inj hmultipart
  rw [hfamily, Option.some.inj hnumber]

end Kahawai.MediaDb
