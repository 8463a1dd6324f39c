import Kahawai.Hub.Backup.Staging

/-!
# Snapshots that are complete

A snapshot whose manifest lists its files, with names that are portable, is staged as it is.

Results:
* `exists_artifactPath`: a portable path is the path of its artifact.
* `stageArtifacts_of_complete`: a complete snapshot is staged.
-/

namespace Kahawai.Hub.Backup

open Kahawai.Core Kahawai.Lib Kahawai.Lib.Files

/-! ## Portable paths -/

/-- A portable UTF-8 file name. -/
def PortableName (name : Text) : Prop :=
  name ≠ [] ∧ '/' ∉ name ∧ '\\' ∉ name ∧ name ≠ lit "." ∧ name ≠ lit ".."

/-- A path of portable names. -/
def Portable (p : Path) : Prop :=
  ∃ names : List Text, names ≠ [] ∧ p = names.map .utf8 ∧ ∀ name ∈ names, PortableName name

theorem joinPath_singleton (name : Text) : Text.joinPath [name] = name := by
  simp [Text.joinPath, List.intercalate]

theorem joinPath_cons (name : Text) {names : List Text} (h : names ≠ []) :
    Text.joinPath (name :: names) = name ++ '/' :: Text.joinPath names := by
  obtain ⟨next, names, rfl⟩ := List.exists_cons_of_ne_nil h
  rfl

theorem push_names {names : List Text} (hnames : ∀ name ∈ names, PortableName name) {path : Text}
    (hpath : path ≠ []) :
    (names.map fun name => Component.normal (.utf8 name)).foldlM pushComponent path =
      .ok (if names = [] then path else path ++ '/' :: Text.joinPath names) := by
  induction names generalizing path with
  | nil => rfl
  | cons name names ih =>
    have hname := hnames name List.mem_cons_self
    have hpush : pushComponent path (.normal (.utf8 name)) = .ok (path ++ '/' :: name) := by
      rw [pushComponent, if_neg hname.2.2.1, if_neg hpath]
    have hne : path ++ '/' :: name ≠ [] := List.append_ne_nil_of_right_ne_nil _ (List.cons_ne_nil _ _)
    rw [List.map_cons, List.foldlM_cons, hpush]
    change (names.map fun name => Component.normal (.utf8 name)).foldlM pushComponent (path ++ '/' :: name) = _
    rw [ih (fun n hn => hnames n (List.mem_cons_of_mem _ hn)) hne, if_neg (List.cons_ne_nil _ _)]
    by_cases hnil : names = []
    · rw [if_pos hnil, hnil, joinPath_singleton]
    · rw [if_neg hnil, joinPath_cons name hnil, List.append_assoc, List.cons_append]

theorem artifactPath_names {names : List Text} (hne : names ≠ [])
    (hnames : ∀ name ∈ names, PortableName name) :
    artifactPath (names.map fun name => .normal (.utf8 name)) = .ok (Text.joinPath names) := by
  obtain ⟨name, names, rfl⟩ := List.exists_cons_of_ne_nil hne
  have hname := hnames name List.mem_cons_self
  have hpush : pushComponent [] (.normal (.utf8 name)) = .ok name := by
    rw [pushComponent, if_neg hname.2.2.1, if_pos rfl]
  have hfold : ((name :: names).map fun name => Component.normal (.utf8 name)).foldlM pushComponent [] =
      .ok (Text.joinPath (name :: names)) := by
    rw [List.map_cons, List.foldlM_cons, hpush]
    change (names.map fun name => Component.normal (.utf8 name)).foldlM pushComponent name = _
    rw [push_names (fun n hn => hnames n (List.mem_cons_of_mem _ hn)) hname.1]
    by_cases hnil : names = []
    · rw [if_pos hnil, hnil, joinPath_singleton]
    · rw [if_neg hnil, joinPath_cons name hnil]
  have hjoin : Text.joinPath (name :: names) ≠ [] := by
    by_cases hnil : names = []
    · rw [hnil, joinPath_singleton]
      exact hname.1
    · rw [joinPath_cons name hnil]
      exact List.append_ne_nil_of_right_ne_nil _ (List.cons_ne_nil _ _)
  unfold artifactPath
  rw [hfold]
  change (if Text.joinPath (name :: names) = [] then _ else _) = _
  rw [if_neg hjoin]

theorem components_joinPath {names : List Text} (hne : names ≠ [])
    (hnames : ∀ name ∈ names, PortableName name) :
    components (Text.joinPath names) = names.map fun name => .normal (.utf8 name) := by
  have hsplit : Text.components (Text.joinPath names) = names :=
    splitOn_join hne fun name hname => (hnames name hname).2.1
  have hparts : names.filterMap componentOf = names.map fun name => .normal (.utf8 name) := by
    rw [← List.filterMap_eq_map']
    refine List.filterMap_congr fun name hname => ?_
    obtain ⟨hnil, -, -, hdot, hdots⟩ := hnames name hname
    rw [componentOf, if_neg (not_or.mpr ⟨hnil, hdot⟩), if_neg hdots]
  obtain ⟨name, rest, rfl⟩ := List.exists_cons_of_ne_nil hne
  have hname := hnames name List.mem_cons_self
  have hroot : Text.startsWith (lit "/") (Text.joinPath (name :: rest)) = false := by
    obtain ⟨c, cs, rfl⟩ := List.exists_cons_of_ne_nil hname.1
    have hc : c ≠ '/' := fun h => hname.2.1 (h ▸ List.mem_cons_self)
    have hjoin : ∃ t, Text.joinPath ((c :: cs) :: rest) = c :: t := by
      by_cases hnil : rest = []
      · exact ⟨cs, by rw [hnil, joinPath_singleton]⟩
      · exact ⟨_, by rw [joinPath_cons _ hnil, List.cons_append]⟩
    obtain ⟨t, ht⟩ := hjoin
    rw [ht]
    change ('/' == c && _) = false
    rw [beq_false_of_ne hc.symm, Bool.false_and]
  unfold components
  rw [hsplit, hroot]
  dsimp only
  rw [hparts, if_neg Bool.false_ne_true, List.head?_cons,
    if_neg fun h => hname.2.2.2.1 (Option.some.inj h)]

/-- A portable path is the path of its artifact. -/
theorem exists_artifactPath {p : Path} (hp : Portable p) :
    ∃ s, artifactPath (p.map .normal) = .ok s ∧ artifactPath (components s) = .ok s ∧ artifactFile s = p := by
  obtain ⟨names, hne, rfl, hnames⟩ := hp
  have hpath := artifactPath_names hne hnames
  have hcomponents := components_joinPath hne hnames
  refine ⟨Text.joinPath names, ?_, ?_, ?_⟩
  · rw [List.map_map]
    exact hpath
  · rw [hcomponents, hpath]
  · rw [artifactFile, hcomponents, locate_names, List.nil_append]

/-! ## Complete snapshots -/

/-- The path of a file in the manifest. -/
def pathText (p : Path) : Text := (artifactPath (p.map .normal)).toOption.getD []

/-- The artifact of a file. -/
def artifactOf (sha256 : Bytes → Text) (f : File) : Artifact := ⟨pathText f.1, f.2.length, sha256 f.2⟩

theorem artifactPath_of_portable {p : Path} (hp : Portable p) :
    artifactPath (p.map .normal) = .ok (pathText p) ∧ artifactPath (components (pathText p)) = .ok (pathText p) ∧
      artifactFile (pathText p) = p := by
  obtain ⟨s, hpath, hrest⟩ := exists_artifactPath hp
  have htext : pathText p = s := by
    rw [pathText, hpath]
    rfl
  rw [htext]
  exact ⟨hpath, hrest⟩

theorem pathText_injective {p p' : Path} (hp : Portable p) (hp' : Portable p') (h : pathText p = pathText p') :
    p = p' := by
  rw [← (artifactPath_of_portable hp).2.2, h, (artifactPath_of_portable hp').2.2]

/-- The files of a directory: portable, and none of them above another. -/
structure Separate (files : List File) : Prop where
  portable : ∀ f ∈ files, Portable f.1
  nodup : (files.map Prod.fst).Nodup
  free : ∀ f ∈ files, ∀ g ∈ files, f.1 <+: g.1 → f.1 = g.1

/-- The digests are written in lower-case hexadecimal digits. -/
def Hex (sha256 : Bytes → Text) : Prop :=
  ∀ b, Text.byteLen (sha256 b) = 64 ∧ (sha256 b).all isLowerHex = true

/-- The snapshot shows the files and the manifest, and nothing else, and it does not change. -/
structure Shows (x : Snapshot) (files : List File) : Prop where
  walk : ∀ v ∈ x.walk, ∃ r, v = .file r ∧ (r = [.utf8 manifestFile] ∨ ∃ b, (r, b) ∈ files)
  walked : ∀ f ∈ files, .file f.1 ∈ x.walk
  read : ∀ f ∈ files, x.read f.1 = some f.2
  ne_manifest : ∀ f ∈ files, f.1 ≠ [.utf8 manifestFile]

variable {sha256 : Bytes → Text} {x : Snapshot} {staging : Path} {fs : World} {files : List File}

theorem exists_expected {listed before : List Artifact} {expected : List (Text × Artifact)}
    (hbefore : Expects before expected)
    (hlisted : ∀ a ∈ listed, (Text.byteLen a.sha256 = 64 ∧ a.sha256.all isLowerHex = true) ∧
      artifactPath (components a.path) = .ok a.path)
    (hnodup : ((before ++ listed).map Artifact.path).Nodup) :
    ∃ expected', listed.foldlM expectArtifact expected = .ok expected' := by
  induction listed generalizing before expected with
  | nil => exact ⟨expected, rfl⟩
  | cons a listed ih =>
    obtain ⟨hhex, hpath⟩ := hlisted a List.mem_cons_self
    have hnone : SortedMap.get? a.path expected = none := by
      cases hget : SortedMap.get? a.path expected with
      | none => rfl
      | some b =>
        have hmem := (SortedMap.mem_iff_get? hbefore.sorted).mpr hget
        have hb : a.path = b.path := (hbefore.accepted _ hmem).1
        have hlater : b ∈ before := (hbefore.mem b).mp (hb ▸ hmem)
        rw [List.map_append, List.map_cons, List.nodup_append] at hnodup
        exact absurd hb.symm (hnodup.2.2 b.path (List.mem_map_of_mem hlater) a.path List.mem_cons_self)
    have hpush : expectArtifact expected a = .ok (SortedMap.upsert a.path (fun _ => a) expected) := by
      unfold expectArtifact
      rw [if_neg (not_not.mpr hhex), hpath]
      change (if a.path ≠ a.path then _ else _) = _
      rw [if_neg (not_not.mpr rfl), hnone]
      rfl
    rw [List.foldlM_cons, hpush]
    refine ih (hbefore.push hpush) (fun a' ha' => hlisted a' (List.mem_cons_of_mem _ ha')) ?_
    rwa [List.append_assoc, List.singleton_append]

/-- What was collected so far. -/
structure Collected (files : List File) (artifacts : List (Text × Path)) : Prop where
  sorted : SortedMap.Sorted artifacts
  sound : ∀ k r, SortedMap.get? k artifacts = some r → k = pathText r ∧ ∃ b, (r, b) ∈ files

theorem Collected.get?_eq (hfiles : Separate files) {artifacts : List (Text × Path)}
    (h : Collected files artifacts) {f : File} (hf : f ∈ files)
    (hsome : SortedMap.get? (pathText f.1) artifacts ≠ none) :
    SortedMap.get? (pathText f.1) artifacts = some f.1 := by
  obtain ⟨r, hr⟩ := Option.ne_none_iff_exists'.mp hsome
  obtain ⟨htext, b, hb⟩ := h.sound _ r hr
  rw [hr, pathText_injective (hfiles.portable f hf) (hfiles.portable _ hb) htext]

theorem exists_collected (hfiles : Separate files) {walk : List Visit}
    (hwalk : ∀ v ∈ walk, ∃ r, v = .file r ∧ (r = [.utf8 manifestFile] ∨ ∃ b, (r, b) ∈ files))
    {artifacts : List (Text × Path)} (h : Collected files artifacts) :
    ∃ actual, walk.foldlM collectVisit artifacts = .ok actual ∧ Collected files actual ∧
      (∀ k, SortedMap.get? k artifacts ≠ none → SortedMap.get? k actual ≠ none) ∧
      ∀ f ∈ files, f.1 ≠ [.utf8 manifestFile] → .file f.1 ∈ walk →
        SortedMap.get? (pathText f.1) actual ≠ none := by
  induction walk generalizing artifacts with
  | nil => exact ⟨artifacts, rfl, h, fun _ hk => hk, fun _ _ _ hmem => absurd hmem List.not_mem_nil⟩
  | cons v walk ih =>
    obtain ⟨r, rfl, hr⟩ := hwalk v List.mem_cons_self
    have hrest : ∀ v ∈ walk, ∃ r, v = .file r ∧ (r = [.utf8 manifestFile] ∨ ∃ b, (r, b) ∈ files) :=
      fun v hv => hwalk v (List.mem_cons_of_mem _ hv)
    by_cases hmanifest : r = [.utf8 manifestFile]
    · have hvisit : collectVisit artifacts (.file r) = .ok artifacts := by
        rw [collectVisit, if_pos hmanifest]
      obtain ⟨actual, hactual, hcollected, hkept, hfound⟩ := ih hrest h
      refine ⟨actual, by rw [List.foldlM_cons, hvisit]; exact hactual, hcollected, hkept, ?_⟩
      intro f hf hne hmem
      rcases List.mem_cons.mp hmem with heq | hmem
      · cases heq
        exact absurd hmanifest hne
      · exact hfound f hf hne hmem
    · obtain ⟨b, hb⟩ := hr.resolve_left hmanifest
      have hpath := (artifactPath_of_portable (hfiles.portable _ hb)).1
      have hvisit : collectVisit artifacts (.file r) =
          .ok (SortedMap.upsert (pathText r) (fun _ => r) artifacts) := by
        rw [collectVisit, if_neg hmanifest, hpath]
        rfl
      have hget : ∀ k, SortedMap.get? k (SortedMap.upsert (pathText r) (fun _ => r) artifacts) =
          if pathText r = k then some r else SortedMap.get? k artifacts := by
        intro k
        rw [SortedMap.get?_upsert h.sorted]
        split_ifs <;> rfl
      have hpushed : Collected files (SortedMap.upsert (pathText r) (fun _ => r) artifacts) := by
        refine ⟨SortedMap.sorted_upsert h.sorted, fun k r' hk => ?_⟩
        rw [hget] at hk
        split_ifs at hk with heq
        · cases hk
          exact ⟨heq.symm, b, hb⟩
        · exact h.sound k r' hk
      obtain ⟨actual, hactual, hcollected, hkept, hfound⟩ := ih hrest hpushed
      refine ⟨actual, by rw [List.foldlM_cons, hvisit]; exact hactual, hcollected, fun k hk => ?_, ?_⟩
      · refine hkept k ?_
        rw [hget]
        split_ifs
        · exact Option.some_ne_none _
        · exact hk
      · intro f hf hne hmem
        rcases List.mem_cons.mp hmem with heq | hmem
        · cases heq
          refine hkept _ ?_
          rw [hget, if_pos rfl]
          exact Option.some_ne_none _
        · exact hfound f hf hne hmem

theorem get?_filter {k path : Text} (hne : k ≠ path) (actual : List (Text × Path)) :
    SortedMap.get? k (actual.filter fun e => e.1 ≠ path) = SortedMap.get? k actual := by
  induction actual with
  | nil => rfl
  | cons e actual ih =>
    by_cases he : e.1 = path
    · have hek : ¬ e.1 = k := fun hek => hne (hek.symm.trans he)
      rw [List.filter_cons_of_neg (by simpa using he), SortedMap.get?, if_neg hek, ih]
    · rw [List.filter_cons_of_pos (by simpa using he), SortedMap.get?, SortedMap.get?, ih]

/-- The entry of a file among the expected artifacts. -/
def entryOf (sha256 : Bytes → Text) (f : File) : Text × Artifact := (pathText f.1, artifactOf sha256 f)

/-- Nothing is in the way of the next file. -/
theorem exists_staged (hfiles : Separate files) {staged : List File} (hstaged : ∀ f ∈ staged, f ∈ files)
    (hfs : Holds fs staging staged) {f : File} (hf : f ∈ files) (hnew : f.1 ∉ staged.map Prod.fst)
    (hne : f.1 ≠ []) :
    ∃ fs', (Op.makeDirs (staging ++ f.1).dropLast).run fs >>= FileSystem.add (staging ++ f.1) (.file f.2) =
      some fs' := by
  have hmem : ∀ r c, staged.lookup r = some c → (r, c) ∈ staged := by
    intro r c hc
    obtain ⟨before, after, hsplit, -⟩ := List.lookup_eq_some_iff.mp hc
    exact hsplit ▸ List.mem_append_right _ List.mem_cons_self
  refine (exists_write_iff hne hfs).mpr ⟨fun r hr => ?_, ?_⟩
  · by_cases hnil : r = []
    · rw [hnil, nodeOf_nil]
      rfl
    cases hc : staged.lookup r with
    | none =>
      rw [nodeOf_of_lookup_none hnil hc]
      split_ifs <;> rfl
    | some c =>
      -- the file that is there would lie above the next one
      have hsame := hfiles.free _ (hstaged _ (hmem r c hc)) f hf (hr.trans (List.dropLast_prefix _))
      have hlength := hr.length_le
      rw [show r = f.1 from hsame, List.length_dropLast] at hlength
      have hpos := List.length_pos_iff.mpr hne
      omega
  · have hlookup : staged.lookup f.1 = none := by
      cases hc : staged.lookup f.1 with
      | none => rfl
      | some c => exact absurd (List.mem_map_of_mem (hmem _ c hc)) hnew
    rw [nodeOf_of_lookup_none hne hlookup, if_neg]
    rintro ⟨g, hg, hprefix⟩
    exact hnew (hfiles.free f hf g (hstaged g hg) hprefix ▸ List.mem_map_of_mem hg)

theorem stageFile_of_shows (hfiles : Separate files) (hshows : Shows x files) {staged : List File}
    (hstaged : ∀ f ∈ staged, f ∈ files) (hfs : Holds fs staging staged) {f : File} (hf : f ∈ files)
    (hnew : f.1 ∉ staged.map Prod.fst) :
    ∃ fs', stageFile sha256 x staging (artifactOf sha256 f) f.1 fs = (.ok f, fs') := by
  obtain ⟨-, hsafe, hpath⟩ := artifactPath_of_portable (hfiles.portable f hf)
  have hne : f.1 ≠ [] := hpath ▸ artifactFile_ne_nil hsafe
  obtain ⟨fs', hfs'⟩ := exists_staged hfiles hstaged hfs hf hnew hne
  have hlocate : ∀ base, locate base (components (artifactOf sha256 f).path) = base ++ f.1 := fun base =>
    (locate_artifact hsafe base).trans (by rw [hpath])
  refine ⟨fs', ?_⟩
  unfold stageFile
  rw [hshows.read f hf]
  dsimp only
  rw [hlocate, hlocate, hfs']
  dsimp only
  have hbytes : f.2.length = (artifactOf sha256 f).bytes := rfl
  have hdigest : sha256 f.2 = (artifactOf sha256 f).sha256 := rfl
  rw [if_neg (not_not.mpr hbytes), if_neg (not_not.mpr hdigest), List.nil_append]

theorem stageFiles_of_shows (hfiles : Separate files) (hshows : Shows x files) {rest : List File}
    {actual : List (Text × Path)} {staged : List File} (hmem : ∀ f ∈ staged ++ rest, f ∈ files)
    (hnodup : ((staged ++ rest).map Prod.fst).Nodup) (hfs : Holds fs staging staged)
    (hactual : ∀ f ∈ rest, SortedMap.get? (pathText f.1) actual = some f.1)
    (hkeys : ∀ e ∈ actual, ∃ f ∈ rest, e.1 = pathText f.1) :
    ∃ fs', stageFiles sha256 x staging (rest.map (entryOf sha256)) actual staged fs = (.ok (staged ++ rest), fs') := by
  induction rest generalizing actual staged fs with
  | nil =>
    have hnil : actual = [] := by
      cases actual with
      | nil => rfl
      | cons e actual =>
        obtain ⟨f, hf, -⟩ := hkeys e List.mem_cons_self
        exact absurd hf List.not_mem_nil
    refine ⟨fs, ?_⟩
    rw [hnil, List.append_nil]
    rfl
  | cons f rest ih =>
    have hf : f ∈ files := hmem f (List.mem_append_right _ List.mem_cons_self)
    have hstaged : ∀ g ∈ staged, g ∈ files := fun g hg => hmem g (List.mem_append_left _ hg)
    have hnew : f.1 ∉ staged.map Prod.fst := by
      rw [List.map_append, List.map_cons, List.nodup_append] at hnodup
      exact fun h => hnodup.2.2 f.1 h f.1 List.mem_cons_self rfl
    obtain ⟨fs₁, hfile⟩ : ∃ fs₁, stageFile sha256 x staging (artifactOf sha256 f) f.1 fs = (.ok f, fs₁) :=
      stageFile_of_shows hfiles hshows hstaged hfs hf hnew
    obtain ⟨-, hsafe, -⟩ := artifactPath_of_portable (hfiles.portable f hf)
    have hholds := ((stageFile_spec hsafe hfs hfile).2 f rfl).1
    have happend : staged ++ f :: rest = staged ++ [f] ++ rest := by
      rw [List.append_assoc, List.singleton_append]
    rw [happend] at hmem hnodup
    have hne : ∀ g ∈ rest, pathText g.1 ≠ pathText f.1 := by
      intro g hg heq
      have hsame := pathText_injective (hfiles.portable g (hmem g (List.mem_append_right _ hg)))
        (hfiles.portable f hf) heq
      rw [List.map_append, List.nodup_append] at hnodup
      exact hnodup.2.2 f.1 (List.mem_map_of_mem (List.mem_append_right _ List.mem_cons_self)) g.1
        (List.mem_map_of_mem hg) hsame.symm
    obtain ⟨fs', hrest⟩ := ih hmem hnodup hholds
      (fun g hg => (get?_filter (hne g hg) actual).trans (hactual g (List.mem_cons_of_mem _ hg)))
      (fun e he => by
        obtain ⟨hmemE, hneE⟩ := List.mem_filter.mp he
        obtain ⟨g, hg, hkey⟩ := hkeys e hmemE
        rcases List.mem_cons.mp hg with rfl | hg
        · exact absurd hkey (of_decide_eq_true hneE)
        · exact ⟨g, hg, hkey⟩)
    refine ⟨fs', ?_⟩
    rw [List.map_cons, happend]
    unfold stageFiles entryOf
    dsimp only
    rw [hactual f List.mem_cons_self]
    dsimp only
    rw [hfile]
    exact hrest

theorem exists_map_eq {α β : Type*} {f : α → β} {P : α → Prop} {l : List β} (h : ∀ b ∈ l, ∃ a, P a ∧ f a = b) :
    ∃ l' : List α, (∀ a ∈ l', P a) ∧ l'.map f = l := by
  induction l with
  | nil => exact ⟨[], fun _ ha => absurd ha List.not_mem_nil, rfl⟩
  | cons b l ih =>
    obtain ⟨a, ha, hb⟩ := h b List.mem_cons_self
    obtain ⟨l', hl', hmap⟩ := ih fun b hb => h b (List.mem_cons_of_mem _ hb)
    exact ⟨a :: l', List.forall_mem_cons.mpr ⟨ha, hl'⟩, by rw [List.map_cons, hb, hmap]⟩

/-- The expected artifacts are the files, in the order of their paths. -/
theorem exists_entries (hfiles : Separate files) {listed : List Artifact}
    (hlisted : listed.Perm (files.map (artifactOf sha256))) {expected : List (Text × Artifact)}
    (hexpects : Expects listed expected) :
    ∃ sorted : List File, sorted.Perm files ∧ expected = sorted.map (entryOf sha256) := by
  have hentry : ∀ e ∈ expected, ∃ f, f ∈ files ∧ entryOf sha256 f = e := by
    rintro ⟨path, a⟩ he
    have hpath : path = a.path := (hexpects.accepted _ he).1
    have ha : a ∈ listed := (hexpects.mem a).mp (hpath ▸ he)
    obtain ⟨f, hf, rfl⟩ := List.mem_map.mp (hlisted.mem_iff.mp ha)
    exact ⟨f, hf, by rw [hpath]; rfl⟩
  obtain ⟨sorted, hsorted, rfl⟩ := exists_map_eq hentry
  refine ⟨sorted, (List.perm_ext_iff_of_nodup ?_ hfiles.nodup.of_map).mpr fun f => ⟨hsorted f, fun hf => ?_⟩, rfl⟩
  · have hkeys := hexpects.sorted
    refine (List.pairwise_map.mp hkeys).imp ?_
    rintro f g hlt rfl
    exact lt_irrefl _ hlt
  · have ha : artifactOf sha256 f ∈ listed := hlisted.mem_iff.mpr (List.mem_map_of_mem hf)
    obtain ⟨g, hg, heq⟩ := List.mem_map.mp ((hexpects.mem _).mpr ha)
    have hpath : pathText g.1 = pathText f.1 := congrArg Prod.fst heq
    have hsame : g.1 = f.1 :=
      pathText_injective (hfiles.portable g (hsorted g hg)) (hfiles.portable f hf) hpath
    have hfg : g = f := List.inj_on_of_nodup_map hfiles.nodup (hsorted g hg) hf hsame
    exact hfg ▸ hg

/-- A complete snapshot is staged. -/
theorem stageArtifacts_of_complete (hhex : Hex sha256) (hfiles : Separate files) (hshows : Shows x files)
    {listed : List Artifact} (hlisted : listed.Perm (files.map (artifactOf sha256)))
    (hfs : Holds fs staging []) :
    ∃ staged fs', stageArtifacts sha256 x staging listed fs = (.ok staged, fs') ∧ staged.Perm files := by
  have hnodup : ((files.map (artifactOf sha256)).map Artifact.path).Nodup := by
    rw [List.map_map]
    have hinj : ((files.map Prod.fst).map pathText).Nodup := by
      refine List.Nodup.map_on (fun p hp q hq heq => ?_) hfiles.nodup
      obtain ⟨f, hf, rfl⟩ := List.mem_map.mp hp
      obtain ⟨g, hg, rfl⟩ := List.mem_map.mp hq
      exact pathText_injective (hfiles.portable f hf) (hfiles.portable g hg) heq
    rwa [List.map_map] at hinj
  obtain ⟨expected, hexpected⟩ : ∃ expected, expectedArtifacts listed = .ok expected := by
    have hnil : Expects [] [] := ⟨.nil, fun _ h => absurd h List.not_mem_nil, fun _ => by simp⟩
    refine exists_expected hnil (fun a ha => ?_) ((hlisted.map Artifact.path).nodup_iff.mpr hnodup)
    obtain ⟨f, hf, rfl⟩ := List.mem_map.mp (hlisted.mem_iff.mp ha)
    exact ⟨hhex f.2, (artifactPath_of_portable (hfiles.portable f hf)).2.1⟩
  obtain ⟨sorted, hperm, rfl⟩ := exists_entries hfiles hlisted (expects_of_ok hexpected)
  have hnothing : Collected files [] := ⟨.nil, fun _ _ h => nomatch h⟩
  obtain ⟨actual, hactual, hcollected, -, hfound⟩ := exists_collected hfiles hshows.walk hnothing
  have hget : ∀ f ∈ files, SortedMap.get? (pathText f.1) actual = some f.1 := fun f hf =>
    hcollected.get?_eq hfiles hf (hfound f hf (hshows.ne_manifest f hf) (hshows.walked f hf))
  obtain ⟨fs', hstage⟩ : ∃ fs', stageFiles sha256 x staging (sorted.map (entryOf sha256)) actual [] fs =
      (.ok ([] ++ sorted), fs') := by
    refine stageFiles_of_shows hfiles hshows (fun f hf => hperm.mem_iff.mp hf)
      ((hperm.map Prod.fst).nodup_iff.mpr hfiles.nodup) hfs (fun f hf => hget f (hperm.mem_iff.mp hf)) ?_
    intro e he
    obtain ⟨htext, b, hb⟩ := hcollected.sound e.1 e.2 ((SortedMap.mem_iff_get? hcollected.sorted).mp he)
    exact ⟨(e.2, b), hperm.mem_iff.mpr hb, htext⟩
  refine ⟨sorted, fs', ?_, hperm⟩
  unfold stageArtifacts
  rw [hexpected]
  dsimp only
  unfold collectArtifactPaths
  rw [hactual]
  exact hstage

end Kahawai.Hub.Backup
