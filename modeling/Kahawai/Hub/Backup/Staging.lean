import Kahawai.Hub.Backup.State

/-!
# What is staged

An artifact path that is accepted names a file below the directory to which it is joined. A
staging that succeeds therefore writes into its directory only, and leaves there the listed
files and no other, with the bytes that the manifest lists.

Results:
* `exists_of_artifactPath`: the paths that are accepted.
* `stageArtifacts_frame`, `stageArtifacts_ok`: the effect of a staging.
-/

namespace Kahawai.Hub.Backup

open Kahawai.Core Kahawai.Lib Kahawai.Lib.Files

/-! ## Artifact paths -/

/-- The path of an artifact below the directory to which it is joined. -/
def artifactFile (path : Text) : Path := locate [] (components path)

theorem exists_names {cs : List Component} {path s : Text} (h : cs.foldlM pushComponent path = .ok s) :
    ∃ names : List Text, cs = names.map fun name => .normal (.utf8 name) := by
  induction cs generalizing path with
  | nil => exact ⟨[], rfl⟩
  | cons c cs ih =>
    rw [List.foldlM_cons] at h
    cases hpush : pushComponent path c with
    | error e =>
      rw [hpush] at h
      cases h
    | ok path' =>
      rw [hpush] at h
      obtain ⟨names, rfl⟩ := ih h
      cases c with
      | normal name =>
        cases name with
        | utf8 name => exact ⟨name :: names, rfl⟩
        | raw bytes => cases hpush
      | _ => cases hpush

theorem locate_names (base : Path) (names : List Text) :
    locate base (names.map fun name => .normal (.utf8 name)) = base ++ names.map .utf8 := by
  induction names generalizing base with
  | nil => exact (List.append_nil base).symm
  | cons name names ih =>
    have hstep : locate base ((name :: names).map fun name => .normal (.utf8 name)) =
        locate (base ++ [.utf8 name]) (names.map fun name => .normal (.utf8 name)) := rfl
    rw [hstep, ih, List.append_assoc]
    rfl

/-- An accepted path stays below the directory to which it is joined. -/
theorem exists_of_artifactPath {s : Text} (h : artifactPath (components s) = .ok s) :
    ∃ names : List Text, names ≠ [] ∧ components s = (names.map fun name => .normal (.utf8 name)) ∧
      artifactFile s = names.map .utf8 := by
  unfold artifactPath at h
  cases hpath : (components s).foldlM pushComponent [] with
  | error e =>
    rw [hpath] at h
    cases h
  | ok path =>
    obtain ⟨names, hnames⟩ := exists_names hpath
    refine ⟨names, ?_, hnames, ?_⟩
    · rintro rfl
      rw [hnames] at hpath
      cases hpath
      rw [hnames] at h
      cases h
    · rw [artifactFile, hnames, locate_names, List.nil_append]

theorem artifactFile_ne_nil {s : Text} (h : artifactPath (components s) = .ok s) : artifactFile s ≠ [] := by
  obtain ⟨names, hne, -, hfile⟩ := exists_of_artifactPath h
  rw [hfile]
  exact fun hnil => hne (List.map_eq_nil_iff.mp hnil)

theorem locate_artifact {s : Text} (h : artifactPath (components s) = .ok s) (base : Path) :
    locate base (components s) = base ++ artifactFile s := by
  obtain ⟨names, -, hcomponents, hfile⟩ := exists_of_artifactPath h
  rw [hfile, hcomponents, locate_names]

/-- Two accepted paths do not name one file. -/
theorem artifactFile_injective {s s' : Text} (h : artifactPath (components s) = .ok s)
    (h' : artifactPath (components s') = .ok s') (heq : artifactFile s = artifactFile s') : s = s' := by
  obtain ⟨names, -, hcomponents, hfile⟩ := exists_of_artifactPath h
  obtain ⟨names', -, hcomponents', hfile'⟩ := exists_of_artifactPath h'
  have hnames : names = names' := by
    refine List.map_injective_iff.mpr (fun a b hab => ?_) (hfile.symm.trans (heq.trans hfile'))
    cases hab
    rfl
  have hsame : components s = components s' := by rw [hcomponents, hcomponents', hnames]
  rw [hsame, h'] at h
  cases h
  rfl

/-! ## The files of a directory -/

/-- The nodes of a directory that holds the files. -/
def nodeOf (files : List File) (p : Path) : Option (Node Bytes) :=
  if p = [] then some .dir
  else
    match files.lookup p with
    | some bytes => some (.file bytes)
    | none => if files.any fun f => p.isPrefixOf f.1 then some .dir else none

section NodeOf

variable {files : List File} {p p₀ : Path} {b : Bytes}

theorem nodeOf_nil (files : List File) : nodeOf files [] = some .dir := by
  unfold nodeOf
  rw [if_pos rfl]

theorem nodeOf_of_lookup (hp : p ≠ []) (h : files.lookup p = some b) :
    nodeOf files p = some (.file b) := by
  unfold nodeOf
  rw [if_neg hp, h]

theorem nodeOf_of_lookup_none (hp : p ≠ []) (h : files.lookup p = none) :
    nodeOf files p = if ∃ f ∈ files, p <+: f.1 then some .dir else none := by
  unfold nodeOf
  rw [if_neg hp, h]
  simp only [List.any_eq_true, List.isPrefixOf_iff_prefix]

theorem nodeOf_ne_other (files : List File) (p : Path) : nodeOf files p ≠ some .other := by
  by_cases hp : p = []
  · rw [hp, nodeOf_nil]
    exact nofun
  · cases hlookup : files.lookup p with
    | some b =>
      rw [nodeOf_of_lookup hp hlookup]
      exact nofun
    | none =>
      rw [nodeOf_of_lookup_none hp hlookup]
      split_ifs <;> exact nofun

theorem lookup_of_nodeOf (h : nodeOf files p = some (.file b)) : files.lookup p = some b := by
  by_cases hp : p = []
  · rw [hp, nodeOf_nil] at h
    cases h
  · cases hlookup : files.lookup p with
    | none =>
      rw [nodeOf_of_lookup_none hp hlookup] at h
      split_ifs at h
      cases h
    | some c =>
      rw [nodeOf_of_lookup hp hlookup] at h
      cases h
      rfl

theorem lookup_of_nodeOf_none (h : nodeOf files p = none) : files.lookup p = none := by
  cases hlookup : files.lookup p with
  | none => rfl
  | some c =>
    have hp : p ≠ [] := by
      rintro rfl
      rw [nodeOf_nil] at h
      cases h
    rw [nodeOf_of_lookup hp hlookup] at h
    cases h

theorem mem_iff_lookup (h : (files.map Prod.fst).Nodup) : (p, b) ∈ files ↔ files.lookup p = some b := by
  induction files with
  | nil => simp
  | cons f files ih =>
    obtain ⟨hhead, htail⟩ := List.nodup_cons.mp h
    rw [List.mem_cons, List.lookup_cons]
    by_cases hp : p = f.1
    · have hnot : (p, b) ∉ files := fun hmem => hhead (hp ▸ List.mem_map_of_mem hmem)
      rw [or_iff_left hnot, beq_iff_eq.mpr hp]
      constructor
      · exact fun heq => by rw [← heq]
      · intro heq
        cases heq
        rw [hp]
    · have hne : (p, b) ≠ f := fun heq => hp (by rw [← heq])
      rw [or_iff_right hne, beq_false_of_ne hp]
      exact ih htail

theorem prefix_dropLast (h : p <+: p₀) (hne : p ≠ p₀) : p <+: p₀.dropLast := by
  obtain ⟨r, rfl⟩ := h
  have hr : r ≠ [] := fun hr => hne (by rw [hr, List.append_nil])
  rw [List.dropLast_append_of_ne_nil hr]
  exact List.prefix_append _ _

/-- A file that is added, with the directories above it. -/
theorem nodeOf_append (hp₀ : p₀ ≠ []) (hnone : nodeOf files p₀ = none)
    (hfile : ∀ p c, p <+: p₀.dropLast → nodeOf files p ≠ some (.file c)) (p : Path) :
    nodeOf (files ++ [(p₀, b)]) p =
      if p = p₀ then some (.file b) else if p <+: p₀.dropLast then some .dir else nodeOf files p := by
  have hlookup : (files ++ [(p₀, b)]).lookup p =
      (files.lookup p).or (if p = p₀ then some b else none) := by
    rw [List.lookup_append, List.lookup_cons, List.lookup_nil]
    by_cases hp : p = p₀
    · simp [hp]
    · simp [hp, beq_false_of_ne hp]
  by_cases hp : p = p₀
  · rw [if_pos hp]
    refine nodeOf_of_lookup (hp ▸ hp₀) ?_
    rw [hlookup, hp, lookup_of_nodeOf_none hnone, Option.none_or, if_pos rfl]
  rw [if_neg hp]
  rw [if_neg hp, Option.or_none] at hlookup
  by_cases hnil : p = []
  · rw [hnil, nodeOf_nil, nodeOf_nil, if_pos (List.nil_prefix)]
  cases hold : files.lookup p with
  | some c =>
    rw [hold] at hlookup
    have hnot : ¬ p <+: p₀.dropLast := fun h => hfile p c h (nodeOf_of_lookup hnil hold)
    rw [nodeOf_of_lookup hnil hlookup, if_neg hnot, nodeOf_of_lookup hnil hold]
  | none =>
    rw [hold] at hlookup
    rw [nodeOf_of_lookup_none hnil hlookup, nodeOf_of_lookup_none hnil hold]
    have hprefix : p <+: p₀ ↔ p <+: p₀.dropLast :=
      ⟨fun h => prefix_dropLast h hp, fun h => h.trans (List.dropLast_prefix p₀)⟩
    simp only [List.mem_append, List.mem_singleton, or_and_right, exists_or, exists_eq_left, hprefix]
    split_ifs <;> first | rfl | simp_all

end NodeOf

/-! ## Staging -/

variable {sha256 : Bytes → Text} {x : Snapshot} {staging : Path} {fs fs' : World}

/-- The directory holds the files. -/
def Holds (fs : World) (base : Path) (files : List File) : Prop :=
  ∀ p, fs.node (base ++ p) = nodeOf files p

/-- A file that is created below a directory, with the directories above it. -/
theorem holds_of_add {files : List File} {p₀ : Path} {b : Bytes} {fs₁ : World} (hp₀ : p₀ ≠ [])
    (hfs : Holds fs staging files) (hdirs : (Op.makeDirs (staging ++ p₀).dropLast).run fs = some fs₁)
    (hadd : fs₁.add (staging ++ p₀) (.file b) = some fs') :
    Holds fs' staging (files ++ [(p₀, b)]) ∧ ∀ q, ¬ staging <+: q → fs'.node q = fs.node q := by
  rw [List.dropLast_append_of_ne_nil hp₀] at hdirs
  have hnode : ∀ q, fs'.node q = if q = staging ++ p₀ then some (.file b)
      else if q <+: staging ++ p₀.dropLast then some .dir else fs.node q := by
    intro q
    rw [FileSystem.node_of_add hadd, Op.node_of_run hdirs, Op.goal_makeDirs]
    split_ifs <;> rfl
  have hallowed : ∀ p c, p <+: p₀.dropLast → nodeOf files p ≠ some (.file c) := by
    intro p c hp hfile
    have hfree := Op.allowed_of_run hdirs (staging ++ p) ((List.mem_inits _ _).mpr ((List.prefix_append_right_inj _).mpr hp))
    rw [hfs, hfile] at hfree
    cases hfree
  have hnone : nodeOf files p₀ = none := by
    unfold FileSystem.add at hadd
    split_ifs at hadd with h
    have hfree := h.2.2
    rw [Op.node_of_run hdirs, Op.goal_makeDirs] at hfree
    rw [← hfs]
    split_ifs at hfree with hprefix
    · cases hfree
    · exact hfree
  constructor
  · intro p
    rw [hnode, nodeOf_append hp₀ hnone hallowed, hfs]
    simp only [List.append_cancel_left_eq, List.prefix_append_right_inj]
  · intro q hq
    have hne : q ≠ staging ++ p₀ := fun h => hq (by rw [h]; exact List.prefix_append _ _)
    rw [hnode, if_neg hne]
    split_ifs with hprefix
    · -- a directory above the staging directory
      have habove : q <+: staging := by
        rcases List.prefix_or_prefix_of_prefix hprefix (List.prefix_append staging p₀.dropLast) with h | h
        · exact h
        · exact absurd h hq
      have hdir : fs.node staging = some .dir := by rw [← List.append_nil staging, hfs, nodeOf_nil]
      exact (node_eq_dir_above hdir habove).symm
    · rfl

/-- When a file can be created below a directory. -/
theorem exists_write_iff {base p₀ : Path} {files : List File} {b : Bytes} (hp₀ : p₀ ≠ [])
    (hfs : Holds fs base files) :
    (∃ fs', (Op.makeDirs (base ++ p₀).dropLast).run fs >>= FileSystem.add (base ++ p₀) (.file b) = some fs') ↔
      (∀ r, r <+: p₀.dropLast → obstructs (some .dir) (nodeOf files r) = false) ∧ nodeOf files p₀ = none := by
  rw [List.dropLast_append_of_ne_nil hp₀]
  have hdir : fs.node base = some .dir := by rw [← List.append_nil base, hfs, nodeOf_nil]
  have hnot : ¬ base ++ p₀ <+: base ++ p₀.dropLast := by
    intro h
    have hlength := h.length_le
    rw [List.length_append, List.length_append, List.length_dropLast] at hlength
    have hpos := List.length_pos_iff.mpr hp₀
    omega
  constructor
  · rintro ⟨fs', hwrite⟩
    obtain ⟨fs₁, hdirs, hadd⟩ := Option.bind_eq_some_iff.mp hwrite
    have hallowed := Op.allowed_of_run hdirs
    refine ⟨fun r hr => ?_, ?_⟩
    · rw [← hfs]
      exact hallowed _ ((List.mem_inits _ _).mpr ((List.prefix_append_right_inj _).mpr hr))
    · unfold FileSystem.add at hadd
      split_ifs at hadd with h
      have hfree := h.2.2
      rw [Op.node_of_run hdirs, Op.goal_makeDirs, if_neg hnot, Option.getD_none, hfs] at hfree
      exact hfree
  · rintro ⟨hclear, hnone⟩
    have hallowed : (Op.makeDirs (base ++ p₀.dropLast)).Allowed fs := by
      intro q hq
      have hprefix := (List.mem_inits _ _).mp hq
      rcases List.prefix_or_prefix_of_prefix hprefix (List.prefix_append base p₀.dropLast) with h | h
      · rw [node_eq_dir_above hdir h]
        rfl
      · obtain ⟨r, rfl⟩ := h
        rw [hfs]
        exact hclear r ((List.prefix_append_right_inj _).mp hprefix)
    obtain ⟨fs₁, hdirs⟩ := Op.exists_run hallowed
    have hparent : fs₁.node (base ++ p₀).dropLast = some .dir := by
      rw [List.dropLast_append_of_ne_nil hp₀, Op.node_of_run hdirs, Op.goal_makeDirs,
        if_pos (List.prefix_refl _), Option.getD_some]
    have hfree : fs₁.node (base ++ p₀) = none := by
      rw [Op.node_of_run hdirs, Op.goal_makeDirs, if_neg hnot, Option.getD_none, hfs, hnone]
    have hadd : fs₁.add (base ++ p₀) (.file b) ≠ none := by
      unfold FileSystem.add
      rw [dif_pos ⟨List.append_ne_nil_of_right_ne_nil _ hp₀, hparent, hfree⟩]
      exact Option.some_ne_none _
    obtain ⟨fs₂, hfs₂⟩ := Option.ne_none_iff_exists'.mp hadd
    exact ⟨fs₂, by rw [hdirs]; exact hfs₂⟩

/-- The file is the artifact, and it was read in the snapshot. -/
structure Matches (sha256 : Bytes → Text) (x : Snapshot) (a : Artifact) (f : File) : Prop where
  path : f.1 = artifactFile a.path
  bytes : f.2.length = a.bytes
  digest : sha256 f.2 = a.sha256
  read : ∃ found, x.read found = some f.2

/-- Every entry is an artifact under its accepted path. -/
def Accepted (expected : List (Text × Artifact)) : Prop :=
  ∀ e ∈ expected, e.1 = e.2.path ∧ artifactPath (components e.1) = .ok e.1

/-- One file is written below the staging directory, with the bytes that are listed. -/
theorem stageFile_spec {artifact : Artifact} (hsafe : artifactPath (components artifact.path) = .ok artifact.path)
    {found : Path} {staged : List File} (hfs : Holds fs staging staged) {result : Except Text File}
    (h : stageFile sha256 x staging artifact found fs = (result, fs')) :
    (∀ q, ¬ staging <+: q → fs'.node q = fs.node q) ∧
      ∀ file, result = .ok file → Holds fs' staging (staged ++ [file]) ∧ Matches sha256 x artifact file := by
  unfold stageFile at h
  cases hread : x.read found with
  | none =>
    rw [hread] at h
    cases h
    exact ⟨fun _ _ => rfl, fun _ hfile => nomatch hfile⟩
  | some bytes =>
    rw [hread] at h
    dsimp only at h
    rw [locate_artifact hsafe] at h
    cases hwrite : (Op.makeDirs (staging ++ artifactFile artifact.path).dropLast).run fs >>=
        FileSystem.add (staging ++ artifactFile artifact.path) (.file bytes) with
    | none =>
      rw [hwrite] at h
      cases h
      exact ⟨fun _ _ => rfl, fun _ hfile => nomatch hfile⟩
    | some fs₂ =>
      rw [hwrite] at h
      cases h
      obtain ⟨fs₁, hdirs, hadd⟩ := Option.bind_eq_some_iff.mp hwrite
      obtain ⟨hholds, hframe⟩ := holds_of_add (artifactFile_ne_nil hsafe) hfs hdirs hadd
      refine ⟨hframe, fun file hfile => ?_⟩
      split_ifs at hfile with hlength hdigest
      cases hfile
      exact ⟨hholds, rfl, not_not.mp hlength, not_not.mp hdigest, found, hread⟩

/-- The loop over the expected artifacts writes below the staging directory only, and stages the
    bytes that are listed. -/
theorem stageFiles_spec {rest : List (Text × Artifact)} (hrest : Accepted rest)
    {actual : List (Text × Path)} {staged : List File} (hfs : Holds fs staging staged)
    {result : Except Text (List File)}
    (h : stageFiles sha256 x staging rest actual staged fs = (result, fs')) :
    (∀ q, ¬ staging <+: q → fs'.node q = fs.node q) ∧
      ∀ files, result = .ok files → ∃ more, files = staged ++ more ∧ Holds fs' staging files ∧
        List.Forall₂ (fun e f => Matches sha256 x e.2 f) rest more := by
  induction rest generalizing actual staged fs with
  | nil =>
    cases h
    refine ⟨fun _ _ => rfl, fun files hfiles => ?_⟩
    cases actual with
    | nil =>
      cases hfiles
      exact ⟨[], (List.append_nil _).symm, hfs, .nil⟩
    | cons e actual => cases hfiles
  | cons e rest ih =>
    obtain ⟨path, artifact⟩ := e
    obtain ⟨hpath, hsafe⟩ := hrest _ List.mem_cons_self
    unfold stageFiles at h
    cases hfound : SortedMap.get? path actual with
    | none =>
      rw [hfound] at h
      cases h
      exact ⟨fun _ _ => rfl, fun _ hfiles => nomatch hfiles⟩
    | some found =>
      rw [hfound] at h
      dsimp only at h hpath hsafe
      rw [hpath] at hsafe
      cases hfile : stageFile sha256 x staging artifact found fs with
      | mk result₁ fs₁ =>
        obtain ⟨hframe, hok⟩ := stageFile_spec hsafe hfs hfile
        rw [hfile] at h
        cases result₁ with
        | error e =>
          cases h
          exact ⟨hframe, fun _ hfiles => nomatch hfiles⟩
        | ok file =>
          obtain ⟨hholds, hmatch⟩ := hok file rfl
          obtain ⟨hframe', hok'⟩ := ih (fun e he => hrest e (List.mem_cons_of_mem _ he)) hholds h
          refine ⟨fun q hq => (hframe' q hq).trans (hframe q hq), fun files hfiles => ?_⟩
          obtain ⟨more, rfl, hholds', hmore⟩ := hok' files hfiles
          exact ⟨file :: more, by rw [List.append_assoc, List.singleton_append], hholds', .cons hmatch hmore⟩

/-! ## The listed artifacts -/

/-- The artifacts that are expected are those that are listed. -/
structure Expects (listed : List Artifact) (expected : List (Text × Artifact)) : Prop where
  sorted : SortedMap.Sorted expected
  accepted : Accepted expected
  mem : ∀ a, (a.path, a) ∈ expected ↔ a ∈ listed

theorem expectArtifact_ok {expected expected' : List (Text × Artifact)} {a : Artifact}
    (h : expectArtifact expected a = .ok expected') :
    artifactPath (components a.path) = .ok a.path ∧ SortedMap.get? a.path expected = none ∧
      expected' = SortedMap.upsert a.path (fun _ => a) expected := by
  unfold expectArtifact at h
  by_cases hhex : ¬ (Text.byteLen a.sha256 = 64 ∧ a.sha256.all isLowerHex)
  · rw [if_pos hhex] at h
    cases h
  rw [if_neg hhex] at h
  cases hpath : artifactPath (components a.path) with
  | error e =>
    rw [hpath] at h
    cases h
  | ok path =>
    rw [hpath] at h
    change (if path ≠ a.path then _ else _) = _ at h
    split_ifs at h with hne htwice
    cases h
    rw [not_not.mp hne]
    exact ⟨rfl, Option.not_isSome_iff_eq_none.mp htwice, rfl⟩

theorem Expects.push {before : List Artifact} {expected expected' : List (Text × Artifact)} {a : Artifact}
    (hbefore : Expects before expected) (h : expectArtifact expected a = .ok expected') :
    Expects (before ++ [a]) expected' := by
  obtain ⟨hpath, hnone, rfl⟩ := expectArtifact_ok h
  have hsorted := SortedMap.sorted_upsert (k := a.path) (f := fun _ => a) hbefore.sorted
  have hget : ∀ k b, (k, b) ∈ SortedMap.upsert a.path (fun _ => a) expected ↔
      if a.path = k then a = b else (k, b) ∈ expected := by
    intro k b
    rw [SortedMap.mem_iff_get? hsorted, SortedMap.get?_upsert hbefore.sorted]
    split_ifs
    · exact Option.some_inj
    · exact (SortedMap.mem_iff_get? hbefore.sorted).symm
  refine ⟨hsorted, ?_, fun b => ?_⟩
  · rintro ⟨k, b⟩ he
    rw [hget] at he
    split_ifs at he with hk
    · rw [← he, ← hk]
      exact ⟨rfl, hpath⟩
    · exact hbefore.accepted _ he
  · rw [hget, List.mem_append, List.mem_singleton]
    split_ifs with hk
    · constructor
      · exact fun hab => Or.inr hab.symm
      · rintro (hb | rfl)
        · rw [← hbefore.mem, ← hk, SortedMap.mem_iff_get? hbefore.sorted, hnone] at hb
          cases hb
        · rfl
    · rw [hbefore.mem]
      refine (or_iff_left ?_).symm
      rintro rfl
      exact hk rfl

theorem expects_foldlM {listed before : List Artifact} {expected expected' : List (Text × Artifact)}
    (hbefore : Expects before expected) (h : listed.foldlM expectArtifact expected = .ok expected') :
    Expects (before ++ listed) expected' := by
  induction listed generalizing before expected with
  | nil =>
    cases h
    rw [List.append_nil]
    exact hbefore
  | cons a listed ih =>
    rw [List.foldlM_cons] at h
    cases hpush : expectArtifact expected a with
    | error e =>
      rw [hpush] at h
      cases h
    | ok expected₁ =>
      rw [hpush] at h
      have hlisted := ih (hbefore.push hpush) h
      rwa [List.append_assoc, List.singleton_append] at hlisted

theorem expects_of_ok {listed : List Artifact} {expected : List (Text × Artifact)}
    (h : expectedArtifacts listed = .ok expected) : Expects listed expected := by
  have hnil : Expects [] [] :=
    ⟨.nil, fun _ h => absurd h List.not_mem_nil, fun _ => by simp⟩
  exact expects_foldlM hnil h

/-! ## The effect of a staging -/

/-- The files are exactly the listed ones, with the listed bytes. -/
structure Listed (sha256 : Bytes → Text) (x : Snapshot) (listed : List Artifact) (files : List File) : Prop where
  nodup : (files.map Prod.fst).Nodup
  ne_nil : ∀ f ∈ files, f.1 ≠ []
  of_file : ∀ f ∈ files, ∃ a ∈ listed, Matches sha256 x a f
  of_artifact : ∀ a ∈ listed, ∃ f ∈ files, Matches sha256 x a f

theorem listed_of_matches {listed : List Artifact} {expected : List (Text × Artifact)} {files : List File}
    (hexpects : Expects listed expected)
    (h : List.Forall₂ (fun e f => Matches sha256 x e.2 f) expected files) :
    Listed sha256 x listed files := by
  have hpaths : ∀ {expected : List (Text × Artifact)} {files : List File},
      List.Forall₂ (fun e f => Matches sha256 x e.2 f) expected files →
      files.map Prod.fst = (expected.map fun e => artifactFile e.2.path) ∧
        (∀ f ∈ files, ∃ e ∈ expected, Matches sha256 x e.2 f) ∧
        ∀ e ∈ expected, ∃ f ∈ files, Matches sha256 x e.2 f := by
    intro expected files h
    induction h with
    | nil => exact ⟨rfl, fun _ h => absurd h List.not_mem_nil, fun _ h => absurd h List.not_mem_nil⟩
    | cons hmatch _ ih =>
      refine ⟨?_, fun f hf => ?_, fun e he => ?_⟩
      · rw [List.map_cons, List.map_cons, ih.1, hmatch.path]
      · rcases List.mem_cons.mp hf with rfl | hf
        · exact ⟨_, List.mem_cons_self, hmatch⟩
        · obtain ⟨e, he, hmatch'⟩ := ih.2.1 f hf
          exact ⟨e, List.mem_cons_of_mem _ he, hmatch'⟩
      · rcases List.mem_cons.mp he with rfl | he
        · exact ⟨_, List.mem_cons_self, hmatch⟩
        · obtain ⟨f, hf, hmatch'⟩ := ih.2.2 e he
          exact ⟨f, List.mem_cons_of_mem _ hf, hmatch'⟩
  obtain ⟨hmap, hfile, hartifact⟩ := hpaths h
  refine ⟨?_, fun f hf => ?_, fun f hf => ?_, fun a ha => ?_⟩
  · rw [hmap]
    refine List.pairwise_map.mpr (hexpects.sorted.imp_of_mem ?_)
    intro e e' he he' hlt heq
    obtain ⟨hpath, hsafe⟩ := hexpects.accepted e he
    obtain ⟨hpath', hsafe'⟩ := hexpects.accepted e' he'
    rw [← hpath, ← hpath'] at heq
    exact hlt.ne (artifactFile_injective hsafe hsafe' heq)
  · obtain ⟨e, he, hmatch⟩ := hfile f hf
    obtain ⟨hpath, hsafe⟩ := hexpects.accepted e he
    rw [hpath] at hsafe
    rw [hmatch.path]
    exact artifactFile_ne_nil hsafe
  · obtain ⟨⟨path, a⟩, he, hmatch⟩ := hfile f hf
    have hpath : path = a.path := (hexpects.accepted _ he).1
    exact ⟨a, (hexpects.mem a).mp (hpath ▸ he), hmatch⟩
  · exact hartifact _ ((hexpects.mem a).mpr ha)

/-- A staging writes below its directory only. -/
theorem stageArtifacts_frame {listed : List Artifact} (hfs : Holds fs staging [])
    {result : Except Text (List File)}
    (h : stageArtifacts sha256 x staging listed fs = (result, fs')) :
    ∀ q, ¬ staging <+: q → fs'.node q = fs.node q := by
  unfold stageArtifacts at h
  cases hexpected : expectedArtifacts listed with
  | error e =>
    rw [hexpected] at h
    cases h
    exact fun _ _ => rfl
  | ok expected =>
    rw [hexpected] at h
    dsimp only at h
    cases hactual : collectArtifactPaths x.walk with
    | error e =>
      rw [hactual] at h
      cases h
      exact fun _ _ => rfl
    | ok actual =>
      rw [hactual] at h
      exact (stageFiles_spec (expects_of_ok hexpected).accepted hfs h).1

/-- A staging that succeeds leaves the listed files in its directory. -/
theorem stageArtifacts_ok {listed : List Artifact} (hfs : Holds fs staging []) {files : List File}
    (h : stageArtifacts sha256 x staging listed fs = (.ok files, fs')) :
    Holds fs' staging files ∧ Listed sha256 x listed files := by
  unfold stageArtifacts at h
  cases hexpected : expectedArtifacts listed with
  | error e =>
    rw [hexpected] at h
    cases h
  | ok expected =>
    rw [hexpected] at h
    dsimp only at h
    cases hactual : collectArtifactPaths x.walk with
    | error e =>
      rw [hactual] at h
      cases h
    | ok actual =>
      rw [hactual] at h
      have hexpects := expects_of_ok hexpected
      obtain ⟨more, rfl, hholds, hmatches⟩ := (stageFiles_spec hexpects.accepted hfs h).2 files rfl
      exact ⟨hholds, listed_of_matches hexpects hmatches⟩

end Kahawai.Hub.Backup
