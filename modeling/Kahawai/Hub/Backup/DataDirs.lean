import Kahawai.Hub.Backup.Snapshots

/-!
# The backup of a data directory

What `backup` takes of a data directory that no one writes to
(`crates/kahawai-hub/src/backup.rs`, lines 120–254): the databases as SQLite writes them, the files
of the trees, the secrets and the configuration, each under its own name.

Results:
* `separate_flatMap`: files under different names do not get in each other's way.
* `backup_spec`: the backup succeeds, and its manifest lists the files that were taken.
-/

namespace Kahawai.Hub.Backup

open Kahawai.Core Kahawai.Lib Kahawai.Lib.Files

variable {sqlite : Sqlite} {sha256 : Bytes → Text}

/-! ## Files under different names -/

/-- The files that stand under one name. -/
def Under (name : Text) (files : List File) : Prop :=
  Separate files ∧ ∀ f ∈ files, f.1.head? = some (.utf8 name)

theorem separate_nil : Separate [] := ⟨fun _ h => absurd h List.not_mem_nil, List.nodup_nil,
  fun _ h => absurd h List.not_mem_nil⟩

theorem under_nil (name : Text) : Under name [] := ⟨separate_nil, fun _ h => absurd h List.not_mem_nil⟩

theorem head?_of_isPrefix {p q : Path} (hp : p ≠ []) (h : p <+: q) : q.head? = p.head? := by
  obtain ⟨r, rfl⟩ := h
  obtain ⟨n, p, rfl⟩ := List.exists_cons_of_ne_nil hp
  rfl

theorem Portable.ne_nil {p : Path} (h : Portable p) : p ≠ [] := by
  obtain ⟨names, hne, rfl, -⟩ := h
  exact fun hnil => hne (List.map_eq_nil_iff.mp hnil)

/-- Files under different names do not get in each other's way. -/
theorem separate_flatMap {segments : List (Text × List File)} (hnames : (segments.map Prod.fst).Nodup)
    (h : ∀ s ∈ segments, Under s.1 s.2) : Separate (segments.flatMap Prod.snd) := by
  induction segments with
  | nil => exact separate_nil
  | cons s segments ih =>
    rw [List.map_cons, List.nodup_cons] at hnames
    obtain ⟨hs, hrest⟩ := List.forall_mem_cons.mp h
    have hothers := ih hnames.2 hrest
    have hhead : ∀ g ∈ segments.flatMap Prod.snd, g.1.head? ≠ some (.utf8 s.1) := by
      intro g hg heq
      obtain ⟨t, ht, hgt⟩ := List.mem_flatMap.mp hg
      rw [(hrest t ht).2 g hgt, Option.some.injEq, OsName.utf8.injEq] at heq
      exact hnames.1 (heq ▸ List.mem_map_of_mem ht)
    rw [List.flatMap_cons]
    refine ⟨fun f hf => ?_, ?_, fun f hf g hg hfg => ?_⟩
    · rcases List.mem_append.mp hf with hf | hf
      · exact hs.1.portable f hf
      · exact hothers.portable f hf
    · rw [List.map_append, List.nodup_append]
      refine ⟨hs.1.nodup, hothers.nodup, fun p hp q hq heq => ?_⟩
      obtain ⟨f, hf, rfl⟩ := List.mem_map.mp hp
      obtain ⟨g, hg, rfl⟩ := List.mem_map.mp hq
      exact hhead g hg (heq ▸ hs.2 f hf)
    · rcases List.mem_append.mp hf with hf' | hf' <;> rcases List.mem_append.mp hg with hg' | hg'
      · exact hs.1.free f hf' g hg' hfg
      · have hnil := (hs.1.portable f hf').ne_nil
        exact absurd ((head?_of_isPrefix hnil hfg).trans (hs.2 f hf')) (hhead g hg')
      · have hnil := (hothers.portable f hf').ne_nil
        exact absurd ((head?_of_isPrefix hnil hfg).symm.trans (hs.2 g hg')) (hhead f hf')
      · exact hothers.free f hf' g hg' hfg

theorem portable_singleton {name : Text} (h : PortableName name) : Portable [.utf8 name] :=
  ⟨[name], List.cons_ne_nil _ _, rfl, fun _ hn => List.mem_singleton.mp hn ▸ h⟩

theorem under_singleton {name : Text} (h : PortableName name) (b : Bytes) :
    Under name [([.utf8 name], b)] := by
  refine ⟨⟨fun f hf => ?_, List.nodup_singleton _, fun f hf g hg _ => ?_⟩, fun f hf => ?_⟩
  · rw [List.mem_singleton.mp hf]
    exact portable_singleton h
  · rw [List.mem_singleton.mp hf, List.mem_singleton.mp hg]
  · rw [List.mem_singleton.mp hf]
    rfl

/-! ## Data directories -/

/-- `load_or_create` (`secrets.rs`, lines 53–141) with the key that it finds, the marker of the
    database, and the key that it would draw. -/
def loadOrCreate (sha256 : Bytes → Text) (node : Option (Node Bytes)) (seeded : Option Text)
    (fresh : Bytes) : Except Text Bytes := do
  let bytes ← match node with
    | some (.file bytes) => .ok bytes
    | none =>
      if seeded.isNone then .ok fresh else .error (lit "is gone, and this hub seeded one")
    | some _ => .error (lit "reading")
  let bytes ←
    if bytes.length = 32 then .ok bytes
    else if seeded.isSome then .error (lit "Restore it from a backup.")
    else .ok fresh
  match seeded with
  | some recorded =>
    if recorded = sha256 bytes then .ok bytes
    else .error (lit "is not the key this database was sealed with.")
  | none => .ok bytes

/-- A data directory that no one writes to, with portable names. Its database opens, and it has the
    key for which the database asks. -/
structure Quiescent (sqlite : Sqlite) (sha256 : Bytes → Text) (d : DataDir) (db : sqlite.Db)
    (seeded : Option Text) : Prop where
  opened : sqlite.openHub d.node = .ok db
  marker : sqlite.marker db = .ok seeded
  key : ∀ expected, seeded = some expected →
    ∃ key, d.node [.utf8 keyFile] = some (.file key) ∧ sha256 key = expected ∧ key.length = 32
  media : d.node [.utf8 mediaDb] ≠ none → ∃ media, sqlite.contents d.node mediaDb = .ok media
  closed : ∀ p r, r ≠ [] → d.node (p ++ r) ≠ none → d.node p = some .dir
  roots : ∀ tree ∈ trees, d.node [.utf8 tree] = none ∨ d.node [.utf8 tree] = some .dir
  walk : ∀ tree ∈ trees, ∀ r v, (r, v) ∈ d.walk tree ↔ r ≠ [] ∧ d.node (.utf8 tree :: r) = some v
  nodup : ∀ tree ∈ trees, ((d.walk tree).map Prod.fst).Nodup
  regular : ∀ tree ∈ trees, ∀ r, d.node (.utf8 tree :: r) ≠ some .other
  portable : ∀ tree ∈ trees, ∀ r b, d.node (.utf8 tree :: r) = some (.file b) → Portable (.utf8 tree :: r)
  secrets : ∀ name ∈ secretFiles, d.node [.utf8 name] = none ∨ ∃ b, d.node [.utf8 name] = some (.file b)

/-! ## The files of a tree -/

/-- The file at a path of a walk. -/
def fileAt (tree : Text) : Path × Node Bytes → Option File
  | (relative, .file bytes) => some (.utf8 tree :: relative, bytes)
  | _ => none

/-- The files that `copy_snapshot_tree` copies. -/
def treeFiles (d : DataDir) (tree : Text) : List File :=
  if d.node [.utf8 tree] = none then [] else (d.walk tree).filterMap (fileAt tree)

theorem fileAt_eq_some {tree : Text} {e : Path × Node Bytes} {f : File} :
    fileAt tree e = some f ↔ e.2 = .file f.2 ∧ f.1 = .utf8 tree :: e.1 := by
  obtain ⟨r, v⟩ := e
  obtain ⟨p, b⟩ := f
  cases v with
  | file b' =>
    simp only [fileAt, Option.some.injEq, Prod.mk.injEq, Node.file.injEq]
    exact ⟨fun h => ⟨h.2, h.1.symm⟩, fun h => ⟨h.2.symm, h.1⟩⟩
  | dir => simp [fileAt]
  | other => simp [fileAt]

theorem nodup_fileAt (tree : Text) {walk : List (Path × Node Bytes)} (h : (walk.map Prod.fst).Nodup) :
    ((walk.filterMap (fileAt tree)).map Prod.fst).Nodup := by
  induction walk with
  | nil => exact List.nodup_nil
  | cons e walk ih =>
    rw [List.map_cons, List.nodup_cons] at h
    cases hfile : fileAt tree e with
    | none =>
      rw [List.filterMap_cons_none hfile]
      exact ih h.2
    | some f =>
      rw [List.filterMap_cons_some hfile, List.map_cons, List.nodup_cons]
      refine ⟨fun hmem => ?_, ih h.2⟩
      obtain ⟨g, hg, heq⟩ := List.mem_map.mp hmem
      obtain ⟨e', he', hfile'⟩ := List.mem_filterMap.mp hg
      rw [(fileAt_eq_some.mp hfile).2, (fileAt_eq_some.mp hfile').2] at heq
      exact h.1 ((List.cons.inj heq).2 ▸ List.mem_map_of_mem he')

section
variable {d : DataDir} {db : sqlite.Db} {seeded : Option Text}

theorem Quiescent.mem_treeFiles (h : Quiescent sqlite sha256 d db seeded) {tree : Text}
    (htree : tree ∈ trees) (p : Path) (b : Bytes) :
    (p, b) ∈ treeFiles d tree ↔ ∃ r, r ≠ [] ∧ p = .utf8 tree :: r ∧ d.node p = some (.file b) := by
  unfold treeFiles
  split_ifs with hnone
  · refine ⟨fun hmem => absurd hmem List.not_mem_nil, ?_⟩
    rintro ⟨r, hr, rfl, hnode⟩
    have hdir := h.closed [.utf8 tree] r hr (by
      rw [List.singleton_append, hnode]
      exact Option.some_ne_none _)
    rw [hnone] at hdir
    cases hdir
  · rw [List.mem_filterMap]
    constructor
    · rintro ⟨⟨r, v⟩, hwalk, hfile⟩
      obtain ⟨hv, hp⟩ := fileAt_eq_some.mp hfile
      dsimp only at hv hp
      obtain ⟨hr, hnode⟩ := (h.walk tree htree r v).mp hwalk
      exact ⟨r, hr, hp, by rw [hp, hnode, hv]⟩
    · rintro ⟨r, hr, rfl, hnode⟩
      exact ⟨(r, .file b), (h.walk tree htree r _).mpr ⟨hr, hnode⟩, rfl⟩

theorem Quiescent.under_treeFiles (h : Quiescent sqlite sha256 d db seeded) {tree : Text}
    (htree : tree ∈ trees) : Under tree (treeFiles d tree) := by
  refine ⟨⟨fun f hf => ?_, ?_, fun f hf g hg hfg => ?_⟩, fun f hf => ?_⟩
  · obtain ⟨r, -, hp, hnode⟩ := (h.mem_treeFiles htree f.1 f.2).mp hf
    rw [hp] at hnode ⊢
    exact h.portable tree htree r f.2 hnode
  · unfold treeFiles
    split_ifs
    · exact List.nodup_nil
    · exact nodup_fileAt tree (h.nodup tree htree)
  · obtain ⟨-, -, -, hf'⟩ := (h.mem_treeFiles htree f.1 f.2).mp hf
    obtain ⟨-, -, -, hg'⟩ := (h.mem_treeFiles htree g.1 g.2).mp hg
    obtain ⟨s, hs⟩ := hfg
    by_contra hne
    have hsne : s ≠ [] := by
      rintro rfl
      rw [List.append_nil] at hs
      exact hne hs
    have hdir := h.closed f.1 s hsne (by
      rw [hs, hg']
      exact Option.some_ne_none _)
    rw [hf'] at hdir
    cases hdir
  · obtain ⟨r, -, hp, -⟩ := (h.mem_treeFiles htree f.1 f.2).mp hf
    rw [hp]
    rfl

end

/-! ## What a backup takes -/

/-- The file under a name of the data directory. -/
def topFile (d : DataDir) (name : Text) : List File :=
  match d.node [.utf8 name] with
  | some (.file bytes) => [([.utf8 name], bytes)]
  | _ => []

/-- The second database, if there is one. -/
def mediaFile (sqlite : Sqlite) (d : DataDir) : List File :=
  if d.node [.utf8 mediaDb] = none then []
  else
    match sqlite.contents d.node mediaDb with
    | .ok media => [([.utf8 mediaDb], sqlite.vacuum media)]
    | .error _ => []

def configFile : Text := lit "kahawai.toml"

/-- What a backup takes, by the names in the data directory. -/
def segments (sqlite : Sqlite) (d : DataDir) (db : sqlite.Db) (config : Option Bytes) :
    List (Text × List File) :=
  [(hubDb, [([.utf8 hubDb], sqlite.vacuum db)]), (mediaDb, mediaFile sqlite d),
    (lit "pki", treeFiles d (lit "pki")), (lit "subtitles", treeFiles d (lit "subtitles"))] ++
  secretFiles.map (fun name => (name, topFile d name)) ++
  [(configFile, config.toList.map fun bytes => ([.utf8 configFile], bytes))]

/-- The files of a backup. -/
def snapshotFiles (sqlite : Sqlite) (d : DataDir) (db : sqlite.Db) (config : Option Bytes) : List File :=
  (segments sqlite d db config).flatMap Prod.snd

/-- A file and its artifact. -/
def copyOf (sha256 : Bytes → Text) (f : File) : Artifact × File := (artifactOf sha256 f, f)

theorem copyArtifact_file {p : Path} (hp : Portable p) (b : Bytes) :
    copyArtifact sha256 p (some (.file b)) = .ok (copyOf sha256 (p, b)) := by
  obtain ⟨hpath, -, -⟩ := artifactPath_of_portable hp
  unfold copyArtifact
  rw [hpath]
  rfl

theorem ok_bind {α β : Type} (a : α) (f : α → Except Text β) :
    ((Except.ok a : Except Text α) >>= f) = f a := rfl

/-- A pass over a list whose every step succeeds. -/
theorem mapM_ok {α β : Type} {f : α → Except Text β} {g : α → β} {l : List α}
    (h : ∀ a ∈ l, f a = .ok (g a)) : l.mapM f = .ok (l.map g) := by
  induction l with
  | nil => rfl
  | cons a l ih =>
    rw [List.mapM_cons, h a List.mem_cons_self, ok_bind, ih fun b hb => h b (List.mem_cons_of_mem _ hb)]
    rfl

/-- A pass that adds what each element gives to what it gathered before. -/
theorem foldlM_ok {α β : Type} {f : List β → α → Except Text (List β)} {g : α → Option β} {l : List α}
    (h : ∀ a ∈ l, ∀ copied, f copied a = .ok (copied ++ (g a).toList)) (copied : List β) :
    l.foldlM f copied = .ok (copied ++ l.filterMap g) := by
  induction l generalizing copied with
  | nil =>
    rw [List.filterMap_nil, List.append_nil]
    rfl
  | cons a l ih =>
    rw [List.foldlM_cons, h a List.mem_cons_self, ok_bind, ih fun b hb => h b (List.mem_cons_of_mem _ hb)]
    cases hgiven : g a with
    | none => rw [List.filterMap_cons_none hgiven, Option.toList_none, List.append_nil]
    | some b =>
      rw [List.filterMap_cons_some hgiven, Option.toList_some, List.append_assoc, List.singleton_append]

/-- A tree of regular files with portable names is copied. -/
theorem copySnapshotTree_ok {tree : Text} {walk : List (Path × Node Bytes)}
    (hregular : ∀ e ∈ walk, e.2 ≠ .other)
    (hportable : ∀ f ∈ walk.filterMap (fileAt tree), Portable f.1) :
    copySnapshotTree sha256 tree walk = .ok ((walk.filterMap (fileAt tree)).map (copyOf sha256)) := by
  unfold copySnapshotTree
  rw [List.map_filterMap]
  refine foldlM_ok ?_ []
  rintro ⟨relative, node⟩ he copied
  cases node with
  | dir => exact congrArg Except.ok (List.append_nil copied).symm
  | other => exact absurd rfl (hregular _ he)
  | file b =>
    have hp : Portable (.utf8 tree :: relative) := hportable _ (List.mem_filterMap.mpr ⟨_, he, rfl⟩)
    dsimp only
    rw [copyArtifact_file hp, ok_bind]
    rfl

/-- The names that a backup gives to its files. -/
def names : List Text := databases ++ trees ++ secretFiles ++ [configFile]

theorem portable_name {name : Text} (h : name ∈ names) : PortableName name := by
  have hall : ∀ name ∈ names, name ≠ [] ∧ '/' ∉ name ∧ '\\' ∉ name ∧ name ≠ lit "." ∧ name ≠ lit ".." := by
    decide
  exact hall name h

section
variable {d : DataDir} {db : sqlite.Db} {seeded : Option Text}

theorem copyArtifact_top {name : Text} (hname : name ∈ names) (b : Bytes) :
    copyArtifact sha256 [.utf8 name] (some (.file b)) = .ok (copyOf sha256 ([.utf8 name], b)) :=
  copyArtifact_file (portable_singleton (portable_name hname)) b

theorem Quiescent.backupTree_ok (h : Quiescent sqlite sha256 d db seeded) {tree : Text}
    (htree : tree ∈ trees) : backupTree sha256 d tree = .ok ((treeFiles d tree).map (copyOf sha256)) := by
  have hportable := (h.under_treeFiles htree).1.portable
  unfold backupTree treeFiles
  unfold treeFiles at hportable
  rcases h.roots tree htree with hnone | hdir
  · rw [hnone, if_pos rfl]
    rfl
  · rw [hdir, if_neg (Option.some_ne_none _)]
    rw [hdir, if_neg (Option.some_ne_none _)] at hportable
    refine copySnapshotTree_ok ?_ hportable
    rintro ⟨r, v⟩ he rfl
    exact h.regular tree htree r ((h.walk tree htree r _).mp he).2

/-- The key that is required is the one in the data directory. -/
theorem Quiescent.requiredKey_ok (h : Quiescent sqlite sha256 d db seeded) :
    ∃ key, requiredKey sqlite sha256 d db = .ok key ∧
      ∀ bytes, key = some bytes → d.node [.utf8 keyFile] = some (.file bytes) := by
  unfold requiredKey
  rw [h.marker, ok_bind]
  cases hseeded : seeded with
  | none => exact ⟨none, rfl, fun _ hnone => nomatch hnone⟩
  | some expected =>
    obtain ⟨key, hnode, hsha, -⟩ := h.key expected hseeded
    dsimp only
    rw [hnode]
    dsimp only
    rw [if_pos hsha]
    exact ⟨some key, rfl, fun _ hsome => by rw [Option.some.inj hsome]⟩

theorem Quiescent.backupSecret_ok (h : Quiescent sqlite sha256 d db seeded) {key : Option Bytes}
    (hkey : ∀ bytes, key = some bytes → d.node [.utf8 keyFile] = some (.file bytes)) {name : Text}
    (hname : name ∈ secretFiles) :
    backupSecret sha256 d key name = .ok ((topFile d name).map (copyOf sha256)) := by
  have hmem : name ∈ names := List.mem_append_left _ (List.mem_append_right _ hname)
  unfold backupSecret topFile
  cases hrequired : (if name = keyFile then key else none) with
  | some bytes =>
    split_ifs at hrequired with hkeyFile
    rw [hkeyFile, hkey bytes hrequired]
    dsimp only
    rw [copyArtifact_top (hkeyFile ▸ hmem)]
    rfl
  | none =>
    dsimp only
    rcases h.secrets name hname with hnone | ⟨b, hfile⟩
    · rw [hnone]
      rfl
    · rw [hfile, copyArtifact_top hmem]
      rfl

/-- The manifest of a backup. -/
def manifestOf (sqlite : Sqlite) (sha256 : Bytes → Text) (version : Text) (now : ℤ) (d : DataDir)
    (db : sqlite.Db) (config : Option Bytes) : Manifest where
  format := if (d.node [.utf8 mediaDb]).isSome then currentFormat else 3
  kahawaiVersion := version
  takenAt := now
  dbBytes := (sqlite.vacuum db).length
  mediadbBytes := (mediaFile sqlite d).head?.map fun f => f.2.length
  subtitleFiles := (treeFiles d (lit "subtitles")).length
  subtitleBytes := ((treeFiles d (lit "subtitles")).map fun f => f.2.length).sum
  hasPki := (d.node [.utf8 (lit "pki")]).isSome
  hasConfig := config.isSome
  secrets := secretFiles.filter fun name => (d.node [.utf8 name]).isSome
  artifacts := ((snapshotFiles sqlite d db config).map (artifactOf sha256)).insertionSort artifactOrder

theorem Quiescent.topFile_isEmpty (h : Quiescent sqlite sha256 d db seeded) {name : Text}
    (hname : name ∈ secretFiles) : (topFile d name).isEmpty = !(d.node [.utf8 name]).isSome := by
  unfold topFile
  rcases h.secrets name hname with hnone | ⟨b, hfile⟩
  · rw [hnone]
    rfl
  · rw [hfile]
    rfl

/-- The secrets that were copied are those that are there. -/
theorem Quiescent.copied_secrets (h : Quiescent sqlite sha256 d db seeded) :
    ((secretFiles.zip (secretFiles.map fun name => (topFile d name).map (copyOf sha256))).filterMap
      fun x => if x.2.isEmpty then none else some x.1) =
      secretFiles.filter fun name => (d.node [.utf8 name]).isSome := by
  rw [List.zip_map_right, List.filterMap_map]
  have hself : secretFiles.zip secretFiles = secretFiles.map fun name => (name, name) := rfl
  rw [hself, List.filterMap_map, ← List.filterMap_eq_filter]
  refine List.filterMap_congr fun name hname => ?_
  have hempty := h.topFile_isEmpty hname
  simp only [Function.comp_apply, Prod.map_apply, id_eq, List.isEmpty_map, hempty, Option.guard]
  by_cases hsome : (d.node [.utf8 name]).isSome = true <;> simp [hsome]

/-- The backup succeeds. -/
theorem backup_spec (h : Quiescent sqlite sha256 d db seeded) (version : Text) (now : ℤ)
    (config : Option Bytes) :
    backup sqlite sha256 version now d (config.map .file) =
      .ok (manifestOf sqlite sha256 version now d db config, snapshotFiles sqlite d db config) := by
  obtain ⟨key, hrequired, hkey⟩ := h.requiredKey_ok
  have hhub := @copyArtifact_top sha256 hubDb (by decide) (sqlite.vacuum db)
  have hpki := h.backupTree_ok (show lit "pki" ∈ trees by decide)
  have hsubtitles := h.backupTree_ok (show lit "subtitles" ∈ trees by decide)
  have hsecrets := mapM_ok fun name (hname : name ∈ secretFiles) => h.backupSecret_ok hkey hname
  have hends : ∀ mediaCopies configCopies,
      mediaCopies = (mediaFile sqlite d).map (copyOf sha256) →
      configCopies = (config.toList.map fun bytes => ([.utf8 configFile], bytes)).map (copyOf sha256) →
      (let pki := (treeFiles d (lit "pki")).map (copyOf sha256)
      let subtitles := (treeFiles d (lit "subtitles")).map (copyOf sha256)
      let secrets := secretFiles.map fun name => (topFile d name).map (copyOf sha256)
      let copies := copyOf sha256 ([.utf8 hubDb], sqlite.vacuum db) :: mediaCopies ++ pki ++ subtitles ++
        secrets.flatten ++ configCopies
      ({ format := if (d.node [.utf8 mediaDb]).isSome then currentFormat else 3
         kahawaiVersion := version
         takenAt := now
         dbBytes := (sqlite.vacuum db).length
         mediadbBytes := mediaCopies.head?.map fun copy => copy.1.bytes
         subtitleFiles := subtitles.length
         subtitleBytes := (subtitles.map fun copy => copy.1.bytes).sum
         hasPki := (d.node [.utf8 (lit "pki")]).isSome
         hasConfig := !configCopies.isEmpty
         secrets := (secretFiles.zip secrets).filterMap fun x => if x.2.isEmpty then none else some x.1
         artifacts := (copies.map Prod.fst).insertionSort artifactOrder }, copies.map Prod.snd)) =
        (manifestOf sqlite sha256 version now d db config, snapshotFiles sqlite d db config) := by
    rintro _ _ rfl rfl
    dsimp only
    rw [h.copied_secrets]
    unfold manifestOf
    congr 2
    · rw [List.head?_map, Option.map_map]
      rfl
    · rw [List.length_map]
    · rw [List.map_map]
      rfl
    · cases config <;> rfl
    · simp [snapshotFiles, segments, secretFiles, copyOf, Function.comp_def]
    · simp [snapshotFiles, segments, secretFiles, copyOf, Function.comp_def]
  have hmediaDb : mediaDb ∈ names := by decide
  have hconfig : lit "kahawai.toml" ∈ names := by decide
  unfold backup
  rw [h.opened, ok_bind, hrequired, ok_bind, hhub, ok_bind]
  dsimp only
  by_cases hmedia : d.node [.utf8 mediaDb] = none
  · have hnothing : mediaFile sqlite d = [] := if_pos hmedia
    rw [if_neg (by rw [hmedia]; exact Bool.false_ne_true), pure_bind, hpki, ok_bind, hsubtitles, ok_bind,
      hsecrets, ok_bind]
    cases config with
    | none => exact congrArg Except.ok (hends [] [] (by rw [hnothing]; rfl) rfl)
    | some bytes =>
      rw [Option.map_some, Option.isSome_some, if_pos rfl, copyArtifact_top hconfig, ok_bind, pure_bind]
      exact congrArg Except.ok (hends [] [_] (by rw [hnothing]; rfl) rfl)
  · obtain ⟨media, hcontents⟩ := h.media hmedia
    have hmediaFile : mediaFile sqlite d = [([.utf8 mediaDb], sqlite.vacuum media)] := by
      unfold mediaFile
      rw [if_neg hmedia, hcontents]
    rw [if_pos (Option.isSome_iff_ne_none.mpr hmedia), hcontents, ok_bind, copyArtifact_top hmediaDb,
      ok_bind, pure_bind, hpki, ok_bind, hsubtitles, ok_bind, hsecrets, ok_bind]
    cases config with
    | none => exact congrArg Except.ok (hends [_] [] (by rw [hmediaFile]; rfl) rfl)
    | some bytes =>
      rw [Option.map_some, Option.isSome_some, if_pos rfl, copyArtifact_top hconfig, ok_bind, pure_bind]
      exact congrArg Except.ok (hends [_] [_] (by rw [hmediaFile]; rfl) rfl)

end

end Kahawai.Hub.Backup
