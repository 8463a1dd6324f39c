import Kahawai.Core.Text
import Kahawai.Lib.Files
import Kahawai.Lib.SortedMap
import Mathlib.Data.List.Lex
import Mathlib.Data.Char
import Mathlib.Data.List.Sort

/-!
# Backup and restore

Model of `backup` and `restore` (`crates/kahawai-hub/src/backup.rs`, lines 120–607). A backup
writes a new directory, which is given by its files. A restore stages the files that the
manifest lists, checks them, and then replaces the files of the data directory one by one.

While a restore runs, the snapshot may change: the walk of its directory finds what it
finds, and each file is read once (`Snapshot`). The databases and SHA-256 are parameters.
The modes of files are left out, and so are links. Of an error the fixed part of its text is
kept.
-/

namespace Kahawai.Hub.Backup

open Kahawai.Core Kahawai.Lib Kahawai.Lib.Files

/-! ## Paths -/

abbrev Bytes := List UInt8

/-- A file name, which need not be UTF-8. -/
inductive OsName
  | utf8 (name : Text)
  | raw (bytes : Bytes)
  deriving DecidableEq

/-- A path from the root, or from a directory that is given elsewhere. -/
abbrev Path := List OsName

abbrev World := FileSystem OsName Bytes

/-- `std::path::Component`. -/
inductive Component
  | rootDir
  | curDir
  | parentDir
  | normal (name : OsName)
  deriving DecidableEq

/-- What a part between slashes stands for. A dot is left out. -/
def componentOf (part : Text) : Option Component :=
  if part = [] ∨ part = lit "." then none
  else if part = lit ".." then some .parentDir
  else some (.normal (.utf8 part))

/-- `Path::components` of a string. -/
def components (s : Text) : List Component :=
  let parts := Text.components s
  if Text.startsWith (lit "/") s then .rootDir :: parts.filterMap componentOf
  else if parts.head? = some (lit ".") then .curDir :: parts.filterMap componentOf
  else parts.filterMap componentOf

/-- `Path::join`, resolved. -/
def locate (base : Path) (relative : List Component) : Path :=
  relative.foldl
    (fun path component =>
      match component with
      | .rootDir => []
      | .curDir => path
      | .parentDir => path.dropLast
      | .normal name => path ++ [name])
    base

/-- The loop body of `artifact_path`. -/
def pushComponent (path : Text) : Component → Except Text Text
  | .normal (.utf8 name) =>
    if '\\' ∈ name then .error (lit "snapshot artifact path is not portable")
    else .ok (if path = [] then name else path ++ '/' :: name)
  | .normal (.raw _) => .error (lit "snapshot artifact path is not utf-8")
  | _ => .error (lit "unsafe snapshot artifact path")

/-- `artifact_path`. -/
def artifactPath (relative : List Component) : Except Text Text := do
  let path ← relative.foldlM pushComponent []
  if path = [] then .error (lit "empty snapshot artifact path") else .ok path

/-! ## Snapshots -/

/-- `struct Artifact`. -/
structure Artifact where
  path : Text
  bytes : ℕ
  sha256 : Text
  deriving DecidableEq

/-- `struct Manifest`. -/
structure Manifest where
  format : ℕ
  kahawaiVersion : Text
  takenAt : ℤ
  dbBytes : ℕ
  mediadbBytes : Option ℕ
  subtitleFiles : ℕ
  subtitleBytes : ℕ
  hasPki : Bool
  hasConfig : Bool
  secrets : List Text
  artifacts : List Artifact
  deriving DecidableEq

def hubDb : Text := lit "hub.db"
def mediaDb : Text := lit "mediadb.db"

/-- `DATABASES`. -/
def databases : List Text := [hubDb, mediaDb]

/-- `TREES`. -/
def trees : List Text := [lit "pki", lit "subtitles"]

/-- `secrets::KEY_FILE`. -/
def keyFile : Text := lit "credentials.secret"

/-- `SECRET_FILES`. -/
def secretFiles : List Text := [lit "jwt.secret", keyFile, lit "metrics.secret"]

/-- `MANIFEST`. -/
def manifestFile : Text := lit "kahawai-backup.json"

/-- `FORMAT`. -/
def currentFormat : ℕ := 4

/-- A regular file, by its path in the snapshot. -/
abbrev File := Path × Bytes

/-- What a walk of the snapshot meets, directories apart. -/
inductive Visit
  | file (relative : Path)
  | other (relative : Path)
  | unreadable
  deriving DecidableEq

/-- A snapshot as a restore finds it: the manifest, the walk, and what each file holds when it
    is opened. `order` is the order in which the staged files are listed. Snapshots of formats
    1 and 2 are read in place, at `root`, where a walk finds `present`. -/
structure Snapshot where
  manifest : Except Text Manifest
  walk : List Visit
  read : Path → Option Bytes
  order : List File → List File
  order_perm : ∀ files, (order files).Perm files
  root : Path
  present : List File

/-! ## What is not ours -/

/-- SQLite and `db::open`. A directory is given by its nodes. -/
structure Sqlite where
  Db : Type
  /-- What is committed in a database, which may have a journal beside it. -/
  contents : (Path → Option (Node Bytes)) → Text → Except Text Db
  /-- `db::open` of a data directory, and then its contents. -/
  openHub : (Path → Option (Node Bytes)) → Except Text Db
  /-- The row `SEEDED_SETTING` of the settings. -/
  marker : Db → Except Text (Option Text)
  /-- The file that `VACUUM INTO` writes. -/
  vacuum : Db → Bytes
  vacuum_ne_nil : ∀ db, vacuum db ≠ []
  /-- A snapshot copies the committed contents. -/
  contents_vacuum : ∀ (dir : Path → Option (Node Bytes)) name db,
    dir [.utf8 name] = some (.file (vacuum db)) →
    (∀ suffix ≠ [], dir [.utf8 (name ++ suffix)] = none) → contents dir name = .ok db

variable (sqlite : Sqlite) (sha256 : Bytes → Text)

/-! ## Backup -/

/-- A data directory as a backup finds it: its nodes, and what the walk of a tree meets, by
    paths from that tree. -/
structure DataDir where
  node : Path → Option (Node Bytes)
  walk : Text → List (Path × Node Bytes)

/-- `copy_artifact` and `hash_artifact`, with the file that is copied. -/
def copyArtifact (relative : Path) : Option (Node Bytes) → Except Text (Artifact × File)
  | some (.file bytes) => do
    let path ← artifactPath (relative.map .normal)
    .ok (⟨path, bytes.length, sha256 bytes⟩, (relative, bytes))
  | _ => .error (lit "opening")

/-- `copy_snapshot_tree`. -/
def copySnapshotTree (tree : Text) (walk : List (Path × Node Bytes)) :
    Except Text (List (Artifact × File)) :=
  walk.foldlM
    (fun copied (relative, node) =>
      match node with
      | .dir => .ok copied
      | _ => do
        let copy ← copyArtifact sha256 (.utf8 tree :: relative) (some node)
        .ok (copied ++ [copy]))
    []

/-- The key that the database requires (lines 139–158). -/
def requiredKey (d : DataDir) (db : sqlite.Db) : Except Text (Option Bytes) := do
  match ← sqlite.marker db with
  | none => .ok none
  | some expected =>
    match d.node [.utf8 keyFile] with
    | some (.file key) =>
      if sha256 key = expected then .ok (some key)
      else .error (keyFile ++ lit " does not match the database")
    | _ => .error (lit "reading required " ++ keyFile)

/-- The loop over `TREES` for one tree. -/
def backupTree (d : DataDir) (tree : Text) : Except Text (List (Artifact × File)) :=
  match d.node [.utf8 tree] with
  | none => .ok []
  | some .dir => copySnapshotTree sha256 tree (d.walk tree)
  | some _ => .error (lit "copying")

/-- The loop over `SECRET_FILES` for one file. -/
def backupSecret (d : DataDir) (key : Option Bytes) (name : Text) :
    Except Text (List (Artifact × File)) :=
  match if name = keyFile then key else none with
  | some bytes => do
    let copy ← copyArtifact sha256 [.utf8 name] (some (.file bytes))
    .ok [copy]
  | none =>
    if (d.node [.utf8 name]).isSome then do
      let copy ← copyArtifact sha256 [.utf8 name] (d.node [.utf8 name])
      .ok [copy]
    else .ok []

def artifactOrder (a b : Artifact) : Prop := a.path ≤ b.path

instance : DecidableRel artifactOrder := fun a b => inferInstanceAs (Decidable (a.path ≤ b.path))

/-- `backup` into a directory that does not exist. -/
def backup (version : Text) (now : ℤ) (d : DataDir) (config : Option (Node Bytes)) :
    Except Text (Manifest × List File) := do
  let hasMediadb := (d.node [.utf8 mediaDb]).isSome
  let db ← sqlite.openHub d.node
  let key ← requiredKey sqlite sha256 d db
  let hub ← copyArtifact sha256 [.utf8 hubDb] (some (.file (sqlite.vacuum db)))
  let media ←
    if hasMediadb then do
      let db ← sqlite.contents d.node mediaDb
      let copy ← copyArtifact sha256 [.utf8 mediaDb] (some (.file (sqlite.vacuum db)))
      pure [copy]
    else pure []
  let pki ← backupTree sha256 d (lit "pki")
  let subtitles ← backupTree sha256 d (lit "subtitles")
  let secrets ← secretFiles.mapM (backupSecret sha256 d key)
  let config ←
    if config.isSome then do
      let copy ← copyArtifact sha256 [.utf8 (lit "kahawai.toml")] config
      pure [copy]
    else pure []
  let copies := hub :: media ++ pki ++ subtitles ++ secrets.flatten ++ config
  .ok
    ({ format := if hasMediadb then currentFormat else 3
       kahawaiVersion := version
       takenAt := now
       dbBytes := hub.1.bytes
       mediadbBytes := media.head?.map fun copy => copy.1.bytes
       subtitleFiles := subtitles.length
       subtitleBytes := (subtitles.map fun copy => copy.1.bytes).sum
       hasPki := (d.node [.utf8 (lit "pki")]).isSome
       hasConfig := !config.isEmpty
       secrets := (secretFiles.zip secrets).filterMap fun (name, copies) =>
         if copies.isEmpty then none else some name
       artifacts := (copies.map Prod.fst).insertionSort artifactOrder },
      copies.map Prod.snd)

/-! ## Staging -/

/-- The loop body of `collect_artifact_paths`. -/
def collectVisit (artifacts : List (Text × Path)) : Visit → Except Text (List (Text × Path))
  | .file relative =>
    if relative = [.utf8 manifestFile] then .ok artifacts
    else do
      let path ← artifactPath (relative.map .normal)
      .ok (SortedMap.upsert path (fun _ => relative) artifacts)
  | .other _ => .error (lit "snapshot artifact is not a regular file")
  | .unreadable => .error (lit "reading the snapshot")

/-- `collect_artifact_paths`. -/
def collectArtifactPaths (walk : List Visit) : Except Text (List (Text × Path)) :=
  walk.foldlM collectVisit []

def isLowerHex (c : Char) : Bool := isAsciiDigit c || ('a' ≤ c && c ≤ 'f')

/-- The body of the loop over the listed artifacts. -/
def expectArtifact (expected : List (Text × Artifact)) (artifact : Artifact) :
    Except Text (List (Text × Artifact)) :=
  if ¬ (Text.byteLen artifact.sha256 = 64 ∧ artifact.sha256.all isLowerHex) then
    .error (lit "invalid metadata for snapshot artifact " ++ artifact.path)
  else do
    let path ← artifactPath (components artifact.path)
    if path ≠ artifact.path then .error (lit "unsafe snapshot artifact path " ++ artifact.path)
    else if (SortedMap.get? artifact.path expected).isSome then
      .error (lit "snapshot manifest lists " ++ artifact.path ++ lit " more than once")
    else .ok (SortedMap.upsert artifact.path (fun _ => artifact) expected)

/-- The loop over the listed artifacts. -/
def expectedArtifacts (listed : List Artifact) : Except Text (List (Text × Artifact)) :=
  listed.foldlM expectArtifact []

/-- The body of the loop over the expected artifacts, for one that was found. Directories that are
    made for a file which is not created go with the staging directory. -/
def stageFile (x : Snapshot) (staging : Path) (artifact : Artifact) (found : Path) (fs : World) :
    Except Text File × World :=
  match x.read found with
  | none => (.error (lit "opening"), fs)
  | some bytes =>
    let target := locate staging (components artifact.path)
    match (Op.makeDirs target.dropLast).run fs >>= FileSystem.add target (.file bytes) with
    | none => (.error (lit "creating"), fs)
    | some fs =>
      (if bytes.length ≠ artifact.bytes then
          .error (lit "snapshot artifact " ++ artifact.path ++ lit " has another length")
        else if sha256 bytes ≠ artifact.sha256 then
          .error (lit "snapshot artifact " ++ artifact.path ++ lit " failed its SHA-256 check")
        else .ok (locate [] (components artifact.path), bytes), fs)

/-- The loop over the expected artifacts. The files that are staged are kept with their paths
    in the staging directory. -/
def stageFiles (x : Snapshot) (staging : Path) :
    List (Text × Artifact) → List (Text × Path) → List File → World → Except Text (List File) × World
  | [], actual, staged, fs =>
    (match actual with
      | [] => .ok staged
      | (path, _) :: _ => .error (lit "snapshot contains unlisted artifact " ++ path), fs)
  | (path, artifact) :: rest, actual, staged, fs =>
    match SortedMap.get? path actual with
    | none =>
      (.error (lit "the manifest lists " ++ path ++ lit ", and the snapshot does not have it"), fs)
    | some found =>
      match stageFile sha256 x staging artifact found fs with
      | (.error e, fs) => (.error e, fs)
      | (.ok file, fs) =>
        stageFiles x staging rest (actual.filter fun e => e.1 ≠ path) (staged ++ [file]) fs

/-- `stage_artifacts`. -/
def stageArtifacts (x : Snapshot) (staging : Path) (listed : List Artifact) (fs : World) :
    Except Text (List File) × World :=
  match expectedArtifacts listed with
  | .error e => (.error e, fs)
  | .ok expected =>
    match collectArtifactPaths x.walk with
    | .error e => (.error e, fs)
    | .ok actual => stageFiles sha256 x staging expected actual [] fs

/-! ## Restore -/

/-- `Path::is_file`. -/
def isFile : Option (Node Bytes) → Bool
  | some (.file _) => true
  | _ => false

/-- The databases that the format requires (lines 299–314). -/
def checkDatabases (m : Manifest) (source data : Path) (fs : World) : Except Text Unit :=
  if ¬ isFile (fs.node (source ++ [.utf8 hubDb])) then
    .error (lit "the snapshot does not have hub.db")
  else if currentFormat ≤ m.format then
    if m.mediadbBytes.any (0 < ·) ∧ isFile (fs.node (source ++ [.utf8 mediaDb])) then .ok ()
    else .error (lit "a format-4 snapshot must contain mediadb.db")
  else if (fs.node (source ++ [.utf8 mediaDb])).isNone ∧ (fs.node (data ++ [.utf8 mediaDb])).isNone then
    .ok ()
  else .error (lit "a hub-only snapshot cannot restore mediadb; restore it into a fresh data directory")

/-- The secrets that the manifest lists (lines 315–320). -/
def checkSecrets (m : Manifest) (source : Path) (fs : World) : Except Text Unit :=
  if m.secrets.all fun name => isFile (fs.node (locate source (components name))) then .ok ()
  else .error (lit "the manifest lists a secret, and the snapshot does not have it")

/-- The key that the staged database requires (lines 321–356). -/
def checkKey (m : Manifest) (source : Path) (fs : World) : Except Text Unit :=
  if m.format < 2 then .ok ()
  else do
    let db ← sqlite.contents (fun p => fs.node (source ++ p)) hubDb
    match ← sqlite.marker db with
    | none => .ok ()
    | some expected =>
      match fs.node (source ++ [.utf8 keyFile]) with
      | some (.file key) =>
        if keyFile ∉ m.secrets then
          .error (lit "the snapshot database requires " ++ keyFile ++
            lit ", but the snapshot does not carry it")
        else if sha256 key = expected then .ok ()
        else .error (keyFile ++ lit " does not match the snapshot database")
      | _ =>
        .error (lit "the snapshot database requires " ++ keyFile ++
          lit ", but the snapshot does not carry it")

/-- What is checked before the data directory is touched. -/
def validate (m : Manifest) (source data : Path) (fs : World) : Except Text Unit := do
  checkDatabases m source data fs
  checkSecrets m source fs
  checkKey sqlite sha256 m source fs

/-- What replaces a database: its journals are removed first. -/
def restoreDatabase (data : Path) (source : Path → Option (Node Bytes)) (name : Text) :
    List (Op OsName Bytes) :=
  let stale := [lit "-wal", lit "-shm"].map fun suffix => .remove (data ++ [.utf8 (name ++ suffix)])
  match source [.utf8 name] with
  | none => []
  | some (.file bytes) => stale ++ [.copy (data ++ [.utf8 name]) bytes]
  | some _ => stale ++ [.fail]

/-- The effects of `copy_tree`. Making a directory that is there does nothing, so that it
    stands before every file. -/
def copyTree (data : Path) (source : Path → Option (Node Bytes)) (files : List File) (tree : Text) :
    List (Op OsName Bytes) :=
  match source [.utf8 tree] with
  | none => []
  | some .dir =>
    .makeDirs (data ++ [.utf8 tree]) ::
      (files.filter fun f => [.utf8 tree] <+: f.1).flatMap fun f =>
        [.makeDirs (data ++ f.1.dropLast), .copy (data ++ f.1) f.2]
  -- the directory is made, and then the file is not a directory
  | some _ => [.makeDirs (data ++ [.utf8 tree]), .fail]

/-- What replaces a secret. -/
def restoreSecret (data : Path) (source : Path → Option (Node Bytes)) (name : Text) :
    List (Op OsName Bytes) :=
  match source [.utf8 name] with
  | none => []
  | some (.file bytes) => [.copy (data ++ [.utf8 name]) bytes]
  | some _ => [.fail]

/-- What a restore does in the data directory (lines 357–393). -/
def replacement (data : Path) (source : Path → Option (Node Bytes)) (files : List File) :
    List (Op OsName Bytes) :=
  .makeDirs data ::
    (databases.flatMap (restoreDatabase data source) ++
      trees.flatMap (copyTree data source files) ++
      secretFiles.flatMap (restoreSecret data source))

/-- The data directory, and beside it the staging directory, which gets a new name. -/
structure Place where
  parent : Path
  dir : OsName
  staging : OsName
  staging_ne : staging ≠ dir

def Place.data (l : Place) : Path := l.parent ++ [l.dir]

def Place.stagingDir (l : Place) : Path := l.parent ++ [l.staging]

/-- The part of `restore` before the data directory is touched: the source, and the files that
    a walk of it finds. -/
def prepare (x : Snapshot) (l : Place) (force : Bool) (fs : World) :
    Except Text (Manifest × Path × List File) × World :=
  match x.manifest with
  | .error e => (.error e, fs)
  | .ok m =>
    if currentFormat < m.format then
      (.error (lit "snapshot format is newer than this build understands"), fs)
    else if databases.any (fun name => (fs.node (l.data ++ [.utf8 name])).isSome) && !force then
      (.error (lit "already holds a database — stop the hub and pass --force to replace it"), fs)
    else if m.format < 3 then
      (validate sqlite sha256 m x.root l.data fs >>= fun _ => .ok (m, x.root, x.present), fs)
    else
      match (Op.makeDirs l.parent).run fs with
      | none => (.error (lit "creating restore staging directory"), fs)
      | some fs =>
        match fs.add l.stagingDir .dir with
        | none => (.error (lit "creating restore staging directory"), fs)
        | some fs =>
          match stageArtifacts sha256 x l.stagingDir m.artifacts fs with
          | (.error e, fs) => (.error e, fs.removeAll l.stagingDir)
          | (.ok files, fs) =>
            match validate sqlite sha256 m l.stagingDir l.data fs with
            | .error e => (.error e, fs.removeAll l.stagingDir)
            | .ok () => (.ok (m, l.stagingDir, x.order files), fs)

/-- `restore`. The staging directory is removed in the end. -/
def restore (x : Snapshot) (l : Place) (force : Bool) (fs : World) : Except Text Manifest × World :=
  match prepare sqlite sha256 x l force fs with
  | (.error e, fs) => (.error e, fs)
  | (.ok (m, source, files), fs) =>
    let (done, after) := runAll (replacement l.data (fun p => fs.node (source ++ p)) files) fs
    (if done then .ok m else .error (lit "restoring"),
      if m.format < 3 then after else after.removeAll l.stagingDir)

end Kahawai.Hub.Backup
