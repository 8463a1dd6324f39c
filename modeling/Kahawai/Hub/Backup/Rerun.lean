import Kahawai.Hub.Backup.Restore

/-!
# A restore that is run again

What is staged depends on the snapshot only, so that a second restore of it stages the same
files, in another directory. In the data directory it finds what the first one left behind:
parts of what it will itself put there.

Results:
* `stageArtifacts_congr`: a staging into any empty directory has the same result.
* `restore_of_interrupted`: a restore that was interrupted ends the same when it is run again.
-/

namespace Kahawai.Hub.Backup

open Kahawai.Core Kahawai.Lib Kahawai.Lib.Files

variable {sqlite : Sqlite} {sha256 : Bytes → Text} {x : Snapshot} {l l' : Place} {force : Bool}
  {fs fs' g : World}

/-! ## Staging again -/

/-- A file is staged, or refused, whatever the directory. -/
theorem stageFile_congr {base base' : Path} {staged : List File} {a : Artifact} {found : Path}
    (hsafe : artifactPath (components a.path) = .ok a.path) (hfs : Holds fs base staged)
    (hg : Holds g base' staged) :
    (stageFile sha256 x base a found fs).1 = (stageFile sha256 x base' a found g).1 := by
  unfold stageFile
  cases x.read found with
  | none => rfl
  | some bytes =>
    dsimp only
    rw [locate_artifact hsafe base, locate_artifact hsafe base']
    have hiff := (exists_write_iff (b := bytes) (artifactFile_ne_nil hsafe) hfs).trans
      (exists_write_iff (b := bytes) (artifactFile_ne_nil hsafe) hg).symm
    cases hwrite : (Op.makeDirs (base ++ artifactFile a.path).dropLast).run fs >>=
        FileSystem.add (base ++ artifactFile a.path) (.file bytes) with
    | none =>
      cases hwrite' : (Op.makeDirs (base' ++ artifactFile a.path).dropLast).run g >>=
          FileSystem.add (base' ++ artifactFile a.path) (.file bytes) with
      | none => rfl
      | some g₁ =>
        obtain ⟨fs₁, hfs₁⟩ := hiff.mpr ⟨g₁, hwrite'⟩
        rw [hwrite] at hfs₁
        cases hfs₁
    | some fs₁ =>
      obtain ⟨g₁, hg₁⟩ := hiff.mp ⟨fs₁, hwrite⟩
      rw [hg₁]

theorem stageFiles_congr {base base' : Path} {rest : List (Text × Artifact)} (hrest : Accepted rest)
    {actual : List (Text × Path)} {staged : List File} (hfs : Holds fs base staged) (hg : Holds g base' staged) :
    (stageFiles sha256 x base rest actual staged fs).1 = (stageFiles sha256 x base' rest actual staged g).1 := by
  induction rest generalizing actual staged fs g with
  | nil => rfl
  | cons e rest ih =>
    obtain ⟨path, a⟩ := e
    obtain ⟨hpath, hsafe⟩ := hrest _ List.mem_cons_self
    dsimp only at hpath hsafe
    rw [hpath] at hsafe
    unfold stageFiles
    cases SortedMap.get? path actual with
    | none => rfl
    | some found =>
      dsimp only
      have hsame : (stageFile sha256 x base a found fs).1 = (stageFile sha256 x base' a found g).1 :=
        stageFile_congr hsafe hfs hg
      cases hfile : stageFile sha256 x base a found fs with
      | mk result fs₁ =>
        cases hfile' : stageFile sha256 x base' a found g with
        | mk result' g₁ =>
          rw [hfile, hfile'] at hsame
          dsimp only at hsame
          rw [← hsame] at hfile' ⊢
          cases result with
          | error e => rfl
          | ok file =>
            exact ih (fun e he => hrest e (List.mem_cons_of_mem _ he))
              ((stageFile_spec hsafe hfs hfile).2 file rfl).1 ((stageFile_spec hsafe hg hfile').2 file rfl).1

/-- A staging into any empty directory has the same result. -/
theorem stageArtifacts_congr {base base' : Path} {listed : List Artifact} (hfs : Holds fs base [])
    (hg : Holds g base' []) :
    (stageArtifacts sha256 x base listed fs).1 = (stageArtifacts sha256 x base' listed g).1 := by
  unfold stageArtifacts
  cases hexpected : expectedArtifacts listed with
  | error e => rfl
  | ok expected =>
    dsimp only
    cases collectArtifactPaths x.walk with
    | error e => rfl
    | ok actual => exact stageFiles_congr (expects_of_ok hexpected).accepted hfs hg

/-! ## Checking again -/

/-- The secrets are named by relative paths, as a backup names them. -/
def PlainSecrets (m : Manifest) : Prop :=
  ∀ name ∈ m.secrets, ∃ names : List Text, components name = names.map fun n => .normal (.utf8 n)

/-- The checks depend on the source, and for a hub-only snapshot on the other database. -/
theorem validate_congr {m : Manifest} {source source' data data' : Path} (hplain : PlainSecrets m)
    (hsource : ∀ p, fs.node (source ++ p) = g.node (source' ++ p))
    (hmedia : m.format < currentFormat →
      (fs.node (data ++ [.utf8 mediaDb])).isNone = (g.node (data' ++ [.utf8 mediaDb])).isNone) :
    validate sqlite sha256 m source data fs = validate sqlite sha256 m source' data' g := by
  have hdatabases : checkDatabases m source data fs = checkDatabases m source' data' g := by
    unfold checkDatabases
    rw [hsource, hsource]
    by_cases hformat : currentFormat ≤ m.format
    · rw [if_pos hformat, if_pos hformat]
    · rw [hmedia (Nat.lt_of_not_le hformat)]
  have hsecrets : checkSecrets m source fs = checkSecrets m source' g := by
    have hall : (m.secrets.all fun name => isFile (fs.node (locate source (components name)))) =
        m.secrets.all fun name => isFile (g.node (locate source' (components name))) := by
      rw [Bool.eq_iff_iff, List.all_eq_true, List.all_eq_true]
      refine forall₂_congr fun name hname => ?_
      obtain ⟨names, hnames⟩ := hplain name hname
      rw [hnames, locate_names, locate_names, hsource]
    unfold checkSecrets
    rw [hall]
  have hkey : checkKey sqlite sha256 m source fs = checkKey sqlite sha256 m source' g := by
    have hfun : (fun p => fs.node (source ++ p)) = fun p => g.node (source' ++ p) := funext hsource
    unfold checkKey
    rw [hfun, hsource]
  unfold validate
  rw [hdatabases, hsecrets, hkey]

theorem hubOnly_of_validate {m : Manifest} {source data : Path} (hformat : m.format < currentFormat)
    (h : validate sqlite sha256 m source data fs = .ok ()) :
    fs.node (source ++ [.utf8 mediaDb]) = none ∧ fs.node (data ++ [.utf8 mediaDb]) = none := by
  have hdatabases : checkDatabases m source data fs = .ok () := by
    cases hcheck : checkDatabases m source data fs with
    | error e =>
      unfold validate at h
      rw [hcheck] at h
      cases h
    | ok u => rfl
  unfold checkDatabases at hdatabases
  rw [if_neg (Nat.not_le.mpr hformat)] at hdatabases
  split_ifs at hdatabases with hhub hnone
  exact ⟨Option.isNone_iff_eq_none.mp hnone.1, Option.isNone_iff_eq_none.mp hnone.2⟩

/-- A staging directory can be made beside the data directory. -/
theorem exists_opened (habove : fs.node l.parent = some .dir) (hfree : fs.node l.stagingDir = none) :
    ∃ fs₁ fs₂, (Op.makeDirs l.parent).run fs = some fs₁ ∧ fs₁.add l.stagingDir .dir = some fs₂ := by
  have hdirs : ∀ q, q <+: l.parent → fs.node q = some .dir := fun q hq => node_eq_dir_above habove hq
  have hallowed : (Op.makeDirs l.parent).Allowed fs := by
    intro q hq
    rw [hdirs q ((List.mem_inits _ _).mp hq)]
    rfl
  obtain ⟨fs₁, hmake⟩ := Op.exists_run hallowed
  have hnode₁ : ∀ q, fs₁.node q = fs.node q := by
    intro q
    rw [Op.node_of_run hmake, Op.goal_makeDirs]
    split_ifs with hq
    · exact (hdirs q hq).symm
    · rfl
  have hadd : fs₁.add l.stagingDir .dir ≠ none := by
    have hne : l.stagingDir ≠ [] := List.append_ne_nil_of_right_ne_nil _ (List.cons_ne_nil _ _)
    have hdir : fs₁.node l.stagingDir.dropLast = some .dir := by
      rw [hnode₁, Place.stagingDir, List.dropLast_concat]
      exact hdirs _ (List.prefix_refl _)
    unfold FileSystem.add
    rw [dif_pos ⟨hne, hdir, by rw [hnode₁, hfree]⟩]
    exact Option.some_ne_none _
  obtain ⟨fs₂, hfs₂⟩ := Option.ne_none_iff_exists'.mp hadd
  exact ⟨fs₁, fs₂, hmake, hfs₂⟩

/-- A second restore stages the same files. -/
theorem prepare_again (hformat : ∀ m, x.manifest = .ok m → 3 ≤ m.format) {m : Manifest} {source : Path}
    {files : List File} (h : Prepared sqlite sha256 x l fs m source files fs') (hplain : PlainSecrets m)
    (hparent : l'.parent = l.parent) (habove : g.node l.parent = some .dir)
    (hfree : g.node l'.stagingDir = none)
    (hmedia : m.format < currentFormat → g.node (l'.data ++ [.utf8 mediaDb]) = none) :
    ∃ g', prepare sqlite sha256 x l' true g = (.ok (m, l'.stagingDir, files), g') ∧
      ∀ p, g'.node (l'.stagingDir ++ p) = fs'.node (source ++ p) := by
  obtain ⟨staged, fs₂, rfl, hempty, hstage⟩ := h.staging
  obtain ⟨g₁, g₂, hmake, hg₂⟩ := exists_opened (hparent ▸ habove) hfree
  obtain ⟨hempty', -, -, hframe⟩ := open_staging hmake hg₂
  have hresult : (stageArtifacts sha256 x l'.stagingDir m.artifacts g₂).1 = .ok staged := by
    rw [stageArtifacts_congr hempty' hempty, hstage]
  cases hstage' : stageArtifacts sha256 x l'.stagingDir m.artifacts g₂ with
  | mk result g₃ =>
    rw [hstage'] at hresult
    dsimp only at hresult
    subst hresult
    have hholds := (stageArtifacts_ok hempty hstage).1
    have hholds' := (stageArtifacts_ok hempty' hstage').1
    have hvalid : validate sqlite sha256 m l'.stagingDir l'.data g₃ = .ok () := by
      rw [← h.valid]
      refine validate_congr hplain (fun p => (hholds' p).trans (hholds p).symm) fun hhub => ?_
      have hnone : g₃.node (l'.data ++ [.utf8 mediaDb]) = none := by
        rw [stageArtifacts_frame hempty' hstage' _ (not_staging_prefix_data l' _),
          (hframe _ (not_staging_prefix_data l' _)).node_data, hmedia hhub]
      rw [hnone, (hubOnly_of_validate hhub h.valid).2]
    refine ⟨g₃, ?_, fun p => by rw [h.source_eq, hholds', hholds]⟩
    unfold prepare
    rw [h.manifest]
    dsimp only
    rw [if_neg (Nat.not_lt.mpr h.current), Bool.not_true, Bool.and_false, if_neg Bool.false_ne_true,
      if_neg (Nat.not_lt.mpr (hformat m h.manifest)), hmake]
    dsimp only
    rw [hg₂]
    dsimp only
    rw [hstage']
    dsimp only
    rw [hvalid]

/-! ## Restoring again -/

section Again

variable {m : Manifest} {source : Path} {files : List File} {fs₁ fs₂ : World}

/-- What an interrupted replacement leaves in the data directory. -/
theorem Prepared.node_of_interrupted (h : Prepared sqlite sha256 x l fs m source files fs₁)
    (hi : Interrupted (replacement l.data (fun p => fs₁.node (source ++ p)) files) fs₁ fs₂) (p : Path) :
    fs₂.node (l.data ++ p) = fs.node (l.data ++ p) ∨
      ∃ v, restored (fun p => fs₁.node (source ++ p)) p = some v ∧ obstructs v (fs₂.node (l.data ++ p)) = false := by
  have hnode := Files.node_of_interrupted (consistent_replacement h.walks) hi (l.data ++ p)
  rwa [goals_replacement h.walks, h.node_data] at hnode

/-- A restore that is interrupted and run again ends as it would have ended. -/
theorem restore_of_interrupted (hformat : ∀ m, x.manifest = .ok m → 3 ≤ m.format)
    (hprepare : prepare sqlite sha256 x l force fs = (.ok (m, source, files), fs₁))
    (hplaceable : Placeable fun p => fs₁.node (source ++ p))
    (hfree : Unobstructed l fs fun p => fs₁.node (source ++ p)) (hplain : PlainSecrets m)
    (hi : Interrupted (replacement l.data (fun p => fs₁.node (source ++ p)) files) fs₁ fs₂)
    (hparent : l'.parent = l.parent) (hdir : l'.dir = l.dir)
    (hg : ∀ p, g.node (l.data ++ p) = fs₂.node (l.data ++ p)) (habove : g.node l.parent = some .dir)
    (hnew : g.node l'.stagingDir = none) :
    (restore sqlite sha256 x l force fs).1 = .ok m ∧ (restore sqlite sha256 x l' true g).1 = .ok m ∧
      ∀ p, (restore sqlite sha256 x l' true g).2.node (l.data ++ p) =
        (restore sqlite sha256 x l force fs).2.node (l.data ++ p) := by
  have hprepared := (prepare_spec hformat hprepare).2 m source files rfl
  have hdata : l'.data = l.data := by rw [Place.data, Place.data, hparent, hdir]
  have hleft := hprepared.node_of_interrupted hi
  have hmedia : m.format < currentFormat → g.node (l'.data ++ [.utf8 mediaDb]) = none := by
    intro hhub
    obtain ⟨hsource, hnone⟩ := hubOnly_of_validate hhub hprepared.valid
    rw [← hprepared.source_eq] at hsource
    have hkept : restored (fun p => fs₁.node (source ++ p)) [.utf8 mediaDb] = none := by
      rw [restored, if_pos (by decide), hsource]
    rw [hdata, hg]
    rcases hleft [.utf8 mediaDb] with hsame | ⟨v, hv, -⟩
    · rw [hsame, ← hprepared.node_data, hnone]
    · rw [hkept] at hv
      cases hv
  obtain ⟨g₁, hprepare', hsource⟩ := prepare_again hformat hprepared hplain hparent habove hnew hmedia
  have hsame : (fun p => g₁.node (l'.stagingDir ++ p)) = fun p => fs₁.node (source ++ p) := funext hsource
  have hfree' : Unobstructed l' g fun p => g₁.node (l'.stagingDir ++ p) := by
    rw [hsame]
    intro p v hv
    rw [hdata, hg]
    rcases hleft p with hkept | ⟨v', hv', hclear⟩
    · rw [hkept]
      exact hfree p v hv
    · rw [hv] at hv'
      cases hv'
      exact hclear
  obtain ⟨hok, hnode⟩ := restore_of_done hformat hprepare hplaceable hfree
  obtain ⟨hok', hnode'⟩ := restore_of_done hformat hprepare' (by rw [hsame]; exact hplaceable) hfree'
  refine ⟨hok, hok', fun p => ?_⟩
  rw [hdata, hsame] at hnode'
  rw [hnode', hnode, hg]
  rcases hleft p with hkept | ⟨v, hv, -⟩
  · rw [hkept]
  · rw [hv, Option.getD_some, Option.getD_some]

end Again

end Kahawai.Hub.Backup
