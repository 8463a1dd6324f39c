import Kahawai.Hub.Backup.Replacement

/-!
# Restore

A restore is refused before the data directory is touched, or replaces what was staged. It
checks the snapshot, but not whether what was staged can be put in its place: a staged file
under the name of a tree, a staged directory under that of a secret, or something in the way
in the data directory stops it in the middle.

Results:
* `prepare_spec`: what the checks leave behind, and what they let pass.
* `sound_iff`: when a restore gives what was listed or touches nothing.
-/

namespace Kahawai.Hub.Backup

open Kahawai.Core Kahawai.Lib Kahawai.Lib.Files

variable {sqlite : Sqlite} {sha256 : Bytes → Text} {x : Snapshot} {l : Place} {force : Bool}
  {fs fs' : World}

/-! ## Directories -/

theorem not_data_prefix_parent (l : Place) {q : Path} (h : q <+: l.parent) : ¬ l.data <+: q := by
  intro hdata
  have hlength := (hdata.trans h).length_le
  rw [Place.data, List.length_append, List.length_singleton] at hlength
  omega

theorem not_staging_prefix_parent (l : Place) {q : Path} (h : q <+: l.parent) : ¬ l.stagingDir <+: q := by
  intro hstaging
  have hlength := (hstaging.trans h).length_le
  rw [Place.stagingDir, List.length_append, List.length_singleton] at hlength
  omega

/-- The staging directory lies beside the data directory. -/
theorem not_staging_prefix_data (l : Place) (p : Path) : ¬ l.stagingDir <+: l.data ++ p := by
  rintro ⟨r, hr⟩
  unfold Place.stagingDir Place.data at hr
  rw [List.append_assoc, List.append_assoc] at hr
  have hcons := List.append_cancel_left hr
  rw [List.singleton_append, List.singleton_append] at hcons
  exact l.staging_ne (List.cons.inj hcons).1

/-- Above the data directory. -/
theorem prefix_parent_of_prefix_data {q : Path} (h : q <+: l.data) (hne : q ≠ l.data) : q <+: l.parent := by
  have hdrop := prefix_dropLast h hne
  rwa [Place.data, List.dropLast_concat] at hdrop

/-- Nothing has changed, but that the directories above the data directory are made. -/
def SameAt (l : Place) (fs fs' : World) (q : Path) : Prop :=
  fs'.node q = fs.node q ∨ (q <+: l.parent ∧ fs.node q = none ∧ fs'.node q = some .dir)

theorem SameAt.node_data {p : Path} (h : SameAt l fs fs' (l.data ++ p)) :
    fs'.node (l.data ++ p) = fs.node (l.data ++ p) := by
  rcases h with h | ⟨habove, -, -⟩
  · exact h
  · exact absurd (List.prefix_append _ _) (not_data_prefix_parent l habove)

/-! ## Before the data directory is touched -/

/-- What the checks let pass, and what they have staged. -/
structure Prepared (sqlite : Sqlite) (sha256 : Bytes → Text) (x : Snapshot) (l : Place) (fs : World)
    (m : Manifest) (source : Path) (files : List File) (fs₁ : World) : Prop where
  manifest : x.manifest = .ok m
  current : m.format ≤ currentFormat
  source_eq : source = l.stagingDir
  staging : ∃ staged fs₂, files = x.order staged ∧ Holds fs₂ l.stagingDir [] ∧
    stageArtifacts sha256 x l.stagingDir m.artifacts fs₂ = (.ok staged, fs₁)
  valid : validate sqlite sha256 m l.stagingDir l.data fs₁ = .ok ()
  fresh : ∀ p, fs.node (l.stagingDir ++ p) = none
  above : fs₁.node l.parent = some .dir
  frame : ∀ q, ¬ l.stagingDir <+: q → SameAt l fs fs₁ q

theorem Prepared.staged {m : Manifest} {source : Path} {files : List File}
    (h : Prepared sqlite sha256 x l fs m source files fs') :
    ∃ staged, files = x.order staged ∧ Holds fs' l.stagingDir staged ∧ Listed sha256 x m.artifacts staged := by
  obtain ⟨staged, fs₂, hfiles, hempty, hstage⟩ := h.staging
  exact ⟨staged, hfiles, stageArtifacts_ok hempty hstage⟩

/-- The directories above the data directory are made. -/
theorem same_of_makeDirs {fs₁ : World} (hdirs : (Op.makeDirs l.parent).run fs = some fs₁) (q : Path) :
    SameAt l fs fs₁ q := by
  have hallowed := Op.allowed_of_run hdirs
  unfold SameAt
  rw [Op.node_of_run hdirs, Op.goal_makeDirs]
  split_ifs with habove
  · have hclear := hallowed q ((List.mem_inits _ _).mpr habove)
    rcases hnode : fs.node q with _ | node
    · exact Or.inr ⟨habove, rfl, rfl⟩
    · rw [hnode] at hclear
      cases node with
      | dir => exact Or.inl rfl
      | _ => cases hclear
  · exact Or.inl rfl

/-- The staging directory is made. -/
theorem open_staging {fs₁ fs₂ : World} (hdirs : (Op.makeDirs l.parent).run fs = some fs₁)
    (hadd : fs₁.add l.stagingDir .dir = some fs₂) :
    Holds fs₂ l.stagingDir [] ∧ (∀ p, fs.node (l.stagingDir ++ p) = none) ∧
      fs₂.node l.parent = some .dir ∧ (∀ q, ¬ l.stagingDir <+: q → SameAt l fs fs₂ q) := by
  obtain ⟨-, hparent, hfree⟩ : l.stagingDir ≠ [] ∧ fs₁.node l.stagingDir.dropLast = some .dir ∧
      fs₁.node l.stagingDir = none := by
    unfold FileSystem.add at hadd
    split_ifs at hadd with h
    exact h
  have hsame := same_of_makeDirs hdirs
  have hnode := FileSystem.node_of_add hadd
  refine ⟨fun p => ?_, fun p => ?_, ?_, fun q hq => ?_⟩
  · rw [hnode]
    by_cases hp : p = []
    · rw [hp, List.append_nil, if_pos rfl, nodeOf_nil]
    · rw [if_neg (fun h => hp (List.append_right_eq_self.mp h)), node_append_eq_none hfree,
        nodeOf_of_lookup_none hp List.lookup_nil]
      simp
  · rcases hsame (l.stagingDir ++ p) with h | ⟨habove, -, -⟩
    · rw [← h, node_append_eq_none hfree]
    · exact absurd (List.prefix_append _ _) (not_staging_prefix_parent l habove)
  · have hne : l.parent ≠ l.stagingDir := fun h =>
      not_staging_prefix_parent l (List.prefix_refl _) (h ▸ List.prefix_refl _)
    rw [Place.stagingDir, List.dropLast_concat] at hparent
    rw [hnode, if_neg hne, hparent]
  · have hne : q ≠ l.stagingDir := fun h => hq (h ▸ List.prefix_refl _)
    unfold SameAt
    rw [hnode, if_neg hne]
    exact hsame q

/-- After the staging directory is removed, nothing has changed. -/
theorem same_of_removeAll {fs₁ : World} (hfresh : ∀ p, fs.node (l.stagingDir ++ p) = none)
    (hframe : ∀ q, ¬ l.stagingDir <+: q → SameAt l fs fs₁ q) (q : Path) :
    SameAt l fs (fs₁.removeAll l.stagingDir) q := by
  have hne : l.stagingDir ≠ [] := List.append_ne_nil_of_right_ne_nil _ (List.cons_ne_nil _ _)
  unfold SameAt
  rw [FileSystem.node_removeAll hne]
  split_ifs with hstaging
  · obtain ⟨p, rfl⟩ := hstaging
    exact Or.inl (hfresh p).symm
  · exact hframe q hstaging

/-- What the checks leave behind, and what they let pass. -/
theorem prepare_spec (hformat : ∀ m, x.manifest = .ok m → 3 ≤ m.format)
    {result : Except Text (Manifest × Path × List File)}
    (h : prepare sqlite sha256 x l force fs = (result, fs')) :
    (∀ e, result = .error e → ∀ q, SameAt l fs fs' q) ∧
      ∀ m source files, result = .ok (m, source, files) →
        Prepared sqlite sha256 x l fs m source files fs' := by
  have hfailed : ∀ {e : Text}, ((.error e : Except Text (Manifest × Path × List File)), fs) = (result, fs') →
      (∀ e, result = .error e → ∀ q, SameAt l fs fs' q) ∧
        ∀ m source files, result = .ok (m, source, files) →
          Prepared sqlite sha256 x l fs m source files fs' := by
    intro e heq
    cases heq
    exact ⟨fun _ _ _ => Or.inl rfl, fun _ _ _ hok => nomatch hok⟩
  unfold prepare at h
  cases hm : x.manifest with
  | error e =>
    rw [hm] at h
    exact hfailed h
  | ok m =>
    rw [hm] at h
    dsimp only at h
    by_cases hnewer : currentFormat < m.format
    · rw [if_pos hnewer] at h
      exact hfailed h
    rw [if_neg hnewer] at h
    by_cases hheld : (databases.any (fun name => (fs.node (l.data ++ [.utf8 name])).isSome) && !force) = true
    · rw [if_pos hheld] at h
      exact hfailed h
    rw [if_neg hheld, if_neg (Nat.not_lt.mpr (hformat m hm))] at h
    cases hdirs : (Op.makeDirs l.parent).run fs with
    | none =>
      rw [hdirs] at h
      exact hfailed h
    | some fs₁ =>
      rw [hdirs] at h
      dsimp only at h
      cases hadd : fs₁.add l.stagingDir .dir with
      | none =>
        rw [hadd] at h
        cases h
        exact ⟨fun _ _ => same_of_makeDirs hdirs, fun _ _ _ hok => nomatch hok⟩
      | some fs₂ =>
        rw [hadd] at h
        dsimp only at h
        obtain ⟨hholds, hfresh, habove, hframe⟩ := open_staging hdirs hadd
        cases hstage : stageArtifacts sha256 x l.stagingDir m.artifacts fs₂ with
        | mk staged fs₃ =>
          have hwithin := stageArtifacts_frame hholds hstage
          have hframe₃ : ∀ q, ¬ l.stagingDir <+: q → SameAt l fs fs₃ q := by
            intro q hq
            unfold SameAt
            rw [hwithin q hq]
            exact hframe q hq
          have hremoved : ∀ {e : Text}, ((.error e : Except Text (Manifest × Path × List File)),
              fs₃.removeAll l.stagingDir) = (result, fs') →
              (∀ e, result = .error e → ∀ q, SameAt l fs fs' q) ∧
                ∀ m source files, result = .ok (m, source, files) →
                  Prepared sqlite sha256 x l fs m source files fs' := by
            intro e heq
            cases heq
            exact ⟨fun _ _ => same_of_removeAll hfresh hframe₃, fun _ _ _ hok => nomatch hok⟩
          rw [hstage] at h
          cases staged with
          | error e => exact hremoved h
          | ok staged =>
            dsimp only at h
            cases hvalid : validate sqlite sha256 m l.stagingDir l.data fs₃ with
            | error e =>
              rw [hvalid] at h
              exact hremoved h
            | ok valid =>
              rw [hvalid] at h
              cases h
              refine ⟨nofun, fun m' source files hok => ?_⟩
              cases hok
              refine ⟨hm, Nat.not_lt.mp hnewer, rfl, ⟨staged, fs₂, rfl, hholds, hstage⟩, hvalid, hfresh, ?_,
                hframe₃⟩
              rw [hwithin _ (not_staging_prefix_parent l (List.prefix_refl _))]
              exact habove

/-! ## The replacement -/

/-- The source is the staged files. -/
theorem Prepared.walks {m : Manifest} {source : Path} {files : List File}
    (h : Prepared sqlite sha256 x l fs m source files fs') : Walks (fun p => fs'.node (source ++ p)) files := by
  obtain ⟨staged, rfl, hholds, hlisted⟩ := h.staged
  rw [h.source_eq]
  exact (walks_of_holds hholds hlisted).perm (x.order_perm staged)

theorem Prepared.ready {m : Manifest} {source : Path} {files : List File}
    (h : Prepared sqlite sha256 x l fs m source files fs') :
    Ready [] (replacement l.data (fun p => fs'.node (source ++ p)) files) := by
  obtain ⟨staged, rfl, -, hlisted⟩ := h.staged
  exact ready_replacement _ _ _ fun f hf => hlisted.ne_nil f ((x.order_perm staged).mem_iff.mp hf)

theorem Prepared.node_above {m : Manifest} {source : Path} {files : List File}
    (h : Prepared sqlite sha256 x l fs m source files fs') {q : Path} (hq : q <+: l.data) (hne : q ≠ l.data) :
    fs'.node q = some .dir := by
  exact node_eq_dir_above h.above (prefix_parent_of_prefix_data hq hne)

theorem Prepared.node_data {m : Manifest} {source : Path} {files : List File}
    (h : Prepared sqlite sha256 x l fs m source files fs') (p : Path) :
    fs'.node (l.data ++ p) = fs.node (l.data ++ p) :=
  (h.frame _ (not_staging_prefix_data l p)).node_data

/-- Outside the data directory, a replacement finds all as it shall be. -/
theorem Prepared.node_runAll {m : Manifest} {source : Path} {files : List File}
    (h : Prepared sqlite sha256 x l fs m source files fs') {q : Path} (hq : ¬ l.data <+: q) :
    (runAll (replacement l.data (fun p => fs'.node (source ++ p)) files) fs').2.node q = fs'.node q := by
  have htoward := toward_replacement l.data h.walks
  obtain ⟨before, after, hsplit, hnode, -⟩ := runAll_cases htoward fs'
  rw [hnode]
  cases hgoal : goals before q with
  | none => rfl
  | some v =>
    obtain ⟨o, ho, hv⟩ := exists_of_goals hgoal
    have hv := htoward o (hsplit ▸ List.mem_append_left _ ho) q v hv
    unfold goalMap at hv
    split_ifs at hv with habove
    cases hv
    rw [h.node_above habove fun heq => hq (heq ▸ List.prefix_refl _)]
    rfl

/-! ## The claim on a restore -/

/-- A restore changes nothing outside the data directory, and there it changes nothing when it
    fails, and puts the listed bytes in their places when it succeeds. -/
structure Sound (sqlite : Sqlite) (sha256 : Bytes → Text) (x : Snapshot) (l : Place) (force : Bool)
    (fs : World) : Prop where
  outside : ∀ q, ¬ l.data <+: q → SameAt l fs (restore sqlite sha256 x l force fs).2 q
  refused : ∀ e, (restore sqlite sha256 x l force fs).1 = .error e →
    ∀ p, (restore sqlite sha256 x l force fs).2.node (l.data ++ p) = fs.node (l.data ++ p)
  consumes : ∀ m, (restore sqlite sha256 x l force fs).1 = .ok m →
    x.manifest = .ok m ∧ ∃ files, Listed sha256 x m.artifacts files ∧
      ∀ p, (restore sqlite sha256 x l force fs).2.node (l.data ++ p) =
        (restored (nodeOf files) p).getD (fs.node (l.data ++ p))

/-- The data directory has nothing in the way of what is restored from the source. -/
def Unobstructed (l : Place) (fs : World) (source : Path → Option (Node Bytes)) : Prop :=
  ∀ p v, restored source p = some v → obstructs v (fs.node (l.data ++ p)) = false

/-- The condition: once the checks are passed, what was staged can be put in its place, or all
    that precedes the first obstacle is in place already. -/
def Unhindered (sqlite : Sqlite) (sha256 : Bytes → Text) (x : Snapshot) (l : Place) (force : Bool)
    (fs : World) : Prop :=
  ∀ m source files fs₁, prepare sqlite sha256 x l force fs = (.ok (m, source, files), fs₁) →
    (Placeable (fun p => fs₁.node (source ++ p)) ∧ Unobstructed l fs fun p => fs₁.node (source ++ p)) ∨
    ∃ before o after, replacement l.data (fun p => fs₁.node (source ++ p)) files = before ++ o :: after ∧
      (∀ o' ∈ before, o'.InPlace fs₁) ∧ ¬ o.Clear fs₁

theorem Prepared.runAll_fst_iff {m : Manifest} {source : Path} {files : List File}
    (h : Prepared sqlite sha256 x l fs m source files fs') :
    (runAll (replacement l.data (fun p => fs'.node (source ++ p)) files) fs').1 = true ↔
      Placeable (fun p => fs'.node (source ++ p)) ∧ Unobstructed l fs fun p => fs'.node (source ++ p) := by
  rw [Files.runAll_fst_iff (consistent_replacement h.walks) h.ready,
    clear_replacement_iff h.walks fun q hq hne => h.node_above hq hne]
  unfold Unobstructed
  simp only [h.node_data]

/-- A restore after its checks. -/
theorem restore_of_prepare (hformat : ∀ m, x.manifest = .ok m → 3 ≤ m.format) {m : Manifest} {source : Path}
    {files : List File} {fs₁ : World}
    (hprepare : prepare sqlite sha256 x l force fs = (.ok (m, source, files), fs₁)) :
    restore sqlite sha256 x l force fs =
      let r := runAll (replacement l.data (fun p => fs₁.node (source ++ p)) files) fs₁
      (if r.1 then .ok m else .error (lit "restoring"), r.2.removeAll l.stagingDir) := by
  have hprepared := (prepare_spec hformat hprepare).2 m source files rfl
  unfold restore
  rw [hprepare]
  dsimp only
  rw [if_neg (Nat.not_lt.mpr (hformat m hprepared.manifest))]

section Prepared

variable {m : Manifest} {source : Path} {files : List File} {fs₁ : World}

/-- Outside the data directory nothing is changed. -/
theorem Prepared.outside (h : Prepared sqlite sha256 x l fs m source files fs₁) {q : Path}
    (hq : ¬ l.data <+: q) :
    SameAt l fs ((runAll (replacement l.data (fun p => fs₁.node (source ++ p)) files) fs₁).2.removeAll
      l.stagingDir) q := by
  have hne : l.stagingDir ≠ [] := List.append_ne_nil_of_right_ne_nil _ (List.cons_ne_nil _ _)
  unfold SameAt
  rw [FileSystem.node_removeAll hne]
  split_ifs with hstaging
  · obtain ⟨p, rfl⟩ := hstaging
    exact Or.inl (h.fresh p).symm
  · rw [h.node_runAll hq]
    exact h.frame q hstaging

theorem node_data_removeAll (fs : World) (p : Path) :
    (fs.removeAll l.stagingDir).node (l.data ++ p) = fs.node (l.data ++ p) := by
  have hne : l.stagingDir ≠ [] := List.append_ne_nil_of_right_ne_nil _ (List.cons_ne_nil _ _)
  rw [FileSystem.node_removeAll hne, if_neg (not_staging_prefix_data l p)]

/-- A replacement that reaches its end puts the staged files in their places. -/
theorem Prepared.node_of_done (h : Prepared sqlite sha256 x l fs m source files fs₁)
    (hdone : (runAll (replacement l.data (fun p => fs₁.node (source ++ p)) files) fs₁).1 = true) (p : Path) :
    (runAll (replacement l.data (fun p => fs₁.node (source ++ p)) files) fs₁).2.node (l.data ++ p) =
      (restored (fun p => fs₁.node (source ++ p)) p).getD (fs.node (l.data ++ p)) := by
  rw [node_of_runAll (consistent_replacement h.walks) hdone, goals_replacement h.walks, h.node_data]

/-- The staged files are the listed ones. -/
theorem Prepared.exists_listed (h : Prepared sqlite sha256 x l fs m source files fs₁) :
    ∃ staged, Listed sha256 x m.artifacts staged ∧ (fun p => fs₁.node (source ++ p)) = nodeOf staged := by
  obtain ⟨staged, -, hholds, hlisted⟩ := h.staged
  refine ⟨staged, hlisted, ?_⟩
  rw [h.source_eq]
  exact funext hholds

/-- A replacement that stops has changed nothing when it has changed nothing in the data directory. -/
theorem Prepared.unchanged_iff (h : Prepared sqlite sha256 x l fs m source files fs₁) :
    (∀ p, (runAll (replacement l.data (fun p => fs₁.node (source ++ p)) files) fs₁).2.node (l.data ++ p) =
        fs.node (l.data ++ p)) ↔
      ∀ q, (runAll (replacement l.data (fun p => fs₁.node (source ++ p)) files) fs₁).2.node q = fs₁.node q := by
  constructor
  · intro hsame q
    by_cases hq : l.data <+: q
    · obtain ⟨p, rfl⟩ := hq
      rw [hsame, h.node_data]
    · exact h.node_runAll hq
  · intro hsame p
    rw [hsame, h.node_data]

end Prepared

/-- A restore whose checks are passed and that is not stopped. -/
theorem restore_of_done (hformat : ∀ m, x.manifest = .ok m → 3 ≤ m.format) {m : Manifest} {source : Path}
    {files : List File} {fs₁ : World}
    (hprepare : prepare sqlite sha256 x l force fs = (.ok (m, source, files), fs₁))
    (hplaceable : Placeable fun p => fs₁.node (source ++ p))
    (hfree : Unobstructed l fs fun p => fs₁.node (source ++ p)) :
    (restore sqlite sha256 x l force fs).1 = .ok m ∧
      ∀ p, (restore sqlite sha256 x l force fs).2.node (l.data ++ p) =
        (restored (fun p => fs₁.node (source ++ p)) p).getD (fs.node (l.data ++ p)) := by
  have hprepared := (prepare_spec hformat hprepare).2 m source files rfl
  have hdone := hprepared.runAll_fst_iff.mpr ⟨hplaceable, hfree⟩
  rw [restore_of_prepare hformat hprepare]
  refine ⟨by dsimp only; rw [hdone]; rfl, fun p => ?_⟩
  dsimp only
  rw [node_data_removeAll, hprepared.node_of_done hdone]

/-- When a restore of format 3 or 4 gives what was listed or touches nothing. -/
theorem sound_iff (hformat : ∀ m, x.manifest = .ok m → 3 ≤ m.format) :
    Sound sqlite sha256 x l force fs ↔ Unhindered sqlite sha256 x l force fs := by
  cases hprepare : prepare sqlite sha256 x l force fs with
  | mk result fs₁ =>
    have hspec := prepare_spec hformat hprepare
    cases result with
    | error e =>
      have hrestore : restore sqlite sha256 x l force fs = (.error e, fs₁) := by
        unfold restore
        rw [hprepare]
      have hsame := hspec.1 e rfl
      constructor
      · intro _ m source files fs₂ hok
        rw [hprepare] at hok
        cases hok
      · intro _
        refine ⟨fun q _ => ?_, fun _ _ p => ?_, fun m hm => ?_⟩
        · rw [hrestore]
          exact hsame q
        · rw [hrestore]
          exact (hsame _).node_data
        · rw [hrestore] at hm
          cases hm
    | ok prepared =>
      obtain ⟨m, source, files⟩ := prepared
      have hprepared := hspec.2 m source files rfl
      have hrestore := restore_of_prepare hformat hprepare
      have hnext : Unhindered sqlite sha256 x l force fs ↔
          (runAll (replacement l.data (fun p => fs₁.node (source ++ p)) files) fs₁).1 = true ∨
            ∃ before o after, replacement l.data (fun p => fs₁.node (source ++ p)) files =
              before ++ o :: after ∧ (∀ o' ∈ before, o'.InPlace fs₁) ∧ ¬ o.Clear fs₁ := by
        rw [hprepared.runAll_fst_iff]
        constructor
        · exact fun h => h m source files fs₁ hprepare
        · intro h m' source' files' fs₂ hok
          rw [hprepare] at hok
          cases hok
          exact h
      have houtside : ∀ q, ¬ l.data <+: q → SameAt l fs (restore sqlite sha256 x l force fs).2 q := by
        intro q hq
        rw [hrestore]
        exact hprepared.outside hq
      rw [hnext]
      cases hdone : (runAll (replacement l.data (fun p => fs₁.node (source ++ p)) files) fs₁).1 with
      | true =>
        refine iff_of_true ⟨houtside, fun e he => ?_, fun m' hm' => ?_⟩ (Or.inl rfl)
        · rw [hrestore] at he
          dsimp only at he
          rw [hdone] at he
          cases he
        · rw [hrestore] at hm' ⊢
          dsimp only at hm' ⊢
          rw [hdone] at hm'
          cases hm'
          obtain ⟨staged, hlisted, hsource⟩ := hprepared.exists_listed
          refine ⟨hprepared.manifest, staged, hlisted, fun p => ?_⟩
          rw [node_data_removeAll, hprepared.node_of_done hdone, hsource]
      | false =>
        have hdata : ∀ p, (restore sqlite sha256 x l force fs).2.node (l.data ++ p) =
            (runAll (replacement l.data (fun p => fs₁.node (source ++ p)) files) fs₁).2.node (l.data ++ p) := by
          intro p
          rw [hrestore]
          exact node_data_removeAll _ p
        have hresult : (restore sqlite sha256 x l force fs).1 = .error (lit "restoring") := by
          rw [hrestore]
          dsimp only
          rw [hdone]
          rfl
        rw [or_iff_right Bool.false_ne_true, ← unchanged_iff (consistent_replacement hprepared.walks)
          hprepared.ready, hdone, ← hprepared.unchanged_iff]
        constructor
        · intro hsound
          exact ⟨rfl, fun p => (hdata p).symm.trans (hsound.refused _ hresult p)⟩
        · rintro ⟨-, hsame⟩
          refine ⟨houtside, fun e _ p => (hdata p).trans (hsame p), fun m' hm' => ?_⟩
          rw [hresult] at hm'
          cases hm'

end Kahawai.Hub.Backup
