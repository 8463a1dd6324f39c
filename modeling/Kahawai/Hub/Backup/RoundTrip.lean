import Kahawai.Hub.Backup.DataDirs
import Kahawai.Hub.Backup.Rerun

/-!
# What a restore gives back

A backup is staged as it is, passes all checks, and is put into an empty data directory.

Results:
* `Quiescent.mem_segment`: the files of a backup, by the name under which they stand.
* `Quiescent.prepared`: the checks let the backup pass.
* `restore_of_backup`: the restore gives back what the backup was taken of.
-/

namespace Kahawai.Hub.Backup

open Kahawai.Core Kahawai.Lib Kahawai.Lib.Files

variable {sqlite : Sqlite} {sha256 : Bytes → Text} {d : DataDir} {db : sqlite.Db} {seeded : Option Text}
  {config : Option Bytes} {version : Text} {now : ℤ}

/-! ## The files of a backup -/

theorem names_segments : (segments sqlite d db config).map Prod.fst = names := rfl

theorem nodup_names : names.Nodup := by decide

/-- No other name begins like that of a database. -/
theorem journal_not_mem {name suffix : Text} (hname : name ∈ databases) (hsuffix : suffix ≠ []) :
    name ++ suffix ∉ names := by
  have hall : ∀ name ∈ databases, ∀ other ∈ names, name <+: other → other = name := by decide
  intro hmem
  have heq := hall name hname _ hmem (List.prefix_append _ _)
  exact hsuffix (List.append_right_eq_self.mp heq)

theorem under_topFile (d : DataDir) {name : Text} (hname : name ∈ names) : Under name (topFile d name) := by
  unfold topFile
  split
  · exact under_singleton (portable_name hname) _
  · exact under_nil name

theorem under_mediaFile (sqlite : Sqlite) (d : DataDir) : Under mediaDb (mediaFile sqlite d) := by
  unfold mediaFile
  split_ifs
  · exact under_nil mediaDb
  · split
    · exact under_singleton (portable_name (by decide)) _
    · exact under_nil mediaDb

theorem Quiescent.under (h : Quiescent sqlite sha256 d db seeded) {s : Text × List File}
    (hs : s ∈ segments sqlite d db config) : Under s.1 s.2 := by
  unfold segments at hs
  simp only [List.mem_append, List.mem_cons, List.not_mem_nil, or_false, List.mem_map] at hs
  rcases hs with ((rfl | rfl | rfl | rfl) | ⟨name, hname, rfl⟩) | rfl
  · exact under_singleton (portable_name (show hubDb ∈ names by decide)) _
  · exact under_mediaFile sqlite d
  · exact h.under_treeFiles (show lit "pki" ∈ trees by decide)
  · exact h.under_treeFiles (show lit "subtitles" ∈ trees by decide)
  · exact under_topFile d (List.mem_append_left _ (List.mem_append_right _ hname))
  · cases config with
    | none => exact under_nil configFile
    | some bytes => exact under_singleton (portable_name (show configFile ∈ names by decide)) bytes

theorem Quiescent.separate (h : Quiescent sqlite sha256 d db seeded) :
    Separate (snapshotFiles sqlite d db config) :=
  separate_flatMap (names_segments ▸ nodup_names) fun _ hs => h.under hs

/-- The files that stand under one name. -/
theorem Quiescent.mem_segment (h : Quiescent sqlite sha256 d db seeded) {s : Text × List File}
    (hs : s ∈ segments sqlite d db config) {f : File} (hf : f.1.head? = some (.utf8 s.1)) :
    f ∈ snapshotFiles sqlite d db config ↔ f ∈ s.2 := by
  unfold snapshotFiles
  rw [List.mem_flatMap]
  refine ⟨fun ⟨t, ht, hft⟩ => ?_, fun hfs => ⟨s, hs, hfs⟩⟩
  have hname : t.1 = s.1 := by
    have hhead := (h.under ht).2 f hft
    rw [hf, Option.some.injEq, OsName.utf8.injEq] at hhead
    exact hhead.symm
  have hnodup : ((segments sqlite d db config).map Prod.fst).Nodup := names_segments ▸ nodup_names
  rwa [List.inj_on_of_nodup_map hnodup ht hs hname] at hft

theorem Quiescent.head_mem (h : Quiescent sqlite sha256 d db seeded) {f : File}
    (hf : f ∈ snapshotFiles sqlite d db config) : ∃ name ∈ names, f.1.head? = some (.utf8 name) := by
  obtain ⟨s, hs, hfs⟩ := List.mem_flatMap.mp hf
  refine ⟨s.1, ?_, (h.under hs).2 f hfs⟩
  have hname := List.mem_map_of_mem (f := Prod.fst) hs
  rwa [names_segments] at hname

/-! ## The manifest of a backup -/

/-- The format of a backup is one that a restore takes. -/
theorem format_manifestOf : 3 ≤ (manifestOf sqlite sha256 version now d db config).format ∧
    (manifestOf sqlite sha256 version now d db config).format ≤ currentFormat := by
  unfold manifestOf currentFormat
  dsimp only
  split_ifs <;> decide

theorem components_secret {name : Text} (hname : name ∈ secretFiles) :
    components name = [name].map fun n => .normal (.utf8 n) := by
  have hall : ∀ name ∈ secretFiles, components name = [name].map fun n => .normal (.utf8 n) := by decide
  exact hall name hname

theorem plainSecrets_manifestOf : PlainSecrets (manifestOf sqlite sha256 version now d db config) :=
  fun name hname => ⟨[name], components_secret (List.mem_filter.mp hname).1⟩

/-! ## What is staged -/

section Staged

variable {staged : List File}

/-- What is staged, in any order. -/
theorem Quiescent.staged_file (h : Quiescent sqlite sha256 d db seeded)
    (hperm : staged.Perm (snapshotFiles sqlite d db config)) {p : Path} (hp : p ≠ []) (b : Bytes) :
    nodeOf staged p = some (.file b) ↔ (p, b) ∈ snapshotFiles sqlite d db config := by
  have hnodup : (staged.map Prod.fst).Nodup := (hperm.map Prod.fst).nodup_iff.mpr h.separate.nodup
  rw [← hperm.mem_iff, mem_iff_lookup hnodup]
  exact ⟨lookup_of_nodeOf, nodeOf_of_lookup hp⟩

/-- Nothing stands under a name of which nothing was taken. -/
theorem Quiescent.staged_none (hperm : staged.Perm (snapshotFiles sqlite d db config)) {name : Text}
    (hname : ∀ f ∈ snapshotFiles sqlite d db config, f.1.head? ≠ some (.utf8 name)) (r : Path) :
    nodeOf staged (.utf8 name :: r) = none := by
  have hfree : ∀ f ∈ staged, ¬ .utf8 name :: r <+: f.1 := by
    intro f hf hbelow
    refine hname f (hperm.mem_iff.mp hf) ?_
    rw [head?_of_isPrefix (List.cons_ne_nil _ _) hbelow]
    rfl
  have hlookup : staged.lookup (.utf8 name :: r) = none := by
    rw [List.lookup_eq_none_iff]
    intro f hf
    rw [bne_iff_ne]
    rintro heq
    exact hfree f hf (heq ▸ List.prefix_refl _)
  rw [nodeOf_of_lookup_none (List.cons_ne_nil _ _) hlookup, if_neg]
  rintro ⟨f, hf, hbelow⟩
  exact hfree f hf hbelow

theorem Quiescent.staged_journal (h : Quiescent sqlite sha256 d db seeded)
    (hperm : staged.Perm (snapshotFiles sqlite d db config)) {name suffix : Text} (hname : name ∈ databases)
    (hsuffix : suffix ≠ []) : nodeOf staged [.utf8 (name ++ suffix)] = none := by
  refine Quiescent.staged_none hperm (fun f hf hhead => ?_) []
  obtain ⟨other, hother, heq⟩ := h.head_mem hf
  rw [hhead, Option.some.injEq, OsName.utf8.injEq] at heq
  exact journal_not_mem hname hsuffix (heq ▸ hother)

theorem Quiescent.staged_hub (h : Quiescent sqlite sha256 d db seeded)
    (hperm : staged.Perm (snapshotFiles sqlite d db config)) :
    nodeOf staged [.utf8 hubDb] = some (.file (sqlite.vacuum db)) := by
  have hs : (hubDb, [([.utf8 hubDb], sqlite.vacuum db)]) ∈ segments sqlite d db config := List.mem_cons_self
  rw [h.staged_file hperm (List.cons_ne_nil _ _), h.mem_segment hs rfl]
  exact List.mem_singleton_self _

theorem Quiescent.staged_media (h : Quiescent sqlite sha256 d db seeded)
    (hperm : staged.Perm (snapshotFiles sqlite d db config)) {media : sqlite.Db}
    (hmedia : d.node [.utf8 mediaDb] ≠ none) (hcontents : sqlite.contents d.node mediaDb = .ok media) :
    nodeOf staged [.utf8 mediaDb] = some (.file (sqlite.vacuum media)) := by
  have hs : (mediaDb, mediaFile sqlite d) ∈ segments sqlite d db config :=
    List.mem_cons_of_mem _ List.mem_cons_self
  rw [h.staged_file hperm (List.cons_ne_nil _ _), h.mem_segment hs rfl]
  unfold mediaFile
  rw [if_neg hmedia, hcontents]
  exact List.mem_singleton_self _

theorem Quiescent.staged_no_media (h : Quiescent sqlite sha256 d db seeded)
    (hperm : staged.Perm (snapshotFiles sqlite d db config)) (hmedia : d.node [.utf8 mediaDb] = none) :
    nodeOf staged [.utf8 mediaDb] = none := by
  have hs : (mediaDb, mediaFile sqlite d) ∈ segments sqlite d db config :=
    List.mem_cons_of_mem _ List.mem_cons_self
  refine Quiescent.staged_none hperm (fun f hf hhead => ?_) []
  have hmem := (h.mem_segment hs hhead).mp hf
  unfold mediaFile at hmem
  rw [if_pos hmedia] at hmem
  exact List.not_mem_nil hmem

theorem Quiescent.staged_secret (h : Quiescent sqlite sha256 d db seeded)
    (hperm : staged.Perm (snapshotFiles sqlite d db config)) {name : Text} (hname : name ∈ secretFiles) :
    nodeOf staged [.utf8 name] = d.node [.utf8 name] := by
  have hs : (name, topFile d name) ∈ segments sqlite d db config := by
    unfold segments
    exact List.mem_append_left _ (List.mem_append_right _ (List.mem_map_of_mem hname))
  rcases h.secrets name hname with hnone | ⟨b, hfile⟩
  · rw [hnone]
    refine Quiescent.staged_none hperm (fun f hf hhead => ?_) []
    have hmem := (h.mem_segment hs hhead).mp hf
    unfold topFile at hmem
    rw [hnone] at hmem
    exact List.not_mem_nil hmem
  · rw [hfile, h.staged_file hperm (List.cons_ne_nil _ _), h.mem_segment hs rfl]
    unfold topFile
    rw [hfile]
    exact List.mem_singleton_self _

theorem Quiescent.tree_segment {tree : Text} (htree : tree ∈ trees) :
    (tree, treeFiles d tree) ∈ segments sqlite d db config := by
  unfold segments
  have hall : tree = lit "pki" ∨ tree = lit "subtitles" := by simpa [trees] using htree
  rcases hall with rfl | rfl
  · exact List.mem_append_left _ (List.mem_append_left _ (List.mem_cons_of_mem _ (List.mem_cons_of_mem _
      List.mem_cons_self)))
  · exact List.mem_append_left _ (List.mem_append_left _ (List.mem_cons_of_mem _ (List.mem_cons_of_mem _
      (List.mem_cons_of_mem _ List.mem_cons_self))))

/-- The files of a tree. -/
theorem Quiescent.staged_tree (h : Quiescent sqlite sha256 d db seeded)
    (hperm : staged.Perm (snapshotFiles sqlite d db config)) {tree : Text} (htree : tree ∈ trees) (r : Path)
    (b : Bytes) : nodeOf staged (.utf8 tree :: r) = some (.file b) ↔
      r ≠ [] ∧ d.node (.utf8 tree :: r) = some (.file b) := by
  rw [h.staged_file hperm (List.cons_ne_nil _ _), h.mem_segment (Quiescent.tree_segment htree) rfl,
    h.mem_treeFiles htree]
  constructor
  · rintro ⟨r', hr', heq, hnode⟩
    obtain rfl : r = r' := (List.cons.inj heq).2
    exact ⟨hr', hnode⟩
  · rintro ⟨hr, hnode⟩
    exact ⟨r, hr, rfl, hnode⟩

/-- The root of a tree is staged as a directory. -/
theorem Quiescent.staged_root (h : Quiescent sqlite sha256 d db seeded)
    (hperm : staged.Perm (snapshotFiles sqlite d db config)) {tree : Text} (htree : tree ∈ trees) :
    nodeOf staged [.utf8 tree] = none ∨ nodeOf staged [.utf8 tree] = some .dir := by
  cases hnode : nodeOf staged [.utf8 tree] with
  | none => exact Or.inl rfl
  | some node =>
    cases node with
    | dir => exact Or.inr rfl
    | file b => exact absurd rfl ((h.staged_tree hperm htree [] b).mp hnode).1
    | other => exact absurd hnode (nodeOf_ne_other staged _)

/-- What is staged can be put in its place. -/
theorem Quiescent.placeable (h : Quiescent sqlite sha256 d db seeded)
    (hperm : staged.Perm (snapshotFiles sqlite d db config)) : Placeable (nodeOf staged) := by
  refine ⟨fun tree htree => h.staged_root hperm htree, fun name hname => ?_⟩
  rcases List.mem_append.mp hname with hdatabase | hsecret
  · have hall : name = hubDb ∨ name = mediaDb := by simpa [databases] using hdatabase
    rcases hall with rfl | rfl
    · exact Or.inr ⟨_, h.staged_hub hperm⟩
    · by_cases hmedia : d.node [.utf8 mediaDb] = none
      · exact Or.inl (h.staged_no_media hperm hmedia)
      · obtain ⟨media, hcontents⟩ := h.media hmedia
        exact Or.inr ⟨_, h.staged_media hperm hmedia hcontents⟩
  · rw [h.staged_secret hperm hsecret]
    exact h.secrets name hsecret

/-! ## Passing the checks -/

/-- The staged database is the one that was taken. -/
theorem Quiescent.contents_staged (h : Quiescent sqlite sha256 d db seeded)
    (hperm : staged.Perm (snapshotFiles sqlite d db config)) :
    sqlite.contents (nodeOf staged) hubDb = .ok db :=
  sqlite.contents_vacuum _ hubDb db (h.staged_hub hperm) fun _ hsuffix =>
    h.staged_journal hperm (by decide) hsuffix

theorem Quiescent.checkDatabases_ok (h : Quiescent sqlite sha256 d db seeded)
    (hperm : staged.Perm (snapshotFiles sqlite d db config)) {base data : Path} {fs : World}
    (hfs : Holds fs base staged) (hempty : fs.node (data ++ [.utf8 mediaDb]) = none) :
    checkDatabases (manifestOf sqlite sha256 version now d db config) base data fs = .ok () := by
  have hhub : isFile (some (.file (sqlite.vacuum db))) = true := rfl
  unfold checkDatabases
  rw [hfs, hfs, h.staged_hub hperm, if_neg (not_not.mpr hhub)]
  by_cases hmedia : d.node [.utf8 mediaDb] = none
  · have hformat : (manifestOf sqlite sha256 version now d db config).format = 3 := by
      unfold manifestOf
      rw [hmedia]
      rfl
    rw [hformat, if_neg (by decide), h.staged_no_media hperm hmedia, hempty]
    rfl
  · obtain ⟨media, hcontents⟩ := h.media hmedia
    have hformat : (manifestOf sqlite sha256 version now d db config).format = currentFormat :=
      if_pos (Option.isSome_iff_ne_none.mpr hmedia)
    have hbytes : (manifestOf sqlite sha256 version now d db config).mediadbBytes =
        some (sqlite.vacuum media).length := by
      unfold manifestOf mediaFile
      rw [if_neg hmedia, hcontents]
      rfl
    rw [hformat, if_pos (Nat.le_refl _), hbytes, h.staged_media hperm hmedia hcontents, if_pos]
    exact ⟨decide_eq_true (List.length_pos_iff.mpr (sqlite.vacuum_ne_nil media)), rfl⟩

theorem Quiescent.checkSecrets_ok (h : Quiescent sqlite sha256 d db seeded)
    (hperm : staged.Perm (snapshotFiles sqlite d db config)) {base : Path} {fs : World}
    (hfs : Holds fs base staged) :
    checkSecrets (manifestOf sqlite sha256 version now d db config) base fs = .ok () := by
  unfold checkSecrets
  refine if_pos (List.all_eq_true.mpr fun name hname => ?_)
  obtain ⟨hsecret, hsome⟩ := List.mem_filter.mp hname
  rw [components_secret hsecret, locate_names, hfs]
  refine (congrArg isFile (h.staged_secret hperm hsecret)).trans ?_
  rcases h.secrets name hsecret with hnone | ⟨b, hfile⟩
  · rw [hnone] at hsome
    cases hsome
  · rw [hfile]
    rfl

theorem Quiescent.checkKey_ok (h : Quiescent sqlite sha256 d db seeded)
    (hperm : staged.Perm (snapshotFiles sqlite d db config)) {base : Path} {fs : World}
    (hfs : Holds fs base staged) :
    checkKey sqlite sha256 (manifestOf sqlite sha256 version now d db config) base fs = .ok () := by
  have hformat : ¬ (manifestOf sqlite sha256 version now d db config).format < 2 :=
    Nat.not_lt.mpr (Nat.le_of_succ_le format_manifestOf.1)
  have hsource : (fun p => fs.node (base ++ p)) = nodeOf staged := funext hfs
  unfold checkKey
  rw [if_neg hformat, hsource, h.contents_staged hperm, ok_bind, h.marker, ok_bind]
  cases hseeded : seeded with
  | none => rfl
  | some expected =>
    obtain ⟨key, hnode, hsha, -⟩ := h.key expected hseeded
    have hmem : keyFile ∈ (manifestOf sqlite sha256 version now d db config).secrets :=
      List.mem_filter.mpr ⟨by decide, by rw [hnode]; rfl⟩
    dsimp only
    rw [hfs, h.staged_secret hperm (by decide), hnode]
    dsimp only
    rw [if_neg (not_not.mpr hmem), if_pos hsha]

end Staged

/-- An empty data directory, and a new name beside it. -/
structure Empty (l : Place) (fs : World) : Prop where
  data : fs.node l.data = some .dir
  empty : ∀ p, p ≠ [] → fs.node (l.data ++ p) = none
  fresh : fs.node l.stagingDir = none

/-- The checks let the backup pass. -/
theorem Quiescent.prepared (hhex : Hex sha256) (h : Quiescent sqlite sha256 d db seeded) {x : Snapshot}
    {l : Place} {fs : World} (force : Bool)
    (hmanifest : x.manifest = .ok (manifestOf sqlite sha256 version now d db config))
    (hshows : Shows x (snapshotFiles sqlite d db config)) (hempty : Empty l fs) :
    ∃ staged fs₁, prepare sqlite sha256 x l force fs =
        (.ok (manifestOf sqlite sha256 version now d db config, l.stagingDir, x.order staged), fs₁) ∧
      staged.Perm (snapshotFiles sqlite d db config) ∧ Holds fs₁ l.stagingDir staged := by
  have hparent : l.parent <+: l.data := List.prefix_append _ _
  obtain ⟨fs₁, fs₂, hmake, hadd⟩ := exists_opened (node_eq_dir_above hempty.data hparent) hempty.fresh
  obtain ⟨hholds, -, -, hframe⟩ := open_staging hmake hadd
  have hlisted : (manifestOf sqlite sha256 version now d db config).artifacts.Perm
      ((snapshotFiles sqlite d db config).map (artifactOf sha256)) := List.perm_insertionSort _ _
  obtain ⟨staged, fs₃, hstage, hperm⟩ :=
    stageArtifacts_of_complete hhex h.separate hshows hlisted hholds
  have hstaged := (stageArtifacts_ok hholds hstage).1
  have hnone : fs₃.node (l.data ++ [.utf8 mediaDb]) = none := by
    rw [stageArtifacts_frame hholds hstage _ (not_staging_prefix_data l _),
      (hframe _ (not_staging_prefix_data l _)).node_data, hempty.empty _ (List.cons_ne_nil _ _)]
  have hvalid : validate sqlite sha256 (manifestOf sqlite sha256 version now d db config) l.stagingDir
      l.data fs₃ = .ok () := by
    unfold validate
    rw [h.checkDatabases_ok hperm hstaged hnone, ok_bind, h.checkSecrets_ok hperm hstaged, ok_bind,
      h.checkKey_ok hperm hstaged]
  have hheld : (databases.any fun name => (fs.node (l.data ++ [.utf8 name])).isSome) = false := by
    rw [List.any_eq_false]
    intro name _
    rw [hempty.empty _ (List.cons_ne_nil _ _)]
    exact Bool.false_ne_true
  refine ⟨staged, fs₃, ?_, hperm, hstaged⟩
  unfold prepare
  rw [hmanifest]
  dsimp only
  rw [if_neg (Nat.not_lt.mpr format_manifestOf.2), hheld, Bool.false_and, if_neg Bool.false_ne_true,
    if_neg (Nat.not_lt.mpr format_manifestOf.1), hmake]
  dsimp only
  rw [hadd]
  dsimp only
  rw [hstage]
  dsimp only
  rw [hvalid]

/-! ## What is given back -/

/-- A data directory has what the backup was taken of, and a hub starts on it. -/
structure GivenBack (sqlite : Sqlite) (sha256 : Bytes → Text) (d : DataDir) (db : sqlite.Db)
    (seeded : Option Text) (node : Path → Option (Node Bytes)) : Prop where
  hub : sqlite.contents node hubDb = .ok db
  media : node [.utf8 mediaDb] = none ∧ d.node [.utf8 mediaDb] = none ∨
    ∃ media, sqlite.contents d.node mediaDb = .ok media ∧ sqlite.contents node mediaDb = .ok media
  trees : ∀ tree ∈ trees, ∀ r b, node (.utf8 tree :: r) = some (.file b) ↔ d.node (.utf8 tree :: r) = some (.file b)
  secrets : ∀ name ∈ secretFiles, node [.utf8 name] = d.node [.utf8 name]
  starts : ∀ fresh, ∃ key, loadOrCreate sha256 (node [.utf8 keyFile]) seeded fresh = .ok key

/-- The key is the one for which the database asks, if it asks for one. -/
theorem Quiescent.starts (h : Quiescent sqlite sha256 d db seeded) (fresh : Bytes) :
    ∃ key, loadOrCreate sha256 (d.node [.utf8 keyFile]) seeded fresh = .ok key := by
  unfold loadOrCreate
  cases hseeded : seeded with
  | some expected =>
    obtain ⟨key, hnode, hsha, hlength⟩ := h.key expected hseeded
    refine ⟨key, ?_⟩
    rw [hnode]
    dsimp only
    rw [ok_bind, if_pos hlength, ok_bind]
    exact if_pos hsha.symm
  | none =>
    have hlength : ∀ bytes : Bytes, ∃ key, (do
        let bytes ←
          if bytes.length = 32 then .ok bytes
          else if (none : Option Text).isSome then .error (lit "Restore it from a backup.")
          else .ok fresh
        .ok bytes : Except Text Bytes) = .ok key := by
      intro bytes
      by_cases hlength : bytes.length = 32
      · exact ⟨bytes, by rw [if_pos hlength]; rfl⟩
      · exact ⟨fresh, by rw [if_neg hlength]; rfl⟩
    rcases h.secrets keyFile (by decide) with hnone | ⟨b, hfile⟩
    · rw [hnone]
      exact hlength fresh
    · rw [hfile]
      exact hlength b

/-- The journals of the databases are gone. -/
theorem restored_journal (source : Path → Option (Node Bytes)) {name suffix : Text} (hname : name ∈ databases)
    (hsuffix : suffix ≠ []) : (restored source [.utf8 (name ++ suffix)]).getD none = none := by
  have hnot := journal_not_mem hname hsuffix
  have htop : name ++ suffix ∉ databases ++ secretFiles := by
    intro hmem
    refine hnot (List.mem_append_left _ ?_)
    rcases List.mem_append.mp hmem with hmem | hmem
    · exact List.mem_append_left _ (List.mem_append_left _ hmem)
    · exact List.mem_append_right _ hmem
  have htree : name ++ suffix ∉ trees := fun hmem =>
    hnot (List.mem_append_left _ (List.mem_append_left _ (List.mem_append_right _ hmem)))
  rw [restored, if_neg htop, if_neg htree]
  split_ifs <;> rfl

theorem restored_none {source : Path → Option (Node Bytes)} {name : Text} (hname : name ∈ databases ++ secretFiles)
    (hsource : source [.utf8 name] = none) : restored source [.utf8 name] = none := by
  rw [restored, if_pos hname, hsource]

section

variable {staged : List File}

/-- A secret is what it was. -/
theorem Quiescent.restored_secret (h : Quiescent sqlite sha256 d db seeded)
    (hperm : staged.Perm (snapshotFiles sqlite d db config)) {name : Text} (hname : name ∈ secretFiles) :
    (restored (nodeOf staged) [.utf8 name]).getD none = d.node [.utf8 name] := by
  have hsource := h.staged_secret hperm hname
  rcases h.secrets name hname with hgone | ⟨b, hfile⟩
  · rw [hgone] at hsource ⊢
    rw [restored_none (List.mem_append_right _ hname) hsource]
    rfl
  · rw [hfile] at hsource ⊢
    rw [restored_top (List.mem_append_right _ hname) hsource]
    rfl

/-- The files of a tree are what they were. -/
theorem Quiescent.restored_tree (h : Quiescent sqlite sha256 d db seeded)
    (hperm : staged.Perm (snapshotFiles sqlite d db config)) {tree : Text} (htree : tree ∈ trees) (r : Path)
    (b : Bytes) : (restored (nodeOf staged) (.utf8 tree :: r)).getD none = some (.file b) ↔
      d.node (.utf8 tree :: r) = some (.file b) := by
  cases r with
  | nil =>
    have hnofile : ∀ v : Option (Node Bytes), v = none ∨ v = some .dir → v ≠ some (.file b) := by
      rintro _ (rfl | rfl) hfile
      · cases hfile
      · cases hfile
    refine iff_of_false (fun hfile => ?_) (hnofile _ (h.roots tree htree))
    rw [restored, if_neg (not_mem_of_mem_trees htree), if_pos htree] at hfile
    rcases h.staged_root hperm htree with hnothing | hdir
    · rw [hnothing] at hfile
      cases hfile
    · rw [hdir] at hfile
      cases hfile
  | cons n r =>
    have hstaged := h.staged_tree hperm htree (n :: r) b
    rw [and_iff_right (List.cons_ne_nil _ _)] at hstaged
    rw [restored, if_pos htree, ← hstaged]
    cases hsource : nodeOf staged (.utf8 tree :: n :: r) with
    | none => exact Iff.rfl
    | some v => exact Iff.rfl

theorem Quiescent.given_back (h : Quiescent sqlite sha256 d db seeded)
    (hperm : staged.Perm (snapshotFiles sqlite d db config)) {l : Place} {fs : World} (hempty : Empty l fs)
    {node : Path → Option (Node Bytes)}
    (hnode : ∀ p, node p = (restored (nodeOf staged) p).getD (fs.node (l.data ++ p))) :
    GivenBack sqlite sha256 d db seeded node := by
  have hnone : ∀ p, p ≠ [] → node p = (restored (nodeOf staged) p).getD none := fun p hp => by
    rw [hnode, hempty.empty p hp]
  have hcontents : ∀ name ∈ databases, ∀ db', nodeOf staged [.utf8 name] = some (.file (sqlite.vacuum db')) →
      sqlite.contents node name = .ok db' := by
    intro name hname db' hsource
    refine sqlite.contents_vacuum node name db' ?_ fun suffix hsuffix => ?_
    · rw [hnone _ (List.cons_ne_nil _ _), restored_top (List.mem_append_left _ hname) hsource]
      rfl
    · rw [hnone _ (List.cons_ne_nil _ _), restored_journal _ hname hsuffix]
  have hsecret : ∀ name ∈ secretFiles, node [.utf8 name] = d.node [.utf8 name] := fun name hname =>
    (hnone _ (List.cons_ne_nil _ _)).trans (h.restored_secret hperm hname)
  refine ⟨hcontents hubDb (by decide) db (h.staged_hub hperm), ?_, fun tree htree r b => ?_, hsecret,
    fun fresh => ?_⟩
  · by_cases hmedia : d.node [.utf8 mediaDb] = none
    · refine Or.inl ⟨?_, hmedia⟩
      rw [hnone _ (List.cons_ne_nil _ _), restored_none (by decide) (h.staged_no_media hperm hmedia)]
      rfl
    · obtain ⟨media, hmediaContents⟩ := h.media hmedia
      exact Or.inr ⟨media, hmediaContents, hcontents mediaDb (by decide) media
        (h.staged_media hperm hmedia hmediaContents)⟩
  · rw [hnone _ (List.cons_ne_nil _ _)]
    exact h.restored_tree hperm htree r b
  · rw [hsecret keyFile (by decide)]
    exact h.starts fresh

end

/-- A restore of the backup gives back what the backup was taken of. -/
theorem restore_of_backup (hhex : Hex sha256) (h : Quiescent sqlite sha256 d db seeded) {x : Snapshot}
    {l : Place} {fs : World} (force : Bool)
    (hmanifest : x.manifest = .ok (manifestOf sqlite sha256 version now d db config))
    (hshows : Shows x (snapshotFiles sqlite d db config)) (hempty : Empty l fs) :
    (restore sqlite sha256 x l force fs).1 = .ok (manifestOf sqlite sha256 version now d db config) ∧
      GivenBack sqlite sha256 d db seeded fun p => (restore sqlite sha256 x l force fs).2.node (l.data ++ p) := by
  obtain ⟨staged, fs₁, hprepare, hperm, hholds⟩ := h.prepared hhex force hmanifest hshows hempty
  have hsource : (fun p => fs₁.node (l.stagingDir ++ p)) = nodeOf staged := funext hholds
  have hformat : ∀ m, x.manifest = .ok m → 3 ≤ m.format := by
    intro m hm
    rw [hmanifest] at hm
    cases hm
    exact format_manifestOf.1
  have hfree : Unobstructed l fs fun p => fs₁.node (l.stagingDir ++ p) := by
    intro p v hv
    by_cases hp : p = []
    · rw [hp, restored] at hv
      cases hv
      rw [hp, List.append_nil, hempty.data]
      rfl
    · rw [hempty.empty p hp]
      cases v with
      | none => rfl
      | some node => cases node <;> rfl
  obtain ⟨hok, hnode⟩ := restore_of_done hformat hprepare (hsource ▸ h.placeable hperm) hfree
  refine ⟨hok, h.given_back hperm hempty fun p => ?_⟩
  rw [hnode, hsource]

end Kahawai.Hub.Backup
