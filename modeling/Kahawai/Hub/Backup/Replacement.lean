import Kahawai.Hub.Backup.Staging

/-!
# What a restore replaces

The operations of a replacement agree on what the data directory shall hold: the databases
without their journals, the files of the trees and the secrets, all as they were staged.

Results:
* `mem_replacement`: the operations.
* `goals_replacement`: together they bring the data directory to `restored`.
* `ready_replacement`: every file is written into a directory that was made before.
* `clear_replacement_iff`: when nothing is in the way of any of them.
-/

namespace Kahawai.Hub.Backup

open Kahawai.Core Kahawai.Lib Kahawai.Lib.Files

/-! ## What the data directory shall hold -/

/-- What a path of the data directory shall be after a restore, if the restore changes it. -/
def restored (source : Path → Option (Node Bytes)) : Path → Option (Option (Node Bytes))
  | [] => some (some .dir)
  | [.utf8 name] =>
    if name ∈ databases ++ secretFiles then
      match source [.utf8 name] with
      | some (.file bytes) => some (some (.file bytes))
      | _ => none
    else if name ∈ trees then (source [.utf8 name]).map fun _ => some .dir
    else if ∃ db ∈ databases, source [.utf8 db] ≠ none ∧ ∃ suffix ∈ [lit "-wal", lit "-shm"], name = db ++ suffix then
      some none
    else none
  | .utf8 tree :: n :: p => if tree ∈ trees then (source (.utf8 tree :: n :: p)).map some else none
  | .raw _ :: _ => none

/-- A walk of the source finds the files. -/
structure Walks (source : Path → Option (Node Bytes)) (files : List File) : Prop where
  file_iff : ∀ p b, (p, b) ∈ files ↔ source p = some (.file b)
  below : ∀ p, p ≠ [] → source p = some .dir → ∃ f ∈ files, p <+: f.1 ∧ p ≠ f.1
  closed : ∀ p r, r ≠ [] → source (p ++ r) ≠ none → source p = some .dir
  regular : ∀ p, source p ≠ some .other

theorem walks_of_holds {sha256 : Bytes → Text} {x : Snapshot} {listed : List Artifact} {fs : World}
    {base : Path} {files : List File} (hholds : Holds fs base files)
    (hlisted : Listed sha256 x listed files) : Walks (fun p => fs.node (base ++ p)) files := by
  refine ⟨fun p b => ?_, fun p hp hdir => ?_, fun p r hr hne => ?_, fun p => ?_⟩
  · rw [hholds, mem_iff_lookup hlisted.nodup]
    refine ⟨fun hlookup => nodeOf_of_lookup ?_ hlookup, lookup_of_nodeOf⟩
    exact hlisted.ne_nil _ ((mem_iff_lookup hlisted.nodup).mpr hlookup)
  · rw [hholds] at hdir
    cases hlookup : files.lookup p with
    | some b =>
      rw [nodeOf_of_lookup hp hlookup] at hdir
      cases hdir
    | none =>
      rw [nodeOf_of_lookup_none hp hlookup] at hdir
      split_ifs at hdir with hprefix
      obtain ⟨f, hf, hpf⟩ := hprefix
      refine ⟨f, hf, hpf, ?_⟩
      rintro rfl
      rw [(mem_iff_lookup hlisted.nodup).mp hf] at hlookup
      cases hlookup
  · refine node_eq_dir (q := r) ?_ hr
    rw [List.append_assoc]
    exact hne
  · rw [hholds]
    exact nodeOf_ne_other files p

/-- The order in which the files are listed does not matter. -/
theorem Walks.perm {source : Path → Option (Node Bytes)} {files files' : List File}
    (h : Walks source files) (hperm : files'.Perm files) : Walks source files' := by
  refine ⟨fun p b => ?_, fun p hp hdir => ?_, h.closed, h.regular⟩
  · rw [hperm.mem_iff]
    exact h.file_iff p b
  · obtain ⟨f, hf, hbelow⟩ := h.below p hp hdir
    exact ⟨f, hperm.mem_iff.mpr hf, hbelow⟩

/-! ## The operations -/

variable {source : Path → Option (Node Bytes)} {files : List File} {data : Path} {o : Op OsName Bytes}

/-- The operations of a replacement. -/
inductive Replaces (data : Path) (source : Path → Option (Node Bytes)) (files : List File) :
    Op OsName Bytes → Prop
  | root : Replaces data source files (.makeDirs data)
  | stale {name suffix : Text} (hname : name ∈ databases) (hsource : source [.utf8 name] ≠ none)
      (hsuffix : suffix ∈ [lit "-wal", lit "-shm"]) :
      Replaces data source files (.remove (data ++ [.utf8 (name ++ suffix)]))
  | top {name : Text} {b : Bytes} (hname : name ∈ databases ++ secretFiles)
      (hsource : source [.utf8 name] = some (.file b)) :
      Replaces data source files (.copy (data ++ [.utf8 name]) b)
  | tree {tree : Text} (htree : tree ∈ trees) (hsource : source [.utf8 tree] ≠ none) :
      Replaces data source files (.makeDirs (data ++ [.utf8 tree]))
  | parent {tree : Text} {f : File} (htree : tree ∈ trees) (hsource : source [.utf8 tree] = some .dir)
      (hf : f ∈ files) (hbelow : [.utf8 tree] <+: f.1) :
      Replaces data source files (.makeDirs (data ++ f.1.dropLast))
  | below {tree : Text} {f : File} (htree : tree ∈ trees) (hsource : source [.utf8 tree] = some .dir)
      (hf : f ∈ files) (hbelow : [.utf8 tree] <+: f.1) :
      Replaces data source files (.copy (data ++ f.1) f.2)
  | stuckTree {tree : Text} (htree : tree ∈ trees) (hsource : source [.utf8 tree] ≠ none)
      (hdir : source [.utf8 tree] ≠ some .dir) : Replaces data source files .fail
  | stuckTop {name : Text} (hname : name ∈ databases ++ secretFiles)
      (hsource : source [.utf8 name] ≠ none) (hfile : ∀ b, source [.utf8 name] ≠ some (.file b)) :
      Replaces data source files .fail

theorem mem_restoreDatabase {name : Text} : o ∈ restoreDatabase data source name ↔
    (source [.utf8 name] ≠ none ∧ ∃ suffix ∈ [lit "-wal", lit "-shm"], o = .remove (data ++ [.utf8 (name ++ suffix)])) ∨
    (∃ b, source [.utf8 name] = some (.file b) ∧ o = .copy (data ++ [.utf8 name]) b) ∨
    (source [.utf8 name] ≠ none ∧ (∀ b, source [.utf8 name] ≠ some (.file b)) ∧ o = .fail) := by
  unfold restoreDatabase
  rcases source [.utf8 name] with _ | node
  · simp
  · cases node <;> simp [eq_comm, or_assoc]

theorem mem_restoreSecret {name : Text} : o ∈ restoreSecret data source name ↔
    (∃ b, source [.utf8 name] = some (.file b) ∧ o = .copy (data ++ [.utf8 name]) b) ∨
    (source [.utf8 name] ≠ none ∧ (∀ b, source [.utf8 name] ≠ some (.file b)) ∧ o = .fail) := by
  unfold restoreSecret
  rcases source [.utf8 name] with _ | node
  · simp
  · cases node <;> simp

theorem mem_copyTree {tree : Text} : o ∈ copyTree data source files tree ↔
    (source [.utf8 tree] ≠ none ∧ o = .makeDirs (data ++ [.utf8 tree])) ∨
    (source [.utf8 tree] = some .dir ∧ ∃ f ∈ files, [.utf8 tree] <+: f.1 ∧
      (o = .makeDirs (data ++ f.1.dropLast) ∨ o = .copy (data ++ f.1) f.2)) ∨
    (source [.utf8 tree] ≠ none ∧ source [.utf8 tree] ≠ some .dir ∧ o = .fail) := by
  unfold copyTree
  rcases source [.utf8 tree] with _ | node
  · simp
  · cases node with
    | dir => simp [and_assoc]
    | _ => simp

/-- The operations of a replacement. -/
theorem mem_replacement : o ∈ replacement data source files ↔ Replaces data source files o := by
  unfold replacement
  simp only [List.mem_cons, List.mem_append, List.mem_flatMap, mem_restoreDatabase, mem_copyTree,
    mem_restoreSecret]
  constructor
  · rintro (rfl | (⟨name, hname, h⟩ | ⟨tree, htree, h⟩) | ⟨name, hname, h⟩)
    · exact .root
    · rcases h with ⟨hsource, suffix, hsuffix, rfl⟩ | ⟨b, hsource, rfl⟩ | ⟨hsource, hfile, rfl⟩
      · exact .stale hname hsource (by simpa using hsuffix)
      · exact .top (List.mem_append_left _ hname) hsource
      · exact .stuckTop (List.mem_append_left _ hname) hsource hfile
    · rcases h with ⟨hsource, rfl⟩ | ⟨hsource, f, hf, hbelow, rfl | rfl⟩ | ⟨hsource, hdir, rfl⟩
      · exact .tree htree hsource
      · exact .parent htree hsource hf hbelow
      · exact .below htree hsource hf hbelow
      · exact .stuckTree htree hsource hdir
    · rcases h with ⟨b, hsource, rfl⟩ | ⟨hsource, hfile, rfl⟩
      · exact .top (List.mem_append_right _ hname) hsource
      · exact .stuckTop (List.mem_append_right _ hname) hsource hfile
  · intro h
    cases h with
    | root => exact Or.inl rfl
    | @stale name suffix hname hsource hsuffix =>
      exact Or.inr (Or.inl (Or.inl ⟨name, hname, Or.inl ⟨hsource, suffix, by simpa using hsuffix, rfl⟩⟩))
    | @top name b hname hsource =>
      rcases List.mem_append.mp hname with hname | hname
      · exact Or.inr (Or.inl (Or.inl ⟨name, hname, Or.inr (Or.inl ⟨b, hsource, rfl⟩)⟩))
      · exact Or.inr (Or.inr ⟨name, hname, Or.inl ⟨b, hsource, rfl⟩⟩)
    | @tree tree htree hsource => exact Or.inr (Or.inl (Or.inr ⟨tree, htree, Or.inl ⟨hsource, rfl⟩⟩))
    | @parent tree f htree hsource hf hbelow =>
      exact Or.inr (Or.inl (Or.inr ⟨tree, htree, Or.inr (Or.inl ⟨hsource, f, hf, hbelow, Or.inl rfl⟩)⟩))
    | @below tree f htree hsource hf hbelow =>
      exact Or.inr (Or.inl (Or.inr ⟨tree, htree, Or.inr (Or.inl ⟨hsource, f, hf, hbelow, Or.inr rfl⟩)⟩))
    | @stuckTree tree htree hsource hdir =>
      exact Or.inr (Or.inl (Or.inr ⟨tree, htree, Or.inr (Or.inr ⟨hsource, hdir, rfl⟩)⟩))
    | @stuckTop name hname hsource hfile =>
      rcases List.mem_append.mp hname with hname | hname
      · exact Or.inr (Or.inl (Or.inl ⟨name, hname, Or.inr (Or.inr ⟨hsource, hfile, rfl⟩)⟩))
      · exact Or.inr (Or.inr ⟨name, hname, Or.inr ⟨hsource, hfile, rfl⟩⟩)

/-! ## The names in the data directory -/

theorem not_mem_of_mem_trees {tree : Text} (h : tree ∈ trees) : tree ∉ databases ++ secretFiles := by
  have hall : ∀ tree ∈ trees, tree ∉ databases ++ secretFiles := by decide
  exact hall tree h

theorem stale_not_mem {name suffix : Text} (hname : name ∈ databases)
    (hsuffix : suffix ∈ [lit "-wal", lit "-shm"]) :
    name ++ suffix ∉ databases ++ secretFiles ∧ name ++ suffix ∉ trees := by
  have hall : ∀ name ∈ databases, ∀ suffix ∈ [lit "-wal", lit "-shm"],
      name ++ suffix ∉ databases ++ secretFiles ∧ name ++ suffix ∉ trees := by decide
  exact hall name hname suffix hsuffix

theorem restored_top {name : Text} {b : Bytes} (hname : name ∈ databases ++ secretFiles)
    (hsource : source [.utf8 name] = some (.file b)) :
    restored source [.utf8 name] = some (some (.file b)) := by
  rw [restored, if_pos hname, hsource]

theorem restored_tree {tree : Text} (htree : tree ∈ trees) (hsource : source [.utf8 tree] ≠ none) :
    restored source [.utf8 tree] = some (some .dir) := by
  rw [restored, if_neg (not_mem_of_mem_trees htree), if_pos htree]
  obtain ⟨node, hnode⟩ := Option.ne_none_iff_exists'.mp hsource
  rw [hnode]
  rfl

theorem restored_stale {name suffix : Text} (hname : name ∈ databases) (hsource : source [.utf8 name] ≠ none)
    (hsuffix : suffix ∈ [lit "-wal", lit "-shm"]) : restored source [.utf8 (name ++ suffix)] = some none := by
  obtain ⟨htop, htree⟩ := stale_not_mem hname hsuffix
  rw [restored, if_neg htop, if_neg htree, if_pos ⟨name, hname, hsource, suffix, hsuffix, rfl⟩]

theorem restored_below {tree : Text} {r : Path} {node : Node Bytes} (htree : tree ∈ trees) (hr : r ≠ [])
    (hsource : source (.utf8 tree :: r) = some node) :
    restored source (.utf8 tree :: r) = some (some node) := by
  obtain ⟨n, p, rfl⟩ := List.exists_cons_of_ne_nil hr
  rw [restored, if_pos htree, hsource]
  rfl

/-! ## Their goals -/

/-- What a path shall be after a restore into the data directory. -/
def goalMap (data : Path) (source : Path → Option (Node Bytes)) (q : Path) :
    Option (Option (Node Bytes)) :=
  if data <+: q then restored source (q.drop data.length)
  else if q <+: data then some (some .dir) else none

theorem goalMap_append (p : Path) : goalMap data source (data ++ p) = restored source p := by
  unfold goalMap
  rw [if_pos (List.prefix_append _ _), List.drop_left]

theorem goalMap_of_prefix {q : Path} (h : q <+: data) : goalMap data source q = some (some .dir) := by
  by_cases hq : data <+: q
  · have heq : q = data ++ [] := by rw [List.append_nil]; exact (hq.eq_of_length_le h.length_le).symm
    rw [heq, goalMap_append, restored]
  · unfold goalMap
    rw [if_neg hq, if_pos h]

theorem goal_copy_append {p : Path} {b : Bytes} {q : Path} {v : Option (Node Bytes)}
    (hp : restored source p = some (some (.file b)))
    (hv : (Op.copy (data ++ p) b : Op OsName Bytes).goal q = some v) : goalMap data source q = some v := by
  rw [Op.goal_copy] at hv
  split_ifs at hv with hq
  cases hv
  rw [hq, goalMap_append, hp]

theorem goal_makeDirs_append {p q : Path} {v : Option (Node Bytes)}
    (hp : ∀ r, r <+: p → restored source r = some (some .dir))
    (hv : (Op.makeDirs (data ++ p) : Op OsName Bytes).goal q = some v) : goalMap data source q = some v := by
  rw [Op.goal_makeDirs] at hv
  split_ifs at hv with hq
  cases hv
  rcases List.prefix_or_prefix_of_prefix hq (List.prefix_append data p) with hdata | hdata
  · exact goalMap_of_prefix hdata
  · obtain ⟨r, rfl⟩ := hdata
    rw [goalMap_append]
    exact hp r ((List.prefix_append_right_inj _).mp hq)

/-- Above a file of a tree there are directories. -/
theorem restored_of_prefix (hwalks : Walks source files) {tree : Text} {f : File} (htree : tree ∈ trees)
    (hf : f ∈ files) (hbelow : [.utf8 tree] <+: f.1) {r : Path}
    (hr : r <+: f.1.dropLast) : restored source r = some (some .dir) := by
  obtain ⟨t, ht⟩ := hbelow
  have hproper : ∃ u, u ≠ [] ∧ r ++ u = f.1 := by
    obtain ⟨u, hu⟩ := hr.trans (List.dropLast_prefix f.1)
    refine ⟨u, ?_, hu⟩
    rintro rfl
    rw [List.append_nil] at hu
    have hlength := hr.length_le
    rw [hu, List.length_dropLast] at hlength
    have hpos : 0 < f.1.length := by rw [← ht]; simp
    omega
  obtain ⟨u, hu, hfile⟩ := hproper
  have hsource : source f.1 = some (.file f.2) := (hwalks.file_iff f.1 f.2).mp hf
  have hdir : source r = some .dir :=
    hwalks.closed r u hu (by rw [hfile, hsource]; exact Option.some_ne_none _)
  cases r with
  | nil => rfl
  | cons n r =>
    have hn : n = .utf8 tree := by
      rw [← ht] at hfile
      exact (List.cons.inj hfile).1
    rw [hn] at hdir ⊢
    by_cases hnil : r = []
    · rw [hnil] at hdir ⊢
      exact restored_tree htree (by rw [hdir]; exact Option.some_ne_none _)
    · exact restored_below htree hnil hdir

theorem ne_of_dir (hwalks : Walks source files) {tree : Text} {f : File} (hf : f ∈ files)
    (hsource : source [.utf8 tree] = some .dir) : f.1 ≠ [.utf8 tree] := by
  intro heq
  have hfile := (hwalks.file_iff f.1 f.2).mp hf
  rw [heq, hsource] at hfile
  cases hfile

/-- The operations agree on what each path shall be. -/
theorem toward_replacement (data : Path) (hwalks : Walks source files) :
    Toward (goalMap data source) (replacement data source files) := by
  intro o ho q v hv
  cases mem_replacement.mp ho with
  | root =>
    rw [Op.goal_makeDirs] at hv
    split_ifs at hv with hq
    cases hv
    exact goalMap_of_prefix hq
  | stale hname hsource hsuffix =>
    rw [Op.goal_remove] at hv
    split_ifs at hv with hq
    cases hv
    rw [hq, goalMap_append, restored_stale hname hsource hsuffix]
  | top hname hsource => exact goal_copy_append (restored_top hname hsource) hv
  | tree htree hsource =>
    refine goal_makeDirs_append (fun r hr => ?_) hv
    rcases List.prefix_cons_iff.mp hr with rfl | ⟨t, rfl, ht⟩
    · rfl
    · rw [List.prefix_nil.mp ht]
      exact restored_tree htree hsource
  | parent htree hsource hf hbelow =>
    exact goal_makeDirs_append (fun r hr => restored_of_prefix hwalks htree hf hbelow hr) hv
  | @below tree f htree hsource hf hbelow =>
    have hne := ne_of_dir hwalks hf hsource
    have hfile := (hwalks.file_iff f.1 f.2).mp hf
    refine goal_copy_append ?_ hv
    obtain ⟨t, ht⟩ := hbelow
    rw [← ht] at hne hfile ⊢
    exact restored_below htree (fun hnil => hne (by rw [show t = [] from hnil]; rfl)) hfile
  | stuckTree _ _ _ => cases hv
  | stuckTop _ _ _ => cases hv

theorem consistent_replacement (hwalks : Walks source files) :
    Consistent (replacement data source files) :=
  (toward_replacement data hwalks).consistent

/-- Whatever is restored, some operation restores. -/
theorem exists_of_restored (data : Path) (hwalks : Walks source files) {p : Path} {v : Option (Node Bytes)}
    (h : restored source p = some v) :
    ∃ o, Replaces data source files o ∧ o.goal (data ++ p) = some v := by
  unfold restored at h
  split at h
  · cases h
    exact ⟨_, .root, by rw [Op.goal_makeDirs, List.append_nil, if_pos (List.prefix_refl _)]⟩
  · rename_i name
    split_ifs at h with htop htree hstale
    · split at h
      · rename_i b hsource
        cases h
        exact ⟨_, .top htop hsource, by rw [Op.goal_copy, if_pos rfl]⟩
      · cases h
    · cases hsource : source [.utf8 name] with
      | none =>
        rw [hsource] at h
        cases h
      | some node =>
        rw [hsource] at h
        cases h
        exact ⟨_, .tree htree (by rw [hsource]; exact Option.some_ne_none _),
          by rw [Op.goal_makeDirs, if_pos (List.prefix_refl _)]⟩
    · cases h
      obtain ⟨db, hdb, hsource, suffix, hsuffix, rfl⟩ := hstale
      exact ⟨_, .stale hdb hsource hsuffix, by rw [Op.goal_remove, if_pos rfl]⟩
  · rename_i tree n p
    split_ifs at h with htree
    cases hsource : source (.utf8 tree :: n :: p) with
    | none =>
      rw [hsource] at h
      cases h
    | some node =>
      rw [hsource] at h
      cases h
      have hdir : source [.utf8 tree] = some .dir := by
        refine hwalks.closed [.utf8 tree] (n :: p) (List.cons_ne_nil _ _) ?_
        rw [List.singleton_append, hsource]
        exact Option.some_ne_none _
      cases node with
      | file b =>
        have hmem : (OsName.utf8 tree :: n :: p, b) ∈ files := (hwalks.file_iff _ _).mpr hsource
        exact ⟨_, .below htree hdir hmem ⟨n :: p, rfl⟩, by rw [Op.goal_copy, if_pos rfl]⟩
      | dir =>
        obtain ⟨f, hf, hprefix, hne⟩ := hwalks.below _ (List.cons_ne_nil _ _) hsource
        have hbelow : [.utf8 tree] <+: f.1 :=
          (List.prefix_append [OsName.utf8 tree] (n :: p)).trans hprefix
        refine ⟨_, .parent htree hdir hf hbelow, ?_⟩
        rw [Op.goal_makeDirs, if_pos ((List.prefix_append_right_inj _).mpr (prefix_dropLast hprefix hne))]
      | other => exact absurd hsource (hwalks.regular _)
  · cases h

/-- Together the operations bring the data directory to what it shall be. -/
theorem goals_replacement (hwalks : Walks source files) (p : Path) :
    goals (replacement data source files) (data ++ p) = restored source p := by
  have htoward := toward_replacement data hwalks
  cases hrestored : restored source p with
  | some v =>
    obtain ⟨o, ho, hv⟩ := exists_of_restored data hwalks hrestored
    exact htoward.consistent o (mem_replacement.mpr ho) _ _ hv
  | none =>
    by_contra hne
    obtain ⟨v, hv⟩ := Option.ne_none_iff_exists'.mp hne
    have hgoal := htoward.of_goals hv
    rw [goalMap_append, hrestored] at hgoal
    cases hgoal

/-- Every file is written into a directory that was made before. -/
theorem ready_replacement (data : Path) (source : Path → Option (Node Bytes)) (files : List File)
    (hfiles : ∀ f ∈ files, f.1 ≠ []) : Ready [] (replacement data source files) := by
  have htop : ∀ name : Text, ∀ b : Bytes, Ready [data] [.copy (data ++ [.utf8 name]) b] := fun name b =>
    ⟨List.append_ne_nil_of_right_ne_nil _ (List.cons_ne_nil _ _),
      ⟨data, List.mem_singleton_self data, by rw [List.dropLast_concat]⟩, trivial⟩
  have hdatabase : ∀ name ∈ databases, Ready [data] (restoreDatabase data source name) := by
    intro name _
    unfold restoreDatabase
    split
    · trivial
    · exact Ready.append trivial (htop name _)
    · exact Ready.append trivial trivial
  have hsecret : ∀ name ∈ secretFiles, Ready [data] (restoreSecret data source name) := by
    intro name _
    unfold restoreSecret
    split
    · trivial
    · exact htop name _
    · trivial
  have htree : ∀ tree ∈ trees, Ready [data] (copyTree data source files tree) := by
    intro tree _
    unfold copyTree
    split
    · trivial
    · refine Ready.flatMap fun f hf => ?_
      have hne := hfiles f (List.mem_filter.mp hf).1
      refine ⟨List.append_ne_nil_of_right_ne_nil _ hne, ⟨_, List.mem_cons_self, ?_⟩, trivial⟩
      rw [List.dropLast_append_of_ne_nil hne]
    · trivial
  exact (Ready.append (Ready.flatMap hdatabase) (Ready.flatMap htree)).append (Ready.flatMap hsecret)

/-- Every staged tree is a directory, and every secret and database a file. -/
def Placeable (source : Path → Option (Node Bytes)) : Prop :=
  (∀ tree ∈ trees, source [.utf8 tree] = none ∨ source [.utf8 tree] = some .dir) ∧
    ∀ name ∈ databases ++ secretFiles, source [.utf8 name] = none ∨ ∃ b, source [.utf8 name] = some (.file b)

theorem fail_not_mem_iff : Op.fail ∉ replacement data source files ↔ Placeable source := by
  rw [mem_replacement]
  constructor
  · intro h
    refine ⟨fun tree htree => ?_, fun name hname => ?_⟩
    · by_contra hne
      rw [not_or] at hne
      exact h (.stuckTree htree hne.1 hne.2)
    · by_contra hne
      rw [not_or, not_exists] at hne
      exact h (.stuckTop hname hne.1 hne.2)
  · rintro ⟨htrees, htops⟩ h
    cases h with
    | stuckTree htree hsource hdir => exact (htrees _ htree).elim hsource hdir
    | stuckTop hname hsource hfile => exact (htops _ hname).elim hsource fun ⟨b, hb⟩ => hfile b hb

/-- Nothing is in the way of a replacement. -/
theorem clear_replacement_iff {fs : World} (hwalks : Walks source files)
    (habove : ∀ q, q <+: data → q ≠ data → fs.node q = some .dir) :
    (∀ o ∈ replacement data source files, o.Clear fs) ↔
      Placeable source ∧ ∀ p v, restored source p = some v → obstructs v (fs.node (data ++ p)) = false := by
  constructor
  · intro h
    refine ⟨fail_not_mem_iff.mp fun hmem => h _ hmem, fun p v hv => ?_⟩
    obtain ⟨o, ho, hgoal⟩ := exists_of_restored data hwalks hv
    exact (Op.clear_iff.mp (h o (mem_replacement.mpr ho))).2 _ _ hgoal
  · rintro ⟨hplaceable, hfree⟩ o ho
    refine Op.clear_iff.mpr ⟨?_, fun q v hv => ?_⟩
    · rintro rfl
      exact fail_not_mem_iff.mpr hplaceable ho
    · have hgoal := toward_replacement data hwalks o ho q v hv
      unfold goalMap at hgoal
      split_ifs at hgoal with hbelow hprefix
      · obtain ⟨p, rfl⟩ := hbelow
        rw [List.drop_left] at hgoal
        exact hfree p v hgoal
      · cases hgoal
        rw [habove q hprefix fun hq => hbelow (hq ▸ List.prefix_refl _)]
        rfl

end Kahawai.Hub.Backup
