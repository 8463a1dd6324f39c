import Kahawai.Hub.Backup.RoundTrip

/-!
# What a backup is good for

A restore gives back what was taken, and gives a changed snapshot or touches nothing, exactly when
what was staged can be put in its place.

Results:
* `Resumes`: a restore that is interrupted ends the same when it is run again.
* `backup_restore`: all of it, for every data directory and every snapshot.
-/

namespace Kahawai.Hub.Backup

open Kahawai.Core Kahawai.Lib Kahawai.Lib.Files

/-! ## Running again -/

/-- A restore that would succeed and is interrupted while it replaces the files ends the same when it
    is run again. What is elsewhere may have changed, but the data directory stands where it stood. -/
def Resumes (sqlite : Sqlite) (sha256 : Bytes → Text) (x : Snapshot) (l : Place) (force : Bool)
    (fs : World) : Prop :=
  ∀ m source files fs₁ fs₂ (l' : Place) (g : World),
    prepare sqlite sha256 x l force fs = (.ok (m, source, files), fs₁) →
    (restore sqlite sha256 x l force fs).1 = .ok m →
    Interrupted (replacement l.data (fun p => fs₁.node (source ++ p)) files) fs₁ fs₂ →
    l'.parent = l.parent → l'.dir = l.dir → (∀ p, g.node (l.data ++ p) = fs₂.node (l.data ++ p)) →
    g.node l.parent = some .dir → g.node l'.stagingDir = none →
    (restore sqlite sha256 x l' true g).1 = .ok m ∧
      ∀ p, (restore sqlite sha256 x l' true g).2.node (l.data ++ p) =
        (restore sqlite sha256 x l force fs).2.node (l.data ++ p)

theorem resumes {sqlite : Sqlite} {sha256 : Bytes → Text} {x : Snapshot} {l : Place} {force : Bool} {fs : World}
    (hmanifest : ∀ m, x.manifest = .ok m → 3 ≤ m.format ∧ PlainSecrets m) :
    Resumes sqlite sha256 x l force fs := by
  intro m source files fs₁ fs₂ l' g hprepare hok hi hparent hdir hg habove hnew
  have hformat : ∀ m, x.manifest = .ok m → 3 ≤ m.format := fun m hm => (hmanifest m hm).1
  have hprepared := (prepare_spec hformat hprepare).2 m source files rfl
  have hdone : (runAll (replacement l.data (fun p => fs₁.node (source ++ p)) files) fs₁).1 = true := by
    rw [restore_of_prepare hformat hprepare] at hok
    by_contra hnot
    dsimp only at hok
    rw [if_neg hnot] at hok
    cases hok
  obtain ⟨hplaceable, hfree⟩ := hprepared.runAll_fst_iff.mp hdone
  exact (restore_of_interrupted hformat hprepare hplaceable hfree (hmanifest m hprepared.manifest).2 hi
    hparent hdir hg habove hnew).2

/-! ## Backup and restore -/

/-- A restore into an empty data directory gives back what the backup took. And any restore gives what
    is listed or touches nothing, and ends the same when it is interrupted and run again, exactly when
    what is staged can be put in its place, or all before the first obstacle is in place. -/
theorem backup_restore (sqlite : Sqlite) (sha256 : Bytes → Text) (hhex : Hex sha256) :
    (∀ d db seeded version now (config : Option Bytes), Quiescent sqlite sha256 d db seeded →
      ∃ m files, backup sqlite sha256 version now d (config.map .file) = .ok (m, files) ∧
        ∀ x l force fs, x.manifest = .ok m → Shows x files → Empty l fs →
          (restore sqlite sha256 x l force fs).1 = .ok m ∧
            GivenBack sqlite sha256 d db seeded fun p => (restore sqlite sha256 x l force fs).2.node (l.data ++ p)) ∧
      ∀ x l force fs, (∀ m, x.manifest = .ok m → 3 ≤ m.format ∧ PlainSecrets m) →
        (Sound sqlite sha256 x l force fs ∧ Resumes sqlite sha256 x l force fs ↔
          Unhindered sqlite sha256 x l force fs) := by
  constructor
  · intro d db seeded version now config h
    exact ⟨_, _, backup_spec h version now config, fun x l force fs hmanifest hshows hempty =>
      restore_of_backup hhex h force hmanifest hshows hempty⟩
  · intro x l force fs hmanifest
    rw [and_iff_left (resumes hmanifest)]
    exact sound_iff fun m hm => (hmanifest m hm).1

/-! ## A small hub -/

/-- The header of a database file. -/
def dbHeader : Bytes := [83, 81, 76, 105, 116, 101, 32, 102, 111, 114, 109, 97, 116, 32, 51, 0]

def smallKey : Bytes := List.replicate 32 0

/-- The digests of the files below. -/
def smallDigest (b : Bytes) : Text :=
  if b = dbHeader then lit "3f8434aff012ffcb594ad7527d6042841ce94f499887f86ab828f84a9a275f91"
  else if b = dbHeader ++ [1] then lit "f61c8aa22fdfeecceded9d2918100590de31b9b7e778eda2a007da8402b8a713"
  else if b = smallKey then lit "66687aadf862bd776c8fc18b8e9f8e20089714856ee233b3902a591d0d5f2925"
  else if b = [104, 105] then lit "8f434346648f6b96df89dda901c5176b10a6d83961dd3c1ac88b59b2dc327aa4"
  else List.replicate 64 '0'

theorem hex_smallDigest : Hex smallDigest := by
  intro b
  unfold smallDigest
  split_ifs <;> decide

/-- Two databases: a new one, and one with the marker of the key. -/
def smallSqlite : Sqlite where
  Db := Bool
  contents dir name :=
    match dir [.utf8 name] with
    | some (.file b) =>
      if b = dbHeader then .ok false else if b = dbHeader ++ [1] then .ok true
      else .error (lit "file is not a database")
    | _ => .error (lit "unable to open database file")
  openHub dir :=
    match dir [.utf8 hubDb] with
    | some (.file b) => .ok (b = dbHeader ++ [1])
    | _ => .ok false
  marker db := .ok (if db then some (smallDigest smallKey) else none)
  vacuum db := if db then dbHeader ++ [1] else dbHeader
  vacuum_ne_nil db := by cases db <;> decide
  contents_vacuum dir name db hfile _ := by
    rw [hfile]
    cases db <;> rfl

/-- A data directory with a key and a subtitle. -/
def smallDir : DataDir where
  node
    | [] => some .dir
    | [.utf8 name] =>
      if name = hubDb then some (.file (dbHeader ++ [1])) else if name = keyFile then some (.file smallKey)
      else if name = lit "subtitles" then some .dir else none
    | [.utf8 tree, .utf8 name] =>
      if tree = lit "subtitles" ∧ name = lit "a.srt" then some (.file [104, 105]) else none
    | _ => none
  walk tree := if tree = lit "subtitles" then [([.utf8 (lit "a.srt")], .file [104, 105])] else []

/-- Below the top there is one file. -/
theorem smallDir_below {n m : OsName} {p : Path} {v : Node Bytes}
    (h : smallDir.node (n :: m :: p) = some v) :
    n = .utf8 (lit "subtitles") ∧ m = .utf8 (lit "a.srt") ∧ p = [] ∧ v = .file [104, 105] := by
  cases n with
  | raw _ => cases h
  | utf8 tree =>
    cases m with
    | raw _ => cases h
    | utf8 name =>
      cases p with
      | cons _ _ => cases h
      | nil =>
        change (if tree = lit "subtitles" ∧ name = lit "a.srt" then some (.file [104, 105]) else none) = some v at h
        split_ifs at h with hnames
        exact ⟨by rw [hnames.1], by rw [hnames.2], rfl, (Option.some.inj h).symm⟩

theorem smallDir_walk {tree : Text} (r : Path) (v : Node Bytes) :
    (r, v) ∈ smallDir.walk tree ↔ r ≠ [] ∧ smallDir.node (.utf8 tree :: r) = some v := by
  unfold smallDir
  dsimp only
  constructor
  · intro hmem
    split_ifs at hmem with htree
    · obtain ⟨rfl, rfl⟩ := Prod.mk.inj (List.mem_singleton.mp hmem)
      exact ⟨List.cons_ne_nil _ _, by rw [htree]; rfl⟩
    · exact absurd hmem List.not_mem_nil
  · rintro ⟨hr, hnode⟩
    obtain ⟨m, p, rfl⟩ := List.exists_cons_of_ne_nil hr
    obtain ⟨htree, rfl, rfl, rfl⟩ := smallDir_below hnode
    rw [if_pos (OsName.utf8.inj htree)]
    exact List.mem_singleton_self _

theorem quiescent_smallDir :
    Quiescent smallSqlite smallDigest smallDir true (some (smallDigest smallKey)) := by
  have hroots : ∀ tree ∈ trees, smallDir.node [.utf8 tree] = none ∨ smallDir.node [.utf8 tree] = some .dir := by
    decide
  refine ⟨rfl, rfl, ?_, fun hmedia => absurd rfl hmedia, ?_, hroots, fun _ _ => smallDir_walk, by decide,
    fun tree htree r hother => ?_, fun tree htree r b hfile => ?_, ?_⟩
  · rintro _ ⟨⟩
    exact ⟨smallKey, rfl, rfl, rfl⟩
  · rintro (_ | ⟨n, _ | ⟨m, p⟩⟩) r hr hne
    · rfl
    · obtain ⟨m, p, rfl⟩ := List.exists_cons_of_ne_nil hr
      obtain ⟨v, hv⟩ := Option.ne_none_iff_exists'.mp hne
      rw [(smallDir_below hv).1]
      rfl
    · obtain ⟨v, hv⟩ := Option.ne_none_iff_exists'.mp hne
      exact absurd (List.append_eq_nil_iff.mp (smallDir_below hv).2.2.1).2 hr
  · cases r with
    | nil => rcases hroots tree htree with h | h <;> rw [h] at hother <;> cases hother
    | cons m p => cases (smallDir_below hother).2.2.2
  · cases r with
    | nil => rcases hroots tree htree with h | h <;> rw [h] at hfile <;> cases hfile
    | cons m p =>
      obtain ⟨htree, rfl, rfl, -⟩ := smallDir_below hfile
      rw [htree]
      refine ⟨[lit "subtitles", lit "a.srt"], List.cons_ne_nil _ _, rfl, fun name hname => ?_⟩
      rcases List.mem_cons.mp hname with rfl | hname
      · exact ⟨by decide, by decide, by decide, by decide, by decide⟩
      · rw [List.mem_singleton.mp hname]
        exact ⟨by decide, by decide, by decide, by decide, by decide⟩
  · intro name hname
    simp only [secretFiles, List.mem_cons, List.not_mem_nil, or_false] at hname
    rcases hname with rfl | rfl | rfl
    · exact Or.inl rfl
    · exact Or.inr ⟨smallKey, rfl⟩
    · exact Or.inl rfl

/-- The data directory of a hub that was never started. -/
def emptyPlace : Place := ⟨[], .utf8 (lit "data"), .utf8 (lit ".kahawai-restore-1"), by decide⟩

def emptyWorld : World where
  node p := if p = [] ∨ p = [.utf8 (lit "data")] then some .dir else none
  root := rfl
  closed p n hne := by
    rcases p with _ | ⟨m, p⟩
    · rfl
    · exact absurd (if_neg (by simp)) hne

/-- The snapshot that a backup of the small hub leaves. -/
def smallSnapshot : Snapshot where
  manifest := .ok (manifestOf smallSqlite smallDigest (lit "0.1.0") 0 smallDir true none)
  walk := .file [.utf8 manifestFile] ::
    (snapshotFiles smallSqlite smallDir true none).map fun f => .file f.1
  read p := (snapshotFiles smallSqlite smallDir true none).lookup p
  order files := files
  order_perm _ := .refl _
  root := []
  present := []

theorem shows_smallSnapshot : Shows smallSnapshot (snapshotFiles smallSqlite smallDir true none) := by
  refine ⟨fun v hv => ?_, fun f hf => List.mem_cons_of_mem _ (List.mem_map_of_mem hf), by decide, by decide⟩
  rcases List.mem_cons.mp hv with rfl | hv
  · exact ⟨_, rfl, Or.inl rfl⟩
  · obtain ⟨f, hf, rfl⟩ := List.mem_map.mp hv
    exact ⟨f.1, rfl, Or.inr ⟨f.2, hf⟩⟩

theorem backup_restore_small :
    (restore smallSqlite smallDigest smallSnapshot emptyPlace false emptyWorld).1 = smallSnapshot.manifest ∧
      GivenBack smallSqlite smallDigest smallDir true (some (smallDigest smallKey)) (fun p =>
        (restore smallSqlite smallDigest smallSnapshot emptyPlace false emptyWorld).2.node (emptyPlace.data ++ p)) ∧
      (Sound smallSqlite smallDigest smallSnapshot emptyPlace false emptyWorld ∧
          Resumes smallSqlite smallDigest smallSnapshot emptyPlace false emptyWorld ↔
        Unhindered smallSqlite smallDigest smallSnapshot emptyPlace false emptyWorld) := by
  have hempty : Empty emptyPlace emptyWorld := by
    refine ⟨rfl, fun p hp => if_neg ?_, rfl⟩
    rintro (hnil | hdata)
    · exact absurd hnil (List.append_ne_nil_of_left_ne_nil (List.cons_ne_nil _ _) _)
    · exact hp (List.append_cancel_left (hdata.trans (List.append_nil _).symm))
  obtain ⟨hback, hchanged⟩ := backup_restore smallSqlite smallDigest hex_smallDigest
  obtain ⟨m, files, hbackup, hrestore⟩ :=
    hback smallDir true _ (lit "0.1.0") 0 none quiescent_smallDir
  rw [backup_spec quiescent_smallDir] at hbackup
  cases hbackup
  obtain ⟨hok, hgiven⟩ := hrestore smallSnapshot emptyPlace false emptyWorld rfl shows_smallSnapshot hempty
  refine ⟨hok, hgiven, hchanged smallSnapshot emptyPlace false emptyWorld ?_⟩
  rintro m ⟨⟩
  exact ⟨format_manifestOf.1, plainSecrets_manifestOf⟩

/-! ## A file in the place of a tree -/

/-- A snapshot whose manifest lists a regular file under the name of a tree. -/
def stuckSnapshot : Snapshot where
  manifest := .ok
    { format := 3
      kahawaiVersion := lit "0.1.0"
      takenAt := 0
      dbBytes := 16
      mediadbBytes := none
      subtitleFiles := 0
      subtitleBytes := 0
      hasPki := false
      hasConfig := false
      secrets := []
      artifacts := [⟨hubDb, 16, smallDigest dbHeader⟩, ⟨lit "subtitles", 2, smallDigest [104, 105]⟩] }
  walk := [.file [.utf8 hubDb], .file [.utf8 manifestFile], .file [.utf8 (lit "subtitles")]]
  read p := List.lookup p [([.utf8 hubDb], dbHeader), ([.utf8 (lit "subtitles")], [104, 105])]
  order files := files
  order_perm _ := .refl _
  root := []
  present := []

/-- The restore fails when it has replaced the database. -/
theorem restore_stuck : ¬ Sound smallSqlite smallDigest stuckSnapshot emptyPlace false emptyWorld := by
  intro h
  have hfailed : (restore smallSqlite smallDigest stuckSnapshot emptyPlace false emptyWorld).1 =
      .error (lit "restoring") := rfl
  have hhub : (restore smallSqlite smallDigest stuckSnapshot emptyPlace false emptyWorld).2.node
      (emptyPlace.data ++ [.utf8 hubDb]) = some (.file dbHeader) := rfl
  rw [h.refused _ hfailed] at hhub
  cases hhub

end Kahawai.Hub.Backup
