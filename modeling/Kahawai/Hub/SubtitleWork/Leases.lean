import Kahawai.Hub.SubtitleWork.Step
import Kahawai.MediaDb.SubtitleJobs.Dispatch

/-!
# The leases that a step of the subtitle queue leaves

A job that a step has claimed stays leased when the step returns. That is right for
a job whose items were handed to the link of its host; a lease without them keeps
the job from everybody until it expires.

* `handed_of_leased`: where inspecting the tracks of a job, settling a job and
  releasing a host never fail, every job that the step has claimed and left leased
  was handed to its host, whatever else fails. Of these three only a failed message
  undoes the leases, through `release_subtitle_host`.
* `phantom_lease`: after an error in the cache of one file, another file of the
  window is leased and nobody was asked for it.
-/

namespace Kahawai.Hub.SubtitleWork

open Kahawai.Core Kahawai.Lib Kahawai.MediaDb.SubtitleJobs

variable {env : Env} {s s' : Run}

/-! ## Batches and messages -/

/-- An item is in the entry of a collection. -/
def Batches.Holds (batches : Batches) (collectionId : Text) (item : WorkItem) : Prop :=
  ∃ items, (collectionId, items) ∈ batches ∧ item ∈ items

theorem holds_add {batches : Batches} {k : Text} {items : List WorkItem} {k' : Text}
    {item : WorkItem} (h : batches.Holds k' item ∨ k' = k ∧ item ∈ items) :
    (batches.add k items).Holds k' item := by
  induction batches with
  | nil =>
    rcases h with ⟨held, hheld, -⟩ | ⟨rfl, hitem⟩
    · cases hheld
    · exact ⟨items, List.mem_singleton.mpr rfl, hitem⟩
  | cons entry rest ih =>
    obtain ⟨key, held⟩ := entry
    unfold Batches.add
    split
    · rename_i hkey
      rcases h with ⟨found, hfound, hitem⟩ | ⟨rfl, hitem⟩
      · rcases List.mem_cons.mp hfound with heq | hfound
        · cases heq
          exact ⟨held ++ items, List.mem_cons_self, List.mem_append_left _ hitem⟩
        · exact ⟨found, List.mem_cons_of_mem _ hfound, hitem⟩
      · exact ⟨held ++ items, by rw [hkey]; exact List.mem_cons_self, List.mem_append_right _ hitem⟩
    · split
      · rcases h with ⟨found, hfound, hitem⟩ | ⟨rfl, hitem⟩
        · exact ⟨found, List.mem_cons_of_mem _ hfound, hitem⟩
        · exact ⟨items, List.mem_cons_self, hitem⟩
      · rcases h with ⟨found, hfound, hitem⟩ | hnew
        · rcases List.mem_cons.mp hfound with heq | hfound
          · cases heq
            exact ⟨held, List.mem_cons_self, hitem⟩
          · obtain ⟨found', hfound', hitem'⟩ := ih (Or.inl ⟨found, hfound, hitem⟩)
            exact ⟨found', List.mem_cons_of_mem _ hfound', hitem'⟩
        · obtain ⟨found', hfound', hitem'⟩ := ih (Or.inr hnew)
          exact ⟨found', List.mem_cons_of_mem _ hfound', hitem'⟩

/-- Chunking loses nothing. -/
theorem flatten_chunks (size : ℕ) (chunk items : List WorkItem) :
    (chunks size chunk items).flatten = chunk ++ items := by
  induction items generalizing chunk with
  | nil =>
    cases chunk with
    | nil => rfl
    | cons item chunk => simp [chunks]
  | cons item items ih =>
    unfold chunks
    split
    · rw [ih, List.append_assoc, List.singleton_append]
    · rw [List.flatten_cons, ih, List.singleton_append]

theorem mem_messages {batches : Batches} {k : Text} {item : WorkItem} (kind : Kind)
    (h : batches.Holds k item) :
    ∃ m ∈ messages kind batches, m.kind = kind ∧ m.collectionId = k ∧ item ∈ m.items := by
  obtain ⟨items, hentry, hitem⟩ := h
  have hflat : item ∈ (chunks 5000 [] items).flatten := by
    rw [flatten_chunks]
    exact hitem
  obtain ⟨chunk, hchunk, hitem⟩ := List.mem_flatten.mp hflat
  exact ⟨⟨kind, k, chunk⟩,
    List.mem_flatMap.mpr ⟨(k, items), hentry, List.mem_map.mpr ⟨chunk, hchunk, rfl⟩⟩, rfl, rfl, hitem⟩

/-! ## Where a claimed job is -/

/-- A message carries an item of a job, with some rank. -/
def Message.Carries (m : Message) (job : SubtitleJob) (item : WorkItem) : Prop :=
  m.kind = job.kind ∧ m.collectionId = job.file.remoteId ∧
    ∃ rank, { item with rank := rank } ∈ m.items

/-- The items of a job, of which there are some, satisfy `p`. -/
def Items (env : Env) (job : SubtitleJob) (p : WorkItem → Prop) : Prop :=
  ∃ items, env.items job.kind job.file = .ok items ∧ items ≠ [] ∧ ∀ item ∈ items, p item

theorem Items.mono {job : SubtitleJob} {p q : WorkItem → Prop} (h : Items env job p)
    (hpq : ∀ item, p item → q item) : Items env job q := by
  obtain ⟨items, hitems, hne, hall⟩ := h
  exact ⟨items, hitems, hne, fun item hitem => hpq item (hall item hitem)⟩

/-- All items of the job were handed to the link of its host. -/
def Handed (env : Env) (sent : List (Text × Message)) (job : SubtitleJob) : Prop :=
  Items env job fun item => ∃ m, (job.file.host, m) ∈ sent ∧ m.Carries job item

/-- All items of the job are in the batches. -/
def Batched (env : Env) (batches : Batches) (job : SubtitleJob) : Prop :=
  Items env job fun item => ∃ rank, batches.Holds job.file.remoteId { item with rank := rank }

/-- The job belongs to the window. -/
def Window.Of (w : Window) (job : SubtitleJob) : Prop := job.kind = w.kind ∧ job.file.host = w.host

/-- What a step at this position is still to do about a job it has leased. -/
def Position.Awaits (env : Env) (sent : List (Text × Message)) (job : SubtitleJob) : Position → Prop
  | .inspect w _ todo batches _ => w.Of job ∧ (job ∈ todo.map Prod.fst ∨ Batched env batches job)
  | .settle w _ j todo batches _ =>
    w.Of job ∧ (job = j ∨ job ∈ todo.map Prod.fst ∨ Batched env batches job)
  | .send w _ todo _ => w.Of job ∧ Items env job fun item =>
      (∃ m, (job.file.host, m) ∈ sent ∧ m.Carries job item) ∨ ∃ m ∈ todo, m.Carries job item
  | .release w => w.Of job
  | _ => False

/-- The jobs still to inspect are claimed jobs of the window. -/
def Position.Members (claimed : List SubtitleJob) : Position → Prop
  | .inspect w _ todo _ _ => ∀ job ∈ todo.map Prod.fst, job ∈ claimed ∧ w.Of job
  | .settle w _ j todo _ _ => ∀ job ∈ j :: todo.map Prod.fst, job ∈ claimed ∧ w.Of job
  | _ => True

/-- Until the step returns, the rows of claimed jobs are leased to their host; a
    claimed job that is leased was handed over or is still to be. -/
structure Sound (env : Env) (s : Run) : Prop where
  leased : (∀ result, s.position ≠ .done result) → ∀ job ∈ s.claimed, ∀ row ∈ s.db.jobs,
    row.key = job.key → row.state = .running ∧ row.host = some job.file.host ∧ env.now < row.leaseUntil
  covered : ∀ job ∈ s.claimed, ∀ row ∈ s.db.jobs, row.key = job.key → row.state = .running →
    Handed env s.sent job ∨ s.position.Awaits env s.sent job
  current : ∀ job ∈ s.claimed, s.db.current job.file = true
  members : s.position.Members s.claimed

/-- No call fails that comes between a claim and the message, except sending it. -/
def Followed (env : Env) (s : Run) (outcome : Outcome) : Prop :=
  match s.position, outcome with
  | .inspect w _ ((job, _) :: _) _ _, _ => ∃ items, env.items w.kind job.file = .ok items
  | .settle .., .fail => False
  | .release _, .fail => False
  | _, _ => True

/-! ## Calls that leave the rows alone -/

/-- The queue and the claimed jobs stay as they are, and no job is forgotten. -/
theorem Sound.move (h : Sound env s) (hrun : ∀ result, s.position ≠ .done result)
    (hdb : s'.db = s.db) (hclaimed : s'.claimed = s.claimed) (hsent : s.sent ⊆ s'.sent)
    (hawaits : ∀ job ∈ s.claimed, s.position.Awaits env s.sent job →
      Handed env s'.sent job ∨ s'.position.Awaits env s'.sent job)
    (hmembers : s'.position.Members s'.claimed) : Sound env s' where
  leased := by
    rw [hdb, hclaimed]
    exact fun _ => h.leased hrun
  covered := by
    rw [hdb, hclaimed]
    intro job hjob row hrow hkey hstate
    rcases h.covered job hjob row hrow hkey hstate with hhanded | hawait
    · left
      refine hhanded.mono fun item hitem => ?_
      obtain ⟨m, hm, hcarries⟩ := hitem
      exact ⟨m, hsent hm, hcarries⟩
    · exact hawaits job hjob hawait
  current := by
    rw [hdb, hclaimed]
    exact h.current
  members := hmembers

/-- A step at a position that owes nothing may go anywhere that owes nothing. -/
theorem Sound.quiet (h : Sound env s) (hrun : ∀ result, s.position ≠ .done result)
    (hdb : s'.db = s.db) (hclaimed : s'.claimed = s.claimed) (hsent : s.sent ⊆ s'.sent)
    (hnone : ∀ job ∈ s.claimed, s.position.Awaits env s.sent job → Handed env s.sent job)
    (hmembers : s'.position.Members s'.claimed) : Sound env s' := by
  refine h.move hrun hdb hclaimed hsent (fun job hjob hawait => Or.inl ?_) hmembers
  refine (hnone job hjob hawait).mono fun item hitem => ?_
  obtain ⟨m, hm, hcarries⟩ := hitem
  exact ⟨m, hsent hm, hcarries⟩

theorem sound_look {windows : List Window} {outcome : Outcome} (h : Sound env s)
    (hpos : s.position = .look windows) (hs : s.next env outcome = some s') : Sound env s' := by
  have hrun : ∀ result, s.position ≠ .done result := by simp [hpos]
  have hnone : ∀ job ∈ s.claimed, s.position.Awaits env s.sent job → Handed env s.sent job := by
    intro job _ hawait
    rw [hpos] at hawait
    exact hawait.elim
  unfold Run.next at hs
  rw [hpos] at hs
  cases windows with
  | nil =>
    cases outcome with
    | ok =>
      cases hs
      exact h.quiet hrun rfl rfl (List.Subset.refl _) hnone trivial
    | fail => cases hs
  | cons w rest =>
    cases outcome with
    | ok =>
      cases hs
      refine h.quiet hrun rfl rfl (List.Subset.refl _) hnone ?_
      dsimp only
      split
      · trivial
      · trivial
    | fail =>
      cases hs
      exact h.quiet hrun rfl rfl (List.Subset.refl _) hnone trivial

theorem sound_inspect {w : Window} {rest : List Window} {todo : List (SubtitleJob × ℕ)}
    {batches : Batches} {settled : ℕ} {outcome : Outcome} (h : Sound env s)
    (hpos : s.position = .inspect w rest todo batches settled) (hok : Followed env s outcome)
    (hs : s.next env outcome = some s') : Sound env s' := by
  have hrun : ∀ result, s.position ≠ .done result := by simp [hpos]
  have hmembers := h.members
  rw [hpos] at hmembers
  unfold Run.next at hs
  unfold Followed at hok
  rw [hpos] at hs hok
  cases todo with
  | nil =>
    cases outcome with
    | fail => cases hs
    | ok =>
      cases hs
      refine h.move hrun rfl rfl (List.Subset.refl _) (fun job _ hawait => Or.inr ?_) trivial
      rw [hpos] at hawait
      obtain ⟨hof, hin | hbatched⟩ := hawait
      · cases hin
      · refine ⟨hof, hbatched.mono fun item hitem => Or.inr ?_⟩
        obtain ⟨rank, hholds⟩ := hitem
        obtain ⟨m, hm, hkind, hcollection, hmem⟩ := mem_messages w.kind hholds
        exact ⟨m, hm, hkind.trans hof.1.symm, hcollection, rank, hmem⟩
  | cons entry todo =>
    obtain ⟨job, rank⟩ := entry
    cases outcome with
    | fail => cases hs
    | ok =>
      obtain ⟨items, hitems⟩ := hok
      have hof := (hmembers job List.mem_cons_self).2
      dsimp only at hs
      rw [hitems] at hs
      cases items with
      | nil =>
        cases hs
        refine h.move hrun rfl rfl (List.Subset.refl _) (fun other _ hawait => Or.inr ?_) hmembers
        rw [hpos] at hawait
        obtain ⟨hother, hin | hbatched⟩ := hawait
        · rcases List.mem_cons.mp hin with heq | hin
          · exact ⟨hother, Or.inl heq⟩
          · exact ⟨hother, Or.inr (Or.inl hin)⟩
        · refine ⟨hother, Or.inr (Or.inr (hbatched.mono fun item hitem => ?_))⟩
          obtain ⟨rank', hholds⟩ := hitem
          exact ⟨rank', holds_add (Or.inl hholds)⟩
      | cons item items =>
        cases hs
        refine h.move hrun rfl rfl (List.Subset.refl _) (fun other _ hawait => Or.inr ?_)
          fun other hother => hmembers other (List.mem_cons_of_mem _ hother)
        rw [hpos] at hawait
        obtain ⟨hother, hin | hbatched⟩ := hawait
        · rcases List.mem_cons.mp hin with heq | hin
          · obtain rfl : other = job := heq
            refine ⟨hother, Or.inr ⟨item :: items, by rw [hof.1, hitems], by simp, fun x hx => ?_⟩⟩
            exact ⟨rank, holds_add (Or.inr ⟨rfl, List.mem_map.mpr ⟨x, hx, rfl⟩⟩)⟩
          · exact ⟨hother, Or.inl hin⟩
        · refine ⟨hother, Or.inr (hbatched.mono fun x hx => ?_)⟩
          obtain ⟨rank', hholds⟩ := hx
          exact ⟨rank', holds_add (Or.inl hholds)⟩

theorem sound_send {w : Window} {rest : List Window} {todo : List Message} {settled : ℕ}
    {outcome : Outcome} (h : Sound env s) (hpos : s.position = .send w rest todo settled)
    (hs : s.next env outcome = some s') : Sound env s' := by
  have hrun : ∀ result, s.position ≠ .done result := by simp [hpos]
  unfold Run.next at hs
  rw [hpos] at hs
  cases todo with
  | nil =>
    cases outcome with
    | fail => cases hs
    | ok =>
      cases hs
      refine h.quiet hrun rfl rfl (List.Subset.refl _) ?_ ?_
      · intro job _ hawait
        rw [hpos] at hawait
        refine hawait.2.mono fun item hitem => ?_
        simpa using hitem
      · unfold Run.at
        dsimp only
        split
        · trivial
        · trivial
  | cons m todo =>
    cases outcome with
    | fail =>
      cases hs
      refine h.move hrun rfl rfl (List.Subset.refl _) (fun job _ hawait => Or.inr ?_) trivial
      rw [hpos] at hawait
      exact hawait.1
    | ok =>
      cases hs
      refine h.move hrun rfl rfl (List.subset_append_left _ _) (fun job _ hawait => Or.inr ?_) trivial
      rw [hpos] at hawait
      obtain ⟨hof, hitems⟩ := hawait
      refine ⟨hof, hitems.mono fun item hitem => ?_⟩
      rcases hitem with ⟨m', hm', hcarries⟩ | ⟨m', hm', hcarries⟩
      · exact Or.inl ⟨m', List.mem_append_left _ hm', hcarries⟩
      · rcases List.mem_cons.mp hm' with rfl | hm'
        · exact Or.inl ⟨m', List.mem_append_right _ (by rw [hof.2]; exact List.mem_singleton.mpr rfl),
            hcarries⟩
        · exact Or.inr ⟨m', hm', hcarries⟩

/-! ## Calls on the rows -/

/-- A claim leases no row that the step has leased before. -/
theorem Sound.claim {w : Window} {rest : List Window} {jobs : List SubtitleJob} {db' : Db}
    (h : Sound env s) (hpos : s.position = .refill w rest)
    (hclaim : claimSubtitleJobs w.kind w.host env.inFlight env.now leaseSecs window s.db =
      some (jobs, db'))
    (hdb : s'.db = db') (hclaimed : s'.claimed = s.claimed ++ jobs) (hsent : s'.sent = s.sent)
    (hawaits : ∀ job ∈ jobs, w.Of job → s'.position.Awaits env s'.sent job)
    (hmembers : (∀ job ∈ jobs, w.Of job) → s'.position.Members s'.claimed) : Sound env s' := by
  have hjobs := claim_jobs hclaim
  obtain ⟨hcatalogue, hrows⟩ := claim_rows hclaim
  have hof : ∀ job ∈ jobs, w.Of job := fun job hjob => ⟨(hjobs job hjob).1, (hjobs job hjob).2.1⟩
  have hleased := h.leased (by simp [hpos])
  have hfresh : ∀ old ∈ s.claimed, ∀ job ∈ jobs, job.key ≠ old.key := by
    intro old hold job hjob hkey
    obtain ⟨-, -, -, row, hrow, hrowkey, hclaimable⟩ := hjobs job hjob
    obtain ⟨hstate, -, hlease⟩ := hleased old hold row hrow (hrowkey.trans hkey)
    have hwake := ((claimable_iff row).mp hclaimable).2
    rw [Job.wake, if_pos hstate] at hwake
    omega
  constructor
  · intro _ job hjob row hrow hkey
    rw [hclaimed] at hjob
    rw [hdb] at hrow
    rcases hrows row hrow with ⟨hold, hother⟩ | ⟨⟨new, hnew, hnewkey⟩, hstate, hhost, hlease⟩
    · rcases List.mem_append.mp hjob with hjob | hjob
      · exact hleased job hjob row hold hkey
      · exact absurd hkey.symm (hother job hjob)
    · rcases List.mem_append.mp hjob with hjob | hjob
      · exact absurd (hnewkey.trans hkey) (hfresh job hjob new hnew)
      · refine ⟨hstate, by rw [hhost, (hof job hjob).2], ?_⟩
        rw [hlease, leaseSecs]
        omega
  · intro job hjob row hrow hkey hstate
    rw [hclaimed] at hjob
    rw [hdb] at hrow
    rcases List.mem_append.mp hjob with hjob | hjob
    · rcases hrows row hrow with ⟨hold, -⟩ | ⟨⟨new, hnew, hnewkey⟩, -⟩
      · have hcovered := h.covered job hjob row hold hkey hstate
        rw [hpos] at hcovered
        rw [hsent]
        exact Or.inl (hcovered.resolve_right id)
      · exact absurd (hnewkey.trans hkey) (hfresh job hjob new hnew)
    · exact Or.inr (hawaits job hjob (hof job hjob))
  · intro job hjob
    rw [hclaimed] at hjob
    have hsame : s'.db.current job.file = s.db.current job.file := by
      rw [Db.current, hdb, hcatalogue, Db.current]
    rw [hsame]
    rcases List.mem_append.mp hjob with hjob | hjob
    · exact h.current job hjob
    · exact (hjobs job hjob).2.2.1
  · exact hmembers hof

theorem sound_refill {w : Window} {rest : List Window} {outcome : Outcome} (h : Sound env s)
    (hpos : s.position = .refill w rest) (hs : s.next env outcome = some s') : Sound env s' := by
  unfold Run.next at hs
  rw [hpos] at hs
  cases outcome with
  | fail =>
    cases hs
    refine h.quiet (by simp [hpos]) rfl rfl (List.Subset.refl _) (fun job _ hawait => ?_) trivial
    rw [hpos] at hawait
    exact hawait.elim
  | ok =>
    dsimp only at hs
    split at hs
    · cases hs
    · rename_i db' hclaim
      cases hs
      exact h.claim hpos hclaim rfl (List.append_nil _).symm rfl (by simp) fun _ => trivial
    · rename_i jobs db' hne hclaim
      cases hs
      refine h.claim hpos hclaim rfl rfl rfl (fun job hjob hof => ⟨hof, Or.inl ?_⟩) fun hof job hjob => ?_
      · rw [List.zipIdx_map_fst]
        exact hjob
      · rw [List.zipIdx_map_fst] at hjob
        exact ⟨List.mem_append_right _ hjob, hof job hjob⟩

theorem sound_settle {w : Window} {rest : List Window} {job : SubtitleJob}
    {todo : List (SubtitleJob × ℕ)} {batches : Batches} {settled : ℕ} {outcome : Outcome}
    (h : Sound env s) (hpos : s.position = .settle w rest job todo batches settled)
    (hok : Followed env s outcome) (hs : s.next env outcome = some s') : Sound env s' := by
  have hmembers := h.members
  unfold Run.next at hs
  unfold Followed at hok
  rw [hpos] at hs hok hmembers
  cases outcome with
  | fail => exact hok.elim
  | ok =>
    cases hs
    obtain ⟨hjob, hof⟩ := hmembers job List.mem_cons_self
    have hdb : reconcileSubtitleJob job.file w.kind false s.db =
        { s.db with jobs := s.db.jobs.erase job.key } := by
      simp [reconcileSubtitleJob, h.current job hjob, SubtitleJob.key, hof.1]
    rw [hdb]
    constructor
    · intro _ other hother row hrow hkey
      exact h.leased (by simp [hpos]) other hother row (Table.mem_erase.mp hrow).1 hkey
    · intro other hother row hrow hkey hstate
      obtain ⟨hold, hne⟩ := Table.mem_erase.mp hrow
      rcases h.covered other hother row hold hkey hstate with hhanded | hawait
      · exact Or.inl hhanded
      · rw [hpos] at hawait
        obtain ⟨hotherof, rfl | hin | hbatched⟩ := hawait
        · exact absurd hkey hne
        · exact Or.inr ⟨hotherof, Or.inl hin⟩
        · exact Or.inr ⟨hotherof, Or.inr hbatched⟩
    · exact h.current
    · exact fun other hother => hmembers other (List.mem_cons_of_mem _ hother)

theorem sound_release {w : Window} {outcome : Outcome} (h : Sound env s)
    (hpos : s.position = .release w) (hok : Followed env s outcome)
    (hs : s.next env outcome = some s') : Sound env s' := by
  unfold Run.next at hs
  unfold Followed at hok
  rw [hpos] at hs hok
  cases outcome with
  | fail => exact hok.elim
  | ok =>
    cases hs
    constructor
    · intro hrun
      exact absurd rfl (hrun _)
    · intro job hjob row hrow hkey hstate
      have hrow' : row ∈ (s.db.update (fun j => j.host = some w.host && j.state = .running)
          Job.release fun _ => rfl).jobs := hrow
      obtain ⟨old, hold, rfl⟩ := mem_update.mp hrow'
      split at hstate
      · cases hstate
      · rename_i hkept
        rw [if_neg hkept] at hkey
        rcases h.covered job hjob old hold hkey hstate with hhanded | hawait
        · exact Or.inl hhanded
        · rw [hpos] at hawait
          obtain ⟨-, hhost, -⟩ := h.leased (by simp [hpos]) job hjob old hold hkey
          exact absurd (by simp [hhost, hawait.2, hstate]) hkept
    · exact h.current
    · trivial

theorem sound_next {outcome : Outcome} (h : Sound env s) (hok : Followed env s outcome)
    (hs : s.next env outcome = some s') : Sound env s' := by
  cases hpos : s.position with
  | look windows => exact sound_look h hpos hs
  | refill w rest => exact sound_refill h hpos hs
  | inspect w rest todo batches settled => exact sound_inspect h hpos hok hs
  | settle w rest job todo batches settled => exact sound_settle h hpos hok hs
  | send w rest todo settled => exact sound_send h hpos hs
  | release w => exact sound_release h hpos hok hs
  | done result =>
    unfold Run.next at hs
    rw [hpos] at hs
    cases hs

theorem sound_of_reaches {db : Db} (h : (machine env db).Reaches (Followed env) s) : Sound env s := by
  refine h.invariant ?_ fun ha hok he => sound_next ha hok he
  constructor
  · intro _ job hjob
    cases hjob
  · intro job hjob
    cases hjob
  · intro job hjob
    cases hjob
  · trivial

/-- Where no call between a claim and its message fails but the sending, a job that
    the step has claimed and left leased was handed to its host. -/
theorem handed_of_leased {db : Db} {result : Except Fault Step}
    (h : (machine env db).Reaches (Followed env) s) (hdone : s.position = .done result) :
    ∀ job ∈ s.claimed, (∃ row ∈ s.db.jobs, row.key = job.key ∧ row.state = .running) →
      Handed env s.sent job := by
  rintro job hjob ⟨row, hrow, hkey, hstate⟩
  rcases (sound_of_reaches h).covered job hjob row hrow hkey hstate with hhanded | hawait
  · exact hhanded
  · rw [hdone] at hawait
    exact hawait.elim

/-! ## An unreadable cache -/

/-- Two films with a text track each; the cache of the films for which `broken` holds
    cannot be read, and has nothing for the other. -/
def twoFilms (broken : Text → Bool) : Env where
  now := 1000
  hosts := [lit "host"]
  supportsImageSubs _ := false
  inFlight := []
  media _ := ⟨[lit "srt"], []⟩
  revision _ := lit "v"
  sidecarRevision _ := lit "v"
  tryExists file := if broken file.pathRel then .error (lit "permission denied") else .ok false

/-- The queue with a row for each of the two. -/
def twoFilmsDb : Db :=
  commitCatalogue (oneCollection (films 2)) ((List.range 2).map fun i => ((filmRow i).id, true)) emptyDb

/-- The position at which a step has returned. -/
def Position.result? : Position → Option (Except Fault Step)
  | .done result => some result
  | _ => none

theorem Position.eq_done {p : Position} {result : Except Fault Step} (h : p.result? = some result) :
    p = .done result := by
  cases p <;> simp_all [Position.result?]

/-- The condition `Followed`, evaluated. -/
def followed (env : Env) (s : Run) (outcome : Outcome) : Bool :=
  match s.position with
  | .inspect w _ ((job, _) :: _) _ _ => (env.items w.kind job.file).toOption.isSome
  | _ => outcome = .ok

theorem Followed.of_followed {outcome : Outcome} (h : followed env s outcome = true) :
    Followed env s outcome := by
  unfold Followed
  split
  · rename_i w _ job _ _ _ _ hpos
    rw [followed, hpos] at h
    cases hitems : env.items w.kind job.file with
    | error e => simp [hitems, Except.toOption] at h
    | ok items => exact ⟨items, rfl⟩
  · rename_i hpos
    rw [followed, hpos] at h
    cases h
  · rename_i hpos
    rw [followed, hpos] at h
    cases h
  · trivial

/-- A step on two films, the cache being readable: look, claim, inspect both, send,
    and return. -/
theorem handed_of_leased_twoFilms :
    ∃ s, (machine (twoFilms fun _ => false) twoFilmsDb).Reaches
        (Followed (twoFilms fun _ => false)) s ∧ s.claimed.length = 2 ∧ ∀ job ∈ s.claimed,
        (∃ row ∈ s.db.jobs, row.key = job.key ∧ row.state = .running) →
        Handed (twoFilms fun _ => false) s.sent job := by
  let env := twoFilms fun _ => false
  have hrun : ((machine env twoFilmsDb).replay (followed env) (List.replicate 8 .ok)
      (machine env twoFilmsDb).start).any (fun s =>
        s.position.result?.isSome && s.claimed.length = 2) = true := by
    decide
  obtain ⟨s, hs, hend⟩ := (Option.any_eq_true _ _).mp hrun
  simp only [Bool.and_eq_true, decide_eq_true_eq] at hend
  obtain ⟨result, hresult⟩ := Option.isSome_iff_exists.mp hend.1
  have hreach := (Machine.reaches_of_replay hs).mono fun _ _ => Followed.of_followed
  exact ⟨s, hreach, hend.2, handed_of_leased hreach (Position.eq_done hresult)⟩

/-- The cache of the film that is claimed first cannot be read. The step returns with
    the other film leased too, and has asked the host for neither. -/
theorem phantom_lease :
    ∃ s, (machine (twoFilms fun path => path = (filmRow 1).path) twoFilmsDb).Reachable s ∧
      s.position.result?.isSome ∧ ∃ job ∈ s.claimed, job.file.fileId = (filmRow 0).id ∧
        (∃ row ∈ s.db.jobs, row.key = job.key ∧ row.state = .running) ∧
        ¬Handed (twoFilms fun path => path = (filmRow 1).path) s.sent job := by
  let env := twoFilms fun path => path = (filmRow 1).path
  have hrun : ((machine env twoFilmsDb).replay (fun _ _ => true) (List.replicate 3 .ok)
      (machine env twoFilmsDb).start).any (fun s =>
        s.position.result?.isSome && s.sent.isEmpty && s.claimed.any fun job =>
          job.file.fileId = (filmRow 0).id && s.db.jobs.rows.any fun row =>
            row.key = job.key && row.state = .running) = true := by
    decide
  obtain ⟨s, hs, hend⟩ := (Option.any_eq_true _ _).mp hrun
  simp only [Bool.and_eq_true, List.any_eq_true, decide_eq_true_eq, List.isEmpty_iff] at hend
  obtain ⟨⟨hresult, hsent⟩, job, hjob, hfile, row, hrow, hkey, hstate⟩ := hend
  have hreach := (Machine.reaches_of_replay hs).reachable
  refine ⟨s, hreach, hresult, job, hjob, hfile, ⟨row, hrow, hkey, hstate⟩, ?_⟩
  rintro ⟨items, -, hne, hall⟩
  obtain ⟨item, hitem⟩ := List.exists_mem_of_ne_nil items hne
  obtain ⟨m, hm, -⟩ := hall item hitem
  rw [hsent] at hm
  cases hm

end Kahawai.Hub.SubtitleWork
