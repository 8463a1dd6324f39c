import Kahawai.Web.Grants.Versions

/-!
# What a panel shows

The overlay of a panel is there only while a write is out or a re-read is awaited, and
the last read of a panel was started after its last write had settled (`Fresh`).

* `grants_informed`: in a run whose clicks are sound, every write that the hub accepts
  was computed from chips that contain every earlier change, and a panel with nothing in
  flight shows the hub's grants, up to changes that others made after its last read.
* `silent_overwrite`: a refused panel clicks while its re-read has landed and not yet
  resolved, and overwrites what it has never shown.
-/

namespace Kahawai.Web.Grants

open Kahawai.Lib

variable {base i j k : ℕ} {p p' : Panel} {s s' : System} {account : Account}

/-- The changes of panel `i` are among those of the row. -/
def Own (base : ℕ) (s : System) (i : ℕ) (row : GrantRow) : Prop :=
  ∀ (j : ℕ) (c : Change), s.log[j]? = some c → c.panel = some i → base + j < row.grantsVersion

/-- The last read that the panel has started is newer than its last write. -/
def Current (base : ℕ) (s : System) (i : ℕ) (p : Panel) : Prop :=
  ∀ k, k + 1 = p.reads.length →
    (∀ r row, p.reads[k]? = some r → r.state = .served (some row) → Own base s i row) ∧
      (p.landed = some k → ∀ row, p.row = some row → Own base s i row)

structure Fresh (base : ℕ) (s : System) (i : ℕ) (p : Panel) : Prop where
  released : p.overlay.isSome → p.queue ≠ [] ∨ ∃ r ∈ p.reads, r.awaited = true
  landed : ∀ k, p.landed = some k → k < p.reads.length
  served : ∀ r ∈ p.reads, r.state = .served none → s.user = none
  gone : ∀ k, p.landed = some k → p.row = none → s.user = none
  current : p.queue = [] → Current base s i p

/-- The hub makes no change of a panel with nothing out. -/
theorem Fresh.system (h : Fresh base s i p) (hgone : s.user = none → s'.user = none)
    (hlog : s'.log = s.log ∨ ∃ c, s'.log = s.log ++ [c] ∧ (c.panel ≠ some i ∨ p.queue ≠ [])) :
    Fresh base s' i p := by
  refine ⟨h.released, h.landed, fun r hr hs => hgone (h.served r hr hs),
    fun k hk hrow => hgone (h.gone k hk hrow), fun hqueue k hk => ?_⟩
  have hown : ∀ {row}, Own base s i row → Own base s' i row := by
    intro row hrow j c hj hc
    rcases hlog with hlog | ⟨d, hlog, hd⟩
    · exact hrow j c (hlog ▸ hj) hc
    · rw [hlog] at hj
      rcases getElem?_append_cases hj with ⟨-, rfl⟩ | hold
      · exact absurd hc (hd.resolve_right fun hne => hne hqueue)
      · exact hrow j c hold hc
  obtain ⟨hserved, hlanded⟩ := h.current hqueue k hk
  exact ⟨fun r row hr hs => hown (hserved r row hr hs), fun hk row hrow => hown (hlanded hk row hrow)⟩

/-- A panel with a write out. -/
theorem Fresh.out (h : Fresh base s i p) (hlanded : p'.landed = p.landed) (hrow : p'.row = p.row)
    (hreads : p'.reads = p.reads) (hqueue : p'.queue ≠ []) : Fresh base s i p' := by
  refine ⟨fun _ => Or.inl hqueue, ?_, ?_, ?_, fun hnil => absurd hnil hqueue⟩
  · rw [hlanded, hreads]
    exact h.landed
  · rw [hreads]
    exact h.served
  · rw [hlanded, hrow]
    exact h.gone

/-- A read is started. -/
theorem Fresh.start (h : Fresh base s i p) (awaited : Bool) (hlanded : p'.landed = p.landed)
    (hrow : p'.row = p.row) (hreads : p'.reads = p.reads ++ [⟨.started, awaited⟩])
    (hoverlay : p'.overlay.isSome → p'.queue ≠ [] ∨ ∃ r ∈ p'.reads, r.awaited = true) :
    Fresh base s i p' := by
  refine ⟨hoverlay, fun k hk => ?_, fun r hr hs => ?_, ?_, fun _ k hk => ⟨fun r row hr hs => ?_, ?_⟩⟩
  · rw [hreads, List.length_append]
    exact Nat.lt_add_right _ (h.landed k (hlanded ▸ hk))
  · rw [hreads] at hr
    rcases List.mem_append.mp hr with hr | hr
    · exact h.served r hr hs
    · rw [List.mem_singleton.mp hr] at hs
      cases hs
  · rw [hlanded, hrow]
    exact h.gone
  · rw [hreads, List.length_append, List.length_singleton] at hk
    have hnewest : k = p.reads.length := by omega
    rw [hreads, hnewest, List.getElem?_concat_length] at hr
    cases hr
    cases hs
  · intro hk'
    have hlt := h.landed k (hlanded ▸ hk')
    rw [hreads, List.length_append, List.length_singleton] at hk
    omega

/-- A read goes on, and the overlay stays or goes. -/
theorem Fresh.read (h : Fresh base s i p) (hlt : k < p.reads.length) {r : Read}
    (hreads : p'.reads = p.reads.set k r) (hqueue : p'.queue = p.queue)
    (hreleased : p'.overlay.isSome → p'.queue ≠ [] ∨ ∃ r ∈ p'.reads, r.awaited = true)
    (hserved : r.state = .served none → s.user = none)
    (hlanded : p'.landed = some k ∨ p'.landed = p.landed ∧ p'.row = p.row)
    (hgone : p'.landed = some k → p'.row = none → s.user = none)
    (hown : ∀ row, r.state = .served (some row) → Own base s i row)
    (hrow : p.queue = [] → k + 1 = p.reads.length → p'.landed = some k → ∀ row, p'.row = some row →
      Own base s i row) : Fresh base s i p' := by
  have hlength : p'.reads.length = p.reads.length := by rw [hreads, List.length_set]
  refine ⟨hreleased, fun m hm => ?_, fun q hq hs => ?_, fun m hm hnone => ?_, fun hnil m hm => ?_⟩
  · rw [hlength]
    rcases hlanded with hk | ⟨hsame, -⟩
    · cases hk.symm.trans hm
      exact hlt
    · exact h.landed m (hsame ▸ hm)
  · rw [hreads] at hq
    rcases mem_set_cases hq with rfl | ⟨j, -, hj⟩
    · exact hserved hs
    · exact h.served q (List.mem_of_getElem? hj) hs
  · rcases hlanded with hk | ⟨hsame, hsame'⟩
    · exact hgone hk hnone
    · exact h.gone m (hsame ▸ hm) (hsame' ▸ hnone)
  · rw [hqueue] at hnil
    rw [hlength] at hm
    obtain ⟨hold, hold'⟩ := h.current hnil m hm
    refine ⟨fun q row hq hs => ?_, fun hm' row hr => ?_⟩
    · rw [hreads] at hq
      rcases getElem?_set_cases hq with ⟨-, rfl⟩ | ⟨-, hq⟩
      · exact hown row hs
      · exact hold q row hq hs
    · rcases hlanded with hk | ⟨hsame, hsame'⟩
      · cases hk.symm.trans hm'
        exact hrow hnil hm hk row hr
      · exact hold' (hsame ▸ hm') row (hsame' ▸ hr)

/-! ## The steps -/

def FreshAll (base : ℕ) (s : System) : Prop :=
  ∀ (i : ℕ) (p : Panel), s.panels[i]? = some p → Fresh base s i p

theorem FreshAll.setPanel (h : FreshAll base s) (hp : Fresh base s i p) :
    FreshAll base (s.setPanel i p) := by
  intro j q hj
  rcases getElem?_set_cases hj with ⟨rfl, rfl⟩ | ⟨-, hold⟩
  · exact hp.system id (Or.inl rfl)
  · exact (h j q hold).system id (Or.inl rfl)

theorem setHead_queue {first : Pending} {rest : List Pending} (hqueue : p.queue = first :: rest)
    (status : Status) : (p.setHead status).queue ≠ [] ∧ (p.setHead status).landed = p.landed ∧
      (p.setHead status).row = p.row ∧ (p.setHead status).reads = p.reads := by
  unfold Panel.setHead
  rw [hqueue]
  exact ⟨List.cons_ne_nil _ _, rfl, rfl, rfl⟩

theorem Fresh.setHead {first : Pending} {rest : List Pending} (h : Fresh base s i p)
    (hqueue : p.queue = first :: rest) (status : Status) : Fresh base s i (p.setHead status) := by
  obtain ⟨hne, hlanded, hrow, hreads⟩ := setHead_queue hqueue status
  exact h.out hlanded hrow hreads hne

theorem FreshAll.click {click : Click} (h : FreshAll base s) (hs : s.click i click = some s') :
    FreshAll base s' := by
  obtain ⟨p, hi, hs⟩ := Option.bind_eq_some_iff.mp hs
  obtain ⟨user, -, hs⟩ := Option.bind_eq_some_iff.mp hs
  cases hs
  have hset : Fresh base s i
      (p.set s.next (p.asShown user) (click.apply (p.asShown user).shown.access)) :=
    (h i p hi).out rfl rfl rfl (List.append_ne_nil_of_right_ne_nil _ (List.cons_ne_nil _ _))
  exact fun j q hj => (h.setPanel hset j q hj).system id (Or.inl rfl)

theorem FreshAll.send (h : FreshAll base s) (hs : s.send i = some s') : FreshAll base s' := by
  obtain ⟨p, hi, hs⟩ := Option.bind_eq_some_iff.mp hs
  obtain ⟨w, -, hs⟩ := Option.bind_eq_some_iff.mp hs
  split at hs
  · rename_i hqueue
    cases hs
    exact h.setPanel ((h i p hi).setHead hqueue _)
  · cases hs

theorem FreshAll.lose (h : FreshAll base s) (hs : s.lose i = some s') : FreshAll base s' := by
  obtain ⟨p, hi, hs⟩ := Option.bind_eq_some_iff.mp hs
  split at hs
  · rename_i hqueue
    cases hs
    exact h.setPanel ((h i p hi).setHead hqueue _)
  · rename_i hqueue
    cases hs
    exact h.setPanel ((h i p hi).setHead hqueue _)
  · cases hs

theorem FreshAll.handle {existing : List String} (h : FreshAll base s)
    (hs : s.handle i existing = some s') : FreshAll base s' := by
  obtain ⟨p, hi, hs⟩ := Option.bind_eq_some_iff.mp hs
  split at hs
  · rename_i id mine access seen expected rest hqueue
    split at hs
    · rename_i account version libraries hset
      cases hs
      obtain ⟨old, hold, -⟩ := setCatalogueAccess_applied hset
      have hgone : s.user = none → (some account : Option Account) = none := fun hnone => by
        cases hold.symm.trans hnone
      have hnext : FreshAll base { s with
          user := some account
          log := s.log ++ [⟨id, some i, seen⟩] } := by
        intro j q hj
        refine (h j q hj).system hgone (Or.inr ⟨_, rfl, ?_⟩)
        by_cases hij : i = j
        · subst hij
          cases hi.symm.trans hj
          exact Or.inr (by rw [hqueue]; exact List.cons_ne_nil _ _)
        · exact Or.inl fun heq => hij (Option.some.inj heq)
      exact hnext.setPanel ((hnext i p hi).setHead hqueue _)
    · cases hs
      exact h.setPanel ((h i p hi).setHead hqueue _)
  · cases hs

/-- A write settles; the last one starts a re-read and awaits it. -/
theorem FreshAll.settle (h : FreshAll base s) (hsafe : Safe base s) (hs : s.settle i = some s') :
    FreshAll base s' := by
  obtain ⟨p, hi, hs⟩ := Option.bind_eq_some_iff.mp hs
  obtain ⟨w, hw, hs⟩ := Option.bind_eq_some_iff.mp hs
  split at hs
  · rename_i id mine access seen answer rest hqueue
    cases hs
    refine h.setPanel ?_
    have hp := h i p hi
    have hok := (hsafe.panel hi).settle hw hqueue rfl
    have htail : (p.settle w mine answer).queue = rest := by
      unfold Panel.settle
      rw [hqueue]
      rfl
    have hinflight := (hok.write _ rfl).inflight
    rw [htail] at hinflight
    by_cases hlast : rest = []
    · have hzero : (w.answer mine answer).inflight - 1 = 0 := by
        rw [hlast] at hinflight
        exact hinflight
      have hreads : (p.settle w mine answer).reads = p.reads ++ [⟨.started, true⟩] := if_pos hzero
      refine hp.start true rfl rfl hreads fun _ => Or.inr ⟨⟨.started, true⟩, ?_, rfl⟩
      rw [hreads]
      exact List.mem_append_right _ (List.mem_singleton_self _)
    · have hout : ¬ (w.answer mine answer).inflight - 1 = 0 := by
        intro hzero
        have hlength : rest.length = 0 := hinflight.symm.trans hzero
        exact hlast (List.length_eq_zero_iff.mp hlength)
      exact hp.out rfl rfl (if_neg hout) (htail ▸ hlast)
  · cases hs

theorem FreshAll.poll (h : FreshAll base s) (hs : s.poll i = some s') : FreshAll base s' := by
  obtain ⟨p, hi, hs⟩ := Option.bind_eq_some_iff.mp hs
  cases hs
  have hp := h i p hi
  exact h.setPanel (hp.start false rfl rfl rfl fun hoverlay => (hp.released hoverlay).imp_right
    fun ⟨r, hr, hawaited⟩ => ⟨r, List.mem_append_left _ hr, hawaited⟩)

/-- An awaited read stays awaited while it goes on. -/
theorem awaited_set {reads : List Read} {r r' : Read} (hk : reads[k]? = some r)
    (hsame : r'.awaited = r.awaited) (h : ∃ q ∈ reads, q.awaited = true) :
    ∃ q ∈ reads.set k r', q.awaited = true := by
  obtain ⟨q, hq, hawaited⟩ := h
  rcases mem_set_or_eq (p := r') hk hq with hmem | rfl
  · exact ⟨q, hmem, hawaited⟩
  · exact ⟨r', mem_set_moved hk, hsame.trans hawaited⟩

theorem FreshAll.read {step : ReadStep} (h : FreshAll base s) (hsafe : Safe base s)
    (hs : s.read i k step = some s') : FreshAll base s' := by
  obtain ⟨p, hi, hs⟩ := Option.bind_eq_some_iff.mp hs
  obtain ⟨r, hk, hs⟩ := Option.bind_eq_some_iff.mp hs
  have hp := h i p hi
  have hmem := List.mem_of_getElem? hk
  have hlt := (List.getElem?_eq_some_iff.mp hk).1
  have hreleased : ∀ {r' : Read}, r'.awaited = r.awaited → p.overlay.isSome →
      p.queue ≠ [] ∨ ∃ q ∈ p.reads.set k r', q.awaited = true := fun hsame hoverlay =>
    (hp.released hoverlay).imp_right (awaited_set hk hsame)
  split at hs
  · cases hs
    refine h.setPanel (hp.read hlt rfl rfl (hreleased rfl) (fun hnone => ?_) (Or.inr ⟨rfl, rfl⟩)
      (hp.gone k) (fun row hrow => ?_) fun hnil hlast hlanded => (hp.current hnil k hlast).2 hlanded)
    · cases huser : s.user with
      | none => rfl
      | some account =>
        rw [huser] at hnone
        cases hnone
    · cases huser : s.user with
      | none =>
        rw [huser] at hrow
        cases hrow
      | some account =>
        -- the hub answers with every change
        rw [huser] at hrow
        cases hrow
        intro j c hj _
        have hversion : (s.answer account).grantsVersion = base + s.log.length :=
          hsafe.version account huser
        have hlength := (List.getElem?_eq_some_iff.mp hj).1
        omega
  · rename_i answer hstate _ _
    cases hs
    refine h.setPanel (hp.read hlt rfl rfl (hreleased rfl) (fun hnone => (by cases hnone)) (Or.inl rfl)
      (fun _ hnone => ?_) (fun row hrow => (by cases hrow)) fun hnil hlast _ row hrow => ?_)
    · have hanswer : answer = none := hnone
      exact hp.served r hmem (by rw [hstate, hanswer])
    · have hanswer : answer = some row := hrow
      exact (hp.current hnil k hlast).1 r row hk (by rw [hstate, hanswer])
  · cases hs
    exact h.setPanel (hp.read hlt rfl rfl (hreleased rfl) (fun hnone => (by cases hnone))
      (Or.inr ⟨rfl, rfl⟩) (hp.gone k) (fun row hrow => (by cases hrow))
      fun hnil hlast hlanded => (hp.current hnil k hlast).2 hlanded)
  · cases hs
    exact h.setPanel (hp.read hlt rfl rfl (hreleased rfl) (fun hnone => (by cases hnone))
      (Or.inr ⟨rfl, rfl⟩) (hp.gone k) (fun row hrow => (by cases hrow))
      fun hnil hlast hlanded => (hp.current hnil k hlast).2 hlanded)
  · split_ifs at hs
    cases hs
    refine h.setPanel (hp.read hlt rfl rfl (fun hoverlay => Or.inl fun hnil => ?_)
      (fun hnone => (by cases hnone)) (Or.inr ⟨rfl, rfl⟩) (hp.gone k) (fun row hrow => (by cases hrow))
      fun hnil hlast hlanded => (hp.current hnil k hlast).2 hlanded)
    -- the overlay is released unless a write is out again
    unfold Panel.resolve at hoverlay hnil
    dsimp only at hoverlay hnil
    cases hw : p.write with
    | none =>
      rw [hw] at hoverlay
      cases hoverlay
    | some w =>
      have hzero : w.inflight = 0 := by
        rw [((hsafe.panel hi).write w hw).inflight, hnil]
        rfl
      rw [hw, Option.map_some, Option.getD_some, if_pos hzero] at hoverlay
      cases hoverlay
  · cases hs

theorem freshAll_step {event : Event} (h : FreshAll base s) (hsafe : Safe base s)
    (hs : s.step event = some s') : FreshAll base s' := by
  cases event with
  | opens =>
    cases hs
    intro j q hj
    rcases getElem?_append_cases hj with ⟨-, rfl⟩ | hold
    · refine ⟨fun hoverlay => (by cases hoverlay), fun k hk => (by cases hk), fun r hr hs => ?_,
        fun k hk => (by cases hk), fun _ k hk => ⟨fun r row hr hs => ?_, fun hk' => (by cases hk')⟩⟩
      · rw [List.mem_singleton.mp hr] at hs
        cases hs
      · rw [List.mem_singleton.mp (List.mem_of_getElem? hr)] at hs
        cases hs
    · exact (h j q hold).system id (Or.inl rfl)
  | click i click => exact h.click hs
  | send i => exact h.send hs
  | handle i existing => exact h.handle hs
  | lose i => exact h.lose hs
  | settle i => exact h.settle hsafe hs
  | poll i => exact h.poll hs
  | read i k step => exact h.read hsafe hs
  | removeLibrary library =>
    unfold System.step System.removeLibrary at hs
    dsimp only at hs
    split at hs
    · rename_i account haccount
      split_ifs at hs
      cases hs
      refine fun j q hj => (h j q hj).system (fun hnone => ?_) (Or.inr ⟨_, rfl, Or.inl fun heq => ?_⟩)
      · cases haccount.symm.trans hnone
      · cases heq
    · cases hs
  | removeUser =>
    cases hs
    exact fun j q hj => (h j q hj).system (fun _ => rfl) (Or.inl rfl)

/-! ## Runs -/

/-- A panel with nothing in flight whose last read has landed. -/
def Panel.Quiet (p : Panel) : Prop :=
  p.queue = [] ∧ (∀ r ∈ p.reads, r.state = .done ∧ r.awaited = false) ∧
    ∃ k, p.landed = some k ∧ k + 1 = p.reads.length

/-- Two administrators do not overwrite each other's grants unseen. -/
theorem grants_informed
    (h : (machine account).Reaches (fun s event => s.sound event = true) s) :
    Informed s.log ∧ ∀ (i : ℕ) (p : Panel), s.panels[i]? = some p → p.Quiet →
      ∀ current, s.user = some current → ∃ user, p.row = some user ∧
        ((p.asShown user).shown.access = current.access ∨
          ∃ (j : ℕ) (c : Change), s.log[j]? = some c ∧
            user.grantsVersion ≤ account.grantsVersion + j ∧ c.panel ≠ some i) := by
  have hboth : Safe account.grantsVersion s ∧ FreshAll account.grantsVersion s := by
    refine Machine.Reaches.invariant
      (I := fun s => Safe account.grantsVersion s ∧ FreshAll account.grantsVersion s) h ⟨safe_of_reaches Machine.Reaches.start, fun i p hi => (by cases hi)⟩
      fun ha hok he => ⟨safe_step ha.1 hok he, freshAll_step ha.2 ha.1 he⟩
  obtain ⟨hsafe, hfresh⟩ := hboth
  refine ⟨hsafe.informed, fun i p hi hquiet current hcurrent => ?_⟩
  obtain ⟨hqueue, hreads, k, hk, hlast⟩ := hquiet
  have hp := hfresh i p hi
  have hoverlay : p.overlay = none := by
    cases hshown : p.overlay with
    | none => rfl
    | some shown =>
      rcases hp.released (by rw [hshown]; rfl) with hne | ⟨r, hr, hawaited⟩
      · exact absurd hqueue hne
      · cases hawaited.symm.trans (hreads r hr).2
  cases hrow : p.row with
  | none => cases hcurrent.symm.trans (hp.gone k hk hrow)
  | some user =>
    refine ⟨user, rfl, ?_⟩
    rw [Panel.asShown, hoverlay]
    have hok := (hsafe.panel hi).row user hrow
    have hversion := hsafe.version current hcurrent
    by_cases hsame : current.grantsVersion = user.grantsVersion
    · exact Or.inl (hok.access current hcurrent hsame)
    · -- the newest change is later than the row, and not the panel's own
      have hbound := hok.covers.1
      have hleast := hok.least
      have hlt : s.log.length - 1 < s.log.length := by omega
      have hnewest := List.getElem?_eq_getElem hlt
      refine Or.inr ⟨s.log.length - 1, _, hnewest, by omega, fun hown => ?_⟩
      have hearlier := (hp.current hqueue k hlast).2 hk user hrow _ _ hnewest hown
      omega

/-- Two panels show a user who may see nothing, and panel 1 grants `music`. -/
def grantsMusic : List Event :=
  [.opens, .opens, .read 0 0 .serve, .read 0 0 .land, .read 1 0 .serve, .read 1 0 .land,
    .click 1 (.toggleLibrary "music"), .send 1, .handle 1 ["music", "films"], .settle 1]

/-- Panel 0 grants `films`. -/
def grantsFilms : List Event :=
  [.click 0 (.toggleLibrary "films"), .send 0, .handle 0 ["music", "films"], .settle 0]

/-- A read of panel `i`, which a `set` awaits. -/
def rereads (i k : ℕ) : List Event :=
  [.read i k .serve, .read i k .land, .read i k .resolve]

/-- Panel 0 is refused, reads again and shows both. -/
theorem grants_informed_refused : ∃ s p,
    (machine ⟨⟨false, []⟩, 0⟩).Reaches (fun s event => s.sound event = true) s ∧
      Informed s.log ∧ s.panels[0]? = some p ∧ p.Quiet ∧
        p.row = some ⟨⟨⟨false, ["music", "films"]⟩, [0, 2]⟩, 2⟩ := by
  have hrun : ((machine ⟨⟨false, []⟩, 0⟩).replay System.sound
      (grantsMusic ++ rereads 1 1 ++ grantsFilms ++ rereads 0 1 ++ grantsFilms ++ rereads 0 2)
      (machine ⟨⟨false, []⟩, 0⟩).start).any (fun s => s.panels[0]? = some
        ⟨some ⟨⟨⟨false, ["music", "films"]⟩, [0, 2]⟩, 2⟩, some 2,
          some ⟨2, 0, 2, some ⟨⟨false, ["music", "films"]⟩, [0, 2]⟩, 2⟩, none, [],
          [⟨.done, false⟩, ⟨.done, false⟩, ⟨.done, false⟩]⟩) = true := by
    decide
  obtain ⟨s, hs, hend⟩ := (Option.any_eq_true _ _).mp hrun
  have hpanel := of_decide_eq_true hend
  have hreach := Machine.reaches_of_replay hs
  refine ⟨s, _, hreach, (grants_informed hreach).1, hpanel, ⟨rfl, ?_, 2, rfl, rfl⟩, rfl⟩
  decide

/-- Panel 0 clicks after the answer of its re-read has landed and before it resolves: the
    version is that of the new row, the chips are those of the overlay, and the grant of
    `music`, which it has never shown, is gone. -/
theorem silent_overwrite : ∃ s, (machine ⟨⟨false, []⟩, 0⟩).Reachable s ∧ ¬ Informed s.log ∧
    s.user = some ⟨⟨false, ["films"]⟩, 2⟩ := by
  have hrun : ((machine ⟨⟨false, []⟩, 0⟩).replay (fun _ _ => true)
      (grantsMusic ++ grantsFilms ++ [.read 0 1 .serve, .read 0 1 .land] ++ grantsFilms)
      (machine ⟨⟨false, []⟩, 0⟩).start).any (fun s =>
        s.log = [⟨0, some 1, []⟩, ⟨2, some 0, []⟩] && s.user = some ⟨⟨false, ["films"]⟩, 2⟩) = true := by
    decide
  obtain ⟨s, hs, hend⟩ := (Option.any_eq_true _ _).mp hrun
  simp only [Bool.and_eq_true, decide_eq_true_eq] at hend
  refine ⟨s, (Machine.reaches_of_replay hs).reachable, ?_, hend.2⟩
  rw [hend.1, Informed]
  decide

end Kahawai.Web.Grants
