import Kahawai.Lib.Tickets
import Kahawai.Web.Settings.Page

/-!
# The settings page converges

For every key, the writes that wait for the hub were computed one from the other, the
first from what the hub holds, up to edits that it has refused, and the page shows the
last one (`KeyOk`). This is kept by every step but an answer that overwrites the values
with others than these.

* `settings_converge`: in a run without such an answer, a page with nothing in flight
  shows what the hub holds, and every accepted write was computed from what it replaces,
  up to edits that the hub had refused.
* `late_read_loses_edit`: an answer from before a write lands after it.
-/

namespace Kahawai.Web.Settings

open Kahawai.Core Kahawai.Lib

variable {unicode : Unicode} {rows : List Preference} {s s' : System} {w : Writer}
  {held held' current value key key' : Text} {refused refused' : List (Text × Text)} {p : Pending}
  {ps : List Pending}

/-- A value that refused edits lead to from what the hub holds. -/
inductive Derived (refused : List (Text × Text)) (held : Text) : Text → Prop
  | held : Derived refused held held
  | edit (base value : Text) (h : Derived refused held base) (hmem : (base, value) ∈ refused) :
      Derived refused held value

theorem Derived.mono (h : Derived refused held value) (hsub : refused ⊆ refused') :
    Derived refused' held value := by
  induction h with
  | held => exact .held
  | edit base value _ hmem ih => exact .edit base value ih (hsub hmem)

/-- Where nothing was refused. -/
theorem Derived.eq_held (h : Derived [] held value) : value = held := by
  cases h with
  | held => rfl
  | edit _ _ _ hmem => cases hmem

/-- Each write was computed from the one before it, and the last one is shown. -/
def Linked (current : Text) : (Text → Prop) → List Pending → Prop
  | start, [] => start current
  | start, p :: ps => start p.base ∧ Linked current (· = p.value) ps

theorem Linked.mono {start start' : Text → Prop} (h : Linked current start ps)
    (hsub : ∀ value, start value → start' value) : Linked current start' ps := by
  cases ps with
  | nil => exact hsub _ h
  | cons p ps => exact ⟨hsub _ h.1, h.2⟩

/-- A write is computed from what is shown. -/
theorem Linked.append {start : Text → Prop} (h : Linked current start ps) (hp : p.base = current) :
    Linked p.value start (ps ++ [p]) := by
  induction ps generalizing start with
  | nil => exact ⟨hp ▸ h, rfl⟩
  | cons q ps ih => exact ⟨h.1, ih h.2⟩

/-- What is shown while a write waits. -/
theorem Linked.getLast {start : Text → Prop} (h : Linked current start ps)
    (hlast : ps.getLast? = some p) : current = p.value := by
  induction ps generalizing start with
  | nil => cases hlast
  | cons q ps ih =>
    cases ps with
    | nil =>
      cases hlast
      exact h.2
    | cons r ps => exact ih h.2 (List.getLast?_cons_cons ▸ hlast)

/-- The writes that wait for the hub. -/
def Writer.waiting (w : Writer) : List Pending := w.queue.filter (·.status = .waiting)

/-- A key: what is shown, what the hub holds, and what is on the way between. -/
structure KeyOk (refused : List (Text × Text)) (held current : Text) (w : Writer) : Prop where
  inflight : w.inflight = w.queue.length
  numbered : ∃ n, w.savedSeq ≤ n ∧ Numbered Pending.mine w.seq n w.queue
  rest : ∀ p ps, w.queue = p :: ps → ∀ q ∈ ps, q.status = .waiting
  linked : Linked current (Derived refused held) w.waiting
  shows : w.queue = [] → current = held
  saved : ∀ p ps, w.queue = p :: ps → p.status ≠ .accepted → w.saved = held
  accepted : ∀ p ps, w.queue = p :: ps → p.status = .accepted →
    p.value = held ∧ (ps = [] → current = held)

theorem filter_waiting (h : ∀ q ∈ ps, q.status = .waiting) :
    ps.filter (·.status = .waiting) = ps :=
  List.filter_eq_self.mpr fun q hq => decide_eq_true (h q hq)

/-- The writes behind the first all wait. -/
theorem KeyOk.waiting_cons (h : KeyOk refused held current w) (hqueue : w.queue = p :: ps) :
    w.waiting = if p.status = .waiting then p :: ps else ps := by
  rw [Writer.waiting, hqueue, List.filter_cons, filter_waiting (h.rest p ps hqueue)]
  by_cases hp : p.status = .waiting <;> simp [hp]

theorem KeyOk.expected (h : KeyOk refused held current w)
    (hvalue : value = match w.waiting.getLast? with
      | some p => p.value
      | none => held) : KeyOk refused held value w := by
  cases hlast : w.waiting.getLast? with
  | some p =>
    rw [hlast] at hvalue
    have hsame : value = current := hvalue.trans (h.linked.getLast hlast).symm
    exact hsame ▸ h
  | none =>
    rw [hlast] at hvalue
    have hsame : value = held := hvalue
    have hnil : w.waiting = [] := List.getLast?_eq_none_iff.mp hlast
    subst hsame
    refine ⟨h.inflight, h.numbered, h.rest, ?_, fun _ => rfl, h.saved, fun p ps hqueue hp => ?_⟩
    · rw [hnil]
      exact .held
    · exact ⟨(h.accepted p ps hqueue hp).1, fun _ => rfl⟩

/-- An edit of the key. -/
theorem KeyOk.put (h : KeyOk refused held current w) (next : Text) :
    KeyOk refused held next (w.put current next) := by
  obtain ⟨n, hle, hnumbered⟩ := h.numbered
  have hqueue : (w.put current next).queue = w.queue ++ [⟨w.seq + 1, current, next, .waiting⟩] := rfl
  have hwaiting : (w.put current next).waiting =
      w.waiting ++ [⟨w.seq + 1, current, next, .waiting⟩] := by
    unfold Writer.waiting
    rw [hqueue, List.filter_append]
    rfl
  refine ⟨?_, ⟨n, hle, hnumbered.append rfl⟩, fun p ps hcons q hq => ?_, ?_, fun hnil => ?_,
    fun p ps hcons hp => ?_, fun p ps hcons hp => ?_⟩
  · rw [hqueue, List.length_append, List.length_singleton]
    exact congrArg (· + 1) h.inflight
  · rw [hqueue] at hcons
    cases hold : w.queue with
    | nil =>
      rw [hold] at hcons
      cases hcons
      cases hq
    | cons old olds =>
      rw [hold] at hcons
      cases hcons
      rcases List.mem_append.mp hq with hq | hq
      · exact h.rest p olds hold q hq
      · rw [List.mem_singleton.mp hq]
  · have happend : Linked next (Derived refused held)
        (w.waiting ++ [⟨w.seq + 1, current, next, .waiting⟩]) :=
      Linked.append (p := ⟨w.seq + 1, current, next, .waiting⟩) h.linked rfl
    rw [hwaiting]
    exact happend
  · rw [hqueue] at hnil
    exact absurd hnil (List.append_ne_nil_of_right_ne_nil _ (List.cons_ne_nil _ _))
  · rw [hqueue] at hcons
    unfold Writer.put
    dsimp only
    cases hold : w.queue with
    | nil =>
      have hzero : w.inflight = 0 := by
        rw [h.inflight, hold]
        rfl
      rw [if_pos hzero]
      exact h.shows hold
    | cons old olds =>
      have hout : ¬ w.inflight = 0 := by
        rw [h.inflight, hold]
        exact Nat.succ_ne_zero _
      rw [if_neg hout]
      rw [hold] at hcons
      cases hcons
      exact h.saved p olds hold hp
  · rw [hqueue] at hcons
    cases hold : w.queue with
    | nil =>
      rw [hold] at hcons
      cases hcons
      cases hp
    | cons old olds =>
      rw [hold] at hcons
      cases hcons
      exact ⟨(h.accepted p olds hold hp).1, fun hnil =>
        absurd hnil (List.append_ne_nil_of_right_ne_nil _ (List.cons_ne_nil _ _))⟩

theorem setHead_queue (hqueue : w.queue = p :: ps) (status : Status) :
    (w.setHead status).queue = { p with status := status } :: ps ∧
      (w.setHead status).seq = w.seq ∧ (w.setHead status).inflight = w.inflight ∧
      (w.setHead status).saved = w.saved ∧ (w.setHead status).savedSeq = w.savedSeq := by
  unfold Writer.setHead
  rw [hqueue]
  exact ⟨rfl, rfl, rfl, rfl, rfl⟩

/-- The hub has handled the first write, and its outcome is what the others follow. -/
theorem KeyOk.handled (h : KeyOk refused held current w) (hqueue : w.queue = p :: ps)
    (hp : p.status = .waiting) {status : Status} (hstatus : status ≠ .waiting)
    (hderived : Derived refused' held' p.value)
    (hsaved : status ≠ .accepted → held' = held) (haccepted : status = .accepted → held' = p.value) :
    KeyOk refused' held' current (w.setHead status) := by
  obtain ⟨hhead, hseq, hinflight, hsame, hsavedSeq⟩ := setHead_queue hqueue status
  obtain ⟨n, hle, hnumbered⟩ := h.numbered
  have hlinked := h.linked
  rw [h.waiting_cons hqueue, if_pos hp] at hlinked
  rw [hqueue] at hnumbered
  have hwaiting : (w.setHead status).waiting = ps := by
    rw [Writer.waiting, hhead, List.filter_cons, filter_waiting (h.rest p ps hqueue)]
    simp [hstatus]
  refine ⟨?_, ⟨n, hsavedSeq ▸ hle, ?_⟩, fun q qs hcons => ?_, ?_, fun hnil => ?_,
    fun q qs hcons hq => ?_, fun q qs hcons hq => ?_⟩
  · rw [hinflight, hhead, h.inflight, hqueue]
    rfl
  · rw [hseq, hhead]
    exact hnumbered
  · rw [hhead] at hcons
    cases hcons
    exact h.rest p ps hqueue
  · rw [hwaiting]
    refine hlinked.2.mono fun value hvalue => ?_
    have heq : value = p.value := hvalue
    rw [heq]
    exact hderived
  · rw [hhead] at hnil
    cases hnil
  · rw [hhead] at hcons
    cases hcons
    rw [hsame, hsaved hq]
    refine h.saved p ps hqueue fun heq => ?_
    cases hp.symm.trans heq
  · rw [hhead] at hcons
    cases hcons
    refine ⟨(haccepted hq).symm, fun hnil => ?_⟩
    rw [hnil] at hlinked
    exact hlinked.2.trans (haccepted hq).symm

/-- A write that was handled settles. -/
theorem KeyOk.settle (h : KeyOk refused held current w) (hqueue : w.queue = p :: ps)
    (hp : p.status ≠ .waiting) :
    KeyOk refused held ((w.settle p).2.getD current) (w.settle p).1 := by
  obtain ⟨n, hle, hnumbered⟩ := h.numbered
  rw [hqueue] at hnumbered
  have hlast := hnumbered.head_eq_last_iff
  obtain ⟨hmine, hnumbered⟩ := hnumbered
  have hlinked := h.linked
  rw [h.waiting_cons hqueue, if_neg hp] at hlinked
  have hlength : w.inflight - 1 = ps.length := by
    rw [h.inflight, hqueue]
    rfl
  have hrest := h.rest p ps hqueue
  have hnext : ∀ {q qs}, ps = q :: qs → ∀ r ∈ qs, r.status = .waiting := by
    rintro q qs rfl r hr
    exact hrest r (List.mem_cons_of_mem _ hr)
  have hnot : ∀ {q qs}, ps = q :: qs → q.status ≠ .accepted := by
    rintro q qs rfl heq
    cases (hrest q List.mem_cons_self).symm.trans heq
  cases hstatus : p.status with
  | waiting => exact absurd hstatus hp
  | accepted =>
    obtain ⟨hvalue, hshows⟩ := h.accepted p ps hqueue hstatus
    have hlt : p.mine > w.savedSeq := by omega
    have hsettle : w.settle p = ({ w with
        queue := ps
        inflight := w.inflight - 1
        savedSeq := p.mine
        saved := p.value }, none) := by
      unfold Writer.settle
      rw [hqueue, hstatus]
      dsimp only [List.tail_cons]
      rw [if_pos hlt]
    rw [hsettle]
    refine ⟨hlength, ⟨n + 1, ?_, hnumbered⟩, fun _ _ => hnext, ?_, hshows, fun _ _ _ _ => hvalue,
      fun q qs hcons hq => absurd hq (hnot hcons)⟩
    · exact hmine ▸ Nat.le_refl _
    · rw [Writer.waiting, filter_waiting hrest]
      exact hlinked
  | refused =>
    have hsaved := h.saved p ps hqueue fun heq => by cases hstatus.symm.trans heq
    have hsettle : w.settle p = ({ w with
        queue := ps
        inflight := w.inflight - 1 }, if ps = [] then some held else none) := by
      unfold Writer.settle
      rw [hqueue, hstatus]
      dsimp only [List.tail_cons]
      rw [hsaved]
      by_cases hnil : ps = []
      · rw [if_pos hnil, if_pos (hlast.mpr hnil)]
      · rw [if_neg hnil, if_neg (mt hlast.mp hnil)]
    rw [hsettle]
    refine ⟨hlength, ⟨n + 1, hle.trans (Nat.le_succ n), hnumbered⟩, fun _ _ => hnext, ?_, fun hnil => ?_,
      fun _ _ _ _ => hsaved, fun q qs hcons hq => absurd hq (hnot hcons)⟩
    · rw [Writer.waiting, filter_waiting hrest]
      by_cases hnil : ps = []
      · rw [if_pos hnil, hnil]
        exact .held
      · rw [if_neg hnil]
        exact hlinked
    · have hempty : ps = [] := hnil
      rw [if_pos hempty]
      rfl

/-! ## The system -/

/-- The page shows nothing, and has no writes, before its first answer has landed. -/
structure Safe (s : System) : Prop where
  unread : s.landed = none → s.reads ≠ [] ∧ ∀ key, s.writers key = .new
  keys : s.landed.isSome → ∀ key, KeyOk (s.refused key) (s.held key) (s.shown key) (s.writers key)
  log : ∀ e ∈ s.log, Derived e.refused e.held e.base

theorem shown_setValue (s : System) (key value key' : Text) :
    (s.setValue key value).shown key' = if key' = key then value else s.shown key' := by
  unfold System.setValue System.shown
  dsimp only
  rw [Function.update_apply]
  split_ifs <;> rfl

/-- One key of a function of keys. -/
theorem keys_update {f : Text → Writer} {P : Text → Writer → Prop} (h : ∀ key, P key (f key))
    (hkey : P key w) (key' : Text) : P key' (Function.update f key w key') := by
  rw [Function.update_apply]
  split_ifs with heq
  · exact heq ▸ hkey
  · exact h key'

theorem Safe.edit {edit : Edit} (h : Safe s) (hs : s.edit unicode edit = some s') : Safe s' := by
  unfold System.edit at hs
  split_ifs at hs with hlanded
  obtain ⟨⟨key, next⟩, -, rfl⟩ := Option.map_eq_some_iff.mp hs
  refine ⟨fun hnone => ?_, fun _ key' => ?_, h.log⟩
  · rw [Option.isSome_iff_ne_none] at hlanded
    exact absurd hnone hlanded
  · have hold := h.keys hlanded key'
    have hshown : (s.put key next).shown key' = if key' = key then next else s.shown key' :=
      shown_setValue s key next key'
    have hwriter : (s.put key next).writers key' =
        if key' = key then (s.writers key).put (s.shown key) next else s.writers key' :=
      Function.update_apply _ _ _ _
    change KeyOk (s.refused key') (s.held key') ((s.put key next).shown key')
      ((s.put key next).writers key')
    rw [hshown, hwriter]
    split_ifs with heq
    · subst heq
      exact hold.put next
    · exact hold

/-- What the hub holds after a request. -/
theorem held_putPref {scope : Text} (h : putPref s.rows scope key value = some rows)
    (hrows : s'.rows = rows) (key' : Text) :
    s'.held key' = if scope = [] ∧ key' = key then value else s.held key' := by
  unfold System.held
  rw [hrows, known_putPref h]
  split_ifs with hkey hempty
  · exact hempty.symm
  · rfl
  · rfl

/-- A page with writes has landed. -/
theorem Safe.isSome (h : Safe s) (hqueue : (s.writers key).queue = p :: ps) : s.landed.isSome := by
  cases hlanded : s.landed with
  | some rows => rfl
  | none =>
    rw [(h.unread hlanded).2 key] at hqueue
    cases hqueue

theorem Safe.refuse (h : Safe s) (hqueue : (s.writers key).queue = p :: ps)
    (hp : p.status = .waiting) :
    Safe { s with
      writers := Function.update s.writers key ((s.writers key).setHead .refused)
      refused := Function.update s.refused key (s.refused key ++ [(p.base, p.value)]) } := by
  have hlanded := h.isSome hqueue
  refine ⟨fun hnone => ?_, fun _ key' => ?_, h.log⟩
  · rw [Option.isSome_iff_ne_none] at hlanded
    exact absurd hnone hlanded
  · have hold := h.keys hlanded
    have hkey := hold key
    have hlinked := hkey.linked
    rw [hkey.waiting_cons hqueue, if_pos hp] at hlinked
    change KeyOk (Function.update s.refused key _ key') (s.held key') (s.shown key')
      (Function.update s.writers key _ key')
    rw [Function.update_apply, Function.update_apply]
    split_ifs with heq
    · subst heq
      refine hkey.handled hqueue hp (fun heq => by cases heq) (.edit p.base p.value ?_ ?_)
        (fun _ => rfl) (fun heq => by cases heq)
      · exact hlinked.1.mono (List.subset_append_left _ _)
      · exact List.mem_append_right _ (List.mem_singleton_self _)
    · exact hold key'

theorem Safe.handle {ok : Bool} (h : Safe s) (hs : s.handle key ok = some s') : Safe s' := by
  unfold System.handle at hs
  split at hs
  · rename_i mine base value ps hqueue
    have hlanded := h.isSome hqueue
    split at hs
    · rename_i rows hput
      cases hs
      have hold := h.keys hlanded
      have hkey := hold key
      have hlinked := hkey.linked
      rw [hkey.waiting_cons hqueue, if_pos rfl] at hlinked
      refine ⟨fun hnone => ?_, fun _ key' => ?_, fun e he => ?_⟩
      · rw [Option.isSome_iff_ne_none] at hlanded
        exact absurd hnone hlanded
      · have hheld : ∀ {t : System}, t.rows = rows → t.held key' = if [] = [] ∧ key' = key then value
            else s.held key' := fun ht => held_putPref hput ht key'
        change KeyOk (s.refused key') _ (s.shown key') (Function.update s.writers key _ key')
        rw [hheld rfl, Function.update_apply]
        by_cases heq : key' = key
        · subst heq
          rw [if_pos ⟨rfl, rfl⟩, if_pos rfl]
          exact hkey.handled hqueue rfl (fun heq => by cases heq) .held (fun hne => absurd rfl hne)
            fun _ => rfl
        · rw [if_neg fun hboth => heq hboth.2, if_neg heq]
          exact hold key'
      · rcases List.mem_append.mp he with he | he
        · exact h.log e he
        · rw [List.mem_singleton.mp he]
          exact hlinked.1
    · cases hs
      exact h.refuse hqueue rfl
  · cases hs

theorem Safe.settle (h : Safe s) (hs : s.settle key = some s') : Safe s' := by
  unfold System.settle at hs
  split at hs
  · cases hs
  · cases hs
  · rename_i p ps hnot hqueue
    have hp : p.status ≠ .waiting := by
      obtain ⟨mine, base, value, status⟩ := p
      rintro rfl
      exact hnot mine base value rfl
    have hlanded := h.isSome hqueue
    have hold := h.keys hlanded
    have hkey := (hold key).settle hqueue hp
    have hsome : ∀ {t : System}, t.landed = s.landed → t.landed = none → False := by
      intro t ht hnone
      rw [ht.symm.trans hnone] at hlanded
      cases hlanded
    cases hsettle : (s.writers key).settle p with
    | mk w back =>
      rw [hsettle] at hs hkey
      dsimp only at hs
      cases back with
      | none =>
        cases hs
        refine ⟨fun hnone => (hsome rfl hnone).elim, fun _ key' => ?_, h.log⟩
        exact keys_update (P := fun key w => KeyOk (s.refused key) (s.held key) (s.shown key) w) hold
          hkey key'
      | some value =>
        cases hs
        refine ⟨fun hnone => (hsome rfl hnone).elim, fun _ key' => ?_, h.log⟩
        change KeyOk (s.refused key') (s.held key') ((s.setValue key value).shown key')
          (Function.update s.writers key w key')
        rw [shown_setValue, Function.update_apply]
        split_ifs with heq
        · subst heq
          exact hkey
        · exact hold key'

theorem Safe.land {k : ℕ} (h : Safe s) (hsound : s.Sound (.land k)) (hs : s.land k = some s') :
    Safe s' := by
  obtain ⟨read, hread, hs⟩ := Option.bind_eq_some_iff.mp hs
  obtain ⟨rows, hrows, hs⟩ := Option.bind_eq_some_iff.mp hs
  rw [hrows] at hread
  dsimp only at hs
  split_ifs at hs with hsame
  · cases hs
    refine ⟨fun hnone => ?_, h.keys, h.log⟩
    cases hsame.symm.trans hnone
  · cases hs
    refine ⟨fun hnone => (by cases hnone), fun _ key => ?_, h.log⟩
    have hexpected := hsound rows hread hsame key
    change KeyOk (s.refused key) (s.held key) ((known rows key).getD []) (s.writers key)
    cases hlanded : s.landed with
    | some old => exact (h.keys (by rw [hlanded]; rfl) key).expected hexpected
    | none =>
      -- the first answer, on a page without writes
      have hnew := (h.unread hlanded).2 key
      rw [System.expected, hnew] at hexpected
      rw [hnew, hexpected]
      exact ⟨rfl, ⟨0, Nat.le_refl _, rfl⟩, fun _ _ hcons => (by cases hcons), .held, fun _ => rfl,
        fun _ _ hcons => (by cases hcons), fun _ _ hcons => (by cases hcons)⟩

theorem safe_step {event : Event} (h : Safe s) (hsound : s.Sound event)
    (hs : s.step unicode event = some s') : Safe s' := by
  cases event with
  | edit edit => exact h.edit hs
  | handle key ok => exact h.handle hs
  | settle key => exact h.settle hs
  | poll =>
    cases hs
    exact ⟨fun hnone => ⟨List.append_ne_nil_of_right_ne_nil _ (List.cons_ne_nil _ _),
      (h.unread hnone).2⟩, h.keys, h.log⟩
  | serve k =>
    unfold System.step at hs
    dsimp only at hs
    split at hs
    · cases hs
      refine ⟨fun hnone => ⟨fun hnil => (h.unread hnone).1 ?_, (h.unread hnone).2⟩, h.keys, h.log⟩
      rwa [List.set_eq_nil_iff] at hnil
    · cases hs
  | land k => exact h.land hsound hs
  | remember scope key value =>
    unfold System.step at hs
    dsimp only at hs
    split_ifs at hs with hscope
    obtain ⟨rows, hput, rfl⟩ := Option.map_eq_some_iff.mp hs
    refine ⟨h.unread, fun hlanded key' => ?_, h.log⟩
    have hheld : ∀ {t : System}, t.rows = rows → t.held key' = s.held key' := by
      intro t ht
      rw [held_putPref hput ht, if_neg fun hboth => hscope hboth.1]
    change KeyOk (s.refused key') _ (s.shown key') (s.writers key')
    rw [hheld rfl]
    exact h.keys hlanded key'

/-- The page converges, and loses no edit. -/
theorem settings_converge (h : (machine unicode rows).Reaches (fun s event => s.Sound event) s) :
    ((∀ key, (s.writers key).queue = []) → s.reads = [] → ∀ key, s.shown key = s.held key) ∧
      ∀ e ∈ s.log, Derived e.refused e.held e.base := by
  have hsafe : Safe s := by
    refine h.invariant ⟨fun _ => ⟨List.cons_ne_nil _ _, fun _ => rfl⟩, fun hlanded => ?_, fun e he => ?_⟩
      fun ha hok he => safe_step ha hok he
    · cases hlanded
    · cases he
  refine ⟨fun hqueue hreads key => ?_, hsafe.log⟩
  have hlanded : s.landed.isSome := by
    cases hlanded : s.landed with
    | some rows => rfl
    | none => exact absurd hreads (hsafe.unread hlanded).1
  exact (hsafe.keys hlanded key).shows (hqueue key)

/-- A language is added to the subtitles of films, and the hub accepts it. -/
def addsLanguage (typed : Text) : List Event :=
  [.edit (.add .subs (lit "movies") typed), .handle (lit "subs.movies") true,
    .settle (lit "subs.movies")]

/-- The rows of an account that wants English subtitles. -/
def wantsEnglish : List Preference := [⟨[], lit "subs.movies", lit "en"⟩]

/-- Events that read nothing and edit this list only. -/
def onFilms : Event → Bool
  | .edit (.add .subs mediaType _) => mediaType = lit "movies"
  | .edit _ | .land _ => false
  | _ => true

/-- A page on which two languages were added. -/
theorem settings_converge_added : ∃ s,
    (machine .ascii wantsEnglish).Reaches (fun s event => s.Sound event) s ∧
      ((∀ key, (s.writers key).queue = []) → s.reads = [] → ∀ key, s.shown key = s.held key) ∧
        s.shown (lit "subs.movies") = lit "en,de,fr" := by
  have hstart : (machine .ascii wantsEnglish).Reaches (fun s event => s.Sound event)
      (machine .ascii wantsEnglish).start := .start
  have hserve : (machine .ascii wantsEnglish).start.Sound (.serve 0) := trivial
  have hserved := hstart.next hserve rfl
  have hland : ∀ {t : System}, t.reads = [some wantsEnglish] → t.rows = wantsEnglish →
      t.writers = (fun _ => .new) → t.Sound (.land 0) := by
    intro t hreads hrows hwriters rows hread _ key
    rw [hreads] at hread
    cases hread
    rw [System.expected, hwriters, System.held, hrows]
    rfl
  have hopened := hserved.next (e := .land 0) (hland rfl rfl rfl) rfl
  have hrun : ((machine .ascii wantsEnglish).replay (fun _ e => onFilms e)
      (addsLanguage (lit "de") ++ addsLanguage (lit "fr"))
      { (machine .ascii wantsEnglish).start with
        reads := []
        landed := some wantsEnglish
        values := known wantsEnglish }).any
          (fun s => s.shown (lit "subs.movies") = lit "en,de,fr") = true := by
    decide
  obtain ⟨s, hs, hend⟩ := (Option.any_eq_true _ _).mp hrun
  have hreach := hopened.trans (Relation.ReflTransGen.mono (fun _ _ ⟨e, he, hnext⟩ => ⟨e, by
    cases e with
    | land k => cases he
    | _ => trivial, hnext⟩) _ _ (Machine.steps_of_replay _ hs))
  exact ⟨s, hreach, (settings_converge hreach).1, of_decide_eq_true hend⟩

/-- Where only this list is edited, the other keys have no writes. -/
theorem writers_new (h : (machine unicode rows).Reaches (fun _ e => onFilms e || e matches .land _) s)
    (hkey : key ≠ lit "subs.movies") : s.writers key = .new := by
  refine h.invariant (I := fun s => s.writers key = .new) rfl fun {a} {e} {b} ha hok hs => ?_
  change a.step unicode e = some b at hs
  have hother : ∀ {key' : Text} {w : Writer}, key' ≠ key →
      Function.update a.writers key' w key = .new := by
    intro key' w hne
    rw [Function.update_of_ne hne.symm]
    exact ha
  cases e with
  | edit edit =>
    unfold System.step System.edit at hs
    dsimp only at hs
    split_ifs at hs with hlanded
    obtain ⟨⟨key', next⟩, hnext, rfl⟩ := Option.map_eq_some_iff.mp hs
    refine hother fun heq => hkey ?_
    cases edit with
    | add kind mediaType typed =>
      cases kind with
      | audio => cases hok
      | subs =>
        have hmovies : mediaType = lit "movies" := by simpa [onFilms] using hok
        unfold System.next at hnext
        dsimp only at hnext
        split_ifs at hnext with hskip
        cases hnext
        rw [← heq, hmovies]
        rfl
    | _ => cases hok
  | handle key' ok =>
    unfold System.step System.handle at hs
    dsimp only at hs
    split at hs
    · rename_i mine base value ps hqueue
      have hne : key' ≠ key := by
        rintro rfl
        rw [ha] at hqueue
        cases hqueue
      split at hs <;> cases hs <;> exact hother hne
    · cases hs
  | settle key' =>
    unfold System.step System.settle at hs
    dsimp only at hs
    split at hs
    · cases hs
    · cases hs
    · rename_i p ps hnot hqueue
      have hne : key' ≠ key := by
        rintro rfl
        rw [ha] at hqueue
        cases hqueue
      cases hs
      split <;> exact hother hne
  | poll =>
    cases hs
    exact ha
  | serve k =>
    unfold System.step at hs
    dsimp only at hs
    split at hs
    · cases hs
      exact ha
    · cases hs
  | land k =>
    obtain ⟨read, hread, hs⟩ := Option.bind_eq_some_iff.mp hs
    obtain ⟨rows, hrows, hs⟩ := Option.bind_eq_some_iff.mp hs
    dsimp only at hs
    split_ifs at hs <;> cases hs <;> exact ha
  | remember scope key' value =>
    unfold System.step at hs
    dsimp only at hs
    split_ifs at hs with hscope
    obtain ⟨rows, hput, rfl⟩ := Option.map_eq_some_iff.mp hs
    exact ha

/-- A read is answered before `fr` is added, and lands before that is accepted. -/
def readsLate : List Event :=
  [.serve 0, .land 0] ++ addsLanguage (lit "de") ++
    [.poll, .serve 0, .edit (.add .subs (lit "movies") (lit "fr")), .land 0,
      .handle (lit "subs.movies") true, .settle (lit "subs.movies")]

/-- The page drops `fr` from what it shows and keeps it so; `nl` is then added to that, and
    the hub accepts a list from which `fr` is gone. -/
theorem late_read_loses_edit : ∃ s, (machine .ascii wantsEnglish).Reachable s ∧
    (∀ key, (s.writers key).queue = []) ∧ s.reads = [] ∧
      s.shown (lit "subs.movies") ≠ s.held (lit "subs.movies") ∧
        ∃ s', (machine .ascii wantsEnglish).Steps (fun _ _ => True) s s' ∧
          ∃ e ∈ s'.log, ¬ Derived e.refused e.held e.base := by
  have hrun : ((machine .ascii wantsEnglish).replay (fun _ e => onFilms e || e matches .land _)
      readsLate (machine .ascii wantsEnglish).start).any (fun s =>
        (s.writers (lit "subs.movies")).queue = [] && s.reads = [] &&
          s.shown (lit "subs.movies") ≠ s.held (lit "subs.movies") &&
            ((machine .ascii wantsEnglish).replay (fun _ _ => true) (addsLanguage (lit "nl")) s).any
              (fun s' => s'.log.any fun e => e.refused = [] && e.base ≠ e.held)) = true := by
    decide
  obtain ⟨s, hs, hend⟩ := (Option.any_eq_true _ _).mp hrun
  simp only [Bool.and_eq_true, decide_eq_true_eq] at hend
  obtain ⟨⟨⟨hqueue, hreads⟩, hshown⟩, hlater⟩ := hend
  obtain ⟨s', hs', hlost⟩ := (Option.any_eq_true _ _).mp hlater
  obtain ⟨e, he, hlost⟩ := List.any_eq_true.mp hlost
  simp only [Bool.and_eq_true, decide_eq_true_eq] at hlost
  have hreach := Machine.reaches_of_replay hs
  refine ⟨s, hreach.reachable, fun key => ?_, hreads, hshown, s', ?_, e, he, fun hderived => ?_⟩
  · by_cases hkey : key = lit "subs.movies"
    · rw [hkey]
      exact hqueue
    · rw [writers_new hreach hkey]
      rfl
  · exact Relation.ReflTransGen.mono (fun _ _ ⟨e, _, hnext⟩ => ⟨e, trivial, hnext⟩) _ _
      (Machine.steps_of_replay _ hs')
  · rw [hlost.1] at hderived
    exact hlost.2 hderived.eq_held

end Kahawai.Web.Settings
