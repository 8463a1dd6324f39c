import Kahawai.Hub.Leases.Answer

/-!
# The invariant of a lease

Between two blocks the channels are empty and the peer is idle (`Quiet`). Inside
a block the chunks on their way are the rest of the answer to the one request of
the task that holds the lock (`Pending`), and the answer ends with the end chunk
unless the peer is closed. A task that returns is between two blocks or facing
a closed peer, whether its consumer stayed or not.

`inv_readerNext`, `inv_peerNext` and `inv_consumerNext` are the step lemmas of
the three parties, and `inv_reachable` is the result for runs.
-/

namespace Kahawai.Hub.Leases

open Kahawai.Lib

variable {src : Source} {wire : Wire} {i stop : ℕ}

/-! ## The invariant -/

/-- The items are the bytes `[a, p)` of the file, asked for by the call `i`. -/
structure Delivered (src : Source) (i : ℕ) (items : List Item) (a p : ℕ) : Prop where
  bytes : payload items = src.slice a p
  data : ∀ item ∈ items, ∃ data, item = .bytes (some i) data

/-- All the bytes of the call were sent, or a part of them and then an error. -/
def Complete (src : Source) (i : ℕ) (c : Call) : Prop :=
  Delivered src i c.items c.offset c.stop ∨
    ∃ items msg p, c.items = items ++ [.error msg] ∧ p ≤ c.stop ∧
      Delivered src i items c.offset p

/-- The item is an error or was asked for by the call `i`. -/
def Item.OwnedBy (i : ℕ) (item : Item) : Prop :=
  ∀ call data, item = .bytes call data → call = some i

/-- What holds of a call, whoever holds the lock. -/
structure CallSound (src : Source) (i : ℕ) (c : Call) : Prop where
  small : c.stop < 2 ^ 64
  owned : ∀ item ∈ c.items, item.OwnedBy i
  waiting : c.phase = .waiting → c.items = []
  finished : c.phase = .finished → c.gone = false → Complete src i c
  ended : c.ended = true → c.phase = .finished ∧ c.out = []

/-- The task is in a block that begins at `cur`. -/
structure InBlock (cur stop block served : ℕ) : Prop where
  more : cur < stop
  size_eq : block = min blockSize (stop - cur)
  served_le : served ≤ block

/-- What the consumer was sent, by where the task is; nothing is said about the
    consumer once it is gone. -/
def Progress (src : Source) (r : Reader) (c : Call) : Prop :=
  match r.stage with
  | .blocks => r.cur ≤ c.stop ∧
      (c.gone = false → Delivered src r.call c.items c.offset r.cur)
  | .chunks block served => InBlock r.cur c.stop block served ∧
      (c.gone = false → Delivered src r.call c.items c.offset (r.cur + served))
  | .sending block served chunk => InBlock r.cur c.stop block served ∧ chunk.call = some r.call ∧
      (c.gone = false → Delivered src r.call (c.items ++ [.bytes chunk.call chunk.msg.data])
        c.offset (r.cur + served))
  | .failing _ => c.gone = false → ∃ p ≤ c.stop, Delivered src r.call c.items c.offset p

/-- Nothing is on its way but the error of a peer that did not open the file. -/
structure Quiet (s : State) : Prop where
  peer : ∀ call cur stop, s.peer ≠ .serving call cur stop
  idle : s.peer ≠ .closed → s.requests = [] ∧ s.chunks = []
  closed : s.peer = .closed → s.chunks = [] ∨
    ∃ msg, msg ≠ "" ∧ s.chunks = [⟨none, errorChunk 0 msg⟩]

/-- The request for `[cur, cur + block)` of the call `i` is on its way, or the
    rest of the answer to it. -/
def Pending (src : Source) (s : State) (i cur block served : ℕ) : Prop :=
  ((s.peer = .opening ∨ s.peer = .idle) ∧ s.requests = [⟨some i, ⟨cur, block⟩⟩] ∧
      s.chunks = [] ∧ served = 0) ∨
    ((s.peer = .closed ∨ s.requests = []) ∧
      Answer src i (min (cur + block) src.size) s.peer (min (cur + served) src.size) s.chunks)

/-- What is on its way, by where the task that holds the lock is. -/
def Flow (src : Source) (s : State) : Prop :=
  match s.holder with
  | none => Quiet s
  | some r =>
    match r.stage with
    | .chunks block served | .sending block served _ => Pending src s r.call r.cur block served
    | .blocks | .failing _ => Quiet s

structure Inv (src : Source) (s : State) : Prop where
  calls : ∀ i c, s.calls[i]? = some c → CallSound src i c
  lock : ∀ i c, s.calls[i]? = some c → c.phase = .reading → ∃ r, s.holder = some r ∧ r.call = i
  holder : ∀ r, s.holder = some r → ∃ c, s.calls[r.call]? = some c ∧ c.phase = .reading ∧
    c.offset ≤ r.cur ∧ (r.consumerGone = true → c.gone = true) ∧ Progress src r c
  flow : Flow src s

theorem inv_new : Inv src State.new where
  calls := by simp [State.new]
  lock := by simp [State.new]
  holder := by simp [State.new]
  flow := ⟨by simp [State.new], fun _ => ⟨rfl, rfl⟩, by simp [State.new]⟩

/-! ## Changing one call -/

variable {s s' : State} {r r' : Reader} {c c' : Call}

/-- The task that holds the lock goes on. -/
theorem Inv.advance (h : Inv src s) (hr : s.holder = some r) (hc : s.calls[r.call]? = some c)
    (hcalls : s'.calls = s.calls.set r.call c') (hr' : s'.holder = some r')
    (hcall : r'.call = r.call) (hphase : c'.phase = .reading) (hsound : CallSound src r.call c')
    (hcur : c'.offset ≤ r'.cur) (hgone : r'.consumerGone = true → c'.gone = true)
    (hprogress : Progress src r' c') (hflow : Flow src s') : Inv src s' := by
  have hlt : r.call < s.calls.length := (List.getElem?_eq_some_iff.mp hc).1
  have hget : s'.calls[r.call]? = some c' := by
    rw [hcalls]
    exact List.getElem?_set_self hlt
  have hother : ∀ i, i ≠ r.call → s'.calls[i]? = s.calls[i]? := fun i hi => by
    rw [hcalls]
    exact List.getElem?_set_ne (Ne.symm hi)
  refine ⟨fun i d hd => ?_, fun i d hd hreading => ?_, fun t ht => ?_, hflow⟩
  · by_cases hi : i = r.call
    · subst hi
      rw [hget] at hd
      cases hd
      exact hsound
    · exact h.calls i d (hother i hi ▸ hd)
  · refine ⟨r', hr', hcall.trans ?_⟩
    by_contra hne
    obtain ⟨t, ht, hti⟩ := h.lock i d (hother i (Ne.symm hne) ▸ hd) hreading
    rw [hr] at ht
    cases ht
    exact hne hti
  · rw [hr'] at ht
    cases ht
    exact ⟨c', hcall ▸ hget, hphase, hcur, hgone, hprogress⟩

/-- The task that holds the lock returns. -/
theorem Inv.finish (h : Inv src s) (hr : s.holder = some r) (hc : s.calls[r.call]? = some c)
    (hcalls : s'.calls = s.calls.set r.call c') (hr' : s'.holder = none)
    (hphase : c'.phase = .finished) (hsound : CallSound src r.call c') (hquiet : Quiet s') :
    Inv src s' := by
  have hlt : r.call < s.calls.length := (List.getElem?_eq_some_iff.mp hc).1
  have hget : s'.calls[r.call]? = some c' := by
    rw [hcalls]
    exact List.getElem?_set_self hlt
  have hother : ∀ i, i ≠ r.call → s'.calls[i]? = s.calls[i]? := fun i hi => by
    rw [hcalls]
    exact List.getElem?_set_ne (Ne.symm hi)
  refine ⟨fun i d hd => ?_, fun i d hd hreading => ?_, fun t ht => ?_, ?_⟩
  · by_cases hi : i = r.call
    · subst hi
      rw [hget] at hd
      cases hd
      exact hsound
    · exact h.calls i d (hother i hi ▸ hd)
  · exfalso
    by_cases hi : i = r.call
    · subst hi
      rw [hget] at hd
      cases hd
      rw [hphase] at hreading
      cases hreading
    · obtain ⟨t, ht, hti⟩ := h.lock i d (hother i hi ▸ hd) hreading
      rw [hr] at ht
      cases ht
      exact hi hti.symm
  · rw [hr'] at ht
    cases ht
  · rw [Flow, hr']
    exact hquiet

/-! ## What is delivered -/

theorem Delivered.push {items : List Item} {data : List UInt8} {a p q : ℕ}
    (h : Delivered src i items a p) (hap : a ≤ p) (hpq : p ≤ q) (hdata : data = src.slice p q) :
    Delivered src i (items ++ [.bytes (some i) data]) a q where
  bytes := by
    rw [payload_append, h.bytes, payload, payload, List.append_nil, hdata]
    exact slice_append hap hpq
  data := by
    intro item hitem
    rcases List.mem_append.mp hitem with hitem | hitem
    · exact h.data item hitem
    · exact ⟨data, List.mem_singleton.mp hitem⟩

theorem Delivered.congr {items : List Item} {a p q : ℕ} (h : Delivered src i items a p)
    (hpq : min p src.size = min q src.size) : Delivered src i items a q :=
  ⟨h.bytes.trans (slice_congr rfl hpq), h.data⟩

theorem Delivered.owned {items : List Item} {a p : ℕ} (h : Delivered src i items a p)
    {item : Item} (hitem : item ∈ items) : item.OwnedBy i := by
  rintro call data rfl
  obtain ⟨data', hdata⟩ := h.data _ hitem
  cases hdata
  rfl

/-- A reading task sends an item. -/
theorem CallSound.push (h : CallSound src i c) (hphase : c.phase = .reading) {item : Item}
    (hitem : item.OwnedBy i) : CallSound src i { c with out := c.out ++ [item] } where
  small := h.small
  owned := by
    intro item' hitem'
    rw [Call.items, ← List.append_assoc] at hitem'
    rcases List.mem_append.mp hitem' with hitem' | hitem'
    · exact h.owned item' hitem'
    · exact List.mem_singleton.mp hitem' ▸ hitem
  waiting := fun hw => by
    rw [hphase] at hw
    cases hw
  finished := fun hf => by
    rw [hphase] at hf
    cases hf
  ended := fun he => by
    have hdone := (h.ended he).1
    rw [hphase] at hdone
    cases hdone

/-- A reading task returns. -/
theorem CallSound.finish (h : CallSound src i c) (hphase : c.phase = .reading)
    (hcomplete : c.gone = false → Complete src i c) :
    CallSound src i { c with phase := .finished } where
  small := h.small
  owned := h.owned
  waiting := fun hw => by cases hw
  finished := fun _ => hcomplete
  ended := fun he => by
    have hdone := (h.ended he).1
    rw [hphase] at hdone
    cases hdone

/-- What the invariant says of the task that holds the lock and of its call. -/
structure Holds (src : Source) (s : State) (r : Reader) (c : Call) : Prop where
  inv : Inv src s
  holder : s.holder = some r
  call : s.calls[r.call]? = some c
  phase : c.phase = .reading
  offset_le : c.offset ≤ r.cur
  gone : r.consumerGone = true → c.gone = true
  progress : Progress src r c

theorem Inv.holds (h : Inv src s) (hr : s.holder = some r) (hc : s.calls[r.call]? = some c) :
    Holds src s r c := by
  obtain ⟨c', hc', hphase, hle, hgone, hprogress⟩ := h.holder r hr
  rw [hc] at hc'
  cases hc'
  exact ⟨h, hr, hc, hphase, hle, hgone, hprogress⟩

theorem Holds.sound (h : Holds src s r c) : CallSound src r.call c := h.inv.calls _ _ h.call

/-- The task goes to another place and its call stays as it is. -/
theorem Holds.goTo (h : Holds src s r c) (hcalls : s'.calls = s.calls)
    (hr' : s'.holder = some r') (hcall : r'.call = r.call) (hcur : r.cur ≤ r'.cur)
    (hgone : r'.consumerGone = true → c.gone = true) (hprogress : Progress src r' c)
    (hflow : Flow src s') : Inv src s' := by
  have hsame : s'.calls = s.calls.set r.call c := by
    obtain ⟨hlt, hget⟩ := List.getElem?_eq_some_iff.mp h.call
    rw [hcalls, ← hget, List.set_getElem_self]
  exact h.inv.advance h.holder h.call hsame hr' hcall h.phase h.sound (h.offset_le.trans hcur)
    hgone hprogress hflow

/-- The task returns and its call stays as it is. -/
theorem Holds.finish (h : Holds src s r c) (hcalls : s'.calls = s.calls)
    (hcall : r'.call = r.call) (hquiet : Quiet s')
    (hcomplete : c.gone = false → Complete src r.call c) : Inv src (s'.finish r' c) := by
  have hset : (s'.finish r' c).calls = s.calls.set r.call { c with phase := .finished } := by
    rw [State.finish, State.setCall, hcalls, hcall]
  exact h.inv.finish h.holder h.call hset rfl rfl (h.sound.finish h.phase hcomplete)
    ⟨hquiet.peer, hquiet.idle, hquiet.closed⟩

/-- The block the task is in has a chunk on its way, so its answer has begun. -/
theorem Pending.answer {block served cur : ℕ} {chunk : Sent ByteChunk}
    {rest : List (Sent ByteChunk)} (h : Pending src s i cur block served)
    (hchunks : s.chunks = chunk :: rest) : (s.peer = .closed ∨ s.requests = []) ∧
      Answer src i (min (cur + block) src.size) s.peer (min (cur + served) src.size)
        (chunk :: rest) := by
  rcases h with ⟨_, _, hnone, _⟩ | ⟨hrequests, hanswer⟩
  · rw [hchunks] at hnone
    cases hnone
  · exact ⟨hrequests, hchunks ▸ hanswer⟩

/-- The peer moves: the calls and the lock are as before. -/
theorem Inv.peer (h : Inv src s) (hcalls : s'.calls = s.calls) (hholder : s'.holder = s.holder)
    (hquiet : Quiet s → Quiet s')
    (hpending : ∀ i cur block served, cur + block < 2 ^ 64 →
      Pending src s i cur block served → Pending src s' i cur block served) : Inv src s' where
  calls := fun i c hc => h.calls i c (hcalls ▸ hc)
  lock := fun i c hc => hholder ▸ h.lock i c (hcalls ▸ hc)
  holder := fun r hr => by
    rw [hcalls]
    exact h.holder r (hholder ▸ hr)
  flow := by
    have hflow := h.flow
    unfold Flow at hflow ⊢
    rw [hholder]
    cases hr : s.holder with
    | none =>
      rw [hr] at hflow
      exact hquiet hflow
    | some r =>
      rw [hr] at hflow
      obtain ⟨c, hc, -, -, -, hprogress⟩ := h.holder r hr
      have hsmall := (h.calls _ c hc).small
      have hbound : ∀ block served, InBlock r.cur c.stop block served →
          r.cur + block < 2 ^ 64 := fun block served hblock => by
        have hsize := hblock.size_eq
        have hmore := hblock.more
        omega
      unfold Progress at hprogress
      cases hstage : r.stage with
      | blocks | failing msg =>
        simp only [hstage] at hflow ⊢
        exact hquiet hflow
      | chunks block served | sending block served chunk =>
        simp only [hstage] at hflow hprogress ⊢
        exact hpending _ _ _ _ (hbound _ _ hprogress.1) hflow

/-- The consumer of a call moves: what was sent to it is as before. -/
theorem Progress.congr (h : Progress src r c) (hoffset : c'.offset = c.offset)
    (hlen : c'.len = c.len) (hitems : c'.items = c.items)
    (hgone : c'.gone = false → c.gone = false) : Progress src r c' := by
  have hstop : c'.stop = c.stop := by rw [Call.stop, Call.stop, hoffset, hlen]
  unfold Progress at h ⊢
  rw [hoffset, hitems, hstop]
  cases hstage : r.stage with
  | blocks =>
    simp only [hstage] at h ⊢
    exact ⟨h.1, fun hstays => h.2 (hgone hstays)⟩
  | chunks block served =>
    simp only [hstage] at h ⊢
    exact ⟨h.1, fun hstays => h.2 (hgone hstays)⟩
  | sending block served chunk =>
    simp only [hstage] at h ⊢
    exact ⟨h.1, h.2.1, fun hstays => h.2.2 (hgone hstays)⟩
  | failing msg =>
    simp only [hstage] at h ⊢
    exact fun hstays => h (hgone hstays)

/-- What is on its way does not depend on the calls. -/
theorem Flow.setCalls (h : Flow src s) (calls : List Call) :
    Flow src { s with calls := calls } := by
  unfold Flow at h ⊢
  cases hr : s.holder with
  | none =>
    rw [hr] at h
    exact ⟨h.peer, h.idle, h.closed⟩
  | some r =>
    rw [hr] at h
    cases hstage : r.stage with
    | blocks | failing msg =>
      simp only [hstage] at h ⊢
      exact ⟨h.peer, h.idle, h.closed⟩
    | chunks block served | sending block served chunk =>
      simp only [hstage] at h ⊢
      exact h

theorem Inv.consumer (h : Inv src s) (hc : s.calls[i]? = some c) (hphase : c'.phase = c.phase)
    (hoffset : c'.offset = c.offset) (hlen : c'.len = c.len) (hitems : c'.items = c.items)
    (hgone : c'.gone = false → c.gone = false)
    (hended : c'.ended = true → c'.phase = .finished ∧ c'.out = []) : Inv src (s.setCall i c') := by
  have hlt : i < s.calls.length := (List.getElem?_eq_some_iff.mp hc).1
  have hget : (s.setCall i c').calls[i]? = some c' := List.getElem?_set_self hlt
  have hother : ∀ j, j ≠ i → (s.setCall i c').calls[j]? = s.calls[j]? := fun j hj =>
    List.getElem?_set_ne (Ne.symm hj)
  have hstop : c'.stop = c.stop := by rw [Call.stop, Call.stop, hoffset, hlen]
  have hsound := h.calls i c hc
  refine ⟨fun j d hd => ?_, fun j d hd hreading => ?_, fun r hr => ?_, h.flow.setCalls _⟩
  · by_cases hj : j = i
    · subst hj
      rw [hget] at hd
      cases hd
      refine ⟨hstop ▸ hsound.small, fun item => hitems ▸ hsound.owned item,
        fun hw => hitems.trans (hsound.waiting (hphase.symm.trans hw)), fun hf hstays => ?_,
        hended⟩
      have hcomplete := hsound.finished (hphase.symm.trans hf) (hgone hstays)
      rw [Complete, hitems, hoffset, hstop]
      exact hcomplete
    · exact h.calls j d (hother j hj ▸ hd)
  · by_cases hj : j = i
    · subst hj
      rw [hget] at hd
      cases hd
      exact h.lock j c hc (hphase.symm.trans hreading)
    · exact h.lock j d (hother j hj ▸ hd) hreading
  · obtain ⟨d, hd, hreading, hle, hd', hprogress⟩ := h.holder r hr
    by_cases hj : r.call = i
    · rw [hj, hc] at hd
      cases hd
      refine ⟨c', hj ▸ hget, hphase.trans hreading, hoffset ▸ hle, fun hrgone => ?_,
        hprogress.congr hoffset hlen hitems hgone⟩
      by_contra hstays
      have hcgone := hgone (by simpa using hstays)
      rw [hd' hrgone] at hcgone
      cases hcgone
    · exact ⟨d, (hother _ hj).trans hd, hreading, hle, hd', hprogress⟩

end Kahawai.Hub.Leases
