import Kahawai.Lib.Processes
import Kahawai.Lib.Runs
import Kahawai.Playback.Placement

/-!
# The links of a transcoder

Model of the task of a transcoder's control link (`link` of
`crates/kahawai-hub/src/transcoder_link.rs`: registration and ack lines 79–124,
messages lines 143–163, teardown lines 313–328) and of the entries it keeps in the
registry (`connected`, `disconnected`, `set_transcoder_caps`, `clear_transcoder_caps`,
`register_tc_link`, `unregister_tc_link_if_current`, `set_link_rate` of
`registry.rs`). Any number of links of any number of transcoders are open at once, and
every access to a map is a step of its own. The channel of a link is its number: links
are numbered in the order in which they registered.

* `follows_newest_link`: where no clear of an old link's teardown comes after the newest
  link has set what it clears, the state of a transcoder follows its newest link.
* `late_teardown_silences_box`: between the check that the link is current and the
  clears, a new link registers; it loses its capabilities and is marked disconnected.
-/

namespace Kahawai.Hub.TranscoderLink

open Kahawai.Lib Kahawai.Playback.Placement

/-- `TcLink`. -/
structure TcLink where
  sender : ℕ
  protocolMinor : ℕ
  deriving DecidableEq

/-- What the maps of the registry hold for one transcoder: `tc_links`, the flag of its
    `connected` entry, `transcoder_caps`, `tc_load` and `tc_link_rate`. -/
structure Entry where
  tcLink : Option TcLink
  connected : Option Bool
  caps : Option BoxCaps
  load : Option ℕ
  linkRate : Option ℕ

namespace Entry

variable (e : Entry)

def registerTcLink (protocolMinor sender : ℕ) : Entry :=
  { e with tcLink := some ⟨sender, protocolMinor⟩ }

def markConnected : Entry := { e with connected := some true }

def disconnected : Entry := { e with connected := e.connected.map fun _ => false }

def isConnected : Bool := e.connected.getD false

def setTranscoderCaps (caps : BoxCaps) : Entry := { e with caps := some caps }

def clearTranscoderCaps : Entry := { e with caps := none }

def setLinkRate (bytesPerSec : ℕ) : Entry :=
  if bytesPerSec = 0 then e else { e with linkRate := some bytesPerSec }

/-- The test of `unregister_tc_link_if_current`. -/
def isCurrent (sender : ℕ) : Bool := e.tcLink.any (·.sender = sender)

/-- `with_fleet` offers the box to the ranker (lines 1376–1393). -/
def eligible : Bool := e.caps.isSome && e.tcLink.isSome

/-- A placement reserves the box. -/
def reserve : Entry := { e with load := some (e.load.getD 0 + 1) }

def tcSessionEnded : Entry := { e with load := e.load.map (· - 1) }

end Entry

/-- The next step of the task. `acked` tells the teardown after the loop from the one
    after a failed ack, which does not clear the capabilities. -/
inductive Position
  | connect
  | settle
  | ack
  | live
  | unregister (acked : Bool)
  | clearLoad (acked : Bool)
  | clearRate (acked : Bool)
  | clearCaps
  | disconnect
  | done
  deriving DecidableEq

/-- History: what has been set for the transcoder since a link of it registered, while
    that link was the registered one or by its own task. -/
structure Made where
  connected : Bool
  caps : Bool
  load : Bool
  linkRate : Bool
  deriving DecidableEq

/-- The task of a link. -/
structure Link where
  moduleId : String
  protocolMinor : ℕ
  position : Position
  made : Made
  deriving DecidableEq

/-- The link has not been taken off the registry by its own task. -/
def Link.open (link : Link) : Bool :=
  match link.position with
  | .connect | .settle | .ack | .live | .unregister _ => true
  | _ => false

structure System where
  registry : String → Entry
  links : List Link

/-- The entries of a transcoder change. -/
def System.update (s : System) (moduleId : String) (e : Entry) : System :=
  { s with registry := Function.update s.registry moduleId e }

/-- The task of the link that is registered for a transcoder. -/
def System.registered (s : System) (moduleId : String) : Option Link :=
  (s.registry moduleId).tcLink.bind fun tcLink => s.links[tcLink.sender]?

/-- What happens to the task of a link. -/
inductive Action
  | step
  | ackFails
  | capabilities (caps : BoxCaps)
  | paceReport (bytesPerSec : ℕ)
  /-- The stream ends, fails or misses its heartbeats. -/
  | ends

inductive Event
  /-- A `Hello` has arrived, and its link registers. -/
  | register (moduleId : String) (protocolMinor : ℕ)
  | task (i : ℕ) (action : Action)
  | place (moduleId : String)
  | sessionEnded (moduleId : String)

/-- A step of the task of link `i`: what it does to the entries of its transcoder, and
    the task afterwards. -/
def Link.step (i : ℕ) (e : Entry) (link : Link) : Option (Entry × Link) :=
  match link.position with
  | .connect => some (e.markConnected,
      { link with position := .settle, made := { link.made with connected := true } })
  | .settle => some (e, { link with position := .ack })
  | .ack => some (e, { link with position := .live })
  | .live => none
  | .unregister acked =>
    if e.isCurrent i then
      some ({ e with tcLink := none }, { link with position := .clearLoad acked })
    else some (e, { link with position := .done })
  | .clearLoad acked => some ({ e with load := none }, { link with position := .clearRate acked })
  | .clearRate acked => some ({ e with linkRate := none },
      { link with position := if acked then .clearCaps else .disconnect })
  | .clearCaps => some (e.clearTranscoderCaps, { link with position := .disconnect })
  | .disconnect => some (e.disconnected, { link with position := .done })
  | .done => none

/-- What the task of a link does. -/
def Link.handle (i : ℕ) (e : Entry) (link : Link) : Action → Option (Entry × Link)
  | .step => link.step i e
  | .ackFails =>
    if link.position = .ack then some (e, { link with position := .unregister false }) else none
  | .capabilities caps =>
    if link.position = .live then
      some (e.setTranscoderCaps caps, { link with made := { link.made with caps := true } })
    else none
  | .paceReport bytesPerSec =>
    if link.position = .live then
      some (e.setLinkRate bytesPerSec, { link with
        made := { link.made with linkRate := link.made.linkRate || bytesPerSec ≠ 0 } })
    else none
  | .ends =>
    if link.position = .live then some (e, { link with position := .unregister true }) else none

def System.next (s : System) : Event → Option System
  | .register moduleId protocolMinor =>
    some { s.update moduleId ((s.registry moduleId).registerTcLink protocolMinor s.links.length) with
      links := s.links ++ [⟨moduleId, protocolMinor, .connect, ⟨false, false, false, false⟩⟩] }
  | .task i action => do
    let link ← s.links[i]?
    let (e, link') ← link.handle i (s.registry link.moduleId) action
    return { s.update link.moduleId e with links := s.links.set i link' }
  | .place moduleId => do
    let tcLink ← (s.registry moduleId).tcLink
    let link ← s.links[tcLink.sender]?
    if (s.registry moduleId).eligible then
      return { s.update moduleId (s.registry moduleId).reserve with
        links := s.links.set tcLink.sender { link with made := { link.made with load := true } } }
    else none
  | .sessionEnded moduleId => some (s.update moduleId (s.registry moduleId).tcSessionEnded)

/-- All runs, from a registry without transcoders. -/
def machine : Machine System Event := ⟨⟨fun _ => ⟨none, none, none, none, none⟩, []⟩, System.next⟩

/-! ## The condition -/

/-- What a step of a teardown clears has been set. -/
def Position.clears (made : Made) : Position → Bool
  | .clearLoad _ => made.load
  | .clearRate _ => made.linkRate
  | .clearCaps => made.caps
  | .disconnect => made.connected
  | _ => false

/-- A teardown clears nothing that has been set for the link that is registered. -/
def System.sound (s : System) : Event → Bool
  | .task i .step => s.links[i]?.all fun link =>
    (s.registered link.moduleId).all fun newer => !link.position.clears newer.made
  | _ => true

/-! ## The newest link -/

variable {s s' : System} {e e' : Entry} {i j : ℕ} {link link' newest : Link} {m : String}

/-- Link `i` is the last that registered for its transcoder. -/
def Newest (s : System) (i : ℕ) (link : Link) : Prop :=
  s.links[i]? = some link ∧
    ∀ j other, s.links[j]? = some other → other.moduleId = link.moduleId → j ≤ i

/-- No step of a registration or teardown is pending for a transcoder. -/
def Settled (s : System) (moduleId : String) : Prop :=
  ∀ link ∈ s.links, link.moduleId = moduleId →
    link.position = .done ∨ link.position = .live ∧ link.made.caps

/-- The link is registered, and what was set for it is there. -/
structure Held (e : Entry) (i : ℕ) (link : Link) : Prop where
  tcLink : e.tcLink = some ⟨i, link.protocolMinor⟩
  connected : link.made.connected → e.isConnected
  caps : link.made.caps → e.caps.isSome
  load : link.made.load → e.load.isSome
  linkRate : link.made.linkRate → e.linkRate.isSome

/-- The newest link of a transcoder is registered until its own task takes it off. -/
structure Follows (e : Entry) (i : ℕ) (link : Link) : Prop where
  held : link.open → Held e i link
  gone : link.open = false → e.tcLink = none
  connected : link.position ≠ .connect → link.made.connected

theorem isCurrent_iff {protocolMinor : ℕ} (h : e.tcLink = some ⟨j, protocolMinor⟩) :
    e.isCurrent i = true ↔ j = i := by
  simp [Entry.isCurrent, h]

theorem handle_moduleId {action : Action} (hs : link.handle i e action = some (e', link')) :
    link'.moduleId = link.moduleId := by
  cases action with
  | step =>
    rw [Link.handle, Link.step] at hs
    split at hs
    case h_5 =>
      split_ifs at hs
      all_goals
        cases hs
        rfl
    all_goals
      cases hs
      try rfl
  | ackFails =>
    rw [Link.handle] at hs
    split_ifs at hs
    cases hs
    rfl
  | capabilities caps =>
    rw [Link.handle] at hs
    split_ifs at hs
    cases hs
    rfl
  | paceReport bytesPerSec =>
    rw [Link.handle] at hs
    split_ifs at hs
    cases hs
    rfl
  | ends =>
    rw [Link.handle] at hs
    split_ifs at hs
    cases hs
    rfl

/-- The link keeps what it holds while it goes on. -/
theorem Held.at (h : Held e i link) (position : Position) :
    Held e i { link with position := position } :=
  ⟨h.tcLink, h.connected, h.caps, h.load, h.linkRate⟩

theorem Held.markConnected (h : Held e i link) : Held e.markConnected i link :=
  ⟨h.tcLink, fun _ => rfl, h.caps, h.load, h.linkRate⟩

theorem Held.setTranscoderCaps (h : Held e i link) (caps : BoxCaps) :
    Held (e.setTranscoderCaps caps) i link :=
  ⟨h.tcLink, h.connected, fun _ => rfl, h.load, h.linkRate⟩

@[simp] theorem tcLink_setLinkRate (e : Entry) (bytesPerSec : ℕ) :
    (e.setLinkRate bytesPerSec).tcLink = e.tcLink := by
  rw [Entry.setLinkRate]
  split_ifs <;> rfl

theorem Held.setLinkRate (h : Held e i link) (bytesPerSec : ℕ) :
    Held (e.setLinkRate bytesPerSec) i link := by
  rw [Entry.setLinkRate]
  split_ifs
  · exact h
  · exact ⟨h.tcLink, h.connected, h.caps, h.load, fun _ => rfl⟩

/-- A step of the newest link that leaves it open and the registry as it is. -/
theorem Follows.at (h : Follows e i link) (hopen : link.open) {position : Position}
    (hposition : link.position ≠ .connect ∨ position = .connect)
    (hstill : ({ link with position := position } : Link).open) :
    Follows e i { link with position := position } := by
  refine ⟨fun _ => (h.held hopen).at position, fun hclosed => ?_, fun hne => ?_⟩
  · rw [hstill] at hclosed
    cases hclosed
  · exact h.connected (hposition.resolve_right hne)

/-- A step of its task after it has taken itself off the registry. -/
theorem Follows.closed (h : Follows e i link) (hclosed : link.open = false)
    (position : Position) (hkept : e.tcLink = none → e'.tcLink = none)
    (hstill : ({ link with position := position } : Link).open = false) :
    Follows e' i { link with position := position } := by
  refine ⟨fun hopen => ?_, fun _ => hkept (h.gone hclosed), fun _ => h.connected ?_⟩
  · rw [hstill] at hopen
    cases hopen
  · intro heq
    rw [Link.open, heq] at hclosed
    cases hclosed

/-- A step of the task of the newest link. -/
theorem Follows.own_step (h : Follows e i link) (hs : link.step i e = some (e', link')) :
    Follows e' i link' := by
  obtain ⟨moduleId, protocolMinor, position, made⟩ := link
  cases position with
  | connect =>
    cases hs
    have hheld := (h.held rfl).markConnected
    exact ⟨fun _ => ⟨hheld.tcLink, fun _ => rfl, hheld.caps, hheld.load, hheld.linkRate⟩,
      fun hclosed => (by cases hclosed), fun _ => rfl⟩
  | settle =>
    cases hs
    exact h.at rfl (Or.inl fun heq => (by cases heq)) rfl
  | ack =>
    cases hs
    exact h.at rfl (Or.inl fun heq => (by cases heq)) rfl
  | live => cases hs
  | unregister acked =>
    have hcurrent : e.isCurrent i = true := (isCurrent_iff (h.held rfl).tcLink).mpr rfl
    simp only [Link.step, if_pos hcurrent] at hs
    cases hs
    exact ⟨fun hopen => (by cases hopen), fun _ => rfl, fun _ => h.connected fun heq => (by cases heq)⟩
  | clearLoad acked =>
    cases hs
    exact h.closed rfl (.clearRate acked) id rfl
  | clearRate acked =>
    cases hs
    refine h.closed rfl (if acked then .clearCaps else .disconnect) id ?_
    cases acked <;> rfl
  | clearCaps =>
    cases hs
    exact h.closed rfl .disconnect id rfl
  | disconnect =>
    cases hs
    exact h.closed rfl .done id rfl
  | done => cases hs

theorem Follows.own (h : Follows e i link) {action : Action}
    (hs : link.handle i e action = some (e', link')) : Follows e' i link' := by
  cases action with
  | step => exact h.own_step hs
  | ackFails =>
    rw [Link.handle] at hs
    split_ifs at hs with hack
    cases hs
    refine h.at ?_ (Or.inl ?_) rfl
    · rw [Link.open, hack]
    · rw [hack]
      exact fun heq => (by cases heq)
  | capabilities caps =>
    rw [Link.handle] at hs
    split_ifs at hs with hlive
    cases hs
    have hopen : link.open = true := by rw [Link.open, hlive]
    have hheld := (h.held hopen).setTranscoderCaps caps
    refine ⟨fun _ => ⟨hheld.tcLink, hheld.connected, fun _ => rfl, hheld.load, hheld.linkRate⟩,
      fun hclosed => ?_, h.connected⟩
    exact absurd (hopen.symm.trans hclosed) (by decide)
  | paceReport bytesPerSec =>
    rw [Link.handle] at hs
    split_ifs at hs with hlive
    cases hs
    have hopen : link.open = true := by rw [Link.open, hlive]
    have hheld := (h.held hopen).setLinkRate bytesPerSec
    refine ⟨fun _ => ⟨hheld.tcLink, hheld.connected, hheld.caps, hheld.load, fun hmade => ?_⟩,
      fun hclosed => absurd (hopen.symm.trans hclosed) (by decide), h.connected⟩
    rcases Bool.or_eq_true_iff.mp hmade with hold | hnew
    · exact hheld.linkRate hold
    · rw [Entry.setLinkRate, if_neg (by simpa using hnew)]
      rfl
  | ends =>
    rw [Link.handle] at hs
    split_ifs at hs with hlive
    cases hs
    refine h.at ?_ (Or.inl ?_) rfl
    · rw [Link.open, hlive]
    · rw [hlive]
      exact fun heq => (by cases heq)

/-- The entries of a transcoder change, and neither the link nor what was set for the
    newest one goes. -/
theorem Follows.congr (h : Follows e j newest) (htcLink : e'.tcLink = e.tcLink)
    (hheld : newest.open → Held e j newest → Held e' j newest) : Follows e' j newest :=
  ⟨fun hopen => hheld hopen (h.held hopen), fun hclosed => htcLink.trans (h.gone hclosed), h.connected⟩

/-- A step of the task of another link. -/
theorem Follows.other_step (h : Follows e j newest) (hne : i ≠ j)
    (hsound : newest.open → link.position.clears newest.made = false)
    (hs : link.step i e = some (e', link')) : Follows e' j newest := by
  obtain ⟨moduleId, protocolMinor, position, made⟩ := link
  have hnot : ∀ {b : Bool}, b = false → ¬b = true := fun hb => Bool.not_eq_true _ ▸ hb
  cases position with
  | connect =>
    cases hs
    exact h.congr rfl fun _ hheld => hheld.markConnected
  | settle =>
    cases hs
    exact h
  | ack =>
    cases hs
    exact h
  | live => cases hs
  | unregister acked =>
    have hcurrent : ¬e.isCurrent i = true := by
      cases hopen : newest.open with
      | true => exact fun hc => hne ((isCurrent_iff (h.held hopen).tcLink).mp hc).symm
      | false => simp [Entry.isCurrent, h.gone hopen]
    simp only [Link.step, if_neg hcurrent] at hs
    cases hs
    exact h
  | clearLoad acked =>
    cases hs
    exact h.congr rfl fun hopen hheld => ⟨hheld.tcLink, hheld.connected, hheld.caps,
      fun hmade => absurd hmade (hnot (hsound hopen)), hheld.linkRate⟩
  | clearRate acked =>
    cases hs
    exact h.congr rfl fun hopen hheld => ⟨hheld.tcLink, hheld.connected, hheld.caps,
      hheld.load, fun hmade => absurd hmade (hnot (hsound hopen))⟩
  | clearCaps =>
    cases hs
    exact h.congr rfl fun hopen hheld => ⟨hheld.tcLink, hheld.connected,
      fun hmade => absurd hmade (hnot (hsound hopen)), hheld.load, hheld.linkRate⟩
  | disconnect =>
    cases hs
    exact h.congr rfl fun hopen hheld => ⟨hheld.tcLink,
      fun hmade => absurd hmade (hnot (hsound hopen)), hheld.caps, hheld.load, hheld.linkRate⟩
  | done => cases hs

theorem Follows.other (h : Follows e j newest) (hne : i ≠ j) {action : Action}
    (hsound : action = .step → newest.open → link.position.clears newest.made = false)
    (hs : link.handle i e action = some (e', link')) : Follows e' j newest := by
  cases action with
  | step => exact h.other_step hne (hsound rfl) hs
  | ackFails =>
    rw [Link.handle] at hs
    split_ifs at hs
    cases hs
    exact h
  | capabilities caps =>
    rw [Link.handle] at hs
    split_ifs at hs
    cases hs
    exact h.congr rfl fun _ hheld => hheld.setTranscoderCaps caps
  | paceReport bytesPerSec =>
    rw [Link.handle] at hs
    split_ifs at hs
    cases hs
    exact h.congr (tcLink_setLinkRate e bytesPerSec) fun _ hheld => hheld.setLinkRate bytesPerSec
  | ends =>
    rw [Link.handle] at hs
    split_ifs at hs
    cases hs
    exact h

/-- No task registers another link. -/
theorem tcLink_handle {action : Action} (hs : link.handle i e action = some (e', link')) :
    e'.tcLink = none ∨ e'.tcLink = e.tcLink := by
  cases action with
  | step =>
    rw [Link.handle, Link.step] at hs
    split at hs
    case h_5 =>
      split_ifs at hs
      · cases hs
        exact Or.inl rfl
      · cases hs
        exact Or.inr rfl
    all_goals cases hs
    all_goals exact Or.inr rfl
  | capabilities caps =>
    rw [Link.handle] at hs
    split_ifs at hs
    cases hs
    exact Or.inr rfl
  | paceReport bytesPerSec =>
    rw [Link.handle] at hs
    split_ifs at hs
    cases hs
    exact Or.inr (tcLink_setLinkRate e bytesPerSec)
  | ackFails =>
    rw [Link.handle] at hs
    split_ifs at hs
    cases hs
    exact Or.inr rfl
  | ends =>
    rw [Link.handle] at hs
    split_ifs at hs
    cases hs
    exact Or.inr rfl

/-! ## Runs -/

/-- The state of every transcoder follows its newest link. -/
structure Followed (s : System) : Prop where
  newest : ∀ i link, Newest s i link → Follows (s.registry link.moduleId) i link
  registered : ∀ m tcLink, (s.registry m).tcLink = some tcLink →
    ∃ link, s.links[tcLink.sender]? = some link ∧ link.moduleId = m

/-- The newest links after a task went on. -/
theorem newest_set (hi : s.links[i]? = some link) (hid : link'.moduleId = link.moduleId)
    (hlinks : s'.links = s.links.set i link') (h : Newest s' j newest) :
    (j = i ∧ newest = link' ∧ Newest s i link) ∨ (j ≠ i ∧ Newest s j newest) := by
  have hold : ∀ {k other}, s.links[k]? = some other → other.moduleId = newest.moduleId → k ≤ j := by
    intro k other hk hsame
    by_cases hki : k = i
    · subst hki
      obtain rfl := Option.some.inj (hk.symm.trans hi)
      refine h.2 k link' ?_ (hid.trans hsame)
      rw [hlinks]
      exact getElem?_set_moved hk
    · refine h.2 k other ?_ hsame
      rwa [hlinks, List.getElem?_set_ne (Ne.symm hki)]
  have hget := h.1
  rw [hlinks] at hget
  rcases getElem?_set_cases hget with ⟨rfl, rfl⟩ | ⟨hne, hget⟩
  · exact Or.inl ⟨rfl, rfl, hi, fun k other hk hsame => hold hk (hsame.trans hid.symm)⟩
  · exact Or.inr ⟨hne, hget, fun k other hk hsame => hold hk hsame⟩

theorem registry_update (s : System) (m : String) (e : Entry) (m' : String) :
    (s.update m e).registry m' = if m' = m then e else s.registry m' := by
  rw [System.update]
  simp only [Function.update_apply]

/-- A link stays the one it is in the list after a task went on. -/
theorem registered_set (h : Followed s) (hi : s.links[i]? = some link)
    (hid : link'.moduleId = link.moduleId) {tcLink : TcLink}
    (htcLink : (s.registry m).tcLink = some tcLink) :
    ∃ other, (s.links.set i link')[tcLink.sender]? = some other ∧ other.moduleId = m := by
  obtain ⟨other, hother, hm⟩ := h.registered m tcLink htcLink
  by_cases hsender : tcLink.sender = i
  · subst hsender
    obtain rfl := Option.some.inj (hother.symm.trans hi)
    exact ⟨link', getElem?_set_moved hi, hid.trans hm⟩
  · exact ⟨other, by rwa [List.getElem?_set_ne (Ne.symm hsender)], hm⟩

/-- The task of one link goes on, and the entries of its transcoder become `e`. -/
theorem Followed.set (h : Followed s) (hi : s.links[i]? = some link)
    (hid : link'.moduleId = link.moduleId)
    (htcLink : e.tcLink = none ∨ e.tcLink = (s.registry link.moduleId).tcLink)
    (hown : Follows (s.registry link.moduleId) i link → Follows e i link')
    (hother : ∀ j newest, i ≠ j → Newest s j newest → newest.moduleId = link.moduleId →
      Follows (s.registry link.moduleId) j newest → Follows e j newest) :
    Followed { s.update link.moduleId e with links := s.links.set i link' } := by
  refine ⟨fun j newest hnewest => ?_, fun m tcLink hm => ?_⟩
  · have hregistry : System.registry
        { s.update link.moduleId e with links := s.links.set i link' } newest.moduleId =
        if newest.moduleId = link.moduleId then e else s.registry newest.moduleId :=
      registry_update s link.moduleId e newest.moduleId
    rw [hregistry]
    rcases newest_set hi hid rfl hnewest with ⟨rfl, rfl, hold⟩ | ⟨hne, hold⟩
    · rw [if_pos hid]
      exact hown (h.newest j link hold)
    · split_ifs with hsame
      · exact hother j newest (Ne.symm hne) hold hsame (hsame ▸ h.newest j newest hold)
      · exact h.newest j newest hold
  · have hm : ((s.update link.moduleId e).registry m).tcLink = some tcLink := hm
    rw [registry_update] at hm
    split_ifs at hm with hsame
    · rcases htcLink with hnone | hkept
      · rw [hnone] at hm
        cases hm
      · rw [hkept, ← hsame] at hm
        exact registered_set h hi hid hm
    · exact registered_set h hi hid hm

theorem Followed.register (h : Followed s) (m : String) (protocolMinor : ℕ)
    (hs : s.next (.register m protocolMinor) = some s') : Followed s' := by
  cases hs
  refine ⟨fun j newest hnewest => ?_, fun m' tcLink hm => ?_⟩
  · have hregistry := registry_update s m
      ((s.registry m).registerTcLink protocolMinor s.links.length) newest.moduleId
    change Follows ((s.update m _).registry newest.moduleId) j newest
    rw [hregistry]
    rcases getElem?_append_cases hnewest.1 with ⟨rfl, rfl⟩ | hold
    · rw [if_pos rfl]
      exact ⟨fun _ => ⟨rfl, fun hm => (by cases hm), fun hm => (by cases hm),
        fun hm => (by cases hm), fun hm => (by cases hm)⟩, fun hclosed => (by cases hclosed),
        fun hne => absurd rfl hne⟩
    · have hlt : j < s.links.length := (List.getElem?_eq_some_iff.mp hold).1
      have hother : newest.moduleId ≠ m := by
        rintro rfl
        have hle := hnewest.2 s.links.length _ (List.getElem?_concat_length) rfl
        omega
      rw [if_neg hother]
      refine h.newest j newest ⟨hold, fun k other hk hsame => ?_⟩
      have hlt' : k < s.links.length := (List.getElem?_eq_some_iff.mp hk).1
      exact hnewest.2 k other (by rwa [List.getElem?_append_left hlt']) hsame
  · have hm : ((s.update m _).registry m').tcLink = some tcLink := hm
    rw [registry_update] at hm
    split_ifs at hm with hsame
    · cases hm
      exact ⟨_, List.getElem?_concat_length, hsame.symm⟩
    · obtain ⟨link, hlink, hid⟩ := h.registered m' tcLink hm
      have hlt : tcLink.sender < s.links.length := (List.getElem?_eq_some_iff.mp hlink).1
      exact ⟨link, by rwa [List.getElem?_append_left hlt], hid⟩

/-- A sound step of an older link clears nothing of the newest. -/
theorem Followed.clears (h : Followed s) (hi : s.links[i]? = some link)
    (hsound : s.sound (.task i .step)) (hnewest : Newest s j newest)
    (hsame : newest.moduleId = link.moduleId) (hopen : newest.open) :
    link.position.clears newest.made = false := by
  have hheld := (h.newest j newest hnewest).held hopen
  have hregistered : s.registered link.moduleId = some newest := by
    rw [System.registered, ← hsame, hheld.tcLink]
    exact hnewest.1
  simpa [System.sound, hi, hregistered] using hsound

theorem Follows.reserve (h : Follows e j newest) : Follows e.reserve j newest :=
  h.congr rfl fun _ hheld =>
    ⟨hheld.tcLink, hheld.connected, hheld.caps, fun _ => rfl, hheld.linkRate⟩

theorem Follows.tcSessionEnded (h : Follows e j newest) : Follows e.tcSessionEnded j newest :=
  h.congr rfl fun _ hheld => ⟨hheld.tcLink, hheld.connected, hheld.caps,
    fun hmade => (Option.isSome_map ..).trans (hheld.load hmade), hheld.linkRate⟩

theorem followed_next {event : Event} (h : Followed s) (hsound : s.sound event)
    (hs : s.next event = some s') : Followed s' := by
  cases event with
  | register m protocolMinor => exact h.register m protocolMinor hs
  | task i action =>
    obtain ⟨link, hi, hs⟩ := Option.bind_eq_some_iff.mp hs
    obtain ⟨⟨e, link'⟩, hhandle, hs⟩ := Option.bind_eq_some_iff.mp hs
    cases hs
    refine h.set hi (handle_moduleId hhandle) (tcLink_handle hhandle)
      (fun hfollows => hfollows.own hhandle) fun j newest hne hnewest hsame hfollows => ?_
    refine hfollows.other hne (fun haction hopen => ?_) hhandle
    subst haction
    exact h.clears hi hsound hnewest hsame hopen
  | place m =>
    obtain ⟨tcLink, htcLink, hs⟩ := Option.bind_eq_some_iff.mp hs
    obtain ⟨link, hlink, hs⟩ := Option.bind_eq_some_iff.mp hs
    split_ifs at hs
    cases hs
    obtain ⟨other, hother, rfl⟩ := h.registered m tcLink htcLink
    obtain rfl := Option.some.inj (hother.symm.trans hlink)
    refine h.set hlink rfl (Or.inr rfl) (fun hfollows => ?_) fun j newest _ _ _ hfollows =>
      hfollows.reserve
    have hreserved := hfollows.reserve
    refine ⟨fun hopen => ?_, hreserved.gone, hreserved.connected⟩
    have hheld := hreserved.held hopen
    exact ⟨hheld.tcLink, hheld.connected, hheld.caps, fun _ => rfl, hheld.linkRate⟩
  | sessionEnded m =>
    cases hs
    refine ⟨fun j newest hnewest => ?_, fun m' tcLink hm => ?_⟩
    · rw [registry_update]
      split_ifs with hsame
      · exact (hsame ▸ h.newest j newest hnewest).tcSessionEnded
      · exact h.newest j newest hnewest
    · rw [registry_update] at hm
      split_ifs at hm with hsame
      · exact h.registered m' tcLink (hsame ▸ hm)
      · exact h.registered m' tcLink hm

theorem followed_of_reaches (h : machine.Reaches (fun s event => s.sound event = true) s) :
    Followed s := by
  have hstart : Followed machine.start :=
    ⟨fun j newest hnewest => (by cases hnewest.1), fun m tcLink hm => (by cases hm)⟩
  exact h.invariant hstart fun ha hsound hs => followed_next ha hsound hs

/-- With sound teardowns: while no step is pending for a transcoder, it is connected, has
    capabilities and is eligible exactly if its newest link is live; and at any time the
    newest link, until its own task takes it off, is the registered one and nothing
    that was set for it is gone. -/
theorem follows_newest_link (h : machine.Reaches (fun s event => s.sound event = true) s)
    (hnewest : Newest s i link) :
    (Settled s link.moduleId →
      ((s.registry link.moduleId).isConnected ∧ (s.registry link.moduleId).caps.isSome ∧
        (s.registry link.moduleId).eligible ↔ link.position = .live)) ∧
    (link.open → Held (s.registry link.moduleId) i link) := by
  have hfollows := (followed_of_reaches h).newest i link hnewest
  refine ⟨fun hsettled => ⟨fun ⟨_, _, heligible⟩ => ?_, fun hlive => ?_⟩, hfollows.held⟩
  · rcases hsettled link (List.mem_of_getElem? hnewest.1) rfl with hdone | ⟨hlive, -⟩
    · have hgone := hfollows.gone (by rw [Link.open, hdone])
      simp [Entry.eligible, hgone] at heligible
    · exact hlive
  · have hmade : link.made.caps = true := by
      rcases hsettled link (List.mem_of_getElem? hnewest.1) rfl with hdone | ⟨-, hmade⟩
      · rw [hlive] at hdone
        cases hdone
      · exact hmade
    have hheld := hfollows.held (by rw [Link.open, hlive])
    have hconnected := hfollows.connected (by rw [hlive]; exact fun heq => (by cases heq))
    refine ⟨hheld.connected hconnected, hheld.caps hmade, ?_⟩
    rw [Entry.eligible, hheld.caps hmade, hheld.tcLink]
    rfl

/-- The link that registered last, of all transcoders, is the newest of its own. -/
theorem newest_last {older : List Link} (h : s.links = older ++ [link]) :
    Newest s older.length link := by
  refine ⟨by rw [h, List.getElem?_concat_length], fun j other hj _ => ?_⟩
  have hlt : j < s.links.length := (List.getElem?_eq_some_iff.mp hj).1
  rw [h, List.length_append, List.length_singleton] at hlt
  omega

/-- Link `i` of a box registers, is acknowledged and reports its capabilities. -/
def connects (i : ℕ) : List Event :=
  [.register "box" 5, .task i .step, .task i .step, .task i .step,
    .task i (.capabilities ⟨["x264"], 2, [], false, false⟩)]

/-- A link in some position, which has reported its capabilities. -/
def boxLink (position : Position) : Link := ⟨"box", 5, position, ⟨true, true, false, false⟩⟩

/-- The box reconnects after the teardown of its first link. -/
theorem follows_newest_link_reconnected :
    ∃ s, machine.Reaches (fun s event => s.sound event = true) s ∧
      Newest s 1 (boxLink .live) ∧ Settled s "box" ∧ (s.registry "box").isConnected ∧
        (s.registry "box").caps.isSome ∧ (s.registry "box").eligible := by
  have hrun : (machine.replay System.sound (connects 0 ++ [.task 0 .ends] ++
      List.replicate 5 (.task 0 .step) ++ connects 1) machine.start).any
      (fun s => s.links = [boxLink .done, boxLink .live]) = true := by
    decide
  obtain ⟨s, hs, hend⟩ := (Option.any_eq_true _ _).mp hrun
  have hlinks : s.links = [boxLink .done] ++ [boxLink .live] := of_decide_eq_true hend
  have hreach := Machine.reaches_of_replay hs
  have hnewest := newest_last hlinks
  have hsettled : Settled s "box" := by
    rw [Settled, hlinks]
    decide
  exact ⟨s, hreach, hnewest, hsettled,
    ((follows_newest_link hreach hnewest).1 hsettled).mpr rfl⟩

/-- The box reconnects while the teardown of its first link is between its check and its
    clears: the new link is live and no step is pending, but the box is marked
    disconnected, has no capabilities and is not eligible. -/
theorem late_teardown_silences_box :
    ∃ s, machine.Reachable s ∧ Newest s 1 (boxLink .live) ∧ Settled s "box" ∧
      (s.registry "box").isConnected = false ∧ (s.registry "box").caps = none ∧
        (s.registry "box").eligible = false := by
  have hrun : (machine.replay (fun _ _ => true) (connects 0 ++ [.task 0 .ends, .task 0 .step] ++
      connects 1 ++ List.replicate 4 (.task 0 .step)) machine.start).any
      (fun s => s.links = [boxLink .done, boxLink .live] && !(s.registry "box").isConnected &&
        (s.registry "box").caps.isNone) = true := by
    decide
  obtain ⟨s, hs, hend⟩ := (Option.any_eq_true _ _).mp hrun
  simp only [Bool.and_eq_true, decide_eq_true_eq, Bool.not_eq_true', Option.isNone_iff_eq_none]
    at hend
  obtain ⟨⟨hlinks, hconnected⟩, hcaps⟩ := hend
  have happend : s.links = [boxLink .done] ++ [boxLink .live] := hlinks
  have hnewest : Newest s 1 (boxLink .live) := newest_last happend
  have hsettled : Settled s "box" := by
    rw [Settled, hlinks]
    decide
  refine ⟨s, (Machine.reaches_of_replay hs).reachable, hnewest, hsettled, hconnected, hcaps, ?_⟩
  rw [Entry.eligible, hcaps]
  rfl

end Kahawai.Hub.TranscoderLink
