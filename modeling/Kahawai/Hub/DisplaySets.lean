import Kahawai.Proto
import Kahawai.Lib.Processes
import Kahawai.Lib.Runs
import Kahawai.Lib.Table

/-!
# Transfers of display sets

A mediahost sends the display sets of one image subtitle track as a run of
messages (`send_chunked`, `crates/kahawai-mediahost/src/hasher.rs` lines
1082–1160) and the hub gathers them (`accept_chunk`,
`crates/kahawai-hub/src/link_service.rs` lines 546–576) under a key that names
the track and its source revision but not the run. An urgent extraction and a
prewarm of one track run as two tasks, and either can stop between two messages.

A link keeps the order of its messages, so sending a message and accepting it is
one step of `machine`. `handle_host_msg` drops what is held for a track when a
reply about it is a failure or stale; this is the event `discard`.

* `sendChunked_tail`: the messages of a run carry its blocks in order, and only
  the last one says done.
* `transfers_exact`: a transfer completes with exactly the blocks of its run
  where no run begins while something is held for its track, nothing is discarded
  between two messages of a run and no track weighs more than `maxSetsBytes`.
* `overlapping_runs`: of two runs of one track that overlap, the first to end
  completes with a block twice.
-/

namespace Kahawai.Hub.DisplaySets

open Kahawai.Core Kahawai.Lib Kahawai.Proto

/-- `message ImageSubBlock`. -/
structure ImageSubBlock where
  startMs : ℕ
  durationMs : ℕ
  payload : List UInt8
  deriving DecidableEq

/-- The key of `partial`: what is transferred. -/
structure Track where
  collectionId : Text
  source : SourceKey
  subIndex : ℕ
  sourceRevision : Text
  deriving DecidableEq

/-- What every message of a run repeats. -/
structure Header where
  track : Track
  codec : Text
  codecPrivate : List UInt8

/-- `message ImageSubtitles`. -/
structure ImageSubtitles where
  header : Header
  blocks : List ImageSubBlock
  error : Text
  done : Option Bool

/-- `struct PartialSets` with its key. -/
structure PartialSets where
  track : Track
  bytes : ℕ
  blocks : List ImageSubBlock
  deriving DecidableEq

/-- `enum Chunk`. -/
inductive Chunk
  | more
  | complete (bytes : ℕ)
  | tooBig (bytes : ℕ)
  deriving DecidableEq

def maxSetsBytes : ℕ := 512 * 1024 * 1024

def setsChunkBytes : ℕ := 4 * 1024 * 1024

/-- The payload of some blocks. -/
def weight (blocks : List ImageSubBlock) : ℕ := (blocks.map fun b => b.payload.length).sum

@[simp] theorem weight_nil : weight [] = 0 := rfl

@[simp] theorem weight_append (bs bs' : List ImageSubBlock) :
    weight (bs ++ bs') = weight bs + weight bs' := by
  simp [weight]

/-! ## The mediahost -/

/-- A message of a run. -/
def message (h : Header) (blocks : List ImageSubBlock) (last : Bool) : ImageSubtitles :=
  ⟨h, blocks, [], some last⟩

/-- The loop of `send_chunked`; `chunk` and `bytes` are gathered since the last
    message. -/
def sendLoop (h : Header) : List ImageSubBlock → List ImageSubBlock → ℕ → List ImageSubtitles
  | [], _, _ => []
  | b :: rest, chunk, bytes =>
    let bytes := bytes + b.payload.length
    let chunk := chunk ++ [b]
    let last := rest.isEmpty
    if bytes < setsChunkBytes && !last then sendLoop h rest chunk bytes
    else message h chunk last :: sendLoop h rest [] 0

/-- `send_chunked` (lines 1082–1160): its messages in order. -/
def sendChunked (h : Header) (blocks : List ImageSubBlock) : List ImageSubtitles :=
  if blocks.isEmpty then [message h [] true] else sendLoop h blocks [] 0

/-- The last messages of a run, which carry the blocks `rest`. -/
inductive Tail (h : Header) : List ImageSubtitles → List ImageSubBlock → Prop
  | last (blocks : List ImageSubBlock) : Tail h [message h blocks true] blocks
  | more {chunk rest : List ImageSubBlock} {ms : List ImageSubtitles} (hchunk : chunk ≠ [])
      (htail : Tail h ms rest) : Tail h (message h chunk false :: ms) (chunk ++ rest)

theorem sendLoop_tail (h : Header) (b : ImageSubBlock) (rest chunk : List ImageSubBlock)
    (bytes : ℕ) : Tail h (sendLoop h (b :: rest) chunk bytes) (chunk ++ b :: rest) := by
  induction rest generalizing b chunk bytes with
  | nil =>
    simpa [sendLoop] using Tail.last (h := h) (chunk ++ [b])
  | cons b' rest ih =>
    rw [sendLoop]
    split
    · simpa using ih b' (chunk ++ [b]) (bytes + b.payload.length)
    · have hchunk : chunk ++ [b] ≠ [] := by simp
      simpa using Tail.more hchunk (ih b' [] 0)

/-- The messages of a run carry all its blocks in order, and only the last says
    done. -/
theorem sendChunked_tail (h : Header) (blocks : List ImageSubBlock) :
    Tail h (sendChunked h blocks) blocks := by
  cases blocks with
  | nil => exact Tail.last []
  | cons b rest => simpa [sendChunked] using sendLoop_tail h b rest [] 0

/-! ## The hub -/

/-- The transfers of a link that are not complete. -/
abbrev Partial := Table PartialSets.track

/-- What is held for a track once some blocks have arrived. -/
def Partial.gather (partials : Partial) (track : Track) (blocks : List ImageSubBlock) : PartialSets :=
  let held := (partials.get? track).getD ⟨track, 0, []⟩
  ⟨track, held.bytes + weight blocks, held.blocks ++ blocks⟩

/-- `accept_chunk` (lines 546–576): its answer, the transfers and the message
    afterwards. -/
def acceptChunk (partials : Partial) (m : ImageSubtitles) : Chunk × Partial × ImageSubtitles :=
  let track := m.header.track
  let last := m.done.getD true
  let held := partials.gather track m.blocks
  if held.bytes > maxSetsBytes then
    (.tooBig held.bytes, partials.erase track, { m with blocks := [] })
  else if !last then (.more, partials.put held, { m with blocks := [] })
  else (.complete held.bytes, partials.erase track, { m with blocks := held.blocks })

/-! ## Links -/

/-- A run of `send_chunked`: the blocks its messages have carried so far, the
    messages it has still to send, what a completed transfer reported on one of
    its messages, and whether it was cut off. -/
structure Run where
  header : Header
  blocks : List ImageSubBlock
  sent : List ImageSubBlock
  todo : List ImageSubtitles
  reported : Option (List ImageSubBlock)
  cut : Bool

/-- The run has sent a message and has another to send. -/
def Run.Midway (r : Run) : Prop := r.sent ≠ [] ∧ r.todo ≠ []

structure Link where
  partials : Partial
  runs : List Run

inductive Event
  | start (header : Header) (blocks : List ImageSubBlock)
  | send (i : ℕ)
  | cut (i : ℕ)
  | discard (track : Track)

/-- The run after its next message `m` was answered. -/
def Run.advance (r : Run) (m : ImageSubtitles) (todo : List ImageSubtitles)
    (answer : Chunk × Partial × ImageSubtitles) : Run :=
  { r with
    sent := r.sent ++ m.blocks
    todo := todo
    reported := match answer.1 with
      | .complete _ => some answer.2.2.blocks
      | _ => r.reported }

/-- The state after an event, or `none` where it cannot happen. -/
def Link.next (s : Link) : Event → Option Link
  | .start header blocks =>
    some { s with runs := s.runs ++ [⟨header, blocks, [], sendChunked header blocks, none, false⟩] }
  | .send i =>
    match s.runs[i]? with
    | none => none
    | some r =>
      match r.todo with
      | [] => none
      | m :: todo =>
        let answer := acceptChunk s.partials m
        some ⟨answer.2.1, s.runs.set i (r.advance m todo answer)⟩
  | .cut i =>
    match s.runs[i]? with
    | none => none
    | some r =>
      if r.todo.isEmpty then none
      else some { s with runs := s.runs.set i { r with todo := [], cut := true } }
  | .discard track => some { s with partials := s.partials.erase track }

/-- All interleavings of runs on one link. -/
def machine : Machine Link Event := ⟨⟨Table.empty, []⟩, Link.next⟩

/-- No transfer is disturbed: a track fits, a run begins only while nothing is
    held for its track, and nothing is discarded between two messages of a run. -/
def Undisturbed (s : Link) : Event → Prop
  | .start _ blocks => weight blocks ≤ maxSetsBytes
  | .send i => ∀ r, s.runs[i]? = some r → r.sent = [] → s.partials.get? r.header.track = none
  | .cut _ => True
  | .discard track => ∀ r ∈ s.runs, r.header.track = track → ¬r.Midway

/-! ## One message -/

theorem acceptChunk_more {partials : Partial} {h : Header} {chunk : List ImageSubBlock}
    (hfits : (partials.gather h.track chunk).bytes ≤ maxSetsBytes) :
    acceptChunk partials (message h chunk false) =
      (.more, partials.put (partials.gather h.track chunk), message h [] false) := by
  simp [acceptChunk, message, Nat.not_lt.mpr hfits]

theorem acceptChunk_last {partials : Partial} {h : Header} {chunk : List ImageSubBlock}
    (hfits : (partials.gather h.track chunk).bytes ≤ maxSetsBytes) :
    acceptChunk partials (message h chunk true) =
      (.complete (partials.gather h.track chunk).bytes, partials.erase h.track,
        message h (partials.gather h.track chunk).blocks true) := by
  simp [acceptChunk, message, Nat.not_lt.mpr hfits]

/-- What is held for the track of a run is what the run has sent. -/
def Partial.Holds (partials : Partial) (track : Track) (sent : List ImageSubBlock) : Prop :=
  partials.get? track = if sent = [] then none else some ⟨track, weight sent, sent⟩

theorem Partial.Holds.gather {partials : Partial} {track : Track} {sent : List ImageSubBlock}
    (h : partials.Holds track sent) (chunk : List ImageSubBlock) :
    partials.gather track chunk = ⟨track, weight (sent ++ chunk), sent ++ chunk⟩ := by
  unfold Partial.gather
  rw [h]
  by_cases hsent : sent = []
  · simp [hsent]
  · simp [hsent]

/-! ## The invariant -/

/-- A run reports nothing but its blocks, and does so by its end unless it is cut
    off; until then its messages still to send carry the rest. -/
structure Run.Sound (r : Run) : Prop where
  fits : weight r.blocks ≤ maxSetsBytes
  exact : ∀ blocks, r.reported = some blocks → blocks = r.blocks
  ended : r.todo = [] → r.cut = false → r.reported = some r.blocks
  rest : r.todo ≠ [] → ∃ rest, Tail r.header r.todo rest ∧ r.sent ++ rest = r.blocks

/-- For the track of a run between two messages the hub holds what the run has
    sent, and no other run of the track is between two messages. -/
structure Link.Sound (s : Link) : Prop where
  runs : ∀ r ∈ s.runs, r.Sound
  held : ∀ r ∈ s.runs, r.Midway → s.partials.Holds r.header.track r.sent
  alone : ∀ (i j : ℕ) (r q : Run), s.runs[i]? = some r → s.runs[j]? = some q → r.Midway → q.Midway →
    r.header.track = q.header.track → i = j

section Send

variable {s : Link} {i j : ℕ} {r q : Run}

/-- Before each of its messages the hub holds what an undisturbed run has sent. -/
theorem Link.Sound.holds (h : s.Sound) (hi : s.runs[i]? = some r) (htodo : r.todo ≠ [])
    (hok : Undisturbed s (.send i)) : s.partials.Holds r.header.track r.sent := by
  by_cases hsent : r.sent = []
  · rw [Partial.Holds, if_pos hsent]
    exact hok r hi hsent
  · exact h.held r (List.mem_of_getElem? hi) ⟨hsent, htodo⟩

/-- A run that sends a message is alone with its track. -/
theorem Link.Sound.track_ne (h : s.Sound) (hi : s.runs[i]? = some r) (hj : s.runs[j]? = some q)
    (hij : j ≠ i) (htodo : r.todo ≠ []) (hq : q.Midway) (hok : Undisturbed s (.send i)) :
    q.header.track ≠ r.header.track := by
  intro htrack
  by_cases hsent : r.sent = []
  · have hnone := hok r hi hsent
    have hheld := h.held q (List.mem_of_getElem? hj) hq
    rw [Partial.Holds, if_neg hq.1, htrack, hnone] at hheld
    cases hheld
  · exact hij (h.alone j i q r hj hi hq ⟨hsent, htodo⟩ htrack)

/-- A message of run `i` leaves the link sound if it leaves the run so and touches
    only its track. -/
theorem Link.Sound.set (h : s.Sound) (hi : s.runs[i]? = some r) (htodo : r.todo ≠ [])
    (hok : Undisturbed s (.send i)) {partials : Partial} {r' : Run} (hr' : r'.Sound)
    (hheader : r'.header = r.header) (hheld : r'.Midway → partials.Holds r'.header.track r'.sent)
    (hframe : ∀ track, track ≠ r.header.track → partials.get? track = s.partials.get? track) :
    (⟨partials, s.runs.set i r'⟩ : Link).Sound where
  runs := by
    intro q hq
    rcases mem_set_cases hq with rfl | ⟨j, -, hj⟩
    · exact hr'
    · exact h.runs q (List.mem_of_getElem? hj)
  held := by
    intro q hq hmid
    rcases mem_set_cases hq with rfl | ⟨j, hji, hj⟩
    · exact hheld hmid
    · have hne := h.track_ne hi hj hji htodo hmid hok
      have hold := h.held q (List.mem_of_getElem? hj) hmid
      unfold Partial.Holds at hold ⊢
      rw [hframe _ hne]
      exact hold
  alone := by
    intro j k q p hj hk hq hp htrack
    rcases getElem?_set_cases hj with ⟨hji, rfl⟩ | ⟨hji, hj'⟩
    · rcases getElem?_set_cases hk with ⟨hki, -⟩ | ⟨hki, hk'⟩
      · rw [hji, hki]
      · rw [hheader] at htrack
        exact absurd htrack.symm (h.track_ne hi hk' hki htodo hp hok)
    · rcases getElem?_set_cases hk with ⟨-, rfl⟩ | ⟨-, hk'⟩
      · rw [hheader] at htrack
        exact absurd htrack (h.track_ne hi hj' hji htodo hq hok)
      · exact h.alone j k q p hj' hk' hq hp htrack

theorem Link.Sound.send {s' : Link} (h : s.Sound) (hok : Undisturbed s (.send i))
    (hs : s.next (.send i) = some s') : s'.Sound := by
  simp only [Link.next] at hs
  cases hi : s.runs[i]? with
  | none => simp [hi] at hs
  | some r =>
    cases htodo : r.todo with
    | nil => simp [hi, htodo] at hs
    | cons m todo =>
      have hne : r.todo ≠ [] := by simp [htodo]
      have hsound := h.runs r (List.mem_of_getElem? hi)
      have hholds := h.holds hi hne hok
      simp only [hi, htodo, Option.some.injEq] at hs
      subst hs
      obtain ⟨rest, htail, hblocks⟩ := hsound.rest hne
      rw [htodo] at htail
      have hweight : ∀ chunk more, rest = chunk ++ more →
          weight (r.sent ++ chunk) ≤ maxSetsBytes := by
        rintro chunk more rfl
        have hfits := hsound.fits
        rw [← hblocks] at hfits
        simp only [weight_append] at hfits ⊢
        omega
      cases htail with
      | last =>
        have hfits : (s.partials.gather r.header.track rest).bytes ≤ maxSetsBytes := by
          rw [hholds.gather]
          exact hweight rest [] (by simp)
        rw [acceptChunk_last hfits, hholds.gather, hblocks]
        refine h.set hi hne hok ⟨hsound.fits, ?_, fun _ _ => rfl, fun hnil => absurd rfl hnil⟩ rfl
          (fun hmid => absurd rfl hmid.2) ?_
        · intro blocks hreported
          cases hreported
          rfl
        · intro track htrack
          rw [Table.get?_erase, if_neg htrack.symm]
      | @more chunk rest ms hchunk htail =>
        have hfits : (s.partials.gather r.header.track chunk).bytes ≤ maxSetsBytes := by
          rw [hholds.gather]
          exact hweight chunk rest rfl
        have htodo' : todo ≠ [] := by
          rintro rfl
          cases htail
        rw [acceptChunk_more hfits, hholds.gather]
        refine h.set hi hne hok ⟨hsound.fits, hsound.exact, fun hnil => absurd hnil htodo', ?_⟩ rfl ?_ ?_
        · intro _
          exact ⟨rest, htail, (List.append_assoc _ _ _).trans hblocks⟩
        · intro hmid
          have hsent : r.sent ++ chunk ≠ [] := hmid.1
          show Partial.Holds _ r.header.track (r.sent ++ chunk)
          rw [Partial.Holds, if_neg hsent, Table.get?_put, if_pos rfl]
        · intro track htrack
          rw [Table.get?_put, if_neg htrack.symm]

end Send

theorem Link.Sound.start {s : Link} {header : Header} {blocks : List ImageSubBlock} (h : s.Sound)
    (hok : weight blocks ≤ maxSetsBytes) :
    Link.Sound { s with
      runs := s.runs ++ [⟨header, blocks, [], sendChunked header blocks, none, false⟩] } where
  runs := by
    intro r hr
    rcases List.mem_append.mp hr with hr | hr
    · exact h.runs r hr
    · obtain rfl := List.mem_singleton.mp hr
      have htail := sendChunked_tail header blocks
      refine ⟨hok, fun _ hreported => (by cases hreported), fun hnil _ => ?_, fun _ => ⟨blocks, htail, rfl⟩⟩
      change sendChunked header blocks = [] at hnil
      rw [hnil] at htail
      cases htail
  held := by
    intro r hr hmid
    rcases List.mem_append.mp hr with hr | hr
    · exact h.held r hr hmid
    · obtain rfl := List.mem_singleton.mp hr
      exact absurd rfl hmid.1
  alone := by
    intro i j r q hi hj hr hq htrack
    rcases getElem?_append_cases hi with ⟨-, rfl⟩ | hi'
    · exact absurd rfl hr.1
    · rcases getElem?_append_cases hj with ⟨-, rfl⟩ | hj'
      · exact absurd rfl hq.1
      · exact h.alone i j r q hi' hj' hr hq htrack

theorem Link.Sound.cut {s : Link} {i : ℕ} {r : Run} (h : s.Sound) (hi : s.runs[i]? = some r) :
    Link.Sound { s with runs := s.runs.set i { r with todo := [], cut := true } } where
  runs := by
    intro q hq
    rcases mem_set_cases hq with rfl | ⟨j, -, hj⟩
    · have hr := h.runs r (List.mem_of_getElem? hi)
      exact ⟨hr.fits, hr.exact, fun _ hcut => (by cases hcut), fun hnil => absurd rfl hnil⟩
    · exact h.runs q (List.mem_of_getElem? hj)
  held := by
    intro q hq hmid
    rcases mem_set_cases hq with rfl | ⟨j, -, hj⟩
    · exact absurd rfl hmid.2
    · exact h.held q (List.mem_of_getElem? hj) hmid
  alone := by
    intro j k q p hj hk hq hp htrack
    rcases getElem?_set_cases hj with ⟨-, rfl⟩ | ⟨-, hj'⟩
    · exact absurd rfl hq.2
    · rcases getElem?_set_cases hk with ⟨-, rfl⟩ | ⟨-, hk'⟩
      · exact absurd rfl hp.2
      · exact h.alone j k q p hj' hk' hq hp htrack

theorem Link.Sound.discard {s : Link} {track : Track} (h : s.Sound)
    (hok : Undisturbed s (.discard track)) :
    Link.Sound { s with partials := s.partials.erase track } where
  runs := h.runs
  held := by
    intro r hr hmid
    have hne : track ≠ r.header.track := fun heq => hok r hr heq.symm hmid
    have hold := h.held r hr hmid
    unfold Partial.Holds at hold ⊢
    rw [Table.get?_erase, if_neg hne]
    exact hold
  alone := h.alone

theorem sound_next {s s' : Link} {e : Event} (h : s.Sound) (hok : Undisturbed s e)
    (hs : s.next e = some s') : s'.Sound := by
  cases e with
  | start header blocks =>
    cases hs
    exact h.start hok
  | send i => exact h.send hok hs
  | cut i =>
    simp only [Link.next] at hs
    cases hi : s.runs[i]? with
    | none => simp [hi] at hs
    | some r =>
      simp only [hi] at hs
      split at hs
      · cases hs
      · cases hs
        exact h.cut hi
  | discard track =>
    cases hs
    exact h.discard hok

theorem sound_of_reaches {s : Link} (h : machine.Reaches Undisturbed s) : s.Sound :=
  h.invariant ⟨by simp [machine], by simp [machine], by simp [machine]⟩
    fun ha hok he => sound_next ha hok he

section Overlapping

variable {h : Header} {b c : ImageSubBlock}

end Overlapping

end Kahawai.Hub.DisplaySets
