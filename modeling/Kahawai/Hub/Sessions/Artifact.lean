import Mathlib.Data.List.Infix
import Kahawai.Lib.Processes
import Kahawai.Lib.Runs
import Kahawai.Lib.Table

/-!
# Artifact fetches

`fetch_artifact` of the hub (`crates/kahawai-hub/src/sessions/dispatch.rs`,
lines 235–301) puts the sender of a bounded channel into `artifact_waiting`
under the session and the name, asks the transcoder, and collects chunks until
one is marked `eof`. The transcoder answers every request with the chunks of
what it read (`crates/kahawai-transcoder/src/sessions.rs`, lines 405–460). The
chunks of one reply keep their order, those of different replies arrive in any
order.

Results:
* `exact`: where every chunk that finds a waiter is of the waiter's own request
  and finds room, what a fetch returns is what the transcoder read for it.
* `not_exact`: the tail of a reply whose fetch was abandoned becomes the result
  of the next fetch of the name.
-/

namespace Kahawai.Hub.Sessions.Artifact

open Kahawai.Lib

abbrev Bytes := List UInt8

/-! ## Replies -/

/-- `ArtifactData`, without its key. -/
structure Chunk where
  data : Bytes
  eof : Bool
  error : String
  deriving DecidableEq

/-- `ARTIFACT_CHUNK`. -/
def artifactChunk : ℕ := 256 * 1024

theorem artifactChunk_pos : 0 < artifactChunk := by decide

/-- The loop of the transcoder's `fetch_artifact` (lines 424–444) from `sent`
    on. -/
def chunksFrom (bytes : Bytes) (sent : ℕ) : List Chunk :=
  let stop := min (sent + artifactChunk) bytes.length
  let data := (bytes.drop sent).take (stop - sent)
  if stop = bytes.length then [⟨data, true, ""⟩]
  else ⟨data, false, ""⟩ :: chunksFrom bytes stop
termination_by bytes.length - sent
decreasing_by
  have hpos := artifactChunk_pos
  omega

/-- What the transcoder sends for a request. -/
def replyTo : Except String Bytes → List Chunk
  | .ok bytes => chunksFrom bytes 0
  | .error e => [⟨[], true, e⟩]

/-- `data` of the transcoder's `fetch_artifact` (lines 409–420): `read` is the
    read of the file, none where the session is not registered. -/
def artifactData (name : String) (read : Option (Except String Bytes)) : Except String Bytes :=
  if '/' ∈ name.toList ∨ ['.', '.'] <:+: name.toList then .error "invalid artifact name"
  else read.getD (.error "unknown session")

/-! ## State -/

/-- The key of `artifact_waiting`. -/
structure Key where
  sessionId : String
  name : String
  deriving DecidableEq

/-- The channel of `fetch_artifact` holds so many chunks. -/
def channelCapacity : ℕ := 64

inductive Stage
  /-- The sender is in `artifact_waiting`, the request not yet sent. -/
  | registered
  | waiting
  | returned (r : Except String Bytes)
  /-- The future was dropped. -/
  | cancelled
  deriving DecidableEq

/-- A call of `fetch_artifact` and the request it sends. -/
structure Fetch where
  key : Key
  stage : Stage
  out : Bytes
  channel : List Chunk
  /-- The request is on its way to the transcoder. -/
  requested : Bool
  /-- What the transcoder read for the request. -/
  content : Option (Except String Bytes)
  /-- The chunks of the reply that have not arrived. -/
  reply : List Chunk

/-- The receiver is there. -/
def Fetch.receives (f : Fetch) : Prop := f.stage = .registered ∨ f.stage = .waiting

instance (f : Fetch) : Decidable f.receives := inferInstanceAs (Decidable (_ ∨ _))

/-- An entry of `artifact_waiting`: the sender of a fetch. -/
structure Waiter where
  key : Key
  fetch : ℕ
  deriving DecidableEq

structure State where
  fetches : List Fetch
  waiting : Table Waiter.key

def State.new : State := ⟨[], Table.empty⟩

/-! ## Steps -/

def State.setFetch (s : State) (i : ℕ) (f : Fetch) : State :=
  { s with fetches := s.fetches.set i f }

/-- A fetch cleans up and returns. -/
def State.finish (s : State) (i : ℕ) (f : Fetch) (r : Except String Bytes) : State :=
  { s.setFetch i { f with stage := .returned r } with waiting := s.waiting.erase f.key }

/-- `artifact_chunk`: the fetch whose sender has the key gets the chunk, if it
    is still there and its channel has room. -/
def State.artifactChunk (s : State) (key : Key) (c : Chunk) : State :=
  match (s.waiting.get? key).bind fun w => (s.fetches[w.fetch]?).map (w.fetch, ·) with
  | none => s
  | some (j, g) =>
    if g.receives ∧ g.channel.length < channelCapacity then
      s.setFetch j { g with channel := g.channel ++ [c] }
    else s

/-- A fetch receives a chunk (lines 277–288). -/
def State.receive (s : State) (i : ℕ) (f : Fetch) (c : Chunk) (rest : List Chunk) : State :=
  let f := { f with channel := rest }
  if c.error ≠ "" then s.finish i f (.error c.error)
  else
    let out := f.out ++ c.data
    if c.eof then s.finish i f (.ok out)
    else s.setFetch i { f with out }

inductive Event
  | register (key : Key)
  /-- The request is sent, or the link is gone. -/
  | request (i : ℕ) (sent : Bool)
  /-- The transcoder serves the request. -/
  | serve (i : ℕ) (read : Option (Except String Bytes))
  /-- The next chunk of a reply arrives. -/
  | deliver (i : ℕ)
  /-- The link dies with the request or the rest of the reply. -/
  | lose (i : ℕ)
  | receive (i : ℕ)
  /-- The sender is gone or the 15 s are over. -/
  | timeout (i : ℕ)
  | cancel (i : ℕ)

/-- One step. The text of a read error is not empty. -/
def artifactNext (s : State) : Event → Option State
  | .register key =>
    some { s with
      fetches := s.fetches ++ [⟨key, .registered, [], [], false, none, []⟩]
      waiting := s.waiting.put ⟨key, s.fetches.length⟩ }
  | .request i sent =>
    move s.fetches i (fun f => f.stage = .registered) fun f =>
      if sent then s.setFetch i { f with stage := .waiting, requested := true }
      else s.finish i f (.error "transcoder link closed")
  | .serve i read =>
    move s.fetches i (fun f => f.requested ∧ read ≠ some (.error "")) fun f =>
      let content := artifactData f.key.name read
      s.setFetch i { f with
        requested := false
        content := some content
        reply := replyTo content }
  | .deliver i => (s.fetches[i]?).bind fun f =>
    match f.reply with
    | c :: rest => some ((s.setFetch i { f with reply := rest }).artifactChunk f.key c)
    | [] => none
  | .lose i =>
    move s.fetches i (fun _ => True) fun f => s.setFetch i { f with requested := false, reply := [] }
  | .receive i => (s.fetches[i]?).bind fun f =>
    match f.channel with
    | c :: rest => if f.stage = .waiting then some (s.receive i f c rest) else none
    | [] => none
  | .timeout i =>
    move s.fetches i (fun f => f.stage = .waiting ∧ f.channel = []) fun f =>
      s.finish i f (.error "artifact fetch timed out")
  | .cancel i =>
    move s.fetches i (fun f => f.receives) fun f => s.setFetch i { f with stage := .cancelled }

/-- The artifact fetches of a hub. -/
def artifacts : Machine State Event := ⟨State.new, artifactNext⟩

/-! ## What is claimed of the fetches -/

/-- What a fetch returns is what the transcoder read for a request of the name. -/
def Exact (s : State) : Prop :=
  ∀ f ∈ s.fetches, ∀ bytes, f.stage = .returned (.ok bytes) →
    ∃ g ∈ s.fetches, g.key = f.key ∧ g.content = some (.ok bytes)

/-- A chunk that finds a waiter is of the waiter's own request and finds room. -/
def Routed (s : State) : Event → Prop
  | .deliver i => ∀ f ∈ s.fetches[i]?, ∀ w ∈ s.waiting.get? f.key, ∀ g ∈ s.fetches[w.fetch]?,
      g.receives → w.fetch = i ∧ g.channel.length < channelCapacity
  | _ => True

instance (s : State) : DecidablePred (Routed s) := fun e =>
  match e with
  | .deliver i => inferInstanceAs (Decidable
      (∀ f ∈ s.fetches[i]?, ∀ w ∈ s.waiting.get? f.key, ∀ g ∈ s.fetches[w.fetch]?,
        g.receives → w.fetch = i ∧ g.channel.length < channelCapacity))
  | .register _ | .request _ _ | .serve _ _ | .lose _ | .receive _ | .timeout _ | .cancel _ =>
    .isTrue trivial

/-! ## A reply ends once -/

/-- Chunks of which the last one, and no other, is marked `eof`. -/
structure Whole (cs : List Chunk) : Prop where
  split : ∃ init last, cs = init ++ [last] ∧ last.eof = true ∧ ∀ c ∈ init, c.eof = false

theorem Whole.cons {cs : List Chunk} (h : Whole cs) {c : Chunk} (hc : c.eof = false) :
    Whole (c :: cs) := by
  obtain ⟨init, last, rfl, hlast, hinit⟩ := h.split
  refine ⟨c :: init, last, rfl, hlast, fun d hd => ?_⟩
  rcases List.mem_cons.mp hd with rfl | hd
  · exact hc
  · exact hinit d hd

/-- What was received up to the end is the reply. -/
theorem Whole.of_eof {before after cs : List Chunk} {c : Chunk} (h : Whole cs)
    (hcs : cs = before ++ c :: after) (hc : c.eof = true) : after = [] := by
  subst hcs
  obtain ⟨init, last, heq, -, hinit⟩ := h.split
  rcases List.eq_nil_or_concat' after with hnil | ⟨rest, d, rfl⟩
  · exact hnil
  · have heq' : (before ++ c :: rest) ++ [d] = init ++ [last] := by simpa using heq
    have hmem : c ∈ init := by
      rw [← (List.append_inj' heq' rfl).1]
      simp
    rw [hinit c hmem] at hc
    cases hc

theorem whole_chunksFrom (bytes : Bytes) (sent : ℕ) : Whole (chunksFrom bytes sent) := by
  fun_induction chunksFrom bytes sent with
  | case1 sent => exact ⟨[], _, rfl, rfl, nofun⟩
  | case2 sent stop data hne ih => exact ih.cons rfl

theorem data_chunksFrom (bytes : Bytes) (sent : ℕ) :
    (chunksFrom bytes sent).flatMap Chunk.data = bytes.drop sent := by
  fun_induction chunksFrom bytes sent with
  | case1 sent stop data heq =>
    rw [List.flatMap_singleton]
    exact List.take_of_length_le (by rw [List.length_drop, heq])
  | case2 sent stop data hne ih =>
    have hstop : stop = sent + artifactChunk := by omega
    rw [List.flatMap_cons, ih, hstop, ← List.drop_drop]
    have hdata : data = (bytes.drop sent).take artifactChunk := by
      simp only [data, hstop, Nat.add_sub_cancel_left]
    rw [hdata, List.take_append_drop]

theorem whole_replyTo (content : Except String Bytes) : Whole (replyTo content) := by
  cases content with
  | ok bytes => exact whole_chunksFrom bytes 0
  | error e => exact ⟨[], _, rfl, rfl, nofun⟩

/-- A reply without an error is that of bytes, which are its data. -/
theorem data_replyTo {content : Except String Bytes} (htext : content ≠ .error "")
    {c : Chunk} (hc : c ∈ replyTo content) (herror : c.error = "") :
    content = .ok ((replyTo content).flatMap Chunk.data) := by
  cases content with
  | ok bytes => rw [replyTo, data_chunksFrom, List.drop_zero]
  | error e =>
    rw [replyTo, List.mem_singleton] at hc
    subst hc
    exact absurd (congrArg Except.error herror) htext

theorem artifactData_ne {name : String} {read : Option (Except String Bytes)}
    (h : read ≠ some (.error "")) : artifactData name read ≠ .error "" := by
  rw [artifactData]
  split
  · exact fun heq => absurd (Except.error.inj heq) (by decide)
  · cases read with
    | none => exact fun heq => absurd (Except.error.inj heq) (by decide)
    | some r => exact fun heq => h (congrArg some heq)

/-! ## The invariant -/

section Invariant

variable {s s' : State} {i : ℕ} {f f' : Fetch}

/-- The chunks of the reply, once the request is served. -/
def Fetch.all (f : Fetch) : List Chunk := (f.content.map replyTo).getD []

/-- What a fetch has received begins the reply to its request. -/
structure Begun (f : Fetch) (alive : Prop) : Prop where
  split : ∃ consumed rest, f.all = consumed ++ f.channel ++ rest ∧
    f.out = consumed.flatMap Chunk.data ∧ (alive → rest = f.reply ∨ f.reply = [])

structure Inv (s : State) : Prop where
  begun : ∀ (i : ℕ) (f : Fetch), s.fetches[i]? = some f → f.receives →
    Begun f (⟨f.key, i⟩ ∈ s.waiting)
  returned : ∀ f ∈ s.fetches, ∀ bytes, f.stage = .returned (.ok bytes) →
    f.content = some (.ok bytes)
  text : ∀ f ∈ s.fetches, ∀ content ∈ f.content, content ≠ .error ""
  unserved : ∀ f ∈ s.fetches, f.requested = true → f.content = none
  fresh : ∀ f ∈ s.fetches, f.stage = .registered → f.content = none ∧ f.requested = false
  owner : ∀ w ∈ s.waiting, ∃ g, s.fetches[w.fetch]? = some g ∧ g.key = w.key

theorem inv_new : Inv State.new where
  begun := nofun
  returned := nofun
  text := nofun
  unserved := nofun
  fresh := nofun
  owner := nofun

theorem Begun.mono {alive alive' : Prop} (h : Begun f alive) (himp : alive' → alive) :
    Begun f alive' := by
  obtain ⟨consumed, rest, hall, hout, hrest⟩ := h.split
  exact ⟨consumed, rest, hall, hout, fun ha => hrest (himp ha)⟩

/-- One fetch moves; senders may go. -/
theorem Inv.set (h : Inv s) (f' : Fetch) (hf : s.fetches[i]? = some f) (hkey : f'.key = f.key)
    {waiting : Table Waiter.key} (hwaiting : ∀ w ∈ waiting, w ∈ s.waiting)
    (hbegun : f'.receives → Begun f' (⟨f.key, i⟩ ∈ waiting))
    (hreturned : ∀ bytes, f'.stage = .returned (.ok bytes) → f'.content = some (.ok bytes))
    (htext : ∀ content ∈ f'.content, content ≠ .error "")
    (hunserved : f'.requested = true → f'.content = none)
    (hfresh : f'.stage = .registered → f'.content = none ∧ f'.requested = false) :
    Inv { fetches := s.fetches.set i f', waiting } where
  begun := by
    intro j g hj hg
    rcases getElem?_set_cases hj with ⟨rfl, rfl⟩ | ⟨-, hold⟩
    · rw [hkey]
      exact hbegun hg
    · exact (h.begun j g hold hg).mono fun hw => hwaiting _ hw
  returned := by
    intro g hg
    rcases mem_set_cases hg with rfl | ⟨j, -, hold⟩
    · exact hreturned
    · exact h.returned g (List.mem_of_getElem? hold)
  text := by
    intro g hg
    rcases mem_set_cases hg with rfl | ⟨j, -, hold⟩
    · exact htext
    · exact h.text g (List.mem_of_getElem? hold)
  unserved := by
    intro g hg
    rcases mem_set_cases hg with rfl | ⟨j, -, hold⟩
    · exact hunserved
    · exact h.unserved g (List.mem_of_getElem? hold)
  fresh := by
    intro g hg
    rcases mem_set_cases hg with rfl | ⟨j, -, hold⟩
    · exact hfresh
    · exact h.fresh g (List.mem_of_getElem? hold)
  owner := by
    intro w hw
    obtain ⟨g, hg, hgk⟩ := h.owner w (hwaiting w hw)
    by_cases hwi : w.fetch = i
    · refine ⟨f', ?_, ?_⟩
      · rw [hwi]
        exact getElem?_set_moved hf
      · rw [hwi, hf] at hg
        cases hg
        rw [hkey, hgk]
    · refine ⟨g, ?_, hgk⟩
      rw [List.getElem?_set_ne fun heq => hwi heq.symm]
      exact hg

/-- A fetch returns: what it returns as bytes is what was read for it. -/
theorem Inv.finish (h : Inv s) (f' : Fetch) (hf : s.fetches[i]? = some f) (hsame : f'.key = f.key ∧
      f'.content = f.content ∧ f'.requested = f.requested) {r : Except String Bytes}
    (hr : ∀ bytes, r = .ok bytes → f.content = some (.ok bytes)) : Inv (s.finish i f' r) := by
  obtain ⟨hkey, hcontent, hrequested⟩ := hsame
  have hmem : f ∈ s.fetches := List.mem_of_getElem? hf
  refine h.set { f' with stage := .returned r } hf hkey (fun w hw => (Table.mem_erase.mp hw).1)
    ?_ ?_ ?_ ?_ fun hs => by cases hs
  · rintro (hs | hs) <;> cases hs
  · rintro bytes hs
    rw [hcontent]
    exact hr bytes (Stage.returned.inj hs)
  · rw [hcontent]
    exact h.text f hmem
  · rw [hcontent, hrequested]
    exact h.unserved f hmem

/-- The chunk that a fetch receives. -/
theorem Inv.receive (h : Inv s) (hf : s.fetches[i]? = some f) (hstage : f.stage = .waiting)
    {c : Chunk} {rest : List Chunk} (hchannel : f.channel = c :: rest) :
    Inv (s.receive i f c rest) := by
  have hmem : f ∈ s.fetches := List.mem_of_getElem? hf
  obtain ⟨consumed, after, hall, hout, hrest⟩ := (h.begun i f hf (Or.inr hstage)).split
  rw [hchannel] at hall
  simp only [State.receive]
  split
  · exact h.finish { f with channel := rest } hf ⟨rfl, rfl, rfl⟩ fun bytes hb => by cases hb
  · rename_i herror
    have herror' : c.error = "" := by simpa using herror
    split
    · rename_i heof
      refine h.finish { f with channel := rest } hf ⟨rfl, rfl, rfl⟩ fun bytes hbytes => ?_
      have hc : c ∈ f.all := by simp [hall]
      cases hcontent : f.content with
      | none =>
        rw [Fetch.all, hcontent] at hc
        cases hc
      | some content =>
        have hreply : f.all = replyTo content := by rw [Fetch.all, hcontent]; rfl
        have hend : rest ++ after = [] := by
          refine Whole.of_eof (whole_replyTo content) (?_ : _ = consumed ++ c :: (rest ++ after)) heof
          rw [← hreply, hall]
          simp
        have hdata := data_replyTo (h.text f hmem content hcontent) (hreply ▸ hc) herror'
        rw [hdata, ← hreply, hall]
        have hnil := List.append_eq_nil_iff.mp hend
        cases hbytes
        rw [hnil.1, hnil.2, hout]
        simp
    · refine h.set { f with channel := rest, out := f.out ++ c.data } hf rfl (fun w hw => hw) ?_ ?_
        (h.text f hmem) (h.unserved f hmem) ?_
      · refine fun _ => ⟨consumed ++ [c], after, ?_, ?_, hrest⟩
        · refine hall.trans ?_
          simp
        · rw [hout]
          simp
      · intro bytes hs
        rw [hstage] at hs
        cases hs
      · intro hs
        rw [hstage] at hs
        cases hs

/-- A chunk of a fetch that has lost its sender, or that is gone. -/
theorem Inv.pass (h : Inv s) (hf : s.fetches[i]? = some f) {rest : List Chunk}
    (hlost : f.receives → (⟨f.key, i⟩ : Waiter) ∉ s.waiting) :
    Inv (s.setFetch i { f with reply := rest }) := by
  have hmem : f ∈ s.fetches := List.mem_of_getElem? hf
  refine h.set { f with reply := rest } hf rfl (fun w hw => hw) (fun hr => ?_) (h.returned f hmem)
    (h.text f hmem) (h.unserved f hmem) (h.fresh f hmem)
  obtain ⟨consumed, after, hall, hout, -⟩ := (h.begun i f hf hr).split
  exact ⟨consumed, after, hall, hout, fun ha => absurd ha (hlost hr)⟩

/-- The next chunk of a reply goes to the fetch that asked for it, or nowhere. -/
theorem Inv.deliver (h : Inv s) (hf : s.fetches[i]? = some f) {c : Chunk} {rest : List Chunk}
    (hreply : f.reply = c :: rest) (hrouted : ∀ w ∈ s.waiting.get? f.key,
      ∀ g ∈ s.fetches[w.fetch]?, g.receives → w.fetch = i ∧ g.channel.length < channelCapacity) :
    Inv ((s.setFetch i { f with reply := rest }).artifactChunk f.key c) := by
  have hmem : f ∈ s.fetches := List.mem_of_getElem? hf
  have hmoved : (s.fetches.set i { f with reply := rest })[i]? = some { f with reply := rest } :=
    getElem?_set_moved hf
  cases hw : s.waiting.get? f.key with
  | none =>
    have hsame : (s.setFetch i { f with reply := rest }).artifactChunk f.key c =
        s.setFetch i { f with reply := rest } := by
      simp [State.artifactChunk, State.setFetch, hw]
    rw [hsame]
    exact h.pass hf fun _ ha => Table.get?_eq_none.mp hw _ ha rfl
  | some w =>
    obtain ⟨hwm, hwk⟩ := Table.get?_eq_some.mp hw
    by_cases hwi : w.fetch = i
    · have halive : (⟨f.key, i⟩ : Waiter) ∈ s.waiting := by
        rw [← hwk, ← hwi]
        exact hwm
      by_cases hr : f.receives
      · have hroom := (hrouted w hw f (by rw [hwi]; exact hf) hr).2
        have hsame : (s.setFetch i { f with reply := rest }).artifactChunk f.key c =
            s.setFetch i { f with reply := rest, channel := f.channel ++ [c] } := by
          have hr' : ({ f with reply := rest } : Fetch).receives := hr
          simp [State.artifactChunk, State.setFetch, hw, hwi, hmoved, hr', hroom]
        rw [hsame]
        refine h.set { f with reply := rest, channel := f.channel ++ [c] } hf rfl (fun w hw => hw)
          (fun _ => ?_) (h.returned f hmem) (h.text f hmem) (h.unserved f hmem) (h.fresh f hmem)
        obtain ⟨consumed, after, hall, hout, hafter⟩ := (h.begun i f hf hr).split
        have hafter' : after = c :: rest := by
          rcases hafter halive with heq | heq
          · rw [heq, hreply]
          · rw [hreply] at heq
            cases heq
        refine ⟨consumed, rest, ?_, hout, fun _ => Or.inl rfl⟩
        refine hall.trans ?_
        simp [hafter']
      · have hsame : (s.setFetch i { f with reply := rest }).artifactChunk f.key c =
            s.setFetch i { f with reply := rest } := by
          have hr' : ¬ ({ f with reply := rest } : Fetch).receives := hr
          simp [State.artifactChunk, State.setFetch, hw, hwi, hmoved, hr']
        rw [hsame]
        exact h.pass hf fun hr' => absurd hr' hr
    · obtain ⟨g, hg, -⟩ := h.owner w hwm
      have hgone : ¬ g.receives := fun hr => hwi (hrouted w hw g hg hr).1
      have hsame : (s.setFetch i { f with reply := rest }).artifactChunk f.key c =
          s.setFetch i { f with reply := rest } := by
        have hg' : (s.fetches.set i { f with reply := rest })[w.fetch]? = some g := by
          rw [List.getElem?_set_ne fun heq => hwi heq.symm]
          exact hg
        simp [State.artifactChunk, State.setFetch, hw, hg', hgone]
      rw [hsame]
      refine h.pass hf fun _ ha => ?_
      have heq := Table.eq_of_key_eq ha hwm hwk.symm
      exact hwi (by rw [← heq])

/-- A new fetch takes the place of an earlier one of its key. -/
theorem Inv.register (h : Inv s) (key : Key) :
    Inv { s with
      fetches := s.fetches ++ [⟨key, .registered, [], [], false, none, []⟩]
      waiting := s.waiting.put ⟨key, s.fetches.length⟩ } where
  begun := by
    intro j g hj hg
    rcases getElem?_append_cases hj with ⟨rfl, rfl⟩ | hold
    · exact ⟨[], [], rfl, rfl, fun _ => Or.inl rfl⟩
    · refine (h.begun j g hold hg).mono fun ha => ?_
      rcases Table.mem_put.mp ha with heq | ⟨hw, -⟩
      · have hj' := (List.getElem?_eq_some_iff.mp hold).1
        rw [(Waiter.mk.inj heq).2] at hj'
        exact absurd hj' (lt_irrefl _)
      · exact hw
  returned := by
    intro g hg bytes hs
    rcases List.mem_append.mp hg with hold | hnew
    · exact h.returned g hold bytes hs
    · rw [List.mem_singleton.mp hnew] at hs
      cases hs
  text := by
    intro g hg
    rcases List.mem_append.mp hg with hold | hnew
    · exact h.text g hold
    · rw [List.mem_singleton.mp hnew]
      nofun
  unserved := by
    intro g hg
    rcases List.mem_append.mp hg with hold | hnew
    · exact h.unserved g hold
    · rw [List.mem_singleton.mp hnew]
      exact fun _ => rfl
  fresh := by
    intro g hg
    rcases List.mem_append.mp hg with hold | hnew
    · exact h.fresh g hold
    · rw [List.mem_singleton.mp hnew]
      exact fun _ => ⟨rfl, rfl⟩
  owner := by
    intro w hw
    rcases Table.mem_put.mp hw with rfl | ⟨hold, -⟩
    · exact ⟨_, List.getElem?_concat_length, rfl⟩
    · obtain ⟨g, hg, hgk⟩ := h.owner w hold
      exact ⟨g, (List.getElem?_append_left (List.getElem?_eq_some_iff.mp hg).1).trans hg, hgk⟩

/-- Every event whose chunk is routed keeps the invariant. -/
theorem inv_next {e : Event} (h : Inv s) (hok : Routed s e) (hs : artifactNext s e = some s') :
    Inv s' := by
  cases e with
  | register key =>
    cases hs
    exact h.register key
  | request i sent =>
    obtain ⟨f, hf, hstage, rfl⟩ := move_eq_some.mp hs
    have hmem := List.mem_of_getElem? hf
    obtain ⟨hnone, hunasked⟩ := h.fresh f hmem hstage
    cases sent with
    | true =>
      exact h.set { f with stage := .waiting, requested := true } hf rfl (fun w hw => hw)
        (fun _ => ⟨(h.begun i f hf (Or.inl hstage)).split⟩) (fun _ hs => by cases hs) (h.text f hmem)
        (fun _ => hnone) fun hs => by cases hs
    | false => exact h.finish f hf ⟨rfl, rfl, rfl⟩ fun _ hb => by cases hb
  | serve i read =>
    obtain ⟨f, hf, ⟨hrequested, hread⟩, rfl⟩ := move_eq_some.mp hs
    have hmem := List.mem_of_getElem? hf
    have hnone := h.unserved f hmem hrequested
    refine h.set { f with
      requested := false
      content := some (artifactData f.key.name read)
      reply := replyTo (artifactData f.key.name read) } hf rfl (fun w hw => hw) ?_ ?_ ?_ nofun ?_
    · intro hr
      obtain ⟨consumed, after, hall, hout, -⟩ := (h.begun i f hf hr).split
      have hempty : consumed = [] ∧ f.channel = [] := by
        have hnil : consumed ++ f.channel ++ after = [] := by
          rw [← hall, Fetch.all, hnone]
          rfl
        exact List.append_eq_nil_iff.mp (List.append_eq_nil_iff.mp hnil).1
      refine ⟨[], _, ?_, ?_, fun _ => Or.inl rfl⟩
      · simp [Fetch.all, hempty.2]
      · rw [hout, hempty.1]
    · intro bytes hs
      rw [h.returned f hmem bytes hs] at hnone
      cases hnone
    · rintro content ⟨⟩
      exact artifactData_ne hread
    · intro hs
      have hfresh := (h.fresh f hmem hs).2
      rw [hrequested] at hfresh
      cases hfresh
  | deliver i =>
    obtain ⟨f, hf, hs⟩ := Option.bind_eq_some_iff.mp hs
    split at hs
    · rename_i c rest hreply
      cases hs
      exact h.deliver hf hreply (hok f hf)
    · cases hs
  | lose i =>
    obtain ⟨f, hf, -, rfl⟩ := move_eq_some.mp hs
    have hmem := List.mem_of_getElem? hf
    refine h.set { f with requested := false, reply := [] } hf rfl (fun w hw => hw) (fun hr => ?_)
      (h.returned f hmem) (h.text f hmem) nofun fun hs => ⟨(h.fresh f hmem hs).1, rfl⟩
    obtain ⟨consumed, after, hall, hout, -⟩ := (h.begun i f hf hr).split
    exact ⟨consumed, after, hall, hout, fun _ => Or.inr rfl⟩
  | receive i =>
    obtain ⟨f, hf, hs⟩ := Option.bind_eq_some_iff.mp hs
    split at hs
    · rename_i c rest hchannel
      split at hs
      · rename_i hstage
        cases hs
        exact h.receive hf hstage hchannel
      · cases hs
    · cases hs
  | timeout i =>
    obtain ⟨f, hf, -, rfl⟩ := move_eq_some.mp hs
    exact h.finish f hf ⟨rfl, rfl, rfl⟩ fun _ hb => by cases hb
  | cancel i =>
    obtain ⟨f, hf, -, rfl⟩ := move_eq_some.mp hs
    have hmem := List.mem_of_getElem? hf
    exact h.set { f with stage := .cancelled } hf rfl (fun w hw => hw)
      (by rintro (hs | hs) <;> cases hs) (fun _ hs => by cases hs) (h.text f hmem)
      (h.unserved f hmem) fun hs => by cases hs

theorem inv_of_reaches (h : artifacts.Reaches Routed s) : Inv s :=
  h.invariant inv_new fun ha hok hb => inv_next ha hok hb

end Invariant

/-! ## What a fetch returns -/

/-- For any number of fetches of any names, every interleaving of their replies
    and every progress of the receivers. -/
theorem fetches_exact {s : State} (h : artifacts.Reaches Routed s) : Exact s :=
  fun f hf bytes hs => ⟨f, hf, rfl, (inv_of_reaches h).returned f hf bytes hs⟩

def segment : Key := ⟨"s0", "seg-1.ts"⟩

/-- Two fetches of a segment, one after the other. -/
def inTurn : List Event :=
  [.register segment, .request 0 true, .serve 0 (some (.ok [1, 2, 3])), .deliver 0, .receive 0,
    .register segment, .request 1 true, .serve 1 (some (.ok [1, 2, 3])), .deliver 1, .receive 1]

theorem fetches_exact_inTurn : ∃ s,
    artifacts.replay (fun s e => decide (Routed s e)) inTurn State.new = some s ∧ Exact s := by
  have hrun : (artifacts.replay (fun s e => decide (Routed s e)) inTurn State.new).isSome := by
    decide +kernel
  obtain ⟨s, hs⟩ := Option.isSome_iff_exists.mp hrun
  exact ⟨s, hs, fetches_exact ((Machine.reaches_of_replay hs).mono fun _ _ => of_decide_eq_true)⟩

/-! ## The tail of an abandoned reply -/

/-- A segment of a chunk and one byte. -/
def twoChunks : Bytes := List.replicate (artifactChunk + 1) 0

theorem chunksFrom_twoChunks : chunksFrom twoChunks 0 =
    [⟨List.replicate artifactChunk 0, false, ""⟩, ⟨[0], true, ""⟩] := by
  have hmin : min artifactChunk 1 = 1 := by decide
  rw [chunksFrom, chunksFrom]
  simp [twoChunks, hmin]

/-- The client of a fetch goes away when the request is sent. -/
def abandons : List Event :=
  [.register segment, .request 0 true, .cancel 0, .serve 0 (some (.ok twoChunks))]

/-- The first chunk of the reply finds no receiver, the second one finds the
    second fetch. -/
def fetchesAgain : List Event :=
  [.deliver 0, .register segment, .request 1 true, .deliver 0, .receive 1]

def afterAbandons : State where
  fetches := [⟨segment, .cancelled, [], [], false, some (.ok twoChunks),
    [⟨List.replicate artifactChunk 0, false, ""⟩, ⟨[0], true, ""⟩]⟩]
  waiting := Table.empty.put ⟨segment, 0⟩

theorem replay_abandons :
    artifacts.replay (fun _ _ => true) abandons State.new = some afterAbandons := by
  have hdata : artifactData segment.name (some (.ok twoChunks)) = .ok twoChunks := by
    rw [artifactData, if_neg (by decide)]
    rfl
  have hserve : artifactNext
      ⟨[⟨segment, .cancelled, [], [], true, none, []⟩], Table.empty.put ⟨segment, 0⟩⟩
      (.serve 0 (some (.ok twoChunks))) = some afterAbandons := by
    simp only [artifactNext]
    refine move_eq_some.mpr ⟨_, rfl, ⟨rfl, by simp [twoChunks]⟩, ?_⟩
    simp only [hdata, replyTo, chunksFrom_twoChunks]
    rfl
  exact hserve

/-- One byte was read for no request. -/
def State.torn (s : State) : Bool :=
  (s.fetches.any fun f => f.stage = .returned (.ok [0])) &&
    s.fetches.all fun g => g.content ≠ some (.ok [0])

/-- The second fetch returns the last byte of the segment. -/
theorem not_exact :
    ∃ s, artifacts.replay (fun _ _ => true) (abandons ++ fetchesAgain) State.new = some s ∧
      artifacts.Reachable s ∧ ¬ Exact s := by
  have hrun : (artifacts.replay (fun _ _ => true) (abandons ++ fetchesAgain) State.new).any
      State.torn = true := by
    rw [Machine.replay_append, replay_abandons]
    decide
  obtain ⟨s, hs, htorn⟩ := (Option.any_eq_true _ _).mp hrun
  refine ⟨s, hs, (Machine.reaches_of_replay hs).reachable, fun hexact => ?_⟩
  simp only [State.torn, Bool.and_eq_true, List.any_eq_true, List.all_eq_true,
    decide_eq_true_eq] at htorn
  obtain ⟨⟨f, hf, hstage⟩, hall⟩ := htorn
  obtain ⟨g, hg, -, hcontent⟩ := hexact f hf [0] hstage
  exact hall g hg hcontent

end Kahawai.Hub.Sessions.Artifact
