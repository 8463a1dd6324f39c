import Kahawai.Lib.Schedule
import Kahawai.Media.Subindex.Walk
import Kahawai.Media.VobsubFile

/-!
# Burn timelines

`build` and `Timeline::at` (`crates/kahawai-media/src/burnin.rs`, lines 34–164): the display
sets of an image track with the time each is on screen, and the search for the set at an
instant. A set ends where the next of the list begins, or earlier if it declares so.

The decoders of display sets are a parameter, and so is `partition_point`: the standard library
says what it finds in a list that is divided, and no more.

Results:
* `entriesOf_eq_some_iff`: the entries that the passes over the list leave.
* `shows_iff`: exactly when the search finds at every instant what a scan of the sets finds.
* `shows_of_ordered`, `image_track_shows`: sets in order of their starts are enough, and the
  blocks of a container come in that order.
-/

namespace Kahawai.Media.Burnin

open Kahawai.Core Kahawai.Core.Text Kahawai.Lib Kahawai.Lib.Codec Kahawai.Lib.Schedule
  Kahawai.Media.VobsubFile

/-! ## Decoding -/

/-- `ImageObject`. -/
structure ImageObject where
  x : ℕ
  y : ℕ
  w : ℕ
  h : ℕ
  rgba : Bytes
  deriving DecidableEq

/-- `DisplaySet`. -/
structure DisplaySet where
  canvasW : ℕ
  canvasH : ℕ
  objects : List ImageObject

/-- The decoders of `imagesubs` and `subtitles::decode_text`. The outer `none` of a decoder is
    its error. -/
structure Decoders where
  /-- `PgsDecoder`. -/
  Pgs : Type
  pgsDefault : Pgs
  feed : Pgs → Bytes → Pgs × Option (Option DisplaySet)
  vobsubDecode : Bytes → (palette : List (ℕ × ℕ × ℕ)) → Option (Option ImageObject)
  decodeText : Bytes → Text

/-- How the blocks of a track are decoded (lines 118–130). -/
structure Track where
  isPgs : Bool
  palette : List (ℕ × ℕ × ℕ)
  vobCanvas : Option (ℕ × ℕ)

/-- The track of a codec and its private data. -/
def trackOf (D : Decoders) (codec : Text) (codecPrivate : Option Bytes) : Track :=
  let idxText := codecPrivate.map D.decodeText
  { isPgs := decide (lit "PGS" <:+: codec)
    palette := (idxText.map vobsubPalette).getD []
    vobCanvas := idxText.bind vobsubSize }

/-- The width of the canvas and the objects of a block, if it makes a set (lines 137–150). -/
def decodeBlock (D : Decoders) (t : Track) (pgs : D.Pgs) (payload : Bytes) :
    D.Pgs × Option (ℕ × List ImageObject) :=
  if t.isPgs then
    match D.feed pgs payload with
    | (pgs, some (some set)) => (pgs, some (set.canvasW, set.objects))
    | (pgs, _) => (pgs, none)
  else
    match D.vobsubDecode payload t.palette with
    | some (some obj) => (pgs, some ((t.vobCanvas.map Prod.fst).getD 0, [obj]))
    | _ => (pgs, none)

/-! ## The timeline -/

/-- `Entry`. -/
structure Entry where
  startMs : ℕ
  endMs : ℕ
  canvasW : ℕ
  objects : List ImageObject
  deriving DecidableEq

/-- `u64::MAX`. -/
def u64Max : ℕ := 2 ^ 64 - 1

/-- A sum of two `u64`; `none` is an overflow. -/
def checkedAdd (a b : ℕ) : Option ℕ := if a + b ≤ u64Max then some (a + b) else none

/-- `dur.map(|d| ms + d).unwrap_or(u64::MAX)`. -/
def declaredEnd (ms : ℕ) : (dur : Option ℕ) → Option ℕ
  | some d => checkedAdd ms d
  | none => some u64Max

/-- The loop over the blocks (lines 134–155). -/
def pushEntries (D : Decoders) (t : Track) : D.Pgs → List SetBlock → Option (List Entry)
  | _, [] => some []
  | pgs, (ms, dur, payload) :: blocks =>
    match decodeBlock D t pgs payload with
    | (pgs, none) => pushEntries D t pgs blocks
    | (pgs, some (canvasW, objects)) => do
      let endMs ← declaredEnd ms dur
      let entries ← pushEntries D t pgs blocks
      some ({ startMs := ms, endMs, canvasW, objects } :: entries)

/-- Each set ends where the next begins (lines 156–159). -/
def clip : List Entry → List Entry
  | a :: b :: entries => { a with endMs := min a.endMs b.startMs } :: clip (b :: entries)
  | entries => entries

/-- The last set, if its end is open (lines 160–165). -/
def closeLast : List Entry → Option (List Entry)
  | [] => some []
  | [last] =>
    if last.endMs = u64Max then do
      let endMs ← checkedAdd last.startMs 5000
      some [{ last with endMs }]
    else some [last]
  | a :: entries => (closeLast entries).map (a :: ·)

/-- `build` (lines 110–167); `none` is an overflow. -/
def build (D : Decoders) (codec : Text) (codecPrivate : Option Bytes) (blocks : List SetBlock) :
    Option (List Entry) := do
  let entries ← pushEntries D (trackOf D codec codecPrivate) D.pgsDefault blocks
  closeLast (clip entries)

/-- `Timeline::at` (lines 78–82). -/
def timelineAt (partitionPoint : (Entry → Bool) → List Entry → ℕ) (entries : List Entry)
    (ms : ℕ) : Option ℕ :=
  let i := partitionPoint (fun e => e.startMs ≤ ms) entries
  if i = 0 then none
  else (entries[i - 1]?).bind fun e =>
    if ms < e.endMs ∧ e.objects ≠ [] then some (i - 1) else none

/-! ## What is on screen -/

/-- A set that a block decodes to. -/
structure DecodedSet where
  startMs : ℕ
  duration : Option ℕ
  canvasW : ℕ
  objects : List ImageObject
  deriving DecidableEq

/-- The decodable sets of a list of blocks, in its order. -/
def decodedSets (D : Decoders) (t : Track) : D.Pgs → List SetBlock → List DecodedSet
  | _, [] => []
  | pgs, (ms, dur, payload) :: blocks =>
    match decodeBlock D t pgs payload with
    | (pgs, none) => decodedSets D t pgs blocks
    | (pgs, some (canvasW, objects)) =>
      { startMs := ms, duration := dur, canvasW, objects } :: decodedSets D t pgs blocks

/-- The decodable sets of a track. -/
def setsOf (D : Decoders) (codec : Text) (codecPrivate : Option Bytes) (blocks : List SetBlock) :
    List DecodedSet :=
  decodedSets D (trackOf D codec codecPrivate) D.pgsDefault blocks

/-- A set is on at `t`, as far as its own duration goes; the last one of all has five seconds
    if it declares none. -/
def DecodedSet.lasts (sets : List DecodedSet) (t : ℕ) (e : DecodedSet) : Bool :=
  match e.duration with
  | some d => t < e.startMs + d
  | none => (sets.any fun e' => e.startMs < e'.startMs) || decide (t < e.startMs + 5000)

/-- The set on screen at `t`, by a scan of all sets. -/
def shownAt (sets : List DecodedSet) (t : ℕ) : Option ℕ :=
  (latest DecodedSet.startMs t sets).bind fun (e, i) =>
    if e.objects ≠ [] ∧ e.lasts sets t then some i else none

/-- The timeline can be built and shows at every instant what is on screen, whatever
    `partition_point` answers where its list is not divided. -/
def Shows (D : Decoders) (codec : Text) (codecPrivate : Option Bytes) (blocks : List SetBlock) :
    Prop :=
  ∃ entries, build D codec codecPrivate blocks = some entries ∧
    ∀ partitionPoint, Conforms partitionPoint → ∀ t ≤ u64Max,
      timelineAt partitionPoint entries t = shownAt (setsOf D codec codecPrivate blocks) t

/-! ## The entries -/

/-- The end that an entry starts out with. -/
def DecodedSet.rawEnd (e : DecodedSet) : ℕ :=
  match e.duration with
  | some d => e.startMs + d
  | none => u64Max

/-- The end of a set before the next set of the list. -/
def DecodedSet.endWith (e : DecodedSet) : (next : Option DecodedSet) → ℕ
  | some next => min e.rawEnd next.startMs
  | none => if e.rawEnd = u64Max then e.startMs + 5000 else e.rawEnd

/-- The entry of a set that ends at `endMs`. -/
def DecodedSet.entry (e : DecodedSet) (endMs : ℕ) : Entry :=
  { startMs := e.startMs, endMs, canvasW := e.canvasW, objects := e.objects }

/-- The sums of `build` fit in 64 bits. -/
structure SumsFit (sets : List DecodedSet) : Prop where
  declared : ∀ e ∈ sets, ∀ d, e.duration = some d → e.startMs + d ≤ u64Max
  last : ∀ e, sets.getLast? = some e → e.rawEnd = u64Max → e.startMs + 5000 ≤ u64Max

section
variable {e : DecodedSet} {d : ℕ}

theorem rawEnd_of_some (h : e.duration = some d) : e.rawEnd = e.startMs + d := by
  simp only [DecodedSet.rawEnd, h]

theorem rawEnd_of_none (h : e.duration = none) : e.rawEnd = u64Max := by
  simp only [DecodedSet.rawEnd, h]

theorem lasts_of_some {sets : List DecodedSet} {t : ℕ} (h : e.duration = some d) :
    e.lasts sets t = decide (t < e.startMs + d) := by
  simp only [DecodedSet.lasts, h]

theorem lasts_of_none {sets : List DecodedSet} {t : ℕ} (h : e.duration = none) : e.lasts sets t =
    ((sets.any fun e' => e.startMs < e'.startMs) || decide (t < e.startMs + 5000)) := by
  simp only [DecodedSet.lasts, h]

end

section
variable {D : Decoders} {track : Track} {pgs : D.Pgs} {entries es : List Entry}
  {sets : List DecodedSet} {i k : ℕ} {e : DecodedSet}

theorem checkedAdd_eq_some_iff {a b c : ℕ} :
    checkedAdd a b = some c ↔ a + b ≤ u64Max ∧ c = a + b := by
  unfold checkedAdd
  split <;> simp [*, eq_comm]

theorem declaredEnd_eq_some_iff {endMs : ℕ} : declaredEnd e.startMs e.duration = some endMs ↔
    (∀ d, e.duration = some d → e.startMs + d ≤ u64Max) ∧ endMs = e.rawEnd := by
  unfold declaredEnd DecodedSet.rawEnd
  cases e.duration with
  | none => simp [eq_comm]
  | some d => simp [checkedAdd_eq_some_iff]

theorem pushEntries_eq_some_iff (blocks : List SetBlock) :
    pushEntries D track pgs blocks = some entries ↔
      (∀ e ∈ decodedSets D track pgs blocks, ∀ d, e.duration = some d →
        e.startMs + d ≤ u64Max) ∧
      entries = (decodedSets D track pgs blocks).map fun e => e.entry e.rawEnd := by
  induction blocks generalizing pgs entries with
  | nil => simp [pushEntries, decodedSets, eq_comm]
  | cons block blocks ih =>
    obtain ⟨ms, dur, payload⟩ := block
    simp only [pushEntries, decodedSets]
    obtain ⟨pgs', decoded⟩ := decodeBlock D track pgs payload
    cases decoded with
    | none => exact ih
    | some set =>
      obtain ⟨canvasW, objects⟩ := set
      have hend {endMs : ℕ} : declaredEnd ms dur = some endMs ↔
          (∀ d, dur = some d → ms + d ≤ u64Max) ∧
            endMs = (DecodedSet.mk ms dur canvasW objects).rawEnd :=
        declaredEnd_eq_some_iff (e := ⟨ms, dur, canvasW, objects⟩)
      simp only [Option.bind_eq_bind, Option.bind_eq_some_iff, hend, ih, List.forall_mem_cons,
        List.map_cons]
      constructor
      · rintro ⟨_, ⟨hms, rfl⟩, _, ⟨hrest, rfl⟩, h⟩
        cases h
        exact ⟨⟨hms, hrest⟩, rfl⟩
      · rintro ⟨⟨hms, hrest⟩, rfl⟩
        exact ⟨_, ⟨hms, rfl⟩, _, ⟨hrest, rfl⟩, rfl⟩

@[simp] theorem length_clip : ∀ entries : List Entry, (clip entries).length = entries.length
  | [] => rfl
  | [_] => rfl
  | a :: b :: entries => by
    simp only [clip, List.length_cons, Nat.add_right_cancel_iff]
    exact length_clip (b :: entries)

/-- The entry before `next`. -/
def Entry.clipTo (a : Entry) : (next : Option Entry) → Entry
  | some next => { a with endMs := min a.endMs next.startMs }
  | none => a

theorem getElem?_clip : ∀ (entries : List Entry) (i : ℕ),
    (clip entries)[i]? = entries[i]?.map fun a => a.clipTo entries[i + 1]?
  | [], _ => rfl
  | [a], 0 => rfl
  | [a], i + 1 => by simp [clip]
  | a :: b :: entries, 0 => rfl
  | a :: b :: entries, i + 1 => by
    simpa [clip] using getElem?_clip (b :: entries) i

/-- The last entry of a timeline. -/
def Entry.close (a : Entry) : Entry :=
  if a.endMs = u64Max then { a with endMs := a.startMs + 5000 } else a

theorem closeLast_eq_some_iff : ∀ {entries es : List Entry}, closeLast entries = some es ↔
    (∀ last, entries.getLast? = some last → last.endMs = u64Max →
      last.startMs + 5000 ≤ u64Max) ∧
    ∀ i, es[i]? = entries[i]?.map fun a => if i + 1 = entries.length then a.close else a
  | [], es => by
    simp [closeLast, eq_comm, List.ext_getElem?_iff]
  | [last], es => by
    have hext : (∀ i, es[i]? = [last][i]?.map fun a => if i + 1 = [last].length then a.close else a) ↔
        es = [last.close] := by
      rw [List.ext_getElem?_iff]
      refine forall_congr' fun i => ?_
      cases i <;> simp
    rw [hext]
    simp only [closeLast, List.getLast?_singleton, Option.some.injEq, forall_eq']
    split
    · rename_i hopen
      simp only [Option.bind_eq_bind, Option.bind_eq_some_iff, checkedAdd_eq_some_iff,
        Entry.close, hopen, if_true, forall_const]
      constructor
      · rintro ⟨_, ⟨hle, rfl⟩, h⟩
        cases h
        exact ⟨hle, rfl⟩
      · rintro ⟨hle, rfl⟩
        exact ⟨_, ⟨hle, rfl⟩, rfl⟩
    · rename_i hopen
      simp [Entry.close, hopen, eq_comm]
  | a :: b :: entries, es => by
    have ih {es : List Entry} : closeLast (b :: entries) = some es ↔ _ ∧ _ :=
      closeLast_eq_some_iff
    simp only [closeLast, Option.map_eq_some_iff, List.getLast?_cons_cons]
    constructor
    · rintro ⟨rest, hrest, rfl⟩
      obtain ⟨hlast, hget⟩ := ih.1 hrest
      refine ⟨hlast, fun i => ?_⟩
      cases i with
      | zero => simp
      | succ i => simpa using hget i
    · rintro ⟨hlast, hget⟩
      cases es with
      | nil => simpa using hget 0
      | cons c es =>
        obtain rfl : c = a := by simpa using hget 0
        exact ⟨es, ih.2 ⟨hlast, fun i => by simpa using hget (i + 1)⟩, rfl⟩

variable {codec : Text} {codecPrivate : Option Bytes} {blocks : List SetBlock}

/-- `es` are the entries of `sets`. -/
def EntriesOf (es : List Entry) (sets : List DecodedSet) : Prop :=
  ∀ i, es[i]? = sets[i]?.map fun e : DecodedSet => e.entry (e.endWith sets[i + 1]?)

/-- What the passes of `build` leave: if no sum overflows, an entry for each set, with its end. -/
theorem build_eq_some_iff : build D codec codecPrivate blocks = some es ↔
    SumsFit (setsOf D codec codecPrivate blocks) ∧
      EntriesOf es (setsOf D codec codecPrivate blocks) := by
  simp only [build, setsOf, Option.bind_eq_bind, Option.bind_eq_some_iff,
    pushEntries_eq_some_iff, closeLast_eq_some_iff, length_clip, getElem?_clip]
  generalize decodedSets D (trackOf D codec codecPrivate) D.pgsDefault blocks = sets
  have hget (i : ℕ) : ((sets.map fun e => e.entry e.rawEnd)[i]?.map fun a =>
        a.clipTo (sets.map fun e => e.entry e.rawEnd)[i + 1]?).map (fun a =>
          if i + 1 = (sets.map fun e => e.entry e.rawEnd).length then a.close else a) =
      sets[i]?.map fun e => e.entry (e.endWith sets[i + 1]?) := by
    simp only [List.getElem?_map, List.length_map, Option.map_map]
    cases hi : sets[i]? with
    | none => rfl
    | some e =>
      have hlt := (List.getElem?_eq_some_iff.1 hi).1
      simp only [Option.map_some, Function.comp_apply, Option.some.injEq]
      cases hnext : sets[i + 1]? with
      | none =>
        have := List.getElem?_eq_none_iff.1 hnext
        have hlast : i + 1 = sets.length := by omega
        simp only [hlast, if_true, Option.map_none, Entry.clipTo, Entry.close, DecodedSet.endWith,
          DecodedSet.entry]
        by_cases hraw : e.rawEnd = u64Max <;> simp only [hraw, if_true, if_false]
      | some next =>
        have := (List.getElem?_eq_some_iff.1 hnext).1
        rw [if_neg (by omega)]
        rfl
  have hlast : (∀ last, (clip (sets.map fun e => e.entry e.rawEnd)).getLast? = some last →
        last.endMs = u64Max → last.startMs + 5000 ≤ u64Max) ↔
      ∀ e, sets.getLast? = some e → e.rawEnd = u64Max → e.startMs + 5000 ≤ u64Max := by
    simp only [List.getLast?_eq_getElem?, length_clip, getElem?_clip, List.length_map,
      List.getElem?_map, Option.map_map, Option.map_eq_some_iff]
    cases sets with
    | nil => simp
    | cons a sets =>
      simp [Entry.clipTo, DecodedSet.entry]
  constructor
  · rintro ⟨_, ⟨hdeclared, rfl⟩, hclosed, hes⟩
    exact ⟨⟨hdeclared, hlast.1 hclosed⟩, fun i => by rw [hes, hget]⟩
  · rintro ⟨hfit, hes⟩
    exact ⟨_, ⟨hfit.declared, rfl⟩, hlast.2 hfit.last, fun i => by rw [hes, hget]⟩

end

/-! ## Searching -/

section
variable {sets : List DecodedSet} {es : List Entry} {t i : ℕ}
  {partitionPoint : (Entry → Bool) → List Entry → ℕ}

theorem EntriesOf.get (h : EntriesOf es sets) (i : ℕ) :
    es[i]? = sets[i]?.map fun e : DecodedSet => e.entry (e.endWith sets[i + 1]?) := h i

theorem EntriesOf.length_eq (h : EntriesOf es sets) : es.length = sets.length := by
  have hle (n : ℕ) : es.length ≤ n ↔ sets.length ≤ n := by
    rw [← List.getElem?_eq_none_iff, ← List.getElem?_eq_none_iff, h.get, Option.map_eq_none_iff]
  exact Nat.le_antisymm ((hle _).2 le_rfl) ((hle _).1 le_rfl)

theorem timelineAt_eq_some_iff (h : EntriesOf es sets) :
    timelineAt partitionPoint es t = some i ↔
      partitionPoint (fun e => e.startMs ≤ t) es = i + 1 ∧
        ∃ e, sets[i]? = some e ∧ e.objects ≠ [] ∧ t < e.endWith sets[i + 1]? := by
  unfold timelineAt
  simp only
  split
  · rename_i hzero
    simp [hzero]
  · rename_i hpos
    simp only [Option.bind_eq_some_iff, h.get, Option.map_eq_some_iff, Option.ite_none_right_eq_some,
      Option.some.injEq]
    constructor
    · rintro ⟨_, ⟨e, he, rfl⟩, ⟨hlt, hobj⟩, rfl⟩
      exact ⟨by omega, e, he, hobj, hlt⟩
    · rintro ⟨hpp, e, he, hobj, hlt⟩
      have hi : partitionPoint (fun e => decide (e.startMs ≤ t)) es - 1 = i := by omega
      rw [hi]
      exact ⟨_, ⟨e, he, rfl⟩, ⟨hlt, hobj⟩, rfl⟩

theorem shownAt_eq_some_iff : shownAt sets t = some i ↔
    ∃ e, Latest DecodedSet.startMs t sets e i ∧ e.objects ≠ [] ∧ e.lasts sets t = true := by
  simp only [shownAt, Option.bind_eq_some_iff, Prod.exists, latest_eq_some_iff,
    Option.ite_none_right_eq_some, Option.some.injEq]
  constructor
  · rintro ⟨e, _, hlat, ⟨hobj, hlasts⟩, rfl⟩
    exact ⟨e, hlat, hobj, hlasts⟩
  · rintro ⟨e, hlat, hobj, hlasts⟩
    exact ⟨e, i, hlat, ⟨hobj, hlasts⟩, rfl⟩

/-- A picture at the end of the list does not declare the end that stands for none. -/
def LastDeclares (sets : List DecodedSet) : Prop :=
  ∀ e, sets.getLast? = some e → e.objects ≠ [] → ∀ d, e.duration = some d →
    e.startMs + d = u64Max → d = 5000

theorem divided_of_started (h : EntriesOf es sets) {n : ℕ}
    (hn : Started DecodedSet.startMs t sets n) (i : ℕ) (a : Entry) (ha : es[i]? = some a) :
    decide (a.startMs ≤ t) = true ↔ i < n := by
  rw [h.get, Option.map_eq_some_iff] at ha
  obtain ⟨e, he, rfl⟩ := ha
  rw [decide_eq_true_eq]
  exact (hn i e he).symm

/-- Where nothing is out of order the end of an entry is the end of its set. -/
theorem lt_endWith_iff_lasts (hstart : ∀ e ∈ sets, e.startMs ≤ u64Max)
    (hlast : LastDeclares sets) (hn : Started DecodedSet.startMs t sets (i + 1))
    {e : DecodedSet} (hlat : Latest DecodedSet.startMs t sets e i) (hobj : e.objects ≠ []) :
    t < e.endWith sets[i + 1]? ↔ e.lasts sets t = true := by
  cases hnext : sets[i + 1]? with
  | some next =>
    have hlater : t < next.startMs := by
      have := hn (i + 1) next hnext
      omega
    have hmax := hstart next (List.mem_of_getElem? hnext)
    have hany : (sets.any fun e' => e.startMs < e'.startMs) = true := by
      have := hlat.started
      exact List.any_eq_true.2 ⟨next, List.mem_of_getElem? hnext, by simp; omega⟩
    simp only [DecodedSet.endWith]
    cases hd : e.duration with
    | none =>
      rw [rawEnd_of_none hd, lasts_of_none hd, hany, Bool.true_or]
      simp only [iff_true]
      omega
    | some d =>
      rw [rawEnd_of_some hd, lasts_of_some hd, decide_eq_true_eq]
      omega
  | none =>
    have hlen : sets.length = i + 1 := by
      have := List.getElem?_eq_none_iff.1 hnext
      have := (List.getElem?_eq_some_iff.1 hlat.get).1
      omega
    have hgetLast : sets.getLast? = some e := by
      rw [List.getLast?_eq_getElem?, hlen]
      exact hlat.get
    have hany : (sets.any fun e' => e.startMs < e'.startMs) = false := by
      rw [List.any_eq_false]
      intro e' he'
      obtain ⟨j, hj⟩ := List.mem_iff_getElem?.1 he'
      have hjlt := (List.getElem?_eq_some_iff.1 hj).1
      have := hlat.greatest j e' hj ((hn j e' hj).1 (by omega))
      simp only [decide_eq_true_eq]
      omega
    simp only [DecodedSet.endWith]
    cases hd : e.duration with
    | none => simp [rawEnd_of_none hd, lasts_of_none hd, hany]
    | some d =>
      have := hlast e hgetLast hobj d hd
      rw [rawEnd_of_some hd, lasts_of_some hd, decide_eq_true_eq]
      split <;> omega

theorem timelineAt_eq_shownAt (h : EntriesOf es sets) (hpp : Conforms partitionPoint)
    (hstart : ∀ e ∈ sets, e.startMs ≤ u64Max) (hlast : LastDeclares sets)
    (hord : ¬OutOfOrder DecodedSet.startMs t sets) :
    timelineAt partitionPoint es t = shownAt sets t := by
  obtain ⟨n, hnle, hn, hlatest⟩ := exists_started hord
  have hsearch : partitionPoint (fun e => e.startMs ≤ t) es = n :=
    hpp.divided _ _ n (by rw [h.length_eq]; exact hnle) (divided_of_started h hn)
  ext i
  simp only [timelineAt_eq_some_iff h, shownAt_eq_some_iff, hsearch]
  constructor
  · rintro ⟨rfl, e, he, hobj, hlt⟩
    have hlat := (hlatest e i).2 ⟨he, rfl⟩
    exact ⟨e, hlat, hobj, (lt_endWith_iff_lasts hstart hlast hn hlat hobj).1 hlt⟩
  · rintro ⟨e, hlat, hobj, hlasts⟩
    obtain ⟨he, rfl⟩ := (hlatest e i).1 hlat
    exact ⟨rfl, e, he, hobj, (lt_endWith_iff_lasts hstart hlast hn hlat hobj).2 hlasts⟩

theorem timelineAt_eq_none_iff (h : EntriesOf es sets) : timelineAt partitionPoint es t = none ↔
    ∀ (i : ℕ) (e : DecodedSet), partitionPoint (fun e => e.startMs ≤ t) es = i + 1 → sets[i]? = some e →
      e.objects ≠ [] → e.endWith sets[i + 1]? ≤ t := by
  rw [Option.eq_none_iff_forall_ne_some]
  simp only [ne_eq, timelineAt_eq_some_iff h]
  constructor
  · intro hnone i e hpp he hobj
    by_contra hlt
    exact hnone i ⟨hpp, e, he, hobj, by omega⟩
  · rintro hend i ⟨hpp, e, he, hobj, hlt⟩
    have := hend i e hpp he hobj
    omega

/-! ## When the timeline is right -/

/-- A picture is over at `x`: by its own duration, because the next set of the list has begun,
    or as the last one. -/
def DecodedSet.Over (e : DecodedSet) (next : Option DecodedSet) (x : ℕ) : Prop :=
  (∃ d, e.duration = some d ∧ e.startMs + d ≤ x) ∨ (∃ e', next = some e' ∧ e'.startMs ≤ x) ∨
    next = none ∧ e.duration = none ∧ e.startMs + 5000 ≤ x

/-- From `x` on the screen is blank, and no picture of the list lasts until then. -/
structure Blank (sets : List DecodedSet) (x : ℕ) : Prop where
  shown : ∀ t, x ≤ t → t ≤ u64Max → shownAt sets t = none
  ended : ∀ (i : ℕ) (e : DecodedSet), sets[i]? = some e → e.objects ≠ [] → e.Over sets[i + 1]? x

/-- The sets come in the order of their starts, as long as there is anything to show. -/
def OrderedWhileLit (sets : List DecodedSet) : Prop :=
  ∀ (i j : ℕ) (a b : DecodedSet), i < j → sets[i]? = some a → sets[j]? = some b → b.startMs < a.startMs →
    Blank sets b.startMs

/-- The exact condition. -/
structure Sound (sets : List DecodedSet) : Prop where
  sums : SumsFit sets
  last : LastDeclares sets
  order : OrderedWhileLit sets

theorem over_iff_endWith_le {e : DecodedSet} {x : ℕ} (hx : x < u64Max) (he : sets[i]? = some e)
    (hlast : LastDeclares sets) (hobj : e.objects ≠ []) :
    e.Over sets[i + 1]? x ↔ e.endWith sets[i + 1]? ≤ x := by
  unfold DecodedSet.Over
  cases hnext : sets[i + 1]? with
  | some next =>
    simp only [DecodedSet.endWith, Option.some.injEq, exists_eq_left', reduceCtorEq, false_and,
      or_false]
    cases hd : e.duration with
    | none =>
      rw [rawEnd_of_none hd]
      simp only [reduceCtorEq, false_and, exists_false, false_or]
      omega
    | some d =>
      rw [rawEnd_of_some hd]
      simp only [Option.some.injEq, exists_eq_left']
      omega
  | none =>
    have hgetLast : sets.getLast? = some e := by
      have := List.getElem?_eq_none_iff.1 hnext
      have := (List.getElem?_eq_some_iff.1 he).1
      have hlen : sets.length - 1 = i := by omega
      rw [List.getLast?_eq_getElem?, hlen, he]
    simp only [DecodedSet.endWith, reduceCtorEq, false_and, exists_false, false_or, true_and]
    cases hd : e.duration with
    | none => simp [rawEnd_of_none hd]
    | some d =>
      have := hlast e hgetLast hobj d hd
      rw [rawEnd_of_some hd]
      simp only [Option.some.injEq, exists_eq_left', reduceCtorEq, false_and, or_false]
      split <;> omega

/-- What `Shows` says of the entries. -/
def Agrees (es : List Entry) (sets : List DecodedSet) : Prop :=
  ∀ partitionPoint, Conforms partitionPoint → ∀ t ≤ u64Max,
    timelineAt partitionPoint es t = shownAt sets t

theorem Sound.agrees (hsound : Sound sets) (h : EntriesOf es sets)
    (hstart : ∀ e ∈ sets, e.startMs ≤ u64Max) : Agrees es sets := by
  intro partitionPoint hpp t ht
  by_cases hord : OutOfOrder DecodedSet.startMs t sets
  · -- something is out of order at `t`, so nothing is to be shown
    obtain ⟨i, j, a, b, hij, ha, hb, hlt, hbt⟩ := hord
    have hblank := hsound.order i j a b hij ha hb hlt
    have hmax := hstart a (List.mem_of_getElem? ha)
    rw [hblank.shown t hbt ht, timelineAt_eq_none_iff h]
    intro k e _ he hobj
    have hend := (over_iff_endWith_le (by omega) he hsound.last hobj).1 (hblank.ended k e he hobj)
    omega
  · exact timelineAt_eq_shownAt h hpp hstart hsound.last hord

/-- Where the starts are out of order the search may come upon any entry, and upon none. -/
theorem Agrees.outOfOrder (hagree : Agrees es sets) (h : EntriesOf es sets) {j : ℕ}
    {a b : DecodedSet} (hij : i < j) (ha : sets[i]? = some a) (hb : sets[j]? = some b)
    (hbt : b.startMs ≤ t) (hta : t < a.startMs) (ht : t ≤ u64Max) :
    shownAt sets t = none ∧ ∀ (k : ℕ) (e : DecodedSet), sets[k]? = some e → e.objects ≠ [] →
      e.endWith sets[k + 1]? ≤ t := by
  have hany {n : ℕ} (hn : n ≤ es.length) :
      searchOr n (fun e : Entry => decide (e.startMs ≤ t)) es = n := by
    refine searchOr_of_not_divided hn hij (a := a.entry (a.endWith sets[i + 1]?))
      (b := b.entry (b.endWith sets[j + 1]?)) (by rw [h.get, ha]; rfl) (by rw [h.get, hb]; rfl)
      (decide_eq_false ?_) (decide_eq_true hbt)
    show ¬a.startMs ≤ t
    omega
  have hnone : shownAt sets t = none := by
    rw [← hagree (searchOr 0) (search_conforms 0) t ht, timelineAt_eq_none_iff h]
    intro k e hk
    rw [hany (Nat.zero_le _)] at hk
    omega
  refine ⟨hnone, fun k e hk hobj => ?_⟩
  have hlt := (List.getElem?_eq_some_iff.1 hk).1
  have hat := hagree (searchOr (k + 1)) (search_conforms (k + 1)) t ht
  rw [hnone, timelineAt_eq_none_iff h] at hat
  exact hat k e (hany (by rw [h.length_eq]; exact hlt)) hk hobj

/-- The last picture ends when it says. -/
theorem Agrees.lastDeclares (hagree : Agrees es sets) (h : EntriesOf es sets)
    (hfit : SumsFit sets) : LastDeclares sets := by
  intro e hlast hobj d hd hsum
  by_contra hne
  have hraw : e.rawEnd = u64Max := by rw [rawEnd_of_some hd, hsum]
  have hfive := hfit.last e hlast hraw
  rw [List.getLast?_eq_getElem?] at hlast
  have hlen := (List.getElem?_eq_some_iff.1 hlast).1
  have hnext : sets[sets.length - 1 + 1]? = none := List.getElem?_eq_none (by omega)
  have hend : e.endWith sets[sets.length - 1 + 1]? = e.startMs + 5000 := by
    rw [hnext, DecodedSet.endWith, if_pos hraw]
  by_cases hlater : ∃ (k : ℕ) (a : DecodedSet), sets[k]? = some a ∧ e.startMs < a.startMs
  · -- an earlier set of the list starts later: no search may come upon the last one
    obtain ⟨k, a, hk, hlt⟩ := hlater
    have hklt := (List.getElem?_eq_some_iff.1 hk).1
    have hkne : k ≠ sets.length - 1 := by
      rintro rfl
      rw [hlast] at hk
      cases hk
      omega
    have := (hagree.outOfOrder h (t := e.startMs) (by omega) hk hlast le_rfl hlt
      (by omega)).2 _ e hlast hobj
    omega
  · -- all have started when the entry ends, but the set goes on
    simp only [not_exists, not_and, not_lt] at hlater
    have hlat : Latest DecodedSet.startMs (e.startMs + 5000) sets e (sets.length - 1) := by
      refine ⟨hlast, by omega, fun j b hj _ => ?_⟩
      have := hlater j b hj
      have := (List.getElem?_eq_some_iff.1 hj).1
      omega
    have hshown : shownAt sets (e.startMs + 5000) = some (sets.length - 1) := by
      refine shownAt_eq_some_iff.2 ⟨e, hlat, hobj, ?_⟩
      rw [lasts_of_some hd, decide_eq_true_eq]
      omega
    rw [← hagree (searchOr 0) (search_conforms 0) _ hfive, timelineAt_eq_some_iff h] at hshown
    obtain ⟨-, e', he', -, hlt⟩ := hshown
    rw [hlast] at he'
    cases he'
    omega

theorem Agrees.orderedWhileLit (hagree : Agrees es sets) (h : EntriesOf es sets)
    (hstart : ∀ e ∈ sets, e.startMs ≤ u64Max) (hlast : LastDeclares sets) :
    OrderedWhileLit sets := by
  intro i j a b hij ha hb hlt
  have hmax := hstart a (List.mem_of_getElem? ha)
  have hend := (hagree.outOfOrder h hij ha hb le_rfl hlt (by omega)).2
  refine ⟨fun t hbt ht => ?_, fun k e he hobj => ?_⟩
  · rw [← hagree (searchOr 0) (search_conforms 0) t ht, timelineAt_eq_none_iff h]
    intro k e _ he hobj
    have := hend k e he hobj
    omega
  · exact (over_iff_endWith_le (by omega) he hlast hobj).2 (hend k e he hobj)

end

section
variable {D : Decoders} {codec : Text} {codecPrivate : Option Bytes} {blocks : List SetBlock}

theorem mem_decodedSets {t : Track} {pgs : D.Pgs} {e : DecodedSet}
    (h : e ∈ decodedSets D t pgs blocks) : ∃ b ∈ blocks, e.startMs = b.1 ∧ e.duration = b.2.1 := by
  induction blocks generalizing pgs with
  | nil => simp [decodedSets] at h
  | cons b blocks ih =>
    obtain ⟨ms, dur, payload⟩ := b
    simp only [decodedSets] at h
    split at h
    · obtain ⟨b, hb, hrest⟩ := ih h
      exact ⟨b, List.mem_cons_of_mem _ hb, hrest⟩
    · obtain rfl | h := List.mem_cons.1 h
      · exact ⟨_, List.mem_cons_self, rfl, rfl⟩
      · obtain ⟨b, hb, hrest⟩ := ih h
        exact ⟨b, List.mem_cons_of_mem _ hb, hrest⟩

/-- The timeline shows at every instant what is on screen exactly if the sums fit, a picture at
    the end of the list does not declare the end that stands for none, and the decodable sets
    come in the order of their starts as long as there is anything to show. -/
theorem shows_iff (hblocks : ∀ b ∈ blocks, b.1 < 2 ^ 64) :
    Shows D codec codecPrivate blocks ↔ Sound (setsOf D codec codecPrivate blocks) := by
  have hstart : ∀ e ∈ setsOf D codec codecPrivate blocks, e.startMs ≤ u64Max := by
    intro e he
    obtain ⟨b, hb, hstart, -⟩ := mem_decodedSets he
    have := hblocks b hb
    rw [hstart]
    exact Nat.le_sub_one_of_lt this
  unfold Shows
  constructor
  · rintro ⟨es, hes, hagree⟩
    obtain ⟨hfit, hentries⟩ := build_eq_some_iff.1 hes
    have hagree : Agrees es (setsOf D codec codecPrivate blocks) := hagree
    have hlast := hagree.lastDeclares hentries hfit
    exact ⟨hfit, hlast, hagree.orderedWhileLit hentries hstart hlast⟩
  · intro hsound
    -- the sums fit, so the passes leave a list of entries
    obtain ⟨es, hentries⟩ : ∃ es, EntriesOf es (setsOf D codec codecPrivate blocks) := by
      generalize setsOf D codec codecPrivate blocks = sets
      refine ⟨sets.mapIdx fun i e => e.entry (e.endWith sets[i + 1]?), fun i => ?_⟩
      rw [List.getElem?_mapIdx]
    exact ⟨es, build_eq_some_iff.2 ⟨hsound.sums, hentries⟩, hsound.agrees hentries hstart⟩

end

/-- A sidecar with its two timestamps out of order; both name the one unit of the stream. -/
def swappedIdx : Text :=
  lit "id: en, index: 0\ntimestamp: 00:00:10:000, filepos: 0\ntimestamp: 00:00:05:000, filepos: 0\n"

/-- A picture of two by two pixels that stays until the next one. -/
def sampleUnit : Bytes :=
  [0, 31, 0, 8, 0x51, 0, 0x51, 0, 0, 0, 0, 0, 3, 1, 0x23, 4, 0xFF, 0xF0, 5, 0, 0, 0x10, 0, 0, 0x10,
    6, 0, 4, 0, 6, 0xFF]

/-- What `vobsub_decode` makes of it. -/
def samplePicture : ImageObject :=
  ⟨0, 0, 2, 2, [0, 0, 0, 0xFF, 0, 0, 0, 0, 0, 0, 0, 0xFF, 0, 0, 0, 0]⟩

/-- One pack with the unit. -/
def samplePack : Bytes :=
  [0, 0, 1, 0xBA, 0x44, 0, 0, 0, 0, 0, 0, 0, 0, 0xF8, 0, 0, 1, 0xBD, 0, 35, 0x81, 0x80, 0, 0x20] ++
    sampleUnit ++ List.replicate 1993 0

/-- A decoder of that unit. -/
def sampleDecoders : Decoders where
  Pgs := Unit
  pgsDefault := ()
  feed pgs _ := (pgs, none)
  vobsubDecode spu _ := some (if spu = sampleUnit then some samplePicture else none)
  decodeText := Utf8.fromUtf8Lossy

def swappedBlocks : List SetBlock := [(10000, none, sampleUnit), (5000, none, sampleUnit)]

def swappedEntries : List Entry :=
  [⟨10000, 5000, 0, [samplePicture]⟩, ⟨5000, 10000, 0, [samplePicture]⟩]

theorem extractTrack_swapped :
    extractTrack Unicode.ascii swappedIdx samplePack 0 = .ok swappedBlocks := by
  decide +kernel

theorem swappedBlocks_lt : ∀ b ∈ swappedBlocks, b.1 < 2 ^ 64 := by decide

theorem build_swapped : build sampleDecoders (lit "S_VOBSUB") (some (Utf8.encode swappedIdx))
    swappedBlocks = some swappedEntries := by
  decide

theorem shownAt_swapped : shownAt (setsOf sampleDecoders (lit "S_VOBSUB")
    (some (Utf8.encode swappedIdx)) swappedBlocks) 10000 = some 0 := by
  decide

theorem shows_iff_swapped :
    (∀ b ∈ swappedBlocks, b.1 < 2 ^ 64) ∧
      (Shows sampleDecoders (lit "S_VOBSUB") (some (Utf8.encode swappedIdx)) swappedBlocks ↔
        Sound (setsOf sampleDecoders (lit "S_VOBSUB") (some (Utf8.encode swappedIdx))
          swappedBlocks)) :=
  ⟨swappedBlocks_lt, shows_iff swappedBlocks_lt⟩

theorem timelineAt_swapped {partitionPoint : (Entry → Bool) → List Entry → ℕ} :
    timelineAt partitionPoint swappedEntries 10000 = none := by
  rw [timelineAt_eq_none_iff (build_eq_some_iff.1 build_swapped).2]
  intro i e _ he _
  have hsets : setsOf sampleDecoders (lit "S_VOBSUB") (some (Utf8.encode swappedIdx))
      swappedBlocks = [⟨10000, none, 0, [samplePicture]⟩, ⟨5000, none, 0, [samplePicture]⟩] := by
    decide
  rw [hsets] at he ⊢
  -- the first set ends where the second begins, before its own start
  cases i with
  | zero =>
    cases he
    decide
  | succ i =>
    cases i with
    | zero =>
      cases he
      decide
    | succ i => simp at he

/-- At ten seconds the first picture of the sidecar is to be shown, and the screen is blank. -/
theorem swapped_blank :
    extractTrack Unicode.ascii swappedIdx samplePack 0 = .ok swappedBlocks ∧
      shownAt (setsOf sampleDecoders (lit "S_VOBSUB") (some (Utf8.encode swappedIdx))
        swappedBlocks) 10000 = some 0 ∧
      (∀ partitionPoint, timelineAt partitionPoint swappedEntries 10000 = none) ∧
      ¬Shows sampleDecoders (lit "S_VOBSUB") (some (Utf8.encode swappedIdx)) swappedBlocks := by
  refine ⟨extractTrack_swapped, shownAt_swapped, fun _ => timelineAt_swapped, ?_⟩
  rintro ⟨es, hes, hagree⟩
  rw [build_swapped] at hes
  cases hes
  have hat := hagree (searchOr 0) (search_conforms 0) 10000 (by decide)
  rw [timelineAt_swapped, shownAt_swapped] at hat
  cases hat

/-! ## Sets in order -/

section
variable {D : Decoders} {codec : Text} {codecPrivate : Option Bytes} {blocks : List SetBlock}

theorem decodedSets_sublist (t : Track) (pgs : D.Pgs) (blocks : List SetBlock) :
    ((decodedSets D t pgs blocks).map DecodedSet.startMs).Sublist (blocks.map Prod.fst) := by
  induction blocks generalizing pgs with
  | nil => simp [decodedSets]
  | cons b blocks ih =>
    obtain ⟨ms, dur, payload⟩ := b
    simp only [decodedSets]
    split
    · exact (ih _).cons _
    · exact (ih _).cons_cons _

theorem setsOf_ordered (hord : (blocks.map Prod.fst).Pairwise (· ≤ ·)) :
    (setsOf D codec codecPrivate blocks).Pairwise fun a b => a.startMs ≤ b.startMs :=
  List.pairwise_map.1 (hord.sublist (decodedSets_sublist _ _ blocks))

/-- Blocks in the order of their starts are shown if the sums fit. -/
theorem shows_of_ordered (hord : (blocks.map Prod.fst).Pairwise (· ≤ ·))
    (hstart : ∀ b ∈ blocks, b.1 + 5000 ≤ u64Max)
    (hdur : ∀ b ∈ blocks, ∀ d, b.2.1 = some d → b.1 + d < u64Max) :
    Shows D codec codecPrivate blocks := by
  have hblocks : ∀ b ∈ blocks, b.1 < 2 ^ 64 := by
    intro b hb
    have := hstart b hb
    have : u64Max < 2 ^ 64 := Nat.sub_lt (Nat.two_pow_pos 64) Nat.one_pos
    omega
  rw [shows_iff hblocks]
  have hsets : ∀ e ∈ setsOf D codec codecPrivate blocks, e.startMs + 5000 ≤ u64Max ∧
      ∀ d, e.duration = some d → e.startMs + d < u64Max := by
    intro e he
    obtain ⟨b, hb, hs, hd⟩ := mem_decodedSets he
    rw [hs, hd]
    exact ⟨hstart b hb, hdur b hb⟩
  refine ⟨⟨fun e he d hd => ((hsets e he).2 d hd).le, fun e he _ =>
    (hsets e (List.mem_of_getLast? he)).1⟩, fun e he _ d hd hsum => ?_, ?_⟩
  · have := (hsets e (List.mem_of_getLast? he)).2 d hd
    omega
  · intro i j a b hij ha hb hlt
    obtain ⟨hi, rfl⟩ := List.getElem?_eq_some_iff.1 ha
    obtain ⟨hj, rfl⟩ := List.getElem?_eq_some_iff.1 hb
    have := List.pairwise_iff_getElem.1 (setsOf_ordered hord) i j hi hj hij
    omega

/-- The blocks of a container's track are sorted when they are handed on. -/
theorem image_track_shows (fns : Subindex.TextFns) (scale : ℕ) (t : Subindex.MkvTrack)
    (timed : List Subindex.TimedBlock) :
    Shows D (Subindex.assembleImage fns scale t timed).codec
      (Subindex.assembleImage fns scale t timed).codecPrivate
      (Subindex.assembleImage fns scale t timed).blocks := by
  have hms : ∀ ticks, Subindex.toMs scale ticks ≤ 18446744073710 := by
    intro ticks
    unfold Subindex.toMs
    omega
  have hmem : ∀ b ∈ (Subindex.assembleImage fns scale t timed).blocks,
      b.1 ≤ 18446744073710 ∧ ∀ d, b.2.1 = some d → d ≤ 18446744073710 := by
    intro b hb
    obtain ⟨x, -, rfl⟩ := List.mem_map.1 ((List.mem_insertionSort _).1 hb)
    refine ⟨hms _, fun d hd => ?_⟩
    obtain ⟨ticks, -, rfl⟩ := Option.map_eq_some_iff.1 hd
    exact hms ticks
  refine shows_of_ordered ?_ (fun b hb => ?_) fun b hb d hd => ?_
  · rw [List.pairwise_map]
    exact List.pairwise_insertionSort _ _
  · have := (hmem b hb).1
    unfold u64Max
    omega
  · have := (hmem b hb).1
    have := (hmem b hb).2 d hd
    unfold u64Max
    omega

end

end Kahawai.Media.Burnin
