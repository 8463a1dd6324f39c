import Kahawai.Lib.Dedup
import Kahawai.Lib.Stable
import Kahawai.Lib.Utf8
import Kahawai.Media.Subindex.Layout

/-!
# Chapters

`read_chapters` and `collect_atoms` (`crates/kahawai-media/src/subindex.rs`, lines 601–706) and
`dedup_chapters` (`crates/kahawai-media/src/lib.rs`, lines 307–327): the chapters of one edition
of a `Chapters` element, its nested atoms included, in the order of their starts.

Results:
* `collectAtoms_eq`: the collected chapters are those of the atoms down to the seventeenth
  level, without what is inside a linked atom.
* `readChapters_handed`: what a parsed element hands on.
-/

namespace Kahawai.Media.Subindex

open Kahawai.Core Kahawai.Core.Text Kahawai.Lib Kahawai.Lib.Dedup

namespace Id

def editionEntry : ℕ := 0x45B9
def editionFlagHidden : ℕ := 0x45BD
def editionFlagDefault : ℕ := 0x45DB
def chapterAtom : ℕ := 0xB6
def chapterTimeStart : ℕ := 0x91
def chapterTimeEnd : ℕ := 0x92
def chapterFlagHidden : ℕ := 0x98
def chapterFlagEnabled : ℕ := 0x4598
def chapterSegmentUid : ℕ := 0x6E67
def chapterDisplay : ℕ := 0x80
def chapString : ℕ := 0x85

end Id

/-- `Chapter`. -/
structure Chapter where
  startMs : ℕ
  endMs : Option ℕ
  title : Option Text
  deriving DecidableEq

/-! ## Reading -/

/-- What the walk over a `ChapterAtom` gathers (lines 663–688). -/
structure AtomFields where
  start : Option ℕ
  stop : Option ℕ
  title : Option Text
  hidden : Bool
  enabled : Bool
  linked : Bool

def AtomFields.initial : AtomFields := ⟨none, none, none, false, true, false⟩

/-- The last `ChapString` of a `ChapterDisplay`. -/
def readDisplay (display : Bytes) : Except Error (Option Text) :=
  walkChildrenOk (fun title id s =>
    if id = Id.chapString then .ok (some (trim (Utf8.fromUtf8Lossy s))) else .ok title)
    none display

/-- One child of an atom. -/
def visitAtom (f : AtomFields) (id : ℕ) (v : Bytes) : Except Error AtomFields :=
  if id = Id.chapterTimeStart then .ok { f with start := some (uint v / 1000000) }
  else if id = Id.chapterTimeEnd then .ok { f with stop := some (uint v / 1000000) }
  else if id = Id.chapterFlagHidden then .ok { f with hidden := uint v = 1 }
  else if id = Id.chapterFlagEnabled then .ok { f with enabled := uint v ≠ 0 }
  else if id = Id.chapterSegmentUid then .ok { f with linked := true }
  else if id = Id.chapterDisplay ∧ f.title.isNone then do
    let title ← readDisplay v
    pure { f with title }
  else .ok f

def readAtom (atom : Bytes) : Except Error AtomFields :=
  walkChildrenOk visitAtom .initial atom

/-- The chapter of an atom, if it has one to show (lines 690–700). -/
def AtomFields.chapter (f : AtomFields) : Option Chapter :=
  f.start.bind fun startMs =>
    if !f.hidden && f.enabled && !f.linked then
      some ⟨startMs, f.stop, f.title.filter fun t => !t.isEmpty⟩
    else none

/-- `collect_atoms` (lines 645–706), `levels` levels of it. -/
def collectAtoms : (levels : ℕ) → Bytes → List Chapter → Except Error (List Chapter)
  | 0, _, out => .ok out
  | levels + 1, data, out =>
    walkChildrenOk (fun out id atom =>
      if id ≠ Id.chapterAtom then .ok out
      else do
        let f ← readAtom atom
        let out := out ++ f.chapter.toList
        if f.linked then pure out else collectAtoms levels atom out) out data

/-- `depth > 16` is where the recursion stops. -/
def chapterLevels : ℕ := 17

/-- The flags of an edition: hidden and default. -/
def readEditionFlags (edition : Bytes) : Except Error (Bool × Bool) :=
  walkChildrenOk (fun (flags : Bool × Bool) id v =>
    if id = Id.editionFlagHidden then .ok (decide (uint v = 1), flags.2)
    else if id = Id.editionFlagDefault then .ok (flags.1, decide (uint v = 1))
    else .ok flags) (false, false) edition

/-- One child of `Chapters`, on the chapters so far and whether the default edition has given
    them (lines 613–637). -/
def visitEdition (st : List Chapter × Bool) (id : ℕ) (edition : Bytes) :
    Except Error (List Chapter × Bool) :=
  if id ≠ Id.editionEntry ∨ st.2 then .ok st
  else do
    let (hidden, isDefault) ← readEditionFlags edition
    if hidden ∨ (st.1 ≠ [] ∧ !isDefault) then pure st
    else
      let found ← collectAtoms chapterLevels edition []
      if found ≠ [] then pure (found, isDefault) else pure st

/-- The closure of `dedup_chapters`: the chapter that is kept for two, if they are one. -/
def sameChapter (kept next : Chapter) : Option Chapter :=
  if next.startMs ≠ kept.startMs then none
  else if kept.title.isNone then some { next with endMs := next.endMs.or kept.endMs }
  else if next.title.isSome ∧ next.title ≠ kept.title then none
  else some { kept with endMs := kept.endMs.or next.endMs }

/-- `dedup_chapters`. -/
def dedupChapters (out : List Chapter) : List Chapter := dedupBy sameChapter out

/-- `read_chapters` (lines 610–641). -/
def readChapters (data : Bytes) : Except Error (List Chapter) := do
  let (out, _) ← walkChildrenOk visitEdition ([], false) data
  pure (dedupChapters (out.insertionSort fun a b => a.startMs ≤ b.startMs))

/-! ## The parsed tree -/

/-- The children of an element. -/
def children (data : Bytes) : List (ℕ × Bytes) :=
  match walkChildrenOk (fun cs id v => .ok (cs ++ [(id, v)])) [] data with
  | .ok cs => cs
  | .error _ => []

/-- An atom whose displays and nested atoms can be parsed. -/
inductive ParsedAtom : Bytes → Prop
  | intro {atom : Bytes} {cs : List (ℕ × Bytes)} : Children atom cs →
    (∀ v, (Id.chapterDisplay, v) ∈ cs → ∃ ds, Children v ds) →
    (∀ v, (Id.chapterAtom, v) ∈ cs → ParsedAtom v) → ParsedAtom atom

/-- An edition whose atoms can be parsed. -/
def ParsedEdition (edition : Bytes) : Prop :=
  ∃ cs, Children edition cs ∧ ∀ v, (Id.chapterAtom, v) ∈ cs → ParsedAtom v

/-- A `Chapters` element that can be parsed. -/
def ParsedChapters (data : Bytes) : Prop :=
  ∃ es, Children data es ∧ ∀ v, (Id.editionEntry, v) ∈ es → ParsedEdition v

/-- The fields of a parsed atom. -/
def fieldsOf (atom : Bytes) : AtomFields :=
  match readAtom atom with
  | .ok f => f
  | .error _ => .initial

/-- The atom under `data` at a depth, not inside a linked one. -/
inductive AtomAt : Bytes → (depth : ℕ) → Bytes → Prop
  | here {data atom : Bytes} : (Id.chapterAtom, atom) ∈ children data → AtomAt data 0 atom
  | nested {data parent atom : Bytes} {depth : ℕ} : (Id.chapterAtom, parent) ∈ children data →
    (fieldsOf parent).linked = false → AtomAt parent depth atom → AtomAt data (depth + 1) atom

/-- The chapters of the atoms on the first levels under `data`, in the order of the file. -/
def shown : (levels : ℕ) → Bytes → List Chapter
  | 0, _ => []
  | levels + 1, data => (children data).flatMap fun c =>
    if c.1 = Id.chapterAtom then
      (fieldsOf c.2).chapter.toList ++ if (fieldsOf c.2).linked then [] else shown levels c.2
    else []

/-- The flags of a parsed edition. -/
def flagsOf (edition : Bytes) : Bool × Bool :=
  match readEditionFlags edition with
  | .ok flags => flags
  | .error _ => (false, false)

/-- An edition that is not hidden and has a chapter to show. -/
def yields (edition : Bytes) : Bool := !(flagsOf edition).1 && !(shown chapterLevels edition).isEmpty

/-- The editions of the element. -/
def editions (data : Bytes) : List Bytes :=
  ((children data).filter fun c => c.1 = Id.editionEntry).map Prod.snd

/-- The edition whose chapters are shown: the first default one that yields any, and failing
    that the first that does. -/
def chosenEdition (data : Bytes) : Option Bytes :=
  ((editions data).find? fun e => yields e && (flagsOf e).2).or ((editions data).find? yields)

/-- The titles at a start, in their order. -/
def titlesAt (s : ℕ) (l : List Chapter) : List Text :=
  (ofKey Chapter.startMs s l).filterMap Chapter.title

/-- A title comes again after another one. -/
def Recurs (titles : List Text) : Prop := ∃ a b, a ≠ b ∧ [a, b, a].Sublist titles

/-- What is handed on of an edition. -/
structure OfEdition (edition : Bytes) (out : List Chapter) : Prop where
  complete : ∀ atom depth c, AtomAt edition depth atom → depth < chapterLevels →
    (fieldsOf atom).chapter = some c →
    ∃ c' ∈ out, c'.startMs = c.startMs ∧ (c'.title = c.title ∨ c.title = none)
  sound : ∀ c ∈ out, ∃ atom depth c', AtomAt edition depth atom ∧ depth < chapterLevels ∧
    (fieldsOf atom).chapter = some c' ∧ c'.startMs = c.startMs ∧ c'.title = c.title
  stated : ∀ c ∈ out, ∀ stop, c.endMs = some stop → ∃ atom depth c', AtomAt edition depth atom ∧
    depth < chapterLevels ∧ (fieldsOf atom).chapter = some c' ∧ c'.startMs = c.startMs ∧
    c'.endMs = some stop
  untitled : ∀ c ∈ out, c.title = none → ofKey Chapter.startMs c.startMs out = [c]
  once : ∀ s, ¬Recurs (titlesAt s (shown chapterLevels edition)) →
    ((ofKey Chapter.startMs s out).map Chapter.title).Nodup

/-- What a `Chapters` element hands on. -/
structure Handed (data : Bytes) (out : List Chapter) : Prop where
  sorted : out.Pairwise fun a b => a.startMs ≤ b.startMs
  ofChosen : match chosenEdition data with
    | none => out = []
    | some edition => OfEdition edition out
  settled : dedupChapters out = out

/-! ## What is collected -/

section
variable {σ : Type} {data edition atom : Bytes} {cs : List (ℕ × Bytes)}

theorem Children.children_eq (h : Children data cs) : children data = cs := by
  have hfold (l acc : List (ℕ × Bytes)) :
      l.foldlM (fun (cs : List (ℕ × Bytes)) c => (.ok (cs ++ [(c.1, c.2)]) : Except Error _)) acc =
        .ok (acc ++ l) := by
    induction l generalizing acc with
    | nil => simp [pure, Except.pure]
    | cons c l ih => simp [ih, bind, Except.bind]
  unfold children
  rw [h.walk, hfold]
  rfl

/-- A loop none of whose rounds fails. -/
theorem exists_foldlM_eq_ok {f : σ → ℕ × Bytes → Except Error σ}
    (h : ∀ c ∈ cs, ∀ s, ∃ s', f s c = .ok s') (s : σ) : ∃ s', cs.foldlM f s = .ok s' := by
  induction cs generalizing s with
  | nil => exact ⟨s, rfl⟩
  | cons c cs ih =>
    obtain ⟨hc, hcs⟩ := List.forall_mem_cons.1 h
    obtain ⟨s', hs'⟩ := hc s
    rw [List.foldlM_cons, hs']
    exact ih hcs s'

theorem readDisplay_ok {ds : List (ℕ × Bytes)} (h : Children data ds) :
    ∃ title, readDisplay data = .ok title := by
  unfold readDisplay
  rw [h.walk]
  apply exists_foldlM_eq_ok
  intro c _ title
  split
  · exact ⟨_, rfl⟩
  · exact ⟨_, rfl⟩

theorem readAtom_ok (h : ParsedAtom atom) : readAtom atom = .ok (fieldsOf atom) := by
  obtain ⟨hchildren, hdisplay, -⟩ := h
  have hok : ∃ f, readAtom atom = .ok f := by
    unfold readAtom
    rw [hchildren.walk]
    apply exists_foldlM_eq_ok
    intro c hc f
    unfold visitAtom
    split_ifs with _ _ _ _ _ hshow
    · exact ⟨_, rfl⟩
    · exact ⟨_, rfl⟩
    · exact ⟨_, rfl⟩
    · exact ⟨_, rfl⟩
    · exact ⟨_, rfl⟩
    · obtain ⟨ds, hds⟩ := hdisplay c.2 (by rw [← hshow.1]; exact hc)
      obtain ⟨title, htitle⟩ := readDisplay_ok hds
      exact ⟨_, by rw [htitle]; rfl⟩
    · exact ⟨_, rfl⟩
  obtain ⟨f, hf⟩ := hok
  simp only [fieldsOf, hf]

theorem readEditionFlags_ok (h : Children edition cs) :
    readEditionFlags edition = .ok (flagsOf edition) := by
  have hok : ∃ flags, readEditionFlags edition = .ok flags := by
    unfold readEditionFlags
    rw [h.walk]
    apply exists_foldlM_eq_ok
    intro c _ flags
    split_ifs
    · exact ⟨_, rfl⟩
    · exact ⟨_, rfl⟩
    · exact ⟨_, rfl⟩
  obtain ⟨flags, hflags⟩ := hok
  simp only [flagsOf, hflags]

/-- A loop that appends what each round finds. -/
theorem foldlM_append {f : List Chapter → ℕ × Bytes → Except Error (List Chapter)}
    {found : ℕ × Bytes → List Chapter} (h : ∀ c ∈ cs, ∀ out, f out c = .ok (out ++ found c))
    (out : List Chapter) : cs.foldlM f out = .ok (out ++ cs.flatMap found) := by
  induction cs generalizing out with
  | nil => simp [pure, Except.pure]
  | cons c cs ih =>
    obtain ⟨hc, hcs⟩ := List.forall_mem_cons.1 h
    rw [List.foldlM_cons, hc, List.flatMap_cons, ← List.append_assoc]
    exact ih hcs _

theorem collectAtoms_eq (levels : ℕ) (h : Children data cs)
    (hatoms : ∀ v, (Id.chapterAtom, v) ∈ cs → ParsedAtom v) (out : List Chapter) :
    collectAtoms levels data out = .ok (out ++ shown levels data) := by
  induction levels generalizing data cs out with
  | zero => simp [collectAtoms, shown]
  | succ levels ih =>
    unfold collectAtoms shown
    rw [h.walk, h.children_eq]
    apply foldlM_append
    intro c hc out
    by_cases hid : c.1 = Id.chapterAtom
    · have hparsed := hatoms c.2 (by rw [← hid]; exact hc)
      simp only [hid, ne_eq, not_true, if_false, if_true, readAtom_ok hparsed]
      obtain ⟨hchildren, -, hnested⟩ := hparsed
      by_cases hlinked : (fieldsOf c.2).linked = true
      · simp [hlinked, bind, Except.bind, pure, Except.pure]
      · simp only [hlinked, bind, Except.bind, Bool.false_eq_true, if_false]
        rw [ih hchildren hnested, List.append_assoc]
    · simp [hid]

theorem mem_shown_iff {levels : ℕ} {c : Chapter} : c ∈ shown levels data ↔
    ∃ atom depth, AtomAt data depth atom ∧ depth < levels ∧ (fieldsOf atom).chapter = some c := by
  induction levels generalizing data with
  | zero => simp [shown]
  | succ levels ih =>
    unfold shown
    rw [List.mem_flatMap]
    constructor
    · rintro ⟨⟨id, atom⟩, hmem, hc⟩
      by_cases hid : id = Id.chapterAtom
      · subst hid
        simp only [if_true, List.mem_append, Option.mem_toList] at hc
        obtain hc | hc := hc
        · exact ⟨atom, 0, .here hmem, Nat.succ_pos levels, hc⟩
        · by_cases hlinked : (fieldsOf atom).linked = true
          · simp [hlinked] at hc
          · simp only [hlinked, Bool.false_eq_true, if_false] at hc
            obtain ⟨inner, depth, hat, hdepth, hchapter⟩ := ih.1 hc
            exact ⟨inner, depth + 1, .nested hmem (by simpa using hlinked) hat,
              Nat.succ_lt_succ hdepth, hchapter⟩
      · simp [hid] at hc
    · rintro ⟨atom, depth, hat, hdepth, hchapter⟩
      cases hat with
      | here hmem => exact ⟨_, hmem, by simp [hchapter]⟩
      | nested hmem hlinked hat =>
        refine ⟨_, hmem, ?_⟩
        simp only [if_true, hlinked, Bool.false_eq_true, if_false, List.mem_append]
        exact .inr (ih.2 ⟨atom, _, hat, Nat.lt_of_succ_lt_succ hdepth, hchapter⟩)

end

/-! ## The chosen edition -/

/-- The edition that is chosen of a list. -/
def choose (es : List Bytes) : Option Bytes :=
  (es.find? fun e => yields e && (flagsOf e).2).or (es.find? yields)

/-- The state of the walk when the editions `es` are behind it. -/
def stateOf (es : List Bytes) : List Chapter × Bool :=
  match choose es with
  | none => ([], false)
  | some e => (shown chapterLevels e, (flagsOf e).2)

theorem yields_iff {e : Bytes} :
    yields e = true ↔ (flagsOf e).1 = false ∧ shown chapterLevels e ≠ [] := by
  simp [yields]

theorem visitEdition_stateOf {edition : Bytes} (h : ParsedEdition edition) (es : List Bytes) :
    visitEdition (stateOf es) Id.editionEntry edition = .ok (stateOf (es ++ [edition])) := by
  obtain ⟨cs, hcs, hatoms⟩ := h
  have hflags := readEditionFlags_ok hcs
  have hfound : collectAtoms chapterLevels edition [] = .ok (shown chapterLevels edition) :=
    collectAtoms_eq chapterLevels hcs hatoms []
  have hvisit (st : List Chapter × Bool) : visitEdition st Id.editionEntry edition =
      .ok (if st.2 = true then st
        else if yields edition = true ∧ (st.1 = [] ∨ (flagsOf edition).2 = true) then
          (shown chapterLevels edition, (flagsOf edition).2)
        else st) := by
    unfold visitEdition
    by_cases hst : st.2 = true
    · simp [hst]
    · simp only [ne_eq, not_true, false_or, hst, Bool.false_eq_true, if_false, hflags, bind,
        Except.bind, hfound, yields_iff]
      by_cases hhidden : (flagsOf edition).1 = true
      · simp [hhidden, pure, Except.pure]
      · by_cases hempty : st.1 = [] <;> by_cases hdefault : (flagsOf edition).2 = true <;>
          by_cases hshown : shown chapterLevels edition = [] <;>
          simp [hhidden, hempty, hdefault, hshown, pure, Except.pure]
  rw [hvisit]
  congr 1
  unfold stateOf choose
  simp only [List.find?_append, List.find?_singleton]
  cases hfirst : es.find? fun e => yields e && (flagsOf e).2 with
  | some e =>
    have hdefault : (flagsOf e).2 = true := by
      have := List.find?_some hfirst
      simp only [Bool.and_eq_true] at this
      exact this.2
    simp [hdefault]
  | none =>
    cases hany : es.find? yields with
    | some e =>
      have hyields := List.find?_some hany
      have hdefault : (flagsOf e).2 = false := by
        have := List.find?_eq_none.1 hfirst e (List.mem_of_find?_eq_some hany)
        simpa [hyields] using this
      have hne := (yields_iff.1 hyields).2
      by_cases hnew : yields edition = true <;> by_cases hnewDefault : (flagsOf edition).2 = true <;>
        simp [hdefault, hne, hnew, hnewDefault]
    | none =>
      by_cases hnew : yields edition = true <;> by_cases hnewDefault : (flagsOf edition).2 = true <;>
        simp [hnew, hnewDefault]

theorem foldlM_visitEdition {es : List (ℕ × Bytes)} (behind : List Bytes)
    (h : ∀ v, (Id.editionEntry, v) ∈ es → ParsedEdition v) :
    es.foldlM (fun st c => visitEdition st c.1 c.2) (stateOf behind) =
      .ok (stateOf (behind ++ (es.filter fun c => c.1 = Id.editionEntry).map Prod.snd)) := by
  induction es generalizing behind with
  | nil => simp [pure, Except.pure]
  | cons c es ih =>
    obtain ⟨id, v⟩ := c
    have hrest := fun behind => ih behind fun v hv => h v (List.mem_cons_of_mem _ hv)
    rw [List.foldlM_cons]
    by_cases hid : id = Id.editionEntry
    · subst hid
      rw [visitEdition_stateOf (h v List.mem_cons_self)]
      simp only [bind, Except.bind]
      rw [hrest, List.filter_cons_of_pos (by simp), List.map_cons, List.append_assoc]
      rfl
    · have hvisit : visitEdition (stateOf behind) id v = .ok (stateOf behind) := by
        simp [visitEdition, hid]
      rw [hvisit, List.filter_cons_of_neg (by simpa using hid)]
      exact hrest behind

/-! ## One chapter for two -/

section
variable {kept next merged p : Chapter}

theorem sameChapter_eq_none_iff : sameChapter kept next = none ↔ kept.startMs ≠ next.startMs ∨
    ∃ a b, kept.title = some a ∧ next.title = some b ∧ a ≠ b := by
  unfold sameChapter
  split_ifs with hstart huntitled hother
  · simp [Ne.symm hstart]
  · rw [Option.isNone_iff_eq_none] at huntitled
    simp [of_not_not hstart, huntitled]
  · obtain ⟨a, ha⟩ := Option.ne_none_iff_exists'.1 (by simpa using huntitled)
    obtain ⟨b, hb⟩ := Option.isSome_iff_exists.1 hother.1
    have hne : a ≠ b := by
      rintro rfl
      exact hother.2 (hb.trans ha.symm)
    simp [ha, hb, hne]
  · obtain ⟨a, ha⟩ := Option.ne_none_iff_exists'.1 (by simpa using huntitled)
    simp only [of_not_not hstart, ne_eq, not_true, false_or, false_iff]
    rintro ⟨a', b, ha', hb, hne⟩
    refine hother ⟨by rw [hb]; rfl, fun heq => hne ?_⟩
    rw [ha', hb] at heq
    exact (Option.some.inj heq).symm

/-- The chapter that is kept for two has their start, the title of the one that has one, and a
    stated end of one of them. -/
theorem sameChapter_eq_some (h : sameChapter kept next = some merged) :
    kept.startMs = next.startMs ∧ merged.startMs = next.startMs ∧
      (kept.title = none ∧ merged.title = next.title ∨
        merged.title = kept.title ∧ (next.title = none ∨ next.title = kept.title)) ∧
      (merged.endMs = kept.endMs ∨ merged.endMs = next.endMs) := by
  have hor (a b : Option ℕ) : a.or b = a ∨ a.or b = b := by
    cases a with
    | none => exact .inr rfl
    | some a => exact .inl rfl
  unfold sameChapter at h
  split_ifs at h with hstart huntitled hother
  · cases h
    exact ⟨(of_not_not hstart).symm, rfl, .inl ⟨Option.isNone_iff_eq_none.1 huntitled, rfl⟩,
      (hor _ _).symm⟩
  · cases h
    refine ⟨(of_not_not hstart).symm, (of_not_not hstart).symm, .inr ⟨rfl, ?_⟩, hor _ _⟩
    cases hb : next.title with
    | none => exact .inl rfl
    | some b =>
      rw [hb] at hother
      exact .inr (not_ne_iff.1 fun hne => hother ⟨rfl, hne⟩)

theorem sameChapter_stays (hp : sameChapter p kept = none)
    (h : sameChapter kept next = some merged) : sameChapter p merged = none := by
  obtain ⟨hstart, hmerged, htitle, -⟩ := sameChapter_eq_some h
  rw [sameChapter_eq_none_iff] at hp ⊢
  obtain hne | ⟨a, b, ha, hb, hne⟩ := hp
  · left
    rwa [hmerged, ← hstart]
  · right
    obtain ⟨hnone, -⟩ | ⟨heq, -⟩ := htitle
    · rw [hb] at hnone
      cases hnone
    · exact ⟨a, b, ha, heq.trans hb, hne⟩

/-- `b` stands for `a`: it has its title, unless that is none. -/
def Covers (b a : Chapter) : Prop :=
  b.startMs = a.startMs ∧ (b.title = a.title ∨ a.title = none)

theorem covers_refl (a : Chapter) : Covers a a := ⟨rfl, .inl rfl⟩

theorem covers_kept {a : Chapter} (h : sameChapter kept next = some merged) (ha : Covers kept a) :
    Covers merged a := by
  obtain ⟨hstart, hmerged, htitle, -⟩ := sameChapter_eq_some h
  refine ⟨by rw [hmerged, ← hstart, ha.1], ?_⟩
  obtain ⟨hnone, -⟩ | ⟨heq, -⟩ := htitle
  · obtain h | h := ha.2
    · exact .inr (by rw [← h, hnone])
    · exact .inr h
  · rw [heq]
    exact ha.2

theorem covers_next (h : sameChapter kept next = some merged) : Covers merged next := by
  obtain ⟨-, hmerged, htitle, -⟩ := sameChapter_eq_some h
  refine ⟨hmerged, ?_⟩
  obtain ⟨-, heq⟩ | ⟨heq, h | h⟩ := htitle
  · exact .inl heq
  · exact .inr h
  · exact .inl (heq.trans h.symm)

end

section
variable {out : List Chapter} {s : ℕ}

theorem dedupChapters_chain (l : List Chapter) :
    (dedupChapters l).IsChain fun k n => sameChapter k n = none :=
  isChain_dedupBy fun _ _ _ _ => sameChapter_stays

theorem dedupChapters_idem (l : List Chapter) : dedupChapters (dedupChapters l) = dedupChapters l :=
  dedupBy_idem fun _ _ _ _ => sameChapter_stays

/-- The starts and titles that are left, in their order. -/
theorem dedupChapters_sublist (l : List Chapter) :
    ((dedupChapters l).map fun c => (c.startMs, c.title)).Sublist
      (l.map fun c => (c.startMs, c.title)) := by
  apply keys_sublist
  intro k n m h
  obtain ⟨hstart, hmerged, htitle, -⟩ := sameChapter_eq_some h
  obtain ⟨-, heq⟩ | ⟨heq, -⟩ := htitle
  · exact .inr (by rw [hmerged, heq])
  · exact .inl (by rw [hmerged, ← hstart, heq])

/-- Of the chapters at one start an untitled one is the only one, and neighbours have different
    titles. -/
theorem ofKey_chain (hsorted : out.Pairwise fun a b => a.startMs ≤ b.startMs)
    (hchain : out.IsChain fun k n => sameChapter k n = none) :
    (ofKey Chapter.startMs s out).IsChain fun k n =>
      ∃ a b, k.title = some a ∧ n.title = some b ∧ a ≠ b := by
  have hfilter := isChain_filter_key s hsorted hchain
  have hstart : ∀ c ∈ ofKey Chapter.startMs s out, c.startMs = s := by
    intro c hc
    simpa using (List.mem_filter.1 hc).2
  refine hfilter.imp_of_mem_imp fun k n hk hn hnone => ?_
  obtain hne | htitles := sameChapter_eq_none_iff.1 hnone
  · exact absurd ((hstart k hk).trans (hstart n hn).symm) hne
  · exact htitles

theorem titled_of_chain {a : Chapter} {l : List Chapter} (hne : l ≠ [])
    (h : (a :: l).IsChain fun k n => ∃ x y, k.title = some x ∧ n.title = some y ∧ x ≠ y) :
    ∀ c ∈ a :: l, c.title ≠ none := by
  induction l generalizing a with
  | nil => exact absurd rfl hne
  | cons b l ih =>
    obtain ⟨⟨x, y, hx, hy, -⟩, hrest⟩ := List.isChain_cons_cons.1 h
    refine List.forall_mem_cons.2 ⟨by simp [hx], ?_⟩
    cases l with
    | nil => simp [hy]
    | cons c l => exact ih (by simp) hrest

theorem titlesAt_sublist (s : ℕ) (l : List Chapter) :
    (titlesAt s (dedupChapters l)).Sublist (titlesAt s l) := by
  have htitles (l : List Chapter) : titlesAt s l =
      ((l.map fun c => (c.startMs, c.title)).filter fun p => p.1 = s).filterMap Prod.snd := by
    unfold titlesAt ofKey
    rw [List.filter_map, List.filterMap_map]
    rfl
  rw [htitles, htitles]
  exact ((dedupChapters_sublist l).filter _).filterMap _

/-- What is handed on of the chapters `found` of an edition. -/
theorem ofEdition (edition : Bytes) (hout : out = dedupChapters
      ((shown chapterLevels edition).insertionSort fun a b => a.startMs ≤ b.startMs))
    (hsorted : out.Pairwise fun a b => a.startMs ≤ b.startMs) : OfEdition edition out := by
  have hmem {c : Chapter} : c ∈ (shown chapterLevels edition).insertionSort
      (fun a b => a.startMs ≤ b.startMs) ↔ c ∈ shown chapterLevels edition :=
    List.mem_insertionSort _
  have hchain : out.IsChain fun k n => sameChapter k n = none := hout ▸ dedupChapters_chain _
  have huntitled : ∀ c ∈ out, c.title = none → ofKey Chapter.startMs c.startMs out = [c] := by
    intro c hc hnone
    have hgroup := ofKey_chain (s := c.startMs) hsorted hchain
    have hc : c ∈ ofKey Chapter.startMs c.startMs out :=
      List.mem_filter.2 ⟨hc, decide_eq_true rfl⟩
    cases hg : ofKey Chapter.startMs c.startMs out with
    | nil => simp [hg] at hc
    | cons a l =>
      rw [hg] at hgroup hc
      cases l with
      | nil => rw [List.mem_singleton.1 hc]
      | cons b l => exact absurd hnone (titled_of_chain (by simp) hgroup c hc)
  refine ⟨?_, ?_, ?_, huntitled, ?_⟩
  · intro atom depth c hat hdepth hchapter
    have hshown := hmem.2 (mem_shown_iff.2 ⟨atom, depth, hat, hdepth, hchapter⟩)
    have hcovers : ∃ c' ∈ out, Covers c' c := by
      rw [hout]
      exact exists_covers covers_refl (fun _ _ _ _ => covers_kept) (fun _ _ _ => covers_next) c
        hshown
    exact hcovers
  · intro c hc
    have hpair : (c.startMs, c.title) ∈ out.map fun c => (c.startMs, c.title) :=
      List.mem_map_of_mem hc
    rw [hout] at hpair
    obtain ⟨c', hc', heq⟩ := List.mem_map.1 ((dedupChapters_sublist _).subset hpair)
    obtain ⟨atom, depth, hat, hdepth, hchapter⟩ := mem_shown_iff.1 (hmem.1 hc')
    obtain ⟨hstart, htitle⟩ := Prod.ext_iff.1 heq
    exact ⟨atom, depth, c', hat, hdepth, hchapter, hstart, htitle⟩
  · have hstated : ∀ c ∈ out, ∀ stop, c.endMs = some stop → ∃ c' ∈ shown chapterLevels edition,
        c'.startMs = c.startMs ∧ c'.endMs = some stop := by
      rw [hout]
      refine forall_mem_dedupBy ?_ fun c hc stop hstop => ⟨c, hmem.1 hc, rfl, hstop⟩
      intro k n m hk hn hm stop hstop
      obtain ⟨hstart, hmerged, -, hend⟩ := sameChapter_eq_some hm
      obtain heq | heq := hend
      · rw [heq] at hstop
        rw [hmerged, ← hstart]
        exact hk stop hstop
      · rw [heq] at hstop
        rw [hmerged]
        exact hn stop hstop
    intro c hc stop hstop
    obtain ⟨c', hc', hstart, hend⟩ := hstated c hc stop hstop
    obtain ⟨atom, depth, hat, hdepth, hchapter⟩ := mem_shown_iff.1 hc'
    exact ⟨atom, depth, c', hat, hdepth, hchapter, hstart, hend⟩
  · intro s hrecurs
    have hgroup := ofKey_chain (s := s) hsorted hchain
    have hsub : (titlesAt s out).Sublist (titlesAt s (shown chapterLevels edition)) := by
      have hstable : titlesAt s ((shown chapterLevels edition).insertionSort
          fun a b => a.startMs ≤ b.startMs) = titlesAt s (shown chapterLevels edition) := by
        unfold titlesAt
        rw [ofKey_insertionSort]
      rw [← hstable, hout]
      exact titlesAt_sublist s _
    apply nodup_of_isChain
    · rw [List.isChain_map]
      refine hgroup.imp fun k n h => ?_
      obtain ⟨x, y, hx, hy, hne⟩ := h
      rw [hx, hy]
      simpa using hne
    · -- a title that comes again is a title of the atoms that does
      intro x y hxy htriple
      have htitled : ∀ c ∈ ofKey Chapter.startMs s out, c.title ≠ none := by
        have hlength := htriple.length_le
        cases hg : ofKey Chapter.startMs s out with
        | nil => simp [hg] at hlength
        | cons a l =>
          rw [hg] at hgroup hlength
          refine titled_of_chain ?_ hgroup
          rintro rfl
          simp at hlength
      have hsome {t : Option Text} (ht : t ∈ [x, y, x]) : ∃ a, t = some a := by
        obtain ⟨c, hc, rfl⟩ := List.mem_map.1 (htriple.subset ht)
        exact Option.ne_none_iff_exists'.1 (htitled c hc)
      obtain ⟨a, rfl⟩ := hsome (t := x) (by simp)
      obtain ⟨b, rfl⟩ := hsome (t := y) (by simp)
      refine hrecurs ⟨a, b, by simpa using hxy, List.Sublist.trans ?_ hsub⟩
      have := htriple.filterMap id
      rwa [List.filterMap_map] at this

end

/-- A parsed element hands on the chapters of its chosen edition, sorted and settled. -/
theorem readChapters_handed {data : Bytes} (h : ParsedChapters data) :
    ∃ out, readChapters data = .ok out ∧ Handed data out := by
  obtain ⟨es, hes, heditions⟩ := h
  have hwalk : walkChildrenOk visitEdition ([], false) data =
      .ok (stateOf (editions data)) := by
    rw [hes.walk, editions, hes.children_eq]
    exact foldlM_visitEdition [] heditions
  have hsorted (l : List Chapter) : (dedupChapters (l.insertionSort
      fun a b => a.startMs ≤ b.startMs)).Pairwise fun a b => a.startMs ≤ b.startMs := by
    have hl : (l.insertionSort fun a b => a.startMs ≤ b.startMs).Pairwise
        fun a b => a.startMs ≤ b.startMs := List.pairwise_insertionSort _ _
    have hsub := dedupChapters_sublist (l.insertionSort fun a b => a.startMs ≤ b.startMs)
    have hpairs : ((l.insertionSort fun a b => a.startMs ≤ b.startMs).map
        fun c => (c.startMs, c.title)).Pairwise fun p q => p.1 ≤ q.1 := List.pairwise_map.2 hl
    exact (List.pairwise_map (f := fun c : Chapter => (c.startMs, c.title))).1
      (hpairs.sublist hsub)
  refine ⟨_, by rw [readChapters, hwalk]; rfl, hsorted _, ?_, dedupChapters_idem _⟩
  have hchosen : chosenEdition data = choose (editions data) := rfl
  rw [hchosen]
  cases choose (editions data) with
  | none => rfl
  | some edition => exact ofEdition edition rfl (hsorted _)

/-- An atom at the start of the file with a title of one letter. -/
def titledAtom (letter : UInt8) : Bytes := [0x91, 0x81, 0, 0x80, 0x83, 0x85, 0x81, letter]

/-- An atom at the start of the file without a title. -/
def untitledAtom : Bytes := [0x91, 0x81, 0]

/-- An edition with the titles A, B and A, and an atom that has none, all at one start. -/
def sampleEdition : Bytes :=
  [0xB6, 0x88] ++ titledAtom 0x41 ++ [0xB6, 0x88] ++ titledAtom 0x42 ++ [0xB6, 0x88] ++
    titledAtom 0x41 ++ [0xB6, 0x83] ++ untitledAtom

def sampleChapters : Bytes := [0x45, 0xB9, 0xA3] ++ sampleEdition

theorem titledAtom_parsed (letter : UInt8) : ParsedAtom (titledAtom letter) := by
  have hchildren : Children (titledAtom letter)
      [(Id.chapterTimeStart, [0]), (Id.chapterDisplay, [0x85, 0x81, letter])] :=
    .cons rfl (.cons rfl .nil)
  refine .intro hchildren (fun v hv => ?_) fun v hv => ?_
  · obtain rfl : v = [0x85, 0x81, letter] := by simpa [Id.chapterDisplay, Id.chapterTimeStart] using hv
    exact ⟨[(Id.chapString, [letter])], .cons rfl .nil⟩
  · simp [Id.chapterAtom, Id.chapterDisplay, Id.chapterTimeStart] at hv

theorem untitledAtom_parsed : ParsedAtom untitledAtom := by
  have hchildren : Children untitledAtom [(Id.chapterTimeStart, [0])] := .cons rfl .nil
  refine .intro hchildren (fun v hv => ?_) fun v hv => ?_
  · simp [Id.chapterDisplay, Id.chapterTimeStart] at hv
  · simp [Id.chapterAtom, Id.chapterTimeStart] at hv

theorem sampleEdition_children : Children sampleEdition [(Id.chapterAtom, titledAtom 0x41),
    (Id.chapterAtom, titledAtom 0x42), (Id.chapterAtom, titledAtom 0x41),
    (Id.chapterAtom, untitledAtom)] :=
  .cons rfl (.cons rfl (.cons rfl (.cons rfl .nil)))

theorem sampleChapters_parsed : ParsedChapters sampleChapters := by
  refine ⟨[(Id.editionEntry, sampleEdition)], .cons rfl .nil, fun v hv => ?_⟩
  obtain rfl : v = sampleEdition := by simpa using hv
  refine ⟨_, sampleEdition_children, fun v hv => ?_⟩
  simp only [List.mem_cons, Prod.mk.injEq, true_and, List.not_mem_nil, or_false] at hv
  obtain rfl | rfl | rfl | rfl := hv
  · exact titledAtom_parsed 0x41
  · exact titledAtom_parsed 0x42
  · exact titledAtom_parsed 0x41
  · exact untitledAtom_parsed

theorem readChapters_handed_sample :
    ParsedChapters sampleChapters ∧
      ∃ out, readChapters sampleChapters = .ok out ∧ Handed sampleChapters out :=
  ⟨sampleChapters_parsed, readChapters_handed sampleChapters_parsed⟩

/-- The list that the sample hands on. -/
def sampleList : List Chapter :=
  [⟨0, none, some ['A']⟩, ⟨0, none, some ['B']⟩, ⟨0, none, some ['A']⟩]

/-- The untitled atom of the sample is not in the list, and the title A stands there twice. -/
theorem sampleChapters_read :
    readChapters sampleChapters = .ok sampleList ∧
      (chosenEdition sampleChapters = some sampleEdition ∧ AtomAt sampleEdition 0 untitledAtom ∧
        (fieldsOf untitledAtom).chapter = some ⟨0, none, none⟩ ∧ ⟨0, none, none⟩ ∉ sampleList) ∧
      ¬(sampleList.map fun c => (c.startMs, c.title)).Nodup := by
  refine ⟨by decide, ⟨by decide, .here ?_, by decide, by decide⟩, by decide⟩
  rw [sampleEdition_children.children_eq]
  simp

end Kahawai.Media.Subindex
