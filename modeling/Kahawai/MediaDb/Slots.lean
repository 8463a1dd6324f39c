import Kahawai.MediaDb.Parts

/-!
# Every file its own slot

The primary key of `media_parts` lets one file hold a slot, so `resolve_file`
fails when another file holds the slot that `detect` assigns.

Main results:

* `put_sole`: `put` stores an occurrence of one file whose slot is free.
* `resolveFile_ok`: a file is resolved unless another file of its root that is
  placed clashes with it, and no other file loses its place.
* `own_slots_iff`: files resolved one after another all get slots of their own
  exactly when no two paths of a root clash.
-/

namespace Kahawai.MediaDb

open Kahawai.Core Kahawai.Core.Text Kahawai.Core.Names Kahawai.Lib Kahawai.Proto

variable (u : Unicode)

/-! ## Placing one file -/

/-- The row of `media_parts` for a file in a slot. -/
def partRow (file : SourceKey) (s : Slot) : PartRow := ⟨((file.root, s.item), s.entry), s.ordinal, file⟩

/-- Nobody has placed a file by hand, and every file that is placed is in a slot
    for its path. -/
structure Placed (kind : MediaType) (t : MediaTables) : Prop where
  automatic : ∀ item ∈ t.items, item.manual = false
  slot : ∀ row ∈ t.parts, ∃ s, SlotFor u kind row.file.path s ∧ row = partRow row.file s

/-- The file is catalogued and has been probed. -/
def Probed (file : SourceKey) (t : MediaTables) : Prop :=
  ∃ row, t.files.get? file = some row ∧ row.media.isSome

theorem Placed.not_byHand {kind : MediaType} {t : MediaTables} (h : Placed u kind t)
    (file : SourceKey) : placedByHand file t = false := by
  unfold placedByHand
  cases t.parts.get? file with
  | none => rfl
  | some row =>
    cases hitem : t.items.get? row.entry.1 with
    | none => simp [hitem]
    | some item => simpa [hitem] using h.automatic item (Table.get?_mem hitem)

/-- What `put` does with an occurrence of one file whose slot is free. -/
theorem put_sole {kind : MediaType} {o : NewOccurrence} {e : NewEntry} {s : Slot}
    {file : SourceKey} {t : MediaTables} {row : FileRow} (h : Sole kind o e s)
    (hfile : t.files.get? file = some row) (hmedia : row.media.isSome)
    (hfree : ∀ part ∈ t.parts, part.file ≠ file →
      ¬ (part.entry = (partRow file s).entry ∧ part.ordinal = s.ordinal)) :
    put kind (placeAt file o) false t = .ok
      { files := t.files.put { row with mappingError := none }
        items := t.items.put ⟨file.root, s.item, o.detected,
          (t.items.get? (file.root, s.item)).any ItemRow.manual⟩
        entries := t.entries.put ⟨(file.root, s.item), s.entry, e.title, e.artist, e.kind⟩
        parts := (t.parts.erase file).put (partRow file s) } := by
  have hpart : putPart ((file.root, s.item), s.entry) ⟨file, s.ordinal⟩
      { t with
        items := t.items.put ⟨file.root, s.item, o.detected,
          (t.items.get? (file.root, s.item)).any ItemRow.manual⟩
        entries := t.entries.put ⟨(file.root, s.item), s.entry, e.title, e.artist, e.kind⟩ } =
      .ok
      { files := t.files.put { row with mappingError := none }
        items := t.items.put ⟨file.root, s.item, o.detected,
          (t.items.get? (file.root, s.item)).any ItemRow.manual⟩
        entries := t.entries.put ⟨(file.root, s.item), s.entry, e.title, e.artist, e.kind⟩
        parts := (t.parts.erase file).put (partRow file s) } := by
    have hnone : row.media.isNone = false := by
      cases hm : row.media <;> simp_all
    have hroot : row.key.root = file.root := by rw [Table.get?_key hfile]
    have hdup : ((t.parts.erase file).rows.any fun part =>
        part.entry = ((file.root, s.item), s.entry) && part.ordinal = s.ordinal) = false := by
      rw [List.any_eq_false]
      intro part hmem
      obtain ⟨hmem, hother⟩ := Table.mem_erase.mp hmem
      have := hfree part hmem hother
      simpa [partRow] using this
    have hpos : s.ordinal ≠ 0 := Nat.pos_iff_ne_zero.mp h.ordinal_pos
    unfold putPart
    simp only [hfile, hnone, hdup, hpos, Bool.false_or, ne_eq, not_true_eq_false, decide_false,
      Bool.false_eq_true, if_false, partRow]
  have hplace : (placeAt file o).entries = [{ e with parts := [⟨file, s.ordinal⟩] }] := by
    simp [placeAt, h.entries_eq, h.parts_eq]
  have hocc : (placeAt file o).occurrence = s.item := h.occurrence_eq
  have hitem : s.item.isEmpty = false := by simpa using h.item_ne
  have hentry : e.occurrence.isEmpty = false := by simpa [h.entry_eq] using h.entry_ne
  unfold put
  simp only [hocc, hitem, hplace, List.isEmpty_cons, Bool.or_self, Bool.false_eq_true, if_false,
    Bool.false_or]
  unfold putEntries
  simp only [hentry, List.not_mem_nil, decide_false, List.isEmpty_cons, Bool.or_self,
    Bool.false_eq_true, if_false]
  unfold putEntry
  simp only [h.compatible, h.numbered.1, h.numbered.2, Bool.not_true, Bool.false_eq_true, if_false,
    h.entry_eq]
  unfold putParts
  simp only [List.not_mem_nil, if_false]
  have hroot : (placeAt file o).root = file.root := rfl
  have hdetected : (placeAt file o).detected = o.detected := rfl
  rw [hroot, hdetected, hpart]
  rfl

/-- What `resolve_file` may change when it resolves `file`: its part row, items
    and entries, and the mapping error of `files`. -/
structure Resolves (kind : MediaType) (file : SourceKey) (media : MediaInfo)
    (t t' : MediaTables) : Prop where
  placed : Placed u kind t'
  probed : ∀ other, Probed other t → Probed other t'
  others : ∀ row, row.file ≠ file → (row ∈ t'.parts ↔ row ∈ t.parts)
  slot : ∀ o, detect u kind file.path media = some o → ∀ s ∈ o.slots, partRow file s ∈ t'.parts
  detected : ∀ row ∈ t'.parts, row.file = file → ∃ o, detect u kind file.path media = some o

theorem probed_put {t : MediaTables} {file other : SourceKey} {row : FileRow}
    (hrow : t.files.get? file = some row) (hmedia : row.media.isSome) {items entries parts}
    (h : Probed other t) :
    Probed other ⟨t.files.put { row with mappingError := none }, items, entries, parts⟩ := by
  obtain ⟨found, hfound, hprobe⟩ := h
  have hkey : row.key = file := Table.get?_key hrow
  unfold Probed
  simp only [Table.get?_put]
  by_cases hother : row.key = other
  · exact ⟨_, if_pos hother, hmedia⟩
  · exact ⟨found, (if_neg hother).trans hfound, hprobe⟩

/-- A probed file is resolved unless another file of its root that is placed
    clashes with it. -/
theorem resolveFile_ok {kind : MediaType} {file : SourceKey} (media : MediaInfo) {t : MediaTables}
    (hpath : file.path ≠ []) (hplaced : Placed u kind t) (hprobed : Probed file t)
    (hclash : ∀ row ∈ t.parts, row.file.root = file.root → row.file.path ≠ file.path →
      ¬ Clash u kind row.file.path file.path) :
    ∃ t', resolveFile u kind file media t = .ok t' ∧ Resolves u kind file media t t' := by
  unfold resolveFile
  simp only [hplaced.not_byHand u file, Bool.false_eq_true, if_false]
  cases hdetect : detect u kind file.path media with
  | none =>
    refine ⟨_, rfl, ⟨hplaced.automatic, ?_⟩, ?_, ?_, ?_, ?_⟩
    · exact fun row hrow => hplaced.slot row (Table.mem_erase.mp hrow).1
    · rintro other ⟨row, hrow, hmedia⟩
      unfold Probed
      simp only [Table.get?_mapRows, hrow, Option.map_some]
      refine ⟨_, rfl, ?_⟩
      split <;> exact hmedia
    · intro row hrow
      rw [Table.mem_erase]
      exact and_iff_left hrow
    · intro o ho
      rw [hdetect] at ho
      cases ho
    · exact fun row hrow hfile => absurd hfile (Table.mem_erase.mp hrow).2
  | some o =>
    obtain ⟨e, s, hsole, hslot⟩ := detect_sole u hpath hdetect
    obtain ⟨row, hrow, hmedia⟩ := hprobed
    have hfree : ∀ part ∈ t.parts, part.file ≠ file →
        ¬ (part.entry = (partRow file s).entry ∧ part.ordinal = s.ordinal) := by
      rintro part hpart hother ⟨hentry, hordinal⟩
      obtain ⟨s', hslot', hpartRow⟩ := hplaced.slot part hpart
      rw [hpartRow] at hentry hordinal
      obtain ⟨hitem, hentry⟩ := Prod.mk.inj hentry
      obtain ⟨hroot, hitem⟩ := Prod.mk.inj hitem
      have hsame : s' = s := by
        cases s'
        cases s
        exact Slot.mk.injEq .. ▸ ⟨hitem, hentry, hordinal⟩
      rw [hsame] at hslot'
      have hpaths : part.file.path ≠ file.path := by
        intro hpaths
        apply hother
        cases hfile : part.file
        cases file
        rw [hfile] at hroot hpaths
        cases hroot
        cases hpaths
        rfl
      exact hclash part hpart hroot hpaths (clash_of_slotFor u hslot' hslot hpaths)
    refine ⟨_, put_sole hsole hrow hmedia hfree, ⟨?_, ?_⟩, ?_, ?_, ?_, ?_⟩
    · intro item hitem
      rcases Table.mem_put.mp hitem with rfl | ⟨hitem, -⟩
      · cases hfound : t.items.get? (file.root, s.item) with
        | none => rfl
        | some old => simpa using hplaced.automatic old (Table.get?_mem hfound)
      · exact hplaced.automatic item hitem
    · intro part hpart
      rcases Table.mem_put.mp hpart with rfl | ⟨hpart, -⟩
      · exact ⟨s, hslot, rfl⟩
      · exact hplaced.slot part (Table.mem_erase.mp hpart).1
    · exact fun other hother => probed_put hrow hmedia hother
    · intro part hother
      rw [Table.mem_put, Table.mem_erase]
      constructor
      · rintro (rfl | ⟨⟨hpart, -⟩, -⟩)
        · exact absurd rfl hother
        · exact hpart
      · exact fun hpart => Or.inr ⟨⟨hpart, hother⟩, hother⟩
    · intro o' ho' s' hs'
      rw [hdetect] at ho'
      cases ho'
      rw [hsole.slots_eq, List.mem_singleton] at hs'
      rw [hs']
      exact Table.mem_put.mpr (Or.inl rfl)
    · exact fun _ _ _ => ⟨o, hdetect⟩

/-! ## Resolving a set of files -/

/-- A relative path without empty, `.` or `..` components. -/
structure RelPath where
  path : Text
  normal : ∀ component ∈ components path,
    component ≠ [] ∧ component ≠ lit "." ∧ component ≠ lit ".."

theorem RelPath.ne_nil (p : RelPath) : p.path ≠ [] := by
  intro hnil
  have hempty : ([] : Text) ∈ components p.path := by
    rw [hnil]
    exact List.mem_singleton.mpr rfl
  exact (p.normal [] hempty).1 rfl

/-- A discovered file with its probe. -/
structure Found where
  root : Text
  path : RelPath
  media : MediaInfo

/-- The address of a discovered file. -/
def Found.file (f : Found) : SourceKey := ⟨f.root, f.path.path⟩

/-- A set of discovered files, and tables in which no file has a place yet. -/
structure Discovery where
  found : List Found
  nodup : (found.map Found.file).Nodup
  tables : MediaTables
  probed : ∀ f ∈ found, Probed f.file tables
  unplaced : tables.parts.rows = []
  automatic : ∀ item ∈ tables.items, item.manual = false

/-- Resolve files one after another. -/
def resolveAll (kind : MediaType) : List Found → MediaTables → Except PutError MediaTables
  | [], t => .ok t
  | f :: rest, t => do
    let t ← resolveFile u kind f.file f.media t
    resolveAll kind rest t

/-- Every file gets its own slot: `detect` never gives two files of a root the
    same one, whatever their probes say, and resolving the files one after
    another fails nowhere, leaves every file in its slot, and tells the parts of
    an entry apart by their numbers. -/
structure OwnSlots (kind : MediaType) (d : Discovery) : Prop where
  distinct : ∀ f ∈ d.found, ∀ g ∈ d.found, f.root = g.root → f.path.path ≠ g.path.path →
    ∀ media media' o o', detect u kind f.path.path media = some o →
      detect u kind g.path.path media' = some o' → ∀ s ∈ o.slots, s ∉ o'.slots
  resolved : ∃ t, resolveAll u kind d.found d.tables = .ok t ∧
    (∀ f ∈ d.found, ∀ o, detect u kind f.path.path f.media = some o →
      ∀ s ∈ o.slots, partRow f.file s ∈ t.parts) ∧
    ∀ row ∈ t.parts, ∀ row' ∈ t.parts, row.entry = row'.entry → row.ordinal = row'.ordinal →
      row = row'

/-- No two paths of a root clash. -/
def NoClash (kind : MediaType) (found : List Found) : Prop :=
  ∀ f ∈ found, ∀ g ∈ found, f.root = g.root → f.path.path ≠ g.path.path →
    ¬ Clash u kind f.path.path g.path.path

/-- The tables after the files of `done` have been resolved. -/
structure Resolved (kind : MediaType) (found done : List Found) (t : MediaTables) : Prop where
  placed : Placed u kind t
  probed : ∀ f ∈ found, Probed f.file t
  known : ∀ row ∈ t.parts, ∃ f ∈ done, f.file = row.file
  slot : ∀ f ∈ done, ∀ o, detect u kind f.path.path f.media = some o →
    ∀ s ∈ o.slots, partRow f.file s ∈ t.parts

theorem Resolved.step {kind : MediaType} {found done rest : List Found} {f : Found}
    {t : MediaTables} (hfound : found = done ++ f :: rest) (hnodup : (found.map Found.file).Nodup)
    (hclash : NoClash u kind found) (h : Resolved u kind found done t) :
    ∃ t', resolveFile u kind f.file f.media t = .ok t' ∧
      Resolved u kind found (done ++ [f]) t' := by
  have hmem : f ∈ found := by simp [hfound]
  have hdone : ∀ g ∈ done, g ∈ found := fun g hg => by simp [hfound, hg]
  have hnew : ∀ g ∈ done, g.file ≠ f.file := by
    intro g hg heq
    rw [hfound, List.map_append, List.map_cons, List.nodup_append] at hnodup
    exact hnodup.2.2 g.file (List.mem_map_of_mem hg) f.file (List.mem_cons_self ..) heq
  obtain ⟨t', hrun, hresolves⟩ := resolveFile_ok u f.media f.path.ne_nil h.placed
    (h.probed f hmem) (by
      intro row hrow hroot hpath
      obtain ⟨g, hg, hfile⟩ := h.known row hrow
      rw [← hfile] at hroot hpath ⊢
      exact hclash g (hdone g hg) f hmem hroot hpath)
  refine ⟨t', hrun, hresolves.placed, fun g hg => hresolves.probed _ (h.probed g hg), ?_, ?_⟩
  · intro row hrow
    by_cases hfile : row.file = f.file
    · exact ⟨f, by simp, hfile.symm⟩
    · obtain ⟨g, hg, hg'⟩ := h.known row ((hresolves.others row hfile).mp hrow)
      exact ⟨g, by simp [hg], hg'⟩
  · intro g hg o ho s hs
    rcases List.mem_append.mp hg with hg | hg
    · exact (hresolves.others (partRow g.file s) (hnew g hg)).mpr (h.slot g hg o ho s hs)
    · rw [List.mem_singleton.mp hg] at ho ⊢
      exact hresolves.slot o ho s hs

theorem resolveAll_resolved {kind : MediaType} {found : List Found}
    (hnodup : (found.map Found.file).Nodup) (hclash : NoClash u kind found) :
    ∀ {rest done : List Found} {t : MediaTables}, found = done ++ rest →
      Resolved u kind found done t →
      ∃ t', resolveAll u kind rest t = .ok t' ∧ Resolved u kind found found t' := by
  intro rest
  induction rest with
  | nil =>
    intro done t hfound h
    rw [List.append_nil] at hfound
    exact ⟨t, rfl, hfound ▸ h⟩
  | cons f rest ih =>
    intro done t hfound h
    obtain ⟨t', hrun, hstep⟩ := h.step u hfound hnodup hclash
    obtain ⟨t'', hrest, hend⟩ := ih (by simp [hfound]) hstep
    refine ⟨t'', ?_, hend⟩
    rw [resolveAll, hrun]
    exact hrest

/-- Two parts in the same place are the same part. -/
theorem Resolved.ordinals {kind : MediaType} {found : List Found} {t : MediaTables}
    (hclash : NoClash u kind found) (h : Resolved u kind found found t) {row row' : PartRow}
    (hrow : row ∈ t.parts) (hrow' : row' ∈ t.parts) (hentry : row.entry = row'.entry)
    (hordinal : row.ordinal = row'.ordinal) : row = row' := by
  obtain ⟨f, hf, hfile⟩ := h.known row hrow
  obtain ⟨g, hg, hfile'⟩ := h.known row' hrow'
  obtain ⟨s, hslot, hs⟩ := h.placed.slot row hrow
  obtain ⟨s', hslot', hs'⟩ := h.placed.slot row' hrow'
  rw [hs, hs'] at hentry hordinal
  obtain ⟨hitem, hentry⟩ := Prod.mk.inj hentry
  obtain ⟨hroot, hitem⟩ := Prod.mk.inj hitem
  have hsame : s = s' := by
    cases s
    cases s'
    exact Slot.mk.injEq .. ▸ ⟨hitem, hentry, hordinal⟩
  rw [← hfile, ← hfile'] at hroot
  rw [← hfile] at hslot
  rw [← hfile', ← hsame] at hslot'
  have hpath : f.path.path = g.path.path := by
    by_contra hne
    exact hclash f hf g hg hroot hne (clash_of_slotFor u hslot hslot' hne)
  have hfiles : f.file = g.file := by
    rw [Found.file, Found.file, hpath]
    exact congrArg (SourceKey.mk · _) hroot
  rw [hs, hs', hsame, ← hfile, ← hfile', hfiles]

/-- Every physical file gets its own slot exactly when no two paths of a root
    are numbered parts of a film that agree but for the spelling of part markers
    and the numbers that do not count. -/
theorem own_slots_iff (kind : MediaType) (d : Discovery) :
    OwnSlots u kind d ↔ NoClash u kind d.found := by
  constructor
  · rintro ⟨hdistinct, -⟩ f hf g hg hroot hpath hclash
    obtain ⟨o, ho⟩ := detect_filmPart u f.media hclash.1
    obtain ⟨o', ho'⟩ := detect_filmPart u g.media hclash.2.1
    obtain ⟨e, s, hsole, hslot⟩ := detect_sole u f.path.ne_nil ho
    obtain ⟨e', s', hsole', hslot'⟩ := detect_sole u g.path.ne_nil ho'
    have hs : s ∈ o.slots := by rw [hsole.slots_eq]; exact List.mem_singleton.mpr rfl
    refine hdistinct f hf g hg hroot hpath _ _ o o' ho ho' s hs ?_
    rw [hsole'.slots_eq, hclash.slot_eq u hslot hslot']
    exact List.mem_singleton.mpr rfl
  · intro hclash
    refine ⟨?_, ?_⟩
    · intro f hf g hg hroot hpath media media' o o' ho ho' s hs hs'
      obtain ⟨e, s₁, hsole, hslot⟩ := detect_sole u f.path.ne_nil ho
      obtain ⟨e', s₂, hsole', hslot'⟩ := detect_sole u g.path.ne_nil ho'
      rw [hsole.slots_eq, List.mem_singleton] at hs
      rw [hsole'.slots_eq, List.mem_singleton] at hs'
      rw [← hs] at hslot
      rw [← hs'] at hslot'
      exact hclash f hf g hg hroot hpath (clash_of_slotFor u hslot hslot' hpath)
    · have hstart : Resolved u kind d.found [] d.tables := by
        have hempty : ∀ row, row ∉ d.tables.parts := fun row hrow => by
          rw [Table.mem_def, d.unplaced] at hrow
          cases hrow
        exact ⟨⟨d.automatic, fun row hrow => absurd hrow (hempty row)⟩, d.probed,
          fun row hrow => absurd hrow (hempty row), fun f hf => by cases hf⟩
      obtain ⟨t, hrun, hend⟩ := resolveAll_resolved u d.nodup hclash (List.nil_append _).symm hstart
      exact ⟨t, hrun, hend.slot,
        fun row hrow row' hrow' => hend.ordinals u hclash hrow hrow'⟩

/-! ## A box set -/

/-- A probe without tags, artwork or video streams. -/
def bareMedia : MediaInfo := ⟨fun _ => none, none, []⟩

/-- The first part of the first disc. -/
def discOne : Found :=
  ⟨lit "root", ⟨lit "Film/CD1/part1.mkv", by decide⟩, bareMedia⟩

/-- The first part of the second disc. -/
def discTwo : Found :=
  ⟨lit "root", ⟨lit "Film/CD2/part1.mkv", by decide⟩, bareMedia⟩

/-- The row of a file that has been probed. -/
def Found.row (f : Found) : FileRow :=
  ⟨f.file, 1, 0, some 0, some 0, some 0, some 0, some 0, some f.media, none⟩

/-- A film on two discs, each of which numbers its parts from one. -/
def boxSet : Discovery where
  found := [discOne, discTwo]
  nodup := by decide
  tables := ⟨⟨[discOne.row, discTwo.row], by decide⟩, Table.empty, Table.empty, Table.empty⟩
  probed := by
    intro f hf
    simp only [List.mem_cons, List.not_mem_nil, or_false] at hf
    rcases hf with rfl | rfl
    · exact ⟨discOne.row, rfl, rfl⟩
    · exact ⟨discTwo.row, rfl, rfl⟩
  unplaced := rfl
  automatic := fun item hitem => by cases hitem

/-- Why a run failed, if it did. -/
def failure : Except PutError MediaTables → Option PutError
  | .error e => some e
  | .ok _ => none

/-- `multipart` keeps the number of the file name and drops that of the
    directory, so the two files get one slot and the second fails. -/
theorem box_set_clash :
    ¬ OwnSlots Unicode.ascii .movies boxSet ∧
      failure (resolveAll Unicode.ascii .movies boxSet.found boxSet.tables) =
        some .duplicatePart := by
  have hrun : failure (resolveAll Unicode.ascii .movies boxSet.found boxSet.tables) =
      some .duplicatePart := by
    decide +kernel
  refine ⟨fun h => ?_, hrun⟩
  obtain ⟨t, ht, -⟩ := h.resolved
  rw [ht] at hrun
  cases hrun

end Kahawai.MediaDb
