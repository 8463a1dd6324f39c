import Kahawai.Hub.Allowlist.State

/-!
# The allowlist is what is stored

The table changes first and the set is patched afterwards, by each operation with the
fingerprints that it knows of. That keeps the two together where every write changes
what the operation knows, and no removal comes before an insertion.

* `allowed_eq_stored`: in a run whose events are all `sound`, the set holds what the
  table stores whenever nothing is in flight, and a restart drops lapsed renewals only.
* `superseded_certificate_admitted`: the certificate that a satellite had before it
  enrolled again stays in the set.
-/

namespace Kahawai.Hub.Allowlist

open Kahawai.Lib

variable {s s' : System} {r r' : Run} {row row' : Satellite} {f m : String}

/-! ## The condition -/

/-- A statement writes over what the operation has read: the certificate that a promotion
    retires is the current one, the renewal that a settlement retires is the pending
    one, or there is none and it is not the current one, and a deletion knows all
    fingerprints of its satellite. -/
def System.soundStatement (s : System) : Position → Bool
  | .settlePromote moduleId current =>
    (s.satellites.get? moduleId).all fun row =>
      row.pendingFingerprint = none || row.certFingerprint = current
  | .settleRetire moduleId pending =>
    (s.satellites.get? moduleId).all fun row =>
      row.pendingFingerprint = some pending ||
        (row.pendingFingerprint = none && row.certFingerprint ≠ pending)
  | .deleteRows moduleId fingerprint pending =>
    (s.satellites.get? moduleId).all fun row =>
      row.fingerprints.all fun f => f = fingerprint || pending = some f
  | _ => true

/-- A removal from the set comes after the insertions of the same fingerprint. -/
def System.soundStep (s : System) (r : Run) : Bool :=
  match r.todo with
  | .remove f :: _ => s.runs.all fun other => .insert f ∉ other.todo
  | .insert _ :: _ => true
  | [] => s.soundStatement r.position

/-- An enrolment is the first of its satellite, and a step is sound. -/
def System.sound (s : System) : Event → Bool
  | .begin (.recordSatellite moduleId _) => (s.satellites.get? moduleId).isNone
  | .step i => s.runs[i]?.all s.soundStep
  | _ => true

/-! ## Who a fingerprint belongs to -/

/-- The fingerprints of a row were recorded for its satellite and differ. -/
structure OwnedRow (signed : String → Option String) (row : Satellite) : Prop where
  signed : ∀ f ∈ row.fingerprints, signed f = some row.moduleId
  pending_ne : row.pendingFingerprint ≠ some row.certFingerprint

/-- The satellite and the fingerprints of it that an operation has read. -/
def Position.reads : Position → List (String × String)
  | .settlePromote m f | .settleRetire m f | .deletePending m f => [(m, f)]
  | .deleteCatalogue m f pending | .deleteRows m f pending =>
    (m, f) :: pending.toList.map (m, ·)
  | .deleted _ | .done _ => []

/-- What an operation has read and what it will remove was recorded. -/
structure OwnedRun (signed : String → Option String) (r : Run) : Prop where
  reads : ∀ x ∈ r.position.reads, signed x.2 = some x.1
  removes : ∀ f, .remove f ∈ r.todo → (signed f).isSome

structure Owned (s : System) : Prop where
  rows : ∀ row ∈ s.satellites, OwnedRow s.signed row
  runs : ∀ r ∈ s.runs, OwnedRun s.signed r

@[simp] theorem mem_fingerprints :
    f ∈ row.fingerprints ↔ f = row.certFingerprint ∨ row.pendingFingerprint = some f := by
  simp [Satellite.fingerprints]

theorem mem_stored : f ∈ s.stored ↔ ∃ row ∈ s.satellites, f ∈ row.fingerprints := by
  simp [System.stored, Table.mem_def]

theorem OwnedRow.mono {signed signed' : String → Option String} (h : OwnedRow signed row)
    (hle : ∀ f m, signed f = some m → signed' f = some m) : OwnedRow signed' row :=
  ⟨fun f hf => hle _ _ (h.signed f hf), h.pending_ne⟩

theorem OwnedRun.mono {signed signed' : String → Option String} (h : OwnedRun signed r)
    (hle : ∀ f m, signed f = some m → signed' f = some m) : OwnedRun signed' r := by
  refine ⟨fun x hx => hle _ _ (h.reads x hx), fun f hf => ?_⟩
  obtain ⟨m, hm⟩ := Option.isSome_iff_exists.mp (h.removes f hf)
  exact Option.isSome_iff_exists.mpr ⟨m, hle _ _ hm⟩

theorem OwnedRun.finish (signed : String → Option String) (error : Option String) :
    OwnedRun signed (finish error) :=
  ⟨fun _ hx => (by cases hx), fun _ hf => (by cases hf)⟩

/-- A certificate that was not signed is nowhere stored. -/
theorem Owned.not_mem_row (h : Owned s) (hf : s.signed f = none) (row : Satellite)
    (hrow : row ∈ s.satellites) : f ∉ row.fingerprints := by
  intro hmem
  rw [(h.rows row hrow).signed f hmem] at hf
  cases hf

/-- Rows with a fingerprint in common are of the same satellite. -/
theorem Owned.moduleId_eq (h : Owned s) (hrow : row ∈ s.satellites) (hrow' : row' ∈ s.satellites)
    (hf : f ∈ row.fingerprints) (hf' : f ∈ row'.fingerprints) : row.moduleId = row'.moduleId :=
  Option.some.inj (((h.rows row hrow).signed f hf).symm.trans ((h.rows row' hrow').signed f hf'))

/-- An operation that will remove one fingerprint. -/
theorem OwnedRun.removes_one {signed : String → Option String} {error : Option String}
    (hf : signed f = some m) : OwnedRun signed ⟨.done error, [.remove f]⟩ := by
  refine ⟨fun _ hx => (by cases hx), fun f' hf' => ?_⟩
  simp only [List.mem_singleton, Patch.remove.injEq] at hf'
  rw [hf', hf]
  rfl

/-- A stored fingerprint of a satellite is in its row. -/
theorem Owned.mem_row (h : Owned s) (hf : f ∈ s.stored) (hm : s.signed f = some m) :
    ∃ row, s.satellites.get? m = some row ∧ f ∈ row.fingerprints := by
  obtain ⟨row, hrow, hmem⟩ := mem_stored.mp hf
  have hkey : row.moduleId = m :=
    Option.some.inj (((h.rows row hrow).signed f hmem).symm.trans hm)
  exact ⟨row, hkey ▸ Table.get?_of_mem hrow, hmem⟩

/-! ## What is stored after a write -/

theorem mem_stored_put_new (hnew : s.satellites.get? row.moduleId = none) :
    f ∈ System.stored { s with satellites := s.satellites.put row } ↔
      f ∈ row.fingerprints ∨ f ∈ s.stored := by
  rw [mem_stored, mem_stored]
  simp only [Table.mem_put]
  constructor
  · rintro ⟨r, rfl | ⟨hr, -⟩, hf⟩
    · exact Or.inl hf
    · exact Or.inr ⟨r, hr, hf⟩
  · rintro (hf | ⟨r, hr, hf⟩)
    · exact ⟨row, Or.inl rfl, hf⟩
    · exact ⟨r, Or.inr ⟨hr, Table.get?_eq_none.mp hnew r hr⟩, hf⟩

theorem Owned.mem_stored_put (h : Owned s) (hrow : s.satellites.get? m = some row)
    (hkey : row'.moduleId = row.moduleId) :
    f ∈ System.stored { s with satellites := s.satellites.put row' } ↔
      f ∈ row'.fingerprints ∨ f ∈ s.stored ∧ f ∉ row.fingerprints := by
  have hmem := Table.get?_mem hrow
  rw [mem_stored, mem_stored]
  simp only [Table.mem_put]
  constructor
  · rintro ⟨r, rfl | ⟨hr, hne⟩, hf⟩
    · exact Or.inl hf
    · exact Or.inr ⟨⟨r, hr, hf⟩, fun hf' => hne ((h.moduleId_eq hr hmem hf hf').trans hkey.symm)⟩
  · rintro (hf | ⟨⟨r, hr, hf⟩, hnot⟩)
    · exact ⟨row', Or.inl rfl, hf⟩
    · refine ⟨r, Or.inr ⟨hr, fun hk => hnot ?_⟩, hf⟩
      rwa [← Table.eq_of_key_eq hr hmem (hk.trans hkey)]

theorem Owned.mem_stored_erase (h : Owned s) (hrow : s.satellites.get? m = some row) :
    f ∈ System.stored { s with satellites := s.satellites.erase m } ↔
      f ∈ s.stored ∧ f ∉ row.fingerprints := by
  have hmem := Table.get?_mem hrow
  have hkey : row.moduleId = m := Table.get?_key hrow
  rw [mem_stored, mem_stored]
  simp only [Table.mem_erase]
  constructor
  · rintro ⟨r, ⟨hr, hne⟩, hf⟩
    exact ⟨⟨r, hr, hf⟩, fun hf' => hne ((h.moduleId_eq hr hmem hf hf').trans hkey)⟩
  · rintro ⟨⟨r, hr, hf⟩, hnot⟩
    refine ⟨r, ⟨hr, fun hk => hnot ?_⟩, hf⟩
    rwa [← Table.eq_of_key_eq hr hmem (hk.trans hkey.symm)]

theorem mem_stored_erase_none (hnone : s.satellites.get? m = none) :
    f ∈ System.stored { s with satellites := s.satellites.erase m } ↔ f ∈ s.stored := by
  rw [mem_stored, mem_stored]
  simp only [Table.mem_erase]
  constructor
  · rintro ⟨r, ⟨hr, _⟩, hf⟩
    exact ⟨r, hr, hf⟩
  · rintro ⟨r, hr, hf⟩
    exact ⟨r, ⟨hr, Table.get?_eq_none.mp hnone r hr⟩, hf⟩

/-! ## What an operation keeps -/

/-- An operation changes the table from `s` to `s'` and continues as `r`. -/
structure Kept (s s' : System) (r : Run) : Prop where
  phase : s'.phase = s.phase
  runs : s'.runs = s.runs
  allowed : s'.allowed = s.allowed
  signed : ∀ f m, s.signed f = some m → s'.signed f = some m
  rows : ∀ row ∈ s'.satellites, OwnedRow s'.signed row
  run : OwnedRun s'.signed r

/-- The operation has only read. -/
theorem Kept.read (h : Owned s) (hr : OwnedRun s.signed r) : Kept s s r :=
  ⟨rfl, rfl, rfl, fun _ _ => id, h.rows, hr⟩

theorem Owned.rows_put (h : Owned s) (hrow : OwnedRow s.signed row) :
    ∀ r ∈ s.satellites.put row, OwnedRow s.signed r := by
  intro r hr
  rcases Table.mem_put.mp hr with rfl | ⟨hr, -⟩
  · exact hrow
  · exact h.rows r hr

/-- A certificate is signed that none was signed before. -/
theorem sign_mono (hfresh : s.signed f = none) (f' m' : String) (h : s.signed f' = some m') :
    (s.sign f m).signed f' = some m' := by
  have hne : f' ≠ f := by
    rintro rfl
    rw [hfresh] at h
    cases h
  simpa [System.sign, Function.update_of_ne hne] using h

theorem Owned.sign (h : Owned s) (hfresh : s.signed f = none) : Owned (s.sign f m) :=
  ⟨fun row hrow => (h.rows row hrow).mono (sign_mono hfresh),
    fun r hr => (h.runs r hr).mono (sign_mono hfresh)⟩

theorem signed_sign (s : System) (f m : String) : (s.sign f m).signed f = some m := by
  simp [System.sign]

theorem Owned.recordSatellite (h : Owned s) (hm : s.signed f = some m)
    (hfresh : ∀ row ∈ s.satellites, f ∉ row.fingerprints) :
    Kept s (s.recordSatellite m f).1 (s.recordSatellite m f).2 := by
  refine ⟨rfl, rfl, rfl, fun _ _ => id, h.rows_put ?_, fun _ hx => (by cases hx), ?_⟩
  · cases hget : s.satellites.get? m with
    | none =>
      refine ⟨fun f' hf' => ?_, by simp⟩
      obtain rfl : f' = f := by simpa using hf'
      exact hm
    | some row =>
      have hrow := Table.get?_mem hget
      have hkey : row.moduleId = m := Table.get?_key hget
      refine ⟨fun f' hf' => ?_, fun heq => hfresh row hrow (mem_fingerprints.mpr (Or.inr heq))⟩
      rcases mem_fingerprints.mp hf' with rfl | hpending
      · exact hm.trans (congrArg some hkey.symm)
      · exact (h.rows row hrow).signed f' (mem_fingerprints.mpr (Or.inr hpending))
  · intro f' hf'
    simp [System.recordSatellite] at hf'

theorem Owned.recordRenewal (h : Owned s) (hm : s.signed f = some m)
    (hfresh : ∀ row ∈ s.satellites, f ∉ row.fingerprints) :
    Kept s (s.recordRenewal m f).1 (s.recordRenewal m f).2 := by
  rw [System.recordRenewal]
  cases hget : s.satellites.get? m with
  | none => exact Kept.read h (OwnedRun.finish _ _)
  | some row =>
    have hrow := Table.get?_mem hget
    have hkey : row.moduleId = m := Table.get?_key hget
    refine ⟨rfl, rfl, rfl, fun _ _ => id, h.rows_put ⟨fun f' hf' => ?_, fun heq => ?_⟩,
      fun _ hx => (by cases hx), fun f' hf' => ?_⟩
    · rcases mem_fingerprints.mp hf' with rfl | hpending
      · exact (h.rows row hrow).signed _ (mem_fingerprints.mpr (Or.inl rfl))
      · obtain rfl := Option.some.inj hpending
        exact hm.trans (congrArg some hkey.symm)
    · exact hfresh row hrow (mem_fingerprints.mpr (Or.inl (Option.some.inj heq)))
    · simp only [List.mem_cons, reduceCtorEq, false_or, List.mem_map, Patch.remove.injEq,
        exists_eq_right, List.mem_filter, Option.mem_toList] at hf'
      rw [(h.rows row hrow).signed f' (mem_fingerprints.mpr (Or.inr hf'.1))]
      rfl

theorem Owned.settleRenewal (h : Owned s) (moduleId presented : String) :
    OwnedRun s.signed (s.settleRenewal moduleId presented) := by
  rw [System.settleRenewal]
  split
  · exact OwnedRun.finish _ _
  · rename_i row hget
    have hrow := Table.get?_mem hget
    have hkey : row.moduleId = moduleId := Table.get?_key hget
    split
    · exact OwnedRun.finish _ _
    · rename_i pending hpending
      split_ifs
      · refine ⟨fun x hx => ?_, fun _ hf => (by cases hf)⟩
        obtain rfl := List.mem_singleton.mp hx
        exact hkey ▸ (h.rows row hrow).signed _ (mem_fingerprints.mpr (Or.inl rfl))
      · refine ⟨fun x hx => ?_, fun _ hf => (by cases hf)⟩
        obtain rfl := List.mem_singleton.mp hx
        exact hkey ▸ (h.rows row hrow).signed _ (mem_fingerprints.mpr (Or.inr hpending))
      · exact OwnedRun.finish _ _

theorem Owned.deleteSatellite (h : Owned s) (moduleId : String) :
    OwnedRun s.signed (s.deleteSatellite moduleId) := by
  rw [System.deleteSatellite]
  split
  · exact OwnedRun.finish _ _
  · split
    · exact OwnedRun.finish _ _
    · rename_i row hget
      have hkey : row.moduleId = moduleId := Table.get?_key hget
      split
      · exact OwnedRun.finish _ _
      · refine ⟨fun x hx => ?_, fun _ hf => (by cases hf)⟩
        obtain rfl := List.mem_singleton.mp hx
        exact hkey ▸ (h.rows row (Table.get?_mem hget)).signed _ (mem_fingerprints.mpr (Or.inl rfl))

theorem Owned.begin (h : Owned s) {call : Call} (hb : s.begin call = some (s', r)) :
    Kept s s' r := by
  cases call with
  | recordSatellite moduleId fingerprint =>
    rw [System.begin] at hb
    split_ifs at hb with hsigned
    rw [Option.not_isSome_iff_eq_none] at hsigned
    have hpair := Option.some.inj hb
    have hkept := (h.sign hsigned).recordSatellite (signed_sign s fingerprint moduleId)
      (h.not_mem_row hsigned)
    rw [hpair] at hkept
    exact ⟨hkept.phase, hkept.runs, hkept.allowed,
      fun f m hf => hkept.signed f m (sign_mono hsigned f m hf), hkept.rows, hkept.run⟩
  | recordRenewal moduleId fingerprint =>
    rw [System.begin] at hb
    split_ifs at hb with hsigned
    rw [Option.not_isSome_iff_eq_none] at hsigned
    have hpair := Option.some.inj hb
    have hkept := (h.sign hsigned).recordRenewal (signed_sign s fingerprint moduleId)
      (h.not_mem_row hsigned)
    rw [hpair] at hkept
    exact ⟨hkept.phase, hkept.runs, hkept.allowed,
      fun f m hf => hkept.signed f m (sign_mono hsigned f m hf), hkept.rows, hkept.run⟩
  | settleRenewal moduleId presented =>
    cases hb
    exact Kept.read h (h.settleRenewal moduleId presented)
  | deleteSatellite moduleId =>
    rw [System.begin] at hb
    split_ifs at hb
    cases hb
    exact Kept.read h (h.deleteSatellite moduleId)

theorem Owned.statement (h : Owned s) {position : Position}
    (hr : ∀ x ∈ position.reads, s.signed x.2 = some x.1)
    (ha : s.statement position = some (s', r')) : Kept s s' r' := by
  cases position with
  | settlePromote moduleId current =>
    have hcurrent := hr (moduleId, current) (List.mem_singleton.mpr rfl)
    rw [System.statement] at ha
    split at ha
    · cases ha
      exact Kept.read h (OwnedRun.removes_one hcurrent)
    · rename_i row hget
      have hrow := h.rows row (Table.get?_mem hget)
      split at ha
      · cases ha
        exact Kept.read h (OwnedRun.finish _ _)
      · rename_i pending hpending
        cases ha
        refine ⟨rfl, rfl, rfl, fun _ _ => id, h.rows_put ⟨fun f hf => ?_, by simp [Satellite.clearPending]⟩,
          OwnedRun.removes_one hcurrent⟩
        obtain rfl : f = pending := by simpa [Satellite.clearPending] using hf
        exact hrow.signed f (mem_fingerprints.mpr (Or.inr hpending))
  | settleRetire moduleId pending =>
    have hpending := hr (moduleId, pending) (List.mem_singleton.mpr rfl)
    rw [System.statement] at ha
    cases ha
    refine ⟨rfl, rfl, rfl, fun _ _ => id, ?_, OwnedRun.removes_one hpending⟩
    split
    · exact h.rows
    · rename_i row hget
      have hrow := h.rows row (Table.get?_mem hget)
      refine h.rows_put ⟨fun f hf => hrow.signed f (mem_fingerprints.mpr (Or.inl ?_)),
        by simp [Satellite.clearPending]⟩
      simpa [Satellite.clearPending] using hf
  | deletePending moduleId fingerprint =>
    have hfingerprint := hr (moduleId, fingerprint) (List.mem_singleton.mpr rfl)
    rw [System.statement] at ha
    split at ha
    · cases ha
      exact Kept.read h (OwnedRun.finish _ _)
    · rename_i row hget
      have hrow := h.rows row (Table.get?_mem hget)
      have hkey : row.moduleId = moduleId := Table.get?_key hget
      cases ha
      refine Kept.read h ⟨fun x hx => ?_, fun _ hf => (by cases hf)⟩
      rcases List.mem_cons.mp hx with rfl | hx
      · exact hfingerprint
      · obtain ⟨f, hf, rfl⟩ := List.mem_map.mp hx
        exact hkey ▸ hrow.signed f (mem_fingerprints.mpr (Or.inr (Option.mem_toList.mp hf)))
  | deleteCatalogue moduleId fingerprint pending =>
    cases ha
    exact Kept.read h ⟨hr, fun _ hf => (by cases hf)⟩
  | deleteRows moduleId fingerprint pending =>
    cases ha
    refine ⟨rfl, rfl, rfl, fun _ _ => id, fun row hrow => h.rows row (Table.mem_erase.mp hrow).1,
      fun _ hx => (by cases hx), fun f hf => ?_⟩
    have hread : (moduleId, f) ∈ Position.reads (.deleteRows moduleId fingerprint pending) := by
      simpa [Position.reads] using hf
    rw [hr _ hread]
    rfl
  | deleted moduleId => cases ha
  | done error => cases ha

/-! ## What the patches of an operation say -/

/-- The patches `todo` say what changes in the table from `s` to `s'`. -/
def Accounted (s s' : System) (todo : List (Patch String)) : Prop :=
  ∀ f, f ∈ s'.stored ↔ (f ∈ s.stored ∨ .insert f ∈ todo) ∧ .remove f ∉ todo

theorem Accounted.read (hstored : s'.stored = s.stored) : Accounted s s' [] :=
  fun f => by simp [hstored]

/-- A write that takes one fingerprint out of the table. -/
theorem Accounted.remove_one (hstored : ∀ f', f' ∈ s'.stored ↔ f' ∈ s.stored ∧ f' ≠ f) :
    Accounted s s' [.remove f] :=
  fun f' => by simp [hstored]

/-- A fingerprint of a satellite that is not in its row is not stored. -/
theorem Owned.remove_absent (h : Owned s) (hf : s.signed f = some m)
    (hnot : ∀ row, s.satellites.get? m = some row → f ∉ row.fingerprints) (f' : String) :
    f' ∈ s.stored ↔ f' ∈ s.stored ∧ f' ≠ f := by
  refine ⟨fun hmem => ⟨hmem, ?_⟩, And.left⟩
  rintro rfl
  obtain ⟨row, hrow, hin⟩ := h.mem_row hmem hf
  exact hnot row hrow hin

theorem Owned.mem_stored_cert (h : Owned s) (hrow : s.satellites.get? m = some row) :
    row.certFingerprint ∈ s.stored ∧ row.pendingFingerprint ≠ some row.certFingerprint :=
  ⟨mem_stored.mpr ⟨row, Table.get?_mem hrow, mem_fingerprints.mpr (Or.inl rfl)⟩,
    (h.rows row (Table.get?_mem hrow)).pending_ne⟩

theorem accounted_recordSatellite (hnew : s.satellites.get? m = none) :
    Accounted s (s.recordSatellite m f).1 (s.recordSatellite m f).2.todo := by
  intro f'
  rw [System.recordSatellite, hnew, mem_stored_put_new (by exact hnew)]
  simp [or_comm]

theorem Owned.accounted_recordRenewal (h : Owned s)
    (hfresh : ∀ row ∈ s.satellites, f ∉ row.fingerprints) :
    Accounted s (s.recordRenewal m f).1 (s.recordRenewal m f).2.todo := by
  cases hget : s.satellites.get? m with
  | none =>
    rw [System.recordRenewal, hget]
    exact Accounted.read rfl
  | some row =>
    have hrow := Table.get?_mem hget
    obtain ⟨hcert, hne⟩ := h.mem_stored_cert hget
    have hnew : row.pendingFingerprint ≠ some f := fun heq =>
      hfresh row hrow (mem_fingerprints.mpr (Or.inr heq))
    have hstored : ∀ f', f' ∈ (s.recordRenewal m f).1.stored ↔
        (f' = row.certFingerprint ∨ f' = f) ∨ f' ∈ s.stored ∧ f' ∉ row.fingerprints := by
      intro f'
      rw [System.recordRenewal, hget, h.mem_stored_put hget (by rfl)]
      simp [eq_comm]
    have htodo : ∀ f', .remove f' ∈ (s.recordRenewal m f).2.todo ↔
        row.pendingFingerprint = some f' := by
      intro f'
      rw [System.recordRenewal, hget]
      simp only [List.mem_cons, reduceCtorEq, false_or, List.mem_map, List.mem_filter,
        Option.mem_toList, Patch.remove.injEq, exists_eq_right, decide_eq_true_eq,
        and_iff_left_iff_imp]
      rintro heq rfl
      exact hnew heq
    have hinsert : ∀ f', .insert f' ∈ (s.recordRenewal m f).2.todo ↔ f' = f := by
      intro f'
      rw [System.recordRenewal, hget]
      simp
    intro f'
    rw [hstored, hinsert, htodo, mem_fingerprints]
    constructor
    · rintro ((rfl | rfl) | ⟨hin, hnot⟩)
      · exact ⟨Or.inl hcert, hne⟩
      · exact ⟨Or.inr rfl, hnew⟩
      · exact ⟨Or.inl hin, fun heq => hnot (Or.inr heq)⟩
    · rintro ⟨hin | rfl, hnot⟩
      · by_cases heq : f' = row.certFingerprint
        · exact Or.inl (Or.inl heq)
        · exact Or.inr ⟨hin, fun hor => hor.elim heq hnot⟩
      · exact Or.inl (Or.inr rfl)

theorem settleRenewal_todo (s : System) (moduleId presented : String) :
    (s.settleRenewal moduleId presented).todo = [] := by
  rw [System.settleRenewal]
  split
  · rfl
  · split
    · rfl
    · split_ifs <;> rfl

theorem deleteSatellite_todo (s : System) (moduleId : String) :
    (s.deleteSatellite moduleId).todo = [] := by
  rw [System.deleteSatellite]
  split
  · rfl
  · split
    · rfl
    · split <;> rfl

/-- A sound statement changes in the table what its operation then changes in the set. -/
theorem Owned.accounted_statement (h : Owned s) {position : Position}
    (hr : ∀ x ∈ position.reads, s.signed x.2 = some x.1) (hsound : s.soundStatement position)
    (ha : s.statement position = some (s', r')) : Accounted s s' r'.todo := by
  cases position with
  | settlePromote moduleId current =>
    have hcurrent := hr (moduleId, current) (List.mem_singleton.mpr rfl)
    rw [System.statement] at ha
    rw [System.soundStatement] at hsound
    split at ha
    · rename_i hget
      cases ha
      refine Accounted.remove_one (h.remove_absent hcurrent fun row hrow => ?_)
      rw [hget] at hrow
      cases hrow
    · rename_i row hget
      obtain ⟨hcert, hne⟩ := h.mem_stored_cert hget
      split at ha
      · cases ha
        exact Accounted.read rfl
      · rename_i pending hpending
        have hsame : row.certFingerprint = current := by simpa [hget, hpending] using hsound
        have hmem : pending ∈ s.stored :=
          mem_stored.mpr ⟨row, Table.get?_mem hget, mem_fingerprints.mpr (Or.inr hpending)⟩
        cases ha
        refine Accounted.remove_one fun f => ?_
        rw [h.mem_stored_put hget (by rfl), mem_fingerprints, mem_fingerprints, hsame, hpending]
        simp only [Satellite.clearPending, reduceCtorEq, or_false, Option.some.injEq]
        rw [hsame, hpending] at hne
        constructor
        · rintro (rfl | ⟨hin, hnot⟩)
          · exact ⟨hmem, fun heq => hne (congrArg some heq)⟩
          · exact ⟨hin, fun heq => hnot (Or.inl heq)⟩
        · rintro ⟨hin, hnot⟩
          by_cases heq : f = pending
          · exact Or.inl heq
          · exact Or.inr ⟨hin, fun hor => hor.elim hnot fun heq' => heq heq'.symm⟩
  | settleRetire moduleId pending =>
    have hpending := hr (moduleId, pending) (List.mem_singleton.mpr rfl)
    rw [System.soundStatement] at hsound
    rw [System.statement] at ha
    cases ha
    refine Accounted.remove_one fun f => ?_
    split
    · rename_i hget
      refine h.remove_absent hpending (fun row hrow => ?_) f
      rw [hget] at hrow
      cases hrow
    · rename_i row hget
      obtain ⟨hcert, hne⟩ := h.mem_stored_cert hget
      rw [h.mem_stored_put hget (by rfl), mem_fingerprints, mem_fingerprints]
      simp only [Satellite.clearPending, reduceCtorEq, or_false]
      have hcases : row.pendingFingerprint = some pending ∨
          row.pendingFingerprint = none ∧ row.certFingerprint ≠ pending := by
        simpa [hget] using hsound
      rcases hcases with hp | ⟨hp, hdiff⟩
      · rw [hp] at hne ⊢
        constructor
        · rintro (rfl | ⟨hin, hnot⟩)
          · exact ⟨hcert, fun heq => hne (congrArg some heq.symm)⟩
          · exact ⟨hin, fun heq => hnot (Or.inr (congrArg some heq.symm))⟩
        · rintro ⟨hin, hnot⟩
          by_cases heq : f = row.certFingerprint
          · exact Or.inl heq
          · exact Or.inr ⟨hin, fun hor => hor.elim heq fun hs => hnot (Option.some.inj hs).symm⟩
      · have habsent := h.remove_absent hpending (fun row' hrow' hin => ?_) f
        · rw [← habsent, hp]
          constructor
          · rintro (rfl | ⟨hin, -⟩)
            · exact hcert
            · exact hin
          · intro hin
            by_cases heq : f = row.certFingerprint
            · exact Or.inl heq
            · exact Or.inr ⟨hin, fun hor => hor.elim heq fun hs => (by cases hs)⟩
        · obtain rfl := Option.some.inj (hget.symm.trans hrow')
          rcases mem_fingerprints.mp hin with heq | heq
          · exact hdiff heq.symm
          · rw [hp] at heq
            cases heq
  | deletePending moduleId fingerprint =>
    rw [System.statement] at ha
    split at ha <;> cases ha <;> exact Accounted.read rfl
  | deleteCatalogue moduleId fingerprint pending =>
    cases ha
    exact Accounted.read rfl
  | deleteRows moduleId fingerprint pending =>
    have hread : ∀ {f}, f = fingerprint ∨ pending = some f → s.signed f = some moduleId := by
      intro f hf
      refine hr (moduleId, f) ?_
      simpa [Position.reads] using hf
    cases ha
    intro f
    have hremove : Patch.remove f ∈ (Patch.remove fingerprint :: pending.toList.map .remove) ↔
        f = fingerprint ∨ pending = some f := by
      simp
    have hinsert : Patch.insert f ∉ (Patch.remove fingerprint :: pending.toList.map .remove) := by
      simp
    rw [hremove, or_iff_left hinsert]
    cases hget : s.satellites.get? moduleId with
    | none =>
      rw [mem_stored_erase_none hget]
      refine ⟨fun hin => ⟨hin, fun hor => ?_⟩, And.left⟩
      obtain ⟨row, hrow, -⟩ := h.mem_row hin (hread hor)
      rw [hget] at hrow
      cases hrow
    | some row =>
      rw [h.mem_stored_erase hget]
      refine and_congr_right fun hin => not_congr ⟨fun hmem => ?_, fun hor => ?_⟩
      · have hall : ∀ f' ∈ row.fingerprints, f' = fingerprint ∨ pending = some f' := by
          simpa [System.soundStatement, hget] using hsound
        exact hall f hmem
      · obtain ⟨row', hrow', hmem⟩ := h.mem_row hin (hread hor)
        obtain rfl := Option.some.inj (hget.symm.trans hrow')
        exact hmem
  | deleted moduleId => cases ha
  | done error => cases ha

theorem Owned.accounted_begin (h : Owned s) {call : Call} (hsound : s.sound (.begin call))
    (hb : s.begin call = some (s', r)) : Accounted s s' r.todo := by
  cases call with
  | recordSatellite moduleId fingerprint =>
    rw [System.begin] at hb
    split_ifs at hb with hsigned
    have hacc := accounted_recordSatellite (s := s.sign fingerprint moduleId) (f := fingerprint)
      (Option.isNone_iff_eq_none.mp hsound)
    rwa [Option.some.inj hb] at hacc
  | recordRenewal moduleId fingerprint =>
    rw [System.begin] at hb
    split_ifs at hb with hsigned
    rw [Option.not_isSome_iff_eq_none] at hsigned
    have hacc := (h.sign (m := moduleId) hsigned).accounted_recordRenewal (m := moduleId)
      (h.not_mem_row hsigned)
    rwa [Option.some.inj hb] at hacc
  | settleRenewal moduleId presented =>
    cases hb
    rw [settleRenewal_todo]
    exact Accounted.read rfl
  | deleteSatellite moduleId =>
    rw [System.begin] at hb
    split_ifs at hb
    cases hb
    rw [deleteSatellite_todo]
    exact Accounted.read rfl

/-- What an operation inserts is the certificate it brings. -/
theorem insert_of_begin {call : Call} (hb : s.begin call = some (s', r))
    (hf : .insert f ∈ r.todo) : s.signed f = none := by
  cases call with
  | recordSatellite moduleId fingerprint =>
    rw [System.begin] at hb
    split_ifs at hb with hsigned
    cases hb
    obtain rfl : f = fingerprint := by simpa using hf
    exact Option.not_isSome_iff_eq_none.mp hsigned
  | recordRenewal moduleId fingerprint =>
    rw [System.begin] at hb
    split_ifs at hb with hsigned
    rw [← show _ = r from congrArg Prod.snd (Option.some.inj hb), System.recordRenewal] at hf
    rw [Option.not_isSome_iff_eq_none] at hsigned
    split at hf
    · cases hf
    · obtain rfl : f = fingerprint := by simpa using hf
      exact hsigned
  | settleRenewal moduleId presented =>
    cases hb
    rw [settleRenewal_todo] at hf
    cases hf
  | deleteSatellite moduleId =>
    rw [System.begin] at hb
    split_ifs at hb
    cases hb
    rw [deleteSatellite_todo] at hf
    cases hf

/-- The later statements only remove. -/
theorem insert_not_mem_statement {position : Position}
    (ha : s.statement position = some (s', r')) : .insert f ∉ r'.todo := by
  cases position with
  | settlePromote moduleId current =>
    rw [System.statement] at ha
    split at ha
    · cases ha
      simp
    · split at ha <;> cases ha <;> simp [finish]
  | settleRetire moduleId pending =>
    cases ha
    simp
  | deletePending moduleId fingerprint =>
    rw [System.statement] at ha
    split at ha <;> cases ha <;> simp [finish]
  | deleteCatalogue moduleId fingerprint pending =>
    cases ha
    simp
  | deleteRows moduleId fingerprint pending =>
    cases ha
    simp
  | deleted moduleId => cases ha
  | done error => cases ha

/-! ## The set and the table -/

/-- The fingerprints that `load_allowlist` has still to insert. -/
def Phase.todo : Phase → List String
  | .insert todo => todo
  | _ => []

/-- `load_allowlist` has read the table. -/
def Phase.loaded : Phase → Bool
  | .insert _ | .serving => true
  | _ => false

/-- The changes of the set that are still to be made. -/
def System.queues (s : System) : List (List (Patch String)) :=
  s.phase.todo.map .insert :: s.runs.map Run.todo

/-- The set is empty until the table is read; then it is what the table stores, up to the
    changes that are still to be made. -/
structure Balanced (s : System) : Prop where
  before : s.phase = .sweep ∨ s.phase = .read → s.allowed = ∅ ∧ s.runs = []
  after : s.phase.loaded → Mirrors s.stored s.allowed s.queues

theorem pending_cons {q : List (Patch String)} {qs : List (List (Patch String))}
    {p : Patch String} : Pending (q :: qs) p ↔ p ∈ q ∨ Pending qs p := by
  simp [Pending]

theorem Kept.owned (hk : Kept s s' r) (h : Owned s) {runs : List Run}
    (hruns : ∀ r' ∈ runs, r' ∈ s.runs ∨ r' = r) : Owned { s' with runs := runs } := by
  refine ⟨hk.rows, fun r' hr' => ?_⟩
  rcases hruns r' hr' with hold | rfl
  · exact (h.runs r' hold).mono hk.signed
  · exact hk.run

/-- Nobody removes a fingerprint that no certificate had so far. -/
theorem Owned.not_pending_remove (h : Owned s) (hf : s.signed f = none) :
    ¬Pending s.queues (.remove f) := by
  rw [System.queues, pending_cons]
  rintro (hp | ⟨q, hq, hp⟩)
  · simp at hp
  · obtain ⟨r, hr, rfl⟩ := List.mem_map.mp hq
    have hsome := (h.runs r hr).removes f hp
    rw [hf] at hsome
    cases hsome

/-- An operation writes, and its patches are queued. -/
theorem Balanced.write (hb : Balanced s) (h : Owned s) (hk : Kept s s' r)
    (ha : Accounted s s' r.todo) (hfresh : ∀ f, .insert f ∈ r.todo → s.signed f = none)
    (hserving : s.phase = .serving) {runs : List Run}
    (hruns : ∀ p, Pending (runs.map Run.todo) p ↔ Pending (s.runs.map Run.todo) p ∨ p ∈ r.todo) :
    Balanced { s' with runs := runs } := by
  refine ⟨fun hphase => ?_, fun _ => ?_⟩
  · rw [hk.phase, hserving] at hphase
    rcases hphase with hphase | hphase <;> cases hphase
  · have hm := hb.after (by rw [hserving]; rfl)
    have hallowed : System.allowed { s' with runs := runs } = s.allowed := hk.allowed
    rw [hallowed]
    refine hm.write (fun p => ?_) ha fun f hf => h.not_pending_remove (hfresh f hf)
    rw [System.queues, System.queues, pending_cons, pending_cons, hruns, or_assoc, hk.phase]

theorem Run.fail_eq_some {error : String} (h : r.fail error = some r') :
    r.todo = [] ∧ r' = finish (some error) := by
  rw [Run.fail] at h
  split at h
  · cases h
  · cases h
  · cases h
  · rename_i htodo _ _
    exact ⟨htodo, (Option.some.inj h).symm⟩

/-- The patches of all operations after one of them, with none left to make, went on. -/
theorem pending_runs_set {i : ℕ} (hr : s.runs[i]? = some r) (htodo : r.todo = []) (p : Patch String) :
    Pending ((s.runs.set i r').map Run.todo) p ↔
      Pending (s.runs.map Run.todo) p ∨ p ∈ r'.todo := by
  rw [List.map_set]
  refine pending_fill ?_
  rw [List.getElem?_map, hr, Option.map_some, htodo]

theorem mem_runs_set {i : ℕ} (h : r ∈ s.runs.set i r') : r ∈ s.runs ∨ r = r' := by
  rcases mem_set_cases h with rfl | ⟨j, -, hj⟩
  · exact Or.inr rfl
  · exact Or.inl (List.mem_of_getElem? hj)

/-- A change of the set is made. -/
theorem Balanced.patch (hb : Balanced s) (hserving : s.phase = .serving) {i : ℕ}
    {patch : Patch String} {todo : List (Patch String)} (hr : s.runs[i]? = some r)
    (htodo : r.todo = patch :: todo) (hsound : s.soundStep r) :
    Balanced { s with
      allowed := patch.apply s.allowed
      runs := s.runs.set i { r with todo := todo } } := by
  refine ⟨fun hphase => ?_, fun _ => ?_⟩
  · have hphase : s.phase = .sweep ∨ s.phase = .read := hphase
    rw [hserving] at hphase
    rcases hphase with hphase | hphase <;> cases hphase
  · have hm := hb.after (by rw [hserving]; rfl)
    have hqueue : s.queues[i + 1]? = some (patch :: todo) := by
      rw [System.queues, List.getElem?_cons_succ, List.getElem?_map, hr, Option.map_some, htodo]
    have hqueues : System.queues { s with
        allowed := patch.apply s.allowed
        runs := s.runs.set i { r with todo := todo } } = s.queues.set (i + 1) todo := by
      rw [System.queues, System.queues, List.set_cons_succ, List.map_set]
    rw [hqueues]
    cases patch with
    | insert f => exact hm.insert hqueue
    | remove f =>
      refine hm.remove hqueue ?_
      rw [System.soundStep, htodo] at hsound
      have hnone : ∀ other ∈ s.runs, .insert f ∉ other.todo := by simpa using hsound
      rw [System.queues, hserving, pending_cons]
      rintro (hp | ⟨q, hq, hp⟩)
      · cases hp
      · obtain ⟨other, hother, rfl⟩ := List.mem_map.mp hq
        exact hnone other hother hp

/-- A step of `load_allowlist`. -/
theorem Balanced.load (hb : Balanced s) (hl : s.load = some s') : Balanced s' := by
  rw [System.load] at hl
  split at hl
  · rename_i hphase
    cases hl
    exact ⟨fun _ => hb.before (Or.inl hphase), fun h => (by cases h)⟩
  · rename_i hphase
    cases hl
    obtain ⟨hallowed, hruns⟩ := hb.before (Or.inr hphase)
    refine ⟨fun h => (by rcases h with h | h <;> cases h), fun _ f => ?_⟩
    rw [System.queues, pending_cons, pending_cons, hallowed, hruns]
    simp [Pending, Phase.todo, System.stored]
  · rename_i f todo hphase
    cases hl
    refine ⟨fun h => (by rcases h with h | h <;> cases h), fun _ => ?_⟩
    have hm := hb.after (by rw [hphase]; rfl)
    have hqueue : s.queues[0]? = some (.insert f :: todo.map .insert) := by
      rw [System.queues, hphase]
      rfl
    have hnext := hm.insert hqueue
    rwa [System.queues, List.set_cons_zero] at hnext
  · rename_i hphase
    cases hl
    refine ⟨fun h => (by rcases h with h | h <;> cases h), fun _ => ?_⟩
    have hm := hb.after (by rw [hphase]; rfl)
    rwa [System.queues, hphase] at hm
  · cases hl
  · cases hl

theorem Owned.load (h : Owned s) (hl : s.load = some s') : Owned s' := by
  rw [System.load] at hl
  split at hl
  · cases hl
    refine ⟨fun row hrow => ?_, h.runs⟩
    have hmem : row ∈ s.satellites.mapRows (Satellite.swept s.now) (Satellite.moduleId_swept s.now) :=
      hrow
    obtain ⟨old, hold, rfl⟩ := Table.mem_mapRows.mp hmem
    rw [Satellite.swept]
    split
    · refine ⟨fun f hf => (h.rows old hold).signed f ?_, by simp [Satellite.clearPending]⟩
      exact mem_fingerprints.mpr (Or.inl (by simpa [Satellite.clearPending] using hf))
    · exact h.rows old hold
  all_goals cases hl
  all_goals exact ⟨h.rows, h.runs⟩

/-- What an operation knows stays true, and with sound events the set stays balanced. -/
theorem owned_next {e : Event} (h : Owned s) (he : s.next e = some s') : Owned s' := by
  cases e with
  | begin call =>
    rw [System.next] at he
    split_ifs at he
    obtain ⟨⟨t, r⟩, hb, rfl⟩ := Option.map_eq_some_iff.mp he
    have hk := h.begin hb
    refine hk.owned h fun r' hr' => ?_
    rw [hk.runs, List.mem_append, List.mem_singleton] at hr'
    exact hr'
  | step i =>
    rw [System.next] at he
    split_ifs at he
    obtain ⟨r, hr, he⟩ := Option.bind_eq_some_iff.mp he
    obtain ⟨⟨t, r'⟩, ha, he⟩ := Option.bind_eq_some_iff.mp he
    cases he
    have hrun := h.runs r (List.mem_of_getElem? hr)
    rw [System.advance] at ha
    split at ha
    · rename_i patch todo htodo
      cases ha
      refine ⟨h.rows, fun q hq => ?_⟩
      rcases mem_runs_set hq with hold | rfl
      · exact h.runs q hold
      · exact ⟨hrun.reads, fun f hf => hrun.removes f (htodo ▸ List.mem_cons_of_mem _ hf)⟩
    · have hk := h.statement hrun.reads ha
      refine hk.owned h fun q hq => ?_
      rw [hk.runs] at hq
      exact mem_runs_set hq
  | fail i error =>
    rw [System.next] at he
    split_ifs at he
    obtain ⟨r, hr, he⟩ := Option.bind_eq_some_iff.mp he
    obtain ⟨r', hf, he⟩ := Option.bind_eq_some_iff.mp he
    cases he
    obtain ⟨-, rfl⟩ := Run.fail_eq_some hf
    exact (Kept.read h (OwnedRun.finish _ _)).owned h fun q hq => mem_runs_set hq
  | clock now =>
    cases he
    exact ⟨h.rows, h.runs⟩
  | restart =>
    cases he
    exact ⟨h.rows, fun r hr => (by cases hr)⟩
  | load => exact h.load he
  | loadFails =>
    rw [System.next] at he
    split at he <;> cases he <;> exact ⟨h.rows, h.runs⟩

theorem balanced_next {e : Event} (h : Owned s) (hb : Balanced s) (hsound : s.sound e)
    (he : s.next e = some s') : Balanced s' := by
  cases e with
  | begin call =>
    rw [System.next] at he
    split_ifs at he with hserving
    obtain ⟨⟨t, r⟩, hbegin, rfl⟩ := Option.map_eq_some_iff.mp he
    have hk := h.begin hbegin
    refine hb.write h hk (h.accounted_begin hsound hbegin)
      (fun f hf => insert_of_begin hbegin hf) hserving fun p => ?_
    rw [hk.runs, List.map_append, List.map_singleton, pending_append]
  | step i =>
    rw [System.next] at he
    split_ifs at he with hserving
    obtain ⟨r, hr, he⟩ := Option.bind_eq_some_iff.mp he
    obtain ⟨⟨t, r'⟩, ha, he⟩ := Option.bind_eq_some_iff.mp he
    cases he
    have hstep : s.soundStep r := by simpa [System.sound, hr] using hsound
    rw [System.advance] at ha
    split at ha
    · rename_i patch todo htodo
      cases ha
      exact hb.patch hserving hr htodo hstep
    · rename_i htodo
      have hreads := (h.runs r (List.mem_of_getElem? hr)).reads
      have hstatement : s.soundStatement r.position := by
        rwa [System.soundStep, htodo] at hstep
      have hk := h.statement hreads ha
      refine hb.write h hk (h.accounted_statement hreads hstatement ha)
        (fun f hf => absurd hf (insert_not_mem_statement ha)) hserving fun p => ?_
      rw [hk.runs]
      exact pending_runs_set hr htodo p
  | fail i error =>
    rw [System.next] at he
    split_ifs at he with hserving
    obtain ⟨r, hr, he⟩ := Option.bind_eq_some_iff.mp he
    obtain ⟨r', hf, he⟩ := Option.bind_eq_some_iff.mp he
    cases he
    obtain ⟨htodo, rfl⟩ := Run.fail_eq_some hf
    exact hb.write h (Kept.read h (OwnedRun.finish _ _)) (Accounted.read rfl)
      (fun f hf => (by cases hf)) hserving (pending_runs_set hr htodo)
  | clock now =>
    cases he
    exact ⟨hb.before, hb.after⟩
  | restart =>
    cases he
    exact ⟨fun _ => ⟨rfl, rfl⟩, fun hloaded => (by cases hloaded)⟩
  | load => exact hb.load he
  | loadFails =>
    rw [System.next] at he
    split at he <;> cases he
    all_goals exact ⟨fun hphase => (by rcases hphase with h | h <;> cases h),
      fun hloaded => (by cases hloaded)⟩

theorem balanced_of_reaches (h : machine.Reaches (fun s e => s.sound e = true) s) :
    Owned s ∧ Balanced s := by
  have howned : Owned machine.start :=
    ⟨fun row hrow => (by cases hrow), fun r hr => (by cases hr)⟩
  have hbalanced : Balanced machine.start :=
    ⟨fun _ => ⟨rfl, rfl⟩, fun hloaded => (by cases hloaded)⟩
  exact h.invariant (I := fun s => Owned s ∧ Balanced s) ⟨howned, hbalanced⟩
    fun ⟨ho, hb⟩ hsound he => ⟨owned_next ho he, balanced_next ho hb hsound he⟩

/-! ## A restart -/

/-- The steps of the hub until it serves. -/
def Event.starting : Event → Bool
  | .load | .clock _ => true
  | _ => false

/-- The hub has restarted from `s` and serves again as `t`. -/
def System.Restarted (s t : System) : Prop :=
  ∃ u, s.next .restart = some u ∧ machine.Steps (fun _ e => e.starting) u t ∧ t.phase = .serving

/-- What a restart from `s` has done so far: no operation is at work, and but for the
    sweep the table is as it was. -/
structure Starting (s u : System) : Prop where
  runs : u.runs = []
  rows : u.satellites = s.satellites ∧ u.phase = .sweep ∨
    u.phase ≠ .sweep ∧ ∀ row ∈ s.satellites, row.swept u.sweptAt ∈ u.satellites

theorem starting_next {u v : System} {e : Event} (h : Starting s u) (hstart : e.starting)
    (he : u.next e = some v) : Starting s v := by
  cases e with
  | load =>
    rw [System.next, System.load] at he
    split at he
    · rename_i hphase
      cases he
      refine ⟨h.runs, Or.inr ⟨fun h => (by cases h), fun row hrow => ?_⟩⟩
      rcases h.rows with ⟨hrows, -⟩ | ⟨hne, -⟩
      · have hmem : row.swept u.now ∈
            u.satellites.mapRows (Satellite.swept u.now) (Satellite.moduleId_swept u.now) :=
          Table.mem_mapRows.mpr ⟨row, hrows ▸ hrow, rfl⟩
        exact hmem
      · exact absurd hphase hne
    all_goals cases he
    all_goals
      rename_i hphase
      rcases h.rows with ⟨-, hsweep⟩ | ⟨-, hrows⟩
      · rw [hphase] at hsweep
        cases hsweep
      · exact ⟨h.runs, Or.inr ⟨fun h => (by cases h), hrows⟩⟩
  | clock now =>
    cases he
    exact ⟨h.runs, h.rows⟩
  | begin call => cases hstart
  | step i => cases hstart
  | fail i error => cases hstart
  | restart => cases hstart
  | loadFails => cases hstart

theorem sound_of_starting {e : Event} (h : e.starting = true) : s.sound e = true := by
  cases e with
  | load => rfl
  | clock now => rfl
  | begin call => cases h
  | step i => cases h
  | fail i error => cases h
  | restart => cases h
  | loadFails => cases h

/-- What a restart leaves out is a renewal whose grace has lapsed. -/
theorem Starting.lapsed {t : System} (h : Starting s t) (hserving : t.phase = .serving)
    (hf : f ∈ s.stored) (hnot : f ∉ t.stored) :
    ∃ row ∈ s.satellites, row.pendingFingerprint = some f ∧ row.lapsed t.sweptAt := by
  obtain ⟨row, hrow, hmem⟩ := mem_stored.mp hf
  have hswept : row.swept t.sweptAt ∈ t.satellites := by
    rcases h.rows with ⟨-, hsweep⟩ | ⟨-, hrows⟩
    · rw [hserving] at hsweep
      cases hsweep
    · exact hrows row hrow
  have hgone : f ∉ (row.swept t.sweptAt).fingerprints :=
    fun hin => hnot (mem_stored.mpr ⟨_, hswept, hin⟩)
  rw [Satellite.swept] at hgone
  split at hgone
  · rename_i hlapsed
    refine ⟨row, hrow, ?_, hlapsed⟩
    rcases mem_fingerprints.mp hmem with rfl | hpending
    · exact absurd (mem_fingerprints.mpr (Or.inl rfl)) hgone
    · exact hpending
  · exact absurd hmem hgone

theorem Balanced.eq (hb : Balanced s) (hquiet : s.Quiet) : s.allowed = s.stored := by
  refine (hb.after (by rw [hquiet.1]; rfl)).eq fun q hq => ?_
  rw [System.queues, hquiet.1] at hq
  rcases List.mem_cons.mp hq with rfl | hq
  · rfl
  · obtain ⟨r, hr, rfl⟩ := List.mem_map.mp hq
    have hfinished := hquiet.2 r hr
    rw [Run.finished, Bool.and_eq_true] at hfinished
    exact List.isEmpty_iff.mp hfinished.1

/-- With sound events the set is what the table stores when nothing is in flight, and a
    restart then drops nothing but renewals whose grace has lapsed. -/
theorem allowed_eq_stored (h : machine.Reaches (fun s e => s.sound e = true) s)
    (hquiet : s.Quiet) :
    s.allowed = s.stored ∧ ∀ t, s.Restarted t → t.allowed = t.stored ∧
      ∀ f ∈ s.allowed, f ∉ t.allowed →
        ∃ row ∈ s.satellites, row.pendingFingerprint = some f ∧ row.lapsed t.sweptAt := by
  have heq := (balanced_of_reaches h).2.eq hquiet
  refine ⟨heq, fun t ⟨u, hu, hsteps, hserving⟩ => ?_⟩
  have hrestart : machine.next s .restart = some u := hu
  have hreach : machine.Reaches (fun s e => s.sound e = true) t :=
    (h.next (e := .restart) rfl hrestart).trans (Relation.ReflTransGen.mono
      (fun _ _ ⟨e, he, hnext⟩ => ⟨e, sound_of_starting he, hnext⟩) _ _ hsteps)
  have hstarting : Starting s t := by
    refine Machine.Steps.invariant hsteps ?_ fun ha he hnext => starting_next ha he hnext
    cases hu
    exact ⟨rfl, Or.inl ⟨rfl, rfl⟩⟩
  have hquiet' : t.Quiet := by
    refine ⟨hserving, ?_⟩
    rw [hstarting.runs]
    exact fun r hr => (by cases hr)
  have heq' := (balanced_of_reaches hreach).2.eq hquiet'
  refine ⟨heq', fun f hf hnot => ?_⟩
  rw [heq] at hf
  rw [heq'] at hnot
  exact hstarting.lapsed hserving hf hnot

instance (s : System) : Decidable s.Quiet :=
  inferInstanceAs (Decidable (s.phase = .serving ∧ ∀ r ∈ s.runs, r.finished))

/-- A satellite enrols. -/
def enrolled : List Event :=
  [.load, .load, .load, .begin (.recordSatellite "nas" "old"), .step 0]

/-- It renews its certificate and reconnects with the new one. -/
theorem allowed_eq_stored_renewed :
    ∃ s, machine.Reaches (fun s e => s.sound e = true) s ∧ s.Quiet ∧ s.allowed = {"new"} ∧
      s.allowed = s.stored := by
  have hrun : (machine.replay System.sound (enrolled ++
      [.begin (.recordRenewal "nas" "new"), .step 1, .begin (.settleRenewal "nas" "new"),
        .step 2, .step 2]) machine.start).any (fun s => s.Quiet && s.allowed = {"new"}) = true := by
    decide
  obtain ⟨s, hs, hend⟩ := (Option.any_eq_true _ _).mp hrun
  simp only [Bool.and_eq_true, decide_eq_true_eq] at hend
  have hreach := Machine.reaches_of_replay hs
  exact ⟨s, hreach, hend.1, hend.2, (allowed_eq_stored hreach hend.1).1⟩

/-- It enrols again with another certificate: the one it had is still admitted, and no
    row stores it. -/
theorem superseded_certificate_admitted :
    ∃ s, machine.Reachable s ∧ s.Quiet ∧ "old" ∈ s.allowed ∧ "old" ∉ s.stored := by
  have hrun : (machine.replay (fun _ _ => true) (enrolled ++
      [.begin (.recordSatellite "nas" "new"), .step 1]) machine.start).any
      (fun s => s.Quiet && "old" ∈ s.allowed && "old" ∉ s.stored) = true := by
    decide
  obtain ⟨s, hs, hend⟩ := (Option.any_eq_true _ _).mp hrun
  simp only [Bool.and_eq_true, decide_eq_true_eq] at hend
  exact ⟨s, (Machine.reaches_of_replay hs).reachable, hend.1.1, hend.1.2, hend.2⟩

end Kahawai.Hub.Allowlist
