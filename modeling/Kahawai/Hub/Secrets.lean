import Kahawai.Lib.Processes
import Kahawai.Lib.Runs

/-!
# The key that credentials are sealed under

Model of `Secrets::load_or_create` and `generate` (`crates/kahawai-hub/src/secrets.rs`,
lines 48–121 and 536–564) on a data directory that any number of hubs share. Every file
operation and every SQL statement is a step of its own; a write shows a prefix of the key
until it is complete, and goes to the file that was opened, whether or not the path still
names it. A hub may crash before any step and be started again, and a creation, a write or a
sync may fail. `narrow`, which changes only the mode of the file, is left out.

* `key_kept`: where a file is removed only while nobody uses it, the marker names the key
  in the file, every credential is sealed under that key, every hub that is past its start
  uses it, and no start fails.
* `writer_loses_key`: the second of two hubs takes the file that the first is about to
  write for a leftover.
-/

namespace Kahawai.Hub.Secrets

open Kahawai.Lib

/-- The bytes of a key, or a part of them. -/
abbrev Bytes := List UInt8

/-- `KEY_LEN`. -/
def keyLen : ℕ := 32

/-- The next step of a hub. `again` is set when it has removed a short file. A hub that is
    past `load_or_create` is `running`; `stopped` is a crash or the end of a start whose file
    operation failed, `failed` a start that the code refuses. -/
inductive Position
  | readMarker
  | readFile
  | draw (again : Bool)
  | create (key : Bytes) (again : Bool)
  | write (key : Bytes) (file : ℕ) (again : Bool)
  | sync (key : Bytes) (file : ℕ) (again : Bool)
  | cleanup
  | reread (again : Bool)
  | remove
  | record (key : Bytes)
  | running (key : Bytes)
  | stopped
  | failed
  deriving DecidableEq

/-- A hub, with the marker that it has read (`seeded`). -/
structure Starter (F : Type) where
  seeded : Option F
  position : Position

/-- The contents of all files that were ever created, the one that the path names, the
    marker, and for each stored credential the key that it is sealed under. The keys that
    were drawn are history. -/
structure System (F : Type) where
  files : List Bytes
  path : Option ℕ
  marker : Option F
  credentials : List Bytes
  hubs : List (Starter F)
  drawn : List Bytes

variable {F : Type}

def System.content (s : System F) : Option Bytes := s.path.bind fun file => s.files[file]?

/-- What follows a read of the key, or its generation: the check of its length, which the
    first time replaces a short file, and the check of its fingerprint. -/
def check [DecidableEq F] (fingerprint : Bytes → F) (seeded : Option F) (bytes : Bytes) (again : Bool) : Position :=
  if bytes.length ≠ keyLen then
    if seeded.isSome ∨ again then .failed else .remove
  else
    match seeded with
    | none => .record bytes
    | some recorded => if recorded ≠ fingerprint bytes then .failed else .running bytes

inductive Event
  | start
  | readMarker (i : ℕ)
  | readFile (i : ℕ)
  | draw (i : ℕ) (key : Bytes)
  | create (i : ℕ)
  | write (i n : ℕ)
  | fails (i : ℕ)
  | sync (i : ℕ)
  | cleanup (i : ℕ)
  | reread (i : ℕ)
  | remove (i : ℕ)
  | record (i : ℕ)
  | store (i : ℕ)
  | crash (i : ℕ)

namespace System

variable (s : System F)

def moves (i : ℕ) (hub : Starter F) (position : Position) : System F :=
  { s with hubs := s.hubs.set i { hub with position := position } }

/-- One step of a hub. -/
def act [DecidableEq F] (fingerprint : Bytes → F) (i : ℕ) (hub : Starter F) : Event → Option (System F)
  | .readMarker _ =>
    match hub.position with
    | .readMarker => some { s with hubs := s.hubs.set i ⟨s.marker, .readFile⟩ }
    | _ => none
  | .readFile _ =>
    match hub.position with
    | .readFile =>
      match s.content with
      | none => some (s.moves i hub (if hub.seeded.isSome then .failed else .draw false))
      | some bytes => some (s.moves i hub (check fingerprint hub.seeded bytes false))
    | _ => none
  | .draw _ key =>
    match hub.position with
    | .draw again =>
      if key.length = keyLen ∧ key ∉ s.drawn then
        some { s.moves i hub (.create key again) with drawn := s.drawn ++ [key] }
      else none
    | _ => none
  | .create _ =>
    match hub.position with
    | .create key again =>
      if s.path.isSome then some (s.moves i hub (.reread again))
      else
        some { s.moves i hub (.write key s.files.length again) with
          files := s.files ++ [[]]
          path := some s.files.length }
    | _ => none
  | .write _ n =>
    match hub.position with
    | .write key file again =>
      if ((s.files[file]?).getD []).length < n ∧ n ≤ keyLen then
        some { s.moves i hub (if n = keyLen then .sync key file again else .write key file again) with
          files := s.files.set file (key.take n) }
      else none
    | _ => none
  | .fails _ =>
    match hub.position with
    | .create _ _ | .write _ _ _ | .sync _ _ _ => some (s.moves i hub .cleanup)
    | _ => none
  | .sync _ =>
    match hub.position with
    | .sync key _ again => some (s.moves i hub (check fingerprint hub.seeded key again))
    | _ => none
  | .cleanup _ =>
    match hub.position with
    | .cleanup => some { s.moves i hub .stopped with path := none }
    | _ => none
  | .reread _ =>
    match hub.position with
    | .reread again =>
      match s.content with
      | none => some (s.moves i hub .failed)
      | some bytes => some (s.moves i hub (check fingerprint hub.seeded bytes again))
    | _ => none
  | .remove _ =>
    match hub.position with
    | .remove =>
      if s.path.isSome then some { s.moves i hub (.draw true) with path := none }
      else some (s.moves i hub .failed)
    | _ => none
  | .record _ =>
    match hub.position with
    | .record key =>
      -- `ON CONFLICT DO NOTHING`
      some { s.moves i hub (.running key) with marker := s.marker.or (some (fingerprint key)) }
    | _ => none
  | .store _ =>
    match hub.position with
    | .running key => some { s with credentials := s.credentials ++ [key] }
    | _ => none
  | .crash _ => some (s.moves i hub .stopped)
  | .start => none

end System

def Event.hub : Event → ℕ
  | .start => 0
  | .readMarker i | .readFile i | .draw i _ | .create i | .write i _ | .fails i | .sync i
  | .cleanup i | .reread i | .remove i | .record i | .store i | .crash i => i

def System.step [DecidableEq F] (fingerprint : Bytes → F) (s : System F) : Event → Option (System F)
  | .start => some { s with hubs := s.hubs ++ [⟨none, .readMarker⟩] }
  | event => (s.hubs[event.hub]?).bind fun hub => s.act fingerprint event.hub hub event

/-- All runs on a data directory without a key. -/
def machine [DecidableEq F] (fingerprint : Bytes → F) : Machine (System F) Event :=
  ⟨⟨[], none, none, [], [], []⟩, System.step fingerprint⟩

/-! ## The condition -/

/-- A hub writes the file, or has its key in hand. -/
def Position.uses (file : ℕ) (bytes : Bytes) : Position → Prop
  | .write _ f _ | .sync _ f _ => f = file
  | .record key | .running key => key = bytes
  | _ => False

/-- Nobody uses the file that the path names, and it is not recorded. -/
def System.Unused (s : System F) : Prop :=
  s.marker = none ∧ ∀ file bytes, s.path = some file → s.files[file]? = some bytes →
    ∀ hub ∈ s.hubs, ¬ hub.position.uses file bytes

/-- The condition on an event: a file is removed, as short or after a failed operation, while
    nobody uses it; the short one is still there; and a hub that another one has forestalled
    finds its file there, complete when it has itself removed one before. -/
def System.Sound (s : System F) : Event → Prop
  | .remove _ => s.path.isSome ∧ s.Unused
  | .cleanup _ => s.Unused
  | .reread i => ∃ bytes, s.content = some bytes ∧ ∀ hub, s.hubs[i]? = some hub →
      hub.position = .reread true → bytes.length = keyLen
  | _ => True

/-! ## What every step keeps -/

variable {fingerprint : Bytes → F} {s s' : System F} {hub other : Starter F} {i : ℕ} {key : Bytes}
  {position : Position}

/-- The hub has the file open for writing. -/
def Starter.writing (hub : Starter F) : Bool :=
  match hub.position with
  | .write _ _ _ | .sync _ _ _ => true
  | _ => false

/-- The hub is about to give the data directory a key. -/
def Position.starting : Position → Bool
  | .readMarker | .readFile | .running _ | .stopped | .failed => false
  | _ => true

/-- A hub, in a data directory. -/
structure HubOk (s : System F) (hub : Starter F) : Prop where
  seeded : ∀ fp, hub.seeded = some fp → s.marker = some fp
  starting : hub.position.starting = true → hub.seeded = none
  create : ∀ key again, hub.position = .create key again → key.length = keyLen
  write : ∀ key file again, hub.position = .write key file again → key.length = keyLen ∧
    s.path = some file ∧ ∃ bytes, s.files[file]? = some bytes ∧ bytes.length < keyLen
  sync : ∀ key file again, hub.position = .sync key file again → key.length = keyLen ∧
    s.path = some file ∧ s.files[file]? = some key
  holds : ∀ key, hub.position = .record key ∨ hub.position = .running key →
    key.length = keyLen ∧ s.content = some key
  running : ∀ key, hub.position = .running key → s.marker.isSome
  passes : hub.position ≠ .failed

/-- A data directory and its hubs. -/
structure Safe (fingerprint : Bytes → F) (s : System F) : Prop where
  hubs : ∀ hub ∈ s.hubs, HubOk s hub
  writer : AtMostOne Starter.writing s.hubs
  marker : ∀ fp, s.marker = some fp → ∃ key, s.content = some key ∧ key.length = keyLen ∧
    fp = fingerprint key
  credentials : ∀ c ∈ s.credentials, s.marker.isSome ∧ s.content = some c

theorem Safe.moves (h : Safe fingerprint s) (hhub : s.hubs[i]? = some hub)
    (hok : HubOk s { hub with position := position })
    (hwriter : Starter.writing { hub with position := position } = true → hub.writing = true ∨
      ∀ other ∈ s.hubs, other.writing = false) : Safe fingerprint (s.moves i hub position) := by
  refine ⟨fun other hother => ?_, h.writer.set hhub hwriter, h.marker, h.credentials⟩
  rcases mem_set_cases hother with rfl | ⟨j, -, hj⟩
  · exact { hok with }
  · exact { h.hubs other (List.mem_of_getElem? hj) with }

/-- A hub goes on to a step that nothing is known of. -/
theorem HubOk.plain (h : HubOk s hub) (hstarting : position.starting = true → hub.seeded = none)
    (hcreate : ∀ key again, position = .create key again → key.length = keyLen)
    (hholds : ∀ key, position = .record key ∨ position = .running key →
      key.length = keyLen ∧ s.content = some key)
    (hrunning : ∀ key, position = .running key → s.marker.isSome) (hpasses : position ≠ .failed)
    (hwriting : Starter.writing { hub with position := position } = false) :
    HubOk s { hub with position := position } := by
  refine ⟨h.seeded, hstarting, hcreate, fun key file again hp => ?_, fun key file again hp => ?_, hholds,
    hrunning, hpasses⟩
  · have hposition : position = .write key file again := hp
    rw [hposition] at hwriting
    cases hwriting
  · have hposition : position = .sync key file again := hp
    rw [hposition] at hwriting
    cases hwriting

/-- The key that is in the file passes the check. -/
theorem HubOk.checks [DecidableEq F] (h : HubOk s hub) (hsafe : Safe fingerprint s) (hkey : s.content = some key)
    (hlength : key.length = keyLen) (again : Bool) :
    HubOk s { hub with position := check fingerprint hub.seeded key again } := by
  cases hseeded : hub.seeded with
  | none =>
    have hcheck : check fingerprint none key again = .record key := by
      unfold check
      rw [if_neg (not_not.mpr hlength)]
    rw [hcheck, ← hseeded]
    refine h.plain (fun _ => hseeded) nofun (fun key' hp => ?_) nofun nofun rfl
    rcases hp with hp | hp <;> cases hp
    exact ⟨hlength, hkey⟩
  | some recorded =>
    have hmarker := h.seeded recorded hseeded
    obtain ⟨key', hkey', -, rfl⟩ := hsafe.marker recorded hmarker
    cases hkey.symm.trans hkey'
    have hcheck : check fingerprint (some (fingerprint key)) key again = .running key := by
      unfold check
      rw [if_neg (not_not.mpr hlength)]
      exact if_neg (not_not.mpr rfl)
    rw [hcheck, ← hseeded]
    refine h.plain nofun nofun (fun key' hp => ?_) (fun _ _ => ?_) nofun rfl
    · rcases hp with hp | hp <;> cases hp
      exact ⟨hlength, hkey⟩
    · rw [hmarker]
      rfl

theorem content_of_path {file : ℕ} (hpath : s.path = some file) : s.content = s.files[file]? := by
  rw [System.content, hpath]
  rfl

/-- Nobody uses the file where none is. -/
theorem Safe.unused_of_none (h : Safe fingerprint s) (hpath : s.path = none) :
    s.marker = none ∧ ∀ other ∈ s.hubs, other.writing = false ∧
      ∀ key, other.position ≠ .record key ∧ other.position ≠ .running key := by
  have hcontent : ∀ key, s.content ≠ some key := by
    intro key hkey
    rw [System.content, hpath] at hkey
    cases hkey
  constructor
  · cases hmarker : s.marker with
    | none => rfl
    | some fp =>
      obtain ⟨key, hkey, -⟩ := h.marker fp hmarker
      exact absurd hkey (hcontent key)
  · intro other hother
    have hok := h.hubs other hother
    refine ⟨?_, fun key => ⟨fun hp => hcontent key (hok.holds key (Or.inl hp)).2,
      fun hp => hcontent key (hok.holds key (Or.inr hp)).2⟩⟩
    unfold Starter.writing
    split
    · rename_i key file again hp
      cases hpath.symm.trans (hok.write key file again hp).2.1
    · rename_i key file again hp
      cases hpath.symm.trans (hok.sync key file again hp).2.1
    · rfl

/-- Where nobody uses the file, the path may name another file, or none. -/
theorem Safe.relink (h : Safe fingerprint s) (hmarker : s.marker = none)
    (hidle : ∀ other ∈ s.hubs, other.writing = false ∧
      ∀ key, other.position ≠ .record key ∧ other.position ≠ .running key)
    (files : List Bytes) (path : Option ℕ) :
    Safe fingerprint { s with files := files, path := path } := by
  refine ⟨fun other hother => ?_, h.writer, fun fp hfp => ?_, fun c hc => ?_⟩
  · obtain ⟨hwriting, hneither⟩ := hidle other hother
    have hok := h.hubs other hother
    refine ⟨hok.seeded, hok.starting, hok.create, fun key file again hp => ?_, fun key file again hp => ?_,
      fun key hp => ?_, hok.running, hok.passes⟩
    · simp [Starter.writing, hp] at hwriting
    · simp [Starter.writing, hp] at hwriting
    · exact (hp.elim (hneither key).1 (hneither key).2).elim
  · cases hmarker.symm.trans hfp
  · have hsome := (h.credentials c hc).1
    rw [hmarker] at hsome
    cases hsome

/-- A file that nobody uses. -/
theorem Safe.idle_of_unused (h : Safe fingerprint s) (hunused : s.Unused) :
    ∀ other ∈ s.hubs, other.writing = false ∧
      ∀ key, other.position ≠ .record key ∧ other.position ≠ .running key := by
  cases hpath : s.path with
  | none => exact (h.unused_of_none hpath).2
  | some file =>
    intro other hother
    have hok := h.hubs other hother
    have huses : ∀ {bytes}, s.files[file]? = some bytes → ¬ other.position.uses file bytes :=
      fun hbytes => hunused.2 file _ hpath hbytes other hother
    have hcontent := content_of_path hpath
    refine ⟨?_, fun key => ⟨fun hp => ?_, fun hp => ?_⟩⟩
    · unfold Starter.writing
      split
      · rename_i key file' again hp
        obtain ⟨-, hfile, bytes, hbytes, -⟩ := hok.write key file' again hp
        cases hpath.symm.trans hfile
        exact absurd (hp ▸ rfl) (huses hbytes)
      · rename_i key file' again hp
        obtain ⟨-, hfile, hkey⟩ := hok.sync key file' again hp
        cases hpath.symm.trans hfile
        exact absurd (hp ▸ rfl) (huses hkey)
      · rfl
    · have hkey := (hok.holds key (Or.inl hp)).2
      exact huses (hcontent ▸ hkey) (hp ▸ rfl)
    · have hkey := (hok.holds key (Or.inr hp)).2
      exact huses (hcontent ▸ hkey) (hp ▸ rfl)

/-- The writer of a short file is the only user of it. -/
theorem Safe.idle_of_write (h : Safe fingerprint s) (hhub : s.hubs[i]? = some hub) {file : ℕ}
    {again : Bool} (hp : hub.position = .write key file again) :
    s.marker = none ∧ ∀ j other, j ≠ i → s.hubs[j]? = some other → other.writing = false ∧
      ∀ key, other.position ≠ .record key ∧ other.position ≠ .running key := by
  obtain ⟨-, hpath, bytes, hbytes, hshort⟩ :=
    (h.hubs hub (List.mem_of_getElem? hhub)).write key file again hp
  have hcontent : ∀ key, key.length = keyLen → s.content ≠ some key := by
    intro key hlength hkey
    rw [content_of_path hpath, hbytes] at hkey
    cases hkey
    exact absurd hlength (Nat.ne_of_lt hshort)
  constructor
  · cases hmarker : s.marker with
    | none => rfl
    | some fp =>
      obtain ⟨key, hkey, hlength, -⟩ := h.marker fp hmarker
      exact absurd hkey (hcontent key hlength)
  · intro j other hne hother
    have hok := h.hubs other (List.mem_of_getElem? hother)
    refine ⟨?_, fun key => ⟨fun hp => ?_, fun hp => ?_⟩⟩
    · by_contra hwriting
      rw [Bool.not_eq_false] at hwriting
      exact hne (h.writer j i other hub hother hhub hwriting (by simp [Starter.writing, hp]))
    · obtain ⟨hlength, hkey⟩ := hok.holds key (Or.inl hp)
      exact hcontent key hlength hkey
    · obtain ⟨hlength, hkey⟩ := hok.holds key (Or.inr hp)
      exact hcontent key hlength hkey

theorem Safe.create (h : Safe fingerprint s) (hhub : s.hubs[i]? = some hub) {again : Bool}
    (hp : hub.position = .create key again) (hpath : s.path = none) :
    Safe fingerprint { s.moves i hub (.write key s.files.length again) with
      files := s.files ++ [[]]
      path := some s.files.length } := by
  obtain ⟨hmarker, hidle⟩ := h.unused_of_none hpath
  have hnew := h.relink hmarker hidle (s.files ++ [[]]) (some s.files.length)
  have hok := hnew.hubs hub (List.mem_of_getElem? hhub)
  refine hnew.moves hhub ⟨hok.seeded, fun _ => hok.starting (hp ▸ rfl), nofun,
    fun key' file again' hwrite => ?_, nofun, nofun, nofun, nofun⟩ fun _ =>
    Or.inr fun other hother => (hidle other hother).1
  cases hwrite
  exact ⟨hok.create key again hp, rfl, [], List.getElem?_concat_length, by decide⟩

theorem Safe.write (h : Safe fingerprint s) (hhub : s.hubs[i]? = some hub) {file n : ℕ} {again : Bool}
    (hp : hub.position = .write key file again) (hn : n ≤ keyLen) :
    Safe fingerprint
      { s.moves i hub (if n = keyLen then .sync key file again else .write key file again) with
        files := s.files.set file (key.take n) } := by
  obtain ⟨hmarker, hidle⟩ := h.idle_of_write hhub hp
  have hok := h.hubs hub (List.mem_of_getElem? hhub)
  obtain ⟨hlength, hpath, bytes, hbytes, -⟩ := hok.write key file again hp
  have hset : (s.files.set file (key.take n))[file]? = some (key.take n) := getElem?_set_moved hbytes
  refine ⟨fun other hother => ?_, ?_, fun fp hfp => ?_, fun c hc => ?_⟩
  · rcases mem_set_cases hother with rfl | ⟨j, hne, hj⟩
    · by_cases hfull : n = keyLen
      · rw [if_pos hfull]
        refine ⟨hok.seeded, fun _ => hok.starting (hp ▸ rfl), nofun, nofun,
          fun key' file' again' hsync => ?_, nofun, nofun, nofun⟩
        cases hsync
        refine ⟨hlength, hpath, ?_⟩
        rw [hset, List.take_of_length_le (by omega)]
      · rw [if_neg hfull]
        refine ⟨hok.seeded, fun _ => hok.starting (hp ▸ rfl), nofun,
          fun key' file' again' hwrite => ?_, nofun, nofun, nofun, nofun⟩
        cases hwrite
        exact ⟨hlength, hpath, _, hset, by rw [List.length_take]; omega⟩
    · obtain ⟨hwriting, hneither⟩ := hidle j other hne hj
      have hother := h.hubs other (List.mem_of_getElem? hj)
      refine ⟨hother.seeded, hother.starting, hother.create, fun key file again hp => ?_,
        fun key file again hp => ?_, fun key hp => ?_, hother.running, hother.passes⟩
      · simp [Starter.writing, hp] at hwriting
      · simp [Starter.writing, hp] at hwriting
      · exact (hp.elim (hneither key).1 (hneither key).2).elim
  · exact h.writer.set hhub fun _ => Or.inl (by simp [Starter.writing, hp])
  · cases hmarker.symm.trans hfp
  · have hsome := (h.credentials c hc).1
    rw [hmarker] at hsome
    cases hsome

theorem Safe.record (h : Safe fingerprint s) (hhub : s.hubs[i]? = some hub)
    (hp : hub.position = .record key) :
    Safe fingerprint { s.moves i hub (.running key) with
      marker := s.marker.or (some (fingerprint key)) } := by
  have hok := h.hubs hub (List.mem_of_getElem? hhub)
  obtain ⟨hlength, hkey⟩ := hok.holds key (Or.inl hp)
  have hsome : (s.marker.or (some (fingerprint key))).isSome := by
    cases s.marker <;> rfl
  have hsame : ∀ fp, s.marker = some fp → s.marker.or (some (fingerprint key)) = some fp := by
    intro fp hfp
    rw [hfp]
    rfl
  refine ⟨fun other hother => ?_, ?_, fun fp hfp => ?_, fun c hc => ⟨hsome, (h.credentials c hc).2⟩⟩
  · rcases mem_set_cases hother with rfl | ⟨j, -, hj⟩
    · refine ⟨fun fp hfp => hsame fp (hok.seeded fp hfp), nofun, nofun, nofun, nofun,
        fun key' hp' => ?_, fun _ _ => hsome, nofun⟩
      rcases hp' with hp' | hp' <;> cases hp'
      exact ⟨hlength, hkey⟩
    · have hother := h.hubs other (List.mem_of_getElem? hj)
      exact { hother with
        seeded := fun fp hfp => hsame fp (hother.seeded fp hfp)
        running := fun _ _ => hsome }
  · exact h.writer.set hhub fun hwriting => by cases hwriting
  · cases hmarker : s.marker with
    | some old =>
      have hold := hsame old hmarker
      cases hold.symm.trans hfp
      exact h.marker fp hmarker
    | none =>
      have hnew : s.marker.or (some (fingerprint key)) = some (fingerprint key) := by
        rw [hmarker]
        rfl
      cases hnew.symm.trans hfp
      exact ⟨key, hkey, hlength, rfl⟩

/-- A hub moves to a step that uses nothing. -/
theorem Safe.goes (h : Safe fingerprint s) (hhub : s.hubs[i]? = some hub)
    (hstarting : position.starting = true → hub.seeded = none)
    (hcreate : ∀ key again, position = .create key again → key.length = keyLen)
    (hidle : ∀ file bytes, ¬ position.uses file bytes) (hpasses : position ≠ .failed) :
    Safe fingerprint (s.moves i hub position) := by
  have hwriting : Starter.writing { hub with position := position } = false := by
    unfold Starter.writing
    split
    · rename_i key file again hp
      exact absurd (show position.uses file [] from (show position = _ from hp) ▸ rfl) (hidle file [])
    · rename_i key file again hp
      exact absurd (show position.uses file [] from (show position = _ from hp) ▸ rfl) (hidle file [])
    · rfl
  refine h.moves hhub ((h.hubs hub (List.mem_of_getElem? hhub)).plain hstarting hcreate (fun key hp => ?_)
    (fun key hp => ?_) hpasses hwriting) fun hw => by rw [hwriting] at hw; cases hw
  · rcases hp with rfl | rfl <;> exact absurd rfl (hidle 0 key)
  · subst hp
    exact absurd rfl (hidle 0 key)

section Steps

variable [DecidableEq F]

/-- A hub has read the file, or written it. -/
theorem Safe.reads (h : Safe fingerprint s) (hhub : s.hubs[i]? = some hub) {bytes : Bytes}
    (hcontent : s.content = some bytes) {again : Bool} (hagain : again = true → bytes.length = keyLen) :
    Safe fingerprint (s.moves i hub (check fingerprint hub.seeded bytes again)) := by
  have hok := h.hubs hub (List.mem_of_getElem? hhub)
  by_cases hlength : bytes.length = keyLen
  · refine h.moves hhub (hok.checks h hcontent hlength again) fun hwriting => ?_
    unfold check at hwriting
    rw [if_neg (not_not.mpr hlength)] at hwriting
    cases hseeded : hub.seeded with
    | none =>
      rw [hseeded] at hwriting
      cases hwriting
    | some recorded =>
      rw [hseeded] at hwriting
      dsimp only at hwriting
      split_ifs at hwriting <;> cases hwriting
  · have hseeded : hub.seeded = none := by
      cases hseeded : hub.seeded with
      | none => rfl
      | some fp =>
        obtain ⟨key, hkey, hfull, -⟩ := h.marker fp (hok.seeded fp hseeded)
        cases hcontent.symm.trans hkey
        exact absurd hfull hlength
    have hfirst : again = false := by
      cases again with
      | false => rfl
      | true => exact absurd (hagain rfl) hlength
    have hcheck : check fingerprint hub.seeded bytes again = .remove := by
      rw [hseeded, hfirst]
      unfold check
      rw [if_pos hlength]
      rfl
    rw [hcheck]
    exact h.goes hhub (fun _ => hseeded) nofun (fun _ _ => nofun) nofun

theorem safe_act {event : Event} (h : Safe fingerprint s) (hsound : s.Sound event)
    (hhub : s.hubs[event.hub]? = some hub) (hs : s.act fingerprint event.hub hub event = some s') :
    Safe fingerprint s' := by
  have hok := h.hubs hub (List.mem_of_getElem? hhub)
  cases event with
  | start => cases hs
  | readMarker i =>
    unfold System.act at hs
    dsimp only at hs
    split at hs
    · cases hs
      refine ⟨fun other hother => ?_, h.writer.set hhub fun hwriting => (by cases hwriting), h.marker,
        h.credentials⟩
      rcases mem_set_cases hother with rfl | ⟨j, -, hj⟩
      · exact ⟨fun fp hfp => hfp, nofun, nofun, nofun, nofun, nofun, nofun, nofun⟩
      · exact { h.hubs other (List.mem_of_getElem? hj) with }
    · cases hs
  | readFile i =>
    unfold System.act at hs
    dsimp only at hs
    split at hs
    · split at hs
      · rename_i hcontent
        cases hs
        have hseeded : hub.seeded = none := by
          cases hseeded : hub.seeded with
          | none => rfl
          | some fp =>
            obtain ⟨key, hkey, -⟩ := h.marker fp (hok.seeded fp hseeded)
            cases hcontent.symm.trans hkey
        rw [hseeded]
        exact h.goes hhub (fun _ => hseeded) nofun (fun _ _ => nofun) nofun
      · rename_i bytes hcontent
        cases hs
        exact h.reads hhub hcontent nofun
    · cases hs
  | draw i key =>
    unfold System.act at hs
    dsimp only at hs
    split at hs
    · rename_i again hp
      split_ifs at hs with hfresh
      cases hs
      have hgoes : Safe fingerprint (s.moves i hub (.create key again)) := by
        refine h.goes hhub (fun _ => hok.starting (hp ▸ rfl)) (fun key' again' heq => ?_) (fun _ _ => nofun)
          nofun
        cases heq
        exact hfresh.1
      exact ⟨fun other hother => { hgoes.hubs other hother with }, hgoes.writer, hgoes.marker,
        hgoes.credentials⟩
    · cases hs
  | create i =>
    unfold System.act at hs
    dsimp only at hs
    split at hs
    · rename_i key again hp
      split_ifs at hs with hpath
      · cases hs
        exact h.goes hhub (fun _ => hok.starting (hp ▸ rfl)) nofun (fun _ _ => nofun) nofun
      · cases hs
        exact h.create hhub hp (Option.not_isSome_iff_eq_none.mp hpath)
    · cases hs
  | write i n =>
    unfold System.act at hs
    dsimp only at hs
    split at hs
    · rename_i key file again hp
      split at hs
      · rename_i hn
        cases hs
        exact h.write hhub hp hn.2
      · cases hs
    · cases hs
  | fails i =>
    unfold System.act at hs
    dsimp only at hs
    split at hs
    all_goals first
      | cases hs; done
      | rename_i hp
        cases hs
        exact h.goes hhub (fun _ => hok.starting (hp ▸ rfl)) nofun (fun _ _ => nofun) nofun
  | sync i =>
    unfold System.act at hs
    dsimp only at hs
    split at hs
    · rename_i key file again hp
      cases hs
      obtain ⟨hlength, hpath, hfile⟩ := hok.sync key file again hp
      exact h.reads hhub ((content_of_path hpath).trans hfile) fun _ => hlength
    · cases hs
  | cleanup i =>
    unfold System.act at hs
    dsimp only at hs
    split at hs
    · cases hs
      exact (h.relink hsound.1 (h.idle_of_unused hsound) s.files none).goes hhub nofun nofun
        (fun _ _ => nofun) nofun
    · cases hs
  | reread i =>
    unfold System.act at hs
    dsimp only at hs
    obtain ⟨bytes, hcontent, hfull⟩ := hsound
    split at hs
    · rename_i again hp
      split at hs
      · rename_i hnone
        cases hcontent.symm.trans hnone
      · rename_i bytes' hbytes
        cases hcontent.symm.trans hbytes
        cases hs
        exact h.reads hhub hcontent fun hagain => hfull hub hhub (hagain ▸ hp)
    · cases hs
  | remove i =>
    unfold System.act at hs
    dsimp only at hs
    split at hs
    · rename_i hp
      rw [if_pos hsound.1] at hs
      cases hs
      exact (h.relink hsound.2.1 (h.idle_of_unused hsound.2) s.files none).goes hhub
        (fun _ => hok.starting (hp ▸ rfl)) nofun (fun _ _ => nofun) nofun
    · cases hs
  | record i =>
    unfold System.act at hs
    dsimp only at hs
    split at hs
    · rename_i key hp
      cases hs
      exact h.record hhub hp
    · cases hs
  | store i =>
    unfold System.act at hs
    dsimp only at hs
    split at hs
    · rename_i key hp
      cases hs
      refine ⟨fun other hother => { h.hubs other hother with }, h.writer, h.marker, fun c hc => ?_⟩
      rcases List.mem_append.mp hc with hc | hc
      · exact h.credentials c hc
      · rw [List.mem_singleton.mp hc]
        exact ⟨hok.running key hp, (hok.holds key (Or.inr hp)).2⟩
    · cases hs
  | crash i =>
    cases hs
    exact h.goes hhub nofun nofun (fun _ _ => nofun) nofun

theorem safe_step {event : Event} (h : Safe fingerprint s) (hsound : s.Sound event)
    (hs : s.step fingerprint event = some s') : Safe fingerprint s' := by
  have hact : (s.hubs[event.hub]?).bind (fun hub => s.act fingerprint event.hub hub event) = some s' →
      Safe fingerprint s' := by
    intro hs
    obtain ⟨hub, hhub, hs⟩ := Option.bind_eq_some_iff.mp hs
    exact safe_act h hsound hhub hs
  cases event with
  | start =>
    cases hs
    refine ⟨fun other hother => ?_, h.writer.append fun hwriting => (by cases hwriting), h.marker,
      h.credentials⟩
    rcases List.mem_append.mp hother with hother | hother
    · exact { h.hubs other hother with }
    · rw [List.mem_singleton.mp hother]
      exact ⟨nofun, nofun, nofun, nofun, nofun, nofun, nofun, nofun⟩
  | _ => exact hact hs

end Steps

/-! ## Every run -/

/-- What the key file is to the rest: the marker names the key in it, every credential is
    sealed under that key, every hub past its start uses it, and no start has failed. -/
structure Kept (fingerprint : Bytes → F) (s : System F) : Prop where
  marker : ∀ fp, s.marker = some fp → ∃ key, s.content = some key ∧ key.length = keyLen ∧
    fp = fingerprint key
  credentials : ∀ c ∈ s.credentials, s.marker.isSome ∧ s.content = some c
  running : ∀ hub ∈ s.hubs, ∀ key, hub.position = .running key → s.marker.isSome ∧ s.content = some key
  passes : ∀ hub ∈ s.hubs, hub.position ≠ .failed

theorem key_kept [DecidableEq F] (fingerprint : Bytes → F)
    (h : (machine fingerprint).Reaches (fun s event => s.Sound event) s) : Kept fingerprint s := by
  have hsafe : Safe fingerprint s :=
    h.invariant ⟨nofun, .nil, nofun, nofun⟩ fun ha hsound hs => safe_step ha hsound hs
  exact ⟨hsafe.marker, hsafe.credentials, fun hub hhub key hp =>
    ⟨(hsafe.hubs hub hhub).running key hp, ((hsafe.hubs hub hhub).holds key (Or.inr hp)).2⟩,
    fun hub hhub => (hsafe.hubs hub hhub).passes⟩

/-! ## Two starts -/

/-- Two keys. -/
def firstKey : Bytes := List.replicate keyLen 1

def secondKey : Bytes := List.replicate keyLen 2

/-- A hub starts, looks for the marker and the file, and goes on to create one. -/
def looks (i : ℕ) : List Event := [.start, .readMarker i, .readFile i]

/-- It writes its key and records it. -/
def writes (i : ℕ) : List Event := [.write i keyLen, .sync i, .record i, .store i]

/-- Events that remove a file only when every other hub has stopped. -/
def removesAlone (s : System Bytes) : Event → Bool
  | .remove _ => s.path.isSome && s.marker.isNone &&
    s.hubs.all fun hub => hub.position = .stopped || hub.position = .remove
  | .cleanup _ | .reread _ => false
  | _ => true

theorem sound_of_removesAlone {s : System Bytes} {event : Event} (h : removesAlone s event = true) :
    s.Sound event := by
  cases event with
  | remove i =>
    simp only [removesAlone, Bool.and_eq_true] at h
    obtain ⟨⟨hpath, hmarker⟩, hall⟩ := h
    refine ⟨hpath, Option.isNone_iff_eq_none.mp hmarker, fun file bytes _ _ hub hhub huses => ?_⟩
    have hposition := List.all_eq_true.mp hall hub hhub
    simp only [Bool.or_eq_true, decide_eq_true_eq] at hposition
    rcases hposition with hp | hp <;> rw [hp] at huses <;> exact huses
  | cleanup i => cases h
  | reread i => cases h
  | _ => trivial

/-- A hub crashes while it writes the key, and the next one replaces it. -/
theorem key_kept_replaced : ∃ s, (machine id).Reaches (fun s event => s.Sound event) s ∧
    Kept id s ∧ s.content = some secondKey ∧ s.credentials = [secondKey] := by
  have hrun : ((machine id).replay removesAlone
      (looks 0 ++ [.draw 0 firstKey, .create 0, .write 0 4, .crash 0] ++ looks 1 ++
        [.remove 1, .draw 1 secondKey, .create 1] ++ writes 1) (machine id).start).any (fun s =>
          s.content = some secondKey && s.credentials = [secondKey]) = true := by
    decide
  obtain ⟨s, hs, hend⟩ := (Option.any_eq_true _ _).mp hrun
  simp only [Bool.and_eq_true, decide_eq_true_eq] at hend
  have hreach := (Machine.reaches_of_replay hs).mono fun _ _ => sound_of_removesAlone
  exact ⟨s, hreach, key_kept id hreach, hend⟩

/-- The second hub reads the file that the first has created and not yet written, and
    removes it. Both start, each with its own key; the marker and a credential are of the
    first, the file is of the second, and no hub starts any more. -/
theorem writer_loses_key : ∃ s, (machine id).Reachable s ∧ s.marker = some firstKey ∧
    s.content = some secondKey ∧ s.credentials = [firstKey, secondKey] ∧
      s.hubs.map Starter.position = [.running firstKey, .running secondKey, .failed] := by
  have hrun : ((machine id).replay (fun _ _ => true)
      (looks 0 ++ [.draw 0 firstKey, .create 0] ++ looks 1 ++ [.remove 1] ++ writes 0 ++
        [.draw 1 secondKey, .create 1] ++ writes 1 ++ looks 2) (machine id).start).any (fun s =>
          s.marker = some firstKey && s.content = some secondKey &&
            s.credentials = [firstKey, secondKey] &&
              s.hubs.map Starter.position = [.running firstKey, .running secondKey, .failed]) = true := by
    decide
  obtain ⟨s, hs, hend⟩ := (Option.any_eq_true _ _).mp hrun
  simp only [Bool.and_eq_true, decide_eq_true_eq] at hend
  exact ⟨s, (Machine.reaches_of_replay hs).reachable, hend.1.1.1, hend.1.1.2, hend.1.2, hend.2⟩

end Kahawai.Hub.Secrets
