import Kahawai.Core.Text
import Kahawai.Lib.Lexing

/-!
# Single statements

`first_keyword`, `query_is_read_only` and the `Executor` of `crates/kahawai-sqlite/src/lib.rs`
(lines 480–615): a text is refused, handed to a reader or handed to the writer by its first
word. SQLite reads the text again, and by its own rules: its blanks are five characters, a line
comment ends at a line feed, statements may be empty, and a word ends at the first character
that no identifier has.

SQLite is a parameter. Of it `Engine.Follows` states what its documentation says about
transactions: only `BEGIN` and `SAVEPOINT` start one.

Results:
* `firstKeyword_eq`: the loop skips by the rules of the standard library and takes a word.
* `fork_spec`: where the two readings of a text part.
* `fetch_refused`, `fetch_reader`, `fetch_writer`: what a call touches.
* `faithful_iff`: the texts on which the executor does what SQLite's reading asks for.
-/

namespace Kahawai.Sqlite.Statements

open Kahawai.Core Kahawai.Core.Text Kahawai.Lib.Lexing

/-! ## The classifier -/

/-- `char::is_ascii_whitespace`. -/
def isAsciiWhitespace (c : Char) : Bool :=
  c = ' ' || c = '\t' || c = '\n' || c = '\x0C' || c = '\r'

/-- Where a keyword ends (line 501). -/
def endsKeyword (c : Char) : Bool := isAsciiWhitespace c || c = '('

/-- The loop of `first_keyword`, at most `fuel` rounds of it. -/
def firstKeywordFuel : (fuel : ℕ) → Text → Text
  | 0, _ => []
  | fuel + 1, sql =>
    let sql := trimStartMatches isWhitespace sql
    match stripPrefix (lit "--") sql with
    | some comment =>
      match afterChar (fun c => c = '\n' || c = '\r') comment with
      | none => []
      | some rest => firstKeywordFuel fuel rest
    | none =>
      match stripPrefix (lit "/*") sql with
      | some comment =>
        match afterClose comment with
        | none => []
        | some rest => firstKeywordFuel fuel rest
      | none => sql.takeWhile fun c => !endsKeyword c

/-- `first_keyword` (lines 480–504): a comment has two characters at least. -/
def firstKeyword (sql : Text) : Text := firstKeywordFuel (sql.length + 1) sql

/-- `sqlx::Error`. -/
inductive Error
  | protocol (message : Text)
  | encode (message : Text)
  | database (message : Text)
  deriving DecidableEq

/-- The keywords of transaction control (line 508). -/
def controls : List Text :=
  [lit "BEGIN", lit "SAVEPOINT", lit "COMMIT", lit "END", lit "ROLLBACK", lit "RELEASE"]

/-- The keywords of a query that only reads (lines 515–517). -/
def reading : List Text := [lit "SELECT", lit "EXPLAIN", lit "VALUES"]

/-- The word is one of these, in any case. -/
def isOneOf (words : List Text) (word : Text) : Bool := words.any (eqIgnoreAsciiCase word)

def controlRefused : Error :=
  .protocol (lit "raw SQLite transaction control is not allowed; use Database::begin or Database::transaction")

/-- `query_is_read_only` (lines 506–518). -/
def queryIsReadOnly (sql : Text) : Except Error Bool :=
  if isOneOf controls (firstKeyword sql) then .error controlRefused
  else .ok (isOneOf reading (firstKeyword sql))

/-! ## SQLite -/

/-- A connection to SQLite. -/
structure Engine where
  Db : Type
  Arguments : Type
  Row : Type
  /-- Executes a text. -/
  run : Text → Option Arguments → Db → Db × Except Error (List Row)
  inTransaction : Db → Bool
  /-- The text has one statement that is not empty at most. -/
  single : Text → Prop

/-- SQLite's blanks, and the semicolon of an empty statement. -/
def sqlite : Trivia where
  blank c := isAsciiWhitespace c || c = ';'
  lineEnd c := c = '\n'
  dash := by decide
  slash := by decide

/-- The characters of identifiers and keywords. -/
def isIdChar (c : Char) : Bool := isAsciiAlphanumeric c || c = '_' || c = '$' || !isAscii c

/-- The keyword that SQLite reads first; empty if something else stands there. -/
def token (sql : Text) : Text := (skip sqlite .code sql).takeWhile isIdChar

/-- What SQLite's documentation says of transactions. -/
structure Engine.Follows (e : Engine) : Prop where
  /-- Only `BEGIN` and `SAVEPOINT` start one. -/
  stays : ∀ sql arguments db, e.single sql →
    isOneOf [lit "BEGIN", lit "SAVEPOINT"] (token sql) = false →
    e.inTransaction db = false → e.inTransaction (e.run sql arguments db).1 = false
  /-- A `BEGIN` that fails starts none. -/
  begins : ∀ db err, e.inTransaction db = false →
    (e.run (lit "BEGIN IMMEDIATE") none db).2 = .error err →
    e.inTransaction (e.run (lit "BEGIN IMMEDIATE") none db).1 = false
  commits : ∀ db rows, (e.run (lit "COMMIT") none db).2 = .ok rows →
    e.inTransaction (e.run (lit "COMMIT") none db).1 = false
  rollsBack : ∀ db, e.inTransaction (e.run (lit "ROLLBACK") none db).1 = false

/-! ## The executor -/

/-- `struct Database`: one of its readers, its writer while no lease is out, and the callback. -/
structure Database (e : Engine) where
  reader : e.Db
  writer : e.Db
  beforeCommit : Option (e.Db → e.Db × Except Text Unit)

variable {e : Engine} {α : Type}

/-- `WriterLease::drop`: the actor rolls back if the lease says so. -/
def dropLease (e : Engine) (rollback : Bool) (db : e.Db) : e.Db :=
  if rollback then (e.run (lit "ROLLBACK") none db).1 else db

/-- `begin_with_label`, the statement, and `WriterTransaction::commit` (lines 408–464, 564–566):
    the writer as the lease returns it, and the rows. -/
def transact (e : Engine) (callback : e.Db → e.Db × Except Text Unit) (sql : Text)
    (arguments : Option e.Arguments) (db : e.Db) : e.Db × Except Error (List e.Row) :=
  match e.run (lit "BEGIN IMMEDIATE") none db with
  | (db, .error err) => (dropLease e false db, .error err)
  | (db, .ok _) =>
    match e.run sql arguments db with
    | (db, .error err) => (dropLease e true db, .error err)
    | (db, .ok rows) =>
      match callback db with
      | (db, .error err) => (dropLease e true db, .error (.protocol (lit "before commit: " ++ err)))
      | (db, .ok ()) =>
        match e.run (lit "COMMIT") none db with
        | (db, .error err) => (dropLease e true db, .error err)
        | (db, .ok _) => (dropLease e false db, .ok rows)

/-- A statement on a reader. -/
def Database.read (d : Database e) (sql : Text) (arguments : Option e.Arguments) :
    Database e × Except Error (List e.Row) :=
  let (db, rows) := e.run sql arguments d.reader
  ({ d with reader := db }, rows)

/-- A statement on the writer, in a transaction if there is a callback. -/
def Database.write (d : Database e) (sql : Text) (arguments : Option e.Arguments) :
    Database e × Except Error (List e.Row) :=
  match d.beforeCommit with
  | some callback =>
    let (db, rows) := transact e callback sql arguments d.writer
    ({ d with writer := db }, rows)
  | none =>
    let (db, rows) := e.run sql arguments d.writer
    ({ d with writer := dropLease e false db }, rows)

/-- `fetch_many` and `fetch_optional` (lines 541–615); `collect` is what they make of the rows. -/
def fetch (collect : List e.Row → α) (sql : Text) (arguments : Except Text (Option e.Arguments))
    (d : Database e) : Database e × Except Error α :=
  match queryIsReadOnly sql with
  | .error err => (d, .error err)
  | .ok readOnly =>
    match arguments with
    | .error err => (d, .error (.encode err))
    | .ok arguments =>
      if readOnly then ((d.read sql arguments).1, (d.read sql arguments).2.map collect)
      else ((d.write sql arguments).1, (d.write sql arguments).2.map collect)

def fetchMany (sql : Text) (arguments : Except Text (Option e.Arguments)) (d : Database e) :
    Database e × Except Error (List e.Row) := fetch id sql arguments d

def fetchOptional (sql : Text) (arguments : Except Text (Option e.Arguments)) (d : Database e) :
    Database e × Except Error (Option e.Row) := fetch List.head? sql arguments d

/-! ## The loop -/

/-- The trivia of `first_keyword`. -/
def rust : Trivia where
  blank := isWhitespace
  lineEnd c := c = '\n' || c = '\r'
  dash := by decide
  slash := by decide

theorem stripPrefix_eq_some {pre s rest : Text} (h : stripPrefix pre s = some rest) :
    s = pre ++ rest := by
  unfold stripPrefix at h
  split_ifs at h with hpre
  obtain ⟨tail, rfl⟩ := List.isPrefixOf_iff_prefix.mp hpre
  rw [← Option.some.inj h, List.drop_left]

theorem stripPrefix_eq_none {pre s : Text} (h : stripPrefix pre s = none) : ¬ pre <+: s := by
  unfold stripPrefix at h
  split_ifs at h with hpre
  rwa [List.isPrefixOf_iff_prefix] at hpre

theorem length_afterChar {p : Char → Bool} {s rest : Text} (h : afterChar p s = some rest) :
    rest.length < s.length := by
  induction s with
  | nil => cases h
  | cons c s ih =>
    rw [afterChar] at h
    split_ifs at h
    · rw [← Option.some.inj h]
      exact Nat.lt_succ_self _
    · exact (ih h).trans (Nat.lt_succ_self _)

theorem length_afterClose {s rest : Text} (h : afterClose s = some rest) :
    rest.length < s.length := by
  fun_induction afterClose s with
  | case1 => cases h
  | case2 s =>
    rw [← Option.some.inj h]
    simp only [List.length_cons]
    omega
  | case3 c s hne ih => exact (ih h).trans (Nat.lt_succ_self _)

/-- The loop skips blanks and comments and takes what stands before a blank or a parenthesis. -/
theorem firstKeywordFuel_eq {fuel : ℕ} {sql : Text} (h : sql.length < fuel) :
    firstKeywordFuel fuel sql = (skip rust .code sql).takeWhile fun c => !endsKeyword c := by
  induction fuel generalizing sql with
  | zero => omega
  | succ fuel ih =>
    have hshort : (sql.dropWhile rust.blank).length ≤ sql.length :=
      (List.dropWhile_sublist _).length_le
    have hblank : ∀ c ∈ (sql.dropWhile rust.blank).head?, rust.blank c = false := by
      intro c hc
      have hnot := List.head?_dropWhile_not rust.blank sql
      rw [Option.mem_def.mp hc] at hnot
      exact hnot
    rw [firstKeywordFuel, ← skip_dropWhile]
    show (match stripPrefix (lit "--") (sql.dropWhile rust.blank) with
      | some comment =>
        match afterChar rust.lineEnd comment with
        | none => []
        | some rest => firstKeywordFuel fuel rest
      | none =>
        match stripPrefix (lit "/*") (sql.dropWhile rust.blank) with
        | some comment =>
          match afterClose comment with
          | none => []
          | some rest => firstKeywordFuel fuel rest
        | none => (sql.dropWhile rust.blank).takeWhile fun c => !endsKeyword c) = _
    generalize sql.dropWhile rust.blank = s at hshort hblank ⊢
    cases hline : stripPrefix (lit "--") s with
    | some comment =>
      obtain rfl : s = '-' :: '-' :: comment := stripPrefix_eq_some hline
      simp only [List.length_cons] at hshort
      rw [skip, skip_line]
      cases hafter : afterChar rust.lineEnd comment with
      | none => simp only [hafter, Option.map_none, Option.getD_none, List.takeWhile_nil]
      | some rest =>
        have hrest := length_afterChar hafter
        simp only [hafter, Option.map_some, Option.getD_some]
        exact ih (by omega)
    | none =>
      cases hblock : stripPrefix (lit "/*") s with
      | some comment =>
        obtain rfl : s = '/' :: '*' :: comment := stripPrefix_eq_some hblock
        simp only [List.length_cons] at hshort
        rw [skip, skip_block]
        cases hafter : afterClose comment with
        | none => simp only [hafter, Option.map_none, Option.getD_none, List.takeWhile_nil]
        | some rest =>
          have hrest := length_afterClose hafter
          simp only [hafter, Option.map_some, Option.getD_some]
          exact ih (by omega)
      | none =>
        rw [skip_eq_self ⟨stripPrefix_eq_none hline, stripPrefix_eq_none hblock⟩ hblank]

theorem firstKeyword_eq (sql : Text) :
    firstKeyword sql = (skip rust .code sql).takeWhile fun c => !endsKeyword c :=
  firstKeywordFuel_eq (Nat.lt_succ_self _)

/-! ## Where the readings part -/

/-- How the blanks and comments end that both readings skip alike. -/
inductive Fork
  /-- Both readings go on here. -/
  | here (rest : Text)
  /-- A semicolon, and what is behind it. -/
  | semicolon (rest : Text)
  /-- A blank that SQLite does not know, and what is behind it. -/
  | foreign (rest : Text)
  /-- A carriage return in a line comment, and what is behind it. -/
  | carriage (rest : Text)

def fork : Mode → Text → Fork
  | _, [] => .here []
  | .code, '-' :: '-' :: s => fork .line s
  | .code, '/' :: '*' :: s => fork .block s
  | .code, c :: s =>
    if isAsciiWhitespace c then fork .code s
    else if c = ';' then .semicolon s
    else if isWhitespace c then .foreign s
    else .here (c :: s)
  | .line, c :: s =>
    if c = '\n' then fork .code s else if c = '\r' then .carriage s else fork .line s
  | .block, '*' :: '/' :: s => fork .code s
  | .block, _ :: s => fork .block s

/-- What the two readings leave, by the way they part. -/
def Fork.Leaves : Fork → (rustRest sqliteRest : Text) → Prop
  | .here rest, r, q => r = rest ∧ q = rest
  | .semicolon rest, r, q => r = ';' :: rest ∧ q = skip sqlite .code rest
  | .foreign rest, r, q => r = skip rust .code rest ∧
      ∃ c, isWhitespace c = true ∧ q = c :: rest
  | .carriage rest, r, q => r = skip rust .code rest ∧ q = skip sqlite .line rest

theorem isWhitespace_of_isAsciiWhitespace {c : Char} (h : isAsciiWhitespace c = true) :
    isWhitespace c = true := by
  simp only [isAsciiWhitespace, Bool.or_eq_true, decide_eq_true_eq] at h
  rcases h with (((rfl | rfl) | rfl) | rfl) | rfl <;> decide

theorem fork_spec (m : Mode) (sql : Text) :
    (fork m sql).Leaves (skip rust m sql) (skip sqlite m sql) := by
  fun_induction fork m sql with
  | case1 m => exact ⟨skip_nil rust m, skip_nil sqlite m⟩
  | case2 s ih => rw [skip, skip]; exact ih
  | case3 s ih => rw [skip, skip]; exact ih
  | case4 c s hline hblock hblank ih =>
    rw [skip_cons_of_blank (t := rust) (isWhitespace_of_isAsciiWhitespace hblank),
      skip_cons_of_blank (t := sqlite) (by simp [sqlite, hblank])]
    exact ih
  | case5 s hline hblock hblank =>
    refine ⟨skip_cons_of_not_blank hline hblock (by decide), ?_⟩
    exact skip_cons_of_blank (t := sqlite) (by decide)
  | case6 c s hline hblock hblank hsemi hwhite =>
    refine ⟨skip_cons_of_blank (t := rust) hwhite, c, hwhite, ?_⟩
    exact skip_cons_of_not_blank hline hblock (by simp [sqlite, hblank, hsemi])
  | case7 c s hline hblock hblank hsemi hwhite =>
    refine ⟨skip_cons_of_not_blank hline hblock (Bool.eq_false_iff.mpr hwhite), ?_⟩
    exact skip_cons_of_not_blank hline hblock (by simp [sqlite, hblank, hsemi])
  | case8 s ih =>
    rw [skip, skip, if_pos (by decide), if_pos (by decide)]
    exact ih
  | case9 s =>
    rw [Fork.Leaves, skip, skip, if_pos (by decide), if_neg (by decide)]
    exact ⟨rfl, rfl⟩
  | case10 c s hline hreturn ih =>
    rw [skip, skip, if_neg (by simp [rust, hline, hreturn]), if_neg (by simp [sqlite, hline])]
    exact ih
  | case11 s ih => rw [skip, skip]; exact ih
  | case12 c s hne ih =>
    rw [skip, skip]
    · exact ih
    · exact hne
    · exact hne

/-! ## Words -/

/-- A word ends here for `first_keyword` too. -/
def Ended (rest : Text) : Prop := ∀ c ∈ rest.head?, endsKeyword c = true

/-- Behind the blanks of Unicode and comments that end at a carriage return or a line feed stands
    one of the words, and behind it the end, a blank or a parenthesis. -/
def Begins (words : List Text) (sql : Text) : Prop :=
  isOneOf words ((skip rust .code sql).takeWhile isIdChar) = true ∧
    Ended ((skip rust .code sql).dropWhile isIdChar)

/-- The words are not empty and have letters only. -/
def Plain (words : List Text) : Prop :=
  ∀ word ∈ words, word ≠ [] ∧ ∀ c ∈ word, isAsciiAlphabetic (charToAsciiLower c) = true

theorem plain_of_all {words : List Text} (h : (words.all fun word => !word.isEmpty &&
    word.all fun c => isAsciiAlphabetic (charToAsciiLower c)) = true) : Plain words := by
  intro word hword
  have hboth := List.all_eq_true.mp h word hword
  rw [Bool.and_eq_true, List.all_eq_true] at hboth
  exact ⟨by simpa using hboth.1, hboth.2⟩

theorem plain_controls : Plain controls := plain_of_all (by decide)

theorem plain_reading : Plain reading := plain_of_all (by decide)

theorem isAsciiAlphabetic_of_lower {c : Char} (h : isAsciiAlphabetic (charToAsciiLower c) = true) :
    isAsciiAlphabetic c = true := by
  unfold charToAsciiLower at h
  split_ifs at h with hupper
  · simp only [isAsciiAlphabetic, hupper, Bool.or_true]
  · exact h

theorem isIdChar_of_isAsciiAlphabetic {c : Char} (h : isAsciiAlphabetic c = true) :
    isIdChar c = true := by
  simp [isIdChar, isAsciiAlphanumeric, h]

theorem not_endsKeyword_of_isIdChar {c : Char} (h : isIdChar c = true) : endsKeyword c = false := by
  by_contra hends
  simp only [endsKeyword, isAsciiWhitespace, Bool.not_eq_false, Bool.or_eq_true,
    decide_eq_true_eq] at hends
  rcases hends with ((((rfl | rfl) | rfl) | rfl) | rfl) | rfl <;> exact absurd h (by decide)

section Words

variable {words : List Text} {word : Text}

theorem isAsciiAlphabetic_of_isOneOf (hwords : Plain words) (h : isOneOf words word = true) :
    ∀ c ∈ word, isAsciiAlphabetic c = true := by
  intro c hc
  obtain ⟨w, hw, heq⟩ := List.any_eq_true.mp h
  have hlower : toAsciiLower word = toAsciiLower w := by simpa [eqIgnoreAsciiCase] using heq
  have hmem : charToAsciiLower c ∈ toAsciiLower w := hlower ▸ List.mem_map_of_mem hc
  obtain ⟨c', hc', heq'⟩ := List.mem_map.mp hmem
  apply isAsciiAlphabetic_of_lower
  rw [← heq']
  exact (hwords w hw).2 c' hc'

theorem not_isOneOf_nil (hwords : Plain words) : isOneOf words [] = false := by
  rw [← Bool.not_eq_true]
  intro h
  obtain ⟨w, hw, heq⟩ := List.any_eq_true.mp h
  have hlower : toAsciiLower [] = toAsciiLower w := by simpa [eqIgnoreAsciiCase] using heq
  exact (hwords w hw).1 (List.map_eq_nil_iff.mp hlower.symm)

/-- A word that the code takes is one of these exactly if SQLite takes it too and it is ended. -/
theorem isOneOf_takeWhile_iff (hwords : Plain words) (rest : Text) :
    isOneOf words (rest.takeWhile fun c => !endsKeyword c) = true ↔
      isOneOf words (rest.takeWhile isIdChar) = true ∧ Ended (rest.dropWhile isIdChar) := by
  have hsame : ∀ s : Text,
      ((∀ c ∈ s.takeWhile fun c => !endsKeyword c, isIdChar c = true) ↔
        Ended (s.dropWhile isIdChar)) ∧
      (Ended (s.dropWhile isIdChar) →
        (s.takeWhile fun c => !endsKeyword c) = s.takeWhile isIdChar) := by
    intro s
    induction s with
    | nil => exact ⟨⟨fun _ => nofun, fun _ => nofun⟩, fun _ => rfl⟩
    | cons c s ih =>
      by_cases hid : isIdChar c = true
      · have hends := not_endsKeyword_of_isIdChar hid
        simp only [List.takeWhile_cons, List.dropWhile_cons, hid, hends, Bool.not_false, if_true,
          List.forall_mem_cons, true_and]
        exact ⟨ih.1, fun h => by rw [ih.2 h]⟩
      · by_cases hends : endsKeyword c = true
        · simp [Ended, hid, hends]
        · simp [Ended, hid, hends]
  constructor
  · intro h
    have hended := (hsame rest).1.mp fun c hc =>
      isIdChar_of_isAsciiAlphabetic (isAsciiAlphabetic_of_isOneOf hwords h c hc)
    rw [(hsame rest).2 hended] at h
    exact ⟨h, hended⟩
  · rintro ⟨h, hended⟩
    rw [(hsame rest).2 hended]
    exact h

theorem isOneOf_firstKeyword_iff (hwords : Plain words) (sql : Text) :
    isOneOf words (firstKeyword sql) = true ↔ Begins words sql := by
  rw [firstKeyword_eq]
  exact isOneOf_takeWhile_iff hwords _

/-- No word begins with a character that is no letter. -/
theorem not_isOneOf_takeWhile (hwords : Plain words) {p : Char → Bool} {c : Char} {rest : Text}
    (hc : isAsciiAlphabetic c = false) : isOneOf words ((c :: rest).takeWhile p) = false := by
  rw [List.takeWhile_cons]
  split_ifs
  · rw [← Bool.not_eq_true]
    intro h
    rw [isAsciiAlphabetic_of_isOneOf hwords h c List.mem_cons_self] at hc
    cases hc
  · exact not_isOneOf_nil hwords

end Words

theorem not_isAsciiAlphabetic_of_isWhitespace {c : Char} (h : isWhitespace c = true) :
    isAsciiAlphabetic c = false := by
  rw [← Bool.not_eq_true]
  intro halpha
  have hrange : (97 ≤ c.toNat ∧ c.toNat ≤ 122) ∨ (65 ≤ c.toNat ∧ c.toNat ≤ 90) := by
    simpa [isAsciiAlphabetic, Char.le_def, UInt32.le_iff_toNat_le] using halpha
  simp only [isWhitespace, Bool.or_eq_true, Bool.and_eq_true, decide_eq_true_eq] at h
  omega

/-! ## Two readings of one text -/

/-- The readings agree on what the executor asks, told by where they part. -/
def ReadAlike (sql : Text) : Prop :=
  match fork .code sql with
  | .here rest =>
    isOneOf controls (rest.takeWhile isIdChar) = true → Ended (rest.dropWhile isIdChar)
  | .semicolon rest => isOneOf controls (token rest) = false
  | .foreign rest => ¬ Begins controls rest ∧ ¬ Begins reading rest
  | .carriage rest =>
    let line := (afterChar (fun c => c = '\n') rest).getD []
    (Begins controls rest ↔ isOneOf controls (token line) = true) ∧
      (Begins reading rest → isOneOf reading (token line) = true)

theorem skip_sqlite_line (rest : Text) : skip sqlite .line rest =
    skip sqlite .code ((afterChar (fun c => c = '\n') rest).getD []) := by
  rw [skip_line]
  show ((afterChar (fun c => c = '\n') rest).map (skip sqlite .code)).getD [] = _
  cases afterChar (fun c => c = '\n') rest with
  | none => rfl
  | some line => rfl

theorem readAlike_iff (sql : Text) :
    ((Begins controls sql ↔ isOneOf controls (token sql) = true) ∧
      (Begins reading sql → isOneOf reading (token sql) = true)) ↔ ReadAlike sql := by
  have hfork := fork_spec .code sql
  unfold ReadAlike
  cases hcase : fork .code sql with
  | here rest =>
    rw [hcase] at hfork
    obtain ⟨hrust, hsqlite⟩ := hfork
    simp only [Begins, token, hrust, hsqlite]
    tauto
  | semicolon rest =>
    rw [hcase] at hfork
    obtain ⟨hrust, hsqlite⟩ := hfork
    simp only [Begins, token, hrust, hsqlite, not_isOneOf_takeWhile plain_controls
      (show isAsciiAlphabetic ';' = false by decide), not_isOneOf_takeWhile plain_reading
      (show isAsciiAlphabetic ';' = false by decide)]
    simp
  | foreign rest =>
    rw [hcase] at hfork
    obtain ⟨hrust, c, hc, hsqlite⟩ := hfork
    have hletter := not_isAsciiAlphabetic_of_isWhitespace hc
    simp only [Begins, token, hrust, hsqlite, not_isOneOf_takeWhile plain_controls hletter,
      not_isOneOf_takeWhile plain_reading hletter]
    simp
  | carriage rest =>
    rw [hcase] at hfork
    obtain ⟨hrust, hsqlite⟩ := hfork
    rw [skip_sqlite_line] at hsqlite
    simp only [Begins, token, hrust, hsqlite]

/-! ## What a call touches -/

section Fetch

variable {sql : Text} {collect : List e.Row → α} {d : Database e}

theorem fetch_eq (arguments : Except Text (Option e.Arguments)) :
    fetch collect sql arguments d =
      if isOneOf controls (firstKeyword sql) then (d, .error controlRefused)
      else
        match arguments with
        | .error err => (d, .error (.encode err))
        | .ok arguments =>
          if isOneOf reading (firstKeyword sql) then
            ((d.read sql arguments).1, (d.read sql arguments).2.map collect)
          else ((d.write sql arguments).1, (d.write sql arguments).2.map collect) := by
  unfold fetch queryIsReadOnly
  cases isOneOf controls (firstKeyword sql) <;> rfl

theorem fetch_refused (h : isOneOf controls (firstKeyword sql) = true)
    (arguments : Except Text (Option e.Arguments)) :
    fetch collect sql arguments d = (d, .error controlRefused) := by
  rw [fetch_eq, if_pos h]

/-- Arguments that cannot be encoded touch nothing. -/
theorem fetch_error (h : isOneOf controls (firstKeyword sql) = false) (err : Text) :
    fetch collect sql (.error err) d = (d, .error (.encode err)) := by
  rw [fetch_eq, if_neg (Bool.eq_false_iff.mp h)]

theorem fetch_reader (h : isOneOf controls (firstKeyword sql) = false)
    (hread : isOneOf reading (firstKeyword sql) = true) (arguments : Option e.Arguments) :
    fetch collect sql (.ok arguments) d =
      ((d.read sql arguments).1, (d.read sql arguments).2.map collect) := by
  rw [fetch_eq, if_neg (Bool.eq_false_iff.mp h)]
  exact if_pos hread

theorem fetch_writer (h : isOneOf controls (firstKeyword sql) = false)
    (hread : isOneOf reading (firstKeyword sql) = false) (arguments : Option e.Arguments) :
    fetch collect sql (.ok arguments) d =
      ((d.write sql arguments).1, (d.write sql arguments).2.map collect) := by
  rw [fetch_eq, if_neg (Bool.eq_false_iff.mp h)]
  exact if_neg (Bool.eq_false_iff.mp hread)

end Fetch

/-- Every call of the executor refuses the text and leaves both connections alone. -/
def Refuses (sql : Text) : Prop :=
  ∀ (e : Engine) (α : Type) (collect : List e.Row → α)
    (arguments : Except Text (Option e.Arguments)) (d : Database e),
    fetch collect sql arguments d = (d, .error controlRefused)

/-- Every call hands the text to a reader. -/
def Reads (sql : Text) : Prop :=
  ∀ (e : Engine) (α : Type) (collect : List e.Row → α) (arguments : Option e.Arguments)
    (d : Database e), fetch collect sql (.ok arguments) d =
      ((d.read sql arguments).1, (d.read sql arguments).2.map collect)

/-- Every call hands the text to the writer. -/
def Writes (sql : Text) : Prop :=
  ∀ (e : Engine) (α : Type) (collect : List e.Row → α) (arguments : Option e.Arguments)
    (d : Database e), fetch collect sql (.ok arguments) d =
      ((d.write sql arguments).1, (d.write sql arguments).2.map collect)

/-- An engine that counts the texts it executes. -/
def counting : Engine where
  Db := ℕ
  Arguments := Unit
  Row := Unit
  run _ _ n := (n + 1, .ok [])
  inTransaction _ := false
  single _ := True

def counters : Database counting where
  reader := (0 : ℕ)
  writer := (0 : ℕ)
  beforeCommit := none

theorem refuses_iff (sql : Text) : Refuses sql ↔ Begins controls sql := by
  rw [← isOneOf_firstKeyword_iff plain_controls]
  constructor
  · intro h
    by_contra hnot
    rw [Bool.not_eq_true] at hnot
    have hfetch := h counting _ id (.error []) counters
    rw [fetch_error hnot] at hfetch
    cases (Prod.mk.inj hfetch).2
  · intro h e α collect arguments d
    exact fetch_refused h arguments

/-- No word is of both kinds. -/
theorem not_controls_of_reading {word : Text} (h : isOneOf reading word = true) :
    isOneOf controls word = false := by
  rw [← Bool.not_eq_true]
  intro hcontrol
  obtain ⟨r, hr, hread⟩ := List.any_eq_true.mp h
  obtain ⟨c, hc, hcontrol⟩ := List.any_eq_true.mp hcontrol
  have hlower : toAsciiLower word = toAsciiLower r := by simpa [eqIgnoreAsciiCase] using hread
  have hlower' : toAsciiLower word = toAsciiLower c := by simpa [eqIgnoreAsciiCase] using hcontrol
  have hdistinct : ∀ r ∈ reading, ∀ c ∈ controls, toAsciiLower r ≠ toAsciiLower c := by decide
  exact hdistinct r hr c hc (hlower.symm.trans hlower')

theorem reads_iff (sql : Text) : Reads sql ↔ Begins reading sql := by
  rw [← isOneOf_firstKeyword_iff plain_reading]
  constructor
  · intro h
    by_contra hread
    rw [Bool.not_eq_true] at hread
    have hfetch := h counting _ id none counters
    cases hcontrol : isOneOf controls (firstKeyword sql) with
    | true =>
      rw [fetch_refused hcontrol] at hfetch
      cases (Prod.mk.inj hfetch).2
    | false =>
      rw [fetch_writer hcontrol hread] at hfetch
      exact absurd (congrArg Database.reader (Prod.mk.inj hfetch).1) Nat.zero_ne_one
  · intro h e α collect arguments d
    exact fetch_reader (not_controls_of_reading h) h arguments

/-! ## Transactions -/

theorem dropLease_clean (he : e.Follows) (db : e.Db) :
    e.inTransaction (dropLease e true db) = false := he.rollsBack db

/-- A lease that runs a transaction comes back clean, whatever the statement and the callback
    have done to it. -/
theorem transact_clean (he : e.Follows) (callback : e.Db → e.Db × Except Text Unit) (sql : Text)
    (arguments : Option e.Arguments) {db : e.Db} (hdb : e.inTransaction db = false) :
    e.inTransaction (transact e callback sql arguments db).1 = false := by
  unfold transact
  split
  · rename_i db' err hbegin
    have hclean := he.begins db err hdb (by rw [hbegin])
    rwa [hbegin] at hclean
  · split
    · exact dropLease_clean he _
    · split
      · exact dropLease_clean he _
      · split
        · exact dropLease_clean he _
        · rename_i db' rows hcommit
          have hclean := he.commits _ rows (by rw [hcommit])
          rwa [hcommit] at hclean

/-- A statement that starts no transaction leaves the writer clean. -/
theorem write_clean (he : e.Follows) {sql : Text} (hsingle : e.single sql)
    (htoken : isOneOf controls (token sql) = false) (arguments : Option e.Arguments)
    {d : Database e} (hd : e.inTransaction d.writer = false) :
    e.inTransaction (d.write sql arguments).1.writer = false := by
  have hopening : isOneOf [lit "BEGIN", lit "SAVEPOINT"] (token sql) = false := by
    rw [← Bool.not_eq_true] at htoken ⊢
    intro h
    apply htoken
    obtain ⟨w, hw, heq⟩ := List.any_eq_true.mp h
    have hsub : ∀ w ∈ [lit "BEGIN", lit "SAVEPOINT"], w ∈ controls := by decide
    exact List.any_eq_true.mpr ⟨w, hsub w hw, heq⟩
  unfold Database.write
  split
  · exact transact_clean he _ sql arguments hd
  · exact he.stays sql arguments d.writer hsingle hopening hd

/-! ## The executor and SQLite's reading -/

/-- The executor does what SQLite's reading of the text asks for. -/
structure Faithful (sql : Text) : Prop where
  refused_iff : Refuses sql ↔ isOneOf controls (token sql) = true
  reads_only : Reads sql → isOneOf reading (token sql) = true
  otherwise : ¬ Refuses sql → ¬ Reads sql → Writes sql
  leaves_clean : ∀ e : Engine, e.Follows → e.single sql → ∀ (α : Type)
    (collect : List e.Row → α) (arguments : Except Text (Option e.Arguments)) (d : Database e),
    e.inTransaction d.writer = false →
    e.inTransaction (fetch collect sql arguments d).1.writer = false

theorem writes_of_not {sql : Text} (hrefused : ¬ Begins controls sql)
    (hread : ¬ Begins reading sql) : Writes sql := by
  rw [← isOneOf_firstKeyword_iff plain_controls, Bool.not_eq_true] at hrefused
  rw [← isOneOf_firstKeyword_iff plain_reading, Bool.not_eq_true] at hread
  intro e α collect arguments d
  exact fetch_writer hrefused hread arguments

theorem leaves_clean {sql : Text} (halike : Begins controls sql ↔ isOneOf controls (token sql) = true)
    (he : e.Follows) (hsingle : e.single sql) (collect : List e.Row → α)
    (arguments : Except Text (Option e.Arguments)) {d : Database e}
    (hd : e.inTransaction d.writer = false) :
    e.inTransaction (fetch collect sql arguments d).1.writer = false := by
  by_cases hcontrol : Begins controls sql
  · rw [(refuses_iff sql).mpr hcontrol e α collect arguments d]
    exact hd
  · have htoken : isOneOf controls (token sql) = false := by
      rw [← Bool.not_eq_true, ← halike]
      exact hcontrol
    cases arguments with
    | error err =>
      rw [← isOneOf_firstKeyword_iff plain_controls, Bool.not_eq_true] at hcontrol
      rw [fetch_error hcontrol]
      exact hd
    | ok arguments =>
      by_cases hread : Begins reading sql
      · rw [(reads_iff sql).mpr hread e α collect arguments d]
        exact hd
      · rw [writes_of_not hcontrol hread e α collect arguments d]
        exact write_clean he hsingle htoken arguments hd

/-- The texts on which transaction control is refused, reads go to a reader, everything else to
    the writer, and the writer comes back clean. -/
theorem faithful_iff (sql : Text) : Faithful sql ↔ ReadAlike sql := by
  rw [← readAlike_iff]
  constructor
  · intro h
    have hrefused := h.refused_iff
    have hreads := h.reads_only
    rw [refuses_iff] at hrefused
    rw [reads_iff] at hreads
    exact ⟨hrefused, hreads⟩
  · rintro ⟨hrefused, hreads⟩
    refine ⟨by rwa [refuses_iff], by rwa [reads_iff], ?_, ?_⟩
    · rw [refuses_iff, reads_iff]
      exact writes_of_not
    · intro e he hsingle α collect arguments d hd
      exact leaves_clean hrefused he hsingle collect arguments hd

/-! ## A transaction that is left open -/

/-- SQLite's transactions alone: a connection is in one or not, and a text does what its first
    word says. A text whose first semicolon has only empty statements behind it is a single one. -/
def transactions : Engine where
  Db := Bool
  Arguments := Unit
  Row := Unit
  run sql _ active :=
    if isOneOf [lit "BEGIN"] (token sql) then
      (true, if active then .error (.database (lit "cannot start a transaction within a transaction"))
        else .ok [])
    else if isOneOf [lit "SAVEPOINT"] (token sql) then (true, .ok [])
    else if isOneOf [lit "COMMIT", lit "END", lit "ROLLBACK"] (token sql) then
      (false, if active then .ok [] else .error (.database (lit "no transaction is active")))
    else (active, .ok [])
  inTransaction active := active
  single sql := ∀ rest ∈ afterChar (fun c => c = ';') (skip sqlite .code sql),
    skip sqlite .code rest = []

theorem transactions_follows : transactions.Follows where
  stays := by
    intro sql arguments active hsingle hopening hactive
    obtain rfl : active = false := hactive
    have hbegin : isOneOf [lit "BEGIN"] (token sql) = false := by
      simp only [isOneOf, List.any_cons, List.any_nil, Bool.or_false, Bool.or_eq_false_iff]
        at hopening ⊢
      exact hopening.1
    have hsavepoint : isOneOf [lit "SAVEPOINT"] (token sql) = false := by
      simp only [isOneOf, List.any_cons, List.any_nil, Bool.or_false, Bool.or_eq_false_iff]
        at hopening ⊢
      exact hopening.2
    simp only [transactions, hbegin, hsavepoint, Bool.false_eq_true, if_false]
    split_ifs <;> rfl
  begins := by
    rintro (_ | _) err hclean h
    · cases h
    · cases hclean
  commits := by
    rintro (_ | _) rows h <;> rfl
  rollsBack := by
    rintro (_ | _) <;> rfl

/-- The writer runs a single `BEGIN` and comes back inside of a transaction. -/
def LeavesOpen (sql : Text) : Prop :=
  isOneOf controls (token sql) = true ∧ ¬ Refuses sql ∧ transactions.single sql ∧
    ∃ d : Database transactions, transactions.inTransaction d.writer = false ∧
      transactions.inTransaction (fetchMany sql (.ok none) d).1.writer = true

theorem leavesOpen_of_words {sql : Text} (htoken : isOneOf controls (token sql) = true)
    (hbegin : isOneOf [lit "BEGIN"] (token sql) = true)
    (hkeyword : isOneOf controls (firstKeyword sql) = false)
    (hread : isOneOf reading (firstKeyword sql) = false) (hsingle : transactions.single sql) :
    LeavesOpen sql := by
  have hrefuses : ¬ Refuses sql := by
    rw [refuses_iff, ← isOneOf_firstKeyword_iff plain_controls, hkeyword]
    exact Bool.false_ne_true
  refine ⟨htoken, hrefuses, hsingle, ⟨false, false, none⟩, rfl, ?_⟩
  rw [fetchMany, fetch_writer hkeyword hread]
  simp only [Database.write, transactions, hbegin, if_true]
  rfl

/-- A semicolon in front of `BEGIN`, or right behind it, hides it from the classifier. -/
theorem not_faithful_semicolon :
    (¬ Faithful (lit ";BEGIN IMMEDIATE") ∧ LeavesOpen (lit ";BEGIN IMMEDIATE")) ∧
      ¬ Faithful (lit "BEGIN;") ∧ LeavesOpen (lit "BEGIN;") := by
  have hfront : LeavesOpen (lit ";BEGIN IMMEDIATE") :=
    leavesOpen_of_words (by decide) (by decide) (by decide) (by decide)
      (show ∀ rest ∈ afterChar (fun c => c = ';') (skip sqlite .code (lit ";BEGIN IMMEDIATE")),
        skip sqlite .code rest = [] by decide)
  have hbehind : LeavesOpen (lit "BEGIN;") :=
    leavesOpen_of_words (by decide) (by decide) (by decide) (by decide)
      (show ∀ rest ∈ afterChar (fun c => c = ';') (skip sqlite .code (lit "BEGIN;")),
        skip sqlite .code rest = [] by decide)
  exact ⟨⟨fun h => hfront.2.1 (h.refused_iff.mpr hfront.1), hfront⟩,
    fun h => hbehind.2.1 (h.refused_iff.mpr hbehind.1), hbehind⟩

end Kahawai.Sqlite.Statements
