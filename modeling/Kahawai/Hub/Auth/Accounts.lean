import Kahawai.Hub.Auth.State
import Kahawai.Lib.Transactions

/-!
# Administrators

Model of the functions of `crates/kahawai-hub/src/auth.rs` that create, change
and delete accounts, statement by statement inside their transactions, with what
they answer: `complete_setup` (lines 348–392), `set_admin`, `delete_user`,
`create_user` (lines 394–541) and `reset_password` (lines 798–823), and of
`delete_owner` in `secrets.rs`. The store is that of `Hub.Auth` with the table
`credentials` beside it.

* `db_setAdmin`, `db_deleteUser`, `db_createUser`: on the tables of `Hub.Auth`
  the transactions do what the functions there do.
* `setAdmin_refused`, `deleteUser_refused`: a refusal leaves every table as it
  was, although a deletion removes the credentials before it counts the
  administrators.
* `administrator_remains`: once a setup has committed, an administrator remains
  in every run, and no other setup succeeds.
-/

namespace Kahawai.Hub.Auth.Accounts

open Kahawai.Core Kahawai.Core.Text Kahawai.Lib

/-- A row of `credentials`. The owner is a user, or empty for the hub. -/
structure Credential where
  ownerId : Text
  provider : Text
  field : Text
  secret : List UInt8
  deriving DecidableEq

/-- The primary key. -/
def Credential.key (c : Credential) : Text × Text × Text := (c.ownerId, c.provider, c.field)

structure Store where
  db : Db
  credentials : Table Credential.key

/-- `enum SetAdmin`. -/
inductive SetAdmin
  | changed
  | unchanged
  | noSuchUser
  | lastAdmin
  deriving DecidableEq

/-- `enum DeleteUser`. -/
inductive DeleteUser
  | deleted (username : Text)
  | noSuchUser
  | lastAdmin
  deriving DecidableEq

/-- `enum CredentialPolicyError`. -/
inductive CredentialPolicyError
  | usernameRequired
  | passwordTooShort
  deriving DecidableEq

/-- The errors of the five functions. -/
inductive AccountError
  | invalidInput (e : CredentialPolicyError)
  | alreadyCompleted
  | usernameTaken
  | noSuchUser (username : Text)
  | emptyOwner
  | internal (context : Text)
  deriving DecidableEq

/-- What an error says. -/
def AccountError.text : AccountError → Text
  | .invalidInput .usernameRequired => lit "username required"
  | .invalidInput .passwordTooShort => lit "password must be at least 12 characters"
  | .alreadyCompleted => lit "setup already completed"
  | .usernameTaken => lit "that username is already taken"
  | .noSuchUser username => lit "no such user: " ++ username
  | .emptyOwner => lit "refusing to delete credentials for an empty owner"
  | .internal context => context

/-- `validate_credentials` (lines 262–274) with its errors. -/
def checkCredentials (username password : Text) : Except CredentialPolicyError Text :=
  let username := trim username
  if username.isEmpty then .error .usernameRequired
  else if password.length < minPasswordChars then .error .passwordTooShort
  else .ok username

theorem toOption_checkCredentials (username password : Text) :
    (checkCredentials username password).toOption = validateCredentials username password := by
  unfold checkCredentials validateCredentials
  by_cases hname : (trim username).isEmpty
  · simp [hname, Except.toOption]
  · by_cases hlength : password.length < minPasswordChars
    · simp [hname, hlength, Except.toOption]
    · simp [hname, hlength, Except.toOption]

theorem checkCredentials_ok {username password name : Text}
    (h : checkCredentials username password = .ok name) : trim username = name := by
  unfold checkCredentials at h
  by_cases hname : (trim username).isEmpty
  · simp [hname] at h
  · by_cases hlength : password.length < minPasswordChars
    · simp [hname, hlength] at h
    · simpa [hname, hlength] using h

/-! ## Statements -/

/-- A statement, or several, on the store. -/
abbrev Sql := EStateM AccountError Store

/-- `SELECT … FROM users WHERE id = ?`. -/
def selectUser (id : Text) : Sql (Option User) := do
  return (← get).db.users.get? id

/-- `SELECT COUNT(*) FROM users`. -/
def countUsers : Sql ℕ := do
  return (← get).db.users.rows.length

/-- `INSERT INTO users`; `taken` is the error where a key is taken. -/
def insertUser (user : User) (taken : AccountError) : Sql Unit := do
  let store ← get
  if (store.db.users.get? user.id).isSome ||
      store.db.users.rows.any fun row => row.username = user.username then
    throw taken
  set { store with db := { store.db with users := store.db.users.put user } }

/-- The guarded `UPDATE` of `set_admin` and the number of rows it affects. -/
def updateAdmin (id : Text) (admin : Bool) : Sql ℕ := do
  let store ← get
  match store.db.users.get? id with
  | none => return 0
  | some user =>
    if admin || store.db.admins > 1 then
      set { store with db := { store.db with
        users := store.db.users.put { user with isAdmin := admin, authVersion := user.authVersion + 1 } } }
      return 1
    else return 0

/-- `secrets::delete_owner`. -/
def deleteOwner (ownerId : Text) : Sql Unit := do
  if ownerId.isEmpty then throw .emptyOwner
  let store ← get
  set { store with credentials := store.credentials.filter fun c => c.ownerId ≠ ownerId }

/-- The guarded `DELETE` of `delete_user`, which cascades to families. -/
def deleteUserRow (id : Text) : Sql ℕ := do
  let store ← get
  match store.db.users.get? id with
  | none => return 0
  | some user =>
    if !user.isAdmin || store.db.admins > 1 then
      set { store with
        db := ⟨store.db.users.erase id, store.db.families.filter fun family => family.userId ≠ id⟩ }
      return 1
    else return 0

/-! ## Functions -/

/-- The transaction of `complete_setup`. -/
def completeSetupBody (id username hash : Text) : Sql (Ending Unit) := do
  let users ← countUsers
  if users ≠ 0 then throw .alreadyCompleted
  insertUser ⟨id, username, hash, true, 1⟩ (.internal (lit "inserting initial administrator"))
  return .commit ()

/-- `complete_setup` (lines 351–391). -/
def completeSetup (id username password hash : Text) (store : Store) :
    Except AccountError Unit × Store :=
  match checkCredentials username password with
  | .error e => (.error (.invalidInput e), store)
  | .ok username => transaction (completeSetupBody id username hash) store

/-- The transaction of `set_admin`. -/
def setAdminBody (id : Text) (admin : Bool) : Sql (Ending SetAdmin) := do
  match ← selectUser id with
  | none => return .rollback .noSuchUser
  | some user =>
    if user.isAdmin = admin then return .rollback .unchanged
    let changed ← updateAdmin id admin
    if changed = 1 then return .commit .changed
    -- the transaction is dropped, and rolls back
    return .rollback .lastAdmin

/-- `set_admin` (lines 420–457). -/
def setAdmin (id : Text) (admin : Bool) (store : Store) : Except AccountError SetAdmin × Store :=
  transaction (setAdminBody id admin) store

/-- The transaction of `delete_user`. -/
def deleteUserBody (id : Text) : Sql (Ending DeleteUser) := do
  match ← selectUser id with
  | none => return .rollback .noSuchUser
  | some user =>
    deleteOwner id
    let changed ← deleteUserRow id
    if changed = 0 then return .rollback .lastAdmin
    return .commit (.deleted user.username)

/-- `delete_user` (lines 473–508). -/
def deleteUser (id : Text) (store : Store) : Except AccountError DeleteUser × Store :=
  transaction (deleteUserBody id) store

/-- The statement of `create_user`. -/
def createUserBody (id username hash : Text) (admin : Bool) : Sql (Ending Text) := do
  insertUser ⟨id, username, hash, admin, 1⟩ .usernameTaken
  return .commit id

/-- `create_user` (lines 513–541), whose answer is the new ID. -/
def createUser (id username password hash : Text) (admin : Bool) (store : Store) :
    Except AccountError Text × Store :=
  match checkCredentials username password with
  | .error e => (.error (.invalidInput e), store)
  | .ok username => transaction (createUserBody id username hash admin) store

/-- `reset_password` (lines 798–823). -/
def resetPassword (now : ℤ) (username password hash : Text) (store : Store) :
    Except AccountError Unit × Store :=
  match checkCredentials username password with
  | .error e => (.error (.invalidInput e), store)
  | .ok name =>
    match Auth.resetPassword now username password hash store.db with
    | none => (.error (.noSuchUser name), store)
    | some db => (.ok (), { store with db := db })

/-! ## What the transactions do -/

/-- The store after an account was inserted. -/
def Store.insert (store : Store) (user : User) : Store :=
  { store with db := { store.db with users := store.db.users.put user } }

/-- The store after the `UPDATE` of `set_admin`. -/
def Store.setAdmin (store : Store) (user : User) (admin : Bool) : Store :=
  { store with db := { store.db with
    users := store.db.users.put { user with isAdmin := admin, authVersion := user.authVersion + 1 } } }

/-- The store after the two statements of `delete_user`. -/
def Store.deleteUser (store : Store) (id : Text) : Store where
  db := ⟨store.db.users.erase id, store.db.families.filter fun family => family.userId ≠ id⟩
  credentials := store.credentials.filter fun c => c.ownerId ≠ id

@[simp] theorem selectUser_run (id : Text) (store : Store) :
    (selectUser id).run store = .ok (store.db.users.get? id) store := rfl

@[simp] theorem countUsers_run (store : Store) :
    countUsers.run store = .ok store.db.users.rows.length store := rfl

theorem updateAdmin_run {id : Text} {store : Store} {user : User} (admin : Bool)
    (hget : store.db.users.get? id = some user) :
    (updateAdmin id admin).run store =
      if admin ∨ 1 < store.db.admins then .ok 1 (store.setAdmin user admin) else .ok 0 store := by
  unfold updateAdmin
  simp only [EStateM.run_bind, EStateM.run_get, hget, Bool.or_eq_true, decide_eq_true_eq, gt_iff_lt]
  split
  · rfl
  · rfl

theorem deleteUserRow_run {id : Text} {store : Store} {user : User}
    (hget : store.db.users.get? id = some user) :
    (deleteUserRow id).run store =
      if user.isAdmin = false ∨ 1 < store.db.admins then
        .ok 1 { store with
          db := ⟨store.db.users.erase id, store.db.families.filter fun family => family.userId ≠ id⟩ }
      else .ok 0 store := by
  unfold deleteUserRow
  simp only [EStateM.run_bind, EStateM.run_get, hget, Bool.or_eq_true, Bool.not_eq_true',
    decide_eq_true_eq, gt_iff_lt]
  split
  · rfl
  · rfl

theorem deleteOwner_run (ownerId : Text) (store : Store) :
    (deleteOwner ownerId).run store =
      if ownerId.isEmpty then .error .emptyOwner store
      else .ok () { store with credentials := store.credentials.filter fun c => c.ownerId ≠ ownerId } := by
  unfold deleteOwner
  split
  · rfl
  · rfl

theorem insertUser_run (user : User) (taken : AccountError) (store : Store) :
    (insertUser user taken).run store =
      if (store.db.users.get? user.id).isSome ∨
          ∃ row ∈ store.db.users.rows, row.username = user.username then .error taken store
      else .ok () (store.insert user) := by
  unfold insertUser
  simp only [EStateM.run_bind, EStateM.run_get, Bool.or_eq_true, List.any_eq_true, decide_eq_true_eq]
  split
  · rfl
  · rfl

/-- Every way in which `set_admin` ends. -/
theorem setAdmin_cases (id : Text) (admin : Bool) (store : Store) :
    setAdmin id admin store = (.ok .noSuchUser, store) ∧ store.db.users.get? id = none ∨
    (∃ user, store.db.users.get? id = some user ∧
      (setAdmin id admin store = (.ok .unchanged, store) ∧ user.isAdmin = admin ∨
        setAdmin id admin store = (.ok .changed, store.setAdmin user admin) ∧
          user.isAdmin ≠ admin ∧ (admin ∨ 1 < store.db.admins) ∨
        setAdmin id admin store = (.ok .lastAdmin, store) ∧
          user.isAdmin ≠ admin ∧ ¬(admin ∨ 1 < store.db.admins))) := by
  cases hget : store.db.users.get? id with
  | none =>
    have hbody : (setAdminBody id admin).run store = .ok (.rollback .noSuchUser) store := by
      simp [setAdminBody, hget]
    exact Or.inl ⟨transaction_rolledBack hbody, rfl⟩
  | some user =>
    refine Or.inr ⟨user, rfl, ?_⟩
    by_cases hsame : user.isAdmin = admin
    · have hbody : (setAdminBody id admin).run store = .ok (.rollback .unchanged) store := by
        simp [setAdminBody, hget, hsame]
      exact Or.inl ⟨transaction_rolledBack hbody, hsame⟩
    · by_cases hguard : admin ∨ 1 < store.db.admins
      · have hbody : (setAdminBody id admin).run store =
            .ok (.commit .changed) (store.setAdmin user admin) := by
          simp [setAdminBody, hget, hsame, updateAdmin_run, hguard]
        exact Or.inr (Or.inl ⟨transaction_commit hbody, hsame, hguard⟩)
      · have hbody : (setAdminBody id admin).run store = .ok (.rollback .lastAdmin) store := by
          simp [setAdminBody, hget, hsame, updateAdmin_run, hguard]
        exact Or.inr (Or.inr ⟨transaction_rolledBack hbody, hsame, hguard⟩)

/-- Every way in which `delete_user` ends. -/
theorem deleteUser_cases (id : Text) (store : Store) :
    deleteUser id store = (.ok .noSuchUser, store) ∧ store.db.users.get? id = none ∨
    (∃ user, store.db.users.get? id = some user ∧
      (deleteUser id store = (.error .emptyOwner, store) ∧ id.isEmpty ∨
        deleteUser id store = (.ok (.deleted user.username), store.deleteUser id) ∧
          (user.isAdmin = false ∨ 1 < store.db.admins) ∨
        deleteUser id store = (.ok .lastAdmin, store) ∧
          ¬(user.isAdmin = false ∨ 1 < store.db.admins))) := by
  cases hget : store.db.users.get? id with
  | none =>
    have hbody : (deleteUserBody id).run store = .ok (.rollback .noSuchUser) store := by
      simp [deleteUserBody, hget]
    exact Or.inl ⟨transaction_rolledBack hbody, rfl⟩
  | some user =>
    refine Or.inr ⟨user, rfl, ?_⟩
    by_cases hempty : id.isEmpty
    · have hbody : (deleteUserBody id).run store = .error .emptyOwner store := by
        simp [deleteUserBody, hget, deleteOwner_run, hempty]
      exact Or.inl ⟨transaction_failed hbody, hempty⟩
    · by_cases hguard : user.isAdmin = false ∨ 1 < store.db.admins
      · have hbody : (deleteUserBody id).run store =
            .ok (.commit (.deleted user.username)) (store.deleteUser id) := by
          simp [deleteUserBody, hget, deleteOwner_run, hempty, deleteUserRow_run, hguard,
            Store.deleteUser]
        exact Or.inr (Or.inl ⟨transaction_commit hbody, hguard⟩)
      · have hbody : ∃ store', (deleteUserBody id).run store = .ok (.rollback .lastAdmin) store' := by
          simp [deleteUserBody, hget, deleteOwner_run, hempty, deleteUserRow_run, hguard]
        obtain ⟨_, hbody⟩ := hbody
        exact Or.inr (Or.inr ⟨transaction_rolledBack hbody, hguard⟩)

/-- `complete_setup` fails or inserts an administrator into the empty table. -/
theorem completeSetup_cases (id username password hash : Text) (store : Store) :
    (∃ e, completeSetup id username password hash store = (.error e, store)) ∧
      Auth.createUser id username password hash true true store.db = none ∨
    store.db.users.rows = [] ∧
      completeSetup id username password hash store =
        (.ok (), store.insert ⟨id, trim username, hash, true, 1⟩) ∧
      Auth.createUser id username password hash true true store.db =
        some (store.insert ⟨id, trim username, hash, true, 1⟩).db := by
  unfold completeSetup Auth.createUser
  rw [← toOption_checkCredentials]
  cases hcheck : checkCredentials username password with
  | error e => exact Or.inl ⟨⟨_, rfl⟩, rfl⟩
  | ok name =>
    obtain rfl := checkCredentials_ok hcheck
    by_cases hrows : store.db.users.rows = []
    · have hfree : store.db.users.get? id = none := Table.get?_eq_none.mpr <| by
        simp [Table.mem_def, hrows]
      have hbody : (completeSetupBody id (trim username) hash).run store =
          .ok (.commit ()) (store.insert ⟨id, trim username, hash, true, 1⟩) := by
        unfold completeSetupBody
        simp only [EStateM.run_bind, countUsers_run, hrows, List.length_nil, ne_eq, not_true_eq_false,
          ↓reduceIte, insertUser_run, hfree]
        simp
      refine Or.inr ⟨hrows, transaction_commit hbody, ?_⟩
      simp [Except.toOption, hrows, hfree, Store.insert]
    · have hbody : (completeSetupBody id (trim username) hash).run store =
          .error .alreadyCompleted store := by
        simp [completeSetupBody, hrows]
      refine Or.inl ⟨⟨.alreadyCompleted, transaction_failed hbody⟩, ?_⟩
      simp [Except.toOption, hrows]

/-- `create_user` fails or inserts a row. -/
theorem createUser_cases (id username password hash : Text) (admin : Bool) (store : Store) :
    (∃ e, createUser id username password hash admin store = (.error e, store)) ∧
      Auth.createUser id username password hash admin false store.db = none ∨
    store.db.users.get? id = none ∧
      createUser id username password hash admin store =
        (.ok id, store.insert ⟨id, trim username, hash, admin, 1⟩) ∧
      Auth.createUser id username password hash admin false store.db =
        some (store.insert ⟨id, trim username, hash, admin, 1⟩).db := by
  unfold createUser Auth.createUser
  rw [← toOption_checkCredentials]
  cases hcheck : checkCredentials username password with
  | error e => exact Or.inl ⟨⟨_, rfl⟩, rfl⟩
  | ok name =>
    obtain rfl := checkCredentials_ok hcheck
    by_cases htaken : (store.db.users.get? id).isSome ∨
        ∃ row ∈ store.db.users.rows, row.username = trim username
    · have hbody : (createUserBody id (trim username) hash admin).run store =
          .error .usernameTaken store := by
        unfold createUserBody
        simp only [EStateM.run_bind, insertUser_run, htaken, ↓reduceIte]
      refine Or.inl ⟨⟨.usernameTaken, transaction_failed hbody⟩, ?_⟩
      simp [Except.toOption, htaken]
    · have hbody : (createUserBody id (trim username) hash admin).run store =
          .ok (.commit id) (store.insert ⟨id, trim username, hash, admin, 1⟩) := by
        unfold createUserBody
        simp only [EStateM.run_bind, insertUser_run, htaken, ↓reduceIte, EStateM.run_pure]
      have hfree : store.db.users.get? id = none := by
        simpa using fun h => htaken (Or.inl h)
      refine Or.inr ⟨hfree, transaction_commit hbody, ?_⟩
      simp [Except.toOption, htaken, Store.insert]

/-- `reset_password` fails or does what that of `Hub.Auth` does. -/
theorem resetPassword_cases (now : ℤ) (username password hash : Text) (store : Store) :
    (∃ e, resetPassword now username password hash store = (.error e, store)) ∨
    ∃ db, Auth.resetPassword now username password hash store.db = some db ∧
      resetPassword now username password hash store = (.ok (), { store with db := db }) := by
  unfold resetPassword
  cases hcheck : checkCredentials username password with
  | error e => exact Or.inl ⟨_, rfl⟩
  | ok name =>
    cases hreset : Auth.resetPassword now username password hash store.db with
    | none => exact Or.inl ⟨_, rfl⟩
    | some db => exact Or.inr ⟨db, rfl, rfl⟩

/-! ## The tables of `Hub.Auth` -/

theorem db_setAdmin (id : Text) (admin : Bool) (store : Store) :
    (setAdmin id admin store).2.db = Auth.setAdmin id admin store.db := by
  unfold Auth.setAdmin
  rcases setAdmin_cases id admin store with
    ⟨h, hget⟩ | ⟨user, hget, ⟨h, hsame⟩ | ⟨h, hother, hguard⟩ | ⟨h, hother, hguard⟩⟩
  · simp [h, hget]
  · simp [h, hget, hsame]
  · simp [h, hget, hother, hguard, Store.setAdmin]
  · simp [h, hget, hother, hguard]

theorem db_deleteUser {id : Text} (hid : id ≠ []) (store : Store) :
    (deleteUser id store).2.db = Auth.deleteUser id store.db := by
  unfold Auth.deleteUser
  rcases deleteUser_cases id store with
    ⟨h, hget⟩ | ⟨user, hget, ⟨h, hempty⟩ | ⟨h, hguard⟩ | ⟨h, hguard⟩⟩
  · simp [h, hget]
  · exact absurd (List.isEmpty_iff.mp hempty) hid
  · simp [h, hget, hguard, Store.deleteUser]
  · simp [h, hget, hguard]

theorem db_createUser (id username password hash : Text) (admin : Bool) (store : Store) :
    (createUser id username password hash admin store).2.db =
      (Auth.createUser id username password hash admin false store.db).getD store.db := by
  rcases createUser_cases id username password hash admin store with
    ⟨⟨e, h⟩, hnone⟩ | ⟨-, h, hsome⟩
  · rw [h, hnone, Option.getD_none]
  · rw [h, hsome, Option.getD_some]

theorem db_completeSetup (id username password hash : Text) (store : Store) :
    (completeSetup id username password hash store).2.db =
      (Auth.createUser id username password hash true true store.db).getD store.db := by
  rcases completeSetup_cases id username password hash store with
    ⟨⟨e, h⟩, hnone⟩ | ⟨-, h, hsome⟩
  · rw [h, hnone, Option.getD_none]
  · rw [h, hsome, Option.getD_some]

/-! ## Counting administrators -/

theorem admins_insert {store : Store} {user : User} (h : store.db.users.get? user.id = none) :
    (store.insert user).db.admins = store.db.admins + if user.isAdmin then 1 else 0 := by
  have hrows : (store.db.users.erase user.id).rows = store.db.users.rows := by
    rw [Table.rows_erase]
    exact List.filter_eq_self.mpr fun row hrow => by simpa using Table.get?_eq_none.mp h row hrow
  rw [Db.admins, Store.insert, Table.countP_put, hrows]
  rfl

/-- The guard of `set_admin` suffices. -/
theorem admins_setAdmin {store : Store} {id : Text} {user : User} {admin : Bool}
    (hget : store.db.users.get? id = some user) (hother : user.isAdmin ≠ admin)
    (hguard : admin ∨ 1 < store.db.admins) : 0 < (store.setAdmin user admin).db.admins := by
  have hnew : (store.setAdmin user admin).db.admins =
      (store.db.users.erase user.id).rows.countP User.isAdmin + if admin then 1 else 0 :=
    Table.countP_put _ _ _
  have hold := Table.countP_erase (Table.get?_mem hget) User.isAdmin
  rw [hnew]
  cases admin with
  | true => simp
  | false =>
    simp only [Bool.false_eq_true, false_or, Db.admins, hold] at hguard
    split at hguard <;> omega

/-- The guard of `delete_user` suffices. -/
theorem admins_deleteUser {store : Store} {id : Text} {user : User} (h : 0 < store.db.admins)
    (hget : store.db.users.get? id = some user)
    (hguard : user.isAdmin = false ∨ 1 < store.db.admins) :
    0 < (store.deleteUser id).db.admins := by
  have hold := Table.countP_erase (Table.get?_mem hget) User.isAdmin
  rw [Table.get?_key hget] at hold
  show 0 < (store.db.users.erase id).rows.countP User.isAdmin
  simp only [Db.admins, hold] at h hguard
  rcases hguard with hplain | hmany
  · simpa [hplain] using h
  · split at hmany <;> omega

theorem admins_resetPassword {now : ℤ} {username password hash : Text} {db db' : Db}
    (h : Auth.resetPassword now username password hash db = some db') :
    db'.admins = db.admins := by
  unfold Auth.resetPassword at h
  cases hvalid : validateCredentials username password with
  | none => simp [hvalid] at h
  | some name =>
    cases hfind : db.users.rows.find? fun user => user.username = name with
    | none => simp [hvalid, hfind] at h
    | some user =>
      simp only [hvalid, hfind, Option.some.injEq] at h
      subst h
      have hold := Table.countP_erase (t := db.users) (List.mem_of_find?_eq_some hfind) User.isAdmin
      rw [Db.admins, Db.admins, hold]
      exact Table.countP_put _ _ _

/-! ## Runs -/

/-- The database, the flag `setup_required`, and how many setups have committed. -/
structure Service where
  store : Store
  setupRequired : Bool
  completed : ℕ

/-- A call. IDs and the salted hash of a password are part of it. -/
inductive Call
  | completeSetup (id username password hash : Text)
  | createUser (id username password hash : Text) (admin : Bool)
  | setAdmin (id : Text) (admin : Bool)
  | deleteUser (id : Text)
  | resetPassword (now : ℤ) (username password hash : Text)

/-- The state after a call. Each call is one step, since it is one statement or
    one immediate transaction. -/
def Service.next (s : Service) : Call → Option Service
  | .completeSetup id username password hash =>
    match Accounts.completeSetup id username password hash s.store with
    | (.ok (), store) => some ⟨store, false, s.completed + 1⟩
    | (.error _, store) => some { s with store := store }
  | .createUser id username password hash admin =>
    some { s with store := (Accounts.createUser id username password hash admin s.store).2 }
  | .setAdmin id admin => some { s with store := (Accounts.setAdmin id admin s.store).2 }
  | .deleteUser id => some { s with store := (Accounts.deleteUser id s.store).2 }
  | .resetPassword now username password hash =>
    some { s with store := (Accounts.resetPassword now username password hash s.store).2 }

/-- All interleavings of calls on a hub that starts with these tables. -/
def machine (start : Store) : Machine Service Call :=
  ⟨⟨start, start.db.users.rows.isEmpty, 0⟩, Service.next⟩

/-- Either no setup has committed, or one has and there is an administrator. -/
def Service.Administered (s : Service) : Prop :=
  s.completed = 0 ∨ s.completed = 1 ∧ s.setupRequired = false ∧ 0 < s.store.db.admins

/-- It is enough that a call which keeps the count of setups keeps an administrator. -/
theorem Service.Administered.of_admins {s : Service} {store : Store} (h : s.Administered)
    (hadmins : 0 < s.store.db.admins → 0 < store.db.admins) :
    { s with store := store }.Administered := by
  rcases h with hnone | ⟨hone, hflag, hpos⟩
  · exact Or.inl hnone
  · exact Or.inr ⟨hone, hflag, hadmins hpos⟩

theorem administered_completeSetup {s s' : Service} {id username password hash : Text}
    (h : s.Administered) (hs : s.next (.completeSetup id username password hash) = some s') :
    s'.Administered := by
  simp only [Service.next] at hs
  rcases completeSetup_cases id username password hash s.store with
    ⟨⟨e, hrun⟩, -⟩ | ⟨hempty, hrun, -⟩
  · rw [hrun] at hs
    cases hs
    exact h
  · rw [hrun] at hs
    cases hs
    have hadmins : s.store.db.admins = 0 := by rw [Db.admins, hempty, List.countP_nil]
    have hnone : s.completed = 0 := by
      rcases h with hnone | ⟨-, -, hpos⟩
      · exact hnone
      · omega
    have hfree : s.store.db.users.get? id = none := Table.get?_eq_none.mpr <| by
      simp [Table.mem_def, hempty]
    refine Or.inr ⟨by rw [hnone], rfl, ?_⟩
    rw [admins_insert hfree]
    simp

theorem admins_createUser {store : Store} (id username password hash : Text) (admin : Bool)
    (h : 0 < store.db.admins) :
    0 < (createUser id username password hash admin store).2.db.admins := by
  rcases createUser_cases id username password hash admin store with
    ⟨⟨e, hrun⟩, -⟩ | ⟨hfree, hrun, -⟩
  · rwa [hrun]
  · rw [hrun, admins_insert hfree]
    omega

/-- A call keeps the invariant. -/
theorem administered_next {s s' : Service} {call : Call} (h : s.Administered)
    (hs : s.next call = some s') : s'.Administered := by
  cases call with
  | completeSetup id username password hash => exact administered_completeSetup h hs
  | createUser id username password hash admin =>
    cases hs
    exact h.of_admins (admins_createUser id username password hash admin)
  | setAdmin id admin =>
    cases hs
    refine h.of_admins fun hpos => ?_
    rcases setAdmin_cases id admin s.store with
      ⟨hrun, -⟩ | ⟨user, hget, ⟨hrun, -⟩ | ⟨hrun, hother, hguard⟩ | ⟨hrun, -⟩⟩
    · rwa [hrun]
    · rwa [hrun]
    · rw [hrun]
      exact admins_setAdmin hget hother hguard
    · rwa [hrun]
  | deleteUser id =>
    cases hs
    refine h.of_admins fun hpos => ?_
    rcases deleteUser_cases id s.store with
      ⟨hrun, -⟩ | ⟨user, hget, ⟨hrun, -⟩ | ⟨hrun, hguard⟩ | ⟨hrun, -⟩⟩
    · rwa [hrun]
    · rwa [hrun]
    · rw [hrun]
      exact admins_deleteUser hpos hget hguard
    · rwa [hrun]
  | resetPassword now username password hash =>
    cases hs
    refine h.of_admins fun hpos => ?_
    rcases resetPassword_cases now username password hash s.store with
      ⟨e, hrun⟩ | ⟨db, hreset, hrun⟩
    · rwa [hrun]
    · rw [hrun]
      exact (admins_resetPassword hreset).symm ▸ hpos

theorem administered_of_reachable {start : Store} {s : Service} (h : (machine start).Reachable s) :
    s.Administered :=
  h.invariant (Or.inl rfl) fun ha _ he => administered_next ha he

/-! ## Refusals -/

theorem setAdmin_refused {id : Text} {admin : Bool} {store : Store} {answer : SetAdmin}
    (h : (setAdmin id admin store).1 = .ok answer) (hanswer : answer ≠ .changed) :
    (setAdmin id admin store).2 = store := by
  rcases setAdmin_cases id admin store with
    ⟨hrun, -⟩ | ⟨user, -, ⟨hrun, -⟩ | ⟨hrun, -⟩ | ⟨hrun, -⟩⟩
  · rw [hrun]
  · rw [hrun]
  · rw [hrun] at h
    cases h
    exact absurd rfl hanswer
  · rw [hrun]

theorem deleteUser_refused {id : Text} {store : Store} {answer : DeleteUser}
    (h : (deleteUser id store).1 = .ok answer)
    (hanswer : answer = .noSuchUser ∨ answer = .lastAdmin) : (deleteUser id store).2 = store := by
  rcases deleteUser_cases id store with
    ⟨hrun, -⟩ | ⟨user, -, ⟨hrun, -⟩ | ⟨hrun, -⟩ | ⟨hrun, -⟩⟩
  · rw [hrun]
  · rw [hrun]
  · rw [hrun] at h
    cases h
    simp at hanswer
  · rw [hrun]

/-- Once a setup has committed there is an administrator, no other setup
    succeeds, and a refusal leaves every table as it was. -/
theorem administrator_remains (start : Store) {s : Service} (h : (machine start).Reachable s)
    (hdone : 0 < s.completed) :
    (∃ user ∈ s.store.db.users, user.isAdmin = true) ∧ s.completed = 1 ∧
    (∀ id username password hash, (completeSetup id username password hash s.store).1 ≠ .ok ()) ∧
    (∀ id admin answer, (setAdmin id admin s.store).1 = .ok answer →
      answer = .lastAdmin ∨ answer = .noSuchUser ∨ answer = .unchanged →
      (setAdmin id admin s.store).2 = s.store) ∧
    ∀ id answer, (deleteUser id s.store).1 = .ok answer →
      answer = .lastAdmin ∨ answer = .noSuchUser → (deleteUser id s.store).2 = s.store := by
  rcases administered_of_reachable h with hnone | ⟨hone, -, hpos⟩
  · omega
  have hadmin : ∃ user ∈ s.store.db.users, user.isAdmin = true := List.countP_pos_iff.mp hpos
  refine ⟨hadmin, hone, ?_, ?_, ?_⟩
  · intro id username password hash
    rcases completeSetup_cases id username password hash s.store with
      ⟨⟨e, hrun⟩, -⟩ | ⟨hempty, -⟩
    · simp [hrun]
    · obtain ⟨user, huser, -⟩ := hadmin
      simp [Table.mem_def, hempty] at huser
  · rintro id admin answer hanswer (rfl | rfl | rfl)
    · exact setAdmin_refused hanswer (by decide)
    · exact setAdmin_refused hanswer (by decide)
    · exact setAdmin_refused hanswer (by decide)
  · intro id answer hanswer hrefused
    exact deleteUser_refused hanswer hrefused.symm

/-- A setup, and a demotion of the only administrator, which is refused. -/
theorem administrator_remains_after_demotion :
    ∃ s, (machine ⟨⟨Table.empty, Table.empty⟩, Table.empty⟩).Reachable s ∧ s.completed = 1 ∧
      (setAdmin (lit "a") false s.store).1 = .ok .lastAdmin ∧
      (setAdmin (lit "a") false s.store).2 = s.store := by
  let start : Store := ⟨⟨Table.empty, Table.empty⟩, Table.empty⟩
  let s : Service := ⟨start.insert ⟨lit "a", lit "root", lit "hash", true, 1⟩, false, 1⟩
  have hstart : (machine start).Reachable (machine start).start := Machine.Reaches.start
  have hreach : (machine start).Reachable s :=
    hstart.next
      (e := .completeSetup (lit "a") (lit "root") (lit "a long password") (lit "hash")) trivial (by rfl)
  have hrefused : (setAdmin (lit "a") false s.store).1 = .ok .lastAdmin := by rfl
  have hall := administrator_remains start hreach (by decide)
  exact ⟨s, hreach, rfl, hrefused, hall.2.2.2.1 (lit "a") false .lastAdmin hrefused (Or.inl rfl)⟩

end Kahawai.Hub.Auth.Accounts
