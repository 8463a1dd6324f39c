import Kahawai.Core.Text
import Kahawai.Lib.Runs
import Kahawai.Lib.Table

/-!
# Accounts and sessions

Model of `crates/kahawai-hub/src/auth.rs`: the tables `users` and
`refresh_families`, the functions that read and write them, and the requests of
many clients as a machine. A function that is one statement or one transaction
is one event; a login is two, since it reads the account before it verifies the
password and inserts the family afterwards.

`hash_token` (SHA-256) and `verify_password` (Argon2) are parameters, and the
random secrets and the salted hash of a new password are arguments of the
events. A bearer is modelled by the claims that `jsonwebtoken::decode` finds in
it. Credentials of providers and the throttle are left out.
-/

namespace Kahawai.Hub.Auth

open Kahawai.Core Kahawai.Core.Text Kahawai.Lib

/-! ## Tables -/

/-- A row of `users`. -/
structure User where
  id : Text
  username : Text
  passwordHash : Text
  isAdmin : Bool
  authVersion : ℕ
  deriving DecidableEq

/-- A row of `refresh_families`. -/
structure Family where
  id : Text
  userId : Text
  currentTokenHash : Text
  previousTokenHash : Option Text
  expiresAt : ℤ
  revokedAt : Option ℤ
  deriving DecidableEq

structure Db where
  users : Table User.id
  families : Table Family.id

/-- `struct Claims`. -/
structure Claims where
  sub : Text
  username : Text
  admin : Bool
  authVersion : ℕ
  exp : ℤ
  iss : Text
  aud : Text
  tokenType : Text
  deriving DecidableEq

/-- `struct TokenPair`, but for the constant `expires_in`. -/
structure TokenPair where
  accessToken : Claims
  refreshToken : Text
  deriving DecidableEq

/-- `enum RefreshError`. -/
inductive RefreshError
  | invalid
  | internal
  deriving DecidableEq

def accessTtlSecs : ℤ := 15 * 60

def refreshTtlSecs : ℤ := 30 * 24 * 3600

def minPasswordChars : ℕ := 12

def accessTokenIssuer : Text := lit "urn:kahawai:hub"

def accessTokenAudience : Text := lit "urn:kahawai:api"

def accessTokenType : Text := lit "access"

/-- `Validation::leeway`, which is not changed. -/
def leeway : ℤ := 60

/-! ## Refresh tokens -/

/-- The closure `is_lower_hex` of `parse_refresh_token`. -/
def isLowerHex (s : Text) (len : ℕ) : Bool :=
  s.length = len && s.all fun c => isAsciiDigit c || ('a' ≤ c && c ≤ 'f')

/-- `make_refresh_token` (lines 238–242) with its random secret. -/
def makeRefreshToken (familyId secret : Text) : Text :=
  lit "v1." ++ familyId ++ ['.'] ++ secret

/-- The family selector of a well-formed token. -/
def selector? (token : Text) : Option Text :=
  match split (· = '.') token with
  | [version, familyId, secret] =>
    if version = lit "v1" && isLowerHex familyId 32 && isLowerHex secret 64 then some familyId
    else none
  | _ => none

/-- `parse_refresh_token` (lines 244–261). -/
def parseRefreshToken (hashToken : Text → Text) (token : Text) : Option (Text × Text) :=
  (selector? token).map fun familyId => (familyId, hashToken token)

/-! ## Families -/

/-- The presented hash is one of the two that the row holds. -/
def Family.names (family : Family) (presented : Text) : Bool :=
  family.currentTokenHash = presented || family.previousTokenHash = some presented

/-- The family is neither revoked nor expired. -/
def Family.live (family : Family) (now : ℤ) : Bool :=
  family.revokedAt.isNone && now ≤ family.expiresAt

/-- The columns that a rotation writes. -/
def Family.rotate (family : Family) (nextHash : Text) (now : ℤ) : Family :=
  { family with
    previousTokenHash := some family.currentTokenHash
    currentTokenHash := nextHash
    expiresAt := now + refreshTtlSecs }

def Family.revoke (family : Family) (now : ℤ) : Family := { family with revokedAt := some now }

@[simp] theorem Family.id_rotate (family : Family) (nextHash : Text) (now : ℤ) :
    (family.rotate nextHash now).id = family.id := rfl

@[simp] theorem Family.id_revoke (family : Family) (now : ℤ) : (family.revoke now).id = family.id :=
  rfl

/-! ## Functions -/

/-- `issue_access_token` (lines 708–730). -/
def issueAccessToken (now : ℤ) (user : User) : Claims where
  sub := user.id
  username := user.username
  admin := user.isAdmin
  authVersion := user.authVersion
  exp := now + accessTtlSecs
  iss := accessTokenIssuer
  aud := accessTokenAudience
  tokenType := accessTokenType

/-- `UNIQUE` of `current_token_hash`. -/
def Db.hashTaken (db : Db) (familyId hash : Text) : Bool :=
  db.families.rows.any fun family => family.id ≠ familyId && family.currentTokenHash = hash

/-- Change the rows of `refresh_families` that satisfy `p`. -/
def Db.revokeWhere (p : Family → Bool) (now : ℤ) (db : Db) : Db :=
  { db with
    families := db.families.mapRows (fun family => if p family then family.revoke now else family)
      fun family => by split <;> rfl }

/-- `refresh` (lines 588–678). An error rolls the transaction back, except that a
    replay commits the revocation. -/
def refresh (hashToken : Text → Text) (now : ℤ) (secret token : Text) (db : Db) :
    Except RefreshError TokenPair × Db :=
  match parseRefreshToken hashToken token with
  | none => (.error .invalid, db)
  | some (familyId, presented) =>
    match db.families.get? familyId with
    | none => (.error .invalid, db)
    | some family =>
      let nextToken := makeRefreshToken familyId secret
      if family.live now && family.names presented then
        if db.hashTaken familyId (hashToken nextToken) then (.error .internal, db)
        else
          match db.users.get? family.userId with
          | none => (.error .internal, db)
          | some user =>
            (.ok ⟨issueAccessToken now user, nextToken⟩,
              { db with families := db.families.put (family.rotate (hashToken nextToken) now) })
      else if family.live now then
        (.error .invalid, db.revokeWhere (fun row => row.id = familyId) now)
      else (.error .invalid, db)

/-- The first statement of `login` (lines 543–549), whose row the password is
    verified against. -/
def loginRow (username : Text) (db : Db) : Option User :=
  db.users.rows.find? fun user => user.username = trim username

/-- `issue_tokens` (lines 680–706) for the row that `login` has read. The insert
    needs its user and new keys. -/
def issueTokens (hashToken : Text → Text) (now : ℤ) (familyId secret : Text) (user : User)
    (db : Db) : Option (TokenPair × Db) :=
  let token := makeRefreshToken familyId secret
  if (db.users.get? user.id).isNone || (db.families.get? familyId).isSome ||
      db.hashTaken familyId (hashToken token) then none
  else
    some (⟨issueAccessToken now user, token⟩,
      { db with
        families := db.families.put
          ⟨familyId, user.id, hashToken token, none, now + refreshTtlSecs, none⟩ })

/-- `logout` (lines 736–751). -/
def logout (hashToken : Text → Text) (now : ℤ) (userId token : Text) (db : Db) : Db :=
  match parseRefreshToken hashToken token with
  | none => db
  | some (familyId, presented) =>
    db.revokeWhere
      (fun family => family.id = familyId && family.userId = userId &&
        family.currentTokenHash = presented && family.revokedAt.isNone) now

/-- `authenticate` (lines 759–793). -/
def authenticate (now : ℤ) (token : Claims) (db : Db) : Option Claims :=
  if token.exp < now - leeway || token.iss ≠ accessTokenIssuer ||
      token.aud ≠ accessTokenAudience || token.tokenType ≠ accessTokenType then none
  else
    match db.users.get? token.sub with
    | none => none
    | some user =>
      if token.authVersion = user.authVersion then
        some { token with
          username := user.username
          admin := user.isAdmin
          authVersion := user.authVersion }
      else none

/-- `validate_credentials` (lines 262–274). -/
def validateCredentials (username password : Text) : Option Text :=
  let username := trim username
  if username.isEmpty || password.length < minPasswordChars then none else some username

/-- `reset_password` (lines 798–823); `hash` is that of the new password. -/
def resetPassword (now : ℤ) (username password hash : Text) (db : Db) : Option Db :=
  match validateCredentials username password with
  | none => none
  | some username =>
    match db.users.rows.find? fun user => user.username = username with
    | none => none
    | some user =>
      some (({ db with
        users := db.users.put
          { user with passwordHash := hash, authVersion := user.authVersion + 1 } } : Db).revokeWhere
        (fun family => family.userId = user.id) now)

/-- `create_user` (lines 513–541) and `complete_setup` (lines 351–391), which
    creates an administrator and only when there is no user. -/
def createUser (id username password hash : Text) (admin setup : Bool) (db : Db) : Option Db :=
  match validateCredentials username password with
  | none => none
  | some username =>
    if setup && !db.users.rows.isEmpty then none
    else if (db.users.get? id).isSome || db.users.rows.any fun user => user.username = username then
      none
    else some { db with users := db.users.put ⟨id, username, hash, setup || admin, 1⟩ }

/-- The number of administrators. -/
def Db.admins (db : Db) : ℕ := db.users.rows.countP User.isAdmin

/-- `set_admin` (lines 420–457). -/
def setAdmin (id : Text) (admin : Bool) (db : Db) : Db :=
  match db.users.get? id with
  | none => db
  | some user =>
    if user.isAdmin = admin then db
    else if admin || db.admins > 1 then
      { db with
        users := db.users.put { user with isAdmin := admin, authVersion := user.authVersion + 1 } }
    else db

/-- `delete_user` (lines 473–508). Families go with their user. -/
def deleteUser (id : Text) (db : Db) : Db :=
  match db.users.get? id with
  | none => db
  | some user =>
    if !user.isAdmin || db.admins > 1 then
      { users := db.users.erase id, families := db.families.filter fun family => family.userId ≠ id }
    else db

/-- The statement of `Auth::new` that removes expired families (lines 312–315). -/
def pruneExpired (now : ℤ) (db : Db) : Db :=
  { db with families := db.families.filter fun family => !decide (family.expiresAt < now) }

/-! ## Requests -/

/-- A login whose password has been verified against the row it read. `resets` is
    how often the password had been reset by then. -/
structure Login where
  user : User
  resets : ℕ
  deriving DecidableEq

/-- A pair of tokens that was handed out, and its family. -/
structure Issued where
  family : Text
  pair : TokenPair
  deriving DecidableEq

/-- The tables, the clock and the logins between their two statements. The last
    four fields are the history: the pairs handed out (the newest first), the
    login that began a family, the resets of an account, and the IDs of all
    accounts there have been. -/
structure System where
  now : ℤ
  db : Db
  logins : List Login
  issued : List Issued
  began : Text → Option Login
  resets : Text → ℕ
  accounts : List Text

/-- What can happen. Random bytes and the salted hash of a password are part of
    the event. -/
inductive Event
  | tick (seconds : ℕ)
  | createUser (id username password hash : Text) (admin setup : Bool)
  | setAdmin (id : Text) (admin : Bool)
  | deleteUser (id : Text)
  | resetPassword (username password hash : Text)
  | loginRead (username password : Text)
  | loginIssue (place : ℕ) (familyId secret : Text)
  | refresh (token secret : Text)
  | logout (userId token : Text)
  | prune

namespace System

variable (hashToken : Text → Text) (verifyPassword : Text → Text → Bool)

/-- A secret that makes a token nobody has been given. -/
def freshSecret (s : System) (familyId secret : Text) : Bool :=
  isLowerHex secret 64 &&
    !s.issued.any fun i => i.pair.refreshToken = makeRefreshToken familyId secret

/-- The request `reset_password`. -/
def reset (username password hash : Text) (s : System) : System :=
  match Auth.resetPassword s.now username password hash s.db, loginRow username s.db with
  | some db, some user =>
    { s with db := db, resets := Function.update s.resets user.id (s.resets user.id + 1) }
  | _, _ => s

/-- The second statement of a login. -/
def issue (place : ℕ) (familyId secret : Text) (s : System) : Option System :=
  match s.logins[place]? with
  | none => none
  | some login =>
    if !isLowerHex familyId 32 || (s.began familyId).isSome || !s.freshSecret familyId secret then
      none
    else
      match issueTokens hashToken s.now familyId secret login.user s.db with
      | none => some { s with logins := s.logins.eraseIdx place }
      | some (pair, db) =>
        some { s with
          db := db
          logins := s.logins.eraseIdx place
          issued := ⟨familyId, pair⟩ :: s.issued
          began := Function.update s.began familyId (some login) }

/-- The request `refresh`. -/
def present (token secret : Text) (s : System) : Option System :=
  if !s.freshSecret ((selector? token).getD []) secret then none
  else
    match Auth.refresh hashToken s.now secret token s.db with
    | (.error _, db) => some { s with db := db }
    | (.ok pair, db) =>
      some { s with db := db, issued := ⟨(selector? token).getD [], pair⟩ :: s.issued }

/-- The state after an event, or `none` where it cannot happen. -/
def next (s : System) : Event → Option System
  | .tick seconds => some { s with now := s.now + seconds }
  | .createUser id username password hash admin setup =>
    if s.accounts.contains id then none
    else
      match Auth.createUser id username password hash admin setup s.db with
      | none => some s
      | some db => some { s with db := db, accounts := id :: s.accounts }
  | .setAdmin id admin => some { s with db := Auth.setAdmin id admin s.db }
  | .deleteUser id => some { s with db := Auth.deleteUser id s.db }
  | .resetPassword username password hash => some (s.reset username password hash)
  | .loginRead username password =>
    match loginRow username s.db with
    | none => some s
    | some user =>
      if verifyPassword password user.passwordHash then
        some { s with logins := s.logins ++ [⟨user, s.resets user.id⟩] }
      else some s
  | .loginIssue place familyId secret => s.issue hashToken place familyId secret
  | .refresh token secret => s.present hashToken token secret
  | .logout userId token => some { s with db := Auth.logout hashToken s.now userId token s.db }
  | .prune => some { s with db := pruneExpired s.now s.db }

end System

/-- The hub before its first account. -/
def emptyHub (now : ℤ) : System :=
  ⟨now, ⟨Table.empty, Table.empty⟩, [], [], fun _ => none, fun _ => 0, []⟩

/-- All runs of requests. -/
def machine (hashToken : Text → Text) (verifyPassword : Text → Text → Bool) (now : ℤ) :
    Machine System Event :=
  ⟨emptyHub now, System.next hashToken verifyPassword⟩

end Kahawai.Hub.Auth
