import Kahawai.Hub.Auth.Families

/-!
# Password resets

`reset_password` raises the account's `auth_version` and revokes its families in
one transaction. An access token of the old password has an older version, and
`Ended` says that a family which is not revoked began with a login that read the
account after its last reset. A login reads the account in one statement and
inserts its family in another: a reset between the two leaves a family that the
reset did not see.

Main results:

* `reset_ends`: nothing obtained with the old password is accepted, in every run
  in which no login inserts its family after a reset that it did not see.
* `not_reset_ends`: a login in flight during a reset keeps its refresh token.
-/

namespace Kahawai.Hub.Auth

open Kahawai.Core Kahawai.Core.Text Kahawai.Lib

variable {hashToken : Text → Text} {verifyPassword : Text → Text → Bool} {start : ℤ}
  {s s' : System}

/-! ## Statement -/

/-- Neither token of a pair is accepted if the login that began its family
    verified a password that was reset since. -/
def ResetEnds (hashToken : Text → Text) (s : System) : Prop :=
  ∀ i ∈ s.issued, ∀ login, s.began i.family = some login →
    login.resets < s.resets login.user.id →
    authenticate s.now i.pair.accessToken s.db = none ∧ ¬ s.Accepts hashToken i.pair.refreshToken

/-- A login that inserts its family has read the account since its last reset,
    unless the account is gone and the insert fails. -/
def Prompt (s : System) : Event → Prop
  | .loginIssue place _ _ => ∀ login, s.logins[place]? = some login →
    (s.db.users.get? login.user.id).isSome → login.resets = s.resets login.user.id
  | _ => True

/-! ## Versions -/

/-- What an event does to the accounts. -/
inductive Alters (s s' : System) : Prop
  | same (husers : s'.db.users = s.db.users) (hresets : s'.resets = s.resets)
      (haccounts : s'.accounts = s.accounts)
  | created (user : User) (hnew : user.id ∉ s.accounts)
      (husers : s'.db.users = s.db.users.put user) (hresets : s'.resets = s.resets)
      (haccounts : s'.accounts = user.id :: s.accounts)
  /-- The version is raised. -/
  | changed (user user' : User) (huser : user ∈ s.db.users) (hid : user'.id = user.id)
      (hversion : user'.authVersion = user.authVersion + 1)
      (husers : s'.db.users = s.db.users.put user')
      (hresets : ∀ id, id ≠ user.id → s'.resets id = s.resets id)
      (haccounts : s'.accounts = s.accounts)
  | deleted (id : Text) (husers : s'.db.users = s.db.users.erase id)
      (hresets : s'.resets = s.resets) (haccounts : s'.accounts = s.accounts)

/-- A version of an account is at most the row's, and equal to it only if the
    password has been reset `resets` times. -/
structure Dated (s : System) (userId : Text) (version resets : ℕ) : Prop where
  known : userId ∈ s.accounts
  le : ∀ user, s.db.users.get? userId = some user → version ≤ user.authVersion
  resets_eq : ∀ user, s.db.users.get? userId = some user → version = user.authVersion →
    resets = s.resets userId

theorem Alters.dated (h : Alters s s') {userId : Text} {version resets : ℕ}
    (hdated : Dated s userId version resets) : Dated s' userId version resets := by
  cases h with
  | same husers hresets haccounts =>
    exact ⟨haccounts ▸ hdated.known, husers ▸ hdated.le, hresets ▸ husers ▸ hdated.resets_eq⟩
  | created user hnew husers hresets haccounts =>
    have hne : user.id ≠ userId := fun heq => hnew (heq ▸ hdated.known)
    have hget : s'.db.users.get? userId = s.db.users.get? userId := by
      rw [husers, Table.get?_put, if_neg hne]
    refine ⟨haccounts ▸ List.mem_cons_of_mem _ hdated.known, ?_, ?_⟩
    · rw [hget]
      exact hdated.le
    · rw [hget, hresets]
      exact hdated.resets_eq
  | changed user user' huser hid hversion husers hresets haccounts =>
    by_cases heq : user.id = userId
    · have hle := hdated.le user (heq ▸ Table.get?_of_mem huser)
      have hget : s'.db.users.get? userId = some user' := by
        rw [husers, Table.get?_put, if_pos (hid.trans heq)]
      refine ⟨haccounts ▸ hdated.known, fun row hrow => ?_, fun row hrow hversion' => ?_⟩
      · rw [hget] at hrow
        cases hrow
        omega
      · rw [hget] at hrow
        cases hrow
        omega
    · have hget : s'.db.users.get? userId = s.db.users.get? userId := by
        rw [husers, Table.get?_put, if_neg (hid ▸ heq)]
      refine ⟨haccounts ▸ hdated.known, ?_, ?_⟩
      · rw [hget]
        exact hdated.le
      · rw [hget, hresets userId (Ne.symm heq)]
        exact hdated.resets_eq
  | deleted id husers hresets haccounts =>
    have hget : ∀ user, s'.db.users.get? userId = some user →
        s.db.users.get? userId = some user := fun user huser => by
      rw [husers, Table.get?_erase] at huser
      split_ifs at huser
      exact huser
    exact ⟨haccounts ▸ hdated.known, fun user huser => hdated.le user (hget user huser),
      fun user huser => hresets ▸ hdated.resets_eq user (hget user huser)⟩

/-- Every account of the table is known. -/
theorem Alters.known (h : Alters s s') (hknown : ∀ user ∈ s.db.users, user.id ∈ s.accounts) :
    ∀ user ∈ s'.db.users, user.id ∈ s'.accounts := by
  intro row hrow
  cases h with
  | same husers hresets haccounts => exact haccounts ▸ hknown row (husers ▸ hrow)
  | created user hnew husers hresets haccounts =>
    rw [husers, Table.mem_put] at hrow
    rw [haccounts]
    rcases hrow with rfl | ⟨hrow, -⟩
    · exact List.mem_cons_self
    · exact List.mem_cons_of_mem _ (hknown row hrow)
  | changed user user' huser hid hversion husers hresets haccounts =>
    rw [husers, Table.mem_put] at hrow
    rw [haccounts]
    rcases hrow with rfl | ⟨hrow, -⟩
    · exact hid ▸ hknown user huser
    · exact hknown row hrow
  | deleted id husers hresets haccounts =>
    rw [husers, Table.mem_erase] at hrow
    exact haccounts ▸ hknown row hrow.1

theorem alters_createUser {id username password hash : Text} {admin setup : Bool} {db : Db}
    (hnew : id ∉ s.accounts)
    (h : createUser id username password hash admin setup s.db = some db) :
    Alters s { s with db := db, accounts := id :: s.accounts } := by
  unfold createUser at h
  cases hvalid : validateCredentials username password with
  | none => simp [hvalid] at h
  | some name =>
    simp only [hvalid] at h
    split_ifs at h
    cases h
    exact .created ⟨id, name, hash, setup || admin, 1⟩ hnew rfl rfl rfl

theorem alters_setAdmin (id : Text) (admin : Bool) :
    Alters s { s with db := setAdmin id admin s.db } := by
  unfold setAdmin
  cases huser : s.db.users.get? id with
  | none => exact .same rfl rfl rfl
  | some user =>
    dsimp only
    split_ifs
    · exact .same rfl rfl rfl
    · exact .changed user { user with isAdmin := admin, authVersion := user.authVersion + 1 }
        (Table.get?_mem huser) rfl rfl rfl (fun _ _ => rfl) rfl
    · exact .same rfl rfl rfl

theorem alters_deleteUser (id : Text) : Alters s { s with db := deleteUser id s.db } := by
  unfold deleteUser
  cases huser : s.db.users.get? id with
  | none => exact .same rfl rfl rfl
  | some user =>
    dsimp only
    split_ifs
    · exact .deleted id rfl rfl rfl
    · exact .same rfl rfl rfl

/-- A reset either changes nothing or raises the version and the count of one
    account and revokes its families. -/
theorem reset_cases (username password hash : Text) (s : System) :
    s.reset username password hash = s ∨ ∃ user ∈ s.db.users,
      s.reset username password hash =
        { s with
          db := ({ s.db with
            users := s.db.users.put
              { user with passwordHash := hash, authVersion := user.authVersion + 1 } } :
              Db).revokeWhere (fun family => family.userId = user.id) s.now
          resets := Function.update s.resets user.id (s.resets user.id + 1) } := by
  unfold System.reset loginRow
  cases hfound : s.db.users.rows.find? fun user => user.username = trim username with
  | none => simp
  | some user =>
    cases hvalid : validateCredentials username password with
    | none => simp [resetPassword, hvalid]
    | some name =>
      have hname : name = trim username := by
        unfold validateCredentials at hvalid
        dsimp only at hvalid
        split_ifs at hvalid
        exact (Option.some.inj hvalid).symm
      subst hname
      refine Or.inr ⟨user, List.mem_of_find?_eq_some hfound, ?_⟩
      simp [resetPassword, hvalid, hfound]

theorem users_logout (now : ℤ) (userId token : Text) (db : Db) :
    (logout hashToken now userId token db).users = db.users := by
  unfold logout
  split <;> rfl

theorem alters_next {e : Event} (h : s.next hashToken verifyPassword e = some s') :
    Alters s s' := by
  cases e with
  | createUser id username password hash admin setup =>
    rw [System.next] at h
    split_ifs at h with hknown
    split at h
    · cases h
      exact .same rfl rfl rfl
    · rename_i db hdb
      cases h
      exact alters_createUser (by simpa using hknown) hdb
  | setAdmin id admin =>
    cases h
    exact alters_setAdmin id admin
  | deleteUser id =>
    cases h
    exact alters_deleteUser id
  | resetPassword username password hash =>
    cases h
    rcases reset_cases username password hash s with heq | ⟨user, huser, heq⟩
    · rw [heq]
      exact .same rfl rfl rfl
    · rw [heq]
      exact .changed user { user with passwordHash := hash, authVersion := user.authVersion + 1 }
        huser rfl rfl rfl (fun id hne => Function.update_of_ne hne _ _) rfl
  | loginRead username password =>
    rw [System.next] at h
    split at h
    · cases h
      exact .same rfl rfl rfl
    · split_ifs at h <;> cases h <;> exact .same rfl rfl rfl
  | loginIssue place familyId secret =>
    obtain ⟨login, hlogin, rfl | ⟨hfamily, hsecret, hnew, hfresh, huser, rfl⟩⟩ := issue_cases h
    · exact .same rfl rfl rfl
    · exact .same rfl rfl rfl
  | refresh token secret =>
    rcases present_cases h with rfl | ⟨familyId, family, hselector, hfamily, hlive, rfl⟩ |
      ⟨familyId, family, user, hselector, hfamily, hlive, hnames, hsecret, hfresh, huser, rfl⟩ <;>
      exact .same rfl rfl rfl
  | tick seconds =>
    cases h
    exact .same rfl rfl rfl
  | logout userId token =>
    cases h
    exact .same (users_logout _ _ _ _) rfl rfl
  | prune =>
    cases h
    exact .same rfl rfl rfl

/-! ## Families -/

/-- What the accounts say about the logins, the tokens and the families. -/
structure Ended (s : System) : Prop where
  known : ∀ user ∈ s.db.users, user.id ∈ s.accounts
  logins : ∀ login ∈ s.logins, Dated s login.user.id login.user.authVersion login.resets
  issued : ∀ i ∈ s.issued, selector? i.pair.refreshToken = some i.family ∧
    ∃ login, s.began i.family = some login ∧ i.pair.accessToken.sub = login.user.id ∧
      Dated s login.user.id i.pair.accessToken.authVersion login.resets
  families : ∀ family ∈ s.db.families, family.revokedAt = none →
    ∃ login, s.began family.id = some login ∧ login.user.id = family.userId ∧
      login.resets = s.resets family.userId

/-- No family begins and no token is handed out. -/
theorem Ended.quiet (h : Ended s) (halters : Alters s s')
    (hlogins : ∀ login ∈ s'.logins, Dated s' login.user.id login.user.authVersion login.resets)
    (hissued : s'.issued = s.issued) (hbegan : s'.began = s.began)
    (hfamilies : ∀ family' ∈ s'.db.families, family'.revokedAt = none →
      family' ∈ s.db.families ∧ s'.resets family'.userId = s.resets family'.userId) :
    Ended s' := by
  refine ⟨halters.known h.known, hlogins, fun i hi => ?_, fun family' hfamily' hlive => ?_⟩
  · rw [hissued] at hi
    obtain ⟨hselector, login, hlogin, hsub, hdated⟩ := h.issued i hi
    exact ⟨hselector, login, hbegan ▸ hlogin, hsub, halters.dated hdated⟩
  · obtain ⟨hold, hresets⟩ := hfamilies family' hfamily' hlive
    obtain ⟨login, hlogin, huser, heq⟩ := h.families family' hold hlive
    exact ⟨login, hbegan ▸ hlogin, huser, heq.trans hresets.symm⟩

/-- A pair is handed out for a family that is in force. -/
theorem Ended.hand (h : Ended s) (halters : Alters s s') {familyId : Text} {pair : TokenPair}
    {login : Login} (hlogins : ∀ login ∈ s'.logins, login ∈ s.logins)
    (hissued : s'.issued = ⟨familyId, pair⟩ :: s.issued)
    (hselector : selector? pair.refreshToken = some familyId)
    (hbegun : s'.began familyId = some login)
    (hbegan : ∀ id login, s.began id = some login → s'.began id = some login)
    (hsub : pair.accessToken.sub = login.user.id)
    (hdated : Dated s login.user.id pair.accessToken.authVersion login.resets)
    (hresets : s'.resets = s.resets)
    (hfamilies : ∀ family' ∈ s'.db.families,
      family' ∈ s.db.families ∨ family'.id = familyId ∧ login.user.id = family'.userId ∧
        login.resets = s.resets family'.userId) : Ended s' := by
  refine ⟨halters.known h.known, fun l hl => halters.dated (h.logins l (hlogins l hl)),
    fun i hi => ?_, fun family' hfamily' hlive => ?_⟩
  · rw [hissued] at hi
    rcases List.mem_cons.mp hi with rfl | hi
    · exact ⟨hselector, login, hbegun, hsub, halters.dated hdated⟩
    · obtain ⟨hselector', login', hlogin', hsub', hdated'⟩ := h.issued i hi
      exact ⟨hselector', login', hbegan _ _ hlogin', hsub', halters.dated hdated'⟩
  · rw [hresets]
    rcases hfamilies family' hfamily' with hold | ⟨hid, huser, heq⟩
    · obtain ⟨login', hlogin', huser', heq'⟩ := h.families family' hold hlive
      exact ⟨login', hbegan _ _ hlogin', huser', heq'⟩
    · exact ⟨login, hid ▸ hbegun, huser, heq⟩

theorem ended_emptyHub (now : ℤ) : Ended (emptyHub now) :=
  ⟨fun user huser => absurd huser (Table.not_mem_empty user), List.forall_mem_nil _,
    List.forall_mem_nil _, fun family hfamily => absurd hfamily (Table.not_mem_empty family)⟩

theorem Family.revokedAt_of_live {family : Family} {now : ℤ} (h : family.live now = true) :
    family.revokedAt = none := by
  unfold live at h
  rw [Bool.and_eq_true, Option.isNone_iff_eq_none] at h
  exact h.1

/-- Of the rows that are not revoked, a trim keeps some. -/
theorem Db.Trims.mem {db db' : Db} (h : db.Trims db') {family' : Family}
    (hfamily' : family' ∈ db'.families) (hlive : family'.revokedAt = none) :
    family' ∈ db.families := by
  obtain ⟨family, hfamily, rfl | ⟨time, rfl⟩⟩ := h family' hfamily'
  · exact hfamily
  · cases hlive

theorem Ended.next (h : Ended s) {e : Event} (hok : Prompt s e)
    (he : s.next hashToken verifyPassword e = some s') : Ended s' := by
  have halters := alters_next he
  -- An event that neither begins a family nor changes the resets or the logins.
  have hquiet : s'.logins = s.logins → s'.issued = s.issued → s'.began = s.began →
      s'.resets = s.resets → s.db.Trims s'.db → Ended s' :=
    fun hlogins hissued hbegan hresets htrims =>
      h.quiet halters (fun login hlogin => halters.dated (h.logins login (hlogins ▸ hlogin)))
        hissued hbegan fun family' hfamily' hlive =>
          ⟨htrims.mem hfamily' hlive, congrFun hresets _⟩
  cases e with
  | tick seconds =>
    cases he
    exact hquiet rfl rfl rfl rfl (.of_eq rfl)
  | createUser id username password hash admin setup =>
    rw [System.next] at he
    split_ifs at he
    split at he
    · cases he
      exact h
    · rename_i db hdb
      cases he
      exact hquiet rfl rfl rfl rfl (.of_eq (createUser_families hdb))
  | setAdmin id admin =>
    cases he
    exact hquiet rfl rfl rfl rfl (.of_eq (setAdmin_families id admin s.db))
  | deleteUser id =>
    cases he
    exact hquiet rfl rfl rfl rfl (trims_deleteUser id s.db)
  | resetPassword username password hash =>
    cases he
    rcases reset_cases username password hash s with heq | ⟨user, huser, heq⟩
    · rw [heq]
      exact h
    · rw [heq] at halters ⊢
      refine h.quiet halters (fun login hlogin => halters.dated (h.logins login hlogin)) rfl rfl
        fun family' hfamily' hlive => ?_
      -- The families of the user are revoked.
      have hother : family'.userId ≠ user.id := by
        intro howner
        unfold Db.revokeWhere at hfamily'
        rw [Table.mem_mapRows] at hfamily'
        obtain ⟨family, hfamily, rfl⟩ := hfamily'
        split_ifs at hlive howner with hmeant
        · cases hlive
        · exact hmeant (decide_eq_true howner)
      exact ⟨(Db.trims_revokeWhere _ s.now rfl).mem hfamily' hlive,
        Function.update_of_ne hother _ _⟩
  | loginRead username password =>
    rw [System.next] at he
    split at he
    · cases he
      exact h
    · rename_i user huser
      split_ifs at he
      · cases he
        have hmem : user ∈ s.db.users := List.mem_of_find?_eq_some huser
        refine h.quiet halters (fun login hlogin => ?_) rfl rfl
          fun family' hfamily' _ => ⟨hfamily', rfl⟩
        rcases List.mem_append.mp hlogin with hlogin | hlogin
        · exact halters.dated (h.logins login hlogin)
        · rw [List.mem_singleton] at hlogin
          subst hlogin
          refine ⟨h.known user hmem, fun row hrow => ?_, fun row hrow _ => rfl⟩
          have hrow' := Table.get?_of_mem hmem
          rw [show s.db.users.get? user.id = some row from hrow] at hrow'
          cases hrow'
          exact le_rfl
      · cases he
        exact h
  | loginIssue place familyId secret =>
    obtain ⟨login, hlogin, rfl | ⟨hfamily, hsecret, hnew, hfresh, huser, rfl⟩⟩ := issue_cases he
    · exact h.quiet halters
        (fun login hlogin => halters.dated (h.logins login (List.mem_of_mem_eraseIdx hlogin)))
        rfl rfl fun family' hfamily' _ => ⟨hfamily', rfl⟩
    · refine h.hand halters (fun l hl => List.mem_of_mem_eraseIdx hl) rfl
        (selector?_makeRefreshToken hfamily hsecret) (Function.update_self _ _ _)
        (fun id l hl => ?_) rfl (h.logins login (List.mem_of_getElem? hlogin)) rfl
        fun family' hfamily' => ?_
      · show Function.update s.began familyId (some login) id = some l
        rw [Function.update_of_ne, hl]
        rintro rfl
        rw [hnew] at hl
        cases hl
      · rcases Table.mem_put.mp hfamily' with rfl | ⟨hold, -⟩
        · exact Or.inr ⟨rfl, rfl, hok login hlogin huser⟩
        · exact Or.inl hold
  | refresh token secret =>
    rcases present_cases he with rfl | ⟨familyId, family, hselector, hfamily, hlive, rfl⟩ |
      ⟨familyId, family, user, hselector, hfamily, hlive, hnames, hsecret, hfresh, huser, rfl⟩
    · exact h
    · exact hquiet rfl rfl rfl rfl (Db.trims_revokeWhere _ _ rfl)
    · have hrevoked := Family.revokedAt_of_live hlive
      have hid : family.id = familyId := Table.get?_key hfamily
      obtain ⟨login, hlogin, howner, hresets⟩ :=
        h.families family (Table.get?_mem hfamily) hrevoked
      have huserId : user.id = login.user.id := (Table.get?_key huser).trans howner.symm
      refine h.hand halters (fun l hl => hl) rfl
        (selector?_makeRefreshToken (isLowerHex_of_selector? hselector) hsecret) (hid ▸ hlogin)
        (fun _ _ hl => hl) huserId ⟨?_, fun row hrow => ?_, fun row hrow _ => ?_⟩ rfl
        fun family' hfamily' => ?_
      · exact huserId ▸ h.known user (Table.get?_mem huser)
      · rw [howner, huser] at hrow
        cases hrow
        exact le_rfl
      · rw [hresets, howner]
      · rcases Table.mem_put.mp hfamily' with rfl | ⟨hold, -⟩
        · exact Or.inr ⟨hid, howner, hresets⟩
        · exact Or.inl hold
  | logout userId token =>
    cases he
    exact hquiet rfl rfl rfl rfl (trims_logout s.now userId token s.db)
  | prune =>
    cases he
    exact hquiet rfl rfl rfl rfl (.of_filter _ rfl)

theorem Ended.resetEnds (h : Ended s) : ResetEnds hashToken s := by
  intro i hi login hlogin hreset
  obtain ⟨hselector, login', hlogin', hsub, hdated⟩ := h.issued i hi
  rw [hlogin] at hlogin'
  cases hlogin'
  constructor
  · unfold authenticate
    split_ifs
    · rfl
    · rw [hsub]
      cases huser : s.db.users.get? login.user.id with
      | none => rfl
      | some user =>
        dsimp only
        rw [if_neg]
        intro hversion
        exact absurd (hdated.resets_eq user huser hversion) hreset.ne
  · rintro ⟨secret, pair, db, hrun⟩
    have hspec := refresh_spec hashToken s.now secret i.pair.refreshToken s.db
    rw [hrun] at hspec
    cases hspec with
    | rotated familyId family user hselector' hfamily hlive hnames hfree huser =>
      rw [hselector] at hselector'
      cases hselector'
      have hid : family.id = i.family := Table.get?_key hfamily
      have hrevoked := Family.revokedAt_of_live hlive
      obtain ⟨login', hlogin', howner, hresets⟩ :=
        h.families family (Table.get?_mem hfamily) hrevoked
      rw [hid, hlogin] at hlogin'
      cases hlogin'
      rw [hresets, howner] at hreset
      exact absurd hreset (lt_irrefl _)

/-! ## Main results -/

/-- Nothing obtained with the old password is accepted, if no login inserts its
    family after a reset that it did not see. -/
theorem reset_ends (h : (machine hashToken verifyPassword start).Reaches Prompt s) :
    ResetEnds hashToken s := by
  have hended : Ended s :=
    Machine.Reaches.invariant h (ended_emptyHub start) fun ha hok he => ha.next hok he
  exact hended.resetEnds

instance (s : System) (e : Event) : Decidable (Prompt s e) := by
  unfold Prompt
  split
  · exact decidable_of_iff (∀ login ∈ s.logins[‹ℕ›]?,
      (s.db.users.get? login.user.id).isSome → login.resets = s.resets login.user.id) Iff.rfl
  · exact instDecidableTrue

/-- The account `root` and its reset to another password. -/
def setUpRoot : Event :=
  .createUser (lit "1") (lit "root") (lit "a long password") (lit "a long password") true true

def resetRoot : Event :=
  .resetPassword (lit "root") (lit "another password") (lit "another password")

/-- A session, and the reset. -/
def sessionThenReset : List Event :=
  [setUpRoot, .loginRead (lit "root") (lit "a long password"),
    .loginIssue 0 (List.replicate 32 '0') (List.replicate 64 'a'),
    .refresh (tokenOf 'a') (List.replicate 64 'b'), resetRoot]

theorem reset_ends_session : ∃ s,
    (machine id plain 0).replay (fun s e => decide (Prompt s e)) sessionThenReset (emptyHub 0) =
      some s ∧ s.issued.length = 2 ∧ s.resets (lit "1") = 1 ∧ ResetEnds id s := by
  have hrun : (((machine id plain 0).replay (fun s e => decide (Prompt s e)) sessionThenReset
      (emptyHub 0)).any fun s => s.issued.length = 2 && s.resets (lit "1") = 1) = true := by
    decide
  obtain ⟨s, hs, hfacts⟩ := (Option.any_eq_true _ _).mp hrun
  rw [Bool.and_eq_true, decide_eq_true_eq, decide_eq_true_eq] at hfacts
  have hreach := Machine.Reaches.mono (Machine.reaches_of_replay hs)
    fun _ _ => of_decide_eq_true
  exact ⟨s, hs, hfacts.1, hfacts.2, reset_ends hreach⟩

/-- A login has verified the old password when the reset commits. -/
def resetInFlight : List Event :=
  [setUpRoot, .loginRead (lit "root") (lit "a long password"), resetRoot,
    .loginIssue 0 (List.replicate 32 '0') (List.replicate 64 'a')]

/-- The refresh token of that login is accepted, and the access token that it
    buys too. -/
theorem not_reset_ends : ∃ s, (machine id plain 0).Reachable s ∧ ¬ ResetEnds id s ∧
    ∃ pair db, refresh id s.now (List.replicate 64 'b') (tokenOf 'a') s.db = (.ok pair, db) ∧
      (authenticate s.now pair.accessToken db).isSome := by
  have hrun : (((machine id plain 0).replay (fun _ _ => true) resetInFlight
      (emptyHub 0)).any fun s =>
        (s.issued.any fun i => i.pair.refreshToken = tokenOf 'a' &&
          (s.began i.family).any fun login => login.resets < s.resets login.user.id) &&
        match refresh id s.now (List.replicate 64 'b') (tokenOf 'a') s.db with
        | (.ok pair, db) => (authenticate s.now pair.accessToken db).isSome
        | _ => false) = true := by
    decide
  obtain ⟨s, hs, hfacts⟩ := (Option.any_eq_true _ _).mp hrun
  rw [Bool.and_eq_true, List.any_eq_true] at hfacts
  obtain ⟨⟨i, hi, hstale⟩, haccepted⟩ := hfacts
  rw [Bool.and_eq_true, Option.any_eq_true] at hstale
  obtain ⟨htoken, login, hlogin, hreset⟩ := hstale
  split at haccepted
  · rename_i pair db hrefresh
    refine ⟨s, (Machine.reaches_of_replay hs).reachable, fun hends => ?_, pair, db, hrefresh,
      haccepted⟩
    refine (hends i hi login hlogin (of_decide_eq_true hreset)).2 ?_
    rw [of_decide_eq_true htoken]
    exact ⟨_, pair, db, hrefresh⟩
  · cases haccepted

end Kahawai.Hub.Auth
