import Mathlib.Data.Set.Function
import Kahawai.Hub.Auth.State

/-!
# Refresh-token families

A rotation replaces the current token of a family and keeps the one before it,
so a family accepts two tokens. `Chained` relates its row to the tokens that
were handed out: the two hashes of the row are those of the two newest tokens.

Tokens have distinct hashes: the theorems are about runs whose tokens are taken
from a set on which `hash_token` is injective.

Main results:

* `families_disciplined`: which tokens are accepted, what a replay does, and
  that a family that is over stays so.
* `logout_ends_iff`: `logout` ends the session of a token that `refresh` accepts
  exactly when it is the current token of its family.
-/

namespace Kahawai.Hub.Auth

open Kahawai.Core Kahawai.Core.Text Kahawai.Lib

variable {hashToken : Text → Text} {verifyPassword : Text → Text → Bool}

/-! ## Tokens -/

theorem dot_not_mem_of_isLowerHex {s : Text} {len : ℕ} (h : isLowerHex s len = true) : '.' ∉ s := by
  intro hdot
  have hall := (Bool.and_eq_true_iff.mp h).2
  exact absurd (List.all_eq_true.mp hall '.' hdot) (by decide)

/-- A token that was made names its family. -/
theorem selector?_makeRefreshToken {familyId secret : Text} (hfamily : isLowerHex familyId 32 = true)
    (hsecret : isLowerHex secret 64 = true) :
    selector? (makeRefreshToken familyId secret) = some familyId := by
  have hjoin : makeRefreshToken familyId secret =
      ['.'].intercalate [lit "v1", familyId, secret] := by
    simp [makeRefreshToken, List.intercalate, List.intersperse, lit]
  have hsplit : split (· = '.') (makeRefreshToken familyId secret) =
      [lit "v1", familyId, secret] := by
    rw [hjoin, split]
    have hne : ∀ part ∈ [lit "v1", familyId, secret], '.' ∉ part := by
      intro part hpart
      simp only [List.mem_cons, List.not_mem_nil, or_false] at hpart
      rcases hpart with rfl | rfl | rfl
      · decide
      · exact dot_not_mem_of_isLowerHex hfamily
      · exact dot_not_mem_of_isLowerHex hsecret
    have hdot : (fun c : Char => decide (c = '.')) = (· == '.') :=
      funext fun c => (beq_eq_decide c '.').symm
    rw [hdot]
    exact List.splitOn_intercalate '.' hne (by simp)
  unfold selector?
  rw [hsplit]
  simp [hfamily, hsecret]

/-! ## Rows -/

/-- The hashes that a family accepts: the current one and the previous one. -/
def Family.hashes (family : Family) : List Text :=
  family.currentTokenHash :: family.previousTokenHash.toList

theorem Family.names_iff {family : Family} {presented : Text} :
    family.names presented = true ↔ presented ∈ family.hashes := by
  unfold names hashes
  rw [Bool.or_eq_true, decide_eq_true_eq, decide_eq_true_eq, List.mem_cons, Option.mem_toList,
    eq_comm (b := presented)]

@[simp] theorem Family.hashes_revoke (family : Family) (now : ℤ) :
    (family.revoke now).hashes = family.hashes := rfl

theorem Family.hashes_rotate (family : Family) (nextHash : Text) (now : ℤ) :
    (family.rotate nextHash now).hashes = [nextHash, family.currentTokenHash] := rfl

theorem Family.live_revoke (family : Family) (now now' : ℤ) :
    (family.revoke now).live now' = false := rfl

theorem get?_revokeWhere (p : Family → Bool) (now : ℤ) (db : Db) (familyId : Text) :
    (db.revokeWhere p now).families.get? familyId =
      (db.families.get? familyId).map fun family =>
        if p family then family.revoke now else family := by
  unfold Db.revokeWhere
  rw [Table.get?_mapRows]

/-- Nothing is revoked where no row is meant. -/
theorem revokeWhere_of_none {p : Family → Bool} {now : ℤ} {db : Db}
    (h : ∀ family ∈ db.families, p family = false) : db.revokeWhere p now = db := by
  have hrows : (db.families.rows.map fun family => if p family then family.revoke now else family) =
      db.families.rows := by
    conv_rhs => rw [← List.map_id db.families.rows]
    refine List.map_congr_left fun family hfamily => ?_
    rw [h family hfamily]
    rfl
  unfold Db.revokeWhere Table.mapRows
  simp only [hrows]

/-! ## What `refresh` does -/

/-- The three outcomes of `refresh`. -/
inductive Refreshes (hashToken : Text → Text) (now : ℤ) (secret token : Text) (db : Db) :
    Except RefreshError TokenPair × Db → Prop
  /-- The presentation fails and changes nothing. -/
  | refused (e : RefreshError)
      (h : ∀ familyId family, selector? token = some familyId →
        db.families.get? familyId = some family → family.live now = true →
        hashToken token ∈ family.hashes) : Refreshes hashToken now secret token db (.error e, db)
  /-- An unknown secret of a live family revokes it. -/
  | replayed (familyId : Text) (family : Family) (hselector : selector? token = some familyId)
      (hfamily : db.families.get? familyId = some family) (hlive : family.live now = true)
      (hnames : hashToken token ∉ family.hashes) :
      Refreshes hashToken now secret token db
        (.error .invalid, db.revokeWhere (fun row => row.id = familyId) now)
  /-- The family is rotated. -/
  | rotated (familyId : Text) (family : Family) (user : User)
      (hselector : selector? token = some familyId)
      (hfamily : db.families.get? familyId = some family) (hlive : family.live now = true)
      (hnames : hashToken token ∈ family.hashes)
      (hfree : db.hashTaken familyId (hashToken (makeRefreshToken familyId secret)) = false)
      (huser : db.users.get? family.userId = some user) :
      Refreshes hashToken now secret token db
        (.ok ⟨issueAccessToken now user, makeRefreshToken familyId secret⟩,
          { db with
            families := db.families.put
              (family.rotate (hashToken (makeRefreshToken familyId secret)) now) })

theorem refresh_spec (hashToken : Text → Text) (now : ℤ) (secret token : Text) (db : Db) :
    Refreshes hashToken now secret token db (refresh hashToken now secret token db) := by
  unfold refresh parseRefreshToken
  cases hselector : selector? token with
  | none =>
    exact .refused _ fun familyId family h => by
      rw [hselector] at h
      cases h
  | some familyId =>
    cases hfamily : db.families.get? familyId with
    | none =>
      simp only [Option.map_some, hfamily]
      refine .refused _ fun id family h hget => ?_
      rw [hselector] at h
      cases h
      rw [hfamily] at hget
      cases hget
    | some family =>
      simp only [Option.map_some, hfamily]
      -- A row that is live and named by the token refuses it only for a reason of its own.
      have hrefused : (family.live now = true → hashToken token ∈ family.hashes) → ∀ e,
          Refreshes hashToken now secret token db (.error e, db) := fun hnames e => by
        refine .refused e fun id row h hget hlive => ?_
        rw [hselector] at h
        cases h
        rw [hfamily] at hget
        cases hget
        exact hnames hlive
      by_cases hlive : family.live now = true
      · by_cases hnames : family.names (hashToken token) = true
        · rw [if_pos (by rw [hlive, hnames]; rfl)]
          have hmem := Family.names_iff.mp hnames
          cases hfree : db.hashTaken familyId (hashToken (makeRefreshToken familyId secret)) with
          | true => exact hrefused (fun _ => hmem) _
          | false =>
            cases huser : db.users.get? family.userId with
            | none => exact hrefused (fun _ => hmem) _
            | some user => exact .rotated familyId family user hselector hfamily hlive hmem hfree huser
        · rw [if_neg (by simp [hnames]), if_pos hlive]
          exact .replayed familyId family hselector hfamily hlive
            (fun hmem => hnames (Family.names_iff.mpr hmem))
      · rw [if_neg (by simp [hlive]), if_neg hlive]
        exact hrefused (fun h => absurd h hlive) _

/-! ## Runs -/

namespace System

/-- The refresh tokens of a family that were handed out, the newest first. -/
def tokens (s : System) (familyId : Text) : List Text :=
  (s.issued.filter fun i => i.family = familyId).map fun i => i.pair.refreshToken

/-- `refresh` accepts the token. -/
def Accepts (hashToken : Text → Text) (s : System) (token : Text) : Prop :=
  ∃ secret pair db, Auth.refresh hashToken s.now secret token s.db = (.ok pair, db)

/-- The family has begun and is not live: it is revoked, expired or deleted. -/
def Over (s : System) (familyId : Text) : Prop :=
  (s.began familyId).isSome ∧
    ∀ family, s.db.families.get? familyId = some family → family.live s.now = false

end System

/-- The tokens that an event presents or makes are in `T`. -/
def Event.Uses (T : Set Text) : Event → Prop
  | .refresh token secret =>
    token ∈ T ∧ ∀ familyId, selector? token = some familyId → makeRefreshToken familyId secret ∈ T
  | .loginIssue _ familyId secret => makeRefreshToken familyId secret ∈ T
  | .logout _ token => token ∈ T
  | _ => True

/-- The rows of `refresh_families` and the tokens handed out. -/
structure Chained (hashToken : Text → Text) (T : Set Text) (s : System) : Prop where
  mem : ∀ i ∈ s.issued, i.pair.refreshToken ∈ T
  selector : ∀ i ∈ s.issued, selector? i.pair.refreshToken = some i.family
  distinct : (s.issued.map fun i => i.pair.refreshToken).Nodup
  begun : ∀ i ∈ s.issued, (s.began i.family).isSome
  rows : ∀ family ∈ s.db.families, (s.began family.id).isSome ∧
    family.hashes = ((s.tokens family.id).take 2).map hashToken

variable {T : Set Text} {s s' : System}

/-- Only the IDs and hashes of the rows matter, and rows may go. -/
theorem Chained.congr (h : Chained hashToken T s) (hissued : s'.issued = s.issued)
    (hbegan : s'.began = s.began)
    (hrows : ∀ family' ∈ s'.db.families, ∃ family ∈ s.db.families,
      family'.id = family.id ∧ family'.hashes = family.hashes) : Chained hashToken T s' := by
  refine ⟨hissued ▸ h.mem, hissued ▸ h.selector, hissued ▸ h.distinct, ?_, fun family' hfamily' => ?_⟩
  · rw [hissued, hbegan]
    exact h.begun
  · obtain ⟨family, hfamily, hid, hhashes⟩ := hrows family' hfamily'
    unfold System.tokens
    rw [hissued, hbegan, hid, hhashes]
    exact h.rows family hfamily

/-- A new token of a family is handed out, and its row names that token and the
    newest one before it. -/
theorem Chained.hand (h : Chained hashToken T s) {familyId : Text} {pair : TokenPair}
    (hissued : s'.issued = ⟨familyId, pair⟩ :: s.issued) (hmem : pair.refreshToken ∈ T)
    (hselector : selector? pair.refreshToken = some familyId)
    (hfresh : ∀ i ∈ s.issued, i.pair.refreshToken ≠ pair.refreshToken)
    (hbegan : ∀ id, (s.began id).isSome → (s'.began id).isSome)
    (hbegun : (s'.began familyId).isSome)
    (hrow : ∀ family' ∈ s'.db.families, family'.id = familyId →
      family'.hashes = hashToken pair.refreshToken :: ((s.tokens familyId).take 1).map hashToken)
    (hothers : ∀ family' ∈ s'.db.families, family'.id ≠ familyId → family' ∈ s.db.families) :
    Chained hashToken T s' := by
  refine ⟨?_, ?_, ?_, ?_, fun family' hfamily' => ?_⟩
  · rw [hissued]
    exact List.forall_mem_cons.mpr ⟨hmem, h.mem⟩
  · rw [hissued]
    exact List.forall_mem_cons.mpr ⟨hselector, h.selector⟩
  · rw [hissued, List.map_cons, List.nodup_cons]
    refine ⟨fun hin => ?_, h.distinct⟩
    obtain ⟨i, hi, heq⟩ := List.mem_map.mp hin
    exact hfresh i hi heq
  · rw [hissued]
    exact List.forall_mem_cons.mpr ⟨hbegun, fun i hi => hbegan _ (h.begun i hi)⟩
  · by_cases hid : family'.id = familyId
    · refine ⟨hid ▸ hbegun, ?_⟩
      rw [hrow family' hfamily' hid, hid]
      unfold System.tokens
      rw [hissued, List.filter_cons_of_pos (by simp)]
      simp [List.take_succ_cons]
    · have hold := h.rows family' (hothers family' hfamily' hid)
      refine ⟨hbegan _ hold.1, ?_⟩
      rw [hold.2]
      unfold System.tokens
      rw [hissued, List.filter_cons_of_neg (by simpa using fun heq => hid heq.symm)]

/-! ## Events -/

/-- Rows of `db'` are rows of `db`, some of them revoked. -/
def Db.Trims (db db' : Db) : Prop :=
  ∀ family' ∈ db'.families, ∃ family ∈ db.families,
    family' = family ∨ ∃ time, family' = family.revoke time

theorem Db.Trims.of_eq {db db' : Db} (h : db'.families = db.families) : db.Trims db' :=
  fun family' hfamily' => ⟨family', h ▸ hfamily', Or.inl rfl⟩

theorem Db.Trims.of_filter {db db' : Db} (p : Family → Bool)
    (h : db'.families = db.families.filter p) : db.Trims db' := by
  intro family' hfamily'
  rw [h] at hfamily'
  exact ⟨family', (Table.mem_filter.mp hfamily').1, Or.inl rfl⟩

theorem Db.trims_revokeWhere (p : Family → Bool) (now : ℤ) {db db' : Db}
    (h : db'.families = db.families) : db.Trims (db'.revokeWhere p now) := by
  intro family' hfamily'
  unfold Db.revokeWhere at hfamily'
  rw [Table.mem_mapRows] at hfamily'
  obtain ⟨family, hfamily, rfl⟩ := hfamily'
  rw [h] at hfamily
  refine ⟨family, hfamily, ?_⟩
  split
  · exact Or.inr ⟨now, rfl⟩
  · exact Or.inl rfl

theorem createUser_families {id username password hash : Text} {admin setup : Bool} {db db' : Db}
    (h : createUser id username password hash admin setup db = some db') :
    db'.families = db.families := by
  unfold createUser at h
  cases hvalid : validateCredentials username password with
  | none => simp [hvalid] at h
  | some name =>
    simp only [hvalid] at h
    split_ifs at h
    cases h
    rfl

theorem setAdmin_families (id : Text) (admin : Bool) (db : Db) :
    (setAdmin id admin db).families = db.families := by
  unfold setAdmin
  split
  · rfl
  · split_ifs <;> rfl

theorem trims_deleteUser (id : Text) (db : Db) : db.Trims (deleteUser id db) := by
  unfold deleteUser
  split
  · exact .of_eq rfl
  · split_ifs
    · exact .of_filter _ rfl
    · exact .of_eq rfl

theorem trims_logout (now : ℤ) (userId token : Text) (db : Db) :
    db.Trims (logout hashToken now userId token db) := by
  unfold logout
  split
  · exact .of_eq rfl
  · exact Db.trims_revokeWhere _ now rfl

theorem trims_resetPassword {now : ℤ} {username password hash : Text} {db db' : Db}
    (h : resetPassword now username password hash db = some db') : db.Trims db' := by
  unfold resetPassword at h
  split at h
  · cases h
  · split at h
    · cases h
    · cases h
      exact Db.trims_revokeWhere _ now rfl

/-- What an event does to families and to the tokens handed out. -/
inductive Moves (hashToken : Text → Text) (T : Set Text) (s : System) : System → Prop
  /-- No token is handed out. -/
  | quiet {s' : System} (hissued : s'.issued = s.issued) (hbegan : s'.began = s.began)
      (hnow : s.now ≤ s'.now) (htrims : s.db.Trims s'.db) : Moves hashToken T s s'
  /-- A login inserts its family. -/
  | begins (place : ℕ) (login : Login) (familyId secret : Text)
      (hlogin : s.logins[place]? = some login)
      (hfamily : isLowerHex familyId 32 = true) (hsecret : isLowerHex secret 64 = true)
      (hnew : s.began familyId = none)
      (hfresh : ∀ i ∈ s.issued, i.pair.refreshToken ≠ makeRefreshToken familyId secret)
      (hmem : makeRefreshToken familyId secret ∈ T)
      (huser : (s.db.users.get? login.user.id).isSome) :
      Moves hashToken T s
        { s with
          db := { s.db with
            families := s.db.families.put
              ⟨familyId, login.user.id, hashToken (makeRefreshToken familyId secret), none,
                s.now + refreshTtlSecs, none⟩ }
          logins := s.logins.eraseIdx place
          issued := ⟨familyId, issueAccessToken s.now login.user,
            makeRefreshToken familyId secret⟩ :: s.issued
          began := Function.update s.began familyId (some login) }
  /-- A family is rotated. -/
  | rotates (token familyId secret : Text) (family : Family) (user : User)
      (hselector : selector? token = some familyId)
      (hfamily : s.db.families.get? familyId = some family) (hlive : family.live s.now = true)
      (hnames : hashToken token ∈ family.hashes)
      (hsecret : isLowerHex secret 64 = true)
      (hfresh : ∀ i ∈ s.issued, i.pair.refreshToken ≠ makeRefreshToken familyId secret)
      (hmem : makeRefreshToken familyId secret ∈ T)
      (huser : s.db.users.get? family.userId = some user) :
      Moves hashToken T s
        { s with
          db := { s.db with
            families := s.db.families.put
              (family.rotate (hashToken (makeRefreshToken familyId secret)) s.now) }
          issued := ⟨familyId, issueAccessToken s.now user,
            makeRefreshToken familyId secret⟩ :: s.issued }

theorem freshSecret_iff {familyId secret : Text} :
    s.freshSecret familyId secret = true ↔ isLowerHex secret 64 = true ∧
      ∀ i ∈ s.issued, i.pair.refreshToken ≠ makeRefreshToken familyId secret := by
  simp [System.freshSecret]

/-- The second statement of a login either fails or inserts a family. -/
theorem issue_cases {place : ℕ} {familyId secret : Text}
    (h : s.issue hashToken place familyId secret = some s') :
    ∃ login, s.logins[place]? = some login ∧
      (s' = { s with logins := s.logins.eraseIdx place } ∨
        (isLowerHex familyId 32 = true ∧ isLowerHex secret 64 = true ∧ s.began familyId = none ∧
          (∀ i ∈ s.issued, i.pair.refreshToken ≠ makeRefreshToken familyId secret) ∧
          (s.db.users.get? login.user.id).isSome ∧
          s' = { s with
            db := { s.db with
              families := s.db.families.put
                ⟨familyId, login.user.id, hashToken (makeRefreshToken familyId secret), none,
                  s.now + refreshTtlSecs, none⟩ }
            logins := s.logins.eraseIdx place
            issued := ⟨familyId, issueAccessToken s.now login.user,
              makeRefreshToken familyId secret⟩ :: s.issued
            began := Function.update s.began familyId (some login) })) := by
  unfold System.issue at h
  cases hlogin : s.logins[place]? with
  | none => simp [hlogin] at h
  | some login =>
    refine ⟨login, rfl, ?_⟩
    simp only [hlogin] at h
    split_ifs at h with hguard
    simp only [Bool.or_eq_true, Bool.not_eq_true', not_or, Bool.not_eq_false,
      Option.not_isSome_iff_eq_none] at hguard
    obtain ⟨⟨hfamily, hnew⟩, hsecret⟩ := hguard
    obtain ⟨hsecret, hfresh⟩ := freshSecret_iff.mp hsecret
    unfold issueTokens at h
    by_cases htaken : (s.db.users.get? login.user.id).isNone || (s.db.families.get? familyId).isSome ||
        s.db.hashTaken familyId (hashToken (makeRefreshToken familyId secret))
    · simp only [htaken, if_true] at h
      cases h
      exact Or.inl rfl
    · simp only [htaken, Bool.false_eq_true, if_false] at h
      cases h
      simp only [Bool.or_eq_true, not_or, Option.isNone_iff_eq_none] at htaken
      exact Or.inr ⟨hfamily, hsecret, hnew, hfresh, Option.isSome_iff_ne_none.mpr htaken.1.1, rfl⟩

theorem moves_issue {place : ℕ} {familyId secret : Text}
    (hmem : makeRefreshToken familyId secret ∈ T)
    (h : s.issue hashToken place familyId secret = some s') : Moves hashToken T s s' := by
  obtain ⟨login, hlogin, rfl | ⟨hfamily, hsecret, hnew, hfresh, huser, rfl⟩⟩ := issue_cases h
  · exact .quiet rfl rfl le_rfl (.of_eq rfl)
  · exact .begins place login familyId secret hlogin hfamily hsecret hnew hfresh hmem huser

theorem isLowerHex_of_selector? {token familyId : Text} (h : selector? token = some familyId) :
    isLowerHex familyId 32 = true := by
  unfold selector? at h
  split at h
  · split_ifs at h with hvalid
    cases h
    simp only [Bool.and_eq_true] at hvalid
    exact hvalid.1.2
  · cases h

/-- A presentation changes nothing, revokes a family or rotates one. -/
theorem present_cases {token secret : Text} (h : s.present hashToken token secret = some s') :
    s' = s ∨
      (∃ familyId family, selector? token = some familyId ∧
        s.db.families.get? familyId = some family ∧ family.live s.now = true ∧
        s' = { s with db := s.db.revokeWhere (fun row => row.id = familyId) s.now }) ∨
      ∃ familyId family user, selector? token = some familyId ∧
        s.db.families.get? familyId = some family ∧ family.live s.now = true ∧
        hashToken token ∈ family.hashes ∧ isLowerHex secret 64 = true ∧
        (∀ i ∈ s.issued, i.pair.refreshToken ≠ makeRefreshToken familyId secret) ∧
        s.db.users.get? family.userId = some user ∧
        s' = { s with
          db := { s.db with
            families := s.db.families.put
              (family.rotate (hashToken (makeRefreshToken familyId secret)) s.now) }
          issued := ⟨familyId, issueAccessToken s.now user,
            makeRefreshToken familyId secret⟩ :: s.issued } := by
  unfold System.present at h
  split_ifs at h with hguard
  rw [Bool.not_eq_true, Bool.not_eq_false'] at hguard
  have hspec := refresh_spec hashToken s.now secret token s.db
  generalize refresh hashToken s.now secret token s.db = result at h hspec
  cases hspec with
  | refused e hrefused =>
    cases h
    exact Or.inl rfl
  | replayed familyId family hselector hfamily hlive hnames =>
    cases h
    exact Or.inr (Or.inl ⟨familyId, family, hselector, hfamily, hlive, rfl⟩)
  | rotated familyId family user hselector hfamily hlive hnames hfree huser =>
    rw [hselector, Option.getD_some] at hguard
    obtain ⟨hsecret, hfresh⟩ := freshSecret_iff.mp hguard
    simp only [hselector, Option.getD_some] at h
    cases h
    exact Or.inr (Or.inr ⟨familyId, family, user, hselector, hfamily, hlive, hnames, hsecret,
      hfresh, huser, rfl⟩)

theorem moves_present {token secret : Text}
    (hmem : ∀ familyId, selector? token = some familyId → makeRefreshToken familyId secret ∈ T)
    (h : s.present hashToken token secret = some s') : Moves hashToken T s s' := by
  rcases present_cases h with rfl | ⟨familyId, family, hselector, hfamily, hlive, rfl⟩ |
    ⟨familyId, family, user, hselector, hfamily, hlive, hnames, hsecret, hfresh, huser, rfl⟩
  · exact .quiet rfl rfl le_rfl (.of_eq rfl)
  · exact .quiet rfl rfl le_rfl (Db.trims_revokeWhere _ _ rfl)
  · exact .rotates token familyId secret family user hselector hfamily hlive hnames hsecret hfresh
      (hmem familyId hselector) huser

theorem moves_next {e : Event} (huses : e.Uses T)
    (h : s.next hashToken verifyPassword e = some s') : Moves hashToken T s s' := by
  cases e with
  | tick seconds =>
    cases h
    exact .quiet rfl rfl (by simp) (.of_eq rfl)
  | createUser id username password hash admin setup =>
    rw [System.next] at h
    split_ifs at h
    split at h
    · cases h
      exact .quiet rfl rfl le_rfl (.of_eq rfl)
    · rename_i db hdb
      cases h
      exact .quiet rfl rfl le_rfl (.of_eq (createUser_families hdb))
  | setAdmin id admin =>
    cases h
    exact .quiet rfl rfl le_rfl (.of_eq (setAdmin_families id admin s.db))
  | deleteUser id =>
    cases h
    exact .quiet rfl rfl le_rfl (trims_deleteUser id s.db)
  | resetPassword username password hash =>
    cases h
    unfold System.reset
    split
    · rename_i db user hdb huser
      exact .quiet rfl rfl le_rfl (trims_resetPassword hdb)
    · exact .quiet rfl rfl le_rfl (.of_eq rfl)
  | loginRead username password =>
    rw [System.next] at h
    split at h
    · cases h
      exact .quiet rfl rfl le_rfl (.of_eq rfl)
    · split_ifs at h <;> cases h <;> exact .quiet rfl rfl le_rfl (.of_eq rfl)
  | loginIssue place familyId secret => exact moves_issue huses h
  | refresh token secret => exact moves_present huses.2 h
  | logout userId token =>
    cases h
    exact .quiet rfl rfl le_rfl (trims_logout s.now userId token s.db)
  | prune =>
    cases h
    exact .quiet rfl rfl le_rfl (.of_filter _ rfl)

/-! ## Invariants -/

theorem chained_emptyHub (now : ℤ) : Chained hashToken T (emptyHub now) :=
  ⟨List.forall_mem_nil _, List.forall_mem_nil _, List.nodup_nil, List.forall_mem_nil _,
    fun family hfamily => absurd hfamily (Table.not_mem_empty family)⟩

theorem Moves.chained (h : Moves hashToken T s s') (hs : Chained hashToken T s) :
    Chained hashToken T s' := by
  cases h with
  | quiet hissued hbegan hnow htrims =>
    refine hs.congr hissued hbegan fun family' hfamily' => ?_
    obtain ⟨family, hfamily, rfl | ⟨time, rfl⟩⟩ := htrims family' hfamily'
    · exact ⟨_, hfamily, rfl, rfl⟩
    · exact ⟨family, hfamily, rfl, rfl⟩
  | begins place login familyId secret hlogin hfamily hsecret hnew hfresh hmem huser =>
    have htokens : s.tokens familyId = [] := by
      unfold System.tokens
      rw [List.map_eq_nil_iff, List.filter_eq_nil_iff]
      intro i hi heq
      have := hs.begun i hi
      rw [of_decide_eq_true heq, hnew] at this
      cases this
    refine hs.hand rfl hmem (selector?_makeRefreshToken hfamily hsecret) hfresh (fun id hid => ?_)
      ?_ (fun family' hfamily' hid => ?_) fun family' hfamily' hid => ?_
    · by_cases heq : id = familyId
      · rw [heq, hnew] at hid
        cases hid
      · show (Function.update s.began familyId (some login) id).isSome = true
        rwa [Function.update_of_ne heq]
    · show (Function.update s.began familyId (some login) familyId).isSome = true
      rw [Function.update_self]
      rfl
    · rcases Table.mem_put.mp hfamily' with rfl | ⟨-, hne⟩
      · rw [htokens]
        rfl
      · exact absurd hid hne
    · rcases Table.mem_put.mp hfamily' with rfl | ⟨hold, -⟩
      · exact absurd rfl hid
      · exact hold
  | rotates token familyId secret family user hselector hfamily hlive hnames hsecret hfresh hmem
      huser =>
    have hid : family.id = familyId := Table.get?_key hfamily
    obtain ⟨hbegun, hhashes⟩ := hs.rows family (Table.get?_mem hfamily)
    rw [hid] at hbegun hhashes
    refine hs.hand rfl hmem
      (selector?_makeRefreshToken (isLowerHex_of_selector? hselector) hsecret) hfresh
      (fun _ h => h) hbegun (fun family' hfamily' hid' => ?_) fun family' hfamily' hid' => ?_
    · rcases Table.mem_put.mp hfamily' with rfl | ⟨-, hne⟩
      · rw [Family.hashes_rotate, List.cons.injEq]
        refine ⟨rfl, ?_⟩
        have hcurrent := congrArg (List.take 1) hhashes
        rw [← List.map_take, List.take_take] at hcurrent
        exact hcurrent
      · exact absurd (hid'.trans hid.symm) hne
    · rcases Table.mem_put.mp hfamily' with rfl | ⟨hold, -⟩
      · exact absurd hid hid'
      · exact hold

theorem Family.live_mono {family : Family} {now now' : ℤ} (hle : now ≤ now')
    (h : family.live now' = true) : family.live now = true := by
  unfold Family.live at h ⊢
  rw [Bool.and_eq_true, decide_eq_true_eq] at h ⊢
  exact ⟨h.1, le_trans hle h.2⟩

/-- A family that is over stays so. -/
theorem Moves.over (h : Moves hashToken T s s') {familyId : Text} (hover : s.Over familyId) :
    s'.Over familyId := by
  cases h with
  | quiet hissued hbegan hnow htrims =>
    refine ⟨hbegan ▸ hover.1, fun family' hfamily' => ?_⟩
    obtain ⟨family, hfamily, rfl | ⟨time, rfl⟩⟩ := htrims family' (Table.get?_mem hfamily')
    · by_contra hlive
      have hold := hover.2 family' (Table.get?_key hfamily' ▸ Table.get?_of_mem hfamily)
      rw [Family.live_mono hnow (Bool.not_eq_false _ ▸ hlive)] at hold
      cases hold
    · exact Family.live_revoke _ _ _
  | begins place login began secret hlogin hfamily hsecret hnew hfresh hmem huser =>
    have hne : began ≠ familyId := fun heq => by
      have := hover.1
      rw [← heq, hnew] at this
      cases this
    refine ⟨?_, fun family' hfamily' => ?_⟩
    · show (Function.update s.began began (some login) familyId).isSome = true
      rw [Function.update_of_ne hne.symm]
      exact hover.1
    · rw [Table.get?_put, if_neg hne] at hfamily'
      exact hover.2 family' hfamily'
  | rotates token rotated secret family user hselector hfamily hlive hnames hsecret hfresh hmem
      huser =>
    have hne : rotated ≠ familyId := fun heq => by
      rw [heq] at hfamily
      have := hover.2 family hfamily
      rw [hlive] at this
      cases this
    refine ⟨hover.1, fun family' hfamily' => ?_⟩
    rw [Table.get?_put, if_neg] at hfamily'
    · exact hover.2 family' hfamily'
    · rw [Family.id_rotate, Table.get?_key hfamily]
      exact hne

/-- Tokens are only added. -/
theorem Moves.tokens (h : Moves hashToken T s s') (familyId : Text) :
    ∃ new, s'.tokens familyId = new ++ s.tokens familyId := by
  have hcons : ∀ i, s'.issued = i :: s.issued →
      ∃ new, s'.tokens familyId = new ++ s.tokens familyId := fun i hissued => by
    unfold System.tokens
    rw [hissued]
    by_cases hid : i.family = familyId
    · exact ⟨[i.pair.refreshToken], by rw [List.filter_cons_of_pos (by simpa using hid)]; rfl⟩
    · exact ⟨[], by rw [List.filter_cons_of_neg (by simpa using hid)]; rfl⟩
  cases h with
  | quiet hissued hbegan hnow htrims =>
    exact ⟨[], by unfold System.tokens; rw [hissued]; rfl⟩
  | begins => exact hcons _ rfl
  | rotates => exact hcons _ rfl

/-! ## All runs -/

section Runs

variable (hashToken verifyPassword) (start : ℤ)

/-- Runs whose tokens are in `T`. -/
abbrev Later (T : Set Text) : System → System → Prop :=
  (machine hashToken verifyPassword start).Steps fun _ e => e.Uses T

/-- The states of the runs whose tokens are in `T`. -/
abbrev Reached (T : Set Text) : System → Prop :=
  (machine hashToken verifyPassword start).Reaches fun _ e => e.Uses T

variable {hashToken verifyPassword start}

theorem Reached.chained (h : Reached hashToken verifyPassword start T s) :
    Chained hashToken T s :=
  Machine.Reaches.invariant h (chained_emptyHub start) fun ha huses he =>
    (moves_next huses he).chained ha

theorem Later.over {familyId : Text} (h : Later hashToken verifyPassword start T s s')
    (hover : s.Over familyId) : s'.Over familyId :=
  Machine.Steps.invariant (I := fun s => s.Over familyId) h hover fun ha huses he =>
    (moves_next huses he).over ha

theorem Later.tokens (h : Later hashToken verifyPassword start T s s') (familyId : Text) :
    ∃ new, s'.tokens familyId = new ++ s.tokens familyId := by
  refine Machine.Steps.invariant
    (I := fun a => ∃ new, a.tokens familyId = new ++ s.tokens familyId) h ⟨[], rfl⟩ ?_
  rintro a e b ⟨new, hnew⟩ huses he
  obtain ⟨added, hadded⟩ := (moves_next huses he).tokens familyId
  exact ⟨added ++ new, by rw [hadded, hnew, List.append_assoc]⟩

/-- The hashes of a row name exactly the two newest tokens. -/
theorem Chained.hash_mem_iff (h : Chained hashToken T s) (hdistinct : Set.InjOn hashToken T)
    {token familyId : Text} (htoken : token ∈ T) {family : Family}
    (hfamily : s.db.families.get? familyId = some family) :
    hashToken token ∈ family.hashes ↔ token ∈ (s.tokens familyId).take 2 := by
  have hid : family.id = familyId := Table.get?_key hfamily
  rw [(h.rows family (Table.get?_mem hfamily)).2, hid]
  constructor
  · intro hmem
    obtain ⟨token', htoken', heq⟩ := List.mem_map.mp hmem
    obtain ⟨i, hi, rfl⟩ := List.mem_map.mp (List.mem_of_mem_take htoken')
    rwa [hdistinct htoken (h.mem i (List.mem_filter.mp hi).1) heq.symm]
  · exact List.mem_map_of_mem

/-- What `refresh` accepts. -/
theorem Chained.accepts (h : Chained hashToken T s) (hdistinct : Set.InjOn hashToken T)
    {token : Text} (htoken : token ∈ T) (haccepts : s.Accepts hashToken token) :
    ∃ familyId family, selector? token = some familyId ∧
      s.db.families.get? familyId = some family ∧ family.live s.now = true ∧
      token ∈ (s.tokens familyId).take 2 := by
  obtain ⟨secret, pair, db, hrun⟩ := haccepts
  have hspec := refresh_spec hashToken s.now secret token s.db
  rw [hrun] at hspec
  cases hspec with
  | rotated familyId family user hselector hfamily hlive hnames hfree huser =>
    exact ⟨familyId, family, hselector, hfamily, hlive,
      (h.hash_mem_iff hdistinct htoken hfamily).mp hnames⟩

theorem Chained.selector_tokens (h : Chained hashToken T s) {token familyId : Text}
    (htoken : token ∈ s.tokens familyId) : selector? token = some familyId ∧ token ∈ T := by
  obtain ⟨i, hi, rfl⟩ := List.mem_map.mp htoken
  obtain ⟨hi, hid⟩ := List.mem_filter.mp hi
  exact ⟨of_decide_eq_true hid ▸ h.selector i hi, h.mem i hi⟩

theorem Chained.nodup_tokens (h : Chained hashToken T s) (familyId : Text) :
    (s.tokens familyId).Nodup :=
  h.distinct.sublist (List.filter_sublist.map _)

/-- No token of a family that is over is accepted. -/
theorem System.Over.not_accepts {familyId token : Text} (h : s.Over familyId)
    (hselector : selector? token = some familyId) : ¬ s.Accepts hashToken token := by
  rintro ⟨secret, pair, db, hrun⟩
  have hspec := refresh_spec hashToken s.now secret token s.db
  rw [hrun] at hspec
  cases hspec with
  | rotated familyId' family user hselector' hfamily hlive hnames hfree huser =>
    rw [hselector] at hselector'
    cases hselector'
    have := h.2 family hfamily
    rw [hlive] at this
    cases this

/-- What `refresh` does not accept although its family is live, and not for a
    reason of the tables, is a replay. -/
theorem Chained.replays (h : Chained hashToken T s) (hdistinct : Set.InjOn hashToken T)
    {token familyId : Text} (htoken : token ∈ T) (hselector : selector? token = some familyId)
    (hnot : token ∉ (s.tokens familyId).take 2) {family : Family}
    (hfamily : s.db.families.get? familyId = some family) (hlive : family.live s.now = true)
    (secret : Text) :
    refresh hashToken s.now secret token s.db =
      (.error .invalid, s.db.revokeWhere (fun row => row.id = familyId) s.now) := by
  have hunnamed : hashToken token ∉ family.hashes := fun hmem =>
    hnot ((h.hash_mem_iff hdistinct htoken hfamily).mp hmem)
  have hspec := refresh_spec hashToken s.now secret token s.db
  generalize refresh hashToken s.now secret token s.db = result at hspec ⊢
  cases hspec with
  | refused e hrefused => exact absurd (hrefused familyId family hselector hfamily hlive) hunnamed
  | replayed familyId' family' hselector' hfamily' hlive' hnames =>
    rw [hselector] at hselector'
    cases hselector'
    rfl
  | rotated familyId' family' user hselector' hfamily' hlive' hnames hfree huser =>
    rw [hselector] at hselector'
    cases hselector'
    rw [hfamily] at hfamily'
    cases hfamily'
    exact absurd hnames hunnamed

/-- A presentation keeps every row, though it may revoke it. -/
theorem present_keeps_row {token secret familyId : Text}
    (h : s.present hashToken token secret = some s')
    (hrow : (s.db.families.get? familyId).isSome) : (s'.db.families.get? familyId).isSome := by
  rcases present_cases h with rfl | ⟨revoked, family, hselector, hfamily, hlive, rfl⟩ |
    ⟨rotated, family, user, hselector, hfamily, hlive, hnames, hsecret, hfresh, huser, rfl⟩
  · exact hrow
  · rw [get?_revokeWhere, Option.isSome_map]
    exact hrow
  · show (Table.get? (s.db.families.put _) familyId).isSome = true
    rw [Table.get?_put]
    split_ifs
    · rfl
    · exact hrow

/-! ## Main results -/

/-- What holds of the families in a state that is reached. -/
structure Disciplined (hashToken : Text → Text) (verifyPassword : Text → Text → Bool) (start : ℤ)
    (T : Set Text) (s : System) : Prop where
  /-- At most the two newest tokens of a family are accepted. -/
  newest : ∀ token ∈ T, s.Accepts hashToken token → ∃ familyId,
    selector? token = some familyId ∧ token ∈ (s.tokens familyId).take 2
  /-- A token that two rotations have followed is not accepted again. -/
  spent : ∀ familyId, ∀ token ∈ (s.tokens familyId).drop 2, ∀ s',
    Later hashToken verifyPassword start T s s' → ¬ s'.Accepts hashToken token
  /-- Any other token than these two revokes the family if it is live. -/
  replay : ∀ token ∈ T, ∀ familyId family secret, selector? token = some familyId →
    token ∉ (s.tokens familyId).take 2 → s.db.families.get? familyId = some family →
    family.live s.now = true → refresh hashToken s.now secret token s.db =
      (.error .invalid, s.db.revokeWhere (fun row => row.id = familyId) s.now)
  /-- A family that is revoked, expired or deleted accepts nothing again. -/
  finished : ∀ familyId, s.Over familyId → ∀ s', Later hashToken verifyPassword start T s s' →
    ∀ token, selector? token = some familyId → ¬ s'.Accepts hashToken token
  /-- Only a replay changes anything when it fails. -/
  failed : ∀ token ∈ T, ∀ secret e db, refresh hashToken s.now secret token s.db = (.error e, db) →
    db = s.db ∨ ∃ familyId family, selector? token = some familyId ∧
      token ∉ (s.tokens familyId).take 2 ∧ s.db.families.get? familyId = some family ∧
      family.live s.now = true
  /-- Any number of presentations of the two leave one row with the two hashes of
      the last tokens handed out. -/
  concurrent : ∀ familyId s', (s.db.families.get? familyId).isSome →
    (machine hashToken verifyPassword start).Steps (fun _ e => e.Uses T ∧
      ∃ token ∈ (s.tokens familyId).take 2, ∃ secret, e = .refresh token secret) s s' →
    ∃ family, s'.db.families.get? familyId = some family ∧
      family.hashes = ((s'.tokens familyId).take 2).map hashToken
  /-- The access token names the owner and its version. -/
  owner : ∀ token secret pair db, refresh hashToken s.now secret token s.db = (.ok pair, db) →
    ∃ familyId family user, selector? token = some familyId ∧
      s.db.families.get? familyId = some family ∧ s.db.users.get? family.userId = some user ∧
      pair.accessToken.sub = family.userId ∧ pair.accessToken.username = user.username ∧
      pair.accessToken.admin = user.isAdmin ∧ pair.accessToken.authVersion = user.authVersion

/-- Families are disciplined in every run whose tokens have distinct hashes. -/
theorem families_disciplined (hdistinct : Set.InjOn hashToken T)
    (h : Reached hashToken verifyPassword start T s) :
    Disciplined hashToken verifyPassword start T s := by
  have hchained := h.chained
  refine ⟨fun token htoken haccepts => ?_, fun familyId token htoken s' hlater haccepts => ?_,
    fun token htoken familyId family secret hselector hnot hfamily hlive =>
      hchained.replays hdistinct htoken hselector hnot hfamily hlive secret,
    fun familyId hover s' hlater token hselector => (hlater.over hover).not_accepts hselector,
    fun token htoken secret e db hrun => ?_, fun familyId s' hrow hsteps => ?_,
    fun token secret pair db hrun => ?_⟩
  · obtain ⟨familyId, family, hselector, -, -, hmem⟩ :=
      hchained.accepts hdistinct htoken haccepts
    exact ⟨familyId, hselector, hmem⟩
  · -- The token stays where it is or moves further down, and tokens are distinct.
    have hreached' : Reached hashToken verifyPassword start T s' := h.trans hlater
    have hchained' := hreached'.chained
    obtain ⟨hselector, hmem⟩ := hchained.selector_tokens (List.mem_of_mem_drop htoken)
    obtain ⟨familyId', family, hselector', -, -, hnewest⟩ :=
      hchained'.accepts hdistinct hmem haccepts
    rw [hselector] at hselector'
    cases hselector'
    obtain ⟨new, hnew⟩ := hlater.tokens familyId
    have hspent : token ∈ (s'.tokens familyId).drop 2 := by
      rw [hnew, List.drop_append]
      exact List.mem_append_right _
        (List.drop_subset_drop_left _ (Nat.sub_le 2 new.length) htoken)
    exact List.disjoint_take_drop (hchained'.nodup_tokens familyId) le_rfl hnewest hspent
  · have hspec := refresh_spec hashToken s.now secret token s.db
    rw [hrun] at hspec
    cases hspec with
    | refused e hrefused => exact Or.inl rfl
    | replayed familyId family hselector hfamily hlive hnames =>
      exact Or.inr ⟨familyId, family, hselector,
        fun hmem => hnames ((hchained.hash_mem_iff hdistinct htoken hfamily).mpr hmem), hfamily,
        hlive⟩
  · have hreached : Reached hashToken verifyPassword start T s' :=
      h.trans (Relation.ReflTransGen.mono (fun _ _ ⟨e, hok, he⟩ => ⟨e, hok.1, he⟩) _ _ hsteps)
    have hkept : (s'.db.families.get? familyId).isSome := by
      refine Machine.Steps.invariant (I := fun a => (a.db.families.get? familyId).isSome = true)
        hsteps hrow ?_
      rintro a e b ha ⟨-, token, -, secret, rfl⟩ he
      exact present_keeps_row he ha
    obtain ⟨family, hfamily⟩ := Option.isSome_iff_exists.mp hkept
    have hrows := (hreached.chained.rows family (Table.get?_mem hfamily)).2
    rw [Table.get?_key hfamily] at hrows
    exact ⟨family, hfamily, hrows⟩
  · have hspec := refresh_spec hashToken s.now secret token s.db
    rw [hrun] at hspec
    cases hspec with
    | rotated familyId family user hselector hfamily hlive hnames hfree huser =>
      have hid : user.id = family.userId := Table.get?_key huser
      exact ⟨familyId, family, user, hselector, hfamily, huser, hid, rfl, rfl, rfl⟩

end Runs

/-- A password is stored as it is. -/
def plain (password hash : Text) : Bool := password = hash

/-- A token of the family `0…0`. -/
def tokenOf (c : Char) : Text := makeRefreshToken (List.replicate 32 '0') (List.replicate 64 c)

/-- The first account signs in, and a tab refreshes. -/
def oneRefresh : List Event :=
  [.createUser (lit "1") (lit "root") (lit "a long password") (lit "a long password") true true,
    .loginRead (lit "root") (lit "a long password"),
    .loginIssue 0 (List.replicate 32 '0') (List.replicate 64 'a'),
    .refresh (tokenOf 'a') (List.replicate 64 'b')]

/-- The state after these events. -/
def afterOneRefresh : Option System :=
  (machine id plain 0).replay (fun _ _ => true) oneRefresh (emptyHub 0)

theorem reached_afterOneRefresh {s : System} (h : afterOneRefresh = some s) :
    Reached id plain 0 Set.univ s := by
  refine (Machine.reaches_of_replay h).mono fun _ e _ => ?_
  cases e <;> simp [Event.Uses]

theorem accepts_of_isOk {s : System} {secret token : Text}
    (h : (refresh hashToken s.now secret token s.db).1.isOk = true) :
    s.Accepts hashToken token := by
  generalize hrun : refresh hashToken s.now secret token s.db = result at h
  obtain ⟨_ | pair, db⟩ := result
  · cases h
  · exact ⟨secret, pair, db, hrun⟩

theorem families_disciplined_oneRefresh : ∃ s, afterOneRefresh = some s ∧
    s.tokens (List.replicate 32 '0') = [tokenOf 'b', tokenOf 'a'] ∧
    Disciplined id plain 0 Set.univ s := by
  have hrun : (afterOneRefresh.any fun s =>
      s.tokens (List.replicate 32 '0') = [tokenOf 'b', tokenOf 'a']) = true := by
    decide
  obtain ⟨s, hs, htokens⟩ := (Option.any_eq_true _ _).mp hrun
  exact ⟨s, hs, of_decide_eq_true htokens,
    families_disciplined (Set.injOn_id _) (reached_afterOneRefresh hs)⟩

section Runs

variable {start : ℤ}

/-- A logout with the current token revokes the family. -/
theorem over_logout {userId token familyId : Text} {family : Family} (h : Chained hashToken T s)
    (hselector : selector? token = some familyId)
    (hfamily : s.db.families.get? familyId = some family) (howner : family.userId = userId)
    (hcurrent : family.currentTokenHash = hashToken token) :
    ({ s with db := logout hashToken s.now userId token s.db } : System).Over familyId := by
  have hid : family.id = familyId := Table.get?_key hfamily
  refine ⟨hid ▸ (h.rows family (Table.get?_mem hfamily)).1, fun family' hfamily' => ?_⟩
  simp only [logout, parseRefreshToken, hselector, Option.map_some, get?_revokeWhere, hfamily,
    Option.some.injEq] at hfamily'
  rw [← hfamily']
  split_ifs with hmeant
  · rfl
  · -- The row is named by the statement unless it is revoked already.
    rw [hid, howner, hcurrent] at hmeant
    unfold Family.live
    cases hrevoked : family.revokedAt with
    | none => simp [hrevoked] at hmeant
    | some time => rfl

/-- A logout with another token changes nothing. -/
theorem logout_of_ne {userId token familyId : Text} {family : Family}
    (hselector : selector? token = some familyId)
    (hfamily : s.db.families.get? familyId = some family)
    (hcurrent : family.currentTokenHash ≠ hashToken token) :
    logout hashToken s.now userId token s.db = s.db := by
  simp only [logout, parseRefreshToken, hselector, Option.map_some]
  refine revokeWhere_of_none fun row hrow => ?_
  by_cases hid : row.id = familyId
  · have hsame : row = family :=
      Table.eq_of_key_eq hrow (Table.get?_mem hfamily) (hid.trans (Table.get?_key hfamily).symm)
    simp [hsame, hcurrent]
  · simp [hid]

/-- The session of a token that `refresh` accepts is ended by `logout` exactly
    when the token is the current one of its family. -/
theorem logout_ends_iff (h : Reached hashToken verifyPassword start T s) {userId token : Text}
    (htoken : token ∈ T) {familyId : Text} {family : Family}
    (hselector : selector? token = some familyId)
    (hfamily : s.db.families.get? familyId = some family) (howner : family.userId = userId)
    (haccepts : s.Accepts hashToken token) {s₁ : System}
    (hlogout : s.next hashToken verifyPassword (.logout userId token) = some s₁) :
    (∀ s', Later hashToken verifyPassword start T s₁ s' → ∀ token' ∈ T,
        selector? token' = some familyId → ¬ s'.Accepts hashToken token') ↔
      family.currentTokenHash = hashToken token := by
  cases hlogout
  constructor
  · intro hends
    by_contra hcurrent
    refine hends _ Relation.ReflTransGen.refl token htoken hselector ?_
    unfold System.Accepts
    rw [logout_of_ne hselector hfamily hcurrent]
    exact haccepts
  · intro hcurrent s' hlater token' _ hselector'
    exact (hlater.over (over_logout h.chained hselector hfamily howner hcurrent)).not_accepts
      hselector'

end Runs

/-- What a logout meets after `oneRefresh`. -/
theorem oneRefresh_spec : ∃ s, afterOneRefresh = some s ∧
    (s.db.families.get? (List.replicate 32 '0')).any (fun family =>
      family.userId = lit "1" && family.currentTokenHash = tokenOf 'b') = true ∧
    s.Accepts id (tokenOf 'a') ∧ s.Accepts id (tokenOf 'b') := by
  have hrun : (afterOneRefresh.any fun s =>
      (s.db.families.get? (List.replicate 32 '0')).any (fun family =>
        family.userId = lit "1" && family.currentTokenHash = tokenOf 'b') &&
      (refresh id s.now (List.replicate 64 'c') (tokenOf 'a') s.db).1.isOk &&
      (refresh id s.now (List.replicate 64 'c') (tokenOf 'b') s.db).1.isOk) = true := by
    decide
  obtain ⟨s, hs, hspec⟩ := (Option.any_eq_true _ _).mp hrun
  simp only [Bool.and_eq_true] at hspec
  exact ⟨s, hs, hspec.1.1, accepts_of_isOk hspec.1.2, accepts_of_isOk hspec.2⟩

theorem logout_ends_current : ∃ s s₁, afterOneRefresh = some s ∧
    s.next id plain (.logout (lit "1") (tokenOf 'b')) = some s₁ ∧
    ∀ s', Later id plain 0 Set.univ s₁ s' → ∀ token' ∈ Set.univ,
      selector? token' = some (List.replicate 32 '0') → ¬ s'.Accepts id token' := by
  obtain ⟨s, hs, hrow, -, haccepts⟩ := oneRefresh_spec
  obtain ⟨family, hfamily, hfacts⟩ := (Option.any_eq_true _ _).mp hrow
  rw [Bool.and_eq_true, decide_eq_true_eq, decide_eq_true_eq] at hfacts
  exact ⟨s, _, hs, rfl, (logout_ends_iff (reached_afterOneRefresh hs) (Set.mem_univ _)
    (by decide) hfamily hfacts.1 haccepts rfl).mpr hfacts.2⟩

/-- A tab that is one rotation behind signs out: `refresh` accepts its token, the
    family is its user's, and both tokens are still accepted. -/
theorem logout_leaves_session : ∃ s s₁ family, afterOneRefresh = some s ∧
    selector? (tokenOf 'a') = some (List.replicate 32 '0') ∧
    s.db.families.get? (List.replicate 32 '0') = some family ∧ family.userId = lit "1" ∧
    s.Accepts id (tokenOf 'a') ∧
    s.next id plain (.logout (lit "1") (tokenOf 'a')) = some s₁ ∧
    s₁.Accepts id (tokenOf 'a') ∧ s₁.Accepts id (tokenOf 'b') := by
  obtain ⟨s, hs, hrow, hprevious, hcurrent⟩ := oneRefresh_spec
  obtain ⟨family, hfamily, hfacts⟩ := (Option.any_eq_true _ _).mp hrow
  rw [Bool.and_eq_true, decide_eq_true_eq, decide_eq_true_eq] at hfacts
  have hselector : selector? (tokenOf 'a') = some (List.replicate 32 '0') := by decide
  have hnone : logout id s.now (lit "1") (tokenOf 'a') s.db = s.db := by
    refine logout_of_ne hselector hfamily ?_
    rw [hfacts.2]
    decide
  refine ⟨s, _, family, hs, hselector, hfamily, hfacts.1, hprevious, rfl, ?_, ?_⟩
  · unfold System.Accepts
    rw [hnone]
    exact hprevious
  · unfold System.Accepts
    rw [hnone]
    exact hcurrent

end Kahawai.Hub.Auth
