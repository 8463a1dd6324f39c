import Kahawai.Core.Slices

/-!
# Release revisions

`release_revision` of `crates/kahawai-core/src/names.rs` (lines 985–1010). The version is any number
of `u32` that the name writes, and each correction adds one to it.

Results:
* `releaseRevisionChecked_iff`: the sum goes through exactly when every version leaves room for the
  corrections.
-/

namespace Kahawai.Core.Names

open Text Lib Lib.Checked

/-! ## Model -/

/-- What the loop has read (lines 987–988). -/
structure Revision where
  version : ℕ
  repack : Bool
  proper : Bool
  rerip : Bool
  deriving DecidableEq

/-- The version a token writes, as in `05v2` (lines 996–1004). -/
def versionOf (token : Text) : Option ℕ :=
  match splitOnce (fun c => c = 'v' || c = 'V') token with
  | none => none
  | some (ep, v) =>
    if !ep.isEmpty && ep.all isAsciiDigit && !v.isEmpty && v.all isAsciiDigit then parseU32 v
    else none

/-- One round of the loop (lines 989–1006). -/
def readTag (r : Revision) (token : Text) : Revision :=
  if eqIgnoreAsciiCase token (lit "repack") then { r with repack := true }
  else if eqIgnoreAsciiCase token (lit "rerip") then { r with rerip := true }
  else if token = lit "PROPER" then { r with proper := true }
  else match versionOf token with
    | some n => { r with version := max r.version n }
    | none => r

/-- The tokens of the file name (lines 986 and 989). -/
def revisionTokens (pathRel : Text) : List Text :=
  split (fun c => ['.', '_', '-', '[', ']', '(', ')', ' '].contains c)
    ((components pathRel).getLast?.getD [])

/-- `release_revision` (lines 985–1010). -/
def releaseRevisionChecked (pathRel : Text) : Checked ℕ := do
  let r := (revisionTokens pathRel).foldl readTag ⟨1, false, false, false⟩
  let n ← add 32 r.version r.repack.toNat
  let n ← add 32 n r.proper.toNat
  add 32 n r.rerip.toNat

/-! ## The loop -/

/-- The corrections among the tokens: each counts once. -/
def corrections (tokens : List Text) : ℕ :=
  (tokens.any fun t => eqIgnoreAsciiCase t (lit "repack")).toNat +
    (tokens.any fun t => t = lit "PROPER").toNat +
    (tokens.any fun t => eqIgnoreAsciiCase t (lit "rerip")).toNat

/-- A token with a version has a `v`, so it is no correction. -/
theorem versionOf_lower {token : Text} {n : ℕ} (h : versionOf token = some n) :
    'v' ∈ toAsciiLower token := by
  unfold versionOf at h
  split at h
  · cases h
  · rename_i ep v hsplit
    obtain ⟨c, hc, -, rfl⟩ := splitOnce_eq_some hsplit
    have hv : charToAsciiLower c = 'v' := by
      have hcases : c = 'v' ∨ c = 'V' := by simpa using hc
      rcases hcases with rfl | rfl <;> rfl
    exact List.mem_map.mpr ⟨c, by simp, hv⟩

theorem versionOf_correction {token : Text} {n : ℕ} (h : versionOf token = some n) :
    eqIgnoreAsciiCase token (lit "repack") = false ∧
      eqIgnoreAsciiCase token (lit "rerip") = false ∧ token ≠ lit "PROPER" := by
  have hv := versionOf_lower h
  refine ⟨?_, ?_, ?_⟩
  · refine Bool.eq_false_iff.mpr fun heq => ?_
    rw [of_decide_eq_true heq] at hv
    exact absurd hv (by decide)
  · refine Bool.eq_false_iff.mpr fun heq => ?_
    rw [of_decide_eq_true heq] at hv
    exact absurd hv (by decide)
  · rintro rfl
    exact absurd hv (by decide)

/-- The three corrections exclude each other. -/
theorem correction_excludes (token : Text) :
    (eqIgnoreAsciiCase token (lit "repack") = true →
        eqIgnoreAsciiCase token (lit "rerip") = false ∧ token ≠ lit "PROPER") ∧
      (eqIgnoreAsciiCase token (lit "rerip") = true → token ≠ lit "PROPER") := by
  refine ⟨fun h => ⟨Bool.eq_false_iff.mpr fun h' => ?_, ?_⟩, fun h => ?_⟩
  · exact absurd ((of_decide_eq_true h).symm.trans (of_decide_eq_true h')) (by decide)
  · rintro rfl
    exact absurd h (by decide)
  · rintro rfl
    exact absurd h (by decide)

/-- One round: each flag and the version on their own. -/
theorem readTag_eq (r : Revision) (token : Text) :
    readTag r token =
      ⟨max r.version ((versionOf token).getD 0),
        r.repack || eqIgnoreAsciiCase token (lit "repack"), r.proper || token = lit "PROPER",
        r.rerip || eqIgnoreAsciiCase token (lit "rerip")⟩ := by
  obtain ⟨hrepack, hrerip⟩ := correction_excludes token
  have hversion : ∀ n, versionOf token = some n → _ := fun n => versionOf_correction
  unfold readTag
  cases hv : versionOf token with
  | some n =>
    obtain ⟨h1, h2, h3⟩ := hversion n hv
    simp [h1, h2, h3]
  | none =>
    cases h1 : eqIgnoreAsciiCase token (lit "repack") with
    | true => simp [hrepack h1]
    | false =>
      cases h2 : eqIgnoreAsciiCase token (lit "rerip") with
      | true => simp [hrerip h2]
      | false => by_cases h3 : token = lit "PROPER" <;> simp [h3]

theorem foldl_readTag (tokens : List Text) (r : Revision) :
    (tokens.foldl readTag r).repack =
        (r.repack || tokens.any fun t => eqIgnoreAsciiCase t (lit "repack")) ∧
      (tokens.foldl readTag r).proper = (r.proper || tokens.any fun t => t = lit "PROPER") ∧
      (tokens.foldl readTag r).rerip =
        (r.rerip || tokens.any fun t => eqIgnoreAsciiCase t (lit "rerip")) ∧
      ∀ bound, (tokens.foldl readTag r).version < bound ↔
        r.version < bound ∧ ∀ t ∈ tokens, (versionOf t).getD 0 < bound := by
  induction tokens generalizing r with
  | nil => simp
  | cons token tokens ih =>
    obtain ⟨hrepack, hproper, hrerip, hversion⟩ := ih (readTag r token)
    rw [List.foldl_cons, List.any_cons, List.any_cons, List.any_cons, hrepack, hproper, hrerip,
      readTag_eq, Bool.or_assoc, Bool.or_assoc, Bool.or_assoc]
    refine ⟨rfl, rfl, rfl, fun bound => ?_⟩
    rw [← readTag_eq, hversion, readTag_eq, max_lt_iff, List.forall_mem_cons, and_assoc]

/-! ## The sum -/

/-- Every version of the name leaves room for the corrections. -/
def RevisionFits (path : Text) : Prop :=
  ∀ t ∈ revisionTokens path, ∀ n, versionOf t = some n →
    n + corrections (revisionTokens path) < 2 ^ 32

theorem sum_iff (a b c d : ℕ) :
    (∃ r, (do let n ← add 32 a b; let n ← add 32 n c; add 32 n d) = .ok r) ↔
      a + (b + c + d) < 2 ^ 32 := by
  by_cases hb : a + b < 2 ^ 32
  · rw [add_eq hb, ok_bind]
    by_cases hc : a + b + c < 2 ^ 32
    · rw [add_eq hc, ok_bind]
      by_cases hd : a + b + c + d < 2 ^ 32
      · rw [add_eq hd]
        exact ⟨fun _ => by omega, fun _ => ⟨_, rfl⟩⟩
      · rw [add_overflow (Nat.not_lt.mp hd)]
        exact ⟨fun ⟨_, h⟩ => absurd h (by simp), fun _ => by omega⟩
    · rw [add_overflow (Nat.not_lt.mp hc), error_bind]
      exact ⟨fun ⟨_, h⟩ => absurd h (by simp), fun _ => by omega⟩
  · rw [add_overflow (Nat.not_lt.mp hb), error_bind]
    exact ⟨fun ⟨_, h⟩ => absurd h (by simp), fun _ => by omega⟩

theorem corrections_le (tokens : List Text) : corrections tokens ≤ 3 := by
  have hle : ∀ b : Bool, b.toNat ≤ 1 := Bool.toNat_le
  have h1 := hle (tokens.any fun t => eqIgnoreAsciiCase t (lit "repack"))
  have h2 := hle (tokens.any fun t => t = lit "PROPER")
  have h3 := hle (tokens.any fun t => eqIgnoreAsciiCase t (lit "rerip"))
  unfold corrections
  omega

/-- The revision is computed without overflow exactly when it fits. -/
theorem releaseRevisionChecked_iff (path : Text) :
    (∃ r, releaseRevisionChecked path = .ok r) ↔ RevisionFits path := by
  obtain ⟨hrepack, hproper, hrerip, hversion⟩ :=
    foldl_readTag (revisionTokens path) ⟨1, false, false, false⟩
  have hle := corrections_le (revisionTokens path)
  unfold releaseRevisionChecked
  rw [sum_iff, hrepack, hproper, hrerip, Bool.false_or, Bool.false_or, Bool.false_or,
    ← corrections, ← Nat.lt_sub_iff_add_lt, hversion]
  constructor
  · rintro ⟨-, h⟩ t ht n hn
    have hlt := h t ht
    rw [hn, Option.getD_some] at hlt
    omega
  · intro h
    refine ⟨by dsimp only; omega, fun t ht => ?_⟩
    cases hn : versionOf t with
    | none => rw [Option.getD_none]; omega
    | some n =>
      have hlt := h t ht n hn
      rw [Option.getD_some]
      omega

end Kahawai.Core.Names
