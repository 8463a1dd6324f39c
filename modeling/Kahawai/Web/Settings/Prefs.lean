import Kahawai.Core.Text
import Mathlib.Data.List.Induction
import Mathlib.Data.List.Perm.Basic

/-!
# Preferences

Model of the preferences of `web/src/domain/prefs.ts` (lines 1–119), of the reordering of
`web/src/domain/reorder.ts` (lines 13–37), of what `usePrefs` makes of the hub's answer
(`web/src/composables/prefs.ts`, lines 19–39), and of the hub's `put_pref`
(`crates/kahawai-hub/src/api.rs`, lines 3074–3104) on the rows of one account.

Strings are lists of characters, as in `Core.Text`.
-/

namespace Kahawai.Web.Settings

open Kahawai.Core

/-! ## JavaScript's strings -/

/-- The characters that `String.prototype.trim` removes. -/
def isSpace (c : Char) : Bool := (isWhitespace c && c.toNat ≠ 0x85) || c.toNat = 0xFEFF

def trim (s : Text) : Text := s.trimMatches isSpace

/-- `Array.prototype.indexOf`. -/
def indexOf (list : List Text) (item : Text) : Option ℕ := list.findIdx? (· = item)

/-! ## Ordered lists -/

/-- `moved`. -/
def moved (list : List Text) (start finish : ℤ) : Option (List Text) :=
  if start = finish ∨ start < 0 ∨ finish < 0 ∨ list.length ≤ start ∨ list.length ≤ finish then none
  else do
    let taken ← list[start.toNat]?
    some ((list.eraseIdx start.toNat).insertIdx finish.toNat taken)

/-- `addAbove`. -/
def addAbove (list : List Text) (item pin : Text) : List Text :=
  match indexOf list pin with
  | none => list ++ [item]
  | some i => list.take i ++ [item] ++ list.drop i

/-- A move keeps every entry. -/
theorem moved_perm {list list' : List Text} {start finish : ℤ}
    (h : moved list start finish = some list') : list'.Perm list := by
  unfold moved at h
  split_ifs at h with hbounds
  obtain ⟨taken, htaken, h⟩ := Option.bind_eq_some_iff.mp h
  cases h
  obtain ⟨hlt, rfl⟩ := List.getElem?_eq_some_iff.mp htaken
  have hfinish : finish.toNat ≤ (list.eraseIdx start.toNat).length := by
    rw [List.length_eraseIdx_of_lt hlt]
    omega
  exact (List.perm_insertIdx _ _ hfinish).trans (List.getElem_cons_eraseIdx_perm hlt)

/-- An addition keeps every entry and adds one. -/
theorem addAbove_perm (list : List Text) (item pin : Text) :
    (addAbove list item pin).Perm (item :: list) := by
  unfold addAbove
  split
  · exact List.perm_append_singleton item list
  · rename_i i _
    rw [List.append_assoc, List.singleton_append]
    refine List.perm_middle.trans (List.Perm.cons item ?_)
    rw [List.take_append_drop]

/-! ## The values -/

/-- `ORIGINAL`. -/
def ORIGINAL : Text := lit "original"

/-- `validToken`: `original`, or two or three letters. -/
def validToken (unicode : Unicode) (token : Text) : Bool :=
  let token := unicode.toLower (trim token)
  token = ORIGINAL ||
    ((token.length = 2 || token.length = 3) && token.all fun c => 'a' ≤ c && c ≤ 'z')

/-- The language lists of a media type. -/
inductive Kind
  | audio
  | subs
  deriving DecidableEq

/-- A stored list, as its entries. -/
def entries (stored : Text) : List Text :=
  ((stored.split (· = ',')).map trim).filter (· ≠ [])

/-- `wishlist`. -/
def wishlist (stored : Text) (kind : Kind) : List Text :=
  let items := entries stored
  if kind = .audio ∧ ORIGINAL ∉ items then items ++ [ORIGINAL] else items

/-- `stored`. -/
def stored (items : List Text) : Text := Text.join [','] items

/-- `SUBTITLE_KIND`. -/
def SUBTITLE_KIND : Text := lit "subs.kind"

/-- `LEGACY_WEB_SUBTITLE_KIND`. -/
def LEGACY_WEB_SUBTITLE_KIND : Text := lit "web.subs.kind"

/-- `SUBTITLE_KINDS`. -/
def SUBTITLE_KINDS : List Text := [lit "regular", lit "sdh", lit "forced"]

/-- The keys of `ASS_RUNGS`. -/
def ASS_RUNGS : List Text := [lit "flatten", lit "overlay", lit "burn"]

/-- A complete order: the known entries of the value, then the rest. This is
    `subtitleKindOrder` and `assLadder`. -/
def completeOrder (all : List Text) (value : Text) : List Text :=
  (((value.split (· = ',')).map trim).filter (· ∈ all) ++ all).eraseDups

/-- `subtitleKindOrder`. -/
def subtitleKindOrder (value : Text) : List Text := completeOrder SUBTITLE_KINDS value

/-- `assLadder`. -/
def assLadder (value : Text) : List Text := completeOrder ASS_RUNGS value

/-! ## The hub -/

/-- `Preference`: a row of `user_prefs` of the account. -/
structure Preference where
  scope : Text
  key : Text
  value : Text
  deriving DecidableEq

/-- `known`: the account's own settings, by key; a later row wins. -/
def known (rows : List Preference) (key : Text) : Option Text :=
  (rows.reverse.find? fun row => row.scope = [] && row.key = key).map Preference.value

/-- The row of a key, by the primary key. -/
def Preference.isOf (scope key : Text) (row : Preference) : Bool :=
  row.scope = scope && row.key = key

/-- `INSERT … ON CONFLICT DO UPDATE`. -/
def insertPref (rows : List Preference) (scope key value : Text) : List Preference :=
  if rows.any (Preference.isOf scope key) then
    rows.map fun row => if row.isOf scope key then { row with value := value } else row
  else rows ++ [⟨scope, key, value⟩]

/-- `DELETE`. -/
def deletePref (rows : List Preference) (scope key : Text) : List Preference :=
  rows.filter fun row => !row.isOf scope key

/-- `put_pref`; `none` where the request is refused. -/
def putPref (rows : List Preference) (scope key value : Text) : Option (List Preference) :=
  if key.byteLen > 64 || value.byteLen > 256 || scope.byteLen > 64 then none
  else if value = [] then some (deletePref rows scope key)
  else some (insertPref rows scope key value)

/-- The text that a key shows. -/
def shown (values : Text → Option Text) (key : Text) : Text := (values key).getD []

theorem known_concat (rows : List Preference) (row : Preference) (key : Text) :
    known (rows ++ [row]) key = if row.isOf [] key then some row.value else known rows key := by
  unfold known
  rw [List.reverse_append, List.reverse_singleton, List.singleton_append, List.find?_cons]
  change ((match row.isOf [] key with | true => some row | false => _) : Option Preference).map _ = _
  cases row.isOf [] key <;> rfl

/-- Two keys of one row. -/
theorem Preference.isOf_iff {scope key : Text} {row : Preference} :
    row.isOf scope key = true ↔ row.scope = scope ∧ row.key = key := by
  rw [Preference.isOf, Bool.and_eq_true, decide_eq_true_eq, decide_eq_true_eq]

theorem isOf_congr {scope key key' : Text} {row : Preference} (h : row.isOf scope key = true) :
    row.isOf [] key' = true ↔ scope = [] ∧ key' = key := by
  obtain ⟨rfl, rfl⟩ := Preference.isOf_iff.mp h
  rw [Preference.isOf_iff]
  exact and_congr_right fun _ => eq_comm

theorem deletePref_concat (rows : List Preference) (row : Preference) (scope key : Text) :
    deletePref (rows ++ [row]) scope key = if row.isOf scope key then deletePref rows scope key
      else deletePref rows scope key ++ [row] := by
  unfold deletePref
  rw [List.filter_append, List.filter_singleton]
  cases row.isOf scope key
  · rfl
  · exact List.append_nil _

theorem known_deletePref (rows : List Preference) (scope key key' : Text) :
    known (deletePref rows scope key) key' =
      if scope = [] ∧ key' = key then none else known rows key' := by
  induction rows using List.reverseRecOn with
  | nil => simp [deletePref, known]
  | append_singleton rows row ih =>
    rw [deletePref_concat, known_concat]
    cases h : row.isOf scope key with
    | true =>
      have hcongr : row.isOf [] key' = true ↔ scope = [] ∧ key' = key := isOf_congr h
      rw [if_pos rfl, ih]
      by_cases hkey : scope = [] ∧ key' = key
      · rw [if_pos hkey, if_pos hkey]
      · rw [if_neg hkey, if_neg hkey, if_neg (mt hcongr.mp hkey)]
    | false =>
      rw [if_neg Bool.false_ne_true, known_concat, ih]
      by_cases hkey : scope = [] ∧ key' = key
      · obtain ⟨rfl, rfl⟩ := hkey
        have hself : ([] : Text) = [] ∧ key' = key' := ⟨rfl, rfl⟩
        rw [h, if_pos hself, if_pos hself, if_neg Bool.false_ne_true]
      · rw [if_neg hkey, if_neg hkey]

theorem known_mapPref (rows : List Preference) (scope key value key' : Text) :
    known (rows.map fun row => if row.isOf scope key then { row with value := value } else row) key' =
      if scope = [] ∧ key' = key then (known rows key').map fun _ => value else known rows key' := by
  induction rows using List.reverseRecOn with
  | nil => simp [known]
  | append_singleton rows row ih =>
    rw [List.map_append, List.map_singleton, known_concat, known_concat, ih]
    cases h : row.isOf scope key with
    | true =>
      have hcongr : row.isOf [] key' = true ↔ scope = [] ∧ key' = key := isOf_congr h
      have hvalue : Preference.isOf [] key' { row with value := value } = row.isOf [] key' := rfl
      rw [if_pos rfl, hvalue]
      by_cases hkey : scope = [] ∧ key' = key
      · rw [if_pos (hcongr.mpr hkey), if_pos hkey, if_pos (hcongr.mpr hkey), Option.map_some]
      · rw [if_neg (mt hcongr.mp hkey), if_neg hkey, if_neg hkey, if_neg (mt hcongr.mp hkey)]
    | false =>
      rw [if_neg Bool.false_ne_true]
      by_cases hkey : scope = [] ∧ key' = key
      · obtain ⟨rfl, rfl⟩ := hkey
        rw [h, if_neg Bool.false_ne_true, if_neg Bool.false_ne_true]
      · rw [if_neg hkey, if_neg hkey]

theorem known_isSome {rows : List Preference} {key : Text}
    (h : rows.any (Preference.isOf [] key) = true) : (known rows key).isSome := by
  unfold known
  rw [Option.isSome_map, List.find?_isSome]
  obtain ⟨row, hmem, hrow⟩ := List.any_eq_true.mp h
  exact ⟨row, List.mem_reverse.mpr hmem, hrow⟩

/-- What an accepted request stores. -/
theorem known_putPref {rows rows' : List Preference} {scope key value : Text}
    (h : putPref rows scope key value = some rows') (key' : Text) :
    known rows' key' = if scope = [] ∧ key' = key then (if value = [] then none else some value)
      else known rows key' := by
  unfold putPref at h
  split_ifs at h with hbounds hempty
  · cases h
    rw [known_deletePref, if_pos hempty]
  · cases h
    rw [if_neg hempty, insertPref]
    split_ifs with hany hkey hkey
    · obtain ⟨rfl, rfl⟩ := hkey
      obtain ⟨old, hold⟩ := Option.isSome_iff_exists.mp (known_isSome hany)
      rw [known_mapPref, if_pos ⟨rfl, rfl⟩, hold, Option.map_some]
    · rw [known_mapPref, if_neg hkey]
    · obtain ⟨rfl, rfl⟩ := hkey
      have hof : Preference.isOf [] key' ⟨[], key', value⟩ = true :=
        Preference.isOf_iff.mpr ⟨rfl, rfl⟩
      rw [known_concat, if_pos hof]
    · have hnot : ¬ Preference.isOf [] key' ⟨scope, key, value⟩ = true := fun hof =>
        hkey ((isOf_congr (Preference.isOf_iff.mpr ⟨rfl, rfl⟩)).mp hof)
      rw [known_concat, if_neg hnot]

end Kahawai.Web.Settings
