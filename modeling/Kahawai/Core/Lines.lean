import Mathlib.Data.List.TakeWhile
import Mathlib.Data.List.Induction
import Kahawai.Core.Decimal

/-!
# Lines and blocks

The functions of `str` that cut a text at a string, and what trimming and cutting leave: a text
that is trimmed at both ends, and the blocks between empty lines.

Results:
* `blocks_append`: an empty line behind a text that ends in no line break ends its blocks.
* `length_blocks`: the blocks and the breaks between them make up the text.
* `parseUnsigned_pad`: a number that is filled up with zeros is read back.
-/

namespace Kahawai.Core.Text

/-- `str::split_once` for a string: around its first occurrence. -/
def splitOnceStr (sep : Text) : Text → Option (Text × Text)
  | [] => if sep.isEmpty then some ([], []) else none
  | c :: s =>
    if sep.isPrefixOf (c :: s) then some ([], (c :: s).drop sep.length)
    else (splitOnceStr sep s).map fun (a, b) => (c :: a, b)

/-- `str::contains` for a string. -/
def containsStr (sep s : Text) : Bool := (splitOnceStr sep s).isSome

/-- `str::replace(c, "")`. -/
def removeChar (c : Char) (s : Text) : Text := s.filter (· ≠ c)

/-- `format!("{:0w}")`. -/
def pad (w n : ℕ) : Text := List.replicate (w - (ofNat n).length) '0' ++ ofNat n

/-! ## Ends -/

/-- A text with no white space at its ends. -/
structure Trimmed (s : Text) : Prop where
  first : ∀ c, s.head? = some c → isWhitespace c = false
  last : ∀ c, s.getLast? = some c → isWhitespace c = false

theorem trimEndMatches_append {p : Char → Bool} (a : Text) {b : Text}
    (h : ∃ c ∈ b, p c = false) : trimEndMatches p (a ++ b) = a ++ trimEndMatches p b := by
  unfold trimEndMatches
  obtain ⟨c, hc, hp⟩ := h
  have hne : b.reverse.dropWhile p ≠ [] := by
    intro hnil
    have := List.dropWhile_eq_nil_iff.mp hnil c (List.mem_reverse.mpr hc)
    rw [hp] at this
    cases this
  rw [List.reverse_append, List.dropWhile_append,
    if_neg (by rwa [List.isEmpty_iff]), List.reverse_append, List.reverse_reverse]

/-- What is trimmed at the end stands behind a character that stays. -/
theorem trimEndMatches_append_cons {p : Char → Bool} {c : Char} (hc : p c = false) (a b : Text) :
    trimEndMatches p (a ++ c :: b) = a ++ c :: trimEndMatches p b := by
  have hstop : ∀ l : Text, (l ++ c :: a.reverse).dropWhile p = l.dropWhile p ++ c :: a.reverse := by
    intro l
    induction l with
    | nil => exact List.dropWhile_cons_of_neg (by rw [hc]; decide)
    | cons d l ih =>
      rw [List.cons_append, List.dropWhile_cons, List.dropWhile_cons, ih]
      split_ifs <;> rfl
  rw [trimEndMatches, List.reverse_append, List.reverse_cons, List.append_assoc,
    List.singleton_append, hstop, List.reverse_append, List.reverse_cons, List.reverse_reverse,
    List.append_assoc]
  rfl

theorem trimEndMatches_of_last {p : Char → Bool} {s : Text}
    (h : ∀ c, s.getLast? = some c → p c = false) : trimEndMatches p s = s := by
  unfold trimEndMatches
  cases hrev : s.reverse with
  | nil => rw [List.dropWhile_nil, ← hrev, List.reverse_reverse]
  | cons c rest =>
    have hlast : s.getLast? = some c := by
      rw [← List.head?_reverse, hrev]
      rfl
    rw [List.dropWhile_cons_of_neg (by rw [h c hlast]; decide), ← hrev, List.reverse_reverse]

theorem trimEnd_of_last {s : Text} (h : ∀ c, s.getLast? = some c → isWhitespace c = false) :
    trimEnd s = s := trimEndMatches_of_last h

theorem Trimmed.trim_eq {s : Text} (h : Trimmed s) : trim s = s := by
  unfold trim trimMatches
  have hstart : trimStartMatches isWhitespace s = s := by
    unfold trimStartMatches
    cases s with
    | nil => rfl
    | cons c s => exact List.dropWhile_cons_of_neg (by rw [h.first c rfl]; decide)
  rw [hstart]
  exact trimEnd_of_last h.last

theorem trimEndMatches_last (p : Char → Bool) (s : Text) :
    ∀ c, (trimEndMatches p s).getLast? = some c → p c = false := by
  intro c hc
  unfold trimEndMatches at hc
  rw [List.getLast?_reverse] at hc
  have hhead := List.head?_dropWhile_not p s.reverse
  rw [hc] at hhead
  exact hhead

/-- What is left at the end is no white space. -/
theorem trimEnd_last (s : Text) : ∀ c, (trimEnd s).getLast? = some c → isWhitespace c = false :=
  trimEndMatches_last isWhitespace s

/-- The start stays where it is, if anything is left. -/
theorem trimEndMatches_isPrefix (p : Char → Bool) (s : Text) : trimEndMatches p s <+: s := by
  unfold trimEndMatches
  have hsuffix := List.dropWhile_suffix (l := s.reverse) p
  rw [← List.reverse_prefix, List.reverse_reverse] at hsuffix
  exact hsuffix

theorem trimEnd_isPrefix (s : Text) : trimEnd s <+: s := trimEndMatches_isPrefix isWhitespace s

theorem trim_trimmed (s : Text) : Trimmed (trim s) := by
  refine ⟨fun c hc => ?_, trimEnd_last _⟩
  obtain ⟨rest, hrest⟩ := trimEnd_isPrefix (trimStartMatches isWhitespace s)
  have hstart : (trimStartMatches isWhitespace s).head? = some c := by
    rw [← hrest, List.head?_append]
    change ((trim s).head?.or _) = _
    rw [hc]
    rfl
  have hhead := List.head?_dropWhile_not isWhitespace s
  unfold trimStartMatches at hstart
  rw [hstart] at hhead
  exact hhead

theorem length_trim_le (s : Text) : (trim s).length ≤ s.length := by
  unfold trim trimMatches
  exact (trimEnd_isPrefix _).length_le.trans (List.length_dropWhile_le _ _)

theorem mem_of_mem_trim {c : Char} {s : Text} (h : c ∈ trim s) : c ∈ s :=
  (List.dropWhile_sublist _).subset ((trimEnd_isPrefix (trimStartMatches isWhitespace s)).subset h)

/-! ## Blocks -/

/-- `str::split("\n\n")`. -/
def blocks (s : Text) : List Text := splitStr ['\n', '\n'] s

/-- Somewhere two such characters follow each other. -/
def hasPair (p : Char → Char → Bool) : Text → Bool
  | c :: d :: s => p c d || hasPair p (d :: s)
  | _ => false

/-- An empty line inside a text. -/
def hasBlank (s : Text) : Bool := hasPair (fun c d => c = '\n' && d = '\n') s

theorem splitStrFrom_nil (sep acc : Text) : splitStrFrom sep 0 acc [] = [acc.reverse] := rfl

theorem splitStrFrom_cons (sep acc : Text) (c : Char) (s : Text) : splitStrFrom sep 0 acc (c :: s) =
    if sep.isPrefixOf (c :: s) then acc.reverse :: splitStrFrom sep (sep.length - 1) [] s
    else splitStrFrom sep 0 (c :: acc) s := rfl

theorem splitStrFrom_break (acc s : Text) : splitStrFrom ['\n', '\n'] 0 acc ('\n' :: '\n' :: s) =
    acc.reverse :: splitStrFrom ['\n', '\n'] 0 [] s := rfl

theorem splitStrFrom_char {c d : Char} (h : ¬(c = '\n' ∧ d = '\n')) (acc s : Text) :
    splitStrFrom ['\n', '\n'] 0 acc (c :: d :: s) =
      splitStrFrom ['\n', '\n'] 0 (c :: acc) (d :: s) := by
  have hprefix : List.isPrefixOf ['\n', '\n'] (c :: d :: s) = false := by
    simp only [List.isPrefixOf, Bool.and_true, Bool.and_eq_false_iff, beq_eq_false_iff_ne]
    by_cases hc : c = '\n'
    · exact .inr fun hd => h ⟨hc, hd.symm⟩
    · exact .inl (Ne.symm hc)
  rw [splitStrFrom_cons, hprefix]
  rfl

theorem splitStrFrom_last (acc : Text) (c : Char) :
    splitStrFrom ['\n', '\n'] 0 acc [c] = [(c :: acc).reverse] := by
  rw [splitStrFrom_cons, if_neg (by simp [List.isPrefixOf]), splitStrFrom_nil]

/-- Induction over the rounds of the split. -/
theorem blocks_induction {P : Text → Prop} (nil : P []) (last : ∀ c, P [c])
    (block : ∀ s, P s → P ('\n' :: '\n' :: s))
    (char : ∀ c d s, ¬(c = '\n' ∧ d = '\n') → P (d :: s) → P (c :: d :: s)) : ∀ s, P s
  | [] => nil
  | [c] => last c
  | c :: d :: s => by
    by_cases h : c = '\n' ∧ d = '\n'
    · rw [h.1, h.2]
      exact block s (blocks_induction nil last block char s)
    · exact char c d s h (blocks_induction nil last block char (d :: s))

theorem splitStrFrom_append {x : Text} (h : x.getLast? ≠ some '\n') (acc rest : Text) :
    splitStrFrom ['\n', '\n'] 0 acc (x ++ '\n' :: '\n' :: rest) =
      splitStrFrom ['\n', '\n'] 0 acc x ++ blocks rest := by
  induction x using blocks_induction generalizing acc with
  | nil => rfl
  | last c =>
    have hc : c ≠ '\n' := fun heq => h (congrArg some heq)
    rw [List.singleton_append, splitStrFrom_char (fun hboth => hc hboth.1), splitStrFrom_break,
      splitStrFrom_last]
    rfl
  | block s ih =>
    have hs : s.getLast? ≠ some '\n' := by
      cases s with
      | nil => exact absurd rfl h
      | cons c s => rwa [List.getLast?_cons_cons, List.getLast?_cons_cons] at h
    rw [List.cons_append, List.cons_append, splitStrFrom_break, splitStrFrom_break, ih hs,
      List.cons_append]
  | char c d s hne ih =>
    rw [List.getLast?_cons_cons] at h
    rw [List.cons_append, List.cons_append, splitStrFrom_char hne, splitStrFrom_char hne]
    exact ih h (c :: acc)

/-- An empty line behind a text that ends in no line break ends its blocks. -/
theorem blocks_append {x : Text} (h : x.getLast? ≠ some '\n') (rest : Text) :
    blocks (x ++ '\n' :: '\n' :: rest) = blocks x ++ blocks rest := splitStrFrom_append h [] rest

theorem length_splitStrFrom (acc s : Text) :
    ((splitStrFrom ['\n', '\n'] 0 acc s).map List.length).sum +
      2 * (splitStrFrom ['\n', '\n'] 0 acc s).length = acc.length + s.length + 2 := by
  induction s using blocks_induction generalizing acc with
  | nil => simp [splitStrFrom_nil]
  | last c => simp [splitStrFrom_last]
  | block s ih =>
    rw [splitStrFrom_break]
    have hrest := ih []
    simp only [List.map_cons, List.sum_cons, List.length_cons, List.length_reverse,
      List.length_nil] at hrest ⊢
    omega
  | char c d s hne ih =>
    rw [splitStrFrom_char hne, ih (c :: acc)]
    simp only [List.length_cons]
    omega

/-- The blocks and the breaks between them make up the text. -/
theorem length_blocks (s : Text) :
    ((blocks s).map List.length).sum + 2 * (blocks s).length = s.length + 2 := by
  rw [blocks, splitStr, length_splitStrFrom, List.length_nil, Nat.zero_add]

theorem splitStrFrom_of_not_hasBlank (acc : Text) {s : Text} (h : hasBlank s = false) :
    splitStrFrom ['\n', '\n'] 0 acc s = [acc.reverse ++ s] := by
  induction s using blocks_induction generalizing acc with
  | nil => rw [splitStrFrom_nil, List.append_nil]
  | last c => simp [splitStrFrom_last]
  | block s ih => simp [hasBlank, hasPair] at h
  | char c d s hne ih =>
    have hrest : hasBlank (d :: s) = false := (Bool.or_eq_false_iff.mp h).2
    rw [splitStrFrom_char hne, ih (c :: acc) hrest, List.reverse_cons, List.append_assoc]
    rfl

/-- Without an empty line there is one block. -/
theorem blocks_of_not_hasBlank {s : Text} (h : hasBlank s = false) : blocks s = [s] :=
  splitStrFrom_of_not_hasBlank [] h

theorem splitStrFrom_of_hasBlank (acc : Text) {s : Text} (h : hasBlank s = true) :
    1 < (splitStrFrom ['\n', '\n'] 0 acc s).length := by
  have hpos : ∀ acc s, 0 < (splitStrFrom ['\n', '\n'] 0 acc s).length := by
    intro acc s
    have := length_splitStrFrom acc s
    by_contra hzero
    rw [Nat.le_zero.mp (Nat.not_lt.mp hzero), List.length_eq_zero_iff.mp
      (Nat.le_zero.mp (Nat.not_lt.mp hzero))] at this
    simp only [List.map_nil, List.sum_nil] at this
    omega
  induction s using blocks_induction generalizing acc with
  | nil => cases h
  | last c => cases h
  | block s ih =>
    rw [splitStrFrom_break, List.length_cons]
    exact Nat.succ_lt_succ (hpos _ _)
  | char c d s hne ih =>
    have hrest : hasBlank (d :: s) = true := by
      rcases Bool.or_eq_true_iff.mp h with hpair | hrest
      · simp only [Bool.and_eq_true, decide_eq_true_eq] at hpair
        exact absurd hpair hne
      · exact hrest
    rw [splitStrFrom_char hne]
    exact ih (c :: acc) hrest

/-- With one there are more. -/
theorem blocks_of_hasBlank {s : Text} (h : hasBlank s = true) : 1 < (blocks s).length :=
  splitStrFrom_of_hasBlank [] h

/-- What holds of a text holds of its blocks, if it holds of both sides of a line break. -/
theorem blocks_all {P : Text → Prop} (hsplit : ∀ a b, P (a ++ '\n' :: b) → P a ∧ P b) {s : Text}
    (h : P s) : ∀ b ∈ blocks s, P b := by
  have hfrom : ∀ acc s, P (acc.reverse ++ s) → ∀ b ∈ splitStrFrom ['\n', '\n'] 0 acc s, P b := by
    intro acc s
    induction s using blocks_induction generalizing acc with
    | nil =>
      intro h b hb
      obtain rfl := List.mem_singleton.mp hb
      rwa [List.append_nil] at h
    | last c =>
      intro h b hb
      rw [splitStrFrom_last] at hb
      obtain rfl := List.mem_singleton.mp hb
      rwa [List.reverse_cons]
    | block s ih =>
      intro h b hb
      obtain ⟨hfirst, hrest⟩ := hsplit _ _ h
      rw [splitStrFrom_break] at hb
      rcases List.mem_cons.mp hb with rfl | hb
      · exact hfirst
      · exact ih [] (hsplit [] _ hrest).2 b hb
    | char c d s hne ih =>
      intro h
      rw [splitStrFrom_char hne]
      refine ih (c :: acc) ?_
      rwa [List.reverse_cons, List.append_assoc]
  exact hfrom [] s h

/-- A line and what follows it begin the first block. -/
theorem splitStrFrom_line {x : Text} (h : '\n' ∉ x) {c : Char} (hc : c ≠ '\n') (acc s : Text) :
    splitStrFrom ['\n', '\n'] 0 acc (x ++ '\n' :: c :: s) =
      splitStrFrom ['\n', '\n'] 0 ('\n' :: (x.reverse ++ acc)) (c :: s) := by
  induction x generalizing acc with
  | nil => rw [List.nil_append, splitStrFrom_char fun hboth => hc hboth.2, List.reverse_nil, List.nil_append]
  | cons d x ih =>
    rw [List.mem_cons, not_or] at h
    have hd : ∀ e, ¬(d = '\n' ∧ e = '\n') := fun e hboth => h.1 hboth.1.symm
    have hstep : splitStrFrom ['\n', '\n'] 0 acc (d :: (x ++ '\n' :: c :: s)) =
        splitStrFrom ['\n', '\n'] 0 (d :: acc) (x ++ '\n' :: c :: s) := by
      cases x with
      | nil => exact splitStrFrom_char (hd _) acc _
      | cons e x => exact splitStrFrom_char (hd _) acc _
    rw [List.cons_append, hstep, ih h.2, List.reverse_cons, List.append_assoc]
    rfl

theorem splitStrFrom_eq_cons (acc s : Text) : ∃ first rest,
    blocks s = first :: rest ∧
      splitStrFrom ['\n', '\n'] 0 acc s = (acc.reverse ++ first) :: rest ∧
      ∀ c s', s = c :: s' → ¬(c = '\n' ∧ s'.head? = some '\n') → ∃ first', first = c :: first' := by
  have hfrom : ∀ acc acc' s, ∃ first rest,
      splitStrFrom ['\n', '\n'] 0 acc s = (acc.reverse ++ first) :: rest ∧
      splitStrFrom ['\n', '\n'] 0 acc' s = (acc'.reverse ++ first) :: rest ∧
      ∀ c s', s = c :: s' → ¬(c = '\n' ∧ s'.head? = some '\n') → ∃ first', first = c :: first' := by
    intro acc acc' s
    induction s using blocks_induction generalizing acc acc' with
    | nil =>
      refine ⟨[], [], ?_, ?_, fun c s' h => by cases h⟩
      · rw [List.append_nil]
        rfl
      · rw [List.append_nil]
        rfl
    | last c =>
      refine ⟨[c], [], ?_, ?_, fun d s' h _ => ?_⟩
      · rw [splitStrFrom_last, List.reverse_cons]
      · rw [splitStrFrom_last, List.reverse_cons]
      · obtain ⟨rfl, -⟩ := List.cons.inj h
        exact ⟨[], rfl⟩
    | block s ih =>
      refine ⟨[], blocks s, ?_, ?_, fun c s' h hne => ?_⟩
      · rw [splitStrFrom_break, List.append_nil]
        rfl
      · rw [splitStrFrom_break, List.append_nil]
        rfl
      · obtain ⟨rfl, rfl⟩ := List.cons.inj h
        exact absurd ⟨rfl, rfl⟩ hne
    | char c d s hne ih =>
      obtain ⟨first, rest, hfirst, hfirst', -⟩ := ih (c :: acc) (c :: acc')
      refine ⟨c :: first, rest, ?_, ?_, fun e s' h _ => ?_⟩
      · rw [splitStrFrom_char hne, hfirst, List.reverse_cons, List.append_assoc]
        rfl
      · rw [splitStrFrom_char hne, hfirst', List.reverse_cons, List.append_assoc]
        rfl
      · obtain ⟨rfl, -⟩ := List.cons.inj h
        exact ⟨first, rfl⟩
  obtain ⟨first, rest, hblocks, hacc, hhead⟩ := hfrom [] acc s
  exact ⟨first, rest, hblocks, hacc, hhead⟩

/-- A line before a text stands at the start of its first block. -/
theorem blocks_line {x : Text} (h : '\n' ∉ x) {c : Char} (hc : c ≠ '\n') (s : Text) :
    ∃ first rest, blocks (c :: s) = (c :: first) :: rest ∧
      blocks (x ++ '\n' :: c :: s) = (x ++ '\n' :: c :: first) :: rest := by
  obtain ⟨first, rest, hblocks, hline, hhead⟩ := splitStrFrom_eq_cons ('\n' :: x.reverse) (c :: s)
  obtain ⟨first, rfl⟩ := hhead c s rfl fun hboth => hc hboth.1
  refine ⟨first, rest, hblocks, ?_⟩
  rw [blocks, splitStr, splitStrFrom_line h hc, List.append_nil, hline, List.reverse_cons,
    List.reverse_reverse, List.append_assoc]
  rfl

/-! ## Cutting -/

/-- A text without the first character of the separator comes before it. -/
theorem splitOnceStr_cons (sep : Text) (c : Char) (s : Text) : splitOnceStr sep (c :: s) =
    if sep.isPrefixOf (c :: s) then some ([], (c :: s).drop sep.length)
    else (splitOnceStr sep s).map fun (a, b) => (c :: a, b) := rfl

theorem splitOnceStr_append {c : Char} {sep a : Text} (h : c ∉ a) (b : Text) :
    splitOnceStr (c :: sep) (a ++ c :: sep ++ b) = some (a, b) := by
  induction a with
  | nil =>
    have hprefix : List.isPrefixOf (c :: sep) (c :: sep ++ b) = true :=
      List.isPrefixOf_iff_prefix.mpr (List.prefix_append _ _)
    rw [List.nil_append, List.cons_append, splitOnceStr_cons, ← List.cons_append, if_pos hprefix,
      List.drop_left]
  | cons d a ih =>
    rw [List.mem_cons, not_or] at h
    have hprefix : ¬List.isPrefixOf (c :: sep) (d :: (a ++ c :: sep ++ b)) = true := by
      simp [List.isPrefixOf, h.1]
    rw [List.append_assoc, List.cons_append, ← List.append_assoc, splitOnceStr_cons, if_neg hprefix,
      ih h.2]
    rfl

theorem splitOnceStr_none {c : Char} {sep a : Text} (h : c ∉ a) :
    splitOnceStr (c :: sep) a = none := by
  induction a with
  | nil => rfl
  | cons d a ih =>
    rw [List.mem_cons, not_or] at h
    have hprefix : ¬List.isPrefixOf (c :: sep) (d :: a) = true := by
      simp [List.isPrefixOf, h.1]
    rw [splitOnceStr_cons, if_neg hprefix, ih h.2]
    rfl

/-- A text without such a character comes after the last of them. -/
theorem rsplitOnce_append {p : Char → Bool} {c : Char} (hc : p c = true) {b : Text}
    (hb : ∀ d ∈ b, p d = false) (a : Text) : rsplitOnce p (a ++ c :: b) = some (a, b) := by
  have hrev : (a ++ c :: b).reverse = b.reverse ++ c :: a.reverse := by simp
  have hall : ∀ d ∈ b.reverse, p d = false := fun d hd => hb d (List.mem_reverse.mp hd)
  simp only [rsplitOnce, hrev, splitOnce_append hc hall, Option.map_some, List.reverse_reverse]

theorem bytePrefix_ascii {s : Text} (h : ∀ c ∈ s, isAscii c = true) :
    bytePrefix s s.length = some s := by
  induction s with
  | nil => rfl
  | cons c s ih =>
    obtain ⟨hc, hs⟩ := List.forall_mem_cons.mp h
    have hsize : c.utf8Size = 1 := by
      rw [Char.utf8Size_eq_one_iff]
      have hlt : c.toNat < 128 := of_decide_eq_true hc
      have : c.val.toNat < 128 := hlt
      exact UInt32.le_iff_toNat_le.mpr (by simpa using Nat.le_of_lt_succ this)
    rw [List.length_cons, bytePrefix, if_pos (by omega), hsize, Nat.add_sub_cancel, ih hs]
    rfl

/-! ## Numbers -/

theorem isAsciiDigit_of_mem_pad {w n : ℕ} {c : Char} (h : c ∈ pad w n) : isAsciiDigit c = true := by
  rcases List.mem_append.mp h with h | h
  · rw [List.eq_of_mem_replicate h]
    decide
  · exact isAsciiDigit_of_mem_ofNat h

theorem pad_ne_nil (w n : ℕ) : pad w n ≠ [] := List.append_ne_nil_of_right_ne_nil _ ofNat_ne_nil

theorem length_pad (w n : ℕ) : (pad w n).length = max w (ofNat n).length := by
  rw [pad, List.length_append, List.length_replicate]
  omega

/-- A larger number is not shorter. -/
theorem length_ofNat_le {n m : ℕ} (h : n ≤ m) : (ofNat n).length ≤ (ofNat m).length := by
  have hm := (Nat.length_toDigits_le_iff (b := 10) (n := m) (k := (ofNat m).length) (by decide)
    (List.length_pos_of_ne_nil ofNat_ne_nil)).mp (Nat.le_refl _)
  exact (Nat.length_toDigits_le_iff (by decide) (List.length_pos_of_ne_nil ofNat_ne_nil)).mpr
    (h.trans_lt hm)

theorem length_pad_of_lt {w n : ℕ} (hw : 0 < w) (h : n < 10 ^ w) : (pad w n).length = w := by
  rw [length_pad]
  exact Nat.max_eq_left ((Nat.length_toDigits_le_iff (by decide) hw).mpr h)

theorem digitsValue_pad (w n : ℕ) : digitsValue (pad w n) = n := by
  have hzeros : ∀ k, digitsValue (List.replicate k '0' ++ ofNat n) = n := by
    intro k
    induction k with
    | zero => exact digitsValue_ofNat
    | succ k ih => exact ih
  exact hzeros _

/-- A number that is filled up with zeros is read back. -/
theorem parseUnsigned_pad {bound n : ℕ} (h : n < bound) (w : ℕ) :
    parseUnsigned bound (pad w n) = some n := by
  have hsign : stripPrefixChar (· = '+') (pad w n) = none := by
    cases hdigits : pad w n with
    | nil => rfl
    | cons c s =>
      have hc : isAsciiDigit c = true :=
        isAsciiDigit_of_mem_pad (w := w) (n := n) (hdigits ▸ List.mem_cons_self)
      have hplus : c ≠ '+' := by
        rintro rfl
        cases hc
      simp [stripPrefixChar, hplus]
  have hall : (pad w n).all isAsciiDigit = true :=
    List.all_eq_true.2 fun _ => isAsciiDigit_of_mem_pad
  have hempty : (pad w n).isEmpty = false := List.isEmpty_eq_false_iff.2 (pad_ne_nil w n)
  simp only [parseUnsigned, hsign, Option.getD_none, hempty, hall, Bool.not_true, Bool.or_self,
    Bool.false_eq_true, if_false, digitsValue_pad, h, if_true]

end Kahawai.Core.Text
