import Mathlib.Data.List.Basic
import Mathlib.Algebra.GroupWithZero.Nat

/-!
# Checked computations

Arithmetic of a fixed width and accesses to a list, each of which stops the computation where the
program would overflow or panic. A loop with fuel stops with `unfinished` when it runs out.

Results:
* `add_eq`, `sub_eq`, `mul_eq`, `index_eq`, `slice_eq`, `drain_eq`: when the operations go through.
* `add_eq_ok` and its like: what a computation that went through has computed.
* `mapM_eq`, `findSomeM?_eq`: a pass over a list whose every step goes through.
* `Ensures.bind`, `Ensures.mapM`: the rules for a sequence of steps and for a pass over a list.
* `GoesThrough.bind`, `GoesThrough.foldlM`: the same, with the exact condition.
-/

namespace Kahawai.Lib

/-- Why a computation stops. -/
inductive Fault
  | overflow
  | outOfRange
  | unfinished
  deriving DecidableEq

abbrev Checked (α : Type) := Except Fault α

namespace Checked

variable {α β : Type} {bits a b n : ℕ}

/-- `a + b` of unsigned numbers of this width. -/
def add (bits a b : ℕ) : Checked ℕ := if a + b < 2 ^ bits then .ok (a + b) else .error .overflow

/-- `a - b`. -/
def sub (a b : ℕ) : Checked ℕ := if b ≤ a then .ok (a - b) else .error .overflow

/-- `a * b`. -/
def mul (bits a b : ℕ) : Checked ℕ := if a * b < 2 ^ bits then .ok (a * b) else .error .overflow

/-- `l[i]`. -/
def index (l : List α) (i : ℕ) : Checked α :=
  match l[i]? with
  | some x => .ok x
  | none => .error .outOfRange

/-- `&l[start..stop]`. -/
def slice (l : List α) (start stop : ℕ) : Checked (List α) :=
  if start ≤ stop ∧ stop ≤ l.length then .ok ((l.drop start).take (stop - start))
  else .error .outOfRange

/-- `l.drain(start..stop)`: what is left. -/
def drain (l : List α) (start stop : ℕ) : Checked (List α) :=
  if start ≤ stop ∧ stop ≤ l.length then .ok (l.take start ++ l.drop stop)
  else .error .outOfRange

theorem add_eq (h : a + b < 2 ^ bits) : add bits a b = .ok (a + b) := if_pos h

theorem sub_eq (h : b ≤ a) : sub a b = .ok (a - b) := if_pos h

theorem mul_eq (h : a * b < 2 ^ bits) : mul bits a b = .ok (a * b) := if_pos h

theorem index_eq {l : List α} {i : ℕ} {x : α} (h : l[i]? = some x) : index l i = .ok x := by
  simp only [index, h]

theorem slice_eq {l : List α} {start stop : ℕ} (h : start ≤ stop) (h' : stop ≤ l.length) :
    slice l start stop = .ok ((l.drop start).take (stop - start)) := if_pos ⟨h, h'⟩

theorem slice_take {l : List α} {i : ℕ} (h : i ≤ l.length) : slice l 0 i = .ok (l.take i) := by
  rw [slice_eq (Nat.zero_le i) h, List.drop_zero, Nat.sub_zero]

theorem slice_suffix {l : List α} {i : ℕ} (h : i ≤ l.length) :
    slice l i l.length = .ok (l.drop i) := by
  rw [slice_eq h (Nat.le_refl _), List.take_of_length_le (Nat.le_of_eq List.length_drop)]

theorem drain_eq {l : List α} {start stop : ℕ} (h : start ≤ stop) (h' : stop ≤ l.length) :
    drain l start stop = .ok (l.take start ++ l.drop stop) := if_pos ⟨h, h'⟩

theorem index_append (l : List α) (x : α) (rest : List α) :
    index (l ++ x :: rest) l.length = .ok x := index_eq (by simp)

theorem add_eq_ok (h : add bits a b = .ok n) : a + b < 2 ^ bits ∧ n = a + b := by
  unfold add at h
  split_ifs at h with hlt
  exact ⟨hlt, (Except.ok.inj h).symm⟩

theorem add_overflow (h : 2 ^ bits ≤ a + b) : add bits a b = .error .overflow :=
  if_neg (Nat.not_lt.mpr h)

@[simp] theorem ok_bind (x : α) (f : α → Checked β) : ((.ok x : Checked α) >>= f) = f x := rfl

@[simp] theorem error_bind (e : Fault) (f : α → Checked β) :
    ((.error e : Checked α) >>= f) = .error e := rfl

@[simp] theorem pure_eq (x : α) : (pure x : Checked α) = .ok x := rfl

theorem mapM_eq {f : α → Checked β} {g : α → β} {l : List α} (h : ∀ x ∈ l, f x = .ok (g x)) :
    l.mapM f = .ok (l.map g) := by
  induction l with
  | nil => rfl
  | cons x l ih =>
    rw [List.mapM_cons, h x List.mem_cons_self, ok_bind,
      ih fun y hy => h y (List.mem_cons_of_mem _ hy), ok_bind, pure_eq, List.map_cons]

theorem findSomeM?_eq {f : α → Checked (Option β)} {g : α → Option β} {l : List α}
    (h : ∀ x ∈ l, f x = .ok (g x)) : l.findSomeM? f = .ok (l.findSome? g) := by
  induction l with
  | nil => rfl
  | cons x l ih =>
    rw [List.findSomeM?, h x List.mem_cons_self, ok_bind, List.findSome?_cons]
    cases g x with
    | some y => rfl
    | none => exact ih fun y hy => h y (List.mem_cons_of_mem _ hy)

/-! ## What a computation ensures -/

/-- `out[start..start + bytes.len()].copy_from_slice(bytes)`. -/
def copyAt (out : List α) (start : ℕ) (bytes : List α) : Checked (List α) :=
  if start + bytes.length ≤ out.length then
    .ok (out.take start ++ bytes ++ out.drop (start + bytes.length))
  else .error .outOfRange

/-- The computation goes through with such a result. -/
def Ensures (m : Checked α) (P : α → Prop) : Prop := ∃ x, m = .ok x ∧ P x

variable {m : Checked α} {P : α → Prop} {Q : β → Prop}

theorem ensures_ok {x : α} (h : P x) : Ensures (.ok x) P := ⟨x, rfl, h⟩

theorem Ensures.bind {f : α → Checked β} (hm : Ensures m P) (hf : ∀ x, P x → Ensures (f x) Q) :
    Ensures (m >>= f) Q := by
  obtain ⟨x, rfl, hx⟩ := hm
  exact hf x hx

theorem Ensures.mono {P' : α → Prop} (hm : Ensures m P) (h : ∀ x, P x → P' x) : Ensures m P' := by
  obtain ⟨x, hx, hP⟩ := hm
  exact ⟨x, hx, h x hP⟩

/-- A pass over a list. -/
theorem Ensures.mapM {f : α → Checked β} {l : List α} (hf : ∀ x ∈ l, Ensures (f x) Q) :
    Ensures (l.mapM f) fun ys => ys.length = l.length ∧ ∀ y ∈ ys, Q y := by
  induction l with
  | nil => exact ensures_ok ⟨rfl, by simp⟩
  | cons x l ih =>
    rw [List.mapM_cons]
    refine (hf x List.mem_cons_self).bind fun y hy => ?_
    refine (ih fun z hz => hf z (List.mem_cons_of_mem _ hz)).bind fun ys hys => ensures_ok ?_
    exact ⟨congrArg (· + 1) hys.1, List.forall_mem_cons.mpr ⟨hy, hys.2⟩⟩

theorem ensures_add (h : a + b < 2 ^ bits) : Ensures (add bits a b) (· = a + b) :=
  ⟨_, add_eq h, rfl⟩

theorem ensures_sub (h : b ≤ a) : Ensures (sub a b) (· = a - b) := ⟨_, sub_eq h, rfl⟩

theorem ensures_mul (h : a * b < 2 ^ bits) : Ensures (mul bits a b) (· = a * b) :=
  ⟨_, mul_eq h, rfl⟩

theorem ensures_index {l : List α} {i : ℕ} (h : i < l.length) :
    Ensures (index l i) (l[i]? = some ·) :=
  ⟨_, index_eq (List.getElem?_eq_getElem h), List.getElem?_eq_getElem h⟩

/-- A write inside the range keeps the length. -/
theorem ensures_copyAt {out bytes : List α} {start : ℕ} (h : start + bytes.length ≤ out.length) :
    Ensures (copyAt out start bytes) (·.length = out.length) := by
  refine ⟨_, if_pos h, ?_⟩
  simp only [List.length_append, List.length_take, List.length_drop]
  omega

/-! ## When a computation goes through -/

/-- The computation goes through exactly if `c`, and then with the result `x`. -/
def GoesThrough (m : Checked α) (c : Prop) (x : α) : Prop := (c → m = .ok x) ∧ ((∃ y, m = .ok y) → c)

variable {c d : Prop} {x : α} {y : β}

theorem goesThrough_ok : GoesThrough (.ok x) True x := ⟨fun _ => rfl, fun _ => trivial⟩

theorem GoesThrough.iff (hm : GoesThrough m c x) : (∃ y, m = .ok y) ↔ c :=
  ⟨hm.2, fun hc => ⟨x, hm.1 hc⟩⟩

theorem GoesThrough.congr (hm : GoesThrough m c x) (h : c ↔ d) : GoesThrough m d x :=
  ⟨fun hd => hm.1 (h.mpr hd), fun hex => h.mp (hm.2 hex)⟩

theorem GoesThrough.bind {f : α → Checked β} (hm : GoesThrough m c x)
    (hf : c → GoesThrough (f x) d y) : GoesThrough (m >>= f) (c ∧ d) y := by
  constructor
  · rintro ⟨hc, hd⟩
    rw [hm.1 hc, ok_bind]
    exact (hf hc).1 hd
  · rintro ⟨z, hz⟩
    have hc : c := by
      cases hrun : m with
      | ok x' => exact hm.2 ⟨x', hrun⟩
      | error e =>
        rw [hrun, error_bind] at hz
        cases hz
    rw [hm.1 hc, ok_bind] at hz
    exact ⟨hc, (hf hc).2 ⟨z, hz⟩⟩

theorem goesThrough_add : GoesThrough (add bits a b) (a + b < 2 ^ bits) (a + b) :=
  ⟨add_eq, fun ⟨_, h⟩ => (add_eq_ok h).1⟩

theorem goesThrough_mul : GoesThrough (mul bits a b) (a * b < 2 ^ bits) (a * b) := by
  refine ⟨mul_eq, fun ⟨n, h⟩ => ?_⟩
  unfold mul at h
  split_ifs at h with hlt
  exact hlt

/-- A pass over a list. -/
theorem GoesThrough.mapM {f : α → Checked β} {g : α → β} {fits : α → Prop} {l : List α}
    (hf : ∀ x ∈ l, GoesThrough (f x) (fits x) (g x)) :
    GoesThrough (l.mapM f) (∀ x ∈ l, fits x) (l.map g) := by
  induction l with
  | nil => exact goesThrough_ok.congr (by simp)
  | cons x l ih =>
    rw [List.mapM_cons]
    have hrest := ih fun y hy => hf y (List.mem_cons_of_mem _ hy)
    have hcons := hrest.bind (f := fun ys => .ok (g x :: ys)) fun _ => goesThrough_ok
    refine ((hf x List.mem_cons_self).bind fun _ => hcons).congr ?_
    rw [and_true, List.forall_mem_cons]

/-- A loop over a list that keeps an invariant. -/
theorem GoesThrough.foldlM {f : β → α → Checked β} {g : β → α → β} {fits : α → Prop}
    {I : β → Prop} (hf : ∀ b x, I b → GoesThrough (f b x) (fits x) (g b x))
    (hI : ∀ b x, I b → I (g b x)) (l : List α) {b : β} (hb : I b) :
    GoesThrough (l.foldlM f b) (∀ x ∈ l, fits x) (l.foldl g b) := by
  induction l generalizing b with
  | nil => exact goesThrough_ok.congr (by simp)
  | cons x l ih =>
    rw [List.foldlM_cons]
    exact ((hf b x hb).bind fun _ => ih (hI b x hb)).congr List.forall_mem_cons.symm

end Checked

end Kahawai.Lib
