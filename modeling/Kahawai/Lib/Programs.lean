import Mathlib.Order.Basic

/-!
# Programs with a state and errors

A program of type `EStateM ε σ α` reads and changes a state of type `σ` and
either returns an `α` or stops with an `ε`. Three facts about a program, each
with its rule for sequencing:

* `Keeps I m`: if `m` returns, the invariant `I` still holds;
* `Returns m Q`: if `m` returns a value, `Q` holds of it;
* `Avoids e m`: `m` never stops with `e`.

`Yields I m x` says the first two at once and exactly: from a state with the
invariant, `m` ends with the value or the error `x` and keeps the invariant.

`loop` repeats a program at most `fuel` times and stops with a given error when
the fuel runs out; `loop_avoids` shows by a measure that it does not.
-/

namespace Kahawai.Lib

variable {ε σ α β τ : Type}

/-- If the program returns, the invariant still holds. -/
def Keeps (I : σ → Prop) (m : EStateM ε σ α) : Prop :=
  ∀ s a s', I s → m s = .ok a s' → I s'

/-- If the program returns a value, the property holds of it. -/
def Returns (m : EStateM ε σ α) (Q : α → Prop) : Prop :=
  ∀ s a s', m s = .ok a s' → Q a

/-- The program never stops with this error. -/
def Avoids (e : ε) (m : EStateM ε σ α) : Prop :=
  ∀ s s', m s ≠ .error e s'

/-- What a program ends with. -/
def outcome (m : EStateM ε σ α) (s : σ) : Except ε α :=
  match m s with
  | .ok a _ => .ok a
  | .error e _ => .error e

/-- From a state with the invariant the program ends with `x`, and if it returns, the
    invariant still holds. -/
def Yields (I : σ → Prop) (m : EStateM ε σ α) (x : Except ε α) : Prop :=
  ∀ s, I s → outcome m s = x ∧ ∀ a s', m s = .ok a s' → I s'

/-- From a state with the invariant, if the program returns a value, the property
    holds of it and the invariant still holds. -/
def Ensures (I : σ → Prop) (m : EStateM ε σ α) (Q : α → Prop) : Prop :=
  ∀ s a s', I s → m s = .ok a s' → Q a ∧ I s'

/-- Repeat `body` until it is done. -/
def loop (outOfFuel : ε) (body : τ → EStateM ε σ (τ ⊕ α)) : ℕ → τ → EStateM ε σ α
  | 0, _ => throw outOfFuel
  | fuel + 1, t => do
    match ← body t with
    | .inl t' => loop outOfFuel body fuel t'
    | .inr a => pure a

section Bind

variable {m : EStateM ε σ α} {f : α → EStateM ε σ β} {s s' : σ} {b : β} {e : ε}

theorem bind_eq_ok :
    (m >>= f) s = .ok b s' ↔ ∃ a s₁, m s = .ok a s₁ ∧ f a s₁ = .ok b s' := by
  show EStateM.bind m f s = _ ↔ _
  rw [EStateM.bind]
  cases hm : m s with
  | ok a s₁ =>
    constructor
    · intro h
      exact ⟨a, s₁, rfl, h⟩
    · rintro ⟨a', s₂, ⟨⟩, h⟩
      exact h
  | error e₁ s₁ => simp

theorem bind_eq_error :
    (m >>= f) s = .error e s' ↔
      m s = .error e s' ∨ ∃ a s₁, m s = .ok a s₁ ∧ f a s₁ = .error e s' := by
  show EStateM.bind m f s = _ ↔ _
  rw [EStateM.bind]
  cases hm : m s with
  | ok a s₁ =>
    constructor
    · intro h
      exact Or.inr ⟨a, s₁, rfl, h⟩
    · rintro (⟨⟨⟩⟩ | ⟨a', s₂, ⟨⟩, h⟩)
      exact h
  | error e₁ s₁ => simp

end Bind

/-! ## Invariants -/

section Keeps

variable {I : σ → Prop} {m : EStateM ε σ α} {f : α → EStateM ε σ β}

theorem keeps_pure (a : α) : Keeps I (pure a : EStateM ε σ α) := by
  intro s b s' hI h
  cases h
  exact hI

theorem keeps_throw (e : ε) : Keeps I (throw e : EStateM ε σ α) := by
  intro s a s' _ h
  cases h

/-- What follows only has to keep the invariant on values the first program
    returns. -/
theorem keeps_bind_returns {Q : α → Prop} (hm : Keeps I m) (hQ : Returns m Q)
    (hf : ∀ a, Q a → Keeps I (f a)) : Keeps I (m >>= f) := by
  intro s b s' hI h
  obtain ⟨a, s₁, h₁, h₂⟩ := bind_eq_ok.mp h
  exact hf a (hQ s a s₁ h₁) s₁ b s' (hm s a s₁ hI h₁) h₂

theorem keeps_bind (hm : Keeps I m) (hf : ∀ a, Keeps I (f a)) : Keeps I (m >>= f) :=
  keeps_bind_returns hm (fun _ _ _ _ => trivial) fun a (_ : True) => hf a

theorem keeps_loop {e : ε} {body : τ → EStateM ε σ (τ ⊕ α)} (hbody : ∀ t, Keeps I (body t))
    (fuel : ℕ) (t : τ) : Keeps I (loop e body fuel t) := by
  induction fuel generalizing t with
  | zero => exact keeps_throw e
  | succ fuel ih =>
    refine keeps_bind (hbody t) fun r => ?_
    cases r with
    | inl t' => exact ih t'
    | inr a => exact keeps_pure a

theorem keeps_foldlM {g : β → α → EStateM ε σ β} (hg : ∀ b a, Keeps I (g b a)) (l : List α)
    (b : β) : Keeps I (l.foldlM g b) := by
  induction l generalizing b with
  | nil => exact keeps_pure b
  | cons a l ih =>
    rw [List.foldlM_cons]
    exact keeps_bind (hg b a) ih

end Keeps

/-! ## Results and termination -/

section Ends

variable {m : EStateM ε σ α} {f : α → EStateM ε σ β} {e : ε}

theorem returns_pure {Q : α → Prop} {a : α} (h : Q a) : Returns (pure a : EStateM ε σ α) Q := by
  intro s b s' hb
  cases hb
  exact h

theorem returns_bind {P : α → Prop} {Q : β → Prop} (hm : Returns m P)
    (hf : ∀ a, P a → Returns (f a) Q) : Returns (m >>= f) Q := by
  intro s b s' h
  obtain ⟨a, s₁, h₁, h₂⟩ := bind_eq_ok.mp h
  exact hf a (hm s a s₁ h₁) s₁ b s' h₂

/-- What follows returns such a value, whatever it is given. -/
theorem returns_any {Q : β → Prop} (hf : ∀ a, Returns (f a) Q) : Returns (m >>= f) Q :=
  returns_bind (fun _ _ _ _ => trivial) fun a (_ : True) => hf a

theorem avoids_pure (a : α) : Avoids e (pure a : EStateM ε σ α) := by
  intro s s' h
  cases h

theorem avoids_throw {e' : ε} (h : e' ≠ e) : Avoids e (throw e' : EStateM ε σ α) := by
  intro s s' hthrow
  cases hthrow
  exact h rfl

theorem avoids_bind_returns {Q : α → Prop} (hm : Avoids e m) (hQ : Returns m Q)
    (hf : ∀ a, Q a → Avoids e (f a)) : Avoids e (m >>= f) := by
  intro s s' h
  rcases bind_eq_error.mp h with hm' | ⟨a, s₁, ha, hf'⟩
  · exact hm s s' hm'
  · exact hf a (hQ s a s₁ ha) s₁ s' hf'

theorem avoids_bind (hm : Avoids e m) (hf : ∀ a, Avoids e (f a)) : Avoids e (m >>= f) :=
  avoids_bind_returns hm (fun _ _ _ _ => trivial) fun a (_ : True) => hf a

/-- A loop whose measure decreases ends before the fuel does. -/
theorem loop_avoids {body : τ → EStateM ε σ (τ ⊕ α)} (μ : τ → ℕ)
    (hbody : ∀ t, Avoids e (body t))
    (hμ : ∀ t, Returns (body t) fun r => ∀ t', r = .inl t' → μ t' < μ t)
    {fuel : ℕ} {t : τ} (hfuel : μ t < fuel) : Avoids e (loop e body fuel t) := by
  induction fuel generalizing t with
  | zero => omega
  | succ fuel ih =>
    intro s s' h
    rcases bind_eq_error.mp h with hstop | ⟨r, s₁, hr, hrest⟩
    · exact hbody t s s' hstop
    · cases r with
      | inl t' =>
        have hless := hμ t s _ s₁ hr t' rfl
        exact ih (t := t') (by omega) s₁ s' hrest
      | inr a => exact avoids_pure a s₁ s' hrest

theorem avoids_foldlM {g : β → α → EStateM ε σ β} (hg : ∀ b a, Avoids e (g b a)) (l : List α)
    (b : β) : Avoids e (l.foldlM g b) := by
  induction l generalizing b with
  | nil => exact avoids_pure b
  | cons a l ih =>
    rw [List.foldlM_cons]
    exact avoids_bind (hg b a) ih

end Ends

/-! ## Exact results -/

section Yields

variable {I : σ → Prop} {m : EStateM ε σ α} {f : α → EStateM ε σ β} {a : α} {x : Except ε β} {e : ε}

theorem outcome_bind_congr {f' : α → EStateM ε σ β} {s : σ}
    (h : ∀ a s', m s = .ok a s' → outcome (f a) s' = outcome (f' a) s') :
    outcome (m >>= f) s = outcome (m >>= f') s := by
  show outcome (EStateM.bind m f) s = outcome (EStateM.bind m f') s
  unfold outcome EStateM.bind
  cases hm : m s with
  | error e s' => rfl
  | ok a s' => exact h a s' hm

theorem yields_pure (a : α) : Yields I (pure a : EStateM ε σ α) (.ok a) :=
  fun _ hI => ⟨rfl, fun _ _ h => by cases h; exact hI⟩

theorem yields_throw (e : ε) : Yields I (throw e : EStateM ε σ α) (.error e) :=
  fun _ _ => ⟨rfl, fun _ _ h => by cases h⟩

theorem Yields.eq_ok (h : Yields I m (.ok a)) {s : σ} (hI : I s) : ∃ s', m s = .ok a s' ∧ I s' := by
  obtain ⟨hout, hkeeps⟩ := h s hI
  unfold outcome at hout
  cases hm : m s with
  | ok a' s' =>
    rw [hm] at hout
    cases hout
    exact ⟨s', rfl, hkeeps a s' hm⟩
  | error e s' =>
    rw [hm] at hout
    cases hout

theorem Yields.eq_error (h : Yields I m (.error e)) {s : σ} (hI : I s) : ∃ s', m s = .error e s' := by
  obtain ⟨hout, -⟩ := h s hI
  unfold outcome at hout
  cases hm : m s with
  | ok a' s' =>
    rw [hm] at hout
    cases hout
  | error e' s' =>
    rw [hm] at hout
    cases hout
    exact ⟨s', rfl⟩

theorem yields_bind (hm : Yields I m (.ok a)) (hf : Yields I (f a) x) : Yields I (m >>= f) x := by
  intro s hI
  obtain ⟨s', hs', hI'⟩ := hm.eq_ok hI
  have heq : (m >>= f) s = f a s' := by
    show EStateM.bind m f s = _
    unfold EStateM.bind
    rw [hs']
  unfold outcome
  rw [heq]
  exact hf s' hI'

theorem yields_bind_error (hm : Yields I m (.error e)) : Yields I (m >>= f) (.error e) := by
  intro s hI
  obtain ⟨s', hs'⟩ := hm.eq_error hI
  have heq : (m >>= f) s = .error e s' := by
    show EStateM.bind m f s = _
    unfold EStateM.bind
    rw [hs']
  unfold outcome
  rw [heq]
  exact ⟨rfl, fun _ _ h => by cases h⟩

/-- Programs that follow each other do what their results do. -/
theorem yields_bind_except {y : Except ε α} {g : α → Except ε β} (hm : Yields I m y)
    (hf : ∀ a, Yields I (f a) (g a)) : Yields I (m >>= f) (y >>= g) := by
  cases y with
  | error e => exact yields_bind_error hm
  | ok a => exact yields_bind hm (hf a)

theorem yields_foldlM {h : β → α → EStateM ε σ β} {g : β → α → Except ε β}
    (hg : ∀ b a, Yields I (h b a) (g b a)) (l : List α) (b : β) :
    Yields I (l.foldlM h b) (l.foldlM g b) := by
  induction l generalizing b with
  | nil => exact yields_pure b
  | cons a l ih =>
    rw [List.foldlM_cons, List.foldlM_cons]
    exact yields_bind_except (hg b a) ih

/-- A loop that goes on. -/
theorem yields_loop_next {outOfFuel : ε} {body : τ → EStateM ε σ (τ ⊕ β)} {t t' : τ} {fuel : ℕ}
    (hbody : Yields I (body t) (.ok (.inl t'))) (hrest : Yields I (loop outOfFuel body fuel t') x) :
    Yields I (loop outOfFuel body (fuel + 1) t) x :=
  yields_bind hbody hrest

/-- A loop that is done. -/
theorem yields_loop_done {outOfFuel : ε} {body : τ → EStateM ε σ (τ ⊕ β)} {t : τ} {b : β} (fuel : ℕ)
    (hbody : Yields I (body t) (.ok (.inr b))) :
    Yields I (loop outOfFuel body (fuel + 1) t) (.ok b) :=
  yields_bind hbody (yields_pure b)

theorem ensures_of_returns {Q : α → Prop} (hm : Returns m Q) (hkeeps : Keeps I m) : Ensures I m Q :=
  fun s a s' hI h => ⟨hm s a s' h, hkeeps s a s' hI h⟩

theorem ensures_of_yields (h : Yields I m (.ok a)) : Ensures I m (· = a) := by
  intro s b s' hI hb
  obtain ⟨s₁, hs₁, hI₁⟩ := h.eq_ok hI
  rw [hs₁] at hb
  cases hb
  exact ⟨rfl, hI₁⟩

theorem ensures_pure {Q : α → Prop} (h : Q a) : Ensures I (pure a : EStateM ε σ α) Q :=
  ensures_of_returns (returns_pure h) (keeps_pure a)

theorem ensures_bind {P : α → Prop} {Q : β → Prop} (hm : Ensures I m P)
    (hf : ∀ a, P a → Ensures I (f a) Q) : Ensures I (m >>= f) Q := by
  intro s b s' hI h
  obtain ⟨a, s₁, h₁, h₂⟩ := bind_eq_ok.mp h
  obtain ⟨ha, hI₁⟩ := hm s a s₁ hI h₁
  exact hf a ha s₁ b s' hI₁ h₂

end Yields

/-! ## Programs that pass their state -/

section Except

variable {x : Except ε α} {f : α → Except ε β}

theorem except_bind_eq_ok {b : β} :
    (x >>= f) = .ok b ↔ ∃ a, x = .ok a ∧ f a = .ok b := by
  cases x with
  | error e => simp [bind, Except.bind]
  | ok a => simp [bind, Except.bind]

/-- What every step preserves if it succeeds holds after a loop that succeeds. -/
theorem except_foldlM_invariant {I : σ → Prop} {g : σ → α → Except ε σ} {l : List α} {s s' : σ}
    (h : l.foldlM g s = .ok s') (hs : I s)
    (hstep : ∀ a ∈ l, ∀ t t', I t → g t a = .ok t' → I t') : I s' := by
  induction l generalizing s with
  | nil =>
    cases h
    exact hs
  | cons a l ih =>
    rw [List.foldlM_cons] at h
    obtain ⟨t, ht, h⟩ := except_bind_eq_ok.mp h
    exact ih h (hstep a List.mem_cons_self s t hs ht)
      fun a' ha' => hstep a' (List.mem_cons_of_mem a ha')

/-- The same for what depends on the part of the list that is done. -/
theorem except_foldlM_prefix {I : List α → σ → Prop} {g : σ → α → Except ε σ} {l : List α}
    {s s' : σ} (h : l.foldlM g s = .ok s') (hs : I [] s)
    (hstep : ∀ done a t t', I done t → g t a = .ok t' → I (done ++ [a]) t') : I l s' := by
  suffices hrest : ∀ (rest done : List α) (t : σ), I done t → rest.foldlM g t = .ok s' →
      I (done ++ rest) s' from hrest l [] s hs h
  intro rest
  induction rest with
  | nil =>
    intro done t ht hfold
    cases hfold
    rw [List.append_nil]
    exact ht
  | cons a rest ih =>
    intro done t ht hfold
    rw [List.foldlM_cons] at hfold
    obtain ⟨t', ht', hfold⟩ := except_bind_eq_ok.mp hfold
    rw [List.append_cons]
    exact ih (done ++ [a]) t' (hstep done a t t' ht ht') hfold

theorem except_bind_isOk :
    (∃ b, (x >>= f) = .ok b) ↔ (∃ a, x = .ok a) ∧ ∀ a, x = .ok a → ∃ b, f a = .ok b := by
  cases x with
  | error e =>
    constructor
    · rintro ⟨b, hb⟩
      cases hb
    · rintro ⟨⟨a, ha⟩, -⟩
      cases ha
  | ok a =>
    constructor
    · rintro ⟨b, hb⟩
      refine ⟨⟨a, rfl⟩, fun a' ha' => ?_⟩
      cases ha'
      exact ⟨b, hb⟩
    · rintro ⟨-, hf⟩
      exact hf a rfl

/-- Every element satisfies `p` in the state in which the loop comes to it. -/
def AllAlong (g : σ → α → Except ε σ) (p : σ → α → Prop) : List α → σ → Prop
  | [], _ => True
  | a :: l, s => p s a ∧ ∀ s', g s a = .ok s' → AllAlong g p l s'

/-- A loop succeeds if and only if each of its steps does. -/
theorem except_foldlM_isOk {g : σ → α → Except ε σ} {p : σ → α → Prop}
    (h : ∀ s a, (∃ s', g s a = .ok s') ↔ p s a) (l : List α) (s : σ) :
    (∃ s', l.foldlM g s = .ok s') ↔ AllAlong g p l s := by
  induction l generalizing s with
  | nil => exact ⟨fun _ => trivial, fun _ => ⟨s, rfl⟩⟩
  | cons a l ih =>
    rw [List.foldlM_cons, except_bind_isOk, h, AllAlong]
    exact and_congr_right fun _ => forall₂_congr fun s' _ => ih s'

end Except

end Kahawai.Lib
