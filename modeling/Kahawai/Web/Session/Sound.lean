import Kahawai.Web.Session.State

/-!
# What a session keeps

* `session_kept`: in every run whose events meet the condition `Sound`, a cleared session
  comes back only by a later call, at most one refresh request is out, an installed token
  is renewed, and a login or a shared refresh tells the truth.
* `requests_overlap`: without the Web Locks API a sign-out forgets a refresh that is out,
  and the next session sends another.
* `told_of_ended_session`, `renewal_lost`: with it, a sign-out or the timer comes between
  the installation of a token and the release of its lock.
-/

namespace Kahawai.Web.Session

open Kahawai.Lib

variable {s s' : System} {k : ℕ} {call : Call} {kind : Kind} {phase : Phase} {result : Result}
  {token : ℕ} {callers : List Caller} {locks byTimer : Bool}

/-- A call, among those of its tab. -/
structure CallOk (s : System) (k : ℕ) (call : Call) : Prop where
  started : call.started ≤ s.generation
  fresh : call.started = s.generation → s.cleared ≤ k
  callers : ∀ c ∈ call.callers, call.kind = .refresh ∧ c.token ≤ s.issued
  waiting : call.phase = .waiting → s.locks = true
  ended : ∀ result, call.phase = .ended result → s.locks = true
  served : ∀ token, call.phase = .served token → token ≤ s.issued ∧
    (call.started = s.generation → ∀ c ∈ call.callers, c.shared = true → c.token < token)
  joined : call.kind = .refresh → call.phase = .ended .yes → ∀ c ∈ call.callers, c.shared = true →
    ∃ token, s.access = some token ∧ c.token < token
  login : call.kind = .login → call.phase = .ended .yes ∨ call.phase = .settled .yes → k ∈ s.installs

/-- The tab, but for its timer. -/
structure Core (s : System) : Prop where
  calls : ∀ k call, s.calls[k]? = some call → CallOk s k call
  token : ∀ token, s.access = some token → token ≤ s.issued
  alone : s.locks = true → AtMostOne Call.holds s.calls
  requests : AtMostOne Call.requesting s.calls
  inFlight : ∀ p, s.inFlight = some p → ∃ call, s.calls[p]? = some call ∧ call.kind = .refresh ∧
    ∀ result, call.phase ≠ .settled result
  installer : ∀ token, s.access = some token → ∃ i, s.installer = some i ∧ s.cleared ≤ i.call
  older : ∀ i, s.installer = some i → i.started ≤ s.generation
  length : s.cleared ≤ s.calls.length
  dropped : ∀ e ∈ s.dropped, e.2 ≤ e.1
  told : ∀ t ∈ s.told, t.shared = true → t.ok = true → ∃ token, t.installed = some token ∧ t.token < token

/-- A refresh that a timer waits for, and that will set the next one. -/
def Call.renews (call : Call) : Bool :=
  call.kind = .refresh && call.callers.any Caller.timer &&
    match call.phase with
    | .ended .yes | .settled _ => false
    | _ => true

/-- An installed token will be renewed. -/
def Armed (s : System) : Prop :=
  s.access.isSome → s.refreshTimer = true ∨ ∃ call ∈ s.calls, call.renews = true

/-! ## One call moves -/

theorem Core.moves (h : Core s) (hcall : s.calls[k]? = some call)
    (hok : CallOk s k { call with phase := phase })
    (hholds : s.locks = true → Call.holds { call with phase := phase } = true →
      call.holds = true ∨ ∀ other ∈ s.calls, other.holds = false)
    (hrequest : Call.requesting { call with phase := phase } = true →
      call.requesting = true ∨ ∀ other ∈ s.calls, other.requesting = false)
    (hflight : ∀ result, phase = .settled result → s.inFlight ≠ some k) :
    Core (s.moves k call phase) := by
  refine ⟨fun j other hother => ?_, h.token, fun hlocks => ?_, ?_, fun p hp => ?_, h.installer, h.older,
    ?_, h.dropped, h.told⟩
  · rcases getElem?_set_cases hother with ⟨rfl, rfl⟩ | ⟨-, hold⟩
    · exact { hok with }
    · exact { h.calls j other hold with }
  · exact (h.alone hlocks).set hcall (hholds hlocks)
  · exact h.requests.set hcall hrequest
  · obtain ⟨other, hother, hkind, hsettled⟩ := h.inFlight p hp
    by_cases hpk : p = k
    · subst hpk
      cases hcall.symm.trans hother
      exact ⟨_, getElem?_set_moved hcall, hkind, fun result hresult => hflight result hresult hp⟩
    · exact ⟨other, (List.getElem?_set_ne (Ne.symm hpk)).trans hother, hkind, hsettled⟩
  · exact le_of_le_of_eq h.length List.length_set.symm

/-- The timer does not matter to the rest. -/
theorem Core.timer (h : Core s) (timer : Bool) : Core { s with refreshTimer := timer } :=
  ⟨fun k call hcall => { h.calls k call hcall with }, h.token, h.alone, h.requests, h.inFlight,
    h.installer, h.older, h.length, h.dropped, h.told⟩

/-- The promise of a refresh forgets itself. -/
theorem Core.forget (h : Core s) : Core { s with inFlight := none } :=
  ⟨fun k call hcall => { h.calls k call hcall with }, h.token, h.alone, h.requests,
    fun p hp => (by cases hp), h.installer, h.older, h.length, h.dropped, h.told⟩

/-- A promise settles. -/
theorem Core.settle (h : Core s) (hcall : s.calls[k]? = some call)
    (hlogin : call.kind = .login → result = .yes → k ∈ s.installs)
    (hjoined : call.kind = .refresh → result = .yes → ∀ c ∈ call.callers, c.shared = true →
      ∃ token, s.access = some token ∧ c.token < token) :
    Core (s.settle k call result) := by
  have hok := h.calls k call hcall
  have hmoves : Core (({ s with inFlight := none } : System).moves k call (.settled result)) := by
    refine h.forget.moves hcall ⟨hok.started, hok.fresh, hok.callers, fun hp => (by cases hp),
      fun _ hp => (by cases hp), fun _ hp => (by cases hp), fun _ hp => (by cases hp), fun hkind hp => ?_⟩
      (fun _ hp => (by cases hp)) (fun hp => ?_) fun _ _ => nofun
    · rcases hp with hp | hp <;> cases hp
      exact hlogin hkind rfl
    · simp [Call.requesting] at hp
  unfold System.settle
  by_cases hkind : call.kind = .refresh
  · rw [if_pos hkind]
    refine ⟨fun j other hother => { hmoves.calls j other hother with }, hmoves.token, hmoves.alone,
      hmoves.requests, hmoves.inFlight, hmoves.installer, hmoves.older, hmoves.length, hmoves.dropped,
      fun t ht hshared htold => ?_⟩
    rcases List.mem_append.mp ht with ht | ht
    · exact h.told t ht hshared htold
    · obtain ⟨c, hc, rfl⟩ := List.mem_map.mp ht
      exact hjoined hkind (of_decide_eq_true htold) c hc hshared
  · rw [if_neg hkind]
    have hflight : s.inFlight ≠ some k := by
      intro hflight
      obtain ⟨other, hother, hrefresh, -⟩ := h.inFlight k hflight
      cases hcall.symm.trans hother
      exact hkind hrefresh
    refine ⟨fun j other hother => { hmoves.calls j other hother with }, hmoves.token, hmoves.alone,
      hmoves.requests, fun p hp => ?_, hmoves.installer, hmoves.older, hmoves.length, hmoves.dropped,
      hmoves.told⟩
    obtain ⟨other, hother, hrest⟩ := h.inFlight p hp
    refine ⟨other, ?_, hrest⟩
    have hne : k ≠ p := by
      rintro rfl
      exact hflight hp
    exact (List.getElem?_set_ne hne).trans hother

/-- A callback ends. -/
theorem Core.finish (h : Core s) (hcall : s.calls[k]? = some call) (hholds : call.holds = true)
    (hlogin : call.kind = .login → result = .yes → k ∈ s.installs)
    (hjoined : call.kind = .refresh → result = .yes → ∀ c ∈ call.callers, c.shared = true →
      ∃ token, s.access = some token ∧ c.token < token) :
    Core (s.finish k call result) := by
  have hok := h.calls k call hcall
  unfold System.finish
  split_ifs with hlocks
  · refine h.moves hcall ⟨hok.started, hok.fresh, hok.callers, fun hp => (by cases hp),
      fun _ _ => hlocks, fun _ hp => (by cases hp), fun hkind hp => ?_, fun hkind hp => ?_⟩
      (fun _ _ => Or.inl hholds) (fun hp => ?_) fun _ hp => (by cases hp)
    · cases hp
      exact hjoined hkind rfl
    · rcases hp with hp | hp <;> cases hp
      exact hlogin hkind rfl
    · simp [Call.requesting] at hp
  · exact h.settle hcall hlogin hjoined

/-! ## The session changes -/

/-- A token is installed by a call of the current generation. -/
theorem Core.installAccess (h : Core s) (hcall : s.calls[k]? = some call) (hholds : call.holds = true)
    (hstarted : call.started = s.generation) (htoken : token ≤ s.issued)
    (hphase : ∀ result, call.phase ≠ .ended result) :
    Core (s.installAccess k token call.started) := by
  refine ⟨fun j other hother => ?_, fun _ ht => ?_, h.alone, h.requests, h.inFlight, fun _ _ => ?_,
    fun i hi => ?_, h.length, h.dropped, h.told⟩
  · have hok := h.calls j other hother
    refine { hok with joined := fun _ hended => ?_, login := fun hkind hyes => ?_ }
    · -- a call that has ended holds the lock
      have hlocks := hok.ended _ hended
      have hsame : j = k := h.alone hlocks j k other call hother hcall (by simp [Call.holds, hended]) hholds
      subst hsame
      cases hcall.symm.trans hother
      exact absurd hended (hphase _)
    · exact List.mem_append_left _ (hok.login hkind hyes)
  · cases ht
    exact htoken
  · exact ⟨_, rfl, (h.calls k call hcall).fresh hstarted⟩
  · cases hi
    exact Nat.le_of_eq hstarted

/-- The session is cleared, when nobody waits for the answer of a refresh that has ended. -/
theorem Core.clearAccess (h : Core s)
    (hquiet : ∀ call ∈ s.calls, call.kind = .refresh → call.phase = .ended .yes →
      ∀ c ∈ call.callers, c.shared = false) : Core s.clearAccess := by
  refine ⟨fun j other hother => ?_, fun _ ht => (by cases ht), h.alone, h.requests,
    fun _ hp => (by cases hp), fun _ ht => (by cases ht), fun _ hi => (by cases hi), Nat.le_refl _, h.dropped,
    h.told⟩
  have hok := h.calls j other hother
  have hold : other.started ≠ s.generation + 1 := Nat.ne_of_lt (Nat.lt_succ_of_le hok.started)
  exact { hok with
    started := Nat.le_succ_of_le hok.started
    fresh := fun hfresh => absurd hfresh hold
    served := fun t ht => ⟨(hok.served t ht).1, fun hfresh => absurd hfresh hold⟩
    joined := fun hkind hended c hc hshared => by
      cases hshared.symm.trans (hquiet other (List.mem_of_getElem? hother) hkind hended c hc) }

theorem Core.refuse (h : Core s) {started : ℕ}
    (hquiet : ∀ call ∈ s.calls, call.kind = .refresh → call.phase = .ended .yes →
      ∀ c ∈ call.callers, c.shared = false) : Core (s.refuse started) := by
  unfold System.refuse
  split_ifs with hold
  · exact h
  · have hclear := h.clearAccess hquiet
    refine ⟨fun j other hother => { hclear.calls j other hother with }, hclear.token, hclear.alone,
      hclear.requests, hclear.inFlight, hclear.installer, hclear.older, hclear.length, fun e he => ?_,
      hclear.told⟩
    rcases List.mem_append.mp he with he | he
    · exact h.dropped e he
    · cases hi : s.installer with
      | none =>
        rw [hi] at he
        cases he
      | some i =>
        rw [hi] at he
        cases List.mem_singleton.mp he
        exact Nat.le_trans (h.older i hi) (Nat.le_of_eq (not_not.mp hold))

/-- The hub issues a token. -/
theorem Core.issue (h : Core s) : Core { s with issued := s.issued + 1 } := by
  refine ⟨fun j other hother => ?_, fun token ht => Nat.le_succ_of_le (h.token token ht), h.alone,
    h.requests, h.inFlight, h.installer, h.older, h.length, h.dropped, h.told⟩
  have hok := h.calls j other hother
  exact { hok with
    callers := fun c hc => ⟨(hok.callers c hc).1, Nat.le_succ_of_le (hok.callers c hc).2⟩
    served := fun t ht => ⟨Nat.le_succ_of_le (hok.served t ht).1, (hok.served t ht).2⟩ }

/-- A login starts a generation. -/
theorem Core.bump (h : Core s) : Core { s with generation := s.generation + 1 } := by
  refine ⟨fun j other hother => ?_, h.token, h.alone, h.requests, h.inFlight, h.installer,
    fun i hi => Nat.le_succ_of_le (h.older i hi), h.length, h.dropped, h.told⟩
  have hok := h.calls j other hother
  have hold : other.started ≠ s.generation + 1 := Nat.ne_of_lt (Nat.lt_succ_of_le hok.started)
  exact { hok with
    started := Nat.le_succ_of_le hok.started
    fresh := fun hfresh => absurd hfresh hold
    served := fun t ht => ⟨(hok.served t ht).1, fun hfresh => absurd hfresh hold⟩ }

/-- `alone` is called. -/
theorem Core.calling (h : Core s) (hcallers : ∀ c ∈ callers, kind = .refresh ∧ c.token ≤ s.issued)
    (hquiet : kind = .refresh ∨ kind = .restore → s.quiet) : Core (s.call kind callers) := by
  refine ⟨fun j other hother => ?_, h.token, fun hlocks => ?_, ?_, fun p hp => ?_, h.installer, h.older,
    ?_, h.dropped, h.told⟩
  · rcases getElem?_append_cases hother with ⟨rfl, rfl⟩ | hold
    · refine ⟨Nat.le_refl _, fun _ => h.length, hcallers, fun hp => ?_, fun _ hp => ?_, fun _ hp => ?_,
        fun _ hp => ?_, fun _ hp => ?_⟩
      · by_contra hlocks
        dsimp only at hp
        rw [if_neg (show ¬ s.locks = true from hlocks)] at hp
        cases kind <;> cases hp
      all_goals
        dsimp only at hp
        split_ifs at hp <;> cases kind <;> simp [System.first] at hp
    · exact { h.calls j other hold with }
  · refine (h.alone hlocks).append fun hholds => ?_
    rw [if_pos (show s.locks = true from hlocks)] at hholds
    cases hholds
  · refine h.requests.append fun hrequest => ?_
    have hlocks : ¬ s.locks = true := by
      intro hlocks
      rw [if_pos hlocks] at hrequest
      simp [Call.requesting] at hrequest
    have hkind : kind = .refresh ∨ kind = .restore := by
      rw [if_neg hlocks] at hrequest
      cases kind <;> simp [Call.requesting, System.first] at hrequest ⊢
    exact (hquiet hkind).resolve_left hlocks
  · obtain ⟨other, hother, hrest⟩ := h.inFlight p hp
    refine ⟨other, ?_, hrest⟩
    exact (List.getElem?_append_left (List.getElem?_eq_some_iff.mp hother).1).trans hother
  · exact Nat.le_trans h.length (by simp [System.call])

/-- `refreshTokens` is called. -/
theorem Core.refreshTokens (h : Core s) (hsound : s.SoundRefresh) : Core (s.refreshTokens byTimer) := by
  unfold System.refreshTokens
  split
  · exact h
  · rename_i token haccess hflight
    have hquiet := hsound token haccess
    rw [hflight] at hquiet
    have hnew : Core (s.call .refresh [⟨token, false, byTimer⟩]) := by
      refine h.calling (fun c hc => ?_) fun _ => hquiet
      rw [List.mem_singleton.mp hc]
      exact ⟨rfl, h.token token haccess⟩
    refine ⟨fun k call hcall => { hnew.calls k call hcall with }, hnew.token, hnew.alone, hnew.requests,
      fun p hp => ?_, hnew.installer, hnew.older, hnew.length, hnew.dropped, hnew.told⟩
    cases hp
    refine ⟨_, List.getElem?_concat_length, rfl, fun result hresult => ?_⟩
    dsimp only at hresult
    split_ifs at hresult
    cases hresult
  · rename_i token p haccess hflight
    have hjoin := hsound token haccess
    rw [hflight] at hjoin
    obtain ⟨call, hcall, hkind, hsettled⟩ := h.inFlight p hflight
    obtain ⟨hrunning, hnewer⟩ := hjoin call hcall
    have hok := h.calls p call hcall
    have hmodify : s.calls.modify p (fun call =>
        { call with callers := call.callers ++ [⟨token, true, byTimer⟩] }) =
          s.calls.set p { call with callers := call.callers ++ [⟨token, true, byTimer⟩] } := by
      rw [List.modify_eq_set_getElem?, hcall]
      rfl
    rw [hmodify]
    have hmem : ∀ {c}, c ∈ call.callers ++ [(⟨token, true, byTimer⟩ : Caller)] →
        c ∈ call.callers ∨ c.token = token := by
      intro c hc
      rcases List.mem_append.mp hc with hc | hc
      · exact Or.inl hc
      · exact Or.inr (by rw [List.mem_singleton.mp hc])
    refine ⟨fun j other hother => ?_, h.token, fun hlocks => ?_, ?_, fun q hq => ?_, h.installer, h.older,
      ?_, h.dropped, h.told⟩
    · rcases getElem?_set_cases hother with ⟨rfl, rfl⟩ | ⟨-, hold⟩
      · refine ⟨hok.started, hok.fresh, fun c hc => ?_, hok.waiting, hok.ended, fun fresh hserved =>
          ⟨(hok.served fresh hserved).1, fun hstarted c hc hshared => ?_⟩,
          fun _ hended => absurd hended hrunning, hok.login⟩
        · rcases hmem hc with hc | hc
          · exact hok.callers c hc
          · exact ⟨hkind, hc ▸ h.token token haccess⟩
        · rcases hmem hc with hc | hc
          · exact (hok.served fresh hserved).2 hstarted c hc hshared
          · exact hc ▸ hnewer fresh hserved hstarted
      · exact { h.calls j other hold with }
    · exact (h.alone hlocks).set hcall Or.inl
    · exact h.requests.set hcall Or.inl
    · have hqp : q = p := Option.some.inj (hq.symm.trans hflight)
      subst hqp
      exact ⟨_, getElem?_set_moved hcall, hkind, hsettled⟩
    · exact le_of_le_of_eq h.length List.length_set.symm

/-! ## The events -/

/-- A request is sent. -/
theorem Core.sends (h : Core s) (hcall : s.calls[k]? = some call)
    (hphase : phase = .out ∨ phase = .loggingOut ∨ phase = .leaving)
    (hholds : call.holds = true ∨ ∀ other ∈ s.calls, other.holds = false)
    (hidle : phase = .out → ∀ other ∈ s.calls, other.requesting = false) :
    Core (s.moves k call phase) := by
  have hok := h.calls k call hcall
  refine h.moves hcall ⟨hok.started, hok.fresh, hok.callers, fun hp => ?_, fun _ hp => ?_,
    fun _ hp => ?_, fun _ hp => ?_, fun _ hp => ?_⟩ (fun _ _ => hholds) (fun hp => ?_) fun _ hp => ?_
  all_goals rcases hphase with rfl | rfl | rfl
  any_goals cases hp; done
  any_goals rcases hp with hp | hp <;> cases hp
  · exact Or.inr (hidle rfl)
  · simp [Call.requesting] at hp
  · simp [Call.requesting] at hp

/-- A call with a request out holds the lock. -/
theorem Call.holds_of_requesting (h : call.requesting = true) : call.holds = true := by
  unfold Call.requesting at h
  unfold Call.holds
  cases hphase : call.phase <;> simp [hphase] at h ⊢

/-- The holder of the lock is the only one that can have ended. -/
theorem Core.unended (h : Core s) (hcall : s.calls[k]? = some call) (hholds : call.holds = true)
    (hphase : ∀ result, call.phase ≠ .ended result) :
    ∀ other ∈ s.calls, other.kind = .refresh → other.phase = .ended .yes →
      ∀ c ∈ other.callers, c.shared = false := by
  intro other hother _ hended
  obtain ⟨j, hj⟩ := List.mem_iff_getElem?.mp hother
  have hlocks := (h.calls j other hj).ended _ hended
  have hsame : j = k := h.alone hlocks j k other call hj hcall (by simp [Call.holds, hended]) hholds
  subst hsame
  cases hcall.symm.trans hj
  exact absurd hended (hphase _)

/-- No request is out, where the holder of the lock has none. -/
theorem Core.idle (h : Core s) (hcall : s.calls[k]? = some call) (hholds : call.holds = true)
    (hidle : call.requesting = false) (hquiet : s.quiet) :
    ∀ other ∈ s.calls, other.requesting = false := by
  rcases hquiet with hlocks | hquiet
  · intro other hother
    by_contra hrequest
    rw [Bool.not_eq_false] at hrequest
    obtain ⟨j, hj⟩ := List.mem_iff_getElem?.mp hother
    have hsame : j = k := h.alone hlocks j k other call hj hcall
      (Call.holds_of_requesting hrequest) hholds
    subst hsame
    cases hcall.symm.trans hj
    cases hidle.symm.trans hrequest
  · exact hquiet

theorem calls_refuse (s : System) (started : ℕ) : (s.refuse started).calls = s.calls := by
  unfold System.refuse
  split_ifs <;> rfl

/-- What an answer does. Its call holds the lock and goes on, ends without a token, installs
    one, or clears the session. -/
theorem answer_cases {reply : Reply} (hs : s.answer k call reply = some s') :
    call.holds = true ∧ (∀ result, call.phase ≠ .ended result) ∧
      ((∃ result, (result = .yes → call.kind = .revoke) ∧ s' = s.finish k call result) ∨
        (call.kind = .revoke ∧ reply = .refused ∧ call.phase = .loggingOut ∧ s' = s.moves k call .out) ∨
        (call.kind = .revoke ∧ s' = s.moves k call .leaving) ∨
        (∃ token, call.phase = .served token ∧ s.generation = call.started ∧
          s' = (s.installAccess k token call.started).finish k call .yes) ∨
        s' = (s.refuse call.started).finish k call .no) := by
  have hphase : ∀ {phase}, call.phase = phase → Call.holds { call with phase := phase } = true →
      (∀ result, phase ≠ .ended result) → call.holds = true ∧ ∀ result, call.phase ≠ .ended result := by
    rintro phase rfl hholds hended
    exact ⟨hholds, hended⟩
  have hand : ∀ {a b c : Prop}, a ∧ b → c → a ∧ b ∧ c := fun hab hc => ⟨hab.1, hab.2, hc⟩
  cases reply with
  | ok =>
    unfold System.answer at hs
    dsimp only at hs
    split at hs
    · rename_i hkind hout
      exact hand (hphase hout rfl nofun) (Or.inl ⟨.yes, fun _ => hkind, (Option.some.inj hs).symm⟩)
    · rename_i hkind hout
      exact hand (hphase hout rfl nofun) (Or.inl ⟨.yes, fun _ => hkind, (Option.some.inj hs).symm⟩)
    · rename_i token hkind hout
      exact hand (hphase hout rfl nofun)
        (Or.inr (Or.inr (Or.inl ⟨hkind, (Option.some.inj hs).symm⟩)))
    · rename_i token hout hnot
      refine hand (hphase hout rfl nofun) ?_
      by_cases hstarted : s.generation = call.started
      · rw [if_pos hstarted] at hs
        exact Or.inr (Or.inr (Or.inr (Or.inl ⟨token, hout, hstarted, (Option.some.inj hs).symm⟩)))
      · rw [if_neg hstarted] at hs
        exact Or.inl ⟨_, fun hyes => by split_ifs at hyes, (Option.some.inj hs).symm⟩
    · cases hs
  | refused =>
    unfold System.answer at hs
    dsimp only at hs
    split at hs
    · rename_i hkind hout
      exact hand (hphase hout rfl nofun)
        (Or.inr (Or.inl ⟨hkind, rfl, hout, (Option.some.inj hs).symm⟩))
    · rename_i hkind hout
      exact hand (hphase hout rfl nofun) (Or.inl ⟨.threw, nofun, (Option.some.inj hs).symm⟩)
    · rename_i hkind hout
      exact hand (hphase hout rfl nofun) (Or.inl ⟨.threw, nofun, (Option.some.inj hs).symm⟩)
    · rename_i hkind hout
      exact hand (hphase hout rfl nofun) (Or.inl ⟨.threw, nofun, (Option.some.inj hs).symm⟩)
    · rename_i hout hnotRevoke hnotLogin
      exact hand (hphase hout rfl nofun)
        (Or.inr (Or.inr (Or.inr (Or.inr (Option.some.inj hs).symm))))
    · cases hs
  | failed =>
    unfold System.answer at hs
    dsimp only at hs
    have hresult : (if call.kind = .refresh then Result.no else .threw) = .yes → call.kind = .revoke := by
      intro hyes
      split_ifs at hyes
    split at hs
    all_goals first
      | cases hs; done
      | rename_i hout
        exact hand (hphase hout rfl nofun) (Or.inl ⟨_, hresult, (Option.some.inj hs).symm⟩)

/-- An answer arrives. -/
theorem Core.answer {reply : Reply} (h : Core s) (hcall : s.calls[k]? = some call)
    (hsound : reply = .refused → call.kind = .revoke → call.phase = .loggingOut → s.quiet)
    (hs : s.answer k call reply = some s') : Core s' := by
  have hok := h.calls k call hcall
  obtain ⟨hholds, hended, hcases⟩ := answer_cases hs
  rcases hcases with ⟨result, hresult, rfl⟩ | ⟨hkind, rfl, hout, rfl⟩ | ⟨-, rfl⟩ |
    ⟨token, hserved, hstarted, rfl⟩ | rfl
  · refine h.finish hcall hholds (fun hkind hyes => ?_) fun hkind hyes => ?_
    · cases hkind.symm.trans (hresult hyes)
    · cases hkind.symm.trans (hresult hyes)
  · exact h.sends hcall (Or.inl rfl) (Or.inl hholds) fun _ =>
      h.idle hcall hholds (by simp [Call.requesting, hout]) (hsound rfl hkind hout)
  · exact h.sends hcall (Or.inr (Or.inr rfl)) (Or.inl hholds) nofun
  · obtain ⟨htoken, hnewer⟩ := hok.served token hserved
    exact (h.installAccess hcall hholds hstarted.symm htoken hended).finish hcall hholds
      (fun _ _ => List.mem_append_right _ (List.mem_singleton_self _))
      fun _ _ c hc hshared => ⟨token, rfl, hnewer hstarted.symm c hc hshared⟩
  · have hrefused : Core (s.refuse call.started) := h.refuse (h.unended hcall hholds hended)
    exact hrefused.finish ((congrArg (·[k]?) (calls_refuse s call.started)).trans hcall) hholds
      (fun _ hyes => by cases hyes) fun _ hyes => by cases hyes

theorem core_step {event : Event} (h : Core s) (hsound : s.Sound event) (hs : s.step event = some s') :
    Core s' := by
  cases event with
  | login =>
    cases hs
    exact h.bump.calling nofun fun hkind => by rcases hkind with hkind | hkind <;> cases hkind
  | restore =>
    cases hs
    exact h.calling nofun fun _ => hsound
  | refresh =>
    cases hs
    exact h.refreshTokens hsound
  | timer =>
    unfold System.step at hs
    dsimp only at hs
    split_ifs at hs
    cases hs
    exact (h.timer false).refreshTokens hsound
  | signOut =>
    cases hs
    have hclear := h.clearAccess hsound
    unfold System.signOut
    split_ifs
    · exact hclear.calling nofun fun hkind => by rcases hkind with hkind | hkind <;> cases hkind
    · exact hclear
  | peerSignOut =>
    cases hs
    exact h.clearAccess hsound
  | grant k =>
    obtain ⟨call, hcall, hs⟩ := Option.bind_eq_some_iff.mp hs
    split_ifs at hs with hgrant hstale
    all_goals
      have hfree : ∀ other ∈ s.calls, other.holds = false := fun other hother => by
        simpa using List.all_eq_true.mp hgrant.2.1 other hother
    · cases hs
      have hok := h.calls k call hcall
      have hlocks := hok.waiting hgrant.1
      unfold System.finish
      rw [if_pos hlocks]
      refine h.moves hcall ⟨hok.started, hok.fresh, hok.callers, fun _ => hlocks, fun _ _ => hlocks,
        fun _ hp => (by cases hp), fun _ hp => (by cases hp), fun _ hp => ?_⟩ (fun _ _ => Or.inr hfree)
        (fun hp => ?_) fun _ hp => (by cases hp)
      · rcases hp with hp | hp <;> cases hp
      · simp [Call.requesting] at hp
    · cases hs
      refine h.sends hcall ?_ (Or.inr hfree) fun _ other hother => ?_
      · cases call.kind <;> simp [System.first]
      · by_contra hrequest
        have hholds := Call.holds_of_requesting (Bool.not_eq_false _ ▸ hrequest)
        cases hholds.symm.trans (hfree other hother)
  | expire k =>
    obtain ⟨call, hcall, hs⟩ := Option.bind_eq_some_iff.mp hs
    have hresult : (if call.kind = .refresh then Result.no else .threw) ≠ .yes := by
      split_ifs <;> nofun
    split at hs
    · cases hs
      exact h.settle hcall (fun _ hyes => absurd hyes hresult) fun _ hyes => absurd hyes hresult
    · cases hs
  | serve k =>
    obtain ⟨call, hcall, hs⟩ := Option.bind_eq_some_iff.mp hs
    split_ifs at hs with hout
    cases hs
    have hok := h.issue.calls k call hcall
    refine h.issue.moves hcall ⟨hok.started, hok.fresh, hok.callers, fun hp => (by cases hp),
      fun _ hp => (by cases hp), fun _ hp => ?_, fun _ hp => (by cases hp), fun _ hp => ?_⟩
      (fun _ _ => Or.inl (by simp [Call.holds, hout])) (fun hp => Or.inl ?_) fun _ hp => (by cases hp)
    · cases hp
      exact ⟨Nat.le_refl _, fun _ c hc _ => Nat.lt_succ_of_le ((h.calls k call hcall).callers c hc).2⟩
    · rcases hp with hp | hp <;> cases hp
    · simpa [Call.requesting, hout] using hp
  | answer k reply =>
    obtain ⟨call, hcall, hs⟩ := Option.bind_eq_some_iff.mp hs
    refine h.answer hcall (fun hreply hkind hphase => ?_) hs
    subst hreply
    exact hsound ⟨call, hcall, hkind, hphase⟩
  | settle k =>
    obtain ⟨call, hcall, hs⟩ := Option.bind_eq_some_iff.mp hs
    split at hs
    · rename_i result hended
      cases hs
      have hok := h.calls k call hcall
      refine h.settle hcall (fun hkind hyes => ?_) fun hkind hyes => ?_
      · exact hok.login hkind (Or.inl (hyes ▸ hended))
      · exact hok.joined hkind (hyes ▸ hended)
    · cases hs

/-! ## Renewal -/

theorem Armed.of_timer (h : s.refreshTimer = true) : Armed s := fun _ => Or.inl h

theorem Armed.of_access (h : s.access = none) : Armed s := fun haccess => by
  rw [h] at haccess
  cases haccess

/-- A call moves on, and still renews. -/
theorem Armed.moves (h : Armed s) (hcall : s.calls[k]? = some call)
    (hrenews : call.renews = true → Call.renews { call with phase := phase } = true) :
    Armed (s.moves k call phase) := by
  intro haccess
  rcases h haccess with htimer | ⟨other, hother, hother_renews⟩
  · exact Or.inl htimer
  · rcases mem_set_or_eq hcall hother with hmem | rfl
    · exact Or.inr ⟨other, hmem, hother_renews⟩
    · exact Or.inr ⟨_, mem_set_moved hcall, hrenews hother_renews⟩

/-- A promise settles: a token has been installed just now, or before, or the timer that
    waits for it is told false. -/
theorem Armed.settle (h : Armed s) (hcall : s.calls[k]? = some call)
    (hyes : result = .yes → s.refreshTimer = true ∨ call.renews = false) :
    Armed (s.settle k call result) := by
  unfold System.settle
  split_ifs with hkind
  · intro haccess
    rcases h haccess with htimer | ⟨other, hother, hrenews⟩
    · exact Or.inl (by simp [System.moves, htimer])
    · rcases mem_set_or_eq hcall hother with hmem | rfl
      · exact Or.inr ⟨other, hmem, hrenews⟩
      · have htimers : other.callers.any Caller.timer = true := by
          simp only [Call.renews, Bool.and_eq_true] at hrenews
          exact hrenews.1.2
        refine Or.inl ?_
        by_cases hresult : result = .yes
        · have htimer := (hyes hresult).resolve_right (by rw [hrenews]; nofun)
          simp [System.moves, htimer]
        · have hsome : s.access.isSome = true := haccess
          simp [System.moves, htimers, hresult, hsome]
  · refine h.moves hcall fun hrenews => ?_
    simp [Call.renews, hkind] at hrenews

theorem Armed.finish (h : Armed s) (hcall : s.calls[k]? = some call)
    (hyes : result = .yes → s.refreshTimer = true ∨ call.renews = false) :
    Armed (s.finish k call result) := by
  unfold System.finish
  split_ifs
  · by_cases hresult : result = .yes
    · rcases hyes hresult with htimer | hnot
      · exact Armed.of_timer htimer
      · refine h.moves hcall fun hrenews => ?_
        cases hnot.symm.trans hrenews
    · refine h.moves hcall fun hrenews => ?_
      simp only [Call.renews, Bool.and_eq_true] at hrenews ⊢
      refine ⟨hrenews.1, ?_⟩
      cases result <;> first | rfl | exact absurd rfl hresult
  · exact h.settle hcall hyes

theorem Armed.calling (h : Armed s) : Armed (s.call kind callers) := by
  intro haccess
  refine (h haccess).imp_right fun ⟨other, hother, hrenews⟩ => ?_
  exact ⟨other, List.mem_append_left _ hother, hrenews⟩

/-- A request calls `refreshTokens`. -/
theorem Armed.refreshTokens (h : Armed s) (hcore : Core s) : Armed (s.refreshTokens byTimer) := by
  unfold System.refreshTokens
  split
  · exact h
  · exact h.calling
  · rename_i token p haccess hflight
    obtain ⟨call, hcall, -, -⟩ := hcore.inFlight p hflight
    rw [List.modify_eq_set_getElem?, hcall]
    intro haccess
    rcases h haccess with htimer | ⟨other, hother, hrenews⟩
    · exact Or.inl htimer
    · rcases mem_set_or_eq hcall hother with hmem | rfl
      · exact Or.inr ⟨other, hmem, hrenews⟩
      · refine Or.inr ⟨_, mem_set_moved hcall, ?_⟩
        simp only [Call.renews, Bool.and_eq_true, List.any_append, Bool.or_eq_true] at hrenews ⊢
        exact ⟨⟨hrenews.1.1, Or.inl hrenews.1.2⟩, hrenews.2⟩

/-- The timer calls `refreshTokens`, and waits for its promise. -/
theorem Armed.fires (hcore : Core s) (hsound : s.SoundRefresh) : Armed (s.refreshTokens true) := by
  unfold System.refreshTokens
  split
  · rename_i haccess
    exact Armed.of_access haccess
  · refine fun _ => Or.inr ⟨_, List.mem_append_right _ (List.mem_singleton_self _), ?_⟩
    by_cases hlocks : s.locks = true <;> simp [Call.renews, System.first, hlocks]
  · rename_i token p haccess hflight
    have hjoin := hsound token haccess
    rw [hflight] at hjoin
    obtain ⟨call, hcall, hkind, hsettled⟩ := hcore.inFlight p hflight
    rw [List.modify_eq_set_getElem?, hcall]
    refine fun _ => Or.inr ⟨_, mem_set_moved hcall, ?_⟩
    have hrunning := (hjoin call hcall).1
    simp [Call.renews, hkind]

theorem armed_step {event : Event} (h : Armed s) (hcore : Core s) (hsound : s.Sound event)
    (hs : s.step event = some s') : Armed s' := by
  cases event with
  | login =>
    cases hs
    exact Armed.calling h
  | restore =>
    cases hs
    exact h.calling
  | refresh =>
    cases hs
    exact h.refreshTokens hcore
  | timer =>
    unfold System.step at hs
    dsimp only at hs
    split_ifs at hs
    cases hs
    exact Armed.fires (hcore.timer false) hsound
  | signOut =>
    cases hs
    refine Armed.of_access ?_
    unfold System.signOut
    split_ifs <;> rfl
  | peerSignOut =>
    cases hs
    exact Armed.of_access rfl
  | grant k =>
    obtain ⟨call, hcall, hs⟩ := Option.bind_eq_some_iff.mp hs
    split_ifs at hs with hgrant hstale
    · cases hs
      exact h.finish hcall nofun
    · cases hs
      refine h.moves hcall fun hrenews => ?_
      simp only [Call.renews, Bool.and_eq_true] at hrenews ⊢
      refine ⟨hrenews.1, ?_⟩
      cases call.kind <;> rfl
  | expire k =>
    obtain ⟨call, hcall, hs⟩ := Option.bind_eq_some_iff.mp hs
    split at hs
    · cases hs
      exact h.settle hcall fun hyes => by split_ifs at hyes
    · cases hs
  | serve k =>
    obtain ⟨call, hcall, hs⟩ := Option.bind_eq_some_iff.mp hs
    split_ifs at hs with hout
    cases hs
    refine Armed.moves (s := { s with issued := s.issued + 1 }) h hcall fun hrenews => ?_
    simp only [Call.renews, Bool.and_eq_true] at hrenews ⊢
    exact ⟨hrenews.1, trivial⟩
  | answer k reply =>
    obtain ⟨call, hcall, hs⟩ := Option.bind_eq_some_iff.mp hs
    obtain ⟨-, -, hcases⟩ := answer_cases hs
    rcases hcases with ⟨result, hresult, rfl⟩ | ⟨hkind, -, -, rfl⟩ | ⟨hkind, rfl⟩ | ⟨token, -, -, rfl⟩ | rfl
    · exact h.finish hcall fun hyes => Or.inr (by simp [Call.renews, hresult hyes])
    · exact h.moves hcall fun hrenews => by simp [Call.renews, hkind] at hrenews
    · exact h.moves hcall fun hrenews => by simp [Call.renews, hkind] at hrenews
    · have hinstalled : Armed (s.installAccess k token call.started) := Armed.of_timer rfl
      exact hinstalled.finish hcall fun _ => Or.inl rfl
    · have hrefused : Armed (s.refuse call.started) := by
        unfold System.refuse
        split_ifs
        · exact h
        · exact Armed.of_access rfl
      exact hrefused.finish ((congrArg (·[k]?) (calls_refuse s call.started)).trans hcall) nofun
  | settle k =>
    obtain ⟨call, hcall, hs⟩ := Option.bind_eq_some_iff.mp hs
    split at hs
    · rename_i result hended
      cases hs
      refine h.settle hcall fun hyes => Or.inr ?_
      rw [hyes] at hended
      simp [Call.renews, hended]
    · cases hs

/-! ## Every run -/

/-- What holds of a tab: a session that was cleared is back only through a call that came
    after the clear, and no refusal clears a session of a later generation (a); at most one
    refresh request is out (b); an installed token is renewed (c); a login that resolves has
    installed its token, and a caller that shares the promise of another is told true only
    if the token that is installed then is newer than the one it called with (d). -/
structure Kept (s : System) : Prop where
  cleared : ∀ token, s.access = some token → ∃ i, s.installer = some i ∧ s.cleared ≤ i.call
  dropped : ∀ e ∈ s.dropped, e.2 ≤ e.1
  requests : AtMostOne Call.requesting s.calls
  armed : Armed s
  login : ∀ k call, s.calls[k]? = some call → call.kind = .login → call.phase = .settled .yes →
    k ∈ s.installs
  told : ∀ t ∈ s.told, t.shared = true → t.ok = true → ∃ token, t.installed = some token ∧ t.token < token

theorem session_kept (h : (machine locks).Reaches (fun s event => s.Sound event) s) : Kept s := by
  have hsafe : Core s ∧ Armed s := by
    refine h.invariant (I := fun s => Core s ∧ Armed s) ⟨?_, Armed.of_access rfl⟩
      fun ha hsound hs => ⟨core_step ha.1 hsound hs, armed_step ha.2 ha.1 hsound hs⟩
    exact ⟨nofun, nofun, fun _ => .nil, .nil, nofun, nofun, nofun, Nat.le_refl _, nofun, nofun⟩
  obtain ⟨hcore, harmed⟩ := hsafe
  exact ⟨hcore.installer, hcore.dropped, hcore.requests, harmed,
    fun k call hcall hkind hyes => (hcore.calls k call hcall).login hkind (Or.inr hyes), hcore.told⟩

/-- Events of a tab with locks in which a refresh is joined before it is sent. -/
def joinsEarly (s : System) : Event → Bool
  | .refresh | .timer =>
    s.locks && s.inFlight.all fun p => (s.calls[p]?).all fun call => call.phase = .waiting
  | .signOut | .peerSignOut | .restore => false
  | .answer _ reply => reply = .ok
  | _ => true

theorem sound_of_joinsEarly {event : Event} (h : joinsEarly s event = true) : s.Sound event := by
  have hrefresh : (s.locks && s.inFlight.all fun p =>
      (s.calls[p]?).all fun call => call.phase = .waiting) = true → s.SoundRefresh := by
    intro hearly token _
    rw [Bool.and_eq_true] at hearly
    cases hflight : s.inFlight with
    | none => exact Or.inl hearly.1
    | some p =>
      intro call hcall
      have hwaiting : call.phase = .waiting := by
        have hboth := hearly.2
        rw [hflight] at hboth
        change (s.calls[p]?).all _ = true at hboth
        rw [hcall] at hboth
        exact of_decide_eq_true hboth
      exact ⟨fun hended => (by cases hwaiting.symm.trans hended),
        fun fresh hserved => (by cases hwaiting.symm.trans hserved)⟩
  cases event with
  | refresh => exact hrefresh h
  | timer => exact hrefresh h
  | answer k reply =>
    cases reply with
    | refused => cases h
    | _ => trivial
  | restore => cases h
  | signOut => cases h
  | peerSignOut => cases h
  | _ => trivial

/-- A login, and a refresh by the timer that a request joins. -/
theorem session_kept_joined : ∃ s, (machine true).Reaches (fun s event => s.Sound event) s ∧ Kept s ∧
    s.access = some 2 ∧ s.told = [⟨1, false, true, some 2⟩, ⟨1, true, true, some 2⟩] := by
  have hrun : ((machine true).replay joinsEarly
      [.login, .grant 0, .serve 0, .answer 0 .ok, .settle 0, .timer, .refresh, .grant 1, .serve 1,
        .answer 1 .ok, .settle 1] (machine true).start).any (fun s =>
          s.access = some 2 && s.told = [⟨1, false, true, some 2⟩, ⟨1, true, true, some 2⟩]) = true := by
    decide
  obtain ⟨s, hs, hend⟩ := (Option.any_eq_true _ _).mp hrun
  simp only [Bool.and_eq_true, decide_eq_true_eq] at hend
  have hreach := (Machine.reaches_of_replay hs).mono fun _ _ => sound_of_joinsEarly
  exact ⟨s, hreach, session_kept hreach, hend⟩

/-- Without locks: a refresh is out, its viewer signs out and in again, and another refresh
    is sent. -/
theorem requests_overlap : ∃ s, (machine false).Reachable s ∧ ¬ AtMostOne Call.requesting s.calls := by
  have hrun : ((machine false).replay (fun _ _ => true)
      [.restore, .serve 0, .answer 0 .ok, .refresh, .signOut, .login, .serve 3, .answer 3 .ok, .refresh]
      (machine false).start).any (fun s =>
        (s.calls[1]?).any Call.requesting && (s.calls[4]?).any Call.requesting) = true := by
    decide
  obtain ⟨s, hs, hend⟩ := (Option.any_eq_true _ _).mp hrun
  rw [Bool.and_eq_true] at hend
  obtain ⟨first, hfirst, hout⟩ := (Option.any_eq_true _ _).mp hend.1
  obtain ⟨second, hsecond, hout'⟩ := (Option.any_eq_true _ _).mp hend.2
  refine ⟨s, (Machine.reaches_of_replay hs).reachable, fun hone => ?_⟩
  cases hone 1 4 first second hfirst hsecond hout hout'

/-- With locks: a peer signs out after a shared refresh has installed its token and before
    its lock is released. -/
theorem told_of_ended_session : ∃ s, (machine true).Reachable s ∧
    s.told = [⟨1, false, true, none⟩, ⟨1, true, true, none⟩] := by
  have hrun : ((machine true).replay (fun _ _ => true)
      [.restore, .grant 0, .serve 0, .answer 0 .ok, .settle 0, .refresh, .refresh, .grant 1, .serve 1,
        .answer 1 .ok, .peerSignOut, .settle 1] (machine true).start).any (fun s =>
          s.told = [⟨1, false, true, none⟩, ⟨1, true, true, none⟩]) = true := by
    decide
  obtain ⟨s, hs, hend⟩ := (Option.any_eq_true _ _).mp hrun
  exact ⟨s, (Machine.reaches_of_replay hs).reachable, of_decide_eq_true hend⟩

/-- With locks: the timer of a token that has expired already fires before the lock is
    released, joins the refresh that has installed it, and is told that all is well. -/
theorem renewal_lost : ∃ s, (machine true).Reachable s ∧ ¬ Armed s := by
  have hrun : ((machine true).replay (fun _ _ => true)
      [.restore, .grant 0, .serve 0, .answer 0 .ok, .settle 0, .timer, .grant 1, .serve 1,
        .answer 1 .ok, .timer, .settle 1] (machine true).start).any (fun s =>
          s.access.isSome && !s.refreshTimer && s.calls.all fun call => !call.renews) = true := by
    decide
  obtain ⟨s, hs, hend⟩ := (Option.any_eq_true _ _).mp hrun
  simp only [Bool.and_eq_true, Bool.not_eq_true'] at hend
  refine ⟨s, (Machine.reaches_of_replay hs).reachable, fun harmed => ?_⟩
  rcases harmed hend.1.1 with htimer | ⟨call, hcall, hrenews⟩
  · cases hend.1.2.symm.trans htimer
  · have hnot := List.all_eq_true.mp hend.2 call hcall
    rw [hrenews] at hnot
    cases hnot

end Kahawai.Web.Session
