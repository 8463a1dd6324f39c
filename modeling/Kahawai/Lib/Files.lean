import Mathlib.Data.List.Infix
import Mathlib.Tactic.Common

/-!
# File systems

A file system gives every path a node, and a node lies in a directory. Its operations fail,
or change some paths.

An operation of a replacement (`Op`) brings paths to what they shall be (`Op.goal`), and
fails where something is in the way (`obstructs`). A list of them stops at the first that
fails. The operations of a list are consistent when they agree on what each path shall be.

Results:
* `runAll_cases`: what a run leaves behind.
* `runAll_fst_iff`: it reaches its end when nothing is in the way at its start.
* `unchanged_iff`: it stops without a change when all that precedes an obstacle is in place.
* `node_of_interrupted`: what an interrupted run leaves behind is not in the way of a second one.
-/

namespace Kahawai.Lib.Files

/-- A node. What is neither a regular file nor a directory is `other`. -/
inductive Node (β : Type*)
  | file (content : β)
  | dir
  | other
  deriving DecidableEq

/-- The nodes of the paths, of which the empty one is the root. -/
@[ext] structure FileSystem (ν β : Type*) where
  node : List ν → Option (Node β)
  root : node [] = some .dir
  closed : ∀ p n, node (p ++ [n]) ≠ none → node p = some .dir

variable {ν β : Type*} {fs fs' : FileSystem ν β} {p q : List ν} {b : β}

/-- Whatever has something below it is a directory. -/
theorem node_eq_dir (h : fs.node (p ++ q) ≠ none) (hq : q ≠ []) : fs.node p = some .dir := by
  induction q using List.reverseRecOn with
  | nil => exact absurd rfl hq
  | append_singleton q n ih =>
    rw [← List.append_assoc] at h
    have hdir := fs.closed _ _ h
    by_cases hnil : q = []
    · rw [hnil, List.append_nil] at hdir
      exact hdir
    · exact ih (by rw [hdir]; exact Option.some_ne_none _) hnil

/-- Above a directory there are directories. -/
theorem node_eq_dir_above (h : fs.node p = some .dir) (hq : q <+: p) : fs.node q = some .dir := by
  obtain ⟨r, rfl⟩ := hq
  by_cases hr : r = []
  · rwa [hr, List.append_nil] at h
  · exact node_eq_dir (by rw [h]; exact Option.some_ne_none _) hr

theorem node_append_eq_none (h : fs.node p = none) (q : List ν) : fs.node (p ++ q) = none := by
  by_contra hne
  by_cases hq : q = []
  · rw [hq, List.append_nil] at hne
    exact hne h
  · rw [node_eq_dir hne hq] at h
    cases h

/-! ## Operations -/

/-- The node cannot be turned into what it shall be. -/
def obstructs (goal node : Option (Node β)) : Bool :=
  match goal, node with
  | some .dir, some (.file _) | some .dir, some .other => true
  | some (.file _), some .dir | some (.file _), some .other => true
  | none, some .dir => true
  | _, _ => false

@[simp] theorem obstructs_self (v : Option (Node β)) : obstructs v v = false := by
  rcases v with _ | v
  · rfl
  · cases v <;> rfl

/-- Operations that replace what is there. -/
inductive Op (ν β : Type*)
  | makeDirs (p : List ν)
  | copy (p : List ν) (b : β)
  | remove (p : List ν)
  | fail
  deriving DecidableEq

variable [DecidableEq ν]

/-- What a path shall be. -/
def Op.goal : Op ν β → List ν → Option (Option (Node β))
  | .makeDirs p, q => if q <+: p then some (some .dir) else none
  | .copy p b, q => if q = p then some (some (.file b)) else none
  | .remove p, q => if q = p then some none else none
  | .fail, _ => none

theorem Op.goal_makeDirs : (Op.makeDirs p : Op ν β).goal q = if q <+: p then some (some .dir) else none :=
  rfl

theorem Op.goal_copy : (Op.copy p b).goal q = if q = p then some (some (.file b)) else none := rfl

theorem Op.goal_remove : (Op.remove p : Op ν β).goal q = if q = p then some none else none := rfl

/-- The operation succeeds. A file is written into a directory that is there. -/
def Op.Allowed (fs : FileSystem ν β) : Op ν β → Prop
  | .makeDirs p => ∀ q ∈ p.inits, obstructs (some .dir) (fs.node q) = false
  | .copy p b => p ≠ [] ∧ fs.node p.dropLast = some .dir ∧ obstructs (some (.file b)) (fs.node p) = false
  | .remove p => obstructs none (fs.node p) = false
  | .fail => False

variable {o : Op ν β}

theorem Op.root_of_allowed (h : o.Allowed fs) : (o.goal []).getD (fs.node []) = some .dir := by
  cases o with
  | makeDirs p => rfl
  | copy p b => rw [goal, if_neg (Ne.symm h.1), Option.getD_none, fs.root]
  | remove p =>
    by_cases hp : [] = p
    · rw [Allowed, ← hp, fs.root] at h
      cases h
    · rw [goal, if_neg hp, Option.getD_none, fs.root]
  | fail => exact absurd h id

theorem Op.closed_of_allowed (h : o.Allowed fs) (q : List ν) (n : ν)
    (hne : (o.goal (q ++ [n])).getD (fs.node (q ++ [n])) ≠ none) :
    (o.goal q).getD (fs.node q) = some .dir := by
  cases o with
  | makeDirs p =>
    rw [goal_makeDirs] at hne ⊢
    by_cases hq : q <+: p
    · rw [if_pos hq, Option.getD_some]
    · have hqn : ¬ q ++ [n] <+: p := fun hprefix => hq ((List.prefix_append q [n]).trans hprefix)
      rw [if_neg hqn, Option.getD_none] at hne
      rw [if_neg hq, Option.getD_none]
      exact fs.closed q n hne
  | copy p b =>
    obtain ⟨-, hparent, hobstructs⟩ := h
    rw [goal_copy] at hne ⊢
    by_cases hqn : q ++ [n] = p
    · have hq : q ≠ p := fun hq => by
        have := congrArg List.length (hqn.trans hq.symm)
        rw [List.length_append, List.length_singleton] at this
        omega
      rw [if_neg hq, Option.getD_none, ← hparent, ← hqn, List.dropLast_concat]
    · rw [if_neg hqn, Option.getD_none] at hne
      have hdir := fs.closed q n hne
      by_cases hq : q = p
      · rw [← hq, hdir] at hobstructs
        cases hobstructs
      · rw [if_neg hq, Option.getD_none, hdir]
  | remove p =>
    rw [goal_remove] at hne ⊢
    by_cases hqn : q ++ [n] = p
    · rw [if_pos hqn, Option.getD_some] at hne
      exact absurd rfl hne
    · rw [if_neg hqn, Option.getD_none] at hne
      have hdir := fs.closed q n hne
      by_cases hq : q = p
      · rw [Allowed, ← hq, hdir] at h
        cases h
      · rw [if_neg hq, Option.getD_none, hdir]
  | fail => exact absurd h id

/-! ## Runs -/

variable [DecidableEq β]

instance : (o : Op ν β) → Decidable (o.Allowed fs)
  | .makeDirs _ => inferInstanceAs (Decidable (∀ _ ∈ _, _))
  | .copy _ _ => inferInstanceAs (Decidable (_ ∧ _))
  | .remove _ => inferInstanceAs (Decidable (_ = _))
  | .fail => isFalse id

/-- An operation. -/
def Op.run (o : Op ν β) (fs : FileSystem ν β) : Option (FileSystem ν β) :=
  if h : o.Allowed fs then
    some ⟨fun q => (o.goal q).getD (fs.node q), root_of_allowed h, closed_of_allowed h⟩
  else none

/-- Operations until one fails, and whether all have succeeded. -/
def runAll : List (Op ν β) → FileSystem ν β → Bool × FileSystem ν β
  | [], fs => (true, fs)
  | o :: ops, fs =>
    match o.run fs with
    | some fs' => runAll ops fs'
    | none => (false, fs)

theorem Op.node_of_run (h : o.run fs = some fs') (q : List ν) :
    fs'.node q = (o.goal q).getD (fs.node q) := by
  unfold run at h
  split_ifs at h
  cases h
  rfl

theorem Op.run_eq_none_iff : o.run fs = none ↔ ¬ o.Allowed fs := by
  unfold run
  split_ifs with h <;> simp [h]

theorem Op.allowed_of_run (h : o.run fs = some fs') : o.Allowed fs := by
  by_contra hnot
  rw [Op.run_eq_none_iff.mpr hnot] at h
  cases h

theorem Op.exists_run (h : o.Allowed fs) : ∃ fs', o.run fs = some fs' := by
  unfold run
  rw [dif_pos h]
  exact ⟨_, rfl⟩

/-- A new node in a directory that is there. -/
def FileSystem.add (p : List ν) (v : Node β) (fs : FileSystem ν β) : Option (FileSystem ν β) :=
  if h : p ≠ [] ∧ fs.node p.dropLast = some .dir ∧ fs.node p = none then
    some
      { node := fun q => if q = p then some v else fs.node q
        root := by rw [if_neg h.1.symm, fs.root]
        closed := fun q n hne => by
          by_cases hqn : q ++ [n] = p
          · have hdir : fs.node q = some .dir := by rw [← h.2.1, ← hqn, List.dropLast_concat]
            have hq : q ≠ p := fun hq => by rw [hq, h.2.2] at hdir; cases hdir
            rw [if_neg hq, hdir]
          · rw [if_neg hqn] at hne
            have hdir := fs.closed q n hne
            have hq : q ≠ p := fun hq => by rw [hq, h.2.2] at hdir; cases hdir
            rw [if_neg hq, hdir] }
  else none

theorem FileSystem.node_of_add {v : Node β} (h : fs.add p v = some fs') (q : List ν) :
    fs'.node q = if q = p then some v else fs.node q := by
  unfold add at h
  split_ifs at h
  cases h
  rfl

/-- Removes a path and all that is below it. -/
def FileSystem.removeAll (p : List ν) (fs : FileSystem ν β) : FileSystem ν β :=
  if h : p = [] then fs
  else
    { node := fun q => if p <+: q then none else fs.node q
      root := by rw [if_neg fun hp => h (List.prefix_nil.mp hp), fs.root]
      closed := fun q n hne => by
        by_cases hqn : p <+: q ++ [n]
        · rw [if_pos hqn] at hne
          exact absurd rfl hne
        · rw [if_neg hqn] at hne
          rw [if_neg fun hq => hqn (hq.trans (List.prefix_append q [n]))]
          exact fs.closed q n hne }

omit [DecidableEq β] in
theorem FileSystem.node_removeAll (hp : p ≠ []) (q : List ν) :
    (fs.removeAll p).node q = if p <+: q then none else fs.node q := by
  unfold removeAll
  rw [dif_neg hp]

/-! ## What a run leaves behind -/

/-- What a path shall be in the end. -/
def goals (ops : List (Op ν β)) (q : List ν) : Option (Option (Node β)) :=
  ops.findSome? fun o => o.goal q

/-- No two operations differ about a path. -/
def Consistent (ops : List (Op ν β)) : Prop :=
  ∀ o ∈ ops, ∀ q v, o.goal q = some v → goals ops q = some v

/-- The operations bring paths to what `G` says. -/
def Toward (G : List ν → Option (Option (Node β))) (ops : List (Op ν β)) : Prop :=
  ∀ o ∈ ops, ∀ q v, o.goal q = some v → G q = some v

section Goals

omit [DecidableEq β]

variable {G : List ν → Option (Option (Node β))} {ops : List (Op ν β)} {v : Option (Node β)}

theorem goals_cons (o : Op ν β) (ops : List (Op ν β)) (q : List ν) :
    goals (o :: ops) q = (o.goal q).or (goals ops q) := by
  unfold goals
  rw [List.findSome?_cons]
  cases o.goal q <;> rfl

theorem exists_of_goals (h : goals ops q = some v) : ∃ o ∈ ops, o.goal q = some v :=
  List.exists_of_findSome?_eq_some h

theorem Toward.of_goals (hops : Toward G ops) (h : goals ops q = some v) : G q = some v := by
  obtain ⟨o, ho, hgoal⟩ := exists_of_goals h
  exact hops o ho q v hgoal

theorem Toward.consistent (h : Toward G ops) : Consistent ops := by
  intro o ho q v hv
  cases hgoal : goals ops q with
  | none =>
    have hnone := List.findSome?_eq_none_iff.mp hgoal o ho
    rw [hv] at hnone
    cases hnone
  | some v' => rw [← h.of_goals hgoal, h o ho q v hv]

/-- Part of a consistent list. -/
theorem Consistent.goals_of_mem {before : List (Op ν β)} (hops : Consistent ops)
    (hsub : ∀ o ∈ before, o ∈ ops) (ho : o ∈ before) (hv : o.goal q = some v) :
    goals before q = some v := by
  have hbefore : Toward (goals ops) before := fun o ho => hops o (hsub o ho)
  exact hbefore.consistent o ho q v hv

theorem Toward.head (h : Toward G (o :: ops)) {v : Option (Node β)} (hv : o.goal q = some v) :
    G q = some v :=
  h o List.mem_cons_self q v hv

theorem Toward.tail (h : Toward G (o :: ops)) : Toward G ops :=
  fun o' ho' => h o' (List.mem_cons_of_mem _ ho')

end Goals

/-- A run performs its operations up to the first that fails. -/
theorem runAll_cases {G : List ν → Option (Option (Node β))} {ops : List (Op ν β)}
    (hops : Toward G ops) (fs : FileSystem ν β) :
    ∃ before after, ops = before ++ after ∧
      (∀ q, (runAll ops fs).2.node q = (goals before q).getD (fs.node q)) ∧
      ((runAll ops fs).1 = true ∧ after = [] ∨
        (runAll ops fs).1 = false ∧ ∃ o rest, after = o :: rest ∧ ¬ o.Allowed (runAll ops fs).2) ∧
      Op.fail ∉ before := by
  induction ops generalizing fs with
  | nil => exact ⟨[], [], rfl, fun q => rfl, Or.inl ⟨rfl, rfl⟩, List.not_mem_nil⟩
  | cons o ops ih =>
    cases hrun : o.run fs with
    | none =>
      have hall : runAll (o :: ops) fs = (false, fs) := by rw [runAll, hrun]
      rw [hall]
      exact ⟨[], o :: ops, rfl, fun q => rfl, Or.inr ⟨rfl, o, ops, rfl, Op.run_eq_none_iff.mp hrun⟩,
        List.not_mem_nil⟩
    | some fs₁ =>
      have hall : runAll (o :: ops) fs = runAll ops fs₁ := by rw [runAll, hrun]
      obtain ⟨before, after, hsplit, hnode, hend, hfail⟩ := ih hops.tail fs₁
      have hallowed : o.Allowed fs := by
        by_contra h
        rw [Op.run_eq_none_iff.mpr h] at hrun
        cases hrun
      have ho : Op.fail ≠ o := fun h => by rw [← h] at hallowed; exact hallowed
      rw [hall]
      refine ⟨o :: before, after, congrArg (o :: ·) hsplit, fun q => ?_, hend,
        List.not_mem_cons_of_ne_of_not_mem ho hfail⟩
      rw [hnode, Op.node_of_run hrun, goals_cons]
      cases hgoal : o.goal q with
      | none => rfl
      | some v =>
        -- what was done later agrees with what is done here
        rw [Option.some_or, Option.getD_some]
        cases hlater : goals before q with
        | none => rfl
        | some v' =>
          have hbefore : goals ops q = some v' := by
            unfold goals at hlater ⊢
            rw [hsplit, List.findSome?_append, hlater, Option.some_or]
          have hsame := (hops.tail.of_goals hbefore).symm.trans (hops.head hgoal)
          exact Option.some.inj hsame

/-! ## Obstacles -/

/-- Nothing is in the way of the operation. -/
def Op.Clear (fs : FileSystem ν β) : Op ν β → Prop
  | .makeDirs p => ∀ q ∈ p.inits, obstructs (some .dir) (fs.node q) = false
  | .copy p b => obstructs (some (.file b)) (fs.node p) = false
  | .remove p => obstructs none (fs.node p) = false
  | .fail => False

/-- The operation has nothing to do. -/
def Op.InPlace (fs : FileSystem ν β) : Op ν β → Prop
  | .makeDirs p => fs.node p = some .dir
  | .copy p b => p ≠ [] ∧ fs.node p = some (.file b)
  | .remove p => fs.node p = none
  | .fail => False

/-- The directory of every file is made before. -/
def Ready (made : List (List ν)) : List (Op ν β) → Prop
  | [] => True
  | .makeDirs p :: ops => Ready (p :: made) ops
  | .copy p _ :: ops => p ≠ [] ∧ (∃ d ∈ made, p.dropLast <+: d) ∧ Ready made ops
  | .remove _ :: ops => Ready made ops
  | .fail :: ops => Ready made ops

section Obstacles

omit [DecidableEq β]

variable {P : List ν → Option (Node β) → Prop}

theorem forall_goal_makeDirs : (∀ q v, (Op.makeDirs p : Op ν β).goal q = some v → P q v) ↔
    ∀ q ∈ p.inits, P q (some .dir) := by
  simp only [Op.goal_makeDirs, List.mem_inits]
  constructor
  · intro h q hq
    exact h q _ (if_pos hq)
  · intro h q v hv
    split_ifs at hv with hq
    cases hv
    exact h q hq

theorem forall_goal_copy : (∀ q v, (Op.copy p b).goal q = some v → P q v) ↔ P p (some (.file b)) := by
  simp only [Op.goal_copy]
  constructor
  · intro h
    exact h p _ (if_pos rfl)
  · intro h q v hv
    split_ifs at hv with hq
    cases hv
    exact hq ▸ h

theorem forall_goal_remove : (∀ q v, (Op.remove p : Op ν β).goal q = some v → P q v) ↔ P p none := by
  simp only [Op.goal_remove]
  constructor
  · intro h
    exact h p _ (if_pos rfl)
  · intro h q v hv
    split_ifs at hv with hq
    cases hv
    exact hq ▸ h

theorem Op.clear_iff : o.Clear fs ↔
    o ≠ .fail ∧ ∀ q v, o.goal q = some v → obstructs v (fs.node q) = false := by
  cases o with
  | makeDirs p => exact ⟨fun h => ⟨nofun, forall_goal_makeDirs.mpr h⟩, fun h => forall_goal_makeDirs.mp h.2⟩
  | copy p b =>
    have hgoal := forall_goal_copy (p := p) (b := b) (P := fun q v => obstructs v (fs.node q) = false)
    exact ⟨fun h => ⟨nofun, hgoal.mpr h⟩, fun h => hgoal.mp h.2⟩
  | remove p =>
    have hgoal := forall_goal_remove (p := p) (P := fun q v => obstructs v (fs.node q) = false)
    exact ⟨fun h => ⟨nofun, hgoal.mpr h⟩, fun h => hgoal.mp h.2⟩
  | fail => exact ⟨False.elim, fun h => h.1 rfl⟩

/-- What is in place is as it shall be. -/
theorem Op.inPlace_iff (hroot : ∀ b, o ≠ .copy [] b) : o.InPlace fs ↔
    o ≠ .fail ∧ ∀ q v, o.goal q = some v → fs.node q = v := by
  cases o with
  | makeDirs p =>
    have hgoal := forall_goal_makeDirs (p := p) (P := fun q v => fs.node q = v)
    refine ⟨fun h => ⟨nofun, hgoal.mpr fun q hq => ?_⟩, fun h => ?_⟩
    · obtain ⟨r, rfl⟩ := (List.mem_inits _ _).mp hq
      by_cases hr : r = []
      · rw [InPlace, hr, List.append_nil] at h
        exact h
      · exact node_eq_dir (by rw [show fs.node (q ++ r) = _ from h]; exact Option.some_ne_none _) hr
    · exact hgoal.mp h.2 p ((List.mem_inits _ _).mpr (List.prefix_refl p))
  | copy p b =>
    have hgoal := forall_goal_copy (p := p) (b := b) (P := fun q v => fs.node q = v)
    refine ⟨fun h => ⟨nofun, hgoal.mpr h.2⟩, fun h => ⟨fun hp => hroot b (by rw [hp]), hgoal.mp h.2⟩⟩
  | remove p =>
    have hgoal := forall_goal_remove (p := p) (P := fun q v => fs.node q = v)
    exact ⟨fun h => ⟨nofun, hgoal.mpr h⟩, fun h => hgoal.mp h.2⟩
  | fail => exact ⟨False.elim, fun h => h.1 rfl⟩

omit [DecidableEq ν] in
theorem Op.Allowed.clear (h : o.Allowed fs) : o.Clear fs := by
  cases o with
  | copy p b => exact h.2.2
  | _ => exact h

omit [DecidableEq ν] in
theorem Op.Clear.allowed (h : o.Clear fs)
    (hparent : ∀ p b, o = .copy p b → p ≠ [] ∧ fs.node p.dropLast = some .dir) : o.Allowed fs := by
  cases o with
  | copy p b => exact ⟨(hparent p b rfl).1, (hparent p b rfl).2, h⟩
  | _ => exact h

omit [DecidableEq ν] in
theorem Ready.parent {made : List (List ν)} {before rest : List (Op ν β)}
    (h : Ready made (before ++ .copy p b :: rest)) :
    p ≠ [] ∧ ∃ d, p.dropLast <+: d ∧ (d ∈ made ∨ .makeDirs d ∈ before) := by
  induction before generalizing made with
  | nil =>
    obtain ⟨hp, ⟨d, hd, hprefix⟩, -⟩ := h
    exact ⟨hp, d, hprefix, Or.inl hd⟩
  | cons o before ih =>
    cases o with
    | makeDirs p' =>
      have hrest : Ready (p' :: made) (before ++ .copy p b :: rest) := h
      obtain ⟨hp, d, hprefix, hd⟩ := ih hrest
      refine ⟨hp, d, hprefix, ?_⟩
      rcases hd with hd | hd
      · rcases List.mem_cons.mp hd with rfl | hd
        · exact Or.inr List.mem_cons_self
        · exact Or.inl hd
      · exact Or.inr (List.mem_cons_of_mem _ hd)
    | copy p' b' =>
      obtain ⟨hp, d, hprefix, hd⟩ := ih h.2.2
      exact ⟨hp, d, hprefix, hd.imp_right (List.mem_cons_of_mem _)⟩
    | remove p' =>
      have hrest : Ready made (before ++ .copy p b :: rest) := h
      obtain ⟨hp, d, hprefix, hd⟩ := ih hrest
      exact ⟨hp, d, hprefix, hd.imp_right (List.mem_cons_of_mem _)⟩
    | fail =>
      have hrest : Ready made (before ++ .copy p b :: rest) := h
      obtain ⟨hp, d, hprefix, hd⟩ := ih hrest
      exact ⟨hp, d, hprefix, hd.imp_right (List.mem_cons_of_mem _)⟩

omit [DecidableEq ν] in
theorem Ready.mono {made made' : List (List ν)} {ops : List (Op ν β)} (h : Ready made ops)
    (hsub : ∀ d ∈ made, d ∈ made') : Ready made' ops := by
  induction ops generalizing made made' with
  | nil => trivial
  | cons o ops ih =>
    cases o with
    | makeDirs p =>
      have hcons : ∀ d ∈ p :: made, d ∈ p :: made' := fun d hd =>
        List.mem_cons.mpr ((List.mem_cons.mp hd).imp_right (hsub d))
      have hops : Ready (p :: made) ops := h
      exact ih hops hcons
    | copy p b =>
      obtain ⟨hp, ⟨d, hd, hprefix⟩, hops⟩ := h
      exact ⟨hp, ⟨d, hsub d hd, hprefix⟩, ih hops hsub⟩
    | remove p =>
      have hops : Ready made ops := h
      exact ih hops hsub
    | fail =>
      have hops : Ready made ops := h
      exact ih hops hsub

omit [DecidableEq ν] in
theorem Ready.append {made : List (List ν)} {ops ops' : List (Op ν β)} (h : Ready made ops)
    (h' : Ready made ops') : Ready made (ops ++ ops') := by
  induction ops generalizing made with
  | nil => exact h'
  | cons o ops ih =>
    cases o with
    | makeDirs p =>
      have hops : Ready (p :: made) ops := h
      exact ih hops (h'.mono fun d hd => List.mem_cons_of_mem _ hd)
    | copy p b => exact ⟨h.1, h.2.1, ih h.2.2 h'⟩
    | remove p => exact ih h h'
    | fail => exact ih h h'

omit [DecidableEq ν] in
theorem Ready.flatMap {α : Type*} {made : List (List ν)} {l : List α} {f : α → List (Op ν β)}
    (h : ∀ a ∈ l, Ready made (f a)) : Ready made (l.flatMap f) := by
  induction l with
  | nil => trivial
  | cons a l ih =>
    rw [List.flatMap_cons]
    exact (h a List.mem_cons_self).append (ih fun a ha => h a (List.mem_cons_of_mem _ ha))

end Obstacles

section Replacement

variable {ops : List (Op ν β)}

omit [DecidableEq β] in
/-- At the operation that fails, the directories are made. -/
theorem clear_iff_allowed {before rest : List (Op ν β)} (hops : Consistent ops) (hready : Ready [] ops)
    (hsplit : ops = before ++ o :: rest)
    (hnode : ∀ q, fs'.node q = (goals before q).getD (fs.node q)) : o.Clear fs' ↔ o.Allowed fs' := by
  refine ⟨fun h => h.allowed ?_, Op.Allowed.clear⟩
  rintro p b rfl
  rw [hsplit] at hready
  obtain ⟨hp, d, hprefix, hd⟩ := hready.parent
  have hmem : .makeDirs d ∈ before := hd.resolve_left List.not_mem_nil
  have hgoal : (Op.makeDirs d : Op ν β).goal p.dropLast = some (some .dir) := by
    rw [Op.goal_makeDirs, if_pos hprefix]
  have hbefore : ∀ o' ∈ before, o' ∈ ops := fun o' ho' => hsplit ▸ List.mem_append_left _ ho'
  refine ⟨hp, ?_⟩
  rw [hnode, hops.goals_of_mem hbefore hmem hgoal, Option.getD_some]

omit [DecidableEq β] in
/-- What other operations have done is not in the way. -/
theorem clear_of_overlay {done : List (Op ν β)} (hops : Consistent ops) (ho : o ∈ ops)
    (hdone : ∀ o' ∈ done, o' ∈ ops) (hnode : ∀ q, fs'.node q = (goals done q).getD (fs.node q))
    (h : o.Clear fs) : o.Clear fs' := by
  rw [Op.clear_iff] at h ⊢
  refine ⟨h.1, fun q v hv => ?_⟩
  rw [hnode]
  cases hgoal : goals done q with
  | none => exact h.2 q v hv
  | some v' =>
    obtain ⟨o', ho', hv'⟩ := exists_of_goals hgoal
    have hsame := (hops o' (hdone o' ho') q v' hv').symm.trans (hops o ho q v hv)
    rw [Option.some.inj hsame]
    exact obstructs_self v

/-- A run reaches its end when nothing is in the way at its start. -/
theorem runAll_fst_iff (hops : Consistent ops) (hready : Ready [] ops) :
    (runAll ops fs).1 = true ↔ ∀ o ∈ ops, o.Clear fs := by
  constructor
  · have hclear : ∀ rest : List (Op ν β), (∀ o ∈ rest, o ∈ ops) → ∀ fs,
        (runAll rest fs).1 = true → ∀ o ∈ rest, o.Clear fs := by
      intro rest
      induction rest with
      | nil => exact fun _ _ _ o ho => absurd ho List.not_mem_nil
      | cons o rest ih =>
        intro hrest fs hdone o' ho'
        have hallowed : o.Allowed fs := by
          by_contra h
          rw [runAll, Op.run_eq_none_iff.mpr h] at hdone
          cases hdone
        rcases List.mem_cons.mp ho' with rfl | ho'
        · exact hallowed.clear
        obtain ⟨fs₁, hrun⟩ := Op.exists_run hallowed
        rw [runAll, hrun] at hdone
        have hlater := ih (fun o ho => hrest o (List.mem_cons_of_mem _ ho)) fs₁ hdone o' ho'
        rw [Op.clear_iff] at hlater ⊢
        refine ⟨hlater.1, fun q v hv => ?_⟩
        have hafter := hlater.2 q v hv
        rw [Op.node_of_run hrun] at hafter
        cases hgoal : o.goal q with
        | none => rwa [hgoal] at hafter
        | some v' =>
          have hsame := (hops o (hrest o List.mem_cons_self) q v' hgoal).symm.trans
            (hops o' (hrest o' (List.mem_cons_of_mem _ ho')) q v hv)
          cases hsame
          exact (Op.clear_iff.mp hallowed.clear).2 q v hgoal
    exact hclear ops (fun _ ho => ho) fs
  · intro hclear
    obtain ⟨before, after, hsplit, hnode, hend, -⟩ := runAll_cases (G := goals ops) hops fs
    rcases hend with ⟨hdone, -⟩ | ⟨-, o, rest, rfl, hnot⟩
    · exact hdone
    · have ho : o ∈ ops := hsplit ▸ List.mem_append_right _ List.mem_cons_self
      have hbefore : ∀ o' ∈ before, o' ∈ ops := fun o' ho' => hsplit ▸ List.mem_append_left _ ho'
      have hnow := clear_of_overlay hops ho hbefore hnode (hclear o ho)
      exact absurd ((clear_iff_allowed hops hready hsplit hnode).mp hnow) hnot

/-- A run that reaches its end. -/
theorem node_of_runAll (hops : Consistent ops) (h : (runAll ops fs).1 = true) (q : List ν) :
    (runAll ops fs).2.node q = (goals ops q).getD (fs.node q) := by
  obtain ⟨before, after, hsplit, hnode, hend, -⟩ := runAll_cases (G := goals ops) hops fs
  rcases hend with ⟨-, rfl⟩ | ⟨hfail, -⟩
  · rw [hnode, hsplit, List.append_nil]
  · rw [hfail] at h
    cases h

/-- The operations that have nothing to do. -/
theorem runAll_append_of_inPlace {before rest : List (Op ν β)}
    (hbefore : ∀ o ∈ before, o.InPlace fs) : runAll (before ++ rest) fs = runAll rest fs := by
  induction before with
  | nil => rfl
  | cons o before ih =>
    have hplace := hbefore o List.mem_cons_self
    have hroot : ∀ b, o ≠ .copy [] b := by
      rintro b rfl
      exact hplace.1 rfl
    have hgoal := (Op.inPlace_iff hroot).mp hplace
    have hclear : o.Clear fs :=
      Op.clear_iff.mpr ⟨hgoal.1, fun q v hv => by rw [hgoal.2 q v hv]; exact obstructs_self v⟩
    have hallowed : o.Allowed fs := by
      refine hclear.allowed fun p b hp => ?_
      subst hp
      refine ⟨hplace.1, ?_⟩
      have hparent : fs.node (p.dropLast ++ [p.getLast hplace.1]) ≠ none := by
        rw [List.dropLast_append_getLast, hplace.2]
        exact Option.some_ne_none _
      exact fs.closed _ _ hparent
    obtain ⟨fs₁, hrun⟩ := Op.exists_run hallowed
    have hsame : fs₁ = fs := by
      ext q : 2
      rw [Op.node_of_run hrun]
      cases hq : o.goal q with
      | none => rfl
      | some v => exact (hgoal.2 q v hq).symm
    rw [List.cons_append, runAll, hrun, hsame]
    exact ih fun o ho => hbefore o (List.mem_cons_of_mem _ ho)

/-- A run stops without a change when all that precedes the obstacle is in place. -/
theorem unchanged_iff (hops : Consistent ops) (hready : Ready [] ops) :
    ((runAll ops fs).1 = false ∧ ∀ q, (runAll ops fs).2.node q = fs.node q) ↔
      ∃ before o after, ops = before ++ o :: after ∧ (∀ o' ∈ before, o'.InPlace fs) ∧ ¬ o.Clear fs := by
  constructor
  · rintro ⟨hfalse, hsame⟩
    obtain ⟨before, after, hsplit, hnode, hend, hfail⟩ := runAll_cases (G := goals ops) hops fs
    rcases hend with ⟨htrue, -⟩ | ⟨-, o, rest, rfl, hnot⟩
    · rw [hfalse] at htrue
      cases htrue
    · have hfs : (runAll ops fs).2 = fs := FileSystem.ext (funext hsame)
      rw [← clear_iff_allowed hops hready hsplit hnode, hfs] at hnot
      refine ⟨before, o, rest, hsplit, fun o' ho' => ?_, hnot⟩
      have hmem : o' ∈ ops := hsplit ▸ List.mem_append_left _ ho'
      have hroot : ∀ b, o' ≠ .copy [] b := by
        rintro b rfl
        obtain ⟨before', rest', hsplit'⟩ := List.append_of_mem hmem
        rw [hsplit'] at hready
        exact hready.parent.1 rfl
      refine (Op.inPlace_iff hroot).mpr ⟨fun h => hfail (h ▸ ho'), fun q v hv => ?_⟩
      have hbefore : ∀ o ∈ before, o ∈ ops := fun o ho => hsplit ▸ List.mem_append_left _ ho
      rw [← hsame, hnode, hops.goals_of_mem hbefore ho' hv, Option.getD_some]
  · rintro ⟨before, o, after, rfl, hbefore, hnot⟩
    have hnone : o.run fs = none := Op.run_eq_none_iff.mpr fun h => hnot h.clear
    rw [runAll_append_of_inPlace hbefore, runAll, hnone]
    exact ⟨rfl, fun _ => rfl⟩

/-! ## Interruption -/

/-- What a run that is interrupted leaves behind: all of its operations up to some one, and of
    that one a part of the directories, or a file that is not complete. -/
inductive Interrupted (ops : List (Op ν β)) (fs : FileSystem ν β) : FileSystem ν β → Prop
  | between (before after : List (Op ν β)) (hsplit : ops = before ++ after)
      (hdone : (runAll before fs).1 = true) : Interrupted ops fs (runAll before fs).2
  | within (before after : List (Op ν β)) (o part : Op ν β) (hsplit : ops = before ++ o :: after)
      (hdone : (runAll before fs).1 = true)
      (hpart : (∃ p b c, o = .copy p b ∧ part = .copy p c) ∨
        ∃ p q, o = .makeDirs p ∧ part = .makeDirs q ∧ q <+: p)
      {fs' : FileSystem ν β} (hrun : part.run (runAll before fs).2 = some fs') : Interrupted ops fs fs'

/-- An interrupted run has changed only what the whole run changes, and nothing is in the way
    of a second one. -/
theorem node_of_interrupted (hops : Consistent ops) (hi : Interrupted ops fs fs') (q : List ν) :
    fs'.node q = fs.node q ∨ ∃ v, goals ops q = some v ∧ obstructs v (fs'.node q) = false := by
  have hbefore : ∀ before after, ops = before ++ after → (runAll before fs).1 = true →
      (runAll before fs).2.node q = fs.node q ∨
        ∃ v, goals ops q = some v ∧ (runAll before fs).2.node q = v := by
    intro before after hsplit hdone
    have hpart : Toward (goals ops) before := fun o ho => hops o (hsplit ▸ List.mem_append_left _ ho)
    have hnode : (runAll before fs).2.node q = (goals before q).getD (fs.node q) := by
      obtain ⟨done, rest, hdones, hnode, hend, -⟩ := runAll_cases hpart fs
      rcases hend with ⟨-, rfl⟩ | ⟨hfalse, -⟩
      · rw [hnode, hdones, List.append_nil]
      · rw [hfalse] at hdone
        cases hdone
    cases hgoal : goals before q with
    | none =>
      rw [hgoal] at hnode
      exact Or.inl hnode
    | some v =>
      rw [hgoal] at hnode
      exact Or.inr ⟨v, hpart.of_goals hgoal, hnode⟩
  cases hi with
  | between before after hsplit hdone =>
    refine (hbefore before after hsplit hdone).imp_right ?_
    rintro ⟨v, hv, hnode⟩
    exact ⟨v, hv, by rw [hnode]; exact obstructs_self v⟩
  | within before after o part hsplit hdone hpart hrun =>
    have ho : o ∈ ops := hsplit ▸ List.mem_append_right _ List.mem_cons_self
    rw [Op.node_of_run hrun]
    cases hgoal : part.goal q with
    | none =>
      refine (hbefore before (o :: after) hsplit hdone).imp_right ?_
      rintro ⟨v, hv, hnode⟩
      exact ⟨v, hv, by rw [Option.getD_none, hnode]; exact obstructs_self v⟩
    | some v =>
      refine Or.inr ?_
      rw [Option.getD_some]
      rcases hpart with ⟨p, b, c, rfl, rfl⟩ | ⟨p, p', rfl, rfl, hprefix⟩
      · rw [Op.goal_copy] at hgoal
        split_ifs at hgoal with hq
        cases hgoal
        exact ⟨_, hops _ ho q _ (by rw [Op.goal_copy, if_pos hq]), rfl⟩
      · rw [Op.goal_makeDirs] at hgoal
        split_ifs at hgoal with hq
        cases hgoal
        exact ⟨_, hops _ ho q _ (by rw [Op.goal_makeDirs, if_pos (hq.trans hprefix)]), rfl⟩

end Replacement

end Kahawai.Lib.Files
