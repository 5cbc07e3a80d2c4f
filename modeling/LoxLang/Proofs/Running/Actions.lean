import LoxLang.Proofs.Running.Starting
import LoxLang.Proofs.Running.Origins

/-!
The actions of a run. Apart from where it runs, that is, from its environment and the calls under
way, the machine is passed on from one action to the next, so that a run is the sequence of its
actions.
-/

namespace LoxLang

/-- A step of a run and the machine that takes it. -/
structure Action where
  primitive : Primitive
  machine : Machine

namespace Action

def behind (s : Action) : Machine :=
  Fueled.behind (s.primitive.go s.machine)

end Action

namespace Plan

variable {α : Type}

/-- The actions of a plan, where those of the tasks that are started for it are known. -/
def actions (inner : Task → Machine → List Action) (fuel : Nat) : Plan α → Machine → List Action
  | done _, _ => []
  | step p next, m =>
    ⟨p, m⟩ :: match p.go m with
      | .ok r m₁ => (next r).actions inner fuel m₁
      | .error _ _ => []
  | start shell t next, m =>
    inner t (shell.enter m) ++ match shell.around (Eval.perform fuel t) m with
      | .ok r m₁ => (next r).actions inner fuel m₁
      | .error _ _ => []

section

variable {inner : Task → Machine → List Action} {fuel : Nat} {m m₁ : Machine}

theorem actions_step_ok {p : Primitive} {next : p.Result → Plan α} {r : p.Result}
    (h : p.go m = .ok r m₁) :
    (step p next).actions inner fuel m = ⟨p, m⟩ :: (next r).actions inner fuel m₁ := by
  rw [actions, h]

theorem actions_step_error {p : Primitive} {next : p.Result → Plan α} {e : Stop}
    (h : p.go m = .error e m₁) : (step p next).actions inner fuel m = [⟨p, m⟩] := by
  rw [actions, h]

theorem actions_start_ok (shell : Shell) {t : Task} {next : t.Result → Plan α} {r : t.Result}
    (h : shell.around (Eval.perform fuel t) m = .ok r m₁) :
    (start shell t next).actions inner fuel m =
      inner t (shell.enter m) ++ (next r).actions inner fuel m₁ := by
  rw [actions, h]

theorem actions_start_error (shell : Shell) {t : Task} {next : t.Result → Plan α} {e : Stop}
    (h : shell.around (Eval.perform fuel t) m = .error e m₁) :
    (start shell t next).actions inner fuel m = inner t (shell.enter m) := by
  rw [actions, h, List.append_nil]

/-- A plan that ends with a step takes it. -/
theorem actions_step_done (p : Primitive) : (step p done).actions inner fuel m = [⟨p, m⟩] := by
  cases h : p.go m with
  | ok r m₁ => exact actions_step_ok h
  | error e m₁ => exact actions_step_error h

end

end Plan

/-- The actions of a task, in order. -/
def Task.actions : Nat → Task → Machine → List Action
  | 0, _, _ => []
  | fuel + 1, t, m => t.plan.actions (Task.actions fuel) fuel m

def Point.actions (a : Point) : List Action :=
  a.task.actions a.fuel a.machine

/-- The actions that are not those of a task started for it. -/
def Point.own (a : Point) : List Action :=
  match a with
  | ⟨0, _, _⟩ => []
  | ⟨fuel + 1, t, m⟩ => t.plan.actions (fun _ _ => []) fuel m

/-- A machine comes to another by actions, apart from where it runs. -/
inductive Course : Machine → List Action → Machine → Prop
  | nil {m m'} (h : m'.atTop = m.atTop) : Course m [] m'
  | cons {m m' s ss} (h : s.machine.atTop = m.atTop) (hss : Course s.behind ss m') :
      Course m (s :: ss) m'

namespace Course

variable {m m₁ m₂ m' : Machine} {ss ss' : List Action}

theorem congr (h : Course m ss m') (hl : m₁.atTop = m.atTop) (hr : m₂.atTop = m'.atTop) :
    Course m₁ ss m₂ := by
  induction h generalizing m₁ with
  | nil h => exact .nil (hr.trans (h.trans hl.symm))
  | cons h _ ih => exact .cons (h.trans hl.symm) (ih rfl hr)

theorem append (h : Course m ss m₁) (h' : Course m₁ ss' m') : Course m (ss ++ ss') m' := by
  induction h with
  | nil h => exact h'.congr h.symm rfl
  | cons h _ ih => exact .cons h (ih h')

/-- What every action keeps, wherever it runs, is kept by all of them. -/
theorem keeps {P : Machine → Prop} (h : Course m ss m')
    (hP : ∀ m₁ m₂ : Machine, m₁.atTop = m₂.atTop → P m₁ → P m₂)
    (hs : ∀ s ∈ ss, P s.machine → P s.behind) (hm : P m) : P m' := by
  induction h with
  | nil h => exact hP _ _ h.symm hm
  | cons h _ ih =>
    obtain ⟨hfirst, hrest⟩ := List.forall_mem_cons.mp hs
    exact ih hrest (hfirst (hP _ _ h.symm hm))

end Course

theorem Shell.atTop_enter (shell : Shell) (m : Machine) : (shell.enter m).atTop = m.atTop := by
  cases shell <;> rfl

theorem Shell.atTop_leave (shell : Shell) (m m₁ : Machine) :
    (shell.leave m m₁).atTop = m₁.atTop := by
  cases shell <;> rfl

/-- A run inside a shell is over where the shell puts the machine back. -/
theorem Shell.behind_around {α : Type} (shell : Shell) (x : Eval α) (m : Machine) :
    Fueled.behind (shell.around x m) = shell.leave m (Fueled.behind (x (shell.enter m))) := by
  cases hx : x (shell.enter m) with
  | ok a m₁ =>
    rw [shell.around_ok hx]
    rfl
  | error e m₁ =>
    rw [shell.around_error hx]
    rfl

/-- The machine goes through the actions of a plan, if it does so for the tasks started for it. -/
theorem Plan.course {α : Type} {inner : Task → Machine → List Action} {fuel : Nat}
    (hinner : ∀ t m, Course m (inner t m) (Fueled.behind (Eval.perform fuel t m)))
    (plan : Plan α) (m : Machine) :
    Course m (plan.actions inner fuel m) (Fueled.behind (plan.go fuel m)) := by
  induction plan generalizing m with
  | done a => exact .nil rfl
  | step p next ih =>
    rw [actions, go]
    refine .cons rfl ?_
    unfold Action.behind
    dsimp only
    cases hp : p.go m with
    | ok r m₁ =>
      rw [Fueled.bind_ok hp]
      exact ih r m₁
    | error e m₁ =>
      rw [Fueled.bind_error hp]
      exact .nil rfl
  | start shell t next ih =>
    have htask : Course m (inner t (shell.enter m))
        (Fueled.behind (shell.around (Eval.perform fuel t) m)) := by
      rw [shell.behind_around]
      exact (hinner t (shell.enter m)).congr (shell.atTop_enter m).symm (shell.atTop_leave _ _)
    rw [actions, go]
    cases hx : shell.around (Eval.perform fuel t) m with
    | ok r m₁ =>
      rw [hx] at htask
      rw [Fueled.bind_ok hx]
      exact htask.append (ih r m₁)
    | error e m₁ =>
      rw [hx] at htask
      rw [Fueled.bind_error hx]
      exact htask.append (.nil rfl)

/-- A run is the sequence of its actions. -/
theorem Task.course (fuel : Nat) (t : Task) (m : Machine) :
    Course m (t.actions fuel m) (Fueled.behind (Eval.perform fuel t m)) := by
  induction fuel generalizing t m with
  | zero =>
    rw [Eval.perform_zero]
    exact .nil rfl
  | succ fuel ih =>
    rw [Eval.perform_succ]
    exact t.plan.course (fun t m => ih t m) m

section

variable {α : Type} {fuel : Nat} {m : Machine} {s : Action}

/-- The actions of a plan are its own and those of the tasks that are started for it. -/
theorem Plan.mem_actions {inner : Task → Machine → List Action} {plan : Plan α} :
    s ∈ plan.actions inner fuel m ↔ s ∈ plan.actions (fun _ _ => []) fuel m ∨
      ∃ b ∈ plan.points fuel m, s ∈ inner b.task b.machine := by
  induction plan generalizing m with
  | done a => simp [actions, points]
  | step p next ih =>
    rw [actions, actions, points]
    cases hp : p.go m with
    | ok r m₁ =>
      dsimp only
      rw [List.mem_cons, List.mem_cons, ih r]
      tauto
    | error e m₁ => simp
  | start shell t next ih =>
    rw [actions, actions, points]
    cases hx : shell.around (Eval.perform fuel t) m with
    | ok r m₁ =>
      dsimp only
      rw [List.mem_append, ih r, List.nil_append, List.exists_mem_cons_iff]
      tauto
    | error e m₁ => simp

theorem Plan.fuel_of_mem_points {plan : Plan α} {b : Point} (h : b ∈ plan.points fuel m) :
    b.fuel = fuel := by
  induction plan generalizing m with
  | done a => cases h
  | step p next ih =>
    obtain ⟨r, m₁, -, h⟩ := of_mem_points_step h
    exact ih r h
  | start shell t next ih =>
    rcases of_mem_points_start h with rfl | ⟨r, m₁, -, h⟩
    · rfl
    · exact ih r h

/-- The actions of a task are its own and those of the tasks that it starts. -/
theorem Point.mem_actions {a : Point} :
    s ∈ a.actions ↔ s ∈ a.own ∨ ∃ b, Starts a b ∧ s ∈ b.actions := by
  obtain ⟨fuel, t, m⟩ := a
  cases fuel with
  | zero =>
    have hnone : ∀ b, ¬ Starts ⟨0, t, m⟩ b := fun b h => by
      cases mem_children_iff.mpr h
    simp [own, Point.actions, Task.actions, hnone]
  | succ fuel =>
    show s ∈ t.plan.actions (Task.actions fuel) fuel m ↔ _
    rw [Plan.mem_actions]
    refine or_congr_right ?_
    constructor
    · rintro ⟨b, hb, hs⟩
      refine ⟨b, mem_children_iff.mp hb, ?_⟩
      rw [Point.actions, Plan.fuel_of_mem_points hb]
      exact hs
    · rintro ⟨b, hb, hs⟩
      have hb : b ∈ t.plan.points fuel m := mem_children_iff.mpr hb
      rw [Point.actions, Plan.fuel_of_mem_points hb] at hs
      exact ⟨b, hb, hs⟩

end

/-- The actions of a task are the own ones of the tasks on its way. -/
theorem Point.mem_actions_iff {a : Point} {s : Action} :
    s ∈ a.actions ↔ ∃ underway b, Reaches a underway b ∧ s ∈ b.own := by
  constructor
  · obtain ⟨fuel, t, m⟩ := a
    intro h
    induction fuel generalizing t m with
    | zero => cases h
    | succ fuel ih =>
      rcases Point.mem_actions.mp h with h | ⟨b, hs, h⟩
      · exact ⟨[], _, .here, h⟩
      · have hfuel := hs.fuel_eq
        obtain ⟨fuel', t', m'⟩ := b
        obtain rfl : fuel = fuel' := by simpa using hfuel
        obtain ⟨underway, c, hr, hc⟩ := ih t' m' h
        exact ⟨_, c, .head hs hr, hc⟩
  · rintro ⟨underway, b, hr, h⟩
    have hb : s ∈ b.actions := Point.mem_actions.mpr (.inl h)
    clear h
    induction hr with
    | here => exact hb
    | next hr hs ih => exact ih (Point.mem_actions.mpr (.inr ⟨_, hs, hb⟩))

/-- Whether a step neither prints nor calls a native. -/
def Primitive.Inner : Primitive → Prop
  | .print _ | .native .. => False
  | _ => True

namespace Plan

variable {α : Type} {P : Primitive → Prop}

/-- Whether a property holds of every step that a plan may take itself. -/
def All (P : Primitive → Prop) : Plan α → Prop
  | done _ => True
  | step p next => P p ∧ ∀ r, (next r).All P
  | start _ _ next => ∀ r, (next r).All P

theorem All.last (t : Task) : (last t).All P :=
  fun _ => trivial

theorem All.of_mem {plan : Plan α} (h : plan.All P) {fuel : Nat} {m : Machine} {s : Action}
    (hs : s ∈ plan.actions (fun _ _ => []) fuel m) : P s.primitive := by
  induction plan generalizing m with
  | done a => cases hs
  | step p next ih =>
    rw [actions] at hs
    rcases List.mem_cons.mp hs with rfl | hs
    · exact h.1
    · cases hp : p.go m with
      | ok r m₁ =>
        rw [hp] at hs
        exact ih r (h.2 r) hs
      | error e m₁ =>
        rw [hp] at hs
        cases hs
  | start shell t next ih =>
    rw [actions, List.nil_append] at hs
    cases hx : shell.around (Eval.perform fuel t) m with
    | ok r m₁ =>
      rw [hx] at hs
      exact ih r (h r) hs
    | error e m₁ =>
      rw [hx] at hs
      cases hs

end Plan

section

open Plan

theorem Expr.plan_inner (e : Expr) : e.plan.All Primitive.Inner := by
  cases e with
  | literal v => trivial
  | group inner => exact .last (.evaluate inner)
  | unary op line operand => exact fun _ => ⟨trivial, fun _ => trivial⟩
  | binary op line left right => exact fun _ _ => ⟨trivial, fun _ => trivial⟩
  | logical op left right =>
    intro v
    dsimp only
    split
    · trivial
    · exact .last (.evaluate right)
  | ternary condition thenBranch elseBranch => exact fun _ => .last (.evaluate _)
  | comma left right => exact fun _ => .last (.evaluate right)
  | «variable» o => exact ⟨trivial, fun _ => trivial⟩
  | assign o value => exact fun _ => ⟨trivial, fun _ => trivial⟩
  | call callee line arguments => exact fun _ vs => ⟨trivial, fun c => .last (.call c vs line)⟩
  | get object name =>
    exact fun _ => ⟨trivial, fun property => .last (.readProperty property name.line)⟩
  | set object name value => exact fun _ => ⟨trivial, fun _ _ => ⟨trivial, fun _ => trivial⟩⟩
  | this id line => exact ⟨trivial, fun _ => trivial⟩
  | super id line method =>
    exact ⟨trivial, fun _ => ⟨trivial, fun property => .last (.readProperty property method.line)⟩⟩
  | lambda f => exact ⟨trivial, fun _ => trivial⟩

theorem planAll_inner (es : List Expr) : (planAll es).All Primitive.Inner := by
  cases es with
  | nil => trivial
  | cons e es => exact fun _ _ => trivial

theorem Eval.Property.plan_inner (property : Eval.Property) (line : Nat) :
    (property.plan line).All Primitive.Inner := by
  cases property with
  | value v => trivial
  | getter closure => exact ⟨trivial, fun c => .last (.call c [] line)⟩

theorem Closure.plan_inner (closure : Closure) (vs : List Value) :
    (closure.plan vs).All Primitive.Inner :=
  ⟨trivial, fun _ _ => ⟨trivial, fun _ => trivial⟩⟩

theorem ClassValue.plan_inner (c : ClassValue) (vs : List Value) :
    (c.plan vs).All Primitive.Inner := by
  refine ⟨trivial, fun i => ?_⟩
  cases c.initializer? with
  | none => trivial
  | some initializer => exact ⟨trivial, fun _ _ => trivial⟩

theorem loopPlan_inner (condition : Expr) (body : Stmt) (increment? : Option Expr) :
    (loopPlan condition body increment?).All Primitive.Inner := by
  have again : (againPlan condition body increment?).All Primitive.Inner := by
    cases increment? with
    | none => exact .last (.loop condition body none)
    | some increment => exact fun _ => .last (.loop condition body (some increment))
  intro v
  dsimp only
  split
  · intro flow
    cases flow with
    | normal => exact again
    | «continue» => exact again
    | _ => trivial
  · trivial

theorem stmtsPlan_inner (ss : List Stmt) : (stmtsPlan ss).All Primitive.Inner := by
  cases ss with
  | nil => trivial
  | cons s ss =>
    intro flow
    cases flow with
    | normal => exact .last (.executeAll ss)
    | _ => trivial

/-- Only a `print` statement prints. -/
theorem Stmt.plan_inner (s : Stmt) : (∃ e, s = .print e) ∨ s.plan.All Primitive.Inner := by
  cases s with
  | print e => exact .inl ⟨e, rfl⟩
  | expression e => exact .inr fun _ => trivial
  | var name initializer? =>
    cases initializer? with
    | none => exact .inr ⟨trivial, fun _ => trivial⟩
    | some initializer => exact .inr fun _ => ⟨trivial, fun _ => trivial⟩
  | block body => exact .inr ⟨trivial, fun _ _ => trivial⟩
  | «if» condition thenBranch elseBranch? =>
    refine .inr fun v => ?_
    dsimp only
    split
    · exact .last (.execute thenBranch)
    · cases elseBranch? with
      | none => trivial
      | some elseBranch => exact .last (.execute elseBranch)
  | «while» condition body increment? => exact .inr (.last (.loop condition body increment?))
  | function f => exact .inr ⟨trivial, fun _ => ⟨trivial, fun _ => trivial⟩⟩
  | «class» c => exact .inr ⟨trivial, fun _ => trivial⟩
  | «return» line value? =>
    cases value? with
    | none => exact .inr trivial
    | some value => exact .inr fun _ => trivial
  | «break» line => exact .inr trivial
  | «continue» line => exact .inr trivial

/-- Only a call of a native calls one. -/
theorem Callable.plan_inner (c : Callable) (vs : List Value) (line : Nat) :
    (∃ id n, c = .native id n) ∨ (c.plan vs line).All Primitive.Inner := by
  cases c with
  | native id n => exact .inl ⟨id, n, rfl⟩
  | function id closure => exact .inr ⟨trivial, fun _ _ => trivial⟩
  | «class» c => exact .inr ⟨trivial, fun _ _ => trivial⟩

end

/-- The tasks that print or call a native themselves. -/
theorem Task.plan_inner (t : Task) : (∃ e, t = .execute (.print e)) ∨
    (∃ id n vs line, t = .call (.native id n) vs line) ∨ t.plan.All Primitive.Inner := by
  cases t with
  | evaluate e => exact .inr (.inr e.plan_inner)
  | evaluateAll es => exact .inr (.inr (planAll_inner es))
  | readProperty property line => exact .inr (.inr (property.plan_inner line))
  | call c vs line =>
    rcases c.plan_inner vs line with ⟨id, n, rfl⟩ | h
    · exact .inr (.inl ⟨id, n, vs, line, rfl⟩)
    · exact .inr (.inr h)
  | run closure vs => exact .inr (.inr (closure.plan_inner vs))
  | construct c vs => exact .inr (.inr (c.plan_inner vs))
  | execute s =>
    rcases s.plan_inner with ⟨e, rfl⟩ | h
    · exact .inl ⟨e, rfl⟩
    · exact .inr (.inr h)
  | loop condition body increment? => exact .inr (.inr (loopPlan_inner condition body increment?))
  | executeAll ss => exact .inr (.inr (stmtsPlan_inner ss))

namespace Point

variable {fuel id line : Nat} {m m₁ : Machine} {b : Point}

/-- A `print` statement prints the value of its expression, if that has one. -/
theorem own_print (e : Expr) : own ⟨fuel + 1, .execute (.print e), m⟩ =
    match Eval.evaluate fuel e m with
    | .ok v m₁ => [⟨.print v.text, m₁⟩]
    | .error _ _ => [] := by
  cases hx : Eval.evaluate fuel e m with
  | error d m₁ => exact Plan.actions_start_error .here hx
  | ok v m₁ =>
    refine (Plan.actions_start_ok (t := .evaluate e) .here hx).trans ?_
    cases hp : (Primitive.print v.text).go m₁ with
    | ok u m₂ => exact Plan.actions_step_ok hp
    | error d m₂ => exact Plan.actions_step_error hp

/-- A call of a native runs it, unless the calls are too many. -/
theorem own_native (n : Native) (vs : List Value) :
    own ⟨fuel + 1, .call (.native id n) vs line, m⟩ = ⟨.check line, m⟩ ::
      if m.depth < m.maxDepth then [⟨.native n vs line, m⟩] else [] := by
  have hcheck : (Primitive.check line).go m = if m.maxDepth ≤ m.depth then
      .error (.failed (.stackOverflow line)) m else .ok () m := by
    show (if m.maxDepth ≤ m.depth then _ else _ : Eval Unit) m = _
    split <;> rfl
  by_cases h : m.maxDepth ≤ m.depth
  · rw [if_pos h] at hcheck
    rw [if_neg (Nat.not_lt.mpr h)]
    exact Plan.actions_step_error hcheck
  · rw [if_neg h] at hcheck
    rw [if_pos (Nat.lt_of_not_le h)]
    exact (Plan.actions_step_ok hcheck).trans (congrArg _ (Plan.actions_step_done _))

/-- What is printed on the way of a task is the value of the expression of a `print` statement. -/
theorem mem_own_print {text : String} : ⟨.print text, m₁⟩ ∈ b.own ↔ ∃ fuel e m v,
    b = ⟨fuel + 1, .execute (.print e), m⟩ ∧ Eval.evaluate fuel e m = .ok v m₁ ∧ v.text = text := by
  constructor
  · intro h
    obtain ⟨fuel, t, m⟩ := b
    cases fuel with
    | zero => cases h
    | succ fuel =>
      rcases t.plan_inner with ⟨e, rfl⟩ | ⟨id, n, vs, line, rfl⟩ | hinner
      · rw [own_print] at h
        split at h
        · rename_i v m₂ hx
          cases List.mem_singleton.mp h
          exact ⟨fuel, e, m, v, rfl, hx, rfl⟩
        · cases h
      · rw [own_native] at h
        split at h
        · simp at h
        · simp at h
      · exact (hinner.of_mem h).elim
  · rintro ⟨fuel, e, m, v, rfl, hx, rfl⟩
    rw [own_print, hx]
    exact List.mem_singleton.mpr rfl

/-- A native is run on the way of a task where it is called and the calls are not too many. -/
theorem mem_own_native {n : Native} {vs : List Value} : ⟨.native n vs line, m⟩ ∈ b.own ↔
    ∃ fuel id, b = ⟨fuel + 1, .call (.native id n) vs line, m⟩ ∧ m.depth < m.maxDepth := by
  constructor
  · intro h
    obtain ⟨fuel, t, m₀⟩ := b
    cases fuel with
    | zero => cases h
    | succ fuel =>
      rcases t.plan_inner with ⟨e, rfl⟩ | ⟨id, n', vs', line', rfl⟩ | hinner
      · rw [own_print] at h
        split at h
        · simp at h
        · cases h
      · rw [own_native] at h
        split at h
        · rename_i hdepth
          simp only [List.mem_cons, Action.mk.injEq, reduceCtorEq, false_and,
            Primitive.native.injEq, List.not_mem_nil, or_false, false_or] at h
          obtain ⟨⟨rfl, rfl, rfl⟩, rfl⟩ := h
          exact ⟨fuel, id, rfl, hdepth⟩
        · simp at h
      · exact (hinner.of_mem h).elim
  · rintro ⟨fuel, id, rfl, hdepth⟩
    rw [own_native, if_pos hdepth]
    exact List.mem_cons_of_mem _ (List.mem_singleton.mpr rfl)

end Point

end LoxLang
