import LoxLang.Proofs.Arrays.Stocking
import LoxLang.Proofs.Classes.Tracking
import LoxLang.Proofs.Running.Starting

/-!
Runs keep what their steps keep: started on a machine that holds only values that stand for its
arrays, with such values, a task comes only to machines of the same kind, in which the arrays have
the length that they had.
-/

namespace LoxLang

/-- Whether a step is taken with values that stand for one of so many arrays, if for any. -/
def Primitive.Below (size : Nat) : Primitive → Prop
  | write _ v | callable v _ _ | property v _ | store _ _ v | define _ v => v.Below size
  | native n vs _ => (∀ array ∈ n.array?, array < size) ∧ ∀ v ∈ vs, v.Below size
  | scope _ table => ∀ name v, table.find? name = some v → v.Below size
  | result _ flow => flow.Below size
  | _ => True

/-- Whether a step gives such values. -/
def Primitive.Gives (size : Nat) : (p : Primitive) → p.Result → Prop
  | unary .., r | binary .., r | read .., r | native .., r | result .., r => Value.Below size r
  | callable .., r | declare _, r | function _, r => Callable.Below size r
  | property .., r | superProperty .., r => Eval.Property.Below size r
  | _, _ => True

namespace Task

/-- Whether a task is started with such values. -/
def Below (size : Nat) : Task → Prop
  | .readProperty property _ => property.Below size
  | .call c vs _ => c.Below size ∧ ∀ v ∈ vs, v.Below size
  | .run _ vs | .construct _ vs => ∀ v ∈ vs, v.Below size
  | _ => True

/-- Whether a task gives such values. -/
def Gives (size : Nat) : (t : Task) → t.Result → Prop
  | .evaluate _, r | .readProperty _ _, r | .call _ _ _, r | .run _ _, r
  | .construct _ _, r => Value.Below size r
  | .evaluateAll _, r => ∀ v ∈ r, Value.Below size v
  | .execute _, r | .loop _ _ _, r | .executeAll _, r => Flow.Below size r

end Task

/-- A step keeps the arrays. -/
theorem Primitive.stocks (p : Primitive) {m : Machine} (hm : m.Stocked)
    (hp : p.Below m.arrays.size) : Eval.Stocks p.Gives p.go m := by
  cases p with
  | unary op line v => exact .ofExcept hm fun _ => UnaryOp.below_of_apply
  | binary op line u v => exact .ofExcept hm fun _ => BinaryOp.below_of_apply
  | read id name => exact Eval.readVariable_stocks hm id name
  | write o v => exact Eval.writeVariable_stocks hm o hp
  | callable v count line => exact Eval.callableOf_stocks hm hp count line
  | property v name => exact Eval.propertyOfValue_stocks hm hp name
  | holder v name => exact Eval.instanceOf_stocks hm v name
  | store i name v => exact Eval.setField_stocks hm i name hp
  | super id line => exact Eval.superOf_stocks hm id line
  | superProperty c i name => exact Eval.superPropertyOf_stocks hm c i name
  | declare f => exact Eval.declareFunction_stocks hm f
  | function closure => exact Eval.newFunction_stocks hm closure
  | check line => exact Eval.checkDepth_stocks hm line
  | native n vs line =>
    have hinside := hm.inside m.environment (m.depth + 1)
    exact .around .nested (Eval.runNative_stocks hinside hp.1 hp.2 line)
  | scope environment table => exact Eval.openScope_stocks hm environment hp
  | block => exact .look (Eval.openScope_stocks hm _ fun _ _ hv => by cases hv)
  | result closure flow => exact Eval.resultOf_stocks hm closure hp
  | make c => exact Eval.newInstance_stocks hm c
  | bind method i => exact Eval.bindThis_stocks hm method i
  | print text => exact Eval.print_stocks hm text
  | define name v => exact Eval.define_stocks hm name hp
  | «class» c => exact Eval.declareClass_stocks hm c

namespace Plan

variable {α : Type} {Q : Nat → α → Prop} {size : Nat}

/-- Whether a plan has such values throughout, and gives what is asked for, if its steps and its
tasks give such values. -/
def Below (Q : Nat → α → Prop) (size : Nat) : Plan α → Prop
  | done a => Q size a
  | step p next => p.Below size ∧ ∀ size' r, size ≤ size' → p.Gives size' r → (next r).Below Q size'
  | start _ t next => t.Below size ∧ ∀ size' r, size ≤ size' → t.Gives size' r →
    (next r).Below Q size'

theorem below_last {t : Task} (ht : t.Below size) : (last t).Below t.Gives size :=
  ⟨ht, fun _ _ _ hr => hr⟩

end Plan

section

open Plan

variable {size : Nat}

theorem Expr.plan_below (e : Expr) : e.plan.Below Value.Below size := by
  cases e with
  | literal l => exact Value.below_ofLiteral l
  | group inner => exact below_last (t := .evaluate inner) trivial
  | unary op line operand => exact ⟨trivial, fun _ _ _ _ => ⟨trivial, fun _ _ _ hr => hr⟩⟩
  | binary op line left right =>
    exact ⟨trivial, fun _ _ _ _ => ⟨trivial, fun _ _ _ _ => ⟨trivial, fun _ _ _ hr => hr⟩⟩⟩
  | logical op left right =>
    refine ⟨trivial, fun _ v _ hv => ?_⟩
    dsimp only
    split
    · exact hv
    · exact below_last (t := .evaluate right) trivial
  | ternary condition thenBranch elseBranch =>
    exact ⟨trivial, fun _ _ _ _ => below_last (t := .evaluate _) trivial⟩
  | comma left right =>
    exact ⟨trivial, fun _ _ _ _ => below_last (t := .evaluate right) trivial⟩
  | «variable» o => exact ⟨trivial, fun _ _ _ hr => hr⟩
  | assign o value => exact ⟨trivial, fun _ _ _ hv => ⟨hv, fun _ _ h _ => hv.mono h⟩⟩
  | call callee line arguments =>
    refine ⟨trivial, fun _ v _ hv => ⟨trivial, fun _ vs h hvs => ?_⟩⟩
    refine ⟨hv.mono h, fun _ c h' hc => ?_⟩
    exact below_last (t := .call c vs line) ⟨hc, Value.below_mono_list h' hvs⟩
  | get object name =>
    refine ⟨trivial, fun _ v _ hv => ⟨hv, fun _ property _ hp => ?_⟩⟩
    exact below_last (t := .readProperty property name.line) hp
  | set object name value =>
    refine ⟨trivial, fun _ _ _ _ => ⟨trivial, fun _ _ _ _ => ⟨trivial, fun _ u _ hu => ?_⟩⟩⟩
    exact ⟨hu, fun _ _ h _ => hu.mono h⟩
  | this id line => exact ⟨trivial, fun _ _ _ hr => hr⟩
  | super id line method =>
    refine ⟨trivial, fun _ _ _ _ => ⟨trivial, fun _ property _ hp => ?_⟩⟩
    exact below_last (t := .readProperty property method.line) hp
  | lambda f => exact ⟨trivial, fun _ _ _ hc => hc⟩

theorem planAll_below (es : List Expr) :
    (planAll es).Below (fun size vs => ∀ v ∈ vs, Value.Below size v) size := by
  cases es with
  | nil => exact fun _ hv => by cases hv
  | cons e es =>
    refine ⟨trivial, fun _ v _ hv => ⟨trivial, fun _ vs h hvs => ?_⟩⟩
    exact List.forall_mem_cons.mpr ⟨hv.mono h, hvs⟩

theorem Eval.Property.plan_below {property : Eval.Property} (h : property.Below size)
    (line : Nat) : (property.plan line).Below Value.Below size := by
  cases property with
  | value v => exact h
  | getter closure =>
    refine ⟨trivial, fun _ c _ hc => ?_⟩
    exact below_last (t := .call c [] line) ⟨hc, fun _ hv => by cases hv⟩

theorem Callable.plan_below {c : Callable} (hc : c.Below size) {vs : List Value}
    (hvs : ∀ v ∈ vs, v.Below size) (line : Nat) : (c.plan vs line).Below Value.Below size := by
  refine ⟨trivial, fun _ _ h _ => ?_⟩
  have hvs := Value.below_mono_list h hvs
  cases c with
  | function id closure => exact ⟨hvs, fun _ _ _ hr => hr⟩
  | «class» c => exact ⟨hvs, fun _ _ _ hr => hr⟩
  | native id n =>
    exact ⟨⟨fun array ha => Nat.lt_of_lt_of_le (hc array ha) h, hvs⟩, fun _ _ _ hr => hr⟩

theorem Closure.plan_below (closure : Closure) {vs : List Value} (hvs : ∀ v ∈ vs, v.Below size) :
    (closure.plan vs).Below Value.Below size := by
  refine ⟨fun name v hv => hvs v (mem_of_find?_parameterTable hv), fun _ _ _ _ => ?_⟩
  exact ⟨trivial, fun _ _ _ hf => ⟨hf, fun _ _ _ hr => hr⟩⟩

theorem ClassValue.plan_below (c : ClassValue) {vs : List Value} (hvs : ∀ v ∈ vs, v.Below size) :
    (c.plan vs).Below Value.Below size := by
  refine ⟨trivial, fun _ i h _ => ?_⟩
  cases c.initializer? with
  | none => exact Value.below_of_none rfl
  | some initializer =>
    refine ⟨trivial, fun _ _ h' _ => ⟨Value.below_mono_list (h.trans h') hvs, fun _ _ _ _ => ?_⟩⟩
    exact Value.below_of_none rfl

theorem Stmt.plan_below (s : Stmt) : s.plan.Below Flow.Below size := by
  cases s with
  | expression e => exact ⟨trivial, fun _ _ _ _ => trivial⟩
  | print e => exact ⟨trivial, fun _ _ _ _ => ⟨trivial, fun _ _ _ _ => trivial⟩⟩
  | var name initializer? =>
    cases initializer? with
    | none => exact ⟨Value.below_of_none rfl, fun _ _ _ _ => trivial⟩
    | some initializer => exact ⟨trivial, fun _ _ _ hv => ⟨hv, fun _ _ _ _ => trivial⟩⟩
  | block body => exact ⟨trivial, fun _ _ _ _ => ⟨trivial, fun _ _ _ hf => hf⟩⟩
  | «if» condition thenBranch elseBranch? =>
    refine ⟨trivial, fun _ v _ _ => ?_⟩
    dsimp only
    split
    · exact below_last (t := .execute thenBranch) trivial
    · cases elseBranch? with
      | none => trivial
      | some elseBranch => exact below_last (t := .execute elseBranch) trivial
  | «while» condition body increment? =>
    exact below_last (t := .loop condition body increment?) trivial
  | function f => exact ⟨trivial, fun _ _ _ hc => ⟨hc, fun _ _ _ _ => trivial⟩⟩
  | «class» c => exact ⟨trivial, fun _ _ _ _ => trivial⟩
  | «return» line value? =>
    cases value? with
    | none => exact Value.below_of_none rfl
    | some value => exact ⟨trivial, fun _ _ _ hv => hv⟩
  | «break» line => trivial
  | «continue» line => trivial

theorem loopPlan_below (condition : Expr) (body : Stmt) (increment? : Option Expr) :
    (loopPlan condition body increment?).Below Flow.Below size := by
  have again (size : Nat) : (againPlan condition body increment?).Below Flow.Below size := by
    cases increment? with
    | none => exact below_last (t := .loop condition body none) trivial
    | some increment =>
      refine ⟨trivial, fun _ _ _ _ => ?_⟩
      exact below_last (t := .loop condition body (some increment)) trivial
  refine ⟨trivial, fun _ v _ _ => ?_⟩
  dsimp only
  split
  · refine ⟨trivial, fun size' flow _ hf => ?_⟩
    cases flow with
    | normal => exact again size'
    | «continue» => exact again size'
    | «break» => trivial
    | «return» v => exact hf
  · trivial

theorem stmtsPlan_below (ss : List Stmt) : (stmtsPlan ss).Below Flow.Below size := by
  cases ss with
  | nil => trivial
  | cons s ss =>
    refine ⟨trivial, fun _ flow _ hf => ?_⟩
    cases flow with
    | normal => exact below_last (t := .executeAll ss) trivial
    | _ => exact hf

/-- What is gone through for a task has values that stand for arrays, if the task has. -/
theorem Task.plan_below {t : Task} (h : t.Below size) : t.plan.Below t.Gives size := by
  cases t with
  | evaluate e => exact e.plan_below
  | evaluateAll es => exact planAll_below es
  | readProperty property line => exact Eval.Property.plan_below h line
  | call c vs line => exact Callable.plan_below h.1 h.2 line
  | run closure vs => exact closure.plan_below h
  | construct c vs => exact c.plan_below h
  | execute s => exact s.plan_below
  | loop condition body increment? => exact loopPlan_below condition body increment?
  | executeAll ss => exact stmtsPlan_below ss

end

theorem Shell.arrays_enter (shell : Shell) (m : Machine) : (shell.enter m).arrays = m.arrays := by
  cases shell <;> rfl

theorem Machine.Stocked.enter {m : Machine} (h : m.Stocked) (shell : Shell) :
    (shell.enter m).Stocked := by
  cases shell with
  | here => exact h
  | within environment => exact h.inside environment m.depth
  | nested => exact h.inside m.environment (m.depth + 1)

section

variable {α : Type} {fuel : Nat} {Q : Nat → α → Prop}

/-- A task that is started on a stocked machine with values that stand for its arrays. -/
theorem Eval.Stocks.start {m : Machine} (hm : m.Stocked) (shell : Shell) {t : Task}
    (ht : t.Below m.arrays.size) (hperform : ∀ {m : Machine} {t : Task}, m.Stocked →
      t.Below m.arrays.size → Stocks t.Gives (perform fuel t) m) :
    Stocks t.Gives (shell.around (perform fuel t)) m :=
  .around shell (hperform (hm.enter shell) (shell.arrays_enter m ▸ ht))

theorem Plan.stocks (hperform : ∀ {m : Machine} {t : Task}, m.Stocked → t.Below m.arrays.size →
    Eval.Stocks t.Gives (Eval.perform fuel t) m) {plan : Plan α} {m : Machine} (hm : m.Stocked)
    (hplan : plan.Below Q m.arrays.size) : Eval.Stocks Q (plan.go fuel) m := by
  induction plan generalizing m with
  | done a => exact .pure hm hplan
  | step p next ih =>
    exact (p.stocks hm hplan.1).bind fun r m₁ hl hm₁ hr =>
      ih r hm₁ (hplan.2 _ r hl.size_le hr)
  | start shell t next ih =>
    exact (Eval.Stocks.start hm shell hplan.1 hperform).bind fun r m₁ hl hm₁ hr =>
      ih r hm₁ (hplan.2 _ r hl.size_le hr)

end

/-- A run keeps the arrays and their lengths. -/
theorem Eval.perform_stocks (fuel : Nat) {t : Task} {m : Machine} (hm : m.Stocked)
    (ht : t.Below m.arrays.size) : Stocks t.Gives (perform fuel t) m := by
  induction fuel generalizing t m with
  | zero =>
    rw [perform_zero]
    exact .of_error rfl (.refl _) hm
  | succ fuel ih =>
    rw [perform_succ]
    exact Plan.stocks ih hm (Task.plan_below ht)

/-- Whether a task is started on a stocked machine with values that stand for its arrays. -/
structure Point.Stocked (a : Point) : Prop where
  machine : a.machine.Stocked
  task : a.task.Below a.machine.arrays.size

section

variable {α : Type} {fuel : Nat} {Q : Nat → α → Prop}

theorem Plan.points_stocked {plan : Plan α} {m : Machine} (hm : m.Stocked)
    (hplan : plan.Below Q m.arrays.size) {b : Point} (hb : b ∈ plan.points fuel m) :
    b.Stocked ∧ m.Lengthens b.machine := by
  induction plan generalizing m with
  | done a => cases hb
  | step p next ih =>
    obtain ⟨r, m₁, hp, hb⟩ := of_mem_points_step hb
    obtain ⟨hl, hm₁, hr⟩ := p.stocks hm hplan.1
    rw [hp] at hl hm₁
    obtain ⟨hstocked, hlater⟩ := ih r hm₁ (hplan.2 _ r hl.size_le (hr r m₁ hp)) hb
    exact ⟨hstocked, hl.trans hlater⟩
  | start shell t next ih =>
    rcases of_mem_points_start hb with rfl | ⟨r, m₁, ht, hb⟩
    · exact ⟨⟨hm.enter shell, shell.arrays_enter m ▸ hplan.1⟩, .of_eq (shell.arrays_enter m)⟩
    · obtain ⟨hl, hm₁, hr⟩ := Eval.Stocks.start hm shell hplan.1 (Eval.perform_stocks fuel)
      rw [ht] at hl hm₁
      obtain ⟨hstocked, hlater⟩ := ih r hm₁ (hplan.2 _ r hl.size_le (hr r m₁ ht)) hb
      exact ⟨hstocked, hl.trans hlater⟩

end

namespace Point.Stocked

variable {a b : Point}

/-- What one task starts is stocked as the task is. -/
theorem starts (h : a.Stocked) (hs : Starts a b) : b.Stocked ∧ a.machine.Lengthens b.machine := by
  have hb := mem_children_iff.mpr hs
  obtain ⟨fuel, t, m⟩ := a
  cases fuel with
  | zero => cases hb
  | succ fuel => exact Plan.points_stocked h.machine (Task.plan_below h.task) hb

theorem reaches (h : a.Stocked) {underway : List (Nat × String)} (hr : Reaches a underway b) :
    b.Stocked ∧ a.machine.Lengthens b.machine := by
  induction hr with
  | here => exact ⟨h, .refl _⟩
  | next _ hs ih =>
    obtain ⟨hstocked, hl⟩ := ih
    obtain ⟨hnext, hl'⟩ := hstocked.starts hs
    exact ⟨hnext, hl.trans hl'⟩

end Point.Stocked

end LoxLang
