import LoxLang.Proofs.Fuel
import LoxLang.Proofs.Running.Points

/-!
The plans of tasks. What a task does with one unit of fuel is a plan: steps of the machine and
further tasks, one behind the other, each chosen by what the ones before it have given. A property
of runs that holds of the steps and goes along plans holds of every task, by induction on the fuel.
-/

namespace LoxLang

namespace Task

/-- What a task gives. -/
@[reducible] def Result : Task → Type
  | .evaluate _ | .readProperty _ _ | .call _ _ _ | .run _ _ | .construct _ _ => Value
  | .evaluateAll _ => List Value
  | .execute _ | .loop _ _ _ | .executeAll _ => Flow

end Task

/-- Goes on a task. -/
def Eval.perform (fuel : Nat) : (t : Task) → Eval t.Result
  | .evaluate e => evaluate fuel e
  | .evaluateAll es => evaluateAll fuel es
  | .readProperty property line => readProperty fuel property line
  | .call c vs line => call fuel c vs line
  | .run closure vs => run fuel closure vs
  | .construct c vs => construct fuel c vs
  | .execute s => execute fuel s
  | .loop condition body increment? => loop fuel condition body increment?
  | .executeAll ss => executeAll fuel ss

/-- The steps of a machine in which no task is started. -/
inductive Primitive where
  | unary (op : UnaryOp) (line : Nat) (v : Value)
  | binary (op : BinaryOp) (line : Nat) (u v : Value)
  | read (id : Nat) (name : Name)
  | write (o : Occurrence) (v : Value)
  | callable (v : Value) (count line : Nat)
  | property (v : Value) (name : Name)
  | holder (v : Value) (name : Name)
  | store (i : Instance) (name : String) (v : Value)
  | super (id line : Nat)
  | superProperty (c : ClassValue) (i : Instance) (name : Name)
  | declare (f : Function)
  | function (closure : Closure)
  | check (line : Nat)
  | native (n : Native) (vs : List Value) (line : Nat)
  | scope (environment : Environment) (table : Table Value)
  | block
  | result (closure : Closure) (flow : Flow)
  | make (c : ClassValue)
  | bind (method : Closure) (i : Instance)
  | print (text : String)
  | define (name : String) (v : Value)
  | class (c : Class)

namespace Primitive

/-- What a step gives. -/
@[reducible] def Result : Primitive → Type
  | unary .. | binary .. | read .. | native .. | result .. => Value
  | write .. | store .. | check .. | print .. | define .. | «class» .. => Unit
  | callable .. | declare .. | function .. => Callable
  | property .. | superProperty .. => Eval.Property
  | holder .. | make .. => Instance
  | super .. => ClassValue × Instance
  | scope .. | block => Environment
  | bind .. => Closure

def go : (p : Primitive) → Eval p.Result
  | unary op line v => Eval.ofExcept (op.apply line v)
  | binary op line u v => Eval.ofExcept (op.apply line u v)
  | read id name => Eval.readVariable id name
  | write o v => Eval.writeVariable o v
  | callable v count line => Eval.callableOf v count line
  | property v name => Eval.propertyOfValue v name
  | holder v name => Eval.instanceOf v name
  | store i name v => Eval.setField i name v
  | super id line => Eval.superOf id line
  | superProperty c i name => Eval.superPropertyOf c i name
  | declare f => Eval.declareFunction f
  | function closure => Eval.newFunction closure
  | check line => Eval.checkDepth line
  | native n vs line => Eval.nested (Eval.runNative n vs line)
  | scope environment table => Eval.openScope environment table
  | block => do Eval.openScope (← get).environment .empty
  | result closure flow => Eval.resultOf closure flow
  | make c => Eval.newInstance c
  | bind method i => Eval.bindThis method i
  | print text => Eval.print text
  | define name v => Eval.define name v
  | «class» c => Eval.declareClass c

end Primitive

/-- Where a task runs: where the one does that starts it, in another environment, or as a call. -/
inductive Shell where
  | here
  | within (environment : Environment)
  | nested

namespace Shell

def around {α : Type} : Shell → Eval α → Eval α
  | .here, x => x
  | .within environment, x => Eval.within environment x
  | .nested, x => Eval.nested x

def enter : Shell → Machine → Machine
  | .here, m => m
  | .within environment, m => { m with environment := environment }
  | .nested, m => { m with depth := m.depth + 1 }

/-- The machine behind a task, where the one before it is known. -/
def leave : Shell → Machine → Machine → Machine
  | .here, _, m => m
  | .within _, outer, m => { m with environment := outer.environment }
  | .nested, _, m => { m with depth := m.depth - 1 }

variable {α : Type} {x : Eval α} {m m₁ : Machine}

theorem around_ok (shell : Shell) {a : α} (h : x (shell.enter m) = .ok a m₁) :
    shell.around x m = .ok a (shell.leave m m₁) := by
  cases shell with
  | here => exact h
  | within environment =>
    replace h : x { m with environment := environment } = .ok a m₁ := h
    show Eval.within environment x m = _
    rw [Eval.within, h]
    rfl
  | nested =>
    replace h : x { m with depth := m.depth + 1 } = .ok a m₁ := h
    show Eval.nested x m = _
    rw [Eval.nested, h]
    rfl

theorem around_error (shell : Shell) {e : Stop} (h : x (shell.enter m) = .error e m₁) :
    shell.around x m = .error e (shell.leave m m₁) := by
  cases shell with
  | here => exact h
  | within environment =>
    replace h : x { m with environment := environment } = .error e m₁ := h
    show Eval.within environment x m = _
    rw [Eval.within, h]
    rfl
  | nested =>
    replace h : x { m with depth := m.depth + 1 } = .error e m₁ := h
    show Eval.nested x m = _
    rw [Eval.nested, h]
    rfl

end Shell

/-- What is gone through for a task. -/
inductive Plan (α : Type) where
  | done (a : α)
  | step (p : Primitive) (next : p.Result → Plan α)
  | start (shell : Shell) (t : Task) (next : t.Result → Plan α)

namespace Plan

variable {α : Type}

def go (fuel : Nat) : Plan α → Eval α
  | done a => pure a
  | step p next => do (next (← p.go)).go fuel
  | start shell t next => do (next (← shell.around (Eval.perform fuel t))).go fuel

/-- A task whose result is that of the plan. -/
def last (t : Task) : Plan t.Result :=
  start .here t done

end Plan

section

open Plan

def Expr.plan : Expr → Plan Value
  | .literal value => done (.ofLiteral value)
  | .group inner => last (.evaluate inner)
  | .unary op line operand =>
    start .here (.evaluate operand) fun v => step (.unary op line v) done
  | .binary op line left right =>
    start .here (.evaluate left) fun u => start .here (.evaluate right) fun v =>
      step (.binary op line u v) done
  | .logical op left right =>
    start .here (.evaluate left) fun v =>
      if op.decidedBy v then done v else last (.evaluate right)
  | .ternary condition thenBranch elseBranch =>
    start .here (.evaluate condition) fun v =>
      last (.evaluate (if v.isTruthy then thenBranch else elseBranch))
  | .comma left right => start .here (.evaluate left) fun _ => last (.evaluate right)
  | .variable o => step (.read o.id o.name) done
  | .assign o value =>
    start .here (.evaluate value) fun v => step (.write o v) fun _ => done v
  | .call callee line arguments =>
    start .here (.evaluate callee) fun v => start .here (.evaluateAll arguments) fun vs =>
      step (.callable v vs.length line) fun c => last (.call c vs line)
  | .get object name =>
    start .here (.evaluate object) fun v =>
      step (.property v name) fun property => last (.readProperty property name.line)
  | .set object name value =>
    start .here (.evaluate object) fun v => step (.holder v name) fun i =>
      start .here (.evaluate value) fun u => step (.store i name.text u) fun _ => done u
  | .this id line => step (.read id ⟨"this", line⟩) done
  | .super id line method =>
    step (.super id line) fun receiver =>
      step (.superProperty receiver.1 receiver.2 method) fun property =>
        last (.readProperty property method.line)
  | .lambda f => step (.declare f) fun c => done (.callable c)

def planAll : List Expr → Plan (List Value)
  | [] => done []
  | e :: es =>
    start .here (.evaluate e) fun v => start .here (.evaluateAll es) fun vs => done (v :: vs)

def Eval.Property.plan (line : Nat) : Eval.Property → Plan Value
  | .value v => done v
  | .getter closure => step (.function closure) fun c => last (.call c [] line)

def Callable.plan (c : Callable) (vs : List Value) (line : Nat) : Plan Value :=
  step (.check line) fun _ =>
    match c with
    | .function _ closure => start .nested (.run closure vs) done
    | .class c => start .nested (.construct c vs) done
    | .native _ n => step (.native n vs line) done

def Closure.plan (closure : Closure) (vs : List Value) : Plan Value :=
  step (.scope closure.environment (parameterTable closure.function.parameters vs))
    fun environment => start (.within environment) (.executeAll closure.function.body)
      fun flow => step (.result closure flow) done

def ClassValue.plan (c : ClassValue) (vs : List Value) : Plan Value :=
  step (.make c) fun i =>
    match c.initializer? with
    | none => done (.instance i)
    | some initializer => step (.bind initializer i) fun closure =>
      start .here (.run closure vs) fun _ => done (.instance i)

def Stmt.plan : Stmt → Plan Flow
  | .expression e => start .here (.evaluate e) fun _ => done .normal
  | .print e =>
    start .here (.evaluate e) fun (v : Value) => step (.print v.text) fun _ => done .normal
  | .var name none => step (.define name.text .nil) fun _ => done .normal
  | .var name (some initializer) =>
    start .here (.evaluate initializer) fun v => step (.define name.text v) fun _ => done .normal
  | .block body =>
    step .block fun environment => start (.within environment) (.executeAll body) done
  | .if condition thenBranch elseBranch? =>
    start .here (.evaluate condition) fun (v : Value) =>
      if v.isTruthy then last (.execute thenBranch)
      else match elseBranch? with
        | none => done .normal
        | some elseBranch => last (.execute elseBranch)
  | .while condition body increment? => last (.loop condition body increment?)
  | .function f =>
    step (.declare f) fun c => step (.define f.displayName (.callable c)) fun _ => done .normal
  | .class c => step (.class c) fun _ => done .normal
  | .return _ none => done (.return .nil)
  | .return _ (some value) => start .here (.evaluate value) fun v => done (.return v)
  | .break _ => done .break
  | .continue _ => done .continue

/-- What is gone through behind one turn of a loop. -/
def againPlan (condition : Expr) (body : Stmt) : Option Expr → Plan Flow
  | none => last (.loop condition body none)
  | some increment =>
    start .here (.evaluate increment) fun _ => last (.loop condition body (some increment))

def loopPlan (condition : Expr) (body : Stmt) (increment? : Option Expr) : Plan Flow :=
  start .here (.evaluate condition) fun (v : Value) =>
    if v.isTruthy then
      start .here (.execute body) fun (flow : Flow) =>
        match flow with
        | .break => done .normal
        | .return v => done (.return v)
        | _ => againPlan condition body increment?
    else done .normal

def stmtsPlan : List Stmt → Plan Flow
  | [] => done .normal
  | s :: ss => start .here (.execute s) fun (flow : Flow) =>
    match flow with
    | .normal => last (.executeAll ss)
    | flow => done flow

/-- What a task does with one unit of fuel. -/
def Task.plan : (t : Task) → Plan t.Result
  | .evaluate e => e.plan
  | .evaluateAll es => planAll es
  | .readProperty property line => property.plan line
  | .call c vs line => c.plan vs line
  | .run closure vs => closure.plan vs
  | .construct c vs => c.plan vs
  | .execute s => s.plan
  | .loop condition body increment? => loopPlan condition body increment?
  | .executeAll ss => stmtsPlan ss

end

theorem Eval.perform_zero (t : Task) : perform 0 t = Fueled.exhausted := by
  cases t with
  | evaluateAll es => cases es <;> rfl
  | executeAll ss => cases ss <;> rfl
  | _ => rfl

namespace Plan

variable (fuel : Nat)

theorem go_last (t : Task) : (last t).go fuel = Eval.perform fuel t :=
  bind_pure _

theorem go_step_done (p : Primitive) : (step p done).go fuel = p.go :=
  bind_pure _

theorem go_start_done (shell : Shell) (t : Task) :
    (start shell t done).go fuel = shell.around (Eval.perform fuel t) :=
  bind_pure _

end Plan

section

open Plan

variable (fuel : Nat)

theorem Expr.go_plan (e : Expr) : e.plan.go fuel = Eval.evaluate (fuel + 1) e := by
  cases e with
  | group inner => exact go_last fuel (.evaluate inner)
  | unary op line operand =>
    exact bind_congr fun v => go_step_done fuel (.unary op line v)
  | binary op line left right =>
    exact bind_congr fun u => bind_congr fun v => go_step_done fuel (.binary op line u v)
  | logical op left right =>
    refine bind_congr fun (v : Value) => ?_
    dsimp only
    split
    · rfl
    · exact go_last fuel (.evaluate right)
  | ternary condition thenBranch elseBranch =>
    refine bind_congr fun v => (go_last fuel _).trans ?_
    exact apply_ite (Eval.evaluate fuel) _ _ _
  | comma left right => exact bind_congr fun _ => go_last fuel (.evaluate right)
  | «variable» o => exact go_step_done fuel (.read o.id o.name)
  | call callee line arguments =>
    exact bind_congr fun v => bind_congr fun vs => bind_congr fun c =>
      go_last fuel (.call c vs line)
  | get object name =>
    exact bind_congr fun v => bind_congr fun property =>
      go_last fuel (.readProperty property name.line)
  | this id line => exact go_step_done fuel (.read id ⟨"this", line⟩)
  | super id line method =>
    exact bind_congr fun receiver => bind_congr fun property =>
      go_last fuel (.readProperty property method.line)
  | _ => rfl

theorem planAll_go (es : List Expr) : (planAll es).go fuel = Eval.evaluateAll (fuel + 1) es := by
  cases es <;> rfl

theorem Eval.Property.go_plan (property : Eval.Property) (line : Nat) :
    (property.plan line).go fuel = Eval.readProperty (fuel + 1) property line := by
  cases property with
  | value v => rfl
  | getter closure => exact bind_congr fun c => go_last fuel (.call c [] line)

theorem Callable.go_plan (c : Callable) (vs : List Value) (line : Nat) :
    (c.plan vs line).go fuel = Eval.call (fuel + 1) c vs line := by
  refine bind_congr fun _ => ?_
  cases c with
  | function id closure => exact go_start_done fuel .nested (.run closure vs)
  | «class» c => exact go_start_done fuel .nested (.construct c vs)
  | native id n => exact go_step_done fuel (.native n vs line)

theorem Closure.go_plan (closure : Closure) (vs : List Value) :
    (closure.plan vs).go fuel = Eval.run (fuel + 1) closure vs :=
  bind_congr fun _ => bind_congr fun flow => go_step_done fuel (.result closure flow)

theorem ClassValue.go_plan (c : ClassValue) (vs : List Value) :
    (c.plan vs).go fuel = Eval.construct (fuel + 1) c vs := by
  refine bind_congr fun i => ?_
  cases c.initializer? <;> rfl

theorem Stmt.go_plan (s : Stmt) : s.plan.go fuel = Eval.execute (fuel + 1) s := by
  cases s with
  | var name initializer? => cases initializer? <;> rfl
  | block body =>
    refine (bind_congr fun environment =>
      go_start_done fuel (.within environment) (.executeAll body)).trans ?_
    exact bind_assoc _ _ _
  | «if» condition thenBranch elseBranch? =>
    refine bind_congr fun (v : Value) => ?_
    dsimp only
    by_cases hv : v.isTruthy
    · rw [if_pos hv, if_pos hv]
      exact go_last fuel (.execute thenBranch)
    · rw [if_neg hv, if_neg hv]
      cases elseBranch? with
      | none => rfl
      | some elseBranch => exact go_last fuel (.execute elseBranch)
  | «while» condition body increment? => exact go_last fuel (.loop condition body increment?)
  | «return» line value? => cases value? <;> rfl
  | _ => rfl

theorem loopPlan_go (condition : Expr) (body : Stmt) (increment? : Option Expr) :
    (loopPlan condition body increment?).go fuel =
      Eval.loop (fuel + 1) condition body increment? := by
  refine bind_congr fun (v : Value) => ?_
  dsimp only
  split
  · refine bind_congr fun (flow : Flow) => ?_
    cases increment? with
    | none =>
      have again := go_last fuel (.loop condition body none)
      cases flow with
      | normal => exact again
      | «continue» => exact again
      | _ => rfl
    | some increment =>
      have again (u : Value) := go_last fuel (.loop condition body (some increment))
      cases flow with
      | normal => exact bind_congr again
      | «continue» => exact bind_congr again
      | _ => rfl
  · rfl

theorem stmtsPlan_go (ss : List Stmt) : (stmtsPlan ss).go fuel = Eval.executeAll (fuel + 1) ss := by
  cases ss with
  | nil => rfl
  | cons s ss =>
    refine bind_congr fun flow => ?_
    cases flow with
    | normal => exact go_last fuel (.executeAll ss)
    | _ => rfl

end

/-- A task with fuel goes through its plan. -/
theorem Eval.perform_succ (fuel : Nat) (t : Task) : perform (fuel + 1) t = t.plan.go fuel := by
  cases t with
  | evaluate e => exact (e.go_plan fuel).symm
  | evaluateAll es => exact (planAll_go fuel es).symm
  | readProperty property line => exact (property.go_plan fuel line).symm
  | call c vs line => exact (c.go_plan fuel vs line).symm
  | run closure vs => exact (closure.go_plan fuel vs).symm
  | construct c vs => exact (c.go_plan fuel vs).symm
  | execute s => exact (s.go_plan fuel).symm
  | loop condition body increment? => exact (loopPlan_go fuel condition body increment?).symm
  | executeAll ss => exact (stmtsPlan_go fuel ss).symm

end LoxLang
