import LoxLang.Proofs.Running.Steadiness

/-!
Relations between runs of one task on different fuel. If a relation is kept by the steps that a run
is made of, and relates a run that is out of fuel to every other, then it relates the runs of every
task.
-/

namespace LoxLang

namespace Eval

/-- A relation of computations that the steps of runs keep. -/
structure Congruence (R : {α : Type} → Eval α → Eval α → Prop) : Prop where
  plain : ∀ {α : Type} {x : Eval α}, Plain x → R x x
  bind : ∀ {α β : Type} {x y : Eval α} {f g : α → Eval β}, R x y → (∀ a, R (f a) (g a)) →
    R (x >>= f) (y >>= g)
  within : ∀ {α : Type} {x y : Eval α} (environment : Environment), R x y →
    R (Eval.within environment x) (Eval.within environment y)
  nested : ∀ {α : Type} {x y : Eval α}, R x y → R (Eval.nested x) (Eval.nested y)
  checkDepth : ∀ line, R (checkDepth line) (checkDepth line)

/-- A relation holds between the runs of every task on these fuels. -/
structure Relates (R : {α : Type} → Eval α → Eval α → Prop) (fuel fuel' : Nat) : Prop where
  evaluate : ∀ e, R (evaluate fuel e) (evaluate fuel' e)
  evaluateAll : ∀ es, R (evaluateAll fuel es) (evaluateAll fuel' es)
  readProperty : ∀ property line,
    R (readProperty fuel property line) (readProperty fuel' property line)
  call : ∀ c vs line, R (call fuel c vs line) (call fuel' c vs line)
  run : ∀ c vs, R (run fuel c vs) (run fuel' c vs)
  construct : ∀ c vs, R (construct fuel c vs) (construct fuel' c vs)
  execute : ∀ s, R (execute fuel s) (execute fuel' s)
  loop : ∀ condition body increment?,
    R (loop fuel condition body increment?) (loop fuel' condition body increment?)
  executeAll : ∀ ss, R (executeAll fuel ss) (executeAll fuel' ss)

namespace Congruence

variable {R : {α : Type} → Eval α → Eval α → Prop} {fuel fuel' : Nat}

section

variable (hR : Congruence R) (ih : Relates R fuel fuel')

include hR

theorem pure {α : Type} (a : α) : R (Pure.pure a : Eval α) (Pure.pure a) :=
  hR.plain (.pure a)

include ih

theorem evaluate_succ (e : Expr) : R (evaluate (fuel + 1) e) (evaluate (fuel' + 1) e) := by
  cases e with
  | literal v => exact hR.pure _
  | group inner => exact ih.evaluate inner
  | unary op line operand =>
    exact hR.bind (ih.evaluate operand) fun v => hR.plain (op.apply_plain line v)
  | binary op line left right =>
    exact hR.bind (ih.evaluate left) fun u => hR.bind (ih.evaluate right) fun v =>
      hR.plain (op.apply_plain line u v)
  | logical op left right =>
    refine hR.bind (ih.evaluate left) fun v => ?_
    split
    · exact hR.pure v
    · exact ih.evaluate right
  | ternary condition thenBranch elseBranch =>
    refine hR.bind (ih.evaluate condition) fun v => ?_
    split
    · exact ih.evaluate thenBranch
    · exact ih.evaluate elseBranch
  | comma left right => exact hR.bind (ih.evaluate left) fun _ => ih.evaluate right
  | «variable» o => exact hR.plain (readVariable_plain _ _)
  | assign o value =>
    exact hR.bind (ih.evaluate value) fun v => hR.bind (hR.plain (writeVariable_plain o v))
      fun _ => hR.pure v
  | call callee line arguments =>
    exact hR.bind (ih.evaluate callee) fun v => hR.bind (ih.evaluateAll arguments) fun vs =>
      hR.bind (hR.plain (callableOf_plain v vs.length line)) fun c => ih.call c vs line
  | get object name =>
    exact hR.bind (ih.evaluate object) fun v => hR.bind (hR.plain (propertyOfValue_plain v name))
      fun property => ih.readProperty property name.line
  | set object name value =>
    exact hR.bind (ih.evaluate object) fun v => hR.bind (hR.plain (instanceOf_plain v name))
      fun i => hR.bind (ih.evaluate value) fun u =>
        hR.bind (hR.plain (setField_plain i name.text u)) fun _ => hR.pure u
  | this id line => exact hR.plain (readVariable_plain _ _)
  | super id line method =>
    exact hR.bind (hR.plain (superOf_plain id line)) fun r =>
      hR.bind (hR.plain (superPropertyOf_plain r.1 r.2 method)) fun property =>
        ih.readProperty property method.line
  | lambda f => exact hR.bind (hR.plain (declareFunction_plain f)) fun _ => hR.pure _

theorem evaluateAll_succ (es : List Expr) :
    R (evaluateAll (fuel + 1) es) (evaluateAll (fuel' + 1) es) := by
  cases es with
  | nil => exact hR.pure _
  | cons e es =>
    exact hR.bind (ih.evaluate e) fun _ => hR.bind (ih.evaluateAll es) fun _ => hR.pure _

theorem readProperty_succ (property : Property) (line : Nat) :
    R (readProperty (fuel + 1) property line) (readProperty (fuel' + 1) property line) := by
  cases property with
  | value v => exact hR.pure v
  | getter closure =>
    exact hR.bind (hR.plain (newFunction_plain closure)) fun c => ih.call c [] line

theorem call_succ (c : Callable) (vs : List Value) (line : Nat) :
    R (call (fuel + 1) c vs line) (call (fuel' + 1) c vs line) := by
  refine hR.bind (hR.checkDepth line) fun _ => ?_
  cases c with
  | function id closure => exact hR.nested (ih.run closure vs)
  | «class» c => exact hR.nested (ih.construct c vs)
  | native id n => exact hR.nested (hR.plain (runNative_plain n vs line))

theorem run_succ (c : Closure) (vs : List Value) :
    R (run (fuel + 1) c vs) (run (fuel' + 1) c vs) :=
  hR.bind (hR.plain (openScope_plain _ _)) fun environment =>
    hR.bind (hR.within environment (ih.executeAll _)) fun flow => hR.plain (resultOf_plain c flow)

theorem construct_succ (c : ClassValue) (vs : List Value) :
    R (construct (fuel + 1) c vs) (construct (fuel' + 1) c vs) := by
  refine hR.bind (hR.plain (newInstance_plain c)) fun i => ?_
  cases c.initializer? with
  | none => exact hR.pure _
  | some method =>
    exact hR.bind (hR.plain (bindThis_plain method i)) fun closure =>
      hR.bind (ih.run closure vs) fun _ => hR.pure _

theorem execute_succ (s : Stmt) : R (execute (fuel + 1) s) (execute (fuel' + 1) s) := by
  cases s with
  | expression e => exact hR.bind (ih.evaluate e) fun _ => hR.pure _
  | print e =>
    exact hR.bind (ih.evaluate e) fun v => hR.bind (hR.plain (print_plain v.text))
      fun _ => hR.pure _
  | var name initializer? =>
    cases initializer? with
    | none => exact hR.bind (hR.plain (define_plain _ _)) fun _ => hR.pure _
    | some e =>
      exact hR.bind (ih.evaluate e) fun v => hR.bind (hR.plain (define_plain name.text v))
        fun _ => hR.pure _
  | block body =>
    have opened : Plain (do openScope (← get).environment .empty : Eval Environment) :=
      .look (fun _ => openScope_plain _ _) fun _ _ => rfl
    have h := hR.bind (hR.plain opened) fun environment =>
      hR.within environment (ih.executeAll body)
    exact h
  | «if» condition thenBranch elseBranch? =>
    refine hR.bind (ih.evaluate condition) fun v => ?_
    split
    · exact ih.execute thenBranch
    · cases elseBranch? with
      | none => exact hR.pure _
      | some elseBranch => exact ih.execute elseBranch
  | «while» condition body increment? => exact ih.loop condition body increment?
  | function f =>
    exact hR.bind (hR.plain (declareFunction_plain f)) fun c =>
      hR.bind (hR.plain (define_plain f.displayName (.callable c))) fun _ => hR.pure _
  | «class» c => exact hR.bind (hR.plain (declareClass_plain c)) fun _ => hR.pure _
  | «return» line value? =>
    cases value? with
    | none => exact hR.pure _
    | some e => exact hR.bind (ih.evaluate e) fun v => hR.pure _
  | «break» => exact hR.pure _
  | «continue» => exact hR.pure _

theorem loop_succ (condition : Expr) (body : Stmt) (increment? : Option Expr) :
    R (loop (fuel + 1) condition body increment?) (loop (fuel' + 1) condition body increment?) := by
  refine hR.bind (ih.evaluate condition) fun v => ?_
  split
  · refine hR.bind (ih.execute body) fun flow => ?_
    cases increment? with
    | none =>
      have again := ih.loop condition body none
      cases flow with
      | normal => exact again
      | «continue» => exact again
      | «return» v => exact hR.pure _
      | «break» => exact hR.pure _
    | some increment =>
      have again := hR.bind (ih.evaluate increment) fun _ => ih.loop condition body (some increment)
      cases flow with
      | normal => exact again
      | «continue» => exact again
      | «return» v => exact hR.pure _
      | «break» => exact hR.pure _
  · exact hR.pure _

theorem executeAll_succ (ss : List Stmt) :
    R (executeAll (fuel + 1) ss) (executeAll (fuel' + 1) ss) := by
  cases ss with
  | nil => exact hR.pure _
  | cons s ss =>
    refine hR.bind (ih.execute s) fun flow => ?_
    cases flow with
    | normal => exact ih.executeAll ss
    | _ => exact hR.pure _

end

/-- A relation that steps keep holds between runs on less and on more fuel, if it holds where the
less is none. -/
theorem relates (hR : Congruence R) (hzero : ∀ fuel', Relates R 0 fuel') :
    ∀ {fuel fuel' : Nat}, fuel ≤ fuel' → Relates R fuel fuel' := by
  intro fuel
  induction fuel with
  | zero => exact fun _ => hzero _
  | succ fuel ih =>
    intro fuel' h
    obtain ⟨fuel', rfl⟩ := Nat.exists_eq_add_of_le' (Nat.one_le_of_lt h)
    have ih := ih (Nat.le_of_succ_le_succ h)
    exact {
      evaluate := hR.evaluate_succ ih
      evaluateAll := hR.evaluateAll_succ ih
      readProperty := hR.readProperty_succ ih
      call := hR.call_succ ih
      run := hR.run_succ ih
      construct := hR.construct_succ ih
      execute := hR.execute_succ ih
      loop := hR.loop_succ ih
      executeAll := hR.executeAll_succ ih }

end Congruence

end Eval

end LoxLang
