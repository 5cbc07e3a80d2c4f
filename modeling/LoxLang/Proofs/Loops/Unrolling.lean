import LoxLang.Proofs.Lexical.Simulation
import LoxLang.Proofs.Loops.Operations

/-!
Running desugared code beside the code itself. Both runs go through the same states, but that of
desugared code spends more fuel, as a loop without an increment opens a block in every turn. The
block declares nothing, and nothing declared in the body is left behind it, so that the increment
finds the environment that the condition has found.
-/

namespace LoxLang

namespace Flow

theorem normal_ne_continue : normal ≠ «continue» :=
  fun h => Flow.noConfusion h

theorem return_ne_continue (v : Value) : «return» v ≠ «continue» :=
  fun h => Flow.noConfusion h

theorem break_ne_continue : «break» ≠ «continue» :=
  fun h => Flow.noConfusion h

end Flow

namespace Lexical

/-- The state with one more call under way. -/
def State.called (s : State) : State :=
  { s with machine := { s.machine with depth := s.machine.depth + 1 } }

/-- The state with one call less under way. -/
def State.returned (s : State) : State :=
  { s with machine := { s.machine with depth := s.machine.depth - 1 } }

section

variable {α : Type} {x : Lexical α} {s : State}

theorem within_eq (environment : Environment) : within environment x s =
    Fueled.image (·.inside s.machine.environment) id (x (s.inside environment)) := by
  unfold within State.inside
  dsimp only
  cases x { s with machine := { s.machine with environment := environment } } <;> rfl

theorem nested_eq : nested x s = Fueled.image State.returned id (x s.called) := by
  unfold nested State.called
  dsimp only
  cases x { s with machine := { s.machine with depth := s.machine.depth + 1 } } <;> rfl

end

/-- Results of a run and of the desugared run with other fuel. They agree where there is enough
fuel for both. If `lo`, the second run has the fuel that it needs where the first has it, and if
`hi`, the first where the second has. -/
inductive Meet {α β : Type} (p : Stmt → Bool) (lo hi : Prop) (g : α → β) (P : α → State → Prop) :
    EStateM.Result Stop State α → EStateM.Result Stop State β → Prop
  | ok {a s} (h : P a s) : Meet p lo hi g P (.ok a s) (.ok (g a) (s.desugared p))
  | failed {d s s'} (h : s'.machine.console = s.machine.console) :
      Meet p lo hi g P (.error (.failed d) s) (.error (.failed d) s')
  | exhausted {s s'} : Meet p lo hi g P (.error .outOfFuel s) (.error .outOfFuel s')
  | left {s r'} (h : ¬ hi) : Meet p lo hi g P (.error .outOfFuel s) r'
  | right {r s'} (h : ¬ lo) : Meet p lo hi g P r (.error .outOfFuel s')

/-- Results meet wherever a run and the desugared run start in the same state. A value of the first
satisfies `Q`, and if `K`, its environment is kept. -/
def Meets {α β : Type} (p : Stmt → Bool) (lo hi K : Prop) (g : α → β) (Q : α → Prop)
    (x : Lexical α) (y : Lexical β) : Prop :=
  ∀ s, Meet p lo hi g (fun a s₁ => (K → s₁.machine.environment = s.machine.environment) ∧ Q a)
    (x s) (y (s.desugared p))

theorem Meet.imp {α β : Type} {p : Stmt → Bool} {lo hi lo' hi' : Prop} {g : α → β}
    {P P' : α → State → Prop} {r : EStateM.Result Stop State α} {r' : EStateM.Result Stop State β}
    (h : Meet p lo hi g P r r') (hlo : lo' → lo) (hhi : hi' → hi)
    (hP : ∀ a s, P a s → P' a s) : Meet p lo' hi' g P' r r' := by
  cases h with
  | ok h => exact .ok (hP _ _ h)
  | failed h => exact .failed h
  | exhausted => exact .exhausted
  | left h => exact .left fun h' => h (hhi h')
  | right h => exact .right fun h' => h (hlo h')

/-- Both states are changed behind a run, without a difference to the console. -/
theorem Meet.image {α β : Type} {p : Stmt → Bool} {lo hi : Prop} {g : α → β}
    {P P' : α → State → Prop} {r : EStateM.Result Stop State α} {r' : EStateM.Result Stop State β}
    {F F' : State → State} (h : Meet p lo hi g P r r')
    (hF : ∀ a s, P a s → F' (s.desugared p) = (F s).desugared p ∧ P' a (F s))
    (hc : ∀ s s', s'.machine.console = s.machine.console →
      (F' s').machine.console = (F s).machine.console) :
    Meet p lo hi g P' (Fueled.image F id r) (Fueled.image F' id r') := by
  cases h with
  | @ok a s h =>
    obtain ⟨hs, hP⟩ := hF a s h
    rw [Fueled.image, Fueled.image, hs]
    exact .ok hP
  | failed h => exact .failed (hc _ _ h)
  | exhausted => exact .exhausted
  | left h => exact .left h
  | right h => exact .right h

namespace Meets

variable {α β α' β' : Type} {p : Stmt → Bool} {lo hi lo' hi' K K' : Prop} {g : α → β}
  {g' : α' → β'} {Q Q₁ : α → Prop} {Q' : α' → Prop} {x : Lexical α} {y : Lexical β}

theorem imp (h : Meets p lo hi K g Q x y) (hlo : lo' → lo) (hhi : hi' → hi) (hK : K' → K)
    (hQ : ∀ a, Q a → Q₁ a) : Meets p lo' hi' K' g Q₁ x y :=
  fun s => (h s).imp hlo hhi fun a _ ⟨hk, ha⟩ => ⟨fun hK' => hk (hK hK'), hQ a ha⟩

/-- Less is promised of the environment. -/
theorem mono (h : Meets p lo hi K g Q x y) (hK : K' → K) : Meets p lo hi K' g Q x y :=
  h.imp id id hK fun _ => id

/-- Nothing is asked of the environment. -/
theorem of_reaching (h : Reaching p g x y) (hK : ¬ K) :
    Meets p lo hi K g (fun _ => True) x y := by
  intro s
  rw [h.image s]
  rcases x s with ⟨a, s₁⟩ | ⟨d | _, s₁⟩
  · exact .ok ⟨fun hk => (hK hk).elim, trivial⟩
  · exact .failed rfl
  · exact .exhausted

theorem of_images (h : Lexical.Images p g x y) : Meets p lo hi K g (fun _ => True) x y := by
  intro s
  have hk := h.kept s
  rw [h.image s]
  generalize x s = r at hk
  rcases r with ⟨a, s₁⟩ | ⟨d | _, s₁⟩
  · exact .ok ⟨fun _ => hk, trivial⟩
  · exact .failed rfl
  · exact .exhausted

theorem pure {a : α} (h : Q a) : Meets p lo hi K g Q (Pure.pure a) (Pure.pure (g a)) :=
  fun _ => .ok ⟨fun _ => rfl, h⟩

/-- A statement has ended normally. -/
theorem normal {Q : Flow → Prop} (h : Q .normal) :
    Meets p lo hi K (Flow.desugared p) Q (Pure.pure .normal) (Pure.pure .normal) :=
  .pure (a := Flow.normal) h

theorem exhausted : Meets p lo hi K g Q Fueled.exhausted Fueled.exhausted :=
  fun _ => .exhausted

theorem left (h : ¬ hi) : Meets p lo hi K g Q Fueled.exhausted y :=
  fun _ => .left h

theorem right (h : ¬ lo) : Meets p lo hi K g Q x Fueled.exhausted :=
  fun _ => .right h

theorem bind {f : α → Lexical α'} {f' : β → Lexical β'} (h : Meets p lo hi K g Q x y)
    (hf : ∀ a, Q a → Meets p lo hi K g' Q' (f a) (f' (g a))) :
    Meets p lo hi K g' Q' (x >>= f) (y >>= f') := by
  intro s
  have hs := h s
  generalize hx : x s = r at hs
  generalize hy : y (s.desugared p) = r' at hs
  cases hs with
  | ok hq =>
    rw [Fueled.bind_ok hx, Fueled.bind_ok hy]
    exact (hf _ hq.2 _).imp id id fun _ _ ⟨hk, ha⟩ => ⟨fun hK => (hk hK).trans (hq.1 hK), ha⟩
  | failed hc =>
    rw [Fueled.bind_error hx, Fueled.bind_error hy]
    exact .failed hc
  | exhausted =>
    rw [Fueled.bind_error hx, Fueled.bind_error hy]
    exact .exhausted
  | left h' =>
    rw [Fueled.bind_error hx]
    exact .left h'
  | right h' =>
    rw [Fueled.bind_error hy]
    exact .right h'

/-- The environment is put back. -/
theorem within (environment : Environment) (h : Meets p lo hi K' g Q x y) :
    Meets p lo hi K g Q (within environment x) (within environment y) := by
  intro s
  rw [within_eq, within_eq]
  exact (h (s.inside environment)).image (fun _ _ hq => ⟨rfl, fun _ => rfl, hq.2⟩) fun _ _ => id

/-- The same with a block around the desugared code, where the environment is kept. -/
theorem entered (h : Meets p lo hi True g Q x y) :
    Meets p lo hi K g Q x (do Lexical.within (← get).machine.environment y) := by
  intro s
  have left : x s = Fueled.image id id (x s) := by cases x s <;> rfl
  have right : (do Lexical.within (← get).machine.environment y) (s.desugared p) =
      Fueled.image (·.inside s.machine.environment) id (y (s.desugared p)) := within_eq _
  rw [left, right]
  refine (h s).image (fun a s₁ hq => ⟨?_, fun _ => hq.1 trivial, hq.2⟩) fun _ _ => id
  have kept : s₁.machine.environment = s.machine.environment := hq.1 trivial
  rw [← kept]
  rfl

theorem nested (h : Meets p lo hi K g Q x y) :
    Meets p lo hi K g Q (nested x) (nested y) := by
  intro s
  rw [nested_eq, nested_eq]
  exact (h s.called).image (fun _ _ hq => ⟨rfl, hq⟩) fun _ _ => id

end Meets

/-- What a loop does behind a turn that has ended so. -/
def goOn (again : Lexical Flow) : Flow → Lexical Flow
  | .break => return .normal
  | .return value => return .return value
  | .normal | .continue => again

/-- A turn of a loop: the body, and the increment unless the body has ended the loop. -/
def turn (fuel : Nat) (place : Place) (body : Stmt) (increment : Expr) : Lexical Flow := do
  match ← execute fuel place body with
  | .break => return .break
  | .return value => return .return value
  | .normal | .continue =>
    let _ ← evaluate fuel increment
    return .normal

theorem loop_none (fuel : Nat) (place : Place) (condition : Expr) (body : Stmt) :
    loop (fuel + 1) place condition body none = do
      if (← evaluate fuel condition).isTruthy then
        execute fuel place body >>= goOn (loop fuel place condition body none)
      else return .normal := by
  rw [loop]
  refine congrArg (evaluate fuel condition >>= ·) (funext fun v => ?_)
  split
  · refine congrArg (execute fuel place body >>= ·) (funext fun flow => ?_)
    cases flow <;> rfl
  · rfl

theorem loop_some (fuel : Nat) (place : Place) (condition : Expr) (body : Stmt)
    (increment : Expr) : loop (fuel + 1) place condition body (some increment) = do
      if (← evaluate fuel condition).isTruthy then
        turn fuel place body increment >>= goOn (loop fuel place condition body (some increment))
      else return .normal := by
  rw [loop]
  refine congrArg (evaluate fuel condition >>= ·) (funext fun v => ?_)
  split
  · rw [turn, bind_assoc]
    refine congrArg (execute fuel place body >>= ·) (funext fun flow => ?_)
    cases flow <;> simp [goOn]
  · rfl

theorem Meets.goOn {p : Stmt → Bool} {lo hi K : Prop} {again again' : Lexical Flow}
    (h : Meets p lo hi K (Flow.desugared p) (· ≠ .continue) again again') (flow : Flow) :
    Meets p lo hi K (Flow.desugared p) (· ≠ .continue) (goOn again flow)
      (goOn again' (flow.desugared p)) := by
  cases flow with
  | «break» => exact .normal Flow.normal_ne_continue
  | «return» v => exact Meets.pure (a := Flow.return v) (Flow.return_ne_continue v)
  | normal | «continue» => exact h

/-- Where a run with `fuel` and the desugared run with `fuel'` meet. What is steady leaves the
environment as it is, wherever it stands. -/
structure Desugars (p : Stmt → Bool) (lo hi : Prop) (fuel fuel' : Nat) : Prop where
  evaluate : ∀ e : Expr, Meets p lo hi True (Value.desugared p) (fun _ => True)
    (evaluate fuel e) (evaluate fuel' (e.desugared p))
  evaluateAll : ∀ es, Meets p lo hi True (List.map (Value.desugared p)) (fun _ => True)
    (evaluateAll fuel es) (evaluateAll fuel' (desugaredExprs p es))
  readProperty : ∀ (property : Eval.Property) line,
    Meets p lo hi True (Value.desugared p) (fun _ => True) (readProperty fuel property line)
      (readProperty fuel' (property.desugared p) line)
  call : ∀ (c : Callable) arguments line,
    Meets p lo hi True (Value.desugared p) (fun _ => True) (call fuel c arguments line)
      (call fuel' (c.desugared p) (arguments.map (Value.desugared p)) line)
  run : ∀ (c : Closure) arguments,
    Meets p lo hi True (Value.desugared p) (fun _ => True) (run fuel c arguments)
      (run fuel' (c.desugared p) (arguments.map (Value.desugared p)))
  construct : ∀ (c : ClassValue) arguments,
    Meets p lo hi True (Value.desugared p) (fun _ => True) (construct fuel c arguments)
      (construct fuel' (c.desugared p) (arguments.map (Value.desugared p)))
  execute : ∀ place place' (s : Stmt), (s.steady = true ∨ place' = place) →
    Meets p lo hi (s.steady = true) (Flow.desugared p)
      (fun flow => s.continues = false → flow ≠ .continue) (execute fuel place s)
      (execute fuel' place' (s.desugared p))
  loop : ∀ place place' (condition : Expr) (body : Stmt) (increment? : Option Expr),
    (body.steady = true ∨ place' = place) →
    Meets p lo hi (body.steady = true) (Flow.desugared p) (· ≠ .continue)
      (loop fuel place condition body increment?)
      (loop fuel' place' (condition.desugared p) (body.desugared p)
        (increment?.map (Expr.desugared p)))
  unrolled : ∀ place place' (condition : Expr) (body : Stmt) (increment : Expr), p body = true →
    Meets p lo hi True (Flow.desugared p) (· ≠ .continue)
      (Lexical.loop fuel place condition body (some increment))
      (Lexical.loop fuel' place' (condition.desugared p)
        (.block [body.desugared p, .expression (increment.desugared p)]) none)
  executeAll : ∀ place ss, Meets p lo hi False (Flow.desugared p)
    (fun flow => stmtsContinue ss = false → flow ≠ .continue) (executeAll fuel place ss)
    (executeAll fuel' place (desugaredStmts p ss))

namespace Desugars

variable {p : Stmt → Bool} {lo hi lo' hi' : Prop} {fuel fuel' : Nat}

theorem mono (h : Desugars p lo hi fuel fuel') (hlo : lo' → lo) (hhi : hi' → hi) :
    Desugars p lo' hi' fuel fuel' where
  evaluate e := (h.evaluate e).imp hlo hhi id fun _ => id
  evaluateAll es := (h.evaluateAll es).imp hlo hhi id fun _ => id
  readProperty property line := (h.readProperty property line).imp hlo hhi id fun _ => id
  call c arguments line := (h.call c arguments line).imp hlo hhi id fun _ => id
  run c arguments := (h.run c arguments).imp hlo hhi id fun _ => id
  construct c arguments := (h.construct c arguments).imp hlo hhi id fun _ => id
  execute place place' s hs := (h.execute place place' s hs).imp hlo hhi id fun _ => id
  loop place place' condition body increment? hb :=
    (h.loop place place' condition body increment? hb).imp hlo hhi id fun _ => id
  unrolled place place' condition body increment hb :=
    (h.unrolled place place' condition body increment hb).imp hlo hhi id fun _ => id
  executeAll place ss := (h.executeAll place ss).imp hlo hhi id fun _ => id

/-- An expression keeps the environment, also where that is not asked. -/
theorem evaluated {K : Prop} (h : Desugars p lo hi fuel fuel') (e : Expr) :
    Meets p lo hi K (Value.desugared p) (fun _ => True) (Lexical.evaluate fuel e)
      (Lexical.evaluate fuel' (e.desugared p)) :=
  (h.evaluate e).mono fun _ => trivial

/-- Without fuel nothing runs. -/
theorem zero : Desugars p lo hi 0 0 where
  evaluate _ := .exhausted
  evaluateAll _ := .exhausted
  readProperty _ _ := .exhausted
  call _ _ _ := .exhausted
  run _ _ := .exhausted
  construct _ _ := .exhausted
  execute _ _ _ _ := .exhausted
  loop _ _ _ _ _ _ := .exhausted
  unrolled _ _ _ _ _ _ := .exhausted
  executeAll _ _ := .exhausted

theorem left_zero (h : ¬ hi) : Desugars p lo hi 0 fuel' where
  evaluate _ := .left h
  evaluateAll _ := .left h
  readProperty _ _ := .left h
  call _ _ _ := .left h
  run _ _ := .left h
  construct _ _ := .left h
  execute _ _ _ _ := .left h
  loop _ _ _ _ _ _ := .left h
  unrolled _ _ _ _ _ _ := .left h
  executeAll _ _ := .left h

theorem right_zero (h : ¬ lo) : Desugars p lo hi fuel 0 where
  evaluate _ := .right h
  evaluateAll _ := .right h
  readProperty _ _ := .right h
  call _ _ _ := .right h
  run _ _ := .right h
  construct _ _ := .right h
  execute _ _ _ _ := .right h
  loop _ _ _ _ _ _ := .right h
  unrolled _ _ _ _ _ _ := .right h
  executeAll _ _ := .right h

section

variable (h : Desugars p lo hi fuel fuel')

include h

theorem evaluate_succ (e : Expr) : Meets p lo hi True (Value.desugared p) (fun _ => True)
    (Lexical.evaluate (fuel + 1) e) (Lexical.evaluate (fuel' + 1) (e.desugared p)) := by
  cases e with
  | literal value =>
    have made : Meets p lo hi True (Value.desugared p) (fun _ => True)
        (Pure.pure (Value.ofLiteral value)) (Pure.pure ((Value.ofLiteral value).desugared p)) :=
      .pure trivial
    rw [Value.ofLiteral_desugared] at made
    exact made
  | group inner => exact h.evaluate inner
  | unary op line operand =>
    refine (h.evaluate operand).bind fun v _ => ?_
    exact .of_images (lift_images (Eval.ofExcept_images (op.apply_desugared line v)))
  | binary op line left right =>
    refine (h.evaluate left).bind fun v _ => (h.evaluate right).bind fun w _ => ?_
    exact .of_images (lift_images (Eval.ofExcept_images (op.apply_desugared line v w)))
  | logical op left right =>
    refine (h.evaluate left).bind fun v _ => ?_
    rw [op.decidedBy_desugared]
    split
    · exact .pure trivial
    · exact h.evaluate right
  | ternary condition thenBranch elseBranch =>
    refine (h.evaluate condition).bind fun v _ => ?_
    rw [v.isTruthy_desugared]
    split
    · exact h.evaluate thenBranch
    · exact h.evaluate elseBranch
  | comma left right => exact (h.evaluate left).bind fun _ _ => h.evaluate right
  | «variable» o => exact .of_images (readVariable_images o.name)
  | assign target value =>
    refine (h.evaluate value).bind fun v _ => ?_
    exact (Meets.of_images (writeVariable_images target.name v)).bind fun _ _ => .pure trivial
  | call callee line arguments =>
    refine (h.evaluate callee).bind fun v _ => (h.evaluateAll arguments).bind fun vs _ => ?_
    rw [List.length_map]
    exact (Meets.of_images (lift_images (Eval.callableOf_images v vs.length line))).bind
      fun c _ => h.call c vs line
  | get object name =>
    refine (h.evaluate object).bind fun v _ => ?_
    exact (Meets.of_images (propertyOfValue_images v name)).bind fun property _ =>
      h.readProperty property name.line
  | set object name value =>
    refine (h.evaluate object).bind fun v _ => ?_
    refine (Meets.of_images (lift_images (Eval.instanceOf_images v name))).bind fun i _ => ?_
    refine (h.evaluate value).bind fun w _ => ?_
    exact (Meets.of_images (lift_images (Eval.setField_images i name.text w))).bind
      fun _ _ => .pure trivial
  | this id line => exact .of_images (readVariable_images ⟨"this", line⟩)
  | super id line method =>
    refine (Meets.of_images (superOf_images line)).bind fun pair _ => ?_
    obtain ⟨c, i⟩ := pair
    exact (Meets.of_images (superPropertyOf_images c i method)).bind fun property _ =>
      h.readProperty property method.line
  | lambda f =>
    exact (Meets.of_images (declareFunction_images f)).bind fun c _ =>
      Meets.pure (g := Value.desugared p) (a := .callable c) trivial

theorem evaluateAll_succ (es : List Expr) :
    Meets p lo hi True (List.map (Value.desugared p)) (fun _ => True)
      (Lexical.evaluateAll (fuel + 1) es)
      (Lexical.evaluateAll (fuel' + 1) (desugaredExprs p es)) := by
  cases es with
  | nil => exact Meets.pure (g := List.map (Value.desugared p)) (a := []) trivial
  | cons e es =>
    refine (h.evaluate e).bind fun v _ => (h.evaluateAll es).bind fun vs _ => ?_
    exact Meets.pure (g := List.map (Value.desugared p)) (a := v :: vs) trivial

theorem readProperty_succ (property : Eval.Property) (line : Nat) :
    Meets p lo hi True (Value.desugared p) (fun _ => True)
      (Lexical.readProperty (fuel + 1) property line)
      (Lexical.readProperty (fuel' + 1) (property.desugared p) line) := by
  cases property with
  | value v => exact .pure trivial
  | getter c =>
    exact (Meets.of_images (lift_images (Eval.newFunction_images c))).bind fun f _ =>
      h.call f [] line

theorem call_succ (c : Callable) (arguments : List Value) (line : Nat) :
    Meets p lo hi True (Value.desugared p) (fun _ => True)
      (Lexical.call (fuel + 1) c arguments line)
      (Lexical.call (fuel' + 1) (c.desugared p) (arguments.map (Value.desugared p)) line) := by
  refine (Meets.of_images (lift_images (Eval.checkDepth_images line))).bind fun _ _ => ?_
  cases c with
  | function id closure => exact (h.run closure arguments).nested
  | «class» c => exact (h.construct c arguments).nested
  | native id n =>
    exact (Meets.of_images (lift_images (Eval.runNative_images n arguments line))).nested

theorem run_succ (c : Closure) (arguments : List Value) :
    Meets p lo hi True (Value.desugared p) (fun _ => True)
      (Lexical.run (fuel + 1) c arguments)
      (Lexical.run (fuel' + 1) (c.desugared p) (arguments.map (Value.desugared p))) := by
  have bindings : ((c.desugared p).function.parameters.map Name.text).zip
      (arguments.map (Value.desugared p)) =
        ((c.function.parameters.map Name.text).zip arguments).map
          (Prod.map id (Value.desugared p)) := by
    rw [Closure.desugared, Function.parameters_desugared, List.zip_map_right]
  rw [Lexical.run, Lexical.run, bindings]
  refine (Meets.of_images (extended_images c.environment _)).bind fun environment _ => ?_
  have body := h.executeAll .inside c.function.body
  rw [← Function.body_desugared] at body
  exact (body.within environment).bind fun flow _ => .of_images (resultOf_images c flow)

theorem construct_succ (c : ClassValue) (arguments : List Value) :
    Meets p lo hi True (Value.desugared p) (fun _ => True)
      (Lexical.construct (fuel + 1) c arguments)
      (Lexical.construct (fuel' + 1) (c.desugared p)
        (arguments.map (Value.desugared p))) := by
  refine (Meets.of_images (lift_images (Eval.newInstance_images c))).bind fun i _ => ?_
  rw [c.initializer?_desugared]
  cases c.initializer? with
  | none => exact Meets.pure (g := Value.desugared p) (a := .instance i) trivial
  | some initializer =>
    refine (Meets.of_images (bindThis_images initializer i)).bind fun closure _ => ?_
    exact (h.run closure arguments).bind fun _ _ =>
      Meets.pure (g := Value.desugared p) (a := .instance i) trivial

theorem if_succ (place place' : Place) (condition : Expr) (thenBranch : Stmt)
    (elseBranch? : Option Stmt)
    (hs : (Stmt.if condition thenBranch elseBranch?).steady = true ∨ place' = place) :
    Meets p lo hi ((Stmt.if condition thenBranch elseBranch?).steady = true) (Flow.desugared p)
      (fun flow => (Stmt.if condition thenBranch elseBranch?).continues = false →
        flow ≠ .continue)
      (Lexical.execute (fuel + 1) place (.if condition thenBranch elseBranch?))
      (Lexical.execute (fuel' + 1) place'
        ((Stmt.if condition thenBranch elseBranch?).desugared p)) := by
  cases elseBranch? with
  | none =>
    refine (h.evaluated condition).bind fun v _ => ?_
    rw [v.isTruthy_desugared]
    split
    · exact h.execute place place' thenBranch hs
    · exact .normal fun _ => Flow.normal_ne_continue
  | some elseBranch =>
    simp only [Stmt.steady, Bool.and_eq_true, Stmt.continues, Bool.or_eq_false_iff] at hs ⊢
    refine (h.evaluated condition).bind fun v _ => ?_
    rw [v.isTruthy_desugared]
    split
    · exact (h.execute place place' thenBranch (hs.imp_left (·.1))).imp id id (·.1)
        fun _ hq hc => hq hc.1
    · exact (h.execute place place' elseBranch (hs.imp_left (·.2))).imp id id (·.2)
        fun _ hq hc => hq hc.2

theorem while_succ (place place' : Place) (condition : Expr) (body : Stmt)
    (increment? : Option Expr) (hs : body.steady = true ∨ place' = place) :
    Meets p lo hi (body.steady = true) (Flow.desugared p) (· ≠ .continue)
      (Lexical.execute (fuel + 1) place (.while condition body increment?))
      (Lexical.execute (fuel' + 1) place'
        ((Stmt.while condition body increment?).desugared p)) := by
  cases increment? with
  | none => exact h.loop place place' condition body none hs
  | some increment =>
    rw [Stmt.desugared]
    split
    · exact (h.unrolled place place' condition body increment ‹_›).mono fun _ => trivial
    · exact h.loop place place' condition body (some increment) hs

theorem var_succ (place : Place) (name : Name) (initializer? : Option Expr) :
    Meets p lo hi False (Flow.desugared p) (· ≠ .continue)
      (Lexical.execute (fuel + 1) place (.var name initializer?))
      (Lexical.execute (fuel' + 1) place ((Stmt.var name initializer?).desugared p)) := by
  cases initializer? with
  | none =>
    refine (Meets.of_reaching (declare_reaching place name.text) id).bind fun cell? _ => ?_
    exact (Meets.of_images (define_images cell? name.text .nil)).bind
      fun _ _ => .normal Flow.normal_ne_continue
  | some initializer =>
    refine (Meets.of_reaching (declare_reaching place name.text) id).bind fun cell? _ => ?_
    refine (h.evaluated initializer).bind fun v _ => ?_
    exact (Meets.of_images (define_images cell? name.text v)).bind
      fun _ _ => .normal Flow.normal_ne_continue

omit h in
theorem function_succ (place : Place) (f : Function) :
    Meets p lo hi False (Flow.desugared p) (· ≠ .continue)
      (Lexical.execute (fuel + 1) place (.function f))
      (Lexical.execute (fuel' + 1) place ((Stmt.function f).desugared p)) := by
  rw [Stmt.desugared, Lexical.execute, Lexical.execute, f.displayName_desugared]
  refine (Meets.of_reaching (declare_reaching place f.displayName) id).bind fun cell? _ => ?_
  refine (Meets.of_images (declareFunction_images f)).bind fun c _ => ?_
  exact (Meets.of_images (define_images cell? f.displayName (.callable c))).bind
    fun _ _ => .normal Flow.normal_ne_continue

theorem execute_succ (place place' : Place) (s : Stmt) (hs : s.steady = true ∨ place' = place) :
    Meets p lo hi (s.steady = true) (Flow.desugared p)
      (fun flow => s.continues = false → flow ≠ .continue)
      (Lexical.execute (fuel + 1) place s)
      (Lexical.execute (fuel' + 1) place' (s.desugared p)) := by
  cases s with
  | expression e =>
    exact (h.evaluated e).bind
      fun _ _ => .normal fun _ => Flow.normal_ne_continue
  | print e =>
    refine (h.evaluated e).bind fun v _ => ?_
    rw [v.text_desugared]
    exact (Meets.of_images (lift_images (Eval.print_images v.text))).bind
      fun _ _ => .normal fun _ => Flow.normal_ne_continue
  | var name initializer? =>
    obtain rfl := hs.resolve_left Bool.false_ne_true
    exact (h.var_succ _ name initializer?).imp id id Bool.false_ne_true fun _ hq _ => hq
  | block body =>
    intro s
    exact (h.executeAll .inside body).within s.machine.environment s
  | «if» condition thenBranch elseBranch? =>
    exact h.if_succ place place' condition thenBranch elseBranch? hs
  | «while» condition body increment? =>
    exact (h.while_succ place place' condition body increment? hs).imp id id id fun _ hq _ => hq
  | function f =>
    obtain rfl := hs.resolve_left Bool.false_ne_true
    exact (function_succ _ f).imp id id Bool.false_ne_true fun _ hq _ => hq
  | «class» c =>
    obtain rfl := hs.resolve_left Bool.false_ne_true
    exact (Meets.of_reaching (declareClass_reaching _ c) Bool.false_ne_true).bind
      fun _ _ => .normal fun _ => Flow.normal_ne_continue
  | «return» line value? =>
    cases value? with
    | none => exact Meets.pure (a := Flow.return .nil) fun _ => Flow.return_ne_continue .nil
    | some value =>
      exact (h.evaluated value).bind fun v _ =>
        Meets.pure (a := Flow.return v) fun _ => Flow.return_ne_continue v
  | «break» line => exact Meets.pure (a := Flow.break) fun _ => Flow.break_ne_continue
  | «continue» line =>
    exact Meets.pure (a := Flow.continue) fun h => absurd h.symm Bool.false_ne_true

theorem loop_succ (place place' : Place) (condition : Expr) (body : Stmt)
    (increment? : Option Expr) (hb : body.steady = true ∨ place' = place) :
    Meets p lo hi (body.steady = true) (Flow.desugared p) (· ≠ .continue)
      (Lexical.loop (fuel + 1) place condition body increment?)
      (Lexical.loop (fuel' + 1) place' (condition.desugared p) (body.desugared p)
        (increment?.map (Expr.desugared p))) := by
  have again := h.loop place place' condition body increment? hb
  have turned := h.execute place place' body hb
  cases increment? with
  | none =>
    rw [Option.map_none, loop_none, loop_none]
    refine (h.evaluated condition).bind fun v _ => ?_
    rw [v.isTruthy_desugared]
    split
    · exact turned.bind fun flow _ => again.goOn flow
    · exact .normal Flow.normal_ne_continue
  | some increment =>
    rw [Option.map_some, loop_some, loop_some]
    refine (h.evaluated condition).bind fun v _ => ?_
    rw [v.isTruthy_desugared]
    split
    · refine Meets.bind (Q := fun _ => True) ?_ fun flow _ => again.goOn flow
      refine turned.bind fun flow _ => ?_
      cases flow with
      | «break» => exact Meets.pure (a := Flow.break) trivial
      | «return» v => exact Meets.pure (a := Flow.return v) trivial
      | normal | «continue» =>
        exact (h.evaluated increment).bind fun _ _ => .normal trivial
    · exact .normal Flow.normal_ne_continue

theorem executeAll_succ (place : Place) (ss : List Stmt) :
    Meets p lo hi False (Flow.desugared p) (fun flow => stmtsContinue ss = false →
      flow ≠ .continue) (Lexical.executeAll (fuel + 1) place ss)
      (Lexical.executeAll (fuel' + 1) place (desugaredStmts p ss)) := by
  cases ss with
  | nil => exact .normal fun _ => Flow.normal_ne_continue
  | cons s ss =>
    simp only [stmtsContinue, Bool.or_eq_false_iff]
    refine ((h.execute place place s (.inr rfl)).mono False.elim).bind fun flow hq => ?_
    cases flow with
    | normal => exact (h.executeAll place ss).imp id id id fun _ hq' hc => hq' hc.2
    | «return» v => exact Meets.pure (a := Flow.return v) fun _ => Flow.return_ne_continue v
    | «break» => exact Meets.pure (a := Flow.break) fun _ => Flow.break_ne_continue
    | «continue» => exact Meets.pure (a := Flow.continue) fun hc => hq hc.1

end

section

variable (ih : ∀ k, Desugars p (5 * fuel ≤ k) (k ≤ fuel) fuel k)

include ih

/-- The increment as the last statement of a block. -/
theorem increment_meets (place : Place) (increment : Expr) (k : Nat)
    (hlo : lo → 5 * fuel + 2 ≤ k) (hhi : hi → k ≤ fuel) :
    Meets p lo hi True (Flow.desugared p) (· ≠ .continue)
      (do let _ ← Lexical.evaluate fuel increment; return .normal)
      (Lexical.executeAll k place [.expression (increment.desugared p)]) := by
  rcases k with _ | _ | k
  · exact .right fun h => absurd (hlo h) (by omega)
  · exact fun _ => .right fun h => absurd (hlo h) (by omega)
  · have evaluated : Meets p lo hi True _ _ _ _ :=
      ((ih k).evaluate increment).imp (fun h => by have := hlo h; omega)
        (fun h => by have := hhi h; omega) id fun _ => id
    rw [Lexical.executeAll, Lexical.execute, bind_assoc]
    exact evaluated.bind fun _ _ => .normal Flow.normal_ne_continue

/-- A turn, and the block that stands for it. -/
theorem turn_meets (place place' : Place) (body : Stmt) (increment : Expr)
    (hb : body.steady = true) (hc : body.continues = false) (k : Nat)
    (hlo : lo → 5 * fuel + 4 ≤ k) (hhi : hi → k ≤ fuel) :
    Meets p lo hi True (Flow.desugared p) (fun _ => True)
      (turn fuel place body increment)
      (Lexical.execute k place'
        (.block [body.desugared p, .expression (increment.desugared p)])) := by
  rcases k with _ | _ | k
  · exact .right fun h => absurd (hlo h) (by omega)
  · exact fun _ => .right fun h => absurd (hlo h) (by omega)
  · refine Meets.entered ?_
    have executed : Meets p lo hi True _ _ _ _ :=
      ((ih k).execute place .inside body (.inl hb)).imp (fun h => by have := hlo h; omega)
        (fun h => by have := hhi h; omega) (fun _ => hb) fun _ hq => hq hc
    rw [Lexical.executeAll, turn]
    refine executed.bind fun flow hflow => ?_
    cases flow with
    | normal =>
      exact (increment_meets ih .inside increment k (fun h => by have := hlo h; omega)
        (fun h => by have := hhi h; omega)).imp id id id fun _ _ => trivial
    | «break» => exact Meets.pure (a := Flow.break) trivial
    | «return» v => exact Meets.pure (a := Flow.return v) trivial
    | «continue» => exact (hflow rfl).elim

theorem unrolled_succ (place place' : Place) (condition : Expr) (body : Stmt) (increment : Expr)
    (hb : p body = true) (hs : body.steady = true) (hc : body.continues = false) (k : Nat) :
    Meets p (5 * (fuel + 1) ≤ k + 1) (k + 1 ≤ fuel + 1) True (Flow.desugared p) (· ≠ .continue)
      (Lexical.loop (fuel + 1) place condition body (some increment))
      (Lexical.loop (k + 1) place' (condition.desugared p)
        (.block [body.desugared p, .expression (increment.desugared p)]) none) := by
  have hk : Desugars p (5 * (fuel + 1) ≤ k + 1) (k + 1 ≤ fuel + 1) fuel k :=
    (ih k).mono (by omega) (by omega)
  rw [loop_some, loop_none]
  refine (hk.evaluate condition).bind fun v _ => ?_
  rw [v.isTruthy_desugared]
  split
  · have turned : Meets p (5 * (fuel + 1) ≤ k + 1) (k + 1 ≤ fuel + 1) True _ _ _ _ :=
      turn_meets ih place place' body increment hs hc k (by omega) (by omega)
    exact turned.bind fun flow _ => (hk.unrolled place place' condition body increment hb).goOn flow
  · exact .normal Flow.normal_ne_continue

end

/-- A turn of a loop that was desugared takes up to four steps more than one of the loop. -/
theorem succ (hp : ∀ body : Stmt, p body = true → body.steady = true ∧ body.continues = false)
    (ih : ∀ k, Desugars p (5 * fuel ≤ k) (k ≤ fuel) fuel k) (k : Nat) :
    Desugars p (5 * (fuel + 1) ≤ k + 1) (k + 1 ≤ fuel + 1) (fuel + 1) (k + 1) :=
  have h : Desugars p (5 * (fuel + 1) ≤ k + 1) (k + 1 ≤ fuel + 1) fuel k :=
    (ih k).mono (by omega) (by omega)
  { evaluate := h.evaluate_succ
    evaluateAll := h.evaluateAll_succ
    readProperty := h.readProperty_succ
    call := h.call_succ
    run := h.run_succ
    construct := h.construct_succ
    execute := h.execute_succ
    loop := h.loop_succ
    unrolled := fun place place' condition body increment hb =>
      unrolled_succ ih place place' condition body increment hb (hp body hb).1 (hp body hb).2 k
    executeAll := h.executeAll_succ }

end Desugars

/-- Desugared code runs as the code itself, with up to five times the fuel. -/
theorem desugars {p : Stmt → Bool}
    (hp : ∀ body : Stmt, p body = true → body.steady = true ∧ body.continues = false)
    (fuel fuel' : Nat) : Desugars p (5 * fuel ≤ fuel') (fuel' ≤ fuel) fuel fuel' := by
  induction fuel generalizing fuel' with
  | zero =>
    cases fuel' with
    | zero => exact .zero
    | succ k => exact .left_zero (by omega)
  | succ fuel ih =>
    cases fuel' with
    | zero => exact .right_zero (by omega)
    | succ k => exact .succ hp ih k

end Lexical

end LoxLang
