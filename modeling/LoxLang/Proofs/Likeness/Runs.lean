import LoxLang.Proofs.Likeness.Machines

/-!
Runs of like code on like machines. They go on in step with each other, to like ends: what a program
does hangs neither on how its occurrences are numbered nor on where its lines are.
-/

namespace LoxLang

open Fueled

variable {K : Likeness → Prop} {before : Array String} {α β : Type} {V : α → β → Prop}

namespace Eval

theorem within_inStep {x : Eval α} {y : Eval β} (environment : Environment)
    (h : InStep K before V x y) :
    InStep K before V (within environment x) (within environment y) := by
  intro m m' hm
  have hin : Machine.Like K before { m with environment := environment }
      { m' with environment := environment } := { hm with environment := rfl }
  unfold within
  dsimp only
  rcases (h _ _ hin).cases with ⟨a, m₁, b, m₁', hx, hy, hv, hm₁⟩ | ⟨e, m₁, e', m₁', hx, hy, he, hm₁⟩
  · rw [hx, hy]
    exact ⟨hv, { hm₁ with environment := hm.environment }⟩
  · rw [hx, hy]
    exact ⟨he, { hm₁ with environment := hm.environment }⟩

theorem nested_inStep {x : Eval α} {y : Eval β} (h : InStep K before V x y) :
    InStep K before V (nested x) (nested y) := by
  intro m m' hm
  have hin : Machine.Like K before { m with depth := m.depth + 1 }
      { m' with depth := m'.depth + 1 } := { hm with depth := congrArg (· + 1) hm.depth }
  unfold nested
  rcases (h _ _ hin).cases with ⟨a, m₁, b, m₁', hx, hy, hv, hm₁⟩ | ⟨e, m₁, e', m₁', hx, hy, he, hm₁⟩
  · rw [hx, hy]
    exact ⟨hv, { hm₁ with depth := congrArg (· - 1) hm₁.depth }⟩
  · rw [hx, hy]
    exact ⟨he, { hm₁ with depth := congrArg (· - 1) hm₁.depth }⟩

variable (K before)

/-- Whether all tasks on this fuel go on in step with each other on like code. -/
structure GoInStep (fuel : Nat) : Prop where
  evaluate : ∀ {L}, K L → ∀ e e', Expr.Like L e e' →
    InStep K before (Value.Like K) (evaluate fuel e) (evaluate fuel e')
  evaluateAll : ∀ {L}, K L → ∀ es es', exprsLike L es es' →
    InStep K before (List.Forall₂ (Value.Like K)) (evaluateAll fuel es) (evaluateAll fuel es')
  readProperty : ∀ property property' line line', Property.Like K property property' →
    Lines K line line' → InStep K before (Value.Like K) (readProperty fuel property line)
      (readProperty fuel property' line')
  call : ∀ c c' vs vs' line line', Callable.Like K c c' → List.Forall₂ (Value.Like K) vs vs' →
    Lines K line line' →
    InStep K before (Value.Like K) (call fuel c vs line) (call fuel c' vs' line')
  run : ∀ c c' vs vs', Closure.Like K c c' → List.Forall₂ (Value.Like K) vs vs' →
    InStep K before (Value.Like K) (run fuel c vs) (run fuel c' vs')
  construct : ∀ c c' vs vs', ClassValue.Like K c c' → List.Forall₂ (Value.Like K) vs vs' →
    InStep K before (Value.Like K) (construct fuel c vs) (construct fuel c' vs')
  execute : ∀ {L}, K L → ∀ s s', Stmt.Like L s s' →
    InStep K before (Flow.Like K) (execute fuel s) (execute fuel s')
  loop : ∀ {L}, K L → ∀ condition condition' body body' increment? increment'?,
    Expr.Like L condition condition' → Stmt.Like L body body' →
    Option.Rel (Expr.Like L) increment? increment'? →
    InStep K before (Flow.Like K) (loop fuel condition body increment?)
      (loop fuel condition' body' increment'?)
  executeAll : ∀ {L}, K L → ∀ ss ss', stmtsLike L ss ss' →
    InStep K before (Flow.Like K) (executeAll fuel ss) (executeAll fuel ss')

variable {K before}

namespace GoInStep

variable {fuel : Nat} (ih : GoInStep K before fuel) {L : Likeness} (hL : K L)

theorem zero : GoInStep K before 0 := by
  constructor
  all_goals
    intros
    exact .exhausted

include ih hL

theorem evaluate_succ (e e' : Expr) (h : e.Like L e') :
    InStep K before (Value.Like K) (Eval.evaluate (fuel + 1) e) (Eval.evaluate (fuel + 1) e') := by
  cases e with
  | literal l =>
    cases h
    exact .pure (.ofLiteral l)
  | group inner =>
    obtain ⟨inner', rfl, h⟩ := h
    exact ih.evaluate hL inner inner' h
  | unary op line operand =>
    obtain ⟨line', operand', rfl, hl, h⟩ := h
    exact (ih.evaluate hL _ _ h).bind fun v v' hv => unary_inStep (.intro hL hl) op hv
  | binary op line left right =>
    obtain ⟨line', left', right', rfl, hl, h, h'⟩ := h
    exact (ih.evaluate hL _ _ h).bind fun v v' hv => (ih.evaluate hL _ _ h').bind fun u u' hu =>
      binary_inStep (.intro hL hl) op hv hu
  | logical op left right =>
    obtain ⟨left', right', rfl, h, h'⟩ := h
    refine (ih.evaluate hL _ _ h).bind fun v v' hv => ?_
    rw [op.decidedBy_of_like hv]
    split
    · exact .pure hv
    · exact ih.evaluate hL _ _ h'
  | ternary condition thenBranch elseBranch =>
    obtain ⟨condition', thenBranch', elseBranch', rfl, h, h', h''⟩ := h
    refine (ih.evaluate hL _ _ h).bind fun v v' hv => ?_
    rw [hv.isTruthy_eq]
    split
    · exact ih.evaluate hL _ _ h'
    · exact ih.evaluate hL _ _ h''
  | comma left right =>
    obtain ⟨left', right', rfl, h, h'⟩ := h
    exact (ih.evaluate hL _ _ h).bind fun _ _ _ => ih.evaluate hL _ _ h'
  | «variable» o =>
    obtain ⟨o', rfl, ho⟩ := h
    exact readVariable_inStep ho.name.text (.intro hL ho.name.line) hL ho.id
  | assign o value =>
    obtain ⟨o', value', rfl, ho, h⟩ := h
    exact (ih.evaluate hL _ _ h).bind fun v v' hv =>
      (writeVariable_inStep hL ho hv).bind fun _ _ _ => .pure hv
  | call callee line arguments =>
    obtain ⟨callee', line', arguments', rfl, h, hl, h'⟩ := h
    refine (ih.evaluate hL _ _ h).bind fun v v' hv =>
      (ih.evaluateAll hL _ _ h').bind fun vs vs' hvs => ?_
    rw [← hvs.length_eq]
    have hl := Lines.intro hL hl
    exact (callableOf_inStep hl hv vs.length).bind fun c c' hc => ih.call _ _ _ _ _ _ hc hvs hl
  | get object name =>
    obtain ⟨object', name', rfl, h, hn⟩ := h
    have hl := Lines.intro hL hn.line
    exact (ih.evaluate hL _ _ h).bind fun v v' hv =>
      (propertyOfValue_inStep hn.text hl hv).bind fun _ _ hp => ih.readProperty _ _ _ _ hp hl
  | set object name value =>
    obtain ⟨object', name', value', rfl, h, hn, h'⟩ := h
    have hl := Lines.intro hL hn.line
    refine (ih.evaluate hL _ _ h).bind fun v v' hv =>
      (instanceOf_inStep hl hv).bind fun i i' hi => (ih.evaluate hL _ _ h').bind fun u u' hu => ?_
    rw [hn.text]
    exact (setField_inStep hi name.text hu).bind fun _ _ _ => .pure hu
  | this id line =>
    obtain ⟨id', line', rfl, hid, hl⟩ := h
    have ht : (⟨"this", line'⟩ : Name).text = (⟨"this", line⟩ : Name).text := rfl
    exact readVariable_inStep ht (.intro hL hl) hL hid
  | super id line method =>
    obtain ⟨id', line', method', rfl, hid, hl, hn⟩ := h
    have hl' := Lines.intro hL hn.line
    exact (superOf_inStep hL hid (.intro hL hl)).bind fun r r' hr =>
      (superPropertyOf_inStep hn.text hl' hr.1 hr.2).bind fun _ _ hp =>
        ih.readProperty _ _ _ _ hp hl'
  | lambda f =>
    obtain ⟨f', rfl, h⟩ := h
    exact (declareFunction_inStep hL h).bind fun _ _ hc => .pure (.callable hc)

theorem evaluateAll_succ (es es' : List Expr) (h : exprsLike L es es') :
    InStep K before (List.Forall₂ (Value.Like K)) (Eval.evaluateAll (fuel + 1) es)
      (Eval.evaluateAll (fuel + 1) es') := by
  cases es with
  | nil =>
    cases h
    exact .pure .nil
  | cons e es =>
    obtain ⟨e', es', rfl, h, h'⟩ := h
    exact (ih.evaluate hL _ _ h).bind fun v v' hv =>
      (ih.evaluateAll hL _ _ h').bind fun vs vs' hvs => .pure (.cons hv hvs)

omit hL in
theorem readProperty_succ (property property' : Property) (line line' : Nat)
    (h : property.Like K property') (hl : Lines K line line') :
    InStep K before (Value.Like K) (Eval.readProperty (fuel + 1) property line)
      (Eval.readProperty (fuel + 1) property' line') := by
  cases h with
  | value h => exact .pure h
  | getter h => exact (newFunction_inStep h).bind fun c c' hc => ih.call _ _ _ _ _ _ hc .nil hl

omit hL in
theorem call_succ (c c' : Callable) (vs vs' : List Value) (line line' : Nat) (h : c.Like K c')
    (hvs : List.Forall₂ (Value.Like K) vs vs') (hl : Lines K line line') :
    InStep K before (Value.Like K) (Eval.call (fuel + 1) c vs line)
      (Eval.call (fuel + 1) c' vs' line') := by
  refine (checkDepth_inStep hl).bind fun _ _ _ => ?_
  cases h with
  | function h => exact nested_inStep (ih.run _ _ _ _ h hvs)
  | «class» h => exact nested_inStep (ih.construct _ _ _ _ h hvs)
  | native => exact nested_inStep (runNative_inStep hl _ hvs)

omit hL in
theorem run_succ (c c' : Closure) (vs vs' : List Value) (h : c.Like K c')
    (hvs : List.Forall₂ (Value.Like K) vs vs') :
    InStep K before (Value.Like K) (Eval.run (fuel + 1) c vs) (Eval.run (fuel + 1) c' vs') := by
  obtain ⟨L, hL, hf⟩ := h.function
  obtain ⟨⟨name?, parameters, body, line⟩, environment, isInitializer⟩ := c
  obtain ⟨function', environment', isInitializer'⟩ := c'
  obtain rfl : environment' = environment := h.environment
  obtain ⟨-, name?', parameters', body', line', rfl, -, hp, hb, -⟩ := hf
  have ht : Table.Rel (Value.Like K) (parameterTable parameters vs)
    (parameterTable parameters' vs') := parameterTable_rel hp hvs
  refine (openScope_inStep environment' ht).bind fun inner _ he => ?_
  subst he
  exact (within_inStep inner (ih.executeAll hL body body' hb)).bind fun _ _ hf =>
    resultOf_inStep h hf

omit hL in
theorem construct_succ (c c' : ClassValue) (vs vs' : List Value) (h : c.Like K c')
    (hvs : List.Forall₂ (Value.Like K) vs vs') :
    InStep K before (Value.Like K) (Eval.construct (fuel + 1) c vs)
      (Eval.construct (fuel + 1) c' vs') := by
  refine (newInstance_inStep h).bind fun i i' hi => ?_
  have hm : Option.Rel (Closure.Like K) c.initializer? c'.initializer? := h.method? "init"
  generalize c.initializer? = m? at hm
  generalize c'.initializer? = m'? at hm
  cases hm with
  | none => exact .pure (.instance hi)
  | some hm =>
    exact (bindThis_inStep hm hi).bind fun _ _ hc => (ih.run _ _ _ _ hc hvs).bind fun _ _ _ =>
      .pure (.instance hi)

theorem execute_succ (s s' : Stmt) (h : s.Like L s') :
    InStep K before (Flow.Like K) (Eval.execute (fuel + 1) s) (Eval.execute (fuel + 1) s') := by
  cases s with
  | expression e =>
    obtain ⟨e', rfl, h⟩ := h
    exact (ih.evaluate hL _ _ h).bind fun _ _ _ => .pure .normal
  | print e =>
    obtain ⟨e', rfl, h⟩ := h
    refine (ih.evaluate hL _ _ h).bind fun v v' hv => ?_
    rw [hv.text_eq]
    exact (print_inStep v.text).bind fun _ _ _ => .pure .normal
  | var name initializer? =>
    cases initializer? with
    | none =>
      obtain ⟨name', rfl, hn⟩ := h
      have hd : InStep K before (fun _ _ => True) (define name.text .nil)
          (define name'.text .nil) := by
        rw [hn.text]
        exact define_inStep name.text .nil
      exact hd.bind fun _ _ _ => .pure .normal
    | some e =>
      obtain ⟨name', e', rfl, hn, h⟩ := h
      refine (ih.evaluate hL _ _ h).bind fun v v' hv => ?_
      rw [hn.text]
      exact (define_inStep name.text hv).bind fun _ _ _ => .pure .normal
  | block body =>
    obtain ⟨body', rfl, h⟩ := h
    refine Lockstep.get.bind fun m m' hm => ?_
    rw [hm.environment]
    refine (openScope_inStep m.environment .empty).bind fun inner _ he => ?_
    subst he
    exact within_inStep inner (ih.executeAll hL _ _ h)
  | «if» condition thenBranch elseBranch? =>
    cases elseBranch? with
    | none =>
      obtain ⟨condition', thenBranch', rfl, h, h'⟩ := h
      refine (ih.evaluate hL _ _ h).bind fun v v' hv => ?_
      rw [hv.isTruthy_eq]
      split
      · exact ih.execute hL _ _ h'
      · exact .pure .normal
    | some elseBranch =>
      obtain ⟨condition', thenBranch', elseBranch', rfl, h, h', h''⟩ := h
      refine (ih.evaluate hL _ _ h).bind fun v v' hv => ?_
      rw [hv.isTruthy_eq]
      split
      · exact ih.execute hL _ _ h'
      · exact ih.execute hL _ _ h''
  | «while» condition body increment? =>
    cases increment? with
    | none =>
      obtain ⟨condition', body', rfl, h, h'⟩ := h
      exact ih.loop hL _ _ _ _ _ _ h h' .none
    | some increment =>
      obtain ⟨condition', body', increment', rfl, h, h', h''⟩ := h
      exact ih.loop hL _ _ _ _ _ _ h h' (.some h'')
  | function f =>
    obtain ⟨f', rfl, h⟩ := h
    refine (declareFunction_inStep hL h).bind fun c c' hc => ?_
    rw [h.displayName_eq]
    exact (define_inStep f.displayName (.callable hc)).bind fun _ _ _ => .pure .normal
  | «class» c =>
    obtain ⟨c', rfl, h⟩ := h
    exact (declareClass_inStep hL h).bind fun _ _ _ => .pure .normal
  | «return» line value? =>
    cases value? with
    | none =>
      obtain ⟨line', rfl, -⟩ := h
      exact .pure (.return .nil)
    | some e =>
      obtain ⟨line', e', rfl, -, h⟩ := h
      exact (ih.evaluate hL _ _ h).bind fun v v' hv => .pure (.return hv)
  | «break» line =>
    obtain ⟨line', rfl, -⟩ := h
    exact .pure .break
  | «continue» line =>
    obtain ⟨line', rfl, -⟩ := h
    exact .pure .continue

theorem loop_succ (condition condition' : Expr) (body body' : Stmt)
    (increment? increment'? : Option Expr) (hc : condition.Like L condition')
    (hb : body.Like L body') (hi : Option.Rel (Expr.Like L) increment? increment'?) :
    InStep K before (Flow.Like K) (Eval.loop (fuel + 1) condition body increment?)
      (Eval.loop (fuel + 1) condition' body' increment'?) := by
  have again := ih.loop hL _ _ _ _ _ _ hc hb hi
  refine (ih.evaluate hL _ _ hc).bind fun v v' hv => ?_
  rw [hv.isTruthy_eq]
  split
  · refine (ih.execute hL _ _ hb).bind fun flow flow' hf => ?_
    cases hi with
    | none =>
      cases hf with
      | normal => exact again
      | «continue» => exact again
      | «return» hv => exact .pure (.return hv)
      | «break» => exact .pure .normal
    | some hi =>
      have again := (ih.evaluate hL _ _ hi).bind fun _ _ _ => again
      cases hf with
      | normal => exact again
      | «continue» => exact again
      | «return» hv => exact .pure (.return hv)
      | «break» => exact .pure .normal
  · exact .pure .normal

theorem executeAll_succ (ss ss' : List Stmt) (h : stmtsLike L ss ss') :
    InStep K before (Flow.Like K) (Eval.executeAll (fuel + 1) ss)
      (Eval.executeAll (fuel + 1) ss') := by
  cases ss with
  | nil =>
    cases h
    exact .pure .normal
  | cons s ss =>
    obtain ⟨s', ss', rfl, h, h'⟩ := h
    refine (ih.execute hL _ _ h).bind fun flow flow' hf => ?_
    cases hf with
    | normal => exact ih.executeAll hL _ _ h'
    | «return» hv => exact .pure (.return hv)
    | «break» => exact .pure .break
    | «continue» => exact .pure .continue

end GoInStep

/-- On like machines like code runs in step, whatever the fuel. -/
theorem goInStep (K : Likeness → Prop) (before : Array String) (fuel : Nat) :
    GoInStep K before fuel := by
  induction fuel with
  | zero => exact .zero
  | succ fuel ih =>
    exact {
      evaluate := fun hL => ih.evaluate_succ hL
      evaluateAll := fun hL => ih.evaluateAll_succ hL
      readProperty := ih.readProperty_succ
      call := ih.call_succ
      run := ih.run_succ
      construct := ih.construct_succ
      execute := fun hL => ih.execute_succ hL
      loop := fun hL => ih.loop_succ hL
      executeAll := fun hL => ih.executeAll_succ hL }

end Eval

end LoxLang
