import LoxLang.Proofs.Lexical.Members

/-!
A machine and a lexical run go through a program side by side. With any fuel every function of the
evaluator agrees with its lexical counterpart, by induction on the fuel.
-/

namespace LoxLang

variable {P : Mention → Prop} {D : Distances} {p q : Position} {w w₁ : World} {m : Machine}
  {s : Lexical.State}

/-- The position behind a statement. -/
def Position.after (p : Position) (s : Stmt) : Position :=
  { p with frames := s.after p.frames }

theorem Position.after_of_none {s : Stmt} (h : s.declared? = none) : p.after s = p :=
  congrArg (fun frames => { p with frames := frames }) (Stmt.after_of_none h p.frames)

theorem Position.place_after (p : Position) (s : Stmt) : (p.after s).place = p.place := by
  unfold Position.place Position.after Stmt.after
  cases s.declared? with
  | none => rfl
  | some name => cases p.frames <;> rfl

theorem Stands.around {around : Surroundings} (h : Stands P D p w m s)
    (hc : around.class = p.around.class) : Stands P D { p with around := around } w m s :=
  ⟨h.linked, h.matched, h.enclosed.of_class hc, h.innermost, h.current, h.pending⟩

theorem Ended.inside {pending : List (Nat × String)} (h : Ended P D pending w m s)
    (environment cells : Environment) :
    Ended P D pending w (m.inside environment) (s.inside cells) :=
  ⟨h.linked.inside environment cells, h.pending⟩

section

variable {α : Type} {environment : Environment} {y : Lexical α} {s₁ : Lexical.State}

theorem Lexical.within_ok {a : α} (h : y (s.inside environment) = .ok a s₁) :
    Lexical.within environment y s = .ok a (s₁.inside s.machine.environment) := by
  unfold Lexical.State.inside at h
  rw [Lexical.within, h]
  rfl

theorem Lexical.within_error {e : Stop} (h : y (s.inside environment) = .error e s₁) :
    Lexical.within environment y s = .error e (s₁.inside s.machine.environment) := by
  unfold Lexical.State.inside at h
  rw [Lexical.within, h]
  rfl

end

/-- Both runs put their environment back behind a body that has gone on in a scope of its own. -/
theorem Agrees.within {environment cells : Environment} {x : Eval Flow} {y : Lexical Flow} {n : Nat}
    (hs : Stands P D p w₁ m s) (hw : w.scopes ≤ w₁.scopes) (hp : p.scope < w.scopes)
    (hn : w.scopes ≤ n)
    (h : Agrees P D (w₁.Ahead n) w₁
      (fun w' f m' f' s' => FlowRelated P w' f f' ∧ Ended P D p.pending w' m' s')
      (x (m.inside environment)) (y (s.inside cells))) :
    Agrees P D (w.Ahead p.scope) w₁
      (fun w' f m' f' s' => FlowRelated P w' f f' ∧ Stands P D p w' m' s')
      (Eval.within environment x m) (Lexical.within cells y s) := by
  rcases h.cases with ⟨f, m₁, f', s₁, w₂, hx, hy, hw₂, hf, he⟩ | ⟨e, m₁, s₁, w₂, hx, hy, hw₂, hl⟩
  · rw [Eval.within_ok hx, Lexical.within_ok hy]
    have hother : ¬ w₁.Ahead n p.scope := by
      unfold World.Ahead
      omega
    refine ⟨w₂, hw₂.widen fun k hk => .inr ?_, hf, hs.later (he.inside _ _) hw₂ hother rfl rfl⟩
    unfold World.Ahead at hk
    omega
  · rw [Eval.within_error hx, Lexical.within_error hy]
    exact ⟨rfl, w₂, hw₂, hl.inside _ _⟩

/-- What a call opens: a scope with the parameters, where the body stands, inside the environment
of the function. The caller keeps its position. -/
structure Called (P : Mention → Prop) (D : Distances) (p q : Position) (w w₁ : World)
    (c c' : Closure) (vs vs' : List Value) (m m₁ : Machine) (s s₁ : Lexical.State)
    (environment cells : Environment) : Prop where
  opened : Eval.openScope c.environment (parameterTable c.function.parameters vs) m =
    .ok environment m₁
  extended : Lexical.extended c'.environment
    ((c.function.parameters.map Name.text).zip vs') s = .ok cells s₁
  grows : World.Grows (· = w.scopes) w w₁
  caller : Stands P D p w₁ m₁ s₁
  body : Stands P D q w₁ (m₁.inside environment) (s₁.inside cells)
  scope : q.scope = w.scopes
  pending : q.pending = p.pending
  place : q.place = .inside
  formed : stmtsFormed c.function.body
  mentions : ∀ m ∈ stmtsMentions q.around q.frames c.function.body, P m

theorem Stands.called (hs : Stands P D p w m s) (hP : ∀ m, P m → m.Allowed ∧ m.Placed D)
    {c c' : Closure} {vs vs' : List Value} (hc : FunctionRelated P w c c')
    (hvs : List.Forall₂ (ValueRelated P w) vs vs') (hlength : vs.length = c.arity) :
    ∃ q w₁ environment cells m₁ s₁,
      Called P D p q w w₁ c c' vs vs' m m₁ s s₁ environment cells := by
  obtain ⟨around, kind, frames, hmatch, henclosed, hm, -⟩ := hc.matched
  obtain ⟨⟨name?, parameters, body, line⟩, environment, isInitializer⟩ := c
  obtain ⟨f', environment', isInitializer'⟩ := c'
  obtain ⟨hplain, hbody⟩ : (∀ q ∈ parameters, q.Plain) ∧ stmtsFormed body := hc.formed
  obtain ⟨hmp, hmb⟩ := List.forall_mem_append.mp hm
  obtain ⟨w₁, cells, cellEnvironment, hextended, hgrows, hq⟩ :=
    (Stands.entered around hs.linked hs.pending hmatch henclosed).parameters parameters vs vs' rfl
      (hvs.imp fun _ _ => ValueRelated.mono (fun _ => id) World.le_opened) hlength hplain
      fun m hm => (hP m (hmp m hm)).1
  have hgrows : World.Grows (· = w.scopes) w w₁ := (World.grows_opened _).trans hgrows
  have hnext := hs.linked.cells.next
  have hput := m.scopes.putAll_push (parameters.zip vs) .empty
  rw [hnext] at hput
  obtain ⟨frame, hinBody⟩ := frames.exists_inBody parameters
  refine ⟨⟨{ around with body := kind, inLoop := false }, frames.inBody parameters, w.scopes,
    p.pending⟩, w₁, w.scopes :: environment, cellEnvironment,
    { m with scopes := m.scopes.push (parameterTable parameters vs) }, ⟨s.machine, cells⟩,
    ?_, hextended s.machine, hgrows, ?_, ?_, rfl, rfl, ?_, hbody, hmb⟩
  · rw [← hnext]
    rfl
  · have hl := hq.linked.inside m.environment s.machine.environment
    refine hs.later ⟨?_, hq.pending⟩ hgrows (Nat.ne_of_lt hs.scope_lt) rfl rfl
    rw [parameterTable, ← hput]
    exact hl
  · rw [parameterTable, ← hput]
    exact hq.around rfl
  · simp only [Position.place, hinBody]

variable (P D)

/-- Lists of statements that agree, wherever in the list they end. -/
def ListSimulated (p : Position) (w : World) (x : Eval Flow) (y : Lexical Flow) : Prop :=
  ∀ m s, Stands P D p w m s → Agrees P D (w.Ahead p.scope) w
    (fun w' f m' f' s' => FlowRelated P w' f f' ∧ Ended P D p.pending w' m' s') (x m) (y s)

/-- With this fuel, every function of the evaluator agrees with its lexical counterpart. -/
structure Simulates (fuel : Nat) : Prop where
  evaluate : ∀ p w (e : Expr), e.Formed → (∀ m ∈ e.mentions p.around p.frames, P m) →
    Simulated P D p p w (ValueRelated P) (Eval.evaluate fuel e) (Lexical.evaluate fuel e)
  evaluateAll : ∀ p w (es : List Expr), exprsFormed es →
    (∀ m ∈ exprsMentions p.around p.frames es, P m) →
    Simulated P D p p w (fun w => List.Forall₂ (ValueRelated P w)) (Eval.evaluateAll fuel es)
      (Lexical.evaluateAll fuel es)
  readProperty : ∀ p w property property' line, PropertyRelated P w property property' →
    Simulated P D p p w (ValueRelated P) (Eval.readProperty fuel property line)
      (Lexical.readProperty fuel property' line)
  call : ∀ p w c c' vs vs' line, CallableRelated P w c c' →
    List.Forall₂ (ValueRelated P w) vs vs' → vs.length = c.arity →
    Simulated P D p p w (ValueRelated P) (Eval.call fuel c vs line) (Lexical.call fuel c' vs' line)
  run : ∀ p w c c' vs vs', FunctionRelated P w c c' → List.Forall₂ (ValueRelated P w) vs vs' →
    vs.length = c.arity →
    Simulated P D p p w (ValueRelated P) (Eval.run fuel c vs) (Lexical.run fuel c' vs')
  construct : ∀ p w c c' vs vs', ClassRelated P w c c' → List.Forall₂ (ValueRelated P w) vs vs' →
    vs.length = (Callable.class c).arity →
    Simulated P D p p w (ValueRelated P) (Eval.construct fuel c vs) (Lexical.construct fuel c' vs')
  execute : ∀ p w (stmt : Stmt), stmt.Formed → (∀ m ∈ stmt.mentions p.around p.frames, P m) →
    Simulated P D p (p.after stmt) w (FlowRelated P) (Eval.execute fuel stmt)
      (Lexical.execute fuel p.place stmt)
  loop : ∀ p w condition body increment?, (Stmt.while condition body increment?).Formed →
    (∀ m ∈ (Stmt.while condition body increment?).mentions p.around p.frames, P m) →
    Simulated P D p p w (FlowRelated P) (Eval.loop fuel condition body increment?)
      (Lexical.loop fuel p.place condition body increment?)
  executeAll : ∀ p w (ss : List Stmt), stmtsFormed ss →
    (∀ m ∈ stmtsMentions p.around p.frames ss, P m) →
    ListSimulated P D p w (Eval.executeAll fuel ss) (Lexical.executeAll fuel p.place ss)

theorem Simulates.zero : Simulates P D 0 where
  evaluate _ _ _ _ _ := .exhausted
  evaluateAll _ _ _ _ _ := .exhausted
  readProperty _ _ _ _ _ _ := .exhausted
  call _ _ _ _ _ _ _ _ _ _ := .exhausted
  run _ _ _ _ _ _ _ _ _ := .exhausted
  construct _ _ _ _ _ _ _ _ _ := .exhausted
  execute _ _ _ _ _ := .exhausted
  loop _ _ _ _ _ _ _ := .exhausted
  executeAll _ w _ _ _ _ _ hs := ⟨rfl, w, w.le_refl, hs.linked⟩

variable {P D} {fuel : Nat}

namespace Simulates

section

variable (h : Simulates P D fuel) (hP : ∀ m, P m → m.Allowed ∧ m.Placed D)

include h hP in
theorem evaluate_succ (p : Position) (w : World) (e : Expr) (hf : e.Formed)
    (hm : ∀ m ∈ e.mentions p.around p.frames, P m) :
    Simulated P D p p w (ValueRelated P) (Eval.evaluate (fuel + 1) e)
      (Lexical.evaluate (fuel + 1) e) := by
  cases e with
  | literal l => exact .pure (by cases l <;> constructor)
  | group inner => exact h.evaluate p w inner hf hm
  | unary op line operand =>
    refine (h.evaluate p w operand hf hm).bind rfl fun w₁ v v' _ hv => ?_
    exact .lift (op.apply_parallel hv)
  | binary op line left right =>
    obtain ⟨hml, hmr⟩ := List.forall_mem_append.mp hm
    refine (h.evaluate p w left hf.1 hml).bind rfl fun w₁ v v' _ hv => ?_
    refine (h.evaluate p w₁ right hf.2 hmr).bind rfl fun w₂ u u' hw hu => ?_
    exact .lift (op.apply_parallel (hv.mono (fun _ => id) hw) hu)
  | logical op left right =>
    obtain ⟨hml, hmr⟩ := List.forall_mem_append.mp hm
    refine (h.evaluate p w left hf.1 hml).bind rfl fun w₁ v v' _ hv => ?_
    rw [op.decidedBy_eq hv]
    split
    · exact .pure hv
    · exact h.evaluate p w₁ right hf.2 hmr
  | ternary condition thenBranch elseBranch =>
    obtain ⟨hmc, hm⟩ := List.forall_mem_append.mp hm
    obtain ⟨hmt, hme⟩ := List.forall_mem_append.mp hm
    refine (h.evaluate p w condition hf.1 hmc).bind rfl fun w₁ v v' _ hv => ?_
    rw [hv.isTruthy_eq]
    split
    · exact h.evaluate p w₁ thenBranch hf.2.1 hmt
    · exact h.evaluate p w₁ elseBranch hf.2.2 hme
  | comma left right =>
    obtain ⟨hml, hmr⟩ := List.forall_mem_append.mp hm
    refine (h.evaluate p w left hf.1 hml).bind rfl fun w₁ _ _ _ _ => ?_
    exact h.evaluate p w₁ right hf.2 hmr
  | «variable» o =>
    obtain ⟨-, hplaced⟩ := hP _ (hm _ List.mem_cons_self)
    exact readVariable_simulated o.name (hplaced o.id rfl)
  | assign o value =>
    obtain ⟨hmv, hmo⟩ := List.forall_mem_append.mp hm
    obtain ⟨-, hplaced⟩ := hP _ (hmo _ List.mem_cons_self)
    refine (h.evaluate p w value hf.2 hmv).bind rfl fun w₁ v v' _ hv => ?_
    refine (writeVariable_simulated o hf.1.declarable (hplaced o.id rfl) hv).bind rfl
      fun w₂ _ _ hw _ => ?_
    exact .pure (hv.mono (fun _ => id) hw)
  | call callee line arguments =>
    obtain ⟨hmc, hma⟩ := List.forall_mem_append.mp hm
    refine (h.evaluate p w callee hf.1 hmc).bind rfl fun w₁ v v' _ hv => ?_
    refine (h.evaluateAll p w₁ arguments hf.2 hma).bind rfl fun w₂ vs vs' hw hvs => ?_
    rw [← hvs.length_eq]
    refine (Simulated.lift (V := fun w c c' => CallableRelated P w c c' ∧ vs.length = c.arity)
      (Eval.callableOf_parallel (hv.mono (fun _ => id) hw) vs.length line)).bind rfl ?_
    intro w₃ c c' hw₃ ⟨hc, hlength⟩
    exact h.call p w₃ c c' vs vs' line hc (hvs.imp fun _ _ => ValueRelated.mono (fun _ => id) hw₃)
      hlength
  | get object name =>
    refine (h.evaluate p w object hf.1 hm).bind rfl fun w₁ v v' _ hv => ?_
    refine (propertyOfValue_simulated hv name).bind rfl fun w₂ property property' _ hp => ?_
    exact h.readProperty p w₂ property property' name.line hp
  | set object name value =>
    obtain ⟨hmv, hmo⟩ := List.forall_mem_append.mp hm
    refine (h.evaluate p w object hf.1 hmo).bind rfl fun w₁ o o' _ ho => ?_
    refine (Simulated.lift (V := InstanceRelated P) (Eval.instanceOf_parallel ho name)).bind rfl ?_
    intro w₂ i i' _ hi
    refine (h.evaluate p w₂ value hf.2.1 hmv).bind rfl fun w₃ v v' hw₃ hv => ?_
    refine (Simulated.lift (V := fun _ _ _ => True) ?_).bind rfl fun w₄ _ _ hw₄ _ => ?_
    · exact (Eval.setField_parallel (hi.mono (fun _ => id) hw₃) name.text hv).weaken
        fun _ _ _ => trivial
    · exact .pure (hv.mono (fun _ => id) hw₄)
  | this id line =>
    obtain ⟨-, hplaced⟩ := hP _ (hm _ List.mem_cons_self)
    exact readVariable_simulated ⟨"this", line⟩ (hplaced id rfl)
  | super id line method =>
    obtain ⟨hallowed, hplaced⟩ := hP _ (hm _ List.mem_cons_self)
    refine (superOf_simulated hallowed (hplaced id rfl)).bind rfl fun w₁ r r' _ hr => ?_
    refine (superPropertyOf_simulated hr method).bind rfl fun w₂ property property' _ hp => ?_
    exact h.readProperty p w₂ property property' method.line hp
  | lambda f =>
    refine (declareFunction_simulated hf hm).bind rfl fun w₁ c c' _ hc => ?_
    exact .pure (.callable hc)

include h in
theorem evaluateAll_succ (p : Position) (w : World) (es : List Expr) (hf : exprsFormed es)
    (hm : ∀ m ∈ exprsMentions p.around p.frames es, P m) :
    Simulated P D p p w (fun w => List.Forall₂ (ValueRelated P w))
      (Eval.evaluateAll (fuel + 1) es) (Lexical.evaluateAll (fuel + 1) es) := by
  cases es with
  | nil => exact .pure .nil
  | cons e es =>
    obtain ⟨hme, hms⟩ := List.forall_mem_append.mp hm
    refine (h.evaluate p w e hf.1 hme).bind rfl fun w₁ v v' _ hv => ?_
    refine (h.evaluateAll p w₁ es hf.2 hms).bind rfl fun w₂ vs vs' hw hvs => ?_
    exact .pure (.cons (hv.mono (fun _ => id) hw) hvs)

include h in
theorem readProperty_succ (p : Position) (w : World) (property property' : Eval.Property)
    (line : Nat) (hp : PropertyRelated P w property property') :
    Simulated P D p p w (ValueRelated P) (Eval.readProperty (fuel + 1) property line)
      (Lexical.readProperty (fuel + 1) property' line) := by
  cases hp with
  | value hv => exact .pure hv
  | getter hc hn =>
    have harity := congrArg List.length hn
    refine (Simulated.lift (V := fun w c c' => CallableRelated P w c c' ∧ c.arity = 0)
      ((Eval.newFunction_parallel hc).weaken fun _ _ h => ⟨h.1, h.2.trans harity⟩)).bind rfl ?_
    exact fun w₁ c c' _ hc => h.call p w₁ c c' [] [] line hc.1 .nil hc.2.symm

include h in
theorem call_succ (p : Position) (w : World) (c c' : Callable) (vs vs' : List Value) (line : Nat)
    (hc : CallableRelated P w c c') (hvs : List.Forall₂ (ValueRelated P w) vs vs')
    (hlength : vs.length = c.arity) :
    Simulated P D p p w (ValueRelated P) (Eval.call (fuel + 1) c vs line)
      (Lexical.call (fuel + 1) c' vs' line) := by
  refine (Simulated.lift (V := fun _ _ _ => True)
    ((Eval.checkDepth_parallel line).weaken fun _ _ _ => trivial)).bind rfl fun w₁ _ _ hw _ => ?_
  have hvs : List.Forall₂ (ValueRelated P w₁) vs vs' :=
    hvs.imp fun _ _ => ValueRelated.mono (fun _ => id) hw
  cases hc with
  | function hc =>
    exact (h.run p w₁ _ _ vs vs' (hc.mono (fun _ => id) hw) hvs hlength).nested
  | «class» hc =>
    exact (h.construct p w₁ _ _ vs vs' (hc.mono (fun _ => id) hw) hvs hlength).nested
  | native => exact (Simulated.lift (Eval.runNative_parallel _ hvs line)).nested

include h in
/-- The body of a call, behind which the caller stands where it stood. -/
theorem called {q : Position} {c c' : Closure} {vs vs' : List Value} {m₁ : Machine}
    {s₁ : Lexical.State} {environment cells : Environment} (hs : Stands P D p w m s)
    (hb : Called P D p q w w₁ c c' vs vs' m m₁ s s₁ environment cells) :
    Agrees P D (w.Ahead p.scope) w₁
      (fun w' f m' f' s' => FlowRelated P w' f f' ∧ Stands P D p w' m' s')
      (Eval.within environment (Eval.executeAll fuel c.function.body) m₁)
      (Lexical.within cells (Lexical.executeAll fuel .inside c.function.body) s₁) := by
  have hexecute := h.executeAll q w₁ c.function.body hb.formed hb.mentions _ _ hb.body
  rw [hb.place, hb.pending] at hexecute
  have hscope : w.scopes ≤ q.scope := Nat.le_of_eq hb.scope.symm
  exact Agrees.within hb.caller hb.grows.le.scopes hs.scope_lt hscope hexecute

include h hP in
theorem run_succ (p : Position) (w : World) (c c' : Closure) (vs vs' : List Value)
    (hc : FunctionRelated P w c c') (hvs : List.Forall₂ (ValueRelated P w) vs vs')
    (hlength : vs.length = c.arity) :
    Simulated P D p p w (ValueRelated P) (Eval.run (fuel + 1) c vs)
      (Lexical.run (fuel + 1) c' vs') := by
  intro m s hs
  obtain ⟨q, w₁, environment, cells, m₁, s₁, hb⟩ := hs.called hP hc hvs hlength
  simp only [Eval.run, Lexical.run, hc.function, Fueled.bind_ok hb.opened,
    Fueled.bind_ok hb.extended]
  apply Agrees.since (hb.grows.widen World.ahead_of_eq)
  refine (h.called hs hb).bind fun w₂ flow m₂ flow' s₂ hw₂ ⟨hflow, hs₂⟩ => ?_
  have hw := World.le_trans hb.grows.le hw₂.le
  exact (resultOf_simulated (hc.mono (fun _ => id) hw) hflow m₂ s₂ hs₂).weaken
    (fun _ hn => hn.imp id (Nat.le_trans hw.scopes)) fun _ _ _ _ _ _ h => h

include h in
theorem construct_succ (p : Position) (w : World) (c c' : ClassValue) (vs vs' : List Value)
    (hc : ClassRelated P w c c') (hvs : List.Forall₂ (ValueRelated P w) vs vs')
    (hlength : vs.length = (Callable.class c).arity) :
    Simulated P D p p w (ValueRelated P) (Eval.construct (fuel + 1) c vs)
      (Lexical.construct (fuel + 1) c' vs') := by
  refine (Simulated.lift (V := InstanceRelated P) (Eval.newInstance_parallel hc)).bind rfl ?_
  intro w₁ i i' hw hi
  have hm := (hc.mono (fun _ => id) hw).method? "init"
  have harity : vs.length = ((c.method? "init").map Closure.arity).getD 0 := hlength
  unfold ClassValue.initializer?
  generalize c.method? "init" = f at hm harity
  generalize c'.method? "init" = f' at hm
  cases hm with
  | none => exact .pure (.instance hi)
  | some hm =>
    refine (bindThis_simulated hm hi).bind rfl fun w₂ b b' hw₂ ⟨hb, hfunction⟩ => ?_
    have hvs := hvs.imp fun _ _ => ValueRelated.mono (fun _ => id) (World.le_trans hw hw₂)
    have hlength : vs.length = b.arity := by
      rw [Closure.arity, hfunction]
      exact harity
    refine (h.run p w₂ b b' vs vs' hb hvs hlength).bind rfl fun w₃ _ _ hw₃ _ => ?_
    exact .pure (.instance (hi.mono (fun _ => id) (World.le_trans hw₂ hw₃)))

include h hP in
theorem var_succ (p : Position) (w : World) (name : Name) (initializer : Expr)
    (hf : (Stmt.var name (some initializer)).Formed)
    (hm : ∀ m ∈ (Stmt.var name (some initializer)).mentions p.around p.frames, P m) :
    Simulated P D p (p.after (.var name (some initializer))) w (FlowRelated P)
      (Eval.execute (fuel + 1) (.var name (some initializer)))
      (Lexical.execute (fuel + 1) p.place (.var name (some initializer))) := by
  obtain ⟨hplain, hinitializer⟩ : name.Plain ∧ initializer.Formed := hf
  have hname := hplain.declarable
  obtain ⟨hdeclare, hm⟩ := List.forall_mem_cons.mp hm
  intro m s hs
  obtain ⟨cell?, w₁, s₁, hdeclared, hw₁, hs₁, hslot⟩ := hs.declare (hP _ hdeclare).1 hname
  simp only [Eval.execute, Lexical.execute, Fueled.bind_ok hdeclared]
  apply Agrees.since hw₁
  have hahead : ∀ n, w₁.Ahead (p.declared name.text).scope n → w.Ahead p.scope n :=
    fun n hn => hn.imp id (Nat.le_trans hw₁.le.scopes)
  refine ((h.evaluate (p.declared name.text) w₁ initializer hinitializer hm m s₁ hs₁).weaken
    hahead fun _ _ _ _ _ _ h => h).bind fun w₂ v m₂ v' s₂ hw₂ ⟨hv, hs₂⟩ => ?_
  refine (hs₂.define (hslot.mono hw₂.le) hname (hv.mono (fun _ => id) ?_)).bind ?_
  · cases cell? with
    | none => exact w₂.le_refl
    | some cell => exact World.le_filled cell
  · exact fun w₃ _ m₃ _ s₃ _ hs₃ => ⟨w₃, .refl _ w₃, .normal, hs₃.1⟩

include hP in
theorem varNil_succ (p : Position) (w : World) (name : Name) (hf : (Stmt.var name none).Formed)
    (hm : ∀ m ∈ (Stmt.var name none).mentions p.around p.frames, P m) :
    Simulated P D p (p.after (.var name none)) w (FlowRelated P)
      (Eval.execute (fuel + 1) (.var name none))
      (Lexical.execute (fuel + 1) p.place (.var name none)) := by
  have hname : Declarable name.text := Name.Plain.declarable hf
  obtain ⟨hdeclare, -⟩ := List.forall_mem_cons.mp hm
  intro m s hs
  obtain ⟨cell?, w₁, s₁, hdeclared, hw₁, hs₁, hslot⟩ := hs.declare (hP _ hdeclare).1 hname
  simp only [Eval.execute, Lexical.execute, Fueled.bind_ok hdeclared]
  apply Agrees.since hw₁
  refine (hs₁.define hslot hname .nil).bind ?_
  exact fun w₃ _ m₃ _ s₃ _ hs₃ => ⟨w₃, .refl _ w₃, .normal, hs₃.1⟩

include hP in
/-- A function captures its own cell, which is bound once the function is in it. -/
theorem function_succ (p : Position) (w : World) (f : Function) (hf : (Stmt.function f).Formed)
    (hm : ∀ m ∈ (Stmt.function f).mentions p.around p.frames, P m) :
    Simulated P D p (p.after (.function f)) w (FlowRelated P)
      (Eval.execute (fuel + 1) (.function f))
      (Lexical.execute (fuel + 1) p.place (.function f)) := by
  obtain ⟨⟨name, hname?, hplain⟩, hformed⟩ : f.Named ∧ f.Formed := hf
  have hname := hplain.declarable
  have hdisplay : f.displayName = name.text := by
    rw [Function.displayName, hname?]
  simp only [Stmt.mentions, hname?] at hm
  obtain ⟨hdeclare, hm⟩ := List.forall_mem_cons.mp hm
  intro m s hs
  obtain ⟨cell?, w₁, s₁, hdeclared, hw₁, hs₁, hslot⟩ := hs.declare (hP _ hdeclare).1 hname
  have hnew : Eval.declareFunction f m =
      .ok (.function m.nextId ⟨f, m.environment, false⟩) { m with nextId := m.nextId + 1 } := rfl
  have hnew' : Lexical.declareFunction f s₁ =
      .ok (.function m.nextId ⟨f, s₁.machine.environment, false⟩)
        { s₁ with machine := { s₁.machine with nextId := m.nextId + 1 } } := by
    rw [← hs₁.linked.shared.nextId]
    rfl
  have hs₂ : Stands P D (p.declared name.text) w₁ { m with nextId := m.nextId + 1 }
      { s₁ with machine := { s₁.machine with nextId := m.nextId + 1 } } :=
    hs₁.here ⟨hs₁.linked.distances, hs₁.linked.cells,
      hs₁.linked.objects.later w₁.le_refl rfl rfl rfl rfl, { hs₁.linked.shared with nextId := rfl }⟩
      rfl rfl
  have hc : FunctionRelated P (w₁.settled cell?) ⟨f, m.environment, false⟩
      ⟨f, s₁.machine.environment, false⟩ := by
    refine ⟨rfl, rfl, hformed, p.around, .function, _, hs₁.matched_settled hslot, ?_, hm,
      fun hi => absurd hi Bool.false_ne_true⟩
    rw [Frames.introduced_eq]
    exact hs.enclosed.bound hname true
  simp only [Eval.execute, Lexical.execute, hdisplay, Fueled.bind_ok hdeclared,
    Fueled.bind_ok hnew, Fueled.bind_ok hnew']
  apply Agrees.since hw₁
  refine (hs₂.define hslot hname (.callable (.function hc))).bind ?_
  intro w₃ _ m₃ _ s₃ _ hs₃
  refine ⟨w₃, .refl _ w₃, .normal, ?_⟩
  have hafter : p.after (.function f) = p.defined name.text := by
    simp only [Position.after, Stmt.after, Stmt.declared?, hname?, Position.defined]
  rw [hafter]
  exact hs₃.1

include h in
theorem block_succ (p : Position) (w : World) (body : List Stmt) (hf : stmtsFormed body)
    (hm : ∀ m ∈ stmtsMentions p.around (.empty :: p.frames) body, P m) :
    Simulated P D p p w (FlowRelated P) (Eval.execute (fuel + 1) (.block body))
      (Lexical.execute (fuel + 1) p.place (.block body)) := by
  intro m s hs
  have hq := Stands.entered p.around hs.linked hs.pending hs.matched hs.enclosed
  have hgrows : World.Grows (· = w.scopes) w w.opened := World.grows_opened _
  have hs₁ : Stands P D p w.opened { m with scopes := m.scopes.push .empty } s := by
    have hl := hq.linked.inside m.environment s.machine.environment
    exact hs.later ⟨hl, hq.pending⟩ hgrows (Nat.ne_of_lt hs.scope_lt) rfl rfl
  have hopen : Eval.openScope m.environment .empty m =
      .ok (w.scopes :: m.environment) { m with scopes := m.scopes.push .empty } := by
    rw [← hs.linked.cells.next]
    rfl
  show Agrees P D _ w _ ((Eval.openScope m.environment .empty >>= fun environment =>
    Eval.within environment (Eval.executeAll fuel body)) m)
    (Lexical.within s.machine.environment (Lexical.executeAll fuel .inside body) s)
  rw [Fueled.bind_ok hopen]
  apply Agrees.since (hgrows.widen World.ahead_of_eq)
  exact Agrees.within hs₁ hgrows.le.scopes hs.scope_lt (Nat.le_refl _)
    (h.executeAll _ w.opened body hf hm _ _ hq)

include h hP in
theorem execute_succ (p : Position) (w : World) (stmt : Stmt) (hf : stmt.Formed)
    (hm : ∀ m ∈ stmt.mentions p.around p.frames, P m) :
    Simulated P D p (p.after stmt) w (FlowRelated P) (Eval.execute (fuel + 1) stmt)
      (Lexical.execute (fuel + 1) p.place stmt) := by
  cases stmt with
  | expression e =>
    refine (h.evaluate p w e hf hm).bind rfl fun w₁ _ _ _ _ => ?_
    exact .pure .normal
  | print e =>
    refine (h.evaluate p w e hf hm).bind rfl fun w₁ v v' _ hv => ?_
    rw [hv.text_eq]
    refine (Simulated.lift (V := fun _ _ _ => True)
      ((Eval.print_parallel v.text).weaken fun _ _ _ => trivial)).bind rfl fun w₂ _ _ _ _ => ?_
    exact .pure .normal
  | var name initializer? =>
    cases initializer? with
    | none => exact varNil_succ hP p w name hf hm
    | some initializer => exact h.var_succ hP p w name initializer hf hm
  | block body => exact h.block_succ p w body hf hm
  | «if» condition thenBranch elseBranch? =>
    cases elseBranch? with
    | none =>
      obtain ⟨hmc, hmt⟩ := List.forall_mem_append.mp hm
      obtain ⟨hfc, hft, hnone⟩ : condition.Formed ∧ thenBranch.Formed ∧
        thenBranch.declared? = none := hf
      refine (h.evaluate p w condition hfc hmc).bind rfl fun w₁ v v' _ hv => ?_
      rw [hv.isTruthy_eq]
      split
      · have ht := h.execute p w₁ thenBranch hft hmt
        rw [Position.after_of_none hnone] at ht
        exact ht
      · exact .pure .normal
    | some elseBranch =>
      obtain ⟨hmc, hm⟩ := List.forall_mem_append.mp hm
      obtain ⟨hmt, hme⟩ := List.forall_mem_append.mp hm
      obtain ⟨hfc, ⟨hft, hnone⟩, hfe, hnone'⟩ : condition.Formed ∧
        (thenBranch.Formed ∧ thenBranch.declared? = none) ∧
        elseBranch.Formed ∧ elseBranch.declared? = none := hf
      refine (h.evaluate p w condition hfc hmc).bind rfl fun w₁ v v' _ hv => ?_
      rw [hv.isTruthy_eq]
      split
      · have ht := h.execute p w₁ thenBranch hft hmt
        rw [Position.after_of_none hnone] at ht
        exact ht
      · have he := h.execute p w₁ elseBranch hfe hme
        rw [Position.after_of_none hnone'] at he
        exact he
  | «while» condition body increment? => exact h.loop p w condition body increment? hf hm
  | function f => exact function_succ hP p w f hf hm
  | «class» c =>
    refine (declareClass_simulated hP hf hm).bind rfl fun w₁ _ _ _ _ => ?_
    exact .pure .normal
  | «return» line value? =>
    cases value? with
    | none => exact .pure (.return .nil)
    | some value =>
      refine (h.evaluate p w value hf hm).bind rfl fun w₁ v v' _ hv => ?_
      exact .pure (.return hv)
  | «break» => exact .pure .break
  | «continue» => exact .pure .continue

include h in
theorem loop_succ (p : Position) (w : World) (condition : Expr) (body : Stmt)
    (increment? : Option Expr) (hf : (Stmt.while condition body increment?).Formed)
    (hm : ∀ m ∈ (Stmt.while condition body increment?).mentions p.around p.frames, P m) :
    Simulated P D p p w (FlowRelated P) (Eval.loop (fuel + 1) condition body increment?)
      (Lexical.loop (fuel + 1) p.place condition body increment?) := by
  have hbody : ∀ w, body.Formed → body.declared? = none →
      (∀ m ∈ body.mentions { p.around with inLoop := true } p.frames, P m) →
      Simulated P D p p w (FlowRelated P) (Eval.execute fuel body)
        (Lexical.execute fuel p.place body) := by
    intro w hfb hnone hmb m s hs
    have hb := h.execute { p with around := { p.around with inLoop := true } } w body hfb hmb
    rw [Position.after_of_none hnone] at hb
    exact (hb m s (hs.around rfl)).weaken (fun _ h => h) fun _ _ _ _ _ _ ⟨hv, hs⟩ =>
      ⟨hv, hs.around (p := { p with around := { p.around with inLoop := true } }) rfl⟩
  have hagain := fun w => h.loop p w condition body increment? hf hm
  cases increment? with
  | none =>
    obtain ⟨hfc, hfb, hnone⟩ : condition.Formed ∧ body.Formed ∧ body.declared? = none := hf
    obtain ⟨hmc, hmb⟩ := List.forall_mem_append.mp hm
    refine (h.evaluate p w condition hfc hmc).bind rfl fun w₁ v v' _ hv => ?_
    rw [hv.isTruthy_eq]
    split
    · refine (hbody w₁ hfb hnone hmb).bind rfl fun w₂ f f' _ hflow => ?_
      cases hflow with
      | normal | «continue» => exact hagain w₂
      | «break» => exact .pure .normal
      | «return» hv => exact .pure (.return hv)
    · exact .pure .normal
  | some increment =>
    obtain ⟨hfc, ⟨hfb, hnone⟩, hfi⟩ : condition.Formed ∧
      (body.Formed ∧ body.declared? = none) ∧ increment.Formed := hf
    obtain ⟨hmc, hm⟩ := List.forall_mem_append.mp hm
    obtain ⟨hmb, hmi⟩ := List.forall_mem_append.mp hm
    refine (h.evaluate p w condition hfc hmc).bind rfl fun w₁ v v' _ hv => ?_
    rw [hv.isTruthy_eq]
    split
    · refine (hbody w₁ hfb hnone hmb).bind rfl fun w₂ f f' _ hflow => ?_
      have hincrement : Simulated P D p p w₂ (FlowRelated P)
          (do
            let _ ← Eval.evaluate fuel increment
            Eval.loop fuel condition body (some increment))
          (do
            let _ ← Lexical.evaluate fuel increment
            Lexical.loop fuel p.place condition body (some increment)) :=
        (h.evaluate p w₂ increment hfi hmi).bind rfl fun w₃ _ _ _ _ => hagain w₃
      cases hflow with
      | normal | «continue» => exact hincrement
      | «break» => exact .pure .normal
      | «return» hv => exact .pure (.return hv)
    · exact .pure .normal

include h in
theorem executeAll_succ (p : Position) (w : World) (ss : List Stmt) (hf : stmtsFormed ss)
    (hm : ∀ m ∈ stmtsMentions p.around p.frames ss, P m) :
    ListSimulated P D p w (Eval.executeAll (fuel + 1) ss)
      (Lexical.executeAll (fuel + 1) p.place ss) := by
  cases ss with
  | nil => exact fun m s hs => ⟨w, .refl _ w, .normal, hs.ended⟩
  | cons stmt ss =>
    obtain ⟨hms, hmss⟩ := List.forall_mem_append.mp hm
    intro m s hs
    refine (h.execute p w stmt hf.1 hms m s hs).bind fun w₁ f m₁ f' s₁ hw₁ ⟨hflow, hs₁⟩ => ?_
    cases hflow with
    | normal =>
      have hrest := h.executeAll (p.after stmt) w₁ ss hf.2 hmss m₁ s₁ hs₁
      rw [Position.place_after] at hrest
      exact hrest.weaken (fun _ hn => hn.imp id (Nat.le_trans hw₁.le.scopes))
        fun _ _ _ _ _ _ h => h
    | «return» hv => exact ⟨w₁, .refl _ w₁, .return hv, hs₁.ended⟩
    | «break» => exact ⟨w₁, .refl _ w₁, .break, hs₁.ended⟩
    | «continue» => exact ⟨w₁, .refl _ w₁, .continue, hs₁.ended⟩

end

end Simulates

/-- The evaluator agrees with its lexical counterpart. -/
theorem simulates (hP : ∀ m, P m → m.Allowed ∧ m.Placed D) (fuel : Nat) : Simulates P D fuel := by
  induction fuel with
  | zero => exact .zero P D
  | succ fuel ih =>
    exact {
      evaluate := ih.evaluate_succ hP
      evaluateAll := ih.evaluateAll_succ
      readProperty := ih.readProperty_succ
      call := ih.call_succ
      run := ih.run_succ hP
      construct := ih.construct_succ
      execute := ih.execute_succ hP
      loop := ih.loop_succ
      executeAll := ih.executeAll_succ }

end LoxLang
