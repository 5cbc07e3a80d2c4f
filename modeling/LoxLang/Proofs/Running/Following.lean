import LoxLang.Proofs.Lexical.Simulation
import LoxLang.Proofs.Running.Points

/-!
A lexical run can follow a machine to every point that it comes to. Behind the step lemma there is
a case for each way to start a task, and the run lemma is the induction over the tasks started.
-/

namespace LoxLang

variable {P : Mention → Prop} {D : Distances} {p p' q : Position} {w : World} {m m₁ : Machine}
  {s : Lexical.State} {pending : List (Nat × String)}

/-- What is known of a task where a machine stands for a lexical run: the mentions in its code, or
else that its values stand for those of the run. -/
def Task.Known (P : Mention → Prop) (p : Position) (w : World) : Task → Prop
  | .evaluate e => e.Formed ∧ ∀ m ∈ e.mentions p.around p.frames, P m
  | .evaluateAll es => exprsFormed es ∧ ∀ m ∈ exprsMentions p.around p.frames es, P m
  | .readProperty property _ => ∃ property', PropertyRelated P w property property'
  | .call c vs _ => ∃ c' vs', CallableRelated P w c c' ∧ List.Forall₂ (ValueRelated P w) vs vs' ∧
    vs.length = c.arity
  | .run c vs => ∃ c' vs', FunctionRelated P w c c' ∧ List.Forall₂ (ValueRelated P w) vs vs' ∧
    vs.length = c.arity
  | .construct c vs => ∃ c' vs', ClassRelated P w c c' ∧ List.Forall₂ (ValueRelated P w) vs vs' ∧
    vs.length = (Callable.class c).arity
  | .execute s => s.Formed ∧ ∀ m ∈ s.mentions p.around p.frames, P m
  | .loop condition body increment? => (Stmt.while condition body increment?).Formed ∧
    ∀ m ∈ (Stmt.while condition body increment?).mentions p.around p.frames, P m
  | .executeAll ss => stmtsFormed ss ∧ ∀ m ∈ stmtsMentions p.around p.frames ss, P m

/-- A point to which a lexical run follows a machine, with these variables pending. -/
def Point.Followed (P : Mention → Prop) (D : Distances) (pending : List (Nat × String))
    (a : Point) : Prop :=
  ∃ p w s, p.pending = pending ∧ Stands P D p w a.machine s ∧ a.task.Known P p w

/-- Behind a computation that has ended well, a machine stands for a lexical run again. -/
theorem Simulated.after {α β : Type} {x : Eval α} {y : Lexical β} {V : World → α → β → Prop}
    {a : α} (h : Simulated P D p p' w V x y) (hs : Stands P D p w m s) (hx : x m = .ok a m₁) :
    ∃ b s₁ w₁, w ≤ w₁ ∧ V w₁ a b ∧ Stands P D p' w₁ m₁ s₁ := by
  obtain ⟨b, s₁, w₁, -, hw, hv, hs₁⟩ := (h m s hs).ok hx
  exact ⟨b, s₁, w₁, hw.le, hv, hs₁⟩

/-- An expression evaluated where a machine stands gives a value that stands for another. -/
theorem Stands.evaluated (hs : Stands P D p w m s) (hP : ∀ m, P m → m.Allowed ∧ m.Placed D)
    {fuel : Nat} {e : Expr} {v : Value} (hf : e.Formed)
    (hm : ∀ m ∈ e.mentions p.around p.frames, P m) (h : Eval.evaluate fuel e m = .ok v m₁) :
    ∃ v' s₁ w₁, w ≤ w₁ ∧ ValueRelated P w₁ v v' ∧ Stands P D p w₁ m₁ s₁ :=
  ((simulates hP fuel).evaluate p w e hf hm).after hs h

/-- A branch or a body, which declares nothing, leaves the position as it was. -/
theorem Stands.executed (hs : Stands P D p w m s) (hP : ∀ m, P m → m.Allowed ∧ m.Placed D)
    {fuel : Nat} {stmt : Stmt} {flow : Flow} (hf : stmt.Formed) (hn : stmt.declared? = none)
    (hm : ∀ m ∈ stmt.mentions { p.around with inLoop := true } p.frames, P m)
    (h : Eval.execute fuel stmt m = .ok flow m₁) : ∃ s₁ w₁, Stands P D p w₁ m₁ s₁ := by
  have hinside : Stands P D { p with around := { p.around with inLoop := true } } w m s :=
    hs.around rfl
  obtain ⟨_, s₁, w₁, -, -, hs₁⟩ := ((simulates hP fuel).execute _ w stmt hf hm).after hinside h
  rw [Position.after_of_none hn] at hs₁
  exact ⟨s₁, w₁, hs₁.around (p := { p with around := { p.around with inLoop := true } }) rfl⟩

namespace Starts

section

variable {fuel : Nat} {b : Point} (hP : ∀ m, P m → m.Allowed ∧ m.Placed D)

include hP in
/-- The tasks that an expression starts. -/
theorem evaluate_followed {e : Expr} (h : Starts ⟨fuel, .evaluate e, m⟩ b)
    (hs : Stands P D p w m s) (hf : e.Formed) (hm : ∀ m ∈ e.mentions p.around p.frames, P m) :
    b.Followed P D p.pending := by
  cases h with
  | group => exact ⟨p, w, s, rfl, hs, hf, hm⟩
  | unary => exact ⟨p, w, s, rfl, hs, hf, hm⟩
  | binaryLeft => exact ⟨p, w, s, rfl, hs, hf.1, (List.forall_mem_append.mp hm).1⟩
  | binaryRight h =>
    obtain ⟨hml, hmr⟩ := List.forall_mem_append.mp hm
    obtain ⟨_, s₁, w₁, -, -, hs₁⟩ := hs.evaluated hP hf.1 hml h
    exact ⟨p, w₁, s₁, rfl, hs₁, hf.2, hmr⟩
  | logicalLeft => exact ⟨p, w, s, rfl, hs, hf.1, (List.forall_mem_append.mp hm).1⟩
  | logicalRight h _ =>
    obtain ⟨hml, hmr⟩ := List.forall_mem_append.mp hm
    obtain ⟨_, s₁, w₁, -, -, hs₁⟩ := hs.evaluated hP hf.1 hml h
    exact ⟨p, w₁, s₁, rfl, hs₁, hf.2, hmr⟩
  | question => exact ⟨p, w, s, rfl, hs, hf.1, (List.forall_mem_append.mp hm).1⟩
  | answer h =>
    obtain ⟨hmc, hm⟩ := List.forall_mem_append.mp hm
    obtain ⟨hmt, hme⟩ := List.forall_mem_append.mp hm
    obtain ⟨_, s₁, w₁, -, -, hs₁⟩ := hs.evaluated hP hf.1 hmc h
    refine ⟨p, w₁, s₁, rfl, hs₁, ?_⟩
    split
    · exact ⟨hf.2.1, hmt⟩
    · exact ⟨hf.2.2, hme⟩
  | commaLeft => exact ⟨p, w, s, rfl, hs, hf.1, (List.forall_mem_append.mp hm).1⟩
  | commaRight h =>
    obtain ⟨hml, hmr⟩ := List.forall_mem_append.mp hm
    obtain ⟨_, s₁, w₁, -, -, hs₁⟩ := hs.evaluated hP hf.1 hml h
    exact ⟨p, w₁, s₁, rfl, hs₁, hf.2, hmr⟩
  | assigned => exact ⟨p, w, s, rfl, hs, hf.2, (List.forall_mem_append.mp hm).1⟩
  | callee => exact ⟨p, w, s, rfl, hs, hf.1, (List.forall_mem_append.mp hm).1⟩
  | arguments h =>
    obtain ⟨hmc, hma⟩ := List.forall_mem_append.mp hm
    obtain ⟨_, s₁, w₁, -, -, hs₁⟩ := hs.evaluated hP hf.1 hmc h
    exact ⟨p, w₁, s₁, rfl, hs₁, hf.2, hma⟩
  | @called _ line _ m₁ m₂ m₃ v vs _ arguments c h hvs hc =>
    obtain ⟨hmc, hma⟩ := List.forall_mem_append.mp hm
    obtain ⟨v', s₁, w₁, -, hv, hs₁⟩ := hs.evaluated hP hf.1 hmc h
    obtain ⟨vs', s₂, w₂, hw₂, hvs, hs₂⟩ :=
      ((simulates hP _).evaluateAll p w₁ arguments hf.2 hma).after hs₁ hvs
    obtain ⟨c', s₃, w₃, hw₃, ⟨hc, hlength⟩, hs₃⟩ := (Simulated.lift
      (V := fun w c c' => CallableRelated P w c c' ∧ vs.length = c.arity)
      (Eval.callableOf_parallel (hv.mono (fun _ => id) hw₂) vs.length line)).after hs₂ hc
    have hvs := hvs.imp fun _ _ => ValueRelated.mono (fun _ => id) hw₃
    exact ⟨p, w₃, s₃, rfl, hs₃, c', vs', hc, hvs, hlength⟩
  | object => exact ⟨p, w, s, rfl, hs, hf.1, hm⟩
  | @property _ _ _ _ v object name _ h hp =>
    obtain ⟨v', s₁, w₁, -, hv, hs₁⟩ := hs.evaluated (e := object) hP hf.1 hm h
    obtain ⟨property', s₂, w₂, -, hp, hs₂⟩ := (propertyOfValue_simulated hv name).after hs₁ hp
    exact ⟨p, w₂, s₂, rfl, hs₂, property', hp⟩
  | holder => exact ⟨p, w, s, rfl, hs, hf.1, (List.forall_mem_append.mp hm).2⟩
  | @stored _ _ _ _ v _ name _ i h hi =>
    obtain ⟨hmv, hmo⟩ := List.forall_mem_append.mp hm
    obtain ⟨v', s₁, w₁, -, hv, hs₁⟩ := hs.evaluated hP hf.1 hmo h
    obtain ⟨_, s₂, w₂, -, -, hs₂⟩ := (Simulated.lift (V := InstanceRelated P)
      (Eval.instanceOf_parallel hv name)).after hs₁ hi
    exact ⟨p, w₂, s₂, rfl, hs₂, hf.2.1, hmv⟩
  | @superProperty _ _ id _ _ _ method receiver _ h hp =>
    obtain ⟨hallowed, hplaced⟩ := hP _ (hm _ List.mem_cons_self)
    obtain ⟨receiver', s₁, w₁, -, hr, hs₁⟩ :=
      (superOf_simulated hallowed (hplaced id rfl)).after hs h
    obtain ⟨property', s₂, w₂, -, hp, hs₂⟩ := (superPropertyOf_simulated hr method).after hs₁ hp
    exact ⟨p, w₂, s₂, rfl, hs₂, property', hp⟩

include hP in
/-- The tasks that the expressions of a list start. -/
theorem evaluateAll_followed {es : List Expr} (h : Starts ⟨fuel, .evaluateAll es, m⟩ b)
    (hs : Stands P D p w m s) (hf : exprsFormed es)
    (hm : ∀ m ∈ exprsMentions p.around p.frames es, P m) : b.Followed P D p.pending := by
  cases h with
  | head => exact ⟨p, w, s, rfl, hs, hf.1, (List.forall_mem_append.mp hm).1⟩
  | tail h =>
    obtain ⟨hme, hms⟩ := List.forall_mem_append.mp hm
    obtain ⟨_, s₁, w₁, -, -, hs₁⟩ := hs.evaluated hP hf.1 hme h
    exact ⟨p, w₁, s₁, rfl, hs₁, hf.2, hms⟩

/-- The task that reading a property starts. -/
theorem readProperty_followed {property property' : Eval.Property} {line : Nat}
    (h : Starts ⟨fuel, .readProperty property line, m⟩ b) (hs : Stands P D p w m s)
    (hp : PropertyRelated P w property property') : b.Followed P D p.pending := by
  cases h with
  | @getter _ _ _ _ closure c h =>
    cases hp with
    | getter hc hn =>
      have harity : closure.arity = 0 := congrArg List.length hn
      obtain ⟨c', s₁, w₁, -, ⟨hc, hc₀⟩, hs₁⟩ := (Simulated.lift
        (V := fun w c c' => CallableRelated P w c c' ∧ c.arity = closure.arity)
        (Eval.newFunction_parallel hc)).after hs h
      exact ⟨p, w₁, s₁, rfl, hs₁, c', [], hc, .nil, (hc₀.trans harity).symm⟩

/-- The task that a call starts. -/
theorem call_followed {c c' : Callable} {vs vs' : List Value} {line : Nat}
    (h : Starts ⟨fuel, .call c vs line, m⟩ b) (hs : Stands P D p w m s)
    (hc : CallableRelated P w c c') (hvs : List.Forall₂ (ValueRelated P w) vs vs')
    (hlength : vs.length = c.arity) : b.Followed P D p.pending := by
  have hchecked : ∀ {m₁}, Eval.checkDepth line m = .ok () m₁ →
      ∃ s₁ w₁, w ≤ w₁ ∧ Stands P D p w₁ { m₁ with depth := m₁.depth + 1 } s₁ := by
    intro m₁ h
    obtain ⟨_, s₁, w₁, hw, -, hs₁⟩ := (Simulated.lift (V := fun _ _ _ => True)
      ((Eval.checkDepth_parallel line).weaken fun _ _ _ => trivial)).after hs h
    exact ⟨_, w₁, hw, hs₁.deeper⟩
  cases h with
  | function h =>
    obtain ⟨s₁, w₁, hw, hs₁⟩ := hchecked h
    have hvs := hvs.imp fun _ _ => ValueRelated.mono (fun _ => id) hw
    cases hc with
    | function hc => exact ⟨p, w₁, s₁, rfl, hs₁, _, vs', hc.mono (fun _ => id) hw, hvs, hlength⟩
  | «class» h =>
    obtain ⟨s₁, w₁, hw, hs₁⟩ := hchecked h
    have hvs := hvs.imp fun _ _ => ValueRelated.mono (fun _ => id) hw
    cases hc with
    | «class» hc => exact ⟨p, w₁, s₁, rfl, hs₁, _, vs', hc.mono (fun _ => id) hw, hvs, hlength⟩

include hP in
/-- The body of a function. -/
theorem run_followed {c c' : Closure} {vs vs' : List Value}
    (h : Starts ⟨fuel, .run c vs, m⟩ b) (hs : Stands P D p w m s) (hc : FunctionRelated P w c c')
    (hvs : List.Forall₂ (ValueRelated P w) vs vs') (hlength : vs.length = c.arity) :
    b.Followed P D p.pending := by
  cases h with
  | body h =>
    obtain ⟨q, w₁, environment, cells, m₁, s₁, hb⟩ := hs.called hP hc hvs hlength
    rw [hb.opened] at h
    cases h
    exact ⟨q, w₁, _, hb.pending, hb.body, hb.formed, hb.mentions⟩

/-- The initializer of a class. -/
theorem construct_followed {c c' : ClassValue} {vs vs' : List Value}
    (h : Starts ⟨fuel, .construct c vs, m⟩ b) (hs : Stands P D p w m s)
    (hc : ClassRelated P w c c') (hvs : List.Forall₂ (ValueRelated P w) vs vs')
    (hlength : vs.length = (Callable.class c).arity) : b.Followed P D p.pending := by
  cases h with
  | @initializer _ _ m₁ _ _ _ i method closure hi hm hb =>
    obtain ⟨i', s₁, w₁, hw₁, hi, hs₁⟩ := (Simulated.lift (V := InstanceRelated P)
      (Eval.newInstance_parallel hc)).after hs hi
    have hrel := (hc.mono (fun _ => id) hw₁).method? "init"
    have harity : vs.length = (c.initializer?.map Closure.arity).getD 0 := hlength
    unfold ClassValue.initializer? at hm harity
    rw [hm] at hrel harity
    generalize c'.method? "init" = f' at hrel
    cases hrel with
    | some hrel =>
      obtain ⟨closure', s₂, w₂, hw₂, ⟨hclosure, hfunction⟩, hs₂⟩ :=
        (bindThis_simulated hrel hi).after hs₁ hb
      have hvs := hvs.imp fun _ _ => ValueRelated.mono (fun _ => id) (World.le_trans hw₁ hw₂)
      have hlength : vs.length = closure.arity := by
        rw [Closure.arity, hfunction]
        exact harity
      exact ⟨p, w₂, s₂, rfl, hs₂, closure', vs', hclosure, hvs, hlength⟩

include hP in
/-- The tasks that a loop starts. -/
theorem loop_followed {condition : Expr} {body : Stmt} {increment? : Option Expr}
    (h : Starts ⟨fuel, .loop condition body increment?, m⟩ b) (hs : Stands P D p w m s)
    (hf : (Stmt.while condition body increment?).Formed)
    (hm : ∀ m ∈ (Stmt.while condition body increment?).mentions p.around p.frames, P m) :
    b.Followed P D p.pending := by
  obtain ⟨hfc, hfb, hnone, hfi⟩ : condition.Formed ∧ body.Formed ∧ body.declared? = none ∧
      ∀ e ∈ increment?, e.Formed := by
    cases increment? with
    | none => exact ⟨hf.1, hf.2.1, hf.2.2, nofun⟩
    | some e => exact ⟨hf.1, hf.2.1.1, hf.2.1.2, fun _ he => by cases he; exact hf.2.2⟩
  obtain ⟨hmc, hmb, hmi⟩ : (∀ m ∈ condition.mentions p.around p.frames, P m) ∧
      (∀ m ∈ body.mentions { p.around with inLoop := true } p.frames, P m) ∧
      ∀ e ∈ increment?, ∀ m ∈ e.mentions p.around p.frames, P m := by
    cases increment? with
    | none =>
      obtain ⟨hmc, hmb⟩ := List.forall_mem_append.mp hm
      exact ⟨hmc, hmb, nofun⟩
    | some e =>
      obtain ⟨hmc, hm⟩ := List.forall_mem_append.mp hm
      obtain ⟨hmb, hmi⟩ := List.forall_mem_append.mp hm
      exact ⟨hmc, hmb, fun _ he => by cases he; exact hmi⟩
  cases h with
  | test => exact ⟨p, w, s, rfl, hs, hfc, hmc⟩
  | turn h _ =>
    obtain ⟨_, s₁, w₁, -, -, hs₁⟩ := hs.evaluated hP hfc hmc h
    exact ⟨{ p with around := { p.around with inLoop := true } }, w₁, s₁, rfl, hs₁.around rfl,
      hfb, hmb⟩
  | increment h _ hb _ =>
    obtain ⟨_, s₁, w₁, -, -, hs₁⟩ := hs.evaluated hP hfc hmc h
    obtain ⟨s₂, w₂, hs₂⟩ := hs₁.executed hP hfb hnone hmb hb
    exact ⟨p, w₂, s₂, rfl, hs₂, hfi _ rfl, hmi _ rfl⟩
  | again h _ hb _ =>
    obtain ⟨_, s₁, w₁, -, -, hs₁⟩ := hs.evaluated hP hfc hmc h
    obtain ⟨s₂, w₂, hs₂⟩ := hs₁.executed hP hfb hnone hmb hb
    exact ⟨p, w₂, s₂, rfl, hs₂, hf, hm⟩
  | incremented h _ hb _ hi =>
    obtain ⟨_, s₁, w₁, -, -, hs₁⟩ := hs.evaluated hP hfc hmc h
    obtain ⟨s₂, w₂, hs₂⟩ := hs₁.executed hP hfb hnone hmb hb
    obtain ⟨_, s₃, w₃, -, -, hs₃⟩ := hs₂.evaluated hP (hfi _ rfl) (hmi _ rfl) hi
    exact ⟨p, w₃, s₃, rfl, hs₃, hf, hm⟩

include hP in
/-- The tasks that the statements of a list start. -/
theorem executeAll_followed {ss : List Stmt} (h : Starts ⟨fuel, .executeAll ss, m⟩ b)
    (hs : Stands P D p w m s) (hf : stmtsFormed ss)
    (hm : ∀ m ∈ stmtsMentions p.around p.frames ss, P m) : b.Followed P D p.pending := by
  cases h with
  | first => exact ⟨p, w, s, rfl, hs, hf.1, (List.forall_mem_append.mp hm).1⟩
  | @next fuel _ _ stmt ss h =>
    obtain ⟨hms, hmss⟩ := List.forall_mem_append.mp hm
    obtain ⟨_, s₁, w₁, -, -, hs₁⟩ :=
      ((simulates hP fuel).execute p w stmt hf.1 hms).after hs h
    exact ⟨p.after stmt, w₁, s₁, rfl, hs₁, hf.2, hmss⟩

include hP in
/-- The initializer of a variable is evaluated while the variable is pending, if it is local. -/
theorem var_followed {name : Name} {e : Expr}
    (h : Starts ⟨fuel, .execute (.var name (some e)), m⟩ b) (hs : Stands P D p w m s)
    (hf : (Stmt.var name (some e)).Formed)
    (hm : ∀ m ∈ (Stmt.var name (some e)).mentions p.around p.frames, P m) :
    b.Followed P D
      (Point.initializing ⟨fuel, .execute (.var name (some e)), m⟩ ++ p.pending) := by
  obtain ⟨hplain, hfe⟩ : name.Plain ∧ e.Formed := hf
  have hname := hplain.declarable
  obtain ⟨hdeclare, hme⟩ := List.forall_mem_cons.mp hm
  obtain ⟨_, w₁, s₁, -, -, hs₁, -⟩ := hs.declare (hP _ hdeclare).1 hname
  have hpending : (p.declared name.text).pending =
      Point.initializing ⟨fuel, .execute (.var name (some e)), m⟩ ++ p.pending := by
    cases hframes : p.frames with
    | nil => simp [Position.declared, Point.initializing, hframes, (hs.outer hframes).2.1,
        globalEnvironment]
    | cons frame outer =>
      obtain ⟨hpos, environment, henv⟩ := hs.inner hframes
      simp [Position.declared, Point.initializing, hframes, henv, Nat.ne_of_gt hpos]
  cases h with
  | var => exact ⟨p.declared name.text, w₁, s₁, hpending, hs₁, hfe, hme⟩

include hP in
/-- The tasks that a statement starts. -/
theorem execute_followed {stmt : Stmt} (h : Starts ⟨fuel, .execute stmt, m⟩ b)
    (hs : Stands P D p w m s) (hf : stmt.Formed)
    (hm : ∀ m ∈ stmt.mentions p.around p.frames, P m) :
    b.Followed P D (Point.initializing ⟨fuel, .execute stmt, m⟩ ++ p.pending) := by
  have hvar := @var_followed P D p w m s fuel b hP
  cases h with
  | expression => exact ⟨p, w, s, rfl, hs, hf, hm⟩
  | print => exact ⟨p, w, s, rfl, hs, hf, hm⟩
  | var => exact hvar .var hs hf hm
  | block h =>
    have hq := Stands.entered p.around hs.linked hs.pending hs.matched hs.enclosed
    rw [← hs.linked.cells.next] at hq
    cases h
    exact ⟨⟨p.around, .empty :: p.frames, m.scopes.next, p.pending⟩, w.opened, _, rfl, hq, hf, hm⟩
  | @condition _ _ condition thenBranch elseBranch? =>
    cases elseBranch? with
    | none => exact ⟨p, w, s, rfl, hs, hf.1, (List.forall_mem_append.mp hm).1⟩
    | some _ => exact ⟨p, w, s, rfl, hs, hf.1, (List.forall_mem_append.mp hm).1⟩
  | @thenBranch _ _ _ _ condition thenBranch elseBranch? h _ =>
    cases elseBranch? with
    | none =>
      obtain ⟨hmc, hmt⟩ := List.forall_mem_append.mp hm
      obtain ⟨_, s₁, w₁, -, -, hs₁⟩ := hs.evaluated (e := condition) hP hf.1 hmc h
      exact ⟨p, w₁, s₁, rfl, hs₁, hf.2.1, hmt⟩
    | some _ =>
      obtain ⟨hmc, hm⟩ := List.forall_mem_append.mp hm
      obtain ⟨_, s₁, w₁, -, -, hs₁⟩ := hs.evaluated (e := condition) hP hf.1 hmc h
      exact ⟨p, w₁, s₁, rfl, hs₁, hf.2.1.1, (List.forall_mem_append.mp hm).1⟩
  | @elseBranch _ _ _ _ condition _ _ h _ =>
    obtain ⟨hmc, hm⟩ := List.forall_mem_append.mp hm
    obtain ⟨_, s₁, w₁, -, -, hs₁⟩ := hs.evaluated (e := condition) hP hf.1 hmc h
    exact ⟨p, w₁, s₁, rfl, hs₁, hf.2.2.1, (List.forall_mem_append.mp hm).2⟩
  | «while» => exact ⟨p, w, s, rfl, hs, hf, hm⟩
  | @result _ _ _ e => exact ⟨p, w, s, rfl, hs, hf, hm⟩

end

/-- What a task starts is followed where the task is, with the variable that the task initializes
pending. -/
theorem followed (hP : ∀ m, P m → m.Allowed ∧ m.Placed D) {a b : Point} (h : Starts a b)
    (ha : a.Followed P D pending) : b.Followed P D (a.initializing ++ pending) := by
  obtain ⟨p, w, s, rfl, hs, hk⟩ := ha
  obtain ⟨fuel, task, m⟩ := a
  cases task with
  | evaluate e => exact h.evaluate_followed hP hs hk.1 hk.2
  | evaluateAll es => exact h.evaluateAll_followed hP hs hk.1 hk.2
  | readProperty property line =>
    obtain ⟨_, hp⟩ := hk
    exact h.readProperty_followed hs hp
  | call c vs line =>
    obtain ⟨_, _, hc, hvs, hlength⟩ := hk
    exact h.call_followed hs hc hvs hlength
  | run c vs =>
    obtain ⟨_, _, hc, hvs, hlength⟩ := hk
    exact h.run_followed hP hs hc hvs hlength
  | construct c vs =>
    obtain ⟨_, _, hc, hvs, hlength⟩ := hk
    exact h.construct_followed hs hc hvs hlength
  | execute stmt => exact h.execute_followed hP hs hk.1 hk.2
  | loop condition body increment? => exact h.loop_followed hP hs hk.1 hk.2
  | executeAll ss => exact h.executeAll_followed hP hs hk.1 hk.2

end Starts

/-- A lexical run follows a machine to every point that it comes to. -/
theorem Reaches.followed (hP : ∀ m, P m → m.Allowed ∧ m.Placed D) {start a : Point}
    {underway : List (Nat × String)} (h : Reaches start underway a)
    (hs : start.Followed P D pending) : a.Followed P D (underway ++ pending) := by
  induction h with
  | here => exact hs
  | next h hstarts ih =>
    rw [List.append_assoc]
    exact hstarts.followed hP ih

end LoxLang
