import LoxLang.Proofs.Classes.Tracking

/-!
Every task keeps what holds of its machine: a step lemma for each kind of task, and the run lemma by
induction on the fuel. So every point on the way from a tracked one is tracked.
-/

namespace LoxLang

variable {H : Chronicle} {stored : Nat → String → Value → Prop} {m : Machine} {a b : Point}

/-- The tasks that a task starts, if they keep what holds of their machines. -/
def Point.KeepsOn (H : Chronicle) (a : Point) : Prop :=
  ∀ b, Starts a b → b.Keeps H a.Stores

theorem FlowBorn.inside {flow : Flow} (h : FlowBorn H m flow) (environment : Environment) :
    FlowBorn H (m.inside environment) flow := by
  cases flow with
  | «return» v => exact ValueBorn.mono (.refl H) (.inside m environment m.depth) h
  | _ => trivial

theorem ValueBorn.nested {v : Value} (h : ValueBorn H m v) (depth : Nat) :
    ValueBorn H { m with depth := depth } v :=
  h.mono (.refl H) (.inside m m.environment depth)

namespace Point.KeepsOn

variable {fuel : Nat}

theorem evaluate {e : Expr} (h : KeepsOn H ⟨fuel + 1, .evaluate e, m⟩) (hm : m.Born H)
    (hvisited : H.points ⟨fuel + 1, .evaluate e, m⟩)
    (hs : m.Situated H fun p => e.At H.mentions p) :
    Eval.Keeps H (Stores ⟨fuel + 1, .evaluate e, m⟩) (ValueBorn H)
      (Eval.evaluate (fuel + 1) e) m := by
  cases e with
  | literal l => exact .pure hm (.ofLiteral l)
  | group inner => exact h _ .group
  | unary op line operand =>
    refine .bind (h _ .unary) fun v m₁ _ _ hm₁ _ => ?_
    exact .ofExcept hm₁ fun _ => UnaryOp.apply_born
  | binary op line left right =>
    refine .bind (h _ .binaryLeft) fun v m₁ hl _ _ _ => ?_
    refine .bind (h _ (.binaryRight hl)) fun u m₂ _ _ hm₂ _ => ?_
    exact .ofExcept hm₂ fun _ => BinaryOp.apply_born
  | logical op left right =>
    refine .bind (h _ .logicalLeft) fun v m₁ hl _ hm₁ hv => ?_
    split
    · exact .pure hm₁ hv
    · rename_i hdecided
      exact h _ (.logicalRight hl (Bool.not_eq_true _ ▸ hdecided))
  | ternary condition thenBranch elseBranch =>
    refine .bind (h _ .question) fun v m₁ hc _ _ _ => ?_
    rw [← apply_ite (Eval.evaluate fuel)]
    exact h _ (.answer hc)
  | comma left right =>
    refine .bind (h _ .commaLeft) fun v m₁ hl _ _ _ => ?_
    exact h _ (.commaRight hl)
  | «variable» o =>
    exact (Eval.readVariable_keeps hm _ _).weaken fun m₁ v hv => by
      obtain ⟨rfl, hv⟩ := hv
      exact hv
  | assign o value =>
    obtain ⟨p, -, -, hcode⟩ := hs
    refine .bind (h _ .assigned) fun v m₁ hv _ hm₁ hborn => ?_
    refine .bind (Eval.writeVariable_keeps hm₁ hcode.assigned.1 hborn) fun _ m₂ _ hp hm₂ _ => ?_
    exact .pure hm₂ (hborn.mono (.refl H) hp.toGrows)
  | call callee line arguments =>
    refine .bind (h _ .callee) fun v m₁ hc _ hm₁ hv => ?_
    refine .bind (h _ (.arguments hc)) fun vs m₂ ha hp hm₂ _ => ?_
    have hv := ValueBorn.mono (.refl H) hp.toGrows hv
    refine .bind (Eval.callableOf_keeps hm₂ hv vs.length line) fun c m₃ hcallable _ _ _ => ?_
    exact h _ (.called hc ha hcallable)
  | get object name =>
    refine .bind (h _ .object) fun v m₁ ho _ hm₁ hv => ?_
    refine .bind (Eval.propertyOfValue_keeps hm₁ hv name) fun property m₂ hp _ _ _ => ?_
    exact h _ (.property ho hp)
  | set object name value =>
    refine .bind (h _ .holder) fun v m₁ ho _ hm₁ hv => ?_
    refine .bind (Eval.instanceOf_keeps hm₁ hv name) fun i m₂ hi _ _ _ => ?_
    refine .bind (h _ (.stored ho hi)) fun u m₃ hu _ hm₃ hborn => ?_
    obtain ⟨rfl, rfl⟩ := Eval.instanceOf_eq hi
    have hstores : Stores ⟨fuel + 1, .evaluate (.set object name value), m⟩ i.id name.text u :=
      ⟨_, fuel, object, name, value, i, m, _, _, .here, ho, hu, rfl, rfl⟩
    refine .bind (Eval.setField_keeps hm₃ hborn hstores) fun _ m₄ _ hp hm₄ _ => ?_
    exact .pure hm₄ (ValueBorn.mono (.refl H) hp.toGrows hborn)
  | this id line =>
    exact (Eval.readVariable_keeps hm _ _).weaken fun m₁ v hv => by
      obtain ⟨rfl, hv⟩ := hv
      exact hv
  | super id line method =>
    refine .bind (Eval.superOf_keeps hm id line) fun r m₁ hr _ hm₁ hborn => ?_
    refine .bind (Eval.superPropertyOf_keeps hm₁ hborn.1 hborn.2 method)
      fun property m₂ hp _ _ _ => ?_
    exact h _ (.superProperty hr hp)
  | lambda f =>
    obtain ⟨p, hfits, hr, hcode⟩ := hs
    exact .bind (Eval.declareFunction_keeps hm (.inr hvisited) hfits hr hcode)
      fun c m₁ _ _ hm₁ hc => .pure hm₁ hc

theorem evaluateAll {es : List Expr} (h : KeepsOn H ⟨fuel + 1, .evaluateAll es, m⟩)
    (hm : m.Born H) : Eval.Keeps H (Stores ⟨fuel + 1, .evaluateAll es, m⟩)
      (fun m vs => ∀ v ∈ vs, ValueBorn H m v) (Eval.evaluateAll (fuel + 1) es) m := by
  cases es with
  | nil => exact .pure hm nofun
  | cons e es =>
    refine .bind (h _ .head) fun v m₁ he _ _ hv => ?_
    refine .bind (h _ (.tail he)) fun vs m₂ _ hp hm₂ hvs => ?_
    exact .pure hm₂ (List.forall_mem_cons.mpr ⟨ValueBorn.mono (.refl H) hp.toGrows hv, hvs⟩)

theorem readProperty {property : Eval.Property} {line : Nat}
    (h : KeepsOn H ⟨fuel + 1, .readProperty property line, m⟩) (hm : m.Born H)
    (hproperty : PropertyBorn H m property) :
    Eval.Keeps H (Stores ⟨fuel + 1, .readProperty property line, m⟩) (ValueBorn H)
      (Eval.readProperty (fuel + 1) property line) m := by
  cases property with
  | value v => exact .pure hm hproperty
  | getter closure =>
    refine .bind (Eval.newFunction_keeps hm hproperty) fun c m₁ hc _ _ _ => ?_
    exact h _ (.getter hc)

theorem call {c : Callable} {vs : List Value} {line : Nat}
    (h : KeepsOn H ⟨fuel + 1, .call c vs line, m⟩) (hm : m.Born H)
    (hvs : ∀ v ∈ vs, ValueBorn H m v) :
    Eval.Keeps H (Stores ⟨fuel + 1, .call c vs line, m⟩) (ValueBorn H)
      (Eval.call (fuel + 1) c vs line) m := by
  refine .bind (Eval.checkDepth_keeps hm line) fun _ m₁ hroom hp hm₁ _ => ?_
  have hnested := fun m₁ depth v (hv : ValueBorn H m₁ v) => hv.nested depth
  cases c with
  | function id closure => exact .nested (h _ (.function hroom)) hnested
  | «class» c => exact .nested (h _ (.class hroom)) hnested
  | native id n =>
    refine .nested (Eval.runNative_keeps (hm₁.inside _ _) n (fun v hv => ?_) line) hnested
    exact ((hvs v hv).mono (.refl H) hp.toGrows).nested _

theorem run {closure : Closure} {vs : List Value}
    (h : KeepsOn H ⟨fuel + 1, .run closure vs, m⟩) (hm : m.Born H)
    (hvs : ∀ v ∈ vs, ValueBorn H m v) :
    Eval.Keeps H (Stores ⟨fuel + 1, .run closure vs, m⟩) (ValueBorn H)
      (Eval.run (fuel + 1) closure vs) m := by
  refine .bind (Eval.openScope_keeps hm _ fun name v hv => hvs v (mem_of_find?_parameterTable hv))
    fun environment m₁ ho _ _ _ => ?_
  refine .bind (.within (h _ (.body ho)) fun m₂ flow hflow => hflow.inside _)
    fun flow m₂ _ _ hm₂ hflow => ?_
  exact Eval.resultOf_keeps hm₂ closure hflow

theorem construct {c : ClassValue} {vs : List Value}
    (h : KeepsOn H ⟨fuel + 1, .construct c vs, m⟩) (hm : m.Born H) (hc : ClassBorn H m c) :
    Eval.Keeps H (Stores ⟨fuel + 1, .construct c vs, m⟩) (ValueBorn H)
      (Eval.construct (fuel + 1) c vs) m := by
  refine .bind (Eval.newInstance_keeps hm hc) fun i m₁ hi hp₁ hm₁ hborn => ?_
  cases hinit : c.initializer? with
  | none => exact .pure hm₁ hborn
  | some method =>
    refine .bind (Eval.property_keeps hm₁ (hc.mono (.refl H) hp₁.toGrows) hborn hinit)
      fun closure m₂ hb hp₂ _ _ => ?_
    refine .bind (h _ (.initializer hi hinit hb)) fun v m₃ _ hp₃ hm₃ _ => ?_
    exact .pure hm₃ (hborn.mono (.refl H) (hp₂.trans hp₃).toGrows)

theorem execute {s : Stmt} (h : KeepsOn H ⟨fuel + 1, .execute s, m⟩) (hm : m.Born H)
    (hvisited : H.points ⟨fuel + 1, .execute s, m⟩) (hs : m.Situated H fun p => s.At H.mentions p) :
    Eval.Keeps H (Stores ⟨fuel + 1, .execute s, m⟩) (FlowBorn H)
      (Eval.execute (fuel + 1) s) m := by
  cases s with
  | expression e => exact .bind (h _ .expression) fun v m₁ _ _ hm₁ _ => .pure hm₁ trivial
  | print e =>
    refine .bind (h _ .print) fun v m₁ _ _ hm₁ _ => ?_
    exact (Eval.print_keeps hm₁ v.text).bind fun _ m₂ _ _ hm₂ _ => .pure hm₂ trivial
  | var name initializer? =>
    obtain ⟨p, -, -, hcode⟩ := hs
    have hname := hcode.named
    cases initializer? with
    | none =>
      have hnil : ValueBorn H m .nil := trivial
      exact (Eval.define_keeps hm hname hnil).bind fun _ m₁ _ _ hm₁ _ => .pure hm₁ trivial
    | some e =>
      refine .bind (h _ .var) fun v m₁ _ _ hm₁ hborn => ?_
      exact (Eval.define_keeps hm₁ hname hborn).bind fun _ m₂ _ _ hm₂ _ => .pure hm₂ trivial
  | block ss =>
    refine .look (.bind (Eval.openScope_keeps hm _ fun _ _ hv => by cases hv)
      fun environment m₁ ho _ _ _ => ?_)
    exact .within (h _ (.block ho)) fun m₂ flow hflow => hflow.inside _
  | «if» condition thenBranch elseBranch? =>
    refine .bind (h _ .condition) fun v m₁ hc _ hm₁ _ => ?_
    split
    · rename_i hv
      exact h _ (.thenBranch hc hv)
    · rename_i hv
      cases elseBranch? with
      | none => exact .pure hm₁ trivial
      | some elseBranch => exact h _ (.elseBranch hc (Bool.not_eq_true _ ▸ hv))
  | «while» condition body increment? => exact h _ .while
  | function f =>
    obtain ⟨p, hfits, hr, hcode⟩ := hs
    obtain ⟨⟨name, hname, hplain⟩, hf⟩ := hcode.function
    have hdisplay : f.displayName = name.text := by
      rw [Function.displayName, hname]
    refine .bind (Eval.declareFunction_keeps hm (.inl hvisited) (hcode.after hfits)
      (hr.congr rfl rfl) hf) fun c m₁ _ _ hm₁ hc => ?_
    have hc : ValueBorn H m₁ (.callable c) := hc
    rw [hdisplay]
    exact (Eval.define_keeps hm₁ hplain hc).bind fun _ m₂ _ _ hm₂ _ => .pure hm₂ trivial
  | «class» d =>
    obtain ⟨p, -, -, hcode⟩ := hs
    refine .bind (Eval.declareClass_keeps hm hcode.class ⟨fuel, hvisited⟩) fun _ m₁ _ _ hm₁ _ => ?_
    exact .pure hm₁ trivial
  | «return» line value? =>
    cases value? with
    | none => exact .pure hm trivial
    | some e => exact .bind (h _ .result) fun v m₁ _ _ hm₁ hborn => .pure hm₁ hborn
  | «break» | «continue» => exact .pure hm trivial

theorem loop {condition : Expr} {body : Stmt} {increment? : Option Expr}
    (h : KeepsOn H ⟨fuel + 1, .loop condition body increment?, m⟩) :
    Eval.Keeps H (Stores ⟨fuel + 1, .loop condition body increment?, m⟩) (FlowBorn H)
      (Eval.loop (fuel + 1) condition body increment?) m := by
  refine .bind (h _ .test) fun v m₁ hc _ hm₁ _ => ?_
  split
  · rename_i hv
    refine .bind (h _ (.turn hc hv)) fun flow m₂ hb _ hm₂ hflow => ?_
    have goesOn (hf : flow = .normal ∨ flow = .continue) :
        Eval.Keeps H (Stores ⟨fuel + 1, .loop condition body increment?, m⟩) (FlowBorn H)
          (Eval.nextTurn fuel condition body increment?) m₂ := by
      cases increment? with
      | none => exact h _ (.again hc hv hb hf)
      | some increment =>
        refine .bind (h _ (.increment hc hv hb hf)) fun u m₃ hi _ _ _ => ?_
        exact h _ (.incremented hc hv hb hf hi)
    cases flow with
    | normal => exact goesOn (.inl rfl)
    | «continue» => exact goesOn (.inr rfl)
    | «return» v => exact .pure hm₂ hflow
    | «break» => exact .pure hm₂ trivial
  · exact .pure hm₁ trivial

theorem executeAll {ss : List Stmt} (h : KeepsOn H ⟨fuel + 1, .executeAll ss, m⟩)
    (hm : m.Born H) : Eval.Keeps H (Stores ⟨fuel + 1, .executeAll ss, m⟩) (FlowBorn H)
      (Eval.executeAll (fuel + 1) ss) m := by
  cases ss with
  | nil => exact .pure hm trivial
  | cons s ss =>
    refine .bind (h _ .first) fun flow m₁ hs _ hm₁ hflow => ?_
    cases flow with
    | normal => exact h _ (.next hs)
    | _ => exact .pure hm₁ hflow

end Point.KeepsOn

/-- Every tracked task keeps what holds of its machine. -/
theorem Point.Tracked.keeps : ∀ {a : Point}, a.Tracked H → a.Keeps H a.Stores := by
  rintro ⟨fuel, task, m⟩
  induction fuel generalizing task m with
  | zero =>
    intro h
    have hstuck : ∀ {α : Type} {Q : Machine → α → Prop},
        Eval.Keeps H (Stores ⟨0, task, m⟩) Q Fueled.exhausted m := .exhausted h.born
    cases task with
    | _ => exact hstuck
  | succ fuel ih =>
    intro h
    have hkeeps : ∀ b, Starts ⟨fuel + 1, task, m⟩ b → b.Tracked H →
        b.Keeps H (Stores ⟨fuel + 1, task, m⟩) := by
      intro ⟨fuel', task', m'⟩ hs hb
      cases hs.fuel_eq
      exact (ih task' m' hb).mono fun _ _ _ => hs.stores
    have hon : KeepsOn H ⟨fuel + 1, task, m⟩ :=
      fun b hs => hkeeps b hs (hs.arrives h hkeeps).tracked
    obtain ⟨hvisited, hm, ht⟩ := h
    cases task with
    | evaluate e => exact hon.evaluate hm (hvisited _ _ .here) ht
    | evaluateAll es => exact hon.evaluateAll hm
    | readProperty property line => exact hon.readProperty hm ht
    | call c vs line => exact hon.call hm ht.2
    | run closure vs => exact hon.run hm ht.2
    | construct c vs => exact hon.construct hm ht.1
    | execute s => exact hon.execute hm (hvisited _ _ .here) ht
    | loop condition body increment? => exact hon.loop
    | executeAll ss => exact hon.executeAll hm

theorem Point.Tracked.leads (h : a.Tracked H) : a.Leads H :=
  ⟨h.visited, fun _ hs hb => hb.keeps.mono fun _ _ _ => hs.stores⟩

theorem Reaches.stores {underway : List (Nat × String)} (h : Reaches a underway b) {id : Nat}
    {name : String} {v : Value} (hb : b.Stores id name v) : a.Stores id name v := by
  induction h with
  | here => exact hb
  | next _ hs ih => exact ih (hs.stores hb)

/-- All is known of every point that a run comes to from a tracked one. -/
theorem Reaches.arrives {underway : List (Nat × String)} (h : Reaches a underway b)
    (ha : a.Tracked H) : a.Arrives H b := by
  induction h with
  | here => exact ⟨ha, .refl _⟩
  | next h hs ih =>
    have harrives := hs.arrives ih.tracked fun c hc ht => ht.keeps.mono fun _ _ _ => hc.stores
    exact ⟨harrives.tracked, ih.grows.trans (harrives.grows.mono fun _ _ _ => h.stores)⟩

end LoxLang
