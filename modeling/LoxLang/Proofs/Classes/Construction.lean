import LoxLang.Proofs.Classes.Properties

/-!
Calls. A class takes as many arguments as its nearest initializer, and gives a new instance however
the initializer ends. A call of an initializer gives the instance that it is bound to, and a call of
any other function the value that its own body ends with.
-/

namespace LoxLang

variable {H : Chronicle} {a : Point} {m m₁ : Machine} {c : ClassValue} {gs : List Generation}
  {closure member : Closure} {key : String} {i : Instance}

/-- The parameters of the nearest initializer, none without one. -/
def parameterCount (gs : List Generation) : Nat :=
  ((gs.findSome? (·.method? "init")).map Closure.arity).getD 0

theorem ClassValue.mem_chain : (c : ClassValue) → c ∈ c.chain
  | ⟨_, _, none, _⟩ => List.mem_cons_self
  | ⟨_, _, some _, _⟩ => List.mem_cons_self

namespace Ancestry

theorem arity (h : Ancestry H c gs) : (Callable.class c).arity = parameterCount gs := by
  show ((c.method? "init").map Closure.arity).getD 0 = parameterCount gs
  rw [h.method? (by decide)]
  rfl

/-- Of the members of a class, only the methods called `init` are initializers. -/
theorem isInitializer_iff (h : Ancestry H c gs) (hk : c.members.find? key = some member) :
    member.isInitializer = true ↔ key = "init" := by
  obtain ⟨g, hg, rfl⟩ := List.mem_map.mp (h.chain ▸ c.mem_chain)
  rw [(h.made g hg).members] at hk
  rcases mem_of_find?_memberTable _ hk with ⟨f, -, rfl, rfl⟩ | ⟨f, -, rfl, rfl⟩
  · dsimp only
    unfold Function.methodKind
    split <;> simp_all
  · refine iff_of_false Bool.false_ne_true fun hinit => ?_
    have hspace := space_mem_getterKey f.displayName
    rw [hinit] at hspace
    exact absurd hspace (by decide)

end Ancestry

/-- Whether an instance has been made. They are numbered one behind the other. -/
def Machine.HasMade (m : Machine) (i : Instance) : Prop :=
  i.id < m.fields.size

/-- The value that the body of a function ends with. -/
def Flow.value : Flow → Value
  | .return v => v
  | _ => .nil

/-- The machine in which the body of a function runs. -/
def Machine.entering (m : Machine) (closure : Closure) (vs : List Value) : Machine :=
  { m with
    scopes := m.scopes.push (parameterTable closure.function.parameters vs)
    environment := m.scopes.next :: closure.environment }

namespace Eval

variable {fuel id line : Nat} {vs : List Value} {v : Value}

theorem resultOf_own (h : closure.isInitializer = false) (flow : Flow) (m : Machine) :
    resultOf closure flow m = .ok flow.value m := by
  unfold resultOf
  rw [h]
  cases flow <;> rfl

/-- An initializer gives the instance that it is bound to, whatever its body ends with. -/
theorem resultOf_initializer (h : closure.isInitializer = true)
    (hb : closure.BoundTo m c key i) (flow : Flow) :
    resultOf closure flow m = .ok (.instance i) m := by
  obtain ⟨member, scope, -, rfl, hthis⟩ := hb
  have hread : m.scopes.readAt (scope :: member.environment) 0
      ⟨"this", member.function.line⟩ = .ok (.instance i) := by
    unfold Scopes.readAt Scopes.findAt?
    simp only [List.getElem?_cons_zero, Option.bind_some, hthis]
  have hinitializer : member.isInitializer = true := h
  unfold resultOf
  simp only [hinitializer, if_true]
  rw [Fueled.bind_get, hread]
  rfl

theorem callableOf_callable (callable : Callable) (count line : Nat) (m : Machine) :
    callableOf (.callable callable) count line m = if count = callable.arity then .ok callable m
      else .error (.failed (.runtime line (.wrongArity callable.arity count))) m := by
  have hcheck : callableOf (.callable callable) count line m = (if count ≠ callable.arity then
      failAt line (.wrongArity callable.arity count) >>= fun () => pure callable
      else pure callable : Eval Callable) m := rfl
  by_cases h : count = callable.arity
  · rw [hcheck, if_pos h, if_neg (not_not.mpr h)]
    rfl
  · rw [hcheck, if_neg h, if_pos h]
    rfl

/-- A function runs its body, and has a value by how the body ends. -/
theorem run_ok (h : run (fuel + 1) closure vs m = .ok v m₁) : ∃ flow m₂,
    executeAll fuel closure.function.body (m.entering closure vs) = .ok flow m₂ ∧
      resultOf closure flow (m₂.inside m.environment) = .ok v m₁ := by
  obtain ⟨environment, m₂, ho, hrest⟩ := Fueled.exists_of_bind_eq_ok h
  cases ho
  obtain ⟨flow, m₃, hwithin, hresult⟩ := Fueled.exists_of_bind_eq_ok hrest
  obtain ⟨m₄, hbody, rfl⟩ := exists_of_within_eq_ok hwithin
  exact ⟨flow, m₄, hbody, hresult⟩

theorem call_function_ok (h : call (fuel + 1) (.function id closure) vs line m = .ok v m₁) :
    checkDepth line m = .ok () m ∧ ∃ m₂, run fuel closure vs { m with depth := m.depth + 1 } =
      .ok v m₂ := by
  obtain ⟨⟨⟩, m₂, hroom, h⟩ := Fueled.exists_of_bind_eq_ok h
  cases checkDepth_eq hroom
  obtain ⟨m₃, hrun, -⟩ := exists_of_nested_eq_ok h
  exact ⟨hroom, m₃, hrun⟩

/-- A class that is called gives the instance that is made first of all. -/
theorem construct_ok (h : construct (fuel + 1) c vs m = .ok v m₁) :
    v = .instance ⟨m.fields.size, c⟩ := by
  have hnew : newInstance c m = .ok ⟨m.fields.size, c⟩
    { m with fields := m.fields.push .empty } := rfl
  obtain ⟨i, m₂, hi, h⟩ := Fueled.exists_of_bind_eq_ok h
  rw [hnew] at hi
  cases hi
  cases hinit : c.initializer? with
  | none =>
    simp only [hinit] at h
    cases h
    rfl
  | some method =>
    simp only [hinit] at h
    obtain ⟨bound, m₃, -, h⟩ := Fueled.exists_of_bind_eq_ok h
    obtain ⟨u, m₄, -, h⟩ := Fueled.exists_of_bind_eq_ok h
    cases h
    rfl

theorem call_class_ok (h : call fuel (.class c) vs line m = .ok v m₁) :
    v = .instance ⟨m.fields.size, c⟩ := by
  cases fuel with
  | zero => cases h
  | succ fuel =>
    obtain ⟨⟨⟩, m₂, hroom, h⟩ := Fueled.exists_of_bind_eq_ok h
    cases checkDepth_eq hroom
    obtain ⟨m₃, hconstruct, -⟩ := exists_of_nested_eq_ok h
    cases fuel with
    | zero => cases hconstruct
    | succ fuel =>
      have hmade := construct_ok hconstruct
      exact hmade

theorem callableOf_eq {u : Value} {callable : Callable} {count : Nat}
    (h : callableOf u count line m = .ok callable m₁) : u = .callable callable ∧ m₁ = m := by
  cases u with
  | callable found =>
    rw [callableOf_callable] at h
    split at h <;> cases h
    exact ⟨rfl, rfl⟩
  | _ => cases h

/-- A call that gives a value is one of a function or a class, once its arguments are known. -/
theorem evaluate_call_ok {callee : Expr} {arguments : List Expr}
    (h : evaluate (fuel + 1) (.call callee line arguments) m = .ok v m₁) :
    ∃ callable m₂ vs m₃, evaluate fuel callee m = .ok (.callable callable) m₂ ∧
      evaluateAll fuel arguments m₂ = .ok vs m₃ ∧
      callableOf (.callable callable) vs.length line m₃ = .ok callable m₃ ∧
      call fuel callable vs line m₃ = .ok v m₁ := by
  obtain ⟨u, m₂, hcallee, hrest⟩ := Fueled.exists_of_bind_eq_ok h
  obtain ⟨vs, m₃, harguments, hchecked⟩ := Fueled.exists_of_bind_eq_ok hrest
  obtain ⟨callable, m₄, hcallable, hcall⟩ := Fueled.exists_of_bind_eq_ok hchecked
  obtain ⟨rfl, rfl⟩ := callableOf_eq hcallable
  exact ⟨callable, m₂, vs, m₄, hcallee, harguments, hcallable, hcall⟩

end Eval

/-- What a call of a function has given whose body ended so. The function was declared, or is a
member of a class that is bound to an instance, a method under its name or a getter under its
key. -/
structure Returned (H : Chronicle) (m : Machine) (closure : Closure) (flow : Flow) (v : Value) :
    Prop where
  origin : closure.DeclaredIn H ∨ ∃ c gs key i, Ancestry H c gs ∧ closure.BoundTo m c key i
  initializer : ∀ {c gs i}, Ancestry H c gs → closure.BoundTo m c "init" i → v = .instance i
  method : ∀ {c gs name i}, Ancestry H c gs → closure.BoundTo m c name i → name ≠ "init" →
    v = flow.value
  getter : ∀ {c gs name i}, Ancestry H c gs → closure.BoundTo m c (getterKey name) i →
    v = flow.value
  declared : closure.DeclaredIn H → v = flow.value

/-- What a call of a class comes to: the arguments are counted, and then it gives an instance of the
class that is none of those made before. -/
structure Constructs (fuel : Nat) (callee : Expr) (line : Nat) (arguments : List Expr)
    (m m₁ : Machine) (c : ClassValue) (gs : List Generation) (vs : List Value) : Prop where
  refused : vs.length ≠ parameterCount gs →
    Eval.evaluate (fuel + 1) (.call callee line arguments) m =
      .error (.failed (.runtime line (.wrongArity (parameterCount gs) vs.length))) m₁
  called : vs.length = parameterCount gs →
    Eval.evaluate (fuel + 1) (.call callee line arguments) m = Eval.call fuel (.class c) vs line m₁
  built : ∀ v m₂, Eval.evaluate (fuel + 1) (.call callee line arguments) m = .ok v m₂ →
    ∃ i, v = .instance i ∧ i.class = c ∧ m₂.HasMade i ∧
      ∀ j, m₁.HasMade j → v.same (.instance j) = false

/-- What a class has under a key for an instance is bound to it. -/
theorem ClassBorn.boundTo (h : ClassBorn H m c) (hk : c.method? key = some member) (m₁ : Machine)
    (i : Instance) : ∃ c' gs, Ancestry H c' gs ∧
      (member.boundIn m₁.scopes.next).BoundTo (m₁.binding i) c' key i := by
  obtain ⟨c', hc', hmember⟩ := h.member hk
  obtain ⟨gs, hg⟩ := hc'.exists_ancestry
  exact ⟨c', gs, hg, member, m₁.scopes.next, hmember, rfl, m₁.value?_binding i⟩

/-- A bound member is an initializer if it is bound from the methods called `init`. -/
theorem Ancestry.isInitializer_iff_of_boundTo (h : Ancestry H c gs)
    (hb : closure.BoundTo m c key i) : closure.isInitializer = true ↔ key = "init" := by
  obtain ⟨member, scope, hmember, rfl, -⟩ := hb
  have hflag := h.isInitializer_iff hmember
  exact hflag

/-- What holds of calls at a point. -/
structure ConstructionLaw (H : Chronicle) (a : Point) : Prop where
  construct : ∀ {fuel callee line arguments c vs m₁ m₂},
    a.task = .evaluate (.call callee line arguments) → a.fuel = fuel + 1 →
    Eval.evaluate fuel callee a.machine = .ok (.callable (.class c)) m₁ →
    Eval.evaluateAll fuel arguments m₁ = .ok vs m₂ →
    ∃ gs, Ancestry H c gs ∧ Constructs fuel callee line arguments a.machine m₂ c gs vs
  /-- An instance that is there in any way has been made. -/
  held : ∀ i, a.machine.Holds (.instance i) → a.machine.HasMade i
  given : ∀ {e i m'}, a.task = .evaluate e →
    Eval.evaluate a.fuel e a.machine = .ok (.instance i) m' → m'.HasMade i
  kept : ∀ {m' i}, a.Passes m' → a.machine.HasMade i → m'.HasMade i
  call : ∀ {id closure vs line v m'}, a.task = .call (.function id closure) vs line →
    Eval.call a.fuel (.function id closure) vs line a.machine = .ok v m' →
    ∃ fuel flow m₁, a.fuel = fuel + 2 ∧
      Eval.executeAll fuel closure.function.body
        (Machine.entering { a.machine with depth := a.machine.depth + 1 } closure vs) =
          .ok flow m₁ ∧
      Returned H a.machine closure flow v
  /-- An initializer that is called as a value, wherever it has been stored. -/
  throughValue : ∀ {fuel callee line arguments id closure m₁ c gs i v m'},
    a.task = .evaluate (.call callee line arguments) → a.fuel = fuel + 1 →
    Eval.evaluate fuel callee a.machine = .ok (.callable (.function id closure)) m₁ →
    Ancestry H c gs → closure.BoundTo m₁ c "init" i →
    Eval.evaluate (fuel + 1) (.call callee line arguments) a.machine = .ok v m' → v = .instance i
  /-- An initializer that is called through an instance. -/
  throughInstance : ∀ {fuel object name line arguments i m₁ v m'},
    a.task = .evaluate (.call (.get object name) line arguments) → name.text = "init" →
    a.fuel = fuel + 3 → Eval.evaluate (fuel + 1) object a.machine = .ok (.instance i) m₁ →
    m₁.field? i.id "init" = none → i.class.getter? "init" = none →
    Eval.evaluate (fuel + 3) (.call (.get object name) line arguments) a.machine = .ok v m' →
    v = .instance i
  /-- An initializer that is called through a superclass. -/
  throughSuper : ∀ {fuel id place name line arguments s i v m'},
    a.task = .evaluate (.call (.super id place name) line arguments) → name.text = "init" →
    a.fuel = fuel + 3 → Eval.superOf id place a.machine = .ok (s, i) a.machine →
    s.method? "init" ≠ none →
    Eval.evaluate (fuel + 3) (.call (.super id place name) line arguments) a.machine = .ok v m' →
    v = .instance i

namespace Point.Tracked

variable {fuel id line : Nat} {callee : Expr} {arguments : List Expr} {vs : List Value} {v : Value}

/-- What a function is bound to it is still bound to behind its body. -/
theorem returned (h : Tracked H ⟨fuel, .call (.function id closure) vs line, m⟩)
    (hx : Eval.call fuel (.function id closure) vs line m = .ok v m₁) :
    ∃ budget flow m₂, fuel = budget + 2 ∧ Eval.executeAll budget closure.function.body
      (Machine.entering { m with depth := m.depth + 1 } closure vs) = .ok flow m₂ ∧
      Returned H m closure flow v := by
  obtain _ | fuel := fuel
  · cases hx
  obtain ⟨hroom, m₂, hrun⟩ := Eval.call_function_ok hx
  obtain _ | fuel := fuel
  · cases hrun
  obtain ⟨flow, m₃, hbody, hresult⟩ := Eval.run_ok hrun
  have hreached : Reaches ⟨fuel + 2, .call (.function id closure) vs line, m⟩ _
      ⟨fuel, .executeAll closure.function.body,
        Machine.entering { m with depth := m.depth + 1 } closure vs⟩ :=
    (Reaches.here.next (.function hroom)).next (.body rfl)
  have harrives := hreached.arrives h
  have hends := Eval.Keeps.after harrives.tracked.keeps hbody
  have hkept : ∀ {c key i}, closure.BoundTo m c key i →
      closure.BoundTo (m₃.inside m.environment) c key i := fun hb =>
    ((hb.mono harrives.grows).mono hends.1.toGrows).mono (.inside m₃ _ m₃.depth)
  have own (hc : closure.isInitializer = false) : v = flow.value := by
    rw [Eval.resultOf_own hc] at hresult
    cases hresult
    rfl
  have member {c : ClassValue} {gs : List Generation} {key : String} {i : Instance}
      (hg : Ancestry H c gs) (hb : closure.BoundTo m c key i) (hkey : key ≠ "init") :
      v = flow.value :=
    own (Bool.eq_false_iff.mpr fun hc => hkey ((hg.isInitializer_iff_of_boundTo hb).mp hc))
  refine ⟨fuel, flow, m₃, rfl, hbody, ?_, ?_, member, ?_, ?_⟩
  · have hborn : ClosureBorn H m closure := h.task.1
    cases hborn with
    | declared hd _ _ _ => exact .inl hd
    | @member c key i hc _ hb =>
      obtain ⟨gs, hg⟩ := hc.exists_ancestry
      exact .inr ⟨c, gs, key, i, hg, hb⟩
  · intro c gs i hg hb
    have hc := (hg.isInitializer_iff_of_boundTo hb).mpr rfl
    have hinit := Eval.resultOf_initializer hc (hkept hb) flow
    have hsame := hinit.symm.trans hresult
    cases hsame
    rfl
  · intro c gs name i hg hb
    refine member hg hb fun hinit => ?_
    have hspace := space_mem_getterKey name
    rw [hinit] at hspace
    exact absurd hspace (by decide)
  · rintro ⟨_, _, _, -, rfl⟩
    exact own rfl

/-- A class that is called has as many arguments as it takes, and gives what is made then. -/
theorem constructs {m₂ : Machine}
    (h : Tracked H ⟨fuel + 1, .evaluate (.call callee line arguments), m⟩)
    (hcallee : Eval.evaluate fuel callee m = .ok (.callable (.class c)) m₁)
    (harguments : Eval.evaluateAll fuel arguments m₁ = .ok vs m₂) :
    ∃ gs, Ancestry H c gs ∧ Constructs fuel callee line arguments m m₂ c gs vs := by
  have hs : m.Situated H fun p => (Expr.call callee line arguments).At H.mentions p := h.task
  obtain ⟨-, -, hc⟩ := h.leads.evaluated .callee h.born (hs.imp fun _ => Settled.left) hcallee
  have hc : ClassBorn H m₁ c := hc
  obtain ⟨gs, hg⟩ := hc.exists_ancestry
  have hrun : Eval.evaluate (fuel + 1) (.call callee line arguments) m =
      (Eval.callableOf (.callable (.class c)) vs.length line >>= fun callable =>
        Eval.call fuel callable vs line) m₂ :=
    (Fueled.bind_ok hcallee).trans (Fueled.bind_ok harguments)
  have hcheck := Eval.callableOf_callable (.class c) vs.length line m₂
  rw [hg.arity] at hcheck
  refine ⟨gs, hg, fun hcount => ?_, fun hcount => ?_, fun v m₃ hx => ?_⟩
  · rw [if_neg hcount] at hcheck
    rw [hrun, Fueled.bind_error hcheck]
  · rw [if_pos hcount] at hcheck
    rw [hrun, Fueled.bind_ok hcheck]
  · obtain ⟨callable, m₄, vs', m₅, hcallee', harguments', hcallable, hcall⟩ :=
      Eval.evaluate_call_ok hx
    cases hcallee.symm.trans hcallee'
    cases harguments.symm.trans harguments'
    obtain rfl := Eval.call_class_ok hcall
    have hcalled := (Reaches.here.next (.called hcallee harguments hcallable)).arrives h
    obtain ⟨-, -, hmade, -⟩ := Eval.Keeps.after hcalled.tracked.keeps hcall
    refine ⟨_, rfl, rfl, hmade, fun j hj => ?_⟩
    exact decide_eq_false (Nat.ne_of_gt hj)

/-- A call of an initializer gives the instance that it is bound to. -/
theorem initializes (h : Tracked H ⟨fuel + 1, .evaluate (.call callee line arguments), m⟩)
    (hcallee : Eval.evaluate fuel callee m = .ok (.callable (.function id closure)) m₁)
    (hg : Ancestry H c gs) (hb : closure.BoundTo m₁ c "init" i) {m' : Machine}
    (hx : Eval.evaluate (fuel + 1) (.call callee line arguments) m = .ok v m') :
    v = .instance i := by
  obtain ⟨callable, m₂, vs, m₃, hcallee', harguments, hcallable, hcall⟩ :=
    Eval.evaluate_call_ok hx
  cases hcallee.symm.trans hcallee'
  have hcalled := (Reaches.here.next (.called hcallee harguments hcallable)).arrives h
  have hstarted := (Reaches.here.next (.arguments hcallee)).arrives h
  obtain ⟨hp, -, -⟩ := Eval.Keeps.after hstarted.tracked.keeps harguments
  obtain ⟨_, _, _, -, -, hreturned⟩ := hcalled.tracked.returned hcall
  exact hreturned.initializer hg (hb.mono hp.toGrows)

/-- An initializer that is called through an instance gives the instance. -/
theorem initializes_get {object : Expr} {name : Name}
    (h : Tracked H ⟨fuel + 3, .evaluate (.call (.get object name) line arguments), m⟩)
    (hname : name.text = "init") (ho : Eval.evaluate (fuel + 1) object m = .ok (.instance i) m₁)
    (hfield : m₁.field? i.id "init" = none) (hgetter : i.class.getter? "init" = none)
    {m' : Machine} (hx : Eval.evaluate (fuel + 3) (.call (.get object name) line arguments) m =
      .ok v m') : v = .instance i := by
  have hread := (Reaches.here.next .callee).arrives h
  have hobject := (Reaches.here.next .object).arrives hread.tracked
  obtain ⟨-, -, hborn⟩ := Eval.Keeps.after hobject.tracked.keeps ho
  have hborn : InstanceBorn H m₁ i := hborn
  obtain ⟨gs, hg, hreads⟩ := hread.tracked.reads ho
  rw [← hname] at hfield hgetter
  rw [hg.getter?] at hgetter
  have hspace : ' ' ∉ name.text.toList := by
    rw [hname]
    decide
  have hmethod := hg.method? hspace
  cases hfound : i.class.method? name.text with
  | none =>
    have hmissing := hreads.missing hfield hgetter (hmethod.symm.trans hfound)
    obtain ⟨_, _, _, _, hcallee, -⟩ := Eval.evaluate_call_ok hx
    cases hmissing.symm.trans hcallee
  | some member =>
    have hbound := hreads.bound member hfield hgetter (hmethod.symm.trans hfound)
    obtain ⟨c, gs', hg', hb⟩ := hborn.2.boundTo hfound m₁ i
    rw [hname] at hb
    exact h.initializes hbound hg' hb hx

/-- An initializer that is called through a superclass gives the `this` of the call around. -/
theorem initializes_super {place : Nat} {name : Name} {s : ClassValue}
    (h : Tracked H ⟨fuel + 3, .evaluate (.call (.super id place name) line arguments), m⟩)
    (hname : name.text = "init") (hsuper : Eval.superOf id place m = .ok (s, i) m)
    (hinit : s.method? "init" ≠ none) {m' : Machine}
    (hx : Eval.evaluate (fuel + 3) (.call (.super id place name) line arguments) m = .ok v m') :
    v = .instance i := by
  obtain ⟨member, hfound⟩ := Option.ne_none_iff_exists'.mp hinit
  obtain ⟨-, -, hs, -⟩ := (Eval.superOf_keeps h.born id place).passes hsuper
  have hs : ClassBorn H m s := hs
  obtain ⟨c, gs, hg, hb⟩ := hs.boundTo hfound m i
  have hreads : SuperReads fuel id place name m s i := superReads_of_superOf hsuper
  have hbound := hreads.bound member (hname.symm ▸ hfound)
  exact h.initializes hbound hg hb hx

theorem construction (h : a.Tracked H) : ConstructionLaw H a := by
  refine ⟨?_, fun i hi => (h.born _ hi).1, ?_,
    fun hp hi => Nat.lt_of_lt_of_le hi (h.grows hp).fields, ?_, ?_, ?_, ?_⟩
  · intro fuel callee line arguments c vs m₁ m₂ ht hf hcallee harguments
    obtain ⟨budget, task, m⟩ := a
    cases ht
    cases hf
    exact h.constructs hcallee harguments
  · intro e i m' ht hx
    obtain ⟨budget, task, m⟩ := a
    cases ht
    obtain ⟨-, -, hi⟩ := Eval.Keeps.after h.keeps hx
    exact hi.1
  · intro id closure vs line v m' ht hx
    obtain ⟨budget, task, m⟩ := a
    cases ht
    exact h.returned hx
  · intro fuel callee line arguments id closure m₁ c gs i v m' ht hf hcallee hg hb hx
    obtain ⟨budget, task, m⟩ := a
    cases ht
    cases hf
    exact h.initializes hcallee hg hb hx
  · intro fuel object name line arguments i m₁ v m' ht hname hf ho hfield hgetter hx
    obtain ⟨budget, task, m⟩ := a
    cases ht
    cases hf
    exact h.initializes_get hname ho hfield hgetter hx
  · intro fuel id place name line arguments s i v m' ht hname hf hsuper hinit hx
    obtain ⟨budget, task, m⟩ := a
    cases ht
    cases hf
    exact h.initializes_super hname hsuper hinit hx

end Point.Tracked

namespace Session

variable {maxDepth : Nat} {input : List UInt8} {sink : Sink} {clock : Nat → Nat} {memory : Memory}
  {history : List Stmt} {past : Point → Prop} {s s' : Session} {entry : Entry} {program : Program}

/-- At any point of any session, a class takes the arguments of its nearest initializer and gives a
new instance of it, every call of an initializer gives the instance that it is bound to, and every
other call of a function what its own body ends with. -/
theorem Lived.construction_law (h : Lived maxDepth input sink clock memory history past s)
    (ha : s.accepted? entry = some (program, s')) {fuel : Nat} {underway : List (Nat × String)}
    (hr : Reaches (s'.starting fuel program) underway a) :
    ConstructionLaw (s'.running history past fuel program) a :=
  (h.tracked ha hr).construction

/-- A class that inherits its initializer gives its instance also to a later call of it. -/
theorem Lived.construction_law_inherited : ∃ program s' underway m i m₁ m₂,
    (Session.start 1024 [] .open fun _ => 0).accepted? (.program ("class A \x7b init() \x7b " ++
      "while (true) \x7b return; \x7d \x7d \x7d class B < A \x7b \x7d B().init();")) =
        some (program, s') ∧
    Reaches (s'.starting 50 program) underway ⟨46, .evaluate (.call (.get
      (.call (.variable ⟨1, ⟨"B", 1⟩⟩) 1 []) ⟨"init", 1⟩) 1 []), m⟩ ∧
    Eval.evaluate 44 (.call (.variable ⟨1, ⟨"B", 1⟩⟩) 1 []) m = .ok (.instance i) m₁ ∧
    Eval.evaluate 46 (.call (.get (.call (.variable ⟨1, ⟨"B", 1⟩⟩) 1 []) ⟨"init", 1⟩) 1 []) m =
      .ok (.instance i) m₂ := by
  have ha : (Session.start 1024 [] .open fun _ => 0).accepted? (.program
      ("class A \x7b init() \x7b while (true) \x7b return; \x7d \x7d \x7d " ++
        "class B < A \x7b \x7d B().init();")) =
      some (⟨[.class ⟨⟨"A", 1⟩, none, [⟨some ⟨"init", 1⟩, [],
          [.while (.literal (.bool true)) (.block [.return 1 none]) none], 1⟩], []⟩,
        .class ⟨⟨"B", 1⟩, some ⟨0, ⟨"A", 1⟩⟩, [], []⟩,
        .expression (.call (.get (.call (.variable ⟨1, ⟨"B", 1⟩⟩) 1 []) ⟨"init", 1⟩) 1 [])], 2⟩,
        ⟨Machine.start 1024 [] .open fun _ => 0, 0⟩) := by
    cbv
  have hstart : ∀ {source : String} {program : Program} {s' : Session},
      (Session.start 1024 [] .open fun _ => 0).accepted? (.program source) = some (program, s') →
      Reaches (s'.starting 50 program) [] (s'.starting 50 program) := fun _ => .here
  have hA := (hstart ha).next (.next (by cbv))
  have hB := hA.next (.next (by cbv))
  obtain ⟨underway, m, hr, i, m₁, v, m₂, ho, hfield, hgetter, hx⟩ :
      ∃ underway m, Reaches (starting _ 50 _) underway ⟨46, .evaluate (.call (.get
          (.call (.variable ⟨1, ⟨"B", 1⟩⟩) 1 []) ⟨"init", 1⟩) 1 []), m⟩ ∧
        ∃ i m₁ v m₂, Eval.evaluate 44 (.call (.variable ⟨1, ⟨"B", 1⟩⟩) 1 []) m =
            .ok (.instance i) m₁ ∧
          m₁.field? i.id "init" = none ∧ i.class.getter? "init" = none ∧
          Eval.evaluate 46 (.call (.get (.call (.variable ⟨1, ⟨"B", 1⟩⟩) 1 []) ⟨"init", 1⟩) 1 [])
            m = .ok v m₂ :=
    ⟨_, _, (hB.next .first).next .expression, _, _, _, _, by cbv, by cbv, by cbv, by cbv⟩
  have hlaw := Lived.construction_law .start ha hr
  obtain rfl := hlaw.throughInstance rfl rfl rfl ho hfield hgetter hx
  exact ⟨_, _, underway, m, i, m₁, m₂, ha, hr, ho, hx⟩

end Session

end LoxLang
