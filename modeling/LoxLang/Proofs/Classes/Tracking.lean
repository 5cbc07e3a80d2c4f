import LoxLang.Proofs.Classes.Operations

/-!
What is known of every point that a run comes to: its machine holds only values that have come
about, and its code stands in a known place or its task has such values. A step lemma has a case for
each way to start a task, another one says of each task that it keeps what holds of the machine if
the tasks that it starts do, and the run lemmas follow by induction.
-/

namespace LoxLang

variable {H : Chronicle} {stored stored' : Nat → String → Value → Prop} {m m₁ : Machine}
  {a b : Point}

/-- Whether a value is stored, on the way from a point, in a field of an instance. -/
def Point.Stores (a : Point) (id : Nat) (name : String) (v : Value) : Prop :=
  ∃ underway fuel object key value i m m₁ m₂,
    Reaches a underway ⟨fuel + 1, .evaluate (.set object key value), m⟩ ∧
    Eval.evaluate fuel object m = .ok (.instance i) m₁ ∧
    Eval.evaluate fuel value m₁ = .ok v m₂ ∧ i.id = id ∧ key.text = name

theorem Starts.stores {id : Nat} {name : String} {v : Value} (hs : Starts a b)
    (h : b.Stores id name v) : a.Stores id name v := by
  obtain ⟨underway, fuel, object, key, value, i, m, m₁, m₂, hr, hstored⟩ := h
  exact ⟨_, fuel, object, key, value, i, m, m₁, m₂, .head hs hr, hstored⟩

/-- A call may be made only if it may, and nothing else changes. -/
theorem Eval.checkDepth_eq {line : Nat} {u : Unit} (h : checkDepth line m = .ok u m₁) : m₁ = m := by
  unfold checkDepth at h
  rw [Fueled.bind_get] at h
  split at h
  · cases h
  · cases h
    rfl

/-- A field is set on an instance. -/
theorem Eval.instanceOf_eq {v : Value} {name : Name} {i : Instance}
    (h : instanceOf v name m = .ok i m₁) : v = .instance i ∧ m₁ = m := by
  unfold instanceOf at h
  split at h
  · cases h
    exact ⟨rfl, rfl⟩
  · cases h

/-- The variables of a call are its arguments. -/
theorem mem_of_find?_parameterTable {parameters : List Name} {vs : List Value} {name : String}
    {v : Value} (h : (parameterTable parameters vs).find? name = some v) : v ∈ vs := by
  have foldl (pairs : List (Name × Value)) (t : Table Value)
      (h : (pairs.foldl (fun t pair => t.insert pair.1.text pair.2) t).find? name = some v) :
      v ∈ pairs.map Prod.snd ∨ t.find? name = some v := by
    induction pairs generalizing t with
    | nil => exact .inr h
    | cons pair pairs ih =>
      rcases ih _ h with hmem | hfound
      · exact .inl (List.mem_cons_of_mem _ hmem)
      · rw [Table.find?_insert] at hfound
        split at hfound
        · cases hfound
          exact .inl List.mem_cons_self
        · exact .inr hfound
  rcases foldl _ _ h with hmem | hnone
  · obtain ⟨pair, hpair, rfl⟩ := List.mem_map.mp hmem
    exact (List.of_mem_zip hpair).2
  · cases hnone

/-- Whether code stands in a known place where a machine is. -/
def Machine.Situated (H : Chronicle) (m : Machine) (code : Setting → Prop) : Prop :=
  ∃ p : Setting, p.Fits ∧ p.Rooted H m m.environment ∧ code p

theorem Machine.Situated.imp {code code' : Setting → Prop} (h : m.Situated H code)
    (hc : ∀ p, code p → code' p) : m.Situated H code' := by
  obtain ⟨p, hp, hr, hcode⟩ := h
  exact ⟨p, hp, hr, hc p hcode⟩

theorem Machine.Situated.after {code : Setting → Prop} (h : m.Situated H code)
    (hp : m.Precedes stored m₁) : m₁.Situated H code := by
  obtain ⟨p, hfits, hr, hcode⟩ := h
  exact ⟨p, hfits, hp.environment ▸ hr.mono (.refl H) hp.toGrows, hcode⟩

/-- What is known of a task: of the code, or else of its values. -/
def Task.Born (H : Chronicle) (m : Machine) : Task → Prop
  | .evaluate e => m.Situated H fun p => e.At H.mentions p
  | .evaluateAll es => m.Situated H fun p => exprsAt H.mentions p es
  | .readProperty property _ => PropertyBorn H m property
  | .call c vs _ => CallableBorn H m c ∧ ∀ v ∈ vs, ValueBorn H m v
  | .run closure vs => ClosureBorn H m closure ∧ ∀ v ∈ vs, ValueBorn H m v
  | .construct c vs => ClassBorn H m c ∧ ∀ v ∈ vs, ValueBorn H m v
  | .execute s => m.Situated H fun p => s.At H.mentions p
  | .loop condition body increment? =>
    m.Situated H fun p => (Stmt.while condition body increment?).At H.mentions p
  | .executeAll ss => m.Situated H fun p => stmtsAt H.mentions p ss

/-- A point whose way is in the chronicle, of which all is known. -/
structure Point.Tracked (H : Chronicle) (a : Point) : Prop where
  visited : ∀ underway b, Reaches a underway b → H.points b
  born : a.machine.Born H
  task : a.task.Born H a.machine

/-- Whether a task keeps what holds of its machine. -/
def Point.Keeps (H : Chronicle) (stored : Nat → String → Value → Prop) (a : Point) : Prop :=
  match a.task with
  | .evaluate e => Eval.Keeps H stored (ValueBorn H) (Eval.evaluate a.fuel e) a.machine
  | .evaluateAll es => Eval.Keeps H stored (fun m vs => ∀ v ∈ vs, ValueBorn H m v)
      (Eval.evaluateAll a.fuel es) a.machine
  | .readProperty property line =>
    Eval.Keeps H stored (ValueBorn H) (Eval.readProperty a.fuel property line) a.machine
  | .call c vs line => Eval.Keeps H stored (ValueBorn H) (Eval.call a.fuel c vs line) a.machine
  | .run closure vs => Eval.Keeps H stored (ValueBorn H) (Eval.run a.fuel closure vs) a.machine
  | .construct c vs => Eval.Keeps H stored (ValueBorn H) (Eval.construct a.fuel c vs) a.machine
  | .execute s => Eval.Keeps H stored (FlowBorn H) (Eval.execute a.fuel s) a.machine
  | .loop condition body increment? =>
    Eval.Keeps H stored (FlowBorn H) (Eval.loop a.fuel condition body increment?) a.machine
  | .executeAll ss => Eval.Keeps H stored (FlowBorn H) (Eval.executeAll a.fuel ss) a.machine

theorem Eval.Keeps.mono {α : Type} {Q : Machine → α → Prop} {x : Eval α}
    (h : Keeps H stored Q x m) (hs : ∀ id name v, stored id name v → stored' id name v) :
    Keeps H stored' Q x m :=
  { h with precedes := h.precedes.mono hs }

theorem Point.Keeps.mono (h : a.Keeps H stored)
    (hs : ∀ id name v, stored id name v → stored' id name v) : a.Keeps H stored' := by
  obtain ⟨fuel, task, m⟩ := a
  cases task with
  | _ => exact Eval.Keeps.mono h hs

/-- Where a task is, if those that it starts keep what holds of their machines. -/
structure Point.Leads (H : Chronicle) (a : Point) : Prop where
  visited : ∀ underway b, Reaches a underway b → H.points b
  keeps : ∀ b, Starts a b → b.Tracked H → b.Keeps H a.Stores

theorem Eval.Keeps.after {α : Type} {Q : Machine → α → Prop} {x : Eval α} {r : α}
    (h : Keeps H stored Q x m) (hx : x m = .ok r m₁) :
    m.Precedes stored m₁ ∧ m₁.Born H ∧ Q m₁ r := by
  obtain ⟨hp, hb, hq⟩ := h
  rw [hx] at hp hb
  exact ⟨hp, hb, hq r m₁ hx⟩

/-- An operation stores nothing in a field, but for the one that sets it. -/
theorem Eval.Keeps.passes {α : Type} {Q : Machine → α → Prop} {x : Eval α} {r : α}
    (h : Keeps H (fun _ _ _ => False) Q x m) (hx : x m = .ok r m₁) :
    m.Precedes (fun _ _ _ => False) m₁ ∧ m₁.Born H ∧ Q m₁ r :=
  h.after hx

/-- What is known of a task that another one starts: its machine goes on where that of the other
was. -/
structure Point.Arrives (H : Chronicle) (a b : Point) : Prop where
  tracked : b.Tracked H
  grows : a.machine.Grows a.Stores b.machine

namespace Point.Leads

theorem tracked (ha : a.Leads H) (hs : Starts a b) (hm : b.machine.Born H)
    (hb : b.task.Born H b.machine) : b.Tracked H :=
  ⟨fun _ _ hr => ha.visited _ _ (.head hs hr), hm, hb⟩

theorem arrives (ha : a.Leads H) (hs : Starts a b) (hg : a.machine.Grows a.Stores b.machine)
    (hm : b.machine.Born H) (hb : b.task.Born H b.machine) : a.Arrives H b :=
  ⟨ha.tracked hs hm hb, hg⟩

theorem evaluated {fuel : Nat} {e : Expr} {v : Value} (ha : a.Leads H)
    (hs : Starts a ⟨fuel, .evaluate e, m⟩) (hm : m.Born H)
    (he : m.Situated H fun p => e.At H.mentions p) (hx : Eval.evaluate fuel e m = .ok v m₁) :
    m.Precedes a.Stores m₁ ∧ m₁.Born H ∧ ValueBorn H m₁ v :=
  Eval.Keeps.after (ha.keeps _ hs (ha.tracked hs hm he)) hx

theorem evaluatedAll {fuel : Nat} {es : List Expr} {vs : List Value} (ha : a.Leads H)
    (hs : Starts a ⟨fuel, .evaluateAll es, m⟩) (hm : m.Born H)
    (he : m.Situated H fun p => exprsAt H.mentions p es)
    (hx : Eval.evaluateAll fuel es m = .ok vs m₁) :
    m.Precedes a.Stores m₁ ∧ m₁.Born H ∧ ∀ v ∈ vs, ValueBorn H m₁ v :=
  Eval.Keeps.after (ha.keeps _ hs (ha.tracked hs hm he)) hx

theorem executed {fuel : Nat} {s : Stmt} {flow : Flow} (ha : a.Leads H)
    (hs : Starts a ⟨fuel, .execute s, m⟩) (hm : m.Born H)
    (he : m.Situated H fun p => s.At H.mentions p) (hx : Eval.execute fuel s m = .ok flow m₁) :
    m.Precedes a.Stores m₁ ∧ m₁.Born H ∧ FlowBorn H m₁ flow :=
  Eval.Keeps.after (ha.keeps _ hs (ha.tracked hs hm he)) hx

end Point.Leads

namespace Starts

variable {fuel : Nat}

/-- The tasks that an expression starts. -/
theorem evaluate_arrives {e : Expr} (h : Starts ⟨fuel, .evaluate e, m⟩ b)
    (ha : Point.Leads H ⟨fuel, .evaluate e, m⟩) (hm : m.Born H)
    (hs : m.Situated H fun p => e.At H.mentions p) : Point.Arrives H ⟨fuel, .evaluate e, m⟩ b := by
  cases h with
  | group => exact ha.arrives .group (.refl m) hm hs
  | unary => exact ha.arrives .unary (.refl m) hm hs
  | binaryLeft => exact ha.arrives .binaryLeft (.refl m) hm (hs.imp fun _ => Settled.left)
  | binaryRight h =>
    obtain ⟨hp, hm₁, -⟩ := ha.evaluated .binaryLeft hm (hs.imp fun _ => Settled.left) h
    exact ha.arrives (.binaryRight h) hp.toGrows hm₁ ((hs.imp fun _ => Settled.right).after hp)
  | logicalLeft => exact ha.arrives .logicalLeft (.refl m) hm (hs.imp fun _ => Settled.left)
  | logicalRight h hv =>
    obtain ⟨hp, hm₁, -⟩ := ha.evaluated .logicalLeft hm (hs.imp fun _ => Settled.left) h
    exact ha.arrives (.logicalRight h hv) hp.toGrows hm₁ ((hs.imp fun _ => Settled.right).after hp)
  | question => exact ha.arrives .question (.refl m) hm (hs.imp fun _ => Expr.At.question)
  | answer h =>
    obtain ⟨hp, hm₁, -⟩ := ha.evaluated .question hm (hs.imp fun _ => Expr.At.question) h
    exact ha.arrives (.answer h) hp.toGrows hm₁ ((hs.imp fun _ h => h.answer _).after hp)
  | commaLeft => exact ha.arrives .commaLeft (.refl m) hm (hs.imp fun _ => Settled.left)
  | commaRight h =>
    obtain ⟨hp, hm₁, -⟩ := ha.evaluated .commaLeft hm (hs.imp fun _ => Settled.left) h
    exact ha.arrives (.commaRight h) hp.toGrows hm₁ ((hs.imp fun _ => Settled.right).after hp)
  | assigned => exact ha.arrives .assigned (.refl m) hm (hs.imp fun _ h => h.assigned.2)
  | callee => exact ha.arrives .callee (.refl m) hm (hs.imp fun _ => Settled.left)
  | arguments h =>
    obtain ⟨hp, hm₁, -⟩ := ha.evaluated .callee hm (hs.imp fun _ => Settled.left) h
    exact ha.arrives (.arguments h) hp.toGrows hm₁ ((hs.imp fun _ => Settled.right).after hp)
  | called h hvs hc =>
    obtain ⟨hp₁, hm₁, hv⟩ := ha.evaluated .callee hm (hs.imp fun _ => Settled.left) h
    obtain ⟨hp₂, hm₂, hall⟩ := ha.evaluatedAll (.arguments h) hm₁
      ((hs.imp fun _ => Settled.right).after hp₁) hvs
    have hv := hv.mono (.refl H) hp₂.toGrows
    obtain ⟨hp₃, hm₃, hcallable⟩ := (Eval.callableOf_keeps hm₂ hv _ _).passes hc
    exact ha.arrives (.called h hvs hc) ((hp₁.trans hp₂).toGrows.trans hp₃.toGrows.any) hm₃
      ⟨hcallable, fun v hv => (hall v hv).mono (.refl H) hp₃.toGrows⟩
  | object => exact ha.arrives .object (.refl m) hm (hs.imp fun _ h => h.object)
  | property h hproperty =>
    obtain ⟨hp, hm₁, hv⟩ := ha.evaluated .object hm (hs.imp fun _ h => h.object) h
    obtain ⟨hp₂, hm₂, hborn⟩ := (Eval.propertyOfValue_keeps hm₁ hv _).passes hproperty
    exact ha.arrives (.property h hproperty) (hp.toGrows.trans hp₂.toGrows.any) hm₂ hborn
  | holder => exact ha.arrives .holder (.refl m) hm (hs.imp fun _ h => h.holder)
  | stored h hi =>
    obtain ⟨hp₁, hm₁, hv⟩ := ha.evaluated .holder hm (hs.imp fun _ h => h.holder) h
    obtain ⟨hp₂, hm₂, -⟩ := (Eval.instanceOf_keeps hm₁ hv _).passes hi
    exact ha.arrives (.stored h hi) (hp₁.toGrows.trans hp₂.toGrows.any) hm₂
      (((hs.imp fun _ h => h.stored).after hp₁).after hp₂)
  | superProperty h hproperty =>
    obtain ⟨hp₁, hm₁, hc, hi⟩ := (Eval.superOf_keeps hm _ _).passes h
    obtain ⟨hp₂, hm₂, hborn⟩ := (Eval.superPropertyOf_keeps hm₁ hc hi _).passes hproperty
    exact ha.arrives (.superProperty h hproperty) (hp₁.trans hp₂).toGrows.any hm₂ hborn

theorem evaluateAll_arrives {es : List Expr} (h : Starts ⟨fuel, .evaluateAll es, m⟩ b)
    (ha : Point.Leads H ⟨fuel, .evaluateAll es, m⟩) (hm : m.Born H)
    (hs : m.Situated H fun p => exprsAt H.mentions p es) :
    Point.Arrives H ⟨fuel, .evaluateAll es, m⟩ b := by
  cases h with
  | head => exact ha.arrives .head (.refl m) hm (hs.imp fun _ => Settled.left)
  | tail h =>
    obtain ⟨hp, hm₁, -⟩ := ha.evaluated .head hm (hs.imp fun _ => Settled.left) h
    exact ha.arrives (.tail h) hp.toGrows hm₁ ((hs.imp fun _ => Settled.right).after hp)

theorem readProperty_arrives {property : Eval.Property} {line : Nat}
    (h : Starts ⟨fuel, .readProperty property line, m⟩ b)
    (ha : Point.Leads H ⟨fuel, .readProperty property line, m⟩) (hm : m.Born H)
    (hproperty : PropertyBorn H m property) :
    Point.Arrives H ⟨fuel, .readProperty property line, m⟩ b := by
  cases h with
  | getter h =>
    obtain ⟨hp, hm₁, hc⟩ := (Eval.newFunction_keeps hm hproperty).passes h
    exact ha.arrives (.getter h) hp.toGrows.any hm₁ ⟨hc, nofun⟩

theorem call_arrives {c : Callable} {vs : List Value} {line : Nat}
    (h : Starts ⟨fuel, .call c vs line, m⟩ b) (ha : Point.Leads H ⟨fuel, .call c vs line, m⟩)
    (hm : m.Born H) (hc : CallableBorn H m c) (hvs : ∀ v ∈ vs, ValueBorn H m v) :
    Point.Arrives H ⟨fuel, .call c vs line, m⟩ b := by
  have hgrows := Machine.Grows.inside m m.environment (m.depth + 1)
  have hm₁ := hm.inside m.environment (m.depth + 1)
  have hvs : ∀ v ∈ vs, ValueBorn H { m with depth := m.depth + 1 } v :=
    fun v hv => (hvs v hv).mono (.refl H) hgrows
  cases h with
  | function h =>
    cases Eval.checkDepth_eq h
    exact ha.arrives (.function h) hgrows.any hm₁ ⟨ClosureBorn.mono (.refl H) hgrows hc, hvs⟩
  | «class» h =>
    cases Eval.checkDepth_eq h
    exact ha.arrives (.class h) hgrows.any hm₁ ⟨ClassBorn.mono (.refl H) hgrows hc, hvs⟩

/-- The body of a member stands in its class, on the way from the call. -/
theorem run_arrives {closure : Closure} {vs : List Value}
    (h : Starts ⟨fuel, .run closure vs, m⟩ b) (ha : Point.Leads H ⟨fuel, .run closure vs, m⟩)
    (hm : m.Born H) (hc : ClosureBorn H m closure) (hvs : ∀ v ∈ vs, ValueBorn H m v) :
    Point.Arrives H ⟨fuel, .run closure vs, m⟩ b := by
  cases h with
  | @body fuel _ _ _ _ environment h =>
    obtain ⟨hp, hm₁, rfl, rfl⟩ := (Eval.openScope_keeps hm _
      fun name v hv => hvs v (mem_of_find?_parameterTable hv)).passes h
    have hgrows := hp.toGrows.trans (.inside _ (m.scopes.next :: closure.environment) m.depth)
    refine ha.arrives (.body h) hgrows.any (hm₁.inside _ m.depth) ?_
    cases hc with
    | @declared p _ hfits hr hf =>
      obtain ⟨hparameters, hbody⟩ := hf.body
      refine ⟨p.inBody closure.function.parameters, hfits.inBody hparameters, ?_, hbody⟩
      exact (hr.mono (.refl H) hgrows).deeper (p.inBody closure.function.parameters) rfl rfl _
    | @member c key i hc hi hb =>
      have hclass := hc
      obtain ⟨member, scope, hmember, rfl, hthis⟩ := hb
      cases hc with
      | @mk _ d m₀ hdeclared _ =>
        obtain ⟨hf, -⟩ := hdeclared.made.member hmember
        obtain ⟨p, hclass?, hdepth, hfits, hparameters, hbody⟩ := hdeclared.settled.body hf
        refine ⟨p, hfits, fun d' hd' => ?_, hbody⟩
        rw [hclass?] at hd'
        cases hd'
        refine ⟨[], m.scopes.next, _, m₀, c, i, rfl, hdepth.symm, ?_⟩
        have hactivation : Activation H m d m₀ c i
            { member with environment := scope :: member.environment } m.scopes.next :=
          ⟨⟨fuel, vs, m, ha.visited _ _ .here, rfl⟩, hdeclared, hclass, hi,
            ⟨key, member, scope, hmember, rfl, hthis⟩⟩
        exact hactivation.mono (.refl H) hgrows

/-- The initializer of a class is bound to the new instance. -/
theorem construct_arrives {c : ClassValue} {vs : List Value}
    (h : Starts ⟨fuel, .construct c vs, m⟩ b) (ha : Point.Leads H ⟨fuel, .construct c vs, m⟩)
    (hm : m.Born H) (hc : ClassBorn H m c) (hvs : ∀ v ∈ vs, ValueBorn H m v) :
    Point.Arrives H ⟨fuel, .construct c vs, m⟩ b := by
  cases h with
  | initializer hi hinit hb =>
    obtain ⟨hp₁, hm₁, hi'⟩ := (Eval.newInstance_keeps hm hc).passes hi
    obtain ⟨hp₂, hm₂, hclosure⟩ := (Eval.property_keeps hm₁
      (hc.mono (.refl H) hp₁.toGrows) hi' hinit).passes hb
    exact ha.arrives (.initializer hi hinit hb) (hp₁.trans hp₂).toGrows.any hm₂ ⟨hclosure,
      fun v hv => (hvs v hv).mono (.refl H) (hp₁.trans hp₂).toGrows⟩

/-- The tasks that a statement starts. -/
theorem execute_arrives {s : Stmt} (h : Starts ⟨fuel, .execute s, m⟩ b)
    (ha : Point.Leads H ⟨fuel, .execute s, m⟩) (hm : m.Born H)
    (hs : m.Situated H fun p => s.At H.mentions p) : Point.Arrives H ⟨fuel, .execute s, m⟩ b := by
  cases h with
  | expression => exact ha.arrives .expression (.refl m) hm hs
  | print => exact ha.arrives .print (.refl m) hm hs
  | @var _ _ name e =>
    refine ha.arrives .var (.refl m) hm ?_
    obtain ⟨p, hfits, hr, hcode⟩ := hs
    obtain ⟨hname, he⟩ := hcode.initializer
    exact ⟨_, hfits.bound hname false, hr.congr rfl rfl, he⟩
  | block h =>
    obtain ⟨hp, hm₁, rfl, rfl⟩ := (Eval.openScope_keeps hm _ fun _ _ hv => by cases hv).passes h
    obtain ⟨p, hfits, hr, hcode⟩ := hs
    have hgrows := hp.toGrows.trans (.inside _ (m.scopes.next :: m.environment) m.depth)
    refine ha.arrives (.block h) hgrows.any (hm₁.inside _ m.depth)
      ⟨p.entered, hfits.entered, ?_, hcode⟩
    exact (hr.mono (.refl H) hgrows).deeper p.entered rfl rfl _
  | condition => exact ha.arrives .condition (.refl m) hm (hs.imp fun _ => Stmt.At.condition)
  | thenBranch h hv =>
    obtain ⟨hp, hm₁, -⟩ := ha.evaluated .condition hm (hs.imp fun _ => Stmt.At.condition) h
    exact ha.arrives (.thenBranch h hv) hp.toGrows hm₁
      ((hs.imp fun _ => Stmt.At.thenBranch).after hp)
  | elseBranch h hv =>
    obtain ⟨hp, hm₁, -⟩ := ha.evaluated .condition hm (hs.imp fun _ => Stmt.At.condition) h
    exact ha.arrives (.elseBranch h hv) hp.toGrows hm₁
      ((hs.imp fun _ => Stmt.At.elseBranch).after hp)
  | «while» => exact ha.arrives .while (.refl m) hm hs
  | result => exact ha.arrives .result (.refl m) hm (hs.imp fun _ => Stmt.At.result)

/-- The tasks that a loop starts. -/
theorem loop_arrives {condition : Expr} {body : Stmt} {increment? : Option Expr}
    (h : Starts ⟨fuel, .loop condition body increment?, m⟩ b)
    (ha : Point.Leads H ⟨fuel, .loop condition body increment?, m⟩) (hm : m.Born H)
    (hs : m.Situated H fun p => (Stmt.while condition body increment?).At H.mentions p) :
    Point.Arrives H ⟨fuel, .loop condition body increment?, m⟩ b := by
  have hturn : ∀ {m₁ : Machine}, m₁.Situated H
      (fun p => (Stmt.while condition body increment?).At H.mentions p) →
      m₁.Situated H fun p => body.At H.mentions p := by
    rintro m₁ ⟨p, hfits, hr, hcode⟩
    exact ⟨_, hfits.looping, hr.congr rfl rfl, hcode.turn⟩
  cases h with
  | test => exact ha.arrives .test (.refl m) hm (hs.imp fun _ => Stmt.At.test)
  | turn h hv =>
    obtain ⟨hp, hm₁, -⟩ := ha.evaluated .test hm (hs.imp fun _ => Stmt.At.test) h
    exact ha.arrives (.turn h hv) hp.toGrows hm₁ (hturn (hs.after hp))
  | increment h hv hb hf =>
    obtain ⟨hp₁, hm₁, -⟩ := ha.evaluated .test hm (hs.imp fun _ => Stmt.At.test) h
    obtain ⟨hp₂, hm₂, -⟩ := ha.executed (.turn h hv) hm₁ (hturn (hs.after hp₁)) hb
    exact ha.arrives (.increment h hv hb hf) (hp₁.trans hp₂).toGrows hm₂
      ((hs.imp fun _ => Stmt.At.increment).after (hp₁.trans hp₂))
  | again h hv hb hf =>
    obtain ⟨hp₁, hm₁, -⟩ := ha.evaluated .test hm (hs.imp fun _ => Stmt.At.test) h
    obtain ⟨hp₂, hm₂, -⟩ := ha.executed (.turn h hv) hm₁ (hturn (hs.after hp₁)) hb
    exact ha.arrives (.again h hv hb hf) (hp₁.trans hp₂).toGrows hm₂ (hs.after (hp₁.trans hp₂))
  | incremented h hv hb hf hi =>
    obtain ⟨hp₁, hm₁, -⟩ := ha.evaluated .test hm (hs.imp fun _ => Stmt.At.test) h
    obtain ⟨hp₂, hm₂, -⟩ := ha.executed (.turn h hv) hm₁ (hturn (hs.after hp₁)) hb
    obtain ⟨hp₃, hm₃, -⟩ := ha.evaluated (.increment h hv hb hf) hm₂
      ((hs.imp fun _ => Stmt.At.increment).after (hp₁.trans hp₂)) hi
    exact ha.arrives (.incremented h hv hb hf hi) ((hp₁.trans hp₂).trans hp₃).toGrows hm₃
      (hs.after ((hp₁.trans hp₂).trans hp₃))

/-- The tasks that the statements of a list start. -/
theorem executeAll_arrives {ss : List Stmt} (h : Starts ⟨fuel, .executeAll ss, m⟩ b)
    (ha : Point.Leads H ⟨fuel, .executeAll ss, m⟩) (hm : m.Born H)
    (hs : m.Situated H fun p => stmtsAt H.mentions p ss) :
    Point.Arrives H ⟨fuel, .executeAll ss, m⟩ b := by
  cases h with
  | first => exact ha.arrives .first (.refl m) hm (hs.imp fun _ => Settled.left)
  | next h =>
    obtain ⟨hp, hm₁, -⟩ := ha.executed .first hm (hs.imp fun _ => Settled.left) h
    refine ha.arrives (.next h) hp.toGrows hm₁ ?_
    obtain ⟨p, hfits, hr, hcode⟩ := hs.after hp
    have hfirst : Stmt.At H.mentions p _ := Settled.left hcode
    exact ⟨_, hfirst.after hfits, hr.congr rfl rfl, hcode.next⟩

/-- All is known of what a tracked task starts, if the tasks before it keep what holds. -/
theorem arrives (h : Starts a b) (ha : a.Tracked H)
    (hkeeps : ∀ c, Starts a c → c.Tracked H → c.Keeps H a.Stores) : a.Arrives H b := by
  have hl : a.Leads H := ⟨ha.visited, hkeeps⟩
  obtain ⟨-, hm, ht⟩ := ha
  obtain ⟨fuel, task, m⟩ := a
  cases task with
  | evaluate e => exact h.evaluate_arrives hl hm ht
  | evaluateAll es => exact h.evaluateAll_arrives hl hm ht
  | readProperty property line => exact h.readProperty_arrives hl hm ht
  | call c vs line => exact h.call_arrives hl hm ht.1 ht.2
  | run closure vs => exact h.run_arrives hl hm ht.1 ht.2
  | construct c vs => exact h.construct_arrives hl hm ht.1 ht.2
  | execute s => exact h.execute_arrives hl hm ht
  | loop condition body increment? => exact h.loop_arrives hl hm ht
  | executeAll ss => exact h.executeAll_arrives hl hm ht

end Starts

end LoxLang
