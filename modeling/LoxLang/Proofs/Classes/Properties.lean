import LoxLang.Proofs.Classes.Ancestry
import LoxLang.Proofs.Classes.Dispatch

/-!
The law of properties. A field hides a getter, a getter hides a method, and of each kind the nearest
declaration counts. A field is written on one instance, under one name, and keeps its value until it
is written again.
-/

namespace LoxLang

variable {H : Chronicle} {a : Point} {m : Machine}

/-- The machines that a task comes to: those of the tasks on its way, and the one behind it. -/
inductive Point.Passes (a : Point) : Machine → Prop
  | reached {underway b} (h : Reaches a underway b) : a.Passes b.machine
  | behind : a.Passes a.behind

/-- From the machine of a tracked task, every machine that the task comes to has grown. -/
theorem Point.Tracked.grows (h : a.Tracked H) {m' : Machine} (hp : a.Passes m') :
    a.machine.Grows a.Stores m' := by
  cases hp with
  | reached hr => exact (hr.arrives h).grows
  | behind =>
    have hkeeps := h.keeps
    obtain ⟨fuel, task, m⟩ := a
    cases task with
    | _ => exact (Eval.Keeps.precedes hkeeps).toGrows

/-- What reading a property of an instance comes to: its field, else a call of the nearest getter
with the instance as its `this`, else the nearest method bound to the instance. -/
structure PropertyReads (fuel : Nat) (object : Expr) (name : Name) (m m₁ : Machine) (i : Instance)
    (gs : List Generation) : Prop where
  receiver : (m₁.binding i).scopes.value? m₁.scopes.next "this" = some (.instance i)
  field : ∀ v, m₁.field? i.id name.text = some v →
    Eval.evaluate (fuel + 2) (.get object name) m = .ok v m₁
  called : ∀ member, m₁.field? i.id name.text = none →
    gs.findSome? (·.getter? name.text) = some member →
    Eval.evaluate (fuel + 2) (.get object name) m =
      Eval.call fuel (.function m₁.nextId (member.boundIn m₁.scopes.next)) [] name.line
        (m₁.binding i)
  bound : ∀ member, m₁.field? i.id name.text = none →
    gs.findSome? (·.getter? name.text) = none → gs.findSome? (·.method? name.text) = some member →
    Eval.evaluate (fuel + 2) (.get object name) m =
      .ok (.callable (.function m₁.nextId (member.boundIn m₁.scopes.next))) (m₁.binding i)
  missing : m₁.field? i.id name.text = none → gs.findSome? (·.getter? name.text) = none →
    gs.findSome? (·.method? name.text) = none →
    Eval.evaluate (fuel + 2) (.get object name) m =
      .error (.failed (.runtime name.line (.undefinedProperty name.text))) m₁

theorem propertyReads_of_evaluate {fuel : Nat} {object : Expr} {name : Name} {m₁ : Machine}
    {i : Instance} {gs : List Generation} (hg : Ancestry H i.class gs) (hname : name.Plain)
    (h : Eval.evaluate (fuel + 1) object m = .ok (.instance i) m₁) :
    PropertyReads fuel object name m m₁ i gs := by
  have hrun : Eval.evaluate (fuel + 2) (.get object name) m =
      (Eval.propertyOf i name >>= fun property =>
        Eval.readProperty (fuel + 1) property name.line) m₁ := Fueled.bind_ok h
  have hfield : Eval.field? i name.text m₁ = .ok (m₁.field? i.id name.text) m₁ := rfl
  have hgetters : i.class.getter? name.text = gs.findSome? (·.getter? name.text) := hg.getter?
  have hmethods : i.class.method? name.text = gs.findSome? (·.method? name.text) :=
    hg.method? hname.no_space
  constructor
  · exact m₁.value?_binding i
  · intro v hv
    rw [hv] at hfield
    rw [hrun, Eval.propertyOf, bind_assoc, Fueled.bind_ok hfield]
    rfl
  · intro member hnone hmember
    rw [hnone] at hfield
    rw [hrun, Eval.propertyOf, bind_assoc, Fueled.bind_ok hfield]
    dsimp only
    rw [hgetters, hmember]
    rfl
  · intro member hnone hgetter hmember
    rw [hnone] at hfield
    rw [hrun, Eval.propertyOf, bind_assoc, Fueled.bind_ok hfield]
    dsimp only
    rw [hgetters, hgetter, hmethods, hmember]
    rfl
  · intro hnone hgetter hmethod
    rw [hnone] at hfield
    rw [hrun, Eval.propertyOf, bind_assoc, Fueled.bind_ok hfield]
    dsimp only
    rw [hgetters, hgetter, hmethods, hmethod]
    rfl

/-- A field is set once its instance and its value are known. -/
theorem evaluate_set {fuel : Nat} {object value : Expr} {name : Name} {i : Instance} {v : Value}
    {m₁ m₂ : Machine} (ho : Eval.evaluate fuel object m = .ok (.instance i) m₁)
    (hv : Eval.evaluate fuel value m₁ = .ok v m₂) :
    Eval.evaluate (fuel + 1) (.set object name value) m =
      .ok v { m₂ with fields := m₂.fields.modify i.id (·.insert name.text v) } := by
  have hrun : Eval.evaluate (fuel + 1) (.set object name value) m =
      (Eval.evaluate fuel value >>= fun v => do
        Eval.setField i name.text v
        return v) m₁ := Fueled.bind_ok ho
  rw [hrun, Fueled.bind_ok hv]
  rfl

/-- The class that a value is, or is an instance of. -/
def Value.class? : Value → Option ClassValue
  | .callable (.class c) => some c
  | .instance i => some i.class
  | _ => none

theorem ValueBorn.class {v : Value} {c : ClassValue} (h : ValueBorn H m v)
    (hc : v.class? = some c) : ClassBorn H m c := by
  cases v with
  | callable callable =>
    cases callable with
    | «class» c =>
      cases hc
      exact h
    | _ => cases hc
  | «instance» i =>
    cases hc
    exact h.2
  | _ => cases hc

/-- What holds of the properties of instances at a point. -/
structure PropertyLaw (H : Chronicle) (a : Point) : Prop where
  read : ∀ {fuel object name i m₁}, a.task = .evaluate (.get object name) → a.fuel = fuel + 2 →
    Eval.evaluate (fuel + 1) object a.machine = .ok (.instance i) m₁ →
    ∃ gs, Ancestry H i.class gs ∧ PropertyReads fuel object name a.machine m₁ i gs
  /-- A write is seen at its instance and name and nowhere else, and changes nothing else. -/
  write : ∀ {fuel object name value i v m₁ m₂}, a.task = .evaluate (.set object name value) →
    a.fuel = fuel + 1 → Eval.evaluate fuel object a.machine = .ok (.instance i) m₁ →
    Eval.evaluate fuel value m₁ = .ok v m₂ →
    ∃ m₃, Eval.evaluate (fuel + 1) (.set object name value) a.machine = .ok v m₃ ∧
      m₃ = { m₂ with fields := m₃.fields } ∧
      ∀ id key, m₃.field? id key =
        if id = i.id ∧ key = name.text then some v else m₂.field? id key
  /-- A field has another value only where the task has stored it. -/
  kept : ∀ {m'}, a.Passes m' → ∀ id key, m'.field? id key = a.machine.field? id key ∨
    ∃ v, a.Stores id key v ∧ m'.field? id key = some v
  /-- A bound member keeps its `this`. -/
  bound : ∀ {m'} {closure : Closure} {c key i}, a.Passes m' →
    closure.BoundTo a.machine c key i → closure.BoundTo m' c key i
  /-- In a call of a bound member `this` is its instance. -/
  this : ∀ {fuel id line}, a.task = .evaluate (.this id line) → a.fuel = fuel + 1 →
    ∃ d m₀ c i, InMember H a.machine (.this id line) d m₀ c i ∧
      Eval.evaluate (fuel + 1) (.this id line) a.machine = .ok (.instance i) a.machine
  /-- Whatever value is held or given, the classes behind it come to an end. -/
  finite : ∀ {v c}, v.class? = some c → (a.machine.Holds v ∨ ∃ e m', a.task = .evaluate e ∧
    Eval.evaluate a.fuel e a.machine = .ok v m') → ∃ gs, Ancestry H c gs

namespace Point.Tracked

/-- Every instance that an expression gives is there, with its class. -/
theorem instance_born {fuel : Nat} {e : Expr} {i : Instance} {m₁ : Machine} (h : a.Tracked H)
    (hs : Starts a ⟨fuel, .evaluate e, a.machine⟩)
    (he : a.machine.Situated H fun p => e.At H.mentions p)
    (hx : Eval.evaluate fuel e a.machine = .ok (.instance i) m₁) : InstanceBorn H m₁ i :=
  (h.leads.evaluated hs h.born he hx).2.2

/-- Reading a property of an instance goes by the chain of its class. -/
theorem reads {fuel : Nat} {object : Expr} {name : Name} {i : Instance} {m₁ : Machine}
    (h : Tracked H ⟨fuel + 2, .evaluate (.get object name), m⟩)
    (hx : Eval.evaluate (fuel + 1) object m = .ok (.instance i) m₁) :
    ∃ gs, Ancestry H i.class gs ∧ PropertyReads fuel object name m m₁ i gs := by
  have hs : m.Situated H fun p => (Expr.get object name).At H.mentions p := h.task
  have hborn := h.instance_born .object (hs.imp fun _ h => h.object) hx
  obtain ⟨gs, hg⟩ := hborn.2.exists_ancestry
  obtain ⟨p, -, -, hcode⟩ := hs
  exact ⟨gs, hg, propertyReads_of_evaluate hg hcode.formed.2 hx⟩

theorem properties (h : a.Tracked H)
    (hP : ∀ mention, H.mentions mention → mention.Allowed ∧ mention.Placed a.machine.distances) :
    PropertyLaw H a := by
  refine ⟨?_, ?_, fun hp => (h.grows hp).kept, fun hp hb => hb.mono (h.grows hp), ?_, ?_⟩
  · intro fuel object name i m₁ ht hf hx
    obtain ⟨budget, task, m⟩ := a
    cases ht
    cases hf
    exact h.reads hx
  · intro fuel object name value i v m₁ m₂ ht hf ho hv
    obtain ⟨budget, task, m⟩ := a
    cases ht
    cases hf
    have hs : m.Situated H fun p => (Expr.set object name value).At H.mentions p := h.task
    obtain ⟨hp, hm₁, hi⟩ := h.leads.evaluated .holder h.born (hs.imp fun _ h => h.holder) ho
    obtain ⟨hp', -, -⟩ := h.leads.evaluated (.stored ho rfl) hm₁
      ((hs.imp fun _ h => h.stored).after hp) hv
    have hlt : i.id < m₂.fields.size := Nat.lt_of_lt_of_le hi.1 hp'.fields
    refine ⟨_, evaluate_set ho hv, rfl, fun id key => ?_⟩
    rw [Machine.field?_set]
    simp only [hlt, and_true]
  · intro fuel id line ht hf
    obtain ⟨budget, task, m⟩ := a
    cases ht
    cases hf
    exact h.this hP
  · intro v c hc hv
    rcases hv with hv | ⟨e, m', ht, hx⟩
    · exact ((h.born v hv).class hc).exists_ancestry
    · obtain ⟨budget, task, m⟩ := a
      cases ht
      obtain ⟨-, -, hv⟩ := Eval.Keeps.after h.keeps hx
      exact (hv.class hc).exists_ancestry

end Point.Tracked

namespace Session

variable {maxDepth : Nat} {input : List UInt8} {sink : Sink} {clock : Nat → Nat} {memory : Memory}
  {history : List Stmt} {past : Point → Prop} {s s' : Session} {entry : Entry} {program : Program}

/-- The machine of a session grows with every run: fields are kept but for what the run has stored,
and bound members keep their `this`. -/
theorem Lived.grows (h : Lived maxDepth input sink clock memory history past s)
    (ha : s.accepted? entry = some (program, s')) {fuel : Nat} {outcome : Outcome} {s'' : Session}
    (hr : s.enter fuel entry = some (outcome, s'')) :
    s.machine.Grows (s'.starting fuel program).Stores s''.machine := by
  have hgrows : (s'.starting fuel program).machine.Grows (s'.starting fuel program).Stores
      (s'.starting fuel program).behind := (h.tracked ha .here).grows .behind
  obtain ⟨-, -, -, hs'⟩ := h.reachable.kept.resolved ha
  have hstart : s.machine.Grows (s'.starting fuel program).Stores s'.machine.cleared := by
    rw [hs']
    exact ⟨Nat.le_refl _, Nat.le_refl _, fun _ _ _ _ hv => hv, fun _ _ => .inl rfl⟩
  rw [enter_of_accepted ha] at hr
  obtain ⟨m, rfl, hm⟩ := interpret_eq_some hr
  have hbehind : (s'.starting fuel program).behind = m := by
    show Fueled.behind (Eval.executeAll fuel program.statements s'.machine.cleared) = m
    rcases hm with ⟨flow, hx⟩ | ⟨d, hx⟩
    · rw [hx]
      rfl
    · rw [hx]
      rfl
  rw [hbehind] at hgrows
  have hgrows := hstart.trans hgrows
  exact ⟨hgrows.nextId, hgrows.fields, hgrows.hidden, hgrows.kept⟩

/-- At any point of any session, properties are read and written by one law, and every run keeps the
fields that it does not write. -/
theorem Lived.property_law (h : Lived maxDepth input sink clock memory history past s)
    (ha : s.accepted? entry = some (program, s')) {fuel : Nat} :
    (∀ underway a, Reaches (s'.starting fuel program) underway a →
      PropertyLaw (s'.running history past fuel program) a) ∧
    ∀ outcome s'', s.enter fuel entry = some (outcome, s'') →
      s.machine.Grows (s'.starting fuel program).Stores s''.machine :=
  ⟨fun _ _ hr => (h.tracked ha hr).properties (h.settled ha hr), fun _ _ => h.grows ha⟩

/-- A field hides the getter of its name once it has been written. -/
theorem Lived.property_law_field : ∃ program s' s'',
    (Session.start 1024 [] .open fun _ => 0).accepted? (.program ("class A \x7b x \x7b " ++
      "return nil; \x7d \x7d var a = A(); print a.x; a.x = true; print a.x;")) =
        some (program, s') ∧
    (Session.start 1024 [] .open fun _ => 0).enter 50 (.program ("class A \x7b x \x7b " ++
      "return nil; \x7d \x7d var a = A(); print a.x; a.x = true; print a.x;")) =
        some (⟨"nil\ntrue\n", []⟩, s'') ∧
    (∀ underway a, Reaches (s'.starting 50 program) underway a →
      PropertyLaw (s'.running [] (fun _ => False) 50 program) a) ∧
    (Machine.start 1024 [] .open fun _ => 0).Grows (s'.starting 50 program).Stores s''.machine := by
  have ha : (Session.start 1024 [] .open fun _ => 0).accepted? (.program ("class A \x7b x " ++
      "\x7b return nil; \x7d \x7d var a = A(); print a.x; a.x = true; print a.x;")) =
      some (⟨[.class ⟨⟨"A", 1⟩, none, [], [⟨some ⟨"x", 1⟩, [],
          [.return 1 (some (.literal .nil))], 1⟩]⟩,
        .var ⟨"a", 1⟩ (some (.call (.variable ⟨0, ⟨"A", 1⟩⟩) 1 [])),
        .print (.get (.variable ⟨1, ⟨"a", 1⟩⟩) ⟨"x", 1⟩),
        .expression (.set (.variable ⟨2, ⟨"a", 1⟩⟩) ⟨"x", 1⟩ (.literal (.bool true))),
        .print (.get (.variable ⟨3, ⟨"a", 1⟩⟩) ⟨"x", 1⟩)], 4⟩,
        ⟨Machine.start 1024 [] .open fun _ => 0, 0⟩) := by
    cbv
  have hrun : ((Session.start 1024 [] .open fun _ => 0).enter 50 (.program ("class A " ++
      "\x7b x \x7b return nil; \x7d \x7d var a = A(); print a.x; a.x = true; print a.x;"))).map
        Prod.fst = some ⟨"nil\ntrue\n", []⟩ := by
    decide +kernel
  obtain ⟨⟨outcome, s''⟩, hrun, rfl⟩ := Option.map_eq_some_iff.mp hrun
  obtain ⟨hlaw, hgrows⟩ := Lived.property_law .start ha
  exact ⟨_, _, s'', ha, hrun, hlaw, hgrows _ _ hrun⟩

end Session

end LoxLang
