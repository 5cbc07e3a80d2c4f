import LoxLang.Proofs.Classes.Members
import LoxLang.Proofs.Classes.Settings
import LoxLang.Proofs.Running.Locals

/-!
Where the values of a running program come from. Every class value has been made by a declaration
that was executed, every function is one that was declared or a member that was bound to an
instance, and the environment of code in a member goes on to the instance and the superclass. What
is known of a value is known of it in every later machine, since `this` and `super` are never bound
anew.
-/

namespace LoxLang

/-- What has happened: the points that runs have come to, and the mentions in what they ran. -/
structure Chronicle where
  points : Point → Prop
  mentions : Mention → Prop

namespace Chronicle

/-- Whether one chronicle goes on where another ends. -/
structure Continues (H' H : Chronicle) : Prop where
  points : ∀ a, H.points a → H'.points a
  mentions : ∀ m, H.mentions m → H'.mentions m

theorem Continues.refl (H : Chronicle) : H.Continues H :=
  ⟨fun _ => id, fun _ => id⟩

end Chronicle

/-- The environment of the members of a class that is declared in a machine. -/
def Machine.memberEnvironment (m : Machine) (superclass? : Option ClassValue) : Environment :=
  match superclass? with
  | none => m.environment
  | some _ => m.scopes.next :: m.environment

/-- A class value that a declaration has made in a machine. Its superclass is the value of the
superclass expression there. -/
structure Class.Made (H : Chronicle) (d : Class) (m : Machine) (c : ClassValue) : Prop where
  executed : ∃ fuel, H.points ⟨fuel + 1, .execute (.class d), m⟩
  superclass : Eval.superclassOf d.superclass? m = .ok c.superclass? m
  id : c.id = m.nextId
  name : c.name = d.name.text
  members : c.members = memberTable (m.memberEnvironment c.superclass?) d.methods d.getters

/-- Every member of a class value is a method or a getter of its declaration, in the environment of
its members. -/
theorem Class.Made.member {H : Chronicle} {d : Class} {m : Machine} {c : ClassValue}
    (h : d.Made H m c) {key : String} {member : Closure}
    (hk : c.members.find? key = some member) :
    (member.function ∈ d.methods ∨ member.function ∈ d.getters) ∧
      member.environment = m.memberEnvironment c.superclass? := by
  rw [h.members] at hk
  rcases mem_of_find?_memberTable _ hk with ⟨f, hf, -, rfl⟩ | ⟨f, hf, -, rfl⟩
  · exact ⟨.inl hf, rfl⟩
  · exact ⟨.inr hf, rfl⟩

/-- What is known in a later machine of a class value that was made in `m₀`: the scope that binds
`super` still does, and its superclass is an older one. -/
structure ClassValue.Declared (H : Chronicle) (m : Machine) (c : ClassValue) (d : Class)
    (m₀ : Machine) : Prop where
  made : d.Made H m₀ c
  settled : d.Settled H.mentions
  fresh : c.id < m.nextId
  older : ∀ s, c.superclass? = some s → s.id < c.id
  bound : ∀ s, c.superclass? = some s →
    m.scopes.value? m₀.scopes.next "super" = some (.callable (.class s))

/-- A class value whose whole chain has been declared. -/
inductive ClassBorn (H : Chronicle) (m : Machine) : ClassValue → Prop
  | mk {c d m₀} (h : c.Declared H m d m₀)
      (superclass : ∀ s, c.superclass? = some s → ClassBorn H m s) : ClassBorn H m c

def InstanceBorn (H : Chronicle) (m : Machine) (i : Instance) : Prop :=
  i.id < m.fields.size ∧ ClassBorn H m i.class

/-- Whether a closure is the member of a class under a key, with an instance as its `this`. -/
def Closure.BoundTo (closure : Closure) (m : Machine) (c : ClassValue) (key : String)
    (i : Instance) : Prop :=
  ∃ member scope, c.members.find? key = some member ∧
    closure = { member with environment := scope :: member.environment } ∧
    m.scopes.value? scope "this" = some (.instance i)

/-- Whether a closure is a function that was declared, with or without a name. -/
def Closure.DeclaredIn (H : Chronicle) (closure : Closure) : Prop :=
  ∃ fuel f m, (H.points ⟨fuel, .execute (.function f), m⟩ ∨
    H.points ⟨fuel, .evaluate (.lambda f), m⟩) ∧ closure = ⟨f, m.environment, false⟩

/-- A call of a member of a class that a declaration has made in `m₀`, with the scope that was
opened for it. -/
structure Activation (H : Chronicle) (m : Machine) (d : Class) (m₀ : Machine) (c : ClassValue)
    (i : Instance) (closure : Closure) (scope : Nat) : Prop where
  entered : ∃ fuel arguments m₁, H.points ⟨fuel + 1, .run closure arguments, m₁⟩ ∧
    m₁.scopes.next = scope
  declared : c.Declared H m d m₀
  born : ClassBorn H m c
  receiver : InstanceBorn H m i
  bound : ∃ key, closure.BoundTo m c key i

/-- Whether an environment goes on, behind the scopes opened since, to the call of a member of the
class that the place is in. -/
def Setting.Rooted (p : Setting) (H : Chronicle) (m : Machine) (environment : Environment) : Prop :=
  ∀ d ∈ p.class?, ∃ inner scope closure m₀ c i,
    environment = inner ++ scope :: closure.environment ∧ inner.length = p.depth ∧
      Activation H m d m₀ c i closure scope

/-- A closure is a function that was declared in a known place, or a member with its instance. -/
inductive ClosureBorn (H : Chronicle) (m : Machine) (closure : Closure) : Prop
  | declared {p : Setting} (hd : closure.DeclaredIn H) (hp : p.Fits)
      (hr : p.Rooted H m closure.environment) (hf : closure.function.At H.mentions p)
  | member {c key i} (hc : ClassBorn H m c) (hi : InstanceBorn H m i)
      (hb : closure.BoundTo m c key i)

def CallableBorn (H : Chronicle) (m : Machine) : Callable → Prop
  | .function _ closure => ClosureBorn H m closure
  | .class c => ClassBorn H m c
  | .native _ _ => True

def ValueBorn (H : Chronicle) (m : Machine) : Value → Prop
  | .callable c => CallableBorn H m c
  | .instance i => InstanceBorn H m i
  | _ => True

def PropertyBorn (H : Chronicle) (m : Machine) : Eval.Property → Prop
  | .value v => ValueBorn H m v
  | .getter closure => ClosureBorn H m closure

def FlowBorn (H : Chronicle) (m : Machine) : Flow → Prop
  | .return v => ValueBorn H m v
  | _ => True

namespace Machine

/-- The value of a field, by the number of its instance. -/
def field? (m : Machine) (id : Nat) (name : String) : Option Value :=
  m.fields[id]?.bind (·.find? name)

/-- The values that a machine holds: of variables, fields and elements of arrays. -/
inductive Holds (m : Machine) (v : Value) : Prop
  | variable {scope name} (h : m.scopes.value? scope name = some v)
  | field {id name} (h : m.field? id name = some v)
  | element {array : Nat} {elements : Array Value} (h : m.arrays[array]? = some elements)
      (hv : v ∈ elements)

/-- Whether a machine holds only values that have come about in what has happened. -/
def Born (m : Machine) (H : Chronicle) : Prop :=
  ∀ v, m.Holds v → ValueBorn H m v

/-- What a machine keeps for good: there are ever more numbers, `this` and `super` are never bound
anew, and a field has another value only where one has been stored. -/
structure Grows (stored : Nat → String → Value → Prop) (m m' : Machine) : Prop where
  nextId : m.nextId ≤ m'.nextId
  fields : m.fields.size ≤ m'.fields.size
  hidden : ∀ scope name v, name = "this" ∨ name = "super" →
    m.scopes.value? scope name = some v → m'.scopes.value? scope name = some v
  kept : ∀ id name, m'.field? id name = m.field? id name ∨
    ∃ v, stored id name v ∧ m'.field? id name = some v

/-- What holds of a machine and of one behind it. -/
structure Precedes (stored : Nat → String → Value → Prop) (m m' : Machine) : Prop
    extends m.Grows stored m' where
  environment : m'.environment = m.environment
  distances : m'.distances = m.distances

variable {m m₁ m₂ : Machine} {stored stored' : Nat → String → Value → Prop}

namespace Grows

theorem refl (m : Machine) : m.Grows stored m :=
  ⟨Nat.le_refl _, Nat.le_refl _, fun _ _ _ _ => id, fun _ _ => .inl rfl⟩

theorem trans (h : m.Grows stored m₁) (h' : m₁.Grows stored m₂) : m.Grows stored m₂ where
  nextId := Nat.le_trans h.nextId h'.nextId
  fields := Nat.le_trans h.fields h'.fields
  hidden scope name v hn hv := h'.hidden scope name v hn (h.hidden scope name v hn hv)
  kept id name := by
    rcases h'.kept id name with heq | hstored
    · rw [heq]
      exact h.kept id name
    · exact .inr hstored

theorem mono (h : m.Grows stored m₁)
    (hs : ∀ id name v, stored id name v → stored' id name v) : m.Grows stored' m₁ :=
  { h with kept := fun id name =>
      (h.kept id name).imp (fun h => h) fun ⟨v, hv, hm₁⟩ => ⟨v, hs id name v hv, hm₁⟩ }

/-- Where nothing is stored, it does not matter what may be. -/
theorem any (h : m.Grows (fun _ _ _ => False) m₁) : m.Grows stored m₁ :=
  h.mono nofun

end Grows

namespace Precedes

theorem refl (m : Machine) : m.Precedes stored m :=
  ⟨.refl m, rfl, rfl⟩

theorem trans (h : m.Precedes stored m₁) (h' : m₁.Precedes stored m₂) : m.Precedes stored m₂ :=
  ⟨h.toGrows.trans h'.toGrows, h'.environment.trans h.environment,
    h'.distances.trans h.distances⟩

theorem mono (h : m.Precedes stored m₁)
    (hs : ∀ id name v, stored id name v → stored' id name v) : m.Precedes stored' m₁ :=
  { h with toGrows := h.toGrows.mono hs }

end Precedes

end Machine

section

variable {H H' : Chronicle} {stored : Nat → String → Value → Prop} {m m' : Machine}
  (hH : H'.Continues H) (hm : m.Grows stored m')

include hH in
theorem Class.Made.mono {d : Class} {m₀ : Machine} {c : ClassValue} (h : d.Made H m₀ c) :
    d.Made H' m₀ c :=
  { h with executed := h.executed.imp fun _ => hH.points _ }

include hH in
theorem Class.Settled.mono {d : Class} (h : d.Settled H.mentions) : d.Settled H'.mentions :=
  h.imp_right fun ⟨around, frames, hP⟩ => ⟨around, frames, fun m hm => hH.mentions m (hP m hm)⟩

include hH hm

theorem ClassValue.Declared.mono {c : ClassValue} {d : Class} {m₀ : Machine}
    (h : c.Declared H m d m₀) : c.Declared H' m' d m₀ where
  made := h.made.mono hH
  settled := h.settled.mono hH
  fresh := Nat.lt_of_lt_of_le h.fresh hm.nextId
  older := h.older
  bound s hs := hm.hidden _ _ _ (.inr rfl) (h.bound s hs)

theorem ClassBorn.mono {c : ClassValue} (h : ClassBorn H m c) : ClassBorn H' m' c := by
  induction h with
  | mk h _ ih => exact .mk (h.mono hH hm) ih

theorem InstanceBorn.mono {i : Instance} (h : InstanceBorn H m i) : InstanceBorn H' m' i :=
  ⟨Nat.lt_of_lt_of_le h.1 hm.fields, h.2.mono hH hm⟩

omit hH in
theorem Closure.BoundTo.mono {closure : Closure} {c : ClassValue} {key : String} {i : Instance}
    (h : closure.BoundTo m c key i) : closure.BoundTo m' c key i := by
  obtain ⟨member, scope, hmember, heq, hthis⟩ := h
  exact ⟨member, scope, hmember, heq, hm.hidden _ _ _ (.inl rfl) hthis⟩

omit hm in
theorem Closure.DeclaredIn.mono {closure : Closure} (h : closure.DeclaredIn H) :
    closure.DeclaredIn H' := by
  obtain ⟨fuel, f, m, hf, heq⟩ := h
  exact ⟨fuel, f, m, hf.imp (hH.points _) (hH.points _), heq⟩

theorem Activation.mono {d : Class} {m₀ : Machine} {c : ClassValue} {i : Instance}
    {closure : Closure} {scope : Nat} (h : Activation H m d m₀ c i closure scope) :
    Activation H' m' d m₀ c i closure scope where
  entered := by
    obtain ⟨fuel, arguments, m₁, ha, hscope⟩ := h.entered
    exact ⟨fuel, arguments, m₁, hH.points _ ha, hscope⟩
  declared := h.declared.mono hH hm
  born := h.born.mono hH hm
  receiver := h.receiver.mono hH hm
  bound := h.bound.imp fun _ hb => hb.mono hm

theorem Setting.Rooted.mono {p : Setting} {environment : Environment}
    (h : p.Rooted H m environment) : p.Rooted H' m' environment := by
  intro d hd
  obtain ⟨inner, scope, closure, m₀, c, i, he, hdepth, ha⟩ := h d hd
  exact ⟨inner, scope, closure, m₀, c, i, he, hdepth, ha.mono hH hm⟩

theorem ClosureBorn.mono {closure : Closure} (h : ClosureBorn H m closure) :
    ClosureBorn H' m' closure := by
  cases h with
  | declared hd hp hr hf => exact .declared (hd.mono hH) hp (hr.mono hH hm) (hf.imp hH.mentions)
  | member hc hi hb => exact .member (hc.mono hH hm) (hi.mono hH hm) (hb.mono hm)

theorem CallableBorn.mono {c : Callable} (h : CallableBorn H m c) : CallableBorn H' m' c := by
  cases c with
  | function id closure => exact ClosureBorn.mono hH hm h
  | «class» c => exact ClassBorn.mono hH hm h
  | native id n => trivial

theorem ValueBorn.mono {v : Value} (h : ValueBorn H m v) : ValueBorn H' m' v := by
  cases v with
  | callable c => exact CallableBorn.mono hH hm h
  | «instance» i => exact InstanceBorn.mono hH hm h
  | _ => trivial

/-- A machine that holds nothing new but values that have come about. -/
theorem Machine.Born.later (h : m.Born H)
    (hnew : ∀ v, m'.Holds v → m.Holds v ∨ ValueBorn H' m' v) : m'.Born H' := by
  intro v hv
  rcases hnew v hv with hold | hborn
  · exact (h v hold).mono hH hm
  · exact hborn

end

namespace Setting

variable {p p' : Setting} {H : Chronicle} {m : Machine} {environment : Environment}

/-- A place in the same class and at the same depth has the same root. -/
theorem Rooted.congr (h : p.Rooted H m environment) (hclass : p'.class? = p.class?)
    (hdepth : p'.depth = p.depth) : p'.Rooted H m environment := by
  unfold Rooted
  rw [hclass, hdepth]
  exact h

/-- A scope that is opened is one more on the way to the root. -/
theorem Rooted.deeper (p' : Setting) (h : p.Rooted H m environment)
    (hclass : p'.class? = p.class?) (hdepth : p'.depth = p.depth + 1) (scope : Nat) :
    p'.Rooted H m (scope :: environment) := by
  unfold Rooted
  rw [hclass, hdepth]
  intro d hd
  obtain ⟨inner, entered, closure, m₀, c, i, rfl, hinner, ha⟩ := h d hd
  exact ⟨scope :: inner, entered, closure, m₀, c, i, rfl, congrArg (· + 1) hinner, ha⟩

theorem rooted_top : top.Rooted H m environment :=
  fun _ hd => nomatch hd

end Setting

end LoxLang
