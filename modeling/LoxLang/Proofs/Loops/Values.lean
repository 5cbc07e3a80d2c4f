import LoxLang.Proofs.Lexical.Evaluation
import LoxLang.Proofs.Loops.Desugaring

/-!
Values and machines with all their functions desugared. Nothing else about them is different, so a
program sees no difference but by calling a function.
-/

namespace LoxLang

/-- Changing an element of an array and then all of them is changing all and then the one. -/
theorem map_modify {α β : Type} {g : α → β} {f : α → α} {f' : β → β} (hf : ∀ a, g (f a) = f' (g a))
    (as : Array α) (i : Nat) : (as.modify i f).map g = (as.map g).modify i f' := by
  refine Array.ext_getElem? fun j => ?_
  simp only [Array.getElem?_map, Array.getElem?_modify]
  split <;> simp [Option.map_map, Function.comp_def, hf]

namespace Table

variable {α β : Type}

/-- The same names with other values. -/
def map (f : α → β) (t : Table α) : Table β :=
  ⟨t.entries.map (Prod.map id f)⟩

@[simp] theorem map_empty (f : α → β) : (empty : Table α).map f = empty :=
  rfl

@[simp] theorem find?_map (f : α → β) (t : Table α) (name : String) :
    (t.map f).find? name = (t.find? name).map f := by
  have entries : ∀ es : List (String × α),
      findEntry? name (es.map (Prod.map id f)) = ( findEntry? name es).map f := by
    intro es
    induction es with
    | nil => rfl
    | cons entry es ih =>
      by_cases h : name = entry.1 <;> simp [Prod.map, findEntry?, h, ih]
  exact entries t.entries

@[simp] theorem map_insert (f : α → β) (t : Table α) (name : String) (value : α) :
    (t.insert name value).map f = (t.map f).insert name (f value) := by
  have entries : ∀ es : List (String × α),
      (insertEntry name value es).map (Prod.map id f) =
        insertEntry name (f value) (es.map (Prod.map id f)) := by
    intro es
    induction es with
    | nil => rfl
    | cons entry es ih =>
      by_cases h : name = entry.1 <;> simp [insertEntry, Prod.map, h, ih]
  exact congrArg Table.mk (entries t.entries)

end Table

section

variable (p : Stmt → Bool)

def Closure.desugared (c : Closure) : Closure :=
  { c with function := c.function.desugared p }

def ClassValue.desugared : ClassValue → ClassValue
  | ⟨id, name, none, members⟩ => ⟨id, name, none, members.map (Closure.desugared p)⟩
  | ⟨id, name, some superclass, members⟩ =>
    ⟨id, name, some superclass.desugared, members.map (Closure.desugared p)⟩

def Callable.desugared : Callable → Callable
  | .function id closure => .function id (closure.desugared p)
  | .class c => .class (c.desugared p)
  | .native id n => .native id n

def Instance.desugared (i : Instance) : Instance :=
  { i with «class» := i.class.desugared p }

def Value.desugared : Value → Value
  | .nil => .nil
  | .bool b => .bool b
  | .number x => .number x
  | .string s => .string s
  | .callable c => .callable (c.desugared p)
  | .instance i => .instance (i.desugared p)
  | .array id => .array id

def Eval.Property.desugared : Eval.Property → Eval.Property
  | .value v => .value (v.desugared p)
  | .getter c => .getter (c.desugared p)

def Flow.desugared : Flow → Flow
  | .normal => .normal
  | .return value => .return (value.desugared p)
  | .break => .break
  | .continue => .continue

def Scopes.desugared (s : Scopes) : Scopes :=
  ⟨s.tables.map (Table.map (Value.desugared p))⟩

def Machine.desugared (m : Machine) : Machine :=
  { m with
    scopes := m.scopes.desugared p
    fields := m.fields.map (Table.map (Value.desugared p))
    arrays := m.arrays.map (Array.map (Value.desugared p)) }

def Cell.desugared (c : Cell) : Cell :=
  { c with value? := c.value?.map (Value.desugared p) }

def Lexical.State.desugared (s : Lexical.State) : Lexical.State :=
  ⟨s.machine.desugared p, s.cells.map (Cell.desugared p)⟩

end

variable {p : Stmt → Bool}

@[simp] theorem Closure.arity_desugared (c : Closure) : (c.desugared p).arity = c.arity := by
  rw [arity, desugared, Function.parameters_desugared, ← arity]

namespace ClassValue

@[simp] theorem id_desugared (c : ClassValue) : (c.desugared p).id = c.id := by
  obtain ⟨id, name, superclass?, members⟩ := c
  cases superclass? <;> rfl

@[simp] theorem name_desugared (c : ClassValue) : (c.desugared p).name = c.name := by
  obtain ⟨id, name, superclass?, members⟩ := c
  cases superclass? <;> rfl

theorem desugared_mk (id : Nat) (name : String) (superclass? : Option ClassValue)
    (members : Table Closure) : desugared p ⟨id, name, superclass?, members⟩ =
      ⟨id, name, superclass?.map (desugared p), members.map (Closure.desugared p)⟩ := by
  cases superclass? <;> rfl

theorem method?_desugared (key : String) : (c : ClassValue) →
    (c.desugared p).method? key = (c.method? key).map (Closure.desugared p)
  | ⟨_, _, none, members⟩ => members.find?_map _ key
  | ⟨_, _, some superclass, members⟩ => by
    rw [desugared, method?, method?, members.find?_map]
    cases members.find? key with
    | some member => rfl
    | none => exact superclass.method?_desugared key

theorem getter?_desugared (c : ClassValue) (name : String) :
    (c.desugared p).getter? name = (c.getter? name).map (Closure.desugared p) :=
  c.method?_desugared _

theorem initializer?_desugared (c : ClassValue) :
    (c.desugared p).initializer? = c.initializer?.map (Closure.desugared p) :=
  c.method?_desugared _

end ClassValue

namespace Callable

@[simp] theorem arity_desugared (c : Callable) : (c.desugared p).arity = c.arity := by
  cases c with
  | function id closure => exact closure.arity_desugared
  | «class» c =>
    rw [desugared, arity, arity, c.initializer?_desugared]
    cases c.initializer? with
    | none => rfl
    | some closure => exact closure.arity_desugared
  | native id n => rfl

@[simp] theorem text_desugared (c : Callable) : (c.desugared p).text = c.text := by
  cases c with
  | function id closure =>
    rw [desugared, text, text, Closure.desugared, Function.displayName_desugared]
  | «class» c => exact c.name_desugared
  | native id n => rfl

@[simp] theorem same_desugared (c c' : Callable) :
    (c.desugared p).same (c'.desugared p) = c.same c' := by
  cases c <;> cases c' <;> simp [desugared, same]

end Callable

namespace Value

@[simp] theorem ofLiteral_desugared (l : Literal) :
    (ofLiteral l).desugared p = ofLiteral l := by
  cases l <;> rfl

@[simp] theorem isTruthy_desugared (v : Value) : (v.desugared p).isTruthy = v.isTruthy := by
  cases v with
  | bool b => cases b <;> rfl
  | _ => rfl

@[simp] theorem text_desugared (v : Value) : (v.desugared p).text = v.text := by
  cases v with
  | callable c => exact c.text_desugared
  | «instance» i => exact congrArg (· ++ " instance") i.class.name_desugared
  | _ => rfl

@[simp] theorem same_desugared (v v' : Value) :
    (v.desugared p).same (v'.desugared p) = v.same v' := by
  cases v <;> cases v' <;> simp [desugared, same, Instance.desugared]

@[simp] theorem natural?_desugared (v : Value) : (v.desugared p).natural? = v.natural? := by
  cases v <;> rfl

end Value

namespace Scopes

theorem desugared_put (s : Scopes) (scope : Nat) (name : String) (value : Value) :
    (s.put scope name value).desugared p = (s.desugared p).put scope name (value.desugared p) := by
  have tables : (s.tables.modify scope (·.insert name value)).map (Table.map (Value.desugared p)) =
      (s.desugared p).tables.modify scope (·.insert name (value.desugared p)) :=
    map_modify (fun t => t.map_insert _ name value) s.tables scope
  exact congrArg Scopes.mk tables

@[simp] theorem value?_desugared (s : Scopes) (scope : Nat) (name : String) :
    (s.desugared p).value? scope name = (s.value? scope name).map (Value.desugared p) := by
  rw [value?, value?, desugared, Array.getElem?_map]
  cases s.tables[scope]? with
  | none => rfl
  | some t => exact t.find?_map _ name

theorem find?_desugared (s : Scopes) (environment : Environment) (name : String) :
    (s.desugared p).find? environment name =
      (s.find? environment name).map (Value.desugared p) := by
  induction environment with
  | nil => rfl
  | cons scope outer ih =>
    rw [find?, find?, List.findSome?_cons, List.findSome?_cons, value?_desugared]
    cases s.value? scope name with
    | none => exact ih
    | some v => rfl

theorem read_desugared (s : Scopes) (environment : Environment) (name : Name) :
    (s.desugared p).read environment name =
      (s.read environment name).map (Value.desugared p) := by
  rw [read, read, find?_desugared]
  cases s.find? environment name.text <;> rfl

theorem target_desugared (s : Scopes) (environment : Environment) (name : Name) :
    (s.desugared p).target environment name = s.target environment name := by
  have holder :
      (s.desugared p).holder? environment name.text = s.holder? environment name.text := by
    simp only [holder?, value?_desugared, Option.isSome_map]
  rw [target, target, holder]

end Scopes

namespace Machine

@[simp] theorem environment_desugared (m : Machine) :
    (m.desugared p).environment = m.environment :=
  rfl

@[simp] theorem depth_desugared (m : Machine) : (m.desugared p).depth = m.depth :=
  rfl

@[simp] theorem maxDepth_desugared (m : Machine) : (m.desugared p).maxDepth = m.maxDepth :=
  rfl

@[simp] theorem console_desugared (m : Machine) : (m.desugared p).console = m.console :=
  rfl

end Machine

@[simp] theorem Lexical.State.machine_desugared (s : State) :
    (s.desugared p).machine = s.machine.desugared p :=
  rfl

theorem Lexical.State.cell?_desugared (s : State) (environment : Environment) (name : String) :
    (s.desugared p).cell? environment name = s.cell? environment name := by
  have names : ∀ cell : Nat,
      ((s.desugared p).cells[cell]?.map Cell.name) = (s.cells[cell]?.map Cell.name) := by
    intro cell
    rw [desugared, Array.getElem?_map, Option.map_map]
    rfl
  simp only [cell?, names]

theorem Function.methodKind_desugared (f : Function) :
    (f.desugared p).methodKind = f.methodKind := by
  rw [methodKind, methodKind, f.displayName_desugared]

/-- The members of a desugared class. -/
theorem map_memberTable (environment : Environment) (methods getters : List Function) :
    (memberTable environment methods getters).map (Closure.desugared p) =
      memberTable environment (desugaredFunctions p methods) (desugaredFunctions p getters) := by
  have inserted : ∀ (key : String → String) (isInitializer : Function → Bool)
      (_ : ∀ f : Function, isInitializer (f.desugared p) = isInitializer f)
      (fs : List Function) (t : Table Closure),
      (insertMembers key isInitializer environment fs t).map (Closure.desugared p) =
        insertMembers key isInitializer environment (desugaredFunctions p fs)
          (t.map (Closure.desugared p)) := by
    intro key isInitializer hi fs
    induction fs with
    | nil => exact fun _ => rfl
    | cons f fs ih =>
      intro t
      refine (ih _).trans ?_
      rw [desugaredFunctions, t.map_insert, insertMembers, insertMembers, List.foldl_cons,
        f.displayName_desugared, hi f]
      rfl
  rw [memberTable, memberTable, inserted _ _ (fun _ => rfl), inserted]
  · rfl
  · exact fun f => by rw [f.methodKind_desugared]

end LoxLang
