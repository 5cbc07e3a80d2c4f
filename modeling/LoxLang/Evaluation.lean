import LoxLang.Machine.Arrays
import LoxLang.Scoping

/-!
Running statements and evaluating expressions. Every function spends fuel on each call, so that
a program that goes on for ever is `outOfFuel`.
-/

namespace LoxLang

/-- How a statement ends. All but `normal` leave the statements around it, up to the loop or the
call that it is meant for. -/
inductive Flow where
  | normal
  | «return» (value : Value)
  | «break»
  | «continue»

namespace BinaryOp

/-- A comparison or calculation that only numbers have. -/
@[inline]
def onNumbers (line : Nat) (left right : Value) (f : Float → Float → Value) :
    Except Diagnostic Value :=
  match left, right with
  | .number a, .number b => .ok (f a b)
  | _, _ => .error (.runtime line .operandsNotNumbers)

/-- Numbers are added. Strings are joined, also with the text of a number. -/
def sum (line : Nat) : Value → Value → Except Diagnostic Value
  | .number a, .number b => .ok (.number (a + b))
  | .string a, .string b => .ok (.string (a ++ b))
  | .string a, .number b => .ok (.string (a ++ (Value.number b).text))
  | .number a, .string b => .ok (.string ((Value.number a).text ++ b))
  | _, _ => .error (.runtime line .operandsNotAddable)

/-- No number can be divided by zero. -/
def quotient (line : Nat) : Value → Value → Except Diagnostic Value
  | .number a, .number b =>
    if b == 0 then .error (.runtime line .divisionByZero) else .ok (.number (a / b))
  | _, _ => .error (.runtime line .operandsNotNumbers)

def apply (op : BinaryOp) (line : Nat) (left right : Value) : Except Diagnostic Value :=
  match op with
  | .add => sum line left right
  | .subtract => onNumbers line left right fun a b => .number (a - b)
  | .multiply => onNumbers line left right fun a b => .number (a * b)
  | .divide => quotient line left right
  | .equal => .ok (.bool (left.same right))
  | .notEqual => .ok (.bool (!left.same right))
  | .less => onNumbers line left right fun a b => .bool (a < b)
  | .lessEqual => onNumbers line left right fun a b => .bool (a ≤ b)
  | .greater => onNumbers line left right fun a b => .bool (a > b)
  | .greaterEqual => onNumbers line left right fun a b => .bool (a ≥ b)

end BinaryOp

def UnaryOp.apply (op : UnaryOp) (line : Nat) (operand : Value) : Except Diagnostic Value :=
  match op, operand with
  | .not, _ => .ok (.bool (!operand.isTruthy))
  | .negate, .number x => .ok (.number (-x))
  | .negate, _ => .error (.runtime line .operandNotNumber)

/-- Whether the left side decides the value alone. -/
def LogicalOp.decidedBy : LogicalOp → Value → Bool
  | .or, left => left.isTruthy
  | .and, left => !left.isTruthy

/-- Adds members to the table of a class. Of those under one key, the last one counts. -/
def insertMembers (key : String → String) (isInitializer : Function → Bool)
    (environment : Environment) (members : List Function) (t : Table Closure) : Table Closure :=
  members.foldl (fun t f => t.insert (key f.displayName) ⟨f, environment, isInitializer f⟩) t

/-- The members of a class. -/
def memberTable (environment : Environment) (methods getters : List Function) : Table Closure :=
  insertMembers getterKey (fun _ => false) environment getters
    (insertMembers id (·.methodKind = .initializer) environment methods .empty)

/-- The variables of a call. -/
def parameterTable (parameters : List Name) (arguments : List Value) : Table Value :=
  (parameters.zip arguments).foldl (fun t (name, value) => t.insert name.text value) .empty

namespace Eval

/-- The superclass of a class declaration. -/
def superclassOf (superclass? : Option Occurrence) : Eval (Option ClassValue) := do
  match superclass? with
  | none => return none
  | some o =>
    match ← readVariable o.id o.name with
    | .callable (.class c) => return some c
    | _ => failAt o.name.line .superclassNotClass

/-- The environment of the members of a class. In a subclass it has a scope that binds `super`. -/
def memberEnvironment (superclass? : Option ClassValue) : Eval Environment := do
  let environment := (← get).environment
  match superclass? with
  | none => return environment
  | some c => openScope environment (Table.empty.insert "super" (.callable (.class c)))

/-- Declares a class. Its name is bound before its members are made. -/
def declareClass (c : Class) : Eval Unit := do
  let superclass? ← superclassOf c.superclass?
  define c.name.text .nil
  let environment ← memberEnvironment superclass?
  let value : ClassValue := {
    id := ← freshId
    name := c.name.text
    superclass? := superclass?
    members := memberTable environment c.methods c.getters }
  let m ← get
  let scope ← ofExcept (m.scopes.target m.environment c.name)
  modify fun m => { m with scopes := m.scopes.put scope c.name.text (.callable (.class value)) }

/-- The class and the instance that `super` stands for. `this` is bound one scope further in. -/
def superOf (id line : Nat) : Eval (ClassValue × Instance) := do
  let m ← get
  match m.distances.find? id with
  | none | some 0 => failAt line .superUnresolved
  | some (distance + 1) =>
    match ← ofExcept (m.scopes.readAt m.environment (distance + 1) ⟨"super", line⟩) with
    | .callable (.class c) =>
      match ← ofExcept (m.scopes.readAt m.environment distance ⟨"this", line⟩) with
      | .instance i => return (c, i)
      | _ => failAt line .thisNotInstance
    | _ => failAt line .superclassNotClass

/-- What a property is before it is read: a value, or a getter to run. -/
inductive Property where
  | value (v : Value)
  | getter (c : Closure)

/-- A property of an instance: a field, else a getter, else a method. -/
def propertyOf (i : Instance) (name : Name) : Eval Property := do
  match ← field? i name.text with
  | some value => return .value value
  | none =>
    match i.class.getter? name.text with
    | some getter => return .getter (← bindThis getter i)
    | none =>
      match i.class.method? name.text with
      | some method => return .value (.callable (← newFunction (← bindThis method i)))
      | none => failAt name.line (.undefinedProperty name.text)

/-- A property of a superclass: a method, else a getter. -/
def superPropertyOf (c : ClassValue) (i : Instance) (name : Name) : Eval Property := do
  match c.method? name.text with
  | some method => return .value (.callable (← newFunction (← bindThis method i)))
  | none =>
    match c.getter? name.text with
    | some getter => return .getter (← bindThis getter i)
    | none => failAt name.line (.undefinedProperty name.text)

/-- The property that a value has under a name. -/
def propertyOfValue (object : Value) (name : Name) : Eval Property := do
  match object with
  | .instance i => propertyOf i name
  | .array array => return .value (← arrayProperty array name)
  | _ => failAt name.line .noProperties

/-- The value that a call may call with this many arguments. -/
def callableOf (callee : Value) (count line : Nat) : Eval Callable := do
  match callee with
  | .callable c =>
    if count ≠ c.arity then
      failAt line (.wrongArity c.arity count)
    return c
  | _ => failAt line .notCallable

/-- The instance that a field is to be set on. -/
def instanceOf (object : Value) (name : Name) : Eval Instance := do
  match object with
  | .instance i => return i
  | _ => failAt name.line .noFields

/-- Stops where no further call may be made. -/
def checkDepth (line : Nat) : Eval Unit := do
  let m ← get
  if m.maxDepth ≤ m.depth then
    Fueled.fail (.stackOverflow line)

/-- The value of a call whose body ended so. An initializer gives its instance in any case. -/
def resultOf (closure : Closure) (flow : Flow) : Eval Value := do
  if closure.isInitializer then
    ofExcept ((← get).scopes.readAt closure.environment 0 ⟨"this", closure.function.line⟩)
  else match flow with
    | .return value => return value
    | _ => return .nil

mutual

def evaluate : Nat → Expr → Eval Value
  | 0, _ => Fueled.exhausted
  | fuel + 1, e =>
    match e with
    | .literal value => return .ofLiteral value
    | .group inner => evaluate fuel inner
    | .unary op line operand => do
      let operand ← evaluate fuel operand
      ofExcept (op.apply line operand)
    | .binary op line left right => do
      let left ← evaluate fuel left
      let right ← evaluate fuel right
      ofExcept (op.apply line left right)
    | .logical op left right => do
      let left ← evaluate fuel left
      if op.decidedBy left then return left else evaluate fuel right
    | .ternary condition thenBranch elseBranch => do
      let condition ← evaluate fuel condition
      if condition.isTruthy then evaluate fuel thenBranch else evaluate fuel elseBranch
    | .comma left right => do
      let _ ← evaluate fuel left
      evaluate fuel right
    | .variable occurrence => readVariable occurrence.id occurrence.name
    | .assign target value => do
      let value ← evaluate fuel value
      writeVariable target value
      return value
    | .call callee line arguments => do
      let callee ← evaluate fuel callee
      let arguments ← evaluateAll fuel arguments
      let callable ← callableOf callee arguments.length line
      call fuel callable arguments line
    | .get object name => do
      let object ← evaluate fuel object
      let property ← propertyOfValue object name
      readProperty fuel property name.line
    | .set object name value => do
      let object ← evaluate fuel object
      let i ← instanceOf object name
      let value ← evaluate fuel value
      setField i name.text value
      return value
    | .this id line => readVariable id ⟨"this", line⟩
    | .super id line method => do
      let (c, i) ← superOf id line
      let property ← superPropertyOf c i method
      readProperty fuel property method.line
    | .lambda function => return .callable (← declareFunction function)

/-- Evaluates from left to right. -/
def evaluateAll : Nat → List Expr → Eval (List Value)
  | 0, _ => Fueled.exhausted
  | _, [] => return []
  | fuel + 1, e :: es => do
    let value ← evaluate fuel e
    let values ← evaluateAll fuel es
    return value :: values

/-- Reading a getter calls it. -/
def readProperty : Nat → Property → Nat → Eval Value
  | 0, _, _ => Fueled.exhausted
  | _, .value v, _ => return v
  | fuel + 1, .getter closure, line => do
    call fuel (← newFunction closure) [] line

/-- Calls with as many arguments as the arity. -/
def call : Nat → Callable → List Value → Nat → Eval Value
  | 0, _, _, _ => Fueled.exhausted
  | fuel + 1, callable, arguments, line => do
    checkDepth line
    match callable with
    | .function _ closure => nested (run fuel closure arguments)
    | .class c => nested (construct fuel c arguments)
    | .native _ n => nested (runNative n arguments line)

/-- Runs the body of a function in a scope of its own. -/
def run : Nat → Closure → List Value → Eval Value
  | 0, _, _ => Fueled.exhausted
  | fuel + 1, closure, arguments => do
    let environment ← openScope closure.environment
      (parameterTable closure.function.parameters arguments)
    let flow ← within environment (executeAll fuel closure.function.body)
    resultOf closure flow

/-- Makes an instance and runs the initializer on it, if the class has one. -/
def construct : Nat → ClassValue → List Value → Eval Value
  | 0, _, _ => Fueled.exhausted
  | fuel + 1, c, arguments => do
    let i ← newInstance c
    match c.initializer? with
    | none => return .instance i
    | some initializer =>
      let closure ← bindThis initializer i
      let _ ← run fuel closure arguments
      return .instance i

def execute : Nat → Stmt → Eval Flow
  | 0, _ => Fueled.exhausted
  | fuel + 1, s =>
    match s with
    | .expression e => do
      let _ ← evaluate fuel e
      return .normal
    | .print e => do
      let value ← evaluate fuel e
      print value.text
      return .normal
    | .var name none => do
      define name.text .nil
      return .normal
    | .var name (some initializer) => do
      let value ← evaluate fuel initializer
      define name.text value
      return .normal
    | .block body => do
      let environment ← openScope (← get).environment .empty
      within environment (executeAll fuel body)
    | .if condition thenBranch elseBranch? => do
      let condition ← evaluate fuel condition
      if condition.isTruthy then
        execute fuel thenBranch
      else match elseBranch? with
        | none => return .normal
        | some elseBranch => execute fuel elseBranch
    | .while condition body increment? => loop fuel condition body increment?
    | .function f => do
      define f.displayName (.callable (← declareFunction f))
      return .normal
    | .class c => do
      declareClass c
      return .normal
    | .return _ none => return .return .nil
    | .return _ (some value) => return .return (← evaluate fuel value)
    | .break _ => return .break
    | .continue _ => return .continue

/-- Runs a loop from the test of its condition on. -/
def loop : Nat → Expr → Stmt → Option Expr → Eval Flow
  | 0, _, _, _ => Fueled.exhausted
  | fuel + 1, condition, body, increment? => do
    if (← evaluate fuel condition).isTruthy then
      match ← execute fuel body with
      | .break => return .normal
      | .return value => return .return value
      | _ =>
        match increment? with
        | none => loop fuel condition body increment?
        | some increment =>
          let _ ← evaluate fuel increment
          loop fuel condition body increment?
    else return .normal

/-- Runs statements up to the first that does not end normally. -/
def executeAll : Nat → List Stmt → Eval Flow
  | 0, _ => Fueled.exhausted
  | _, [] => return .normal
  | fuel + 1, s :: ss => do
    match ← execute fuel s with
    | .normal => executeAll fuel ss
    | flow => return flow

end

end Eval

end LoxLang
