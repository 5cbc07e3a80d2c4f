import LoxLang.Session

/-!
Running programs by the rule of lexical scoping alone, without an analysis. Every local variable
is a cell. An environment is the list of the cells that are visible, the last one first, and it is
only ever extended: what a closure has captured stays as it was. A name stands for the first cell
with that name, or else for a global.
-/

namespace LoxLang

/-- A local variable with its value, once its initializer has finished. -/
structure Cell where
  name : String
  value? : Option Value

namespace Lexical

/-- The cells beside a machine, whose scopes hold the globals, whose environment lists cells, and
which has no distances. -/
structure State where
  machine : Machine
  cells : Array Cell

end Lexical

abbrev Lexical := Fueled Lexical.State

/-- Where a statement stands: outside all blocks, where it declares globals, or inside. -/
inductive Place where
  | outside
  | inside
  deriving DecidableEq

namespace Lexical

/-- What does not depend on scopes runs on the machine. -/
def lift {α : Type} (run : Eval α) : Lexical α := fun s =>
  match run s.machine with
  | .ok a m => .ok a { s with machine := m }
  | .error e m => .error e { s with machine := m }

@[inline]
def failAt {α : Type} (line : Nat) (error : RuntimeError) : Lexical α :=
  Fueled.fail (.runtime line error)

/-- Runs with another environment and puts the old one back, however the run ends. -/
def within {α : Type} (environment : Environment) (run : Lexical α) : Lexical α := fun s =>
  let restored (s' : State) : State :=
    { s' with machine := { s'.machine with environment := s.machine.environment } }
  match run { s with machine := { s.machine with environment := environment } } with
  | .ok a s' => .ok a (restored s')
  | .error e s' => .error e (restored s')

/-- Counts a call while it is under way, however it ends. -/
def nested {α : Type} (run : Lexical α) : Lexical α := fun s =>
  let finished (s' : State) : State :=
    { s' with machine := { s'.machine with depth := s'.machine.depth - 1 } }
  match run { s with machine := { s.machine with depth := s.machine.depth + 1 } } with
  | .ok a s' => .ok a (finished s')
  | .error e s' => .error e (finished s')

/-- A new cell. -/
def newCell (name : String) (value? : Option Value) : Lexical Nat :=
  modifyGet fun s => (s.cells.size, { s with cells := s.cells.push ⟨name, value?⟩ })

def setCell (cell : Nat) (value : Value) : Lexical Unit :=
  modify fun s => { s with cells := s.cells.modify cell fun c => { c with value? := some value } }

/-- The first cell of an environment with a name. -/
def State.cell? (s : State) (environment : Environment) (name : String) : Option Nat :=
  environment.find? fun cell => (s.cells[cell]?.map Cell.name) == some name

/-- The value of a cell, which must have one. -/
def valueOf (cell : Nat) (name : Name) : Lexical Value := do
  match (← get).cells[cell]?.bind Cell.value? with
  | some value => return value
  | none => failAt name.line (.misplacedVariable name.text)

def readVariable (name : Name) : Lexical Value := do
  let s ← get
  match s.cell? s.machine.environment name.text with
  | some cell => valueOf cell name
  | none => lift (Eval.ofExcept (s.machine.scopes.read globalEnvironment name))

/-- A variable can only be assigned to once it has a value. -/
def writeVariable (name : Name) (value : Value) : Lexical Unit := do
  let s ← get
  match s.cell? s.machine.environment name.text with
  | some cell =>
    let _ ← valueOf cell name
    setCell cell value
  | none => lift do
    let scope ← Eval.ofExcept (s.machine.scopes.target globalEnvironment name)
    modify fun m => { m with scopes := m.scopes.put scope name.text value }

/-- Extends the environment by a cell without a value, if the name is local. -/
def declare (place : Place) (name : String) : Lexical (Option Nat) := do
  match place with
  | .outside => return none
  | .inside =>
    let cell ← newCell name none
    modify fun s =>
      { s with machine := { s.machine with environment := cell :: s.machine.environment } }
    return some cell

/-- Gives a declared name its value. -/
def define (cell? : Option Nat) (name : String) (value : Value) : Lexical Unit :=
  match cell? with
  | some cell => setCell cell value
  | none => modify fun s =>
    { s with machine := { s.machine with scopes := s.machine.scopes.put 0 name value } }

/-- An environment extended by new cells with these values. -/
def extended (environment : Environment) : List (String × Value) → Lexical Environment
  | [] => return environment
  | (name, value) :: bindings => do
    let cell ← newCell name (some value)
    extended (cell :: environment) bindings

/-- A function declared in the current environment. -/
def declareFunction (f : Function) : Lexical Callable := do
  lift (Eval.newFunction ⟨f, (← get).machine.environment, false⟩)

/-- A method whose `this` is an instance. -/
def bindThis (method : Closure) (i : Instance) : Lexical Closure := do
  let environment ← extended method.environment [("this", .instance i)]
  return { method with environment := environment }

/-- The superclass of a class declaration. -/
def superclassOf (superclass? : Option Occurrence) : Lexical (Option ClassValue) := do
  match superclass? with
  | none => return none
  | some o =>
    match ← readVariable o.name with
    | .callable (.class c) => return some c
    | _ => failAt o.name.line .superclassNotClass

/-- The environment of the members of a class. -/
def memberEnvironment (superclass? : Option ClassValue) : Lexical Environment := do
  let environment := (← get).machine.environment
  match superclass? with
  | none => return environment
  | some c => extended environment [("super", .callable (.class c))]

/-- Declares a class. Its name is declared behind its superclass and in front of its members. -/
def declareClass (place : Place) (c : Class) : Lexical Unit := do
  let superclass? ← superclassOf c.superclass?
  let cell? ← declare place c.name.text
  define cell? c.name.text .nil
  let environment ← memberEnvironment superclass?
  let value : ClassValue := {
    id := ← lift Eval.freshId
    name := c.name.text
    superclass? := superclass?
    members := memberTable environment c.methods c.getters }
  define cell? c.name.text (.callable (.class value))

/-- The class and the instance that `super` stands for. -/
def superOf (line : Nat) : Lexical (ClassValue × Instance) := do
  let s ← get
  match s.cell? s.machine.environment "super" with
  | none => failAt line .superUnresolved
  | some cell =>
    match ← valueOf cell ⟨"super", line⟩ with
    | .callable (.class c) =>
      match ← readVariable ⟨"this", line⟩ with
      | .instance i => return (c, i)
      | _ => failAt line .thisNotInstance
    | _ => failAt line .superclassNotClass

/-- A property of an instance: a field, else a getter, else a method. -/
def propertyOf (i : Instance) (name : Name) : Lexical Eval.Property := do
  match ← lift (Eval.field? i name.text) with
  | some value => return .value value
  | none =>
    match i.class.getter? name.text with
    | some getter => return .getter (← bindThis getter i)
    | none =>
      match i.class.method? name.text with
      | some method => return .value (.callable (← lift (Eval.newFunction (← bindThis method i))))
      | none => failAt name.line (.undefinedProperty name.text)

/-- A property of a superclass: a method, else a getter. -/
def superPropertyOf (c : ClassValue) (i : Instance) (name : Name) : Lexical Eval.Property := do
  match c.method? name.text with
  | some method => return .value (.callable (← lift (Eval.newFunction (← bindThis method i))))
  | none =>
    match c.getter? name.text with
    | some getter => return .getter (← bindThis getter i)
    | none => failAt name.line (.undefinedProperty name.text)

def propertyOfValue (object : Value) (name : Name) : Lexical Eval.Property := do
  match object with
  | .instance i => propertyOf i name
  | .array array => return .value (← lift (Eval.arrayProperty array name))
  | _ => failAt name.line .noProperties

/-- The value of a call whose body ended so. An initializer gives its instance in any case. -/
def resultOf (closure : Closure) (flow : Flow) : Lexical Value := do
  if closure.isInitializer then
    match (← get).cell? closure.environment "this" with
    | some cell => valueOf cell ⟨"this", closure.function.line⟩
    | none => failAt closure.function.line (.misplacedVariable "this")
  else match flow with
    | .return value => return value
    | _ => return .nil

mutual

def evaluate : Nat → Expr → Lexical Value
  | 0, _ => Fueled.exhausted
  | fuel + 1, e =>
    match e with
    | .literal value => return .ofLiteral value
    | .group inner => evaluate fuel inner
    | .unary op line operand => do
      let operand ← evaluate fuel operand
      lift (Eval.ofExcept (op.apply line operand))
    | .binary op line left right => do
      let left ← evaluate fuel left
      let right ← evaluate fuel right
      lift (Eval.ofExcept (op.apply line left right))
    | .logical op left right => do
      let left ← evaluate fuel left
      if op.decidedBy left then return left else evaluate fuel right
    | .ternary condition thenBranch elseBranch => do
      let condition ← evaluate fuel condition
      if condition.isTruthy then evaluate fuel thenBranch else evaluate fuel elseBranch
    | .comma left right => do
      let _ ← evaluate fuel left
      evaluate fuel right
    | .variable occurrence => readVariable occurrence.name
    | .assign target value => do
      let value ← evaluate fuel value
      writeVariable target.name value
      return value
    | .call callee line arguments => do
      let callee ← evaluate fuel callee
      let arguments ← evaluateAll fuel arguments
      let callable ← lift (Eval.callableOf callee arguments.length line)
      call fuel callable arguments line
    | .get object name => do
      let object ← evaluate fuel object
      let property ← propertyOfValue object name
      readProperty fuel property name.line
    | .set object name value => do
      let object ← evaluate fuel object
      let i ← lift (Eval.instanceOf object name)
      let value ← evaluate fuel value
      lift (Eval.setField i name.text value)
      return value
    | .this _ line => readVariable ⟨"this", line⟩
    | .super _ line method => do
      let (c, i) ← superOf line
      let property ← superPropertyOf c i method
      readProperty fuel property method.line
    | .lambda function => return .callable (← declareFunction function)

def evaluateAll : Nat → List Expr → Lexical (List Value)
  | 0, _ => Fueled.exhausted
  | _, [] => return []
  | fuel + 1, e :: es => do
    let value ← evaluate fuel e
    let values ← evaluateAll fuel es
    return value :: values

def readProperty : Nat → Eval.Property → Nat → Lexical Value
  | 0, _, _ => Fueled.exhausted
  | _, .value v, _ => return v
  | fuel + 1, .getter closure, line => do
    call fuel (← lift (Eval.newFunction closure)) [] line

def call : Nat → Callable → List Value → Nat → Lexical Value
  | 0, _, _, _ => Fueled.exhausted
  | fuel + 1, callable, arguments, line => do
    lift (Eval.checkDepth line)
    match callable with
    | .function _ closure => nested (run fuel closure arguments)
    | .class c => nested (construct fuel c arguments)
    | .native _ n => nested (lift (Eval.runNative n arguments line))

/-- Runs the body of a function with new cells for its parameters. -/
def run : Nat → Closure → List Value → Lexical Value
  | 0, _, _ => Fueled.exhausted
  | fuel + 1, closure, arguments => do
    let environment ← extended closure.environment
      ((closure.function.parameters.map Name.text).zip arguments)
    let flow ← within environment (executeAll fuel .inside closure.function.body)
    resultOf closure flow

def construct : Nat → ClassValue → List Value → Lexical Value
  | 0, _, _ => Fueled.exhausted
  | fuel + 1, c, arguments => do
    let i ← lift (Eval.newInstance c)
    match c.initializer? with
    | none => return .instance i
    | some initializer =>
      let closure ← bindThis initializer i
      let _ ← run fuel closure arguments
      return .instance i

def execute : Nat → Place → Stmt → Lexical Flow
  | 0, _, _ => Fueled.exhausted
  | fuel + 1, place, s =>
    match s with
    | .expression e => do
      let _ ← evaluate fuel e
      return .normal
    | .print e => do
      let value ← evaluate fuel e
      lift (Eval.print value.text)
      return .normal
    | .var name none => do
      define (← declare place name.text) name.text .nil
      return .normal
    | .var name (some initializer) => do
      let cell? ← declare place name.text
      let value ← evaluate fuel initializer
      define cell? name.text value
      return .normal
    | .block body => do
      within (← get).machine.environment (executeAll fuel .inside body)
    | .if condition thenBranch elseBranch? => do
      let condition ← evaluate fuel condition
      if condition.isTruthy then
        execute fuel place thenBranch
      else match elseBranch? with
        | none => return .normal
        | some elseBranch => execute fuel place elseBranch
    | .while condition body increment? => loop fuel place condition body increment?
    | .function f => do
      let cell? ← declare place f.displayName
      define cell? f.displayName (.callable (← declareFunction f))
      return .normal
    | .class c => do
      declareClass place c
      return .normal
    | .return _ none => return .return .nil
    | .return _ (some value) => return .return (← evaluate fuel value)
    | .break _ => return .break
    | .continue _ => return .continue

def loop : Nat → Place → Expr → Stmt → Option Expr → Lexical Flow
  | 0, _, _, _, _ => Fueled.exhausted
  | fuel + 1, place, condition, body, increment? => do
    if (← evaluate fuel condition).isTruthy then
      match ← execute fuel place body with
      | .break => return .normal
      | .return value => return .return value
      | _ =>
        match increment? with
        | none => loop fuel place condition body increment?
        | some increment =>
          let _ ← evaluate fuel increment
          loop fuel place condition body increment?
    else return .normal

def executeAll : Nat → Place → List Stmt → Lexical Flow
  | 0, _, _ => Fueled.exhausted
  | _, _, [] => return .normal
  | fuel + 1, place, s :: ss => do
    match ← execute fuel place s with
    | .normal => executeAll fuel place ss
    | flow => return flow

end

/-- Before a program, no cell is there and the environment is empty. -/
def start (maxDepth : Nat) (input : List UInt8) (sink : Sink) (clock : Nat → Nat)
    (memory : Memory) : State :=
  ⟨{ Machine.start maxDepth input sink clock memory with environment := [] }, #[]⟩

/-- What a program that ends so shows once its output is flushed, and the console behind it. -/
def shown {σ : Type} (machineOf : σ → Machine) :
    EStateM.Result Stop σ Flow → Option (Outcome × Console)
  | .error .outOfFuel _ => none
  | .ok _ s => some (outcome (machineOf s) none)
  | .error (.failed d) s => some (outcome (machineOf s) (some d))
where
  outcome (m : Machine) (error? : Option Diagnostic) : Outcome × Console :=
    (⟨m.console.output, (m.flushed error?).toList⟩, m.console)

/-- Runs a program from the start. -/
def runProgram (fuel maxDepth : Nat) (input : List UInt8) (sink : Sink) (clock : Nat → Nat)
    (memory : Memory) (statements : List Stmt) : Option (Outcome × Console) :=
  shown State.machine (executeAll fuel .outside statements (start maxDepth input sink clock memory))

end Lexical

end LoxLang
