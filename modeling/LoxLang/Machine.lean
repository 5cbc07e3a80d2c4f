import LoxLang.Fuel
import LoxLang.Machine.Console
import LoxLang.Machine.Scopes
import LoxLang.Scoping.Distances

/-!
The state of a running program and the steps that read and change it.
-/

namespace LoxLang

/-- Whether there is room for the elements of an array, by the number of the request and the number
of the elements. -/
abbrev Memory := Nat → Nat → Bool

structure Machine where
  scopes : Scopes
  /-- The fields of each instance, by the number of the instance. -/
  fields : Array (Table Value)
  /-- The elements of each array, by the number of the array. -/
  arrays : Array (Array Value)
  /-- A number that no callable has. -/
  nextId : Nat
  /-- The scopes around the statement that runs. -/
  environment : Environment
  /-- The calls under way. -/
  depth : Nat
  /-- The most calls that may be under way. -/
  maxDepth : Nat
  distances : Distances
  console : Console
  /-- Milliseconds at each reading of the clock. -/
  clock : Nat → Nat
  /-- The readings of the clock so far. -/
  readings : Nat
  memory : Memory
  /-- The requests for memory so far. -/
  requests : Nat

/-- The environment of the statements outside all blocks. -/
def globalEnvironment : Environment := [0]

/-- The calls that may be under way where nothing else is asked for. -/
def defaultMaxDepth : Nat := 1024

/-- Room for each array of a moderate length, where nothing else is known. -/
def defaultMemory : Memory := fun _ length => length ≤ Nat.pow 2 28

/-- What is defined before a program starts. -/
def natives : List Native :=
  [.clock, .input, .array]

namespace Machine

/-- A machine that has run nothing. -/
def start (maxDepth : Nat) (input : List UInt8) (sink : Sink) (clock : Nat → Nat)
    (memory : Memory := defaultMemory) : Machine where
  scopes := Scopes.empty.push
    (natives.zipIdx.foldl (fun t (n, id) => t.insert n.name (.callable (.native id n))) .empty)
  fields := #[]
  arrays := #[]
  nextId := natives.length
  environment := globalEnvironment
  depth := 0
  maxDepth := maxDepth
  distances := .empty
  console := ⟨input, #[], sink⟩
  clock := clock
  readings := 0
  memory := memory
  requests := 0

/-- Whether there is room for an array of this length now. An empty array takes none. -/
def hasRoom (m : Machine) (length : Nat) : Bool :=
  length == 0 || m.memory m.requests length

theorem hasRoom_congr {m m' : Machine} (hm : m'.memory = m.memory)
    (hr : m'.requests = m.requests) (length : Nat) : m'.hasRoom length = m.hasRoom length := by
  rw [hasRoom, hm, hr, hasRoom]

end Machine

abbrev Eval := Fueled Machine

namespace Eval

@[inline]
def failAt {α : Type} (line : Nat) (error : RuntimeError) : Eval α :=
  Fueled.fail (.runtime line error)

@[inline]
def ofExcept {α : Type} : Except Diagnostic α → Eval α
  | .ok a => pure a
  | .error d => Fueled.fail d

/-- Runs with another environment and puts the old one back, however the run ends. -/
@[inline]
def within {α : Type} (environment : Environment) (run : Eval α) : Eval α := fun m =>
  let outer := m.environment
  match run { m with environment := environment } with
  | .ok a m => .ok a { m with environment := outer }
  | .error e m => .error e { m with environment := outer }

/-- Counts a call while it is under way, however it ends. -/
@[inline]
def nested {α : Type} (run : Eval α) : Eval α := fun m =>
  match run { m with depth := m.depth + 1 } with
  | .ok a m => .ok a { m with depth := m.depth - 1 }
  | .error e m => .error e { m with depth := m.depth - 1 }

/-- Opens a scope with these variables inside an environment. -/
def openScope (outer : Environment) (table : Table Value) : Eval Environment :=
  modifyGet fun m => (m.scopes.next :: outer, { m with scopes := m.scopes.push table })

/-- Defines a variable in the innermost scope. -/
def define (name : String) (value : Value) : Eval Unit :=
  modify fun m => { m with scopes := m.scopes.define m.environment name value }

/-- Reads the variable of an occurrence: at its distance, or else among the globals. -/
def readVariable (id : Nat) (name : Name) : Eval Value := do
  let m ← get
  match m.distances.find? id with
  | some distance => ofExcept (m.scopes.readAt m.environment distance name)
  | none => ofExcept (m.scopes.read globalEnvironment name)

/-- The scope where an assignment to an occurrence takes effect. -/
def targetOf (o : Occurrence) : Eval Nat := do
  let m ← get
  match m.distances.find? o.id with
  | some distance => ofExcept (m.scopes.targetAt m.environment distance o.name)
  | none => ofExcept (m.scopes.target globalEnvironment o.name)

/-- Assigns to the variable of an occurrence. -/
def writeVariable (o : Occurrence) (value : Value) : Eval Unit := do
  let scope ← targetOf o
  modify fun m => { m with scopes := m.scopes.put scope o.name.text value }

/-- A number for a new callable. -/
def freshId : Eval Nat :=
  modifyGet fun m => (m.nextId, { m with nextId := m.nextId + 1 })

/-- A new function value. -/
def newFunction (closure : Closure) : Eval Callable := do
  return .function (← freshId) closure

/-- A function declared in the current environment. -/
def declareFunction (f : Function) : Eval Callable := do
  newFunction ⟨f, (← get).environment, false⟩

/-- A new native value. -/
def newNative (n : Native) : Eval Value := do
  return .callable (.native (← freshId) n)

/-- A new object without fields. -/
def newInstance (c : ClassValue) : Eval Instance :=
  modifyGet fun m => (⟨m.fields.size, c⟩, { m with fields := m.fields.push .empty })

def field? (i : Instance) (name : String) : Eval (Option Value) := do
  return (← get).fields[i.id]?.bind (·.find? name)

def setField (i : Instance) (name : String) (value : Value) : Eval Unit :=
  modify fun m => { m with fields := m.fields.modify i.id (·.insert name value) }

/-- A method whose `this` is an instance. -/
def bindThis (method : Closure) (i : Instance) : Eval Closure := do
  let environment ← openScope method.environment (Table.empty.insert "this" (.instance i))
  return { method with environment := environment }

/-- Prints a line, unless the output refuses it. -/
def print (text : String) : Eval Unit := do
  match (← get).console.sink.writeRefusal? with
  | some reason => Fueled.fail (.io reason)
  | none => modify fun m => { m with console := m.console.print text }

/-- Reads a line of input. -/
def readLine : Eval (Except String (Option String)) :=
  modifyGet fun m =>
    let (line, console) := m.console.readLine
    (line, { m with console := console })

/-- The milliseconds that the clock shows now. -/
def readClock : Eval Nat :=
  modifyGet fun m => (m.clock m.readings, { m with readings := m.readings + 1 })

/-- Asks for the memory of so many elements. -/
def reserve (length : Nat) : Eval Bool :=
  modifyGet fun m => (m.hasRoom length, { m with requests := m.requests + 1 })

end Eval

end LoxLang
