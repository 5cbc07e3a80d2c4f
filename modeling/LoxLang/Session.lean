import LoxLang.Evaluation
import LoxLang.Program

/-!
Sessions: programs and lines that run one after the other on the same globals. A step whose text
has an error before it runs prints and changes nothing that a program can see, but its occurrences
keep their numbers, and the distances that were noted for them stay.
-/

namespace LoxLang

/-- What a step shows. -/
structure Outcome where
  output : String
  errors : List Diagnostic
  deriving DecidableEq, Repr

def Outcome.exitCode (o : Outcome) : Nat :=
  Diagnostic.exitCodeOf o.errors

structure Session where
  machine : Machine
  /-- The number for the next occurrence of a variable. -/
  nextId : Nat

/-- How a single statement ended. -/
inductive Observation where
  | value (v : Value)
  | flow (f : Flow)
  | error (d : Diagnostic)

namespace Machine

/-- The machine with nothing printed yet. -/
def cleared (m : Machine) : Machine :=
  { m with console := m.console.cleared }

/-- The machine outside all blocks and calls. -/
def atTop (m : Machine) : Machine :=
  { m with environment := globalEnvironment, depth := 0 }

/-- The error of a run after its output is flushed. A refused flush takes the place of any other
error. -/
def flushed (m : Machine) (error? : Option Diagnostic) : Option Diagnostic :=
  match m.console.sink.flushRefusal? with
  | some reason => some (.io reason)
  | none => error?

/-- Runs a program and flushes its output. Nothing comes of a program that the fuel is too little
for. -/
def interpret (fuel : Nat) (statements : List Stmt) (m : Machine) :
    Option (Option Diagnostic × Machine) :=
  match Eval.executeAll fuel statements m with
  | .error .outOfFuel _ => none
  | .ok _ m => some (m.flushed none, m.atTop)
  | .error (.failed d) m => some (m.flushed (some d), m.atTop)

end Machine

namespace Session

/-- A session that has run nothing. -/
def start (maxDepth : Nat) (input : List UInt8) (sink : Sink) (clock : Nat → Nat)
    (memory : Memory := defaultMemory) : Session :=
  ⟨.start maxDepth input sink clock memory, 0⟩

/-- The outcome of a step that does not run. -/
def refused (s : Session) (errors : List Diagnostic) : Outcome × Session :=
  (⟨"", errors⟩, s)

/-- The session behind a text that has errors. -/
def unread (s : Session) (source : String) : Session :=
  { s with nextId := Program.nextIdAfter s.nextId source }

/-- The session behind a program that does not pass the analysis. -/
def unresolved (s : Session) (program : Program) : Session :=
  let distances := (resolveStmts .top program.statements .start).noted s.machine.distances
  ⟨{ s.machine with distances := distances }, program.nextId⟩

/-- Runs a program without analysing it. -/
def interpret (fuel : Nat) (s : Session) (program : Program) : Option (Outcome × Session) := do
  let (error?, m) ← s.machine.cleared.interpret fuel program.statements
  return (⟨m.console.output, error?.toList⟩, ⟨m, program.nextId⟩)

/-- The session after the analysis of a program. -/
def resolved (s : Session) (program : Program) : Except (List Diagnostic) Session :=
  (resolveProgram program.statements s.machine.distances).map fun distances =>
    { s with machine := { s.machine with distances := distances } }

/-- Analyses a program and runs it. -/
def runProgram (fuel : Nat) (s : Session) (program : Program) : Option (Outcome × Session) :=
  match s.resolved program with
  | .error errors => some ((s.unresolved program).refused errors)
  | .ok s => s.interpret fuel program

/-- Runs the text of a program. -/
def run (fuel : Nat) (s : Session) (source : String) : Option (Outcome × Session) :=
  match Program.ofSource s.nextId source with
  | .error errors => some ((s.unread source).refused errors)
  | .ok program => s.runProgram fuel program

/-- A program that is one expression prints its value. -/
def echoing : List Stmt → List Stmt
  | [.expression e] => [.print e]
  | statements => statements

/-- Runs a line of a dialogue. -/
def runLine (fuel : Nat) (s : Session) (source : String) : Option (Outcome × Session) :=
  match Program.ofSource s.nextId source with
  | .error errors => some ((s.unread source).refused errors)
  | .ok program => s.runProgram fuel { program with statements := echoing program.statements }

/-- Runs the text of a program without analysing it, so that every name is a global. -/
def runUnresolved (fuel : Nat) (s : Session) (source : String) : Option (Outcome × Session) :=
  match Program.ofSource s.nextId source with
  | .error errors => some ((s.unread source).refused errors)
  | .ok program => s.interpret fuel program

/-- Reads a line of the input that programs read. -/
def readLine (s : Session) : Except String (Option String) × Session :=
  let (line, console) := s.machine.console.readLine
  (line, { s with machine := { s.machine with console := console } })

/-- The statements of a program, and the session in which they can run one by one. -/
def load (s : Session) (analyse : Bool) (source : String) :
    Except (List Diagnostic) (List Stmt × Session) := do
  let program ← Program.ofSource s.nextId source
  let s ← if analyse then s.resolved program else .ok s
  return (program.statements, { s with nextId := program.nextId })

/-- Evaluates an expression or executes another statement, for its value or end. -/
def observed (fuel : Nat) : Stmt → Eval Observation
  | .expression e => .value <$> Eval.evaluate fuel e
  | s => .flow <$> Eval.execute fuel s

/-- Runs one statement, also after one that failed. Nothing is flushed. -/
def observe (fuel : Nat) (s : Session) (statement : Stmt) :
    Option (Observation × String × Session) :=
  match observed fuel statement s.machine.cleared with
  | .ok observation m => some (observation, m.console.output, { s with machine := m })
  | .error (.failed d) m => some (.error d, m.console.output, { s with machine := m })
  | .error .outOfFuel _ => none

end Session

end LoxLang
