import LoxLang.Diagnostic
import LoxLang.Scoping.Distances
import LoxLang.Table
import LoxLang.Tree

/-!
The analysis that a program passes before it runs. It finds every violation of the rules on names
and jumps, and notes how far each local variable is from its binding. The scopes it opens are the
ones that will be open when the program runs.
-/

namespace LoxLang

/-- The kind of function body around a statement. -/
inductive BodyKind where
  | program
  | function
  | method
  | initializer
  deriving DecidableEq, Repr

/-- The kind of class around a statement. -/
inductive ClassKind where
  | none
  | base
  | subclass
  deriving DecidableEq, Repr

/-- What is around a statement. Only loops in the same function body count. -/
structure Surroundings where
  body : BodyKind
  «class» : ClassKind
  inLoop : Bool
  deriving DecidableEq, Repr

/-- Nothing around. -/
def Surroundings.top : Surroundings := ⟨.program, .none, false⟩

/-- What the analysis knows. A name is bound to `false` while its initializer is read. The global
scope is not among the scopes. -/
structure Scoping where
  scopes : List (Table Bool)
  errors : List Diagnostic
  /-- The occurrences that the analysis has come to, the last one first, each with its distance
  if that is to be noted. -/
  found : List (Nat × Option Nat)

namespace Scoping

/-- What is known before anything is analysed. -/
def start : Scoping := ⟨[], [], []⟩

/-- A table of distances with those found added in their order. -/
def noted (s : Scoping) (distances : Distances) : Distances :=
  s.found.foldr (fun found d => d.note? found.1 found.2) distances

def report (s : Scoping) (line : Nat) (lexeme : String) (error : ScopeError) : Scoping :=
  { s with errors := .scope line lexeme error :: s.errors }

/-- Records an error if the rule is violated. -/
def reportIf (s : Scoping) (violated : Bool) (line : Nat) (lexeme : String) (error : ScopeError) :
    Scoping :=
  if violated then s.report line lexeme error else s

def enter (s : Scoping) : Scoping :=
  { s with scopes := .empty :: s.scopes }

def leave (s : Scoping) : Scoping :=
  { s with scopes := s.scopes.tail }

/-- Binds a name in the innermost scope, if there is one. -/
def bind (s : Scoping) (name : String) (initialized : Bool) : Scoping :=
  match s.scopes with
  | [] => s
  | scope :: outer => { s with scopes := scope.insert name initialized :: outer }

/-- Whether the innermost scope satisfies a condition. -/
def innermost (s : Scoping) (p : Table Bool → Bool) : Bool :=
  s.scopes.head?.any p

/-- A name whose initializer is yet to come. In a local scope names are declared once. -/
def declare (s : Scoping) (name : Name) : Scoping :=
  (s.bind name.text false).reportIf (s.innermost (·.contains name.text)) name.line name.text
    .duplicateName

def define (s : Scoping) (name : Name) : Scoping :=
  s.bind name.text true

/-- A name that has its value from the start. -/
def introduce (s : Scoping) (name : Name) : Scoping :=
  (s.declare name).define name

/-- How many scopes out a name is bound. -/
def distance? (name : String) (scopes : List (Table Bool)) : Option Nat :=
  scopes.findIdx? (·.contains name)

/-- Comes to an occurrence. -/
def meet (s : Scoping) (id : Nat) (distance? : Option Nat) : Scoping :=
  { s with found := (id, distance?) :: s.found }

/-- Notes the distance of an occurrence, unless the name is global. -/
def locate (s : Scoping) (id : Nat) (name : String) : Scoping :=
  s.meet id (distance? name s.scopes)

/-- Reads a variable, which must not be the one that is being initialized. -/
def read (s : Scoping) (o : Occurrence) : Scoping :=
  (s.reportIf (s.innermost (·.find? o.name.text == some false)) o.name.line o.name.text
    .ownInitializer).locate o.id o.name.text

/-- The binding behind `this`. -/
def readThis (s : Scoping) (around : Surroundings) (id line : Nat) : Scoping :=
  if around.class = .none then (s.meet id none).report line "this" .thisOutsideClass
  else s.locate id "this"

/-- The binding behind `super`. -/
def readSuper (s : Scoping) (around : Surroundings) (id line : Nat) : Scoping :=
  let s := match around.class with
    | .none => s.report line "super" .superOutsideClass
    | .base => s.report line "super" .superWithoutSuperclass
    | .subclass => s
  s.locate id "super"

/-- The superclass of a class, in whose methods `super` is bound. -/
def readSuperclass (s : Scoping) (className : Name) (superclass : Occurrence) : Scoping :=
  let s := s.reportIf (superclass.name.text = className.text) superclass.name.line
    superclass.name.text .inheritsFromItself
  (s.read superclass).enter.bind "super" true

end Scoping

/-- The kind of the body of a method. -/
def Function.methodKind (f : Function) : BodyKind :=
  if f.displayName = "init" then .initializer else .method

mutual

def Expr.resolve (around : Surroundings) : Expr → Scoping → Scoping
  | .literal _, s => s
  | .group inner, s => inner.resolve around s
  | .unary _ _ operand, s => operand.resolve around s
  | .binary _ _ left right, s => right.resolve around (left.resolve around s)
  | .logical _ left right, s => right.resolve around (left.resolve around s)
  | .ternary condition thenBranch elseBranch, s =>
    elseBranch.resolve around (thenBranch.resolve around (condition.resolve around s))
  | .comma left right, s => right.resolve around (left.resolve around s)
  | .variable occurrence, s => s.read occurrence
  | .assign target value, s => (value.resolve around s).locate target.id target.name.text
  | .call callee _ arguments, s => resolveExprs around arguments (callee.resolve around s)
  | .get object _, s => object.resolve around s
  | .set object _ value, s => object.resolve around (value.resolve around s)
  | .this id line, s => s.readThis around id line
  | .super id line _, s => s.readSuper around id line
  | .lambda function, s => function.resolve around .function s

def resolveExprs (around : Surroundings) : List Expr → Scoping → Scoping
  | [], s => s
  | e :: es, s => resolveExprs around es (e.resolve around s)

/-- Parameters and body share a scope. -/
def Function.resolve (around : Surroundings) (kind : BodyKind) : Function → Scoping → Scoping
  | ⟨_, parameters, body, _⟩, s =>
    let inside := { around with body := kind, inLoop := false }
    (resolveStmts inside body (parameters.foldl .introduce s.enter)).leave

def Stmt.resolve (around : Surroundings) : Stmt → Scoping → Scoping
  | .expression e, s => e.resolve around s
  | .print e, s => e.resolve around s
  | .var name none, s => s.introduce name
  | .var name (some initializer), s =>
    (initializer.resolve around (s.declare name)).define name
  | .block body, s => (resolveStmts around body s.enter).leave
  | .if condition thenBranch none, s =>
    thenBranch.resolve around (condition.resolve around s)
  | .if condition thenBranch (some elseBranch), s =>
    elseBranch.resolve around (thenBranch.resolve around (condition.resolve around s))
  | .while condition body none, s =>
    body.resolve { around with inLoop := true } (condition.resolve around s)
  | .while condition body (some increment), s =>
    increment.resolve around
      (body.resolve { around with inLoop := true } (condition.resolve around s))
  | .function f, s => f.resolve around .function ((f.name?.map s.introduce).getD s)
  | .class c, s => c.resolve around s
  | .return line none, s =>
    s.reportIf (around.body = .program) line "return" .returnOutsideFunction
  | .return line (some value), s =>
    let s := s.reportIf (around.body = .program) line "return" .returnOutsideFunction
    let s := s.reportIf (around.body = .initializer) line "return" .valueFromInitializer
    value.resolve around s
  | .break line, s => s.reportIf (!around.inLoop) line "break" .breakOutsideLoop
  | .continue line, s => s.reportIf (!around.inLoop) line "continue" .continueOutsideLoop

def resolveStmts (around : Surroundings) : List Stmt → Scoping → Scoping
  | [], s => s
  | stmt :: stmts, s => resolveStmts around stmts (stmt.resolve around s)

/-- Methods are in a scope that binds `this`, in a subclass inside one that binds `super`. -/
def Class.resolve (around : Surroundings) : Class → Scoping → Scoping
  | ⟨name, none, methods, getters⟩, s =>
    let inside := { around with «class» := .base }
    let s := resolveFunctions inside Function.methodKind methods
      ((s.introduce name).enter.bind "this" true)
    (resolveFunctions inside (fun _ => .method) getters s).leave
  | ⟨name, some superclass, methods, getters⟩, s =>
    let inside := { around with «class» := .subclass }
    let s := (s.introduce name).readSuperclass name superclass
    let s := resolveFunctions inside Function.methodKind methods (s.enter.bind "this" true)
    (resolveFunctions inside (fun _ => .method) getters s).leave.leave

def resolveFunctions (around : Surroundings) (kind : Function → BodyKind) :
    List Function → Scoping → Scoping
  | [], s => s
  | f :: fs, s => resolveFunctions around kind fs (f.resolve around (kind f) s)

end

/-- Analyses a program. Its distances are added to those of the programs before it. -/
def resolveProgram (statements : List Stmt) (distances : Distances) :
    Except (List Diagnostic) Distances :=
  let s := resolveStmts .top statements .start
  if s.errors.isEmpty then .ok (s.noted distances) else .error s.errors.reverse

end LoxLang
