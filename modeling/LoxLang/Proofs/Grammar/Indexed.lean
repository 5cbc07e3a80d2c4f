import LoxLang.Grammar.Parse

/-!
Reading a program by index. The tokens are in a slice that the parser never shortens: it has the
index of the next place, asks for that place, for the one before and for the one behind, and moves
on by one. A parser that asks for a place outside of the slice halts, and so does a loop with an
iteration that takes nothing.
-/

namespace LoxLang

/-- A place in a slice: a token, or the end of the text on its line. -/
inductive Spot where
  | token (t : Token)
  | endOfText (line : Nat)
  deriving DecidableEq, Repr

namespace Spot

def isEnd : Spot → Bool
  | .token _ => false
  | .endOfText _ => true

/-- The kind of a token. -/
def kind? : Spot → Option Kind
  | .token t => some t.kind
  | .endOfText _ => none

def line : Spot → Nat
  | .token t => t.line
  | .endOfText line => line

def lexeme : Spot → String
  | .token t => t.lexeme
  | .endOfText _ => ""

/-- An error at a place. -/
def diagnostic (s : Spot) (error : GrammarError) : Diagnostic :=
  match s with
  | .token t => .grammar t.line (some t.lexeme) error
  | .endOfText line => .grammar line none error

/-- The slice of a text: its tokens, and then the one end of the text. -/
def slice (tokens : List Token) (endLine : Nat) : List Spot :=
  tokens.map .token ++ [.endOfText endLine]

end Spot

/-- Why a parser that reads by index stops. -/
inductive Halt where
  | stop (s : Stop)
  /-- A place was asked for that is not in the slice. -/
  | outside
  /-- An iteration of a loop went on without taking a token. -/
  | idle
  deriving DecidableEq, Repr

/-- Where a parser stands in a slice. -/
structure Reader where
  spots : List Spot
  /-- The index of the next place. -/
  current : Nat
  /-- The indices where the parser has been, the last one first. -/
  visited : List Nat
  nextId : Nat
  /-- The errors reported so far, the last one first. -/
  errors : List Diagnostic

/-- A parser in front of the first place of a slice. -/
def Reader.start (spots : List Spot) (firstId : Nat) : Reader :=
  ⟨spots, 0, [0], firstId, []⟩

abbrev Indexed := EStateM Halt Reader

namespace Indexed

@[inline]
def fail {α : Type} (d : Diagnostic) : Indexed α :=
  throw (.stop (.failed d))

@[inline]
def exhausted {α : Type} : Indexed α :=
  throw (.stop .outOfFuel)

/-- The place with an index. -/
def spotAt (i : Nat) : Indexed Spot := do
  match (← get).spots[i]? with
  | some s => return s
  | none => throw .outside

def position : Indexed Nat :=
  return (← get).current

/-- The next place. -/
def peek : Indexed Spot := do
  spotAt (← position)

/-- The place before the next one. -/
def previous : Indexed Spot := do
  match ← position with
  | 0 => throw .outside
  | i + 1 => spotAt i

def isAtEnd : Indexed Bool :=
  return (← peek).isEnd

/-- Moves on to a place of the slice. -/
def moveOn : Indexed Unit := do
  let r ← get
  if r.current + 1 < r.spots.length then
    set { r with current := r.current + 1, visited := (r.current + 1) :: r.visited }
  else throw .outside

/-- Takes the next token, if there is one, and gives the place before the next one. -/
def advance : Indexed Spot := do
  if !(← isAtEnd) then
    moveOn
  previous

def skip : Indexed Unit := do
  let _ ← advance

/-- Whether the next token is of this kind. -/
def nextIs (kind : Kind) : Indexed Bool := do
  if ← isAtEnd then
    return false
  return (← peek).kind? = some kind

/-- Whether the token behind the next one is of this kind, if there is one. -/
def nextButOneIs (kind : Kind) : Indexed Bool := do
  let r ← get
  return (r.spots[r.current + 1]?.bind Spot.kind?) = some kind

def accept (kind : Kind) : Indexed Bool := do
  if ← nextIs kind then
    skip
    return true
  return false

def failHere {α : Type} (error : GrammarError) : Indexed α := do
  fail ((← peek).diagnostic error)

def report (d : Diagnostic) : Indexed Unit :=
  modify fun r => { r with errors := d :: r.errors }

def reportHere (error : GrammarError) : Indexed Unit := do
  report ((← peek).diagnostic error)

/-- Takes the one token that is allowed here. -/
def expect (what : Expectation) : Indexed Spot := do
  if ← nextIs what.wanted then
    return ← advance
  failHere (.expected what)

def expectName (what : Expectation) : Indexed Name := do
  let s ← expect what
  return ⟨s.lexeme, s.line⟩

def freshId : Indexed Nat :=
  modifyGet fun r => (r.nextId, { r with nextId := r.nextId + 1 })

def occurrence (name : Name) : Indexed Occurrence := do
  return ⟨← freshId, name⟩

/-- The end of an iteration that goes on or is the last one: it has taken a token since `start`. -/
def progressed (start : Nat) : Indexed Unit := do
  if (← position) ≤ start then
    throw .idle

/-- Goes on to where a statement may begin. -/
def boundary : Nat → Indexed Unit
  | 0 => exhausted
  | fuel + 1 => do
    let start ← position
    if ← isAtEnd then
      return
    if (← previous).kind? = some (.symbol .semicolon) then
      return
    if (← peek).kind?.any Cursor.beginsStatement then
      return
    skip
    progressed start
    boundary fuel

/-- Skips the token that an error is at, and on to the next statement boundary. -/
def synchronize : Indexed Unit := do
  skip
  boundary (← get).spots.length

/-- Runs a parser. Where it fails, its error is recorded and reading goes on at the next statement
boundary. -/
def recovering {α : Type} (p : Indexed α) : Indexed (Option α) := fun r =>
  match p r with
  | .ok a r => .ok (some a) r
  | .error (.stop (.failed d)) r => (do report d; synchronize; return none : Indexed (Option α)) r
  | .error e r => .error e r

def parameterList : Nat → Nat → Indexed (List Name)
  | 0, _ => exhausted
  | fuel + 1, count => do
    let start ← position
    if maxArity ≤ count then
      reportHere .tooManyParameters
    let name ← expectName .parameterName
    let more ← accept (.symbol .comma)
    progressed start
    if more then
      return name :: (← parameterList fuel (count + 1))
    return [name]

def parameters (fuel : Nat) : Indexed (List Name) := do
  if ← nextIs (.symbol .rightParen) then
    return []
  parameterList fuel 0

def assignment (equals : Spot) (target value : Expr) : Indexed Expr :=
  match target with
  | .variable o => return .assign (← occurrence o.name) value
  | .get object name => return .set object name value
  | _ => do
    report (equals.diagnostic .invalidAssignmentTarget)
    return target

def acceptOperator (level : Level) : Indexed (Option (Operator × Nat)) := do
  match (← peek).kind?.bind level.operator? with
  | none => return none
  | some op =>
    skip
    return some (op, (← previous).line)

def acceptUnary : Indexed (Option (UnaryOp × Nat)) := do
  match (← peek).kind?.bind UnaryOp.ofKind? with
  | none => return none
  | some op =>
    skip
    return some (op, (← previous).line)

def superMethod : Indexed Expr := do
  let line := (← previous).line
  let _ ← expect .superDot
  let method ← expectName .superMethodName
  return .super (← freshId) line method

/-- A `break` or `continue`, behind the keyword. -/
def jump (s : Nat → Stmt) (what : Expectation) : Indexed Stmt := do
  let line := (← previous).line
  let _ ← expect what
  return s line

def superclassReference : Indexed (Option Occurrence) := do
  if ← accept (.symbol .less) then
    return some (← occurrence (← expectName .superclassName))
  return none

mutual

def level : Nat → Level → Indexed Expr
  | 0, _ => exhausted
  | fuel + 1, l => do
    let first ← operand fuel l
    chain fuel l first

def operand : Nat → Level → Indexed Expr
  | 0, _ => exhausted
  | fuel + 1, .comma => ternary fuel
  | fuel + 1, .or => level fuel .and
  | fuel + 1, .and => level fuel .equality
  | fuel + 1, .equality => level fuel .comparison
  | fuel + 1, .comparison => level fuel .term
  | fuel + 1, .term => level fuel .factor
  | fuel + 1, .factor => unary fuel

def chain : Nat → Level → Expr → Indexed Expr
  | 0, _, _ => exhausted
  | fuel + 1, l, left => do
    let start ← position
    match ← acceptOperator l with
    | none => return left
    | some (op, line) =>
      let right ← operand fuel l
      progressed start
      chain fuel l (op.apply line left right)

def expression : Nat → Indexed Expr
  | 0 => exhausted
  | fuel + 1 => level fuel .comma

def ternary : Nat → Indexed Expr
  | 0 => exhausted
  | fuel + 1 => do
    let condition ← assigned fuel
    if ← accept (.symbol .question) then
      let thenBranch ← expression fuel
      let _ ← expect .ternaryColon
      let elseBranch ← ternary fuel
      return .ternary condition thenBranch elseBranch
    return condition

def assigned : Nat → Indexed Expr
  | 0 => exhausted
  | fuel + 1 => do
    let target ← level fuel .or
    if ← accept (.symbol .equal) then
      let equals ← previous
      let value ← assigned fuel
      return ← assignment equals target value
    return target

def unary : Nat → Indexed Expr
  | 0 => exhausted
  | fuel + 1 => do
    match ← acceptUnary with
    | some (op, line) =>
      let operand ← unary fuel
      return .unary op line operand
    | none => call fuel

def call : Nat → Indexed Expr
  | 0 => exhausted
  | fuel + 1 => do
    let callee ← primary fuel
    calls fuel callee

def calls : Nat → Expr → Indexed Expr
  | 0, _ => exhausted
  | fuel + 1, object => do
    let start ← position
    if ← accept (.symbol .leftParen) then
      let arguments ← arguments fuel
      let closing ← expect .argumentsEnd
      progressed start
      return ← calls fuel (.call object closing.line arguments)
    if ← accept (.symbol .dot) then
      let name ← expectName .propertyName
      progressed start
      return ← calls fuel (.get object name)
    return object

def arguments : Nat → Indexed (List Expr)
  | 0 => exhausted
  | fuel + 1 => do
    if ← nextIs (.symbol .rightParen) then
      return []
    argumentList fuel 0

def argumentList : Nat → Nat → Indexed (List Expr)
  | 0, _ => exhausted
  | fuel + 1, count => do
    let start ← position
    if maxArity ≤ count then
      reportHere .tooManyArguments
    let argument ← ternary fuel
    let more ← accept (.symbol .comma)
    progressed start
    if more then
      return argument :: (← argumentList fuel (count + 1))
    return [argument]

def primary : Nat → Indexed Expr
  | 0 => exhausted
  | fuel + 1 => do
    match (← peek).kind? with
    | some (.keyword .false) => skip; return .literal (.bool false)
    | some (.keyword .true) => skip; return .literal (.bool true)
    | some (.keyword .nil) => skip; return .literal .nil
    | some (.number x) => skip; return .literal (.number x)
    | some (.string s) => skip; return .literal (.string s)
    | some (.keyword .super) => skip; superMethod
    | some (.keyword .this) => skip; return .this (← freshId) (← previous).line
    | some .identifier =>
      skip
      let s ← previous
      return .variable (← occurrence ⟨s.lexeme, s.line⟩)
    | some (.symbol .leftParen) => skip; group fuel
    | some (.keyword .fun) => skip; lambda fuel
    | _ => failHere .expectedExpression

def group : Nat → Indexed Expr
  | 0 => exhausted
  | fuel + 1 => do
    let inner ← expression fuel
    let _ ← expect .groupEnd
    return .group inner

def lambda : Nat → Indexed Expr
  | 0 => exhausted
  | fuel + 1 => do
    let line := (← previous).line
    let _ ← expect .lambdaParametersStart
    return .lambda (← functionRest fuel none line .function)

def functionRest : Nat → Option Name → Nat → FunctionSort → Indexed Function
  | 0, _, _, _ => exhausted
  | fuel + 1, name?, line, sort => do
    let parameters ← parameters fuel
    let _ ← expect .parametersEnd
    let _ ← expect (.functionBodyStart sort)
    let body ← block fuel
    return ⟨name?, parameters, body, line⟩

def block : Nat → Indexed (List Stmt)
  | 0 => exhausted
  | fuel + 1 => do
    let body ← declarations fuel []
    let _ ← expect .blockEnd
    return body

def declarations : Nat → List Stmt → Indexed (List Stmt)
  | 0, _ => exhausted
  | fuel + 1, read => do
    let start ← position
    if ← nextIs (.symbol .rightBrace) then
      return read.reverse
    if ← isAtEnd then
      return read.reverse
    let s? ← declaration fuel
    progressed start
    declarations fuel (s?.toList ++ read)

def declaration : Nat → Indexed (Option Stmt)
  | 0 => exhausted
  | fuel + 1 => recovering (declared fuel)

def declared : Nat → Indexed Stmt
  | 0 => exhausted
  | fuel + 1 => do
    if ← accept (.keyword .class) then
      return ← classDeclaration fuel
    if (← nextIs (.keyword .fun)) && (← nextButOneIs .identifier) then
      skip
      return .function (← function fuel .function)
    if ← accept (.keyword .var) then
      return ← varDeclaration fuel
    statement fuel

def classDeclaration : Nat → Indexed Stmt
  | 0 => exhausted
  | fuel + 1 => do
    let name ← expectName .className
    let superclass? ← superclassReference
    let _ ← expect .classBodyStart
    let (methods, getters) ← members fuel [] []
    let _ ← expect .classBodyEnd
    return .class ⟨name, superclass?, methods, getters⟩

def members : Nat → List Function → List Function → Indexed (List Function × List Function)
  | 0, _, _ => exhausted
  | fuel + 1, methods, getters => do
    let start ← position
    if ← nextIs (.symbol .rightBrace) then
      return (methods.reverse, getters.reverse)
    if ← isAtEnd then
      return (methods.reverse, getters.reverse)
    if ← nextButOneIs (.symbol .leftParen) then
      let method ← function fuel .method
      progressed start
      return ← members fuel (method :: methods) getters
    let getter ← getter fuel
    progressed start
    members fuel methods (getter :: getters)

def function : Nat → FunctionSort → Indexed Function
  | 0, _ => exhausted
  | fuel + 1, sort => do
    let name ← expectName (.functionName sort)
    let _ ← expect (.parametersStart sort)
    functionRest fuel (some name) name.line sort

def getter : Nat → Indexed Function
  | 0 => exhausted
  | fuel + 1 => do
    let name ← expectName (.functionName .method)
    let _ ← expect .getterBodyStart
    let body ← block fuel
    return ⟨some name, [], body, name.line⟩

def varDeclaration : Nat → Indexed Stmt
  | 0 => exhausted
  | fuel + 1 => do
    let name ← expectName .variableName
    let initializer? ← initializer fuel
    let _ ← expect .variableEnd
    return .var name initializer?

def initializer : Nat → Indexed (Option Expr)
  | 0 => exhausted
  | fuel + 1 => do
    if ← accept (.symbol .equal) then
      return some (← expression fuel)
    return none

def statement : Nat → Indexed Stmt
  | 0 => exhausted
  | fuel + 1 => do
    match (← peek).kind? with
    | some (.keyword .for) => skip; forStatement fuel
    | some (.keyword .if) => skip; ifStatement fuel
    | some (.keyword .print) => skip; printStatement fuel
    | some (.keyword .return) => skip; returnStatement fuel
    | some (.keyword .while) => skip; whileStatement fuel
    | some (.keyword .break) => skip; jump .break .breakEnd
    | some (.keyword .continue) => skip; jump .continue .continueEnd
    | some (.symbol .leftBrace) => skip; return .block (← block fuel)
    | _ => expressionStatement fuel

def expressionStatement : Nat → Indexed Stmt
  | 0 => exhausted
  | fuel + 1 => do
    let e ← expression fuel
    let _ ← expect .expressionEnd
    return .expression e

def printStatement : Nat → Indexed Stmt
  | 0 => exhausted
  | fuel + 1 => do
    let e ← expression fuel
    let _ ← expect .printEnd
    return .print e

def returnStatement : Nat → Indexed Stmt
  | 0 => exhausted
  | fuel + 1 => do
    let line := (← previous).line
    let value? ← unlessNext fuel .semicolon
    let _ ← expect .returnEnd
    return .return line value?

def unlessNext : Nat → Symbol → Indexed (Option Expr)
  | 0, _ => exhausted
  | fuel + 1, s => do
    if ← nextIs (.symbol s) then
      return none
    return some (← expression fuel)

def whileStatement : Nat → Indexed Stmt
  | 0 => exhausted
  | fuel + 1 => do
    let _ ← expect .whileStart
    let condition ← expression fuel
    let _ ← expect .whileConditionEnd
    let body ← statement fuel
    return .while condition body none

def ifStatement : Nat → Indexed Stmt
  | 0 => exhausted
  | fuel + 1 => do
    let _ ← expect .ifStart
    let condition ← expression fuel
    let _ ← expect .ifConditionEnd
    let thenBranch ← statement fuel
    if ← accept (.keyword .else) then
      return .if condition thenBranch (some (← statement fuel))
    return .if condition thenBranch none

def forStatement : Nat → Indexed Stmt
  | 0 => exhausted
  | fuel + 1 => do
    let _ ← expect .forStart
    let start? ← forStart fuel
    let condition? ← unlessNext fuel .semicolon
    let _ ← expect .forConditionEnd
    let increment? ← unlessNext fuel .rightParen
    let _ ← expect .forClausesEnd
    let body ← statement fuel
    return Parser.forLoop start? (condition?.getD (.literal (.bool true))) increment? body

def forStart : Nat → Indexed (Option Stmt)
  | 0 => exhausted
  | fuel + 1 => do
    if ← accept (.symbol .semicolon) then
      return none
    if ← accept (.keyword .var) then
      return some (← varDeclaration fuel)
    return some (← expressionStatement fuel)

end

/-- Declarations up to the end of the text. Those read so far are in reverse. -/
def program : Nat → List Stmt → Indexed (List Stmt)
  | 0, _ => exhausted
  | fuel + 1, read => do
    let start ← position
    if ← isAtEnd then
      return read.reverse
    let s? ← declaration fuel
    progressed start
    program fuel (s?.toList ++ read)

end Indexed

end LoxLang
