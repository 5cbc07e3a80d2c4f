import LoxLang.Grammar.Cursor
import LoxLang.Grammar.Operator

/-!
Reading tokens as trees by recursive descent. Each function reads one phrase of the grammar:

    program     = declaration*
    declaration = "class" NAME ("<" NAME)? "{" member* "}"
                | "fun" NAME "(" parameters ")" block
                | "var" NAME ("=" expression)? ";"
                | statement
    member      = NAME "(" parameters ")" block | NAME block
    statement   = expression ";" | "print" expression ";" | "return" expression? ";"
                | "break" ";" | "continue" ";" | block
                | "if" "(" expression ")" statement ("else" statement)?
                | "while" "(" expression ")" statement
                | "for" "(" start expression? ";" expression? ")" statement
    start       = "var" NAME ("=" expression)? ";" | expression ";" | ";"
    block       = "{" declaration* "}"
    expression  = ternary ("," ternary)*
    ternary     = assignment ("?" expression ":" ternary)?
    assignment  = disjunction ("=" assignment)?
    unary       = ("!" | "-") unary | call
    call        = primary ("(" arguments ")" | "." NAME)*
    primary     = literal | NAME | "this" | "super" "." NAME | "(" expression ")"
                | "fun" "(" parameters ")" block

The levels between `disjunction` and `unary` are in the table `Level.operator?`.
-/

namespace LoxLang

namespace Parser

/-- The names between the parentheses of a parameter list, `count` of which are read. -/
def parameterList : Nat → Nat → Parser (List Name)
  | 0, _ => Fueled.exhausted
  | fuel + 1, count => do
    if maxArity ≤ count then
      reportHere .tooManyParameters
    let name ← expectName .parameterName
    if ← accept (.symbol .comma) then
      return name :: (← parameterList fuel (count + 1))
    return [name]

/-- The names of a parameter list, which may be empty. -/
def parameters (fuel : Nat) : Parser (List Name) := do
  if ← nextIs (.symbol .rightParen) then
    return []
  parameterList fuel 0

/-- The assignment of a value to what was read before the equals sign. Where that cannot be
assigned to, the error is recorded and the value is left out. -/
def assignment (equals : Token) (target value : Expr) : Parser Expr :=
  match target with
  | .variable o => return .assign (← occurrence o.name) value
  | .get object name => return .set object name value
  | _ => do
    report (.grammar equals.line (some equals.lexeme) .invalidAssignmentTarget)
    return target

/-- An operator of this level and its line. -/
def acceptOperator (level : Level) : Parser (Option (Operator × Nat)) := do
  match (← get).tokens with
  | [] => return none
  | t :: _ =>
    match level.operator? t.kind with
    | none => return none
    | some op =>
      skip
      return some (op, t.line)

/-- An operator in front of its operand, and its line. -/
def acceptUnary : Parser (Option (UnaryOp × Nat)) := do
  match (← get).tokens with
  | [] => return none
  | t :: _ =>
    match UnaryOp.ofKind? t.kind with
    | none => return none
    | some op =>
      skip
      return some (op, t.line)

/-- A single equals sign. -/
def acceptEquals : Parser (Option Token) := do
  match (← get).tokens with
  | [] => return none
  | t :: _ =>
    if t.kind = .symbol .equal then
      skip
      return some t
    return none

/-- `super` and the name of a method, behind the keyword. -/
def superMethod (line : Nat) : Parser Expr := do
  let _ ← expect .superDot
  let method ← expectName .superMethodName
  return .super (← freshId) line method

/-- The part of a `break` or `continue` behind the keyword. -/
def jump (s : Stmt) (what : Expectation) : Parser Stmt := do
  let _ ← expect what
  return s

/-- A loop from the clauses of a `for`. -/
def forLoop (start? : Option Stmt) (condition : Expr) (increment? : Option Expr) (body : Stmt) :
    Stmt :=
  match start? with
  | none => .while condition body increment?
  | some start => .block [start, .while condition body increment?]

/-- The superclass behind the name of a class, if there is one. -/
def superclassReference : Parser (Option Occurrence) := do
  if ← accept (.symbol .less) then
    return some (← occurrence (← expectName .superclassName))
  return none

mutual

/-- `operand (operator operand)*`, with the operators of one level. -/
def level : Nat → Level → Parser Expr
  | 0, _ => Fueled.exhausted
  | fuel + 1, l => do
    let first ← operand fuel l
    chain fuel l first

/-- The operands of a level are phrases of the next tighter one. -/
def operand : Nat → Level → Parser Expr
  | 0, _ => Fueled.exhausted
  | fuel + 1, .comma => ternary fuel
  | fuel + 1, .or => level fuel .and
  | fuel + 1, .and => level fuel .equality
  | fuel + 1, .equality => level fuel .comparison
  | fuel + 1, .comparison => level fuel .term
  | fuel + 1, .term => level fuel .factor
  | fuel + 1, .factor => unary fuel

/-- The operators and operands behind `left`. -/
def chain : Nat → Level → Expr → Parser Expr
  | 0, _, _ => Fueled.exhausted
  | fuel + 1, l, left => do
    match ← acceptOperator l with
    | none => return left
    | some (op, line) =>
      let right ← operand fuel l
      chain fuel l (op.apply line left right)

def expression : Nat → Parser Expr
  | 0 => Fueled.exhausted
  | fuel + 1 => level fuel .comma

def ternary : Nat → Parser Expr
  | 0 => Fueled.exhausted
  | fuel + 1 => do
    let condition ← assigned fuel
    if ← accept (.symbol .question) then
      let thenBranch ← expression fuel
      let _ ← expect .ternaryColon
      let elseBranch ← ternary fuel
      return .ternary condition thenBranch elseBranch
    return condition

/-- An assignment, or a disjunction alone. -/
def assigned : Nat → Parser Expr
  | 0 => Fueled.exhausted
  | fuel + 1 => do
    let target ← level fuel .or
    match ← acceptEquals with
    | none => return target
    | some equals =>
      let value ← assigned fuel
      assignment equals target value

def unary : Nat → Parser Expr
  | 0 => Fueled.exhausted
  | fuel + 1 => do
    match ← acceptUnary with
    | some (op, line) =>
      let operand ← unary fuel
      return .unary op line operand
    | none => call fuel

def call : Nat → Parser Expr
  | 0 => Fueled.exhausted
  | fuel + 1 => do
    let callee ← primary fuel
    calls fuel callee

/-- The calls and property reads behind `object`. -/
def calls : Nat → Expr → Parser Expr
  | 0, _ => Fueled.exhausted
  | fuel + 1, object => do
    match ← peek? with
    | some (.symbol .leftParen) =>
      skip
      let arguments ← arguments fuel
      let closing ← expect .argumentsEnd
      calls fuel (.call object closing.line arguments)
    | some (.symbol .dot) =>
      skip
      let name ← expectName .propertyName
      calls fuel (.get object name)
    | _ => return object

/-- The arguments of a call, which may be none. -/
def arguments : Nat → Parser (List Expr)
  | 0 => Fueled.exhausted
  | fuel + 1 => do
    if ← nextIs (.symbol .rightParen) then
      return []
    argumentList fuel 0

/-- Arguments, `count` of which are read. A comma ends an argument. -/
def argumentList : Nat → Nat → Parser (List Expr)
  | 0, _ => Fueled.exhausted
  | fuel + 1, count => do
    if maxArity ≤ count then
      reportHere .tooManyArguments
    let argument ← ternary fuel
    if ← accept (.symbol .comma) then
      return argument :: (← argumentList fuel (count + 1))
    return [argument]

def primary : Nat → Parser Expr
  | 0 => Fueled.exhausted
  | fuel + 1 => do
    match (← get).tokens with
    | [] => failHere .expectedExpression
    | t :: _ =>
      match t.kind with
      | .keyword .false => skip; return .literal (.bool false)
      | .keyword .true => skip; return .literal (.bool true)
      | .keyword .nil => skip; return .literal .nil
      | .number x => skip; return .literal (.number x)
      | .string s => skip; return .literal (.string s)
      | .keyword .super => skip; superMethod t.line
      | .keyword .this => skip; return .this (← freshId) t.line
      | .identifier => skip; return .variable (← occurrence ⟨t.lexeme, t.line⟩)
      | .symbol .leftParen => skip; group fuel
      | .keyword .fun => skip; lambda fuel t.line
      | _ => failHere .expectedExpression

/-- An expression in parentheses, behind the opening one. -/
def group : Nat → Parser Expr
  | 0 => Fueled.exhausted
  | fuel + 1 => do
    let inner ← expression fuel
    let _ ← expect .groupEnd
    return .group inner

/-- A function without a name, behind the keyword. -/
def lambda : Nat → Nat → Parser Expr
  | 0, _ => Fueled.exhausted
  | fuel + 1, line => do
    let _ ← expect .lambdaParametersStart
    return .lambda (← functionRest fuel none line .function)

/-- Parameters and body, behind the opening parenthesis. -/
def functionRest : Nat → Option Name → Nat → FunctionSort → Parser Function
  | 0, _, _, _ => Fueled.exhausted
  | fuel + 1, name?, line, sort => do
    let parameters ← parameters fuel
    let _ ← expect .parametersEnd
    let _ ← expect (.functionBodyStart sort)
    let body ← block fuel
    return ⟨name?, parameters, body, line⟩

/-- The declarations of a block and its closing brace. -/
def block : Nat → Parser (List Stmt)
  | 0 => Fueled.exhausted
  | fuel + 1 => do
    let body ← declarations fuel []
    let _ ← expect .blockEnd
    return body

/-- Declarations up to a closing brace or the end. Those read so far are in reverse. -/
def declarations : Nat → List Stmt → Parser (List Stmt)
  | 0, _ => Fueled.exhausted
  | fuel + 1, read => do
    match ← peek? with
    | none | some (.symbol .rightBrace) => return read.reverse
    | some _ =>
      match ← declaration fuel with
      | some s => declarations fuel (s :: read)
      | none => declarations fuel read

/-- A declaration, or nothing where it has an error. -/
def declaration : Nat → Parser (Option Stmt)
  | 0 => Fueled.exhausted
  | fuel + 1 => recovering (declared fuel)

def declared : Nat → Parser Stmt
  | 0 => Fueled.exhausted
  | fuel + 1 => do
    match (← get).tokens with
    | ⟨.keyword .class, _, _⟩ :: _ => skip; classDeclaration fuel
    | ⟨.keyword .fun, _, _⟩ :: ⟨.identifier, _, _⟩ :: _ =>
      skip
      return .function (← function fuel .function)
    | ⟨.keyword .var, _, _⟩ :: _ => skip; varDeclaration fuel
    | _ => statement fuel

/-- A class, behind the keyword. -/
def classDeclaration : Nat → Parser Stmt
  | 0 => Fueled.exhausted
  | fuel + 1 => do
    let name ← expectName .className
    let superclass? ← superclassReference
    let _ ← expect .classBodyStart
    let (methods, getters) ← members fuel [] []
    let _ ← expect .classBodyEnd
    return .class ⟨name, superclass?, methods, getters⟩

/-- The members of a class. The methods and getters read so far are in reverse. -/
def members : Nat → List Function → List Function → Parser (List Function × List Function)
  | 0, _, _ => Fueled.exhausted
  | fuel + 1, methods, getters => do
    match (← get).tokens with
    | [] | ⟨.symbol .rightBrace, _, _⟩ :: _ => return (methods.reverse, getters.reverse)
    | _ :: ⟨.symbol .leftParen, _, _⟩ :: _ =>
      let method ← function fuel .method
      members fuel (method :: methods) getters
    | _ =>
      let getter ← getter fuel
      members fuel methods (getter :: getters)

/-- The name, parameters and body of a function or method. -/
def function : Nat → FunctionSort → Parser Function
  | 0, _ => Fueled.exhausted
  | fuel + 1, sort => do
    let name ← expectName (.functionName sort)
    let _ ← expect (.parametersStart sort)
    functionRest fuel (some name) name.line sort

/-- The name and body of a getter. -/
def getter : Nat → Parser Function
  | 0 => Fueled.exhausted
  | fuel + 1 => do
    let name ← expectName (.functionName .method)
    let _ ← expect .getterBodyStart
    let body ← block fuel
    return ⟨some name, [], body, name.line⟩

/-- A variable declaration, behind the keyword. -/
def varDeclaration : Nat → Parser Stmt
  | 0 => Fueled.exhausted
  | fuel + 1 => do
    let name ← expectName .variableName
    let initializer? ← initializer fuel
    let _ ← expect .variableEnd
    return .var name initializer?

/-- The value of a variable declaration, if there is one. -/
def initializer : Nat → Parser (Option Expr)
  | 0 => Fueled.exhausted
  | fuel + 1 => do
    if ← accept (.symbol .equal) then
      return some (← expression fuel)
    return none

def statement : Nat → Parser Stmt
  | 0 => Fueled.exhausted
  | fuel + 1 => do
    match (← get).tokens with
    | [] => expressionStatement fuel
    | t :: _ =>
      match t.kind with
      | .keyword .for => skip; forStatement fuel
      | .keyword .if => skip; ifStatement fuel
      | .keyword .print => skip; printStatement fuel
      | .keyword .return => skip; returnStatement fuel t.line
      | .keyword .while => skip; whileStatement fuel
      | .keyword .break => skip; jump (.break t.line) .breakEnd
      | .keyword .continue => skip; jump (.continue t.line) .continueEnd
      | .symbol .leftBrace => skip; return .block (← block fuel)
      | _ => expressionStatement fuel

def expressionStatement : Nat → Parser Stmt
  | 0 => Fueled.exhausted
  | fuel + 1 => do
    let e ← expression fuel
    let _ ← expect .expressionEnd
    return .expression e

def printStatement : Nat → Parser Stmt
  | 0 => Fueled.exhausted
  | fuel + 1 => do
    let e ← expression fuel
    let _ ← expect .printEnd
    return .print e

def returnStatement : Nat → Nat → Parser Stmt
  | 0, _ => Fueled.exhausted
  | fuel + 1, line => do
    let value? ← unlessNext fuel .semicolon
    let _ ← expect .returnEnd
    return .return line value?

/-- An expression, unless the next token is this symbol. -/
def unlessNext : Nat → Symbol → Parser (Option Expr)
  | 0, _ => Fueled.exhausted
  | fuel + 1, s => do
    if ← nextIs (.symbol s) then
      return none
    return some (← expression fuel)

def whileStatement : Nat → Parser Stmt
  | 0 => Fueled.exhausted
  | fuel + 1 => do
    let _ ← expect .whileStart
    let condition ← expression fuel
    let _ ← expect .whileConditionEnd
    let body ← statement fuel
    return .while condition body none

def ifStatement : Nat → Parser Stmt
  | 0 => Fueled.exhausted
  | fuel + 1 => do
    let _ ← expect .ifStart
    let condition ← expression fuel
    let _ ← expect .ifConditionEnd
    let thenBranch ← statement fuel
    if ← accept (.keyword .else) then
      return .if condition thenBranch (some (← statement fuel))
    return .if condition thenBranch none

/-- A `for` without a condition goes on for ever. -/
def forStatement : Nat → Parser Stmt
  | 0 => Fueled.exhausted
  | fuel + 1 => do
    let _ ← expect .forStart
    let start? ← forStart fuel
    let condition? ← unlessNext fuel .semicolon
    let _ ← expect .forConditionEnd
    let increment? ← unlessNext fuel .rightParen
    let _ ← expect .forClausesEnd
    let body ← statement fuel
    return forLoop start? (condition?.getD (.literal (.bool true))) increment? body

/-- The first clause of a `for`. -/
def forStart : Nat → Parser (Option Stmt)
  | 0 => Fueled.exhausted
  | fuel + 1 => do
    match ← peek? with
    | some (.symbol .semicolon) => skip; return none
    | some (.keyword .var) => skip; return some (← varDeclaration fuel)
    | _ => return some (← expressionStatement fuel)

end

/-- Declarations up to the end of the program. Those read so far are in reverse. -/
def program : Nat → List Stmt → Parser (List Stmt)
  | 0, _ => Fueled.exhausted
  | fuel + 1, read => do
    match ← peek? with
    | none => return read.reverse
    | some _ =>
      match ← declaration fuel with
      | some s => program fuel (s :: read)
      | none => program fuel read

end Parser

end LoxLang
