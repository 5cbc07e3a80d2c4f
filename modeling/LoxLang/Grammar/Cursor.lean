import LoxLang.Fuel
import LoxLang.Token
import LoxLang.Tree

/-!
The state of a parser and its steps: looking at the next token, taking it, reporting an error and
skipping to where a statement may begin.
-/

namespace LoxLang

/-- The token that an expectation asks for. -/
def Expectation.wanted : Expectation → Kind
  | .className | .superclassName | .functionName _ | .parameterName | .variableName
  | .propertyName | .superMethodName => .identifier
  | .classBodyStart | .functionBodyStart _ | .getterBodyStart => .symbol .leftBrace
  | .classBodyEnd | .blockEnd => .symbol .rightBrace
  | .parametersStart _ | .lambdaParametersStart | .forStart | .ifStart | .whileStart =>
    .symbol .leftParen
  | .parametersEnd | .forClausesEnd | .ifConditionEnd | .whileConditionEnd | .argumentsEnd
  | .groupEnd => .symbol .rightParen
  | .variableEnd | .breakEnd | .continueEnd | .forConditionEnd | .printEnd | .returnEnd
  | .expressionEnd => .symbol .semicolon
  | .ternaryColon => .symbol .colon
  | .superDot => .symbol .dot

/-- Where a parser stands in a program. -/
structure Cursor where
  /-- The tokens still to read. -/
  tokens : List Token
  /-- The line on which the program ends. -/
  endLine : Nat
  /-- The number for the next occurrence of a variable. -/
  nextId : Nat
  /-- The errors reported so far, the last one first. -/
  errors : List Diagnostic

abbrev Parser := Fueled Cursor

namespace Cursor

/-- An error at the next token. -/
def diagnostic (c : Cursor) (error : GrammarError) : Diagnostic :=
  match c.tokens with
  | [] => .grammar c.endLine none error
  | t :: _ => .grammar t.line (some t.lexeme) error

/-- Whether a token begins a statement that no expression begins. -/
def beginsStatement : Kind → Bool
  | .keyword k => k ∈ [.class, .fun, .var, .for, .if, .while, .print, .return]
  | _ => false

/-- The tokens from the next statement boundary on, where `last` is the token before them. -/
def boundaryAfter (last : Token) : List Token → List Token
  | [] => []
  | t :: ts =>
    if last.kind = .symbol .semicolon || beginsStatement t.kind then t :: ts
    else boundaryAfter t ts

/-- Skips the token that an error is at, and on to the next statement boundary. -/
def skipToBoundary : List Token → List Token
  | [] => []
  | t :: ts => boundaryAfter t ts

end Cursor

namespace Parser

/-- The kind of the next token. -/
@[inline]
def peek? : Parser (Option Kind) := do
  return (← get).tokens.head?.map Token.kind

/-- Whether the next token is of this kind. -/
def nextIs (kind : Kind) : Parser Bool := do
  match (← get).tokens with
  | [] => return false
  | t :: _ => return t.kind = kind

/-- Takes the next token, if there is one. -/
def skip : Parser Unit :=
  modify fun c => { c with tokens := c.tokens.tail }

/-- Takes the next token if it is of this kind. -/
def accept (kind : Kind) : Parser Bool := do
  if ← nextIs kind then
    skip
    return true
  return false

/-- Stops with an error at the next token. -/
def failHere {α : Type} (error : GrammarError) : Parser α := do
  Fueled.fail ((← get).diagnostic error)

/-- Records an error and goes on. -/
def report (d : Diagnostic) : Parser Unit :=
  modify fun c => { c with errors := d :: c.errors }

/-- Records an error at the next token and goes on. -/
def reportHere (error : GrammarError) : Parser Unit := do
  report ((← get).diagnostic error)

/-- Takes the one token that is allowed here. -/
def expect (what : Expectation) : Parser Token := do
  match (← get).tokens with
  | t :: ts =>
    if t.kind = what.wanted then
      modify fun c => { c with tokens := ts }
      return t
    failHere (.expected what)
  | [] => failHere (.expected what)

/-- Takes an identifier. -/
def expectName (what : Expectation) : Parser Name := do
  let t ← expect what
  return ⟨t.lexeme, t.line⟩

/-- A number that no other occurrence has. -/
def freshId : Parser Nat :=
  modifyGet fun c => (c.nextId, { c with nextId := c.nextId + 1 })

/-- An occurrence with a number of its own. -/
def occurrence (name : Name) : Parser Occurrence := do
  return ⟨← freshId, name⟩

/-- Runs a parser. Where it fails, its error is recorded and reading goes on at the next statement
boundary. -/
@[inline]
def recovering {α : Type} (p : Parser α) : Parser (Option α) := fun c =>
  match p c with
  | .ok a c => .ok (some a) c
  | .error (.failed d) c =>
    .ok none { c with errors := d :: c.errors, tokens := Cursor.skipToBoundary c.tokens }
  | .error .outOfFuel c => .error .outOfFuel c

end Parser

end LoxLang
