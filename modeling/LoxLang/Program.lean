import LoxLang.Grammar.Parse
import LoxLang.Token.Scan

/-!
Programs from their text. A text with any error gives no program, and its lexical errors come
before its grammatical ones.
-/

namespace LoxLang

/-- A list of statements whose occurrences have numbers below `nextId`. -/
structure Program where
  statements : List Stmt
  nextId : Nat

namespace Program

/-- Enough fuel to read `count` tokens: no phrase needs thirty-two calls to take a token. -/
def fuelFor (count : Nat) : Nat :=
  32 * (count + 1)

/-- Reads the tokens of a program that ends on line `endLine`, with occurrences numbered from
`firstId` on. -/
def ofTokens (firstId : Nat) (tokens : List Token) (endLine : Nat) :
    Except (List Diagnostic) Program :=
  match Parser.program (fuelFor tokens.length) [] ⟨tokens, endLine, firstId, []⟩ with
  | .ok statements c =>
    if c.errors.isEmpty then .ok ⟨statements, c.nextId⟩ else .error c.errors.reverse
  | .error _ c => .error c.errors.reverse

/-- The number for the next occurrence behind the text of a program, also behind one with errors. -/
def nextIdAfter (firstId : Nat) (source : String) : Nat :=
  let s := scan source
  match Parser.program (fuelFor s.tokens.length) [] ⟨s.tokens, s.endLine, firstId, []⟩ with
  | .ok _ c | .error _ c => c.nextId

/-- Reads the text of a program. -/
def ofSource (firstId : Nat) (source : String) : Except (List Diagnostic) Program :=
  let s := scan source
  match ofTokens firstId s.tokens s.endLine with
  | .ok program => if s.errors.isEmpty then .ok program else .error s.errors
  | .error errors => .error (s.errors ++ errors)

end Program

end LoxLang
