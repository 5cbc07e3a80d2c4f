import LoxLang.Tree
import LoxLang.Decimal.Layout

/-!
Trees in bracketed form: `(+ 1.0 (group (* 2.0 3.0)))`.
-/

namespace LoxLang

/-- Whole numbers are written in full with a point and a zero, others by their shortest digits. -/
def Literal.numberLayout : Decimal.Layout where
  exact _ := true
  exactTail := ".0"
  roundedTail := ""
  positional _ := true
  tie := .up
  signedZero := true

def Literal.bracketed : Literal → String
  | .number x => numberLayout.text x
  | .string s => s
  | .bool b => if b then "true" else "false"
  | .nil => "nil"

/-- Words between parentheses. -/
def bracket (words : List String) : String :=
  "(" ++ " ".intercalate words ++ ")"

mutual

def Expr.bracketed : Expr → String
  | .literal value => value.bracketed
  | .group inner => bracket ["group", inner.bracketed]
  | .unary op _ operand => bracket [op.text, operand.bracketed]
  | .binary op _ left right => bracket [op.text, left.bracketed, right.bracketed]
  | .logical op left right => bracket [op.text, left.bracketed, right.bracketed]
  | .ternary condition thenBranch elseBranch =>
    bracket ["?:", condition.bracketed, thenBranch.bracketed, elseBranch.bracketed]
  | .comma left right => bracket [",", left.bracketed, right.bracketed]
  | .variable occurrence => occurrence.name.text
  | .assign target value => bracket ["=", target.name.text, value.bracketed]
  | .call callee _ arguments =>
    bracket ("call" :: callee.bracketed :: bracketedExprs arguments)
  | .get object name => bracket [".", object.bracketed, name.text]
  | .set object name value =>
    bracket ["=", bracket [".", object.bracketed, name.text], value.bracketed]
  | .this _ _ => "this"
  | .super _ _ method => bracket ["super", method.text]
  | .lambda function => function.bracketed "lambda"

def bracketedExprs : List Expr → List String
  | [] => []
  | e :: es => e.bracketed :: bracketedExprs es

/-- A function under a head that tells what it is. -/
def Function.bracketed (head : String) : Function → String
  | ⟨name?, parameters, body, _⟩ =>
    bracket (head :: (name?.map Name.text).toList ++
      [bracket (parameters.map Name.text), bracket ("block" :: bracketedStmts body)])

def Stmt.bracketed : Stmt → String
  | .expression e => bracket [";", e.bracketed]
  | .print e => bracket ["print", e.bracketed]
  | .var name none => bracket ["var", name.text]
  | .var name (some initializer) => bracket ["var", name.text, initializer.bracketed]
  | .block body => bracket ("block" :: bracketedStmts body)
  | .if condition thenBranch none =>
    bracket ["if", condition.bracketed, thenBranch.bracketed]
  | .if condition thenBranch (some elseBranch) =>
    bracket ["if", condition.bracketed, thenBranch.bracketed, elseBranch.bracketed]
  | .while condition body none => bracket ["while", condition.bracketed, body.bracketed]
  | .while condition body (some increment) =>
    bracket ["while", condition.bracketed, body.bracketed, increment.bracketed]
  | .function f => f.bracketed "fun"
  | .class c => c.bracketed
  | .return _ none => bracket ["return"]
  | .return _ (some value) => bracket ["return", value.bracketed]
  | .break _ => bracket ["break"]
  | .continue _ => bracket ["continue"]

def bracketedStmts : List Stmt → List String
  | [] => []
  | s :: ss => s.bracketed :: bracketedStmts ss

/-- A class with its methods before its getters. -/
def Class.bracketed : Class → String
  | ⟨name, superclass?, methods, getters⟩ =>
    bracket ("class" :: name.text ::
      (superclass?.map fun o => bracket ["<", o.name.text]).toList ++
      bracketedFunctions "method" methods ++ bracketedFunctions "get" getters)

def bracketedFunctions (head : String) : List Function → List String
  | [] => []
  | f :: fs => f.bracketed head :: bracketedFunctions head fs

end

end LoxLang
