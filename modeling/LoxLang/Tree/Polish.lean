import LoxLang.Tree.Bracketed

/-!
Operators behind their operands: `1 2 3 * +`. Grouping leaves no trace, and what is no operator,
literal or name keeps its bracketed form.
-/

namespace LoxLang

/-- All numbers have their shortest digits. -/
def Literal.polishLayout : Decimal.Layout where
  exact _ := false
  exactTail := ""
  roundedTail := ""
  positional _ := true
  tie := .up
  signedZero := true

/-- Negation has a name of its own, since `-` takes two operands. -/
def UnaryOp.polish : UnaryOp → String
  | .negate => "neg"
  | .not => "!"

def Expr.polish : Expr → String
  | .literal (.number x) => Literal.polishLayout.text x
  | .literal (.string s) => "\"" ++ s ++ "\""
  | .group inner => inner.polish
  | .unary op _ operand => operand.polish ++ " " ++ op.polish
  | .binary op _ left right => left.polish ++ " " ++ right.polish ++ " " ++ op.text
  | .logical op left right => left.polish ++ " " ++ right.polish ++ " " ++ op.text
  | .ternary condition thenBranch elseBranch =>
    condition.polish ++ " " ++ thenBranch.polish ++ " " ++ elseBranch.polish ++ " ?:"
  | .comma left right => left.polish ++ " " ++ right.polish ++ " ,"
  | .assign target value => value.polish ++ " " ++ target.name.text ++ " ="
  | e => e.bracketed

def Stmt.polish : Stmt → String
  | .expression e => e.polish ++ " ;"
  | .print e => e.polish ++ " print"
  | s => s.bracketed

end LoxLang
