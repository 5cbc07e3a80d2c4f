import LoxLang.Tree
import LoxLang.Token

/-!
The operators that associate to the left, by precedence.
-/

namespace LoxLang

inductive Operator where
  | comma
  | logical (op : LogicalOp)
  | binary (op : BinaryOp)
  deriving DecidableEq, Repr

/-- The tree of an operator on a line, between two operands. -/
def Operator.apply (op : Operator) (line : Nat) (left right : Expr) : Expr :=
  match op with
  | .comma => .comma left right
  | .logical op => .logical op left right
  | .binary op => .binary op line left right

/-- The levels of precedence, from the loosest. -/
inductive Level where
  | comma
  | or
  | and
  | equality
  | comparison
  | term
  | factor
  deriving DecidableEq, Repr

/-- The operator that a token is on a level. -/
def Level.operator? : Level → Kind → Option Operator
  | .comma, .symbol .comma => some .comma
  | .or, .keyword .or => some (.logical .or)
  | .and, .keyword .and => some (.logical .and)
  | .equality, .symbol .bangEqual => some (.binary .notEqual)
  | .equality, .symbol .equalEqual => some (.binary .equal)
  | .comparison, .symbol .greater => some (.binary .greater)
  | .comparison, .symbol .greaterEqual => some (.binary .greaterEqual)
  | .comparison, .symbol .less => some (.binary .less)
  | .comparison, .symbol .lessEqual => some (.binary .lessEqual)
  | .term, .symbol .minus => some (.binary .subtract)
  | .term, .symbol .plus => some (.binary .add)
  | .factor, .symbol .slash => some (.binary .divide)
  | .factor, .symbol .star => some (.binary .multiply)
  | _, _ => none

/-- The operator that a token is in front of its operand. -/
def UnaryOp.ofKind? : Kind → Option UnaryOp
  | .symbol .bang => some .not
  | .symbol .minus => some .negate
  | _ => none

end LoxLang
