/-!
The syntax trees of Lox. A `for` loop has no node of its own: it is a `while` loop with an
increment, in a block with its initializer if there is one.
-/

namespace LoxLang

inductive Literal where
  | number (x : Float)
  | string (s : String)
  | bool (b : Bool)
  | nil
  deriving DecidableEq, Repr

inductive UnaryOp where
  | negate
  | not
  deriving DecidableEq, Repr

inductive BinaryOp where
  | add
  | subtract
  | multiply
  | divide
  | equal
  | notEqual
  | less
  | lessEqual
  | greater
  | greaterEqual
  deriving DecidableEq, Repr

inductive LogicalOp where
  | and
  | or
  deriving DecidableEq, Repr

def UnaryOp.text : UnaryOp → String
  | .negate => "-"
  | .not => "!"

def BinaryOp.text : BinaryOp → String
  | .add => "+"
  | .subtract => "-"
  | .multiply => "*"
  | .divide => "/"
  | .equal => "=="
  | .notEqual => "!="
  | .less => "<"
  | .lessEqual => "<="
  | .greater => ">"
  | .greaterEqual => ">="

def LogicalOp.text : LogicalOp → String
  | .and => "and"
  | .or => "or"

/-- A name where it is written. -/
structure Name where
  text : String
  line : Nat
  deriving DecidableEq, Repr

/-- An occurrence of a variable. Its number tells it from every other occurrence. -/
structure Occurrence where
  id : Nat
  name : Name
  deriving DecidableEq, Repr

mutual

inductive Expr where
  | literal (value : Literal)
  | group (inner : Expr)
  | unary (op : UnaryOp) (line : Nat) (operand : Expr)
  | binary (op : BinaryOp) (line : Nat) (left right : Expr)
  | logical (op : LogicalOp) (left right : Expr)
  | ternary (condition thenBranch elseBranch : Expr)
  /-- Both sides are evaluated, and the right one is the value. -/
  | comma (left right : Expr)
  | variable (occurrence : Occurrence)
  | assign (target : Occurrence) (value : Expr)
  /-- The line is that of the closing parenthesis. -/
  | call (callee : Expr) (line : Nat) (arguments : List Expr)
  | get (object : Expr) (name : Name)
  | set (object : Expr) (name : Name) (value : Expr)
  | this (id line : Nat)
  | super (id line : Nat) (method : Name)
  | lambda (function : Function)

/-- A function, method or getter. Its line is that of its name, or of `fun` if it has none. -/
structure Function where
  name? : Option Name
  parameters : List Name
  body : List Stmt
  line : Nat

inductive Stmt where
  | expression (e : Expr)
  | print (e : Expr)
  | var (name : Name) (initializer? : Option Expr)
  | block (body : List Stmt)
  | «if» (condition : Expr) (thenBranch : Stmt) (elseBranch? : Option Stmt)
  /-- The increment runs after the body, also where the body ends in `continue`. -/
  | «while» (condition : Expr) (body : Stmt) (increment? : Option Expr)
  | function (f : Function)
  | «class» (c : Class)
  | «return» (line : Nat) (value? : Option Expr)
  | «break» (line : Nat)
  | «continue» (line : Nat)

/-- Getters are members without a parameter list, which run where they are read. -/
structure Class where
  name : Name
  superclass? : Option Occurrence
  methods : List Function
  getters : List Function

end

/-- The name of a function for display. -/
def Function.displayName (f : Function) : String :=
  match f.name? with
  | some name => name.text
  | none => "anonymous"

end LoxLang
