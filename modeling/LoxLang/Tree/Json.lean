import LoxLang.Tree
import LoxLang.Json

/-!
Trees as JSON. A node is an object with one member, named for its kind. Optional parts that are
missing are `null`.
-/

namespace LoxLang

/-- A value under the name of its kind. -/
def tagged (tag : String) (value : Json) : Json :=
  .object [⟨tag, value⟩]

def Literal.json : Literal → Json
  | .number x => tagged "Number" (.number x)
  | .string s => tagged "Str" (.string s)
  | .bool b => .string (if b then "True" else "False")
  | .nil => .string "Nil"

def UnaryOp.json : UnaryOp → Json
  | .negate => .string "Negate"
  | .not => .string "Not"

def BinaryOp.json : BinaryOp → Json
  | .add => .string "Add"
  | .subtract => .string "Subtract"
  | .multiply => .string "Multiply"
  | .divide => .string "Divide"
  | .equal => .string "Equal"
  | .notEqual => .string "NotEqual"
  | .less => .string "Less"
  | .lessEqual => .string "LessEqual"
  | .greater => .string "Greater"
  | .greaterEqual => .string "GreaterEqual"

def LogicalOp.json : LogicalOp → Json
  | .and => .string "And"
  | .or => .string "Or"

def Name.json (name : Name) : Json :=
  .object [⟨"name", .string name.text⟩, ⟨"line", .natural name.line⟩]

def Occurrence.json (o : Occurrence) : Json :=
  tagged "Variable" (.object [⟨"id", .natural o.id⟩, ⟨"name", o.name.json⟩])

def Json.ofOption : Option Json → Json
  | none => .null
  | some j => j

mutual

def Expr.json : Expr → Json
  | .literal value => tagged "Literal" value.json
  | .group inner => tagged "Grouping" inner.json
  | .unary op line operand => tagged "Unary" (.object
      [⟨"operator", op.json⟩, ⟨"line", .natural line⟩, ⟨"right", operand.json⟩])
  | .binary op line left right => tagged "Binary" (.object
      [⟨"left", left.json⟩, ⟨"operator", op.json⟩, ⟨"line", .natural line⟩,
        ⟨"right", right.json⟩])
  | .logical op left right => tagged "Logical" (.object
      [⟨"left", left.json⟩, ⟨"operator", op.json⟩, ⟨"right", right.json⟩])
  | .ternary condition thenBranch elseBranch => tagged "Ternary" (.object
      [⟨"condition", condition.json⟩, ⟨"then_branch", thenBranch.json⟩,
        ⟨"else_branch", elseBranch.json⟩])
  | .comma left right => tagged "Comma" (.object [⟨"left", left.json⟩, ⟨"right", right.json⟩])
  | .variable occurrence => occurrence.json
  | .assign target value => tagged "Assign" (.object
      [⟨"id", .natural target.id⟩, ⟨"name", target.name.json⟩, ⟨"value", value.json⟩])
  | .call callee line arguments => tagged "Call" (.object
      [⟨"callee", callee.json⟩, ⟨"line", .natural line⟩,
        ⟨"arguments", .array (exprsJson arguments)⟩])
  | .get object name => tagged "Get" (.object [⟨"object", object.json⟩, ⟨"name", name.json⟩])
  | .set object name value => tagged "Set" (.object
      [⟨"object", object.json⟩, ⟨"name", name.json⟩, ⟨"value", value.json⟩])
  | .this id line => tagged "This" (.object [⟨"id", .natural id⟩, ⟨"line", .natural line⟩])
  | .super id line method => tagged "Super" (.object
      [⟨"id", .natural id⟩, ⟨"line", .natural line⟩, ⟨"method", method.json⟩])
  | .lambda function => tagged "Function" function.json

def exprsJson : List Expr → List Json
  | [] => []
  | e :: es => e.json :: exprsJson es

def Function.json : Function → Json
  | ⟨name?, parameters, body, line⟩ => .object
      [⟨"name", .ofOption (name?.map Name.json)⟩,
        ⟨"params", .array (parameters.map Name.json)⟩,
        ⟨"body", .array (stmtsJson body)⟩, ⟨"line", .natural line⟩]

def Stmt.json : Stmt → Json
  | .expression e => tagged "Expression" e.json
  | .print e => tagged "Print" e.json
  | .var name initializer? => tagged "Var" (.object
      [⟨"name", name.json⟩, ⟨"initializer", exprJson? initializer?⟩])
  | .block body => tagged "Block" (.array (stmtsJson body))
  | .if condition thenBranch elseBranch? => tagged "If" (.object
      [⟨"condition", condition.json⟩, ⟨"then_branch", thenBranch.json⟩,
        ⟨"else_branch", stmtJson? elseBranch?⟩])
  | .while condition body increment? => tagged "While" (.object
      [⟨"condition", condition.json⟩, ⟨"body", body.json⟩,
        ⟨"increment", exprJson? increment?⟩])
  | .function f => tagged "Function" f.json
  | .class c => tagged "Class" c.json
  | .return line value? => tagged "Return" (.object
      [⟨"line", .natural line⟩, ⟨"value", exprJson? value?⟩])
  | .break line => tagged "Break" (.object [⟨"line", .natural line⟩])
  | .continue line => tagged "Continue" (.object [⟨"line", .natural line⟩])

def stmtsJson : List Stmt → List Json
  | [] => []
  | s :: ss => s.json :: stmtsJson ss

def exprJson? : Option Expr → Json
  | none => .null
  | some e => e.json

def stmtJson? : Option Stmt → Json
  | none => .null
  | some s => s.json

def Class.json : Class → Json
  | ⟨name, superclass?, methods, getters⟩ => .object
      [⟨"name", name.json⟩, ⟨"superclass", .ofOption (superclass?.map Occurrence.json)⟩,
        ⟨"methods", .array (functionsJson methods)⟩,
        ⟨"getters", .array (functionsJson getters)⟩]

def functionsJson : List Function → List Json
  | [] => []
  | f :: fs => f.json :: functionsJson fs

end

/-- A whole program. -/
def programJson (program : List Stmt) : Json :=
  .array (stmtsJson program)

end LoxLang
