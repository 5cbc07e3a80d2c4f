import LoxLang.Proofs.Tree.Numbering

/-!
The expressions in a tree, those in function bodies and inside other expressions included.
-/

namespace LoxLang

mutual

def Expr.nodes : Expr → List Expr
  | .literal value => [.literal value]
  | .group inner => .group inner :: inner.nodes
  | .unary op line operand => .unary op line operand :: operand.nodes
  | .binary op line left right => .binary op line left right :: (left.nodes ++ right.nodes)
  | .logical op left right => .logical op left right :: (left.nodes ++ right.nodes)
  | .ternary condition thenBranch elseBranch =>
    .ternary condition thenBranch elseBranch ::
      (condition.nodes ++ (thenBranch.nodes ++ elseBranch.nodes))
  | .comma left right => .comma left right :: (left.nodes ++ right.nodes)
  | .variable occurrence => [.variable occurrence]
  | .assign target value => .assign target value :: value.nodes
  | .call callee line arguments =>
    .call callee line arguments :: (callee.nodes ++ exprsNodes arguments)
  | .get object name => .get object name :: object.nodes
  | .set object name value => .set object name value :: (object.nodes ++ value.nodes)
  | .this id line => [.this id line]
  | .super id line method => [.super id line method]
  | .lambda function => .lambda function :: function.nodes

def exprsNodes : List Expr → List Expr
  | [] => []
  | e :: es => e.nodes ++ exprsNodes es

def Function.nodes : Function → List Expr
  | ⟨_, _, body, _⟩ => stmtsNodes body

def Stmt.nodes : Stmt → List Expr
  | .expression e => e.nodes
  | .print e => e.nodes
  | .var _ none => []
  | .var _ (some initializer) => initializer.nodes
  | .block body => stmtsNodes body
  | .if condition thenBranch none => condition.nodes ++ thenBranch.nodes
  | .if condition thenBranch (some elseBranch) =>
    condition.nodes ++ (thenBranch.nodes ++ elseBranch.nodes)
  | .while condition body none => condition.nodes ++ body.nodes
  | .while condition body (some increment) => condition.nodes ++ (body.nodes ++ increment.nodes)
  | .function f => f.nodes
  | .class c => c.nodes
  | .return _ none => []
  | .return _ (some value) => value.nodes
  | .break _ => []
  | .continue _ => []

def stmtsNodes : List Stmt → List Expr
  | [] => []
  | s :: ss => s.nodes ++ stmtsNodes ss

def Class.nodes : Class → List Expr
  | ⟨_, _, methods, getters⟩ => functionsNodes methods ++ functionsNodes getters

def functionsNodes : List Function → List Expr
  | [] => []
  | f :: fs => f.nodes ++ functionsNodes fs

end

attribute [simp] Expr.nodes exprsNodes Function.nodes Stmt.nodes stmtsNodes Class.nodes
  functionsNodes

theorem stmtsIds_eq_flatMap (ss : List Stmt) : stmtsIds ss = ss.flatMap Stmt.ids := by
  induction ss with
  | nil => rfl
  | cons s ss ih => rw [stmtsIds, ih, List.flatMap_cons]

theorem stmtsNodes_eq_flatMap (ss : List Stmt) : stmtsNodes ss = ss.flatMap Stmt.nodes := by
  induction ss with
  | nil => rfl
  | cons s ss ih => rw [stmtsNodes, ih, List.flatMap_cons]

theorem functionsIds_eq_flatMap (fs : List Function) :
    functionsIds fs = fs.flatMap Function.ids := by
  induction fs with
  | nil => rfl
  | cons f fs ih => rw [functionsIds, ih, List.flatMap_cons]

theorem functionsNodes_eq_flatMap (fs : List Function) :
    functionsNodes fs = fs.flatMap Function.nodes := by
  induction fs with
  | nil => rfl
  | cons f fs ih => rw [functionsNodes, ih, List.flatMap_cons]

end LoxLang
