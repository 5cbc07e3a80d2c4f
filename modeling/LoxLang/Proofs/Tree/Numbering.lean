import LoxLang.Tree

/-!
The numbers of the occurrences in a tree: the list of them, and the tree without them. Occurrences
are listed in the order in which the analysis of scopes meets them.
-/

namespace LoxLang

mutual

def Expr.ids : Expr → List Nat
  | .literal _ => []
  | .group inner => inner.ids
  | .unary _ _ operand => operand.ids
  | .binary _ _ left right => left.ids ++ right.ids
  | .logical _ left right => left.ids ++ right.ids
  | .ternary condition thenBranch elseBranch =>
    condition.ids ++ (thenBranch.ids ++ elseBranch.ids)
  | .comma left right => left.ids ++ right.ids
  | .variable occurrence => [occurrence.id]
  | .assign target value => value.ids ++ [target.id]
  | .call callee _ arguments => callee.ids ++ exprsIds arguments
  | .get object _ => object.ids
  | .set object _ value => value.ids ++ object.ids
  | .this id _ => [id]
  | .super id _ _ => [id]
  | .lambda function => function.ids

def exprsIds : List Expr → List Nat
  | [] => []
  | e :: es => e.ids ++ exprsIds es

def Function.ids : Function → List Nat
  | ⟨_, _, body, _⟩ => stmtsIds body

def Stmt.ids : Stmt → List Nat
  | .expression e => e.ids
  | .print e => e.ids
  | .var _ none => []
  | .var _ (some initializer) => initializer.ids
  | .block body => stmtsIds body
  | .if condition thenBranch none => condition.ids ++ thenBranch.ids
  | .if condition thenBranch (some elseBranch) =>
    condition.ids ++ (thenBranch.ids ++ elseBranch.ids)
  | .while condition body none => condition.ids ++ body.ids
  | .while condition body (some increment) => condition.ids ++ (body.ids ++ increment.ids)
  | .function f => f.ids
  | .class c => c.ids
  | .return _ none => []
  | .return _ (some value) => value.ids
  | .break _ => []
  | .continue _ => []

def stmtsIds : List Stmt → List Nat
  | [] => []
  | s :: ss => s.ids ++ stmtsIds ss

def Class.ids : Class → List Nat
  | ⟨_, none, methods, getters⟩ => functionsIds methods ++ functionsIds getters
  | ⟨_, some superclass, methods, getters⟩ =>
    superclass.id :: (functionsIds methods ++ functionsIds getters)

def functionsIds : List Function → List Nat
  | [] => []
  | f :: fs => f.ids ++ functionsIds fs

end

mutual

/-- The tree with every number zero. -/
def Expr.unnumbered : Expr → Expr
  | .literal value => .literal value
  | .group inner => .group inner.unnumbered
  | .unary op line operand => .unary op line operand.unnumbered
  | .binary op line left right => .binary op line left.unnumbered right.unnumbered
  | .logical op left right => .logical op left.unnumbered right.unnumbered
  | .ternary condition thenBranch elseBranch =>
    .ternary condition.unnumbered thenBranch.unnumbered elseBranch.unnumbered
  | .comma left right => .comma left.unnumbered right.unnumbered
  | .variable occurrence => .variable ⟨0, occurrence.name⟩
  | .assign target value => .assign ⟨0, target.name⟩ value.unnumbered
  | .call callee line arguments => .call callee.unnumbered line (unnumberedExprs arguments)
  | .get object name => .get object.unnumbered name
  | .set object name value => .set object.unnumbered name value.unnumbered
  | .this _ line => .this 0 line
  | .super _ line method => .super 0 line method
  | .lambda function => .lambda function.unnumbered

def unnumberedExprs : List Expr → List Expr
  | [] => []
  | e :: es => e.unnumbered :: unnumberedExprs es

def Function.unnumbered : Function → Function
  | ⟨name?, parameters, body, line⟩ => ⟨name?, parameters, unnumberedStmts body, line⟩

def Stmt.unnumbered : Stmt → Stmt
  | .expression e => .expression e.unnumbered
  | .print e => .print e.unnumbered
  | .var name none => .var name none
  | .var name (some initializer) => .var name (some initializer.unnumbered)
  | .block body => .block (unnumberedStmts body)
  | .if condition thenBranch none => .if condition.unnumbered thenBranch.unnumbered none
  | .if condition thenBranch (some elseBranch) =>
    .if condition.unnumbered thenBranch.unnumbered (some elseBranch.unnumbered)
  | .while condition body none => .while condition.unnumbered body.unnumbered none
  | .while condition body (some increment) =>
    .while condition.unnumbered body.unnumbered (some increment.unnumbered)
  | .function f => .function f.unnumbered
  | .class c => .class c.unnumbered
  | .return line none => .return line none
  | .return line (some value) => .return line (some value.unnumbered)
  | .break line => .break line
  | .continue line => .continue line

def unnumberedStmts : List Stmt → List Stmt
  | [] => []
  | s :: ss => s.unnumbered :: unnumberedStmts ss

def Class.unnumbered : Class → Class
  | ⟨name, none, methods, getters⟩ =>
    ⟨name, none, unnumberedFunctions methods, unnumberedFunctions getters⟩
  | ⟨name, some superclass, methods, getters⟩ =>
    ⟨name, some ⟨0, superclass.name⟩, unnumberedFunctions methods, unnumberedFunctions getters⟩

def unnumberedFunctions : List Function → List Function
  | [] => []
  | f :: fs => f.unnumbered :: unnumberedFunctions fs

end

attribute [simp] Expr.ids exprsIds Function.ids Stmt.ids stmtsIds Class.ids functionsIds
attribute [simp] Expr.unnumbered unnumberedExprs Function.unnumbered Stmt.unnumbered
  unnumberedStmts Class.unnumbered unnumberedFunctions

theorem stmtsIds_append (as bs : List Stmt) : stmtsIds (as ++ bs) = stmtsIds as ++ stmtsIds bs := by
  induction as with
  | nil => rfl
  | cons a as ih => simp [ih]

theorem unnumberedStmts_append (as bs : List Stmt) :
    unnumberedStmts (as ++ bs) = unnumberedStmts as ++ unnumberedStmts bs := by
  induction as with
  | nil => rfl
  | cons a as ih => simp [ih]

theorem unnumberedFunctions_append (as bs : List Function) :
    unnumberedFunctions (as ++ bs) = unnumberedFunctions as ++ unnumberedFunctions bs := by
  induction as with
  | nil => rfl
  | cons a as ih => simp [ih]

/-- Different numbers from `first` on, all below `next`. -/
structure Numbered (first : Nat) (ids : List Nat) (next : Nat) : Prop where
  nodup : ids.Nodup
  bounds : ∀ id ∈ ids, first ≤ id ∧ id < next
  le : first ≤ next

namespace Numbered

variable {first middle next : Nat} {ids more : List Nat}

theorem nil : Numbered first [] first :=
  ⟨.nil, by simp, Nat.le_refl _⟩

theorem single : Numbered first [first] (first + 1) :=
  ⟨by simp, by simp, by omega⟩

theorem append (h : Numbered first ids middle) (h' : Numbered middle more next) :
    Numbered first (ids ++ more) next where
  nodup := by
    rw [List.nodup_append]
    refine ⟨h.nodup, h'.nodup, fun a ha b hb hab => ?_⟩
    have := (h.bounds a ha).2
    have := (h'.bounds b hb).1
    omega
  bounds id hid := by
    rcases List.mem_append.mp hid with hid | hid
    · exact ⟨(h.bounds id hid).1, Nat.lt_of_lt_of_le (h.bounds id hid).2 h'.le⟩
    · exact ⟨Nat.le_trans h.le (h'.bounds id hid).1, (h'.bounds id hid).2⟩
  le := Nat.le_trans h.le h'.le

theorem perm (h : Numbered first ids next) (hp : ids.Perm more) : Numbered first more next :=
  ⟨hp.nodup_iff.mp h.nodup, fun id hid => h.bounds id (hp.mem_iff.mpr hid), h.le⟩

/-- The numbers of a part read earlier may be listed behind those of a later part. -/
theorem append_swap (h : Numbered first ids middle) (h' : Numbered middle more next) :
    Numbered first (more ++ ids) next :=
  (h.append h').perm List.perm_append_comm

theorem widen {low high : Nat} (h : Numbered first ids next) (hl : low ≤ first)
    (hh : next ≤ high) : Numbered low ids high :=
  ⟨h.nodup, fun id hid => by have := h.bounds id hid; omega, by have := h.le; omega⟩

end Numbered

end LoxLang
