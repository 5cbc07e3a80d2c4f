import LoxLang.Proofs.Grammar.StatementSoundness
import Mathlib.Data.List.Basic

/-!
The names and literals of a tree. Those of a program that is read are names and literals of its
tokens, but for the condition that a `for` without one gets.
-/

namespace LoxLang

/-- A name or a literal in a tree. -/
inductive Leaf where
  | name (text : String)
  | literal (value : Literal)

def Name.leaf (n : Name) : Leaf :=
  .name n.text

mutual

def Expr.leaves : Expr → List Leaf
  | .literal value => [.literal value]
  | .group inner => inner.leaves
  | .unary _ _ operand => operand.leaves
  | .binary _ _ left right => left.leaves ++ right.leaves
  | .logical _ left right => left.leaves ++ right.leaves
  | .ternary condition thenBranch elseBranch =>
    condition.leaves ++ (thenBranch.leaves ++ elseBranch.leaves)
  | .comma left right => left.leaves ++ right.leaves
  | .variable occurrence => [occurrence.name.leaf]
  | .assign target value => target.name.leaf :: value.leaves
  | .call callee _ arguments => callee.leaves ++ exprsLeaves arguments
  | .get object name => name.leaf :: object.leaves
  | .set object name value => name.leaf :: (object.leaves ++ value.leaves)
  | .this _ _ => []
  | .super _ _ method => [method.leaf]
  | .lambda function => function.leaves

def exprsLeaves : List Expr → List Leaf
  | [] => []
  | e :: es => e.leaves ++ exprsLeaves es

def Function.leaves : Function → List Leaf
  | ⟨name?, parameters, body, _⟩ =>
    name?.toList.map Name.leaf ++ (parameters.map Name.leaf ++ stmtsLeaves body)

def Stmt.leaves : Stmt → List Leaf
  | .expression e => e.leaves
  | .print e => e.leaves
  | .var name none => [name.leaf]
  | .var name (some initializer) => name.leaf :: initializer.leaves
  | .block body => stmtsLeaves body
  | .if condition thenBranch none => condition.leaves ++ thenBranch.leaves
  | .if condition thenBranch (some elseBranch) =>
    condition.leaves ++ (thenBranch.leaves ++ elseBranch.leaves)
  | .while condition body none => condition.leaves ++ body.leaves
  | .while condition body (some increment) => condition.leaves ++ (body.leaves ++ increment.leaves)
  | .function f => f.leaves
  | .class c => c.leaves
  | .return _ none => []
  | .return _ (some value) => value.leaves
  | .break _ => []
  | .continue _ => []

def stmtsLeaves : List Stmt → List Leaf
  | [] => []
  | s :: ss => s.leaves ++ stmtsLeaves ss

def Class.leaves : Class → List Leaf
  | ⟨name, superclass?, methods, getters⟩ =>
    name.leaf :: ((superclass?.map Occurrence.name).toList.map Name.leaf ++
      (functionsLeaves methods ++ functionsLeaves getters))

def functionsLeaves : List Function → List Leaf
  | [] => []
  | f :: fs => f.leaves ++ functionsLeaves fs

end

/-- The name or literal that a token is. -/
def Token.leaf? (t : Token) : Option Leaf :=
  match t.kind with
  | .identifier => some (.name t.lexeme)
  | .string contents => some (.literal (.string contents))
  | .number x => some (.literal (.number x))
  | .keyword .true => some (.literal (.bool true))
  | .keyword .false => some (.literal (.bool false))
  | .keyword .nil => some (.literal .nil)
  | .symbol _ | .keyword _ => none

/-- Whether the name or literal that a token is, if it is one, is of a sort. -/
def Token.Holds (P : Leaf → Prop) (t : Token) : Prop :=
  ∀ l ∈ t.leaf?, P l

theorem Token.holds_identifier {P : Leaf → Prop} {t : Token} (h : t.kind = .identifier) :
    t.Holds P ↔ P t.toName.leaf := by
  simp [Holds, leaf?, h, Name.leaf, toName]

theorem Token.holds_literal {P : Leaf → Prop} {t : Token} {v : Literal}
    (h : t.leaf? = some (.literal v)) : t.Holds P ↔ P (.literal v) := by
  simp [Holds, h]

/-- Whether all names and literals in the tree of a phrase are of a sort, if those of what is in
front of it are. -/
def Phrase.Holds (P : Leaf → Prop) : (p : Phrase) → p.Tree → Prop
  | .level _, e | .operand _, e | .ternary, e | .assignment, e | .unary, e | .call, e
  | .primary, e => (Expr.leaves e).Forall P
  | .tail _ left, e | .suffixes left, e => left.leaves.Forall P → (Expr.leaves e).Forall P
  | .argumentList, es | .arguments, es => (exprsLeaves es).Forall P
  | .nameList, ns | .parameters, ns => (List.map Name.leaf ns).Forall P
  | .functionRest, (ns, body) => (ns.map Name.leaf).Forall P ∧ (stmtsLeaves body).Forall P
  | .function, f | .getter, f => (Function.leaves f).Forall P
  | .members, (methods, getters) =>
    (functionsLeaves methods).Forall P ∧ (functionsLeaves getters).Forall P
  | .block, ss | .declarations, ss => (stmtsLeaves ss).Forall P
  | .declaration, s | .variable, s | .statement _, s => (Stmt.leaves s).Forall P
  | .optional, e? => ∀ e ∈ e?, (Expr.leaves e).Forall P
  | .start, s? => ∀ s ∈ s?, (Stmt.leaves s).Forall P

theorem Operator.leaves_apply (op : Operator) (line : Nat) (left right : Expr) :
    (op.apply line left right).leaves = left.leaves ++ right.leaves := by
  cases op <;> rfl

theorem Stmt.forall_leaves_ofFor {P : Leaf → Prop} (htrue : P (.literal (.bool true)))
    {start? : Option Stmt} {condition? increment? : Option Expr} {body : Stmt}
    (hs : ∀ s ∈ start?, s.leaves.Forall P) (hc : ∀ e ∈ condition?, e.leaves.Forall P)
    (hi : ∀ e ∈ increment?, e.leaves.Forall P) (hb : body.leaves.Forall P) :
    (Stmt.ofFor start? condition? increment? body).leaves.Forall P := by
  have hcondition : (condition?.getD (.literal (.bool true))).leaves.Forall P := by
    cases condition? with
    | none => exact htrue
    | some e => exact hc e rfl
  have hlooped :
      (Stmt.while (condition?.getD (.literal (.bool true))) body increment?).leaves.Forall P := by
    cases increment? <;> simp_all [Stmt.leaves]
  cases start? <;> simp_all [Stmt.ofFor, Stmt.leaves, stmtsLeaves]

/-- The names and literals of a tree are of a sort if those of its tokens are, and so is the
condition of an endless loop. -/
theorem Derives.holds {P : Leaf → Prop} (htrue : P (.literal (.bool true))) {p : Phrase}
    {ts : List Token} {a : p.Tree} (h : Derives p ts a) (ht : ts.Forall (Token.Holds P)) :
    p.Holds P a := by
  induction h with
  | tailMore hop _ _ ih₁ ih₂ =>
    simp only [List.forall_append, List.forall_cons] at ht
    intro hl
    apply ih₂ ht.2
    rw [Operator.leaves_apply, List.forall_append]
    exact ⟨hl, ih₁ ht.1.2⟩
  | falseLiteral hk | trueLiteral hk | nilLiteral hk | numberLiteral hk | stringLiteral hk =>
    refine (Token.holds_literal ?_).mp ht
    rw [Token.leaf?, hk]
  | @«return» _ _ e? _ _ _ _ ih =>
    simp only [List.forall_append, List.forall_cons] at ht
    cases e? with
    | none => exact trivial
    | some e => exact ih ht.1.2 e rfl
  | «for» _ _ _ _ _ _ _ _ ih₁ ih₂ ih₃ ih₄ =>
    simp only [List.forall_append, List.forall_cons] at ht
    exact Stmt.forall_leaves_ofFor htrue (ih₁ ht.1.1.1.2.2) (ih₂ ht.1.1.2) (ih₃ ht.1.2.2)
      (ih₄ ht.2.2)
  | _ =>
    simp_all [Phrase.Holds, Expr.leaves, exprsLeaves, stmtsLeaves, functionsLeaves, Function.leaves,
      Stmt.leaves, Class.leaves, Token.holds_identifier]

end LoxLang
