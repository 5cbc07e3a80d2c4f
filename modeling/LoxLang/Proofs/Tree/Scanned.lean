import LoxLang.Proofs.Decimal.Numerals
import LoxLang.Proofs.Scoping.Forming
import LoxLang.Proofs.Token.Spacing
import LoxLang.Proofs.Tree.Leaves
import LoxLang.Proofs.Tree.Nodes

/-!
What the names and literals of programs are. A name is an identifier, a string has no quotes in it,
and a number is the value of a numeral. This holds in all expressions of a program that is read.
-/

namespace LoxLang

/-- The names and literals that tokens are. -/
inductive Leaf.Scanned : Leaf → Prop
  | name {text : String} (h : Lexeme text.toList .identifier) : Scanned (.name text)
  | number {cs x} (h : Numeral cs x) : Scanned (.literal (.number x))
  | string {contents} (h : '\"' ∉ contents) :
    Scanned (.literal (.string (String.ofList contents)))
  | bool (b : Bool) : Scanned (.literal (.bool b))
  | nil : Scanned (.literal .nil)

theorem Token.holds_scanned {t : Token} (h : Lexeme t.lexeme.toList t.kind) :
    t.Holds Leaf.Scanned := by
  intro l hl
  have hlexeme := h
  generalize t.lexeme.toList = cs at hlexeme
  generalize hk : t.kind = kind at hlexeme
  cases hlexeme with
  | symbol => simp [leaf?, hk] at hl
  | identifier =>
    rw [leaf?, hk] at hl
    cases hl
    rw [hk] at h
    exact .name h
  | number hx =>
    rw [leaf?, hk] at hl
    cases hl
    exact .number hx
  | string hquote =>
    rw [leaf?, hk] at hl
    cases hl
    exact .string hquote
  | keyword k => cases k <;> rw [leaf?, hk] at hl <;> cases hl <;> constructor

namespace Leaf.Scanned

variable {x : Float}

theorem number_ne_nan (h : Scanned (.literal (.number x))) :
    Decimal.Reading.ofFloat x ≠ .nan := by
  cases h with
  | number hx => cases hx <;> exact Decimal.Reading.numberValue_ne_nan _ _

theorem number_ne_negative (h : Scanned (.literal (.number x))) :
    Decimal.Reading.ofFloat x ≠ .infinite true := by
  cases h with
  | number hx => cases hx <;> exact Decimal.Reading.numberValue_ne_negative _ _

end Leaf.Scanned

/-- Whether the names and literals of expressions are among some. -/
def Covers (ls : List Leaf) (es : List Expr) : Prop :=
  ∀ e ∈ es, e.leaves ⊆ ls

namespace Covers

variable {ls ls' : List Leaf} {es es' : List Expr}

theorem nil : Covers ls [] := by
  simp [Covers]

theorem append (h : Covers ls es) (h' : Covers ls' es') : Covers (ls ++ ls') (es ++ es') := by
  intro e he
  rcases List.mem_append.mp he with he | he
  · exact List.subset_append_of_subset_left _ (h e he)
  · exact List.subset_append_of_subset_right _ (h' e he)

theorem more (h : Covers ls es) : Covers (ls' ++ ls) es :=
  fun e he => List.subset_append_of_subset_right _ (h e he)

theorem cons {l : Leaf} (h : Covers ls es) : Covers (l :: ls) es :=
  fun e he => List.subset_cons_of_subset l (h e he)

theorem node {e : Expr} (h : Covers e.leaves es) : Covers e.leaves (e :: es) :=
  List.forall_mem_cons.mpr ⟨fun _ hl => hl, h⟩

end Covers

mutual

/-- The names and literals of the expressions in a tree are names and literals of the tree. -/
theorem Expr.covers_nodes : (e : Expr) → Covers e.leaves e.nodes
  | .literal _ | .variable _ | .this _ _ | .super _ _ _ => Covers.node .nil
  | .group inner | .unary _ _ inner => Covers.node inner.covers_nodes
  | .binary _ _ left right | .logical _ left right | .comma left right =>
    Covers.node (left.covers_nodes.append right.covers_nodes)
  | .ternary condition thenBranch elseBranch =>
    Covers.node (condition.covers_nodes.append
      (thenBranch.covers_nodes.append elseBranch.covers_nodes))
  | .assign _ value => Covers.node value.covers_nodes.cons
  | .call callee _ arguments =>
    Covers.node (callee.covers_nodes.append (covers_exprsNodes arguments))
  | .get object _ => Covers.node object.covers_nodes.cons
  | .set object _ value => Covers.node (object.covers_nodes.append value.covers_nodes).cons
  | .lambda f => Covers.node f.covers_nodes
termination_by structural e => e

theorem covers_exprsNodes : (es : List Expr) → Covers (exprsLeaves es) (exprsNodes es)
  | [] => .nil
  | e :: es => e.covers_nodes.append (covers_exprsNodes es)
termination_by structural es => es

theorem Function.covers_nodes : (f : Function) → Covers f.leaves f.nodes
  | ⟨_, _, body, _⟩ => (covers_stmtsNodes body).more.more
termination_by structural f => f

theorem Stmt.covers_nodes : (s : Stmt) → Covers s.leaves s.nodes
  | .expression e | .print e | .return _ (some e) => e.covers_nodes
  | .var _ (some e) => e.covers_nodes.cons
  | .var _ none | .return _ none | .break _ | .continue _ => .nil
  | .block body => covers_stmtsNodes body
  | .if condition body none | .while condition body none =>
    condition.covers_nodes.append body.covers_nodes
  | .if condition thenBranch (some elseBranch) =>
    condition.covers_nodes.append (thenBranch.covers_nodes.append elseBranch.covers_nodes)
  | .while condition body (some increment) =>
    condition.covers_nodes.append (body.covers_nodes.append increment.covers_nodes)
  | .function f => f.covers_nodes
  | .class c => c.covers_nodes
termination_by structural s => s

theorem covers_stmtsNodes : (ss : List Stmt) → Covers (stmtsLeaves ss) (stmtsNodes ss)
  | [] => .nil
  | s :: ss => s.covers_nodes.append (covers_stmtsNodes ss)
termination_by structural ss => ss

theorem Class.covers_nodes : (c : Class) → Covers c.leaves c.nodes
  | ⟨_, _, methods, getters⟩ =>
    ((covers_functionsNodes methods).append (covers_functionsNodes getters)).more.cons
termination_by structural c => c

theorem covers_functionsNodes : (fs : List Function) →
    Covers (functionsLeaves fs) (functionsNodes fs)
  | [] => .nil
  | f :: fs => f.covers_nodes.append (covers_functionsNodes fs)
termination_by structural fs => fs

end

namespace Program

variable {firstId : Nat} {source : String} {p : Program}

theorem scanned_of_ofSource (h : ofSource firstId source = .ok p) :
    (stmtsLeaves p.statements).Forall Leaf.Scanned := by
  have hd := (ofTokens_ok (ofSource_ok h)).1
  apply hd.holds (.bool true)
  rw [List.forall_iff_forall_mem]
  exact fun t ht => Token.holds_scanned (lexeme_of_mem_scan ht)

theorem scanned_of_mem_nodes (h : ofSource firstId source = .ok p) {e : Expr}
    (he : e ∈ stmtsNodes p.statements) : e.leaves.Forall Leaf.Scanned := by
  have hall := scanned_of_ofSource h
  rw [List.forall_iff_forall_mem] at hall ⊢
  exact fun l hl => hall l (covers_stmtsNodes _ e he hl)

end Program

end LoxLang
