import LoxLang.Diagnostic
import LoxLang.Grammar.Operator

/-!
The grammar of Lox as derivations. A phrase derives a list of tokens with a tree; the numbers of
occurrences are free in the tree, everything else is fixed by the tokens.

The repetitions of the grammar carry what was read before them: `tail l left` is the part of a
level behind `left`, and `suffixes object` the calls and property reads behind `object`. A
statement is `dangling` if it ends in an `if` without an `else`. No such statement stands in front
of an `else`, which binds every `else` to the nearest unmatched `if`.
-/

namespace LoxLang

/-- The name that an identifier stands for. -/
def Token.toName (t : Token) : Name := ⟨t.lexeme, t.line⟩

@[simp] theorem Token.line_toName (t : Token) : t.toName.line = t.line := rfl

inductive Phrase where
  | level (l : Level)
  | operand (l : Level)
  | tail (l : Level) (left : Expr)
  | ternary
  | assignment
  | unary
  | call
  | suffixes (object : Expr)
  | primary
  | argumentList
  | arguments
  | nameList
  | parameters
  | functionRest
  | function
  | getter
  | members
  | block
  | declarations
  | declaration
  | variable
  | optional
  | start
  | statement (dangling : Bool)

namespace Phrase

abbrev expression : Phrase := .level .comma

/-- The trees of a phrase. -/
@[reducible]
def Tree : Phrase → Type
  | .level _ | .operand _ | .tail _ _ | .ternary | .assignment | .unary | .call | .suffixes _
  | .primary => Expr
  | .argumentList | .arguments => List Expr
  | .nameList | .parameters => List Name
  | .functionRest => List Name × List Stmt
  | .function | .getter => Function
  | .members => List Function × List Function
  | .block | .declarations => List Stmt
  | .declaration | .variable | .statement _ => Stmt
  | .optional => Option Expr
  | .start => Option Stmt

end Phrase

/-- A `for` is a `while` with an increment, in a block with its initializer if it has one. -/
def Stmt.ofFor (start? : Option Stmt) (condition? increment? : Option Expr) (body : Stmt) : Stmt :=
  let looped := Stmt.while (condition?.getD (.literal (.bool true))) body increment?
  match start? with
  | none => looped
  | some start => .block [start, looped]

open LoxLang.Symbol in
/-- The phrases of the grammar with their trees. They are those that the parser reads, but only a
name or a property is assigned to, and every list is of a length that is allowed:

    assignment = (call ".")? NAME "=" assignment | disjunction
    level      = operand (operator operand)*
    arguments  = (ternary ("," ternary)*)?
    parameters = (NAME ("," NAME)*)?
-/
inductive Derives : (p : Phrase) → List Token → p.Tree → Prop
  | level {l first e ts₁ ts₂} (h₁ : Derives (.operand l) ts₁ first)
      (h₂ : Derives (.tail l first) ts₂ e) : Derives (.level l) (ts₁ ++ ts₂) e
  | tailEnd {l left} : Derives (.tail l left) [] left
  | tailMore {l left t op right e ts₁ ts₂} (ht : l.operator? t.kind = some op)
      (h₁ : Derives (.operand l) ts₁ right)
      (h₂ : Derives (.tail l (op.apply t.line left right)) ts₂ e) :
      Derives (.tail l left) (t :: ts₁ ++ ts₂) e
  | commaOperand {ts e} (h : Derives .ternary ts e) : Derives (.operand .comma) ts e
  | orOperand {ts e} (h : Derives (.level .and) ts e) : Derives (.operand .or) ts e
  | andOperand {ts e} (h : Derives (.level .equality) ts e) : Derives (.operand .and) ts e
  | equalityOperand {ts e} (h : Derives (.level .comparison) ts e) :
      Derives (.operand .equality) ts e
  | comparisonOperand {ts e} (h : Derives (.level .term) ts e) : Derives (.operand .comparison) ts e
  | termOperand {ts e} (h : Derives (.level .factor) ts e) : Derives (.operand .term) ts e
  | factorOperand {ts e} (h : Derives .unary ts e) : Derives (.operand .factor) ts e
  | assignment {ts e} (h : Derives .assignment ts e) : Derives .ternary ts e
  | ternary {q k c a b ts₁ ts₂ ts₃} (hq : q.kind = .symbol question) (hk : k.kind = .symbol colon)
      (h₁ : Derives .assignment ts₁ c) (h₂ : Derives .expression ts₂ a)
      (h₃ : Derives .ternary ts₃ b) :
      Derives .ternary (ts₁ ++ q :: ts₂ ++ k :: ts₃) (.ternary c a b)
  | assignVariable {t eq v ts} (id : Nat) (ht : t.kind = .identifier)
      (heq : eq.kind = .symbol equal)
      (h : Derives .assignment ts v) :
      Derives .assignment (t :: eq :: ts) (.assign ⟨id, t.toName⟩ v)
  | assignProperty {d t eq object v ts₁ ts₂} (hd : d.kind = .symbol dot) (ht : t.kind = .identifier)
      (heq : eq.kind = .symbol equal) (h₁ : Derives .call ts₁ object)
      (h₂ : Derives .assignment ts₂ v) :
      Derives .assignment (ts₁ ++ d :: t :: eq :: ts₂) (.set object t.toName v)
  | disjunction {ts e} (h : Derives (.level .or) ts e) : Derives .assignment ts e
  | unary {t op e ts} (ht : UnaryOp.ofKind? t.kind = some op) (h : Derives .unary ts e) :
      Derives .unary (t :: ts) (.unary op t.line e)
  | unaryCall {ts e} (h : Derives .call ts e) : Derives .unary ts e
  | call {object e ts₁ ts₂} (h₁ : Derives .primary ts₁ object)
      (h₂ : Derives (.suffixes object) ts₂ e) : Derives .call (ts₁ ++ ts₂) e
  | suffixesEnd {object} : Derives (.suffixes object) [] object
  | suffixesCall {object l r es e ts₁ ts₂} (hl : l.kind = .symbol leftParen)
      (hr : r.kind = .symbol rightParen) (h₁ : Derives .arguments ts₁ es)
      (h₂ : Derives (.suffixes (.call object r.line es)) ts₂ e) :
      Derives (.suffixes object) (l :: ts₁ ++ r :: ts₂) e
  | suffixesGet {object d t e ts} (hd : d.kind = .symbol dot) (ht : t.kind = .identifier)
      (h : Derives (.suffixes (.get object t.toName)) ts e) :
      Derives (.suffixes object) (d :: t :: ts) e
  | noArguments : Derives .arguments [] []
  | arguments {es ts} (hn : es.length ≤ maxArity) (h : Derives .argumentList ts es) :
      Derives .arguments ts es
  | lastArgument {e ts} (h : Derives .ternary ts e) : Derives .argumentList ts [e]
  | moreArguments {c e es ts₁ ts₂} (hc : c.kind = .symbol comma) (h₁ : Derives .ternary ts₁ e)
      (h₂ : Derives .argumentList ts₂ es) : Derives .argumentList (ts₁ ++ c :: ts₂) (e :: es)
  | falseLiteral {t} (ht : t.kind = .keyword .false) : Derives .primary [t] (.literal (.bool false))
  | trueLiteral {t} (ht : t.kind = .keyword .true) : Derives .primary [t] (.literal (.bool true))
  | nilLiteral {t} (ht : t.kind = .keyword .nil) : Derives .primary [t] (.literal .nil)
  | numberLiteral {t x} (ht : t.kind = .number x) : Derives .primary [t] (.literal (.number x))
  | stringLiteral {t s} (ht : t.kind = .string s) : Derives .primary [t] (.literal (.string s))
  | this {t} (id : Nat) (ht : t.kind = .keyword .this) : Derives .primary [t] (.this id t.line)
  | name {t} (id : Nat) (ht : t.kind = .identifier) :
      Derives .primary [t] (.variable ⟨id, t.toName⟩)
  | super {t d m} (id : Nat) (ht : t.kind = .keyword .super) (hd : d.kind = .symbol dot)
      (hm : m.kind = .identifier) : Derives .primary [t, d, m] (.super id t.line m.toName)
  | group {l r e ts} (hl : l.kind = .symbol leftParen) (hr : r.kind = .symbol rightParen)
      (h : Derives .expression ts e) : Derives .primary (l :: ts ++ [r]) (.group e)
  | lambda {t l parameters body ts} (ht : t.kind = .keyword .fun) (hl : l.kind = .symbol leftParen)
      (h : Derives .functionRest ts (parameters, body)) :
      Derives .primary (t :: l :: ts) (.lambda ⟨none, parameters, body, t.line⟩)
  | lastName {t} (ht : t.kind = .identifier) : Derives .nameList [t] [t.toName]
  | moreNames {t c ns ts} (ht : t.kind = .identifier) (hc : c.kind = .symbol comma)
      (h : Derives .nameList ts ns) : Derives .nameList (t :: c :: ts) (t.toName :: ns)
  | noParameters : Derives .parameters [] []
  | parameters {ns ts} (hn : ns.length ≤ maxArity) (h : Derives .nameList ts ns) :
      Derives .parameters ts ns
  | functionRest {r parameters body ts₁ ts₂} (hr : r.kind = .symbol rightParen)
      (h₁ : Derives .parameters ts₁ parameters) (h₂ : Derives .block ts₂ body) :
      Derives .functionRest (ts₁ ++ r :: ts₂) (parameters, body)
  | function {t l parameters body ts} (ht : t.kind = .identifier) (hl : l.kind = .symbol leftParen)
      (h : Derives .functionRest ts (parameters, body)) :
      Derives .function (t :: l :: ts) ⟨some t.toName, parameters, body, t.line⟩
  | getter {t body ts} (ht : t.kind = .identifier) (h : Derives .block ts body) :
      Derives .getter (t :: ts) ⟨some t.toName, [], body, t.line⟩
  | noMembers : Derives .members [] ([], [])
  | method {f methods getters ts₁ ts₂} (h₁ : Derives .function ts₁ f)
      (h₂ : Derives .members ts₂ (methods, getters)) :
      Derives .members (ts₁ ++ ts₂) (f :: methods, getters)
  | getterMember {f methods getters ts₁ ts₂} (h₁ : Derives .getter ts₁ f)
      (h₂ : Derives .members ts₂ (methods, getters)) :
      Derives .members (ts₁ ++ ts₂) (methods, f :: getters)
  | block {l r body ts} (hl : l.kind = .symbol leftBrace) (hr : r.kind = .symbol rightBrace)
      (h : Derives .declarations ts body) : Derives .block (l :: ts ++ [r]) body
  | noDeclarations : Derives .declarations [] []
  | moreDeclarations {s ss ts₁ ts₂} (h₁ : Derives .declaration ts₁ s)
      (h₂ : Derives .declarations ts₂ ss) : Derives .declarations (ts₁ ++ ts₂) (s :: ss)
  | base {c t l r methods getters ts} (hc : c.kind = .keyword .class) (ht : t.kind = .identifier)
      (hl : l.kind = .symbol leftBrace) (hr : r.kind = .symbol rightBrace)
      (h : Derives .members ts (methods, getters)) :
      Derives .declaration (c :: t :: l :: ts ++ [r]) (.class ⟨t.toName, none, methods, getters⟩)
  | subclass {c t a s l r methods getters ts} (id : Nat) (hc : c.kind = .keyword .class)
      (ht : t.kind = .identifier) (ha : a.kind = .symbol less) (hs : s.kind = .identifier)
      (hl : l.kind = .symbol leftBrace) (hr : r.kind = .symbol rightBrace)
      (h : Derives .members ts (methods, getters)) :
      Derives .declaration (c :: t :: a :: s :: l :: ts ++ [r])
        (.class ⟨t.toName, some ⟨id, s.toName⟩, methods, getters⟩)
  | functionDeclaration {t f ts} (ht : t.kind = .keyword .fun) (h : Derives .function ts f) :
      Derives .declaration (t :: ts) (.function f)
  | variableDeclaration {t s ts} (ht : t.kind = .keyword .var) (h : Derives .variable ts s) :
      Derives .declaration (t :: ts) s
  | statement {dangling s ts} (h : Derives (.statement dangling) ts s) : Derives .declaration ts s
  | uninitialized {t r} (ht : t.kind = .identifier) (hr : r.kind = .symbol semicolon) :
      Derives .variable [t, r] (.var t.toName none)
  | initialized {t eq r e ts} (ht : t.kind = .identifier) (heq : eq.kind = .symbol equal)
      (hr : r.kind = .symbol semicolon) (h : Derives .expression ts e) :
      Derives .variable (t :: eq :: ts ++ [r]) (.var t.toName (some e))
  | absent : Derives .optional [] none
  | present {e ts} (h : Derives .expression ts e) : Derives .optional ts (some e)
  | expressionStatement {r e ts} (hr : r.kind = .symbol semicolon) (h : Derives .expression ts e) :
      Derives (.statement false) (ts ++ [r]) (.expression e)
  | print {t r e ts} (ht : t.kind = .keyword .print) (hr : r.kind = .symbol semicolon)
      (h : Derives .expression ts e) : Derives (.statement false) (t :: ts ++ [r]) (.print e)
  | return {t r e? ts} (ht : t.kind = .keyword .return) (hr : r.kind = .symbol semicolon)
      (h : Derives .optional ts e?) :
      Derives (.statement false) (t :: ts ++ [r]) (.return t.line e?)
  | break {t r} (ht : t.kind = .keyword .break) (hr : r.kind = .symbol semicolon) :
      Derives (.statement false) [t, r] (.break t.line)
  | continue {t r} (ht : t.kind = .keyword .continue) (hr : r.kind = .symbol semicolon) :
      Derives (.statement false) [t, r] (.continue t.line)
  | blockStatement {body ts} (h : Derives .block ts body) :
      Derives (.statement false) ts (.block body)
  | ifThen {t l r c dangling s ts₁ ts₂} (ht : t.kind = .keyword .if)
      (hl : l.kind = .symbol leftParen)
      (hr : r.kind = .symbol rightParen) (h₁ : Derives .expression ts₁ c)
      (h₂ : Derives (.statement dangling) ts₂ s) :
      Derives (.statement true) (t :: l :: ts₁ ++ r :: ts₂) (.if c s none)
  | ifElse {t l r k c dangling a b ts₁ ts₂ ts₃} (ht : t.kind = .keyword .if)
      (hl : l.kind = .symbol leftParen) (hr : r.kind = .symbol rightParen)
      (hk : k.kind = .keyword .else) (h₁ : Derives .expression ts₁ c)
      (h₂ : Derives (.statement false) ts₂ a) (h₃ : Derives (.statement dangling) ts₃ b) :
      Derives (.statement dangling) (t :: l :: ts₁ ++ r :: ts₂ ++ k :: ts₃) (.if c a (some b))
  | while {t l r c dangling s ts₁ ts₂} (ht : t.kind = .keyword .while)
      (hl : l.kind = .symbol leftParen)
      (hr : r.kind = .symbol rightParen) (h₁ : Derives .expression ts₁ c)
      (h₂ : Derives (.statement dangling) ts₂ s) :
      Derives (.statement dangling) (t :: l :: ts₁ ++ r :: ts₂) (.while c s none)
  | for {t l m r start? c? i? dangling s ts₁ ts₂ ts₃ ts₄} (ht : t.kind = .keyword .for)
      (hl : l.kind = .symbol leftParen) (hm : m.kind = .symbol semicolon)
      (hr : r.kind = .symbol rightParen) (h₁ : Derives .start ts₁ start?)
      (h₂ : Derives .optional ts₂ c?) (h₃ : Derives .optional ts₃ i?)
      (h₄ : Derives (.statement dangling) ts₄ s) :
      Derives (.statement dangling) (t :: l :: ts₁ ++ ts₂ ++ m :: ts₃ ++ r :: ts₄)
        (.ofFor start? c? i? s)
  | noStart {r} (hr : r.kind = .symbol semicolon) : Derives .start [r] none
  | variableStart {t s ts} (ht : t.kind = .keyword .var) (h : Derives .variable ts s) :
      Derives .start (t :: ts) (some s)
  | expressionStart {r e ts} (hr : r.kind = .symbol semicolon) (h : Derives .expression ts e) :
      Derives .start (ts ++ [r]) (some (.expression e))

/-- Whether a tree is an operator of some level with two operands. -/
def Expr.isOperator : Expr → Bool
  | .binary .. | .logical .. | .comma .. => true
  | _ => false

theorem Operator.isOperator_apply (op : Operator) (line : Nat) (left right : Expr) :
    (op.apply line left right).isOperator = true := by
  cases op <;> rfl

namespace Derives

theorem tail_cases {l : Level} {left : Expr} {ts : List Token} {e : Expr}
    (h : Derives (.tail l left) ts e) : (ts = [] ∧ e = left) ∨ e.isOperator = true := by
  match h with
  | .tailEnd => exact .inl ⟨rfl, rfl⟩
  | .tailMore _ _ h₂ =>
    rcases h₂.tail_cases with ⟨-, rfl⟩ | he
    · exact .inr (Operator.isOperator_apply ..)
    · exact .inr he
termination_by ts.length
decreasing_by simp only [List.length_append, List.length_cons]; omega

theorem operand_of_level {l : Level} {ts : List Token} {e : Expr} (h : Derives (.level l) ts e)
    (he : e.isOperator = false) : Derives (.operand l) ts e := by
  cases h with
  | level h₁ h₂ =>
    rcases h₂.tail_cases with ⟨rfl, rfl⟩ | ho
    · rwa [List.append_nil]
    · rw [he] at ho
      cases ho

/-- A tree that is no operator has come down from a unary phrase. -/
theorem unary_of_or {ts : List Token} {e : Expr} (h : Derives (.level .or) ts e)
    (he : e.isOperator = false) : Derives .unary ts e := by
  cases h.operand_of_level he with
  | orOperand h =>
  cases h.operand_of_level he with
  | andOperand h =>
  cases h.operand_of_level he with
  | equalityOperand h =>
  cases h.operand_of_level he with
  | comparisonOperand h =>
  cases h.operand_of_level he with
  | termOperand h =>
  cases h.operand_of_level he with
  | factorOperand h => exact h

theorem suffixes_cases {object e : Expr} {ts : List Token} (h : Derives (.suffixes object) ts e) :
    (ts = [] ∧ e = object) ∨ (∃ callee line es, e = .call callee line es) ∨
      ∃ ts' d t inner, ts = ts' ++ [d, t] ∧ d.kind = .symbol .dot ∧ t.kind = .identifier ∧
        e = .get inner t.toName ∧ Derives (.suffixes object) ts' inner := by
  match h with
  | .suffixesEnd => exact .inl ⟨rfl, rfl⟩
  | .suffixesCall hl hr h₁ h₂ =>
    rcases h₂.suffixes_cases with ⟨-, rfl⟩ | he | ⟨ts', d, t, inner, rfl, hd, ht, rfl, h⟩
    · exact .inr (.inl ⟨_, _, _, rfl⟩)
    · exact .inr (.inl he)
    · exact .inr (.inr ⟨_, d, t, inner, by simp, hd, ht, rfl, .suffixesCall hl hr h₁ h⟩)
  | .suffixesGet hd ht h₂ =>
    rcases h₂.suffixes_cases with ⟨rfl, rfl⟩ | he | ⟨ts', d', t', inner, rfl, hd', ht', rfl, h⟩
    · exact .inr (.inr ⟨[], _, _, _, rfl, hd, ht, rfl, .suffixesEnd⟩)
    · exact .inr (.inl he)
    · exact .inr (.inr ⟨_, d', t', inner, by simp, hd', ht', rfl, .suffixesGet hd ht h⟩)
termination_by ts.length
decreasing_by all_goals simp only [List.length_append, List.length_cons]; omega

/-- A property of what a call gives is read like another suffix. -/
theorem suffixes_get {object e : Expr} {ts : List Token} {d t : Token}
    (h : Derives (.suffixes object) ts e) (hd : d.kind = .symbol .dot)
    (ht : t.kind = .identifier) : Derives (.suffixes object) (ts ++ [d, t]) (.get e t.toName) := by
  match h with
  | .suffixesEnd => exact .suffixesGet hd ht .suffixesEnd
  | .suffixesCall hl hr h₁ h₂ =>
    simpa using Derives.suffixesCall hl hr h₁ (h₂.suffixes_get hd ht)
  | .suffixesGet hd' ht' h₂ => exact .suffixesGet hd' ht' (h₂.suffixes_get hd ht)
termination_by ts.length
decreasing_by all_goals simp only [List.length_append, List.length_cons]; omega

theorem call_get {object : Expr} {ts : List Token} {d t : Token} (h : Derives .call ts object)
    (hd : d.kind = .symbol .dot) (ht : t.kind = .identifier) :
    Derives .call (ts ++ [d, t]) (.get object t.toName) := by
  cases h with
  | call h₁ h₂ => simpa using Derives.call h₁ (h₂.suffixes_get hd ht)

theorem level_of_operand {l : Level} {ts : List Token} {e : Expr} (h : Derives (.operand l) ts e) :
    Derives (.level l) ts e := by
  simpa using Derives.level h .tailEnd

theorem or_of_call {ts : List Token} {e : Expr} (h : Derives .call ts e) :
    Derives (.level .or) ts e := by
  have factor : Derives (.level .factor) ts e := level_of_operand (.factorOperand (.unaryCall h))
  have equality : Derives (.level .equality) ts e :=
    level_of_operand (.equalityOperand (level_of_operand
      (.comparisonOperand (level_of_operand (.termOperand factor)))))
  exact level_of_operand (.orOperand (level_of_operand (.andOperand equality)))

/-- The tokens of a variable in front of an equals sign. -/
theorem variable_of_or {ts : List Token} {o : Occurrence}
    (h : Derives (.level .or) ts (.variable o)) :
    ∃ t, ts = [t] ∧ t.kind = .identifier ∧ o.name = t.toName := by
  cases h.unary_of_or rfl with
  | unaryCall h =>
  cases h with
  | call h₁ h₂ =>
    rcases h₂.suffixes_cases with ⟨rfl, rfl⟩ | ⟨_, _, _, he⟩ | ⟨_, _, _, _, _, _, _, he, _⟩
    · cases h₁ with
      | name id ht => exact ⟨_, rfl, ht, rfl⟩
    · cases he
    · cases he

/-- The tokens of a property in front of an equals sign. -/
theorem get_of_or {ts : List Token} {object : Expr} {name : Name}
    (h : Derives (.level .or) ts (.get object name)) :
    ∃ ts' d t, ts = ts' ++ [d, t] ∧ d.kind = .symbol .dot ∧ t.kind = .identifier ∧
      name = t.toName ∧ Derives .call ts' object := by
  cases h.unary_of_or rfl with
  | unaryCall h =>
  cases h with
  | call h₁ h₂ =>
    rcases h₂.suffixes_cases with
      ⟨rfl, rfl⟩ | ⟨_, _, _, he⟩ | ⟨us, d, t, inner, rfl, hd, ht, he, hs⟩
    · cases h₁
    · cases he
    · cases he
      exact ⟨_, d, t, (List.append_assoc ..).symm, hd, ht, rfl, .call h₁ hs⟩

end Derives
end LoxLang
