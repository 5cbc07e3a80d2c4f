import LoxLang.Proofs.Grammar.Soundness
import LoxLang.Proofs.Grammar.Taking

/-!
What the grammar derives, a parser takes. With enough fuel for the tokens of a phrase, and behind
them no token that would belong to it, a parser gives the tree of the phrase up to the numbers of
occurrences.
-/

namespace LoxLang

namespace Phrase

/-- A tree of a phrase without the numbers of its occurrences. -/
def unnumbered : (p : Phrase) → p.Tree → p.Tree
  | .level _, e | .operand _, e | .tail _ _, e | .ternary, e | .assignment, e | .unary, e
  | .call, e | .suffixes _, e | .primary, e => Expr.unnumbered e
  | .argumentList, es | .arguments, es => unnumberedExprs es
  | .nameList, ns | .parameters, ns => ns
  | .functionRest, (ns, body) => (ns, unnumberedStmts body)
  | .function, f | .getter, f => Function.unnumbered f
  | .members, (methods, getters) => (unnumberedFunctions methods, unnumberedFunctions getters)
  | .block, ss | .declarations, ss => unnumberedStmts ss
  | .declaration, s | .variable, s | .statement _, s => Stmt.unnumbered s
  | .optional, e? => e?.map Expr.unnumbered
  | .start, s? => s?.map Stmt.unnumbered

/-- With fuel for `need` beside its tokens, a parser takes a phrase in front of `rest`. -/
def Taken (p : Phrase) (need : Nat) (before : List Token → Prop) (fuel : Nat) (x : Parser p.Tree) :
    Prop :=
  ∀ {ts : List Token} {a : p.Tree}, Derives p ts a → ∀ (c : Cursor) (rest : List Token),
    c.tokens = ts ++ rest → before rest → 32 * ts.length + need ≤ fuel →
    Takes p.unnumbered c rest a (x c)

end Phrase

/-- In front of a token of this kind. -/
def Before (k : Kind) (rest : List Token) : Prop :=
  ∃ t us, rest = t :: us ∧ t.kind = k

open Phrase in
/-- Every parser takes its phrase, where this much fuel is enough for its tokens. -/
structure Complete (fuel : Nat) : Prop where
  level (l : Level) : Taken (.level l) (l.rank + 1) (Follows l.reach) fuel (Parser.level fuel l)
  operand (l : Level) :
    Taken (.operand l) l.rank (Follows (l.reach - 1)) fuel (Parser.operand fuel l)
  chain (l : Level) {left left' : Expr} (hl : left'.unnumbered = left.unnumbered) :
    Taken (.tail l left) 1 (Follows l.reach) fuel (Parser.chain fuel l left')
  expression : Taken .expression 20 (Follows 9) fuel (Parser.expression fuel)
  ternary : Taken .ternary 17 (Follows 8) fuel (Parser.ternary fuel)
  assigned : Taken .assignment 16 (Follows 7) fuel (Parser.assigned fuel)
  unary : Taken .unary 3 (Follows 0) fuel (Parser.unary fuel)
  call : Taken .call 2 (Follows 0) fuel (Parser.call fuel)
  calls {object object' : Expr} (ho : object'.unnumbered = object.unnumbered) :
    Taken (.suffixes object) 1 (Follows 0) fuel (Parser.calls fuel object')
  arguments : Taken .arguments 19 (Before (.symbol .rightParen)) fuel (Parser.arguments fuel)
  argumentList {count : Nat} {ts rest : List Token} {es : List Expr}
      (h : Derives .argumentList ts es) (hm : count + es.length ≤ maxArity) (c : Cursor)
      (hc : c.tokens = ts ++ rest) (hf : Before (.symbol .rightParen) rest)
      (hn : 32 * ts.length + 18 ≤ fuel) :
    Takes unnumberedExprs c rest es (Parser.argumentList fuel count c)
  primary : Taken .primary 1 (fun _ => True) fuel (Parser.primary fuel)
  group {ts rest : List Token} {r : Token} {e : Expr} (h : Derives .expression ts e)
      (hr : r.kind = .symbol .rightParen) (c : Cursor) (hc : c.tokens = ts ++ r :: rest)
      (hn : 32 * ts.length + 21 ≤ fuel) :
    Takes Expr.unnumbered c rest (.group e) (Parser.group fuel c)
  lambda {line : Nat} {l : Token} {ts rest : List Token} {parameters : List Name}
      {body : List Stmt} (h : Derives .functionRest ts (parameters, body))
      (hl : l.kind = .symbol .leftParen) (c : Cursor) (hc : c.tokens = l :: ts ++ rest)
      (hn : 32 * ts.length + 3 ≤ fuel) :
    Takes Expr.unnumbered c rest (.lambda ⟨none, parameters, body, line⟩)
      (Parser.lambda fuel line c)
  functionRest {name? : Option Name} {line : Nat} {sort : FunctionSort} {ts rest : List Token}
      {parameters : List Name} {body : List Stmt}
      (h : Derives .functionRest ts (parameters, body)) (c : Cursor)
      (hc : c.tokens = ts ++ rest) (hn : 32 * ts.length + 2 ≤ fuel) :
    Takes Function.unnumbered c rest ⟨name?, parameters, body, line⟩
      (Parser.functionRest fuel name? line sort c)
  block {ts rest : List Token} {r : Token} {body : List Stmt} (h : Derives .declarations ts body)
      (hr : r.kind = .symbol .rightBrace) (c : Cursor) (hc : c.tokens = ts ++ r :: rest)
      (hn : 32 * ts.length + 26 ≤ fuel) :
    Takes unnumberedStmts c rest body (Parser.block fuel c)
  declarations {read : List Stmt} {ts rest : List Token} {ss : List Stmt}
      (h : Derives .declarations ts ss) (c : Cursor) (hc : c.tokens = ts ++ rest)
      (hf : Before (.symbol .rightBrace) rest) (hn : 32 * ts.length + 25 ≤ fuel) :
    Takes unnumberedStmts c rest (read.reverse ++ ss) (Parser.declarations fuel read c)
  declaration {ts rest : List Token} {s : Stmt} (h : Derives .declaration ts s) (c : Cursor)
      (hc : c.tokens = ts ++ rest) (hf : ∀ t ∈ rest.head?, t.kind ≠ .keyword .else)
      (hn : 32 * ts.length + 24 ≤ fuel) :
    Takes (Option.map Stmt.unnumbered) c rest (some s) (Parser.declaration fuel c)
  declared : Taken .declaration 23 (fun rest => ∀ t ∈ rest.head?, t.kind ≠ .keyword .else) fuel
    (Parser.declared fuel)
  classDeclaration {t l r : Token} {ss ts rest : List Token} {superclass? : Option Occurrence}
      {methods getters : List Function} (ht : t.kind = .identifier)
      (hs : (ss = [] ∧ superclass? = none) ∨ ∃ a s id, ss = [a, s] ∧ a.kind = .symbol .less ∧
        s.kind = .identifier ∧ superclass? = some ⟨id, s.toName⟩)
      (hl : l.kind = .symbol .leftBrace) (hr : r.kind = .symbol .rightBrace)
      (h : Derives .members ts (methods, getters)) (c : Cursor)
      (hc : c.tokens = t :: (ss ++ (l :: (ts ++ r :: rest)))) (hn : 32 * ts.length + 3 ≤ fuel) :
    Takes Stmt.unnumbered c rest (.class ⟨t.toName, superclass?, methods, getters⟩)
      (Parser.classDeclaration fuel c)
  members {methods getters ms gs : List Function} {ts rest : List Token}
      (h : Derives .members ts (ms, gs)) (c : Cursor) (hc : c.tokens = ts ++ rest)
      (hf : Before (.symbol .rightBrace) rest) (hn : 32 * ts.length + 2 ≤ fuel) :
    Takes (Phrase.unnumbered .members) c rest (methods.reverse ++ ms, getters.reverse ++ gs)
      (Parser.members fuel methods getters c)
  function (sort : FunctionSort) :
    Taken .function 1 (fun _ => True) fuel (Parser.function fuel sort)
  getter : Taken .getter 1 (fun _ => True) fuel (Parser.getter fuel)
  varDeclaration : Taken .variable 1 (fun _ => True) fuel (Parser.varDeclaration fuel)
  initializer {ts rest : List Token} {e? : Option Expr}
      (h : (ts = [] ∧ e? = none) ∨ ∃ eq us e, ts = eq :: us ∧ eq.kind = .symbol .equal ∧
        e? = some e ∧ Derives .expression us e) (c : Cursor) (hc : c.tokens = ts ++ rest)
      (hf : Before (.symbol .semicolon) rest) (hn : 32 * ts.length + 21 ≤ fuel) :
    Takes (Phrase.unnumbered .optional) c rest e? (Parser.initializer fuel c)
  statement (dangling : Bool) : Taken (.statement dangling) 22
    (fun rest => dangling = true → ∀ t ∈ rest.head?, t.kind ≠ .keyword .else) fuel
    (Parser.statement fuel)
  expressionStatement {ts rest : List Token} {r : Token} {e : Expr} (h : Derives .expression ts e)
      (hr : r.kind = .symbol .semicolon) (c : Cursor) (hc : c.tokens = ts ++ r :: rest)
      (hn : 32 * ts.length + 21 ≤ fuel) :
    Takes Stmt.unnumbered c rest (.expression e) (Parser.expressionStatement fuel c)
  printStatement {ts rest : List Token} {r : Token} {e : Expr} (h : Derives .expression ts e)
      (hr : r.kind = .symbol .semicolon) (c : Cursor) (hc : c.tokens = ts ++ r :: rest)
      (hn : 32 * ts.length + 21 ≤ fuel) :
    Takes Stmt.unnumbered c rest (.print e) (Parser.printStatement fuel c)
  returnStatement {line : Nat} {ts rest : List Token} {r : Token} {e? : Option Expr}
      (h : Derives .optional ts e?) (hr : r.kind = .symbol .semicolon) (c : Cursor)
      (hc : c.tokens = ts ++ r :: rest) (hn : 32 * ts.length + 22 ≤ fuel) :
    Takes Stmt.unnumbered c rest (.return line e?) (Parser.returnStatement fuel line c)
  unlessNext {s : Symbol} (hs : s = .semicolon ∨ s = .rightParen) :
    Taken .optional 21 (Before (.symbol s)) fuel (Parser.unlessNext fuel s)
  whileStatement {l r : Token} {ts₁ ts₂ rest : List Token} {e : Expr} {s : Stmt} {dangling : Bool}
      (hl : l.kind = .symbol .leftParen) (hr : r.kind = .symbol .rightParen)
      (h₁ : Derives .expression ts₁ e) (h₂ : Derives (.statement dangling) ts₂ s) (c : Cursor)
      (hc : c.tokens = l :: (ts₁ ++ r :: (ts₂ ++ rest)))
      (hf : dangling = true → ∀ t ∈ rest.head?, t.kind ≠ .keyword .else)
      (hn : 32 * (ts₁.length + ts₂.length) + 33 ≤ fuel) :
    Takes Stmt.unnumbered c rest (.while e s none) (Parser.whileStatement fuel c)
  ifThen {l r : Token} {ts₁ ts₂ rest : List Token} {e : Expr} {s : Stmt} {dangling : Bool}
      (hl : l.kind = .symbol .leftParen) (hr : r.kind = .symbol .rightParen)
      (h₁ : Derives .expression ts₁ e) (h₂ : Derives (.statement dangling) ts₂ s) (c : Cursor)
      (hc : c.tokens = l :: (ts₁ ++ r :: (ts₂ ++ rest)))
      (hf : ∀ t ∈ rest.head?, t.kind ≠ .keyword .else)
      (hn : 32 * (ts₁.length + ts₂.length) + 33 ≤ fuel) :
    Takes Stmt.unnumbered c rest (.if e s none) (Parser.ifStatement fuel c)
  ifElse {l r k : Token} {ts₁ ts₂ ts₃ rest : List Token} {e : Expr} {a b : Stmt} {dangling : Bool}
      (hl : l.kind = .symbol .leftParen) (hr : r.kind = .symbol .rightParen)
      (hk : k.kind = .keyword .else) (h₁ : Derives .expression ts₁ e)
      (h₂ : Derives (.statement false) ts₂ a) (h₃ : Derives (.statement dangling) ts₃ b)
      (c : Cursor) (hc : c.tokens = l :: (ts₁ ++ r :: (ts₂ ++ k :: (ts₃ ++ rest))))
      (hf : dangling = true → ∀ t ∈ rest.head?, t.kind ≠ .keyword .else)
      (hn : 32 * (ts₁.length + ts₂.length + ts₃.length) + 33 ≤ fuel) :
    Takes Stmt.unnumbered c rest (.if e a (some b)) (Parser.ifStatement fuel c)
  forStatement {l m r : Token} {ts₁ ts₂ ts₃ ts₄ rest : List Token} {start? : Option Stmt}
      {c? i? : Option Expr} {s : Stmt} {dangling : Bool} (hl : l.kind = .symbol .leftParen)
      (hm : m.kind = .symbol .semicolon) (hr : r.kind = .symbol .rightParen)
      (h₁ : Derives .start ts₁ start?) (h₂ : Derives .optional ts₂ c?)
      (h₃ : Derives .optional ts₃ i?) (h₄ : Derives (.statement dangling) ts₄ s) (c : Cursor)
      (hc : c.tokens = l :: (ts₁ ++ (ts₂ ++ m :: (ts₃ ++ r :: (ts₄ ++ rest)))))
      (hf : dangling = true → ∀ t ∈ rest.head?, t.kind ≠ .keyword .else)
      (hn : 32 * (ts₁.length + ts₂.length + ts₃.length + ts₄.length) + 33 ≤ fuel) :
    Takes Stmt.unnumbered c rest (.ofFor start? c? i? s) (Parser.forStatement fuel c)
  forStart : Taken .start 22 (fun _ => True) fuel (Parser.forStart fuel)

namespace Complete

variable {fuel : Nat}

/-- Behind an operand stands an operator of its level, or what stands behind the level. -/
theorem follows_tail {l : Level} {left e : Expr} {ts rest : List Token}
    (h : Derives (.tail l left) ts e) (hf : Follows l.reach rest) :
    Follows (l.reach - 1) (ts ++ rest) := by
  cases h with
  | tailEnd => exact hf.mono (Nat.sub_le _ _)
  | tailMore ht _ _ =>
    refine .cons ?_
    rw [Level.reach_of_operator ht]
    cases l <;> decide

theorem level_succ (ih : Complete fuel) (l : Level) :
    Phrase.Taken (.level l) (l.rank + 1) (Follows l.reach) (fuel + 1)
      (Parser.level (fuel + 1) l) := by
  intro ts e h c rest hc hf hn
  unfold Parser.level
  cases h with
  | level h₁ h₂ =>
    rw [List.append_assoc] at hc
    rw [List.length_append] at hn
    have := l.rank_bounds
    refine (ih.operand l h₁ c _ hc (follows_tail h₂ hf) (by omega)).bind fun first c₁ he h₁ => ?_
    exact ih.chain l he h₂ c₁ rest h₁ hf (by omega)

theorem operand_succ (ih : Complete fuel) (l : Level) :
    Phrase.Taken (.operand l) l.rank (Follows (l.reach - 1)) (fuel + 1)
      (Parser.operand (fuel + 1) l) := by
  intro ts e h c rest hc hf hn
  unfold Parser.operand
  cases h with
  | commaOperand h => exact ih.ternary h c rest hc hf (Nat.le_of_succ_le_succ hn)
  | orOperand h => exact ih.level .and h c rest hc hf (Nat.le_of_succ_le_succ hn)
  | andOperand h => exact ih.level .equality h c rest hc hf (Nat.le_of_succ_le_succ hn)
  | equalityOperand h => exact ih.level .comparison h c rest hc hf (Nat.le_of_succ_le_succ hn)
  | comparisonOperand h => exact ih.level .term h c rest hc hf (Nat.le_of_succ_le_succ hn)
  | termOperand h => exact ih.level .factor h c rest hc hf (Nat.le_of_succ_le_succ hn)
  | factorOperand h => exact ih.unary h c rest hc hf (Nat.le_of_succ_le_succ hn)

theorem unnumbered_apply (op : Operator) (line : Nat) {left left' right right' : Expr}
    (hl : left'.unnumbered = left.unnumbered) (hr : right'.unnumbered = right.unnumbered) :
    (op.apply line left' right').unnumbered = (op.apply line left right).unnumbered := by
  cases op <;> simp [Operator.apply, hl, hr]

theorem chain_succ (ih : Complete fuel) (l : Level) {left left' : Expr}
    (hl : left'.unnumbered = left.unnumbered) :
    Phrase.Taken (.tail l left) 1 (Follows l.reach) (fuel + 1)
      (Parser.chain (fuel + 1) l left') := by
  intro ts e h c rest hc hf hn
  unfold Parser.chain
  cases h with
  | tailEnd =>
    exact .step (.acceptOperator_none hc hf.operator_eq_none) fun c₁ h₁ => .pure h₁ hl
  | tailMore ht h₁ h₂ =>
    rw [List.cons_append, List.cons_append, List.append_assoc] at hc
    rw [List.length_append, List.length_cons] at hn
    refine .step (.acceptOperator_some hc ht) fun c₁ hc₁ => ?_
    have := l.rank_bounds
    refine (ih.operand l h₁ c₁ _ hc₁ (follows_tail h₂ hf) (by omega)).bind fun right c₂ hr hc₂ => ?_
    exact ih.chain l (unnumbered_apply _ _ hl hr) h₂ c₂ rest hc₂ hf (by omega)

theorem expression_succ (ih : Complete fuel) :
    Phrase.Taken .expression 20 (Follows 9) (fuel + 1) (Parser.expression (fuel + 1)) := by
  intro ts e h c rest hc hf hn
  unfold Parser.expression
  exact ih.level .comma h c rest hc hf (Nat.le_of_succ_le_succ hn)

theorem ternary_succ (ih : Complete fuel) :
    Phrase.Taken .ternary 17 (Follows 8) (fuel + 1) (Parser.ternary (fuel + 1)) := by
  intro ts e h c rest hc hf hn
  unfold Parser.ternary
  cases h with
  | assignment h =>
    refine (ih.assigned h c rest hc (hf.mono (by decide)) (by omega)).bind fun a c₁ ha h₁ => ?_
    exact .step (.accept_false h₁ (hf.kind_ne (by decide))) fun c₂ h₂ => .pure h₂ ha
  | ternary hq hk h₁ h₂ h₃ =>
    simp only [List.append_assoc, List.cons_append] at hc
    simp only [List.length_append, List.length_cons] at hn
    refine (ih.assigned h₁ c _ hc (.cons (by rw [hq]; decide)) (by omega)).bind
      fun a c₁ ha hc₁ => ?_
    refine .step (.accept_true hc₁ hq) fun c₂ hc₂ => ?_
    refine (ih.expression h₂ c₂ _ hc₂ (.cons (by rw [hk]; decide)) (by omega)).bind
      fun b c₃ hb hc₃ => ?_
    refine .step (.expect hc₃ hk) fun c₄ hc₄ => ?_
    refine (ih.ternary h₃ c₄ rest hc₄ hf (by omega)).bind fun d c₅ hd hc₅ => .pure hc₅ ?_
    simp only [Phrase.unnumbered] at ha hb hd ⊢
    simp [ha, hb, hd]

theorem assigned_succ (ih : Complete fuel) :
    Phrase.Taken .assignment 16 (Follows 7) (fuel + 1) (Parser.assigned (fuel + 1)) := by
  intro ts e h c rest hc hf hn
  unfold Parser.assigned
  cases h with
  | @assignVariable t eq v ts id ht heq h =>
    have htarget : Derives (.level .or) [t] (.variable ⟨id, t.toName⟩) :=
      .or_of_call (by simpa using Derives.call (.name id ht) .suffixesEnd)
    simp only [List.length_cons] at hn
    refine (ih.level .or htarget c (eq :: (ts ++ rest)) hc (.cons (by rw [heq]; decide))
      (by simp only [Level.rank, List.length_singleton]; omega)).bind fun target c₁ hv h₁ => ?_
    refine .step (.acceptEquals_some h₁ heq) fun c₂ h₂ => ?_
    refine (ih.assigned h c₂ rest h₂ hf (by omega)).bind fun value c₃ hv' h₃ => ?_
    exact .assignVariable id h₃ hv hv'
  | @assignProperty d t eq object v ts₁ ts₂ hd ht heq h₁ h₂ =>
    have htarget : Derives (.level .or) (ts₁ ++ [d, t]) (.get object t.toName) :=
      .or_of_call (h₁.call_get hd ht)
    simp only [List.length_append, List.length_cons] at hn
    refine (ih.level .or htarget c (eq :: (ts₂ ++ rest)) (by simpa using hc)
      (.cons (by rw [heq]; decide)) (by simp [Level.rank]; omega)).bind fun target c₁ hv h₁ => ?_
    refine .step (.acceptEquals_some h₁ heq) fun c₂ hc₂ => ?_
    refine (ih.assigned h₂ c₂ rest hc₂ hf (by omega)).bind fun value c₃ hv' h₃ => ?_
    exact .assignProperty h₃ hv hv'
  | disjunction h =>
    refine (ih.level .or h c rest hc (hf.mono (by decide)) (by simp only [Level.rank]; omega)).bind
      fun target c₁ hv h₁ => ?_
    exact .step (.acceptEquals_none h₁ (hf.kind_ne (by decide))) fun c₂ h₂ => .pure h₂ hv

theorem unary_succ (ih : Complete fuel) :
    Phrase.Taken .unary 3 (Follows 0) (fuel + 1) (Parser.unary (fuel + 1)) := by
  intro ts e h c rest hc hf hn
  unfold Parser.unary
  cases h with
  | unary ht h =>
    rw [List.length_cons] at hn
    refine .step (.acceptUnary_some hc ht) fun c₁ h₁ => ?_
    refine (ih.unary h c₁ rest h₁ hf (by omega)).bind fun operand c₂ ho h₂ => .pure h₂ ?_
    simp only [Phrase.unnumbered] at ho ⊢
    simp [ho]
  | unaryCall h =>
    obtain ⟨t, us, rfl, ho⟩ := h.call_head
    refine .step (.acceptUnary_none hc ho) fun c₁ h₁ => ?_
    exact ih.call h c₁ rest h₁ hf (by omega)

theorem call_succ (ih : Complete fuel) :
    Phrase.Taken .call 2 (Follows 0) (fuel + 1) (Parser.call (fuel + 1)) := by
  intro ts e h c rest hc hf hn
  unfold Parser.call
  cases h with
  | call h₁ h₂ =>
    rw [List.append_assoc] at hc
    rw [List.length_append] at hn
    refine (ih.primary h₁ c _ hc trivial (by omega)).bind fun callee c₁ ho h₁ => ?_
    exact ih.calls ho h₂ c₁ rest h₁ hf (by omega)

theorem calls_succ (ih : Complete fuel) {object object' : Expr}
    (ho : object'.unnumbered = object.unnumbered) :
    Phrase.Taken (.suffixes object) 1 (Follows 0) (fuel + 1) (Parser.calls (fuel + 1) object') := by
  intro ts e h c rest hc hf hn
  unfold Parser.calls
  apply Takes.peek
  cases h with
  | suffixesEnd =>
    change Takes _ _ _ _ (EStateM.run _ c)
    rw [List.nil_append] at hc
    rw [hc]
    split
    · exact absurd ‹_› (hf.next_ne (by decide))
    · exact absurd ‹_› (hf.next_ne (by decide))
    · exact .pure hc ho
  | @suffixesCall _ l r es _ ts₁ ts₂ hl hr h₁ h₂ =>
    simp only [List.append_assoc, List.cons_append] at hc
    simp only [List.length_append, List.length_cons] at hn
    rw [hc, List.head?_cons, Option.map_some, hl]
    refine .step (.skip hc) fun c₁ hc₁ => ?_
    refine (ih.arguments h₁ c₁ _ hc₁ ⟨r, _, rfl, hr⟩ (by omega)).bind fun es' c₂ he hc₂ => ?_
    refine .step (.expect hc₂ hr) fun c₃ hc₃ => ?_
    exact ih.calls (by simp_all [Phrase.unnumbered]) h₂ c₃ rest hc₃ hf (by omega)
  | suffixesGet hd ht h =>
    simp only [List.length_cons] at hn
    rw [hc, List.cons_append, List.head?_cons, Option.map_some, hd]
    refine .step (.skip hc) fun c₁ hc₁ => ?_
    refine .step (.expectName hc₁ ht) fun c₂ hc₂ => ?_
    exact ih.calls (by simp [ho]) h c₂ rest hc₂ hf (by omega)

theorem arguments_succ (ih : Complete fuel) :
    Phrase.Taken .arguments 19 (Before (.symbol .rightParen)) (fuel + 1)
      (Parser.arguments (fuel + 1)) := by
  intro ts es h c rest hc hf hn
  unfold Parser.arguments
  refine .step .nextIs fun c₁ h₁ => ?_
  cases h with
  | noArguments =>
    obtain ⟨r, us, rfl, hr⟩ := hf
    simp only [hc, List.nil_append, List.head?_cons, Option.map_some, hr, decide_true, ↓reduceIte]
    exact .pure (h₁.trans hc) rfl
  | arguments hm h =>
    obtain ⟨t, us, rfl, ho, -⟩ := h.opens.cons_of
    have hne : (c.tokens.head?.map Token.kind = some (.symbol .rightParen)) = False := by
      rw [hc]
      simp only [List.cons_append, List.head?_cons, Option.map_some, Option.some.injEq, eq_iff_iff,
        iff_false]
      intro hk
      rw [hk] at ho
      cases ho
    simp only [hne, decide_false, Bool.false_eq_true, ↓reduceIte]
    exact ih.argumentList h (by simpa using hm) c₁ (h₁.trans hc) hf (by omega)

theorem argumentList_succ (ih : Complete fuel) {count : Nat} {ts rest : List Token}
    {es : List Expr} (h : Derives .argumentList ts es) (hm : count + es.length ≤ maxArity)
    (c : Cursor) (hc : c.tokens = ts ++ rest) (hf : Before (.symbol .rightParen) rest)
    (hn : 32 * ts.length + 18 ≤ fuel + 1) :
    Takes unnumberedExprs c rest es (Parser.argumentList (fuel + 1) count c) := by
  obtain ⟨r, us, rfl, hr⟩ := hf
  unfold Parser.argumentList
  cases h with
  | lastArgument h =>
    have hm' : ¬ maxArity ≤ count := Nat.not_le.mpr hm
    simp only [hm', ↓reduceIte]
    refine (ih.ternary h c _ hc (.cons (by rw [hr]; decide)) (by omega)).bind fun e c₁ he h₁ => ?_
    refine .step (.accept_false h₁ (by rintro _ ⟨⟩; simp [hr])) fun c₂ h₂ => .pure h₂ ?_
    simp only [Phrase.unnumbered] at he
    simp [he]
  | moreArguments hk h₁ h₂ =>
    rw [List.append_assoc, List.cons_append] at hc
    rw [List.length_append, List.length_cons] at hn
    rw [List.length_cons] at hm
    have hm' : ¬ maxArity ≤ count := by omega
    simp only [hm', ↓reduceIte]
    refine (ih.ternary h₁ c _ hc (.cons (by rw [hk]; decide)) (by omega)).bind
      fun e c₁ he hc₁ => ?_
    refine .step (.accept_true hc₁ hk) fun c₂ hc₂ => ?_
    refine (ih.argumentList h₂ (by omega) c₂ hc₂ ⟨r, us, rfl, hr⟩ (by omega)).bind
      fun es' c₃ hes h₃ => .pure h₃ ?_
    simp only [Phrase.unnumbered] at he
    simp [he, hes]

theorem primary_succ (ih : Complete fuel) :
    Phrase.Taken .primary 1 (fun _ => True) (fuel + 1) (Parser.primary (fuel + 1)) := by
  intro ts e h c rest hc _ hn
  unfold Parser.primary
  apply Takes.look
  cases h with
  | falseLiteral ht | trueLiteral ht | nilLiteral ht | numberLiteral ht | stringLiteral ht =>
    rw [List.singleton_append] at hc
    simp only [hc, ht]
    exact .step (.skip hc) fun c₁ h₁ => .pure h₁ rfl
  | this id ht =>
    rw [List.singleton_append] at hc
    simp only [hc, ht]
    refine .step (.skip hc) fun c₁ h₁ => ?_
    exact (Takes.freshId h₁ id).bind fun n c₂ _ h₂ => .pure h₂ rfl
  | name id ht =>
    rw [List.singleton_append] at hc
    simp only [hc, ht]
    refine .step (.skip hc) fun c₁ h₁ => ?_
    refine (Takes.occurrence h₁ id).bind fun o c₂ ho h₂ => .pure h₂ ?_
    simp [Phrase.unnumbered, ho, Token.toName]
  | super id ht hd hm =>
    simp only [List.cons_append, List.nil_append] at hc
    simp only [hc, ht]
    refine .step (.skip hc) fun c₁ h₁ => ?_
    refine .step (.expect h₁ hd) fun c₂ h₂ => ?_
    refine .step (.expectName h₂ hm) fun c₃ h₃ => ?_
    exact (Takes.freshId h₃ id).bind fun n c₄ _ h₄ => .pure h₄ rfl
  | group hl hr h =>
    simp only [List.cons_append, List.append_assoc, List.nil_append] at hc
    simp only [List.length_append, List.length_cons] at hn
    simp only [hc, hl]
    refine .step (.skip hc) fun c₁ h₁ => ?_
    exact ih.group h hr c₁ h₁ (by omega)
  | lambda ht hl h =>
    simp only [List.cons_append] at hc
    simp only [List.length_cons] at hn
    simp only [hc, ht]
    refine .step (.skip hc) fun c₁ h₁ => ?_
    exact ih.lambda h hl c₁ h₁ (by omega)

theorem group_succ (ih : Complete fuel) {ts rest : List Token} {r : Token} {e : Expr}
    (h : Derives .expression ts e) (hr : r.kind = .symbol .rightParen) (c : Cursor)
    (hc : c.tokens = ts ++ r :: rest) (hn : 32 * ts.length + 21 ≤ fuel + 1) :
    Takes Expr.unnumbered c rest (.group e) (Parser.group (fuel + 1) c) := by
  unfold Parser.group
  refine (ih.expression h c _ hc (.cons (by rw [hr]; decide)) (by omega)).bind
    fun inner c₁ hi h₁ => ?_
  refine .step (.expect h₁ hr) fun c₂ h₂ => .pure h₂ ?_
  simp only [Phrase.unnumbered] at hi
  simp [hi]

theorem lambda_succ (ih : Complete fuel) {line : Nat} {l : Token} {ts rest : List Token}
    {parameters : List Name} {body : List Stmt} (h : Derives .functionRest ts (parameters, body))
    (hl : l.kind = .symbol .leftParen) (c : Cursor) (hc : c.tokens = l :: ts ++ rest)
    (hn : 32 * ts.length + 3 ≤ fuel + 1) :
    Takes Expr.unnumbered c rest (.lambda ⟨none, parameters, body, line⟩)
      (Parser.lambda (fuel + 1) line c) := by
  unfold Parser.lambda
  refine .step (.expect hc hl) fun c₁ h₁ => ?_
  refine (ih.functionRest h c₁ h₁ (by omega)).bind fun f c₂ hf h₂ => .pure h₂ ?_
  rw [Expr.unnumbered, hf, Expr.unnumbered]

end Complete

end LoxLang
