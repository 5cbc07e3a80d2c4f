import LoxLang.Proofs.Grammar.Reading

/-!
What a parser reads is derived by the grammar. With enough fuel for the tokens, every parser
reads: it ends, and unless it records an error, the tokens it takes are derived as the tree it
gives, whose occurrences have numbers of their own.
-/

namespace LoxLang

namespace Phrase

/-- The numbers in a tree of a phrase. -/
def ids : (p : Phrase) → p.Tree → List Nat
  | .level _, e | .operand _, e | .tail _ _, e | .ternary, e | .assignment, e | .unary, e
  | .call, e | .suffixes _, e | .primary, e => Expr.ids e
  | .argumentList, es | .arguments, es => exprsIds es
  | .nameList, _ | .parameters, _ => []
  | .functionRest, (_, body) => stmtsIds body
  | .function, f | .getter, f => Function.ids f
  | .members, (methods, getters) => functionsIds methods ++ functionsIds getters
  | .block, ss | .declarations, ss => stmtsIds ss
  | .declaration, s | .variable, s | .statement _, s => Stmt.ids s
  | .optional, none => []
  | .optional, some e => Expr.ids e
  | .start, none => []
  | .start, some s => Stmt.ids s

/-- A tree that the tokens of a phrase have, with the numbers between two cursors. -/
def Read (p : Phrase) (ts : List Token) (c : Cursor) (a : p.Tree) (c' : Cursor) : Prop :=
  Derives p ts a ∧ Numbered c.nextId (p.ids a) c'.nextId

/-- A tree of a part that goes on with numbers behind those of `left`. -/
def ReadBehind (p : Phrase) (left : List Nat) (ts : List Token) (c : Cursor) (a : p.Tree)
    (c' : Cursor) : Prop :=
  Derives p ts a ∧ ∀ first, Numbered first left c.nextId → Numbered first (p.ids a) c'.nextId

/-- A statement, in front of no `else` if it is dangling. -/
def ReadStatement (ts : List Token) (c : Cursor) (s : Stmt) (c' : Cursor) : Prop :=
  ∃ dangling, (dangling = true → ∀ t ∈ c'.tokens.head?, t.kind ≠ .keyword .else) ∧
    Read (.statement dangling) ts c s c'

theorem Read.earlier {p : Phrase} {ts : List Token} {c c₁ c' : Cursor} {a : p.Tree}
    (h : Read p ts c₁ a c') (hi : c₁.nextId = c.nextId) : Read p ts c a c' :=
  ⟨h.1, hi ▸ h.2⟩

theorem ReadStatement.earlier {ts : List Token} {c c₁ c' : Cursor} {s : Stmt}
    (h : ReadStatement ts c₁ s c') (hi : c₁.nextId = c.nextId) : ReadStatement ts c s c' :=
  have ⟨dangling, hd, h⟩ := h
  ⟨dangling, hd, h.earlier hi⟩

end Phrase

/-- The fuel that an operand of a level needs beside the fuel for its tokens. -/
def Level.rank : Level → Nat
  | .comma => 18
  | .or => 14
  | .and => 12
  | .equality => 10
  | .comparison => 8
  | .term => 6
  | .factor => 4

theorem Level.rank_bounds (l : Level) : 4 ≤ l.rank ∧ l.rank ≤ 18 := by
  cases l <;> decide

open Phrase in
/-- Every parser reads its phrase, where this much fuel is enough for its tokens. -/
structure Sound (fuel : Nat) : Prop where
  level (l : Level) (c : Cursor) (hn : 32 * c.tokens.length + (l.rank + 1) ≤ fuel) :
    Reads (fun _ => 1) (Read (.level l)) c (Parser.level fuel l c)
  operand (l : Level) (c : Cursor) (hn : 32 * c.tokens.length + l.rank ≤ fuel) :
    Reads (fun _ => 1) (Read (.operand l)) c (Parser.operand fuel l c)
  chain (l : Level) (left : Expr) (c : Cursor) (hn : 32 * c.tokens.length + 1 ≤ fuel) :
    Reads (fun _ => 0) (ReadBehind (.tail l left) left.ids) c (Parser.chain fuel l left c)
  expression (c : Cursor) (hn : 32 * c.tokens.length + 20 ≤ fuel) :
    Reads (fun _ => 1) (Read .expression) c (Parser.expression fuel c)
  ternary (c : Cursor) (hn : 32 * c.tokens.length + 17 ≤ fuel) :
    Reads (fun _ => 1) (Read .ternary) c (Parser.ternary fuel c)
  assigned (c : Cursor) (hn : 32 * c.tokens.length + 16 ≤ fuel) :
    Reads (fun _ => 1) (Read .assignment) c (Parser.assigned fuel c)
  unary (c : Cursor) (hn : 32 * c.tokens.length + 3 ≤ fuel) :
    Reads (fun _ => 1) (Read .unary) c (Parser.unary fuel c)
  call (c : Cursor) (hn : 32 * c.tokens.length + 2 ≤ fuel) :
    Reads (fun _ => 1) (Read .call) c (Parser.call fuel c)
  calls (object : Expr) (c : Cursor) (hn : 32 * c.tokens.length + 1 ≤ fuel) :
    Reads (fun _ => 0) (ReadBehind (.suffixes object) object.ids) c (Parser.calls fuel object c)
  arguments (c : Cursor) (hn : 32 * c.tokens.length + 19 ≤ fuel) :
    Reads (fun _ => 0) (Read .arguments) c (Parser.arguments fuel c)
  argumentList (count : Nat) (c : Cursor) (hn : 32 * c.tokens.length + 18 ≤ fuel) :
    Reads (fun _ => 0) (fun ts c es c' => count + es.length ≤ maxArity ∧
      Read .argumentList ts c es c') c (Parser.argumentList fuel count c)
  primary (c : Cursor) (hn : 32 * c.tokens.length + 1 ≤ fuel) :
    Reads (fun _ => 1) (Read .primary) c (Parser.primary fuel c)
  group (c : Cursor) (hn : 32 * c.tokens.length + 21 ≤ fuel) :
    Reads (fun _ => 0) (fun ts c e c' => ∀ l : Token, l.kind = .symbol .leftParen →
      Read .primary (l :: ts) c e c') c (Parser.group fuel c)
  lambda (line : Nat) (c : Cursor) (hn : 32 * c.tokens.length + 1 ≤ fuel) :
    Reads (fun _ => 0) (fun ts c e c' => ∀ t : Token, t.kind = .keyword .fun → t.line = line →
      Read .primary (t :: ts) c e c') c (Parser.lambda fuel line c)
  functionRest (name? : Option Name) (line : Nat) (sort : FunctionSort) (c : Cursor)
      (hn : 32 * c.tokens.length + 2 ≤ fuel) :
    Reads (fun _ => 0) (fun ts c f c' => ∃ parameters body, f = ⟨name?, parameters, body, line⟩ ∧
      Read .functionRest ts c (parameters, body) c') c
      (Parser.functionRest fuel name? line sort c)
  block (c : Cursor) (hn : 32 * c.tokens.length + 26 ≤ fuel) :
    Reads (fun _ => 0) (fun ts c body c' => ∀ l : Token, l.kind = .symbol .leftBrace →
      Read .block (l :: ts) c body c') c (Parser.block fuel c)
  declarations (read : List Stmt) (c : Cursor) (hn : 32 * c.tokens.length + 25 ≤ fuel) :
    Reads (fun _ => 0) (fun ts c ss c' => ∃ more, ss = read.reverse ++ more ∧
      Read .declarations ts c more c') c (Parser.declarations fuel read c)
  declaration (c : Cursor) (hc : c.tokens ≠ []) (hn : 32 * c.tokens.length + 24 ≤ fuel) :
    Reads (fun _ => 1) (fun ts c r c' => ∃ s, r = some s ∧ Read .declaration ts c s c') c
      (Parser.declaration fuel c)
  declared (c : Cursor) (hn : 32 * c.tokens.length + 23 ≤ fuel) :
    Reads (fun _ => 1) (Read .declaration) c (Parser.declared fuel c)
  classDeclaration (c : Cursor) (hn : 32 * c.tokens.length + 1 ≤ fuel) :
    Reads (fun _ => 0) (fun ts c s c' => ∀ t : Token, t.kind = .keyword .class →
      Read .declaration (t :: ts) c s c') c (Parser.classDeclaration fuel c)
  members (methods getters : List Function) (c : Cursor) (hn : 32 * c.tokens.length + 2 ≤ fuel) :
    Reads (fun _ => 0) (fun ts c r c' => ∃ ms gs,
      r = (methods.reverse ++ ms, getters.reverse ++ gs) ∧ Read .members ts c (ms, gs) c') c
      (Parser.members fuel methods getters c)
  function (sort : FunctionSort) (c : Cursor) (hn : 32 * c.tokens.length + 1 ≤ fuel) :
    Reads (fun _ => 1) (Read .function) c (Parser.function fuel sort c)
  getter (c : Cursor) (hn : 32 * c.tokens.length + 1 ≤ fuel) :
    Reads (fun _ => 1) (Read .getter) c (Parser.getter fuel c)
  varDeclaration (c : Cursor) (hn : 32 * c.tokens.length + 1 ≤ fuel) :
    Reads (fun _ => 0) (Read .variable) c (Parser.varDeclaration fuel c)
  initializer (c : Cursor) (hn : 32 * c.tokens.length + 21 ≤ fuel) :
    Reads (fun _ => 0) (fun ts c r c' => match r with
      | none => ts = [] ∧ c'.nextId = c.nextId
      | some e => ∃ eq us, ts = eq :: us ∧ eq.kind = .symbol .equal ∧ Read .expression us c e c') c
      (Parser.initializer fuel c)
  statement (c : Cursor) (hn : 32 * c.tokens.length + 22 ≤ fuel) :
    Reads (fun _ => 1) ReadStatement c (Parser.statement fuel c)
  expressionStatement (c : Cursor) (hn : 32 * c.tokens.length + 21 ≤ fuel) :
    Reads (fun _ => 1) (fun ts c s c' => ∃ e us r, s = .expression e ∧ ts = us ++ [r] ∧
      r.kind = .symbol .semicolon ∧ Read .expression us c e c') c
      (Parser.expressionStatement fuel c)
  printStatement (c : Cursor) (hn : 32 * c.tokens.length + 21 ≤ fuel) :
    Reads (fun _ => 0) (fun ts c s c' => ∀ t : Token, t.kind = .keyword .print →
      Read (.statement false) (t :: ts) c s c') c (Parser.printStatement fuel c)
  returnStatement (line : Nat) (c : Cursor) (hn : 32 * c.tokens.length + 22 ≤ fuel) :
    Reads (fun _ => 0) (fun ts c s c' => ∀ t : Token, t.kind = .keyword .return → t.line = line →
      Read (.statement false) (t :: ts) c s c') c (Parser.returnStatement fuel line c)
  unlessNext (s : Symbol) (c : Cursor) (hn : 32 * c.tokens.length + 21 ≤ fuel) :
    Reads (fun _ => 0) (Read .optional) c (Parser.unlessNext fuel s c)
  whileStatement (c : Cursor) (hn : 32 * c.tokens.length + 1 ≤ fuel) :
    Reads (fun _ => 0) (fun ts c s c' => ∀ t : Token, t.kind = .keyword .while →
      ReadStatement (t :: ts) c s c') c (Parser.whileStatement fuel c)
  ifStatement (c : Cursor) (hn : 32 * c.tokens.length + 1 ≤ fuel) :
    Reads (fun _ => 0) (fun ts c s c' => ∀ t : Token, t.kind = .keyword .if →
      ReadStatement (t :: ts) c s c') c (Parser.ifStatement fuel c)
  forStatement (c : Cursor) (hn : 32 * c.tokens.length + 1 ≤ fuel) :
    Reads (fun _ => 0) (fun ts c s c' => ∀ t : Token, t.kind = .keyword .for →
      ReadStatement (t :: ts) c s c') c (Parser.forStatement fuel c)
  forStart (c : Cursor) (hn : 32 * c.tokens.length + 22 ≤ fuel) :
    Reads (fun _ => 0) (Read .start) c (Parser.forStart fuel c)

namespace Sound

variable {fuel : Nat} {c : Cursor}

theorem level_succ (ih : Sound fuel) (l : Level)
    (hn : 32 * c.tokens.length + (l.rank + 1) ≤ fuel + 1) :
    Reads (fun _ => 1) (Phrase.Read (.level l)) c (Parser.level (fuel + 1) l c) := by
  unfold Parser.level
  refine (ih.operand l c (by omega)).bind fun first c₁ h₁ => ?_
  refine (ih.chain l first c₁ (by omega)).weaken (by simp) ?_
  rintro ts e c₂ ⟨he, hi⟩ ts₁ ⟨hf, hj⟩
  exact ⟨.level hf he, hi _ hj⟩

theorem operand_succ (ih : Sound fuel) (l : Level)
    (hn : 32 * c.tokens.length + l.rank ≤ fuel + 1) :
    Reads (fun _ => 1) (Phrase.Read (.operand l)) c (Parser.operand (fuel + 1) l c) := by
  unfold Parser.operand
  cases l with
  | comma =>
    refine (ih.ternary c (by simp only [Level.rank] at hn; omega)).weaken (by simp) ?_
    exact fun _ _ _ h => ⟨.commaOperand h.1, h.2⟩
  | or =>
    refine (ih.level .and c (by simp only [Level.rank] at hn ⊢; omega)).weaken (by simp) ?_
    exact fun _ _ _ h => ⟨.orOperand h.1, h.2⟩
  | and =>
    refine (ih.level .equality c (by simp only [Level.rank] at hn ⊢; omega)).weaken (by simp) ?_
    exact fun _ _ _ h => ⟨.andOperand h.1, h.2⟩
  | equality =>
    refine (ih.level .comparison c (by simp only [Level.rank] at hn ⊢; omega)).weaken (by simp) ?_
    exact fun _ _ _ h => ⟨.equalityOperand h.1, h.2⟩
  | comparison =>
    refine (ih.level .term c (by simp only [Level.rank] at hn ⊢; omega)).weaken (by simp) ?_
    exact fun _ _ _ h => ⟨.comparisonOperand h.1, h.2⟩
  | term =>
    refine (ih.level .factor c (by simp only [Level.rank] at hn ⊢; omega)).weaken (by simp) ?_
    exact fun _ _ _ h => ⟨.termOperand h.1, h.2⟩
  | factor =>
    refine (ih.unary c (by simp only [Level.rank] at hn; omega)).weaken (by simp) ?_
    exact fun _ _ _ h => ⟨.factorOperand h.1, h.2⟩

private theorem ids_apply (op : Operator) (line : Nat) (left right : Expr) :
    (op.apply line left right).ids = left.ids ++ right.ids := by
  cases op <;> rfl

theorem chain_succ (ih : Sound fuel) (l : Level) (left : Expr)
    (hn : 32 * c.tokens.length + 1 ≤ fuel + 1) :
    Reads (fun _ => 0) (Phrase.ReadBehind (.tail l left) left.ids) c
      (Parser.chain (fuel + 1) l left c) := by
  unfold Parser.chain
  refine Reads.acceptOperator.bind fun r c₁ h₁ => ?_
  match r with
  | none =>
    refine .pure rfl ?_
    rintro _ ⟨hj, rfl⟩
    exact ⟨.tailEnd, fun _ h => hj ▸ h⟩
  | some (op, line) =>
    have hl := l.rank_bounds
    simp only [Option.isSome_some, ↓reduceIte] at h₁
    refine (ih.operand l c₁ (by omega)).bind fun right c₂ h₂ => ?_
    refine (ih.chain l (op.apply line left right) c₂ (by omega)).weaken (by simp) ?_
    rintro ts e c₃ ⟨he, hi⟩ ts₂ ⟨hr, hk⟩ _ ⟨hj, t, rfl, ht, rfl⟩
    refine ⟨by simpa using Derives.tailMore ht hr he, fun first h => hi first ?_⟩
    rw [ids_apply]
    exact (hj ▸ h).append hk

theorem expression_succ (ih : Sound fuel) (hn : 32 * c.tokens.length + 20 ≤ fuel + 1) :
    Reads (fun _ => 1) (Phrase.Read .expression) c (Parser.expression (fuel + 1) c) := by
  unfold Parser.expression
  exact ih.level .comma c (by simp only [Level.rank]; omega)

theorem ternary_succ (ih : Sound fuel) (hn : 32 * c.tokens.length + 17 ≤ fuel + 1) :
    Reads (fun _ => 1) (Phrase.Read .ternary) c (Parser.ternary (fuel + 1) c) := by
  unfold Parser.ternary
  refine (ih.assigned c (by omega)).bind fun condition c₁ h₁ => ?_
  refine Reads.accept.bind fun b c₂ h₂ => ?_
  cases b with
  | false =>
    refine .pure rfl ?_
    rintro _ ⟨hj, rfl, -⟩ ts₁ ⟨hc, hi⟩
    exact ⟨by simpa using Derives.assignment hc, hj ▸ hi⟩
  | true =>
    refine (ih.expression c₂ (by omega)).bind fun a c₃ h₃ => ?_
    refine Reads.expect.bind fun k c₄ h₄ => ?_
    refine (ih.ternary c₄ (by omega)).bind fun b c₅ h₅ => ?_
    refine .pure rfl ?_
    rintro ts₅ ⟨hb, hm⟩ _ ⟨hl, rfl, hk⟩ ts₃ ⟨ha, hl'⟩ _ ⟨hj, q, rfl, hq, -⟩ ts₁ ⟨hc, hi⟩
    refine ⟨by simpa using Derives.ternary hq hk hc ha hb, ?_⟩
    exact hi.append ((hj ▸ hl').append (hl ▸ hm))

theorem assigned_succ (ih : Sound fuel) (hn : 32 * c.tokens.length + 16 ≤ fuel + 1) :
    Reads (fun _ => 1) (Phrase.Read .assignment) c (Parser.assigned (fuel + 1) c) := by
  unfold Parser.assigned
  refine (ih.level .or c (by simp only [Level.rank]; omega)).bind fun target c₁ h₁ => ?_
  refine Reads.acceptEquals.bind fun r c₂ h₂ => ?_
  match r with
  | none =>
    refine .pure rfl ?_
    rintro _ ⟨hj, rfl⟩ ts₁ ⟨ht, hi⟩
    exact ⟨by simpa using Derives.disjunction ht, hj ▸ hi⟩
  | some equals =>
    refine (ih.assigned c₂ (by omega)).bind fun value c₃ h₃ => ?_
    refine Reads.assignment.weaken (fun _ => Nat.zero_le _) ?_
    rintro _ e c₄ ⟨rfl, he⟩ ts₃ ⟨hv, hk⟩ _ ⟨hj, rfl, heq⟩ ts₁ ⟨ht, hi⟩
    rcases he with ⟨o, rfl, rfl, hl⟩ | ⟨object, name, rfl, rfl, hl⟩
    · obtain ⟨t, rfl, ht, ho⟩ := ht.variable_of_or
      refine ⟨?_, ?_⟩
      · rw [ho]
        simpa using Derives.assignVariable c₃.nextId ht heq hv
      · show Numbered _ (value.ids ++ [c₃.nextId]) _
        rw [hl]
        exact (hk.widen (hj ▸ hi.le) (Nat.le_refl _)).append .single
    · obtain ⟨us, d, t, rfl, hd, hk', rfl, ho⟩ := ht.get_of_or
      exact ⟨by simpa using Derives.assignProperty hd hk' heq ho hv, hl ▸ hi.append_swap (hj ▸ hk)⟩

theorem unary_succ (ih : Sound fuel) (hn : 32 * c.tokens.length + 3 ≤ fuel + 1) :
    Reads (fun _ => 1) (Phrase.Read .unary) c (Parser.unary (fuel + 1) c) := by
  unfold Parser.unary
  refine Reads.acceptUnary.bind fun r c₁ h₁ => ?_
  match r with
  | some (op, line) =>
    simp only [Option.isSome_some, ↓reduceIte] at h₁
    refine (ih.unary c₁ (by omega)).bind fun operand c₂ h₂ => ?_
    refine .pure rfl ?_
    rintro ts₂ ⟨he, hi⟩ _ ⟨hj, t, rfl, ht, rfl⟩
    exact ⟨by simpa using Derives.unary ht he, hj ▸ hi⟩
  | none =>
    refine (ih.call c₁ (by omega)).weaken (by simp) ?_
    rintro ts₂ e c₂ ⟨he, hi⟩ _ ⟨hj, rfl⟩
    exact ⟨.unaryCall he, hj ▸ hi⟩

theorem call_succ (ih : Sound fuel) (hn : 32 * c.tokens.length + 2 ≤ fuel + 1) :
    Reads (fun _ => 1) (Phrase.Read .call) c (Parser.call (fuel + 1) c) := by
  unfold Parser.call
  refine (ih.primary c (by omega)).bind fun callee c₁ h₁ => ?_
  refine (ih.calls callee c₁ (by omega)).weaken (by simp) ?_
  rintro ts e c₂ ⟨he, hi⟩ ts₁ ⟨hf, hj⟩
  exact ⟨.call hf he, hi _ hj⟩

theorem calls_succ (ih : Sound fuel) (object : Expr)
    (hn : 32 * c.tokens.length + 1 ≤ fuel + 1) :
    Reads (fun _ => 0) (Phrase.ReadBehind (.suffixes object) object.ids) c
      (Parser.calls (fuel + 1) object c) := by
  unfold Parser.calls
  apply Reads.peek
  cases hc : c.tokens with
  | nil => exact .pure rfl ⟨.suffixesEnd, fun _ h => h⟩
  | cons t ts =>
    rw [List.head?_cons, Option.map_some]
    change Reads _ _ c (EStateM.run _ c)
    split
    · rename_i hk
      refine (Reads.skip hc).bind fun _ c₁ h₁ => ?_
      refine (ih.arguments c₁ (by omega)).bind fun es c₂ h₂ => ?_
      refine Reads.expect.bind fun r c₃ h₃ => ?_
      refine (ih.calls (.call object r.line es) c₃ (by omega)).weaken (by simp) ?_
      rintro us e c₄ ⟨he, hi⟩ _ ⟨hl, rfl, hr⟩ ts₂ ⟨hes, hk'⟩ _ ⟨rfl, hj⟩
      refine ⟨by simpa using Derives.suffixesCall (Option.some.inj hk) hr hes he, ?_⟩
      exact fun first h => hi first (hl ▸ (hj ▸ h).append hk')
    · rename_i hk
      refine (Reads.skip hc).bind fun _ c₁ h₁ => ?_
      refine (Reads.expectName rfl).bind fun name c₂ h₂ => ?_
      refine (ih.calls (.get object name) c₂ (by omega)).weaken (by simp) ?_
      rintro us e c₃ ⟨he, hi⟩ _ ⟨hk', t', rfl, ht', rfl⟩ _ ⟨rfl, hj⟩
      refine ⟨by simpa using Derives.suffixesGet (Option.some.inj hk) ht' he, ?_⟩
      exact fun first h => hi first (hk' ▸ hj ▸ h)
    · exact .pure rfl ⟨.suffixesEnd, fun _ h => h⟩

theorem arguments_succ (ih : Sound fuel) (hn : 32 * c.tokens.length + 19 ≤ fuel + 1) :
    Reads (fun _ => 0) (Phrase.Read .arguments) c (Parser.arguments (fuel + 1) c) := by
  unfold Parser.arguments
  refine Reads.nextIs.bind fun b c₁ h₁ => ?_
  cases b with
  | true =>
    refine .pure rfl ?_
    rintro _ ⟨rfl, rfl, -⟩
    exact ⟨.noArguments, .nil⟩
  | false =>
    refine (ih.argumentList 0 c₁ (by omega)).weaken (by simp) ?_
    rintro ts es c₂ ⟨hl, he, hi⟩ _ ⟨rfl, rfl, -⟩
    exact ⟨.arguments (by simpa using hl) he, hi⟩

/-- An argument and those behind it, where the argument is the last one allowed or before that. -/
theorem argument_succ (ih : Sound fuel) (c : Cursor) (count : Nat)
    (hn : 32 * c.tokens.length + 18 ≤ fuel + 1) :
    Reads (fun _ => 0) (fun ts c es c' => count < maxArity → count + es.length ≤ maxArity ∧
      Phrase.Read .argumentList ts c es c') c
      ((do
        let argument ← Parser.ternary fuel
        if ← Parser.accept (.symbol .comma) then
          return argument :: (← Parser.argumentList fuel (count + 1))
        return [argument] : Parser (List Expr)) c) := by
  refine (ih.ternary c (by omega)).bind fun e c₁ h₁ => ?_
  refine Reads.accept.bind fun b c₂ h₂ => ?_
  cases b with
  | false =>
    refine .pure rfl ?_
    rintro _ ⟨hj, rfl, -⟩ ts₁ ⟨he, hi⟩ hc
    exact ⟨hc, by simpa using Derives.lastArgument he, by simpa [Phrase.ids] using hj ▸ hi⟩
  | true =>
    refine (ih.argumentList (count + 1) c₂ (by omega)).bind fun es c₃ h₃ => ?_
    refine .pure rfl ?_
    rintro ts₃ ⟨hl, hes, hk⟩ _ ⟨hj, t, rfl, ht, -⟩ ts₁ ⟨he, hi⟩ hc
    refine ⟨by simpa [Nat.add_assoc, Nat.add_comm 1] using hl, ?_, hi.append (hj ▸ hk)⟩
    simpa using Derives.moreArguments ht he hes

theorem argumentList_succ (ih : Sound fuel) (count : Nat)
    (hn : 32 * c.tokens.length + 18 ≤ fuel + 1) :
    Reads (fun _ => 0) (fun ts c es c' => count + es.length ≤ maxArity ∧
      Phrase.Read .argumentList ts c es c') c (Parser.argumentList (fuel + 1) count c) := by
  unfold Parser.argumentList
  by_cases hm : maxArity ≤ count
  · simp only [hm, ↓reduceIte]
    apply Reads.reportHere
    refine Reads.weaken (argument_succ ih _ count ?_) (by simp) fun _ _ _ _ => trivial
    exact hn
  · simp only [hm, ↓reduceIte]
    exact (argument_succ ih c count hn).weaken (by simp) fun _ _ _ h => h (by omega)

private theorem literal_read {t : Token} {ts : List Token} {v : Literal} (hc : c.tokens = t :: ts)
    (h : Derives .primary [t] (.literal v)) :
    Reads (fun _ => 1) (Phrase.Read .primary) c
      ((do Parser.skip; return .literal v : Parser Expr) c) := by
  refine (Reads.skip hc).bind fun _ c₁ _ => .pure rfl ?_
  rintro _ ⟨rfl, hj⟩
  exact ⟨h, hj ▸ .nil⟩

theorem primary_succ (ih : Sound fuel) (hn : 32 * c.tokens.length + 1 ≤ fuel + 1) :
    Reads (fun _ => 1) (Phrase.Read .primary) c (Parser.primary (fuel + 1) c) := by
  unfold Parser.primary
  apply Reads.look
  cases hc : c.tokens with
  | nil => exact .failHere
  | cons t ts =>
    change Reads _ _ c (EStateM.run _ c)
    split
    · exact literal_read hc (.falseLiteral ‹_›)
    · exact literal_read hc (.trueLiteral ‹_›)
    · exact literal_read hc (.nilLiteral ‹_›)
    · exact literal_read hc (.numberLiteral ‹_›)
    · exact literal_read hc (.stringLiteral ‹_›)
    · rename_i ht
      refine (Reads.skip hc).bind fun _ c₁ h₁ => ?_
      refine Reads.expect.bind fun d c₂ h₂ => ?_
      refine (Reads.expectName rfl).bind fun m c₃ h₃ => ?_
      refine Reads.freshId.bind fun id c₄ h₄ => .pure rfl ?_
      rintro _ ⟨rfl, rfl, hl⟩ _ ⟨hk, m, rfl, hm, rfl⟩ _ ⟨hj, rfl, hd⟩ _ ⟨rfl, hi⟩
      refine ⟨.super _ ht hd hm, ?_⟩
      rw [hl, ← hi, ← hj, ← hk]
      exact .single
    · rename_i ht
      refine (Reads.skip hc).bind fun _ c₁ h₁ => ?_
      refine Reads.freshId.bind fun id c₂ h₂ => .pure rfl ?_
      rintro _ ⟨rfl, rfl, hj⟩ _ ⟨rfl, hi⟩
      refine ⟨.this _ ht, ?_⟩
      rw [hj, ← hi]
      exact .single
    · rename_i ht
      refine (Reads.skip hc).bind fun _ c₁ h₁ => ?_
      refine Reads.occurrence.bind fun o c₂ h₂ => .pure rfl ?_
      rintro _ ⟨rfl, rfl, hj⟩ _ ⟨rfl, hi⟩
      refine ⟨.name _ ht, ?_⟩
      rw [hj, ← hi]
      exact .single
    · rename_i ht
      refine (Reads.skip hc).bind fun _ c₁ h₁ => ?_
      refine (ih.group c₁ (by omega)).weaken (by simp) ?_
      rintro us e c₂ h _ ⟨rfl, hi⟩
      exact (h t ht).earlier hi
    · rename_i ht
      refine (Reads.skip hc).bind fun _ c₁ h₁ => ?_
      refine (ih.lambda t.line c₁ (by omega)).weaken (by simp) ?_
      rintro us e c₂ h _ ⟨rfl, hi⟩
      exact (h t ht rfl).earlier hi
    · exact .failHere

theorem group_succ (ih : Sound fuel) (hn : 32 * c.tokens.length + 21 ≤ fuel + 1) :
    Reads (fun _ => 0) (fun ts c e c' => ∀ l : Token, l.kind = .symbol .leftParen →
      Phrase.Read .primary (l :: ts) c e c') c (Parser.group (fuel + 1) c) := by
  unfold Parser.group
  refine (ih.expression c (by omega)).bind fun inner c₁ h₁ => ?_
  refine Reads.expect.bind fun r c₂ h₂ => .pure rfl ?_
  rintro _ ⟨hj, rfl, hr⟩ ts₁ ⟨he, hi⟩ l hl
  exact ⟨by simpa using Derives.group hl hr he, hj ▸ hi⟩

theorem lambda_succ (ih : Sound fuel) (line : Nat)
    (hn : 32 * c.tokens.length + 1 ≤ fuel + 1) :
    Reads (fun _ => 0) (fun ts c e c' => ∀ t : Token, t.kind = .keyword .fun → t.line = line →
      Phrase.Read .primary (t :: ts) c e c') c (Parser.lambda (fuel + 1) line c) := by
  unfold Parser.lambda
  refine Reads.expect.bind fun l c₁ h₁ => ?_
  refine (ih.functionRest none line .function c₁ (by omega)).bind fun f c₂ h₂ => .pure rfl ?_
  rintro ts₂ ⟨parameters, body, rfl, hf, hi⟩ _ ⟨hj, rfl, hl⟩ t ht rfl
  exact ⟨by simpa using Derives.lambda ht hl hf, hj ▸ hi⟩

end Sound

end LoxLang
