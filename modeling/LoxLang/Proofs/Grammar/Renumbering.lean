import LoxLang.Grammar.Parse
import LoxLang.Proofs.Likeness.Lockstep
import LoxLang.Program

/-!
Reading like tokens. The tree that comes of it, or the errors, are alike too: a parser asks of a
token only its kind, puts lexeme and line where it found them, and numbers occurrences in order.
-/

namespace LoxLang

structure Token.Like (line : Nat → Nat → Prop) (t t' : Token) : Prop where
  kind : t'.kind = t.kind
  lexeme : t'.lexeme = t.lexeme
  line : line t.line t'.line

theorem Token.forall₂_like {line : Nat → Nat → Prop} (h : ∀ n, line n n) (ts : List Token) :
    List.Forall₂ (Token.Like line) ts ts :=
  List.forall₂_same.mpr fun _ _ => ⟨rfl, rfl, h _⟩

/-- Scans with like tokens and like faults. -/
structure Scan.Like (line : Nat → Nat → Prop) (s s' : Scan) : Prop where
  tokens : List.Forall₂ (Token.Like line) s.tokens s'.tokens
  errors : List.Forall₂ (Diagnostic.Like line) s.errors s'.errors
  endLine : line s.endLine s'.endLine

theorem Scan.Like.refl {line : Nat → Nat → Prop} (h : ∀ n, line n n) (s : Scan) : s.Like line s :=
  ⟨Token.forall₂_like h s.tokens, List.forall₂_same.mpr fun d _ => .refl h d, h s.endLine⟩

/-- Cursors before like tokens, with like errors. -/
structure Cursor.Like (L : Likeness) (c c' : Cursor) : Prop where
  tokens : List.Forall₂ (Token.Like L.line) c.tokens c'.tokens
  endLine : L.line c.endLine c'.endLine
  nextId : L.occurrence c.nextId c'.nextId
  errors : List.Forall₂ (Diagnostic.LikeIn .parsing L.line) c.errors c'.errors

/-- Parsers that do the same with like tokens. -/
abbrev Parser.Lockstep (L : Likeness) {α β : Type} (V : α → β → Prop) (p : Parser α)
    (q : Parser β) : Prop :=
  Fueled.Lockstep (Diagnostic.LikeIn .parsing L.line) (Cursor.Like L) V p q

variable {L : Likeness} {c c' : Cursor}

namespace Cursor.Like

theorem diagnostic (h : c.Like L c') (error : GrammarError) :
    (c.diagnostic error).LikeIn .parsing L.line (c'.diagnostic error) := by
  obtain ⟨ts, endLine, nextId, errors⟩ := c
  obtain ⟨ts', endLine', nextId', errors'⟩ := c'
  cases h.tokens with
  | nil => exact ⟨.grammar h.endLine, rfl⟩
  | @cons t t' _ _ ht _ =>
    simp only [Cursor.diagnostic, ht.lexeme]
    exact ⟨.grammar ht.line, rfl⟩

/-- The next tokens are of the same kind. -/
theorem peek (h : c.Like L c') :
    c'.tokens.head?.map Token.kind = c.tokens.head?.map Token.kind := by
  obtain ⟨ts, endLine, nextId, errors⟩ := c
  obtain ⟨ts', endLine', nextId', errors'⟩ := c'
  cases h.tokens with
  | nil => rfl
  | cons ht _ => simp [ht.kind]

theorem tail (h : c.Like L c') : Like L { c with tokens := c.tokens.tail }
    { c' with tokens := c'.tokens.tail } := by
  refine { h with tokens := ?_ }
  obtain ⟨ts, endLine, nextId, errors⟩ := c
  obtain ⟨ts', endLine', nextId', errors'⟩ := c'
  cases h.tokens with
  | nil => exact .nil
  | cons _ hts => exact hts

theorem report (h : c.Like L c') {d d' : Diagnostic} (hd : d.LikeIn .parsing L.line d') :
    Like L { c with errors := d :: c.errors } { c' with errors := d' :: c'.errors } :=
  { h with errors := .cons hd h.errors }

theorem boundaryAfter {t t' : Token} {ts ts' : List Token} (ht : t'.kind = t.kind)
    (h : List.Forall₂ (Token.Like L.line) ts ts') :
    List.Forall₂ (Token.Like L.line) (Cursor.boundaryAfter t ts)
      (Cursor.boundaryAfter t' ts') := by
  induction h generalizing t t' with
  | nil => exact .nil
  | cons hu hus ih =>
    unfold Cursor.boundaryAfter
    rw [ht, hu.kind]
    split
    · exact .cons hu hus
    · exact ih hu.kind

theorem skipToBoundary {ts ts' : List Token} (h : List.Forall₂ (Token.Like L.line) ts ts') :
    List.Forall₂ (Token.Like L.line) (Cursor.skipToBoundary ts)
      (Cursor.skipToBoundary ts') := by
  cases h with
  | nil => exact .nil
  | cons ht hts => exact boundaryAfter ht.kind hts

end Cursor.Like

namespace Parser

variable {α β : Type} {V : α → β → Prop}

/-- What comes next may hang on the kind of the next token. -/
theorem peek_lockstep {f : Option Kind → Parser α} {g : Option Kind → Parser β}
    (h : ∀ kind?, Lockstep L V (f kind?) (g kind?)) :
    Lockstep L V (peek? >>= f) (peek? >>= g) := by
  intro c c' hc
  show Fueled.EndAlike (Diagnostic.LikeIn .parsing L.line) (Cursor.Like L) V
    (f (c.tokens.head?.map Token.kind) c) (g (c'.tokens.head?.map Token.kind) c')
  rw [hc.peek]
  exact h _ c c' hc

/-- What comes next may hang on the next token, whose lexeme and line may be kept. -/
theorem look_lockstep {f : Cursor → Parser α} {g : Cursor → Parser β}
    (hnil : ∀ c c', c.tokens = [] → c'.tokens = [] → Lockstep L V (f c) (g c'))
    (hcons : ∀ c c' t t' ts ts', c.tokens = t :: ts → c'.tokens = t' :: ts' →
      t.Like L.line t' → List.Forall₂ (Token.Like L.line) ts ts' → Lockstep L V (f c) (g c')) :
    Lockstep L V (get >>= f) (get >>= g) := by
  intro c c' hc
  rw [Fueled.bind_get, Fueled.bind_get]
  have hts := hc.tokens
  cases hts' : c.tokens with
  | nil =>
    rw [hts'] at hts
    exact hnil c c' hts' (List.forall₂_nil_left_iff.mp hts) c c' hc
  | cons t ts =>
    rw [hts'] at hts
    obtain ⟨t', ts', ht, hts, hc'⟩ := List.forall₂_cons_left_iff.mp hts
    exact hcons c c' t t' ts ts' hts' hc' ht hts c c' hc

theorem skip_lockstep : Lockstep L (fun _ _ => True) skip skip :=
  .modify fun _ _ => Cursor.Like.tail

theorem nextIs_lockstep (kind : Kind) : Lockstep L Eq (nextIs kind) (nextIs kind) := by
  refine look_lockstep (fun c c' hc hc' => ?_) fun c c' t t' ts ts' hc hc' ht _ => ?_
  · rw [hc, hc']
    exact .pure rfl
  · rw [hc, hc']
    exact .pure (congrArg (fun k => decide (k = kind)) ht.kind.symm)

theorem accept_lockstep (kind : Kind) : Lockstep L Eq (accept kind) (accept kind) := by
  refine (nextIs_lockstep kind).bind fun b _ hb => ?_
  subst hb
  cases b with
  | false => exact .pure rfl
  | true => exact skip_lockstep.bind fun _ _ _ => .pure rfl

theorem failHere_lockstep (error : GrammarError) :
    Lockstep L V (failHere error) (failHere error) :=
  Fueled.Lockstep.get.bind fun _ _ hc => .fail (hc.diagnostic error)

theorem report_lockstep {d d' : Diagnostic} (h : d.LikeIn .parsing L.line d') :
    Lockstep L (fun _ _ => True) (report d) (report d') :=
  .modify fun _ _ hc => hc.report h

theorem reportHere_lockstep (error : GrammarError) :
    Lockstep L (fun _ _ => True) (reportHere error) (reportHere error) :=
  Fueled.Lockstep.get.bind fun _ _ hc => report_lockstep (hc.diagnostic error)

theorem expect_lockstep (what : Expectation) :
    Lockstep L (Token.Like L.line) (expect what) (expect what) := by
  refine look_lockstep (fun c c' hc hc' => ?_) fun c c' t t' ts ts' hc hc' ht hts => ?_
  · rw [hc, hc']
    exact failHere_lockstep _
  · rw [hc, hc']
    simp only [ht.kind]
    split
    · exact (Fueled.Lockstep.modify fun _ _ h => { h with tokens := hts }).bind
        fun _ _ _ => .pure ht
    · exact failHere_lockstep _

theorem expectName_lockstep (what : Expectation) :
    Lockstep L (Name.Like L) (expectName what) (expectName what) :=
  (expect_lockstep what).bind fun _ _ ht => .pure ⟨ht.lexeme, ht.line⟩

section

variable (hL : L.Counts)
include hL

theorem freshId_lockstep : Lockstep L L.occurrence freshId freshId :=
  .step fun _ _ hc => ⟨hc.nextId, { hc with nextId := hL.next _ _ hc.nextId }⟩

theorem occurrence_lockstep {name name' : Name} (h : name.Like L name') :
    Lockstep L (Occurrence.Like L) (occurrence name) (occurrence name') :=
  (freshId_lockstep hL).bind fun _ _ hid => .pure ⟨hid, h⟩

theorem superMethod_lockstep {line line' : Nat} (h : L.line line line') :
    Lockstep L (Expr.Like L) (superMethod line) (superMethod line') :=
  (expect_lockstep _).bind fun _ _ _ => (expectName_lockstep _).bind fun _ _ hn =>
    (freshId_lockstep hL).bind fun _ _ hid => .pure ⟨_, _, _, rfl, hid, h, hn⟩

theorem superclassReference_lockstep :
    Lockstep L (Option.Rel (Occurrence.Like L)) superclassReference superclassReference := by
  refine (accept_lockstep _).bind fun b _ hb => ?_
  subst hb
  cases b with
  | false => exact .pure .none
  | true =>
    exact (expectName_lockstep _).bind fun _ _ hn =>
      (occurrence_lockstep hL hn).bind fun _ _ ho => .pure (.some ho)

theorem assignment_lockstep {equals equals' : Token} {target target' value value' : Expr}
    (he : equals.Like L.line equals') (ht : target.Like L target') (hv : value.Like L value') :
    Lockstep L (Expr.Like L) (assignment equals target value)
      (assignment equals' target' value') := by
  have refused (target target' : Expr) (ht : target.Like L target') : Lockstep L (Expr.Like L)
      (do report (.grammar equals.line (some equals.lexeme) .invalidAssignmentTarget)
          return target)
      (do report (.grammar equals'.line (some equals'.lexeme) .invalidAssignmentTarget)
          return target') :=
    (report_lockstep (he.lexeme ▸ ⟨.grammar he.line, rfl⟩)).bind fun _ _ _ => .pure ht
  cases target with
  | «variable» o =>
    obtain ⟨o', rfl, ho⟩ := ht
    exact (occurrence_lockstep hL ho.name).bind fun _ _ ho => .pure ⟨_, _, rfl, ho, hv⟩
  | get object name =>
    obtain ⟨object', name', rfl, ho, hn⟩ := ht
    exact .pure ⟨_, _, _, rfl, ho, hn, hv⟩
  | literal v =>
    cases ht
    exact refused _ _ rfl
  | group | lambda =>
    obtain ⟨_, rfl, h⟩ := ht
    exact refused _ _ ⟨_, rfl, h⟩
  | unary | logical | comma | assign | this =>
    obtain ⟨_, _, rfl, h⟩ := ht
    exact refused _ _ ⟨_, _, rfl, h⟩
  | binary | ternary | call | set | super =>
    obtain ⟨_, _, _, rfl, h⟩ := ht
    exact refused _ _ ⟨_, _, _, rfl, h⟩

end

theorem parameterList_lockstep (fuel count : Nat) :
    Lockstep L (List.Forall₂ (Name.Like L)) (parameterList fuel count)
      (parameterList fuel count) := by
  induction fuel generalizing count with
  | zero => exact .exhausted
  | succ fuel ih =>
    have names : Lockstep L (List.Forall₂ (Name.Like L))
        (do let name ← expectName .parameterName
            if ← accept (.symbol .comma) then
              return name :: (← parameterList fuel (count + 1))
            return [name])
        (do let name ← expectName .parameterName
            if ← accept (.symbol .comma) then
              return name :: (← parameterList fuel (count + 1))
            return [name]) := by
      refine (expectName_lockstep _).bind fun n n' hn => (accept_lockstep _).bind fun b _ hb => ?_
      subst hb
      cases b with
      | false => exact .pure (.cons hn .nil)
      | true => exact (ih _).bind fun _ _ hns => .pure (.cons hn hns)
    unfold parameterList
    split
    · exact (reportHere_lockstep _).bind fun _ _ _ => names
    · exact names

theorem parameters_lockstep (fuel : Nat) :
    Lockstep L (List.Forall₂ (Name.Like L)) (parameters fuel) (parameters fuel) := by
  refine (nextIs_lockstep _).bind fun b _ hb => ?_
  subst hb
  cases b with
  | false => exact parameterList_lockstep fuel 0
  | true => exact .pure .nil

/-- What is read is alike in whatever level of operators. -/
theorem acceptOperator_lockstep (l : Level) :
    Lockstep L (Option.Rel fun r r' => r'.1 = r.1 ∧ L.line r.2 r'.2) (acceptOperator l)
      (acceptOperator l) := by
  refine look_lockstep (fun c c' hc hc' => ?_) fun c c' t t' ts ts' hc hc' ht _ => ?_
  · rw [hc, hc']
    exact .pure .none
  · rw [hc, hc']
    simp only [ht.kind]
    cases l.operator? t.kind with
    | none => exact .pure .none
    | some op => exact skip_lockstep.bind fun _ _ _ => .pure (.some ⟨rfl, ht.line⟩)

theorem acceptUnary_lockstep :
    Lockstep L (Option.Rel fun r r' => r'.1 = r.1 ∧ L.line r.2 r'.2) acceptUnary acceptUnary := by
  refine look_lockstep (fun c c' hc hc' => ?_) fun c c' t t' ts ts' hc hc' ht _ => ?_
  · rw [hc, hc']
    exact .pure .none
  · rw [hc, hc']
    simp only [ht.kind]
    cases UnaryOp.ofKind? t.kind with
    | none => exact .pure .none
    | some op => exact skip_lockstep.bind fun _ _ _ => .pure (.some ⟨rfl, ht.line⟩)

theorem acceptEquals_lockstep :
    Lockstep L (Option.Rel (Token.Like L.line)) acceptEquals acceptEquals := by
  refine look_lockstep (fun c c' hc hc' => ?_) fun c c' t t' ts ts' hc hc' ht _ => ?_
  · rw [hc, hc']
    exact .pure .none
  · rw [hc, hc']
    simp only [ht.kind]
    split
    · exact skip_lockstep.bind fun _ _ _ => .pure (.some ht)
    · exact .pure .none

theorem break_lockstep {line line' : Nat} (h : L.line line line') :
    Lockstep L (Stmt.Like L) (jump (.break line) .breakEnd) (jump (.break line') .breakEnd) :=
  (expect_lockstep _).bind fun _ _ _ => .pure ⟨line', rfl, h⟩

theorem continue_lockstep {line line' : Nat} (h : L.line line line') :
    Lockstep L (Stmt.Like L) (jump (.continue line) .continueEnd)
      (jump (.continue line') .continueEnd) :=
  (expect_lockstep _).bind fun _ _ _ => .pure ⟨line', rfl, h⟩

theorem recovering_lockstep {p : Parser α} {q : Parser β} (h : Lockstep L V p q) :
    Lockstep L (Option.Rel V) (recovering p) (recovering q) := by
  intro c c' hc
  unfold recovering
  rcases (h c c' hc).cases with ⟨a, c₁, b, c₁', hp, hq, hv, hc₁⟩ | ⟨e, c₁, e', c₁', hp, hq, he, hc₁⟩
  · rw [hp, hq]
    exact ⟨.some hv, hc₁⟩
  · rw [hp, hq]
    cases he with
    | outOfFuel => exact ⟨.outOfFuel, hc₁⟩
    | failed hd =>
      exact ⟨.none, { hc₁.report hd with tokens := Cursor.Like.skipToBoundary hc₁.tokens }⟩

/-- Functions that are alike as methods and otherwise. -/
def FunctionsLike (L : Likeness) (f f' : Function) : Prop :=
  ∀ isInitializer, f.Like L isInitializer f'

/-- With this fuel, whatever phrase is read of like tokens is alike. -/
structure Renumbers (L : Likeness) (fuel : Nat) : Prop where
  level : ∀ l, Lockstep L (Expr.Like L) (level fuel l) (level fuel l)
  operand : ∀ l, Lockstep L (Expr.Like L) (operand fuel l) (operand fuel l)
  chain : ∀ l left left', left.Like L left' →
    Lockstep L (Expr.Like L) (chain fuel l left) (chain fuel l left')
  expression : Lockstep L (Expr.Like L) (expression fuel) (expression fuel)
  ternary : Lockstep L (Expr.Like L) (ternary fuel) (ternary fuel)
  assigned : Lockstep L (Expr.Like L) (assigned fuel) (assigned fuel)
  unary : Lockstep L (Expr.Like L) (unary fuel) (unary fuel)
  call : Lockstep L (Expr.Like L) (call fuel) (call fuel)
  calls : ∀ object object', object.Like L object' →
    Lockstep L (Expr.Like L) (calls fuel object) (calls fuel object')
  arguments : Lockstep L (List.Forall₂ (Expr.Like L)) (arguments fuel) (arguments fuel)
  argumentList : ∀ count, Lockstep L (List.Forall₂ (Expr.Like L)) (argumentList fuel count)
    (argumentList fuel count)
  primary : Lockstep L (Expr.Like L) (primary fuel) (primary fuel)
  group : Lockstep L (Expr.Like L) (group fuel) (group fuel)
  lambda : ∀ line line', L.line line line' →
    Lockstep L (Expr.Like L) (lambda fuel line) (lambda fuel line')
  functionRest : ∀ name? name?' line line' sort, Option.Rel (Name.Like L) name? name?' →
    L.line line line' → Lockstep L (FunctionsLike L) (functionRest fuel name? line sort)
      (functionRest fuel name?' line' sort)
  block : Lockstep L (stmtsLike L) (block fuel) (block fuel)
  declarations : ∀ read read', List.Forall₂ (Stmt.Like L) read read' →
    Lockstep L (List.Forall₂ (Stmt.Like L)) (declarations fuel read) (declarations fuel read')
  declaration : Lockstep L (Option.Rel (Stmt.Like L)) (declaration fuel) (declaration fuel)
  declared : Lockstep L (Stmt.Like L) (declared fuel) (declared fuel)
  classDeclaration : Lockstep L (Stmt.Like L) (classDeclaration fuel) (classDeclaration fuel)
  members : ∀ methods methods' getters getters',
    List.Forall₂ (FunctionsLike L) methods methods' →
    List.Forall₂ (FunctionsLike L) getters getters' →
    Lockstep L (fun r r' => List.Forall₂ (FunctionsLike L) r.1 r'.1 ∧
        List.Forall₂ (FunctionsLike L) r.2 r'.2)
      (members fuel methods getters) (members fuel methods' getters')
  function : ∀ sort, Lockstep L (FunctionsLike L) (function fuel sort) (function fuel sort)
  getter : Lockstep L (FunctionsLike L) (getter fuel) (getter fuel)
  varDeclaration : Lockstep L (Stmt.Like L) (varDeclaration fuel) (varDeclaration fuel)
  initializer : Lockstep L (Option.Rel (Expr.Like L)) (initializer fuel) (initializer fuel)
  statement : Lockstep L (Stmt.Like L) (statement fuel) (statement fuel)
  expressionStatement :
    Lockstep L (Stmt.Like L) (expressionStatement fuel) (expressionStatement fuel)
  printStatement : Lockstep L (Stmt.Like L) (printStatement fuel) (printStatement fuel)
  returnStatement : ∀ line line', L.line line line' →
    Lockstep L (Stmt.Like L) (returnStatement fuel line) (returnStatement fuel line')
  unlessNext : ∀ s, Lockstep L (Option.Rel (Expr.Like L)) (unlessNext fuel s) (unlessNext fuel s)
  whileStatement : Lockstep L (Stmt.Like L) (whileStatement fuel) (whileStatement fuel)
  ifStatement : Lockstep L (Stmt.Like L) (ifStatement fuel) (ifStatement fuel)
  forStatement : Lockstep L (Stmt.Like L) (forStatement fuel) (forStatement fuel)
  forStart : Lockstep L (Option.Rel (Stmt.Like L)) (forStart fuel) (forStart fuel)

theorem renumbers_zero (L : Likeness) : Renumbers L 0 := by
  constructor <;> intros <;>
    simp only [level, operand, chain, expression, ternary, assigned, unary, call, calls, arguments,
      argumentList, primary, group, lambda, functionRest, block, declarations, declaration,
      declared, classDeclaration, members, function, getter, varDeclaration, initializer,
      statement, expressionStatement, printStatement, returnStatement, unlessNext,
      whileStatement, ifStatement, forStatement, forStart] <;>
    exact .exhausted

namespace Renumbers

variable {fuel : Nat} (ih : Renumbers L fuel)

include ih in
theorem operand_succ (l : Level) :
    Lockstep L (Expr.Like L) (Parser.operand (fuel + 1) l) (Parser.operand (fuel + 1) l) := by
  unfold Parser.operand
  cases l with
  | comma => exact ih.ternary
  | factor => exact ih.unary
  | _ => exact ih.level _

include ih in
theorem chain_succ (l : Level) {left left' : Expr} (h : left.Like L left') :
    Lockstep L (Expr.Like L) (Parser.chain (fuel + 1) l left)
      (Parser.chain (fuel + 1) l left') := by
  unfold Parser.chain
  refine (acceptOperator_lockstep l).bind fun r r' hr => ?_
  cases hr with
  | none => exact .pure h
  | @some r r' hr =>
    obtain ⟨op, line⟩ := r
    obtain ⟨op', line'⟩ := r'
    obtain ⟨rfl, hline⟩ : op' = op ∧ L.line line line' := hr
    refine (ih.operand l).bind fun right right' hright => ih.chain _ _ _ ?_
    cases op' with
    | comma => exact ⟨_, _, rfl, h, hright⟩
    | logical op => exact ⟨_, _, rfl, h, hright⟩
    | binary op => exact ⟨_, _, _, rfl, hline, h, hright⟩

include ih in
theorem ternary_succ :
    Lockstep L (Expr.Like L) (Parser.ternary (fuel + 1)) (Parser.ternary (fuel + 1)) := by
  unfold Parser.ternary
  refine ih.assigned.bind fun condition condition' hc => ?_
  refine (accept_lockstep _).bind fun b _ hb => ?_
  subst hb
  cases b with
  | false => exact .pure hc
  | true =>
    exact ih.expression.bind fun _ _ ht => (expect_lockstep _).bind fun _ _ _ =>
      ih.ternary.bind fun _ _ he => .pure ⟨_, _, _, rfl, hc, ht, he⟩

include ih in
theorem assigned_succ (hL : L.Counts) :
    Lockstep L (Expr.Like L) (Parser.assigned (fuel + 1)) (Parser.assigned (fuel + 1)) := by
  unfold Parser.assigned
  refine (ih.level _).bind fun target target' ht => acceptEquals_lockstep.bind fun r r' hr => ?_
  cases hr with
  | none => exact .pure ht
  | some he => exact ih.assigned.bind fun _ _ hv => assignment_lockstep hL he ht hv

include ih in
theorem unary_succ :
    Lockstep L (Expr.Like L) (Parser.unary (fuel + 1)) (Parser.unary (fuel + 1)) := by
  unfold Parser.unary
  refine acceptUnary_lockstep.bind fun r r' hr => ?_
  cases hr with
  | none => exact ih.call
  | @some r r' hr =>
    obtain ⟨op, line⟩ := r
    obtain ⟨op', line'⟩ := r'
    obtain ⟨rfl, hline⟩ : op' = op ∧ L.line line line' := hr
    exact ih.unary.bind fun _ _ h => .pure ⟨_, _, rfl, hline, h⟩

include ih in
theorem calls_succ {object object' : Expr} (h : object.Like L object') :
    Lockstep L (Expr.Like L) (Parser.calls (fuel + 1) object)
      (Parser.calls (fuel + 1) object') := by
  unfold Parser.calls
  refine peek_lockstep fun kind? => ?_
  split
  · exact skip_lockstep.bind fun _ _ _ => ih.arguments.bind fun _ _ ha =>
      (expect_lockstep _).bind fun _ _ ht =>
        ih.calls _ _ ⟨_, _, _, rfl, h, ht.line, exprsLike_iff.mpr ha⟩
  · exact skip_lockstep.bind fun _ _ _ => (expectName_lockstep _).bind fun _ _ hn =>
      ih.calls _ _ ⟨_, _, rfl, h, hn⟩
  · exact .pure h

include ih in
theorem arguments_succ : Lockstep L (List.Forall₂ (Expr.Like L)) (Parser.arguments (fuel + 1))
    (Parser.arguments (fuel + 1)) := by
  unfold Parser.arguments
  refine (nextIs_lockstep _).bind fun b _ hb => ?_
  subst hb
  cases b with
  | false => exact ih.argumentList 0
  | true => exact .pure .nil

include ih in
theorem argumentList_succ (count : Nat) :
    Lockstep L (List.Forall₂ (Expr.Like L)) (Parser.argumentList (fuel + 1) count)
      (Parser.argumentList (fuel + 1) count) := by
  unfold Parser.argumentList
  have list : Lockstep L (List.Forall₂ (Expr.Like L))
      (do let argument ← Parser.ternary fuel
          if ← accept (.symbol .comma) then
            return argument :: (← Parser.argumentList fuel (count + 1))
          return [argument])
      (do let argument ← Parser.ternary fuel
          if ← accept (.symbol .comma) then
            return argument :: (← Parser.argumentList fuel (count + 1))
          return [argument]) := by
    refine ih.ternary.bind fun e e' he => (accept_lockstep _).bind fun b _ hb => ?_
    subst hb
    cases b with
    | false => exact .pure (.cons he .nil)
    | true => exact (ih.argumentList _).bind fun _ _ hes => .pure (.cons he hes)
  split
  · exact (reportHere_lockstep _).bind fun _ _ _ => list
  · exact list

include ih in
theorem primary_succ (hL : L.Counts) :
    Lockstep L (Expr.Like L) (Parser.primary (fuel + 1)) (Parser.primary (fuel + 1)) := by
  unfold Parser.primary
  refine look_lockstep (fun c c' hc hc' => ?_) fun c c' t t' ts ts' hc hc' ht _ => ?_
  · rw [hc, hc']
    exact failHere_lockstep _
  · rw [hc, hc']
    simp only [ht.kind]
    split
    · exact skip_lockstep.bind fun _ _ _ => .pure rfl
    · exact skip_lockstep.bind fun _ _ _ => .pure rfl
    · exact skip_lockstep.bind fun _ _ _ => .pure rfl
    · exact skip_lockstep.bind fun _ _ _ => .pure rfl
    · exact skip_lockstep.bind fun _ _ _ => .pure rfl
    · exact skip_lockstep.bind fun _ _ _ => superMethod_lockstep hL ht.line
    · exact skip_lockstep.bind fun _ _ _ => (freshId_lockstep hL).bind fun _ _ hid =>
        .pure ⟨_, _, rfl, hid, ht.line⟩
    · exact skip_lockstep.bind fun _ _ _ =>
        (occurrence_lockstep hL ⟨ht.lexeme, ht.line⟩).bind fun _ _ ho => .pure ⟨_, rfl, ho⟩
    · exact skip_lockstep.bind fun _ _ _ => ih.group
    · exact skip_lockstep.bind fun _ _ _ => ih.lambda _ _ ht.line
    · exact failHere_lockstep _

include ih in
theorem functionRest_succ (hL : L.Counts) {name? name?' : Option Name} {line line' : Nat}
    (sort : FunctionSort) (hn : Option.Rel (Name.Like L) name? name?') (hl : L.line line line') :
    Lockstep L (FunctionsLike L) (Parser.functionRest (fuel + 1) name? line sort)
      (Parser.functionRest (fuel + 1) name?' line' sort) := by
  unfold Parser.functionRest
  exact (parameters_lockstep fuel).bind fun _ _ hp => (expect_lockstep _).bind fun _ _ _ =>
    (expect_lockstep _).bind fun _ _ _ => ih.block.bind fun _ _ hb =>
      .pure fun _ => ⟨hL.any _ _, _, _, _, _, rfl, hn, hp, hb, hl⟩

include ih in
theorem declarations_succ {read read' : List Stmt} (h : List.Forall₂ (Stmt.Like L) read read') :
    Lockstep L (List.Forall₂ (Stmt.Like L)) (Parser.declarations (fuel + 1) read)
      (Parser.declarations (fuel + 1) read') := by
  unfold Parser.declarations
  refine peek_lockstep fun kind? => ?_
  split
  · exact .pure (List.rel_reverse h)
  · exact .pure (List.rel_reverse h)
  · refine ih.declaration.bind fun s? s?' hs => ?_
    cases hs with
    | none => exact ih.declarations _ _ h
    | some hs => exact ih.declarations _ _ (.cons hs h)

include ih in
theorem declared_succ :
    Lockstep L (Stmt.Like L) (Parser.declared (fuel + 1)) (Parser.declared (fuel + 1)) := by
  unfold Parser.declared
  refine look_lockstep (fun c c' hc hc' => ?_) fun c c' t t' ts ts' hc hc' ht hts => ?_
  · rw [hc, hc']
    exact ih.statement
  · rw [hc, hc']
    obtain ⟨kind, lexeme, line⟩ := t
    obtain ⟨_, lexeme', line'⟩ := t'
    obtain ⟨rfl, -, -⟩ := ht
    dsimp only
    split
    · rename_i heq
      cases heq
      exact skip_lockstep.bind fun _ _ _ => ih.classDeclaration
    · rename_i heq
      cases heq
      obtain ⟨u', ts', hu, -, rfl⟩ := List.forall₂_cons_left_iff.mp hts
      obtain ⟨_, lexeme', line'⟩ := u'
      obtain ⟨rfl, -, -⟩ := hu
      exact skip_lockstep.bind fun _ _ _ => (ih.function _).bind fun _ _ hf =>
        .pure ⟨_, rfl, hf _⟩
    · rename_i heq
      cases heq
      exact skip_lockstep.bind fun _ _ _ => ih.varDeclaration
    · rename_i hclass hfun hvar
      split
      · rename_i heq
        cases heq
        exact (hclass _ _ _ rfl).elim
      · rename_i heq
        cases heq
        obtain ⟨u, ts, hu, -, rfl⟩ := List.forall₂_cons_right_iff.mp hts
        obtain ⟨_, lexeme', line'⟩ := u
        obtain ⟨rfl, -, -⟩ := hu
        exact (hfun _ _ _ _ _ rfl).elim
      · rename_i heq
        cases heq
        exact (hvar _ _ _ rfl).elim
      · exact ih.statement

include ih in
theorem classDeclaration_succ (hL : L.Counts) :
    Lockstep L (Stmt.Like L) (Parser.classDeclaration (fuel + 1))
      (Parser.classDeclaration (fuel + 1)) := by
  unfold Parser.classDeclaration
  exact (expectName_lockstep _).bind fun _ _ hn => (superclassReference_lockstep hL).bind
    fun _ _ ho => (expect_lockstep _).bind fun _ _ _ => (ih.members [] [] [] [] .nil .nil).bind
      fun _ _ ⟨hm, hg⟩ => (expect_lockstep _).bind fun _ _ _ =>
        .pure ⟨_, rfl, _, _, _, _, rfl, hn, ho, functionsLike_iff.mpr (hm.imp fun _ _ h => h _),
          functionsLike_iff.mpr (hg.imp fun _ _ h => h _)⟩

include ih in
theorem members_succ {methods methods' getters getters' : List Function}
    (hm : List.Forall₂ (FunctionsLike L) methods methods')
    (hg : List.Forall₂ (FunctionsLike L) getters getters') :
    Lockstep L (fun r r' => List.Forall₂ (FunctionsLike L) r.1 r'.1 ∧
        List.Forall₂ (FunctionsLike L) r.2 r'.2)
      (Parser.members (fuel + 1) methods getters)
      (Parser.members (fuel + 1) methods' getters') := by
  unfold Parser.members
  have stop : Lockstep L (fun r r' => List.Forall₂ (FunctionsLike L) r.1 r'.1 ∧
        List.Forall₂ (FunctionsLike L) r.2 r'.2)
      (pure (methods.reverse, getters.reverse)) (pure (methods'.reverse, getters'.reverse)) :=
    .pure ⟨List.rel_reverse hm, List.rel_reverse hg⟩
  refine look_lockstep (fun c c' hc hc' => ?_) fun c c' t t' ts ts' hc hc' ht hts => ?_
  · rw [hc, hc']
    exact stop
  · rw [hc, hc']
    obtain ⟨kind, lexeme, line⟩ := t
    obtain ⟨_, lexeme', line'⟩ := t'
    obtain ⟨rfl, -, -⟩ := ht
    dsimp only
    split
    · rename_i heq
      cases heq
    · rename_i heq
      cases heq
      exact stop
    · rename_i hbrace heq
      cases heq
      obtain ⟨u', ts', hu, -, rfl⟩ := List.forall₂_cons_left_iff.mp hts
      obtain ⟨_, lexeme', line'⟩ := u'
      obtain ⟨rfl, -, -⟩ := hu
      split
      · rename_i heq
        cases heq
      · rename_i heq
        cases heq
        exact (hbrace _ _ rfl).elim
      · exact (ih.function _).bind fun _ _ hf => ih.members _ _ _ _ (.cons hf hm) hg
      · rename_i hparen
        exact (hparen _ _ _ _ rfl).elim
    · rename_i hnil hbrace hparen
      split
      · rename_i heq
        cases heq
      · rename_i heq
        cases heq
        exact (hbrace _ _ _ rfl).elim
      · rename_i heq
        cases heq
        obtain ⟨u, ts, hu, -, rfl⟩ := List.forall₂_cons_right_iff.mp hts
        obtain ⟨_, lexeme', line'⟩ := u
        obtain ⟨rfl, -, -⟩ := hu
        exact (hparen _ _ _ _ rfl).elim
      · exact ih.getter.bind fun _ _ hf => ih.members _ _ _ _ hm (.cons hf hg)

include ih in
theorem function_succ (sort : FunctionSort) :
    Lockstep L (FunctionsLike L) (Parser.function (fuel + 1) sort)
      (Parser.function (fuel + 1) sort) := by
  unfold Parser.function
  exact (expectName_lockstep _).bind fun _ _ hn => (expect_lockstep _).bind fun _ _ _ =>
    ih.functionRest _ _ _ _ sort (.some hn) hn.line

include ih in
theorem getter_succ (hL : L.Counts) :
    Lockstep L (FunctionsLike L) (Parser.getter (fuel + 1)) (Parser.getter (fuel + 1)) := by
  unfold Parser.getter
  exact (expectName_lockstep _).bind fun _ _ hn => (expect_lockstep _).bind fun _ _ _ =>
    ih.block.bind fun _ _ hb =>
      .pure fun _ => ⟨hL.any _ _, _, _, _, _, rfl, .some hn, .nil, hb, hn.line⟩

include ih in
theorem varDeclaration_succ :
    Lockstep L (Stmt.Like L) (Parser.varDeclaration (fuel + 1))
      (Parser.varDeclaration (fuel + 1)) := by
  unfold Parser.varDeclaration
  refine (expectName_lockstep _).bind fun _ _ hn => ih.initializer.bind fun e? e?' he =>
    (expect_lockstep _).bind fun _ _ _ => .pure ?_
  cases he with
  | none => exact ⟨_, rfl, hn⟩
  | some he => exact ⟨_, _, rfl, hn, he⟩

include ih in
theorem initializer_succ :
    Lockstep L (Option.Rel (Expr.Like L)) (Parser.initializer (fuel + 1))
      (Parser.initializer (fuel + 1)) := by
  unfold Parser.initializer
  refine (accept_lockstep _).bind fun b _ hb => ?_
  subst hb
  cases b with
  | false => exact .pure .none
  | true => exact ih.expression.bind fun _ _ he => .pure (.some he)

include ih in
theorem statement_succ :
    Lockstep L (Stmt.Like L) (Parser.statement (fuel + 1)) (Parser.statement (fuel + 1)) := by
  unfold Parser.statement
  refine look_lockstep (fun c c' hc hc' => ?_) fun c c' t t' ts ts' hc hc' ht _ => ?_
  · rw [hc, hc']
    exact ih.expressionStatement
  · rw [hc, hc']
    simp only [ht.kind]
    split
    · exact skip_lockstep.bind fun _ _ _ => ih.forStatement
    · exact skip_lockstep.bind fun _ _ _ => ih.ifStatement
    · exact skip_lockstep.bind fun _ _ _ => ih.printStatement
    · exact skip_lockstep.bind fun _ _ _ => ih.returnStatement _ _ ht.line
    · exact skip_lockstep.bind fun _ _ _ => ih.whileStatement
    · exact skip_lockstep.bind fun _ _ _ => break_lockstep ht.line
    · exact skip_lockstep.bind fun _ _ _ => continue_lockstep ht.line
    · exact skip_lockstep.bind fun _ _ _ => ih.block.bind fun _ _ hb => .pure ⟨_, rfl, hb⟩
    · exact ih.expressionStatement

include ih in
theorem returnStatement_succ {line line' : Nat} (h : L.line line line') :
    Lockstep L (Stmt.Like L) (Parser.returnStatement (fuel + 1) line)
      (Parser.returnStatement (fuel + 1) line') := by
  unfold Parser.returnStatement
  refine (ih.unlessNext _).bind fun e? e?' he => (expect_lockstep _).bind fun _ _ _ => .pure ?_
  cases he with
  | none => exact ⟨_, rfl, h⟩
  | some he => exact ⟨_, _, rfl, h, he⟩

include ih in
theorem unlessNext_succ (s : Symbol) :
    Lockstep L (Option.Rel (Expr.Like L)) (Parser.unlessNext (fuel + 1) s)
      (Parser.unlessNext (fuel + 1) s) := by
  unfold Parser.unlessNext
  refine (nextIs_lockstep _).bind fun b _ hb => ?_
  subst hb
  cases b with
  | false => exact ih.expression.bind fun _ _ he => .pure (.some he)
  | true => exact .pure .none

include ih in
theorem whileStatement_succ :
    Lockstep L (Stmt.Like L) (Parser.whileStatement (fuel + 1))
      (Parser.whileStatement (fuel + 1)) := by
  unfold Parser.whileStatement
  exact (expect_lockstep _).bind fun _ _ _ => ih.expression.bind fun _ _ hc =>
    (expect_lockstep _).bind fun _ _ _ => ih.statement.bind fun _ _ hb =>
      .pure ⟨_, _, rfl, hc, hb⟩

include ih in
theorem ifStatement_succ :
    Lockstep L (Stmt.Like L) (Parser.ifStatement (fuel + 1))
      (Parser.ifStatement (fuel + 1)) := by
  unfold Parser.ifStatement
  refine (expect_lockstep _).bind fun _ _ _ => ih.expression.bind fun _ _ hc =>
    (expect_lockstep _).bind fun _ _ _ => ih.statement.bind fun _ _ ht =>
      (accept_lockstep _).bind fun b _ hb => ?_
  subst hb
  cases b with
  | false => exact .pure ⟨_, _, rfl, hc, ht⟩
  | true => exact ih.statement.bind fun _ _ he => .pure ⟨_, _, _, rfl, hc, ht, he⟩

include ih in
theorem forStatement_succ :
    Lockstep L (Stmt.Like L) (Parser.forStatement (fuel + 1))
      (Parser.forStatement (fuel + 1)) := by
  unfold Parser.forStatement
  refine (expect_lockstep _).bind fun _ _ _ => ih.forStart.bind fun start? start?' hs =>
    (ih.unlessNext _).bind fun condition? condition?' hc => (expect_lockstep _).bind fun _ _ _ =>
      (ih.unlessNext _).bind fun increment? increment?' hi => (expect_lockstep _).bind fun _ _ _ =>
        ih.statement.bind fun body body' hb => .pure ?_
  have hcondition : Expr.Like L (condition?.getD (.literal (.bool true)))
      (condition?'.getD (.literal (.bool true))) := by
    cases hc with
    | none => exact rfl
    | some hc => exact hc
  have hwhile : Stmt.Like L
      (.while (condition?.getD (.literal (.bool true))) body increment?)
      (.while (condition?'.getD (.literal (.bool true))) body' increment?') := by
    cases hi with
    | none => exact ⟨_, _, rfl, hcondition, hb⟩
    | some hi => exact ⟨_, _, _, rfl, hcondition, hb, hi⟩
  cases hs with
  | none => exact hwhile
  | some hs => exact ⟨_, rfl, _, _, rfl, hs, _, _, rfl, hwhile, rfl⟩

include ih in
theorem forStart_succ :
    Lockstep L (Option.Rel (Stmt.Like L)) (Parser.forStart (fuel + 1))
      (Parser.forStart (fuel + 1)) := by
  unfold Parser.forStart
  refine peek_lockstep fun kind? => ?_
  split
  · exact skip_lockstep.bind fun _ _ _ => .pure .none
  · exact skip_lockstep.bind fun _ _ _ => ih.varDeclaration.bind fun _ _ h => .pure (.some h)
  · exact ih.expressionStatement.bind fun _ _ h => .pure (.some h)

end Renumbers

/-- Parsers do the same with like tokens, whatever their fuel. -/
theorem renumbers (hL : L.Counts) (fuel : Nat) : Renumbers L fuel := by
  induction fuel with
  | zero => exact renumbers_zero L
  | succ fuel ih =>
    exact {
      level := fun l => by
        unfold level
        exact (ih.operand l).bind fun _ _ h => ih.chain l _ _ h
      operand := ih.operand_succ
      chain := fun l _ _ h => ih.chain_succ l h
      expression := by
        unfold expression
        exact ih.level _
      ternary := ih.ternary_succ
      assigned := ih.assigned_succ hL
      unary := ih.unary_succ
      call := by
        unfold call
        exact ih.primary.bind fun _ _ h => ih.calls _ _ h
      calls := fun _ _ h => ih.calls_succ h
      arguments := ih.arguments_succ
      argumentList := ih.argumentList_succ
      primary := ih.primary_succ hL
      group := by
        unfold group
        exact ih.expression.bind fun _ _ h => (expect_lockstep _).bind fun _ _ _ =>
          .pure ⟨_, rfl, h⟩
      lambda := fun _ _ h => by
        unfold lambda
        exact (expect_lockstep _).bind fun _ _ _ =>
          (ih.functionRest _ _ _ _ _ .none h).bind fun _ _ hf => .pure ⟨_, rfl, hf _⟩
      functionRest := fun _ _ _ _ sort hn hl => ih.functionRest_succ hL sort hn hl
      block := by
        unfold block
        exact (ih.declarations [] [] .nil).bind fun _ _ h => (expect_lockstep _).bind fun _ _ _ =>
          .pure (stmtsLike_iff.mpr h)
      declarations := fun _ _ h => ih.declarations_succ h
      declaration := by
        unfold declaration
        exact recovering_lockstep ih.declared
      declared := ih.declared_succ
      classDeclaration := ih.classDeclaration_succ hL
      members := fun _ _ _ _ hm hg => ih.members_succ hm hg
      function := ih.function_succ
      getter := ih.getter_succ hL
      varDeclaration := ih.varDeclaration_succ
      initializer := ih.initializer_succ
      statement := ih.statement_succ
      expressionStatement := by
        unfold expressionStatement
        exact ih.expression.bind fun _ _ h => (expect_lockstep _).bind fun _ _ _ =>
          .pure ⟨_, rfl, h⟩
      printStatement := by
        unfold printStatement
        exact ih.expression.bind fun _ _ h => (expect_lockstep _).bind fun _ _ _ =>
          .pure ⟨_, rfl, h⟩
      returnStatement := fun _ _ h => ih.returnStatement_succ h
      unlessNext := ih.unlessNext_succ
      whileStatement := ih.whileStatement_succ
      ifStatement := ih.ifStatement_succ
      forStatement := ih.forStatement_succ
      forStart := ih.forStart_succ }

theorem program_lockstep (hL : L.Counts) (fuel : Nat) {read read' : List Stmt}
    (h : List.Forall₂ (Stmt.Like L) read read') :
    Lockstep L (stmtsLike L) (program fuel read) (program fuel read') := by
  induction fuel generalizing read read' with
  | zero => exact .exhausted
  | succ fuel ih =>
    refine peek_lockstep fun kind? => ?_
    cases kind? with
    | none => exact .pure (stmtsLike_iff.mpr (List.rel_reverse h))
    | some kind =>
      refine (renumbers hL fuel).declaration.bind fun s? s?' hs => ?_
      cases hs with
      | none => exact ih h
      | some hs => exact ih (.cons hs h)

end Parser

namespace Program

/-- Programs or errors that come of like tokens. -/
def ReadAlike (L : Likeness) :
    Except (List Diagnostic) Program → Except (List Diagnostic) Program → Prop
  | .ok p, .ok p' => stmtsLike L p.statements p'.statements ∧ L.occurrence p.nextId p'.nextId
  | .error es, .error es' => List.Forall₂ (Diagnostic.Like L.line) es es'
  | _, _ => False

theorem ofTokens_like (hL : L.Counts) {a b endLine endLine' : Nat} {ts ts' : List Token}
    (hid : L.occurrence a b) (hts : List.Forall₂ (Token.Like L.line) ts ts')
    (hend : L.line endLine endLine') :
    ReadAlike L (ofTokens a ts endLine) (ofTokens b ts' endLine') := by
  have h := Parser.program_lockstep hL (fuelFor ts.length) .nil ⟨ts, endLine, a, []⟩
    ⟨ts', endLine', b, []⟩ ⟨hts, hend, hid, .nil⟩
  unfold ofTokens
  rw [← hts.length_eq]
  rcases h.cases with ⟨ss, c, ss', c', hr, hr', hss, hc⟩ | ⟨e, c, e', c', hr, hr', -, hc⟩
  · rw [hr, hr']
    dsimp only
    rw [isEmpty_eq_of_forall₂ hc.errors]
    split
    · exact ⟨hss, hc.nextId⟩
    · exact List.rel_reverse (hc.errors.imp fun _ _ h => h.like)
  · rw [hr, hr']
    exact List.rel_reverse (hc.errors.imp fun _ _ h => h.like)

/-- The errors of tokens that are no program are grammatical. -/
theorem phase_of_ofTokens {a endLine : Nat} {ts : List Token} {errors : List Diagnostic}
    (h : ofTokens a ts endLine = .error errors) : ∀ d ∈ errors, d.phase = .parsing := by
  have hself := Parser.program_lockstep (Likeness.renumbering_counts a a Eq)
    (fuelFor ts.length) .nil ⟨ts, endLine, a, []⟩ ⟨ts, endLine, a, []⟩
    ⟨Token.forall₂_like (fun _ => rfl) ts, rfl, ⟨0, rfl, rfl⟩, .nil⟩
  have herrors : ∀ {c c' : Cursor}, Cursor.Like (.renumbering a a Eq) c c' →
      ∀ d ∈ c.errors.reverse, d.phase = .parsing := by
    intro c c' hc d hd
    exact Diagnostic.phase_of_forall₂ hc.errors d (List.mem_reverse.mp hd)
  unfold ofTokens at h
  rcases hself.cases with ⟨ss, c, ss', c', hr, -, -, hc⟩ | ⟨e, c, e', c', hr, -, -, hc⟩
  · rw [hr] at h
    dsimp only at h
    split at h
    · cases h
    · cases h
      exact herrors hc
  · rw [hr] at h
    cases h
    exact herrors hc

/-- Texts with like tokens and faults give like programs or errors. -/
theorem ofSource_alike (hL : L.Counts) {a b : Nat} (h : L.occurrence a b) {source source' : String}
    (hs : (scan source).Like L.line (scan source')) :
    ReadAlike L (ofSource a source) (ofSource b source') := by
  have h := ofTokens_like hL h hs.tokens hs.endLine
  unfold ofSource
  dsimp only
  match ofTokens a (scan source).tokens (scan source).endLine,
    ofTokens b (scan source').tokens (scan source').endLine, h with
  | .ok p, .ok p', h =>
    dsimp only
    rw [isEmpty_eq_of_forall₂ hs.errors]
    split
    · exact h
    · exact hs.errors
  | .error es, .error es', h => exact List.rel_append hs.errors h

/-- The same text gives the same program, numbered from elsewhere on, or the same errors. -/
theorem ofSource_like (hL : L.Counts) (hl : ∀ n, L.line n n) {a b : Nat} (h : L.occurrence a b)
    (source : String) : ReadAlike L (ofSource a source) (ofSource b source) :=
  ofSource_alike hL h (.refl hl (scan source))

theorem nextIdAfter_like (hL : L.Counts) (hl : ∀ n, L.line n n) {a b : Nat}
    (h : L.occurrence a b) (source : String) :
    L.occurrence (nextIdAfter a source) (nextIdAfter b source) := by
  have h := Parser.program_lockstep hL (fuelFor (scan source).tokens.length) .nil
    ⟨(scan source).tokens, (scan source).endLine, a, []⟩
    ⟨(scan source).tokens, (scan source).endLine, b, []⟩
    ⟨Token.forall₂_like hl _, hl _, h, .nil⟩
  unfold nextIdAfter
  dsimp only
  rcases h.cases with ⟨ss, c, ss', c', hr, hr', -, hc⟩ | ⟨e, c, e', c', hr, hr', -, hc⟩
  · rw [hr, hr']
    exact hc.nextId
  · rw [hr, hr']
    exact hc.nextId

end Program

end LoxLang
