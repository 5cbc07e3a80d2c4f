import LoxLang.Proofs.Grammar.Reading

/-!
What errors cost. A parser pays for each error that it reports with a token that it has taken or
skips: what it has still to read and what it has reported are together never more than before. So a
program has no more errors than tokens.
-/

namespace LoxLang

namespace Cursor

/-- The tokens still to read and the errors reported so far. -/
def load (c : Cursor) : Nat :=
  c.tokens.length + c.errors.length

/-- From `c` a parser has paid for all errors that it reported. -/
def Covers {α : Type} (c : Cursor) : EStateM.Result Stop Cursor α → Prop
  | .ok _ c' => c'.load ≤ c.load
  | .error (.failed _) c' => c'.load ≤ c.load
  | .error .outOfFuel _ => True

/-- From `c` a parser has taken a token that pays for no error. It fails with such a token too,
unless it fails at once. -/
def Saves {α : Type} (c : Cursor) : EStateM.Result Stop Cursor α → Prop
  | .ok _ c' => c'.load < c.load
  | .error (.failed _) c' => c'.load < c.load ∨ c'.tokens = c.tokens ∧ c'.errors = c.errors
  | .error .outOfFuel _ => True

/-- From `c` a parser has paid for all errors that it reported, if so much is paid for it. -/
def Affords {α : Type} (c : Cursor) (more : Nat) : EStateM.Result Stop Cursor α → Prop
  | .ok _ c' => c'.load < c.load + more
  | .error (.failed _) c' => c'.load ≤ c.load + more
  | .error .outOfFuel _ => True

theorem Saves.covers {α : Type} {c : Cursor} {r : EStateM.Result Stop Cursor α}
    (h : c.Saves r) : c.Covers r := by
  match r, h with
  | .ok _ _, h => exact Nat.le_of_lt h
  | .error (.failed _) _, .inl h => exact Nat.le_of_lt h
  | .error (.failed _) c', .inr ⟨ht, he⟩ =>
    exact Nat.le_of_eq (by rw [load, load, ht, he])
  | .error .outOfFuel _, _ => trivial

end Cursor

namespace Parser

variable {α β : Type} {c c₁ : Cursor} {t : Token} {ts : List Token} {p : Parser α}
  {f : α → Parser β}

/-- Parsers that pay for all errors that they report. -/
def Covering {α : Type} (p : Parser α) : Prop :=
  ∀ c : Cursor, c.Covers (p c)

/-- Parsers that moreover take a token that pays for no error. -/
def Saving {α : Type} (p : Parser α) : Prop :=
  ∀ c : Cursor, c.Saves (p c)

/-- Parsers that do so where there is a token to take. -/
def Taking {α : Type} (p : Parser α) : Prop :=
  ∀ c : Cursor, c.tokens ≠ [] → c.Saves (p c)

/-- Parsers that pay for all errors that they report where there is a token to take. -/
def CoveringTokens {α : Type} (p : Parser α) : Prop :=
  ∀ c : Cursor, c.tokens ≠ [] → c.Covers (p c)

theorem Saving.covering (h : Saving p) : Covering p :=
  fun c => (h c).covers

theorem Saving.taking (h : Saving p) : Taking p :=
  fun c _ => h c

theorem Covering.tokens (h : Covering p) : CoveringTokens p :=
  fun c _ => h c

namespace Covering

theorem pure (a : α) : Covering (Pure.pure a) :=
  fun _ => Nat.le_refl _

theorem exhausted : Covering (Fueled.exhausted : Parser α) :=
  fun _ => trivial

/-- What follows is paid for with what is left. -/
theorem bind_at (hp : c.Covers (p c)) (hf : ∀ a c₁, p c = .ok a c₁ → c₁.Covers (f a c₁)) :
    c.Covers ((p >>= f) c) := by
  match hr : p c with
  | .ok a c₁ =>
    rw [hr] at hp
    rw [Fueled.bind_ok hr]
    have h := hf a c₁ hr
    match hr' : f a c₁ with
    | .ok _ _ | .error (.failed _) _ =>
      rw [hr'] at h
      exact Nat.le_trans h hp
    | .error .outOfFuel _ => trivial
  | .error (.failed _) _ | .error .outOfFuel _ =>
    rw [hr] at hp
    rw [Fueled.bind_error hr]
    exact hp

theorem bind (hp : Covering p) (hf : ∀ a, Covering (f a)) : Covering (p >>= f) :=
  fun c => bind_at (hp c) fun a c₁ _ => hf a c₁

theorem look {f : Cursor → Parser α} (hf : ∀ c, Covering (f c)) : Covering (get >>= f) :=
  fun c => hf c c

theorem peek {f : Option Kind → Parser α} (hf : ∀ kind?, Covering (f kind?)) :
    Covering (peek? >>= f) :=
  fun c => hf (c.tokens.head?.map Token.kind) c

theorem peekToken {f : Option Kind → Parser α} (hnone : Covering (f none))
    (hsome : ∀ kind, CoveringTokens (f (some kind))) : Covering (peek? >>= f) := by
  intro c
  show c.Covers (f (c.tokens.head?.map Token.kind) c)
  cases hc : c.tokens with
  | nil => exact hnone c
  | cons t ts => exact hsome t.kind c (by simp [hc])

theorem skip : Covering skip := by
  intro c
  show c.tokens.tail.length + c.errors.length ≤ c.tokens.length + c.errors.length
  rw [List.length_tail]
  omega

theorem nextIs (kind : Kind) : Covering (nextIs kind) := by
  intro c
  rw [nextIs_eq]
  exact Nat.le_refl _

theorem accept (kind : Kind) : Covering (accept kind) :=
  (nextIs kind).bind fun b => by
    cases b with
    | false => exact .pure _
    | true => exact skip.bind fun _ => .pure _

theorem freshId : Covering freshId :=
  fun _ => Nat.le_refl _

theorem occurrence (name : Name) : Covering (occurrence name) :=
  freshId.bind fun _ => .pure _

end Covering

theorem CoveringTokens.bind (hp : CoveringTokens p) (hf : ∀ a, Covering (f a)) :
    CoveringTokens (p >>= f) :=
  fun c hc => Covering.bind_at (hp c hc) fun a c₁ _ => hf a c₁

namespace Saving

theorem exhausted : Saving (Fueled.exhausted : Parser α) :=
  fun _ => trivial

theorem bind_at (hp : c.Saves (p c)) (hf : ∀ a c₁, p c = .ok a c₁ → c₁.Covers (f a c₁)) :
    c.Saves ((p >>= f) c) := by
  match hr : p c with
  | .ok a c₁ =>
    rw [hr] at hp
    rw [Fueled.bind_ok hr]
    have h := hf a c₁ hr
    match hr' : f a c₁ with
    | .ok _ _ =>
      rw [hr'] at h
      exact Nat.lt_of_le_of_lt h hp
    | .error (.failed _) _ =>
      rw [hr'] at h
      exact .inl (Nat.lt_of_le_of_lt h hp)
    | .error .outOfFuel _ => trivial
  | .error (.failed _) _ | .error .outOfFuel _ =>
    rw [hr] at hp
    rw [Fueled.bind_error hr]
    exact hp

theorem bind (hp : Saving p) (hf : ∀ a, Covering (f a)) : Saving (p >>= f) :=
  fun c => bind_at (hp c) fun a c₁ _ => hf a c₁

theorem look {f : Cursor → Parser α} (hnil : ∀ c, c.tokens = [] → Saving (f c))
    (hcons : ∀ c t ts, c.tokens = t :: ts → Taking (f c)) : Saving (get >>= f) := by
  intro c
  match hc : c.tokens with
  | [] => exact hnil c hc c
  | t :: ts => exact hcons c t ts hc c (by simp [hc])

theorem failHere {error : GrammarError} : Saving (failHere error : Parser α) :=
  fun _ => .inr ⟨rfl, rfl⟩

end Saving

/-- A token that is taken pays for no error. -/
theorem Taking.skip {f : Unit → Parser α} (hf : Covering (f ())) : Taking (skip >>= f) := by
  intro c hc
  obtain ⟨t, ts, ht⟩ := List.exists_cons_of_ne_nil hc
  refine Saving.bind_at ?_ fun _ c₁ _ => hf c₁
  rw [skip_eq ht]
  show ts.length + c.errors.length < c.tokens.length + c.errors.length
  rw [ht, List.length_cons]
  omega

namespace Saving

theorem expect (what : Expectation) : Saving (expect what) := by
  rw [expect_look]
  refine look (fun c hc => ?_) fun c t ts hc => ?_
  · rw [hc]
    exact failHere
  · rw [hc]
    dsimp only
    split
    · exact .skip (.pure _)
    · exact failHere.taking

theorem expectName (what : Expectation) : Saving (expectName what) :=
  (expect what).bind fun _ => .pure _

theorem jump (s : Stmt) (what : Expectation) : Saving (jump s what) :=
  (expect _).bind fun _ => .pure _

end Saving

namespace Covering

theorem superMethod (line : Nat) : Covering (superMethod line) :=
  (Saving.expect _).covering.bind fun _ => (Saving.expectName _).covering.bind fun _ =>
    freshId.bind fun _ => .pure _

theorem superclassReference : Covering superclassReference :=
  (accept _).bind fun b => by
    cases b with
    | false => exact .pure _
    | true =>
      exact (Saving.expectName _).covering.bind fun _ => (occurrence _).bind fun _ => .pure _

theorem acceptOperator (l : Level) : Covering (acceptOperator l) := by
  refine look fun c => ?_
  split
  · exact .pure _
  · split
    · exact .pure _
    · exact skip.bind fun _ => .pure _

theorem acceptEquals : Covering acceptEquals := by
  refine look fun c => ?_
  split
  · exact .pure _
  · split
    · exact skip.bind fun _ => .pure _
    · exact .pure _

/-- The value pays for a target that takes none. -/
theorem value {value : Parser Expr} (hv : Saving value) (equals : Token) (target : Expr) :
    Covering (value >>= assignment equals target) := by
  intro c
  have h := hv c
  match hr : value c with
  | .error (.failed _) _ | .error .outOfFuel _ =>
    rw [hr] at h
    rw [Fueled.bind_error hr]
    exact h.covers
  | .ok v c₁ =>
    rw [hr] at h
    rw [Fueled.bind_ok hr]
    have refused (target : Expr) : c.Covers ((do
        report (.grammar equals.line (some equals.lexeme) .invalidAssignmentTarget)
        return target : Parser Expr) c₁) := by
      show c₁.tokens.length + (c₁.errors.length + 1) ≤ c.load
      exact h
    cases target with
    | «variable» => exact Nat.le_of_lt h
    | get => exact Nat.le_of_lt h
    | _ => exact refused _

/-- An item of a list and those behind it. The comma in front of those pays for an error there. -/
theorem list {item : Parser α} {more : Parser (List α)} (hi : Saving item)
    (hm : ∀ c : Cursor, c.Affords 1 (more c)) (c : Cursor) : c.Affords 0 ((do
      let a ← item
      if ← Parser.accept (.symbol .comma) then
        return a :: (← more)
      return [a] : Parser (List α)) c) := by
  have h := (hi c)
  match hr : item c with
  | .error (.failed _) _ | .error .outOfFuel _ =>
    rw [hr] at h
    rw [Fueled.bind_error hr]
    exact h.covers
  | .ok a c₁ =>
    rw [hr] at h
    rw [Fueled.bind_ok hr]
    match ht : c₁.tokens with
    | [] =>
      rw [Fueled.bind_ok (accept_eq_false (by simp [ht]))]
      exact h
    | t :: ts =>
      by_cases hk : t.kind = .symbol .comma
      · rw [Fueled.bind_ok (accept_eq_true ht hk)]
        have htake : Cursor.load { c₁ with tokens := ts } < c₁.load := by
          simp [Cursor.load, ht]
        have hmore := hm { c₁ with tokens := ts }
        have hlt : c₁.load < c.load := h
        simp only [↓reduceIte]
        match hr₂ : more { c₁ with tokens := ts } with
        | .ok as c₂ =>
          rw [hr₂] at hmore
          rw [Fueled.bind_ok hr₂]
          change c₂.load < _ + 1 at hmore
          show c₂.load < c.load + 0
          omega
        | .error (.failed d) c₂ =>
          rw [hr₂] at hmore
          rw [Fueled.bind_error hr₂]
          change c₂.load ≤ _ + 1 at hmore
          show c₂.load ≤ c.load + 0
          omega
        | .error .outOfFuel c₂ =>
          rw [Fueled.bind_error hr₂]
          trivial
      · rw [Fueled.bind_ok (accept_eq_false (by simp [ht, hk]))]
        exact h

end Covering

/-- Where a parser fails, the token that is skipped pays for its error, or one that it took. -/
theorem CoveringTokens.recovering (hp : Saving p) : CoveringTokens (recovering p) := by
  intro c hc
  have h := hp c
  unfold Parser.recovering
  match hr : p c with
  | .ok _ _ =>
    rw [hr] at h
    exact Nat.le_of_lt h
  | .error .outOfFuel _ => trivial
  | .error (.failed d) c₁ =>
    rw [hr] at h
    obtain ⟨skipped, hskip, hlen⟩ := Cursor.skipToBoundary_suffix c₁.tokens
    have hskip := congrArg List.length hskip
    rw [List.length_append] at hskip
    show (Cursor.skipToBoundary c₁.tokens).length + (c₁.errors.length + 1) ≤ c.load
    rcases h with hlt | ⟨ht, he⟩
    · unfold Cursor.load at hlt ⊢
      omega
    · have hpos := hlen (ht ▸ hc)
      unfold Cursor.load
      rw [← ht, ← he]
      omega

/-- One item too many is one more error. -/
theorem affords_report {error : GrammarError} (hp : ∀ c : Cursor, c.Affords 0 (p c)) (c : Cursor) :
    c.Affords 1 ((reportHere error >>= fun _ => p) c) := by
  have h := hp { c with errors := c.diagnostic error :: c.errors }
  change c.Affords 1 (p { c with errors := c.diagnostic error :: c.errors })
  match hr : p { c with errors := c.diagnostic error :: c.errors } with
  | .ok _ _ | .error (.failed _) _ =>
    rw [hr] at h
    exact h
  | .error .outOfFuel _ => trivial

theorem affords_mono {c : Cursor} {r : EStateM.Result Stop Cursor α} (h : c.Affords 0 r) :
    c.Affords 1 r := by
  match r, h with
  | .ok _ c', h => exact Nat.lt_succ_of_lt h
  | .error (.failed _) c', h => exact Nat.le_succ_of_le h
  | .error .outOfFuel _, _ => trivial

/-- Where an error may be paid for, it is not needed that it is. -/
theorem affords_one {c : Cursor} {r : EStateM.Result Stop Cursor α} {P : Prop} [Decidable P]
    (h : c.Affords (if P then 1 else 0) r) : c.Affords 1 r := by
  split at h
  · exact h
  · exact affords_mono h

theorem affords_covers {c : Cursor} {r : EStateM.Result Stop Cursor α} (h : c.Affords 0 r) :
    c.Covers r := by
  match r, h with
  | .ok _ c', h => exact Nat.le_of_lt h
  | .error (.failed _) c', h => exact h
  | .error .outOfFuel _, _ => trivial

/-- The comma in front of a parameter pays for its error, so the first one is not to have any. -/
theorem parameterList_affords (fuel count : Nat) (c : Cursor) :
    c.Affords (if maxArity ≤ count then 1 else 0) (parameterList fuel count c) := by
  induction fuel generalizing count c with
  | zero =>
    rw [parameterList]
    trivial
  | succ fuel ih =>
    have hlist := Covering.list (Saving.expectName .parameterName) fun c =>
      affords_one (ih (count + 1) c)
    unfold parameterList
    split
    · exact affords_report hlist c
    · exact hlist c

theorem Covering.parameters (fuel : Nat) : Covering (parameters fuel) :=
  (Covering.nextIs _).bind fun b => by
    cases b with
    | true => exact .pure _
    | false => exact fun c => affords_covers (parameterList_affords fuel 0 c)

/-- With this fuel, whatever phrase is read, the errors in it are paid for. -/
structure Thrifty (fuel : Nat) : Prop where
  level : ∀ l, Saving (level fuel l)
  operand : ∀ l, Saving (operand fuel l)
  chain : ∀ l left, Covering (chain fuel l left)
  expression : Saving (expression fuel)
  ternary : Saving (ternary fuel)
  assigned : Saving (assigned fuel)
  unary : Saving (unary fuel)
  call : Saving (call fuel)
  calls : ∀ object, Covering (calls fuel object)
  arguments : Covering (arguments fuel)
  argumentList : ∀ count (c : Cursor),
    c.Affords (if maxArity ≤ count then 1 else 0) (argumentList fuel count c)
  primary : Saving (primary fuel)
  group : Covering (group fuel)
  lambda : ∀ line, Covering (lambda fuel line)
  functionRest : ∀ name? line sort, Covering (functionRest fuel name? line sort)
  block : Covering (block fuel)
  declarations : ∀ read, Covering (declarations fuel read)
  declaration : CoveringTokens (declaration fuel)
  declared : Saving (declared fuel)
  classDeclaration : Covering (classDeclaration fuel)
  members : ∀ methods getters, Covering (members fuel methods getters)
  function : ∀ sort, Saving (function fuel sort)
  getter : Saving (getter fuel)
  varDeclaration : Covering (varDeclaration fuel)
  initializer : Covering (initializer fuel)
  statement : Saving (statement fuel)
  expressionStatement : Saving (expressionStatement fuel)
  printStatement : Covering (printStatement fuel)
  returnStatement : ∀ line, Covering (returnStatement fuel line)
  unlessNext : ∀ s, Covering (unlessNext fuel s)
  whileStatement : Covering (whileStatement fuel)
  ifStatement : Covering (ifStatement fuel)
  forStatement : Covering (forStatement fuel)
  forStart : Covering (forStart fuel)

namespace Thrifty

variable {fuel : Nat} (ih : Thrifty fuel)

include ih in
theorem operand_succ (l : Level) : Saving (Parser.operand (fuel + 1) l) := by
  unfold Parser.operand
  cases l with
  | comma => exact ih.ternary
  | factor => exact ih.unary
  | _ => exact ih.level _

include ih in
theorem chain_succ (l : Level) (left : Expr) : Covering (Parser.chain (fuel + 1) l left) := by
  unfold Parser.chain
  refine (Covering.acceptOperator l).bind fun r => ?_
  match r with
  | none => exact .pure _
  | some _ => exact (ih.operand l).covering.bind fun _ => ih.chain l _

include ih in
theorem ternary_succ : Saving (Parser.ternary (fuel + 1)) := by
  unfold Parser.ternary
  refine ih.assigned.bind fun _ => (Covering.accept _).bind fun b => ?_
  cases b with
  | false => exact .pure _
  | true =>
    exact ih.expression.covering.bind fun _ => (Saving.expect _).covering.bind fun _ =>
      ih.ternary.covering.bind fun _ => .pure _

include ih in
theorem assigned_succ : Saving (Parser.assigned (fuel + 1)) := by
  unfold Parser.assigned
  refine (ih.level _).bind fun target => Covering.acceptEquals.bind fun equals? => ?_
  cases equals? with
  | none => exact .pure _
  | some equals => exact .value ih.assigned equals target

include ih in
theorem unary_succ : Saving (Parser.unary (fuel + 1)) := by
  unfold Parser.unary acceptUnary
  rw [bind_assoc]
  refine .look (fun c hc => ?_) fun c t ts hc => ?_
  · rw [hc]
    exact ih.call
  · rw [hc]
    dsimp only
    cases UnaryOp.ofKind? t.kind with
    | none => exact ih.call.taking
    | some op =>
      simp only [bind_assoc, pure_bind]
      exact .skip (ih.unary.covering.bind fun _ => .pure _)

include ih in
theorem calls_succ (object : Expr) : Covering (Parser.calls (fuel + 1) object) := by
  unfold Parser.calls
  refine .peek fun kind? => ?_
  split
  · exact Covering.skip.bind fun _ => ih.arguments.bind fun _ =>
      (Saving.expect _).covering.bind fun _ => ih.calls _
  · exact Covering.skip.bind fun _ => (Saving.expectName _).covering.bind fun _ => ih.calls _
  · exact .pure _

include ih in
theorem arguments_succ : Covering (Parser.arguments (fuel + 1)) := by
  unfold Parser.arguments
  refine (Covering.nextIs _).bind fun b => ?_
  cases b with
  | false => exact fun c => affords_covers (ih.argumentList 0 c)
  | true => exact .pure _

include ih in
theorem argumentList_succ (count : Nat) (c : Cursor) :
    c.Affords (if maxArity ≤ count then 1 else 0) (Parser.argumentList (fuel + 1) count c) := by
  have hlist := Covering.list ih.ternary fun c => affords_one (ih.argumentList (count + 1) c)
  unfold Parser.argumentList
  split
  · exact affords_report hlist c
  · exact hlist c

include ih in
theorem primary_succ : Saving (Parser.primary (fuel + 1)) := by
  unfold Parser.primary
  refine .look (fun c hc => ?_) fun c t ts hc => ?_
  · rw [hc]
    exact .failHere
  · rw [hc]
    dsimp only
    split
    case h_6 => exact .skip (.superMethod _)
    case h_7 => exact .skip (Covering.freshId.bind fun _ => .pure _)
    case h_8 => exact .skip ((Covering.occurrence _).bind fun _ => .pure _)
    case h_9 => exact .skip ih.group
    case h_10 => exact .skip (ih.lambda _)
    case h_11 => exact Saving.failHere.taking
    all_goals exact .skip (.pure _)

include ih in
theorem functionRest_succ (name? : Option Name) (line : Nat) (sort : FunctionSort) :
    Covering (Parser.functionRest (fuel + 1) name? line sort) := by
  unfold Parser.functionRest
  exact (Covering.parameters fuel).bind fun _ => (Saving.expect _).covering.bind fun _ =>
    (Saving.expect _).covering.bind fun _ => ih.block.bind fun _ => .pure _

include ih in
theorem declarations_succ (read : List Stmt) :
    Covering (Parser.declarations (fuel + 1) read) := by
  unfold Parser.declarations
  refine .peekToken (.pure _) fun kind => ?_
  split
  · exact (Covering.pure _).tokens
  · exact (Covering.pure _).tokens
  · refine ih.declaration.bind fun s? => ?_
    cases s? with
    | none => exact ih.declarations read
    | some s => exact ih.declarations (s :: read)

include ih in
theorem declared_succ : Saving (Parser.declared (fuel + 1)) := by
  unfold Parser.declared
  refine .look (fun c hc => ?_) fun c t ts hc => ?_
  · rw [hc]
    exact ih.statement
  · rw [hc]
    split
    · exact .skip ih.classDeclaration
    · exact .skip ((ih.function _).covering.bind fun _ => .pure _)
    · exact .skip ih.varDeclaration
    · exact ih.statement.taking

include ih in
theorem classDeclaration_succ : Covering (Parser.classDeclaration (fuel + 1)) := by
  unfold Parser.classDeclaration
  exact (Saving.expectName _).covering.bind fun _ => Covering.superclassReference.bind fun _ =>
    (Saving.expect _).covering.bind fun _ => (ih.members [] []).bind fun _ =>
      (Saving.expect _).covering.bind fun _ => .pure _

include ih in
theorem members_succ (methods getters : List Function) :
    Covering (Parser.members (fuel + 1) methods getters) := by
  unfold Parser.members
  refine .look fun c => ?_
  split
  · exact .pure _
  · exact .pure _
  · exact (ih.function _).covering.bind fun _ => ih.members _ _
  · exact ih.getter.covering.bind fun _ => ih.members _ _

include ih in
theorem initializer_succ : Covering (Parser.initializer (fuel + 1)) := by
  unfold Parser.initializer
  refine (Covering.accept _).bind fun b => ?_
  cases b with
  | false => exact .pure _
  | true => exact ih.expression.covering.bind fun _ => .pure _

include ih in
theorem statement_succ : Saving (Parser.statement (fuel + 1)) := by
  unfold Parser.statement
  refine .look (fun c hc => ?_) fun c t ts hc => ?_
  · rw [hc]
    exact ih.expressionStatement
  · rw [hc]
    dsimp only
    split
    · exact .skip ih.forStatement
    · exact .skip ih.ifStatement
    · exact .skip ih.printStatement
    · exact .skip (ih.returnStatement _)
    · exact .skip ih.whileStatement
    · exact .skip (Saving.jump _ _).covering
    · exact .skip (Saving.jump _ _).covering
    · exact .skip (ih.block.bind fun _ => .pure _)
    · exact ih.expressionStatement.taking

include ih in
theorem unlessNext_succ (s : Symbol) : Covering (Parser.unlessNext (fuel + 1) s) := by
  unfold Parser.unlessNext
  refine (Covering.nextIs _).bind fun b => ?_
  cases b with
  | false => exact ih.expression.covering.bind fun _ => .pure _
  | true => exact .pure _

include ih in
theorem ifStatement_succ : Covering (Parser.ifStatement (fuel + 1)) := by
  unfold Parser.ifStatement
  refine (Saving.expect _).covering.bind fun _ => ih.expression.covering.bind fun _ =>
    (Saving.expect _).covering.bind fun _ => ih.statement.covering.bind fun _ =>
      (Covering.accept _).bind fun b => ?_
  cases b with
  | false => exact .pure _
  | true => exact ih.statement.covering.bind fun _ => .pure _

include ih in
theorem forStatement_succ : Covering (Parser.forStatement (fuel + 1)) := by
  unfold Parser.forStatement
  exact (Saving.expect _).covering.bind fun _ => ih.forStart.bind fun _ =>
    (ih.unlessNext _).bind fun _ => (Saving.expect _).covering.bind fun _ =>
      (ih.unlessNext _).bind fun _ => (Saving.expect _).covering.bind fun _ =>
        ih.statement.covering.bind fun _ => .pure _

include ih in
theorem forStart_succ : Covering (Parser.forStart (fuel + 1)) := by
  unfold Parser.forStart
  refine .peek fun kind? => ?_
  split
  · exact Covering.skip.bind fun _ => .pure _
  · exact Covering.skip.bind fun _ => ih.varDeclaration.bind fun _ => .pure _
  · exact ih.expressionStatement.covering.bind fun _ => .pure _

end Thrifty

theorem thrifty_zero : Thrifty 0 := by
  constructor
  all_goals
    intros
    simp only [level, operand, chain, expression, ternary, assigned, unary, call, calls, arguments,
      argumentList, primary, group, lambda, functionRest, block, declarations, declaration,
      declared, classDeclaration, members, function, getter, varDeclaration, initializer,
      statement, expressionStatement, printStatement, returnStatement, unlessNext,
      whileStatement, ifStatement, forStatement, forStart]
    first
    | exact Covering.exhausted
    | exact Saving.exhausted
    | exact Covering.exhausted.tokens
    | trivial

/-- The errors in a phrase are paid for with tokens of the phrase. -/
theorem thrifty (fuel : Nat) : Thrifty fuel := by
  induction fuel with
  | zero => exact thrifty_zero
  | succ fuel ih =>
    exact {
      level := fun l => by
        unfold level
        exact (ih.operand l).bind fun _ => ih.chain l _
      operand := ih.operand_succ
      chain := ih.chain_succ
      expression := by
        unfold expression
        exact ih.level _
      ternary := ih.ternary_succ
      assigned := ih.assigned_succ
      unary := ih.unary_succ
      call := by
        unfold call
        exact ih.primary.bind fun _ => ih.calls _
      calls := ih.calls_succ
      arguments := ih.arguments_succ
      argumentList := ih.argumentList_succ
      primary := ih.primary_succ
      group := by
        unfold group
        exact ih.expression.covering.bind fun _ => (Saving.expect _).covering.bind fun _ => .pure _
      lambda := fun _ => by
        unfold lambda
        exact (Saving.expect _).covering.bind fun _ =>
          (ih.functionRest _ _ _).bind fun _ => .pure _
      functionRest := ih.functionRest_succ
      block := by
        unfold block
        exact (ih.declarations []).bind fun _ => (Saving.expect _).covering.bind fun _ => .pure _
      declarations := ih.declarations_succ
      declaration := by
        unfold declaration
        exact .recovering ih.declared
      declared := ih.declared_succ
      classDeclaration := ih.classDeclaration_succ
      members := ih.members_succ
      function := fun _ => by
        unfold function
        exact (Saving.expectName _).bind fun _ => (Saving.expect _).covering.bind fun _ =>
          ih.functionRest _ _ _
      getter := by
        unfold getter
        exact (Saving.expectName _).bind fun _ => (Saving.expect _).covering.bind fun _ =>
          ih.block.bind fun _ => .pure _
      varDeclaration := by
        unfold varDeclaration
        exact (Saving.expectName _).covering.bind fun _ => ih.initializer.bind fun _ =>
          (Saving.expect _).covering.bind fun _ => .pure _
      initializer := ih.initializer_succ
      statement := ih.statement_succ
      expressionStatement := by
        unfold expressionStatement
        exact ih.expression.bind fun _ => (Saving.expect _).covering.bind fun _ => .pure _
      printStatement := by
        unfold printStatement
        exact ih.expression.covering.bind fun _ => (Saving.expect _).covering.bind fun _ => .pure _
      returnStatement := fun _ => by
        unfold returnStatement
        exact (ih.unlessNext _).bind fun _ => (Saving.expect _).covering.bind fun _ => .pure _
      unlessNext := ih.unlessNext_succ
      whileStatement := by
        unfold whileStatement
        exact (Saving.expect _).covering.bind fun _ => ih.expression.covering.bind fun _ =>
          (Saving.expect _).covering.bind fun _ => ih.statement.covering.bind fun _ => .pure _
      ifStatement := ih.ifStatement_succ
      forStatement := ih.forStatement_succ
      forStart := ih.forStart_succ }

theorem program_covering (fuel : Nat) (read : List Stmt) : Covering (program fuel read) := by
  induction fuel generalizing read with
  | zero =>
    rw [program]
    exact .exhausted
  | succ fuel ih =>
    unfold program
    refine .peekToken (.pure _) fun kind => (thrifty fuel).declaration.bind fun s? => ?_
    cases s? with
    | none => exact ih read
    | some s => exact ih (s :: read)

end Parser

end LoxLang
