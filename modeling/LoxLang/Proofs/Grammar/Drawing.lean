import LoxLang.Program
import LoxLang.Proofs.Fuel
import LoxLang.Proofs.Tree.Nodes
import Mathlib.Data.List.Basic

/-!
When numbers are drawn. A parser draws them in ascending order, each when it reads the occurrence;
the target of an assignment has its number when the value behind it has been read. So what a parser
has read has numbers below the next one, and in an assignment the number of the target is above all
numbers of the value.
-/

namespace LoxLang

/-- Whether an assignment has a number above those of its value. -/
def Expr.Ascends : Expr → Prop
  | .assign target value => ∀ id ∈ value.ids, id < target.id
  | _ => True

/-- Numbers that are drawn before the next one, in nodes whose assignments ascend. -/
structure Drawn (next : Nat) (ids : List Nat) (nodes : List Expr) : Prop where
  below : ∀ id ∈ ids, id < next
  ascends : ∀ e ∈ nodes, e.Ascends

namespace Drawn

variable {next later : Nat} {ids ids' : List Nat} {nodes nodes' : List Expr} {e : Expr}

theorem nil : Drawn next [] [] :=
  ⟨by simp, by simp⟩

theorem mono (h : Drawn next ids nodes) (hn : next ≤ later) : Drawn later ids nodes :=
  ⟨fun id hid => Nat.lt_of_lt_of_le (h.below id hid) hn, h.ascends⟩

theorem append (h : Drawn next ids nodes) (h' : Drawn next ids' nodes') :
    Drawn next (ids ++ ids') (nodes ++ nodes') :=
  ⟨List.forall_mem_append.mpr ⟨h.below, h'.below⟩,
    List.forall_mem_append.mpr ⟨h.ascends, h'.ascends⟩⟩

/-- A node above others, which is no assignment. -/
theorem node (h : Drawn next ids nodes) (he : e.Ascends) : Drawn next ids (e :: nodes) :=
  ⟨h.below, List.forall_mem_cons.mpr ⟨he, h.ascends⟩⟩

theorem of_subset (h : Drawn next ids nodes) (hi : ids' ⊆ ids) (hn : nodes' ⊆ nodes) :
    Drawn next ids' nodes' :=
  ⟨fun id hid => h.below id (hi hid), fun e he => h.ascends e (hn he)⟩

end Drawn

abbrev Expr.Drawn (next : Nat) (e : Expr) : Prop := LoxLang.Drawn next e.ids e.nodes
abbrev exprsDrawn (next : Nat) (es : List Expr) : Prop := Drawn next (exprsIds es) (exprsNodes es)
abbrev Function.Drawn (next : Nat) (f : Function) : Prop := LoxLang.Drawn next f.ids f.nodes
abbrev Stmt.Drawn (next : Nat) (s : Stmt) : Prop := LoxLang.Drawn next s.ids s.nodes
abbrev stmtsDrawn (next : Nat) (ss : List Stmt) : Prop := Drawn next (stmtsIds ss) (stmtsNodes ss)
abbrev functionsDrawn (next : Nat) (fs : List Function) : Prop :=
  Drawn next (functionsIds fs) (functionsNodes fs)

theorem stmtsDrawn.reverse {next : Nat} {ss : List Stmt} (h : stmtsDrawn next ss) :
    stmtsDrawn next ss.reverse := by
  apply h.of_subset
  · rw [stmtsIds_eq_flatMap, stmtsIds_eq_flatMap]
    exact ((List.reverse_perm ss).flatMap_right _).subset
  · rw [stmtsNodes_eq_flatMap, stmtsNodes_eq_flatMap]
    exact ((List.reverse_perm ss).flatMap_right _).subset

theorem functionsDrawn.reverse {next : Nat} {fs : List Function} (h : functionsDrawn next fs) :
    functionsDrawn next fs.reverse := by
  apply h.of_subset
  · rw [functionsIds_eq_flatMap, functionsIds_eq_flatMap]
    exact ((List.reverse_perm fs).flatMap_right _).subset
  · rw [functionsNodes_eq_flatMap, functionsNodes_eq_flatMap]
    exact ((List.reverse_perm fs).flatMap_right _).subset

/-- From `c` a parser has drawn ascending numbers, and its result is one of `V`, given the next
number behind it. -/
def Cursor.Drew {α : Type} (V : Nat → α → Prop) (c : Cursor) :
    EStateM.Result Stop Cursor α → Prop
  | .ok a c' => c.nextId ≤ c'.nextId ∧ V c'.nextId a
  | .error _ c' => c.nextId ≤ c'.nextId

namespace Parser

variable {α β : Type} {n : Nat} {V : Nat → α → Prop} {W : Nat → β → Prop} {p : Parser α}
  {f : α → Parser β}

/-- Parsers that draw ascending numbers, from `n` on, and read what is in `V`. -/
def Draws {α : Type} (n : Nat) (V : Nat → α → Prop) (p : Parser α) : Prop :=
  ∀ c : Cursor, n ≤ c.nextId → c.Drew V (p c)

/-- Parsers that read no tree. -/
abbrev Passes {α : Type} (p : Parser α) : Prop :=
  ∀ n, Draws n (fun _ _ => True) p

namespace Draws

theorem pure {a : α} (h : ∀ m, n ≤ m → V m a) : Draws n V (Pure.pure a) :=
  fun _ hc => ⟨Nat.le_refl _, h _ hc⟩

theorem exhausted : Draws n V (Fueled.exhausted : Parser α) :=
  fun _ _ => Nat.le_refl _

theorem failHere {error : GrammarError} : Draws n V (Parser.failHere error : Parser α) :=
  fun _ _ => Nat.le_refl _

/-- What follows draws its numbers behind those drawn so far. -/
theorem bind (hp : Draws n V p) (hf : ∀ a m, n ≤ m → V m a → Draws m W (f a)) :
    Draws n W (p >>= f) := by
  intro c hc
  have h := hp c hc
  match hr : p c with
  | .error e c₁ =>
    rw [hr] at h
    rw [Fueled.bind_error hr]
    exact h
  | .ok a c₁ =>
    rw [hr] at h
    rw [Fueled.bind_ok hr]
    have h' := hf a c₁.nextId (Nat.le_trans hc h.1) h.2 c₁ (Nat.le_refl _)
    match f a c₁, h' with
    | .ok b c₂, h' => exact ⟨Nat.le_trans h.1 h'.1, h'.2⟩
    | .error e c₂, h' => exact Nat.le_trans h.1 h'

/-- What follows a step that reads no tree. -/
theorem step (hp : Passes p) (hf : ∀ a m, n ≤ m → Draws m W (f a)) : Draws n W (p >>= f) :=
  (hp n).bind fun a m hm _ => hf a m hm

theorem look {f : Cursor → Parser α} (hf : ∀ c, Draws n V (f c)) : Draws n V (get >>= f) :=
  fun c hc => hf c c hc

theorem peek {f : Option Kind → Parser α} (hf : ∀ kind?, Draws n V (f kind?)) :
    Draws n V (peek? >>= f) :=
  fun c hc => hf (c.tokens.head?.map Token.kind) c hc

theorem freshId : Draws n (fun m id => n ≤ id ∧ id < m) Parser.freshId :=
  fun c hc => ⟨Nat.le_succ c.nextId, hc, Nat.lt_succ_self c.nextId⟩

theorem occurrence (name : Name) :
    Draws n (fun m o => n ≤ o.id ∧ o.id < m) (Parser.occurrence name) :=
  freshId.bind fun _ _ _ hid => .pure fun _ hm => ⟨hid.1, Nat.lt_of_lt_of_le hid.2 hm⟩

theorem recovering (h : Draws n V p) :
    Draws n (fun m a? => ∀ a ∈ a?, V m a) (Parser.recovering p) := by
  intro c hc
  have h := h c hc
  unfold Parser.recovering
  match p c, h with
  | .ok a c', h => exact ⟨h.1, by simpa using h.2⟩
  | .error (.failed d) c', h => exact ⟨h, by simp⟩
  | .error .outOfFuel c', h => exact h

end Draws

namespace Passes

theorem pure (a : α) : Passes (Pure.pure a : Parser α) :=
  fun _ => .pure fun _ _ => trivial

theorem skip : Passes skip :=
  fun _ _ _ => ⟨Nat.le_refl _, trivial⟩

theorem report (d : Diagnostic) : Passes (report d) :=
  fun _ _ _ => ⟨Nat.le_refl _, trivial⟩

theorem reportHere (error : GrammarError) : Passes (reportHere error) :=
  fun _ _ _ => ⟨Nat.le_refl _, trivial⟩

theorem nextIs (kind : Kind) : Passes (nextIs kind) := by
  intro n
  apply Draws.look
  intro c
  split <;> exact pure _ n

theorem accept (kind : Kind) : Passes (accept kind) := by
  intro n
  apply Draws.step (nextIs kind)
  intro b m _
  split
  · exact .step skip fun _ m _ => pure _ m
  · exact pure _ m

theorem expect (what : Expectation) : Passes (expect what) := by
  intro n c _
  unfold Parser.expect
  rw [Fueled.bind_get]
  cases c.tokens with
  | nil => exact Nat.le_refl _
  | cons t ts =>
    dsimp only
    split
    · exact ⟨Nat.le_refl _, trivial⟩
    · exact Nat.le_refl _

theorem expectName (what : Expectation) : Passes (expectName what) :=
  fun _ => .step (expect what) fun _ m _ => pure _ m

theorem acceptOperator (l : Level) : Passes (acceptOperator l) := by
  intro n
  apply Draws.look
  intro c
  split
  · exact pure _ n
  · split
    · exact pure _ n
    · exact .step skip fun _ m _ => pure _ m

theorem acceptUnary : Passes acceptUnary := by
  intro n
  apply Draws.look
  intro c
  split
  · exact pure _ n
  · split
    · exact pure _ n
    · exact .step skip fun _ m _ => pure _ m

theorem acceptEquals : Passes acceptEquals := by
  intro n
  apply Draws.look
  intro c
  split
  · exact pure _ n
  · split
    · exact .step skip fun _ m _ => pure _ m
    · exact pure _ n

theorem parameterList (fuel count : Nat) : Passes (parameterList fuel count) := by
  intro n
  induction fuel generalizing n count with
  | zero => exact .exhausted
  | succ fuel ih =>
    have names (m : Nat) : Draws m (fun _ _ => True) (do
        let name ← Parser.expectName .parameterName
        if ← Parser.accept (.symbol .comma) then
          return name :: (← Parser.parameterList fuel (count + 1))
        return [name]) := by
      apply Draws.step (expectName _)
      intro name m _
      apply Draws.step (accept _)
      intro b m _
      split
      · exact (ih (count + 1) m).bind fun _ m _ _ => pure _ m
      · exact pure _ m
    unfold Parser.parameterList
    split
    · exact .step (reportHere _) fun _ m _ => names m
    · exact names n

theorem parameters (fuel : Nat) : Passes (parameters fuel) := by
  intro n
  apply Draws.step (nextIs _)
  intro b m _
  split
  · exact pure _ m
  · exact parameterList fuel 0 m

end Passes

/-- With this fuel, whatever is read has its numbers drawn in order, if what was read before has. -/
structure Drawing (fuel : Nat) : Prop where
  level : ∀ n l, Draws n Expr.Drawn (level fuel l)
  operand : ∀ n l, Draws n Expr.Drawn (operand fuel l)
  chain : ∀ n l left, left.Drawn n → Draws n Expr.Drawn (chain fuel l left)
  expression : ∀ n, Draws n Expr.Drawn (expression fuel)
  ternary : ∀ n, Draws n Expr.Drawn (ternary fuel)
  assigned : ∀ n, Draws n Expr.Drawn (assigned fuel)
  unary : ∀ n, Draws n Expr.Drawn (unary fuel)
  call : ∀ n, Draws n Expr.Drawn (call fuel)
  calls : ∀ n object, object.Drawn n → Draws n Expr.Drawn (calls fuel object)
  arguments : ∀ n, Draws n exprsDrawn (arguments fuel)
  argumentList : ∀ n count, Draws n exprsDrawn (argumentList fuel count)
  primary : ∀ n, Draws n Expr.Drawn (primary fuel)
  group : ∀ n, Draws n Expr.Drawn (group fuel)
  lambda : ∀ n line, Draws n Expr.Drawn (lambda fuel line)
  functionRest : ∀ n name? line sort,
    Draws n Function.Drawn (functionRest fuel name? line sort)
  block : ∀ n, Draws n stmtsDrawn (block fuel)
  declarations : ∀ n read, stmtsDrawn n read → Draws n stmtsDrawn (declarations fuel read)
  declaration : ∀ n, Draws n (fun m s? => ∀ s ∈ s?, s.Drawn m) (declaration fuel)
  declared : ∀ n, Draws n Stmt.Drawn (declared fuel)
  classDeclaration : ∀ n, Draws n Stmt.Drawn (classDeclaration fuel)
  members : ∀ n methods getters, functionsDrawn n methods → functionsDrawn n getters →
    Draws n (fun m read => functionsDrawn m read.1 ∧ functionsDrawn m read.2)
      (members fuel methods getters)
  function : ∀ n sort, Draws n Function.Drawn (function fuel sort)
  getter : ∀ n, Draws n Function.Drawn (getter fuel)
  varDeclaration : ∀ n, Draws n Stmt.Drawn (varDeclaration fuel)
  initializer : ∀ n, Draws n (fun m e? => ∀ e ∈ e?, e.Drawn m) (initializer fuel)
  statement : ∀ n, Draws n Stmt.Drawn (statement fuel)
  expressionStatement : ∀ n, Draws n Stmt.Drawn (expressionStatement fuel)
  printStatement : ∀ n, Draws n Stmt.Drawn (printStatement fuel)
  returnStatement : ∀ n line, Draws n Stmt.Drawn (returnStatement fuel line)
  unlessNext : ∀ n s, Draws n (fun m e? => ∀ e ∈ e?, e.Drawn m) (unlessNext fuel s)
  whileStatement : ∀ n, Draws n Stmt.Drawn (whileStatement fuel)
  ifStatement : ∀ n, Draws n Stmt.Drawn (ifStatement fuel)
  forStatement : ∀ n, Draws n Stmt.Drawn (forStatement fuel)
  forStart : ∀ n, Draws n (fun m s? => ∀ s ∈ s?, s.Drawn m) (forStart fuel)

/-- Without a tree there are no numbers. -/
theorem Draws.leaf {e : Expr} (hi : e.ids = []) (hn : e.nodes = [e]) (he : e.Ascends) :
    Draws n Expr.Drawn (Pure.pure e) := by
  apply Draws.pure
  intro m _
  rw [Expr.Drawn, hi, hn]
  exact Drawn.nil.node he

/-- The target gets a number of its own, and that of the variable that was read is dropped. -/
theorem Draws.assignment (equals : Token) {target value : Expr} (ht : target.Drawn n)
    (hv : value.Drawn n) : Draws n Expr.Drawn (Parser.assignment equals target value) := by
  unfold Parser.assignment
  split
  · apply (Draws.occurrence _).bind
    intro o m hm ho
    apply Draws.pure
    intro k hk
    constructor
    · rw [Expr.ids, List.forall_mem_append, List.forall_mem_singleton]
      exact ⟨(hv.mono (Nat.le_trans hm hk)).below, Nat.lt_of_lt_of_le ho.2 hk⟩
    · rw [Expr.nodes, List.forall_mem_cons]
      exact ⟨fun id hid => Nat.lt_of_lt_of_le (hv.below id hid) ho.1, hv.ascends⟩
  · rename_i object name
    have ho : object.Drawn n := ht.of_subset (List.Subset.refl _) (List.subset_cons_self _ _)
    have hset : (Expr.set object name value).Drawn n :=
      Drawn.node ⟨(hv.append ho).below, (ho.append hv).ascends⟩ trivial
    exact .pure fun m hm => hset.mono hm
  · exact .step (Passes.report _) fun _ m hm => .pure fun k hk => ht.mono (Nat.le_trans hm hk)

theorem Draws.superMethod (line : Nat) : Draws n Expr.Drawn (superMethod line) := by
  apply Draws.step (Passes.expect _)
  intro _ m _
  apply Draws.step (Passes.expectName _)
  intro method m _
  apply Draws.freshId.bind
  intro id k _ hid
  apply Draws.pure
  intro k' hk
  exact ⟨by simpa using Nat.lt_of_lt_of_le hid.2 hk, by simp [Expr.Ascends]⟩

theorem Draws.superclassReference :
    Draws n (fun m o? => ∀ o ∈ o?, o.id < m) superclassReference := by
  apply Draws.step (Passes.accept _)
  intro b m _
  cases b with
  | false => exact .pure fun _ _ _ h => by cases h
  | true =>
    apply Draws.step (Passes.expectName _)
    intro name m _
    apply (Draws.occurrence name).bind
    intro o k _ ho
    apply Draws.pure
    rintro k' hk _ ⟨⟩
    exact Nat.lt_of_lt_of_le ho.2 hk

theorem Draws.jump {s : Stmt} (what : Expectation) (hi : s.ids = []) (hn : s.nodes = []) :
    Draws n Stmt.Drawn (Parser.jump s what) := by
  apply Draws.step (Passes.expect what)
  intro _ m _
  apply Draws.pure
  intro k _
  rw [Stmt.Drawn, hi, hn]
  exact .nil

theorem Drawn.forLoop {start? : Option Stmt} {condition : Expr} {increment? : Option Expr}
    {body : Stmt} (hs : ∀ s ∈ start?, s.Drawn n) (hc : condition.Drawn n)
    (hi : ∀ e ∈ increment?, e.Drawn n) (hb : body.Drawn n) :
    (forLoop start? condition increment? body).Drawn n := by
  have loop : (Stmt.while condition body increment?).Drawn n := by
    cases increment? with
    | none => exact hc.append hb
    | some increment => exact hc.append (hb.append (hi increment rfl))
  cases start? with
  | none => exact loop
  | some start => exact (hs start rfl).append (loop.append .nil)

theorem drawing_zero : Drawing 0 := by
  constructor
  all_goals
    intros
    simp only [level, operand, chain, expression, ternary, assigned, unary, call, calls, arguments,
      argumentList, primary, group, lambda, functionRest, block, declarations, declaration,
      declared, classDeclaration, members, function, getter, varDeclaration, initializer,
      statement, expressionStatement, printStatement, returnStatement, unlessNext,
      whileStatement, ifStatement, forStatement, forStart]
    exact .exhausted

namespace Drawing

variable {fuel : Nat}

variable (ih : Drawing fuel) (n : Nat)
include ih

theorem level_succ (l : Level) : Draws n Expr.Drawn (Parser.level (fuel + 1) l) := by
  unfold Parser.level
  exact (ih.operand n l).bind fun first m _ h => ih.chain m l first h

theorem operand_succ (l : Level) : Draws n Expr.Drawn (Parser.operand (fuel + 1) l) := by
  unfold Parser.operand
  cases l with
  | comma => exact ih.ternary n
  | factor => exact ih.unary n
  | _ => exact ih.level n _

theorem chain_succ (l : Level) (left : Expr) (hl : left.Drawn n) :
    Draws n Expr.Drawn (Parser.chain (fuel + 1) l left) := by
  unfold Parser.chain
  apply Draws.step (Passes.acceptOperator l)
  intro r m hm
  match r with
  | none => exact .pure fun k hk => hl.mono (Nat.le_trans hm hk)
  | some (op, line) =>
    apply (ih.operand m l).bind
    intro right k hk hr
    apply ih.chain
    have h := (hl.mono (Nat.le_trans hm hk)).append hr
    cases op <;> exact h.node trivial

theorem ternary_succ : Draws n Expr.Drawn (Parser.ternary (fuel + 1)) := by
  unfold Parser.ternary
  apply (ih.assigned n).bind
  intro condition m hm hc
  apply Draws.step (Passes.accept _)
  intro b m₁ hm₁
  cases b with
  | false => exact .pure fun k hk => hc.mono (Nat.le_trans hm₁ hk)
  | true =>
    apply (ih.expression m₁).bind
    intro thenBranch m₂ hm₂ ht
    apply Draws.step (Passes.expect _)
    intro _ m₃ hm₃
    apply (ih.ternary m₃).bind
    intro elseBranch m₄ hm₄ he
    apply Draws.pure
    intro k hk
    exact ((hc.mono (by omega)).append ((ht.mono (by omega)).append (he.mono hk))).node trivial

theorem assigned_succ : Draws n Expr.Drawn (Parser.assigned (fuel + 1)) := by
  unfold Parser.assigned
  apply (ih.level n .or).bind
  intro target m hm ht
  apply Draws.step Passes.acceptEquals
  intro equals? m₁ hm₁
  cases equals? with
  | none => exact .pure fun k hk => ht.mono (Nat.le_trans hm₁ hk)
  | some equals =>
    apply (ih.assigned m₁).bind
    intro value m₂ hm₂ hv
    exact .assignment equals (ht.mono (Nat.le_trans hm₁ hm₂)) hv

theorem unary_succ : Draws n Expr.Drawn (Parser.unary (fuel + 1)) := by
  unfold Parser.unary
  apply Draws.step Passes.acceptUnary
  intro r m hm
  match r with
  | none => exact ih.call m
  | some (op, line) =>
    exact (ih.unary m).bind fun operand k _ h => .pure fun k' hk => (h.mono hk).node trivial

theorem calls_succ (object : Expr) (ho : object.Drawn n) :
    Draws n Expr.Drawn (Parser.calls (fuel + 1) object) := by
  unfold Parser.calls
  apply Draws.peek
  intro kind?
  split
  · apply Draws.step Passes.skip
    intro _ m hm
    apply (ih.arguments m).bind
    intro arguments m₁ hm₁ ha
    apply Draws.step (Passes.expect _)
    intro closing m₂ hm₂
    apply ih.calls
    exact ((ho.mono (by omega)).append (ha.mono hm₂)).node trivial
  · apply Draws.step Passes.skip
    intro _ m hm
    apply Draws.step (Passes.expectName _)
    intro name m₁ hm₁
    apply ih.calls
    exact (ho.mono (by omega)).node trivial
  · exact .pure fun k hk => ho.mono hk

theorem arguments_succ : Draws n exprsDrawn (Parser.arguments (fuel + 1)) := by
  unfold Parser.arguments
  apply Draws.step (Passes.nextIs _)
  intro b m _
  cases b with
  | false => exact ih.argumentList m 0
  | true => exact .pure fun _ _ => .nil

theorem argumentList_succ (count : Nat) :
    Draws n exprsDrawn (Parser.argumentList (fuel + 1) count) := by
  have list (m : Nat) : Draws m exprsDrawn (do
      let argument ← Parser.ternary fuel
      if ← accept (.symbol .comma) then
        return argument :: (← Parser.argumentList fuel (count + 1))
      return [argument]) := by
    apply (ih.ternary m).bind
    intro argument m₁ _ ha
    apply Draws.step (Passes.accept _)
    intro b m₂ hm₂
    cases b with
    | false => exact .pure fun k hk => (ha.mono (Nat.le_trans hm₂ hk)).append .nil
    | true =>
      apply (ih.argumentList m₂ _).bind
      intro arguments m₃ hm₃ has
      exact .pure fun k hk => (ha.mono (by omega)).append (has.mono hk)
  unfold Parser.argumentList
  split
  · exact .step (Passes.reportHere _) fun _ m _ => list m
  · exact list n

theorem primary_succ : Draws n Expr.Drawn (Parser.primary (fuel + 1)) := by
  unfold Parser.primary
  apply Draws.look
  intro c
  split
  · exact .failHere
  · split
    case h_6 => exact .step Passes.skip fun _ m _ => .superMethod _
    case h_7 =>
      apply Draws.step Passes.skip
      intro _ m _
      apply Draws.freshId.bind
      intro id m₁ _ hid
      apply Draws.pure
      intro k hk
      exact ⟨by simpa using Nat.lt_of_lt_of_le hid.2 hk, by simp [Expr.Ascends]⟩
    case h_8 =>
      apply Draws.step Passes.skip
      intro _ m _
      apply (Draws.occurrence _).bind
      intro o m₁ _ ho
      apply Draws.pure
      intro k hk
      exact ⟨by simpa using Nat.lt_of_lt_of_le ho.2 hk, by simp [Expr.Ascends]⟩
    case h_9 => exact .step Passes.skip fun _ m _ => ih.group m
    case h_10 => exact .step Passes.skip fun _ m _ => ih.lambda m _
    case h_11 => exact .failHere
    all_goals exact .step Passes.skip fun _ m _ => .leaf rfl rfl trivial

theorem functionRest_succ (name? : Option Name) (line : Nat) (sort : FunctionSort) :
    Draws n Function.Drawn (Parser.functionRest (fuel + 1) name? line sort) := by
  unfold Parser.functionRest
  apply Draws.step (Passes.parameters fuel)
  intro parameters m _
  apply Draws.step (Passes.expect _)
  intro _ m _
  apply Draws.step (Passes.expect _)
  intro _ m _
  exact (ih.block m).bind fun body k _ h => .pure fun k' hk => h.mono hk

theorem declarations_succ (read : List Stmt) (hr : stmtsDrawn n read) :
    Draws n stmtsDrawn (Parser.declarations (fuel + 1) read) := by
  unfold Parser.declarations
  apply Draws.peek
  intro kind?
  split
  · exact .pure fun k hk => stmtsDrawn.reverse (hr.mono hk)
  · exact .pure fun k hk => stmtsDrawn.reverse (hr.mono hk)
  · apply (ih.declaration n).bind
    intro s? m hm hs
    cases s? with
    | none => exact ih.declarations m read (hr.mono hm)
    | some s => exact ih.declarations m (s :: read) ((hs s rfl).append (hr.mono hm))

theorem declared_succ : Draws n Stmt.Drawn (Parser.declared (fuel + 1)) := by
  unfold Parser.declared
  apply Draws.look
  intro c
  split
  · exact .step Passes.skip fun _ m _ => ih.classDeclaration m
  · apply Draws.step Passes.skip
    intro _ m _
    exact (ih.function m _).bind fun f k _ h => .pure fun k' hk => h.mono hk
  · exact .step Passes.skip fun _ m _ => ih.varDeclaration m
  · exact ih.statement n

theorem classDeclaration_succ : Draws n Stmt.Drawn (Parser.classDeclaration (fuel + 1)) := by
  unfold Parser.classDeclaration
  apply Draws.step (Passes.expectName _)
  intro name m _
  apply Draws.superclassReference.bind
  intro superclass? m₁ _ hs
  apply Draws.step (Passes.expect _)
  intro _ m₂ hm₂
  apply (ih.members m₂ [] [] .nil .nil).bind
  rintro ⟨methods, getters⟩ m₃ hm₃ ⟨hms, hgs⟩
  apply Draws.step (Passes.expect _)
  intro _ m₄ hm₄
  apply Draws.pure
  intro k hk
  have h := (hms.append hgs).mono (Nat.le_trans hm₄ hk)
  cases superclass? with
  | none => exact h
  | some superclass =>
    have := hs superclass rfl
    exact ⟨List.forall_mem_cons.mpr ⟨by omega, h.below⟩, h.ascends⟩

theorem members_succ (methods getters : List Function) (hms : functionsDrawn n methods)
    (hgs : functionsDrawn n getters) :
    Draws n (fun m read => functionsDrawn m read.1 ∧ functionsDrawn m read.2)
      (Parser.members (fuel + 1) methods getters) := by
  unfold Parser.members
  apply Draws.look
  intro c
  split
  · exact .pure fun k hk =>
      ⟨functionsDrawn.reverse (hms.mono hk), functionsDrawn.reverse (hgs.mono hk)⟩
  · exact .pure fun k hk =>
      ⟨functionsDrawn.reverse (hms.mono hk), functionsDrawn.reverse (hgs.mono hk)⟩
  · apply (ih.function n _).bind
    intro method m hm h
    exact ih.members m _ _ (h.append (hms.mono hm)) (hgs.mono hm)
  · apply (ih.getter n).bind
    intro getter m hm h
    exact ih.members m _ _ (hms.mono hm) (h.append (hgs.mono hm))

theorem initializer_succ :
    Draws n (fun m e? => ∀ e ∈ e?, e.Drawn m) (Parser.initializer (fuel + 1)) := by
  unfold Parser.initializer
  apply Draws.step (Passes.accept _)
  intro b m _
  cases b with
  | false => exact .pure fun _ _ _ h => by cases h
  | true =>
    apply (ih.expression m).bind
    intro e m₁ _ he
    apply Draws.pure
    rintro k hk _ ⟨⟩
    exact he.mono hk

theorem varDeclaration_succ : Draws n Stmt.Drawn (Parser.varDeclaration (fuel + 1)) := by
  unfold Parser.varDeclaration
  apply Draws.step (Passes.expectName _)
  intro name m _
  apply (ih.initializer m).bind
  intro initializer? m₁ _ hi
  apply Draws.step (Passes.expect _)
  intro _ m₂ hm₂
  apply Draws.pure
  intro k hk
  cases initializer? with
  | none => exact .nil
  | some initializer => exact (hi initializer rfl).mono (Nat.le_trans hm₂ hk)

theorem statement_succ : Draws n Stmt.Drawn (Parser.statement (fuel + 1)) := by
  unfold Parser.statement
  apply Draws.look
  intro c
  split
  · exact ih.expressionStatement n
  · split
    case h_1 => exact .step Passes.skip fun _ m _ => ih.forStatement m
    case h_2 => exact .step Passes.skip fun _ m _ => ih.ifStatement m
    case h_3 => exact .step Passes.skip fun _ m _ => ih.printStatement m
    case h_4 => exact .step Passes.skip fun _ m _ => ih.returnStatement m _
    case h_5 => exact .step Passes.skip fun _ m _ => ih.whileStatement m
    case h_6 => exact .step Passes.skip fun _ m _ => .jump _ rfl rfl
    case h_7 => exact .step Passes.skip fun _ m _ => .jump _ rfl rfl
    case h_8 =>
      apply Draws.step Passes.skip
      intro _ m _
      exact (ih.block m).bind fun body k _ h => .pure fun k' hk => h.mono hk
    case h_9 => exact ih.expressionStatement n

theorem returnStatement_succ (line : Nat) :
    Draws n Stmt.Drawn (Parser.returnStatement (fuel + 1) line) := by
  unfold Parser.returnStatement
  apply (ih.unlessNext n _).bind
  intro value? m _ hv
  apply Draws.step (Passes.expect _)
  intro _ m₁ hm₁
  apply Draws.pure
  intro k hk
  cases value? with
  | none => exact .nil
  | some value => exact (hv value rfl).mono (Nat.le_trans hm₁ hk)

theorem unlessNext_succ (s : Symbol) :
    Draws n (fun m e? => ∀ e ∈ e?, e.Drawn m) (Parser.unlessNext (fuel + 1) s) := by
  unfold Parser.unlessNext
  apply Draws.step (Passes.nextIs _)
  intro b m _
  cases b with
  | true => exact .pure fun _ _ _ h => by cases h
  | false =>
    apply (ih.expression m).bind
    intro e m₁ _ he
    apply Draws.pure
    rintro k hk _ ⟨⟩
    exact he.mono hk

theorem whileStatement_succ : Draws n Stmt.Drawn (Parser.whileStatement (fuel + 1)) := by
  unfold Parser.whileStatement
  apply Draws.step (Passes.expect _)
  intro _ m _
  apply (ih.expression m).bind
  intro condition m₁ _ hc
  apply Draws.step (Passes.expect _)
  intro _ m₂ hm₂
  apply (ih.statement m₂).bind
  intro body m₃ hm₃ hb
  exact .pure fun k hk => (hc.mono (by omega)).append (hb.mono hk)

theorem ifStatement_succ : Draws n Stmt.Drawn (Parser.ifStatement (fuel + 1)) := by
  unfold Parser.ifStatement
  apply Draws.step (Passes.expect _)
  intro _ m _
  apply (ih.expression m).bind
  intro condition m₁ _ hc
  apply Draws.step (Passes.expect _)
  intro _ m₂ hm₂
  apply (ih.statement m₂).bind
  intro thenBranch m₃ hm₃ ht
  apply Draws.step (Passes.accept _)
  intro b m₄ hm₄
  cases b with
  | false =>
    exact .pure fun k hk => (hc.mono (by omega)).append (ht.mono (Nat.le_trans hm₄ hk))
  | true =>
    apply (ih.statement m₄).bind
    intro elseBranch m₅ hm₅ he
    exact .pure fun k hk =>
      (hc.mono (by omega)).append ((ht.mono (by omega)).append (he.mono hk))

theorem forStatement_succ : Draws n Stmt.Drawn (Parser.forStatement (fuel + 1)) := by
  unfold Parser.forStatement
  apply Draws.step (Passes.expect _)
  intro _ m _
  apply (ih.forStart m).bind
  intro start? m₁ _ hs
  apply (ih.unlessNext m₁ _).bind
  intro condition? m₂ hm₂ hc
  apply Draws.step (Passes.expect _)
  intro _ m₃ hm₃
  apply (ih.unlessNext m₃ _).bind
  intro increment? m₄ hm₄ hi
  apply Draws.step (Passes.expect _)
  intro _ m₅ hm₅
  apply (ih.statement m₅).bind
  intro body m₆ hm₆ hb
  apply Draws.pure
  intro k hk
  refine Drawn.forLoop (fun s h => (hs s h).mono (by omega)) ?_
    (fun e h => (hi e h).mono (by omega)) (hb.mono hk)
  cases condition? with
  | none => exact Drawn.nil.node trivial
  | some condition => exact (hc condition rfl).mono (by omega)

theorem forStart_succ :
    Draws n (fun m s? => ∀ s ∈ s?, s.Drawn m) (Parser.forStart (fuel + 1)) := by
  unfold Parser.forStart
  apply Draws.peek
  intro kind?
  split
  · exact .step Passes.skip fun _ m _ => .pure fun _ _ _ h => by cases h
  · apply Draws.step Passes.skip
    intro _ m _
    apply (ih.varDeclaration m).bind
    intro s k _ hs
    apply Draws.pure
    rintro k' hk _ ⟨⟩
    exact hs.mono hk
  · apply (ih.expressionStatement n).bind
    intro s k _ hs
    apply Draws.pure
    rintro k' hk _ ⟨⟩
    exact hs.mono hk

end Drawing

/-- Whatever is read has its numbers drawn in order. -/
theorem drawing (fuel : Nat) : Drawing fuel := by
  induction fuel with
  | zero => exact drawing_zero
  | succ fuel ih =>
    exact {
      level := ih.level_succ
      operand := ih.operand_succ
      chain := ih.chain_succ
      expression := fun n => by
        unfold expression
        exact ih.level n _
      ternary := ih.ternary_succ
      assigned := ih.assigned_succ
      unary := ih.unary_succ
      call := fun n => by
        unfold call
        exact (ih.primary n).bind fun callee m _ h => ih.calls m callee h
      calls := ih.calls_succ
      arguments := ih.arguments_succ
      argumentList := ih.argumentList_succ
      primary := ih.primary_succ
      group := fun n => by
        unfold group
        apply (ih.expression n).bind
        intro inner m _ h
        exact .step (Passes.expect _) fun _ k hk => .pure fun k' hk' =>
          (h.mono (Nat.le_trans hk hk')).node trivial
      lambda := fun n _ => by
        unfold lambda
        apply Draws.step (Passes.expect _)
        intro _ m _
        exact (ih.functionRest m _ _ _).bind fun f k _ h => .pure fun k' hk =>
          (h.mono hk).node trivial
      functionRest := ih.functionRest_succ
      block := fun n => by
        unfold block
        apply (ih.declarations n [] .nil).bind
        intro body m _ h
        exact .step (Passes.expect _) fun _ k hk => .pure fun k' hk' => h.mono (Nat.le_trans hk hk')
      declarations := ih.declarations_succ
      declaration := fun n => by
        unfold declaration
        exact .recovering (ih.declared n)
      declared := ih.declared_succ
      classDeclaration := ih.classDeclaration_succ
      members := ih.members_succ
      function := fun n _ => by
        unfold function
        exact .step (Passes.expectName _) fun _ m _ => .step (Passes.expect _) fun _ k _ =>
          ih.functionRest k _ _ _
      getter := fun n => by
        unfold getter
        apply Draws.step (Passes.expectName _)
        intro name m _
        apply Draws.step (Passes.expect _)
        intro _ m _
        exact (ih.block m).bind fun body k _ h => .pure fun k' hk => h.mono hk
      varDeclaration := ih.varDeclaration_succ
      initializer := ih.initializer_succ
      statement := ih.statement_succ
      expressionStatement := fun n => by
        unfold expressionStatement
        apply (ih.expression n).bind
        intro e m _ h
        exact .step (Passes.expect _) fun _ k hk => .pure fun k' hk' => h.mono (Nat.le_trans hk hk')
      printStatement := fun n => by
        unfold printStatement
        apply (ih.expression n).bind
        intro e m _ h
        exact .step (Passes.expect _) fun _ k hk => .pure fun k' hk' => h.mono (Nat.le_trans hk hk')
      returnStatement := ih.returnStatement_succ
      unlessNext := ih.unlessNext_succ
      whileStatement := ih.whileStatement_succ
      ifStatement := ih.ifStatement_succ
      forStatement := ih.forStatement_succ
      forStart := ih.forStart_succ }

theorem program_draws (fuel n : Nat) (read : List Stmt) (hr : stmtsDrawn n read) :
    Draws n stmtsDrawn (program fuel read) := by
  induction fuel generalizing n read with
  | zero =>
    rw [program]
    exact .exhausted
  | succ fuel ih =>
    unfold program
    apply Draws.peek
    intro kind?
    split
    · exact .pure fun k hk => stmtsDrawn.reverse (hr.mono hk)
    · apply ((drawing fuel).declaration n).bind
      intro s? m hm hs
      cases s? with
      | none => exact ih m read (hr.mono hm)
      | some s => exact ih m (s :: read) ((hs s rfl).append (hr.mono hm))

end Parser

/-- In a program that is read the target of an assignment has a number above those of its value. -/
theorem Program.drawn_of_ofTokens {firstId endLine : Nat} {tokens : List Token} {p : Program}
    (h : ofTokens firstId tokens endLine = .ok p) : stmtsDrawn p.nextId p.statements := by
  have hdraws := Parser.program_draws (fuelFor tokens.length) firstId [] .nil
    ⟨tokens, endLine, firstId, []⟩ (Nat.le_refl _)
  unfold ofTokens at h
  split at h
  case h_1 statements c hc =>
    rw [hc] at hdraws
    split at h
    · cases h
      exact hdraws.2
    · cases h
  case h_2 => cases h

end LoxLang
