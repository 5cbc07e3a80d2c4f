import LoxLang.Proofs.Grammar.Framing

/-!
Whatever a parser reads in front of the rest of a program, it reads in front of another rest that
begins so, and with more fuel: one rule for each phrase of the grammar.
-/

namespace LoxLang

namespace Parser

private theorem take_two_head {t : Token} {us ts : List Token}
    (h : us.take 2 = (t :: ts).take 2) : ∃ us', us = t :: us' := by
  cases us with
  | nil => cases h
  | cons u us =>
    obtain ⟨rfl, -⟩ := List.cons.inj h
    exact ⟨us, rfl⟩

private theorem take_two_pair {t t' : Token} {us ts : List Token}
    (h : us.take 2 = (t :: t' :: ts).take 2) : ∃ us', us = t :: t' :: us' := by
  match us, h with
  | u :: u' :: us, h =>
    obtain ⟨rfl, hrest⟩ := List.cons.inj h
    obtain ⟨rfl, -⟩ := List.cons.inj hrest
    exact ⟨us, rfl⟩

/-- With this fuel, whatever phrase is read in front of a rest is also read with the other fuel and
in front of another rest. -/
structure Carrying (fuel fuel' : Nat) : Prop where
  level : ∀ l, Carries (level fuel l) (level fuel' l)
  operand : ∀ l, Carries (operand fuel l) (operand fuel' l)
  chain : ∀ l left, Carries (chain fuel l left) (chain fuel' l left)
  expression : Carries (expression fuel) (expression fuel')
  ternary : Carries (ternary fuel) (ternary fuel')
  assigned : Carries (assigned fuel) (assigned fuel')
  unary : Carries (unary fuel) (unary fuel')
  call : Carries (call fuel) (call fuel')
  calls : ∀ object, Carries (calls fuel object) (calls fuel' object)
  arguments : Carries (arguments fuel) (arguments fuel')
  argumentList : ∀ count, Carries (argumentList fuel count) (argumentList fuel' count)
  primary : Carries (primary fuel) (primary fuel')
  group : Carries (group fuel) (group fuel')
  lambda : ∀ line, Carries (lambda fuel line) (lambda fuel' line)
  functionRest : ∀ name? line sort,
    Carries (functionRest fuel name? line sort) (functionRest fuel' name? line sort)
  block : Carries (block fuel) (block fuel')
  declarations : ∀ read, Carries (declarations fuel read) (declarations fuel' read)
  declaration : Carries (declaration fuel) (declaration fuel')
  declared : Carries (declared fuel) (declared fuel')
  classDeclaration : Carries (classDeclaration fuel) (classDeclaration fuel')
  members : ∀ methods getters,
    Carries (members fuel methods getters) (members fuel' methods getters)
  function : ∀ sort, Carries (function fuel sort) (function fuel' sort)
  /-- A function that begins with a name takes it. -/
  named : ∀ sort (c : Cursor) t ts, c.tokens = t :: ts → t.kind = .identifier →
    Cursor.Yields { c with tokens := ts } (Parser.function fuel sort c)
  getter : Carries (getter fuel) (getter fuel')
  varDeclaration : Carries (varDeclaration fuel) (varDeclaration fuel')
  initializer : Carries (initializer fuel) (initializer fuel')
  statement : Carries (statement fuel) (statement fuel')
  expressionStatement : Carries (expressionStatement fuel) (expressionStatement fuel')
  printStatement : Carries (printStatement fuel) (printStatement fuel')
  returnStatement : ∀ line, Carries (returnStatement fuel line) (returnStatement fuel' line)
  unlessNext : ∀ s, Carries (unlessNext fuel s) (unlessNext fuel' s)
  whileStatement : Carries (whileStatement fuel) (whileStatement fuel')
  ifStatement : Carries (ifStatement fuel) (ifStatement fuel')
  forStatement : Carries (forStatement fuel) (forStatement fuel')
  forStart : Carries (forStart fuel) (forStart fuel')

namespace Carrying

variable {fuel fuel' : Nat} (ih : Carrying fuel fuel')

include ih in
theorem operand_succ (l : Level) :
    Carries (Parser.operand (fuel + 1) l) (Parser.operand (fuel' + 1) l) := by
  unfold Parser.operand
  cases l with
  | comma => exact ih.ternary
  | factor => exact ih.unary
  | _ => exact ih.level _

include ih in
theorem chain_succ (l : Level) (left : Expr) :
    Carries (Parser.chain (fuel + 1) l left) (Parser.chain (fuel' + 1) l left) := by
  unfold Parser.chain
  refine (Carries.acceptOperator l).bind fun r => ?_
  match r with
  | none => exact .pure _
  | some _ => exact (ih.operand l).bind fun _ => ih.chain l _

include ih in
theorem ternary_succ : Carries (Parser.ternary (fuel + 1)) (Parser.ternary (fuel' + 1)) := by
  unfold Parser.ternary
  refine ih.assigned.bind fun _ => (Carries.accept _).bind fun b => ?_
  cases b with
  | false => exact .pure _
  | true =>
    exact ih.expression.bind fun _ => (Carries.expect _).bind fun _ =>
      ih.ternary.bind fun _ => .pure _

include ih in
theorem assigned_succ : Carries (Parser.assigned (fuel + 1)) (Parser.assigned (fuel' + 1)) := by
  unfold Parser.assigned
  refine (ih.level _).bind fun target => Carries.acceptEquals.bind fun equals? => ?_
  cases equals? with
  | none => exact .pure _
  | some equals => exact ih.assigned.bind fun value => .assignment equals target value

include ih in
theorem unary_succ : Carries (Parser.unary (fuel + 1)) (Parser.unary (fuel' + 1)) := by
  unfold Parser.unary
  refine Carries.acceptUnary.bind fun r => ?_
  match r with
  | none => exact ih.call
  | some _ => exact ih.unary.bind fun _ => .pure _

include ih in
theorem calls_succ (object : Expr) :
    Carries (Parser.calls (fuel + 1) object) (Parser.calls (fuel' + 1) object) := by
  unfold Parser.calls
  refine .peek fun kind? => ?_
  split
  · exact Carries.skip.bind fun _ => ih.arguments.bind fun _ => (Carries.expect _).bind fun _ =>
      ih.calls _
  · exact Carries.skip.bind fun _ => (Carries.expectName _).bind fun _ => ih.calls _
  · exact .pure _

include ih in
theorem arguments_succ :
    Carries (Parser.arguments (fuel + 1)) (Parser.arguments (fuel' + 1)) := by
  unfold Parser.arguments
  refine (Carries.nextIs _).bind fun b => ?_
  cases b with
  | false => exact ih.argumentList 0
  | true => exact .pure _

include ih in
theorem argumentList_succ (count : Nat) :
    Carries (Parser.argumentList (fuel + 1) count) (Parser.argumentList (fuel' + 1) count) := by
  have list : Carries
      (do let argument ← Parser.ternary fuel
          if ← accept (.symbol .comma) then
            return argument :: (← Parser.argumentList fuel (count + 1))
          return [argument])
      (do let argument ← Parser.ternary fuel'
          if ← accept (.symbol .comma) then
            return argument :: (← Parser.argumentList fuel' (count + 1))
          return [argument]) :=
    ih.ternary.bind fun _ => (Carries.accept _).bind fun b => by
      cases b with
      | false => exact .pure _
      | true => exact (ih.argumentList _).bind fun _ => .pure _
  unfold Parser.argumentList
  split
  · exact (Carries.reportHere _).bind fun _ => list
  · exact list

include ih in
theorem primary_succ : Carries (Parser.primary (fuel + 1)) (Parser.primary (fuel' + 1)) := by
  unfold Parser.primary
  refine .look (fun c c' hc hc' => ?_) fun c c' t ts ts' hc hc' => ?_
  · rw [hc, hc']
    exact .failHere _
  · rw [hc, hc']
    dsimp only
    split
    case h_6 => exact Carries.skip.bind fun _ => .superMethod _
    case h_7 => exact Carries.skip.bind fun _ => Carries.freshId.bind fun _ => .pure _
    case h_8 => exact Carries.skip.bind fun _ => (Carries.occurrence _).bind fun _ => .pure _
    case h_9 => exact Carries.skip.bind fun _ => ih.group
    case h_10 => exact Carries.skip.bind fun _ => ih.lambda _
    case h_11 => exact .failHere _
    all_goals exact Carries.skip.bind fun _ => .pure _

include ih in
theorem functionRest_succ (h : fuel ≤ fuel') (name? : Option Name) (line : Nat)
    (sort : FunctionSort) : Carries (Parser.functionRest (fuel + 1) name? line sort)
      (Parser.functionRest (fuel' + 1) name? line sort) := by
  unfold Parser.functionRest
  exact (Carries.parameters h).bind fun _ => (Carries.expect _).bind fun _ =>
    (Carries.expect _).bind fun _ => ih.block.bind fun _ => .pure _

include ih in
theorem declarations_succ (read : List Stmt) :
    Carries (Parser.declarations (fuel + 1) read) (Parser.declarations (fuel' + 1) read) := by
  unfold Parser.declarations
  refine .peek fun kind? => ?_
  split
  · exact .pure _
  · exact .pure _
  · refine ih.declaration.bind fun s? => ?_
    cases s? with
    | none => exact ih.declarations read
    | some s => exact ih.declarations (s :: read)

include ih in
/-- A function without a name is an expression, so the second token counts too. -/
theorem declared_succ : Carries (Parser.declared (fuel + 1)) (Parser.declared (fuel' + 1)) := by
  have hclass := Carries.skip.bind fun _ => ih.classDeclaration
  have hvar := Carries.skip.bind fun _ => ih.varDeclaration
  have hfun : Carries (do Parser.skip; return Stmt.function (← Parser.function fuel .function))
      (do Parser.skip; return Stmt.function (← Parser.function fuel' .function)) :=
    Carries.skip.bind fun _ => (ih.function _).bind fun _ => .pure _
  unfold Parser.declared
  refine .lookTwo (fun c c' h => ?_) fun M M' t u ts hM hrest hrest' c hc => ?_
  · split
    · rename_i heq
      rw [heq] at h
      obtain ⟨ts', hc'⟩ := take_two_head h
      rw [hc']
      exact hclass
    · rename_i heq
      rw [heq] at h
      obtain ⟨ts', hc'⟩ := take_two_pair h
      rw [hc']
      exact hfun
    · rename_i heq
      rw [heq] at h
      obtain ⟨ts', hc'⟩ := take_two_head h
      rw [hc']
      exact hvar
    · rename_i hnoclass hnofun hnovar
      split
      · rename_i heq
        rw [heq] at h
        obtain ⟨ts', hc'⟩ := take_two_head h.symm
        exact (hnoclass _ _ _ hc').elim
      · rename_i heq
        rw [heq] at h
        obtain ⟨ts', hc'⟩ := take_two_pair h.symm
        exact (hnofun _ _ _ _ _ hc').elim
      · rename_i heq
        rw [heq] at h
        obtain ⟨ts', hc'⟩ := take_two_head h.symm
        exact (hnovar _ _ _ hc').elim
      · exact ih.statement
  · have htokens : (M.around c).tokens = t :: u :: ts := by simp [Frame.around, hc, hrest]
    have htokens' : (M'.around c).tokens = [t] := by simp [Frame.around, hc, hrest']
    obtain ⟨kind, lexeme, line⟩ := t
    rw [htokens, htokens']
    split
    · rename_i heq
      cases heq
      exact hclass.framed M M' hM c
    · rename_i heq
      cases heq
      rw [CarriesIn, Fueled.bind_ok (skip_eq htokens)]
      refine .of_taken (c := { M.around c with tokens := ⟨.identifier, _, _⟩ :: ts })
        (((ih.function _).bind fun _ => .pure _).yields _) ?_
      simp [hrest]
    · rename_i heq
      cases heq
      exact hvar.framed M M' hM c
    · rename_i hnoclass _ hnovar
      split
      · rename_i heq
        cases heq
        exact (hnoclass _ _ _ rfl).elim
      · rename_i heq
        cases heq
      · rename_i heq
        cases heq
        exact (hnovar _ _ _ rfl).elim
      · exact ih.statement.framed M M' hM c

include ih in
theorem classDeclaration_succ :
    Carries (Parser.classDeclaration (fuel + 1)) (Parser.classDeclaration (fuel' + 1)) := by
  unfold Parser.classDeclaration
  exact (Carries.expectName _).bind fun _ => Carries.superclassReference.bind fun _ =>
    (Carries.expect _).bind fun _ => (ih.members [] []).bind fun _ =>
      (Carries.expect _).bind fun _ => .pure _

include ih in
/-- A token that is no name is refused as that of a method and as that of a getter alike. -/
theorem member_cut (h : fuel ≤ fuel') {M M' : Frame} {t u : Token} {ts : List Token}
    (hM : M.Alike M') (hrest : M.rest = t :: u :: ts) (hrest' : M'.rest = [t]) {c : Cursor}
    (hc : c.tokens = []) (methods getters : List Function) :
    CarriesIn M M' c
      (do let method ← Parser.function fuel .method
          Parser.members fuel (method :: methods) getters)
      (do let getter ← Parser.getter fuel'
          Parser.members fuel' methods (getter :: getters)) := by
  have htokens : (M.around c).tokens = t :: u :: ts := by simp [Frame.around, hc, hrest]
  have htokens' : (M'.around c).tokens = [t] := by simp [Frame.around, hc, hrest']
  unfold CarriesIn
  cases fuel with
  | zero =>
    rw [Parser.function]
    trivial
  | succ fuel =>
    obtain ⟨fuel', rfl⟩ := Nat.exists_eq_add_of_le' (Nat.le_trans (Nat.le_add_left 1 fuel) h)
    by_cases ht : t.kind = .identifier
    · have htaken := ih.named .method _ _ _ htokens ht
      refine .of_taken (c := { M.around c with tokens := u :: ts }) ?_ (by simp [hrest])
      exact htaken.bind fun method => (ih.members (method :: methods) getters).yields
    · have hmethod : Parser.function (fuel + 1) .method (M.around c) =
          .error (.failed ((M.around c).diagnostic (.expected (.functionName .method))))
            (M.around c) := by
        rw [Parser.function]
        exact Fueled.bind_error (Carries.expectName_eq_error htokens ht)
      have hgetter : Parser.getter (fuel' + 1) (M'.around c) =
          .error (.failed ((M'.around c).diagnostic (.expected (.functionName .method))))
            (M'.around c) := by
        rw [Parser.getter]
        exact Fueled.bind_error (Carries.expectName_eq_error htokens' ht)
      rw [Fueled.bind_error hmethod]
      exact fun _ => ⟨c, rfl, by rw [Fueled.bind_error hgetter, hM.diagnostic]⟩

include ih in
theorem members_succ (hle : fuel ≤ fuel') (methods getters : List Function) :
    Carries (Parser.members (fuel + 1) methods getters)
      (Parser.members (fuel' + 1) methods getters) := by
  have hmethod : Carries
      (do let method ← Parser.function fuel .method
          Parser.members fuel (method :: methods) getters)
      (do let method ← Parser.function fuel' .method
          Parser.members fuel' (method :: methods) getters) :=
    (ih.function _).bind fun _ => ih.members _ _
  have hgetter : Carries
      (do let getter ← Parser.getter fuel
          Parser.members fuel methods (getter :: getters))
      (do let getter ← Parser.getter fuel'
          Parser.members fuel' methods (getter :: getters)) :=
    ih.getter.bind fun _ => ih.members _ _
  unfold Parser.members
  refine .lookTwo (fun c c' h => ?_) fun M M' t u ts hM hrest hrest' c hc => ?_
  · split
    · rename_i heq
      rw [heq] at h
      rw [List.take_eq_nil_iff.mp h |>.resolve_left (by decide)]
      exact .pure _
    · rename_i heq
      rw [heq] at h
      obtain ⟨ts', hc'⟩ := take_two_head h
      rw [hc']
      exact .pure _
    · rename_i hnobrace heq
      rw [heq] at h
      obtain ⟨ts', hc'⟩ := take_two_pair h
      rw [hc']
      split
      · rename_i heq'
        cases heq'
      · rename_i heq'
        cases heq'
        exact (hnobrace _ _ rfl).elim
      · exact hmethod
      · rename_i hnoparen
        exact (hnoparen _ _ _ _ rfl).elim
    · rename_i hne hnobrace hnoparen
      split
      · rename_i heq
        rw [heq] at h
        exact (hne (List.take_eq_nil_iff.mp h.symm |>.resolve_left (by decide))).elim
      · rename_i heq
        rw [heq] at h
        obtain ⟨ts', hc'⟩ := take_two_head h.symm
        exact (hnobrace _ _ _ hc').elim
      · rename_i heq
        rw [heq] at h
        obtain ⟨ts', hc'⟩ := take_two_pair h.symm
        exact (hnoparen _ _ _ _ hc').elim
      · exact hgetter
  · have htokens : (M.around c).tokens = t :: u :: ts := by simp [Frame.around, hc, hrest]
    have htokens' : (M'.around c).tokens = [t] := by simp [Frame.around, hc, hrest']
    rw [htokens, htokens']
    split
    · rename_i heq
      cases heq
    · rename_i heq
      cases heq
      exact (Carries.pure _).framed M M' hM c
    · rename_i hnobrace heq
      cases heq
      split
      · rename_i heq
        cases heq
      · rename_i heq
        cases heq
        exact (hnobrace _ _ rfl).elim
      · rename_i heq
        cases heq
      · exact ih.member_cut hle hM hrest hrest' hc methods getters
    · rename_i hnobrace hnoparen
      split
      · rename_i heq
        cases heq
      · rename_i heq
        cases heq
        exact (hnobrace _ _ _ rfl).elim
      · rename_i heq
        cases heq
      · exact hgetter.framed M M' hM c

include ih in
theorem initializer_succ :
    Carries (Parser.initializer (fuel + 1)) (Parser.initializer (fuel' + 1)) := by
  unfold Parser.initializer
  refine (Carries.accept _).bind fun b => ?_
  cases b with
  | false => exact .pure _
  | true => exact ih.expression.bind fun _ => .pure _

include ih in
theorem statement_succ :
    Carries (Parser.statement (fuel + 1)) (Parser.statement (fuel' + 1)) := by
  unfold Parser.statement
  refine .look (fun c c' hc hc' => ?_) fun c c' t ts ts' hc hc' => ?_
  · rw [hc, hc']
    exact ih.expressionStatement
  · rw [hc, hc']
    dsimp only
    split
    · exact Carries.skip.bind fun _ => ih.forStatement
    · exact Carries.skip.bind fun _ => ih.ifStatement
    · exact Carries.skip.bind fun _ => ih.printStatement
    · exact Carries.skip.bind fun _ => ih.returnStatement _
    · exact Carries.skip.bind fun _ => ih.whileStatement
    · exact Carries.skip.bind fun _ => .jump _ _
    · exact Carries.skip.bind fun _ => .jump _ _
    · exact Carries.skip.bind fun _ => ih.block.bind fun _ => .pure _
    · exact ih.expressionStatement

include ih in
theorem unlessNext_succ (s : Symbol) :
    Carries (Parser.unlessNext (fuel + 1) s) (Parser.unlessNext (fuel' + 1) s) := by
  unfold Parser.unlessNext
  refine (Carries.nextIs _).bind fun b => ?_
  cases b with
  | false => exact ih.expression.bind fun _ => .pure _
  | true => exact .pure _

include ih in
theorem ifStatement_succ :
    Carries (Parser.ifStatement (fuel + 1)) (Parser.ifStatement (fuel' + 1)) := by
  unfold Parser.ifStatement
  refine (Carries.expect _).bind fun _ => ih.expression.bind fun _ =>
    (Carries.expect _).bind fun _ => ih.statement.bind fun _ =>
      (Carries.accept _).bind fun b => ?_
  cases b with
  | false => exact .pure _
  | true => exact ih.statement.bind fun _ => .pure _

include ih in
theorem forStatement_succ :
    Carries (Parser.forStatement (fuel + 1)) (Parser.forStatement (fuel' + 1)) := by
  unfold Parser.forStatement
  exact (Carries.expect _).bind fun _ => ih.forStart.bind fun _ => (ih.unlessNext _).bind fun _ =>
    (Carries.expect _).bind fun _ => (ih.unlessNext _).bind fun _ =>
      (Carries.expect _).bind fun _ => ih.statement.bind fun _ => .pure _

include ih in
theorem forStart_succ : Carries (Parser.forStart (fuel + 1)) (Parser.forStart (fuel' + 1)) := by
  unfold Parser.forStart
  refine .peek fun kind? => ?_
  split
  · exact Carries.skip.bind fun _ => .pure _
  · exact Carries.skip.bind fun _ => ih.varDeclaration.bind fun _ => .pure _
  · exact ih.expressionStatement.bind fun _ => .pure _

end Carrying

theorem carrying_zero (fuel' : Nat) : Carrying 0 fuel' := by
  constructor
  case named =>
    intros
    rw [function]
    trivial
  all_goals
    intros
    simp only [level, operand, chain, expression, ternary, assigned, unary, call, calls, arguments,
      argumentList, primary, group, lambda, functionRest, block, declarations, declaration,
      declared, classDeclaration, members, function, getter, varDeclaration, initializer,
      statement, expressionStatement, printStatement, returnStatement, unlessNext,
      whileStatement, ifStatement, forStatement, forStart]
    exact .exhausted _

/-- What is read in front of a rest does not hang on the rest, nor on fuel that is left. -/
theorem carrying {fuel fuel' : Nat} (h : fuel ≤ fuel') : Carrying fuel fuel' := by
  induction fuel generalizing fuel' with
  | zero => exact carrying_zero fuel'
  | succ fuel ih =>
    obtain ⟨fuel', rfl⟩ := Nat.exists_eq_add_of_le' (Nat.le_trans (Nat.le_add_left 1 fuel) h)
    have hle := Nat.le_of_succ_le_succ h
    have ih := ih hle
    exact {
      level := fun l => by
        unfold level
        exact (ih.operand l).bind fun _ => ih.chain l _
      operand := ih.operand_succ
      chain := ih.chain_succ
      expression := by
        unfold expression
        exact ih.level _
      ternary := ih.ternary_succ
      assigned := ih.assigned_succ
      unary := ih.unary_succ
      call := by
        unfold call
        exact ih.primary.bind fun _ => ih.calls _
      calls := ih.calls_succ
      arguments := ih.arguments_succ
      argumentList := ih.argumentList_succ
      primary := ih.primary_succ
      group := by
        unfold group
        exact ih.expression.bind fun _ => (Carries.expect _).bind fun _ => .pure _
      lambda := fun _ => by
        unfold lambda
        exact (Carries.expect _).bind fun _ => (ih.functionRest _ _ _).bind fun _ => .pure _
      functionRest := ih.functionRest_succ hle
      block := by
        unfold block
        exact (ih.declarations []).bind fun _ => (Carries.expect _).bind fun _ => .pure _
      declarations := ih.declarations_succ
      declaration := by
        unfold declaration
        exact .recovering ih.declared
      declared := ih.declared_succ
      classDeclaration := ih.classDeclaration_succ
      members := ih.members_succ hle
      function := fun _ => by
        unfold function
        exact (Carries.expectName _).bind fun _ => (Carries.expect _).bind fun _ =>
          ih.functionRest _ _ _
      named := fun sort c t ts hc ht => by
        unfold function
        have hname : expectName (.functionName sort) c =
            .ok ⟨t.lexeme, t.line⟩ { c with tokens := ts } :=
          Fueled.bind_ok (expect_eq hc ht)
        rw [Fueled.bind_ok hname]
        exact ((Carries.expect _).bind fun _ => ih.functionRest _ _ _).yields _
      getter := by
        unfold getter
        exact (Carries.expectName _).bind fun _ => (Carries.expect _).bind fun _ =>
          ih.block.bind fun _ => .pure _
      varDeclaration := by
        unfold varDeclaration
        exact (Carries.expectName _).bind fun _ => ih.initializer.bind fun _ =>
          (Carries.expect _).bind fun _ => .pure _
      initializer := ih.initializer_succ
      statement := ih.statement_succ
      expressionStatement := by
        unfold expressionStatement
        exact ih.expression.bind fun _ => (Carries.expect _).bind fun _ => .pure _
      printStatement := by
        unfold printStatement
        exact ih.expression.bind fun _ => (Carries.expect _).bind fun _ => .pure _
      returnStatement := fun _ => by
        unfold returnStatement
        exact (ih.unlessNext _).bind fun _ => (Carries.expect _).bind fun _ => .pure _
      unlessNext := ih.unlessNext_succ
      whileStatement := by
        unfold whileStatement
        exact (Carries.expect _).bind fun _ => ih.expression.bind fun _ =>
          (Carries.expect _).bind fun _ => ih.statement.bind fun _ => .pure _
      ifStatement := ih.ifStatement_succ
      forStatement := ih.forStatement_succ
      forStart := ih.forStart_succ }

end Parser

end LoxLang
