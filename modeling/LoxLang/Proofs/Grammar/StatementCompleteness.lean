import LoxLang.Proofs.Grammar.Completeness
import LoxLang.Proofs.Grammar.StatementSoundness

/-!
Statements and declarations are taken as the grammar derives them. A program is accepted exactly
if it is derived, and then as the one tree it has.
-/

namespace LoxLang

namespace Complete

variable {fuel : Nat}

theorem functionRest_succ (ih : Complete fuel) {name? : Option Name} {line : Nat}
    {sort : FunctionSort} {ts rest : List Token} {parameters : List Name} {body : List Stmt}
    (h : Derives .functionRest ts (parameters, body)) (c : Cursor) (hc : c.tokens = ts ++ rest)
    (hn : 32 * ts.length + 2 ≤ fuel + 1) :
    Takes Function.unnumbered c rest ⟨name?, parameters, body, line⟩
      (Parser.functionRest (fuel + 1) name? line sort c) := by
  unfold Parser.functionRest
  cases h with
  | functionRest hr h₁ h₂ =>
    cases h₂ with
    | block hl hr' h₂ =>
      simp only [List.append_assoc, List.cons_append, List.nil_append] at hc
      simp only [List.length_append, List.length_cons] at hn
      refine .step (.parameters h₁ (by omega) hc hr) fun c₁ hc₁ => ?_
      refine .step (.expect hc₁ hr) fun c₂ hc₂ => ?_
      refine .step (.expect hc₂ hl) fun c₃ hc₃ => ?_
      refine (ih.block h₂ hr' c₃ hc₃ (by omega)).bind fun body' c₄ hb hc₄ => .pure hc₄ ?_
      simp [hb]

theorem block_succ (ih : Complete fuel) {ts rest : List Token} {r : Token} {body : List Stmt}
    (h : Derives .declarations ts body) (hr : r.kind = .symbol .rightBrace) (c : Cursor)
    (hc : c.tokens = ts ++ r :: rest) (hn : 32 * ts.length + 26 ≤ fuel + 1) :
    Takes unnumberedStmts c rest body (Parser.block (fuel + 1) c) := by
  unfold Parser.block
  refine (ih.declarations h c hc ⟨r, rest, rfl, hr⟩ (by omega)).bind fun body' c₁ hb h₁ => ?_
  exact .step (.expect h₁ hr) fun c₂ h₂ => .pure h₂ hb

/-- Behind a declaration stands no `else`. -/
theorem not_else {ts rest : List Token} {ss : List Stmt} (h : Derives .declarations ts ss)
    (hf : ∀ t ∈ rest.head?, t.kind ≠ .keyword .else) :
    ∀ t ∈ (ts ++ rest).head?, t.kind ≠ .keyword .else := by
  cases h with
  | noDeclarations => exact hf
  | moreDeclarations h _ =>
    obtain ⟨t, us, rfl, he, -⟩ := h.opens.cons_of
    rintro _ ⟨⟩
    exact he

theorem declarations_succ (ih : Complete fuel) {read : List Stmt} {ts rest : List Token}
    {ss : List Stmt} (h : Derives .declarations ts ss) (c : Cursor) (hc : c.tokens = ts ++ rest)
    (hf : Before (.symbol .rightBrace) rest) (hn : 32 * ts.length + 25 ≤ fuel + 1) :
    Takes unnumberedStmts c rest (read.reverse ++ ss)
      (Parser.declarations (fuel + 1) read c) := by
  obtain ⟨r, us, rfl, hr⟩ := hf
  have hr' : ∀ t ∈ (r :: us).head?, t.kind ≠ .keyword .else := by
    rintro _ ⟨⟩
    simp [hr]
  unfold Parser.declarations
  apply Takes.peek
  cases h with
  | noDeclarations =>
    rw [hc, List.nil_append, List.head?_cons, Option.map_some, hr]
    exact .pure hc (by rw [List.append_nil])
  | @moreDeclarations s ss ts₁ ts₂ h₁ h₂ =>
    obtain ⟨t, us', rfl, -, hb⟩ := h₁.opens.cons_of
    rw [List.append_assoc] at hc
    rw [List.length_append] at hn
    have hk : c.tokens.head?.map Token.kind = some t.kind := by rw [hc]; rfl
    rw [hk]
    change Takes _ _ _ _ (EStateM.run _ c)
    split
    · cases ‹_›
    · exact absurd (Option.some.inj ‹_›) hb
    · refine (ih.declaration h₁ c hc (not_else h₂ hr') (by omega)).bind fun s? c₁ hs? hc₁ => ?_
      obtain ⟨s', rfl, hs⟩ := Option.map_eq_some_iff.mp hs?
      rw [List.length_cons] at hn
      refine (ih.declarations h₂ c₁ hc₁ ⟨r, us, rfl, hr⟩ (by omega)).trans ?_
      simp [unnumberedStmts_append, hs]

theorem declaration_succ (ih : Complete fuel) {ts rest : List Token} {s : Stmt}
    (h : Derives .declaration ts s) (c : Cursor) (hc : c.tokens = ts ++ rest)
    (hf : ∀ t ∈ rest.head?, t.kind ≠ .keyword .else) (hn : 32 * ts.length + 24 ≤ fuel + 1) :
    Takes (Option.map Stmt.unnumbered) c rest (some s) (Parser.declaration (fuel + 1) c) := by
  unfold Parser.declaration
  exact .recovering (ih.declared h c rest hc hf (by omega))

theorem declared_succ (ih : Complete fuel) :
    Phrase.Taken .declaration 23 (fun rest => ∀ t ∈ rest.head?, t.kind ≠ .keyword .else)
      (fuel + 1) (Parser.declared (fuel + 1)) := by
  intro ts s h c rest hc hf hn
  unfold Parser.declared
  apply Takes.look
  cases h with
  | @base k t l r methods getters ts hk ht hl hr h =>
    obtain ⟨_, lexeme, line⟩ := k
    obtain rfl := hk
    simp only [List.cons_append, List.append_assoc, List.nil_append] at hc
    simp only [List.length_append, List.length_cons] at hn
    simp only [hc]
    refine .step (.skip hc) fun c₁ hc₁ => ?_
    exact ih.classDeclaration ht (.inl ⟨rfl, rfl⟩) hl hr h c₁ hc₁ (by omega)
  | @subclass k t a s l r methods getters ts id hk ht ha hs hl hr h =>
    obtain ⟨_, lexeme, line⟩ := k
    obtain rfl := hk
    simp only [List.cons_append, List.append_assoc, List.nil_append] at hc
    simp only [List.length_append, List.length_cons] at hn
    simp only [hc]
    refine .step (.skip hc) fun c₁ hc₁ => ?_
    exact ih.classDeclaration ht (.inr ⟨a, s, id, rfl, ha, hs, rfl⟩) hl hr h c₁ hc₁ (by omega)
  | @functionDeclaration k f ts hk h =>
    obtain ⟨_, lexeme, line⟩ := k
    obtain rfl := hk
    have hf := h
    cases h with
    | @function t l parameters body ts ht hl h =>
    obtain ⟨_, lexeme', line'⟩ := t
    obtain rfl := ht
    simp only [List.cons_append] at hc
    simp only [List.length_cons] at hn
    simp only [hc]
    refine .step (.skip hc) fun c₁ hc₁ => ?_
    refine (ih.function .function hf c₁ rest hc₁ trivial
      (by simp only [List.length_cons]; omega)).bind fun f' c₂ hf' hc₂ => .pure hc₂ ?_
    simp only [Phrase.unnumbered] at hf' ⊢
    rw [Stmt.unnumbered, hf', Stmt.unnumbered]
  | @variableDeclaration k s ts hk h =>
    obtain ⟨_, lexeme, line⟩ := k
    obtain rfl := hk
    simp only [List.cons_append] at hc
    simp only [List.length_cons] at hn
    simp only [hc]
    refine .step (.skip hc) fun c₁ hc₁ => ?_
    exact ih.varDeclaration h c₁ rest hc₁ trivial (by omega)
  | statement h =>
    have ho := h.opens.append rest
    rw [← hc] at ho
    change Takes _ _ _ _ (EStateM.run _ c)
    split
    · rename_i ht
      simp [ht, OpensStatement, OpensExpression, Kind.opensExpression, Kind.opensStatement] at ho
    · rename_i ht
      simp [ht, OpensStatement, OpensExpression, Kind.opensExpression, Kind.opensStatement] at ho
    · rename_i ht
      simp [ht, OpensStatement, OpensExpression, Kind.opensExpression, Kind.opensStatement] at ho
    · exact ih.statement _ h c rest hc (fun _ => hf) (by omega)

theorem superclassReference_takes {c : Cursor} {l : Token} {ss rest : List Token}
    {superclass? : Option Occurrence} (hl : l.kind = .symbol .leftBrace)
    (hs : (ss = [] ∧ superclass? = none) ∨ ∃ a s id, ss = [a, s] ∧ a.kind = .symbol .less ∧
      s.kind = .identifier ∧ superclass? = some ⟨id, s.toName⟩)
    (hc : c.tokens = ss ++ l :: rest) :
    Takes (Option.map Occurrence.name) c (l :: rest) superclass?
      (Parser.superclassReference c) := by
  unfold Parser.superclassReference
  rcases hs with ⟨rfl, rfl⟩ | ⟨a, s, id, rfl, ha, hs, rfl⟩
  · refine .step (.accept_false hc (by rintro _ ⟨⟩; simp [hl])) fun c₁ h₁ => .pure h₁ rfl
  · refine .step (.accept_true hc ha) fun c₁ h₁ => ?_
    refine .step (.expectName h₁ hs) fun c₂ h₂ => ?_
    exact (Takes.occurrence h₂ id).bind fun o c₃ ho h₃ => .pure h₃ (congrArg some ho)

theorem classDeclaration_succ (ih : Complete fuel) {t l r : Token} {ss ts rest : List Token}
    {superclass? : Option Occurrence} {methods getters : List Function}
    (ht : t.kind = .identifier)
    (hs : (ss = [] ∧ superclass? = none) ∨ ∃ a s id, ss = [a, s] ∧ a.kind = .symbol .less ∧
      s.kind = .identifier ∧ superclass? = some ⟨id, s.toName⟩)
    (hl : l.kind = .symbol .leftBrace) (hr : r.kind = .symbol .rightBrace)
    (h : Derives .members ts (methods, getters)) (c : Cursor)
    (hc : c.tokens = t :: (ss ++ (l :: (ts ++ r :: rest)))) (hn : 32 * ts.length + 3 ≤ fuel + 1) :
    Takes Stmt.unnumbered c rest (.class ⟨t.toName, superclass?, methods, getters⟩)
      (Parser.classDeclaration (fuel + 1) c) := by
  unfold Parser.classDeclaration
  refine .step (.expectName hc ht) fun c₁ h₁ => ?_
  refine (superclassReference_takes hl hs h₁).bind fun super? c₂ hsuper h₂ => ?_
  refine .step (.expect h₂ hl) fun c₃ h₃ => ?_
  refine (ih.members h c₃ h₃ ⟨r, rest, rfl, hr⟩ (by omega)).bind fun fs c₄ hfs h₄ => ?_
  refine .step (.expect h₄ hr) fun c₅ h₅ => .pure h₅ ?_
  simp only [Phrase.unnumbered, List.reverse_nil, List.nil_append, Prod.mk.injEq] at hfs
  obtain ⟨hms, hgs⟩ := hfs
  cases super? <;> cases superclass? <;> simp_all

theorem members_succ (ih : Complete fuel) {methods getters ms gs : List Function}
    {ts rest : List Token} (h : Derives .members ts (ms, gs)) (c : Cursor)
    (hc : c.tokens = ts ++ rest) (hf : Before (.symbol .rightBrace) rest)
    (hn : 32 * ts.length + 2 ≤ fuel + 1) :
    Takes (Phrase.unnumbered .members) c rest (methods.reverse ++ ms, getters.reverse ++ gs)
      (Parser.members (fuel + 1) methods getters c) := by
  unfold Parser.members
  apply Takes.look
  cases h with
  | noMembers =>
    obtain ⟨⟨_, lexeme, line⟩, us, rfl, rfl⟩ := hf
    rw [List.nil_append] at hc
    simp only [hc]
    exact .pure hc (by simp)
  | @method f ms gs ts₁ ts₂ h₁ h₂ =>
    rw [List.append_assoc] at hc
    rw [List.length_append] at hn
    have hm := ih.function .method h₁ c _ hc trivial (by omega)
    cases h₁ with
    | @function t l parameters body ts ht hl h₁ =>
    obtain ⟨_, lexeme, line⟩ := t
    obtain ⟨_, lexeme', line'⟩ := l
    obtain rfl := ht
    obtain rfl := hl
    simp only [List.cons_append] at hc
    rw [List.length_cons] at hn
    simp only [hc]
    refine hm.bind fun f c₁ hf' h₁ => ?_
    refine (ih.members h₂ c₁ h₁ hf (by omega)).trans ?_
    simp_all [Phrase.unnumbered, unnumberedFunctions_append]
  | @getterMember f ms gs ts₁ ts₂ h₁ h₂ =>
    rw [List.append_assoc] at hc
    rw [List.length_append] at hn
    have hg := ih.getter h₁ c _ hc trivial (by omega)
    cases h₁ with
    | @getter t body ts ht h₁ =>
    cases h₁ with
    | @block l r body ts hl hr h₁ =>
    obtain ⟨_, lexeme, line⟩ := t
    obtain ⟨_, lexeme', line'⟩ := l
    obtain rfl := ht
    obtain rfl := hl
    simp only [List.cons_append] at hc
    rw [List.length_cons] at hn
    simp only [hc]
    refine hg.bind fun f c₁ hf' h₁ => ?_
    refine (ih.members h₂ c₁ h₁ hf (by omega)).trans ?_
    simp_all [Phrase.unnumbered, unnumberedFunctions_append]

theorem function_succ (ih : Complete fuel) (sort : FunctionSort) :
    Phrase.Taken .function 1 (fun _ => True) (fuel + 1) (Parser.function (fuel + 1) sort) := by
  intro ts f h c rest hc _ hn
  unfold Parser.function
  cases h with
  | function ht hl h =>
    simp only [List.length_cons] at hn
    refine .step (.expectName hc ht) fun c₁ h₁ => ?_
    refine .step (.expect h₁ hl) fun c₂ h₂ => ?_
    exact ih.functionRest h c₂ h₂ (by omega)

theorem getter_succ (ih : Complete fuel) :
    Phrase.Taken .getter 1 (fun _ => True) (fuel + 1) (Parser.getter (fuel + 1)) := by
  intro ts f h c rest hc _ hn
  unfold Parser.getter
  cases h with
  | getter ht h =>
    cases h with
    | block hl hr h =>
      simp only [List.append_assoc, List.cons_append, List.nil_append] at hc
      simp only [List.length_append, List.length_cons] at hn
      refine .step (.expectName hc ht) fun c₁ h₁ => ?_
      refine .step (.expect h₁ hl) fun c₂ h₂ => ?_
      refine (ih.block h hr c₂ h₂ (by omega)).bind fun body c₃ hb h₃ => .pure h₃ ?_
      simp [Phrase.unnumbered, hb]

theorem varDeclaration_succ (ih : Complete fuel) :
    Phrase.Taken .variable 1 (fun _ => True) (fuel + 1) (Parser.varDeclaration (fuel + 1)) := by
  intro ts s h c rest hc _ hn
  unfold Parser.varDeclaration
  cases h with
  | @uninitialized t r ht hr =>
    refine .step (.expectName hc ht) fun c₁ h₁ => ?_
    simp only [List.length_cons] at hn
    refine (ih.initializer (.inl ⟨rfl, rfl⟩) c₁ h₁ ⟨r, rest, rfl, hr⟩
      (by simp only [List.length_nil]; omega)).bind fun e? c₂ he h₂ => ?_
    refine .step (.expect h₂ hr) fun c₃ h₃ => .pure h₃ ?_
    cases e? <;> simp_all [Phrase.unnumbered]
  | @initialized t eq r e ts ht heq hr h =>
    simp only [List.append_assoc, List.cons_append, List.nil_append] at hc
    simp only [List.length_append, List.length_cons] at hn
    refine .step (.expectName hc ht) fun c₁ h₁ => ?_
    refine (ih.initializer (.inr ⟨eq, ts, e, rfl, heq, rfl, h⟩) c₁ h₁ ⟨r, rest, rfl, hr⟩
      (by simp only [List.length_cons]; omega)).bind fun e? c₂ he h₂ => ?_
    refine .step (.expect h₂ hr) fun c₃ h₃ => .pure h₃ ?_
    cases e? <;> simp_all [Phrase.unnumbered]

theorem initializer_succ (ih : Complete fuel) {ts rest : List Token} {e? : Option Expr}
    (h : (ts = [] ∧ e? = none) ∨ ∃ eq us e, ts = eq :: us ∧ eq.kind = .symbol .equal ∧
      e? = some e ∧ Derives .expression us e) (c : Cursor) (hc : c.tokens = ts ++ rest)
    (hf : Before (.symbol .semicolon) rest) (hn : 32 * ts.length + 21 ≤ fuel + 1) :
    Takes (Phrase.unnumbered .optional) c rest e? (Parser.initializer (fuel + 1) c) := by
  obtain ⟨r, us, rfl, hr⟩ := hf
  unfold Parser.initializer
  rcases h with ⟨rfl, rfl⟩ | ⟨eq, us', e, rfl, heq, rfl, h⟩
  · exact .step (.accept_false hc (by rintro _ ⟨⟩; simp [hr])) fun c₁ h₁ => .pure h₁ rfl
  · rw [List.length_cons] at hn
    refine .step (.accept_true hc heq) fun c₁ h₁ => ?_
    refine (ih.expression h c₁ _ h₁ (.cons (by rw [hr]; decide)) (by omega)).bind
      fun e' c₂ he h₂ => .pure h₂ ?_
    exact congrArg some he

theorem statement_succ (ih : Complete fuel) (dangling : Bool) :
    Phrase.Taken (.statement dangling) 22
      (fun rest => dangling = true → ∀ t ∈ rest.head?, t.kind ≠ .keyword .else) (fuel + 1)
      (Parser.statement (fuel + 1)) := by
  intro ts s h c rest hc hf hn
  unfold Parser.statement
  apply Takes.look
  cases h with
  | @expressionStatement r e ts hr h =>
    obtain ⟨t, us, rfl, ho, -⟩ := h.opens.cons_of
    rw [List.append_assoc] at hc
    rw [List.length_append] at hn
    have simple := ih.expressionStatement h hr c hc (by omega)
    simp only [hc, List.cons_append]
    change Takes _ _ _ _ (EStateM.run _ c)
    split
    all_goals first | exact simple | simp [*, Kind.opensExpression] at ho
  | print ht hr h =>
    simp only [List.cons_append, List.append_assoc, List.nil_append] at hc
    simp only [List.length_append, List.length_cons] at hn
    simp only [hc, ht]
    refine .step (.skip hc) fun c₁ h₁ => ?_
    exact ih.printStatement h hr c₁ h₁ (by omega)
  | «return» ht hr h =>
    simp only [List.cons_append, List.append_assoc, List.nil_append] at hc
    simp only [List.length_append, List.length_cons] at hn
    simp only [hc, ht]
    refine .step (.skip hc) fun c₁ h₁ => ?_
    exact ih.returnStatement h hr c₁ h₁ (by omega)
  | «break» ht hr =>
    simp only [List.cons_append, List.nil_append] at hc
    simp only [hc, ht]
    refine .step (.skip hc) fun c₁ h₁ => ?_
    exact .step (.expect h₁ hr) fun c₂ h₂ => .pure h₂ rfl
  | «continue» ht hr =>
    simp only [List.cons_append, List.nil_append] at hc
    simp only [hc, ht]
    refine .step (.skip hc) fun c₁ h₁ => ?_
    exact .step (.expect h₁ hr) fun c₂ h₂ => .pure h₂ rfl
  | blockStatement h =>
    cases h with
    | block hl hr h =>
    simp only [List.cons_append, List.append_assoc, List.nil_append] at hc
    simp only [List.length_append, List.length_cons] at hn
    simp only [hc, hl]
    refine .step (.skip hc) fun c₁ h₁ => ?_
    refine (ih.block h hr c₁ h₁ (by omega)).bind fun body c₂ hb h₂ => .pure h₂ ?_
    simp [Phrase.unnumbered, hb]
  | ifThen ht hl hr h₁ h₂ =>
    simp only [List.cons_append, List.append_assoc] at hc
    simp only [List.length_append, List.length_cons] at hn
    simp only [hc, ht]
    refine .step (.skip hc) fun c₁ hc₁ => ?_
    exact ih.ifThen hl hr h₁ h₂ c₁ hc₁ (hf rfl) (by omega)
  | ifElse ht hl hr hk h₁ h₂ h₃ =>
    simp only [List.cons_append, List.append_assoc] at hc
    simp only [List.length_append, List.length_cons] at hn
    simp only [hc, ht]
    refine .step (.skip hc) fun c₁ hc₁ => ?_
    exact ih.ifElse hl hr hk h₁ h₂ h₃ c₁ hc₁ hf (by omega)
  | «while» ht hl hr h₁ h₂ =>
    simp only [List.cons_append, List.append_assoc] at hc
    simp only [List.length_append, List.length_cons] at hn
    simp only [hc, ht]
    refine .step (.skip hc) fun c₁ hc₁ => ?_
    exact ih.whileStatement hl hr h₁ h₂ c₁ hc₁ hf (by omega)
  | «for» ht hl hm hr h₁ h₂ h₃ h₄ =>
    simp only [List.cons_append, List.append_assoc] at hc
    simp only [List.length_append, List.length_cons] at hn
    simp only [hc, ht]
    refine .step (.skip hc) fun c₁ hc₁ => ?_
    exact ih.forStatement hl hm hr h₁ h₂ h₃ h₄ c₁ hc₁ hf (by omega)

theorem expressionStatement_succ (ih : Complete fuel) {ts rest : List Token} {r : Token}
    {e : Expr} (h : Derives .expression ts e) (hr : r.kind = .symbol .semicolon) (c : Cursor)
    (hc : c.tokens = ts ++ r :: rest) (hn : 32 * ts.length + 21 ≤ fuel + 1) :
    Takes Stmt.unnumbered c rest (.expression e) (Parser.expressionStatement (fuel + 1) c) := by
  unfold Parser.expressionStatement
  refine (ih.expression h c _ hc (.cons (by rw [hr]; decide)) (by omega)).bind
    fun e' c₁ he h₁ => ?_
  refine .step (.expect h₁ hr) fun c₂ h₂ => .pure h₂ ?_
  exact congrArg Stmt.expression he

theorem printStatement_succ (ih : Complete fuel) {ts rest : List Token} {r : Token} {e : Expr}
    (h : Derives .expression ts e) (hr : r.kind = .symbol .semicolon) (c : Cursor)
    (hc : c.tokens = ts ++ r :: rest) (hn : 32 * ts.length + 21 ≤ fuel + 1) :
    Takes Stmt.unnumbered c rest (.print e) (Parser.printStatement (fuel + 1) c) := by
  unfold Parser.printStatement
  refine (ih.expression h c _ hc (.cons (by rw [hr]; decide)) (by omega)).bind
    fun e' c₁ he h₁ => ?_
  refine .step (.expect h₁ hr) fun c₂ h₂ => .pure h₂ ?_
  exact congrArg Stmt.print he

theorem returnStatement_succ (ih : Complete fuel) {line : Nat} {ts rest : List Token}
    {r : Token} {e? : Option Expr} (h : Derives .optional ts e?) (hr : r.kind = .symbol .semicolon)
    (c : Cursor) (hc : c.tokens = ts ++ r :: rest) (hn : 32 * ts.length + 22 ≤ fuel + 1) :
    Takes Stmt.unnumbered c rest (.return line e?)
      (Parser.returnStatement (fuel + 1) line c) := by
  unfold Parser.returnStatement
  refine (ih.unlessNext (.inl rfl) h c _ hc ⟨r, rest, rfl, hr⟩ (by omega)).bind
    fun e' c₁ he h₁ => ?_
  refine .step (.expect h₁ hr) fun c₂ h₂ => .pure h₂ ?_
  cases e' <;> cases e? <;> simp_all [Phrase.unnumbered]

theorem unlessNext_succ (ih : Complete fuel) {s : Symbol} (hs : s = .semicolon ∨ s = .rightParen) :
    Phrase.Taken .optional 21 (Before (.symbol s)) (fuel + 1)
      (Parser.unlessNext (fuel + 1) s) := by
  rintro ts e? h c _ hc ⟨r, rest, rfl, hr⟩ hn
  unfold Parser.unlessNext
  refine .step .nextIs fun c₁ h₁ => ?_
  cases h with
  | absent =>
    rw [List.nil_append] at hc
    simp only [hc, List.head?_cons, Option.map_some, hr, decide_true, ↓reduceIte]
    exact .pure (h₁.trans hc) rfl
  | present h =>
    have hne : (c.tokens.head?.map Token.kind = some (.symbol s)) = False := by
      obtain ⟨t, us, rfl, ho, -⟩ := h.opens.cons_of
      rw [hc]
      simp only [List.cons_append, List.head?_cons, Option.map_some, Option.some.injEq, eq_iff_iff,
        iff_false]
      intro hk
      rcases hs with rfl | rfl
      · simp [hk, Kind.opensExpression] at ho
      · simp [hk, Kind.opensExpression] at ho
    simp only [hne, decide_false, Bool.false_eq_true, ↓reduceIte]
    have hf : Follows 9 (r :: rest) := .cons (by rcases hs with rfl | rfl <;> rw [hr] <;> decide)
    refine (ih.expression h c₁ _ (h₁.trans hc) hf (by omega)).bind fun e' c₂ he h₂ => .pure h₂ ?_
    exact congrArg some he

theorem whileStatement_succ (ih : Complete fuel) {l r : Token} {ts₁ ts₂ rest : List Token}
    {e : Expr} {s : Stmt} {dangling : Bool} (hl : l.kind = .symbol .leftParen)
    (hr : r.kind = .symbol .rightParen) (h₁ : Derives .expression ts₁ e)
    (h₂ : Derives (.statement dangling) ts₂ s) (c : Cursor)
    (hc : c.tokens = l :: (ts₁ ++ r :: (ts₂ ++ rest)))
    (hf : dangling = true → ∀ t ∈ rest.head?, t.kind ≠ .keyword .else)
    (hn : 32 * (ts₁.length + ts₂.length) + 33 ≤ fuel + 1) :
    Takes Stmt.unnumbered c rest (.while e s none) (Parser.whileStatement (fuel + 1) c) := by
  unfold Parser.whileStatement
  refine .step (.expect hc hl) fun c₁ hc₁ => ?_
  refine (ih.expression h₁ c₁ _ hc₁ (.cons (by rw [hr]; decide)) (by omega)).bind
    fun e' c₂ he hc₂ => ?_
  refine .step (.expect hc₂ hr) fun c₃ hc₃ => ?_
  refine (ih.statement dangling h₂ c₃ rest hc₃ hf (by omega)).bind
    fun s' c₄ hs hc₄ => .pure hc₄ ?_
  simp only [Phrase.unnumbered] at he hs
  simp [he, hs]

theorem ifThen_succ (ih : Complete fuel) {l r : Token} {ts₁ ts₂ rest : List Token} {e : Expr}
    {s : Stmt} {dangling : Bool} (hl : l.kind = .symbol .leftParen)
    (hr : r.kind = .symbol .rightParen) (h₁ : Derives .expression ts₁ e)
    (h₂ : Derives (.statement dangling) ts₂ s) (c : Cursor)
    (hc : c.tokens = l :: (ts₁ ++ r :: (ts₂ ++ rest)))
    (hf : ∀ t ∈ rest.head?, t.kind ≠ .keyword .else)
    (hn : 32 * (ts₁.length + ts₂.length) + 33 ≤ fuel + 1) :
    Takes Stmt.unnumbered c rest (.if e s none) (Parser.ifStatement (fuel + 1) c) := by
  unfold Parser.ifStatement
  refine .step (.expect hc hl) fun c₁ hc₁ => ?_
  refine (ih.expression h₁ c₁ _ hc₁ (.cons (by rw [hr]; decide)) (by omega)).bind
    fun e' c₂ he hc₂ => ?_
  refine .step (.expect hc₂ hr) fun c₃ hc₃ => ?_
  refine (ih.statement dangling h₂ c₃ rest hc₃ (fun _ => hf) (by omega)).bind
    fun s' c₄ hs hc₄ => ?_
  refine .step (.accept_false hc₄ hf) fun c₅ hc₅ => .pure hc₅ ?_
  simp only [Phrase.unnumbered] at he hs
  simp [he, hs]

theorem ifElse_succ (ih : Complete fuel) {l r k : Token} {ts₁ ts₂ ts₃ rest : List Token}
    {e : Expr} {a b : Stmt} {dangling : Bool} (hl : l.kind = .symbol .leftParen)
    (hr : r.kind = .symbol .rightParen) (hk : k.kind = .keyword .else)
    (h₁ : Derives .expression ts₁ e) (h₂ : Derives (.statement false) ts₂ a)
    (h₃ : Derives (.statement dangling) ts₃ b) (c : Cursor)
    (hc : c.tokens = l :: (ts₁ ++ r :: (ts₂ ++ k :: (ts₃ ++ rest))))
    (hf : dangling = true → ∀ t ∈ rest.head?, t.kind ≠ .keyword .else)
    (hn : 32 * (ts₁.length + ts₂.length + ts₃.length) + 33 ≤ fuel + 1) :
    Takes Stmt.unnumbered c rest (.if e a (some b)) (Parser.ifStatement (fuel + 1) c) := by
  unfold Parser.ifStatement
  refine .step (.expect hc hl) fun c₁ hc₁ => ?_
  refine (ih.expression h₁ c₁ _ hc₁ (.cons (by rw [hr]; decide)) (by omega)).bind
    fun e' c₂ he hc₂ => ?_
  refine .step (.expect hc₂ hr) fun c₃ hc₃ => ?_
  refine (ih.statement false h₂ c₃ _ hc₃ (by simp) (by omega)).bind fun a' c₄ ha hc₄ => ?_
  refine .step (.accept_true hc₄ hk) fun c₅ hc₅ => ?_
  refine (ih.statement dangling h₃ c₅ rest hc₅ hf (by omega)).bind
    fun b' c₆ hb hc₆ => .pure hc₆ ?_
  simp only [Phrase.unnumbered] at he ha hb
  simp [he, ha, hb]

theorem unnumbered_ofFor (start? : Option Stmt) (condition? increment? : Option Expr)
    (body : Stmt) :
    (Stmt.ofFor start? condition? increment? body).unnumbered =
      .ofFor (start?.map Stmt.unnumbered) (condition?.map Expr.unnumbered)
        (increment?.map Expr.unnumbered) body.unnumbered := by
  cases start? <;> cases condition? <;> cases increment? <;> rfl

theorem forStatement_succ (ih : Complete fuel) {l m r : Token}
    {ts₁ ts₂ ts₃ ts₄ rest : List Token} {start? : Option Stmt} {c? i? : Option Expr} {s : Stmt}
    {dangling : Bool} (hl : l.kind = .symbol .leftParen) (hm : m.kind = .symbol .semicolon)
    (hr : r.kind = .symbol .rightParen) (h₁ : Derives .start ts₁ start?)
    (h₂ : Derives .optional ts₂ c?) (h₃ : Derives .optional ts₃ i?)
    (h₄ : Derives (.statement dangling) ts₄ s) (c : Cursor)
    (hc : c.tokens = l :: (ts₁ ++ (ts₂ ++ m :: (ts₃ ++ r :: (ts₄ ++ rest)))))
    (hf : dangling = true → ∀ t ∈ rest.head?, t.kind ≠ .keyword .else)
    (hn : 32 * (ts₁.length + ts₂.length + ts₃.length + ts₄.length) + 33 ≤ fuel + 1) :
    Takes Stmt.unnumbered c rest (.ofFor start? c? i? s) (Parser.forStatement (fuel + 1) c) := by
  unfold Parser.forStatement
  refine .step (.expect hc hl) fun c₁ hc₁ => ?_
  refine (ih.forStart h₁ c₁ _ hc₁ trivial (by omega)).bind fun start?' c₂ hstart hc₂ => ?_
  refine (ih.unlessNext (.inl rfl) h₂ c₂ _ hc₂ ⟨m, _, rfl, hm⟩ (by omega)).bind
    fun c?' c₃ hcond hc₃ => ?_
  refine .step (.expect hc₃ hm) fun c₄ hc₄ => ?_
  refine (ih.unlessNext (.inr rfl) h₃ c₄ _ hc₄ ⟨r, _, rfl, hr⟩ (by omega)).bind
    fun i?' c₅ hinc hc₅ => ?_
  refine .step (.expect hc₅ hr) fun c₆ hc₆ => ?_
  refine (ih.statement dangling h₄ c₆ rest hc₆ hf (by omega)).bind
    fun s' c₇ hs hc₇ => .pure hc₇ ?_
  simp only [Phrase.unnumbered] at hstart hcond hinc hs
  rw [Parser.forLoop_eq, unnumbered_ofFor, unnumbered_ofFor, hstart, hcond, hinc, hs]

theorem forStart_succ (ih : Complete fuel) :
    Phrase.Taken .start 22 (fun _ => True) (fuel + 1) (Parser.forStart (fuel + 1)) := by
  intro ts s? h c rest hc _ hn
  unfold Parser.forStart
  apply Takes.peek
  cases h with
  | noStart hr =>
    rw [List.singleton_append] at hc
    rw [hc, List.head?_cons, Option.map_some, hr]
    exact .step (.skip hc) fun c₁ h₁ => .pure h₁ rfl
  | variableStart ht h =>
    rw [List.cons_append] at hc
    rw [List.length_cons] at hn
    rw [hc, List.head?_cons, Option.map_some, ht]
    refine .step (.skip hc) fun c₁ h₁ => ?_
    refine (ih.varDeclaration h c₁ rest h₁ trivial (by omega)).bind
      fun s c₂ hs h₂ => .pure h₂ (congrArg some hs)
  | @expressionStart r e ts hr h =>
    obtain ⟨t, us, rfl, ho, -⟩ := h.opens.cons_of
    rw [List.append_assoc] at hc
    rw [List.length_append] at hn
    have hk : c.tokens.head?.map Token.kind = some t.kind := by rw [hc]; rfl
    rw [hk]
    change Takes _ _ _ _ (EStateM.run _ c)
    split
    · simp_all [Kind.opensExpression]
    · simp_all [Kind.opensExpression]
    · refine (ih.expressionStatement h hr c hc (by omega)).bind
        fun s c₁ hs h₁ => .pure h₁ (congrArg some hs)

/-- With enough fuel for the tokens, every parser takes its phrase. -/
theorem of_fuel (fuel : Nat) : Complete fuel := by
  induction fuel with
  | zero =>
    constructor
    case operand =>
      intro l ts e _ c rest _ _ hn
      have := l.rank_bounds
      omega
    all_goals
      intros
      try intro
      intros
      omega
  | succ fuel ih =>
    exact {
      level := level_succ ih
      operand := operand_succ ih
      chain := chain_succ ih
      expression := expression_succ ih
      ternary := ternary_succ ih
      assigned := assigned_succ ih
      unary := unary_succ ih
      call := call_succ ih
      calls := calls_succ ih
      arguments := arguments_succ ih
      argumentList := argumentList_succ ih
      primary := primary_succ ih
      group := group_succ ih
      lambda := lambda_succ ih
      functionRest := functionRest_succ ih
      block := block_succ ih
      declarations := declarations_succ ih
      declaration := declaration_succ ih
      declared := declared_succ ih
      classDeclaration := classDeclaration_succ ih
      members := members_succ ih
      function := function_succ ih
      getter := getter_succ ih
      varDeclaration := varDeclaration_succ ih
      initializer := initializer_succ ih
      statement := statement_succ ih
      expressionStatement := expressionStatement_succ ih
      printStatement := printStatement_succ ih
      returnStatement := returnStatement_succ ih
      unlessNext := unlessNext_succ ih
      whileStatement := whileStatement_succ ih
      ifThen := ifThen_succ ih
      ifElse := ifElse_succ ih
      forStatement := forStatement_succ ih
      forStart := forStart_succ ih }

theorem program {fuel : Nat} {read : List Stmt} {ts : List Token} {ss : List Stmt}
    (h : Derives .declarations ts ss) (c : Cursor) (hc : c.tokens = ts)
    (hn : 32 * ts.length + 25 ≤ fuel) :
    Takes unnumberedStmts c [] (read.reverse ++ ss) (Parser.program fuel read c) := by
  induction fuel generalizing read ts ss c with
  | zero => omega
  | succ fuel ih =>
    unfold Parser.program
    apply Takes.peek
    cases h with
    | noDeclarations =>
      rw [hc, List.head?_nil, Option.map_none]
      exact .pure hc (by rw [List.append_nil])
    | @moreDeclarations s ss ts₁ ts₂ h₁ h₂ =>
      obtain ⟨t, us, rfl, -, -⟩ := h₁.opens.cons_of
      rw [List.length_append, List.length_cons] at hn
      have hk : c.tokens.head?.map Token.kind = some t.kind := by rw [hc]; rfl
      have he : ∀ t ∈ (ts₂ ++ []).head?, t.kind ≠ .keyword .else := not_else h₂ (by simp)
      rw [List.append_nil] at he
      rw [hk]
      refine ((of_fuel fuel).declaration h₁ c hc he (by simp only [List.length_cons]; omega)).bind
        fun s? c₁ hs? hc₁ => ?_
      obtain ⟨s', rfl, hs⟩ := Option.map_eq_some_iff.mp hs?
      refine (ih h₂ c₁ hc₁ (by omega)).trans ?_
      simp [unnumberedStmts_append, hs]

end Complete

namespace Program

/-- A program that is derived is read as its tree, up to the numbers of occurrences. -/
theorem ofTokens_of_derives (firstId endLine : Nat) {tokens : List Token} {ss : List Stmt}
    (h : Derives .declarations tokens ss) :
    ∃ p, ofTokens firstId tokens endLine = .ok p ∧
      unnumberedStmts p.statements = unnumberedStmts ss := by
  have taken : Takes unnumberedStmts ⟨tokens, endLine, firstId, []⟩ [] ss
      (Parser.program (fuelFor tokens.length) [] ⟨tokens, endLine, firstId, []⟩) :=
    Complete.program h _ rfl (by simp only [fuelFor]; omega)
  obtain ⟨ss', c, hp, -, he, hv⟩ := taken
  exact ⟨⟨ss', c.nextId⟩, ofTokens_eq_ok hp he, hv⟩

/-- The tokens of a program are accepted exactly if the grammar derives them. They are then read
as the one tree they have, up to the numbers of occurrences, and otherwise there is an error. -/
theorem ofTokens_exact (firstId endLine : Nat) (tokens : List Token) :
    match ofTokens firstId tokens endLine with
    | .ok p => Derives .declarations tokens p.statements ∧
      ∀ tree, Derives .declarations tokens tree →
        unnumberedStmts tree = unnumberedStmts p.statements
    | .error errors => errors ≠ [] ∧ ∀ tree, ¬ Derives .declarations tokens tree := by
  match hp : ofTokens firstId tokens endLine with
  | .ok p =>
    refine ⟨(ofTokens_ok hp).1, fun tree h => ?_⟩
    obtain ⟨p', hp', hv⟩ := ofTokens_of_derives firstId endLine h
    rw [hp] at hp'
    cases hp'
    exact hv.symm
  | .error errors =>
    refine ⟨ofTokens_error hp, fun tree h => ?_⟩
    obtain ⟨p', hp', -⟩ := ofTokens_of_derives firstId endLine h
    rw [hp] at hp'
    cases hp'

end Program

end LoxLang
