import LoxLang.Proofs.Grammar.Reading
import LoxLang.Proofs.Grammar.Renumbering
import LoxLang.Proofs.Token.Joining

/-!
The order of syntax errors. A parser records an error at the next token, before it takes it, so
errors are listed from left to right. The one exception is a target that takes no value: its error
is at the equals sign, but is recorded when the value behind it has been read, behind the errors of
the value.
-/

namespace LoxLang

namespace Diagnostic

/-- The line that an error is on, zero for one that is on none. -/
def line : Diagnostic → Nat
  | .lexical line _ | .grammar line _ _ | .scope line _ _ | .runtime line _
  | .stackOverflow line => line
  | .io _ => 0

/-- Whether the error is a target that takes no value. -/
def refusesTarget : Diagnostic → Bool
  | .grammar _ _ .invalidAssignmentTarget => true
  | _ => false

/-- Errors between two lines, where every token has a line of its own, in the order in which they
are found. -/
inductive Found : Nat → Nat → List Diagnostic → Prop
  | none {first last} (h : first ≤ last) : Found first last []
  | here {first last d} (hf : first ≤ d.line) (hl : d.line ≤ last) (hd : d.refusesTarget = false) :
      Found first last [d]
  | target {first last value d} (hf : first ≤ d.line) (hv : Found (d.line + 1) last value)
      (hd : d.refusesTarget) : Found first last (value ++ [d])
  | append {first middle last ds es} (hd : Found first middle ds) (he : Found middle last es) :
      Found first last (ds ++ es)

namespace Found

variable {first last : Nat} {ds front back : List Diagnostic} {d : Diagnostic}

theorem le (h : Found first last ds) : first ≤ last := by
  induction h with
  | none h => exact h
  | here hf hl _ => exact Nat.le_trans hf hl
  | target hf _ _ ih => omega
  | append _ _ ih ih' => exact Nat.le_trans ih ih'

theorem earlier {first' : Nat} (h : Found first last ds) (hf : first' ≤ first) :
    Found first' last ds :=
  .append (.none hf) h

theorem bounds (h : Found first last ds) : ∀ e ∈ ds, first ≤ e.line ∧ e.line ≤ last := by
  induction h with
  | none => exact fun _ h => nomatch h
  | here hf hl _ => exact List.forall_mem_singleton.mpr ⟨hf, hl⟩
  | target hf hv _ ih =>
    rw [List.forall_mem_append, List.forall_mem_singleton]
    exact ⟨fun e he => ⟨by have := ih e he; omega, (ih e he).2⟩, hf, Nat.le_of_succ_le hv.le⟩
  | append hd he ih ih' =>
    rw [List.forall_mem_append]
    exact ⟨fun e h => ⟨(ih e h).1, Nat.le_trans (ih e h).2 he.le⟩,
      fun e h => ⟨Nat.le_trans hd.le (ih' e h).1, (ih' e h).2⟩⟩

/-- An element of two lists, one behind the other, is in the first or in the second. -/
private theorem split_append {es : List Diagnostic} (h : ds ++ es = front ++ d :: back) :
    (∃ more, ds = front ++ d :: more) ∨ ∃ more, front = ds ++ more ∧ es = more ++ d :: back := by
  rcases List.append_eq_append_iff.mp h with ⟨more, hf, he⟩ | ⟨more, hd, he⟩
  · exact .inr ⟨more, hf, he⟩
  · cases more with
    | nil => exact .inr ⟨[], by simpa using hd.symm, by simpa using he.symm⟩
    | cons _ more =>
      obtain ⟨rfl, -⟩ := List.cons_eq_cons.mp he
      exact .inl ⟨more, hd⟩

/-- In front of an error are errors that are not behind it, and then those of the value, if it is a
refused target. -/
theorem front_eq (h : Found first last ds) (hds : ds = front ++ d :: back) :
    ∃ earlier value, front = earlier ++ value ∧ (∀ e ∈ earlier, e.line ≤ d.line) ∧
      (∀ e ∈ value, d.line < e.line) ∧ (value ≠ [] → d.refusesTarget) := by
  induction h generalizing front d back with
  | none => simp at hds
  | here =>
    obtain ⟨rfl, -⟩ | ⟨-, hds⟩ := List.singleton_eq_append_iff.mp hds
    · exact ⟨[], [], rfl, by simp, by simp, by simp⟩
    · simp at hds
  | @target first last value target hf hv ht ih =>
    rcases split_append hds with ⟨more, hvalue⟩ | ⟨more, rfl, hmore⟩
    · exact ih hvalue
    · obtain ⟨rfl, hmore⟩ | ⟨-, hmore⟩ := List.singleton_eq_append_iff.mp hmore
      · obtain ⟨rfl, -⟩ := List.cons_eq_cons.mp hmore
        exact ⟨[], value, by simp, by simp, fun e he => (hv.bounds e he).1, fun _ => ht⟩
      · simp at hmore
  | append hd he ih ih' =>
    rcases split_append hds with ⟨more, hfirst⟩ | ⟨more, rfl, hmore⟩
    · exact ih hfirst
    · obtain ⟨earlier, value, rfl, hearlier, hvalue⟩ := ih' hmore
      refine ⟨_, value, (List.append_assoc _ _ _).symm, ?_, hvalue⟩
      have hd' : d.line ≥ _ := (he.bounds d (by simp [hmore])).1
      rw [List.forall_mem_append]
      exact ⟨fun e h => Nat.le_trans (hd.bounds e h).2 hd', hearlier⟩

end Found

end Diagnostic

open Diagnostic (Found)

namespace Cursor

/-- The line of the next token, or the one on which the program ends. -/
def place (c : Cursor) : Nat :=
  (c.tokens.head?.map Token.line).getD c.endLine

/-- Whether each token, and the end behind them, is on a later line than the token before it. -/
def Ascending (c : Cursor) : Prop :=
  (c.tokens.map Token.line ++ [c.endLine]).Pairwise (· < ·)

/-- From `c` to `c'` a parser took tokens and found errors at them. -/
structure Advances (c c' : Cursor) : Prop where
  endLine : c'.endLine = c.endLine
  tokens : c'.tokens <:+ c.tokens
  errors : ∃ ds, c'.errors = ds.reverse ++ c.errors ∧ Found c.place c'.place ds

/-- Whatever a parser came to from `c`, it advanced. It fails with an error at the next token. -/
def Reaches {α : Type} (c : Cursor) : EStateM.Result Stop Cursor α → Prop
  | .ok _ c' => c.Advances c'
  | .error (.failed d) c' => c.Advances c' ∧ d.line = c'.place ∧ d.refusesTarget = false
  | .error .outOfFuel c' => c.Advances c'

variable {c c₁ c₂ : Cursor} {t : Token} {ts : List Token}

theorem Ascending.of_suffix (h : c.Ascending) (he : c₁.endLine = c.endLine)
    (ht : c₁.tokens <:+ c.tokens) : c₁.Ascending := by
  obtain ⟨taken, ht⟩ := ht
  unfold Ascending at h ⊢
  rw [← ht, List.map_append, List.append_assoc] at h
  rw [he]
  exact (List.pairwise_append.mp h).2.1

theorem Ascending.line_lt (h : c.Ascending) (hc : c.tokens = t :: ts) :
    t.line < place { c with tokens := ts } := by
  unfold Ascending at h
  rw [hc, List.map_cons, List.cons_append, List.pairwise_cons] at h
  refine h.1 _ ?_
  cases ts <;> simp [place]

theorem place_cons (hc : c.tokens = t :: ts) : c.place = t.line := by
  simp [place, hc]

theorem Ascending.place_le (h : c.Ascending) (he : c₁.endLine = c.endLine)
    (ht : c₁.tokens <:+ c.tokens) : c.place ≤ c₁.place := by
  obtain ⟨taken, ht⟩ := ht
  cases taken with
  | nil => simp [place, ← ht, he]
  | cons t ts =>
    unfold Ascending at h
    rw [← ht, List.cons_append, List.map_cons, List.cons_append, List.pairwise_cons] at h
    rw [place_cons ht.symm]
    refine Nat.le_of_lt (h.1 _ ?_)
    cases hc₁ : c₁.tokens <;> simp [place, hc₁, he]

/-- Taking tokens adds no error. -/
theorem Ascending.advances (h : c.Ascending) (he : c₁.endLine = c.endLine)
    (ht : c₁.tokens <:+ c.tokens) (hd : c₁.errors = c.errors) : c.Advances c₁ :=
  ⟨he, ht, [], hd, .none (h.place_le he ht)⟩

theorem Ascending.refl (h : c.Ascending) : c.Advances c :=
  h.advances rfl (List.suffix_refl _) rfl

theorem Advances.ascending (h : c.Advances c₁) (hc : c.Ascending) : c₁.Ascending :=
  hc.of_suffix h.endLine h.tokens

theorem Advances.trans (h : c.Advances c₁) (h' : c₁.Advances c₂) : c.Advances c₂ := by
  obtain ⟨ds, hds, hf⟩ := h.errors
  obtain ⟨es, hes, hf'⟩ := h'.errors
  refine ⟨h'.endLine.trans h.endLine, h'.tokens.trans h.tokens, ds ++ es, ?_, hf.append hf'⟩
  rw [hes, hds, List.reverse_append, List.append_assoc]

theorem Reaches.trans {α : Type} {r : EStateM.Result Stop Cursor α} (h : c.Advances c₁)
    (hr : c₁.Reaches r) : c.Reaches r := by
  match r, hr with
  | .ok _ _, hr => exact h.trans hr
  | .error (.failed _) _, ⟨hr, hd⟩ => exact ⟨h.trans hr, hd⟩
  | .error .outOfFuel _, hr => exact h.trans hr

/-- An error at the next token is found there. -/
theorem report {d : Diagnostic} (hl : d.line = c.place)
    (hd : d.refusesTarget = false) : c.Advances { c with errors := d :: c.errors } :=
  ⟨rfl, List.suffix_refl _, [d], rfl, .here (Nat.le_of_eq hl.symm) (Nat.le_of_eq hl) hd⟩

theorem line_diagnostic (c : Cursor) (error : GrammarError) :
    (c.diagnostic error).line = c.place := by
  obtain ⟨ts, endLine, nextId, errors⟩ := c
  cases ts <;> rfl

theorem refusesTarget_diagnostic (c : Cursor) {error : GrammarError}
    (h : error ≠ .invalidAssignmentTarget) : (c.diagnostic error).refusesTarget = false := by
  obtain ⟨ts, endLine, nextId, errors⟩ := c
  cases ts <;> cases error <;> first | rfl | exact absurd rfl h

end Cursor

namespace Parser

theorem acceptEquals_eq_some {c : Cursor} {t : Token} {ts : List Token} (hc : c.tokens = t :: ts)
    (ht : t.kind = .symbol .equal) : acceptEquals c = .ok (some t) { c with tokens := ts } := by
  unfold acceptEquals
  rw [Fueled.bind_get, hc]
  simp only [ht, ↓reduceIte]
  rw [Fueled.bind_ok (skip_eq hc)]
  rfl

theorem acceptEquals_eq_none {c : Cursor} (h : ∀ t ∈ c.tokens.head?, t.kind ≠ .symbol .equal) :
    acceptEquals c = .ok none c := by
  unfold acceptEquals
  rw [Fueled.bind_get]
  match hc : c.tokens with
  | [] => rfl
  | t :: ts =>
    have ht : t.kind ≠ .symbol .equal := h t (by simp [hc])
    simp only [ht, ↓reduceIte]
    rfl

/-- A parser that finds its errors from left to right, whatever tokens it reads. -/
def Orderly {α : Type} (p : Parser α) : Prop :=
  ∀ c : Cursor, c.Ascending → c.Reaches (p c)

variable {α β : Type} {p : Parser α}

namespace Orderly

theorem pure (a : α) : Orderly (Pure.pure a) :=
  fun _ hc => hc.refl

theorem exhausted : Orderly (Fueled.exhausted : Parser α) :=
  fun _ hc => hc.refl

theorem bind {f : α → Parser β} (hp : Orderly p) (hf : ∀ a, Orderly (f a)) :
    Orderly (p >>= f) := by
  intro c hc
  have h := hp c hc
  match hr : p c with
  | .ok a c₁ =>
    rw [hr] at h
    rw [Fueled.bind_ok hr]
    exact .trans h (hf a c₁ (h.ascending hc))
  | .error (.failed _) _ | .error .outOfFuel _ =>
    rw [hr] at h
    rw [Fueled.bind_error hr]
    exact h

theorem look {f : Cursor → Parser α} (hf : ∀ c, Orderly (f c)) : Orderly (get >>= f) :=
  fun c hc => hf c c hc

theorem peek {f : Option Kind → Parser α} (hf : ∀ kind?, Orderly (f kind?)) :
    Orderly (peek? >>= f) :=
  fun c hc => hf (c.tokens.head?.map Token.kind) c hc

theorem skip : Orderly skip :=
  fun _ hc => hc.advances rfl (List.tail_suffix _) rfl

theorem nextIs (kind : Kind) : Orderly (nextIs kind) :=
  look fun _ => by
    split
    · exact .pure _
    · exact .pure _

theorem accept (kind : Kind) : Orderly (accept kind) :=
  (nextIs kind).bind fun b => by
    cases b with
    | false => exact .pure _
    | true => exact skip.bind fun _ => .pure _

theorem failHere {error : GrammarError} (h : error ≠ .invalidAssignmentTarget) :
    Orderly (failHere error : Parser α) :=
  fun c hc => ⟨hc.refl, c.line_diagnostic error, c.refusesTarget_diagnostic h⟩

theorem reportHere {error : GrammarError} (h : error ≠ .invalidAssignmentTarget) :
    Orderly (reportHere error) :=
  fun c _ => Cursor.report (c.line_diagnostic error) (c.refusesTarget_diagnostic h)

theorem expect (what : Expectation) : Orderly (expect what) := by
  intro c hc
  unfold Parser.expect
  rw [Fueled.bind_get]
  cases ht : c.tokens with
  | nil => exact failHere (by simp) c hc
  | cons t ts =>
    dsimp only
    split
    · exact hc.advances rfl (ht ▸ List.suffix_cons t ts) rfl
    · exact failHere (by simp) c hc

theorem expectName (what : Expectation) : Orderly (expectName what) :=
  (expect what).bind fun _ => .pure _

theorem freshId : Orderly freshId :=
  fun _ hc => hc.advances rfl (List.suffix_refl _) rfl

theorem occurrence (name : Name) : Orderly (occurrence name) :=
  freshId.bind fun _ => .pure _

theorem acceptOperator (l : Level) : Orderly (acceptOperator l) :=
  look fun _ => by
    split
    · exact .pure _
    · split
      · exact .pure _
      · exact skip.bind fun _ => .pure _

theorem acceptUnary : Orderly acceptUnary :=
  look fun _ => by
    split
    · exact .pure _
    · split
      · exact .pure _
      · exact skip.bind fun _ => .pure _

theorem superMethod (line : Nat) : Orderly (superMethod line) :=
  (expect _).bind fun _ => (expectName _).bind fun _ => freshId.bind fun _ => .pure _

theorem jump (s : Stmt) (what : Expectation) : Orderly (jump s what) :=
  (expect _).bind fun _ => .pure _

theorem superclassReference : Orderly superclassReference :=
  (accept _).bind fun b => by
    cases b with
    | false => exact .pure _
    | true => exact (expectName _).bind fun _ => (occurrence _).bind fun _ => .pure _

/-- Where a parser fails, its error is found at the next token, before tokens are skipped. -/
theorem recovering (hp : Orderly p) : Orderly (recovering p) := by
  intro c hc
  have h := hp c hc
  unfold Parser.recovering
  match hr : p c with
  | .ok _ _ | .error .outOfFuel _ =>
    rw [hr] at h
    exact h
  | .error (.failed d) c₁ =>
    rw [hr] at h
    obtain ⟨h, hl, hd⟩ := h
    have hreport := Cursor.report hl hd
    obtain ⟨skipped, hskip, -⟩ := Cursor.skipToBoundary_suffix c₁.tokens
    exact (h.trans hreport).trans
      ((hreport.ascending (h.ascending hc)).advances rfl ⟨skipped, hskip⟩ rfl)

/-- A target is refused behind its value, with an error in front of it. -/
theorem value {target : Expr} {equals : Token} {ts : List Token} {c : Cursor} {value : Parser Expr}
    (hv : Orderly value) (hc : c.Ascending) (ht : c.tokens = equals :: ts) :
    c.Reaches ((value >>= assignment equals target) { c with tokens := ts }) := by
  have htake : c.Advances { c with tokens := ts } :=
    hc.advances rfl (ht ▸ List.suffix_cons equals ts) rfl
  have h := hv _ (htake.ascending hc)
  match hr : value { c with tokens := ts } with
  | .error (.failed _) _ | .error .outOfFuel _ =>
    rw [hr] at h
    rw [Fueled.bind_error hr]
    exact .trans htake h
  | .ok v c₁ =>
    rw [hr] at h
    rw [Fueled.bind_ok hr]
    have refused (target : Expr) : c.Reaches ((do
        report (.grammar equals.line (some equals.lexeme) .invalidAssignmentTarget)
        return target : Parser Expr) c₁) := by
      obtain ⟨ds, hds, hf⟩ := h.errors
      refine ⟨h.endLine, h.tokens.trans htake.tokens,
        ds ++ [.grammar equals.line (some equals.lexeme) .invalidAssignmentTarget], ?_, ?_⟩
      · simpa using hds
      · exact .target (Nat.le_of_eq (Cursor.place_cons ht)) (hf.earlier (hc.line_lt ht)) rfl
    cases target with
    | «variable» o =>
      have ho : Orderly (do return Expr.assign (← Parser.occurrence o.name) v) :=
        (occurrence o.name).bind fun _ => .pure _
      exact .trans (htake.trans h) (ho c₁ (h.ascending (htake.ascending hc)))
    | get => exact htake.trans h
    | _ => exact refused _

theorem parameterList (fuel count : Nat) : Orderly (parameterList fuel count) := by
  induction fuel generalizing count with
  | zero => exact exhausted
  | succ fuel ih =>
    have names : Orderly (do
        let name ← Parser.expectName .parameterName
        if ← Parser.accept (.symbol .comma) then
          return name :: (← Parser.parameterList fuel (count + 1))
        return [name]) :=
      (expectName _).bind fun _ => (accept _).bind fun b => by
        cases b with
        | false => exact .pure _
        | true => exact (ih _).bind fun _ => .pure _
    unfold Parser.parameterList
    split
    · exact (reportHere (by simp)).bind fun _ => names
    · exact names

theorem parameters (fuel : Nat) : Orderly (parameters fuel) :=
  (nextIs _).bind fun b => by
    cases b with
    | false => exact parameterList fuel 0
    | true => exact .pure _

end Orderly

/-- With this fuel, every phrase is read with its errors found from left to right. -/
structure Orders (fuel : Nat) : Prop where
  level : ∀ l, Orderly (level fuel l)
  operand : ∀ l, Orderly (operand fuel l)
  chain : ∀ l left, Orderly (chain fuel l left)
  expression : Orderly (expression fuel)
  ternary : Orderly (ternary fuel)
  assigned : Orderly (assigned fuel)
  unary : Orderly (unary fuel)
  call : Orderly (call fuel)
  calls : ∀ object, Orderly (calls fuel object)
  arguments : Orderly (arguments fuel)
  argumentList : ∀ count, Orderly (argumentList fuel count)
  primary : Orderly (primary fuel)
  group : Orderly (group fuel)
  lambda : ∀ line, Orderly (lambda fuel line)
  functionRest : ∀ name? line sort, Orderly (functionRest fuel name? line sort)
  block : Orderly (block fuel)
  declarations : ∀ read, Orderly (declarations fuel read)
  declaration : Orderly (declaration fuel)
  declared : Orderly (declared fuel)
  classDeclaration : Orderly (classDeclaration fuel)
  members : ∀ methods getters, Orderly (members fuel methods getters)
  function : ∀ sort, Orderly (function fuel sort)
  getter : Orderly (getter fuel)
  varDeclaration : Orderly (varDeclaration fuel)
  initializer : Orderly (initializer fuel)
  statement : Orderly (statement fuel)
  expressionStatement : Orderly (expressionStatement fuel)
  printStatement : Orderly (printStatement fuel)
  returnStatement : ∀ line, Orderly (returnStatement fuel line)
  unlessNext : ∀ s, Orderly (unlessNext fuel s)
  whileStatement : Orderly (whileStatement fuel)
  ifStatement : Orderly (ifStatement fuel)
  forStatement : Orderly (forStatement fuel)
  forStart : Orderly (forStart fuel)

namespace Orders

variable {fuel : Nat} (ih : Orders fuel)

include ih in
theorem operand_succ (l : Level) : Orderly (Parser.operand (fuel + 1) l) := by
  unfold Parser.operand
  cases l with
  | comma => exact ih.ternary
  | factor => exact ih.unary
  | _ => exact ih.level _

include ih in
theorem chain_succ (l : Level) (left : Expr) : Orderly (Parser.chain (fuel + 1) l left) := by
  unfold Parser.chain
  refine (Orderly.acceptOperator l).bind fun r => ?_
  match r with
  | none => exact .pure _
  | some _ => exact (ih.operand l).bind fun _ => ih.chain l _

include ih in
theorem ternary_succ : Orderly (Parser.ternary (fuel + 1)) := by
  unfold Parser.ternary
  refine ih.assigned.bind fun _ => (Orderly.accept _).bind fun b => ?_
  cases b with
  | false => exact .pure _
  | true =>
    exact ih.expression.bind fun _ => (Orderly.expect _).bind fun _ =>
      ih.ternary.bind fun _ => .pure _

include ih in
/-- The equals sign is the next token when the target has been read. -/
theorem assigned_succ : Orderly (Parser.assigned (fuel + 1)) := by
  unfold Parser.assigned
  refine (ih.level _).bind fun target c hc => ?_
  match ht : c.tokens with
  | [] =>
    rw [Fueled.bind_ok (acceptEquals_eq_none (by simp [ht]))]
    exact Orderly.pure target c hc
  | t :: ts =>
    by_cases hk : t.kind = .symbol .equal
    · rw [Fueled.bind_ok (acceptEquals_eq_some ht hk)]
      exact ih.assigned.value hc ht
    · rw [Fueled.bind_ok (acceptEquals_eq_none (by simp [ht, hk]))]
      exact Orderly.pure target c hc

include ih in
theorem unary_succ : Orderly (Parser.unary (fuel + 1)) := by
  unfold Parser.unary
  refine Orderly.acceptUnary.bind fun r => ?_
  match r with
  | none => exact ih.call
  | some _ => exact ih.unary.bind fun _ => .pure _

include ih in
theorem calls_succ (object : Expr) : Orderly (Parser.calls (fuel + 1) object) := by
  unfold Parser.calls
  refine .peek fun kind? => ?_
  split
  · exact Orderly.skip.bind fun _ => ih.arguments.bind fun _ => (Orderly.expect _).bind fun _ =>
      ih.calls _
  · exact Orderly.skip.bind fun _ => (Orderly.expectName _).bind fun _ => ih.calls _
  · exact .pure _

include ih in
theorem arguments_succ : Orderly (Parser.arguments (fuel + 1)) := by
  unfold Parser.arguments
  refine (Orderly.nextIs _).bind fun b => ?_
  cases b with
  | false => exact ih.argumentList 0
  | true => exact .pure _

include ih in
theorem argumentList_succ (count : Nat) : Orderly (Parser.argumentList (fuel + 1) count) := by
  have rest : Orderly (do
      let argument ← Parser.ternary fuel
      if ← accept (.symbol .comma) then
        return argument :: (← Parser.argumentList fuel (count + 1))
      return [argument]) :=
    ih.ternary.bind fun _ => (Orderly.accept _).bind fun b => by
      cases b with
      | false => exact .pure _
      | true => exact (ih.argumentList _).bind fun _ => .pure _
  unfold Parser.argumentList
  split
  · exact (Orderly.reportHere (by simp)).bind fun _ => rest
  · exact rest

include ih in
theorem primary_succ : Orderly (Parser.primary (fuel + 1)) := by
  unfold Parser.primary
  refine .look fun c => ?_
  split
  · exact .failHere (by simp)
  · split
    case h_6 => exact Orderly.skip.bind fun _ => .superMethod _
    case h_7 => exact Orderly.skip.bind fun _ => Orderly.freshId.bind fun _ => .pure _
    case h_8 => exact Orderly.skip.bind fun _ => (Orderly.occurrence _).bind fun _ => .pure _
    case h_9 => exact Orderly.skip.bind fun _ => ih.group
    case h_10 => exact Orderly.skip.bind fun _ => ih.lambda _
    case h_11 => exact .failHere (by simp)
    all_goals exact Orderly.skip.bind fun _ => .pure _

include ih in
theorem functionRest_succ (name? : Option Name) (line : Nat) (sort : FunctionSort) :
    Orderly (Parser.functionRest (fuel + 1) name? line sort) := by
  unfold Parser.functionRest
  exact (Orderly.parameters fuel).bind fun _ => (Orderly.expect _).bind fun _ =>
    (Orderly.expect _).bind fun _ => ih.block.bind fun _ => .pure _

include ih in
theorem declarations_succ (read : List Stmt) :
    Orderly (Parser.declarations (fuel + 1) read) := by
  unfold Parser.declarations
  refine .peek fun kind? => ?_
  split
  · exact .pure _
  · exact .pure _
  · refine ih.declaration.bind fun s? => ?_
    cases s? with
    | none => exact ih.declarations read
    | some s => exact ih.declarations (s :: read)

include ih in
theorem declared_succ : Orderly (Parser.declared (fuel + 1)) := by
  unfold Parser.declared
  refine .look fun c => ?_
  split
  · exact Orderly.skip.bind fun _ => ih.classDeclaration
  · exact Orderly.skip.bind fun _ => (ih.function _).bind fun _ => .pure _
  · exact Orderly.skip.bind fun _ => ih.varDeclaration
  · exact ih.statement

include ih in
theorem classDeclaration_succ : Orderly (Parser.classDeclaration (fuel + 1)) := by
  unfold Parser.classDeclaration
  exact (Orderly.expectName _).bind fun _ => Orderly.superclassReference.bind fun _ =>
    (Orderly.expect _).bind fun _ => (ih.members [] []).bind fun _ =>
      (Orderly.expect _).bind fun _ => .pure _

include ih in
theorem members_succ (methods getters : List Function) :
    Orderly (Parser.members (fuel + 1) methods getters) := by
  unfold Parser.members
  refine .look fun c => ?_
  split
  · exact .pure _
  · exact .pure _
  · exact (ih.function _).bind fun _ => ih.members _ _
  · exact ih.getter.bind fun _ => ih.members _ _

include ih in
theorem initializer_succ : Orderly (Parser.initializer (fuel + 1)) := by
  unfold Parser.initializer
  refine (Orderly.accept _).bind fun b => ?_
  cases b with
  | false => exact .pure _
  | true => exact ih.expression.bind fun _ => .pure _

include ih in
theorem statement_succ : Orderly (Parser.statement (fuel + 1)) := by
  unfold Parser.statement
  refine .look fun c => ?_
  split
  · exact ih.expressionStatement
  · split
    · exact Orderly.skip.bind fun _ => ih.forStatement
    · exact Orderly.skip.bind fun _ => ih.ifStatement
    · exact Orderly.skip.bind fun _ => ih.printStatement
    · exact Orderly.skip.bind fun _ => ih.returnStatement _
    · exact Orderly.skip.bind fun _ => ih.whileStatement
    · exact Orderly.skip.bind fun _ => .jump _ _
    · exact Orderly.skip.bind fun _ => .jump _ _
    · exact Orderly.skip.bind fun _ => ih.block.bind fun _ => .pure _
    · exact ih.expressionStatement

include ih in
theorem unlessNext_succ (s : Symbol) : Orderly (Parser.unlessNext (fuel + 1) s) := by
  unfold Parser.unlessNext
  refine (Orderly.nextIs _).bind fun b => ?_
  cases b with
  | false => exact ih.expression.bind fun _ => .pure _
  | true => exact .pure _

include ih in
theorem ifStatement_succ : Orderly (Parser.ifStatement (fuel + 1)) := by
  unfold Parser.ifStatement
  refine (Orderly.expect _).bind fun _ => ih.expression.bind fun _ =>
    (Orderly.expect _).bind fun _ => ih.statement.bind fun _ => (Orderly.accept _).bind fun b => ?_
  cases b with
  | false => exact .pure _
  | true => exact ih.statement.bind fun _ => .pure _

include ih in
theorem forStatement_succ : Orderly (Parser.forStatement (fuel + 1)) := by
  unfold Parser.forStatement
  exact (Orderly.expect _).bind fun _ => ih.forStart.bind fun _ => (ih.unlessNext _).bind fun _ =>
    (Orderly.expect _).bind fun _ => (ih.unlessNext _).bind fun _ =>
      (Orderly.expect _).bind fun _ => ih.statement.bind fun _ => .pure _

include ih in
theorem forStart_succ : Orderly (Parser.forStart (fuel + 1)) := by
  unfold Parser.forStart
  refine .peek fun kind? => ?_
  split
  · exact Orderly.skip.bind fun _ => .pure _
  · exact Orderly.skip.bind fun _ => ih.varDeclaration.bind fun _ => .pure _
  · exact ih.expressionStatement.bind fun _ => .pure _

end Orders

theorem orders_zero : Orders 0 := by
  constructor <;> intros <;>
    simp only [level, operand, chain, expression, ternary, assigned, unary, call, calls, arguments,
      argumentList, primary, group, lambda, functionRest, block, declarations, declaration,
      declared, classDeclaration, members, function, getter, varDeclaration, initializer,
      statement, expressionStatement, printStatement, returnStatement, unlessNext,
      whileStatement, ifStatement, forStatement, forStart] <;>
    exact .exhausted

/-- Whatever its fuel, a parser finds the errors of its phrase from left to right. -/
theorem orders (fuel : Nat) : Orders fuel := by
  induction fuel with
  | zero => exact orders_zero
  | succ fuel ih =>
    exact {
      level := fun l => by
        unfold level
        exact (ih.operand l).bind fun _ => ih.chain l _
      operand := ih.operand_succ
      chain := ih.chain_succ
      expression := by
        unfold expression
        exact ih.level _
      ternary := ih.ternary_succ
      assigned := ih.assigned_succ
      unary := ih.unary_succ
      call := by
        unfold call
        exact ih.primary.bind fun _ => ih.calls _
      calls := ih.calls_succ
      arguments := ih.arguments_succ
      argumentList := ih.argumentList_succ
      primary := ih.primary_succ
      group := by
        unfold group
        exact ih.expression.bind fun _ => (Orderly.expect _).bind fun _ => .pure _
      lambda := fun _ => by
        unfold lambda
        exact (Orderly.expect _).bind fun _ =>
        (ih.functionRest _ _ _).bind fun _ => .pure _
      functionRest := ih.functionRest_succ
      block := by
        unfold block
        exact (ih.declarations []).bind fun _ => (Orderly.expect _).bind fun _ => .pure _
      declarations := ih.declarations_succ
      declaration := by
        unfold declaration
        exact .recovering ih.declared
      declared := ih.declared_succ
      classDeclaration := ih.classDeclaration_succ
      members := ih.members_succ
      function := fun _ => by
        unfold function
        exact (Orderly.expectName _).bind fun _ => (Orderly.expect _).bind fun _ =>
        ih.functionRest _ _ _
      getter := by
        unfold getter
        exact (Orderly.expectName _).bind fun _ => (Orderly.expect _).bind fun _ =>
        ih.block.bind fun _ => .pure _
      varDeclaration := by
        unfold varDeclaration
        exact (Orderly.expectName _).bind fun _ => ih.initializer.bind fun _ =>
        (Orderly.expect _).bind fun _ => .pure _
      initializer := ih.initializer_succ
      statement := ih.statement_succ
      expressionStatement := by
        unfold expressionStatement
        exact ih.expression.bind fun _ => (Orderly.expect _).bind fun _ => .pure _
      printStatement := by
        unfold printStatement
        exact ih.expression.bind fun _ => (Orderly.expect _).bind fun _ => .pure _
      returnStatement := fun _ => by
        unfold returnStatement
        exact (ih.unlessNext _).bind fun _ => (Orderly.expect _).bind fun _ =>
        .pure _
      unlessNext := ih.unlessNext_succ
      whileStatement := by
        unfold whileStatement
        exact (Orderly.expect _).bind fun _ => ih.expression.bind fun _ =>
        (Orderly.expect _).bind fun _ => ih.statement.bind fun _ => .pure _
      ifStatement := ih.ifStatement_succ
      forStatement := ih.forStatement_succ
      forStart := ih.forStart_succ }

theorem program_orderly (fuel : Nat) (read : List Stmt) : Orderly (program fuel read) := by
  induction fuel generalizing read with
  | zero => exact .exhausted
  | succ fuel ih =>
    unfold program
    refine .peek fun kind? => ?_
    cases kind? with
    | none => exact .pure _
    | some kind =>
      refine (orders fuel).declaration.bind fun s? => ?_
      cases s? with
      | none => exact ih read
      | some s => exact ih (s :: read)

end Parser

/-- The tokens of a program, each on a line of its own: the line of a token is its place. -/
def Token.placed (tokens : List Token) : List Token :=
  tokens.mapIdx fun place t => { t with line := place }

/-- The line of the token at a place, or the one on which the program ends. -/
def Token.lineAt (tokens : List Token) (endLine place : Nat) : Nat :=
  (tokens[place]?.map Token.line).getD endLine

theorem Token.forall₂_placed (tokens : List Token) (endLine : Nat) :
    List.Forall₂ (Token.Like fun line place => line = lineAt tokens endLine place) tokens
      (placed tokens) := by
  refine List.forall₂_iff_get.mpr ⟨by simp [placed], fun i hi hi' => ?_⟩
  simp only [placed, List.get_eq_getElem, List.getElem_mapIdx]
  exact ⟨rfl, rfl, by simp [lineAt, hi]⟩

theorem Token.placed_ascending (tokens : List Token) (firstId : Nat) :
    Cursor.Ascending ⟨placed tokens, tokens.length, firstId, []⟩ := by
  have hlines : (placed tokens).map Token.line ++ [tokens.length] =
      List.range (tokens.length + 1) := by
    rw [List.range_succ]
    congr 1
    exact List.ext_getElem (by simp [placed]) fun i _ _ => by simp [placed]
  unfold Cursor.Ascending
  rw [hlines]
  exact List.pairwise_lt_range

/-- The lines of tokens do not descend. -/
def Token.LinesAscend (tokens : List Token) (endLine : Nat) : Prop :=
  (tokens.map Token.line ++ [endLine]).Pairwise (· ≤ ·)

theorem Token.LinesAscend.lineAt_mono {tokens : List Token} {endLine p q : Nat}
    (h : LinesAscend tokens endLine) (hpq : p ≤ q) :
    lineAt tokens endLine p ≤ lineAt tokens endLine q := by
  obtain ⟨hlines, -, hend⟩ := List.pairwise_append.mp h
  by_cases hq : q < tokens.length
  · have hp : p < tokens.length := Nat.lt_of_le_of_lt hpq hq
    simp only [lineAt, List.getElem?_eq_getElem, hp, hq, Option.map_some, Option.getD_some]
    rcases Nat.eq_or_lt_of_le hpq with rfl | hpq
    · exact Nat.le_refl _
    · exact List.pairwise_iff_getElem.mp (List.pairwise_map.mp hlines) p q hp hq hpq
  · by_cases hp : p < tokens.length
    · have hle := hend tokens[p].line (List.mem_map_of_mem (List.getElem_mem hp)) endLine
        List.mem_cons_self
      simpa [lineAt, hp, hq] using hle
    · simp [lineAt, hp, hq]

/-- A stretch adds at most one token to a scan, on the line where it ends. -/
theorem Stretch.tokens_item? (s : Stretch) (first last : Nat) :
    Scan.tokens ⟨(s.item? first last).toList, last⟩ = [] ∨
      ∃ t : Token, Scan.tokens ⟨(s.item? first last).toList, last⟩ = [t] ∧ t.line = last := by
  unfold Stretch.item?
  split
  · exact .inl rfl
  · exact .inr ⟨_, rfl, rfl⟩
  · exact .inl rfl
  · exact .inl rfl

/-- A scan counts lines. -/
theorem scanFrom_linesAscend (line : Nat) : (cs : List Char) →
    (line :: ((scanFrom [] line cs).tokens.map Token.line ++
      [(scanFrom [] line cs).endLine])).Pairwise (· ≤ ·)
  | [] => by simp [scanFrom, Scan.tokens]
  | c :: cs => by
    have ih := scanFrom_linesAscend (line + lineBreaks (Stretch.first c cs).consumed)
      (Stretch.first c cs).rest
    have hline : line ≤ line + lineBreaks (Stretch.first c cs).consumed := Nat.le_add_right _ _
    rw [scanFrom_cons, Scan.tokens_join]
    dsimp only [Scan.join]
    generalize line + lineBreaks (Stretch.first c cs).consumed = last at ih hline ⊢
    obtain ⟨hle, hrest⟩ := List.pairwise_cons.mp ih
    rcases (Stretch.first c cs).tokens_item? line last with h | ⟨t, h, rfl⟩
    · rw [h, List.nil_append]
      exact hrest.cons fun n hn => Nat.le_trans hline (hle n hn)
    · rw [h, List.map_append, List.map_singleton, List.append_assoc, List.singleton_append]
      refine ih.cons fun n hn => ?_
      rcases List.mem_cons.mp hn with rfl | hn
      · exact hline
      · exact Nat.le_trans hline (hle n hn)
termination_by cs => cs.length
decreasing_by exact Nat.lt_succ_of_le (Stretch.length_rest_first_le c cs)

theorem scan_linesAscend (source : String) :
    Token.LinesAscend (scan source).tokens (scan source).endLine :=
  (scanFrom_linesAscend 1 source.toList).of_cons

namespace Program

/-- Where the errors of a program are: `placed` are the errors that its tokens have when the line of
each is its place among them. -/
structure Places (tokens : List Token) (endLine : Nat) (errors placed : List Diagnostic) :
    Prop where
  /-- The errors are those at the places, on the lines of the tokens there. -/
  lines : List.Forall₂
    (Diagnostic.LikeIn .parsing fun line place => line = Token.lineAt tokens endLine place)
    errors placed
  /-- In front of an error come errors at places that are not behind its own and then, if it is a
  target that takes no value, those of the value, which are all at places behind. -/
  front : ∀ front d back, placed = front ++ d :: back →
    ∃ earlier value, front = earlier ++ value ∧ (∀ e ∈ earlier, e.line ≤ d.line) ∧
      (∀ e ∈ value, d.line < e.line) ∧ (value ≠ [] → d.refusesTarget)

/-- Whether no target that takes no value is reported behind errors of the value. -/
def ValuesFlawless (placed : List Diagnostic) : Prop :=
  ∀ front d back, placed = front ++ d :: back → d.refusesTarget → ∀ e ∈ front, e.line ≤ d.line

namespace Places

variable {tokens : List Token} {endLine : Nat} {errors placed : List Diagnostic}

theorem pairwise_iff (h : Places tokens endLine errors placed) :
    placed.Pairwise (fun e d => e.line ≤ d.line) ↔ ValuesFlawless placed := by
  constructor
  · rintro hp front d back rfl - e he
    exact (List.pairwise_append.mp hp).2.2 e he d List.mem_cons_self
  · intro hv
    refine List.pairwise_iff_getElem.mpr fun i j hi hj hij => ?_
    have hsplit : placed = placed.take j ++ placed[j] :: placed.drop (j + 1) := by simp
    have hmem : placed[i] ∈ placed.take j := List.mem_take_iff_getElem.mpr ⟨i, by omega, rfl⟩
    by_cases hd : placed[j].refusesTarget
    · exact hv _ _ _ hsplit hd _ hmem
    · obtain ⟨earlier, value, hfront, hearlier, -, hvalue⟩ := h.front _ _ _ hsplit
      have hnil : value = [] := not_imp_comm.mp hvalue hd
      rw [hfront, hnil, List.append_nil] at hmem
      exact hearlier _ hmem

/-- Where lines do not descend, errors in the order of their places are in the order of their
lines. -/
theorem lines_pairwise (h : Places tokens endLine errors placed)
    (hl : Token.LinesAscend tokens endLine) (hp : placed.Pairwise fun e d => e.line ≤ d.line) :
    errors.Pairwise fun e d => e.line ≤ d.line := by
  have hline : ∀ {e e' : Diagnostic}, Diagnostic.LikeIn .parsing
      (fun line place => line = Token.lineAt tokens endLine place) e e' →
      e.line = Token.lineAt tokens endLine e'.line := by
    rintro e e' ⟨he, hphase⟩
    cases he <;> first | assumption | cases hphase
  refine List.pairwise_iff_getElem.mpr fun i j hi hj hij => ?_
  have hlen := h.lines.length_eq
  have hplace := List.pairwise_iff_getElem.mp hp i j (hlen ▸ hi) (hlen ▸ hj) hij
  calc errors[i].line = Token.lineAt tokens endLine placed[i].line :=
        hline (h.lines.get hi (hlen ▸ hi))
    _ ≤ Token.lineAt tokens endLine placed[j].line := hl.lineAt_mono hplace
    _ = errors[j].line := (hline (h.lines.get hj (hlen ▸ hj))).symm

end Places

/-- The errors of tokens on lines of their own are found from left to right. -/
theorem found_of_ofTokens {firstId endLine : Nat} {tokens : List Token} {errors : List Diagnostic}
    (hc : Cursor.Ascending ⟨tokens, endLine, firstId, []⟩)
    (h : ofTokens firstId tokens endLine = .error errors) :
    ∃ first last, Found first last errors := by
  have hr := Parser.program_orderly (fuelFor tokens.length) [] _ hc
  have listed : ∀ {c' : Cursor}, Cursor.Advances ⟨tokens, endLine, firstId, []⟩ c' →
      ∃ first last, Found first last c'.errors.reverse := by
    intro c' ha
    obtain ⟨ds, hds, hf⟩ := ha.errors
    rw [hds, List.append_nil, List.reverse_reverse]
    exact ⟨_, _, hf⟩
  unfold ofTokens at h
  match hp : Parser.program (fuelFor tokens.length) [] ⟨tokens, endLine, firstId, []⟩ with
  | .ok _ c =>
    rw [hp] at h hr
    dsimp only at h
    split at h
    · cases h
    · cases h
      exact listed hr
  | .error (.failed _) c =>
    rw [hp] at h hr
    cases h
    exact listed hr.1
  | .error .outOfFuel c =>
    rw [hp] at h hr
    cases h
    exact listed hr

/-- The errors of tokens that are no program are listed by the places of the tokens they are at, but
for a target that takes no value: it is listed behind the errors of the value. So the lines of the
errors of a text do not descend, unless there is such a target. -/
theorem errors_in_order {firstId endLine : Nat} {tokens : List Token} {errors : List Diagnostic}
    (h : ofTokens firstId tokens endLine = .error errors) :
    ∃ placed, ofTokens firstId (Token.placed tokens) tokens.length = .error placed ∧
      Places tokens endLine errors placed ∧
      (placed.Pairwise (fun e d => e.line ≤ d.line) ↔ ValuesFlawless placed) ∧
      ∀ source, tokens = (scan source).tokens → endLine = (scan source).endLine →
        ValuesFlawless placed → errors.Pairwise fun e d => e.line ≤ d.line := by
  have hlike := ofTokens_like (Likeness.renumbering_counts firstId firstId
    fun line place => line = Token.lineAt tokens endLine place) (a := firstId) (b := firstId)
    ⟨0, rfl, rfl⟩
    (Token.forall₂_placed tokens endLine)
    (show endLine = Token.lineAt tokens endLine tokens.length by simp [Token.lineAt])
  rw [h] at hlike
  match hp : ofTokens firstId (Token.placed tokens) tokens.length with
  | .ok p =>
    rw [hp] at hlike
    exact hlike.elim
  | .error placed =>
    rw [hp] at hlike
    obtain ⟨first, last, hfound⟩ := found_of_ofTokens (Token.placed_ascending tokens firstId) hp
    have hplaces : Places tokens endLine errors placed := by
      refine ⟨?_, fun _ _ _ => hfound.front_eq⟩
      exact ((List.forall₂_and_left _ _).mpr ⟨phase_of_ofTokens h, hlike⟩).imp
        fun _ _ hd => ⟨hd.2, hd.1⟩
    refine ⟨placed, rfl, hplaces, hplaces.pairwise_iff, ?_⟩
    rintro source rfl rfl hv
    exact hplaces.lines_pairwise (scan_linesAscend source) (hplaces.pairwise_iff.mpr hv)

/-- A missing expression and, behind it, a target that takes no value. -/
theorem errors_in_order_print :
    ofTokens 0 (scan "print ;\nnil =\nnil;").tokens 3 =
        .error [.grammar 1 (some ";") .expectedExpression,
          .grammar 2 (some "=") .invalidAssignmentTarget] ∧
      ∃ placed, ofTokens 0 (Token.placed (scan "print ;\nnil =\nnil;").tokens) 6 = .error placed ∧
        Places (scan "print ;\nnil =\nnil;").tokens 3
          [.grammar 1 (some ";") .expectedExpression,
            .grammar 2 (some "=") .invalidAssignmentTarget] placed := by
  have hscan : (scan "print ;\nnil =\nnil;").tokens =
      [⟨.keyword .print, "print", 1⟩, ⟨.symbol .semicolon, ";", 1⟩, ⟨.keyword .nil, "nil", 2⟩,
        ⟨.symbol .equal, "=", 2⟩, ⟨.keyword .nil, "nil", 3⟩, ⟨.symbol .semicolon, ";", 3⟩] := by
    decide +kernel
  have h : ofTokens 0 (scan "print ;\nnil =\nnil;").tokens 3 =
      .error [.grammar 1 (some ";") .expectedExpression,
        .grammar 2 (some "=") .invalidAssignmentTarget] := by
    rw [hscan]
    with_unfolding_all rfl
  have hlength : (scan "print ;\nnil =\nnil;").tokens.length = 6 := by rw [hscan]; rfl
  obtain ⟨placed, hplaced, hplaces, -⟩ := errors_in_order h
  rw [hlength] at hplaced
  exact ⟨h, placed, hplaced, hplaces⟩

/-- A target that takes no value in the value of another one is listed first. -/
theorem errors_out_of_order :
    ∃ errors, ofTokens 0 (scan "nil =\nnil =\nnil;").tokens (scan "nil =\nnil =\nnil;").endLine =
        .error errors ∧ ¬ errors.Pairwise fun e d => e.line ≤ d.line := by
  have hscan : scan "nil =\nnil =\nnil;" =
      ⟨[.token ⟨.keyword .nil, "nil", 1⟩, .token ⟨.symbol .equal, "=", 1⟩,
        .token ⟨.keyword .nil, "nil", 2⟩, .token ⟨.symbol .equal, "=", 2⟩,
        .token ⟨.keyword .nil, "nil", 3⟩, .token ⟨.symbol .semicolon, ";", 3⟩], 3⟩ := by
    decide +kernel
  rw [hscan]
  refine ⟨[.grammar 2 (some "=") .invalidAssignmentTarget,
    .grammar 1 (some "=") .invalidAssignmentTarget], by with_unfolding_all rfl, ?_⟩
  simp [Diagnostic.line]

end Program

end LoxLang
