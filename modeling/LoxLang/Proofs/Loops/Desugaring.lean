import LoxLang.Program
import LoxLang.Proofs.Scoping.Mentions
import LoxLang.Proofs.Tree.Numbering

/-!
Loops with an increment as loops without one: the increment becomes the last statement of a block
around the body. A body with a `continue` of its loop stays as it is, as the increment would be
left out there.
-/

namespace LoxLang

mutual

/-- Whether a statement has a `continue` of the loop around it. -/
def Stmt.continues : Stmt → Bool
  | .block body => stmtsContinue body
  | .if _ thenBranch none => thenBranch.continues
  | .if _ thenBranch (some elseBranch) => thenBranch.continues || elseBranch.continues
  | .continue _ => true
  | .expression _ | .print _ | .var _ _ | .while _ _ _ | .function _ | .class _ | .return _ _
  | .break _ => false

def stmtsContinue : List Stmt → Bool
  | [] => false
  | s :: ss => s.continues || stmtsContinue ss

end

/-- Whether a statement declares nothing but in blocks of its own. -/
def Stmt.steady : Stmt → Bool
  | .if _ thenBranch none => thenBranch.steady
  | .if _ thenBranch (some elseBranch) => thenBranch.steady && elseBranch.steady
  | .while _ body _ => body.steady
  | .var _ _ | .function _ | .class _ => false
  | .expression _ | .print _ | .block _ | .return _ _ | .break _ | .continue _ => true

section

variable (p : Stmt → Bool)

mutual

/-- The tree in which the loops have lost their increment whose body `p` holds of. -/
def Expr.desugared : Expr → Expr
  | .literal value => .literal value
  | .group inner => .group inner.desugared
  | .unary op line operand => .unary op line operand.desugared
  | .binary op line left right => .binary op line left.desugared right.desugared
  | .logical op left right => .logical op left.desugared right.desugared
  | .ternary condition thenBranch elseBranch =>
    .ternary condition.desugared thenBranch.desugared elseBranch.desugared
  | .comma left right => .comma left.desugared right.desugared
  | .variable occurrence => .variable occurrence
  | .assign target value => .assign target value.desugared
  | .call callee line arguments => .call callee.desugared line (desugaredExprs arguments)
  | .get object name => .get object.desugared name
  | .set object name value => .set object.desugared name value.desugared
  | .this id line => .this id line
  | .super id line method => .super id line method
  | .lambda function => .lambda function.desugared

def desugaredExprs : List Expr → List Expr
  | [] => []
  | e :: es => e.desugared :: desugaredExprs es

def Function.desugared : Function → Function
  | ⟨name?, parameters, body, line⟩ => ⟨name?, parameters, desugaredStmts body, line⟩

def Stmt.desugared : Stmt → Stmt
  | .expression e => .expression e.desugared
  | .print e => .print e.desugared
  | .var name none => .var name none
  | .var name (some initializer) => .var name (some initializer.desugared)
  | .block body => .block (desugaredStmts body)
  | .if condition thenBranch none => .if condition.desugared thenBranch.desugared none
  | .if condition thenBranch (some elseBranch) =>
    .if condition.desugared thenBranch.desugared (some elseBranch.desugared)
  | .while condition body none => .while condition.desugared body.desugared none
  | .while condition body (some increment) =>
    if p body then
      .while condition.desugared
        (.block [body.desugared, .expression increment.desugared]) none
    else .while condition.desugared body.desugared (some increment.desugared)
  | .function f => .function f.desugared
  | .class c => .class c.desugared
  | .return line none => .return line none
  | .return line (some value) => .return line (some value.desugared)
  | .break line => .break line
  | .continue line => .continue line

def desugaredStmts : List Stmt → List Stmt
  | [] => []
  | s :: ss => s.desugared :: desugaredStmts ss

def Class.desugared : Class → Class
  | ⟨name, superclass?, methods, getters⟩ =>
    ⟨name, superclass?, desugaredFunctions methods, desugaredFunctions getters⟩

def desugaredFunctions : List Function → List Function
  | [] => []
  | f :: fs => f.desugared :: desugaredFunctions fs

end

end

/-- The program in which every loop with an increment that no `continue` leads to has it at the end
of its body instead. -/
def Program.desugared (program : Program) : Program :=
  { program with statements := desugaredStmts (fun body => !body.continues) program.statements }

variable (p : Stmt → Bool)

@[simp] theorem Function.name?_desugared (f : Function) : (f.desugared p).name? = f.name? := by
  cases f
  rw [Function.desugared]

@[simp] theorem Function.parameters_desugared (f : Function) :
    (f.desugared p).parameters = f.parameters := by
  cases f
  rw [Function.desugared]

@[simp] theorem Function.line_desugared (f : Function) : (f.desugared p).line = f.line := by
  cases f
  rw [Function.desugared]

@[simp] theorem Function.body_desugared (f : Function) :
    (f.desugared p).body = desugaredStmts p f.body := by
  cases f
  rw [Function.desugared]

@[simp] theorem Function.displayName_desugared (f : Function) :
    (f.desugared p).displayName = f.displayName := by
  rw [Function.displayName, Function.displayName, f.name?_desugared]

theorem Stmt.declared?_desugared (s : Stmt) : (s.desugared p).declared? = s.declared? := by
  match s with
  | .var _ none | .var _ (some _) | .if _ _ none | .if _ _ (some _) | .while _ _ none
  | .expression _ | .print _ | .block _ | .return _ none | .return _ (some _) | .break _
  | .continue _ => rfl
  | .while _ body (some _) =>
    rw [Stmt.desugared]
    split <;> rfl
  | .function f => exact f.name?_desugared p
  | .class ⟨_, _, _, _⟩ => rfl

theorem desugaredFunctions_eq_map (fs : List Function) :
    desugaredFunctions p fs = fs.map (Function.desugared p) := by
  induction fs with
  | nil => rfl
  | cons f fs ih => rw [desugaredFunctions, ih, List.map_cons]

/-! ## Numbers -/

mutual

theorem Expr.ids_desugared : (e : Expr) → (e.desugared p).ids = e.ids
  | .literal _ | .variable _ | .this _ _ | .super _ _ _ => rfl
  | .group inner => inner.ids_desugared
  | .unary _ _ operand => operand.ids_desugared
  | .binary _ _ left right | .logical _ left right | .comma left right => by
    simp only [Expr.desugared, Expr.ids, left.ids_desugared, right.ids_desugared]
  | .ternary condition thenBranch elseBranch => by
    simp only [Expr.desugared, Expr.ids, condition.ids_desugared, thenBranch.ids_desugared,
      elseBranch.ids_desugared]
  | .assign _ value => by simp only [Expr.desugared, Expr.ids, value.ids_desugared]
  | .call callee _ arguments => by
    simp only [Expr.desugared, Expr.ids, callee.ids_desugared, exprsIds_desugared arguments]
  | .get object _ => object.ids_desugared
  | .set object _ value => by
    simp only [Expr.desugared, Expr.ids, object.ids_desugared, value.ids_desugared]
  | .lambda f => f.ids_desugared

theorem exprsIds_desugared : (es : List Expr) → exprsIds (desugaredExprs p es) = exprsIds es
  | [] => rfl
  | e :: es => by simp only [desugaredExprs, exprsIds, e.ids_desugared, exprsIds_desugared es]

theorem Function.ids_desugared : (f : Function) → (f.desugared p).ids = f.ids
  | ⟨_, _, body, _⟩ => stmtsIds_desugared body

theorem Stmt.ids_desugared : (s : Stmt) → (s.desugared p).ids = s.ids
  | .var _ none | .return _ none | .break _ | .continue _ => rfl
  | .expression e | .print e | .var _ (some e) | .return _ (some e) => e.ids_desugared
  | .block body => stmtsIds_desugared body
  | .if condition thenBranch none => by
    simp only [Stmt.desugared, Stmt.ids, condition.ids_desugared, thenBranch.ids_desugared]
  | .if condition thenBranch (some elseBranch) => by
    simp only [Stmt.desugared, Stmt.ids, condition.ids_desugared, thenBranch.ids_desugared,
      elseBranch.ids_desugared]
  | .while condition body none => by
    simp only [Stmt.desugared, Stmt.ids, condition.ids_desugared, body.ids_desugared]
  | .while condition body (some increment) => by
    rw [Stmt.desugared]
    split <;> simp only [Stmt.ids, stmtsIds, condition.ids_desugared, body.ids_desugared,
      increment.ids_desugared, List.append_nil]
  | .function f => f.ids_desugared
  | .class c => c.ids_desugared

theorem stmtsIds_desugared : (ss : List Stmt) → stmtsIds (desugaredStmts p ss) = stmtsIds ss
  | [] => rfl
  | s :: ss => by simp only [desugaredStmts, stmtsIds, s.ids_desugared, stmtsIds_desugared ss]

theorem Class.ids_desugared : (c : Class) → (c.desugared p).ids = c.ids
  | ⟨_, none, methods, getters⟩ | ⟨_, some _, methods, getters⟩ => by
    simp only [Class.desugared, Class.ids, functionsIds_desugared methods,
      functionsIds_desugared getters]

theorem functionsIds_desugared :
    (fs : List Function) → functionsIds (desugaredFunctions p fs) = functionsIds fs
  | [] => rfl
  | f :: fs => by
    simp only [desugaredFunctions, functionsIds, f.ids_desugared, functionsIds_desugared fs]

end

/-! ## Formed trees -/

theorem Function.Named.desugared {f : Function} (h : f.Named) : (f.desugared p).Named := by
  obtain ⟨name, hn, hp⟩ := h
  exact ⟨name, (f.name?_desugared p).trans hn, hp⟩

mutual

theorem Expr.Formed.desugared : (e : Expr) → e.Formed → (e.desugared p).Formed
  | .literal _, _ | .variable _, _ | .this _ _, _ => trivial
  | .super _ _ _, h => h
  | .group inner, h => Expr.Formed.desugared inner h
  | .unary _ _ operand, h => Expr.Formed.desugared operand h
  | .binary _ _ left right, h | .logical _ left right, h | .comma left right, h =>
    ⟨Expr.Formed.desugared left h.1, Expr.Formed.desugared right h.2⟩
  | .ternary condition thenBranch elseBranch, h =>
    ⟨Expr.Formed.desugared condition h.1, Expr.Formed.desugared thenBranch h.2.1,
      Expr.Formed.desugared elseBranch h.2.2⟩
  | .assign _ value, h => ⟨h.1, Expr.Formed.desugared value h.2⟩
  | .call callee _ arguments, h =>
    ⟨Expr.Formed.desugared callee h.1, exprsFormed_desugared arguments h.2⟩
  | .get object _, h => ⟨Expr.Formed.desugared object h.1, h.2⟩
  | .set object _ value, h =>
    ⟨Expr.Formed.desugared object h.1, Expr.Formed.desugared value h.2.1, h.2.2⟩
  | .lambda f, h => Function.Formed.desugared f h

theorem exprsFormed_desugared : (es : List Expr) → exprsFormed es →
    exprsFormed (desugaredExprs p es)
  | [], _ => trivial
  | e :: es, h => ⟨Expr.Formed.desugared e h.1, exprsFormed_desugared es h.2⟩

theorem Function.Formed.desugared : (f : Function) → f.Formed → (f.desugared p).Formed
  | ⟨_, _, body, _⟩, h => ⟨h.1, stmtsFormed_desugared body h.2⟩

theorem Stmt.Formed.desugared : (s : Stmt) → s.Formed → (s.desugared p).Formed
  | .return _ none, _ | .break _, _ | .continue _, _ => trivial
  | .var _ none, h => h
  | .expression e, h | .print e, h | .return _ (some e), h => Expr.Formed.desugared e h
  | .var _ (some e), h => ⟨h.1, Expr.Formed.desugared e h.2⟩
  | .block body, h => stmtsFormed_desugared body h
  | .if condition thenBranch none, h =>
    ⟨Expr.Formed.desugared condition h.1, Stmt.Formed.desugared thenBranch h.2.1,
      (thenBranch.declared?_desugared p).trans h.2.2⟩
  | .if condition thenBranch (some elseBranch), h =>
    ⟨Expr.Formed.desugared condition h.1,
      ⟨Stmt.Formed.desugared thenBranch h.2.1.1, (thenBranch.declared?_desugared p).trans h.2.1.2⟩,
      Stmt.Formed.desugared elseBranch h.2.2.1, (elseBranch.declared?_desugared p).trans h.2.2.2⟩
  | .while condition body none, h =>
    ⟨Expr.Formed.desugared condition h.1, Stmt.Formed.desugared body h.2.1,
      (body.declared?_desugared p).trans h.2.2⟩
  | .while condition body (some increment), h => by
    have hc := Expr.Formed.desugared condition h.1
    have hb := Stmt.Formed.desugared body h.2.1.1
    have hi := Expr.Formed.desugared increment h.2.2
    rw [Stmt.desugared]
    split
    · exact ⟨hc, ⟨hb, hi, trivial⟩, rfl⟩
    · exact ⟨hc, ⟨hb, (body.declared?_desugared p).trans h.2.1.2⟩, hi⟩
  | .function f, h => ⟨h.1.desugared p, Function.Formed.desugared f h.2⟩
  | .class c, h => Class.Formed.desugared c h

theorem stmtsFormed_desugared : (ss : List Stmt) → stmtsFormed ss →
    stmtsFormed (desugaredStmts p ss)
  | [], _ => trivial
  | s :: ss, h => ⟨Stmt.Formed.desugared s h.1, stmtsFormed_desugared ss h.2⟩

theorem Class.Formed.desugared : (c : Class) → c.Formed → (c.desugared p).Formed
  | ⟨_, _, methods, getters⟩, ⟨hn, ⟨hm, hmn⟩, ⟨hg, hgn⟩, hgp⟩ => by
    refine ⟨hn, ⟨functionsFormed_desugared methods hm, ?_⟩,
      ⟨functionsFormed_desugared getters hg, ?_⟩, ?_⟩
    · rw [desugaredFunctions_eq_map, List.forall_mem_map]
      exact fun f hf => (hmn f hf).desugared p
    · rw [desugaredFunctions_eq_map, List.forall_mem_map]
      exact fun f hf => (hgn f hf).desugared p
    · rw [desugaredFunctions_eq_map, List.forall_mem_map]
      exact fun f hf => (f.parameters_desugared p).trans (hgp f hf)

theorem functionsFormed_desugared : (fs : List Function) → functionsFormed fs →
    functionsFormed (desugaredFunctions p fs)
  | [], _ => trivial
  | f :: fs, h => ⟨Function.Formed.desugared f h.1, functionsFormed_desugared fs h.2⟩

end

/-! ## Steady bodies -/

/-- A formed branch or body is steady. -/
theorem Stmt.steady_of_formed : (s : Stmt) → s.Formed → s.declared? = none → s.steady = true
  | .expression _, _, _ | .print _, _, _ | .block _, _, _ | .return _ _, _, _ | .break _, _, _
  | .continue _, _, _ => rfl
  | .if _ thenBranch none, h, _ => thenBranch.steady_of_formed h.2.1 h.2.2
  | .if _ thenBranch (some elseBranch), h, _ => by
    rw [Stmt.steady, thenBranch.steady_of_formed h.2.1.1 h.2.1.2,
      elseBranch.steady_of_formed h.2.2.1 h.2.2.2]
    rfl
  | .while _ body none, h, _ => body.steady_of_formed h.2.1 h.2.2
  | .while _ body (some _), h, _ => body.steady_of_formed h.2.1.1 h.2.1.2
  | .function f, h, hd => by
    obtain ⟨name, hn, -⟩ := h.1
    rw [Stmt.declared?, hn] at hd
    cases hd

variable {q : Stmt → Bool}

mutual

/-- What is done with bodies that no formed tree has does not matter. -/
theorem Expr.desugared_congr (hpq : ∀ s : Stmt, s.steady = true → p s = q s) :
    (e : Expr) → e.Formed → e.desugared p = e.desugared q
  | .literal _, _ | .variable _, _ | .this _ _, _ | .super _ _ _, _ => rfl
  | .group inner, h => congrArg Expr.group (inner.desugared_congr hpq h)
  | .unary op line operand, h => congrArg (Expr.unary op line) (operand.desugared_congr hpq h)
  | .binary _ _ left right, h | .logical _ left right, h | .comma left right, h => by
    simp only [Expr.desugared, left.desugared_congr hpq h.1, right.desugared_congr hpq h.2]
  | .ternary condition thenBranch elseBranch, h => by
    simp only [Expr.desugared, condition.desugared_congr hpq h.1,
      thenBranch.desugared_congr hpq h.2.1, elseBranch.desugared_congr hpq h.2.2]
  | .assign target value, h => congrArg (Expr.assign target) (value.desugared_congr hpq h.2)
  | .call callee _ arguments, h => by
    simp only [Expr.desugared, callee.desugared_congr hpq h.1,
      desugaredExprs_congr hpq arguments h.2]
  | .get object _, h => by simp only [Expr.desugared, object.desugared_congr hpq h.1]
  | .set object _ value, h => by
    simp only [Expr.desugared, object.desugared_congr hpq h.1, value.desugared_congr hpq h.2.1]
  | .lambda f, h => congrArg Expr.lambda (f.desugared_congr hpq h)

theorem desugaredExprs_congr (hpq : ∀ s : Stmt, s.steady = true → p s = q s) :
    (es : List Expr) → exprsFormed es → desugaredExprs p es = desugaredExprs q es
  | [], _ => rfl
  | e :: es, h => by
    simp only [desugaredExprs, e.desugared_congr hpq h.1, desugaredExprs_congr hpq es h.2]

theorem Function.desugared_congr (hpq : ∀ s : Stmt, s.steady = true → p s = q s) :
    (f : Function) → f.Formed → f.desugared p = f.desugared q
  | ⟨_, _, body, _⟩, h => by
    simp only [Function.desugared, desugaredStmts_congr hpq body h.2]

theorem Stmt.desugared_congr (hpq : ∀ s : Stmt, s.steady = true → p s = q s) :
    (s : Stmt) → s.Formed → s.desugared p = s.desugared q
  | .var _ none, _ | .return _ none, _ | .break _, _ | .continue _, _ => rfl
  | .expression e, h | .print e, h | .return _ (some e), h => by
    simp only [Stmt.desugared, e.desugared_congr hpq h]
  | .var _ (some e), h => by simp only [Stmt.desugared, e.desugared_congr hpq h.2]
  | .block body, h => by simp only [Stmt.desugared, desugaredStmts_congr hpq body h]
  | .if condition thenBranch none, h => by
    simp only [Stmt.desugared, condition.desugared_congr hpq h.1,
      thenBranch.desugared_congr hpq h.2.1]
  | .if condition thenBranch (some elseBranch), h => by
    simp only [Stmt.desugared, condition.desugared_congr hpq h.1,
      thenBranch.desugared_congr hpq h.2.1.1, elseBranch.desugared_congr hpq h.2.2.1]
  | .while condition body none, h => by
    simp only [Stmt.desugared, condition.desugared_congr hpq h.1, body.desugared_congr hpq h.2.1]
  | .while condition body (some increment), h => by
    simp only [Stmt.desugared, condition.desugared_congr hpq h.1,
      body.desugared_congr hpq h.2.1.1, increment.desugared_congr hpq h.2.2,
      hpq body (body.steady_of_formed h.2.1.1 h.2.1.2)]
  | .function f, h => congrArg Stmt.function (f.desugared_congr hpq h.2)
  | .class c, h => congrArg Stmt.class (c.desugared_congr hpq h)

theorem desugaredStmts_congr (hpq : ∀ s : Stmt, s.steady = true → p s = q s) :
    (ss : List Stmt) → stmtsFormed ss → desugaredStmts p ss = desugaredStmts q ss
  | [], _ => rfl
  | s :: ss, h => by
    simp only [desugaredStmts, s.desugared_congr hpq h.1, desugaredStmts_congr hpq ss h.2]

theorem Class.desugared_congr (hpq : ∀ s : Stmt, s.steady = true → p s = q s) :
    (c : Class) → c.Formed → c.desugared p = c.desugared q
  | ⟨_, _, methods, getters⟩, ⟨_, ⟨hm, _⟩, ⟨hg, _⟩, _⟩ => by
    simp only [Class.desugared, desugaredFunctions_congr hpq methods hm,
      desugaredFunctions_congr hpq getters hg]

theorem desugaredFunctions_congr (hpq : ∀ s : Stmt, s.steady = true → p s = q s) :
    (fs : List Function) → functionsFormed fs → desugaredFunctions p fs = desugaredFunctions q fs
  | [], _ => rfl
  | f :: fs, h => by
    simp only [desugaredFunctions, f.desugared_congr hpq h.1, desugaredFunctions_congr hpq fs h.2]

end

end LoxLang
