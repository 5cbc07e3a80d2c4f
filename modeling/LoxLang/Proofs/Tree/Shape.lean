import LoxLang.Proofs.Tree.Bracketing

/-!
Trees as words and brackets, which are what the bracketed form of a tree shows.
-/

namespace LoxLang

open Bracketing (word parts)

mutual

def Expr.bracketing : Expr → Bracketing
  | .literal value => word value.bracketed
  | .group inner => parts [word "group", inner.bracketing]
  | .unary op _ operand => parts [word op.text, operand.bracketing]
  | .binary op _ left right => parts [word op.text, left.bracketing, right.bracketing]
  | .logical op left right => parts [word op.text, left.bracketing, right.bracketing]
  | .ternary condition thenBranch elseBranch =>
    parts [word "?:", condition.bracketing, thenBranch.bracketing, elseBranch.bracketing]
  | .comma left right => parts [word ",", left.bracketing, right.bracketing]
  | .variable occurrence => word occurrence.name.text
  | .assign target value => parts [word "=", word target.name.text, value.bracketing]
  | .call callee _ arguments =>
    parts (word "call" :: callee.bracketing :: exprsBracketing arguments)
  | .get object name => parts [word ".", object.bracketing, word name.text]
  | .set object name value =>
    parts [word "=", parts [word ".", object.bracketing, word name.text], value.bracketing]
  | .this _ _ => word "this"
  | .super _ _ method => parts [word "super", word method.text]
  | .lambda function => parts (word "lambda" :: function.parts)

def exprsBracketing : List Expr → List Bracketing
  | [] => []
  | e :: es => e.bracketing :: exprsBracketing es

/-- What follows the head of a function. -/
def Function.parts : Function → List Bracketing
  | ⟨name?, parameters, body, _⟩ =>
    name?.toList.map (word ∘ Name.text) ++
      [Bracketing.parts (parameters.map (word ∘ Name.text)),
        Bracketing.parts (word "block" :: stmtsBracketing body)]

def Stmt.bracketing : Stmt → Bracketing
  | .expression e => parts [word ";", e.bracketing]
  | .print e => parts [word "print", e.bracketing]
  | .var name none => parts [word "var", word name.text]
  | .var name (some initializer) =>
    parts [word "var", word name.text, initializer.bracketing]
  | .block body => parts (word "block" :: stmtsBracketing body)
  | .if condition thenBranch none =>
    parts [word "if", condition.bracketing, thenBranch.bracketing]
  | .if condition thenBranch (some elseBranch) =>
    parts [word "if", condition.bracketing, thenBranch.bracketing, elseBranch.bracketing]
  | .while condition body none => parts [word "while", condition.bracketing, body.bracketing]
  | .while condition body (some increment) =>
    parts [word "while", condition.bracketing, body.bracketing, increment.bracketing]
  | .function f => parts (word "fun" :: f.parts)
  | .class c => parts (word "class" :: c.parts)
  | .return _ none => parts [word "return"]
  | .return _ (some value) => parts [word "return", value.bracketing]
  | .break _ => parts [word "break"]
  | .continue _ => parts [word "continue"]

def stmtsBracketing : List Stmt → List Bracketing
  | [] => []
  | s :: ss => s.bracketing :: stmtsBracketing ss

/-- What follows the head of a class. -/
def Class.parts : Class → List Bracketing
  | ⟨name, superclass?, methods, getters⟩ =>
    word name.text ::
      ((superclass?.map fun o => Bracketing.parts [word "<", word o.name.text]).toList ++
        (functionsBracketing "method" methods ++ functionsBracketing "get" getters))

def functionsBracketing (head : String) : List Function → List Bracketing
  | [] => []
  | f :: fs => parts (word head :: f.parts) :: functionsBracketing head fs

end

attribute [simp] Bracketing.text bracketingTexts Expr.bracketing exprsBracketing Function.parts
attribute [simp] Stmt.bracketing stmtsBracketing Class.parts functionsBracketing
attribute [simp] Expr.bracketed bracketedExprs Function.bracketed Stmt.bracketed bracketedStmts
attribute [simp] Class.bracketed bracketedFunctions

theorem bracketingTexts_append (ps qs : List Bracketing) :
    bracketingTexts (ps ++ qs) = bracketingTexts ps ++ bracketingTexts qs := by
  induction ps with
  | nil => rfl
  | cons p ps ih => simp [ih]

theorem bracketingTexts_words (ns : List Name) :
    bracketingTexts (ns.map (word ∘ Name.text)) = ns.map Name.text := by
  induction ns with
  | nil => rfl
  | cons n ns ih => simp [ih]

mutual

/-- A tree is printed as its words and brackets. -/
theorem Expr.text_bracketing : (e : Expr) → e.bracketing.text = e.bracketed
  | .literal _ | .variable _ | .this _ _ => rfl
  | .group inner | .unary _ _ inner => by simp [inner.text_bracketing]
  | .binary _ _ left right | .logical _ left right | .comma left right => by
    simp [left.text_bracketing, right.text_bracketing]
  | .ternary condition thenBranch elseBranch => by
    simp [condition.text_bracketing, thenBranch.text_bracketing, elseBranch.text_bracketing]
  | .assign _ value => by simp [value.text_bracketing]
  | .call callee _ arguments => by simp [callee.text_bracketing, texts_exprsBracketing arguments]
  | .get object _ => by simp [object.text_bracketing]
  | .set object _ value => by simp [object.text_bracketing, value.text_bracketing]
  | .super _ _ _ => by simp
  | .lambda f => by
    rw [Expr.bracketing, Expr.bracketed, f.text_parts]
termination_by structural e => e

theorem texts_exprsBracketing : (es : List Expr) →
    bracketingTexts (exprsBracketing es) = bracketedExprs es
  | [] => rfl
  | e :: es => by simp [e.text_bracketing, texts_exprsBracketing es]
termination_by structural es => es

theorem Function.text_parts : (f : Function) → {head : String} →
    (parts (word head :: f.parts)).text = f.bracketed head
  | ⟨name?, parameters, body, _⟩, _ => by
    cases name? <;>
      simp [bracketingTexts_words, texts_stmtsBracketing body]
termination_by structural f => f

theorem Stmt.text_bracketing : (s : Stmt) → s.bracketing.text = s.bracketed
  | .expression e | .print e | .var _ (some e) | .return _ (some e) => by simp [e.text_bracketing]
  | .var _ none | .return _ none | .break _ | .continue _ => by simp
  | .block body => by simp [texts_stmtsBracketing body]
  | .if condition thenBranch none => by simp [condition.text_bracketing, thenBranch.text_bracketing]
  | .if condition thenBranch (some elseBranch) => by
    simp [condition.text_bracketing, thenBranch.text_bracketing, elseBranch.text_bracketing]
  | .while condition body none => by simp [condition.text_bracketing, body.text_bracketing]
  | .while condition body (some increment) => by
    simp [condition.text_bracketing, body.text_bracketing, increment.text_bracketing]
  | .function f => by
    rw [Stmt.bracketing, Stmt.bracketed, f.text_parts]
  | .class c => by
    rw [Stmt.bracketing, Stmt.bracketed, c.text_parts]
termination_by structural s => s

theorem texts_stmtsBracketing : (ss : List Stmt) →
    bracketingTexts (stmtsBracketing ss) = bracketedStmts ss
  | [] => rfl
  | s :: ss => by simp [s.text_bracketing, texts_stmtsBracketing ss]
termination_by structural ss => ss

theorem Class.text_parts : (c : Class) → (parts (word "class" :: c.parts)).text = c.bracketed
  | ⟨name, superclass?, methods, getters⟩ => by
    cases superclass? <;>
      simp [bracketingTexts_append, texts_functionsBracketing methods,
        texts_functionsBracketing getters]
termination_by structural c => c

theorem texts_functionsBracketing : (fs : List Function) → {head : String} →
    bracketingTexts (functionsBracketing head fs) = bracketedFunctions head fs
  | [], _ => rfl
  | f :: fs, head => by
    rw [functionsBracketing, bracketedFunctions, bracketingTexts, f.text_parts,
      texts_functionsBracketing fs]
termination_by structural fs => fs

end

end LoxLang
