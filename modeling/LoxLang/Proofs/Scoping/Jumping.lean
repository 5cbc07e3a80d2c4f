import LoxLang.Proofs.Likeness.Code
import LoxLang.Proofs.Scoping.Tracing

/-!
The jumps that may leave a statement. In a program that passes the analysis there is something
around each of them that takes it, also in the bodies of its functions.
-/

namespace LoxLang

mutual

/-- Whether the jumps out of a statement may be made: a break or continue in a loop, a return in a
function, and one of a value not in an initializer. Those of the functions in it do not leave it. -/
def Stmt.Bounded (body : BodyKind) : Bool → Stmt → Prop
  | inLoop, .block ss => stmtsBounded body inLoop ss
  | inLoop, .if _ thenBranch none => thenBranch.Bounded body inLoop
  | inLoop, .if _ thenBranch (some elseBranch) =>
    thenBranch.Bounded body inLoop ∧ elseBranch.Bounded body inLoop
  | _, .while _ turn _ => turn.Bounded body true
  | _, .return _ value? => body ≠ .program ∧ (body = .initializer → value? = none)
  | inLoop, .break _ | inLoop, .continue _ => inLoop = true
  | _, .expression _ | _, .print _ | _, .var .. | _, .function _ | _, .class _ => True
termination_by structural _ s => s

def stmtsBounded (body : BodyKind) (inLoop : Bool) : List Stmt → Prop
  | [] => True
  | s :: ss => s.Bounded body inLoop ∧ stmtsBounded body inLoop ss
termination_by structural ss => ss

end

/-- Whether no jump leaves the body of a function but returns. -/
def Function.Bounded (isInitializer : Bool) (f : Function) : Prop :=
  ∃ kind : BodyKind, kind ≠ .program ∧ isInitializer = decide (kind = .initializer) ∧
    stmtsBounded kind false f.body

/-- The likeness by which code is like itself if all functions in it have bounded bodies. -/
def boundedCode : Likeness :=
  .ofFunctions Function.Bounded

theorem Name.bounded (n : Name) : n.Like boundedCode n :=
  ⟨rfl, rfl⟩

theorem Occurrence.bounded (o : Occurrence) : o.Like boundedCode o :=
  ⟨rfl, o.name.bounded⟩

/-- The analysis has gone from one state to another, and something holds if it has found no further
error there. -/
structure Checked (before after : Scoping) (P : Prop) : Prop where
  errors : before.errors <:+ after.errors
  holds : after.errors = before.errors → P

namespace Checked

variable {s s₁ s₂ : Scoping} {P Q : Prop}

theorem intro (hp : P) : Checked s s P :=
  ⟨List.suffix_rfl, fun _ => hp⟩

theorem imp (h : Checked s s₁ P) (hq : P → Q) : Checked s s₁ Q :=
  ⟨h.errors, fun he => hq (h.holds he)⟩

theorem trans (h : Checked s s₁ P) (h' : Checked s₁ s₂ Q) : Checked s s₂ (P ∧ Q) := by
  refine ⟨h.errors.trans h'.errors, fun he => ?_⟩
  have hfirst : s₁.errors = s.errors :=
    (h.errors.eq_of_length_le (by rw [← he]; exact h'.errors.length_le)).symm
  exact ⟨h.holds hfirst, h'.holds (he.trans hfirst.symm)⟩

/-- A step about which nothing is asked. -/
theorem after (h : Checked s s₁ P) (he : s₁.errors <:+ s₂.errors) : Checked s s₂ P :=
  (h.trans ⟨he, fun _ => trivial⟩).imp And.left

theorem before (he : s.errors <:+ s₁.errors) (h : Checked s₁ s₂ P) : Checked s s₂ P :=
  (trans (P := True) ⟨he, fun _ => trivial⟩ h).imp And.right

theorem leave (h : Checked s s₁ P) : Checked s s₁.leave P :=
  ⟨h.errors, h.holds⟩

theorem reportIf (violated : Bool) (line : Nat) (lexeme : String) (error : ScopeError) :
    Checked s (s.reportIf violated line lexeme error) (violated = false) := by
  unfold Scoping.reportIf
  cases violated with
  | false => exact intro rfl
  | true => exact ⟨List.suffix_cons _ _, fun he => by simp [Scoping.report] at he⟩

end Checked

theorem Function.methodKind_ne (f : Function) : f.methodKind ≠ .program := by
  unfold Function.methodKind
  split <;> nofun

mutual

theorem Expr.checked (around : Surroundings) {s : Scoping} :
    (e : Expr) → Checked s (e.resolve around s) (e.Like boundedCode e)
  | .literal _ => .intro rfl
  | .group inner => (inner.checked around).imp fun h => ⟨_, rfl, h⟩
  | .unary _ _ operand => (operand.checked around).imp fun h => ⟨_, _, rfl, rfl, h⟩
  | .binary _ _ left right =>
    ((left.checked around).trans (right.checked around)).imp fun ⟨h, h'⟩ =>
      ⟨_, _, _, rfl, rfl, h, h'⟩
  | .logical _ left right =>
    ((left.checked around).trans (right.checked around)).imp fun ⟨h, h'⟩ => ⟨_, _, rfl, h, h'⟩
  | .ternary condition thenBranch elseBranch =>
    ((condition.checked around).trans ((thenBranch.checked around).trans
      (elseBranch.checked around))).imp fun ⟨h, h', h''⟩ => ⟨_, _, _, rfl, h, h', h''⟩
  | .comma left right =>
    ((left.checked around).trans (right.checked around)).imp fun ⟨h, h'⟩ => ⟨_, _, rfl, h, h'⟩
  | .variable o => (Checked.intro ⟨o, rfl, o.bounded⟩).after (Traced.read o around rfl).errors
  | .assign o value =>
    ((value.checked around).imp fun h => ⟨o, value, rfl, o.bounded, h⟩).after
      (Traced.assign o around rfl).errors
  | .call callee _ arguments =>
    ((callee.checked around).trans (exprsChecked around arguments)).imp fun ⟨h, h'⟩ =>
      ⟨_, _, _, rfl, h, rfl, h'⟩
  | .get object name => (object.checked around).imp fun h => ⟨_, name, rfl, h, name.bounded⟩
  | .set object name value =>
    ((value.checked around).trans (object.checked around)).imp fun ⟨h, h'⟩ =>
      ⟨_, name, _, rfl, h', name.bounded, h⟩
  | .this id line =>
    (Checked.intro ⟨id, line, rfl, rfl, rfl⟩).after (Traced.readThis id line around rfl).errors
  | .super id line method =>
    (Checked.intro ⟨id, line, method, rfl, rfl, rfl, method.bounded⟩).after
      (Traced.readSuper id line around rfl).errors
  | .lambda f => (f.checked around .function nofun).imp fun h => ⟨_, rfl, h⟩

theorem exprsChecked (around : Surroundings) {s : Scoping} :
    (es : List Expr) → Checked s (resolveExprs around es s) (exprsLike boundedCode es es)
  | [] => .intro rfl
  | e :: es =>
    ((e.checked around).trans (exprsChecked around es)).imp fun ⟨h, h'⟩ => ⟨_, _, rfl, h, h'⟩

/-- A function is told from an initializer by the kind of its body. -/
theorem Function.checked (around : Surroundings) (kind : BodyKind) (hk : kind ≠ .program)
    {s : Scoping} : (f : Function) →
      Checked s (f.resolve around kind s) (f.Like boundedCode (decide (kind = .initializer)) f)
  | ⟨name?, parameters, body, line⟩ =>
    have entered := (Traced.enter (s := s) rfl).trans (.parameters around parameters rfl)
    have inside := stmtsChecked { around with body := kind, inLoop := false } body
    have hname : Option.Rel (Name.Like boundedCode) name? name? := by
      cases name? with
      | none => exact .none
      | some name => exact .some name.bounded
    have hparameters : List.Forall₂ (Name.Like boundedCode) parameters parameters :=
      List.forall₂_same.mpr fun name _ => name.bounded
    (inside.before entered.errors).leave.imp fun ⟨h, hb⟩ =>
      ⟨⟨kind, hk, rfl, hb⟩, _, _, _, _, rfl, hname, hparameters, h, rfl⟩

theorem Stmt.checked (around : Surroundings) {s : Scoping} :
    (stmt : Stmt) → Checked s (stmt.resolve around s)
      (stmt.Like boundedCode stmt ∧ stmt.Bounded around.body around.inLoop)
  | .expression e => (e.checked around).imp fun h => ⟨⟨_, rfl, h⟩, trivial⟩
  | .print e => (e.checked around).imp fun h => ⟨⟨_, rfl, h⟩, trivial⟩
  | .var name none =>
    (Checked.intro ⟨⟨name, rfl, name.bounded⟩, trivial⟩).after
      (Traced.introduce name around rfl).errors
  | .var name (some initializer) =>
    have declared := (initializer.checked around).before (Traced.declare name around rfl).errors
    (declared.imp fun h => ⟨⟨name, _, rfl, name.bounded, h⟩, trivial⟩).after
      (Traced.define name rfl).errors
  | .block body =>
    ((stmtsChecked around body).before (Traced.enter rfl).errors).leave.imp fun ⟨h, hb⟩ =>
      ⟨⟨_, rfl, h⟩, hb⟩
  | .if condition thenBranch none =>
    ((condition.checked around).trans (thenBranch.checked around)).imp fun ⟨h, h', hb⟩ =>
      ⟨⟨_, _, rfl, h, h'⟩, hb⟩
  | .if condition thenBranch (some elseBranch) =>
    ((condition.checked around).trans ((thenBranch.checked around).trans
      (elseBranch.checked around))).imp fun ⟨h, ⟨h', hb⟩, h'', hb'⟩ =>
        ⟨⟨_, _, _, rfl, h, h', h''⟩, hb, hb'⟩
  | .while condition body none =>
    ((condition.checked around).trans (body.checked { around with inLoop := true })).imp
      fun ⟨h, h', hb⟩ => ⟨⟨_, _, rfl, h, h'⟩, hb⟩
  | .while condition body (some increment) =>
    ((condition.checked around).trans ((body.checked { around with inLoop := true }).trans
      (increment.checked around))).imp fun ⟨h, ⟨h', hb⟩, h''⟩ => ⟨⟨_, _, _, rfl, h, h', h''⟩, hb⟩
  | .function f => by
    have named : s.errors <:+ ((f.name?.map s.introduce).getD s).errors := by
      cases f.name? with
      | none => exact List.suffix_rfl
      | some name => exact (Traced.introduce name around rfl).errors
    exact ((f.checked around .function nofun).before named).imp fun h => ⟨⟨_, rfl, h⟩, trivial⟩
  | .class c => (c.checked around).imp fun h => ⟨⟨_, rfl, h⟩, trivial⟩
  | .return line none =>
    (Checked.reportIf _ _ _ _).imp fun h => ⟨⟨line, rfl, rfl⟩, of_decide_eq_false h, fun _ => rfl⟩
  | .return line (some value) =>
    ((Checked.reportIf _ _ _ _).trans ((Checked.reportIf _ _ _ _).trans
      (value.checked around))).imp fun ⟨h, h', hv⟩ =>
        ⟨⟨line, _, rfl, rfl, hv⟩, of_decide_eq_false h,
          fun hi => (of_decide_eq_false h' hi).elim⟩
  | .break line =>
    (Checked.reportIf _ _ _ _).imp fun h => ⟨⟨line, rfl, rfl⟩, Bool.not_eq_eq_eq_not.mp h⟩
  | .continue line =>
    (Checked.reportIf _ _ _ _).imp fun h => ⟨⟨line, rfl, rfl⟩, Bool.not_eq_eq_eq_not.mp h⟩

theorem stmtsChecked (around : Surroundings) {s : Scoping} :
    (ss : List Stmt) → Checked s (resolveStmts around ss s)
      (stmtsLike boundedCode ss ss ∧ stmtsBounded around.body around.inLoop ss)
  | [] => .intro ⟨rfl, trivial⟩
  | stmt :: ss =>
    ((stmt.checked around).trans (stmtsChecked around ss)).imp fun ⟨⟨h, hb⟩, h', hb'⟩ =>
      ⟨⟨_, _, rfl, h, h'⟩, hb, hb'⟩

theorem Class.checked (around : Surroundings) {s : Scoping} :
    (c : Class) → Checked s (c.resolve around s) (c.Like boundedCode c)
  | ⟨name, none, methods, getters⟩ =>
    have entered := (Traced.introduce (s := s) name around rfl).trans (.within "this" rfl)
    have members := (functionsChecked { around with «class» := .base } Function.methodKind
      Function.methodKind_ne methods).trans (functionsChecked { around with «class» := .base }
        (fun _ => .method) nofun getters)
    (members.before entered.errors).leave.imp fun ⟨h, h'⟩ =>
      ⟨name, none, _, _, rfl, name.bounded, .none, h, h'⟩
  | ⟨name, some superclass, methods, getters⟩ =>
    have entered := ((Traced.introduce (s := s) name around rfl).trans
      (.readSuperclass name superclass around rfl)).trans (.within "this" rfl)
    have members := (functionsChecked { around with «class» := .subclass } Function.methodKind
      Function.methodKind_ne methods).trans (functionsChecked { around with «class» := .subclass }
        (fun _ => .method) nofun getters)
    (members.before entered.errors).leave.leave.imp fun ⟨h, h'⟩ =>
      ⟨name, some superclass, _, _, rfl, name.bounded, .some superclass.bounded, h, h'⟩

theorem functionsChecked (around : Surroundings) (kind : Function → BodyKind)
    (hk : ∀ f, kind f ≠ .program) {s : Scoping} :
    (fs : List Function) → Checked s (resolveFunctions around kind fs s)
      (functionsLike boundedCode (fun f => decide (kind f = .initializer)) fs fs)
  | [] => .intro rfl
  | f :: fs =>
    ((f.checked around (kind f) (hk f)).trans (functionsChecked around kind hk fs)).imp
      fun ⟨h, h'⟩ => ⟨_, _, rfl, h, h'⟩

end

/-- In a program that passes the analysis no jump leaves anything that does not take it. -/
theorem resolveProgram_bounded {ss : List Stmt} {D D' : Distances}
    (h : resolveProgram ss D = .ok D') :
    stmtsLike boundedCode ss ss ∧ stmtsBounded .program false ss :=
  (stmtsChecked .top (s := .start) ss).holds (resolveProgram_eq_ok.mp h).1

end LoxLang
