import LoxLang.Fuel
import LoxLang.Proofs.Tree.Numbering
import LoxLang.Scoping
import Mathlib.Data.List.Forall2

/-!
Pieces of code that differ in the numbers of their occurrences and in their lines only. Which
numbers and which lines stand for each other is a likeness. It may also ask something of every
function, so that code that is like itself is code whose functions have that property.
-/

namespace LoxLang

/-- How far code and errors may differ, and what is asked of functions, where the flag says whether
they are initializers. -/
structure Likeness where
  occurrence : Nat → Nat → Prop
  line : Nat → Nat → Prop
  function : Bool → Function → Prop

namespace Likeness

/-- Code that differs in numbers and lines, whatever its functions are. -/
def ofCode (occurrence line : Nat → Nat → Prop) : Likeness :=
  ⟨occurrence, line, fun _ _ => True⟩

/-- Code whose occurrences are numbered from `a` on and from `b` on. -/
def renumbering (a b : Nat) (line : Nat → Nat → Prop) : Likeness :=
  ofCode (fun id id' => ∃ i, id = a + i ∧ id' = b + i) line

/-- The same code, with a property of its functions. -/
def ofFunctions (function : Bool → Function → Prop) : Likeness :=
  ⟨Eq, Eq, function⟩

/-- Whether numbering can go on, and nothing is asked of functions. -/
structure Counts (L : Likeness) : Prop where
  next : ∀ id id', L.occurrence id id' → L.occurrence (id + 1) (id' + 1)
  any : ∀ isInitializer f, L.function isInitializer f

/-- Whether each number stands for one number at most, on both sides. -/
def OneToOne (L : Likeness) : Prop :=
  ∀ a a' b b', L.occurrence a a' → L.occurrence b b' → (a = b ↔ a' = b')

/-- Whether likeness by `L` of code with numbers in `I` is likeness by `L'`. -/
structure Implies (I : Nat → Prop) (L L' : Likeness) : Prop where
  occurrence : ∀ id id', I id → L.occurrence id id' → L'.occurrence id id'
  line : ∀ n n', L.line n n' → L'.line n n'
  function : ∀ isInitializer f, L.function isInitializer f → L'.function isInitializer f

theorem renumbering_counts (a b : Nat) (line : Nat → Nat → Prop) :
    (renumbering a b line).Counts where
  next := fun _ _ ⟨i, hi, hi'⟩ => ⟨i + 1, by omega, by omega⟩
  any _ _ := trivial

theorem renumbering_oneToOne (a b : Nat) (line : Nat → Nat → Prop) :
    (renumbering a b line).OneToOne :=
  fun _ _ _ _ ⟨i, hi, hi'⟩ ⟨j, hj, hj'⟩ => by omega

end Likeness

section

variable (L : Likeness)

/-- Names of one text. -/
structure Name.Like (n n' : Name) : Prop where
  text : n'.text = n.text
  line : L.line n.line n'.line

structure Occurrence.Like (o o' : Occurrence) : Prop where
  id : L.occurrence o.id o'.id
  name : o.name.Like L o'.name

mutual

def Expr.Like : Expr → Expr → Prop
  | .literal v, e => e = .literal v
  | .group inner, e => ∃ inner', e = .group inner' ∧ inner.Like inner'
  | .unary op line operand, e =>
    ∃ line' operand', e = .unary op line' operand' ∧ L.line line line' ∧ operand.Like operand'
  | .binary op line left right, e =>
    ∃ line' left' right', e = .binary op line' left' right' ∧ L.line line line' ∧
      left.Like left' ∧ right.Like right'
  | .logical op left right, e =>
    ∃ left' right', e = .logical op left' right' ∧ left.Like left' ∧ right.Like right'
  | .ternary condition thenBranch elseBranch, e =>
    ∃ condition' thenBranch' elseBranch', e = .ternary condition' thenBranch' elseBranch' ∧
      condition.Like condition' ∧ thenBranch.Like thenBranch' ∧ elseBranch.Like elseBranch'
  | .comma left right, e =>
    ∃ left' right', e = .comma left' right' ∧ left.Like left' ∧ right.Like right'
  | .variable o, e => ∃ o', e = .variable o' ∧ o.Like L o'
  | .assign o value, e => ∃ o' value', e = .assign o' value' ∧ o.Like L o' ∧ value.Like value'
  | .call callee line arguments, e =>
    ∃ callee' line' arguments', e = .call callee' line' arguments' ∧ callee.Like callee' ∧
      L.line line line' ∧ exprsLike arguments arguments'
  | .get object name, e =>
    ∃ object' name', e = .get object' name' ∧ object.Like object' ∧ name.Like L name'
  | .set object name value, e =>
    ∃ object' name' value', e = .set object' name' value' ∧ object.Like object' ∧
      name.Like L name' ∧ value.Like value'
  | .this id line, e =>
    ∃ id' line', e = .this id' line' ∧ L.occurrence id id' ∧ L.line line line'
  | .super id line method, e =>
    ∃ id' line' method', e = .super id' line' method' ∧ L.occurrence id id' ∧
      L.line line line' ∧ method.Like L method'
  | .lambda f, e => ∃ f', e = .lambda f' ∧ f.Like false f'
termination_by structural x => x

def exprsLike : List Expr → List Expr → Prop
  | [], es => es = []
  | e :: es, es' => ∃ e' es'', es' = e' :: es'' ∧ e.Like e' ∧ exprsLike es es''
termination_by structural x => x

def Function.Like (isInitializer : Bool) : Function → Function → Prop
  | ⟨name?, parameters, body, line⟩, f =>
    L.function isInitializer ⟨name?, parameters, body, line⟩ ∧
      ∃ name?' parameters' body' line', f = ⟨name?', parameters', body', line'⟩ ∧
        Option.Rel (Name.Like L) name? name?' ∧
        List.Forall₂ (Name.Like L) parameters parameters' ∧
        stmtsLike body body' ∧ L.line line line'
termination_by structural x => x

def Stmt.Like : Stmt → Stmt → Prop
  | .expression e, s => ∃ e', s = .expression e' ∧ e.Like e'
  | .print e, s => ∃ e', s = .print e' ∧ e.Like e'
  | .var name none, s => ∃ name', s = .var name' none ∧ name.Like L name'
  | .var name (some e), s =>
    ∃ name' e', s = .var name' (some e') ∧ name.Like L name' ∧ e.Like e'
  | .block body, s => ∃ body', s = .block body' ∧ stmtsLike body body'
  | .if condition thenBranch none, s =>
    ∃ condition' thenBranch', s = .if condition' thenBranch' none ∧
      condition.Like condition' ∧ thenBranch.Like thenBranch'
  | .if condition thenBranch (some elseBranch), s =>
    ∃ condition' thenBranch' elseBranch', s = .if condition' thenBranch' (some elseBranch') ∧
      condition.Like condition' ∧ thenBranch.Like thenBranch' ∧ elseBranch.Like elseBranch'
  | .while condition body none, s =>
    ∃ condition' body', s = .while condition' body' none ∧ condition.Like condition' ∧
      body.Like body'
  | .while condition body (some increment), s =>
    ∃ condition' body' increment', s = .while condition' body' (some increment') ∧
      condition.Like condition' ∧ body.Like body' ∧ increment.Like increment'
  | .function f, s => ∃ f', s = .function f' ∧ f.Like false f'
  | .class c, s => ∃ c', s = .class c' ∧ c.Like c'
  | .return line none, s => ∃ line', s = .return line' none ∧ L.line line line'
  | .return line (some e), s =>
    ∃ line' e', s = .return line' (some e') ∧ L.line line line' ∧ e.Like e'
  | .break line, s => ∃ line', s = .break line' ∧ L.line line line'
  | .continue line, s => ∃ line', s = .continue line' ∧ L.line line line'
termination_by structural x => x

def stmtsLike : List Stmt → List Stmt → Prop
  | [], ss => ss = []
  | s :: ss, ss' => ∃ s' ss'', ss' = s' :: ss'' ∧ s.Like s' ∧ stmtsLike ss ss''
termination_by structural x => x

def Class.Like : Class → Class → Prop
  | ⟨name, superclass?, methods, getters⟩, c =>
    ∃ name' superclass?' methods' getters', c = ⟨name', superclass?', methods', getters'⟩ ∧
      name.Like L name' ∧ Option.Rel (Occurrence.Like L) superclass? superclass?' ∧
      functionsLike (fun f => f.methodKind = .initializer) methods methods' ∧
      functionsLike (fun _ => false) getters getters'
termination_by structural x => x

def functionsLike (isInitializer : Function → Bool) : List Function → List Function → Prop
  | [], fs => fs = []
  | f :: fs, fs' =>
    ∃ f' fs'', fs' = f' :: fs'' ∧ f.Like (isInitializer f) f' ∧ functionsLike isInitializer fs fs''
termination_by structural x => x

end

end

section

variable (line : Nat → Nat → Prop)

/-- Errors of one kind with like lines. -/
inductive Diagnostic.Like : Diagnostic → Diagnostic → Prop
  | lexical {n n' e} (h : line n n') : Like (.lexical n e) (.lexical n' e)
  | grammar {n n' found? e} (h : line n n') : Like (.grammar n found? e) (.grammar n' found? e)
  | scope {n n' lexeme e} (h : line n n') : Like (.scope n lexeme e) (.scope n' lexeme e)
  | runtime {n n' e} (h : line n n') : Like (.runtime n e) (.runtime n' e)
  | stackOverflow {n n'} (h : line n n') : Like (.stackOverflow n) (.stackOverflow n')
  | io {reason} : Like (.io reason) (.io reason)

end

/-- When errors are found. -/
inductive Phase where
  | scanning
  | parsing
  | analysis
  | running
  deriving DecidableEq

def Diagnostic.phase : Diagnostic → Phase
  | .lexical .. => .scanning
  | .grammar .. => .parsing
  | .scope .. => .analysis
  | .runtime .. | .stackOverflow _ | .io _ => .running

/-- Like errors of one phase. -/
structure Diagnostic.LikeIn (phase : Phase) (line : Nat → Nat → Prop) (d d' : Diagnostic) :
    Prop where
  like : d.Like line d'
  phase : d.phase = phase

theorem Diagnostic.phase_of_forall₂ {phase : Phase} {line : Nat → Nat → Prop}
    {errors errors' : List Diagnostic}
    (h : List.Forall₂ (Diagnostic.LikeIn phase line) errors errors') :
    ∀ d ∈ errors, d.phase = phase := by
  have h : List.Forall₂ (fun d d' => d.phase = phase ∧ d.Like line d') errors errors' :=
    h.imp fun _ _ hd => ⟨hd.phase, hd.like⟩
  exact ((List.forall₂_and_left _ _).mp h).1

/-- Reasons to stop with related errors. -/
inductive Stop.Rel (E : Diagnostic → Diagnostic → Prop) : Stop → Stop → Prop
  | failed {d d'} (h : E d d') : Rel E (.failed d) (.failed d')
  | outOfFuel : Rel E .outOfFuel .outOfFuel

theorem Diagnostic.isStatic_eq_false_iff {d : Diagnostic} :
    d.isStatic = false ↔ d.phase = .running := by
  cases d <;> simp [isStatic, phase]

theorem Diagnostic.Like.refl {line : Nat → Nat → Prop} (h : ∀ n, line n n) (d : Diagnostic) :
    d.Like line d := by
  cases d with
  | lexical => exact .lexical (h _)
  | grammar => exact .grammar (h _)
  | scope => exact .scope (h _)
  | runtime => exact .runtime (h _)
  | stackOverflow => exact .stackOverflow (h _)
  | io => exact .io

theorem Diagnostic.Like.imp {line line' : Nat → Nat → Prop} {d d' : Diagnostic}
    (h : d.Like line d') (hl : ∀ n n', line n n' → line' n n') : d.Like line' d' := by
  cases h with
  | lexical h => exact .lexical (hl _ _ h)
  | grammar h => exact .grammar (hl _ _ h)
  | scope h => exact .scope (hl _ _ h)
  | runtime h => exact .runtime (hl _ _ h)
  | stackOverflow h => exact .stackOverflow (hl _ _ h)
  | io => exact .io

/-- Errors on equal lines are equal. -/
theorem Diagnostic.Like.eq {d d' : Diagnostic} (h : d.Like Eq d') : d' = d := by
  cases h with
  | io => rfl
  | _ h => rw [h]

theorem eq_of_forall₂ {α : Type} {as bs : List α} (h : List.Forall₂ (fun a b => b = a) as bs) :
    bs = as := by
  induction h with
  | nil => rfl
  | cons h _ ih => rw [h, ih]

theorem isEmpty_eq_of_forall₂ {α β : Type} {R : α → β → Prop} {as : List α} {bs : List β}
    (h : List.Forall₂ R as bs) : bs.isEmpty = as.isEmpty := by
  cases h <;> rfl

variable {L : Likeness}

theorem exprsLike_iff {es es' : List Expr} :
    exprsLike L es es' ↔ List.Forall₂ (Expr.Like L) es es' := by
  induction es generalizing es' with
  | nil => simp [exprsLike]
  | cons e es ih =>
    rw [List.forall₂_cons_left_iff, exprsLike]
    simp only [ih]
    tauto

theorem stmtsLike_iff {ss ss' : List Stmt} :
    stmtsLike L ss ss' ↔ List.Forall₂ (Stmt.Like L) ss ss' := by
  induction ss generalizing ss' with
  | nil => simp [stmtsLike]
  | cons s ss ih =>
    rw [List.forall₂_cons_left_iff, stmtsLike]
    simp only [ih]
    tauto

theorem functionsLike_iff {isInitializer : Function → Bool} {fs fs' : List Function} :
    functionsLike L isInitializer fs fs' ↔
      List.Forall₂ (fun f f' => f.Like L (isInitializer f) f') fs fs' := by
  induction fs generalizing fs' with
  | nil => simp [functionsLike]
  | cons f fs ih =>
    rw [List.forall₂_cons_left_iff, functionsLike]
    simp only [ih]
    tauto

theorem Stmt.Like.eq_expression {s : Stmt} {e' : Expr} (h : s.Like L (.expression e')) :
    ∃ e, s = .expression e ∧ e.Like L e' := by
  unfold Stmt.Like at h
  split at h
  · obtain ⟨_, he, h⟩ := h
    cases he
    exact ⟨_, rfl, h⟩
  all_goals simp at h

theorem Function.Like.has {isInitializer : Bool} {f f' : Function}
    (h : f.Like L isInitializer f') : L.function isInitializer f := by
  obtain ⟨name?, parameters, body, line⟩ := f
  exact h.1

theorem Function.Like.displayName_eq {isInitializer : Bool} {f f' : Function}
    (h : f.Like L isInitializer f') : f'.displayName = f.displayName := by
  obtain ⟨name?, parameters, body, line⟩ := f
  obtain ⟨-, _, _, _, _, rfl, hn, -⟩ := h
  cases hn with
  | none => rfl
  | some hn => exact hn.text

theorem Function.Like.methodKind_eq {isInitializer : Bool} {f f' : Function}
    (h : f.Like L isInitializer f') : f'.methodKind = f.methodKind := by
  simp only [Function.methodKind, h.displayName_eq]

section

variable {I : Nat → Prop} {L' : Likeness}

theorem Name.Like.imp (hL : Likeness.Implies I L L') {n n' : Name} (h : n.Like L n') :
    n.Like L' n' :=
  ⟨h.text, hL.line _ _ h.line⟩

theorem Occurrence.Like.imp (hL : Likeness.Implies I L L') {o o' : Occurrence} (hi : I o.id)
    (h : o.Like L o') : o.Like L' o' :=
  ⟨hL.occurrence _ _ hi h.id, h.name.imp hL⟩

mutual

theorem Expr.like_imp (hL : Likeness.Implies I L L') :
    (e : Expr) → {e' : Expr} → (∀ id ∈ e.ids, I id) → e.Like L e' → e.Like L' e'
  | .literal _, _, _, h => h
  | .group inner, _, hi, h => by
    obtain ⟨_, rfl, h⟩ := h
    exact ⟨_, rfl, inner.like_imp hL hi h⟩
  | .unary _ _ operand, _, hi, h => by
    obtain ⟨_, _, rfl, hl, h⟩ := h
    exact ⟨_, _, rfl, hL.line _ _ hl, operand.like_imp hL hi h⟩
  | .binary _ _ left right, _, hi, h => by
    obtain ⟨hi₁, hi₂⟩ := List.forall_mem_append.mp hi
    obtain ⟨_, _, _, rfl, hl, h₁, h₂⟩ := h
    exact ⟨_, _, _, rfl, hL.line _ _ hl, left.like_imp hL hi₁ h₁, right.like_imp hL hi₂ h₂⟩
  | .logical _ left right, _, hi, h => by
    obtain ⟨hi₁, hi₂⟩ := List.forall_mem_append.mp hi
    obtain ⟨_, _, rfl, h₁, h₂⟩ := h
    exact ⟨_, _, rfl, left.like_imp hL hi₁ h₁, right.like_imp hL hi₂ h₂⟩
  | .ternary condition thenBranch elseBranch, _, hi, h => by
    obtain ⟨hi₁, hi⟩ := List.forall_mem_append.mp hi
    obtain ⟨hi₂, hi₃⟩ := List.forall_mem_append.mp hi
    obtain ⟨_, _, _, rfl, h₁, h₂, h₃⟩ := h
    exact ⟨_, _, _, rfl, condition.like_imp hL hi₁ h₁, thenBranch.like_imp hL hi₂ h₂,
      elseBranch.like_imp hL hi₃ h₃⟩
  | .comma left right, _, hi, h => by
    obtain ⟨hi₁, hi₂⟩ := List.forall_mem_append.mp hi
    obtain ⟨_, _, rfl, h₁, h₂⟩ := h
    exact ⟨_, _, rfl, left.like_imp hL hi₁ h₁, right.like_imp hL hi₂ h₂⟩
  | .variable o, _, hi, h => by
    obtain ⟨_, rfl, h⟩ := h
    exact ⟨_, rfl, h.imp hL (hi _ (List.mem_singleton_self _))⟩
  | .assign o value, _, hi, h => by
    obtain ⟨hi₁, hi₂⟩ := List.forall_mem_append.mp hi
    obtain ⟨_, _, rfl, ho, h⟩ := h
    exact ⟨_, _, rfl, ho.imp hL (hi₂ _ (List.mem_singleton_self _)), value.like_imp hL hi₁ h⟩
  | .call callee _ arguments, _, hi, h => by
    obtain ⟨hi₁, hi₂⟩ := List.forall_mem_append.mp hi
    obtain ⟨_, _, _, rfl, h₁, hl, h₂⟩ := h
    exact ⟨_, _, _, rfl, callee.like_imp hL hi₁ h₁, hL.line _ _ hl,
      exprs_like_imp hL arguments hi₂ h₂⟩
  | .get object _, _, hi, h => by
    obtain ⟨_, _, rfl, h, hn⟩ := h
    exact ⟨_, _, rfl, object.like_imp hL hi h, hn.imp hL⟩
  | .set object _ value, _, hi, h => by
    obtain ⟨hi₁, hi₂⟩ := List.forall_mem_append.mp hi
    obtain ⟨_, _, _, rfl, h₁, hn, h₂⟩ := h
    exact ⟨_, _, _, rfl, object.like_imp hL hi₂ h₁, hn.imp hL, value.like_imp hL hi₁ h₂⟩
  | .this _ _, _, hi, h => by
    obtain ⟨_, _, rfl, hid, hl⟩ := h
    exact ⟨_, _, rfl, hL.occurrence _ _ (hi _ (List.mem_singleton_self _)) hid, hL.line _ _ hl⟩
  | .super _ _ _, _, hi, h => by
    obtain ⟨_, _, _, rfl, hid, hl, hn⟩ := h
    exact ⟨_, _, _, rfl, hL.occurrence _ _ (hi _ (List.mem_singleton_self _)) hid,
      hL.line _ _ hl, hn.imp hL⟩
  | .lambda f, _, hi, h => by
    obtain ⟨_, rfl, h⟩ := h
    exact ⟨_, rfl, f.like_imp hL hi h⟩
termination_by structural x => x

theorem exprs_like_imp (hL : Likeness.Implies I L L') :
    (es : List Expr) → {es' : List Expr} → (∀ id ∈ exprsIds es, I id) →
    exprsLike L es es' → exprsLike L' es es'
  | [], _, _, h => h
  | e :: es, _, hi, h => by
    obtain ⟨hi₁, hi₂⟩ := List.forall_mem_append.mp hi
    obtain ⟨_, _, rfl, h₁, h₂⟩ := h
    exact ⟨_, _, rfl, e.like_imp hL hi₁ h₁, exprs_like_imp hL es hi₂ h₂⟩
termination_by structural x => x

theorem Function.like_imp (hL : Likeness.Implies I L L') :
    (f : Function) → {f' : Function} → {isInitializer : Bool} →
    (∀ id ∈ f.ids, I id) → f.Like L isInitializer f' → f.Like L' isInitializer f'
  | ⟨_, _, body, _⟩, _, _, hi, h => by
    obtain ⟨hf, _, _, _, _, rfl, hn, hp, hb, hl⟩ := h
    refine ⟨hL.function _ _ hf, _, _, _, _, rfl, ?_, hp.imp fun _ _ h => h.imp hL,
      stmts_like_imp hL body hi hb, hL.line _ _ hl⟩
    cases hn with
    | none => exact .none
    | some hn => exact .some (hn.imp hL)
termination_by structural x => x

theorem Stmt.like_imp (hL : Likeness.Implies I L L') :
    (s : Stmt) → {s' : Stmt} → (∀ id ∈ s.ids, I id) → s.Like L s' → s.Like L' s'
  | .expression e, _, hi, h => by
    obtain ⟨_, rfl, h⟩ := h
    exact ⟨_, rfl, e.like_imp hL hi h⟩
  | .print e, _, hi, h => by
    obtain ⟨_, rfl, h⟩ := h
    exact ⟨_, rfl, e.like_imp hL hi h⟩
  | .var _ none, _, _, h => by
    obtain ⟨_, rfl, hn⟩ := h
    exact ⟨_, rfl, hn.imp hL⟩
  | .var _ (some e), _, hi, h => by
    obtain ⟨_, _, rfl, hn, h⟩ := h
    exact ⟨_, _, rfl, hn.imp hL, e.like_imp hL hi h⟩
  | .block body, _, hi, h => by
    obtain ⟨_, rfl, h⟩ := h
    exact ⟨_, rfl, stmts_like_imp hL body hi h⟩
  | .if condition thenBranch none, _, hi, h => by
    obtain ⟨hi₁, hi₂⟩ := List.forall_mem_append.mp hi
    obtain ⟨_, _, rfl, h₁, h₂⟩ := h
    exact ⟨_, _, rfl, condition.like_imp hL hi₁ h₁, thenBranch.like_imp hL hi₂ h₂⟩
  | .if condition thenBranch (some elseBranch), _, hi, h => by
    obtain ⟨hi₁, hi⟩ := List.forall_mem_append.mp hi
    obtain ⟨hi₂, hi₃⟩ := List.forall_mem_append.mp hi
    obtain ⟨_, _, _, rfl, h₁, h₂, h₃⟩ := h
    exact ⟨_, _, _, rfl, condition.like_imp hL hi₁ h₁, thenBranch.like_imp hL hi₂ h₂,
      elseBranch.like_imp hL hi₃ h₃⟩
  | .while condition body none, _, hi, h => by
    obtain ⟨hi₁, hi₂⟩ := List.forall_mem_append.mp hi
    obtain ⟨_, _, rfl, h₁, h₂⟩ := h
    exact ⟨_, _, rfl, condition.like_imp hL hi₁ h₁, body.like_imp hL hi₂ h₂⟩
  | .while condition body (some increment), _, hi, h => by
    obtain ⟨hi₁, hi⟩ := List.forall_mem_append.mp hi
    obtain ⟨hi₂, hi₃⟩ := List.forall_mem_append.mp hi
    obtain ⟨_, _, _, rfl, h₁, h₂, h₃⟩ := h
    exact ⟨_, _, _, rfl, condition.like_imp hL hi₁ h₁, body.like_imp hL hi₂ h₂,
      increment.like_imp hL hi₃ h₃⟩
  | .function f, _, hi, h => by
    obtain ⟨_, rfl, h⟩ := h
    exact ⟨_, rfl, f.like_imp hL hi h⟩
  | .class c, _, hi, h => by
    obtain ⟨_, rfl, h⟩ := h
    exact ⟨_, rfl, c.like_imp hL hi h⟩
  | .return _ none, _, _, h => by
    obtain ⟨_, rfl, hl⟩ := h
    exact ⟨_, rfl, hL.line _ _ hl⟩
  | .return _ (some e), _, hi, h => by
    obtain ⟨_, _, rfl, hl, h⟩ := h
    exact ⟨_, _, rfl, hL.line _ _ hl, e.like_imp hL hi h⟩
  | .break _, _, _, h => by
    obtain ⟨_, rfl, hl⟩ := h
    exact ⟨_, rfl, hL.line _ _ hl⟩
  | .continue _, _, _, h => by
    obtain ⟨_, rfl, hl⟩ := h
    exact ⟨_, rfl, hL.line _ _ hl⟩
termination_by structural x => x

theorem stmts_like_imp (hL : Likeness.Implies I L L') :
    (ss : List Stmt) → {ss' : List Stmt} → (∀ id ∈ stmtsIds ss, I id) →
    stmtsLike L ss ss' → stmtsLike L' ss ss'
  | [], _, _, h => h
  | s :: ss, _, hi, h => by
    obtain ⟨hi₁, hi₂⟩ := List.forall_mem_append.mp hi
    obtain ⟨_, _, rfl, h₁, h₂⟩ := h
    exact ⟨_, _, rfl, s.like_imp hL hi₁ h₁, stmts_like_imp hL ss hi₂ h₂⟩
termination_by structural x => x

theorem Class.like_imp (hL : Likeness.Implies I L L') :
    (c : Class) → {c' : Class} → (∀ id ∈ c.ids, I id) → c.Like L c' → c.Like L' c'
  | ⟨_, none, methods, getters⟩, _, hi, h => by
    obtain ⟨hi₁, hi₂⟩ := List.forall_mem_append.mp hi
    obtain ⟨_, _, _, _, rfl, hn, hsuper, h₁, h₂⟩ := h
    cases hsuper
    exact ⟨_, _, _, _, rfl, hn.imp hL, .none, functions_like_imp hL methods hi₁ h₁,
      functions_like_imp hL getters hi₂ h₂⟩
  | ⟨_, some _, methods, getters⟩, _, hi, h => by
    obtain ⟨hi₀, hi⟩ := List.forall_mem_cons.mp hi
    obtain ⟨hi₁, hi₂⟩ := List.forall_mem_append.mp hi
    obtain ⟨_, _, _, _, rfl, hn, hsuper, h₁, h₂⟩ := h
    cases hsuper with
    | some ho =>
      exact ⟨_, _, _, _, rfl, hn.imp hL, .some (ho.imp hL hi₀),
        functions_like_imp hL methods hi₁ h₁, functions_like_imp hL getters hi₂ h₂⟩
termination_by structural x => x

theorem functions_like_imp (hL : Likeness.Implies I L L') :
    (fs : List Function) → {fs' : List Function} →
    {isInitializer : Function → Bool} → (∀ id ∈ functionsIds fs, I id) →
    functionsLike L isInitializer fs fs' → functionsLike L' isInitializer fs fs'
  | [], _, _, _, h => h
  | f :: fs, _, _, hi, h => by
    obtain ⟨hi₁, hi₂⟩ := List.forall_mem_append.mp hi
    obtain ⟨_, _, rfl, h₁, h₂⟩ := h
    exact ⟨_, _, rfl, f.like_imp hL hi₁ h₁, functions_like_imp hL fs hi₂ h₂⟩
termination_by structural x => x

end

end

end LoxLang
