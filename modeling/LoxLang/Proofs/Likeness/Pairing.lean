import LoxLang.Proofs.Likeness.Code
import Mathlib.Data.List.Nodup

/-!
Code that is the same up to the numbers of its occurrences. Nothing more is needed for the likeness
of two trees than to pair the numbers of one with those of the other, in their order.
-/

namespace LoxLang

/-- The lists are of one length, and each relation that pairs their numbers makes for a likeness of
the property. -/
structure Paired (line : Nat → Nat → Prop) (ids ids' : List Nat) (P : Likeness → Prop) : Prop where
  length : ids'.length = ids.length
  like : ∀ R, List.Forall₂ R ids ids' → P (.ofCode R line)

namespace Paired

variable {line : Nat → Nat → Prop} {ids ids' more more' : List Nat} {P Q : Likeness → Prop}

theorem imp (h : Paired line ids ids' P) (hPQ : ∀ R, P (.ofCode R line) → Q (.ofCode R line)) :
    Paired line ids ids' Q :=
  ⟨h.length, fun R hR => hPQ R (h.like R hR)⟩

theorem nil (h : ∀ R, P (.ofCode R line)) : Paired line [] [] P :=
  ⟨rfl, fun R _ => h R⟩

theorem single (id id' : Nat) : Paired line [id] [id'] fun L => L.occurrence id id' :=
  ⟨rfl, fun _ hR => (List.forall₂_cons.mp hR).1⟩

theorem append (h : Paired line ids ids' P) (h' : Paired line more more' Q) :
    Paired line (ids ++ more) (ids' ++ more') fun L => P L ∧ Q L where
  length := by rw [List.length_append, List.length_append, h.length, h'.length]
  like R hR := by
    have hfront := List.forall₂_take_append _ _ _ hR
    have hback := List.forall₂_drop_append _ _ _ hR
    rw [h.length, List.take_left] at hfront
    rw [h.length, List.drop_left] at hback
    exact ⟨h.like R hfront, h'.like R hback⟩

end Paired

/-- Numbers at the same place of both lists. -/
def Zipped (ids ids' : List Nat) (id id' : Nat) : Prop :=
  (id, id') ∈ ids.zip ids'

namespace Zipped

variable {ids ids' : List Nat} {id id' : Nat}

theorem forall₂ (h : ids'.length = ids.length) : List.Forall₂ (Zipped ids ids') ids ids' :=
  List.forall₂_iff_zip.mpr ⟨h.symm, fun h => h⟩

theorem mem (h : Zipped ids ids' id id') : id ∈ ids ∧ id' ∈ ids' :=
  List.of_mem_zip h

/-- Where both lists are without repetition, each number is at one place. -/
theorem oneToOne (h : ids.Nodup) (h' : ids'.Nodup) (line : Nat → Nat → Prop) :
    (Likeness.ofCode (Zipped ids ids') line).OneToOne := by
  intro a a' b b' ha hb
  obtain ⟨i, hi, hai⟩ := List.mem_iff_getElem.mp ha
  obtain ⟨j, hj, hbj⟩ := List.mem_iff_getElem.mp hb
  rw [List.getElem_zip] at hai hbj
  cases hai
  cases hbj
  rw [h.getElem_inj_iff, h'.getElem_inj_iff]

end Zipped

section

variable {L : Likeness}

@[simp] theorem Stmt.unnumbered_var (name : Name) (e? : Option Expr) :
    (Stmt.var name e?).unnumbered = .var name (e?.map Expr.unnumbered) := by
  cases e? <;> rfl

@[simp] theorem Stmt.unnumbered_if (condition : Expr) (thenBranch : Stmt) (s? : Option Stmt) :
    (Stmt.if condition thenBranch s?).unnumbered =
      .if condition.unnumbered thenBranch.unnumbered (s?.map Stmt.unnumbered) := by
  cases s? <;> rfl

@[simp] theorem Stmt.unnumbered_while (condition : Expr) (body : Stmt) (e? : Option Expr) :
    (Stmt.while condition body e?).unnumbered =
      .while condition.unnumbered body.unnumbered (e?.map Expr.unnumbered) := by
  cases e? <;> rfl

@[simp] theorem Stmt.unnumbered_return (line : Nat) (e? : Option Expr) :
    (Stmt.return line e?).unnumbered = .return line (e?.map Expr.unnumbered) := by
  cases e? <;> rfl

theorem Name.Like.renumbered {n n' : Name} (h : n.Like L n') (R : Nat → Nat → Prop) :
    n.Like (.ofCode R L.line) n' :=
  ⟨h.text, h.line⟩

theorem Occurrence.Like.paired {o o' o'' : Occurrence} (h : o.Like L o')
    (hname : o'.name = o''.name) :
    Paired L.line [o.id] [o''.id] fun L => o.Like L o'' := by
  refine (Paired.single o.id o''.id).imp fun R hid => ⟨hid, ?_⟩
  rw [← hname]
  exact h.name.renumbered R

mutual

/-- A tree like another one is like all that are the same as that one up to numbers. -/
theorem Expr.paired : (e : Expr) → {e' e'' : Expr} → e.Like L e' →
    e'.unnumbered = e''.unnumbered → Paired L.line e.ids e''.ids fun L => e.Like L e''
  | .literal _, _, e'', h, hu => by
    subst h
    cases e'' with
    | literal => exact .nil fun _ => hu.symm
    | _ => cases hu
  | .group inner, _, e'', h, hu => by
    obtain ⟨_, rfl, h⟩ := h
    cases e'' with
    | group =>
      injection hu with hu
      exact (inner.paired h hu).imp fun R h => ⟨_, rfl, h⟩
    | _ => cases hu
  | .unary _ _ operand, _, e'', h, hu => by
    obtain ⟨_, _, rfl, hline, h⟩ := h
    cases e'' with
    | unary =>
      injection hu with hop hn hu
      subst hop hn
      exact (operand.paired h hu).imp fun R h => ⟨_, _, rfl, hline, h⟩
    | _ => cases hu
  | .binary _ _ left right, _, e'', h, hu => by
    obtain ⟨_, _, _, rfl, hline, h₁, h₂⟩ := h
    cases e'' with
    | binary =>
      injection hu with hop hn hu₁ hu₂
      subst hop hn
      exact ((left.paired h₁ hu₁).append (right.paired h₂ hu₂)).imp fun R h =>
        ⟨_, _, _, rfl, hline, h⟩
    | _ => cases hu
  | .logical _ left right, _, e'', h, hu => by
    obtain ⟨_, _, rfl, h₁, h₂⟩ := h
    cases e'' with
    | logical =>
      injection hu with hop hu₁ hu₂
      subst hop
      exact ((left.paired h₁ hu₁).append (right.paired h₂ hu₂)).imp fun R h => ⟨_, _, rfl, h⟩
    | _ => cases hu
  | .ternary condition thenBranch elseBranch, _, e'', h, hu => by
    obtain ⟨_, _, _, rfl, h₁, h₂, h₃⟩ := h
    cases e'' with
    | ternary =>
      injection hu with hu₁ hu₂ hu₃
      exact ((condition.paired h₁ hu₁).append
        ((thenBranch.paired h₂ hu₂).append (elseBranch.paired h₃ hu₃))).imp fun R h =>
          ⟨_, _, _, rfl, h⟩
    | _ => cases hu
  | .comma left right, _, e'', h, hu => by
    obtain ⟨_, _, rfl, h₁, h₂⟩ := h
    cases e'' with
    | comma =>
      injection hu with hu₁ hu₂
      exact ((left.paired h₁ hu₁).append (right.paired h₂ hu₂)).imp fun R h => ⟨_, _, rfl, h⟩
    | _ => cases hu
  | .variable _, _, e'', h, hu => by
    obtain ⟨_, rfl, h⟩ := h
    cases e'' with
    | «variable» =>
      injection hu with hu
      injection hu with _ hname
      exact (h.paired hname).imp fun R h => ⟨_, rfl, h⟩
    | _ => cases hu
  | .assign _ value, _, e'', h, hu => by
    obtain ⟨_, _, rfl, ho, h⟩ := h
    cases e'' with
    | assign =>
      injection hu with hu hv
      injection hu with _ hname
      exact ((value.paired h hv).append (ho.paired hname)).imp fun R h =>
        ⟨_, _, rfl, h.2, h.1⟩
    | _ => cases hu
  | .call callee _ arguments, _, e'', h, hu => by
    obtain ⟨_, _, _, rfl, h₁, hline, h₂⟩ := h
    cases e'' with
    | call =>
      injection hu with hu₁ hn hu₂
      subst hn
      exact ((callee.paired h₁ hu₁).append (exprs_paired arguments h₂ hu₂)).imp fun R h =>
        ⟨_, _, _, rfl, h.1, hline, h.2⟩
    | _ => cases hu
  | .get object _, _, e'', h, hu => by
    obtain ⟨_, _, rfl, h, hname⟩ := h
    cases e'' with
    | get =>
      injection hu with hu hn
      subst hn
      exact (object.paired h hu).imp fun R h => ⟨_, _, rfl, h, hname.renumbered R⟩
    | _ => cases hu
  | .set object _ value, _, e'', h, hu => by
    obtain ⟨_, _, _, rfl, h₁, hname, h₂⟩ := h
    cases e'' with
    | set =>
      injection hu with hu₁ hn hu₂
      subst hn
      exact ((value.paired h₂ hu₂).append (object.paired h₁ hu₁)).imp fun R h =>
        ⟨_, _, _, rfl, h.2, hname.renumbered R, h.1⟩
    | _ => cases hu
  | .this _ _, _, e'', h, hu => by
    obtain ⟨_, _, rfl, -, hline⟩ := h
    cases e'' with
    | this =>
      injection hu with _ hn
      subst hn
      exact (Paired.single _ _).imp fun R h => ⟨_, _, rfl, h, hline⟩
    | _ => cases hu
  | .super _ _ _, _, e'', h, hu => by
    obtain ⟨_, _, _, rfl, -, hline, hname⟩ := h
    cases e'' with
    | super =>
      injection hu with _ hn hm
      subst hn hm
      exact (Paired.single _ _).imp fun R h => ⟨_, _, _, rfl, h, hline, hname.renumbered R⟩
    | _ => cases hu
  | .lambda f, _, e'', h, hu => by
    obtain ⟨_, rfl, h⟩ := h
    cases e'' with
    | lambda =>
      injection hu with hu
      exact (f.paired h hu).imp fun R h => ⟨_, rfl, h⟩
    | _ => cases hu
termination_by structural x => x

theorem exprs_paired : (es : List Expr) → {es' es'' : List Expr} → exprsLike L es es' →
    unnumberedExprs es' = unnumberedExprs es'' →
    Paired L.line (exprsIds es) (exprsIds es'') fun L => exprsLike L es es''
  | [], _, es'', h, hu => by
    subst h
    cases es'' with
    | nil => exact .nil fun _ => rfl
    | cons => cases hu
  | e :: es, _, es'', h, hu => by
    obtain ⟨_, _, rfl, h₁, h₂⟩ := h
    cases es'' with
    | nil => cases hu
    | cons =>
      injection hu with hu₁ hu₂
      exact ((e.paired h₁ hu₁).append (exprs_paired es h₂ hu₂)).imp fun R h => ⟨_, _, rfl, h⟩
termination_by structural x => x

theorem Function.paired : (f : Function) → {f' f'' : Function} → {isInitializer : Bool} →
    f.Like L isInitializer f' → f'.unnumbered = f''.unnumbered →
    Paired L.line f.ids f''.ids fun L => f.Like L isInitializer f''
  | ⟨_, _, body, _⟩, _, ⟨_, _, _, _⟩, _, h, hu => by
    obtain ⟨-, _, _, _, _, rfl, hname, hp, hb, hline⟩ := h
    injection hu with hn hps hu hl
    subst hn hps hl
    refine (stmts_paired body hb hu).imp fun R h => ?_
    refine ⟨trivial, _, _, _, _, rfl, ?_, hp.imp fun _ _ h => h.renumbered R, h, hline⟩
    cases hname with
    | none => exact .none
    | some hname => exact .some (hname.renumbered R)
termination_by structural x => x

theorem Stmt.paired : (s : Stmt) → {s' s'' : Stmt} → s.Like L s' →
    s'.unnumbered = s''.unnumbered → Paired L.line s.ids s''.ids fun L => s.Like L s''
  | .expression e, _, s'', h, hu => by
    obtain ⟨_, rfl, h⟩ := h
    cases s'' with
    | expression =>
      injection hu with hu
      exact (e.paired h hu).imp fun R h => ⟨_, rfl, h⟩
    | _ => simp at hu
  | .print e, _, s'', h, hu => by
    obtain ⟨_, rfl, h⟩ := h
    cases s'' with
    | print =>
      injection hu with hu
      exact (e.paired h hu).imp fun R h => ⟨_, rfl, h⟩
    | _ => simp at hu
  | .var _ none, _, s'', h, hu => by
    obtain ⟨_, rfl, hname⟩ := h
    cases s'' with
    | var _ e? =>
      cases e? with
      | none =>
        injection hu with hn
        subst hn
        exact .nil fun R => ⟨_, rfl, hname.renumbered R⟩
      | some => cases hu
    | _ => simp at hu
  | .var _ (some e), _, s'', h, hu => by
    obtain ⟨_, _, rfl, hname, h⟩ := h
    cases s'' with
    | var _ e? =>
      cases e? with
      | none => cases hu
      | some =>
        injection hu with hn hu
        injection hu with hu
        subst hn
        exact (e.paired h hu).imp fun R h => ⟨_, _, rfl, hname.renumbered R, h⟩
    | _ => simp at hu
  | .block body, _, s'', h, hu => by
    obtain ⟨_, rfl, h⟩ := h
    cases s'' with
    | block =>
      injection hu with hu
      exact (stmts_paired body h hu).imp fun R h => ⟨_, rfl, h⟩
    | _ => simp at hu
  | .if condition thenBranch none, _, s'', h, hu => by
    obtain ⟨_, _, rfl, h₁, h₂⟩ := h
    cases s'' with
    | «if» _ _ s? =>
      cases s? with
      | none =>
        injection hu with hu₁ hu₂
        exact ((condition.paired h₁ hu₁).append (thenBranch.paired h₂ hu₂)).imp fun R h =>
          ⟨_, _, rfl, h⟩
      | some => simp at hu
    | _ => simp at hu
  | .if condition thenBranch (some elseBranch), _, s'', h, hu => by
    obtain ⟨_, _, _, rfl, h₁, h₂, h₃⟩ := h
    cases s'' with
    | «if» _ _ s? =>
      cases s? with
      | none => simp at hu
      | some =>
        injection hu with hu₁ hu₂ hu₃
        injection hu₃ with hu₃
        exact ((condition.paired h₁ hu₁).append
          ((thenBranch.paired h₂ hu₂).append (elseBranch.paired h₃ hu₃))).imp fun R h =>
            ⟨_, _, _, rfl, h⟩
    | _ => simp at hu
  | .while condition body none, _, s'', h, hu => by
    obtain ⟨_, _, rfl, h₁, h₂⟩ := h
    cases s'' with
    | «while» _ _ e? =>
      cases e? with
      | none =>
        injection hu with hu₁ hu₂
        exact ((condition.paired h₁ hu₁).append (body.paired h₂ hu₂)).imp fun R h =>
          ⟨_, _, rfl, h⟩
      | some => simp at hu
    | _ => simp at hu
  | .while condition body (some increment), _, s'', h, hu => by
    obtain ⟨_, _, _, rfl, h₁, h₂, h₃⟩ := h
    cases s'' with
    | «while» _ _ e? =>
      cases e? with
      | none => simp at hu
      | some =>
        injection hu with hu₁ hu₂ hu₃
        injection hu₃ with hu₃
        exact ((condition.paired h₁ hu₁).append
          ((body.paired h₂ hu₂).append (increment.paired h₃ hu₃))).imp fun R h =>
            ⟨_, _, _, rfl, h⟩
    | _ => simp at hu
  | .function f, _, s'', h, hu => by
    obtain ⟨_, rfl, h⟩ := h
    cases s'' with
    | function =>
      injection hu with hu
      exact (f.paired h hu).imp fun R h => ⟨_, rfl, h⟩
    | _ => simp at hu
  | .class c, _, s'', h, hu => by
    obtain ⟨_, rfl, h⟩ := h
    cases s'' with
    | «class» =>
      injection hu with hu
      exact (c.paired h hu).imp fun R h => ⟨_, rfl, h⟩
    | _ => simp at hu
  | .return _ none, _, s'', h, hu => by
    obtain ⟨_, rfl, hline⟩ := h
    cases s'' with
    | «return» _ e? =>
      cases e? with
      | none =>
        injection hu with hn
        subst hn
        exact .nil fun R => ⟨_, rfl, hline⟩
      | some => cases hu
    | _ => simp at hu
  | .return _ (some e), _, s'', h, hu => by
    obtain ⟨_, _, rfl, hline, h⟩ := h
    cases s'' with
    | «return» _ e? =>
      cases e? with
      | none => cases hu
      | some =>
        injection hu with hn hu
        injection hu with hu
        subst hn
        exact (e.paired h hu).imp fun R h => ⟨_, _, rfl, hline, h⟩
    | _ => simp at hu
  | .break _, _, s'', h, hu => by
    obtain ⟨_, rfl, hline⟩ := h
    cases s'' with
    | «break» =>
      injection hu with hn
      subst hn
      exact .nil fun R => ⟨_, rfl, hline⟩
    | _ => simp at hu
  | .continue _, _, s'', h, hu => by
    obtain ⟨_, rfl, hline⟩ := h
    cases s'' with
    | «continue» =>
      injection hu with hn
      subst hn
      exact .nil fun R => ⟨_, rfl, hline⟩
    | _ => simp at hu
termination_by structural x => x

theorem stmts_paired : (ss : List Stmt) → {ss' ss'' : List Stmt} → stmtsLike L ss ss' →
    unnumberedStmts ss' = unnumberedStmts ss'' →
    Paired L.line (stmtsIds ss) (stmtsIds ss'') fun L => stmtsLike L ss ss''
  | [], _, ss'', h, hu => by
    subst h
    cases ss'' with
    | nil => exact .nil fun _ => rfl
    | cons => cases hu
  | s :: ss, _, ss'', h, hu => by
    obtain ⟨_, _, rfl, h₁, h₂⟩ := h
    cases ss'' with
    | nil => cases hu
    | cons =>
      injection hu with hu₁ hu₂
      exact ((s.paired h₁ hu₁).append (stmts_paired ss h₂ hu₂)).imp fun R h => ⟨_, _, rfl, h⟩
termination_by structural x => x

theorem Class.paired : (c : Class) → {c' c'' : Class} → c.Like L c' →
    c'.unnumbered = c''.unnumbered → Paired L.line c.ids c''.ids fun L => c.Like L c''
  | ⟨_, none, methods, getters⟩, _, ⟨_, superclass?, _, _⟩, h, hu => by
    obtain ⟨_, _, _, _, rfl, hname, hs, hm, hg⟩ := h
    cases hs
    cases superclass? with
    | none =>
      injection hu with hn _ hum hug
      subst hn
      exact ((functions_paired methods hm hum).append (functions_paired getters hg hug)).imp
        fun R h => ⟨_, _, _, _, rfl, hname.renumbered R, .none, h⟩
    | some => cases hu
  | ⟨_, some _, methods, getters⟩, _, ⟨_, superclass?, _, _⟩, h, hu => by
    obtain ⟨_, _, _, _, rfl, hname, hs, hm, hg⟩ := h
    cases hs with
    | some ho =>
      cases superclass? with
      | none => cases hu
      | some =>
        injection hu with hn hus hum hug
        injection hus with hus
        injection hus with _ hsname
        subst hn
        exact ((ho.paired hsname).append
          ((functions_paired methods hm hum).append (functions_paired getters hg hug))).imp
            fun R h => ⟨_, _, _, _, rfl, hname.renumbered R, .some h.1, h.2⟩
termination_by structural x => x

theorem functions_paired : (fs : List Function) → {fs' fs'' : List Function} →
    {isInitializer : Function → Bool} → functionsLike L isInitializer fs fs' →
    unnumberedFunctions fs' = unnumberedFunctions fs'' →
    Paired L.line (functionsIds fs) (functionsIds fs'') fun L =>
      functionsLike L isInitializer fs fs''
  | [], _, fs'', _, h, hu => by
    subst h
    cases fs'' with
    | nil => exact .nil fun _ => rfl
    | cons => cases hu
  | f :: fs, _, fs'', _, h, hu => by
    obtain ⟨_, _, rfl, h₁, h₂⟩ := h
    cases fs'' with
    | nil => cases hu
    | cons =>
      injection hu with hu₁ hu₂
      exact ((f.paired h₁ hu₁).append (functions_paired fs h₂ hu₂)).imp fun R h => ⟨_, _, rfl, h⟩
termination_by structural x => x

end

end

end LoxLang
