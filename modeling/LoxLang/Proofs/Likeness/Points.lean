import LoxLang.Proofs.Likeness.Runs
import LoxLang.Proofs.Running.Points

/-!
A property of functions that all code of a run has. If the functions in a program have it, and those
that a machine holds, then so have those at every point that the run comes to.
-/

namespace LoxLang

open Fueled

section

variable (P : Bool → Function → Prop)

/-- The likeness by which code is like itself if all functions in it have a property. -/
abbrev Having : Likeness → Prop :=
  (· = .ofFunctions P)

/-- Whether all functions that a machine holds have a property. -/
def Machine.Has (m : Machine) : Prop :=
  m.Like (Having P) #[] m

/-- Whether all functions in the code and the values of a task have a property. -/
def Task.Has : Task → Prop
  | .evaluate e => e.Like (.ofFunctions P) e
  | .evaluateAll es => exprsLike (.ofFunctions P) es es
  | .readProperty property _ => property.Like (Having P) property
  | .call c vs _ => c.Like (Having P) c ∧ List.Forall₂ (Value.Like (Having P)) vs vs
  | .run c vs => c.Like (Having P) c ∧ List.Forall₂ (Value.Like (Having P)) vs vs
  | .construct c vs => c.Like (Having P) c ∧ List.Forall₂ (Value.Like (Having P)) vs vs
  | .execute s => s.Like (.ofFunctions P) s
  | .loop condition body increment? => condition.Like (.ofFunctions P) condition ∧
    body.Like (.ofFunctions P) body ∧
    Option.Rel (Expr.Like (.ofFunctions P)) increment? increment?
  | .executeAll ss => stmtsLike (.ofFunctions P) ss ss

structure Point.Has (a : Point) : Prop where
  task : a.task.Has P
  machine : a.machine.Has P

end

variable {P : Bool → Function → Prop} {m m₁ : Machine} {fuel : Nat}

/-- What a machine holds is in its scopes, its instances and its arrays. -/
theorem Machine.Has.of_eq (h : m.Has P) (hs : m₁.scopes = m.scopes) (hf : m₁.fields = m.fields)
    (ha : m₁.arrays = m.arrays) : m₁.Has P := by
  constructor
  · rintro L rfl id _ rfl
    rfl
  · rw [hs]
    exact h.tables
  · rw [hf]
    exact h.fields
  · rw [ha]
    exact h.elements
  case printed => exact Array.empty_append.symm
  all_goals rfl

/-- What a computation gives has the property if it runs in step with itself. -/
theorem Eval.InStep.after {α : Type} {V : α → α → Prop} {x : Eval α} {a : α}
    (h : InStep (Having P) #[] V x x) (hm : m.Has P) (hx : x m = .ok a m₁) :
    V a a ∧ m₁.Has P := by
  have hr := h m m hm
  rw [hx] at hr
  exact hr

theorem Eval.InStep.behind {α : Type} {V : α → α → Prop} {x : Eval α}
    (h : InStep (Having P) #[] V x x) (hm : m.Has P) : (Fueled.behind (x m)).Has P := by
  have hr := h m m hm
  generalize x m = r at hr
  match r, hr with
  | .ok _ _, hr => exact hr.2
  | .error _ _, hr => exact hr.2

/-- What is evaluated and what is left of the machine have the property. -/
theorem Machine.Has.evaluated (hm : m.Has P) {e : Expr} {v : Value}
    (he : e.Like (.ofFunctions P) e) (h : Eval.evaluate fuel e m = .ok v m₁) :
    v.Like (Having P) v ∧ m₁.Has P :=
  ((Eval.goInStep (Having P) #[] fuel).evaluate rfl e e he).after hm h

theorem Machine.Has.executed (hm : m.Has P) {s : Stmt} {flow : Flow}
    (hs : s.Like (.ofFunctions P) s) (h : Eval.execute fuel s m = .ok flow m₁) : m₁.Has P :=
  (((Eval.goInStep (Having P) #[] fuel).execute rfl s s hs).after hm h).2

namespace Starts

variable {b : Point}

theorem evaluate_has {e : Expr} (h : Starts ⟨fuel, .evaluate e, m⟩ b)
    (he : e.Like (.ofFunctions P) e) (hm : m.Has P) : b.Has P := by
  have lines : ∀ n, Lines (Having P) n n := fun n => ⟨_, rfl, rfl⟩
  cases h with
  | group =>
    obtain ⟨_, ⟨⟩, h⟩ := he
    exact ⟨h, hm⟩
  | unary =>
    obtain ⟨_, _, ⟨⟩, -, h⟩ := he
    exact ⟨h, hm⟩
  | binaryLeft =>
    obtain ⟨_, _, _, ⟨⟩, -, h, -⟩ := he
    exact ⟨h, hm⟩
  | binaryRight hv =>
    obtain ⟨_, _, _, ⟨⟩, -, h, h'⟩ := he
    exact ⟨h', (hm.evaluated h hv).2⟩
  | logicalLeft =>
    obtain ⟨_, _, ⟨⟩, h, -⟩ := he
    exact ⟨h, hm⟩
  | logicalRight hv _ =>
    obtain ⟨_, _, ⟨⟩, h, h'⟩ := he
    exact ⟨h', (hm.evaluated h hv).2⟩
  | question =>
    obtain ⟨_, _, _, ⟨⟩, h, -⟩ := he
    exact ⟨h, hm⟩
  | answer hv =>
    obtain ⟨_, _, _, ⟨⟩, h, h', h''⟩ := he
    refine ⟨?_, (hm.evaluated h hv).2⟩
    split
    · exact h'
    · exact h''
  | commaLeft =>
    obtain ⟨_, _, ⟨⟩, h, -⟩ := he
    exact ⟨h, hm⟩
  | commaRight hv =>
    obtain ⟨_, _, ⟨⟩, h, h'⟩ := he
    exact ⟨h', (hm.evaluated h hv).2⟩
  | assigned =>
    obtain ⟨_, _, ⟨⟩, -, h⟩ := he
    exact ⟨h, hm⟩
  | callee =>
    obtain ⟨_, _, _, ⟨⟩, h, -⟩ := he
    exact ⟨h, hm⟩
  | arguments hv =>
    obtain ⟨_, _, _, ⟨⟩, h, -, h'⟩ := he
    exact ⟨h', (hm.evaluated h hv).2⟩
  | @called fuel line _ _ _ _ v vs _ arguments c hv hvs hc =>
    obtain ⟨_, _, _, ⟨⟩, h, -, h'⟩ := he
    obtain ⟨hv, hm⟩ := hm.evaluated h hv
    obtain ⟨hvs, hm⟩ :=
      ((Eval.goInStep (Having P) #[] fuel).evaluateAll rfl arguments arguments h').after hm hvs
    obtain ⟨hc, hm⟩ := (Eval.callableOf_inStep (lines line) hv vs.length).after hm hc
    exact ⟨⟨hc, hvs⟩, hm⟩
  | object =>
    obtain ⟨_, _, ⟨⟩, h, -⟩ := he
    exact ⟨h, hm⟩
  | @property _ _ _ _ v object name _ hv hp =>
    obtain ⟨_, _, ⟨⟩, h, -⟩ := he
    obtain ⟨hv, hm⟩ := hm.evaluated h hv
    obtain ⟨hp, hm⟩ := (Eval.propertyOfValue_inStep rfl (lines name.line) hv).after hm hp
    exact ⟨hp, hm⟩
  | holder =>
    obtain ⟨_, _, _, ⟨⟩, h, -⟩ := he
    exact ⟨h, hm⟩
  | @stored _ _ _ _ v _ name _ _ hv hi =>
    obtain ⟨_, _, _, ⟨⟩, h, -, h'⟩ := he
    obtain ⟨hv, hm⟩ := hm.evaluated h hv
    exact ⟨h', ((Eval.instanceOf_inStep (lines name.line) hv).after hm hi).2⟩
  | @superProperty _ line id _ _ _ method r _ hr hp =>
    obtain ⟨_, _, _, ⟨⟩, hid, -⟩ := he
    obtain ⟨hr, hm⟩ := (Eval.superOf_inStep (K := Having P) rfl hid (lines line)).after hm hr
    obtain ⟨hp, hm⟩ :=
      (Eval.superPropertyOf_inStep rfl (lines method.line) hr.1 hr.2).after hm hp
    exact ⟨hp, hm⟩

theorem execute_has {s : Stmt} (h : Starts ⟨fuel, .execute s, m⟩ b)
    (hs : s.Like (.ofFunctions P) s) (hm : m.Has P) : b.Has P := by
  cases h with
  | expression =>
    obtain ⟨_, ⟨⟩, h⟩ := hs
    exact ⟨h, hm⟩
  | print =>
    obtain ⟨_, ⟨⟩, h⟩ := hs
    exact ⟨h, hm⟩
  | var =>
    obtain ⟨_, _, ⟨⟩, -, h⟩ := hs
    exact ⟨h, hm⟩
  | @block _ _ m₁ _ environment ho =>
    obtain ⟨_, ⟨⟩, h⟩ := hs
    have hm₁ := ((Eval.openScope_inStep m.environment .empty).after hm ho).2
    exact ⟨h, { hm₁ with environment := rfl }⟩
  | @condition _ _ _ _ elseBranch? =>
    cases elseBranch? with
    | none =>
      obtain ⟨_, _, ⟨⟩, h, -⟩ := hs
      exact ⟨h, hm⟩
    | some elseBranch =>
      obtain ⟨_, _, _, ⟨⟩, h, -⟩ := hs
      exact ⟨h, hm⟩
  | @thenBranch _ _ _ _ _ _ elseBranch? hv _ =>
    cases elseBranch? with
    | none =>
      obtain ⟨_, _, ⟨⟩, h, h'⟩ := hs
      exact ⟨h', (hm.evaluated h hv).2⟩
    | some elseBranch =>
      obtain ⟨_, _, _, ⟨⟩, h, h', -⟩ := hs
      exact ⟨h', (hm.evaluated h hv).2⟩
  | elseBranch hv _ =>
    obtain ⟨_, _, _, ⟨⟩, h, -, h'⟩ := hs
    exact ⟨h', (hm.evaluated h hv).2⟩
  | @«while» _ _ _ _ increment? =>
    cases increment? with
    | none =>
      obtain ⟨_, _, ⟨⟩, h, h'⟩ := hs
      exact ⟨⟨h, h', .none⟩, hm⟩
    | some increment =>
      obtain ⟨_, _, _, ⟨⟩, h, h', h''⟩ := hs
      exact ⟨⟨h, h', .some h''⟩, hm⟩
  | result =>
    obtain ⟨_, _, ⟨⟩, -, h⟩ := hs
    exact ⟨h, hm⟩

theorem loop_has {condition : Expr} {body : Stmt} {increment? : Option Expr}
    (h : Starts ⟨fuel, .loop condition body increment?, m⟩ b)
    (ht : (Task.loop condition body increment?).Has P) (hm : m.Has P) : b.Has P := by
  obtain ⟨hc, hb, hi⟩ := ht
  cases h with
  | test => exact ⟨hc, hm⟩
  | turn hv _ => exact ⟨hb, (hm.evaluated hc hv).2⟩
  | increment hv _ hx _ =>
    cases hi with
    | some hi => exact ⟨hi, (hm.evaluated hc hv).2.executed hb hx⟩
  | again hv _ hx _ => exact ⟨⟨hc, hb, hi⟩, (hm.evaluated hc hv).2.executed hb hx⟩
  | incremented hv _ hx _ hv' =>
    cases hi with
    | some hi =>
      have hm₂ := (hm.evaluated hc hv).2.executed hb hx
      exact ⟨⟨hc, hb, .some hi⟩, (hm₂.evaluated hi hv').2⟩

/-- Every task that is started has the property. -/
theorem has {a : Point} (h : Starts a b) (ha : a.Has P) : b.Has P := by
  obtain ⟨fuel, task, m⟩ := a
  obtain ⟨ht, hm⟩ := ha
  have lines : ∀ n, Lines (Having P) n n := fun n => ⟨_, rfl, rfl⟩
  cases task with
  | evaluate e => exact h.evaluate_has ht hm
  | evaluateAll es =>
    cases h with
    | head =>
      obtain ⟨_, _, ⟨⟩, h, -⟩ := ht
      exact ⟨h, hm⟩
    | tail hv =>
      obtain ⟨_, _, ⟨⟩, h, h'⟩ := ht
      exact ⟨h', (hm.evaluated h hv).2⟩
  | readProperty property line =>
    cases h with
    | getter hc =>
      cases ht with
      | getter h =>
        obtain ⟨hc, hm₁⟩ := (Eval.newFunction_inStep h).after hm hc
        exact ⟨⟨hc, .nil⟩, hm₁⟩
  | call c vs line =>
    obtain ⟨hc, hvs⟩ := ht
    cases h with
    | function hd =>
      have hm₁ := ((Eval.checkDepth_inStep (lines line)).after hm hd).2
      cases hc with
      | function hc => exact ⟨⟨hc, hvs⟩, { hm₁ with depth := rfl }⟩
    | «class» hd =>
      have hm₁ := ((Eval.checkDepth_inStep (lines line)).after hm hd).2
      cases hc with
      | «class» hc => exact ⟨⟨hc, hvs⟩, { hm₁ with depth := rfl }⟩
  | run c vs =>
    obtain ⟨hc, hvs⟩ := ht
    cases h with
    | body ho =>
      obtain ⟨L, rfl, hf⟩ := hc.function
      obtain ⟨⟨name?, parameters, body, line⟩, environment, isInitializer⟩ := c
      obtain ⟨-, _, _, _, _, ⟨⟩, -, hp, hb, -⟩ := hf
      have ht := parameterTable_rel hp hvs
      have hm₁ := ((Eval.openScope_inStep environment ht).after hm ho).2
      exact ⟨hb, { hm₁ with environment := rfl }⟩
  | construct c vs =>
    obtain ⟨hc, hvs⟩ := ht
    cases h with
    | @initializer _ _ _ _ _ _ i method closure hi hmethod hb =>
      obtain ⟨hi, hm₁⟩ := (Eval.newInstance_inStep hc).after hm hi
      have hinitializer := hc.method? "init"
      have hmethod : c.method? "init" = some method := hmethod
      rw [hmethod] at hinitializer
      cases hinitializer with
      | some hmethod =>
        obtain ⟨hclosure, hm₂⟩ := (Eval.bindThis_inStep hmethod hi).after hm₁ hb
        exact ⟨⟨hclosure, hvs⟩, hm₂⟩
  | execute s => exact h.execute_has ht hm
  | loop condition body increment? => exact h.loop_has ht hm
  | executeAll ss =>
    cases h with
    | first =>
      obtain ⟨_, _, ⟨⟩, h, -⟩ := ht
      exact ⟨h, hm⟩
    | next hx =>
      obtain ⟨_, _, ⟨⟩, h, h'⟩ := ht
      exact ⟨h', hm.executed h hx⟩

end Starts

end LoxLang
