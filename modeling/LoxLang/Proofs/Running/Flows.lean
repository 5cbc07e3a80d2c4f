import LoxLang.Proofs.Running.Points
import LoxLang.Proofs.Running.Limits
import LoxLang.Proofs.Scoping.Jumping
import Mathlib.Logic.Relation

/-!
How statements end. A statement ends in a jump only if the jump may leave it. A jump goes on through
the statements around it in the same activation, a break or a continue up to the turn of a loop and
a return up to the body of the function.
-/

namespace LoxLang

open Fueled

/-- Whether there is something around that takes a statement's end, if it is a jump. -/
def Flow.Taken (body : BodyKind) (inLoop : Bool) : Flow → Prop
  | .normal => True
  | .return v => body ≠ .program ∧ (body = .initializer → v = .nil)
  | .break | .continue => inLoop = true

namespace Eval

/-- Whether every value that a computation gives has a property. -/
def Gives {α : Type} (Q : α → Prop) (x : Eval α) : Prop :=
  ∀ m a m₁, x m = .ok a m₁ → Q a

namespace Gives

variable {α β : Type} {Q : β → Prop}

theorem pure {b : β} (h : Q b) : Gives Q (Pure.pure b : Eval β) := by
  intro m a m₁ hx
  cases hx
  exact h

theorem exhausted : Gives Q Fueled.exhausted :=
  fun _ _ _ hx => by cases hx

theorem bind {R : α → Prop} {x : Eval α} {f : α → Eval β} (h : Gives R x)
    (hf : ∀ a, R a → Gives Q (f a)) : Gives Q (x >>= f) := by
  intro m b m₂ hb
  cases hx : x m with
  | ok a m₁ =>
    rw [Fueled.bind_ok hx] at hb
    exact hf a (h m a m₁ hx) m₁ b m₂ hb
  | error e m₁ =>
    rw [Fueled.bind_error hx] at hb
    cases hb

theorem behind {x : Eval α} {f : α → Eval β} (hf : ∀ a, Gives Q (f a)) : Gives Q (x >>= f) :=
  bind (R := fun _ => True) (fun _ _ _ _ => trivial) fun a _ => hf a

theorem within {environment : Environment} {x : Eval β} (h : Gives Q x) :
    Gives Q (Eval.within environment x) := by
  intro m b m₁ hb
  unfold Eval.within at hb
  dsimp only at hb
  cases hx : x { m with environment := environment } with
  | ok a m₂ =>
    rw [hx] at hb
    cases hb
    exact h _ _ _ hx
  | error e m₂ =>
    rw [hx] at hb
    cases hb

end Gives

/-- Whether the ends of all statements on this fuel are taken where their jumps are. A loop takes
the breaks and continues of its turns. -/
structure EndsTaken (fuel : Nat) : Prop where
  execute : ∀ {body inLoop} (s : Stmt), s.Bounded body inLoop →
    Gives (Flow.Taken body inLoop) (execute fuel s)
  loop : ∀ {body} condition (turn : Stmt) increment?, turn.Bounded body true →
    Gives (Flow.Taken body false) (loop fuel condition turn increment?)
  executeAll : ∀ {body inLoop} ss, stmtsBounded body inLoop ss →
    Gives (Flow.Taken body inLoop) (executeAll fuel ss)

namespace EndsTaken

variable {fuel : Nat} {body : BodyKind} {inLoop : Bool}

theorem zero : EndsTaken 0 := by
  constructor
  all_goals
    intros
    exact .exhausted

theorem execute_succ (ih : EndsTaken fuel) (s : Stmt) (h : s.Bounded body inLoop) :
    Gives (Flow.Taken body inLoop) (Eval.execute (fuel + 1) s) := by
  cases s with
  | expression e => exact .behind fun _ => .pure trivial
  | print e => exact .behind fun _ => .behind fun _ => .pure trivial
  | var name initializer? =>
    cases initializer? with
    | none => exact .behind fun _ => .pure trivial
    | some e => exact .behind fun _ => .behind fun _ => .pure trivial
  | block ss => exact .behind fun _ => .behind fun _ => (ih.executeAll ss h).within
  | «if» condition thenBranch elseBranch? =>
    refine .behind fun v => ?_
    cases elseBranch? with
    | none =>
      split
      · exact ih.execute thenBranch h
      · exact .pure trivial
    | some elseBranch =>
      split
      · exact ih.execute thenBranch h.1
      · exact ih.execute elseBranch h.2
  | «while» condition turn increment? =>
    intro m flow m₁ hx
    have hflow := ih.loop condition turn increment? h m flow m₁ hx
    cases flow with
    | normal | «return» _ => exact hflow
    | «break» | «continue» => exact absurd hflow Bool.false_ne_true
  | function f => exact .behind fun _ => .behind fun _ => .pure trivial
  | «class» c => exact .behind fun _ => .pure trivial
  | «return» line value? =>
    cases value? with
    | none => exact .pure ⟨h.1, fun _ => rfl⟩
    | some e => exact .behind fun v => .pure ⟨h.1, fun hb => by cases h.2 hb⟩
  | «break» line => exact .pure h
  | «continue» line => exact .pure h

theorem loop_succ (ih : EndsTaken fuel) (condition : Expr) (turn : Stmt) (increment? : Option Expr)
    (h : turn.Bounded body true) :
    Gives (Flow.Taken body false) (Eval.loop (fuel + 1) condition turn increment?) := by
  refine .behind fun v => ?_
  split
  · refine (ih.execute turn h).bind fun flow hflow => ?_
    have again : Gives (Flow.Taken body false) (Eval.loop fuel condition turn increment?) :=
      ih.loop condition turn increment? h
    cases flow with
    | «break» => exact .pure trivial
    | «return» v => exact .pure hflow
    | normal | «continue» =>
      cases increment? with
      | none => exact again
      | some increment => exact .behind fun _ => again
  · exact .pure trivial

theorem executeAll_succ (ih : EndsTaken fuel) (ss : List Stmt) (h : stmtsBounded body inLoop ss) :
    Gives (Flow.Taken body inLoop) (Eval.executeAll (fuel + 1) ss) := by
  cases ss with
  | nil => exact .pure trivial
  | cons s ss =>
    refine (ih.execute s h.1).bind fun flow hflow => ?_
    cases flow with
    | normal => exact ih.executeAll ss h.2
    | _ => exact .pure hflow

end EndsTaken

/-- A statement ends in a jump only if the jump may leave it. -/
theorem endsTaken (fuel : Nat) : EndsTaken fuel := by
  induction fuel with
  | zero => exact .zero
  | succ fuel ih =>
    exact {
      execute := ih.execute_succ
      loop := ih.loop_succ
      executeAll := ih.executeAll_succ }

end Eval

def Task.IsStatement : Task → Prop
  | .execute _ | .loop .. | .executeAll _ => True
  | _ => False

/-- Whether the jumps out of the statements of a task may be made. -/
def Task.Bounded (body : BodyKind) (inLoop : Bool) : Task → Prop
  | .execute s => s.Bounded body inLoop
  | .loop _ turn _ => turn.Bounded body true
  | .executeAll ss => stmtsBounded body inLoop ss
  | _ => True

/-- Statements and a part of them, or what is left of them. The bodies of functions are not parts of
the statements around them. -/
inductive Task.Part : Task → Task → Prop
  | block {ss} : Part (.execute (.block ss)) (.executeAll ss)
  | thenBranch {condition s elseBranch?} :
      Part (.execute (.if condition s elseBranch?)) (.execute s)
  | elseBranch {condition thenBranch s} :
      Part (.execute (.if condition thenBranch (some s))) (.execute s)
  | while {condition s increment?} :
      Part (.execute (.while condition s increment?)) (.loop condition s increment?)
  | turn {condition s increment?} : Part (.loop condition s increment?) (.execute s)
  | again {condition s increment?} :
      Part (.loop condition s increment?) (.loop condition s increment?)
  | first {s ss} : Part (.executeAll (s :: ss)) (.execute s)
  | next {s ss} : Part (.executeAll (s :: ss)) (.executeAll ss)

namespace Point

/-- Whether the statements at a point end in this way, and leave this machine. -/
def Ends (a : Point) (flow : Flow) (m : Machine) : Prop :=
  match a.task with
  | .execute s => Eval.execute a.fuel s a.machine = .ok flow m
  | .loop condition body increment? =>
    Eval.loop a.fuel condition body increment? a.machine = .ok flow m
  | .executeAll ss => Eval.executeAll a.fuel ss a.machine = .ok flow m
  | _ => False

/-- A statement that starts a part of itself, or what is left of it. -/
structure Encloses (a b : Point) : Prop where
  starts : Starts a b
  part : a.task.Part b.task

/-- A loop and one turn of it. -/
inductive Turn : Point → Point → Prop
  | intro {fuel m m₁ v condition body increment?} (h : Eval.evaluate fuel condition m = .ok v m₁)
      (hv : v.isTruthy = true) :
      Turn ⟨fuel + 1, .loop condition body increment?, m⟩ ⟨fuel, .execute body, m₁⟩

/-- A statement lies in another one in the same activation. -/
def Around : Point → Point → Prop :=
  Relation.ReflTransGen Encloses

/-- A statement lies in another one in the same turn of the innermost loop around them. -/
def AroundInTurn : Point → Point → Prop :=
  Relation.ReflTransGen fun a b => a.Encloses b ∧ ¬ a.Turn b

variable {a b c : Point} {flow : Flow} {m : Machine} {body : BodyKind} {inLoop : Bool}

theorem Ends.environment (h : a.Ends flow m) : m.environment = a.machine.environment := by
  obtain ⟨fuel, task, m₀⟩ := a
  have hs := Eval.steadies fuel
  cases task with
  | execute s => exact ((hs.execute s).leads_ok h).environment
  | loop condition turn increment? =>
    exact ((hs.loop condition turn increment?).leads_ok h).environment
  | executeAll ss => exact ((hs.executeAll ss).leads_ok h).environment
  | _ => exact h.elim

theorem Ends.isStatement (h : a.Ends flow m) : a.task.IsStatement := by
  obtain ⟨fuel, task, m₀⟩ := a
  cases task with
  | execute | loop | executeAll => trivial
  | _ => exact h.elim

/-- A bounded statement ends in a jump only if the jump is taken. -/
theorem Ends.taken (h : a.Ends flow m) (hb : a.task.Bounded body inLoop) :
    flow.Taken body inLoop := by
  obtain ⟨fuel, task, m₀⟩ := a
  cases task with
  | execute s => exact (Eval.endsTaken fuel).execute s hb m₀ flow m h
  | loop condition turn increment? =>
    have hflow := (Eval.endsTaken fuel).loop condition turn increment? hb m₀ flow m h
    cases flow with
    | normal | «return» _ => exact hflow
    | «break» | «continue» => exact absurd hflow Bool.false_ne_true
  | executeAll ss => exact (Eval.endsTaken fuel).executeAll ss hb m₀ flow m h
  | _ => exact h.elim

/-- The parts of a bounded statement are bounded, those of a loop as in a loop. -/
theorem Encloses.bounded (h : a.Encloses b) (hb : a.task.Bounded body inLoop) :
    (a.Turn b ∧ b.task.Bounded body true) ∨ (¬ a.Turn b ∧ b.task.Bounded body inLoop) := by
  obtain ⟨fuel, task, m⟩ := a
  obtain ⟨fuel', task', m'⟩ := b
  obtain ⟨hs, hp⟩ := h
  cases hp with
  | @thenBranch _ _ elseBranch? =>
    cases elseBranch? with
    | none => exact .inr ⟨nofun, hb⟩
    | some elseBranch => exact .inr ⟨nofun, hb.1⟩
  | elseBranch => exact .inr ⟨nofun, hb.2⟩
  | turn =>
    cases hs with
    | turn h hv => exact .inl ⟨.intro h hv, hb⟩
  | first => exact .inr ⟨nofun, hb.1⟩
  | next => exact .inr ⟨nofun, hb.2⟩
  | block | «while» | again => exact .inr ⟨nofun, hb⟩

/-- A jump goes on through the statement around it, but a break or a continue does not leave the
turn of a loop. -/
theorem Encloses.ends (h : a.Encloses b) (hflow : flow ≠ .normal)
    (hturn : a.Turn b → ∃ v, flow = .return v) (hb : b.Ends flow m) :
    a.Ends flow (m.inside a.machine.environment) := by
  have same {environment : Environment} (he : m.environment = environment) :
      m.inside environment = m := by
    subst he
    rfl
  have evaluated {fuel : Nat} {e : Expr} {m m₁ : Machine} {v : Value}
      (h : Eval.evaluate fuel e m = .ok v m₁) : m₁.environment = m.environment :=
    (((Eval.steadies fuel).evaluate e).leads_ok h).environment
  have executed {fuel : Nat} {s : Stmt} {m m₁ : Machine} {flow : Flow}
      (h : Eval.execute fuel s m = .ok flow m₁) : m₁.environment = m.environment :=
    (((Eval.steadies fuel).execute s).leads_ok h).environment
  have henv := hb.environment
  obtain ⟨hs, hp⟩ := h
  cases hs with
  | @block fuel m₀ m₁ ss environment ho =>
    have hleads := (Eval.openScope_plain m₀.environment .empty).leads_ok ho
    have hbody := Eval.within_ok (x := Eval.executeAll fuel ss) hb
    rw [hleads.environment] at hbody
    exact (bind_ok rfl).trans ((bind_ok ho).trans hbody)
  | thenBranch h hv =>
    rw [same (henv.trans (evaluated h))]
    refine (bind_ok h).trans ?_
    simp only [hv]
    exact hb
  | elseBranch h hv =>
    rw [same (henv.trans (evaluated h))]
    refine (bind_ok h).trans ?_
    simp only [hv]
    exact hb
  | «while» =>
    rw [same henv]
    exact hb
  | turn h hv =>
    obtain ⟨v, rfl⟩ := hturn (.intro h hv)
    rw [same (henv.trans (evaluated h))]
    refine (bind_ok h).trans ?_
    simp only [hv]
    exact bind_ok hb
  | again h hv hx hf =>
    rw [same (henv.trans ((executed hx).trans (evaluated h)))]
    refine (bind_ok h).trans ?_
    simp only [hv]
    refine (bind_ok hx).trans ?_
    rcases hf with rfl | rfl
    · exact hb
    · exact hb
  | incremented h hv hx hf hi =>
    rw [same (henv.trans ((evaluated hi).trans ((executed hx).trans (evaluated h))))]
    refine (bind_ok h).trans ?_
    simp only [hv]
    refine (bind_ok hx).trans ?_
    rcases hf with rfl | rfl
    · exact (bind_ok hi).trans hb
    · exact (bind_ok hi).trans hb
  | first =>
    rw [same henv]
    refine (bind_ok hb).trans ?_
    cases flow with
    | normal => exact (hflow rfl).elim
    | _ => rfl
  | next h =>
    rw [same (henv.trans (executed h))]
    exact (bind_ok h).trans hb
  | _ => cases hp

/-- A return goes on up to the body of the function. -/
theorem Around.ends {v : Value} (h : a.Around b) (hb : b.Ends (.return v) m) :
    a.Ends (.return v) (m.inside a.machine.environment) := by
  induction h generalizing m with
  | refl =>
    have he : m.inside a.machine.environment = m := by
      rw [← hb.environment]
      rfl
    rw [he]
    exact hb
  | tail _ hs ih =>
    have hb := hs.ends (fun hn => by cases hn) (fun _ => ⟨v, rfl⟩) hb
    have ha := ih hb
    exact ha

/-- Any jump goes on up to the turn of the loop. -/
theorem AroundInTurn.ends (h : a.AroundInTurn b) (hflow : flow ≠ .normal) (hb : b.Ends flow m) :
    a.Ends flow (m.inside a.machine.environment) := by
  induction h generalizing m with
  | refl =>
    have he : m.inside a.machine.environment = m := by
      rw [← hb.environment]
      rfl
    rw [he]
    exact hb
  | tail _ hs ih =>
    have hb := hs.1.ends hflow (fun ht => (hs.2 ht).elim) hb
    have ha := ih hb
    exact ha

end Point

end LoxLang
