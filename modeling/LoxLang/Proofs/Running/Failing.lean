import LoxLang.Proofs.Running.Binding
import LoxLang.Proofs.Running.Silence

/-!
Where a failure comes from. A task fails as the last task that it starts does, so that a failure
travels from the point where it arises to the start of the run, and can be traced back from there.
-/

namespace LoxLang

namespace Fueled

variable {α β : Type} {x : Eval α} {f : α → Eval β} {m m₁ : Machine} {d : Diagnostic}

theorem Fails.bind (h : Fails x m d) : Fails (x >>= f) m d := by
  obtain ⟨m', h⟩ := h
  exact ⟨m', bind_error h⟩

theorem Fails.after {a : α} (hx : x m = .ok a m₁) (h : Fails (f a) m₁ d) :
    Fails (x >>= f) m d := by
  obtain ⟨m', h⟩ := h
  exact ⟨m', (bind_ok hx).trans h⟩

/-- A sequence fails in its first part or in what comes behind it. -/
theorem Fails.cases (h : Fails (x >>= f) m d) :
    Fails x m d ∨ ∃ a m₁, x m = .ok a m₁ ∧ Fails (f a) m₁ d := by
  obtain ⟨m', h⟩ := h
  cases hx : x m with
  | ok a m₁ => exact .inr ⟨a, m₁, rfl, m', (bind_ok hx).symm.trans h⟩
  | error e m₁ =>
    rw [bind_error hx] at h
    cases h
    exact .inl ⟨m', hx⟩

end Fueled

open Fueled

theorem Eval.fails_within_iff {α : Type} {environment : Environment} {x : Eval α} {m : Machine}
    {d : Diagnostic} :
    Fails (Eval.within environment x) m d ↔ Fails x { m with environment := environment } d := by
  unfold Fails Eval.within
  dsimp only
  cases x { m with environment := environment } with
  | ok a m₁ => simp
  | error e m₁ => simp

theorem Eval.fails_nested_iff {α : Type} {x : Eval α} {m : Machine} {d : Diagnostic} :
    Fails (Eval.nested x) m d ↔ Fails x { m with depth := m.depth + 1 } d := by
  unfold Fails Eval.nested
  cases x { m with depth := m.depth + 1 } with
  | ok a m₁ => simp
  | error e m₁ => simp

/-- Whether a machine fails with an error as it goes on a task. -/
def Point.Fails (a : Point) (d : Diagnostic) : Prop :=
  match a.task with
  | .evaluate e => Fueled.Fails (Eval.evaluate a.fuel e) a.machine d
  | .evaluateAll es => Fueled.Fails (Eval.evaluateAll a.fuel es) a.machine d
  | .readProperty property line =>
    Fueled.Fails (Eval.readProperty a.fuel property line) a.machine d
  | .call c vs line => Fueled.Fails (Eval.call a.fuel c vs line) a.machine d
  | .run c vs => Fueled.Fails (Eval.run a.fuel c vs) a.machine d
  | .construct c vs => Fueled.Fails (Eval.construct a.fuel c vs) a.machine d
  | .execute s => Fueled.Fails (Eval.execute a.fuel s) a.machine d
  | .loop condition body increment? =>
    Fueled.Fails (Eval.loop a.fuel condition body increment?) a.machine d
  | .executeAll ss => Fueled.Fails (Eval.executeAll a.fuel ss) a.machine d

/-- A task fails if a task that it starts fails. -/
theorem Starts.fails {a b : Point} {d : Diagnostic} (h : Starts a b) (hb : b.Fails d) :
    a.Fails d := by
  cases h with
  | group => exact hb
  | unary => exact Fails.bind hb
  | binaryLeft => exact Fails.bind hb
  | binaryRight h => exact Fails.after h (Fails.bind hb)
  | logicalLeft => exact Fails.bind hb
  | logicalRight h hv =>
    refine Fails.after h ?_
    simp only [hv]
    exact hb
  | question => exact Fails.bind hb
  | @answer fuel _ m₁ v condition thenBranch elseBranch h =>
    have hb : Fueled.Fails
      (Eval.evaluate fuel (if v.isTruthy then thenBranch else elseBranch)) m₁ d := hb
    rw [apply_ite (Eval.evaluate fuel)] at hb
    exact Fails.after h hb
  | commaLeft => exact Fails.bind hb
  | commaRight h => exact Fails.after h hb
  | assigned => exact Fails.bind hb
  | callee => exact Fails.bind hb
  | arguments h => exact Fails.after h (Fails.bind hb)
  | called h hs hc => exact Fails.after h (Fails.after hs (Fails.after hc hb))
  | object => exact Fails.bind hb
  | property h hp => exact Fails.after h (Fails.after hp hb)
  | holder => exact Fails.bind hb
  | stored h hi => exact Fails.after h (Fails.after hi (Fails.bind hb))
  | superProperty h hp => exact Fails.after h (Fails.after hp hb)
  | head => exact Fails.bind hb
  | tail h => exact Fails.after h (Fails.bind hb)
  | getter h => exact Fails.after h hb
  | function h => exact Fails.after h (Eval.fails_nested_iff.mpr hb)
  | «class» h => exact Fails.after h (Eval.fails_nested_iff.mpr hb)
  | body h => exact Fails.after h (Fails.bind (Eval.fails_within_iff.mpr hb))
  | initializer hi hm hb' =>
    refine Fails.after hi ?_
    simp only [hm]
    exact Fails.after hb' (Fails.bind hb)
  | expression => exact Fails.bind hb
  | print => exact Fails.bind hb
  | var => exact Fails.bind hb
  | block h => exact Fails.after rfl (Fails.after h (Eval.fails_within_iff.mpr hb))
  | condition => exact Fails.bind hb
  | thenBranch h hv =>
    refine Fails.after h ?_
    simp only [hv]
    exact hb
  | elseBranch h hv =>
    refine Fails.after h ?_
    simp only [hv]
    exact hb
  | «while» => exact hb
  | result => exact Fails.bind hb
  | test => exact Fails.bind hb
  | turn h hv =>
    refine Fails.after h ?_
    simp only [hv]
    exact Fails.bind hb
  | increment h hv hb' hf =>
    refine Fails.after h ?_
    simp only [hv]
    rcases hf with rfl | rfl
    · exact Fails.after hb' (Fails.bind hb)
    · exact Fails.after hb' (Fails.bind hb)
  | again h hv hb' hf =>
    refine Fails.after h ?_
    simp only [hv]
    rcases hf with rfl | rfl
    · exact Fails.after hb' hb
    · exact Fails.after hb' hb
  | incremented h hv hb' hf hi =>
    refine Fails.after h ?_
    simp only [hv]
    rcases hf with rfl | rfl
    · exact Fails.after hb' (Fails.after hi hb)
    · exact Fails.after hb' (Fails.after hi hb)
  | first => exact Fails.bind hb
  | next h => exact Fails.after h hb

end LoxLang
