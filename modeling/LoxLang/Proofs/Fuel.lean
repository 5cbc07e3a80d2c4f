import LoxLang.Fuel

/-!
The steps of computations that run on fuel, one behind the other.
-/

namespace LoxLang

namespace Fueled

variable {σ α β : Type} {x y : Fueled σ α} {f : α → Fueled σ β} {s s₁ : σ}

theorem bind_ok {a : α} (h : x s = .ok a s₁) : (x >>= f) s = f a s₁ := by
  show EStateM.bind x f s = f a s₁
  rw [EStateM.bind, h]

theorem bind_error {e : Stop} (h : x s = .error e s₁) : (x >>= f) s = .error e s₁ := by
  show EStateM.bind x f s = .error e s₁
  rw [EStateM.bind, h]

/-- A sequence that gives a value has been gone through. -/
theorem exists_of_bind_eq_ok {b : β} {s₂ : σ} (h : (x >>= f) s = .ok b s₂) :
    ∃ a s₁, x s = .ok a s₁ ∧ f a s₁ = .ok b s₂ := by
  cases hx : x s with
  | ok a s₁ => exact ⟨a, s₁, rfl, (bind_ok hx).symm.trans h⟩
  | error e s₁ =>
    rw [bind_error hx] at h
    cases h

theorem bind_of_eq (h : x s = y s) : (x >>= f) s = (y >>= f) s := by
  show EStateM.bind x f s = EStateM.bind y f s
  rw [EStateM.bind, EStateM.bind, h]

theorem bind_get (f : σ → Fueled σ β) : ((get : Fueled σ σ) >>= f) s = f s s :=
  rfl

end Fueled

end LoxLang
