import LoxLang.Proofs.Fuel
import LoxLang.Proofs.Likeness.Code

/-!
Two computations in lockstep: from related states they end in the same way, in related states, with
related values or related errors. The rules follow the steps of a computation.
-/

namespace LoxLang

namespace Fueled

section

variable {σ : Type} (E : Diagnostic → Diagnostic → Prop) (S : σ → σ → Prop)

/-- Results of one kind, in related states. -/
def EndAlike {α β : Type} (V : α → β → Prop) :
    EStateM.Result Stop σ α → EStateM.Result Stop σ β → Prop
  | .ok a s, .ok b s' => V a b ∧ S s s'
  | .error e s, .error e' s' => e.Rel E e' ∧ S s s'
  | _, _ => False

def Lockstep {α β : Type} (V : α → β → Prop) (x : Fueled σ α) (y : Fueled σ β) : Prop :=
  ∀ s s', S s s' → EndAlike E S V (x s) (y s')

end

variable {σ α β α' β' : Type} {E : Diagnostic → Diagnostic → Prop} {S : σ → σ → Prop}
  {V : α → β → Prop} {V' : α' → β' → Prop}

namespace EndAlike

variable {r : EStateM.Result Stop σ α} {r' : EStateM.Result Stop σ β}

theorem cases (h : EndAlike E S V r r') :
    (∃ a s b s', r = .ok a s ∧ r' = .ok b s' ∧ V a b ∧ S s s') ∨
      ∃ e s e' s', r = .error e s ∧ r' = .error e' s' ∧ e.Rel E e' ∧ S s s' := by
  match r, r', h with
  | .ok a s, .ok b s', ⟨hv, hs⟩ => exact .inl ⟨a, s, b, s', rfl, rfl, hv, hs⟩
  | .error e s, .error e' s', ⟨he, hs⟩ => exact .inr ⟨e, s, e', s', rfl, rfl, he, hs⟩

theorem ok {a : α} {s : σ} (h : EndAlike E S V r r') (hr : r = .ok a s) :
    ∃ b s', r' = .ok b s' ∧ V a b ∧ S s s' := by
  subst hr
  match r', h with
  | .ok b s', h => exact ⟨b, s', rfl, h⟩

theorem bind {x : Fueled σ α} {y : Fueled σ β} {f : α → Fueled σ α'} {g : β → Fueled σ β'}
    {s s' : σ} (h : EndAlike E S V (x s) (y s'))
    (hf : ∀ a s₁ b s₁', V a b → S s₁ s₁' → EndAlike E S V' (f a s₁) (g b s₁')) :
    EndAlike E S V' ((x >>= f) s) ((y >>= g) s') := by
  rcases h.cases with ⟨a, s₁, b, s₁', hx, hy, hv, hs⟩ | ⟨e, s₁, e', s₁', hx, hy, he, hs⟩
  · rw [bind_ok hx, bind_ok hy]
    exact hf a s₁ b s₁' hv hs
  · rw [bind_error hx, bind_error hy]
    exact ⟨he, hs⟩

end EndAlike

namespace Lockstep

variable {x : Fueled σ α} {y : Fueled σ β}

theorem bind {f : α → Fueled σ α'} {g : β → Fueled σ β'} (h : Lockstep E S V x y)
    (hf : ∀ a b, V a b → Lockstep E S V' (f a) (g b)) :
    Lockstep E S V' (x >>= f) (y >>= g) :=
  fun s s' hs => (h s s' hs).bind fun a s₁ b s₁' hv hs₁ => hf a b hv s₁ s₁' hs₁

theorem pure {a : α} {b : β} (h : V a b) :
    Lockstep E S V (Pure.pure a) (Pure.pure b) :=
  fun _ _ hs => ⟨h, hs⟩

theorem fail {d d' : Diagnostic} (h : E d d') :
    Lockstep E S V (Fueled.fail d) (Fueled.fail d') :=
  fun _ _ hs => ⟨.failed h, hs⟩

theorem exhausted : Lockstep E S V Fueled.exhausted Fueled.exhausted :=
  fun _ _ hs => ⟨.outOfFuel, hs⟩

theorem get : Lockstep E S S get get :=
  fun _ _ hs => ⟨hs, hs⟩

/-- One step that gives a value and changes the state. -/
theorem step {f : σ → α × σ} {g : σ → β × σ}
    (h : ∀ s s', S s s' → V (f s).1 (g s').1 ∧ S (f s).2 (g s').2) :
    Lockstep E S V (modifyGet f) (modifyGet g) :=
  fun s s' hs => h s s' hs

theorem modify {f g : σ → σ} (h : ∀ s s', S s s' → S (f s) (g s')) :
    Lockstep E S (fun _ _ => True) (modify f) (modify g) :=
  fun s s' hs => ⟨trivial, h s s' hs⟩

end Lockstep

end Fueled

end LoxLang
