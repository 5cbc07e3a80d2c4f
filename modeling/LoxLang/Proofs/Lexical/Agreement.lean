import LoxLang.Proofs.Fuel
import LoxLang.Proofs.Lexical.Linked

/-!
Computations of a machine and of a lexical run that agree. Both end in the same way, and their
states stand for each other in a world that has grown. Where a computation stands is a position,
and a computation may leave its position only by the declarations that it makes.
-/

namespace LoxLang

variable (P : Mention → Prop) (D : Distances)

/-- Where a computation stands: what the analysis sees there, the number of the innermost scope,
and the variables whose initializer is under way. -/
structure Position where
  around : Surroundings
  frames : Frames
  scope : Nat
  pending : List (Nat × String)

/-- A machine and a lexical run that stand for each other at a position. -/
structure Stands (p : Position) (w : World) (m : Machine) (s : Lexical.State) : Prop where
  linked : Linked P D w m s
  matched : Matches w p.frames m.environment s.machine.environment
  enclosed : Enclosed p.around p.frames
  innermost : m.environment.head? = some p.scope
  current : ∀ (i : Nat) (b : Binding), w.bindings[i]? = some b → b.scope = p.scope →
    p.frames.head?.any (·.contains b.name) = true
  pending : w.Pending p.pending

/-- A machine and a lexical run behind a list of statements, wherever it ended. -/
structure Ended (pending : List (Nat × String)) (w : World) (m : Machine) (s : Lexical.State) :
    Prop where
  linked : Linked P D w m s
  pending : w.Pending pending

/-- Results that agree from a world on, where those with a value satisfy `Q` and bind names in the
scopes `S` only. -/
def Agrees {α β : Type} (S : Nat → Prop) (w : World)
    (Q : World → α → Machine → β → Lexical.State → Prop) :
    EStateM.Result Stop Machine α → EStateM.Result Stop Lexical.State β → Prop
  | .ok a m, .ok b s => ∃ w', World.Grows S w w' ∧ Q w' a m b s
  | .error e m, .error e' s => e' = e ∧ ∃ w', w ≤ w' ∧ Linked P D w' m s
  | _, _ => False

/-- Computations that agree from one position to another, with values that `V` relates. -/
def Simulated {α β : Type} (p p' : Position) (w : World) (V : World → α → β → Prop)
    (x : Eval α) (y : Lexical β) : Prop :=
  ∀ m s, Stands P D p w m s → Agrees P D (w.Ahead p.scope) w
    (fun w' a m' b s' => V w' a b ∧ Stands P D p' w' m' s') (x m) (y s)

variable {P D}

namespace Agrees

variable {α β α' β' : Type} {S S' : Nat → Prop} {w w₁ : World}
  {Q R : World → α → Machine → β → Lexical.State → Prop}
  {Q' : World → α' → Machine → β' → Lexical.State → Prop}
  {r : EStateM.Result Stop Machine α} {r' : EStateM.Result Stop Lexical.State β}

theorem cases (h : Agrees P D S w Q r r') :
    (∃ a m b s w', r = .ok a m ∧ r' = .ok b s ∧ World.Grows S w w' ∧ Q w' a m b s) ∨
      ∃ e m s w', r = .error e m ∧ r' = .error e s ∧ w ≤ w' ∧ Linked P D w' m s := by
  cases r with
  | ok a m =>
    cases r' with
    | ok b s =>
      obtain ⟨w', hw, hq⟩ := h
      exact .inl ⟨a, m, b, s, w', rfl, rfl, hw, hq⟩
    | error e s => exact h.elim
  | error e m =>
    cases r' with
    | ok b s => exact h.elim
    | error e' s =>
      obtain ⟨rfl, w', hw, hl⟩ := h
      exact .inr ⟨e', m, s, w', rfl, rfl, hw, hl⟩

theorem weaken (h : Agrees P D S w Q r r') (hS : ∀ n, S n → S' n)
    (hq : ∀ w' a m b s, World.Grows S w w' → Q w' a m b s → R w' a m b s) :
    Agrees P D S' w R r r' := by
  rcases h.cases with ⟨a, m, b, s, w', rfl, rfl, hw, h⟩ | ⟨e, m, s, w', rfl, rfl, hw, hl⟩
  · exact ⟨w', hw.widen hS, hq w' a m b s hw h⟩
  · exact ⟨rfl, w', hw, hl⟩

/-- What agrees from a later world on agrees from an earlier one. -/
theorem since (hw : World.Grows S w w₁) (h : Agrees P D S w₁ Q r r') : Agrees P D S w Q r r' := by
  rcases h.cases with ⟨a, m, b, s, w₂, rfl, rfl, hw', h⟩ | ⟨e, m, s, w₂, rfl, rfl, hw', hl⟩
  · exact ⟨w₂, hw.trans hw', h⟩
  · exact ⟨rfl, w₂, World.le_trans hw.le hw', hl⟩

theorem bind {x : Eval α} {y : Lexical β} {f : α → Eval α'} {g : β → Lexical β'} {m : Machine}
    {s : Lexical.State} (h : Agrees P D S w Q (x m) (y s))
    (hf : ∀ w₁ a m₁ b s₁, World.Grows S w w₁ → Q w₁ a m₁ b s₁ →
      Agrees P D S w₁ Q' (f a m₁) (g b s₁)) :
    Agrees P D S w Q' ((x >>= f) m) ((y >>= g) s) := by
  rcases h.cases with ⟨a, m₁, b, s₁, w₁, hx, hy, hw, hq⟩ | ⟨e, m₁, s₁, w₁, hx, hy, hw, hl⟩
  · rw [Fueled.bind_ok hx, Fueled.bind_ok hy]
    exact (hf w₁ a m₁ b s₁ hw hq).since hw
  · rw [Fueled.bind_error hx, Fueled.bind_error hy]
    exact ⟨rfl, w₁, hw, hl⟩

/-- Where results agree, one is a value if the other is. -/
theorem ok {a : α} {m : Machine} (h : Agrees P D S w Q r r') (hr : r = .ok a m) :
    ∃ b s w', r' = .ok b s ∧ World.Grows S w w' ∧ Q w' a m b s := by
  rcases h.cases with ⟨_, _, b, s, w', hok, hr', hw, hq⟩ | ⟨_, _, _, _, he, -⟩
  · cases hr.symm.trans hok
    exact ⟨b, s, w', hr', hw, hq⟩
  · cases hr.symm.trans he

/-- Where results agree, one has failed if the other has. -/
theorem error {e : Stop} {m : Machine} (h : Agrees P D S w Q r r') (hr : r = .error e m) :
    ∃ s w', r' = .error e s ∧ w ≤ w' ∧ Linked P D w' m s := by
  rcases h.cases with ⟨_, _, _, _, _, hok, -⟩ | ⟨_, _, s, w', he, hr', hw, hl⟩
  · cases hr.symm.trans hok
  · cases hr.symm.trans he
    exact ⟨s, w', hr', hw, hl⟩

end Agrees

theorem Stands.ended {p : Position} {w : World} {m : Machine} {s : Lexical.State}
    (h : Stands P D p w m s) : Ended P D p.pending w m s :=
  ⟨h.linked, h.pending⟩

/-- A position is kept while names are bound in other scopes. -/
theorem Stands.later {p : Position} {w w' : World} {m m' : Machine} {s s' : Lexical.State}
    {S : Nat → Prop} (h : Stands P D p w m s) (h' : Ended P D p.pending w' m' s')
    (hw : World.Grows S w w') (hS : ¬ S p.scope) (he : m'.environment = m.environment)
    (hc : s'.machine.environment = s.machine.environment) : Stands P D p w' m' s' where
  linked := h'.linked
  matched := he ▸ hc ▸ h.matched.mono hw.le
  enclosed := h.enclosed
  innermost := he ▸ h.innermost
  current i b hb hs := by
    obtain ⟨b₀, hb₀, hs₀, hn⟩ := hw.old hb (hs ▸ hS)
    exact hn ▸ h.current i b₀ hb₀ (hs₀.trans hs)
  pending := h'.pending

namespace Simulated

variable {α β α' β' : Type} {p p₁ p₂ : Position} {w : World} {V V₁ : World → α → β → Prop}
  {V' : World → α' → β' → Prop} {x : Eval α} {y : Lexical β}

theorem bind {f : α → Eval α'} {g : β → Lexical β'} (h : Simulated P D p p₁ w V x y)
    (hp : p₁.scope = p.scope) (hf : ∀ w₁ a b, w ≤ w₁ → V w₁ a b →
      Simulated P D p₁ p₂ w₁ V' (f a) (g b)) :
    Simulated P D p p₂ w V' (x >>= f) (y >>= g) := by
  intro m s hs
  refine (h m s hs).bind fun w₁ a m₁ b s₁ hw ⟨hv, hs₁⟩ => ?_
  refine (hf w₁ a b hw.le hv m₁ s₁ hs₁).weaken (fun n hn => ?_) fun _ _ _ _ _ _ h => h
  rw [hp] at hn
  exact hn.imp id (Nat.le_trans hw.le.scopes)

theorem pure {a : α} {b : β} (h : V w a b) :
    Simulated P D p p w V (Pure.pure a) (Pure.pure b) :=
  fun _ _ hs => ⟨w, .refl _ w, h, hs⟩

theorem fail {d : Diagnostic} : Simulated P D p p₁ w V (Fueled.fail d) (Fueled.fail d) :=
  fun _ _ hs => ⟨rfl, w, w.le_refl, hs.linked⟩

theorem exhausted : Simulated P D p p₁ w V Fueled.exhausted Fueled.exhausted :=
  fun _ _ hs => ⟨rfl, w, w.le_refl, hs.linked⟩

end Simulated

end LoxLang
