import LoxLang.Proofs.Running.Tasks
import LoxLang.Session

/-!
Runs that go on for longer. With more fuel and a higher limit on its calls a task does the same as
with less, unless it was cut short: then it has printed the beginning of what it prints with more.
-/

namespace LoxLang

namespace Eval

theorem checkDepth_steady (line : Nat) : Steady (checkDepth line) := by
  refine Steady.get.bind fun m => ?_
  split
  · exact .fail rfl
  · exact .pure _

/-- Every task leads from its machine to the one behind it. -/
theorem steadies (fuel : Nat) : Relates (fun x _ => Steady x) fuel fuel := by
  have hcongruence : Congruence (fun x _ => Steady x) := {
    plain := fun h => h.toSteady
    bind := fun h hf => h.bind hf
    within := fun environment h => h.within environment
    nested := fun h => h.nested
    checkDepth := checkDepth_steady }
  refine hcongruence.relates (fun fuel' => ?_) (Nat.le_refl fuel)
  constructor
  all_goals
    intros
    exact .exhausted

end Eval

/-- Whether a run stops only for want of fuel, or of the calls that `k` allows and `n` does not. -/
def Stop.Cut (n k : Nat) (e : Stop) : Prop :=
  e = .outOfFuel ∨ n < k ∧ ∃ line, e = .failed (.stackOverflow line)

/-- The result with at most `n` calls, and the one with at most `k`. -/
inductive Fueled.Prolongs (n k : Nat) {α : Type} :
    EStateM.Result Stop Machine α → EStateM.Result Stop Machine α → Prop
  | ok {a m} (h : m.maxDepth = n) : Prolongs n k (.ok a m) (.ok a (m.limited k))
  | error {e m} (h : m.maxDepth = n) : Prolongs n k (.error e m) (.error e (m.limited k))
  | cut {e m r} (he : e.Cut n k)
      (h : m.console.printed.toList <+: (behind r).console.printed.toList) :
      Prolongs n k (.error e m) r

namespace Eval

variable {n k : Nat} {α β : Type}

/-- A computation with at most `k` calls goes on from where one with at most `n` is cut short. -/
structure Outlasts (n k : Nat) (x y : Eval α) : Prop where
  steady : Steady y
  prolongs : ∀ m : Machine, m.maxDepth = n → Fueled.Prolongs n k (x m) (y (m.limited k))

namespace Outlasts

theorem plain {x : Eval α} (h : Plain x) : Outlasts n k x x := by
  refine ⟨h.toSteady, fun m hm => ?_⟩
  have hlimited := h.limited m k
  have hleads := h.leads m
  rw [hlimited]
  cases hx : x m with
  | ok a m₁ =>
    rw [hx] at hleads
    exact .ok (hleads.maxDepth.trans hm)
  | error e m₁ =>
    rw [hx] at hleads
    exact .error (hleads.maxDepth.trans hm)

/-- What is printed first stays in front of what comes behind. -/
theorem bind {x y : Eval α} {f g : α → Eval β} (h : Outlasts n k x y)
    (hf : ∀ a, Outlasts n k (f a) (g a)) : Outlasts n k (x >>= f) (y >>= g) := by
  refine ⟨h.steady.bind fun a => (hf a).steady, fun m hm => ?_⟩
  have hp := h.prolongs m hm
  generalize hx : x m = r at hp
  generalize hy : y (m.limited k) = r' at hp
  cases hp with
  | ok hm₁ =>
    rw [Fueled.bind_ok hx, Fueled.bind_ok hy]
    exact (hf _).prolongs _ hm₁
  | error hm₁ =>
    rw [Fueled.bind_error hx, Fueled.bind_error hy]
    exact .error hm₁
  | cut he hprinted =>
    rw [Fueled.bind_error hx]
    refine .cut he ?_
    cases r' with
    | ok a m₁ =>
      rw [Fueled.bind_ok hy]
      exact hprinted.trans ((hf a).steady.leads m₁).printed
    | error e m₁ =>
      rw [Fueled.bind_error hy]
      exact hprinted

theorem within {x y : Eval α} (environment : Environment) (h : Outlasts n k x y) :
    Outlasts n k (Eval.within environment x) (Eval.within environment y) := by
  refine ⟨h.steady.within environment, fun m hm => ?_⟩
  have hp := h.prolongs { m with environment := environment } hm
  unfold Eval.within
  dsimp only
  generalize x { m with environment := environment } = r at hp
  have hy : ({ m.limited k with environment := environment } : Machine) =
    Machine.limited { m with environment := environment } k := rfl
  rw [hy]
  generalize y (Machine.limited { m with environment := environment } k) = r' at hp
  cases hp with
  | ok hm₁ => exact .ok hm₁
  | error hm₁ => exact .error hm₁
  | cut he hprinted =>
    refine .cut he ?_
    cases r' with
    | ok => exact hprinted
    | error => exact hprinted

theorem nested {x y : Eval α} (h : Outlasts n k x y) :
    Outlasts n k (Eval.nested x) (Eval.nested y) := by
  refine ⟨h.steady.nested, fun m hm => ?_⟩
  have hp := h.prolongs { m with depth := m.depth + 1 } hm
  unfold Eval.nested
  generalize x { m with depth := m.depth + 1 } = r at hp
  have hy : ({ m.limited k with depth := (m.limited k).depth + 1 } : Machine) =
    Machine.limited { m with depth := m.depth + 1 } k := rfl
  rw [hy]
  generalize y (Machine.limited { m with depth := m.depth + 1 } k) = r' at hp
  cases hp with
  | ok hm₁ => exact .ok hm₁
  | error hm₁ => exact .error hm₁
  | cut he hprinted =>
    refine .cut he ?_
    cases r' with
    | ok => exact hprinted
    | error => exact hprinted

/-- The one step that asks for the limit. -/
theorem checkDepth (hn : n ≤ k) (line : Nat) :
    Outlasts n k (Eval.checkDepth line) (Eval.checkDepth line) := by
  refine ⟨checkDepth_steady line, fun m hm => ?_⟩
  have hcheck : ∀ m : Machine, Eval.checkDepth line m =
      if m.maxDepth ≤ m.depth then .error (.failed (.stackOverflow line)) m else .ok () m := by
    intro m
    unfold Eval.checkDepth
    rw [Fueled.bind_get]
    split <;> rfl
  rw [hcheck, hcheck, hm]
  show Fueled.Prolongs n k _ (if k ≤ m.depth then _ else _)
  by_cases hk : k ≤ m.depth
  · rw [if_pos (Nat.le_trans hn hk), if_pos hk]
    exact .error hm
  · rw [if_neg hk]
    split
    · exact .cut (.inr ⟨by omega, line, rfl⟩) List.prefix_rfl
    · exact .ok hm

/-- With the same limit a run is cut short by the fuel only. -/
theorem same {x y : Eval α} (h : Outlasts n n x y) {m : Machine} (hm : m.maxDepth = n)
    {r : EStateM.Result Stop Machine α} (hx : x m = r) (hr : ∀ m₁, r ≠ .error .outOfFuel m₁) :
    y m = r := by
  have hp := h.prolongs m hm
  have hsame : ∀ {m₁ : Machine}, m₁.maxDepth = n → m₁.limited n = m₁ := by
    rintro m₁ rfl
    rfl
  rw [hsame hm, hx] at hp
  generalize y m = r' at hp
  cases hp with
  | ok hm₁ => rw [hsame hm₁]
  | error hm₁ => rw [hsame hm₁]
  | cut he _ =>
    rcases he with rfl | ⟨hlt, -⟩
    · exact (hr _ rfl).elim
    · exact (Nat.lt_irrefl n hlt).elim

/-- Without fuel nothing is printed. -/
theorem exhausted {y : Eval α} (h : Steady y) : Outlasts n k Fueled.exhausted y :=
  ⟨h, fun m _ => .cut (.inl rfl) (h.leads (m.limited k)).printed⟩

end Outlasts

/-- On more fuel and with a higher limit every task does as much at least. -/
theorem outlasts (hn : n ≤ k) {fuel fuel' : Nat} (h : fuel ≤ fuel') :
    Relates (Outlasts n k) fuel fuel' := by
  have hcongruence : Congruence (Outlasts n k) := {
    plain := .plain
    bind := .bind
    within := .within
    nested := .nested
    checkDepth := .checkDepth hn }
  refine hcongruence.relates (fun fuel' => ?_) h
  have hs := steadies fuel'
  exact {
    evaluate := fun e => .exhausted (hs.evaluate e)
    evaluateAll := fun es => .exhausted (hs.evaluateAll es)
    readProperty := fun property line => .exhausted (hs.readProperty property line)
    call := fun c vs line => .exhausted (hs.call c vs line)
    run := fun c vs => .exhausted (hs.run c vs)
    construct := fun c vs => .exhausted (hs.construct c vs)
    execute := fun s => .exhausted (hs.execute s)
    loop := fun condition body increment? => .exhausted (hs.loop condition body increment?)
    executeAll := fun ss => .exhausted (hs.executeAll ss) }

end Eval

end LoxLang
