import LoxLang.Proofs.Likeness.Lockstep
import LoxLang.Proofs.Relations

/-!
Values that are the same but for the code of their functions, which is alike by one of the
likenesses that are known.
-/

namespace LoxLang

section

variable (K : Likeness → Prop)

/-- Lines that stand for each other by a known likeness. -/
def Lines (n n' : Nat) : Prop :=
  ∃ L, K L ∧ L.line n n'

/-- Closures of like functions in one environment. -/
structure Closure.Like (c c' : Closure) : Prop where
  function : ∃ L, K L ∧ c.function.Like L c.isInitializer c'.function
  environment : c'.environment = c.environment
  isInitializer : c'.isInitializer = c.isInitializer

inductive ClassValue.Like : ClassValue → ClassValue → Prop
  | base {id name members members'} (hm : Table.Rel (Closure.Like K) members members') :
      Like ⟨id, name, none, members⟩ ⟨id, name, none, members'⟩
  | subclass {id name c c' members members'} (hc : Like c c')
      (hm : Table.Rel (Closure.Like K) members members') :
      Like ⟨id, name, some c, members⟩ ⟨id, name, some c', members'⟩

inductive Callable.Like : Callable → Callable → Prop
  | function {id c c'} (h : c.Like K c') : Like (.function id c) (.function id c')
  | class {c c'} (h : c.Like K c') : Like (.class c) (.class c')
  | native {id n} : Like (.native id n) (.native id n)

structure Instance.Like (i i' : Instance) : Prop where
  id : i'.id = i.id
  «class» : i.class.Like K i'.class

inductive Value.Like : Value → Value → Prop
  | nil : Like .nil .nil
  | bool {b} : Like (.bool b) (.bool b)
  | number {x} : Like (.number x) (.number x)
  | string {s} : Like (.string s) (.string s)
  | callable {c c'} (h : c.Like K c') : Like (.callable c) (.callable c')
  | instance {i i'} (h : i.Like K i') : Like (.instance i) (.instance i')
  | array {id} : Like (.array id) (.array id)

inductive Eval.Property.Like : Eval.Property → Eval.Property → Prop
  | value {v v'} (h : v.Like K v') : Like (.value v) (.value v')
  | getter {c c'} (h : c.Like K c') : Like (.getter c) (.getter c')

inductive Flow.Like : Flow → Flow → Prop
  | normal : Like .normal .normal
  | return {v v'} (h : v.Like K v') : Like (.return v) (.return v')
  | break : Like .break .break
  | continue : Like .continue .continue

end

variable {K : Likeness → Prop}

theorem Function.Like.arity_eq {L : Likeness} {isInitializer : Bool} {f f' : Function}
    (h : f.Like L isInitializer f') : f'.parameters.length = f.parameters.length := by
  obtain ⟨name?, parameters, body, line⟩ := f
  obtain ⟨-, _, _, _, _, rfl, -, hp, -⟩ := h
  exact hp.length_eq.symm

theorem Function.Like.line {L : Likeness} {isInitializer : Bool} {f f' : Function}
    (h : f.Like L isInitializer f') : L.line f.line f'.line := by
  obtain ⟨name?, parameters, body, line⟩ := f
  obtain ⟨-, _, _, _, _, rfl, -, -, -, hl⟩ := h
  exact hl

namespace Closure.Like

variable {c c' : Closure}

theorem arity_eq (h : c.Like K c') : c'.arity = c.arity := by
  obtain ⟨L, -, hf⟩ := h.function
  exact hf.arity_eq

theorem displayName_eq (h : c.Like K c') : c'.function.displayName = c.function.displayName := by
  obtain ⟨L, -, hf⟩ := h.function
  exact hf.displayName_eq

end Closure.Like

namespace ClassValue.Like

variable {c c' : ClassValue}

theorem id_eq (h : c.Like K c') : c'.id = c.id := by
  cases h <;> rfl

theorem name_eq (h : c.Like K c') : c'.name = c.name := by
  cases h <;> rfl

/-- What the nearest class in a chain declares is like what the nearest one in the other does. -/
theorem method? (h : c.Like K c') (name : String) :
    Option.Rel (Closure.Like K) (c.method? name) (c'.method? name) := by
  induction h with
  | base hm => exact hm name
  | @subclass _ _ c c' members members' _ hm ih =>
    have hm := hm name
    unfold ClassValue.method?
    generalize members.find? name = f? at hm
    generalize members'.find? name = f'? at hm
    cases hm with
    | none => exact ih
    | some h => exact .some h

theorem getter? (h : c.Like K c') (name : String) :
    Option.Rel (Closure.Like K) (c.getter? name) (c'.getter? name) :=
  h.method? (getterKey name)

end ClassValue.Like

namespace Callable.Like

variable {c c' d d' : Callable}

theorem arity_eq (h : c.Like K c') : c'.arity = c.arity := by
  cases h with
  | function h => exact h.arity_eq
  | native => rfl
  | @«class» c c' h =>
    have hi := h.method? "init"
    show ((c'.method? "init").map Closure.arity).getD 0 =
      ((c.method? "init").map Closure.arity).getD 0
    generalize c.method? "init" = f? at hi
    generalize c'.method? "init" = f'? at hi
    cases hi with
    | none => rfl
    | some h => exact h.arity_eq

theorem text_eq (h : c.Like K c') : c'.text = c.text := by
  cases h with
  | function h => simp [Callable.text, h.displayName_eq]
  | «class» h => exact h.name_eq
  | native => rfl

theorem same_eq (h : c.Like K c') (h' : d.Like K d') : c'.same d' = c.same d := by
  cases h with
  | «class» h =>
    cases h' with
    | «class» h' => simp [Callable.same, h.id_eq, h'.id_eq]
    | _ => rfl
  | _ => cases h' <;> rfl

end Callable.Like

namespace Value.Like

variable {v v' u u' : Value}

theorem ofLiteral (l : Literal) : (Value.ofLiteral l).Like K (.ofLiteral l) := by
  cases l with
  | number => exact .number
  | string => exact .string
  | bool => exact .bool
  | nil => exact .nil

theorem text_eq (h : v.Like K v') : v'.text = v.text := by
  cases h with
  | callable h => exact h.text_eq
  | «instance» h => simp [Value.text, h.class.name_eq]
  | _ => rfl

theorem isTruthy_eq (h : v.Like K v') : v'.isTruthy = v.isTruthy := by
  cases h <;> rfl

theorem natural?_eq (h : v.Like K v') : v'.natural? = v.natural? := by
  cases h <;> rfl

/-- Values that stand for each other are the same objects. -/
theorem same_eq (h : v.Like K v') (h' : u.Like K u') : v'.same u' = v.same u := by
  cases h with
  | callable h =>
    cases h' with
    | callable h' => exact h.same_eq h'
    | _ => rfl
  | «instance» h =>
    cases h' with
    | «instance» h' => simp [Value.same, h.id, h'.id]
    | _ => rfl
  | _ => cases h' <;> rfl

end Value.Like

theorem LogicalOp.decidedBy_of_like (op : LogicalOp) {v v' : Value} (h : v.Like K v') :
    op.decidedBy v' = op.decidedBy v := by
  cases op <;> simp [LogicalOp.decidedBy, h.isTruthy_eq]

/-- Whether all code that is alike by a likeness of `K` is so by one of `K'`. -/
def Likeness.Covered (K K' : Likeness → Prop) : Prop :=
  ∀ L, K L → ∃ L', K' L' ∧ Likeness.Implies (fun _ => True) L L'

section

variable {K' : Likeness → Prop} (hK : Likeness.Covered K K')

include hK

theorem Closure.Like.mono {c c' : Closure} (h : c.Like K c') : c.Like K' c' := by
  obtain ⟨L, hL, hf⟩ := h.function
  obtain ⟨L', hL', himplies⟩ := hK L hL
  exact ⟨⟨L', hL', c.function.like_imp himplies (fun _ _ => trivial) hf⟩, h.environment,
    h.isInitializer⟩

theorem ClassValue.Like.mono {c c' : ClassValue} (h : c.Like K c') : c.Like K' c' := by
  have member : ∀ f f' : Closure, f.Like K f' → f.Like K' f' := fun _ _ h => h.mono hK
  induction h with
  | base hm => exact .base (hm.imp member)
  | subclass _ hm ih => exact .subclass ih (hm.imp member)

theorem Value.Like.mono {v v' : Value} (h : v.Like K v') : v.Like K' v' := by
  cases h with
  | nil => exact .nil
  | bool => exact .bool
  | number => exact .number
  | string => exact .string
  | callable h =>
    cases h with
    | function h => exact .callable (.function (h.mono hK))
    | «class» h => exact .callable (.class (h.mono hK))
    | native => exact .callable .native
  | «instance» h => exact .instance ⟨h.id, h.class.mono hK⟩
  | array => exact .array

end

end LoxLang
