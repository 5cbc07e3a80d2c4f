import LoxLang.Proofs.Lexical.World
import LoxLang.Proofs.Relations

/-!
Values of a machine and values of a lexical run that stand for each other. They differ only in
the environments of closures, which match. What is known of the mentions in their code is a
parameter.
-/

namespace LoxLang

/-- What the surroundings promise of the scopes: `this` is bound in a class, and `super` one scope
further out in a subclass. -/
def Enclosed (around : Surroundings) (frames : Frames) : Prop :=
  match around.class with
  | .none => True
  | .base => ∃ d, Scoping.distance? "this" frames = some d
  | .subclass => ∃ d, Scoping.distance? "this" frames = some d ∧
    Scoping.distance? "super" frames = some (d + 1)

section

variable (P : Mention → Prop) (w : World)

/-- Closures of one function, whose mentions are known where the function stands inside `inner` of
the scopes that its environment matches. -/
structure ClosureRelated (inner : Frames → Frames) (c c' : Closure) : Prop where
  function : c'.function = c.function
  isInitializer : c'.isInitializer = c.isInitializer
  formed : c.function.Formed
  matched : ∃ around kind frames, Matches w frames c.environment c'.environment ∧
    Enclosed around (inner frames) ∧
    (∀ m ∈ c.function.mentions around kind (inner frames), P m) ∧
    (c.isInitializer = true → Scoping.distance? "this" (inner frames) = some 0)

/-- Functions that can be called. -/
abbrev FunctionRelated : Closure → Closure → Prop :=
  ClosureRelated P w fun frames => frames

/-- Methods, whose `this` is yet to be bound. -/
abbrev MethodRelated : Closure → Closure → Prop :=
  ClosureRelated P w (Frames.within · "this")

/-- Tables of methods under the same names. -/
def MembersRelated (t t' : Table Closure) : Prop :=
  ∀ name, Option.Rel (MethodRelated P w) (t.find? name) (t'.find? name)

/-- Classes of one declaration. -/
inductive ClassRelated : ClassValue → ClassValue → Prop
  | base {id name members members'} (hm : MembersRelated P w members members')
      (hg : ∀ name c, members.find? (getterKey name) = some c → c.function.parameters = []) :
      ClassRelated ⟨id, name, none, members⟩ ⟨id, name, none, members'⟩
  | subclass {id name c c' members members'} (hc : ClassRelated c c')
      (hm : MembersRelated P w members members')
      (hg : ∀ name c, members.find? (getterKey name) = some c → c.function.parameters = []) :
      ClassRelated ⟨id, name, some c, members⟩ ⟨id, name, some c', members'⟩

inductive CallableRelated : Callable → Callable → Prop
  | function {id c c'} (h : FunctionRelated P w c c') :
      CallableRelated (.function id c) (.function id c')
  | class {c c'} (h : ClassRelated P w c c') : CallableRelated (.class c) (.class c')
  | native {id n} : CallableRelated (.native id n) (.native id n)

structure InstanceRelated (i i' : Instance) : Prop where
  id : i'.id = i.id
  «class» : ClassRelated P w i.class i'.class

inductive ValueRelated : Value → Value → Prop
  | nil : ValueRelated .nil .nil
  | bool {b} : ValueRelated (.bool b) (.bool b)
  | number {x} : ValueRelated (.number x) (.number x)
  | string {s} : ValueRelated (.string s) (.string s)
  | callable {c c'} (h : CallableRelated P w c c') : ValueRelated (.callable c) (.callable c')
  | instance {i i'} (h : InstanceRelated P w i i') : ValueRelated (.instance i) (.instance i')
  | array {id} : ValueRelated (.array id) (.array id)

end

variable {P P' : Mention → Prop} {w w' : World}

theorem ClosureRelated.mono (hP : ∀ m, P m → P' m) (hw : w ≤ w') {inner : Frames → Frames}
    {c c' : Closure} (h : ClosureRelated P w inner c c') : ClosureRelated P' w' inner c c' := by
  obtain ⟨around, kind, frames, hm, he, hk, hi⟩ := h.matched
  exact ⟨h.function, h.isInitializer, h.formed, around, kind, frames, hm.mono hw, he,
    fun m hm => hP m (hk m hm), hi⟩

theorem MembersRelated.mono (hP : ∀ m, P m → P' m) (hw : w ≤ w') {t t' : Table Closure}
    (h : MembersRelated P w t t') : MembersRelated P' w' t t' :=
  fun name => rel_imp (h name) fun _ _ => ClosureRelated.mono hP hw

theorem ClassRelated.mono (hP : ∀ m, P m → P' m) (hw : w ≤ w') {c c' : ClassValue}
    (h : ClassRelated P w c c') : ClassRelated P' w' c c' := by
  induction h with
  | base hm hg => exact .base (hm.mono hP hw) hg
  | subclass _ hm hg ih => exact .subclass ih (hm.mono hP hw) hg

theorem CallableRelated.mono (hP : ∀ m, P m → P' m) (hw : w ≤ w') {c c' : Callable}
    (h : CallableRelated P w c c') : CallableRelated P' w' c c' := by
  cases h with
  | function h => exact .function (h.mono hP hw)
  | «class» h => exact .class (h.mono hP hw)
  | native => exact .native

theorem InstanceRelated.mono (hP : ∀ m, P m → P' m) (hw : w ≤ w') {i i' : Instance}
    (h : InstanceRelated P w i i') : InstanceRelated P' w' i i' :=
  ⟨h.id, h.class.mono hP hw⟩

theorem ValueRelated.mono (hP : ∀ m, P m → P' m) (hw : w ≤ w') {v v' : Value}
    (h : ValueRelated P w v v') : ValueRelated P' w' v v' := by
  cases h with
  | nil => exact .nil
  | bool => exact .bool
  | number => exact .number
  | string => exact .string
  | callable h => exact .callable (h.mono hP hw)
  | «instance» h => exact .instance (h.mono hP hw)
  | array => exact .array

theorem ClosureRelated.arity_eq {inner : Frames → Frames} {c c' : Closure}
    (h : ClosureRelated P w inner c c') : c'.arity = c.arity :=
  congrArg (·.parameters.length) h.function

namespace ClassRelated

variable {c c' : ClassValue}

theorem id_eq (h : ClassRelated P w c c') : c'.id = c.id := by
  cases h <;> rfl

theorem name_eq (h : ClassRelated P w c c') : c'.name = c.name := by
  cases h <;> rfl

/-- Related classes have related methods. -/
theorem method? (h : ClassRelated P w c c') (name : String) :
    Option.Rel (MethodRelated P w) (c.method? name) (c'.method? name) := by
  induction h with
  | base hm _ => exact hm name
  | @subclass _ _ c c' members members' _ hm _ ih =>
    have hm := hm name
    unfold ClassValue.method?
    generalize members.find? name = f at hm
    generalize members'.find? name = f' at hm
    cases hm with
    | none => exact ih
    | some h => exact .some h

/-- A getter has no parameters. -/
theorem parameters_getter? (h : ClassRelated P w c c') {name : String} {f : Closure}
    (hf : c.getter? name = some f) : f.function.parameters = [] := by
  unfold ClassValue.getter? at hf
  induction h with
  | base _ hg => exact hg name f hf
  | @subclass _ _ c c' members members' _ _ hg ih =>
    unfold ClassValue.method? at hf
    split at hf
    · rename_i hfind
      cases hf
      exact hg name _ hfind
    · exact ih hf

/-- Related classes have related getters, which have no parameters. -/
theorem getter? (h : ClassRelated P w c c') (name : String) :
    Option.Rel (fun f f' => MethodRelated P w f f' ∧ f.function.parameters = [])
      (c.getter? name) (c'.getter? name) := by
  have hm := h.method? (getterKey name)
  have hp : ∀ f, c.getter? name = some f → f.function.parameters = [] :=
    fun _ => h.parameters_getter?
  unfold ClassValue.getter? at hp ⊢
  generalize c.method? (getterKey name) = f at hm hp
  generalize c'.method? (getterKey name) = f' at hm
  cases hm with
  | none => exact .none
  | some h => exact .some ⟨h, hp _ rfl⟩

end ClassRelated

theorem CallableRelated.arity_eq {c c' : Callable} (h : CallableRelated P w c c') :
    c'.arity = c.arity := by
  cases h with
  | function h => exact h.arity_eq
  | native => rfl
  | @«class» c c' h =>
    have hi := h.method? "init"
    show ((c'.method? "init").map Closure.arity).getD 0 =
      ((c.method? "init").map Closure.arity).getD 0
    generalize c.method? "init" = f at hi
    generalize c'.method? "init" = f' at hi
    cases hi with
    | none => rfl
    | some h => exact h.arity_eq

theorem CallableRelated.text_eq {c c' : Callable} (h : CallableRelated P w c c') :
    c'.text = c.text := by
  cases h with
  | function h => simp [Callable.text, h.function]
  | «class» h => exact h.name_eq
  | native => rfl

theorem CallableRelated.same_eq {c c' d d' : Callable} (h : CallableRelated P w c c')
    (h' : CallableRelated P w d d') : c'.same d' = c.same d := by
  cases h with
  | «class» h =>
    cases h' with
    | «class» h' => simp [Callable.same, h.id_eq, h'.id_eq]
    | _ => rfl
  | _ => cases h' <;> rfl

namespace ValueRelated

variable {v v' u u' : Value}

theorem text_eq (h : ValueRelated P w v v') : v'.text = v.text := by
  cases h with
  | callable h => exact h.text_eq
  | «instance» h => simp [Value.text, h.class.name_eq]
  | _ => rfl

theorem isTruthy_eq (h : ValueRelated P w v v') : v'.isTruthy = v.isTruthy := by
  cases h <;> rfl

/-- Values that stand for each other are the same objects. -/
theorem same_eq (h : ValueRelated P w v v') (h' : ValueRelated P w u u') :
    v'.same u' = v.same u := by
  cases h with
  | callable h =>
    cases h' with
    | callable h' => exact h.same_eq h'
    | _ => rfl
  | «instance» h =>
    cases h' with
    | «instance» h' => simp [Value.same, h.id, h'.id]
    | _ => rfl
  | _ => cases h' <;> rfl

end ValueRelated

end LoxLang
