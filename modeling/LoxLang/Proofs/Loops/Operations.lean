import LoxLang.Proofs.Fuel
import LoxLang.Proofs.Loops.Values

/-!
The operations of running programs on desugared values. They do the same there, and all but
declarations leave the environment as it is.
-/

namespace LoxLang

/-- A result with its value and its state replaced by their images. -/
def Fueled.image {σ α β : Type} (T : σ → σ) (g : α → β) :
    EStateM.Result Stop σ α → EStateM.Result Stop σ β
  | .ok a s => .ok (g a) (T s)
  | .error e s => .error e (T s)

/-- The state of a result. -/
def Fueled.left {σ α : Type} : EStateM.Result Stop σ α → σ
  | .ok _ s | .error _ s => s

/-- On the image of a state, `y` gives the image of what `x` gives on the state. What `E` reads off
a state is the same behind `x`. -/
structure Fueled.Images {σ γ α β : Type} (T : σ → σ) (E : σ → γ) (g : α → β) (x : Fueled σ α)
    (y : Fueled σ β) : Prop where
  image : ∀ s, y (T s) = image T g (x s)
  kept : ∀ s, E (left (x s)) = E s

namespace Fueled.Images

variable {σ γ α β α' β' : Type} {T : σ → σ} {E : σ → γ} {g : α → β} {g' : α' → β'}
  {x : Fueled σ α} {y : Fueled σ β} {f : α → Fueled σ α'} {f' : β → Fueled σ β'}

theorem pure (a : α) : Images T E g (Pure.pure a) (Pure.pure (g a)) :=
  ⟨fun _ => rfl, fun _ => rfl⟩

theorem fail (d : Diagnostic) : Images T E g (Fueled.fail d) (Fueled.fail d) :=
  ⟨fun _ => rfl, fun _ => rfl⟩

theorem bind (h : Images T E g x y) (hf : ∀ a, Images T E g' (f a) (f' (g a))) :
    Images T E g' (x >>= f) (y >>= f') where
  image s := by
    have hi := h.image s
    cases hx : x s with
    | ok a s₁ =>
      rw [hx] at hi
      rw [Fueled.bind_ok hx, Fueled.bind_ok hi]
      exact (hf a).image s₁
    | error e s₁ =>
      rw [hx] at hi
      rw [Fueled.bind_error hx, Fueled.bind_error hi]
      rfl
  kept s := by
    have hk := h.kept s
    cases hx : x s with
    | ok a s₁ =>
      rw [hx] at hk
      rw [Fueled.bind_ok hx]
      exact ((hf a).kept s₁).trans hk
    | error e s₁ =>
      rw [hx] at hk
      rw [Fueled.bind_error hx]
      exact hk

theorem look {f : σ → Fueled σ α'} {f' : σ → Fueled σ β'}
    (hf : ∀ s, Images T E g' (f s) (f' (T s))) :
    Images T E g' (get >>= f) (get >>= f') :=
  ⟨fun s => (hf s).image s, fun s => (hf s).kept s⟩

/-- One step that gives a value and changes the state. -/
theorem step {f : σ → α × σ} {f' : σ → β × σ}
    (hf : ∀ s, f' (T s) = (g (f s).1, T (f s).2)) (hE : ∀ s, E (f s).2 = E s) :
    Images T E g (modifyGet f) (modifyGet f') where
  image s := by
    show EStateM.Result.ok (f' (T s)).1 (f' (T s)).2 = _
    rw [hf]
    rfl
  kept s := hE s

theorem change {f f' : σ → σ} (hf : ∀ s, f' (T s) = T (f s)) (hE : ∀ s, E (f s) = E s) :
    Images T E id (modify f) (modify f') :=
  .step (fun s => congrArg (Prod.mk ()) (hf s)) hE

/-- Less is kept. -/
theorem mono {γ' : Type} {E' : σ → γ'} (h : Images T E g x y)
    (hE : ∀ s s', E s = E s' → E' s = E' s') : Images T E' g x y :=
  ⟨h.image, fun s => hE _ _ (h.kept s)⟩

end Fueled.Images

section

open Fueled (Images)

variable (p : Stmt → Bool)

/-- The same operation of a machine, on desugared values. -/
abbrev Eval.Images {α β : Type} (g : α → β) (x : Eval α) (y : Eval β) : Prop :=
  Fueled.Images (Machine.desugared p) Machine.environment g x y

variable {p}

namespace Eval

theorem ofExcept_images {α β : Type} {g : α → β} {r : Except Diagnostic α}
    {r' : Except Diagnostic β} (h : r' = r.map g) :
    Eval.Images p g (ofExcept r) (ofExcept r') := by
  subst h
  cases r with
  | ok a => exact .pure a
  | error d => exact .fail d

theorem freshId_images : Eval.Images p id freshId freshId :=
  .step (fun _ => rfl) fun _ => rfl

theorem newFunction_images (c : Closure) :
    Eval.Images p (Callable.desugared p) (newFunction c) (newFunction (c.desugared p)) :=
  freshId_images.bind fun id => .pure (Callable.function id c)

theorem newNative_images (n : Native) :
    Eval.Images p (Value.desugared p) (newNative n) (newNative n) :=
  freshId_images.bind fun id => .pure (Value.callable (.native id n))

theorem newInstance_images (c : ClassValue) :
    Eval.Images p (Instance.desugared p) (newInstance c) (newInstance (c.desugared p)) := by
  refine .step (fun m => ?_) fun _ => rfl
  simp [Machine.desugared, Instance.desugared]

theorem field?_images (i : Instance) (name : String) :
    Eval.Images p (Option.map (Value.desugared p)) (field? i name)
      (field? (i.desugared p) name) := by
  refine .look fun m => ?_
  have same : ((m.desugared p).fields[(i.desugared p).id]?.bind (·.find? name)) =
      (m.fields[i.id]?.bind (·.find? name)).map (Value.desugared p) := by
    simp only [Machine.desugared, Instance.desugared, Array.getElem?_map]
    cases m.fields[i.id]? with
    | none => rfl
    | some t => exact t.find?_map _ name
  rw [same]
  exact .pure _

theorem setField_images (i : Instance) (name : String) (value : Value) :
    Eval.Images p id (setField i name value)
      (setField (i.desugared p) name (value.desugared p)) := by
  refine .change (fun m => ?_) fun _ => rfl
  have fields : (m.fields.modify i.id (·.insert name value)).map (Table.map (Value.desugared p)) =
      (m.desugared p).fields.modify i.id (·.insert name (value.desugared p)) :=
    map_modify (fun t => t.map_insert _ name value) m.fields i.id
  exact congrArg (fun fields => { m.desugared p with fields := fields }) fields.symm

theorem callableOf_images (callee : Value) (count line : Nat) :
    Eval.Images p (Callable.desugared p) (callableOf callee count line)
      (callableOf (callee.desugared p) count line) := by
  cases callee with
  | callable c =>
    simp only [Value.desugared, callableOf, c.arity_desugared]
    split
    · exact .fail _
    · exact .pure c
  | _ => exact .fail _

theorem instanceOf_images (object : Value) (name : Name) :
    Eval.Images p (Instance.desugared p) (instanceOf object name)
      (instanceOf (object.desugared p) name) := by
  cases object with
  | «instance» i => exact .pure i
  | _ => exact .fail _

theorem checkDepth_images (line : Nat) :
    Eval.Images p id (checkDepth line) (checkDepth line) := by
  refine .look fun m => ?_
  rw [m.maxDepth_desugared, m.depth_desugared]
  split
  · exact .fail _
  · exact .pure ()

theorem print_images (text : String) : Eval.Images p id (print text) (print text) := by
  refine .look fun m => ?_
  rw [m.console_desugared]
  cases m.console.sink.writeRefusal? with
  | some reason => exact .fail _
  | none => exact .change (fun _ => rfl) fun _ => rfl

theorem readLine_images : Eval.Images p id readLine readLine :=
  .step (fun _ => rfl) fun _ => rfl

theorem readClock_images : Eval.Images p id readClock readClock :=
  .step (fun _ => rfl) fun _ => rfl

theorem reserve_images (length : Nat) : Eval.Images p id (reserve length) (reserve length) :=
  .step (fun _ => rfl) fun _ => rfl

theorem elements_images (array : Nat) :
    Eval.Images p (Array.map (Value.desugared p)) (elements array) (elements array) := by
  refine .look fun m => ?_
  have same : (m.desugared p).arrays[array]?.getD #[] =
      (m.arrays[array]?.getD #[]).map (Value.desugared p) := by
    simp only [Machine.desugared, Array.getElem?_map]
    cases m.arrays[array]? <;> simp
  rw [same]
  exact .pure _

theorem placeIn_images (length : Nat) (index : Value) (line : Nat) :
    Eval.Images p id (placeIn length index line) (placeIn length (index.desugared p) line) := by
  cases index with
  | number x =>
    simp only [placeIn, Value.desugared]
    cases ((Value.number x).natural?.filter (· < length)) with
    | none => exact .fail _
    | some place => exact .pure place
  | _ => exact .fail _

theorem newArray_images (length : Value) (line : Nat) :
    Eval.Images p (Value.desugared p) (newArray length line)
      (newArray (length.desugared p) line) := by
  simp only [newArray, Value.natural?_desugared]
  cases length.natural? with
  | none => exact .fail _
  | some n =>
    refine (reserve_images n).bind fun granted => ?_
    cases granted with
    | true =>
      refine .step (fun m => ?_) fun _ => rfl
      simp [Machine.desugared, Value.desugared]
    | false => exact .fail _

theorem arrayGet_images (array : Nat) (index : Value) (line : Nat) :
    Eval.Images p (Value.desugared p) (arrayGet array index line)
      (arrayGet array (index.desugared p) line) := by
  refine (elements_images array).bind fun elements => ?_
  rw [Array.size_map]
  refine (placeIn_images elements.size index line).bind fun place => ?_
  have same : (elements.map (Value.desugared p))[place]?.getD .nil =
      (elements[place]?.getD .nil).desugared p := by
    rw [Array.getElem?_map]
    cases elements[place]? <;> rfl
  show Eval.Images p _ _ (Pure.pure ((elements.map (Value.desugared p))[place]?.getD .nil))
  rw [same]
  exact .pure _

/-- The arrays behind a change of one of them. -/
theorem desugared_modify (m : Machine) (array : Nat) {f f' : Array Value → Array Value}
    (hf : ∀ es, f' (es.map (Value.desugared p)) = (f es).map (Value.desugared p)) :
    { m.desugared p with arrays := (m.desugared p).arrays.modify array f' } =
      ({ m with arrays := m.arrays.modify array f } : Machine).desugared p := by
  have arrays : (m.arrays.modify array f).map (Array.map (Value.desugared p)) =
      (m.desugared p).arrays.modify array f' :=
    map_modify (fun es => (hf es).symm) m.arrays array
  exact congrArg (fun arrays => { m.desugared p with arrays := arrays }) arrays.symm

theorem arraySet_images (array : Nat) (index value : Value) (line : Nat) :
    Eval.Images p id (arraySet array index value line)
      (arraySet array (index.desugared p) (value.desugared p) line) := by
  refine (elements_images array).bind fun elements => ?_
  rw [Array.size_map]
  refine (placeIn_images elements.size index line).bind fun place => ?_
  refine .change (fun m => desugared_modify m array fun es => ?_) fun _ => rfl
  simp

theorem arrayCopy_images (array : Nat) (target : Value) (line : Nat) :
    Eval.Images p id (arrayCopy array target line)
      (arrayCopy array (target.desugared p) line) := by
  cases target with
  | array other =>
    refine (elements_images array).bind fun source => ?_
    refine (elements_images other).bind fun elements => ?_
    simp only [Array.size_map]
    split
    · exact .fail _
    · refine .change (fun m => desugared_modify m other fun es => ?_) fun _ => rfl
      simp [overwritten]
  | _ => exact .fail _

theorem arrayProperty_images (array : Nat) (name : Name) :
    Eval.Images p (Value.desugared p) (arrayProperty array name) (arrayProperty array name) := by
  unfold arrayProperty
  split
  · refine (elements_images array).bind fun elements => ?_
    rw [Array.size_map]
    exact .pure (Value.number _)
  · exact newNative_images _
  · exact newNative_images _
  · exact newNative_images _
  · exact .fail _

theorem wrongArity_images {line : Nat} (n : Native) (arguments : List Value) :
    Eval.Images p (Value.desugared p) (failAt line (.wrongArity n.arity arguments.length))
      (failAt line (.wrongArity n.arity (arguments.map (Value.desugared p)).length)) := by
  rw [List.length_map]
  exact .fail _

theorem runNative_images (n : Native) (arguments : List Value) (line : Nat) :
    Eval.Images p (Value.desugared p) (runNative n arguments line)
      (runNative n (arguments.map (Value.desugared p)) line) := by
  cases n with
  | clock => exact readClock_images.bind fun n => .pure (Value.number _)
  | input =>
    refine readLine_images.bind fun line? => ?_
    rcases line? with reason | _ | text
    · exact .fail _
    · exact .pure Value.nil
    · exact .pure (Value.string text)
  | array =>
    rcases arguments with _ | ⟨length, _ | ⟨_, rest⟩⟩
    · exact .fail _
    · exact newArray_images length line
    · exact wrongArity_images .array (_ :: _ :: rest)
  | arrayGet array =>
    rcases arguments with _ | ⟨index, _ | ⟨_, rest⟩⟩
    · exact .fail _
    · exact arrayGet_images array index line
    · exact wrongArity_images (.arrayGet array) (_ :: _ :: rest)
  | arraySet array =>
    rcases arguments with _ | ⟨index, _ | ⟨value, _ | ⟨_, rest⟩⟩⟩
    · exact .fail _
    · exact .fail _
    · exact (arraySet_images array index value line).bind fun _ => .pure Value.nil
    · exact wrongArity_images (.arraySet array) (_ :: _ :: _ :: rest)
  | arrayCopy array =>
    rcases arguments with _ | ⟨target, _ | ⟨_, rest⟩⟩
    · exact .fail _
    · exact (arrayCopy_images array target line).bind fun _ => .pure Value.nil
    · exact wrongArity_images (.arrayCopy array) (_ :: _ :: rest)

end Eval

theorem UnaryOp.apply_desugared (op : UnaryOp) (line : Nat) (v : Value) :
    op.apply line (v.desugared p) = (op.apply line v).map (Value.desugared p) := by
  cases op with
  | not =>
    simp only [UnaryOp.apply, v.isTruthy_desugared]
    rfl
  | negate => cases v <;> rfl

theorem BinaryOp.onNumbers_desugared (line : Nat) (v w : Value) {f : Float → Float → Value}
    (hf : ∀ a b, (f a b).desugared p = f a b) :
    onNumbers line (v.desugared p) (w.desugared p) f =
      (onNumbers line v w f).map (Value.desugared p) := by
  cases v <;> cases w <;> try rfl
  exact congrArg Except.ok (hf _ _).symm

theorem BinaryOp.apply_desugared (op : BinaryOp) (line : Nat) (v w : Value) :
    op.apply line (v.desugared p) (w.desugared p) =
      (op.apply line v w).map (Value.desugared p) := by
  cases op with
  | add => cases v <;> cases w <;> rfl
  | divide =>
    cases v <;> cases w <;> try rfl
    simp only [BinaryOp.apply, quotient, Value.desugared]
    split <;> rfl
  | equal | notEqual =>
    simp only [BinaryOp.apply, Value.same_desugared]
    rfl
  | _ => exact onNumbers_desugared line v w fun _ _ => rfl

theorem LogicalOp.decidedBy_desugared (op : LogicalOp) (v : Value) :
    op.decidedBy (v.desugared p) = op.decidedBy v := by
  cases op <;> simp [LogicalOp.decidedBy]

namespace Lexical

variable (p)

/-- The same operation beside cells, on desugared values. -/
abbrev Images {α β : Type} (g : α → β) (x : Lexical α) (y : Lexical β) : Prop :=
  Fueled.Images (State.desugared p) (fun s => s.machine.environment) g x y

/-- The same operation, which can change the environment. -/
abbrev Reaching {α β : Type} (g : α → β) (x : Lexical α) (y : Lexical β) : Prop :=
  Fueled.Images (State.desugared p) (fun _ => ()) g x y

variable {p}

theorem Images.reaching {α β : Type} {g : α → β} {x : Lexical α} {y : Lexical β}
    (h : Lexical.Images p g x y) : Reaching p g x y :=
  h.mono fun _ _ _ => rfl

theorem lift_images {α β : Type} {g : α → β} {x : Eval α} {y : Eval β}
    (h : Eval.Images p g x y) : Lexical.Images p g (lift x) (lift y) where
  image s := by
    have hi : y (s.desugared p).machine = _ := h.image s.machine
    unfold lift
    rw [hi]
    cases x s.machine <;> rfl
  kept s := by
    have hk := h.kept s.machine
    unfold lift
    cases hx : x s.machine <;> rw [hx] at hk <;> exact hk

theorem newCell_images (name : String) (value? : Option Value) :
    Lexical.Images p id (newCell name value?) (newCell name (value?.map (Value.desugared p))) := by
  refine .step (fun s => ?_) fun _ => rfl
  simp [State.desugared, Cell.desugared]

theorem setCell_images (cell : Nat) (value : Value) :
    Lexical.Images p id (setCell cell value) (setCell cell (value.desugared p)) := by
  refine .change (fun s => ?_) fun _ => rfl
  have stored : ∀ c : Cell, ({ c with value? := some value } : Cell).desugared p =
      { c.desugared p with value? := some (value.desugared p) } := fun _ => rfl
  have cells : (s.cells.modify cell fun c => { c with value? := some value }).map
      (Cell.desugared p) = (s.desugared p).cells.modify cell
        (fun c => { c with value? := some (value.desugared p) }) :=
    map_modify stored s.cells cell
  exact congrArg (State.mk _) cells.symm

theorem valueOf_images (cell : Nat) (name : Name) :
    Lexical.Images p (Value.desugared p) (valueOf cell name) (valueOf cell name) := by
  refine .look fun s => ?_
  have same : (s.desugared p).cells[cell]?.bind Cell.value? =
      (s.cells[cell]?.bind Cell.value?).map (Value.desugared p) := by
    rw [State.desugared, Array.getElem?_map]
    cases s.cells[cell]? <;> rfl
  rw [same]
  cases s.cells[cell]?.bind Cell.value? with
  | none => exact .fail _
  | some value => exact .pure value

theorem readVariable_images (name : Name) :
    Lexical.Images p (Value.desugared p) (readVariable name) (readVariable name) := by
  refine .look fun s => ?_
  rw [State.cell?_desugared, State.machine_desugared, Machine.environment_desugared]
  cases s.cell? s.machine.environment name.text with
  | some cell => exact valueOf_images cell name
  | none => exact lift_images (Eval.ofExcept_images (s.machine.scopes.read_desugared _ name))

theorem put_images (scope : Nat) (name : String) (value : Value) : Eval.Images p id
    (modify fun m => { m with scopes := m.scopes.put scope name value })
    (modify fun m => { m with scopes := m.scopes.put scope name (value.desugared p) }) := by
  refine .change (fun m => ?_) fun _ => rfl
  exact congrArg (fun scopes => { m.desugared p with scopes := scopes })
    (m.scopes.desugared_put scope name value).symm

theorem writeVariable_images (name : Name) (value : Value) :
    Lexical.Images p id (writeVariable name value) (writeVariable name (value.desugared p)) := by
  refine .look fun s => ?_
  rw [State.cell?_desugared, State.machine_desugared, Machine.environment_desugared]
  cases s.cell? s.machine.environment name.text with
  | some cell => exact (valueOf_images cell name).bind fun _ => setCell_images cell value
  | none =>
    refine lift_images (Fueled.Images.bind (g := id) (Eval.ofExcept_images ?_) fun scope =>
      put_images scope name.text value)
    show (s.machine.scopes.desugared p).target globalEnvironment name = _
    rw [Scopes.target_desugared]
    cases s.machine.scopes.target globalEnvironment name <;> rfl

theorem declare_reaching (place : Place) (name : String) :
    Reaching p id (declare place name) (declare place name) := by
  cases place with
  | outside => exact .pure none
  | inside =>
    refine (newCell_images name none).reaching.bind fun cell => ?_
    exact Fueled.Images.bind (.change (fun _ => rfl) fun _ => rfl) fun _ => .pure (some cell)

theorem define_images (cell? : Option Nat) (name : String) (value : Value) :
    Lexical.Images p id (define cell? name value) (define cell? name (value.desugared p)) := by
  cases cell? with
  | some cell => exact setCell_images cell value
  | none =>
    refine .change (fun s => ?_) fun _ => rfl
    exact congrArg (fun scopes => State.mk { s.machine.desugared p with scopes := scopes } _)
      (s.machine.scopes.desugared_put 0 name value).symm

theorem extended_images (environment : Environment) (bindings : List (String × Value)) :
    Lexical.Images p id (extended environment bindings)
      (extended environment (bindings.map (Prod.map id (Value.desugared p)))) := by
  induction bindings generalizing environment with
  | nil => exact .pure environment
  | cons binding bindings ih =>
    exact (newCell_images binding.1 (some binding.2)).bind fun cell => ih (cell :: environment)

theorem declareFunction_images (f : Function) :
    Lexical.Images p (Callable.desugared p) (declareFunction f)
      (declareFunction (f.desugared p)) :=
  .look fun s => lift_images (Eval.newFunction_images ⟨f, s.machine.environment, false⟩)

theorem bindThis_images (method : Closure) (i : Instance) :
    Lexical.Images p (Closure.desugared p) (bindThis method i)
      (bindThis (method.desugared p) (i.desugared p)) :=
  (extended_images method.environment [("this", .instance i)]).bind fun environment =>
    .pure { method with environment := environment }

theorem superclassOf_images (superclass? : Option Occurrence) :
    Lexical.Images p (Option.map (ClassValue.desugared p)) (superclassOf superclass?)
      (superclassOf superclass?) := by
  cases superclass? with
  | none => exact .pure none
  | some o =>
    refine (readVariable_images o.name).bind fun value => ?_
    cases value with
    | callable c =>
      cases c with
      | «class» c => exact .pure (some c)
      | function | native => exact .fail _
    | _ => exact .fail _

theorem memberEnvironment_images (superclass? : Option ClassValue) :
    Lexical.Images p id (memberEnvironment superclass?)
      (memberEnvironment (superclass?.map (ClassValue.desugared p))) := by
  refine .look fun s => ?_
  cases superclass? with
  | none => exact .pure s.machine.environment
  | some c => exact extended_images s.machine.environment [("super", .callable (.class c))]

theorem declareClass_reaching (place : Place) (c : Class) :
    Reaching p id (declareClass place c) (declareClass place (c.desugared p)) := by
  obtain ⟨name, superclass?, methods, getters⟩ := c
  refine (superclassOf_images superclass?).reaching.bind fun superclass? => ?_
  refine (declare_reaching place name.text).bind fun cell? => ?_
  refine (define_images cell? name.text .nil).reaching.bind fun _ => ?_
  refine (memberEnvironment_images superclass?).reaching.bind fun environment => ?_
  refine (lift_images Eval.freshId_images).reaching.bind fun number => ?_
  have made : (Callable.class ⟨number, name.text, superclass?,
      memberTable environment methods getters⟩).desugared p =
        .class ⟨number, name.text, superclass?.map (ClassValue.desugared p),
          memberTable environment (desugaredFunctions p methods)
            (desugaredFunctions p getters)⟩ := by
    rw [Callable.desugared, ClassValue.desugared_mk, map_memberTable]
  have defined := (define_images (p := p) cell? name.text (.callable (.class
    ⟨number, name.text, superclass?, memberTable environment methods getters⟩))).reaching
  rw [Value.desugared, made] at defined
  exact defined

/-- The class and the instance of a `super`, desugared. -/
def desugaredPair (p : Stmt → Bool) (pair : ClassValue × Instance) : ClassValue × Instance :=
  (pair.1.desugared p, pair.2.desugared p)

theorem superOf_images (line : Nat) :
    Lexical.Images p (desugaredPair p) (superOf line) (superOf line) := by
  refine .look fun s => ?_
  rw [State.cell?_desugared, State.machine_desugared, Machine.environment_desugared]
  cases s.cell? s.machine.environment "super" with
  | none => exact .fail _
  | some cell =>
    refine (valueOf_images cell ⟨"super", line⟩).bind fun value => ?_
    cases value with
    | callable c =>
      cases c with
      | «class» c =>
        refine (readVariable_images ⟨"this", line⟩).bind fun value => ?_
        cases value with
        | «instance» i => exact .pure (c, i)
        | _ => exact .fail _
      | function | native => exact .fail _
    | _ => exact .fail _

theorem method_images (method : Closure) (i : Instance) :
    Lexical.Images p (Eval.Property.desugared p)
      (do return .value (.callable (← lift (Eval.newFunction (← bindThis method i)))))
      (do return .value (.callable (← lift (Eval.newFunction
        (← bindThis (method.desugared p) (i.desugared p)))))) :=
  (bindThis_images method i).bind fun closure =>
    (lift_images (Eval.newFunction_images closure)).bind fun c =>
      .pure (Eval.Property.value (.callable c))

theorem getter_images (getter : Closure) (i : Instance) :
    Lexical.Images p (Eval.Property.desugared p) (do return .getter (← bindThis getter i))
      (do return .getter (← bindThis (getter.desugared p) (i.desugared p))) :=
  (bindThis_images getter i).bind fun closure => .pure (Eval.Property.getter closure)

theorem propertyOf_images (i : Instance) (name : Name) :
    Lexical.Images p (Eval.Property.desugared p) (propertyOf i name)
      (propertyOf (i.desugared p) name) := by
  refine (lift_images (Eval.field?_images i name.text)).bind fun value? => ?_
  cases value? with
  | some value => exact .pure (Eval.Property.value value)
  | none =>
    have getter := i.class.getter?_desugared (p := p) name.text
    have method := i.class.method?_desugared (p := p) name.text
    simp only [Option.map_none, Instance.desugared, getter, method]
    cases i.class.getter? name.text with
    | some getter => exact getter_images getter i
    | none =>
      cases i.class.method? name.text with
      | some method => exact method_images method i
      | none => exact .fail _

theorem superPropertyOf_images (c : ClassValue) (i : Instance) (name : Name) :
    Lexical.Images p (Eval.Property.desugared p) (superPropertyOf c i name)
      (superPropertyOf (c.desugared p) (i.desugared p) name) := by
  rw [superPropertyOf, superPropertyOf, c.method?_desugared, c.getter?_desugared]
  cases c.method? name.text with
  | some method => exact method_images method i
  | none =>
    cases c.getter? name.text with
    | some getter => exact getter_images getter i
    | none => exact .fail _

theorem propertyOfValue_images (object : Value) (name : Name) :
    Lexical.Images p (Eval.Property.desugared p) (propertyOfValue object name)
      (propertyOfValue (object.desugared p) name) := by
  cases object with
  | «instance» i => exact propertyOf_images i name
  | array array =>
    exact (lift_images (Eval.arrayProperty_images array name)).bind fun value =>
      .pure (Eval.Property.value value)
  | _ => exact .fail _

theorem resultOf_images (closure : Closure) (flow : Flow) :
    Lexical.Images p (Value.desugared p) (resultOf closure flow)
      (resultOf (closure.desugared p) (flow.desugared p)) := by
  obtain ⟨f, environment, isInitializer⟩ := closure
  cases isInitializer with
  | true =>
    refine .look fun s => ?_
    simp only [Closure.desugared, State.cell?_desugared, Function.line_desugared]
    cases s.cell? environment "this" with
    | some cell => exact valueOf_images cell ⟨"this", f.line⟩
    | none => exact .fail _
  | false =>
    cases flow with
    | «return» value => exact .pure value
    | _ => exact .pure Value.nil

end Lexical

end

end LoxLang
