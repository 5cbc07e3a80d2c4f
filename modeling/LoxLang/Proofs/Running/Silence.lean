import LoxLang.Proofs.Running.Finding

/-!
Computations that cannot fail by a variable that is not at its distance: all that a machine does
but for looking for variables.
-/

namespace LoxLang

/-- Whether a computation fails on a machine with an error. -/
def Fueled.Fails {α : Type} (x : Eval α) (m : Machine) (d : Diagnostic) : Prop :=
  ∃ m', x m = .error (.failed d) m'

/-- Whether a computation never fails by a variable that is not at its distance. -/
def Eval.Silent {α : Type} (x : Eval α) : Prop :=
  ∀ m line name, ¬ Fueled.Fails x m (.runtime line (.misplacedVariable name))

namespace Eval.Silent

variable {α β : Type} {x : Eval α} {f : α → Eval β}

theorem pure (a : α) : Silent (Pure.pure a : Eval α) := nofun

theorem get : Silent (MonadStateOf.get : Eval Machine) := nofun

theorem modifyGet (f : Machine → α × Machine) : Silent (MonadStateOf.modifyGet f : Eval α) := nofun

theorem fail {d : Diagnostic} (h : ∀ line name, d ≠ .runtime line (.misplacedVariable name)) :
    Silent (Fueled.fail d : Eval α) := by
  intro m line name ⟨m', he⟩
  cases he
  exact h line name rfl

theorem bind (h : Silent x) (hf : ∀ a, Silent (f a)) : Silent (x >>= f) := by
  intro m line name ⟨m', he⟩
  cases hx : x m with
  | ok a m₁ =>
    rw [Fueled.bind_ok hx] at he
    exact hf a m₁ line name ⟨m', he⟩
  | error e m₁ =>
    rw [Fueled.bind_error hx] at he
    cases he
    exact h m line name ⟨m', hx⟩

/-- What is calculated fails as the calculation does. -/
theorem ofExcept {r : Except Diagnostic α}
    (h : ∀ line name, r ≠ .error (.runtime line (.misplacedVariable name))) :
    Silent (Eval.ofExcept r) := by
  cases r with
  | ok a => exact .pure a
  | error d => exact .fail fun line name hd => h line name (congrArg _ hd)

end Eval.Silent

theorem UnaryOp.apply_silent (op : UnaryOp) (line : Nat) (v : Value) :
    Eval.Silent (Eval.ofExcept (op.apply line v)) := by
  apply Eval.Silent.ofExcept
  intro line' name
  unfold apply
  split <;> nofun

theorem BinaryOp.onNumbers_ne {f : Float → Float → Value} (line line' : Nat) (u v : Value)
    (name : String) : onNumbers line u v f ≠ .error (.runtime line' (.misplacedVariable name)) := by
  unfold onNumbers
  split <;> nofun

theorem BinaryOp.apply_silent (op : BinaryOp) (line : Nat) (u v : Value) :
    Eval.Silent (Eval.ofExcept (op.apply line u v)) := by
  apply Eval.Silent.ofExcept
  intro line' name
  cases op with
  | add =>
    show sum line u v ≠ _
    unfold sum
    split <;> nofun
  | divide =>
    show quotient line u v ≠ _
    unfold quotient
    split
    · split <;> nofun
    · nofun
  | equal | notEqual => nofun
  | _ => exact onNumbers_ne line line' u v name

theorem Scopes.target_silent (scopes : Scopes) (environment : Environment) (name : Name) :
    Eval.Silent (Eval.ofExcept (scopes.target environment name)) := by
  apply Eval.Silent.ofExcept
  intro line key
  unfold target
  split <;> nofun

namespace Eval

theorem define_silent (name : String) (v : Value) : Silent (define name v) :=
  .modifyGet _

theorem newFunction_silent (c : Closure) : Silent (newFunction c) :=
  .bind (.modifyGet _) fun _ => .pure _

theorem declareFunction_silent (f : Function) : Silent (declareFunction f) :=
  .bind .get fun _ => newFunction_silent _

theorem newNative_silent (n : Native) : Silent (newNative n) :=
  .bind (.modifyGet _) fun _ => .pure _

theorem bindThis_silent (c : Closure) (i : Instance) : Silent (bindThis c i) :=
  .bind (.modifyGet _) fun _ => .pure _

theorem setField_silent (i : Instance) (name : String) (v : Value) : Silent (setField i name v) :=
  .modifyGet _

theorem print_silent (text : String) : Silent (print text) := by
  refine .bind .get fun m => ?_
  split
  · exact .fail nofun
  · exact .modifyGet _

theorem checkDepth_silent (line : Nat) : Silent (checkDepth line) := by
  refine .bind .get fun m => ?_
  split
  · exact .fail nofun
  · exact .pure _

theorem callableOf_silent (v : Value) (count line : Nat) : Silent (callableOf v count line) := by
  unfold callableOf
  split
  · split
    · exact .bind (.fail nofun) fun _ => .pure _
    · exact .bind (.pure _) fun _ => .pure _
  · exact .fail nofun

theorem instanceOf_silent (v : Value) (name : Name) : Silent (instanceOf v name) := by
  unfold instanceOf
  split
  · exact .pure _
  · exact .fail nofun

theorem elements_silent (array : Nat) : Silent (elements array) :=
  .bind .get fun _ => .pure _

theorem placeIn_silent (length : Nat) (index : Value) (line : Nat) :
    Silent (placeIn length index line) := by
  unfold placeIn
  split
  · split
    · exact .pure _
    · exact .fail nofun
  · exact .fail nofun

theorem newArray_silent (length : Value) (line : Nat) : Silent (newArray length line) := by
  unfold newArray
  split
  · exact .fail nofun
  · refine .bind (.modifyGet _) fun granted => ?_
    split
    · exact .modifyGet _
    · exact .fail nofun

theorem arrayCopy_silent (array : Nat) (target : Value) (line : Nat) :
    Silent (arrayCopy array target line) := by
  unfold arrayCopy
  split
  · refine .bind (elements_silent _) fun source => .bind (elements_silent _) fun other => ?_
    dsimp only
    split
    · exact .bind (.fail nofun) fun _ => .modifyGet _
    · exact .bind (.pure _) fun _ => .modifyGet _
  · exact .fail nofun

theorem arrayProperty_silent (array : Nat) (name : Name) : Silent (arrayProperty array name) := by
  unfold arrayProperty
  split
  · exact .bind (elements_silent _) fun _ => .pure _
  · exact newNative_silent _
  · exact newNative_silent _
  · exact newNative_silent _
  · exact .fail nofun

theorem runNative_silent (n : Native) (vs : List Value) (line : Nat) :
    Silent (runNative n vs line) := by
  unfold runNative
  split
  · exact .bind (.modifyGet _) fun _ => .pure _
  · refine .bind (.modifyGet _) fun answer => ?_
    split
    · exact .pure _
    · exact .pure _
    · exact .fail nofun
  · exact newArray_silent _ _
  · exact .bind (elements_silent _) fun _ => .bind (placeIn_silent _ _ _) fun _ => .pure _
  · refine .bind (.bind (elements_silent _) fun _ => ?_) fun _ => .pure _
    exact .bind (placeIn_silent _ _ _) fun _ => .modifyGet _
  · exact .bind (arrayCopy_silent _ _ _) fun _ => .pure _
  · exact .fail nofun

theorem method_silent (c : Closure) (i : Instance) :
    Silent (do return .value (.callable (← newFunction (← bindThis c i))) : Eval Property) :=
  .bind (bindThis_silent c i) fun _ => .bind (newFunction_silent _) fun _ => .pure _

theorem propertyOf_silent (i : Instance) (name : Name) : Silent (propertyOf i name) := by
  refine .bind (.bind .get fun _ => .pure _) fun value? => ?_
  split
  · exact .pure _
  · split
    · exact .bind (bindThis_silent _ i) fun _ => .pure _
    · split
      · exact method_silent _ i
      · exact .fail nofun

theorem superPropertyOf_silent (c : ClassValue) (i : Instance) (name : Name) :
    Silent (superPropertyOf c i name) := by
  unfold superPropertyOf
  split
  · exact method_silent _ i
  · split
    · exact .bind (bindThis_silent _ i) fun _ => .pure _
    · exact .fail nofun

theorem propertyOfValue_silent (v : Value) (name : Name) : Silent (propertyOfValue v name) := by
  unfold propertyOfValue
  split
  · exact propertyOf_silent _ name
  · exact .bind (arrayProperty_silent _ name) fun _ => .pure _
  · exact .fail nofun

theorem memberEnvironment_silent (superclass? : Option ClassValue) :
    Silent (memberEnvironment superclass?) := by
  refine .bind .get fun m => ?_
  split
  · exact .pure _
  · exact .modifyGet _

end Eval

end LoxLang
