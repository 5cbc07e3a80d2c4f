import LoxLang.Proofs.Likeness.Machines
import LoxLang.Proofs.Running.Actions

/-!
Runs with another console. The steps of a machine that neither print nor read the input do the same
whatever the console is, and pass it on as it is.
-/

namespace LoxLang

/-- The machine with a change of its console. -/
def Machine.consoled (m : Machine) (k : Console → Console) : Machine :=
  { m with console := k m.console }

/-- The result with a change of the console in its machine. -/
def Fueled.consoled {α : Type} (k : Console → Console) :
    EStateM.Result Stop Machine α → EStateM.Result Stop Machine α
  | .ok a m => .ok a (m.consoled k)
  | .error e m => .error e (m.consoled k)

/-- The same step on a machine with a change of its console. -/
def Action.consoled (k : Console → Console) (s : Action) : Action :=
  ⟨s.primitive, s.machine.consoled k⟩

/-- Whether a computation does the same behind a change of the console, and carries the change
on. -/
def Eval.Carries {α : Type} (k : Console → Console) (x : Eval α) : Prop :=
  ∀ m, x (m.consoled k) = Fueled.consoled k (x m)

variable {k : Console → Console}

theorem Fueled.behind_consoled {α : Type} (r : EStateM.Result Stop Machine α) :
    behind (consoled k r) = (behind r).consoled k := by
  cases r <;> rfl

theorem Shell.enter_consoled (shell : Shell) (m : Machine) :
    shell.enter (m.consoled k) = (shell.enter m).consoled k := by
  cases shell <;> rfl

theorem Shell.leave_consoled (shell : Shell) (m m₁ : Machine) :
    shell.leave (m.consoled k) (m₁.consoled k) = (shell.leave m m₁).consoled k := by
  cases shell <;> rfl

namespace Eval.Carries

variable {α β : Type} {x : Eval α} {f : α → Eval β}

theorem ok (h : Carries k x) {m m₁ : Machine} {a : α} (hx : x m = .ok a m₁) :
    x (m.consoled k) = .ok a (m₁.consoled k) := by
  rw [h, hx]
  rfl

theorem error (h : Carries k x) {m m₁ : Machine} {e : Stop} (hx : x m = .error e m₁) :
    x (m.consoled k) = .error e (m₁.consoled k) := by
  rw [h, hx]
  rfl

theorem pure (a : α) : Carries k (Pure.pure a : Eval α) :=
  fun _ => rfl

theorem exhausted : Carries k (Fueled.exhausted : Eval α) :=
  fun _ => rfl

theorem failAt (line : Nat) (e : RuntimeError) : Carries k (Eval.failAt line e : Eval α) :=
  fun _ => rfl

theorem ofExcept (r : Except Diagnostic α) : Carries k (Eval.ofExcept r) := by
  cases r <;> exact fun _ => rfl

theorem step {f : Machine → α × Machine}
    (hf : ∀ m : Machine, f (m.consoled k) = ((f m).1, (f m).2.consoled k)) :
    Carries k (modifyGet f : Eval α) := by
  intro m
  show EStateM.Result.ok (f (m.consoled k)).1 (f (m.consoled k)).2 = _
  rw [hf]
  rfl

theorem bind (h : Carries k x) (hf : ∀ a, Carries k (f a)) : Carries k (x >>= f) := by
  intro m
  cases hx : x m with
  | ok a m₁ =>
    rw [Fueled.bind_ok hx, Fueled.bind_ok (h.ok hx)]
    exact hf a m₁
  | error e m₁ =>
    rw [Fueled.bind_error hx, Fueled.bind_error (h.error hx)]
    rfl

/-- What hangs on the machine may not hang on the console. -/
theorem look {f : Machine → Eval β} (hf : ∀ m, Carries k (f m))
    (hl : ∀ m : Machine, f (m.consoled k) = f m) :
    Carries k ((MonadStateOf.get : Eval Machine) >>= f) := by
  intro m
  show f (m.consoled k) (m.consoled k) = _
  rw [hl]
  exact hf m m

theorem around (h : Carries k x) (shell : Shell) : Carries k (shell.around x) := by
  intro m
  have henter := congrArg x (shell.enter_consoled (k := k) m)
  cases hx : x (shell.enter m) with
  | ok a m₁ =>
    rw [shell.around_ok hx, shell.around_ok (henter.trans (h.ok hx)), shell.leave_consoled]
    rfl
  | error e m₁ =>
    rw [shell.around_error hx, shell.around_error (henter.trans (h.error hx)), shell.leave_consoled]
    rfl

/-- What a change would leave alone is left as it is. -/
theorem keeps (h : Carries k x) {m : Machine} (hk : k m.console = m.console) :
    k (Fueled.behind (x m)).console = (Fueled.behind (x m)).console := by
  have hm : m.consoled k = m := by
    unfold Machine.consoled
    rw [hk]
  have hx := h m
  rw [hm] at hx
  exact congrArg Machine.console ((Fueled.behind_consoled (x m)).symm.trans
    (congrArg Fueled.behind hx).symm)

end Eval.Carries

namespace Eval

variable (k)

theorem readVariable_carries (id : Nat) (name : Name) : Carries k (readVariable id name) := by
  refine .look (fun m => ?_) fun _ => rfl
  split <;> exact .ofExcept _

theorem targetOf_carries (o : Occurrence) : Carries k (targetOf o) := by
  refine .look (fun m => ?_) fun _ => rfl
  split <;> exact .ofExcept _

theorem writeVariable_carries (o : Occurrence) (v : Value) : Carries k (writeVariable o v) :=
  (targetOf_carries k o).bind fun _ => .step fun _ => rfl

theorem define_carries (name : String) (v : Value) : Carries k (define name v) :=
  .step fun _ => rfl

theorem openScope_carries (outer : Environment) (table : Table Value) :
    Carries k (openScope outer table) :=
  .step fun _ => rfl

theorem freshId_carries : Carries k freshId :=
  .step fun _ => rfl

theorem newFunction_carries (c : Closure) : Carries k (newFunction c) :=
  (freshId_carries k).bind fun _ => .pure _

theorem declareFunction_carries (f : Function) : Carries k (declareFunction f) :=
  .look (fun _ => newFunction_carries k _) fun _ => rfl

theorem newNative_carries (n : Native) : Carries k (newNative n) :=
  (freshId_carries k).bind fun _ => .pure _

theorem newInstance_carries (c : ClassValue) : Carries k (newInstance c) :=
  .step fun _ => rfl

theorem bindThis_carries (c : Closure) (i : Instance) : Carries k (bindThis c i) :=
  (openScope_carries k _ _).bind fun _ => .pure _

theorem field?_carries (i : Instance) (name : String) : Carries k (field? i name) :=
  .look (fun _ => .pure _) fun _ => rfl

theorem setField_carries (i : Instance) (name : String) (v : Value) :
    Carries k (setField i name v) :=
  .step fun _ => rfl

theorem callableOf_carries (v : Value) (count line : Nat) :
    Carries k (callableOf v count line) := by
  unfold callableOf
  split
  · split
    · exact .bind (.failAt _ _) fun _ => .pure _
    · exact .bind (.pure _) fun _ => .pure _
  · exact .failAt _ _

theorem instanceOf_carries (v : Value) (name : Name) : Carries k (instanceOf v name) := by
  unfold instanceOf
  split
  · exact .pure _
  · exact .failAt _ _

theorem elements_carries (array : Nat) : Carries k (elements array) :=
  .look (fun _ => .pure _) fun _ => rfl

theorem placeIn_carries (length : Nat) (index : Value) (line : Nat) :
    Carries k (placeIn length index line) := by
  unfold placeIn
  split
  · split
    · exact .pure _
    · exact .failAt _ _
  · exact .failAt _ _

theorem newArray_carries (length : Value) (line : Nat) : Carries k (newArray length line) := by
  unfold newArray
  split
  · exact .failAt _ _
  · refine Carries.bind (.step fun _ => rfl) fun granted => ?_
    split
    · exact .step fun _ => rfl
    · exact .failAt _ _

theorem arrayCopy_carries (array : Nat) (target : Value) (line : Nat) :
    Carries k (arrayCopy array target line) := by
  unfold arrayCopy
  split
  · refine (elements_carries k _).bind fun source => (elements_carries k _).bind fun _ => ?_
    dsimp only
    split
    · exact Carries.bind (.failAt _ _) fun _ => .step fun _ => rfl
    · exact .step fun _ => rfl
  · exact .failAt _ _

theorem arrayProperty_carries (array : Nat) (name : Name) :
    Carries k (arrayProperty array name) := by
  unfold arrayProperty
  split
  · exact (elements_carries k _).bind fun _ => .pure _
  · exact newNative_carries k _
  · exact newNative_carries k _
  · exact newNative_carries k _
  · exact .failAt _ _

/-- Of what is built in, only `input` asks the console. -/
theorem runNative_carries {n : Native} (h : n ≠ .input) (vs : List Value) (line : Nat) :
    Carries k (runNative n vs line) := by
  unfold runNative
  split
  · exact Carries.bind (.step fun _ => rfl) fun _ => .pure _
  · exact (h rfl).elim
  · exact newArray_carries k _ _
  · exact (elements_carries k _).bind fun _ => (placeIn_carries k _ _ _).bind fun _ => .pure _
  · refine Carries.bind ((elements_carries k _).bind fun _ => ?_) fun _ => .pure _
    exact (placeIn_carries k _ _ _).bind fun _ => .step fun _ => rfl
  · exact (arrayCopy_carries k _ _ _).bind fun _ => .pure _
  · exact .failAt _ _

/-- A line is read in the same way, if the change leaves the input alone. -/
theorem input_carries (h : ∀ c, (k c).readLine = (c.readLine.1, k c.readLine.2))
    (vs : List Value) (line : Nat) : Carries k (runNative .input vs line) := by
  have hread : Carries k readLine := by
    refine .step fun m => ?_
    show ((k m.console).readLine.1, { m with console := (k m.console).readLine.2 }) =
      (m.console.readLine.1, { m with console := k m.console.readLine.2 })
    rw [h]
  refine hread.bind fun answer => ?_
  split
  · exact .pure _
  · exact .pure _
  · exact .failAt _ _

theorem print_refused {m : Machine} {reason text : String}
    (h : m.console.sink.writeRefusal? = some reason) :
    print text m = .error (.failed (.io reason)) m := by
  rw [print, Fueled.bind_get, h]
  rfl

theorem print_taken {m : Machine} {text : String}
    (h : m.console.sink.writeRefusal? = none) :
    print text m = .ok () (m.consoled (·.print text)) := by
  rw [print, Fueled.bind_get, h]
  rfl

/-- The output refuses the same, if the change leaves alone whether it does. -/
theorem print_carries (hsink : ∀ c, (k c).sink.writeRefusal? = c.sink.writeRefusal?)
    (hprint : ∀ c text, k (c.print text) = (k c).print text) (text : String) :
    Carries k (print text) := by
  intro m
  have hsink : (m.consoled k).console.sink.writeRefusal? = m.console.sink.writeRefusal? := hsink _
  cases h : m.console.sink.writeRefusal? with
  | some reason =>
    rw [print_refused h, print_refused (hsink.trans h)]
    rfl
  | none =>
    rw [print_taken h, print_taken (hsink.trans h)]
    show EStateM.Result.ok () { m with console := (k m.console).print text } = _
    rw [← hprint]
    rfl

theorem method_carries (c : Closure) (i : Instance) :
    Carries k (do return .value (.callable (← newFunction (← bindThis c i))) : Eval Property) :=
  (bindThis_carries k c i).bind fun _ => (newFunction_carries k _).bind fun _ => .pure _

theorem propertyOf_carries (i : Instance) (name : Name) : Carries k (propertyOf i name) := by
  refine (field?_carries k i name.text).bind fun value? => ?_
  split
  · exact .pure _
  · split
    · exact (bindThis_carries k _ i).bind fun _ => .pure _
    · split
      · exact method_carries k _ i
      · exact .failAt _ _

theorem superPropertyOf_carries (c : ClassValue) (i : Instance) (name : Name) :
    Carries k (superPropertyOf c i name) := by
  unfold superPropertyOf
  split
  · exact method_carries k _ i
  · split
    · exact (bindThis_carries k _ i).bind fun _ => .pure _
    · exact .failAt _ _

theorem propertyOfValue_carries (v : Value) (name : Name) :
    Carries k (propertyOfValue v name) := by
  unfold propertyOfValue
  split
  · exact propertyOf_carries k _ name
  · exact (arrayProperty_carries k _ name).bind fun _ => .pure _
  · exact .failAt _ _

theorem superOf_carries (id line : Nat) : Carries k (superOf id line) := by
  refine .look (fun m => ?_) fun _ => rfl
  split
  · exact .failAt _ _
  · exact .failAt _ _
  · refine .bind (.ofExcept _) fun v => ?_
    split
    · refine .bind (.ofExcept _) fun v => ?_
      split
      · exact .pure _
      · exact .failAt _ _
    · exact .failAt _ _

theorem superclassOf_carries (superclass? : Option Occurrence) :
    Carries k (superclassOf superclass?) := by
  unfold superclassOf
  split
  · exact .pure _
  · refine (readVariable_carries k _ _).bind fun v => ?_
    split
    · exact .pure _
    · exact .failAt _ _

theorem memberEnvironment_carries (superclass? : Option ClassValue) :
    Carries k (memberEnvironment superclass?) := by
  refine .look (fun m => ?_) fun _ => rfl
  split
  · exact .pure _
  · exact openScope_carries k _ _

theorem declareClass_carries (c : Class) : Carries k (declareClass c) := by
  refine (superclassOf_carries k _).bind fun superclass? =>
    (define_carries k _ _).bind fun _ => ?_
  refine (memberEnvironment_carries k _).bind fun environment =>
    (freshId_carries k).bind fun id => ?_
  exact .look (fun m => .bind (.ofExcept _) fun scope => .step fun _ => rfl) fun _ => rfl

theorem checkDepth_carries (line : Nat) : Carries k (checkDepth line) := by
  refine .look (fun m => ?_) fun _ => rfl
  split
  · exact fun _ => rfl
  · exact .pure _

theorem resultOf_carries (c : Closure) (flow : Flow) : Carries k (resultOf c flow) := by
  unfold resultOf
  split
  · exact .look (fun _ => .ofExcept _) fun _ => rfl
  · split
    · exact .pure _
    · exact .pure _

end Eval

/-- Reading goes by the input alone, and leaves the output alone. -/
theorem Console.readLine_of_input (c : Console) (printed : Array String) (sink : Sink) :
    (⟨c.input, printed, sink⟩ : Console).readLine =
      (c.readLine.1, ⟨c.readLine.2.input, printed, sink⟩) := by
  let other : Console := ⟨c.input, printed, sink⟩
  have hsame : other.input = c.input := rfl
  obtain ⟨hanswer, hinput⟩ := readLine_eq hsame
  obtain ⟨hsink, hprinted⟩ := other.readLine_keeps
  refine Prod.ext hanswer ?_
  show other.readLine.2 = _
  rw [show other.readLine.2 = ⟨other.readLine.2.input, other.readLine.2.printed,
    other.readLine.2.sink⟩ from rfl, hinput, hprinted, hsink]

namespace Primitive

/-- The text that a step prints. -/
def printed? : Primitive → Option String
  | .print text => some text
  | _ => none

/-- Whether a step reads the input. -/
def reads : Primitive → Bool
  | .native .input _ _ => true
  | _ => false

variable (k)

/-- A step that prints nothing carries every change of the console, but for one of the input that it
reads. -/
theorem carries {p : Primitive} (hprint : p.printed? = none)
    (hread : p.reads = true → ∀ c, (k c).readLine = (c.readLine.1, k c.readLine.2)) :
    Eval.Carries k p.go := by
  cases p with
  | unary op line v => exact .ofExcept _
  | binary op line u v => exact .ofExcept _
  | read id name => exact Eval.readVariable_carries k id name
  | write o v => exact Eval.writeVariable_carries k o v
  | callable v count line => exact Eval.callableOf_carries k v count line
  | property v name => exact Eval.propertyOfValue_carries k v name
  | holder v name => exact Eval.instanceOf_carries k v name
  | store i name v => exact Eval.setField_carries k i name v
  | super id line => exact Eval.superOf_carries k id line
  | superProperty c i name => exact Eval.superPropertyOf_carries k c i name
  | declare f => exact Eval.declareFunction_carries k f
  | function closure => exact Eval.newFunction_carries k closure
  | check line => exact Eval.checkDepth_carries k line
  | native n vs line =>
    refine Eval.Carries.around ?_ .nested
    obtain rfl | hn := eq_or_ne n .input
    · exact Eval.input_carries k (hread rfl) vs line
    · exact Eval.runNative_carries k hn vs line
  | scope environment table => exact Eval.openScope_carries k environment table
  | block => exact .look (fun _ => Eval.openScope_carries k _ _) fun _ => rfl
  | result closure flow => exact Eval.resultOf_carries k closure flow
  | make c => exact Eval.newInstance_carries k c
  | bind method i => exact Eval.bindThis_carries k method i
  | print text => cases hprint
  | define name v => exact Eval.define_carries k name v
  | «class» c => exact Eval.declareClass_carries k c

/-- A step that reads nothing leaves the input alone. -/
theorem input_behind {p : Primitive} (h : p.reads = false) (m : Machine) :
    (Fueled.behind (p.go m)).console.input = m.console.input := by
  cases hp : p.printed? with
  | none =>
    have hcarries := carries (fun c => { c with input := m.console.input }) hp
      fun hreads => by rw [h] at hreads; cases hreads
    exact (congrArg Console.input (hcarries.keeps rfl)).symm
  | some text =>
    cases p with
    | print text =>
      show (Fueled.behind (Eval.print text m)).console.input = _
      cases hsink : m.console.sink.writeRefusal? with
      | some reason =>
        rw [Eval.print_refused hsink]
        rfl
      | none =>
        rw [Eval.print_taken hsink]
        rfl
    | _ => cases hp

/-- A step that prints nothing leaves the output alone. -/
theorem output_behind {p : Primitive} (h : p.printed? = none) (m : Machine) :
    (Fueled.behind (p.go m)).console.printed = m.console.printed ∧
      (Fueled.behind (p.go m)).console.sink = m.console.sink := by
  have hcarries := carries (fun c => ⟨c.input, m.console.printed, m.console.sink⟩) h
    fun _ c => Console.readLine_of_input c _ _
  have hkeeps := hcarries.keeps (m := m) rfl
  exact ⟨(congrArg Console.printed hkeeps).symm, (congrArg Console.sink hkeeps).symm⟩

end Primitive

/-- A plan carries what its steps and its tasks do. -/
theorem Plan.carries {α : Type} {fuel : Nat} (hp : ∀ p : Primitive, Eval.Carries k p.go)
    (ht : ∀ t, Eval.Carries k (Eval.perform fuel t)) (plan : Plan α) :
    Eval.Carries k (plan.go fuel) := by
  induction plan with
  | done a => exact .pure a
  | step p next ih => exact (hp p).bind ih
  | start shell t next ih => exact ((ht t).around shell).bind ih

/-- Runs carry what all steps do. -/
theorem Eval.perform_carries (hp : ∀ p : Primitive, Carries k p.go) (fuel : Nat) (t : Task) :
    Carries k (perform fuel t) := by
  induction fuel generalizing t with
  | zero =>
    rw [perform_zero]
    exact .exhausted
  | succ fuel ih =>
    rw [perform_succ]
    exact t.plan.carries hp ih

end LoxLang
