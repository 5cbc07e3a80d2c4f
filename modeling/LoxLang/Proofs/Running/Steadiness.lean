import LoxLang.Evaluation
import LoxLang.Proofs.Fuel

/-!
What a run leaves of its machine, however it ends: the environment and the calls under way are as
they were, the limit, the noted distances, the output, the clock and the memory never change, and
what is printed stays printed. An error of a run is none of the errors that are found before it.
-/

namespace LoxLang

/-- The machine behind a computation. -/
def Fueled.behind {α : Type} : EStateM.Result Stop Machine α → Machine
  | .ok _ m | .error _ m => m

/-- The machine in another environment. -/
def Machine.inside (m : Machine) (environment : Environment) : Machine :=
  { m with environment := environment }

section

variable {α : Type} {environment : Environment} {x : Eval α} {m m₁ : Machine}

theorem Eval.within_ok {a : α} (h : x (m.inside environment) = .ok a m₁) :
    Eval.within environment x m = .ok a (m₁.inside m.environment) := by
  unfold Machine.inside at h
  rw [Eval.within, h]
  rfl

theorem Eval.exists_of_within_eq_ok {a : α} (h : Eval.within environment x m = .ok a m₁) :
    ∃ m₂, x (m.inside environment) = .ok a m₂ ∧ m₁ = m₂.inside m.environment := by
  unfold Eval.within at h
  dsimp only at h
  split at h
  · rename_i u m₂ hx
    cases h
    exact ⟨m₂, hx, rfl⟩
  · cases h

theorem Eval.exists_of_nested_eq_ok {a : α} (h : Eval.nested x m = .ok a m₁) :
    ∃ m₂, x { m with depth := m.depth + 1 } = .ok a m₂ ∧
      m₁ = { m₂ with depth := m₂.depth - 1 } := by
  unfold Eval.nested at h
  split at h
  · rename_i u m₂ hx
    cases h
    exact ⟨m₂, hx, rfl⟩
  · cases h

theorem Eval.within_error {e : Stop} (h : x (m.inside environment) = .error e m₁) :
    Eval.within environment x m = .error e (m₁.inside m.environment) := by
  unfold Machine.inside at h
  rw [Eval.within, h]
  rfl

end

/-- What holds of a machine and of the one behind a computation. -/
structure Machine.LeadsTo (m m₁ : Machine) : Prop where
  environment : m₁.environment = m.environment
  depth : m₁.depth = m.depth
  maxDepth : m₁.maxDepth = m.maxDepth
  distances : m₁.distances = m.distances
  clock : m₁.clock = m.clock
  memory : m₁.memory = m.memory
  sink : m₁.console.sink = m.console.sink
  printed : m.console.printed.toList <+: m₁.console.printed.toList

namespace Machine.LeadsTo

variable {m m₁ m₂ : Machine}

theorem refl (m : Machine) : m.LeadsTo m :=
  ⟨rfl, rfl, rfl, rfl, rfl, rfl, rfl, List.prefix_rfl⟩

theorem trans (h : m.LeadsTo m₁) (h' : m₁.LeadsTo m₂) : m.LeadsTo m₂ where
  environment := h'.environment.trans h.environment
  depth := h'.depth.trans h.depth
  maxDepth := h'.maxDepth.trans h.maxDepth
  distances := h'.distances.trans h.distances
  clock := h'.clock.trans h.clock
  memory := h'.memory.trans h.memory
  sink := h'.sink.trans h.sink
  printed := h.printed.trans h'.printed

end Machine.LeadsTo

/-- A computation that leads from every machine to the one behind it, and fails only by errors of a
run. -/
structure Eval.Steady {α : Type} (x : Eval α) : Prop where
  leads : ∀ m : Machine, m.LeadsTo (Fueled.behind (x m))
  failing : ∀ m d m₁, x m = .error (.failed d) m₁ → d.isStatic = false

namespace Eval.Steady

variable {α β : Type} {x : Eval α} {f : α → Eval β}

theorem leads_ok (h : Steady x) {m m₁ : Machine} {a : α} (hx : x m = .ok a m₁) : m.LeadsTo m₁ := by
  have hl := h.leads m
  rw [hx] at hl
  exact hl

theorem leads_error (h : Steady x) {m m₁ : Machine} {e : Stop} (hx : x m = .error e m₁) :
    m.LeadsTo m₁ := by
  have hl := h.leads m
  rw [hx] at hl
  exact hl

theorem pure (a : α) : Steady (Pure.pure a : Eval α) :=
  ⟨.refl, fun _ _ _ he => by cases he⟩

theorem exhausted : Steady (Fueled.exhausted : Eval α) :=
  ⟨.refl, fun _ _ _ he => by cases he⟩

theorem get : Steady (MonadStateOf.get : Eval Machine) :=
  ⟨.refl, fun _ _ _ he => by cases he⟩

theorem fail {d : Diagnostic} (h : d.isStatic = false) : Steady (Fueled.fail d : Eval α) :=
  ⟨.refl, fun _ _ _ he => by cases he; exact h⟩

theorem step {f : Machine → α × Machine} (h : ∀ m : Machine, m.LeadsTo (f m).2) :
    Steady (modifyGet f : Eval α) :=
  ⟨h, fun _ _ _ he => by cases he⟩

theorem bind (h : Steady x) (hf : ∀ a, Steady (f a)) : Steady (x >>= f) := by
  constructor
  · intro m
    cases hx : x m with
    | ok a m₁ =>
      rw [Fueled.bind_ok hx]
      exact (h.leads_ok hx).trans ((hf a).leads m₁)
    | error e m₁ =>
      rw [Fueled.bind_error hx]
      exact h.leads_error hx
  · intro m d m₂ he
    cases hx : x m with
    | ok a m₁ =>
      rw [Fueled.bind_ok hx] at he
      exact (hf a).failing m₁ d m₂ he
    | error e m₁ =>
      rw [Fueled.bind_error hx] at he
      cases he
      exact h.failing m d _ hx

/-- The environment of a block or of a body is left again. -/
theorem within (h : Steady x) (environment : Environment) :
    Steady (Eval.within environment x) := by
  constructor
  · intro m
    have hl := h.leads { m with environment := environment }
    unfold Eval.within
    dsimp only
    cases hx : x { m with environment := environment } with
    | ok a m₁ =>
      rw [hx] at hl
      exact { hl with environment := rfl }
    | error e m₁ =>
      rw [hx] at hl
      exact { hl with environment := rfl }
  · intro m d m₁ he
    unfold Eval.within at he
    dsimp only at he
    cases hx : x { m with environment := environment } with
    | ok a m₁ =>
      rw [hx] at he
      cases he
    | error e m₁ =>
      rw [hx] at he
      cases he
      exact h.failing _ d m₁ hx

/-- A call is over when it has ended in whatever way. -/
theorem nested (h : Steady x) : Steady (Eval.nested x) := by
  constructor
  · intro m
    have hl := h.leads { m with depth := m.depth + 1 }
    unfold Eval.nested
    cases hx : x { m with depth := m.depth + 1 } with
    | ok a m₁ =>
      rw [hx] at hl
      exact { hl with depth := Nat.sub_eq_of_eq_add hl.depth }
    | error e m₁ =>
      rw [hx] at hl
      exact { hl with depth := Nat.sub_eq_of_eq_add hl.depth }
  · intro m d m₁ he
    unfold Eval.nested at he
    cases hx : x { m with depth := m.depth + 1 } with
    | ok a m₁ =>
      rw [hx] at he
      cases he
    | error e m₁ =>
      rw [hx] at he
      cases he
      exact h.failing _ d m₁ hx

end Eval.Steady

/-- Reading a line leaves the output alone. -/
theorem Console.readLine_keeps (c : Console) :
    c.readLine.2.sink = c.sink ∧ c.readLine.2.printed = c.printed := by
  obtain ⟨input, printed, sink⟩ := c
  unfold readLine takeLine
  cases input with
  | nil => exact ⟨rfl, rfl⟩
  | cons byte rest =>
    dsimp only
    cases (byte :: rest).dropWhile (· ≠ lineFeed) with
    | nil =>
      dsimp only
      split
      all_goals exact ⟨rfl, rfl⟩
    | cons feed rest =>
      dsimp only
      split
      all_goals exact ⟨rfl, rfl⟩

/-- The machine with another limit on its calls. -/
def Machine.limited (m : Machine) (limit : Nat) : Machine :=
  { m with maxDepth := limit }

/-- The result with another limit in the machine. -/
def Fueled.limited {α : Type} (limit : Nat) :
    EStateM.Result Stop Machine α → EStateM.Result Stop Machine α
  | .ok a m => .ok a (m.limited limit)
  | .error e m => .error e (m.limited limit)

/-- A computation that is over at once and never asks how many calls may be under way. -/
structure Eval.Plain {α : Type} (x : Eval α) : Prop extends Eval.Steady x where
  limited : ∀ m limit, x (m.limited limit) = Fueled.limited limit (x m)
  ends : ∀ m e m₁, x m = .error e m₁ →
    ∃ d, e = .failed d ∧ ∀ line, d ≠ .stackOverflow line

namespace Eval.Plain

variable {α β : Type} {x : Eval α} {f : α → Eval β}

theorem pure (a : α) : Plain (Pure.pure a : Eval α) :=
  ⟨.pure a, fun _ _ => rfl, fun _ _ _ he => by cases he⟩

theorem fail {d : Diagnostic} (h : d.isStatic = false) (ho : ∀ line, d ≠ .stackOverflow line) :
    Plain (Fueled.fail d : Eval α) :=
  ⟨.fail h, fun _ _ => rfl, fun _ _ _ he => by cases he; exact ⟨d, rfl, ho⟩⟩

theorem failAt (line : Nat) (e : RuntimeError) : Plain (Eval.failAt line e : Eval α) :=
  fail rfl nofun

/-- What is calculated fails by an error of a run at some line. -/
theorem ofExcept {r : Except Diagnostic α} (h : ∀ d, r = .error d → ∃ line e, d = .runtime line e) :
    Plain (Eval.ofExcept r) := by
  cases r with
  | ok a => exact .pure a
  | error d =>
    obtain ⟨line, e, rfl⟩ := h d rfl
    exact failAt line e

theorem step {f : Machine → α × Machine} (h : ∀ m : Machine, m.LeadsTo (f m).2)
    (hf : ∀ m limit, f (m.limited limit) = ((f m).1, (f m).2.limited limit)) :
    Plain (modifyGet f : Eval α) := by
  refine ⟨.step h, fun m limit => ?_, fun _ _ _ he => by cases he⟩
  show EStateM.Result.ok (f (m.limited limit)).1 (f (m.limited limit)).2 = _
  rw [hf]
  rfl

theorem bind (h : Plain x) (hf : ∀ a, Plain (f a)) : Plain (x >>= f) := by
  refine ⟨h.toSteady.bind fun a => (hf a).toSteady, fun m limit => ?_, fun m e m₂ he => ?_⟩
  · have hl := h.limited m limit
    cases hx : x m with
    | ok a m₁ =>
      rw [hx] at hl
      rw [Fueled.bind_ok hx, Fueled.bind_ok hl]
      exact (hf a).limited m₁ limit
    | error e m₁ =>
      rw [hx] at hl
      rw [Fueled.bind_error hx, Fueled.bind_error hl]
      rfl
  · cases hx : x m with
    | ok a m₁ =>
      rw [Fueled.bind_ok hx] at he
      exact (hf a).ends m₁ e m₂ he
    | error e' m₁ =>
      rw [Fueled.bind_error hx] at he
      cases he
      exact h.ends m _ _ hx

/-- What hangs on the machine may not hang on the limit. -/
theorem look {f : Machine → Eval β} (hf : ∀ m, Plain (f m))
    (hl : ∀ m limit, f (m.limited limit) = f m) :
    Plain ((MonadStateOf.get : Eval Machine) >>= f) := by
  refine ⟨Steady.get.bind fun m => (hf m).toSteady, fun m limit => ?_, fun m => (hf m).ends m⟩
  show f (m.limited limit) (m.limited limit) = _
  rw [hl]
  exact (hf m).limited m limit

end Eval.Plain

section

variable (line : Nat) (u v : Value)

theorem UnaryOp.apply_plain (op : UnaryOp) : Eval.Plain (Eval.ofExcept (op.apply line v)) := by
  apply Eval.Plain.ofExcept
  intro d h
  unfold apply at h
  split at h
  · cases h
  · cases h
  · cases h
    exact ⟨_, _, rfl⟩

theorem BinaryOp.apply_plain (op : BinaryOp) : Eval.Plain (Eval.ofExcept (op.apply line u v)) := by
  have numbers {f : Float → Float → Value} {d : Diagnostic} (h : onNumbers line u v f = .error d) :
      ∃ line e, d = .runtime line e := by
    unfold onNumbers at h
    split at h
    · cases h
    · cases h
      exact ⟨_, _, rfl⟩
  apply Eval.Plain.ofExcept
  intro d h
  cases op with
  | add =>
    have h : sum line u v = .error d := h
    unfold sum at h
    split at h
    all_goals cases h
    exact ⟨_, _, rfl⟩
  | divide =>
    have h : quotient line u v = .error d := h
    unfold quotient at h
    split at h
    · split at h
      all_goals cases h
      exact ⟨_, _, rfl⟩
    · cases h
      exact ⟨_, _, rfl⟩
  | equal | notEqual => cases h
  | _ => exact numbers h

end

namespace Eval

section

variable (scopes : Scopes) (environment : Environment) (distance : Nat) (name : Name)

theorem read_plain : Plain (ofExcept (scopes.read environment name)) := by
  refine .ofExcept fun d h => ?_
  unfold Scopes.read at h
  split at h
  all_goals cases h
  exact ⟨_, _, rfl⟩

theorem readAt_plain : Plain (ofExcept (scopes.readAt environment distance name)) := by
  refine .ofExcept fun d h => ?_
  unfold Scopes.readAt at h
  split at h
  all_goals cases h
  exact ⟨_, _, rfl⟩

theorem target_plain : Plain (ofExcept (scopes.target environment name)) := by
  refine .ofExcept fun d h => ?_
  unfold Scopes.target at h
  split at h
  all_goals cases h
  exact ⟨_, _, rfl⟩

theorem targetAt_plain : Plain (ofExcept (scopes.targetAt environment distance name)) := by
  refine .ofExcept fun d h => ?_
  unfold Scopes.targetAt at h
  split at h
  all_goals cases h
  exact ⟨_, _, rfl⟩

end

theorem readVariable_plain (id : Nat) (name : Name) : Plain (readVariable id name) := by
  refine .look (fun m => ?_) fun _ _ => rfl
  split
  · exact readAt_plain _ _ _ _
  · exact read_plain _ _ _

theorem targetOf_plain (o : Occurrence) : Plain (targetOf o) := by
  refine .look (fun m => ?_) fun _ _ => rfl
  split
  · exact targetAt_plain _ _ _ _
  · exact target_plain _ _ _

/-- A change of what is stored. -/
theorem stored_plain (f : Scopes → Scopes) :
    Plain (modify fun m => { m with scopes := f m.scopes } : Eval Unit) :=
  .step (fun m => { Machine.LeadsTo.refl m with }) fun _ _ => rfl

theorem writeVariable_plain (o : Occurrence) (v : Value) : Plain (writeVariable o v) :=
  (targetOf_plain o).bind fun scope => stored_plain (·.put scope o.name.text v)

theorem define_plain (name : String) (v : Value) : Plain (define name v) :=
  .step (fun m => { Machine.LeadsTo.refl m with }) fun _ _ => rfl

theorem openScope_plain (outer : Environment) (table : Table Value) :
    Plain (openScope outer table) :=
  .step (fun m => { Machine.LeadsTo.refl m with }) fun _ _ => rfl

theorem freshId_plain : Plain freshId :=
  .step (fun m => { Machine.LeadsTo.refl m with }) fun _ _ => rfl

theorem newFunction_plain (c : Closure) : Plain (newFunction c) :=
  freshId_plain.bind fun _ => .pure _

theorem declareFunction_plain (f : Function) : Plain (declareFunction f) :=
  .look (fun _ => newFunction_plain _) fun _ _ => rfl

theorem newNative_plain (n : Native) : Plain (newNative n) :=
  freshId_plain.bind fun _ => .pure _

theorem newInstance_plain (c : ClassValue) : Plain (newInstance c) :=
  .step (fun m => { Machine.LeadsTo.refl m with }) fun _ _ => rfl

theorem bindThis_plain (c : Closure) (i : Instance) : Plain (bindThis c i) :=
  (openScope_plain _ _).bind fun _ => .pure _

theorem field?_plain (i : Instance) (name : String) : Plain (field? i name) :=
  .look (fun _ => .pure _) fun _ _ => rfl

theorem setField_plain (i : Instance) (name : String) (v : Value) : Plain (setField i name v) :=
  .step (fun m => { Machine.LeadsTo.refl m with }) fun _ _ => rfl

/-- What is printed is behind what was printed before. -/
theorem print_plain (text : String) : Plain (print text) := by
  refine .look (fun m => ?_) fun _ _ => rfl
  split
  · exact .fail rfl nofun
  · refine .step (fun m => { Machine.LeadsTo.refl m with printed := ?_ }) fun _ _ => rfl
    have h : (m.console.printed.push text).toList = m.console.printed.toList ++ [text] :=
      Array.toList_push
    exact h ▸ List.prefix_append _ _

theorem readLine_plain : Plain readLine := by
  refine .step (fun m => ?_) fun _ _ => rfl
  obtain ⟨hsink, hprinted⟩ := m.console.readLine_keeps
  exact { Machine.LeadsTo.refl m with sink := hsink, printed := hprinted ▸ List.prefix_rfl }

theorem readClock_plain : Plain readClock :=
  .step (fun m => { Machine.LeadsTo.refl m with }) fun _ _ => rfl

theorem reserve_plain (length : Nat) : Plain (reserve length) :=
  .step (fun m => { Machine.LeadsTo.refl m with }) fun _ _ => rfl

theorem callableOf_plain (v : Value) (count line : Nat) : Plain (callableOf v count line) := by
  unfold callableOf
  split
  · split
    · exact .bind (.failAt _ _) fun _ => .pure _
    · exact .bind (.pure _) fun _ => .pure _
  · exact .failAt _ _

theorem instanceOf_plain (v : Value) (name : Name) : Plain (instanceOf v name) := by
  unfold instanceOf
  split
  · exact .pure _
  · exact .failAt _ _

theorem elements_plain (array : Nat) : Plain (elements array) :=
  .look (fun _ => .pure _) fun _ _ => rfl

theorem placeIn_plain (length : Nat) (index : Value) (line : Nat) :
    Plain (placeIn length index line) := by
  unfold placeIn
  split
  · split
    · exact .pure _
    · exact .failAt _ _
  · exact .failAt _ _

theorem newArray_plain (length : Value) (line : Nat) : Plain (newArray length line) := by
  have added (n : Nat) : Plain (modifyGet fun m : Machine => (Value.array m.arrays.size,
      { m with arrays := m.arrays.push (Array.replicate n .nil) }) : Eval Value) :=
    .step (fun m => { Machine.LeadsTo.refl m with }) fun _ _ => rfl
  unfold newArray
  split
  · exact .failAt _ _
  · refine (reserve_plain _).bind fun granted => ?_
    split
    · exact added _
    · exact .failAt _ _

/-- A change of the elements of arrays. -/
theorem changed_plain (f : Array (Array Value) → Array (Array Value)) :
    Plain (modify fun m => { m with arrays := f m.arrays } : Eval Unit) :=
  .step (fun m => { Machine.LeadsTo.refl m with }) fun _ _ => rfl

theorem arrayCopy_plain (array : Nat) (target : Value) (line : Nat) :
    Plain (arrayCopy array target line) := by
  unfold arrayCopy
  split
  · rename_i other
    refine (elements_plain _).bind fun source => (elements_plain _).bind fun _ => ?_
    have copied : Plain (modify fun m : Machine =>
        { m with arrays := m.arrays.modify other (overwritten source) } : Eval Unit) :=
      changed_plain (·.modify other (overwritten source))
    dsimp only
    split
    · exact Plain.bind (.failAt _ _) fun _ => copied
    · exact copied
  · exact .failAt _ _

theorem arrayProperty_plain (array : Nat) (name : Name) : Plain (arrayProperty array name) := by
  unfold arrayProperty
  split
  · exact (elements_plain _).bind fun _ => .pure _
  · exact newNative_plain _
  · exact newNative_plain _
  · exact newNative_plain _
  · exact .failAt _ _

theorem runNative_plain (n : Native) (vs : List Value) (line : Nat) :
    Plain (runNative n vs line) := by
  unfold runNative
  split
  · exact readClock_plain.bind fun _ => .pure _
  · refine readLine_plain.bind fun answer => ?_
    split
    · exact .pure _
    · exact .pure _
    · exact .failAt _ _
  · exact newArray_plain _ _
  · exact (elements_plain _).bind fun _ => (placeIn_plain _ _ _).bind fun _ => .pure _
  · rename_i array _ value
    refine Plain.bind ((elements_plain _).bind fun _ => ?_) fun _ => .pure _
    exact (placeIn_plain _ _ _).bind fun place =>
      changed_plain (·.modify array (·.setIfInBounds place value))
  · exact (arrayCopy_plain _ _ _).bind fun _ => .pure _
  · exact .failAt _ _

theorem method_plain (c : Closure) (i : Instance) :
    Plain (do return .value (.callable (← newFunction (← bindThis c i))) : Eval Property) :=
  (bindThis_plain c i).bind fun _ => (newFunction_plain _).bind fun _ => .pure _

theorem propertyOf_plain (i : Instance) (name : Name) : Plain (propertyOf i name) := by
  refine (field?_plain i name.text).bind fun value? => ?_
  split
  · exact .pure _
  · split
    · exact (bindThis_plain _ i).bind fun _ => .pure _
    · split
      · exact method_plain _ i
      · exact .failAt _ _

theorem superPropertyOf_plain (c : ClassValue) (i : Instance) (name : Name) :
    Plain (superPropertyOf c i name) := by
  unfold superPropertyOf
  split
  · exact method_plain _ i
  · split
    · exact (bindThis_plain _ i).bind fun _ => .pure _
    · exact .failAt _ _

theorem propertyOfValue_plain (v : Value) (name : Name) : Plain (propertyOfValue v name) := by
  unfold propertyOfValue
  split
  · exact propertyOf_plain _ name
  · exact (arrayProperty_plain _ name).bind fun _ => .pure _
  · exact .failAt _ _

theorem superOf_plain (id line : Nat) : Plain (superOf id line) := by
  refine .look (fun m => ?_) fun _ _ => rfl
  split
  · exact .failAt _ _
  · exact .failAt _ _
  · refine .bind (readAt_plain _ _ _ _) fun v => ?_
    split
    · refine .bind (readAt_plain _ _ _ _) fun v => ?_
      split
      · exact .pure _
      · exact .failAt _ _
    · exact .failAt _ _

theorem superclassOf_plain (superclass? : Option Occurrence) :
    Plain (superclassOf superclass?) := by
  unfold superclassOf
  split
  · exact .pure _
  · refine (readVariable_plain _ _).bind fun v => ?_
    split
    · exact .pure _
    · exact .failAt _ _

theorem memberEnvironment_plain (superclass? : Option ClassValue) :
    Plain (memberEnvironment superclass?) := by
  refine .look (fun m => ?_) fun _ _ => rfl
  split
  · exact .pure _
  · exact openScope_plain _ _

theorem declareClass_plain (c : Class) : Plain (declareClass c) := by
  refine (superclassOf_plain _).bind fun superclass? => (define_plain _ _).bind fun _ => ?_
  refine (memberEnvironment_plain _).bind fun environment => freshId_plain.bind fun id => ?_
  refine .look (fun m => (target_plain _ _ _).bind fun scope => ?_) fun _ _ => rfl
  exact stored_plain (·.put scope _ _)

/-- The result of a call fails only if an initializer has no instance. -/
theorem resultOf_plain (c : Closure) (flow : Flow) : Plain (resultOf c flow) := by
  unfold resultOf
  split
  · exact .look (fun m => readAt_plain _ _ _ _) fun _ _ => rfl
  · split
    · exact .pure _
    · exact .pure _

end Eval

end LoxLang
