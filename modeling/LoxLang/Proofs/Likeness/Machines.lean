import LoxLang.Proofs.Likeness.Values
import LoxLang.Proofs.Running.Steadiness

/-!
Machines with like values, and the steps of runs in step with each other. Such machines have opened
the same scopes and made the same objects, under the same numbers. One of them may have printed
something before the other one started.
-/

namespace LoxLang

open Fueled

section

variable (K : Likeness → Prop) (before : Array String)

/-- Machines that differ in nothing but the code of functions, the numbers of occurrences and what
one of them has printed before. -/
structure Machine.Like (m m' : Machine) : Prop where
  distances : ∀ L, K L → ∀ id id', L.occurrence id id' →
    m'.distances.find? id' = m.distances.find? id
  tables : ArrayRel (Table.Rel (Value.Like K)) m.scopes.tables m'.scopes.tables
  fields : ArrayRel (Table.Rel (Value.Like K)) m.fields m'.fields
  elements : ArrayRel (fun a a' => List.Forall₂ (Value.Like K) a.toList a'.toList) m.arrays
    m'.arrays
  nextId : m'.nextId = m.nextId
  environment : m'.environment = m.environment
  depth : m'.depth = m.depth
  maxDepth : m'.maxDepth = m.maxDepth
  input : m'.console.input = m.console.input
  sink : m'.console.sink = m.console.sink
  printed : m'.console.printed = before ++ m.console.printed
  clock : m'.clock = m.clock
  readings : m'.readings = m.readings
  memory : m'.memory = m.memory
  requests : m'.requests = m.requests

/-- Computations that end in the same way on like machines, with related values or like errors. -/
abbrev Eval.InStep {α β : Type} (V : α → β → Prop) (x : Eval α) (y : Eval β) : Prop :=
  Lockstep (Diagnostic.Like (Lines K)) (Machine.Like K before) V x y

end

variable {K : Likeness → Prop} {before : Array String}

theorem Lines.intro {L : Likeness} (hL : K L) {n n' : Nat} (h : L.line n n') : Lines K n n' :=
  ⟨L, hL, h⟩

/-- Machines stay alike when more code is known to be alike, and distances are noted that agree with
that. -/
theorem Machine.Like.mono {K' : Likeness → Prop} {m m' : Machine} (h : m.Like K before m')
    (hK : Likeness.Covered K K') {D D' : Distances}
    (hD : ∀ L, K' L → ∀ id id', L.occurrence id id' → D'.find? id' = D.find? id) :
    Machine.Like K' before { m with distances := D } { m' with distances := D' } := by
  have value : ∀ v v' : Value, v.Like K v' → v.Like K' v' := fun _ _ hv => hv.mono hK
  exact { h with
    distances := hD
    tables := h.tables.imp fun _ _ ht => ht.imp value
    fields := h.fields.imp fun _ _ ht => ht.imp value
    elements := h.elements.imp fun _ _ ha => ha.imp value }

section

variable {scopes scopes' : Scopes}
  (h : ArrayRel (Table.Rel (Value.Like K)) scopes.tables scopes'.tables)

include h

theorem Scopes.next_eq : scopes'.next = scopes.next :=
  h.size_eq

theorem Scopes.value?_rel (scope : Nat) (name : String) :
    Option.Rel (Value.Like K) (scopes.value? scope name) (scopes'.value? scope name) :=
  find?_rel h scope name

theorem Scopes.isSome_value?_eq (scope : Nat) (name : String) :
    (scopes'.value? scope name).isSome = (scopes.value? scope name).isSome := by
  have hv := Scopes.value?_rel h scope name
  generalize scopes.value? scope name = v? at hv
  generalize scopes'.value? scope name = v'? at hv
  cases hv <;> rfl

theorem Scopes.find?_rel (environment : Environment) (name : String) :
    Option.Rel (Value.Like K) (scopes.find? environment name)
      (scopes'.find? environment name) := by
  unfold Scopes.find?
  induction environment with
  | nil => exact .none
  | cons scope environment ih =>
    have hv := Scopes.value?_rel h scope name
    rw [List.findSome?_cons, List.findSome?_cons]
    generalize scopes.value? scope name = v? at hv
    generalize scopes'.value? scope name = v'? at hv
    cases hv with
    | none => exact ih
    | some hv => exact .some hv

theorem Scopes.findAt?_rel (environment : Environment) (distance : Nat) (name : String) :
    Option.Rel (Value.Like K) (scopes.findAt? environment distance name)
      (scopes'.findAt? environment distance name) := by
  unfold Scopes.findAt?
  cases environment[distance]? with
  | none => exact .none
  | some scope => exact Scopes.value?_rel h scope name

theorem Scopes.holder?_eq (environment : Environment) (name : String) :
    scopes'.holder? environment name = scopes.holder? environment name := by
  simp only [Scopes.holder?, Scopes.isSome_value?_eq h]

theorem Scopes.holderAt?_eq (environment : Environment) (distance : Nat) (name : String) :
    scopes'.holderAt? environment distance name = scopes.holderAt? environment distance name := by
  simp only [Scopes.holderAt?, Scopes.isSome_value?_eq h]

theorem Scopes.put_rel (scope : Nat) (name : String) {v v' : Value} (hv : v.Like K v') :
    ArrayRel (Table.Rel (Value.Like K)) (scopes.put scope name v).tables
      (scopes'.put scope name v').tables :=
  h.modify scope fun _ _ ht => ht.insert name hv

theorem Scopes.define_rel (environment : Environment) (name : String) {v v' : Value}
    (hv : v.Like K v') :
    ArrayRel (Table.Rel (Value.Like K)) (scopes.define environment name v).tables
      (scopes'.define environment name v').tables := by
  cases environment with
  | nil => exact h
  | cons scope environment => exact Scopes.put_rel h scope name hv

end

/-- What is read hangs on the input only. -/
theorem Console.readLine_eq {c c' : Console} (h : c'.input = c.input) :
    c'.readLine.1 = c.readLine.1 ∧ c'.readLine.2.input = c.readLine.2.input := by
  obtain ⟨input, printed, sink⟩ := c
  obtain ⟨input', printed', sink'⟩ := c'
  have h : input' = input := h
  subst h
  unfold readLine takeLine
  cases input' with
  | nil => exact ⟨rfl, rfl⟩
  | cons byte rest =>
    dsimp only
    cases (byte :: rest).dropWhile (· ≠ lineFeed) with
    | nil =>
      dsimp only
      split <;> exact ⟨rfl, rfl⟩
    | cons feed rest =>
      dsimp only
      split <;> exact ⟨rfl, rfl⟩

namespace Eval

section

variable {V : Value → Value → Prop} {v v' u u' : Value} {line line' : Nat}
  (hl : Lines K line line')

include hl

theorem failAt_inStep {α β : Type} {V : α → β → Prop} (e : RuntimeError) :
    InStep K before V (failAt line e) (failAt line' e) :=
  .fail (.runtime hl)

theorem unary_inStep (op : UnaryOp) (h : v.Like K v') :
    InStep K before (Value.Like K) (ofExcept (op.apply line v)) (ofExcept (op.apply line' v')) := by
  cases op with
  | not =>
    simp only [UnaryOp.apply, h.isTruthy_eq]
    exact .pure .bool
  | negate =>
    cases h with
    | number => exact .pure .number
    | _ => exact failAt_inStep hl _

theorem onNumbers_inStep {f : Float → Float → Value} (hf : ∀ x y, (f x y).Like K (f x y))
    (h : v.Like K v') (h' : u.Like K u') :
    InStep K before (Value.Like K) (ofExcept (BinaryOp.onNumbers line v u f))
      (ofExcept (BinaryOp.onNumbers line' v' u' f)) := by
  cases h with
  | number =>
    cases h' with
    | number => exact .pure (hf _ _)
    | _ => exact failAt_inStep hl _
  | _ => exact failAt_inStep hl _

theorem sum_inStep (h : v.Like K v') (h' : u.Like K u') :
    InStep K before (Value.Like K) (ofExcept (BinaryOp.sum line v u))
      (ofExcept (BinaryOp.sum line' v' u')) := by
  cases h with
  | number =>
    cases h' with
    | number => exact .pure .number
    | string => exact .pure .string
    | _ => exact failAt_inStep hl _
  | string =>
    cases h' with
    | number | string => exact .pure .string
    | _ => exact failAt_inStep hl _
  | _ => exact failAt_inStep hl _

theorem quotient_inStep (h : v.Like K v') (h' : u.Like K u') :
    InStep K before (Value.Like K) (ofExcept (BinaryOp.quotient line v u))
      (ofExcept (BinaryOp.quotient line' v' u')) := by
  cases h with
  | number =>
    cases h' with
    | @number y =>
      simp only [BinaryOp.quotient]
      generalize (y == 0) = zero
      cases zero with
      | true => exact failAt_inStep hl _
      | false => exact .pure .number
    | _ => exact failAt_inStep hl _
  | _ => exact failAt_inStep hl _

theorem binary_inStep (op : BinaryOp) (h : v.Like K v') (h' : u.Like K u') :
    InStep K before (Value.Like K) (ofExcept (op.apply line v u))
      (ofExcept (op.apply line' v' u')) := by
  cases op with
  | add => exact sum_inStep hl h h'
  | divide => exact quotient_inStep hl h h'
  | equal | notEqual =>
    simp only [BinaryOp.apply, h.same_eq h']
    exact .pure .bool
  | subtract | multiply => exact onNumbers_inStep hl (fun _ _ => .number) h h'
  | _ => exact onNumbers_inStep hl (fun _ _ => .bool) h h'

theorem checkDepth_inStep :
    InStep K before (fun _ _ => True) (checkDepth line) (checkDepth line') := by
  refine Lockstep.get.bind fun m m' hm => ?_
  rw [hm.maxDepth, hm.depth]
  split
  · exact .fail (.stackOverflow hl)
  · exact .pure trivial

theorem callableOf_inStep (h : v.Like K v') (count : Nat) :
    InStep K before (Callable.Like K) (callableOf v count line) (callableOf v' count line') := by
  cases h with
  | @callable c c' h =>
    unfold callableOf
    simp only [h.arity_eq]
    split
    · exact .bind (failAt_inStep hl _) fun (_ : PUnit) (_ : PUnit) (_ : True) => .pure h
    · exact .pure h
  | _ => exact failAt_inStep hl _

theorem placeIn_inStep (h : v.Like K v') (length : Nat) :
    InStep K before Eq (placeIn length v line) (placeIn length v' line') := by
  cases h with
  | @number x =>
    unfold placeIn
    dsimp only
    split
    · exact .pure rfl
    · exact failAt_inStep hl _
  | _ => exact failAt_inStep hl _

end

section

variable {V : Value → Value → Prop} {v v' u u' : Value} {name name' : Name}
  (ht : name'.text = name.text) (hl : Lines K name.line name'.line)

include ht hl

theorem readAt_inStep {scopes scopes' : Scopes}
    (h : ArrayRel (Table.Rel (Value.Like K)) scopes.tables scopes'.tables)
    (environment : Environment) (distance : Nat) :
    InStep K before (Value.Like K) (ofExcept (scopes.readAt environment distance name))
      (ofExcept (scopes'.readAt environment distance name')) := by
  have hv := Scopes.findAt?_rel h environment distance name.text
  unfold Scopes.readAt
  rw [ht]
  generalize scopes.findAt? environment distance name.text = v? at hv
  generalize scopes'.findAt? environment distance name.text = v'? at hv
  cases hv with
  | none => exact failAt_inStep hl _
  | some hv => exact .pure hv

theorem readVariable_inStep {L : Likeness} (hL : K L) {id id' : Nat} (hid : L.occurrence id id') :
    InStep K before (Value.Like K) (readVariable id name) (readVariable id' name') := by
  refine Lockstep.get.bind fun m m' hm => ?_
  rw [hm.distances L hL id id' hid, hm.environment]
  cases m.distances.find? id with
  | some distance => exact readAt_inStep ht hl hm.tables m.environment distance
  | none =>
    have hv := Scopes.find?_rel hm.tables globalEnvironment name.text
    unfold Scopes.read
    rw [ht]
    dsimp only
    generalize m.scopes.find? globalEnvironment name.text = v? at hv
    generalize m'.scopes.find? globalEnvironment name.text = v'? at hv
    cases hv with
    | none => exact failAt_inStep hl _
    | some hv => exact .pure hv

theorem target_inStep {scopes scopes' : Scopes}
    (h : ArrayRel (Table.Rel (Value.Like K)) scopes.tables scopes'.tables)
    (environment : Environment) :
    InStep K before Eq (ofExcept (scopes.target environment name))
      (ofExcept (scopes'.target environment name')) := by
  unfold Scopes.target
  rw [ht, Scopes.holder?_eq h]
  cases scopes.holder? environment name.text with
  | none => exact failAt_inStep hl _
  | some scope => exact .pure rfl

theorem targetAt_inStep {scopes scopes' : Scopes}
    (h : ArrayRel (Table.Rel (Value.Like K)) scopes.tables scopes'.tables)
    (environment : Environment) (distance : Nat) :
    InStep K before Eq (ofExcept (scopes.targetAt environment distance name))
      (ofExcept (scopes'.targetAt environment distance name')) := by
  unfold Scopes.targetAt
  rw [ht, Scopes.holderAt?_eq h]
  cases scopes.holderAt? environment distance name.text with
  | none => exact failAt_inStep hl _
  | some scope => exact .pure rfl

theorem targetOf_inStep {L : Likeness} (hL : K L) {id id' : Nat} (hid : L.occurrence id id') :
    InStep K before Eq (targetOf ⟨id, name⟩) (targetOf ⟨id', name'⟩) := by
  refine Lockstep.get.bind fun m m' hm => ?_
  rw [hm.distances L hL id id' hid, hm.environment]
  dsimp only
  cases m.distances.find? id with
  | some distance => exact targetAt_inStep ht hl hm.tables m.environment distance
  | none => exact target_inStep ht hl hm.tables globalEnvironment

omit ht in
theorem instanceOf_inStep (h : v.Like K v') :
    InStep K before (Instance.Like K) (instanceOf v name) (instanceOf v' name') := by
  cases h with
  | «instance» h => exact .pure h
  | _ => exact failAt_inStep hl _

end

/-- A step that changes like machines so that they stay alike. -/
theorem modify_inStep {f g : Machine → Machine}
    (h : ∀ m m', m.Like K before m' → (f m).Like K before (g m')) :
    InStep K before (fun _ _ => True) (modify f) (modify g) :=
  .modify h

theorem put_inStep (scope : Nat) (name : String) {v v' : Value} (hv : v.Like K v') :
    InStep K before (fun _ _ => True)
      (modify fun m => { m with scopes := m.scopes.put scope name v })
      (modify fun m => { m with scopes := m.scopes.put scope name v' }) :=
  modify_inStep fun _ _ hm => { hm with tables := Scopes.put_rel hm.tables scope name hv }

theorem writeVariable_inStep {L : Likeness} (hL : K L) {o o' : Occurrence} (ho : o.Like L o')
    {v v' : Value} (hv : v.Like K v') :
    InStep K before (fun _ _ => True) (writeVariable o v) (writeVariable o' v') := by
  obtain ⟨id, name⟩ := o
  obtain ⟨id', name'⟩ := o'
  obtain ⟨hid, ht, hl⟩ := ho
  refine (targetOf_inStep ht (.intro hL hl) hL hid).bind fun scope _ hs => ?_
  subst hs
  have ht : name'.text = name.text := ht
  dsimp only
  rw [ht]
  exact put_inStep scope name.text hv

theorem define_inStep (name : String) {v v' : Value} (hv : v.Like K v') :
    InStep K before (fun _ _ => True) (define name v) (define name v') :=
  modify_inStep fun _ _ hm =>
    { hm with tables := hm.environment ▸ Scopes.define_rel hm.tables _ name hv }

theorem openScope_inStep (outer : Environment) {t t' : Table Value}
    (ht : Table.Rel (Value.Like K) t t') :
    InStep K before Eq (openScope outer t) (openScope outer t') :=
  .step fun _ _ hm =>
    ⟨congrArg (· :: outer) (Scopes.next_eq hm.tables).symm,
      { hm with tables := hm.tables.push ht }⟩

theorem freshId_inStep : InStep K before Eq freshId freshId :=
  .step fun _ _ hm => ⟨hm.nextId.symm, { hm with nextId := congrArg (· + 1) hm.nextId }⟩

theorem newFunction_inStep {c c' : Closure} (h : c.Like K c') :
    InStep K before (Callable.Like K) (newFunction c) (newFunction c') :=
  freshId_inStep.bind fun _ _ hid => .pure (hid ▸ .function h)

theorem declareFunction_inStep {L : Likeness} (hL : K L) {f f' : Function} (h : f.Like L false f') :
    InStep K before (Callable.Like K) (declareFunction f) (declareFunction f') :=
  Lockstep.get.bind fun _ _ hm => newFunction_inStep ⟨⟨L, hL, h⟩, hm.environment, rfl⟩

theorem newNative_inStep (n : Native) :
    InStep K before (Value.Like K) (newNative n) (newNative n) :=
  freshId_inStep.bind fun _ _ hid => .pure (hid ▸ .callable .native)

theorem newInstance_inStep {c c' : ClassValue} (h : c.Like K c') :
    InStep K before (Instance.Like K) (newInstance c) (newInstance c') :=
  .step fun _ _ hm => ⟨⟨hm.fields.size_eq, h⟩, { hm with fields := hm.fields.push .empty }⟩

theorem bindThis_inStep {c c' : Closure} (h : c.Like K c') {i i' : Instance} (hi : i.Like K i') :
    InStep K before (Closure.Like K) (bindThis c i) (bindThis c' i') := by
  have ht := Table.Rel.empty.insert "this" (Value.Like.instance hi)
  unfold bindThis
  rw [h.environment]
  exact (openScope_inStep c.environment ht).bind fun _ _ he =>
    .pure ⟨h.function, he.symm, h.isInitializer⟩

theorem field?_inStep {i i' : Instance} (h : i.Like K i') (name : String) :
    InStep K before (Option.Rel (Value.Like K)) (field? i name) (field? i' name) := by
  refine Lockstep.get.bind fun m m' hm => .pure ?_
  rw [h.id]
  exact find?_rel hm.fields i.id name

theorem setField_inStep {i i' : Instance} (h : i.Like K i') (name : String) {v v' : Value}
    (hv : v.Like K v') :
    InStep K before (fun _ _ => True) (setField i name v) (setField i' name v') := by
  unfold setField
  rw [h.id]
  exact modify_inStep fun _ _ hm =>
    { hm with fields := hm.fields.modify i.id fun _ _ ht => ht.insert name hv }

theorem print_inStep (text : String) :
    InStep K before (fun _ _ => True) (print text) (print text) := by
  refine Lockstep.get.bind fun m m' hm => ?_
  rw [hm.sink]
  cases m.console.sink.writeRefusal? with
  | some reason => exact .fail .io
  | none =>
    refine modify_inStep fun m m' hm => { hm with printed := ?_ }
    show m'.console.printed.push text = before ++ m.console.printed.push text
    rw [hm.printed, Array.append_push]

theorem readLine_inStep : InStep K before Eq readLine readLine := by
  refine .step fun m m' hm => ?_
  obtain ⟨hanswer, hinput⟩ := Console.readLine_eq hm.input
  obtain ⟨hsink, hprinted⟩ := m.console.readLine_keeps
  obtain ⟨hsink', hprinted'⟩ := m'.console.readLine_keeps
  refine ⟨hanswer.symm, { hm with input := hinput, sink := ?_, printed := ?_ }⟩
  · exact hsink'.trans (hm.sink.trans hsink.symm)
  · exact hprinted'.trans (hm.printed.trans (congrArg (before ++ ·) hprinted.symm))

theorem readClock_inStep : InStep K before Eq readClock readClock :=
  .step fun _ _ hm => ⟨by rw [hm.clock, hm.readings],
    { hm with readings := congrArg (· + 1) hm.readings }⟩

theorem reserve_inStep (length : Nat) : InStep K before Eq (reserve length) (reserve length) :=
  .step fun _ _ hm => ⟨(Machine.hasRoom_congr hm.memory hm.requests length).symm,
    { hm with requests := congrArg (· + 1) hm.requests }⟩

/-! ### Arrays -/

theorem elements_inStep (array : Nat) :
    InStep K before (fun a a' => List.Forall₂ (Value.Like K) a.toList a'.toList) (elements array)
      (elements array) := by
  refine Lockstep.get.bind fun m m' hm => .pure ?_
  have h := hm.elements array
  generalize m.arrays[array]? = a at h
  generalize m'.arrays[array]? = a' at h
  cases h with
  | none => exact .nil
  | some h => exact h

/-- A change of one array that keeps its elements alike. -/
theorem changed_inStep (array : Nat) {f f' : Array Value → Array Value}
    (hf : ∀ a a', List.Forall₂ (Value.Like K) a.toList a'.toList →
      List.Forall₂ (Value.Like K) (f a).toList (f' a').toList) :
    InStep K before (fun _ _ => True) (modify fun m => { m with arrays := m.arrays.modify array f })
      (modify fun m => { m with arrays := m.arrays.modify array f' }) :=
  modify_inStep fun _ _ hm => { hm with elements := hm.elements.modify array hf }

section

variable {v v' u u' : Value} {line line' : Nat} (hl : Lines K line line')

include hl

theorem newArray_inStep (h : v.Like K v') :
    InStep K before (Value.Like K) (newArray v line) (newArray v' line') := by
  have added (n : Nat) : InStep K before (Value.Like K)
      (modifyGet fun m => (.array m.arrays.size,
        { m with arrays := m.arrays.push (Array.replicate n .nil) }))
      (modifyGet fun m => (.array m.arrays.size,
        { m with arrays := m.arrays.push (Array.replicate n .nil) })) := by
    refine .step fun m m' hm => ⟨?_, { hm with elements := ?_ }⟩
    · rw [hm.elements.size_eq]
      exact .array
    · exact hm.elements.push (replicate_forall₂ n .nil)
  unfold newArray
  rw [h.natural?_eq]
  cases v.natural? with
  | none => exact failAt_inStep hl _
  | some n =>
    refine (reserve_inStep n).bind fun granted _ hgranted => ?_
    subst hgranted
    cases granted with
    | true => exact added n
    | false => exact failAt_inStep hl _

theorem arrayGet_inStep (h : v.Like K v') (array : Nat) :
    InStep K before (Value.Like K) (arrayGet array v line) (arrayGet array v' line') := by
  refine (elements_inStep array).bind fun a a' ha => ?_
  rw [size_of_forall₂ ha]
  refine (placeIn_inStep hl h _).bind fun i _ hi => .pure ?_
  subst hi
  have hv := getElem?_forall₂ ha i
  generalize a[i]? = u at hv
  generalize a'[i]? = u' at hv
  cases hv with
  | none => exact .nil
  | some hv => exact hv

theorem arraySet_inStep (h : v.Like K v') (hu : u.Like K u') (array : Nat) :
    InStep K before (fun _ _ => True) (arraySet array v u line) (arraySet array v' u' line') := by
  refine (elements_inStep array).bind fun a a' ha => ?_
  rw [size_of_forall₂ ha]
  refine (placeIn_inStep hl h _).bind fun i _ hi => ?_
  subst hi
  exact changed_inStep array fun a a' ha => setIfInBounds_forall₂ ha i hu

theorem arrayCopy_inStep (h : v.Like K v') (array : Nat) :
    InStep K before (fun _ _ => True) (arrayCopy array v line) (arrayCopy array v' line') := by
  cases h with
  | @array other =>
    refine (elements_inStep array).bind fun a a' ha => ?_
    refine (elements_inStep other).bind fun b b' hb => ?_
    rw [size_of_forall₂ ha, size_of_forall₂ hb]
    have copied : InStep K before (fun _ _ => True)
        (modify fun m => { m with arrays := m.arrays.modify other (overwritten a) })
        (modify fun m => { m with arrays := m.arrays.modify other (overwritten a') }) :=
      changed_inStep other fun _ _ h => overwritten_forall₂ ha h
    dsimp only
    split
    · exact .bind (failAt_inStep hl _) fun (_ : PUnit) (_ : PUnit) (_ : True) => copied
    · exact copied
  | _ => exact failAt_inStep hl _

theorem runNative_inStep (n : Native) {vs vs' : List Value}
    (h : List.Forall₂ (Value.Like K) vs vs') :
    InStep K before (Value.Like K) (runNative n vs line) (runNative n vs' line') := by
  have arity : InStep K before (Value.Like K)
      (failAt line (.wrongArity n.arity vs.length))
      (failAt line' (.wrongArity n.arity vs'.length)) := by
    rw [h.length_eq]
    exact failAt_inStep hl _
  cases n with
  | clock => exact readClock_inStep.bind fun n _ hn => hn ▸ .pure .number
  | input =>
    refine readLine_inStep.bind fun answer _ ha => ?_
    subst ha
    match answer with
    | .ok (some text) => exact .pure .string
    | .ok none => exact .pure .nil
    | .error _ => exact failAt_inStep hl _
  | array =>
    match vs, vs', h with
    | [_], [_], .cons hv .nil => exact newArray_inStep hl hv
    | [], [], .nil => exact arity
    | _ :: _ :: _, _ :: _ :: _, .cons _ (.cons _ _) => exact arity
  | arrayGet array =>
    match vs, vs', h with
    | [_], [_], .cons hv .nil => exact arrayGet_inStep hl hv array
    | [], [], .nil => exact arity
    | _ :: _ :: _, _ :: _ :: _, .cons _ (.cons _ _) => exact arity
  | arraySet array =>
    match vs, vs', h with
    | [_, _], [_, _], .cons hv (.cons hu .nil) =>
      exact (arraySet_inStep hl hv hu array).bind fun _ _ _ => .pure .nil
    | [], [], .nil => exact arity
    | [_], [_], .cons _ .nil => exact arity
    | _ :: _ :: _ :: _, _ :: _ :: _ :: _, .cons _ (.cons _ (.cons _ _)) => exact arity
  | arrayCopy array =>
    match vs, vs', h with
    | [_], [_], .cons hv .nil =>
      exact (arrayCopy_inStep hl hv array).bind fun _ _ _ => .pure .nil
    | [], [], .nil => exact arity
    | _ :: _ :: _, _ :: _ :: _, .cons _ (.cons _ _) => exact arity

end

/-! ### Properties and classes -/

section

variable {name name' : Name} (ht : name'.text = name.text) (hl : Lines K name.line name'.line)

include ht hl

theorem arrayProperty_inStep (array : Nat) :
    InStep K before (Value.Like K) (arrayProperty array name) (arrayProperty array name') := by
  unfold arrayProperty
  rw [ht]
  split
  · refine (elements_inStep array).bind fun a a' ha => ?_
    rw [size_of_forall₂ ha]
    exact .pure .number
  · exact newNative_inStep _
  · exact newNative_inStep _
  · exact newNative_inStep _
  · exact failAt_inStep hl _

omit ht hl in
theorem method_inStep {c c' : Closure} (h : c.Like K c') {i i' : Instance} (hi : i.Like K i') :
    InStep K before (Property.Like K)
      (do return .value (.callable (← newFunction (← bindThis c i))))
      (do return .value (.callable (← newFunction (← bindThis c' i')))) :=
  (bindThis_inStep h hi).bind fun _ _ hb => (newFunction_inStep hb).bind fun _ _ hf =>
    .pure (.value (.callable hf))

omit ht hl in
theorem getter_inStep {c c' : Closure} (h : c.Like K c') {i i' : Instance} (hi : i.Like K i') :
    InStep K before (Property.Like K) (do return .getter (← bindThis c i))
      (do return .getter (← bindThis c' i')) :=
  (bindThis_inStep h hi).bind fun _ _ hb => .pure (.getter hb)

theorem propertyOf_inStep {i i' : Instance} (h : i.Like K i') :
    InStep K before (Property.Like K) (propertyOf i name) (propertyOf i' name') := by
  unfold propertyOf
  rw [ht]
  refine (field?_inStep h name.text).bind fun v? v'? hv => ?_
  cases hv with
  | some hv => exact .pure (.value hv)
  | none =>
    have hg := h.class.getter? name.text
    dsimp only
    generalize i.class.getter? name.text = g? at hg
    generalize i'.class.getter? name.text = g'? at hg
    cases hg with
    | some hg => exact getter_inStep hg h
    | none =>
      have hm := h.class.method? name.text
      dsimp only
      generalize i.class.method? name.text = f? at hm
      generalize i'.class.method? name.text = f'? at hm
      cases hm with
      | some hm => exact method_inStep hm h
      | none => exact failAt_inStep hl _

theorem superPropertyOf_inStep {c c' : ClassValue} (hc : c.Like K c') {i i' : Instance}
    (h : i.Like K i') :
    InStep K before (Property.Like K) (superPropertyOf c i name) (superPropertyOf c' i' name') := by
  unfold superPropertyOf
  rw [ht]
  have hm := hc.method? name.text
  generalize c.method? name.text = f? at hm
  generalize c'.method? name.text = f'? at hm
  cases hm with
  | some hm => exact method_inStep hm h
  | none =>
    have hg := hc.getter? name.text
    dsimp only
    generalize c.getter? name.text = g? at hg
    generalize c'.getter? name.text = g'? at hg
    cases hg with
    | some hg => exact getter_inStep hg h
    | none => exact failAt_inStep hl _

theorem propertyOfValue_inStep {v v' : Value} (h : v.Like K v') :
    InStep K before (Property.Like K) (propertyOfValue v name) (propertyOfValue v' name') := by
  cases h with
  | «instance» h => exact propertyOf_inStep ht hl h
  | array => exact (arrayProperty_inStep ht hl _).bind fun _ _ hv => .pure (.value hv)
  | _ => exact failAt_inStep hl _

end

theorem readPlace_inStep {line line' : Nat} (hl : Lines K line line') {scopes scopes' : Scopes}
    (h : ArrayRel (Table.Rel (Value.Like K)) scopes.tables scopes'.tables) (text : String)
    (environment : Environment) (distance : Nat) :
    InStep K before (Value.Like K) (ofExcept (scopes.readAt environment distance ⟨text, line⟩))
      (ofExcept (scopes'.readAt environment distance ⟨text, line'⟩)) := by
  have ht : (⟨text, line'⟩ : Name).text = (⟨text, line⟩ : Name).text := rfl
  exact readAt_inStep ht hl h environment distance

theorem superOf_inStep {L : Likeness} (hL : K L) {id id' line line' : Nat}
    (hid : L.occurrence id id') (hl : Lines K line line') :
    InStep K before (fun r r' => r.1.Like K r'.1 ∧ r.2.Like K r'.2) (superOf id line)
      (superOf id' line') := by
  refine Lockstep.get.bind fun m m' hm => ?_
  rw [hm.distances L hL id id' hid, hm.environment]
  split
  · exact failAt_inStep hl _
  · exact failAt_inStep hl _
  · rename_i distance _
    have read (text : String) (distance : Nat) : InStep K before (Value.Like K)
        (ofExcept (m.scopes.readAt m.environment distance ⟨text, line⟩))
        (ofExcept (m'.scopes.readAt m.environment distance ⟨text, line'⟩)) :=
      readPlace_inStep hl hm.tables text m.environment distance
    refine (read "super" (distance + 1)).bind fun v v' hv => ?_
    cases hv with
    | callable hc =>
      cases hc with
      | «class» hc =>
        refine (read "this" distance).bind fun u u' hu => ?_
        cases hu with
        | «instance» hi => exact .pure ⟨hc, hi⟩
        | _ => exact failAt_inStep hl _
      | _ => exact failAt_inStep hl _
    | _ => exact failAt_inStep hl _

theorem superclassOf_inStep {L : Likeness} (hL : K L) {o? o'? : Option Occurrence}
    (h : Option.Rel (Occurrence.Like L) o? o'?) :
    InStep K before (Option.Rel (ClassValue.Like K)) (superclassOf o?) (superclassOf o'?) := by
  cases h with
  | none => exact .pure .none
  | some ho =>
    have hl := Lines.intro hL ho.name.line
    refine (readVariable_inStep ho.name.text hl hL ho.id).bind fun v v' hv => ?_
    cases hv with
    | callable hc =>
      cases hc with
      | «class» hc => exact .pure (.some hc)
      | _ => exact failAt_inStep hl _
    | _ => exact failAt_inStep hl _

theorem memberEnvironment_inStep {c? c'? : Option ClassValue}
    (h : Option.Rel (ClassValue.Like K) c? c'?) :
    InStep K before Eq (memberEnvironment c?) (memberEnvironment c'?) := by
  refine Lockstep.get.bind fun m m' hm => ?_
  rw [hm.environment]
  cases h with
  | none => exact .pure rfl
  | some hc =>
    have ht := Table.Rel.empty.insert "super" (Value.Like.callable (.class hc))
    exact openScope_inStep m.environment ht

end Eval

/-- Like members under the same keys, if like functions are initializers together. -/
theorem insertMembers_rel {L : Likeness} (hL : K L) (key : String → String)
    (environment : Environment) {isInitializer : Function → Bool} {fs fs' : List Function}
    (hi : ∀ f f', f.Like L (isInitializer f) f' → isInitializer f' = isInitializer f)
    (h : functionsLike L isInitializer fs fs') {t t' : Table Closure}
    (ht : Table.Rel (Closure.Like K) t t') :
    Table.Rel (Closure.Like K) (insertMembers key isInitializer environment fs t)
      (insertMembers key isInitializer environment fs' t') := by
  unfold insertMembers
  induction functionsLike_iff.mp h generalizing t t' with
  | nil => exact ht
  | @cons f f' fs fs' hf hfs ih =>
    rw [List.foldl_cons, List.foldl_cons, hf.displayName_eq]
    have hclosure : Closure.Like K ⟨f, environment, isInitializer f⟩
        ⟨f', environment, isInitializer f'⟩ := ⟨⟨L, hL, hf⟩, rfl, hi f f' hf⟩
    exact ih (functionsLike_iff.mpr hfs) (ht.insert (key f.displayName) hclosure)

/-- The members of like classes. -/
theorem memberTable_rel {L : Likeness} (hL : K L) (environment : Environment)
    {methods methods' getters getters' : List Function}
    (hm : functionsLike L (fun f => f.methodKind = .initializer) methods methods')
    (hg : functionsLike L (fun _ => false) getters getters') :
    Table.Rel (Closure.Like K) (memberTable environment methods getters)
      (memberTable environment methods' getters') :=
  insertMembers_rel hL getterKey environment (fun _ _ _ => rfl) hg
    (insertMembers_rel hL id environment (fun f f' hf => by rw [hf.methodKind_eq]) hm .empty)

theorem parameterTable_rel {L : Likeness} {ps ps' : List Name}
    (h : List.Forall₂ (Name.Like L) ps ps') {vs vs' : List Value}
    (hv : List.Forall₂ (Value.Like K) vs vs') :
    Table.Rel (Value.Like K) (parameterTable ps vs) (parameterTable ps' vs') := by
  have step : ∀ {t t' : Table Value}, Table.Rel (Value.Like K) t t' →
      Table.Rel (Value.Like K)
        ((ps.zip vs).foldl (fun t p => t.insert p.1.text p.2) t)
        ((ps'.zip vs').foldl (fun t p => t.insert p.1.text p.2) t') := by
    induction h generalizing vs vs' with
    | nil => exact id
    | @cons p p' ps ps' hp _ ih =>
      intro t t' ht
      cases hv with
      | nil => exact ht
      | cons hv hvs =>
        rw [List.zip_cons_cons, List.zip_cons_cons, List.foldl_cons, List.foldl_cons]
        rw [hp.text]
        exact ih hvs (ht.insert p.text hv)
  exact step .empty

/-- There is no code in a machine that has run nothing. -/
theorem Machine.start_like (maxDepth : Nat) (input : List UInt8) (sink : Sink)
    (clock : Nat → Nat) (memory : Memory) :
    Machine.Like K #[] (.start maxDepth input sink clock memory)
      (.start maxDepth input sink clock memory) := by
  have hnatives : ∀ (natives : List (Native × Nat)) {t t' : Table Value},
      Table.Rel (Value.Like K) t t' → Table.Rel (Value.Like K)
        (natives.foldl (fun t p => t.insert p.1.name (.callable (.native p.2 p.1))) t)
        (natives.foldl (fun t p => t.insert p.1.name (.callable (.native p.2 p.1))) t') := by
    intro natives
    induction natives with
    | nil => exact id
    | cons n natives ih => exact fun ht => ih (ht.insert n.1.name (.callable .native))
  have hempty : ∀ {α : Type} {R : α → α → Prop}, ArrayRel R #[] #[] := fun _ => .none
  constructor
  · exact fun _ _ _ _ _ => rfl
  · exact hempty.push (hnatives _ .empty)
  · exact hempty
  · exact hempty
  all_goals rfl

namespace Eval

theorem declareClass_inStep {L : Likeness} (hL : K L) {c c' : Class} (h : c.Like L c') :
    InStep K before (fun _ _ => True) (declareClass c) (declareClass c') := by
  obtain ⟨name, superclass?, methods, getters⟩ := c
  obtain ⟨name', superclass'?, methods', getters', rfl, hn, hsuper, hmethods, hgetters⟩ := h
  have ht : name'.text = name.text := hn.text
  have hl := Lines.intro hL hn.line
  refine (superclassOf_inStep hL hsuper).bind fun c? c'? hc => ?_
  dsimp only
  rw [ht]
  refine (define_inStep name.text .nil).bind fun _ _ _ => ?_
  refine (memberEnvironment_inStep hc).bind fun environment _ he => ?_
  subst he
  refine freshId_inStep.bind fun id _ hid => ?_
  subst hid
  refine Lockstep.get.bind fun m m' hm => ?_
  rw [hm.environment]
  refine (target_inStep ht hl hm.tables m.environment).bind fun scope _ hs => ?_
  subst hs
  apply put_inStep
  have hmembers := memberTable_rel hL environment hmethods hgetters
  cases hc with
  | none => exact .callable (.class (.base hmembers))
  | some hc => exact .callable (.class (.subclass hc hmembers))

theorem resultOf_inStep {c c' : Closure} (h : c.Like K c') {flow flow' : Flow}
    (hf : flow.Like K flow') :
    InStep K before (Value.Like K) (resultOf c flow) (resultOf c' flow') := by
  unfold resultOf
  rw [h.isInitializer]
  split
  · obtain ⟨L, hL, hfunction⟩ := h.function
    have hl := Lines.intro hL hfunction.line
    refine Lockstep.get.bind fun m m' hm => ?_
    rw [h.environment]
    exact readPlace_inStep hl hm.tables "this" c.environment 0
  · cases hf with
    | «return» hv => exact .pure hv
    | _ => exact .pure .nil

end Eval

end LoxLang
