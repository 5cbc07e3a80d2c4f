import LoxLang.Proofs.Lexical.Agreement

/-!
The steps of a machine that do not look at variables. Beside each other on two machines, they end
in the same way, with values that stand for each other.
-/

namespace LoxLang

variable (P : Mention → Prop)

/-- A change of a machine that leaves variables and environment as they were. -/
structure Elsewhere (m m₁ : Machine) : Prop where
  scopes : m₁.scopes = m.scopes
  environment : m₁.environment = m.environment
  distances : m₁.distances = m.distances

/-- Two machines with linked objects, behind changes elsewhere. -/
structure Beside (w : World) (m m' m₁ m₁' : Machine) : Prop where
  objects : ObjectsLinked P w m₁ m₁'
  shared : Shared m₁ m₁'
  left : Elsewhere m m₁
  right : Elsewhere m' m₁'

/-- Results of computations that have gone on beside each other. -/
def Alike {α β : Type} (w : World) (V : α → β → Prop) (m m' : Machine) :
    EStateM.Result Stop Machine α → EStateM.Result Stop Machine β → Prop
  | .ok a m₁, .ok b m₁' => V a b ∧ Beside P w m m' m₁ m₁'
  | .error e m₁, .error e' m₁' => e' = e ∧ Beside P w m m' m₁ m₁'
  | _, _ => False

/-- Computations on two machines that end in the same way, with values that `V` relates. -/
def Parallel {α β : Type} (w : World) (V : α → β → Prop) (x : Eval α) (y : Eval β) : Prop :=
  ∀ m m', ObjectsLinked P w m m' → Shared m m' → Alike P w V m m' (x m) (y m')

variable {P} {w : World}

theorem Elsewhere.refl (m : Machine) : Elsewhere m m :=
  ⟨rfl, rfl, rfl⟩

theorem Elsewhere.trans {m m₁ m₂ : Machine} (h : Elsewhere m m₁) (h' : Elsewhere m₁ m₂) :
    Elsewhere m m₂ :=
  ⟨h'.scopes.trans h.scopes, h'.environment.trans h.environment, h'.distances.trans h.distances⟩

theorem Beside.trans {m m' m₁ m₁' m₂ m₂' : Machine} (h : Beside P w m m' m₁ m₁')
    (h' : Beside P w m₁ m₁' m₂ m₂') : Beside P w m m' m₂ m₂' :=
  ⟨h'.objects, h'.shared, h.left.trans h'.left, h.right.trans h'.right⟩

namespace Alike

variable {α β : Type} {V V₁ : α → β → Prop} {m m' m₁ m₁' : Machine}
  {r : EStateM.Result Stop Machine α} {r' : EStateM.Result Stop Machine β}

theorem cases (h : Alike P w V m m' r r') :
    (∃ a m₁ b m₁', r = .ok a m₁ ∧ r' = .ok b m₁' ∧ V a b ∧ Beside P w m m' m₁ m₁') ∨
      ∃ e m₁ m₁', r = .error e m₁ ∧ r' = .error e m₁' ∧ Beside P w m m' m₁ m₁' := by
  cases r with
  | ok a m₁ =>
    cases r' with
    | ok b m₁' => exact .inl ⟨a, m₁, b, m₁', rfl, rfl, h.1, h.2⟩
    | error e m₁' => exact h.elim
  | error e m₁ =>
    cases r' with
    | ok b m₁' => exact h.elim
    | error e' m₁' =>
      obtain ⟨rfl, hb⟩ := h
      exact .inr ⟨e', m₁, m₁', rfl, rfl, hb⟩

theorem weaken (h : Alike P w V m m' r r') (hv : ∀ a b, V a b → V₁ a b) :
    Alike P w V₁ m m' r r' := by
  rcases h.cases with ⟨a, m₁, b, m₁', rfl, rfl, h, hb⟩ | ⟨e, m₁, m₁', rfl, rfl, hb⟩
  · exact ⟨hv a b h, hb⟩
  · exact ⟨rfl, hb⟩

/-- What goes on beside later machines goes on beside earlier ones. -/
theorem since (hb : Beside P w m m' m₁ m₁') (h : Alike P w V m₁ m₁' r r') :
    Alike P w V m m' r r' := by
  rcases h.cases with ⟨a, m₂, b, m₂', rfl, rfl, hv, hb'⟩ | ⟨e, m₂, m₂', rfl, rfl, hb'⟩
  · exact ⟨hv, hb.trans hb'⟩
  · exact ⟨rfl, hb.trans hb'⟩

end Alike

namespace Parallel

variable {α β α' β' : Type} {V V₁ : α → β → Prop} {V' : α' → β' → Prop} {x : Eval α} {y : Eval β}

theorem pure {a : α} {b : β} (h : V a b) : Parallel P w V (Pure.pure a) (Pure.pure b) :=
  fun m m' ho hs => ⟨h, ho, hs, .refl m, .refl m'⟩

theorem fail {d : Diagnostic} : Parallel P w V (Fueled.fail d) (Fueled.fail d) :=
  fun m m' ho hs => ⟨rfl, ho, hs, .refl m, .refl m'⟩

/-- One step that gives a value and changes the machine. -/
theorem step {f : Machine → α × Machine} {g : Machine → β × Machine}
    (h : ∀ m m', ObjectsLinked P w m m' → Shared m m' →
      V (f m).1 (g m').1 ∧ Beside P w m m' (f m).2 (g m').2) :
    Parallel P w V (modifyGet f) (modifyGet g) :=
  fun m m' ho hs => h m m' ho hs

theorem bind {f : α → Eval α'} {g : β → Eval β'} (h : Parallel P w V x y)
    (hf : ∀ a b, V a b → Parallel P w V' (f a) (g b)) :
    Parallel P w V' (x >>= f) (y >>= g) := by
  intro m m' ho hs
  rcases (h m m' ho hs).cases with ⟨a, m₁, b, m₁', hx, hy, hv, hb⟩ | ⟨e, m₁, m₁', hx, hy, hb⟩
  · rw [Fueled.bind_ok hx, Fueled.bind_ok hy]
    exact (hf a b hv m₁ m₁' hb.objects hb.shared).since hb
  · rw [Fueled.bind_error hx, Fueled.bind_error hy]
    exact ⟨rfl, hb⟩

theorem weaken (h : Parallel P w V x y) (hv : ∀ a b, V a b → V₁ a b) : Parallel P w V₁ x y :=
  fun m m' ho hs => (h m m' ho hs).weaken hv

theorem get : Parallel P w (fun m m' => ObjectsLinked P w m m' ∧ Shared m m') get get :=
  fun m m' ho hs => ⟨⟨ho, hs⟩, ho, hs, .refl m, .refl m'⟩

end Parallel

section

variable {v v' u u' : Value} {line : Nat}

theorem UnaryOp.apply_parallel (op : UnaryOp) (h : ValueRelated P w v v') :
    Parallel P w (ValueRelated P w) (Eval.ofExcept (op.apply line v))
      (Eval.ofExcept (op.apply line v')) := by
  cases op with
  | not =>
    simp only [UnaryOp.apply, h.isTruthy_eq]
    exact .pure .bool
  | negate =>
    cases h with
    | number => exact .pure .number
    | _ => exact .fail

theorem BinaryOp.onNumbers_parallel {f : Float → Float → Value}
    (hf : ∀ x y, ValueRelated P w (f x y) (f x y)) (h : ValueRelated P w v v')
    (h' : ValueRelated P w u u') :
    Parallel P w (ValueRelated P w) (Eval.ofExcept (BinaryOp.onNumbers line v u f))
      (Eval.ofExcept (BinaryOp.onNumbers line v' u' f)) := by
  cases h with
  | number =>
    cases h' with
    | number => exact .pure (hf _ _)
    | _ => exact .fail
  | _ => exact .fail

theorem BinaryOp.sum_parallel (h : ValueRelated P w v v') (h' : ValueRelated P w u u') :
    Parallel P w (ValueRelated P w) (Eval.ofExcept (BinaryOp.sum line v u))
      (Eval.ofExcept (BinaryOp.sum line v' u')) := by
  cases h with
  | number =>
    cases h' with
    | number => exact .pure .number
    | string => exact .pure .string
    | _ => exact .fail
  | string =>
    cases h' with
    | number | string => exact .pure .string
    | _ => exact .fail
  | _ => exact .fail

theorem BinaryOp.quotient_parallel (h : ValueRelated P w v v') (h' : ValueRelated P w u u') :
    Parallel P w (ValueRelated P w) (Eval.ofExcept (BinaryOp.quotient line v u))
      (Eval.ofExcept (BinaryOp.quotient line v' u')) := by
  cases h with
  | number =>
    cases h' with
    | @number y =>
      simp only [BinaryOp.quotient]
      generalize (y == 0) = zero
      cases zero with
      | true => exact .fail
      | false => exact .pure .number
    | _ => exact .fail
  | _ => exact .fail

theorem BinaryOp.apply_parallel (op : BinaryOp) (h : ValueRelated P w v v')
    (h' : ValueRelated P w u u') :
    Parallel P w (ValueRelated P w) (Eval.ofExcept (op.apply line v u))
      (Eval.ofExcept (op.apply line v' u')) := by
  cases op with
  | add => exact BinaryOp.sum_parallel h h'
  | divide => exact BinaryOp.quotient_parallel h h'
  | equal | notEqual =>
    simp only [BinaryOp.apply, h.same_eq h']
    exact .pure .bool
  | subtract | multiply => exact BinaryOp.onNumbers_parallel (fun _ _ => .number) h h'
  | _ => exact BinaryOp.onNumbers_parallel (fun _ _ => .bool) h h'

theorem LogicalOp.decidedBy_eq (op : LogicalOp) (h : ValueRelated P w v v') :
    op.decidedBy v' = op.decidedBy v := by
  cases op <;> simp [LogicalOp.decidedBy, h.isTruthy_eq]

end

namespace Eval

/-- Machines that differ in nothing but what is shared still have linked objects. -/
theorem beside_shared {m m' m₁ m₁' : Machine} (ho : ObjectsLinked P w m m') (hs : Shared m₁ m₁')
    (hf : m₁.fields = m.fields) (hf' : m₁'.fields = m'.fields) (ha : m₁.arrays = m.arrays)
    (ha' : m₁'.arrays = m'.arrays) (hl : Elsewhere m m₁) (hr : Elsewhere m' m₁') :
    Beside P w m m' m₁ m₁' :=
  ⟨ho.later w.le_refl hf hf' ha ha', hs, hl, hr⟩

theorem freshId_parallel : Parallel P w Eq freshId freshId := by
  apply Parallel.step
  intro m m' ho hs
  refine ⟨hs.nextId.symm, beside_shared ho ?_ rfl rfl rfl rfl ⟨rfl, rfl, rfl⟩ ⟨rfl, rfl, rfl⟩⟩
  exact { hs with nextId := congrArg (· + 1) hs.nextId }

theorem newFunction_parallel {c c' : Closure} (h : FunctionRelated P w c c') :
    Parallel P w (fun f f' => CallableRelated P w f f' ∧ f.arity = c.arity) (newFunction c)
      (newFunction c') :=
  freshId_parallel.bind fun _ _ hid => .pure ⟨hid ▸ .function h, rfl⟩

theorem newNative_parallel (n : Native) :
    Parallel P w (ValueRelated P w) (newNative n) (newNative n) :=
  freshId_parallel.bind fun _ _ hid => .pure (hid ▸ .callable .native)

theorem readClock_parallel : Parallel P w Eq readClock readClock := by
  apply Parallel.step
  intro m m' ho hs
  refine ⟨by rw [hs.clock, hs.readings],
    beside_shared ho ?_ rfl rfl rfl rfl ⟨rfl, rfl, rfl⟩ ⟨rfl, rfl, rfl⟩⟩
  exact { hs with readings := congrArg (· + 1) hs.readings }

theorem reserve_parallel (length : Nat) : Parallel P w Eq (reserve length) (reserve length) := by
  apply Parallel.step
  intro m m' ho hs
  refine ⟨(Machine.hasRoom_congr hs.memory hs.requests length).symm,
    beside_shared ho ?_ rfl rfl rfl rfl ⟨rfl, rfl, rfl⟩ ⟨rfl, rfl, rfl⟩⟩
  exact { hs with requests := congrArg (· + 1) hs.requests }

theorem readLine_parallel : Parallel P w Eq readLine readLine := by
  apply Parallel.step
  intro m m' ho hs
  have hc := congrArg Console.readLine hs.console
  refine ⟨(congrArg Prod.fst hc).symm,
    beside_shared ho ?_ rfl rfl rfl rfl ⟨rfl, rfl, rfl⟩ ⟨rfl, rfl, rfl⟩⟩
  exact { hs with console := congrArg Prod.snd hc }

theorem print_parallel (text : String) : Parallel P w Eq (print text) (print text) := by
  refine Parallel.get.bind fun m m' ⟨_, hs⟩ => ?_
  rw [hs.console]
  cases m.console.sink.writeRefusal? with
  | some reason => exact .fail
  | none =>
    apply Parallel.step
    intro m m' ho hs
    refine ⟨rfl, beside_shared ho ?_ rfl rfl rfl rfl ⟨rfl, rfl, rfl⟩ ⟨rfl, rfl, rfl⟩⟩
    exact { hs with console := congrArg (·.print text) hs.console }

theorem checkDepth_parallel (line : Nat) : Parallel P w Eq (checkDepth line) (checkDepth line) := by
  refine Parallel.get.bind fun m m' ⟨_, hs⟩ => ?_
  rw [hs.maxDepth, hs.depth]
  split
  · exact .fail
  · exact .pure rfl

theorem newInstance_parallel {c c' : ClassValue} (h : ClassRelated P w c c') :
    Parallel P w (InstanceRelated P w) (newInstance c) (newInstance c') := by
  apply Parallel.step
  intro m m' ho hs
  refine ⟨⟨ho.instances, h⟩, ⟨⟨?_, ?_, ho.arrays, ho.elements⟩, { hs with }, ⟨rfl, rfl, rfl⟩,
    ⟨rfl, rfl, rfl⟩⟩⟩
  · simp [ho.instances]
  · intro i name
    rw [Array.getElem?_push, Array.getElem?_push, ho.instances]
    split
    · exact .none
    · exact ho.fields i name

theorem field?_parallel {i i' : Instance} (h : InstanceRelated P w i i') (name : String) :
    Parallel P w (Option.Rel (ValueRelated P w)) (field? i name) (field? i' name) := by
  refine Parallel.get.bind fun m m' ⟨ho, _⟩ => .pure ?_
  rw [h.id]
  exact ho.fields i.id name

theorem setField_parallel {i i' : Instance} {v v' : Value} (h : InstanceRelated P w i i')
    (name : String) (hv : ValueRelated P w v v') :
    Parallel P w Eq (setField i name v) (setField i' name v') := by
  apply Parallel.step
  intro m m' ho hs
  refine ⟨rfl, ⟨⟨?_, ?_, ho.arrays, ho.elements⟩, { hs with }, ⟨rfl, rfl, rfl⟩, ⟨rfl, rfl, rfl⟩⟩⟩
  · simp [ho.instances]
  · intro j key
    have old := ho.fields j key
    have both : m.fields[j]? = none ↔ m'.fields[j]? = none := by
      rw [Array.getElem?_eq_none_iff, Array.getElem?_eq_none_iff, ho.instances]
    simp only [Array.getElem?_modify, h.id]
    by_cases hj : i.id = j
    · simp only [hj, if_true]
      cases hf : m.fields[j]? with
      | none =>
        rw [both.mp hf]
        exact .none
      | some t =>
        cases hf' : m'.fields[j]? with
        | none => simp [both.mpr hf'] at hf
        | some t' =>
          rw [hf, hf'] at old
          simp only [Option.map_some, Option.bind_some, Table.find?_insert]
          split
          · exact .some hv
          · exact old
    · simp only [hj, if_false]
      exact old

theorem callableOf_parallel {v v' : Value} (h : ValueRelated P w v v') (count line : Nat) :
    Parallel P w (fun c c' => CallableRelated P w c c' ∧ count = c.arity)
      (callableOf v count line) (callableOf v' count line) := by
  cases h with
  | @callable c c' h =>
    unfold callableOf
    simp only [h.arity_eq]
    by_cases hc : count = c.arity
    · simp only [hc, ne_eq, not_true_eq_false, if_false]
      exact .pure ⟨h, rfl⟩
    · simp only [hc, ne_eq, not_false_eq_true, if_true]
      exact .fail
  | _ => exact .fail

theorem instanceOf_parallel {v v' : Value} (h : ValueRelated P w v v') (name : Name) :
    Parallel P w (InstanceRelated P w) (instanceOf v name) (instanceOf v' name) := by
  cases h with
  | «instance» h => exact .pure h
  | _ => exact .fail

/-- Elements of one array. -/
abbrev ElementsRelated (P : Mention → Prop) (w : World) (a a' : Array Value) : Prop :=
  List.Forall₂ (ValueRelated P w) a.toList a'.toList

theorem elements_parallel (array : Nat) :
    Parallel P w (ElementsRelated P w) (elements array) (elements array) := by
  refine Parallel.get.bind fun m m' ⟨ho, _⟩ => .pure ?_
  have h := ho.elements array
  generalize m.arrays[array]? = a at h
  generalize m'.arrays[array]? = a' at h
  cases h with
  | none => exact .nil
  | some h => exact h

theorem placeIn_parallel {v v' : Value} (h : ValueRelated P w v v') (length line : Nat) :
    Parallel P w Eq (placeIn length v line) (placeIn length v' line) := by
  cases h with
  | @number x =>
    unfold placeIn
    dsimp only
    split
    · exact .pure rfl
    · exact .fail
  | _ => exact .fail

theorem natural?_eq {v v' : Value} (h : ValueRelated P w v v') : v'.natural? = v.natural? := by
  cases h <;> rfl

theorem newArray_parallel {v v' : Value} (h : ValueRelated P w v v') (line : Nat) :
    Parallel P w (ValueRelated P w) (newArray v line) (newArray v' line) := by
  unfold newArray
  rw [natural?_eq h]
  cases v.natural? with
  | none => exact .fail
  | some n =>
    refine (reserve_parallel n).bind fun granted _ hgranted => ?_
    subst hgranted
    cases granted with
    | false => exact .fail
    | true =>
      apply Parallel.step
      intro m m' ho hs
      refine ⟨?_, ⟨⟨ho.instances, ho.fields, ?_, ?_⟩, { hs with }, ⟨rfl, rfl, rfl⟩,
        ⟨rfl, rfl, rfl⟩⟩⟩
      · rw [ho.arrays]
        exact .array
      · simp [ho.arrays]
      · intro i
        rw [Array.getElem?_push, Array.getElem?_push, ho.arrays]
        split
        · exact .some (replicate_forall₂ n .nil)
        · exact ho.elements i

theorem arrayGet_parallel {v v' : Value} (h : ValueRelated P w v v') (array line : Nat) :
    Parallel P w (ValueRelated P w) (arrayGet array v line) (arrayGet array v' line) := by
  refine (elements_parallel array).bind fun a a' ha => ?_
  rw [size_of_forall₂ ha]
  refine (placeIn_parallel h _ line).bind fun i _ hi => .pure ?_
  subst hi
  have hv := getElem?_forall₂ ha i
  generalize a[i]? = u at hv
  generalize a'[i]? = u' at hv
  cases hv with
  | none => exact .nil
  | some hv => exact hv

/-- Arrays that change in the same way stay linked. -/
theorem modify_parallel {f f' : Array Value → Array Value} (array : Nat)
    (h : ∀ a a', ElementsRelated P w a a' → ElementsRelated P w (f a) (f' a')) :
    Parallel P w Eq (modify fun m => { m with arrays := m.arrays.modify array f })
      (modify fun m => { m with arrays := m.arrays.modify array f' }) := by
  apply Parallel.step
  intro m m' ho hs
  refine ⟨rfl, ⟨⟨ho.instances, ho.fields, ?_, ?_⟩, { hs with }, ⟨rfl, rfl, rfl⟩, ⟨rfl, rfl, rfl⟩⟩⟩
  · simp [ho.arrays]
  · intro i
    have old := ho.elements i
    simp only [Array.getElem?_modify]
    split
    · generalize m.arrays[i]? = a at old
      generalize m'.arrays[i]? = a' at old
      cases old with
      | none => exact .none
      | some old => exact .some (h _ _ old)
    · exact old

theorem arraySet_parallel {v v' u u' : Value} (h : ValueRelated P w v v')
    (hu : ValueRelated P w u u') (array line : Nat) :
    Parallel P w Eq (arraySet array v u line) (arraySet array v' u' line) := by
  refine (elements_parallel array).bind fun a a' ha => ?_
  rw [size_of_forall₂ ha]
  refine (placeIn_parallel h _ line).bind fun i _ hi => ?_
  subst hi
  exact modify_parallel array fun a a' ha => setIfInBounds_forall₂ ha i hu

theorem arrayCopy_parallel {v v' : Value} (h : ValueRelated P w v v') (array line : Nat) :
    Parallel P w Eq (arrayCopy array v line) (arrayCopy array v' line) := by
  cases h with
  | @array other =>
    refine (elements_parallel array).bind fun a a' ha => ?_
    refine (elements_parallel other).bind fun b b' hb => ?_
    rw [size_of_forall₂ ha, size_of_forall₂ hb]
    dsimp only
    split
    · exact .fail
    · exact modify_parallel other fun _ _ h => overwritten_forall₂ ha h
  | _ => exact .fail

theorem arrayProperty_parallel (array : Nat) (name : Name) :
    Parallel P w (ValueRelated P w) (arrayProperty array name) (arrayProperty array name) := by
  unfold arrayProperty
  split
  · refine (elements_parallel array).bind fun a a' ha => ?_
    rw [size_of_forall₂ ha]
    exact .pure .number
  · exact newNative_parallel _
  · exact newNative_parallel _
  · exact newNative_parallel _
  · exact .fail

theorem runNative_parallel (n : Native) {vs vs' : List Value}
    (h : List.Forall₂ (ValueRelated P w) vs vs') (line : Nat) :
    Parallel P w (ValueRelated P w) (runNative n vs line) (runNative n vs' line) := by
  have arity : Parallel P w (ValueRelated P w)
      (failAt line (.wrongArity n.arity vs.length))
      (failAt line (.wrongArity n.arity vs'.length)) := by
    rw [h.length_eq]
    exact .fail
  cases n with
  | clock => exact readClock_parallel.bind fun n _ hn => hn ▸ .pure .number
  | input =>
    refine readLine_parallel.bind fun answer _ ha => ?_
    subst ha
    match answer with
    | .ok (some text) => exact .pure .string
    | .ok none => exact .pure .nil
    | .error _ => exact .fail
  | array =>
    match vs, vs', h with
    | [_], [_], .cons hv .nil => exact newArray_parallel hv line
    | [], [], .nil => exact arity
    | _ :: _ :: _, _ :: _ :: _, .cons _ (.cons _ _) => exact arity
  | arrayGet array =>
    match vs, vs', h with
    | [_], [_], .cons hv .nil => exact arrayGet_parallel hv array line
    | [], [], .nil => exact arity
    | _ :: _ :: _, _ :: _ :: _, .cons _ (.cons _ _) => exact arity
  | arraySet array =>
    match vs, vs', h with
    | [_, _], [_, _], .cons hv (.cons hu .nil) =>
      exact (arraySet_parallel hv hu array line).bind fun _ _ _ => .pure .nil
    | [], [], .nil => exact arity
    | [_], [_], .cons _ .nil => exact arity
    | _ :: _ :: _ :: _, _ :: _ :: _ :: _, .cons _ (.cons _ (.cons _ _)) => exact arity
  | arrayCopy array =>
    match vs, vs', h with
    | [_], [_], .cons hv .nil =>
      exact (arrayCopy_parallel hv array line).bind fun _ _ _ => .pure .nil
    | [], [], .nil => exact arity
    | _ :: _ :: _, _ :: _ :: _, .cons _ (.cons _ _) => exact arity

end Eval

end LoxLang
