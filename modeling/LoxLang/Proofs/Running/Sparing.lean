import LoxLang.Proofs.Running.Steadiness

/-!
What a computation leaves of the scopes that were there before. Most of what a machine does leaves
them alone: it opens new scopes at most.
-/

namespace LoxLang

/-- What holds of a machine and of one behind it, if the first scopes, as many as `bound`, neither
gain nor lose a name, and have another value only where an assignment has stored it. -/
structure Machine.Spares (bound : Nat) (assigned : Nat → String → Value → Prop)
    (m m' : Machine) : Prop where
  environment : m'.environment = m.environment
  next : m.scopes.next ≤ m'.scopes.next
  kept : ∀ scope < bound, ∀ name, m'.scopes.value? scope name = m.scopes.value? scope name ∨
    (m.scopes.value? scope name).isSome = true ∧
      ∃ v, assigned scope name v ∧ m'.scopes.value? scope name = some v

namespace Machine.Spares

variable {bound bound' : Nat} {assigned assigned' : Nat → String → Value → Prop}
  {m m₁ m₂ : Machine}

theorem of_scopes_eq (he : m₁.environment = m.environment) (hs : m₁.scopes = m.scopes) :
    m.Spares bound assigned m₁ :=
  ⟨he, Nat.le_of_eq (congrArg _ hs.symm), fun _ _ _ => .inl (by rw [hs])⟩

theorem refl (m : Machine) : m.Spares bound assigned m :=
  of_scopes_eq rfl rfl

theorem trans (h : m.Spares bound assigned m₁) (h' : m₁.Spares bound assigned m₂) :
    m.Spares bound assigned m₂ where
  environment := h'.environment.trans h.environment
  next := Nat.le_trans h.next h'.next
  kept scope hlt name := by
    rcases h.kept scope hlt name with heq | ⟨hsome, v, hv, hm₁⟩
    · rw [← heq]
      exact h'.kept scope hlt name
    · refine .inr ⟨hsome, ?_⟩
      rcases h'.kept scope hlt name with heq' | ⟨-, hstored⟩
      · exact ⟨v, hv, heq'.trans hm₁⟩
      · exact hstored

theorem mono (h : m.Spares bound assigned m₁) (hb : bound' ≤ bound)
    (ha : ∀ scope name v, assigned scope name v → assigned' scope name v) :
    m.Spares bound' assigned' m₁ where
  environment := h.environment
  next := h.next
  kept scope hlt name := by
    rcases h.kept scope (Nat.lt_of_lt_of_le hlt hb) name with heq | ⟨hsome, v, hv, hm₁⟩
    · exact .inl heq
    · exact .inr ⟨hsome, v, ha scope name v hv, hm₁⟩

/-- The names of the old scopes are as they were. -/
theorem isSome_eq (h : m.Spares bound assigned m₁) {scope : Nat} (hlt : scope < bound)
    (name : String) :
    (m₁.scopes.value? scope name).isSome = (m.scopes.value? scope name).isSome := by
  rcases h.kept scope hlt name with heq | ⟨hsome, v, -, hm₁⟩
  · rw [heq]
  · rw [hsome, hm₁]
    rfl

/-- A new scope leaves the old ones alone. -/
theorem push (m : Machine) (table : Table Value) (hb : bound ≤ m.scopes.next) :
    m.Spares bound assigned { m with scopes := m.scopes.push table } where
  environment := rfl
  next := by
    show m.scopes.tables.size ≤ (m.scopes.tables.push table).size
    rw [Array.size_push]
    exact Nat.le_succ _
  kept scope hlt name := by
    have hlt : scope < m.scopes.tables.size := Nat.lt_of_lt_of_le hlt hb
    have hold : (m.scopes.tables.push table)[scope]? = m.scopes.tables[scope]? := by
      rw [Array.getElem?_push_lt hlt, Array.getElem?_eq_getElem hlt]
    exact .inl (congrArg (·.bind (·.find? name)) hold)

theorem next_put (scopes : Scopes) (scope : Nat) (name : String) (v : Value) :
    (scopes.put scope name v).next = scopes.next :=
  Array.size_modify

/-- A value that is stored further in leaves the old scopes alone. -/
theorem put (m : Machine) {scope : Nat} (hb : bound ≤ scope) (name : String) (v : Value) :
    m.Spares bound assigned { m with scopes := m.scopes.put scope name v } where
  environment := rfl
  next := Nat.le_of_eq (next_put _ _ _ _).symm
  kept other hlt key := by
    have hne : other ≠ scope := by omega
    exact .inl ((Scopes.value?_put ..).trans (if_neg fun h => hne h.1))

/-- A value that is assigned takes the place of another. -/
theorem assign (m : Machine) {scope : Nat} {name : String} {v : Value}
    (hs : (m.scopes.value? scope name).isSome = true) (ha : assigned scope name v) :
    m.Spares bound assigned { m with scopes := m.scopes.put scope name v } where
  environment := rfl
  next := Nat.le_of_eq (next_put _ _ _ _).symm
  kept other hlt key := by
    by_cases h : other = scope ∧ key = name ∧ scope < m.scopes.next
    · obtain ⟨rfl, rfl, hnext⟩ := h
      exact .inr ⟨hs, v, ha, (Scopes.value?_put ..).trans (if_pos ⟨rfl, rfl, hnext⟩)⟩
    · exact .inl ((Scopes.value?_put ..).trans (if_neg h))

end Machine.Spares

namespace Eval

/-- A computation that leaves all scopes alone that are there before it. -/
def Sparing {α : Type} (x : Eval α) : Prop :=
  ∀ m : Machine, m.Spares m.scopes.next (fun _ _ _ => False) (Fueled.behind (x m))

namespace Sparing

variable {α β : Type} {x : Eval α} {f : α → Eval β}

theorem spares (h : Sparing x) {m : Machine} {bound : Nat} (hb : bound ≤ m.scopes.next)
    (assigned : Nat → String → Value → Prop) : m.Spares bound assigned (Fueled.behind (x m)) :=
  (h m).mono hb nofun

theorem pure (a : α) : Sparing (Pure.pure a : Eval α) :=
  fun _ => .refl _

theorem get : Sparing (MonadStateOf.get : Eval Machine) :=
  fun _ => .refl _

theorem fail (d : Diagnostic) : Sparing (Fueled.fail d : Eval α) :=
  fun _ => .refl _

theorem ofExcept (r : Except Diagnostic α) : Sparing (Eval.ofExcept r) := by
  cases r with
  | ok a => exact .pure a
  | error d => exact .fail d

/-- A step that changes neither the scopes nor the environment. -/
theorem step {f : Machine → α × Machine} (he : ∀ m, (f m).2.environment = m.environment)
    (hs : ∀ m, (f m).2.scopes = m.scopes) : Sparing (modifyGet f : Eval α) :=
  fun m => .of_scopes_eq (he m) (hs m)

theorem bind (h : Sparing x) (hf : ∀ a, Sparing (f a)) : Sparing (x >>= f) := by
  intro m
  have hx := h m
  cases hr : x m with
  | ok a m₁ =>
    rw [hr] at hx
    rw [Fueled.bind_ok hr]
    exact hx.trans ((hf a).spares hx.next _)
  | error e m₁ =>
    rw [hr] at hx
    rw [Fueled.bind_error hr]
    exact hx

end Sparing

theorem readVariable_sparing (id : Nat) (name : Name) : Sparing (readVariable id name) := by
  refine .bind .get fun m => ?_
  split
  · exact .ofExcept _
  · exact .ofExcept _

theorem targetOf_sparing (o : Occurrence) : Sparing (targetOf o) := by
  refine .bind .get fun m => ?_
  split
  · exact .ofExcept _
  · exact .ofExcept _

theorem openScope_sparing (outer : Environment) (table : Table Value) :
    Sparing (openScope outer table) :=
  fun m => .push m table (Nat.le_refl _)

theorem freshId_sparing : Sparing freshId :=
  .step (fun _ => rfl) fun _ => rfl

theorem newFunction_sparing (c : Closure) : Sparing (newFunction c) :=
  freshId_sparing.bind fun _ => .pure _

theorem declareFunction_sparing (f : Function) : Sparing (declareFunction f) :=
  .bind .get fun _ => newFunction_sparing _

theorem newNative_sparing (n : Native) : Sparing (newNative n) :=
  freshId_sparing.bind fun _ => .pure _

theorem newInstance_sparing (c : ClassValue) : Sparing (newInstance c) :=
  .step (fun _ => rfl) fun _ => rfl

theorem bindThis_sparing (c : Closure) (i : Instance) : Sparing (bindThis c i) :=
  (openScope_sparing _ _).bind fun _ => .pure _

theorem setField_sparing (i : Instance) (name : String) (v : Value) :
    Sparing (setField i name v) :=
  .step (fun _ => rfl) fun _ => rfl

theorem print_sparing (text : String) : Sparing (print text) := by
  refine .bind .get fun m => ?_
  split
  · exact .fail _
  · exact .step (fun _ => rfl) fun _ => rfl

theorem checkDepth_sparing (line : Nat) : Sparing (checkDepth line) := by
  refine .bind .get fun m => ?_
  split
  · exact .fail _
  · exact .pure _

theorem callableOf_sparing (v : Value) (count line : Nat) : Sparing (callableOf v count line) := by
  unfold callableOf
  split
  · split
    · exact .bind (.fail _) fun _ => .pure _
    · exact .bind (.pure _) fun _ => .pure _
  · exact .fail _

theorem instanceOf_sparing (v : Value) (name : Name) : Sparing (instanceOf v name) := by
  unfold instanceOf
  split
  · exact .pure _
  · exact .fail _

theorem elements_sparing (array : Nat) : Sparing (elements array) :=
  .bind .get fun _ => .pure _

theorem placeIn_sparing (length : Nat) (index : Value) (line : Nat) :
    Sparing (placeIn length index line) := by
  unfold placeIn
  split
  · split
    · exact .pure _
    · exact .fail _
  · exact .fail _

theorem newArray_sparing (length : Value) (line : Nat) : Sparing (newArray length line) := by
  have added (n : Nat) : Sparing (modifyGet fun m : Machine => (Value.array m.arrays.size,
      { m with arrays := m.arrays.push (Array.replicate n .nil) }) : Eval Value) :=
    .step (fun _ => rfl) fun _ => rfl
  unfold newArray
  split
  · exact .fail _
  · have asked (n : Nat) : Sparing (reserve n) := .step (fun _ => rfl) fun _ => rfl
    refine (asked _).bind fun granted => ?_
    split
    · exact added _
    · exact .fail _

/-- A change of the elements of arrays. -/
theorem changed_sparing (f : Array (Array Value) → Array (Array Value)) :
    Sparing (modify fun m => { m with arrays := f m.arrays } : Eval Unit) :=
  .step (fun _ => rfl) fun _ => rfl

theorem arrayCopy_sparing (array : Nat) (target : Value) (line : Nat) :
    Sparing (arrayCopy array target line) := by
  unfold arrayCopy
  split
  · rename_i other
    refine (elements_sparing _).bind fun source => (elements_sparing _).bind fun _ => ?_
    have copied : Sparing (modify fun m : Machine =>
        { m with arrays := m.arrays.modify other (overwritten source) } : Eval Unit) :=
      changed_sparing (·.modify other (overwritten source))
    dsimp only
    split
    · exact Sparing.bind (.fail _) fun _ => copied
    · exact copied
  · exact .fail _

theorem arrayProperty_sparing (array : Nat) (name : Name) :
    Sparing (arrayProperty array name) := by
  unfold arrayProperty
  split
  · exact (elements_sparing _).bind fun _ => .pure _
  · exact newNative_sparing _
  · exact newNative_sparing _
  · exact newNative_sparing _
  · exact .fail _

theorem runNative_sparing (n : Native) (vs : List Value) (line : Nat) :
    Sparing (runNative n vs line) := by
  unfold runNative
  split
  · exact .bind (.step (fun _ => rfl) fun _ => rfl) fun _ => .pure _
  · refine .bind (.step (fun _ => rfl) fun _ => rfl) fun answer => ?_
    split
    · exact .pure _
    · exact .pure _
    · exact .fail _
  · exact newArray_sparing _ _
  · exact (elements_sparing _).bind fun _ => (placeIn_sparing _ _ _).bind fun _ => .pure _
  · rename_i array _ value
    refine Sparing.bind ((elements_sparing _).bind fun _ => ?_) fun _ => .pure _
    exact (placeIn_sparing _ _ _).bind fun place =>
      changed_sparing (·.modify array (·.setIfInBounds place value))
  · exact (arrayCopy_sparing _ _ _).bind fun _ => .pure _
  · exact .fail _

theorem method_sparing (c : Closure) (i : Instance) :
    Sparing (do return .value (.callable (← newFunction (← bindThis c i))) : Eval Property) :=
  (bindThis_sparing c i).bind fun _ => (newFunction_sparing _).bind fun _ => .pure _

theorem propertyOf_sparing (i : Instance) (name : Name) : Sparing (propertyOf i name) := by
  refine .bind (.bind .get fun _ => .pure _) fun value? => ?_
  split
  · exact .pure _
  · split
    · exact (bindThis_sparing _ i).bind fun _ => .pure _
    · split
      · exact method_sparing _ i
      · exact .fail _

theorem superPropertyOf_sparing (c : ClassValue) (i : Instance) (name : Name) :
    Sparing (superPropertyOf c i name) := by
  unfold superPropertyOf
  split
  · exact method_sparing _ i
  · split
    · exact (bindThis_sparing _ i).bind fun _ => .pure _
    · exact .fail _

theorem propertyOfValue_sparing (v : Value) (name : Name) : Sparing (propertyOfValue v name) := by
  unfold propertyOfValue
  split
  · exact propertyOf_sparing _ name
  · exact (arrayProperty_sparing _ name).bind fun _ => .pure _
  · exact .fail _

theorem superOf_sparing (id line : Nat) : Sparing (superOf id line) := by
  refine .bind .get fun m => ?_
  split
  · exact .fail _
  · exact .fail _
  · refine .bind (.ofExcept _) fun v => ?_
    split
    · refine .bind (.ofExcept _) fun v => ?_
      split
      · exact .pure _
      · exact .fail _
    · exact .fail _

theorem superclassOf_sparing (superclass? : Option Occurrence) :
    Sparing (superclassOf superclass?) := by
  unfold superclassOf
  split
  · exact .pure _
  · refine (readVariable_sparing _ _).bind fun v => ?_
    split
    · exact .pure _
    · exact .fail _

theorem memberEnvironment_sparing (superclass? : Option ClassValue) :
    Sparing (memberEnvironment superclass?) := by
  refine .bind .get fun m => ?_
  split
  · exact .pure _
  · exact openScope_sparing _ _

theorem resultOf_sparing (c : Closure) (flow : Flow) : Sparing (resultOf c flow) := by
  unfold resultOf
  split
  · exact .bind .get fun m => .ofExcept _
  · split
    · exact .pure _
    · exact .pure _

end Eval

end LoxLang
