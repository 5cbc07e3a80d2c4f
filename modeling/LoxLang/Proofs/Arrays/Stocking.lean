import LoxLang.Proofs.Arrays.Stock

/-!
Every step of a machine keeps its arrays and their lengths, and gives only values that stand for
arrays of the machine behind it.
-/

namespace LoxLang

/-- What holds of a computation on a machine that holds only values that stand for its arrays,
however it ends. -/
structure Eval.Stocks {α : Type} (Q : Nat → α → Prop) (x : Eval α) (m : Machine) : Prop where
  lengths : m.Lengthens (Fueled.behind (x m))
  stocked : (Fueled.behind (x m)).Stocked
  gives : ∀ a m₁, x m = .ok a m₁ → Q m₁.arrays.size a

namespace Eval.Stocks

variable {α β : Type} {x : Eval α} {f : α → Eval β} {Q : Nat → α → Prop} {Q' : Nat → β → Prop}
  {m m₁ : Machine} {a : α}

theorem of_ok (h : x m = .ok a m₁) (hl : m.Lengthens m₁) (hm : m₁.Stocked)
    (ha : Q m₁.arrays.size a) : Stocks Q x m := by
  refine ⟨h ▸ hl, h ▸ hm, fun b m₂ hb => ?_⟩
  cases h.symm.trans hb
  exact ha

theorem of_error {e : Stop} (h : x m = .error e m₁) (hl : m.Lengthens m₁) (hm : m₁.Stocked) :
    Stocks Q x m := by
  refine ⟨h ▸ hl, h ▸ hm, fun b m₂ hb => ?_⟩
  cases h.symm.trans hb

theorem pure (hm : m.Stocked) (ha : Q m.arrays.size a) : Stocks Q (Pure.pure a : Eval α) m :=
  of_ok rfl (.refl m) hm ha

theorem fail (hm : m.Stocked) (d : Diagnostic) : Stocks Q (Fueled.fail d : Eval α) m :=
  of_error rfl (.refl m) hm

theorem ofExcept {r : Except Diagnostic α} (hm : m.Stocked)
    (hr : ∀ a, r = .ok a → Q m.arrays.size a) : Stocks Q (Eval.ofExcept r) m := by
  cases r with
  | ok a => exact .pure hm (hr a rfl)
  | error d => exact .fail hm d

/-- A step that changes nothing that a value can be found in. -/
theorem still {g : Machine → α × Machine} (hm : m.Stocked) (h : m.Still (g m).2)
    (ha : Q m.arrays.size (g m).1) : Stocks Q (modifyGet g : Eval α) m :=
  of_ok rfl (.of_eq h.arrays) (hm.still h) (by rwa [h.arrays])

/-- A step that changes no array. -/
theorem step {g : Machine → α × Machine} (hm : (g m).2.Stocked) (h : (g m).2.arrays = m.arrays)
    (ha : Q m.arrays.size (g m).1) : Stocks Q (modifyGet g : Eval α) m :=
  of_ok rfl (.of_eq h) hm (by rwa [h])

/-- A computation that looks at the machine. -/
theorem look {g : Machine → Eval β} (h : Stocks Q' (g m) m) :
    Stocks Q' (MonadStateOf.get >>= g) m :=
  ⟨h.lengths, h.stocked, h.gives⟩

theorem bind (h : Stocks Q x m)
    (hf : ∀ a m₁, m.Lengthens m₁ → m₁.Stocked → Q m₁.arrays.size a → Stocks Q' (f a) m₁) :
    Stocks Q' (x >>= f) m := by
  obtain ⟨hl, hm, hgives⟩ := h
  cases hx : x m with
  | ok a m₁ =>
    rw [hx] at hl hm
    have hlater := hf a m₁ hl hm (hgives a m₁ hx)
    refine ⟨?_, ?_, fun b m₂ hb => hlater.gives b m₂ ((Fueled.bind_ok hx).symm.trans hb)⟩
    · rw [Fueled.bind_ok hx]
      exact hl.trans hlater.lengths
    · rw [Fueled.bind_ok hx]
      exact hlater.stocked
  | error e m₁ =>
    rw [hx] at hl hm
    refine ⟨?_, ?_, fun b m₂ hb => ?_⟩
    · rw [Fueled.bind_error hx]
      exact hl
    · rw [Fueled.bind_error hx]
      exact hm
    · cases (Fueled.bind_error hx).symm.trans hb

theorem around (shell : Shell) (h : Stocks Q x (shell.enter m)) :
    Stocks Q (shell.around x) m := by
  have henter : (shell.enter m).arrays = m.arrays := by
    cases shell <;> rfl
  have hleave (m₁ : Machine) : (shell.leave m m₁).arrays = m₁.arrays := by
    cases shell <;> rfl
  have hstocked {m₁ : Machine} (hm : m₁.Stocked) : (shell.leave m m₁).Stocked := by
    cases shell with
    | here => exact hm
    | within environment => exact hm.inside m.environment m₁.depth
    | nested => exact hm.inside m₁.environment (m₁.depth - 1)
  obtain ⟨hl, hm, hgives⟩ := h
  have hl : m.Lengthens (shell.leave m (Fueled.behind (x (shell.enter m)))) :=
    (Machine.Lengthens.of_eq henter).trans (hl.trans (.of_eq (hleave _)))
  cases hx : x (shell.enter m) with
  | ok a m₁ =>
    rw [hx] at hl hm
    refine of_ok (shell.around_ok hx) hl (hstocked hm) ?_
    rw [hleave]
    exact hgives a m₁ hx
  | error e m₁ =>
    rw [hx] at hl hm
    refine ⟨?_, ?_, fun b m₂ hb => ?_⟩
    · rw [shell.around_error hx]
      exact hl
    · rw [shell.around_error hx]
      exact hstocked hm
    · cases (shell.around_error hx).symm.trans hb

end Eval.Stocks

section

variable {n : Nat} {line : Nat} {u v w : Value}

theorem Value.below_ofLiteral (l : Literal) : (Value.ofLiteral l).Below n := by
  cases l <;> exact below_of_none rfl

theorem UnaryOp.below_of_apply {op : UnaryOp} (h : op.apply line v = .ok w) : w.Below n := by
  unfold apply at h
  split at h <;> cases h <;> exact Value.below_of_none rfl

theorem BinaryOp.below_of_apply {op : BinaryOp} (h : op.apply line u v = .ok w) : w.Below n := by
  have numbers {f : Float → Float → Value} (h : onNumbers line u v f = .ok w)
      (hf : ∀ x y, (f x y).array? = none) : w.Below n := by
    unfold onNumbers at h
    split at h
    · cases h
      exact Value.below_of_none (hf _ _)
    · cases h
  cases op with
  | add =>
    have h : sum line u v = .ok w := h
    unfold sum at h
    split at h <;> cases h <;> exact Value.below_of_none rfl
  | divide =>
    have h : quotient line u v = .ok w := h
    unfold quotient at h
    split at h
    · split at h <;> cases h
      exact Value.below_of_none rfl
    · cases h
  | equal | notEqual =>
    cases h
    exact Value.below_of_none rfl
  | _ => exact numbers h fun _ _ => rfl

end

namespace Eval

variable {m : Machine}

theorem readVariable_stocks (hm : m.Stocked) (id : Nat) (name : Name) :
    Stocks Value.Below (readVariable id name) m := by
  refine .look ?_
  split
  · exact .ofExcept hm fun v hv => hm v (Machine.holds_of_readAt hv)
  · exact .ofExcept hm fun v hv => hm v (Machine.holds_of_read hv)

theorem writeVariable_stocks (hm : m.Stocked) (o : Occurrence) {v : Value}
    (hv : v.Below m.arrays.size) : Stocks (fun _ _ => True) (writeVariable o v) m := by
  have htarget : Stocks (fun _ _ => True) (targetOf o) m := by
    refine .look ?_
    split
    · exact .ofExcept hm fun _ _ => trivial
    · exact .ofExcept hm fun _ _ => trivial
  refine htarget.bind fun scope m₁ hl hm₁ _ => ?_
  exact .step (hm₁.put (hv.mono hl.size_le) scope _) rfl trivial

theorem define_stocks (hm : m.Stocked) (name : String) {v : Value} (hv : v.Below m.arrays.size) :
    Stocks (fun _ _ => True) (define name v) m := by
  refine .step ?_ rfl trivial
  show Machine.Stocked { m with scopes := m.scopes.define m.environment name v }
  unfold Scopes.define
  split
  · exact hm
  · exact hm.put hv _ name

theorem openScope_stocks (hm : m.Stocked) (outer : Environment) {table : Table Value}
    (ht : ∀ name v, table.find? name = some v → v.Below m.arrays.size) :
    Stocks (fun _ _ => True) (openScope outer table) m :=
  .step (hm.push ht) rfl trivial

theorem freshId_stocks (hm : m.Stocked) : Stocks (fun _ _ => True) freshId m :=
  .still hm (.numbered m) trivial

theorem newFunction_stocks (hm : m.Stocked) (closure : Closure) :
    Stocks Callable.Below (newFunction closure) m :=
  (freshId_stocks hm).bind fun _ _ _ hm₁ _ => .pure hm₁ (Value.below_of_none rfl)

/-- A scope with one variable. -/
theorem openScope_stocks_one (hm : m.Stocked) (outer : Environment) (name : String) {v : Value}
    (hv : v.Below m.arrays.size) :
    Stocks (fun _ _ => True) (openScope outer (Table.empty.insert name v)) m := by
  refine openScope_stocks hm outer fun other u hu => ?_
  rw [Table.find?_insert] at hu
  split at hu
  · cases hu
    exact hv
  · cases hu

theorem declareFunction_stocks (hm : m.Stocked) (f : Function) :
    Stocks Callable.Below (declareFunction f) m :=
  .look (newFunction_stocks hm _)

theorem bindThis_stocks (hm : m.Stocked) (c : Closure) (i : Instance) :
    Stocks (fun _ _ => True) (bindThis c i) m :=
  (openScope_stocks_one hm _ _ (Value.below_of_none rfl)).bind fun _ _ _ hm₁ _ => .pure hm₁ trivial

theorem newInstance_stocks (hm : m.Stocked) (c : ClassValue) :
    Stocks (fun _ _ => True) (newInstance c) m :=
  .step hm.newInstance rfl trivial

theorem setField_stocks (hm : m.Stocked) (i : Instance) (name : String) {v : Value}
    (hv : v.Below m.arrays.size) : Stocks (fun _ _ => True) (setField i name v) m :=
  .step (hm.setField hv i.id name) rfl trivial

theorem callableOf_stocks (hm : m.Stocked) {v : Value} (hv : v.Below m.arrays.size)
    (count line : Nat) : Stocks Callable.Below (callableOf v count line) m := by
  unfold callableOf
  split
  · split
    · exact .of_error rfl (.refl m) hm
    · exact .pure hm hv
  · exact .fail hm _

theorem instanceOf_stocks (hm : m.Stocked) (v : Value) (name : Name) :
    Stocks (fun _ _ => True) (instanceOf v name) m := by
  unfold instanceOf
  split
  · exact .pure hm trivial
  · exact .fail hm _

theorem checkDepth_stocks (hm : m.Stocked) (line : Nat) :
    Stocks (fun _ _ => True) (checkDepth line) m := by
  refine .look ?_
  split
  · exact .fail hm _
  · exact .pure hm trivial

theorem print_stocks (hm : m.Stocked) (text : String) :
    Stocks (fun _ _ => True) (print text) m := by
  refine .look ?_
  split
  · exact .fail hm _
  · exact .still hm ⟨rfl, rfl, rfl, Nat.le_refl _, rfl, rfl⟩ trivial

theorem method_stocks (hm : m.Stocked) (c : Closure) (i : Instance) : Stocks Property.Below
    (do return .value (.callable (← newFunction (← bindThis c i))) : Eval Property) m :=
  (bindThis_stocks hm c i).bind fun _ _ _ hm₁ _ =>
    (newFunction_stocks hm₁ _).bind fun _ _ _ hm₂ hc => .pure hm₂ hc

theorem getter_stocks (hm : m.Stocked) (c : Closure) (i : Instance) :
    Stocks Property.Below (do return .getter (← bindThis c i) : Eval Property) m :=
  (bindThis_stocks hm c i).bind fun _ _ _ hm₁ _ => .pure hm₁ trivial

theorem propertyOf_stocks (hm : m.Stocked) (i : Instance) (name : Name) :
    Stocks Property.Below (propertyOf i name) m := by
  have hfield : Stocks (fun n value? => ∀ v, value? = some v → v.Below n) (field? i name.text) m :=
    .look (.pure hm fun v hv => hm v (.field hv))
  refine hfield.bind fun value? m₁ _ hm₁ hvalue => ?_
  split
  · exact .pure hm₁ (hvalue _ rfl)
  · split
    · exact getter_stocks hm₁ _ i
    · split
      · exact method_stocks hm₁ _ i
      · exact .fail hm₁ _

theorem superPropertyOf_stocks (hm : m.Stocked) (c : ClassValue) (i : Instance) (name : Name) :
    Stocks Property.Below (superPropertyOf c i name) m := by
  unfold superPropertyOf
  split
  · exact method_stocks hm _ i
  · split
    · exact getter_stocks hm _ i
    · exact .fail hm _

/-- A method of an array is bound to it. -/
theorem newNative_stocks (hm : m.Stocked) {n : Native}
    (hn : ∀ array ∈ n.array?, array < m.arrays.size) : Stocks Value.Below (newNative n) m :=
  (freshId_stocks hm).bind fun _ _ hl hm₁ _ =>
    .pure hm₁ fun array ha => Nat.lt_of_lt_of_le (hn array ha) hl.size_le

theorem arrayProperty_stocks (hm : m.Stocked) {array : Nat} (ha : array < m.arrays.size)
    (name : Name) : Stocks Value.Below (arrayProperty array name) m := by
  have hbound {other : Nat} (h : other ∈ some array) : other < m.arrays.size := by
    cases h
    exact ha
  unfold arrayProperty
  split
  · exact .look (.pure hm (Value.below_of_none rfl))
  · exact newNative_stocks hm fun _ => hbound
  · exact newNative_stocks hm fun _ => hbound
  · exact newNative_stocks hm fun _ => hbound
  · exact .fail hm _

theorem propertyOfValue_stocks (hm : m.Stocked) {v : Value} (hv : v.Below m.arrays.size)
    (name : Name) : Stocks Property.Below (propertyOfValue v name) m := by
  unfold propertyOfValue
  split
  · exact propertyOf_stocks hm _ name
  · exact (arrayProperty_stocks hm (hv _ rfl) name).bind fun _ _ _ hm₁ hu => .pure hm₁ hu
  · exact .fail hm _

theorem superOf_stocks (hm : m.Stocked) (id line : Nat) :
    Stocks (fun _ _ => True) (superOf id line) m := by
  have hread {m : Machine} (hm : m.Stocked) (r : Except Diagnostic Value) :
      Stocks (fun _ _ => True) (ofExcept r) m := .ofExcept hm fun _ _ => trivial
  refine .look ?_
  split
  · exact .fail hm _
  · exact .fail hm _
  · refine (hread hm _).bind fun v m₁ _ hm₁ _ => ?_
    split
    · refine (hread hm₁ _).bind fun v m₂ _ hm₂ _ => ?_
      split
      · exact .pure hm₂ trivial
      · exact .fail hm₂ _
    · exact .fail hm₁ _

theorem superclassOf_stocks (hm : m.Stocked) (superclass? : Option Occurrence) :
    Stocks (fun _ _ => True) (superclassOf superclass?) m := by
  unfold superclassOf
  split
  · exact .pure hm trivial
  · refine (readVariable_stocks hm _ _).bind fun v m₁ _ hm₁ _ => ?_
    split
    · exact .pure hm₁ trivial
    · exact .fail hm₁ _

theorem memberEnvironment_stocks (hm : m.Stocked) (superclass? : Option ClassValue) :
    Stocks (fun _ _ => True) (memberEnvironment superclass?) m := by
  refine .look ?_
  split
  · exact .pure hm trivial
  · exact openScope_stocks_one hm _ _ (Value.below_of_none rfl)

theorem declareClass_stocks (hm : m.Stocked) (c : Class) :
    Stocks (fun _ _ => True) (declareClass c) m := by
  refine (superclassOf_stocks hm _).bind fun superclass? m₁ _ hm₁ _ => ?_
  refine (define_stocks hm₁ _ (Value.below_of_none rfl)).bind fun _ m₂ _ hm₂ _ => ?_
  refine (memberEnvironment_stocks hm₂ _).bind fun environment m₃ _ hm₃ _ => ?_
  refine (freshId_stocks hm₃).bind fun id m₄ _ hm₄ _ => .look ?_
  have htarget : Stocks (fun _ _ => True) (ofExcept (m₄.scopes.target m₄.environment c.name)) m₄ :=
    .ofExcept hm₄ fun _ _ => trivial
  exact htarget.bind fun scope m₅ _ hm₅ _ =>
    .step (hm₅.put (Value.below_of_none rfl) scope _) rfl trivial

theorem resultOf_stocks (hm : m.Stocked) (c : Closure) {flow : Flow}
    (hf : flow.Below m.arrays.size) : Stocks Value.Below (resultOf c flow) m := by
  unfold resultOf
  split
  · exact .look (.ofExcept hm fun v hv => hm v (Machine.holds_of_readAt hv))
  · split
    · exact .pure hm hf
    · exact .pure hm (Value.below_of_none rfl)

section

variable {array line : Nat} {index v : Value}

theorem newArray_stocks (hm : m.Stocked) (length : Value) :
    Stocks Value.Below (runNative .array [length] line) m := by
  rcases newArray_cases m length line with ⟨n, -, -, hx⟩ | ⟨n, -, -, hx⟩ | ⟨-, hx⟩
  · refine .of_ok hx (.supplied m n) (hm.supplied n) fun array ha => ?_
    cases ha
    show m.arrays.size < (m.arrays.push _).size
    rw [Array.size_push]
    exact Nat.lt_succ_self _
  · exact .of_error hx (.of_eq rfl) hm.asked
  · exact .of_error hx (.refl m) hm

/-- An operation on an array that is there. -/
theorem arrayGet_stocks (hm : m.Stocked) (ha : array < m.arrays.size) :
    Stocks Value.Below (runNative (.arrayGet array) [index] line) m := by
  have he := Array.getElem?_eq_getElem ha
  rcases arrayGet_cases he index line with ⟨place, v, -, hv, hx⟩ | ⟨-, hx⟩
  · exact .of_ok hx (.refl m) hm (hm v (.element he (Array.mem_of_getElem? hv)))
  · exact .of_error hx (.refl m) hm

theorem arraySet_stocks (hm : m.Stocked) (ha : array < m.arrays.size)
    (hv : v.Below m.arrays.size) :
    Stocks Value.Below (runNative (.arraySet array) [index, v] line) m := by
  rcases arraySet_cases (Array.getElem?_eq_getElem ha) index v line with
    ⟨place, -, hx⟩ | ⟨-, hx⟩
  · exact .of_ok hx (.placed m array place v) (hm.placed hv array place)
      (Value.below_of_none rfl)
  · exact .of_error hx (.refl m) hm

theorem arrayCopy_stocks (hm : m.Stocked) (ha : array < m.arrays.size)
    (hv : v.Below m.arrays.size) :
    Stocks Value.Below (runNative (.arrayCopy array) [v] line) m := by
  have he := Array.getElem?_eq_getElem ha
  rcases arrayCopy_cases he hv.array line with
    ⟨target, targets, -, ht, hsize, hx⟩ | ⟨-, e, -, hx⟩
  · exact .of_ok hx (.copied ht hsize) (hm.copied he ht hsize) (Value.below_of_none rfl)
  · exact .of_error hx (.refl m) hm

end

/-- What is built in keeps the arrays if it is bound to one of them, or to none. -/
theorem runNative_stocks (hm : m.Stocked) {n : Native}
    (hn : ∀ array ∈ n.array?, array < m.arrays.size) {vs : List Value}
    (hvs : ∀ v ∈ vs, v.Below m.arrays.size) (line : Nat) :
    Stocks Value.Below (runNative n vs line) m := by
  unfold runNative
  split
  · exact (Stocks.still (Q := fun _ _ => True) hm
      ⟨rfl, rfl, rfl, Nat.le_refl _, rfl, rfl⟩ trivial).bind fun _ _ _ hm₁ _ =>
        .pure hm₁ (Value.below_of_none rfl)
  · refine (Stocks.still (Q := fun _ _ => True) hm
      ⟨rfl, rfl, rfl, Nat.le_refl _, rfl, rfl⟩ trivial).bind fun answer m₁ _ hm₁ _ => ?_
    split
    · exact .pure hm₁ (Value.below_of_none rfl)
    · exact .pure hm₁ (Value.below_of_none rfl)
    · exact .fail hm₁ _
  · exact newArray_stocks hm _
  · exact arrayGet_stocks hm (hn _ rfl)
  · exact arraySet_stocks hm (hn _ rfl) (hvs _ (.tail _ (.head _)))
  · exact arrayCopy_stocks hm (hn _ rfl) (hvs _ (.head _))
  · exact .fail hm _

end Eval

end LoxLang
