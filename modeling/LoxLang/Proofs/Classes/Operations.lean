import LoxLang.Proofs.Classes.Keeping

/-!
Every operation of a machine keeps that the machine holds only values that have come about. A class
value comes about in a declaration, and a bound member where it is read.
-/

namespace LoxLang

variable {H : Chronicle} {stored : Nat → String → Value → Prop} {m : Machine}

theorem ValueBorn.ofLiteral (l : Literal) : ValueBorn H m (.ofLiteral l) := by
  cases l <;> trivial

theorem UnaryOp.apply_born {op : UnaryOp} {line : Nat} {v w : Value}
    (h : op.apply line v = .ok w) : ValueBorn H m w := by
  unfold apply at h
  split at h <;> cases h <;> trivial

theorem BinaryOp.apply_born {op : BinaryOp} {line : Nat} {u v w : Value}
    (h : op.apply line u v = .ok w) : ValueBorn H m w := by
  have numbers {f : Float → Float → Value} (h : onNumbers line u v f = .ok w)
      (hf : ∀ x y, ValueBorn H m (f x y)) : ValueBorn H m w := by
    unfold onNumbers at h
    split at h
    · cases h
      exact hf _ _
    · cases h
  cases op with
  | add =>
    have h : sum line u v = .ok w := h
    unfold sum at h
    split at h <;> cases h <;> trivial
  | divide =>
    have h : quotient line u v = .ok w := h
    unfold quotient at h
    split at h
    · split at h <;> cases h
      trivial
    · cases h
  | equal | notEqual =>
    cases h
    trivial
  | _ => exact numbers h fun _ _ => trivial

/-- What is read is held. -/
theorem Machine.holds_of_read {environment : Environment} {name : Name} {v : Value}
    (h : m.scopes.read environment name = .ok v) : m.Holds v := by
  unfold Scopes.read at h
  split at h
  · rename_i u hfound
    cases h
    obtain ⟨scope, -, hv⟩ := List.exists_of_findSome?_eq_some hfound
    exact .variable hv
  · cases h

theorem Machine.holds_of_readAt {environment : Environment} {distance : Nat} {name : Name}
    {v : Value} (h : m.scopes.readAt environment distance name = .ok v) : m.Holds v := by
  obtain ⟨scope, -, hv⟩ := Option.bind_eq_some_iff.mp (Scopes.findAt?_of_readAt h)
  exact .variable hv

/-- The class in the chain of a class that has its member under a key. -/
theorem ClassBorn.member {c : ClassValue} (h : ClassBorn H m c) {key : String} {member : Closure}
    (hk : c.method? key = some member) :
    ∃ c', ClassBorn H m c' ∧ c'.members.find? key = some member := by
  induction h with
  | @mk c d m₀ h hs ih =>
    obtain ⟨id, name, superclass?, members⟩ := c
    cases superclass? with
    | none => exact ⟨_, .mk h hs, hk⟩
    | some s =>
      unfold ClassValue.method? at hk
      split at hk
      · rename_i found hfound
        cases hk
        exact ⟨_, .mk h hs, hfound⟩
      · exact ih s rfl hk

namespace Eval

/-- Reading a variable leaves the machine as it is. -/
theorem readVariable_keeps (hm : m.Born H) (id : Nat) (name : Name) :
    Keeps H stored (fun m₁ v => m₁ = m ∧ ValueBorn H m v) (readVariable id name) m := by
  refine .look ?_
  split
  · exact .ofExcept hm fun v hv => ⟨rfl, hm v (Machine.holds_of_readAt hv)⟩
  · exact .ofExcept hm fun v hv => ⟨rfl, hm v (Machine.holds_of_read hv)⟩

theorem writeVariable_keeps (hm : m.Born H) {o : Occurrence} (ho : o.name.Plain) {v : Value}
    (hv : ValueBorn H m v) : Keeps H stored (fun _ _ => True) (writeVariable o v) m := by
  have htarget : Keeps H stored (fun _ _ => True) (targetOf o) m := by
    refine .look ?_
    split
    · exact .ofExcept hm fun _ _ => trivial
    · exact .ofExcept hm fun _ _ => trivial
  refine htarget.bind fun scope m₁ _ hp hm₁ _ => ?_
  exact .step (.put m₁ ho scope v) (hm₁.put ho scope (hv.mono (.refl H) hp.toGrows)) trivial

theorem define_keeps (hm : m.Born H) {name : Name} (hname : name.Plain) {v : Value}
    (hv : ValueBorn H m v) : Keeps H stored (fun _ _ => True) (define name.text v) m := by
  cases he : m.environment with
  | nil =>
    have hdefine : m.scopes.define m.environment name.text v = m.scopes := by
      rw [he]
      rfl
    exact .still hm ⟨hdefine, rfl, rfl, Nat.le_refl _, rfl, rfl⟩ trivial
  | cons scope outer =>
    have hdefine : m.scopes.define m.environment name.text v =
        m.scopes.put scope name.text v := by
      rw [he]
      rfl
    refine .step ?_ ?_ trivial
    · show m.Precedes stored { m with scopes := m.scopes.define m.environment name.text v }
      rw [hdefine]
      exact .put m hname scope v
    · show Machine.Born { m with scopes := m.scopes.define m.environment name.text v } H
      rw [hdefine]
      exact hm.put hname scope hv

theorem openScope_keeps (hm : m.Born H) (outer : Environment) {table : Table Value}
    (ht : ∀ name v, table.find? name = some v → ValueBorn H m v) :
    Keeps H stored (fun m₁ environment => environment = m.scopes.next :: outer ∧
      m₁ = { m with scopes := m.scopes.push table }) (openScope outer table) m :=
  .step (.push m table) (hm.push ht) ⟨rfl, rfl⟩

theorem newFunction_keeps (hm : m.Born H) {closure : Closure} (hc : ClosureBorn H m closure) :
    Keeps H stored (CallableBorn H) (newFunction closure) m := by
  have hnumbered : Keeps H stored (fun m₁ _ => ClosureBorn H m₁ closure) freshId m :=
    .still hm (.numbered m) (hc.mono (.refl H) (Machine.Still.numbered m).grows)
  exact hnumbered.bind fun id m₁ _ _ hm₁ hc => .pure hm₁ hc

theorem declareFunction_keeps (hm : m.Born H) {p : Setting} {f : Function} {fuel : Nat}
    (hv : H.points ⟨fuel, .execute (.function f), m⟩ ∨ H.points ⟨fuel, .evaluate (.lambda f), m⟩)
    (hp : p.Fits) (hr : p.Rooted H m m.environment) (hf : f.At H.mentions p) :
    Keeps H stored (CallableBorn H) (declareFunction f) m :=
  .look (newFunction_keeps hm (.declared ⟨fuel, f, m, hv, rfl⟩ hp hr hf))

/-- A member of a class that is bound to an instance. -/
theorem bindThis_keeps (hm : m.Born H) {c : ClassValue} {i : Instance} {key : String}
    {member : Closure} (hc : ClassBorn H m c) (hi : InstanceBorn H m i)
    (hk : c.members.find? key = some member) :
    Keeps H stored (ClosureBorn H) (bindThis member i) m := by
  have ht : ∀ name v, (Table.empty.insert "this" (Value.instance i)).find? name = some v →
      ValueBorn H m v := by
    intro name v hv
    rw [Table.find?_insert] at hv
    split at hv
    · cases hv
      exact hi
    · cases hv
  refine (openScope_keeps hm _ ht).bind fun environment m₁ _ hp hm₁ he => ?_
  obtain ⟨rfl, rfl⟩ := he
  have hgrows := hp.toGrows
  refine .pure hm₁ (.member (hc.mono (.refl H) hgrows) (hi.mono (.refl H) hgrows)
    ⟨member, m.scopes.next, hk, rfl, ?_⟩)
  rw [Scopes.value?_push, if_pos rfl]
  rfl

theorem property_keeps (hm : m.Born H) {c : ClassValue} {i : Instance} {key : String}
    {member : Closure} (hc : ClassBorn H m c) (hi : InstanceBorn H m i)
    (hk : c.method? key = some member) :
    Keeps H stored (ClosureBorn H) (bindThis member i) m := by
  obtain ⟨c', hc', hk'⟩ := hc.member hk
  exact bindThis_keeps hm hc' hi hk'

theorem method_keeps (hm : m.Born H) {c : ClassValue} {i : Instance} {key : String}
    {member : Closure} (hc : ClassBorn H m c) (hi : InstanceBorn H m i)
    (hk : c.method? key = some member) : Keeps H stored (PropertyBorn H)
      (do return .value (.callable (← newFunction (← bindThis member i))) : Eval Property) m := by
  refine (property_keeps hm hc hi hk).bind fun closure m₁ _ _ hm₁ hclosure => ?_
  exact (newFunction_keeps hm₁ hclosure).bind fun f m₂ _ _ hm₂ hf => .pure hm₂ hf

theorem getter_keeps (hm : m.Born H) {c : ClassValue} {i : Instance} {key : String}
    {member : Closure} (hc : ClassBorn H m c) (hi : InstanceBorn H m i)
    (hk : c.method? key = some member) : Keeps H stored (PropertyBorn H)
      (do return .getter (← bindThis member i) : Eval Property) m :=
  (property_keeps hm hc hi hk).bind fun _ _ _ _ hm₁ hclosure => .pure hm₁ hclosure

theorem propertyOf_keeps (hm : m.Born H) {i : Instance} (hi : InstanceBorn H m i) (name : Name) :
    Keeps H stored (PropertyBorn H) (propertyOf i name) m := by
  have hfield : Keeps H stored (fun m₁ value? => m₁ = m ∧ ∀ v, value? = some v → m.Holds v)
      (field? i name.text) m :=
    .look (.pure hm ⟨rfl, fun v hv => .field hv⟩)
  refine hfield.bind fun value? m₁ _ _ _ h => ?_
  obtain ⟨rfl, hheld⟩ := h
  split
  · exact .pure hm (hm _ (hheld _ rfl))
  · split
    · rename_i hgetter
      exact getter_keeps hm hi.2 hi hgetter
    · split
      · rename_i hmethod
        exact method_keeps hm hi.2 hi hmethod
      · exact .fail hm _

theorem superPropertyOf_keeps (hm : m.Born H) {c : ClassValue} {i : Instance}
    (hc : ClassBorn H m c) (hi : InstanceBorn H m i) (name : Name) :
    Keeps H stored (PropertyBorn H) (superPropertyOf c i name) m := by
  unfold superPropertyOf
  split
  · rename_i hmethod
    exact method_keeps hm hc hi hmethod
  · split
    · rename_i hgetter
      exact getter_keeps hm hc hi hgetter
    · exact .fail hm _

theorem newNative_keeps (hm : m.Born H) (n : Native) :
    Keeps H stored (ValueBorn H) (newNative n) m := by
  have hnumbered : Keeps H stored (fun _ _ => True) freshId m := .still hm (.numbered m) trivial
  exact hnumbered.bind fun id m₁ _ _ hm₁ _ => .pure hm₁ trivial

theorem arrayProperty_keeps (hm : m.Born H) (array : Nat) (name : Name) :
    Keeps H stored (ValueBorn H) (arrayProperty array name) m := by
  unfold arrayProperty
  split
  · exact .look (.pure hm trivial)
  · exact newNative_keeps hm _
  · exact newNative_keeps hm _
  · exact newNative_keeps hm _
  · exact .fail hm _

theorem propertyOfValue_keeps (hm : m.Born H) {v : Value} (hv : ValueBorn H m v) (name : Name) :
    Keeps H stored (PropertyBorn H) (propertyOfValue v name) m := by
  unfold propertyOfValue
  split
  · exact propertyOf_keeps hm hv name
  · exact (arrayProperty_keeps hm _ name).bind fun u m₁ _ _ hm₁ hu => .pure hm₁ hu
  · exact .fail hm _

theorem superOf_keeps (hm : m.Born H) (id line : Nat) :
    Keeps H stored (fun m₁ r => ClassBorn H m₁ r.1 ∧ InstanceBorn H m₁ r.2)
      (superOf id line) m := by
  have hread (distance : Nat) (name : Name) : Keeps H stored (fun m₁ v => m₁ = m ∧ m.Holds v)
      (ofExcept (m.scopes.readAt m.environment distance name)) m :=
    .ofExcept hm fun v hv => ⟨rfl, Machine.holds_of_readAt hv⟩
  refine .look ?_
  split
  · exact .fail hm _
  · exact .fail hm _
  · refine (hread _ _).bind fun v m₁ _ _ _ h => ?_
    obtain ⟨rfl, hc⟩ := h
    split
    · refine (hread _ _).bind fun v m₂ _ _ _ h => ?_
      obtain ⟨rfl, hi⟩ := h
      split
      · exact .pure hm ⟨hm _ hc, hm _ hi⟩
      · exact .fail hm _
    · exact .fail hm _

theorem callableOf_keeps (hm : m.Born H) {v : Value} (hv : ValueBorn H m v) (count line : Nat) :
    Keeps H stored (CallableBorn H) (callableOf v count line) m := by
  unfold callableOf
  split
  · rename_i c
    have hc : CallableBorn H m c := hv
    split
    · exact .bind (Q := fun _ _ => True) (.fail hm _) fun _ m₁ h _ _ _ => by cases h
    · exact .bind (Q := fun _ _ => True) (.pure hm trivial) fun _ m₁ h _ _ _ => by
        cases h
        exact .pure hm hc
  · exact .fail hm _

theorem instanceOf_keeps (hm : m.Born H) {v : Value} (hv : ValueBorn H m v) (name : Name) :
    Keeps H stored (InstanceBorn H) (instanceOf v name) m := by
  unfold instanceOf
  split
  · exact .pure hm hv
  · exact .fail hm _

theorem checkDepth_keeps (hm : m.Born H) (line : Nat) :
    Keeps H stored (fun _ _ => True) (checkDepth line) m := by
  refine .look ?_
  split
  · exact .fail hm _
  · exact .pure hm trivial

theorem print_keeps (hm : m.Born H) (text : String) :
    Keeps H stored (fun _ _ => True) (print text) m := by
  refine .look ?_
  split
  · exact .fail hm _
  · exact .still hm ⟨rfl, rfl, rfl, Nat.le_refl _, rfl, rfl⟩ trivial

theorem newInstance_keeps (hm : m.Born H) {c : ClassValue} (hc : ClassBorn H m c) :
    Keeps H stored (InstanceBorn H) (newInstance c) m := by
  have hp : m.Precedes stored { m with fields := m.fields.push .empty } := .newInstance m
  refine .step hp hm.newInstance ⟨?_, hc.mono (.refl H) hp.toGrows⟩
  show m.fields.size < (m.fields.push .empty).size
  rw [Array.size_push]
  exact Nat.lt_succ_self _

theorem setField_keeps (hm : m.Born H) {i : Instance} {name : String} {v : Value}
    (hv : ValueBorn H m v) (hs : stored i.id name v) :
    Keeps H stored (fun _ _ => True) (setField i name v) m :=
  .step (.setField m hs) (hm.setField hv _ _) trivial

/-- Reading the superclass leaves the machine as it is. -/
theorem superclassOf_keeps (hm : m.Born H) (superclass? : Option Occurrence) :
    Keeps H stored (fun m₁ s? => m₁ = m ∧ ∀ s, s? = some s → ClassBorn H m s)
      (superclassOf superclass?) m := by
  unfold superclassOf
  split
  · exact .pure hm ⟨rfl, nofun⟩
  · refine (readVariable_keeps hm _ _).bind fun v m₁ _ _ _ h => ?_
    obtain ⟨rfl, hv⟩ := h
    split
    · exact .pure hm ⟨rfl, fun s hs => by cases hs; exact hv⟩
    · exact .fail hm _

/-- In the scope for the members of a subclass, `super` is the superclass. -/
theorem memberEnvironment_keeps (hm : m.Born H) {superclass? : Option ClassValue}
    (hs : ∀ s, superclass? = some s → ClassBorn H m s) :
    Keeps H stored (fun m₁ environment => environment = m.memberEnvironment superclass? ∧
      m₁.nextId = m.nextId ∧ ∀ s, superclass? = some s →
        m₁.scopes.value? m.scopes.next "super" = some (.callable (.class s)))
      (memberEnvironment superclass?) m := by
  refine .look ?_
  cases superclass? with
  | none => exact .pure hm ⟨rfl, rfl, nofun⟩
  | some c =>
    have ht : ∀ name v, (Table.empty.insert "super" (Value.callable (.class c))).find? name =
        some v → ValueBorn H m v := by
      intro name v hv
      rw [Table.find?_insert] at hv
      split at hv
      · cases hv
        exact hs c rfl
      · cases hv
    refine (openScope_keeps hm _ ht).weaken fun m₁ environment h => ?_
    obtain ⟨rfl, rfl⟩ := h
    refine ⟨rfl, rfl, fun s hs => ?_⟩
    cases hs
    rw [Scopes.value?_push, if_pos rfl]
    rfl

/-- A declaration makes a class value. -/
theorem declareClass_keeps (hm : m.Born H) {d : Class} (hd : d.Settled H.mentions)
    (hv : ∃ fuel, H.points ⟨fuel + 1, .execute (.class d), m⟩) :
    Keeps H stored (fun _ _ => True) (declareClass d) m := by
  have hname : d.name.Plain := by
    obtain ⟨name, superclass?, methods, getters⟩ := d
    exact hd.1.1
  refine (superclassOf_keeps hm d.superclass?).bind fun superclass? m₁ hsuper _ _ h => ?_
  obtain ⟨rfl, hborn⟩ := h
  have hnil : ValueBorn H m₁ .nil := trivial
  refine (define_keeps hm hname hnil).bind fun _ m₂ hdefine hp₂ hm₂ _ => ?_
  have hborn₂ : ∀ s, superclass? = some s → ClassBorn H m₂ s :=
    fun s hs => (hborn s hs).mono (.refl H) hp₂.toGrows
  refine (memberEnvironment_keeps hm₂ hborn₂).bind fun environment m₃ _ hp₃ hm₃ h => ?_
  obtain ⟨henvironment, hnext₃, hbound⟩ := h
  have hmade : environment = m₁.memberEnvironment superclass? ∧ m₂.scopes.next = m₁.scopes.next ∧
      m₃.nextId = m₁.nextId := by
    cases hdefine
    have hnext : (m₁.scopes.define m₁.environment d.name.text .nil).next = m₁.scopes.next := by
      unfold Scopes.define
      split
      · rfl
      · exact Scopes.next_put _ _ _ _
    refine ⟨henvironment.trans ?_, hnext, hnext₃⟩
    unfold Machine.memberEnvironment
    rw [hnext]
  obtain ⟨rfl, hnext, hid⟩ := hmade
  have hnumbered : Keeps H stored (fun m₄ id => id = m₁.nextId ∧ m₄ = { m₃ with
      nextId := m₃.nextId + 1 }) freshId m₃ := .still hm₃ (.numbered m₃) ⟨hid, rfl⟩
  refine hnumbered.bind fun id m₄ _ hp₄ hm₄ h => ?_
  obtain ⟨rfl, rfl⟩ := h
  refine .look ?_
  have htarget : Keeps H stored (fun _ _ => True)
      (ofExcept (m₃.scopes.target m₃.environment d.name)) { m₃ with nextId := m₃.nextId + 1 } :=
    .ofExcept hm₄ fun _ _ => trivial
  refine htarget.bind fun scope m₅ htarget hp₅ hm₅ _ => .step (.put m₅ hname scope _) ?_ trivial
  have hgrows := (hp₃.trans (hp₄.trans hp₅)).toGrows
  refine hm₅.put hname scope
    (.mk ⟨(⟨hv, hsuper, rfl, rfl, rfl⟩ : d.Made H m₁ _), hd, ?_, ?_, ?_⟩ ?_)
  · exact Nat.lt_of_lt_of_le (hid ▸ Nat.lt_succ_self _) hp₅.nextId
  · intro s hs
    cases hborn s hs with
    | mk h _ => exact h.fresh
  · intro s hs
    rw [← hnext]
    exact (hp₄.trans hp₅).hidden _ _ _ (.inr rfl) (hbound s hs)
  · exact fun s hs => (hborn₂ s hs).mono (.refl H) hgrows

/-- The elements of an array are held. -/
theorem elements_keeps (hm : m.Born H) (array : Nat) :
    Keeps H stored (fun m₁ elements => m₁ = m ∧ ∀ v ∈ elements, ValueBorn H m v)
      (elements array) m := by
  refine .look (.pure hm ⟨rfl, fun v hv => ?_⟩)
  cases ha : m.arrays[array]? with
  | none =>
    rw [ha] at hv
    cases Array.not_mem_empty v hv
  | some found =>
    rw [ha] at hv
    exact hm v (.element ha hv)

theorem placeIn_keeps (hm : m.Born H) (length : Nat) (index : Value) (line : Nat) :
    Keeps H stored (fun m₁ _ => m₁ = m) (placeIn length index line) m := by
  unfold placeIn
  split
  · split
    · exact .pure hm rfl
    · exact .fail hm _
  · exact .fail hm _

theorem newArray_keeps (hm : m.Born H) (length : Value) (line : Nat) :
    Keeps H stored (ValueBorn H) (newArray length line) m := by
  have added {m : Machine} (hm : m.Born H) (n : Nat) : Keeps H stored (ValueBorn H)
      (modifyGet fun m : Machine => (Value.array m.arrays.size, { m with
        arrays := m.arrays.push (Array.replicate n .nil) })) m := by
    refine .step (.arrays m _) (hm.arrays fun array elements ha v hv => ?_) trivial
    rw [Array.getElem?_push] at ha
    split at ha
    · cases ha
      obtain ⟨-, rfl⟩ := Array.mem_replicate.mp hv
      trivial
    · exact hm v (.element ha hv)
  unfold newArray
  split
  · exact .fail hm _
  · have asked (n : Nat) : Keeps H stored (fun _ _ => True) (reserve n) m :=
      .still hm ⟨rfl, rfl, rfl, Nat.le_refl _, rfl, rfl⟩ trivial
    refine (asked _).bind fun granted m₁ _ _ hm₁ _ => ?_
    split
    · exact added hm₁ _
    · exact .fail hm₁ _

theorem arraySet_keeps (hm : m.Born H) (array : Nat) (index : Value) {v : Value}
    (hv : ValueBorn H m v) (line : Nat) :
    Keeps H stored (fun _ _ => True) (arraySet array index v line) m := by
  refine (elements_keeps hm array).bind fun _ m₁ _ _ _ h => ?_
  obtain ⟨rfl, -⟩ := h
  refine (placeIn_keeps hm _ index line).bind fun place m₂ _ _ _ h => ?_
  subst h
  refine .step (.arrays _ _) (hm.arrays fun other elements ha u hu => ?_) trivial
  rw [Array.getElem?_modify] at ha
  split at ha
  · obtain ⟨old, hold, rfl⟩ := Option.map_eq_some_iff.mp ha
    rcases Array.mem_or_eq_of_mem_setIfInBounds hu with hu | rfl
    · exact hm u (.element hold hu)
    · exact hv
  · exact hm u (.element ha hu)

theorem arrayCopy_keeps (hm : m.Born H) (array : Nat) (target : Value) (line : Nat) :
    Keeps H stored (fun _ _ => True) (arrayCopy array target line) m := by
  unfold arrayCopy
  split
  · rename_i other
    refine (elements_keeps hm array).bind fun source m₁ _ _ _ h => ?_
    obtain ⟨rfl, hsource⟩ := h
    have copied : Keeps H stored (fun _ _ => True) (modify fun m : Machine =>
        { m with arrays := m.arrays.modify other (overwritten source) } : Eval Unit) m₁ := by
      refine .step (.arrays _ _) (hm.arrays fun place elements ha u hu => ?_) trivial
      rw [Array.getElem?_modify] at ha
      split at ha
      · obtain ⟨old, hold, rfl⟩ := Option.map_eq_some_iff.mp ha
        rcases Array.mem_append.mp hu with hu | hu
        · exact hsource u hu
        · obtain ⟨place, hplace, rfl⟩ := Array.mem_iff_getElem.mp hu
          rw [Array.getElem_extract]
          exact hm _ (.element hold (Array.getElem_mem _))
      · exact hm u (.element ha hu)
    refine (elements_keeps hm other).bind fun _ m₂ _ _ _ h => ?_
    obtain ⟨rfl, -⟩ := h
    dsimp only
    split
    · exact .bind (Q := fun _ _ => True) (.fail hm _) fun _ m₁ h _ _ _ => by cases h
    · exact copied
  · exact .fail hm _

/-- What is built in gives values of its own and elements of arrays. -/
theorem runNative_keeps (hm : m.Born H) (n : Native) {vs : List Value}
    (hvs : ∀ v ∈ vs, ValueBorn H m v) (line : Nat) :
    Keeps H stored (ValueBorn H) (runNative n vs line) m := by
  unfold runNative
  split
  · have hread : Keeps H stored (fun _ _ => True) readClock m :=
      .still hm ⟨rfl, rfl, rfl, Nat.le_refl _, rfl, rfl⟩ trivial
    exact hread.bind fun _ m₁ _ _ hm₁ _ => .pure hm₁ trivial
  · have hread : Keeps H stored (fun _ _ => True) readLine m :=
      .still hm ⟨rfl, rfl, rfl, Nat.le_refl _, rfl, rfl⟩ trivial
    refine hread.bind fun answer m₁ _ _ hm₁ _ => ?_
    split
    · exact .pure hm₁ trivial
    · exact .pure hm₁ trivial
    · exact .fail hm₁ _
  · exact newArray_keeps hm _ _
  · refine (elements_keeps hm _).bind fun elements m₁ _ _ _ h => ?_
    obtain ⟨rfl, helements⟩ := h
    refine (placeIn_keeps hm _ _ line).bind fun place m₂ _ _ _ h => ?_
    subst h
    refine .pure hm ?_
    cases he : elements[place]? with
    | none => trivial
    | some v => exact helements v (Array.mem_of_getElem? he)
  · refine (arraySet_keeps hm _ _ (hvs _ ?_) line).bind fun _ m₁ _ _ hm₁ _ => .pure hm₁ trivial
    exact List.mem_cons_of_mem _ List.mem_cons_self
  · exact (arrayCopy_keeps hm _ _ line).bind fun _ m₁ _ _ hm₁ _ => .pure hm₁ trivial
  · exact .fail hm _

/-- The value of a call has come about if its flow has. -/
theorem resultOf_keeps (hm : m.Born H) (closure : Closure) {flow : Flow}
    (hflow : FlowBorn H m flow) : Keeps H stored (ValueBorn H) (resultOf closure flow) m := by
  unfold resultOf
  split
  · exact .look (.ofExcept hm fun v hv => hm v (Machine.holds_of_readAt hv))
  · split
    · exact .pure hm hflow
    · exact .pure hm trivial

end Eval

end LoxLang
