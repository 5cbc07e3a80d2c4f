import LoxLang.Proofs.Classes.Members
import LoxLang.Proofs.Lexical.Accessing

/-!
Functions, methods and classes as they are made: the environments that they capture match, and
their members are found under the same names.
-/

namespace LoxLang

variable {P : Mention → Prop} {D : Distances} {p : Position} {w : World}

theorem World.ahead_of_eq {w : World} {scope : Nat} : ∀ n, n = w.scopes → w.Ahead scope n :=
  fun _ hn => .inr (Nat.le_of_eq hn.symm)

/-- A function captures the environment of its declaration. -/
theorem declareFunction_simulated {f : Function} (hf : f.Formed)
    (hm : ∀ m ∈ f.mentions p.around .function p.frames, P m) :
    Simulated P D p p w (CallableRelated P) (Eval.declareFunction f)
      (Lexical.declareFunction f) := by
  intro m s hs
  have hc : FunctionRelated P w ⟨f, m.environment, false⟩ ⟨f, s.machine.environment, false⟩ :=
    ⟨rfl, rfl, hf, p.around, .function, p.frames, hs.matched, hs.enclosed, hm, nofun⟩
  exact Simulated.lift ((Eval.newFunction_parallel hc).weaken fun _ _ h => h.1) m s hs

/-- A method becomes a function when its instance is bound. -/
theorem bindThis_simulated {c c' : Closure} {i i' : Instance} (h : MethodRelated P w c c')
    (hi : InstanceRelated P w i i') :
    Simulated P D p p w (fun w b b' => FunctionRelated P w b b' ∧ b.function = c.function)
      (Eval.bindThis c i) (Lexical.bindThis c' i') := by
  intro m s hs
  obtain ⟨around, kind, frames, hm, he, hk, hinit⟩ := h.matched
  obtain ⟨w', hw, hm', hs'⟩ := hs.enclosing "this" hm (.instance hi)
    (fun _ => ⟨i', rfl⟩) (fun hn => absurd hn (by decide))
  refine ⟨w', hw.widen World.ahead_of_eq, ⟨⟨h.function, h.isInitializer, h.formed, ?_⟩, rfl⟩, hs'⟩
  exact ⟨around, kind, frames.within "this", hm', he, hk, hinit⟩

/-- What properties are before they are read. -/
inductive PropertyRelated (P : Mention → Prop) (w : World) : Eval.Property → Eval.Property → Prop
  | value {v v'} (h : ValueRelated P w v v') : PropertyRelated P w (.value v) (.value v')
  | getter {c c'} (h : FunctionRelated P w c c') (hn : c.function.parameters = []) :
      PropertyRelated P w (.getter c) (.getter c')

/-- A method is read as a new function with its instance. -/
theorem method_simulated {c c' : Closure} {i i' : Instance} (h : MethodRelated P w c c')
    (hi : InstanceRelated P w i i') :
    Simulated P D p p w (PropertyRelated P)
      (do return .value (.callable (← Eval.newFunction (← Eval.bindThis c i))))
      (do return .value (.callable (← Lexical.lift
        (Eval.newFunction (← Lexical.bindThis c' i'))))) := by
  refine (bindThis_simulated h hi).bind rfl fun w₁ b b' _ hb => ?_
  refine (Simulated.lift (V := fun w f f' => CallableRelated P w f f' ∧ f.arity = b.arity)
    (Eval.newFunction_parallel hb.1)).bind rfl ?_
  exact fun w₂ f f' _ hf => .pure (.value (.callable hf.1))

theorem getter_simulated {c c' : Closure} {i i' : Instance} (h : MethodRelated P w c c')
    (hn : c.function.parameters = []) (hi : InstanceRelated P w i i') :
    Simulated P D p p w (PropertyRelated P) (do return .getter (← Eval.bindThis c i))
      (do return .getter (← Lexical.bindThis c' i')) :=
  (bindThis_simulated h hi).bind rfl fun _ _ _ _ hb => .pure (.getter hb.1 (hb.2 ▸ hn))

theorem propertyOf_simulated {i i' : Instance} (hi : InstanceRelated P w i i') (name : Name) :
    Simulated P D p p w (PropertyRelated P) (Eval.propertyOf i name)
      (Lexical.propertyOf i' name) := by
  refine (Simulated.lift (V := fun w => Option.Rel (ValueRelated P w))
    (Eval.field?_parallel hi name.text)).bind rfl fun w₁ v v' hw hv => ?_
  have hi := hi.mono (fun _ => id) hw
  cases hv with
  | some hv => exact .pure (.value hv)
  | none =>
    dsimp only
    have hg := hi.class.getter? name.text
    generalize i.class.getter? name.text = g at hg
    generalize i'.class.getter? name.text = g' at hg
    cases hg with
    | some hg => exact getter_simulated hg.1 hg.2 hi
    | none =>
      dsimp only
      have hm := hi.class.method? name.text
      generalize i.class.method? name.text = f at hm
      generalize i'.class.method? name.text = f' at hm
      cases hm with
      | some hm => exact method_simulated hm hi
      | none => exact .fail

theorem superPropertyOf_simulated {r r' : ClassValue × Instance} (h : ReceiverRelated P w r r')
    (name : Name) :
    Simulated P D p p w (PropertyRelated P) (Eval.superPropertyOf r.1 r.2 name)
      (Lexical.superPropertyOf r'.1 r'.2 name) := by
  unfold Eval.superPropertyOf Lexical.superPropertyOf
  have hm := h.1.method? name.text
  generalize r.1.method? name.text = f at hm
  generalize r'.1.method? name.text = f' at hm
  cases hm with
  | some hm => exact method_simulated hm h.2
  | none =>
    dsimp only
    have hg := h.1.getter? name.text
    generalize r.1.getter? name.text = g at hg
    generalize r'.1.getter? name.text = g' at hg
    cases hg with
    | some hg => exact getter_simulated hg.1 hg.2 h.2
    | none => exact .fail

theorem propertyOfValue_simulated {v v' : Value} (h : ValueRelated P w v v') (name : Name) :
    Simulated P D p p w (PropertyRelated P) (Eval.propertyOfValue v name)
      (Lexical.propertyOfValue v' name) := by
  cases h with
  | «instance» h => exact propertyOf_simulated h name
  | @array array =>
    refine (Simulated.lift (V := ValueRelated P)
      (Eval.arrayProperty_parallel array name)).bind rfl ?_
    exact fun w₁ v v' _ hv => .pure (.value hv)
  | _ => exact .fail

theorem superclassOf_simulated {superclass? : Option Occurrence}
    (hd : ∀ o ∈ superclass?, D.find? o.id = Scoping.distance? o.name.text p.frames) :
    Simulated P D p p w
      (fun w c? c'? => Option.Rel (ClassRelated P w) c? c'? ∧ c?.isSome = superclass?.isSome)
      (Eval.superclassOf superclass?) (Lexical.superclassOf superclass?) := by
  cases superclass? with
  | none => exact .pure ⟨.none, rfl⟩
  | some o =>
    refine (readVariable_simulated o.name (hd o rfl)).bind rfl fun w₁ v v' _ hv => ?_
    cases hv with
    | callable h =>
      cases h with
      | «class» h => exact .pure ⟨.some h, rfl⟩
      | _ => exact .fail
    | _ => exact .fail

/-- The scopes around the `this` of the members of a class. -/
def memberFrames (frames : Frames) (superclass? : Option ClassValue) : Frames :=
  if superclass?.isSome then frames.within "super" else frames

/-- What the environment of members is in both runs. Other scopes keep their variables. -/
theorem memberEnvironment_agrees {m : Machine} {s : Lexical.State} {c? c'? : Option ClassValue}
    (hs : Stands P D p w m s) (h : Option.Rel (ClassRelated P w) c? c'?) :
    Agrees P D (w.Ahead p.scope) w (fun w' environment m' cells s' => Stands P D p w' m' s' ∧
        Matches w' (memberFrames p.frames c?) environment cells ∧
        m'.scopes.value? p.scope = m.scopes.value? p.scope)
      (Eval.memberEnvironment c? m) (Lexical.memberEnvironment c'? s) := by
  cases h with
  | none => exact ⟨w, .refl _ w, hs, hs.matched, rfl⟩
  | some h =>
    obtain ⟨w', hw, hm, hs'⟩ := hs.enclosing "super" hs.matched (.callable (.class h))
      (fun hn => absurd hn (by decide)) (fun _ => ⟨_, rfl⟩)
    refine ⟨w', hw.widen World.ahead_of_eq, hs', hm, funext fun name => ?_⟩
    have hne : p.scope ≠ m.scopes.next := hs.linked.cells.next ▸ Nat.ne_of_lt hs.scope_lt
    show (m.scopes.push _).value? p.scope name = _
    rw [Scopes.value?_push, if_neg hne]

/-- Members that are related one by one are so in tables. -/
theorem insertMembers_related (key : String → String) {environment cells : Environment}
    {isInitializer : Function → Bool} {fs : List Function}
    (h : ∀ f ∈ fs, MethodRelated P w ⟨f, environment, isInitializer f⟩ ⟨f, cells, isInitializer f⟩)
    {t t' : Table Closure} (ht : MembersRelated P w t t') :
    MembersRelated P w (insertMembers key isInitializer environment fs t)
      (insertMembers key isInitializer cells fs t') := by
  unfold insertMembers
  induction fs generalizing t t' with
  | nil => exact ht
  | cons f fs ih =>
    refine ih (fun g hg => h g (List.mem_cons_of_mem _ hg)) fun name => ?_
    rw [Table.find?_insert, Table.find?_insert]
    split
    · exact .some (h f List.mem_cons_self)
    · exact ht name

theorem mem_functionsMentions {around : Surroundings} {frames : Frames}
    (kind : Function → BodyKind) {fs : List Function} {f : Function} (hf : f ∈ fs) {m : Mention}
    (hm : m ∈ f.mentions around (kind f) frames) : m ∈ functionsMentions around frames kind fs := by
  induction fs with
  | nil => cases hf
  | cons g gs ih =>
    rcases List.mem_cons.mp hf with rfl | hf
    · exact List.mem_append_left _ hm
    · exact List.mem_append_right _ (ih hf)

theorem formed_of_mem {fs : List Function} (h : functionsFormed fs) {f : Function} (hf : f ∈ fs) :
    f.Formed := by
  induction fs with
  | nil => cases hf
  | cons g gs ih =>
    rcases List.mem_cons.mp hf with rfl | hf
    · exact h.1
    · exact ih h.2 hf

namespace Class

variable {c : Class} {around : Surroundings} {frames : Frames}

theorem formed_iff (c : Class) : c.Formed ↔ c.name.Plain ∧
    (functionsFormed c.methods ∧ ∀ f ∈ c.methods, f.Named) ∧
      (functionsFormed c.getters ∧ ∀ f ∈ c.getters, f.Named) ∧
        ∀ f ∈ c.getters, f.parameters = [] := by
  obtain ⟨name, superclass?, methods, getters⟩ := c
  exact Iff.rfl

theorem declare_mem_mentions (c : Class) (around : Surroundings) (frames : Frames) :
    ⟨.declare c.name, around, frames⟩ ∈ c.mentions around frames := by
  obtain ⟨name, superclass?, methods, getters⟩ := c
  cases superclass? <;> exact List.mem_cons_self

theorem inherit_mem_mentions {o : Occurrence} (ho : o ∈ c.superclass?) :
    ⟨.inherit c.name o, around, frames.introduced c.name.text⟩ ∈ c.mentions around frames := by
  obtain ⟨name, superclass?, methods, getters⟩ := c
  cases ho
  exact List.mem_cons_of_mem _ List.mem_cons_self

theorem method_mem_mentions {f : Function} (hf : f ∈ c.methods) {m : Mention}
    (hm : m ∈ f.mentions (c.inside around) f.methodKind (c.frames frames)) :
    m ∈ c.mentions around frames := by
  obtain ⟨name, superclass?, methods, getters⟩ := c
  have hm := mem_functionsMentions Function.methodKind hf hm
  cases superclass? with
  | none => exact List.mem_cons_of_mem _ (List.mem_append_left _ hm)
  | some o =>
    exact List.mem_cons_of_mem _ (List.mem_cons_of_mem _ (List.mem_append_left _ hm))

theorem getter_mem_mentions {f : Function} (hf : f ∈ c.getters) {m : Mention}
    (hm : m ∈ f.mentions (c.inside around) .method (c.frames frames)) :
    m ∈ c.mentions around frames := by
  obtain ⟨name, superclass?, methods, getters⟩ := c
  have hm := mem_functionsMentions (fun _ => .method) hf hm
  cases superclass? with
  | none => exact List.mem_cons_of_mem _ (List.mem_append_right _ hm)
  | some o =>
    exact List.mem_cons_of_mem _ (List.mem_cons_of_mem _ (List.mem_append_right _ hm))

/-- The distance of the superclass is not changed by the name of the class. -/
theorem distance?_inherit (hP : ∀ m, P m → m.Allowed ∧ m.Placed D)
    (hm : ∀ m ∈ c.mentions around frames, P m) : ∀ o ∈ c.superclass?,
      D.find? o.id = Scoping.distance? o.name.text frames := by
  intro o ho
  obtain ⟨hallowed, hplaced⟩ := hP _ (hm _ (inherit_mem_mentions ho))
  refine (hplaced o.id rfl).trans ?_
  show Scoping.distance? o.name.text (frames.introduced c.name.text) = _
  rw [Frames.introduced_eq, Frames.distance?_bound hallowed.1]

/-- The class that a declaration makes, in environments that match. -/
theorem related (hf : c.Formed) (hm : ∀ m ∈ c.mentions around frames, P m)
    {environment cells : Environment} {c? c'? : Option ClassValue}
    (hc : Option.Rel (ClassRelated P w) c? c'?) (hsome : c?.isSome = c.superclass?.isSome)
    (hmatch : Matches w (memberFrames (frames.introduced c.name.text) c?) environment cells)
    (id : Nat) :
    ClassRelated P w
      ⟨id, c.name.text, c?, memberTable environment c.methods c.getters⟩
      ⟨id, c.name.text, c'?, memberTable cells c.methods c.getters⟩ := by
  have hframes : (memberFrames (frames.introduced c.name.text) c?).within "this" =
      c.frames frames := by
    unfold memberFrames Class.frames
    rw [hsome]
    cases c.superclass? <;> rfl
  have hthis := Frames.distance?_within (memberFrames (frames.introduced c.name.text) c?) "this"
  have henclosed := Enclosed.members around frames c
  rw [← hframes] at henclosed
  obtain ⟨-, ⟨hmethods, hnames⟩, ⟨hgetters, -⟩, hparameters⟩ := c.formed_iff.mp hf
  have hmembers : MembersRelated P w (memberTable environment c.methods c.getters)
      (memberTable cells c.methods c.getters) := by
    refine insertMembers_related _ (fun f hfs => ?_)
      (insertMembers_related _ (fun f hfs => ?_) fun _ => .none)
    · refine ⟨rfl, rfl, formed_of_mem hgetters hfs, c.inside around, .method, _, hmatch,
        henclosed, fun m hm' => ?_, fun _ => hthis⟩
      exact hm m (getter_mem_mentions hfs (hframes ▸ hm'))
    · refine ⟨rfl, rfl, formed_of_mem hmethods hfs, c.inside around, f.methodKind, _, hmatch,
        henclosed, fun m hm' => ?_, fun _ => hthis⟩
      exact hm m (method_mem_mentions hfs (hframes ▸ hm'))
  have hnone : ∀ name f,
      (memberTable environment c.methods c.getters).find? (getterKey name) = some f →
      f.function.parameters = [] := by
    intro name f hfind
    rw [find?_memberTable_getter environment hnames] at hfind
    obtain ⟨g, hg, rfl⟩ := Option.map_eq_some_iff.mp hfind
    exact hparameters g (lastNamed_mem hg).1
  cases hc with
  | none => exact .base hmembers hnone
  | some hc => exact .subclass hc hmembers hnone

end Class

theorem declareClass_simulated (hP : ∀ m, P m → m.Allowed ∧ m.Placed D) {c : Class}
    (hf : c.Formed) (hm : ∀ m ∈ c.mentions p.around p.frames, P m) :
    Simulated P D p (p.defined c.name.text) w (fun _ _ _ => True) (Eval.declareClass c)
      (Lexical.declareClass p.place c) := by
  have hplain := (c.formed_iff.mp hf).1
  have hnew := (hP _ (hm _ (c.declare_mem_mentions p.around p.frames))).1
  refine (superclassOf_simulated (Class.distance?_inherit hP hm)).bind rfl ?_
  intro w₁ c? c'? hw₁ ⟨hc, hsome⟩ m s hs
  obtain ⟨cell?, w₂, s₂, hdeclare, hw₂, hs₂, hslot⟩ := hs.declare hnew hplain.declarable
  simp only [Fueled.bind_ok hdeclare]
  apply Agrees.since hw₂
  refine (hs₂.define hslot hplain.declarable .nil).bind fun w₃ _ m₃ _ s₃ hw₃ ⟨hs₃, hvalue⟩ => ?_
  have hw₁₃ := World.le_trans hw₂.le hw₃.le
  have hc := rel_imp hc fun _ _ => ClassRelated.mono (fun _ => id) hw₁₃
  refine ((memberEnvironment_agrees hs₃ hc).weaken
    (fun n hn => hn.imp id (Nat.le_trans hw₁₃.scopes)) fun _ _ _ _ _ _ h => h).bind ?_
  intro w₄ environment m₄ cells s₄ hw₄ ⟨hs₄, hmatch, hkeep⟩
  have hfresh : Eval.freshId m₄ = .ok m₄.nextId { m₄ with nextId := m₄.nextId + 1 } := rfl
  have hfresh' : Lexical.lift Eval.freshId s₄ = .ok m₄.nextId
      { s₄ with machine := { s₄.machine with nextId := m₄.nextId + 1 } } := by
    rw [← hs₄.linked.shared.nextId]
    rfl
  have hs₅ : Stands P D (p.defined c.name.text) w₄ { m₄ with nextId := m₄.nextId + 1 }
      { s₄ with machine := { s₄.machine with nextId := m₄.nextId + 1 } } :=
    hs₄.here ⟨hs₄.linked.distances, hs₄.linked.cells,
      hs₄.linked.objects.later w₄.le_refl rfl rfl rfl rfl, { hs₄.linked.shared with nextId := rfl }⟩
      rfl rfl
  have hrelated := Class.related hf hm
    (rel_imp hc fun _ _ => ClassRelated.mono (fun _ => id) hw₄.le) hsome hmatch m₄.nextId
  have hset : (m₄.scopes.value? p.scope c.name.text).isSome = true := by
    have hkeep : m₄.scopes.value? p.scope = m₃.scopes.value? p.scope := hkeep
    rw [hkeep, hvalue]
    rfl
  simp only [Fueled.bind_ok hfresh, Fueled.bind_ok hfresh']
  exact (hs₅.redefine (hslot.mono (World.le_trans hw₃.le hw₄.le)) hplain hset
    (.callable (.class hrelated))).weaken (fun _ h => h) fun _ _ _ _ _ _ h => And.intro trivial h

end LoxLang
