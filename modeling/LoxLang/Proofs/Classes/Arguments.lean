import LoxLang.Proofs.Classes.Construction

/-!
The arguments of calls. A call expression counts them, and a getter has no parameters, so that every
call has as many as it takes. The parameters of a function have different names, so that each of
them is bound to its own argument.
-/

namespace LoxLang

variable {H : Chronicle} {a b : Point} {m m₁ : Machine}

/-- A name that is bound already is not declared again, so that parameters have different names. -/
theorem nodup_of_parameterMentions {around : Surroundings} {frame : Table Bool} {outer : Frames}
    {parameters : List Name}
    (h : ∀ mention ∈ parameterMentions around (frame :: outer) parameters, mention.Allowed) :
    (parameters.map (·.text)).Nodup ∧ ∀ p ∈ parameters, frame.find? p.text = none := by
  induction parameters generalizing frame with
  | nil => exact ⟨List.nodup_nil, nofun⟩
  | cons p ps ih =>
    rw [parameterMentions, Frames.introduced_eq] at h
    obtain ⟨hp, hps⟩ := List.forall_mem_cons.mp h
    obtain ⟨hnodup, hnew⟩ := ih hps
    have hfree : frame.find? p.text = none := by
      simpa [Mention.Allowed, Table.contains] using hp
    have hothers : ∀ q ∈ ps, q.text ≠ p.text ∧ frame.find? q.text = none := by
      intro q hq
      have hq := hnew q hq
      rw [Table.find?_insert] at hq
      split at hq
      · cases hq
      · exact ⟨‹_›, hq⟩
    refine ⟨List.nodup_cons.mpr ⟨fun hmem => ?_, hnodup⟩,
      List.forall_mem_cons.mpr ⟨hfree, fun q hq => (hothers q hq).2⟩⟩
    obtain ⟨q, hq, heq⟩ := List.mem_map.mp hmem
    exact (hothers q hq).1 heq

theorem Function.parameterMentions_subset (around : Surroundings) (kind : BodyKind)
    (frames : Frames) (f : Function) :
    parameterMentions around (.empty :: frames) f.parameters ⊆ f.mentions around kind frames := by
  obtain ⟨name?, parameters, body, line⟩ := f
  exact List.subset_append_left _ _

/-- The parameters of a function that has come about have different names. -/
theorem ClosureBorn.nodup {closure : Closure} (h : ClosureBorn H m closure)
    (hP : ∀ mention, H.mentions mention → mention.Allowed) :
    (closure.function.parameters.map (·.text)).Nodup := by
  obtain ⟨around, kind, frames, hmentions⟩ : ∃ around kind frames,
      ∀ mention ∈ closure.function.mentions around kind frames, H.mentions mention := by
    cases h with
    | @declared p _ _ _ hf => exact ⟨p.around, .function, p.frames, hf.mentions⟩
    | member hc _ hb =>
      obtain ⟨member, scope, hmember, rfl, -⟩ := hb
      cases hc with
      | @mk _ d _ hdeclared _ =>
        obtain ⟨hf, -⟩ := hdeclared.made.member hmember
        obtain ⟨hformed, around, frames, hmentions⟩ := hdeclared.settled
        obtain ⟨kind, -, hsubset⟩ := hformed.member hf around frames
        exact ⟨_, _, _, fun mention hm => hmentions mention (hsubset hm)⟩
  have hallowed := fun mention hm =>
    hP mention (hmentions mention (closure.function.parameterMentions_subset around kind frames hm))
  exact (nodup_of_parameterMentions hallowed).1

/-- A name that is no parameter is looked up behind the parameters. -/
theorem find?_foldl_insert_of_not_mem {pairs : List (Name × Value)} {name : String}
    (h : ∀ pair ∈ pairs, pair.1.text ≠ name) (t : Table Value) :
    (pairs.foldl (fun t pair => t.insert pair.1.text pair.2) t).find? name = t.find? name := by
  induction pairs generalizing t with
  | nil => rfl
  | cons pair pairs ih =>
    obtain ⟨hpair, hpairs⟩ := List.forall_mem_cons.mp h
    rw [List.foldl_cons, ih hpairs, Table.find?_insert, if_neg hpair.symm]

/-- Parameters with different names have their own arguments. -/
theorem parameterTable_binds {parameters : List Name} {vs : List Value}
    (hlength : vs.length = parameters.length) (hnodup : (parameters.map (·.text)).Nodup) :
    List.Forall₂ (fun p v => (parameterTable parameters vs).find? p.text = some v)
      parameters vs := by
  unfold parameterTable
  generalize (Table.empty : Table Value) = t
  induction parameters generalizing vs t with
  | nil =>
    cases List.length_eq_zero_iff.mp hlength
    exact .nil
  | cons p ps ih =>
    obtain ⟨v, vs, rfl⟩ := List.exists_cons_of_length_eq_add_one hlength
    obtain ⟨hp, hps⟩ := List.nodup_cons.mp hnodup
    refine .cons ?_ (ih (Nat.succ.inj hlength) hps _)
    have hothers : ∀ pair ∈ ps.zip vs, pair.1.text ≠ p.text := fun pair hpair heq =>
      hp (List.mem_map.mpr ⟨pair.1, (List.of_mem_zip hpair).1, heq⟩)
    rw [List.zip_cons_cons, List.foldl_cons, find?_foldl_insert_of_not_mem hothers,
      Table.find?_insert, if_pos rfl]

/-- The variables of a call are its parameters. -/
theorem exists_of_find?_parameterTable {parameters : List Name} {vs : List Value} {name : String}
    {v : Value} (h : (parameterTable parameters vs).find? name = some v) :
    ∃ p ∈ parameters, p.text = name := by
  by_contra hnone
  have hothers : ∀ pair ∈ parameters.zip vs, pair.1.text ≠ name := fun pair hpair heq =>
    hnone ⟨pair.1, (List.of_mem_zip hpair).1, heq⟩
  rw [parameterTable, find?_foldl_insert_of_not_mem hothers] at h
  cases h

/-- Whether the variables of a scope are these parameters, each with its own argument. -/
structure Machine.Binds (m : Machine) (scope : Nat) (parameters : List Name) (vs : List Value) :
    Prop where
  each : List.Forall₂ (fun p v => m.scopes.value? scope p.text = some v) parameters vs
  only : ∀ name v, m.scopes.value? scope name = some v → ∃ p ∈ parameters, p.text = name

/-- A getter has no parameters, wherever it is in the chain of a class. -/
theorem ClassBorn.parameters_getter {c : ClassValue} (h : ClassBorn H m c) {c' : ClassValue}
    (hc : c' ∈ c.chain) {name : String} {getter : Closure}
    (hg : c'.members.find? (getterKey name) = some getter) : getter.function.parameters = [] := by
  obtain ⟨gs, ha⟩ := h.exists_ancestry
  rw [← ha.chain] at hc
  obtain ⟨g, hg', rfl⟩ := List.mem_map.mp hc
  have hformed := ha.formed g hg'
  rw [(ha.made g hg').members] at hg
  generalize g.declaration = d at hformed hg
  obtain ⟨_, _, methods, getters⟩ := d
  obtain ⟨-, ⟨-, hnamed⟩, -, hparameters⟩ := hformed
  rcases mem_of_find?_memberTable _ hg with ⟨f, hf, hkey, -⟩ | ⟨f, hf, -, rfl⟩
  · have hspace := (hnamed f hf).no_space
    rw [hkey] at hspace
    exact (hspace (space_mem_getterKey name)).elim
  · exact hparameters f hf

theorem ClassBorn.parameters_getter? {c : ClassValue} (h : ClassBorn H m c) {name : String}
    {getter : Closure} (hg : c.getter? name = some getter) : getter.function.parameters = [] := by
  rw [ClassValue.getter?, ClassValue.method?_eq_findSome?] at hg
  obtain ⟨c', hc, hmember⟩ := List.exists_of_findSome?_eq_some hg
  exact h.parameters_getter hc hmember

namespace Eval

/-- Only as many arguments as the callable takes are let through. -/
theorem length_of_callableOf {v : Value} {count line : Nat} {c : Callable}
    (h : callableOf v count line m = .ok c m₁) : count = c.arity := by
  obtain ⟨rfl, -⟩ := callableOf_eq h
  rw [callableOf_callable] at h
  split at h
  · assumption
  · cases h

theorem function_of_bindThis {method closure : Closure} {i : Instance}
    (h : bindThis method i m = .ok closure m₁) : closure.function = method.function := by
  cases h
  rfl

/-- A getter that is to be called is one of the class of the instance. -/
theorem getter_of_propertyOf {i : Instance} {name : Name} {closure : Closure}
    (h : propertyOf i name m = .ok (.getter closure) m₁) :
    ∃ getter, i.class.getter? name.text = some getter ∧ closure.function = getter.function := by
  obtain ⟨value?, m₂, -, h⟩ := Fueled.exists_of_bind_eq_ok h
  cases value? with
  | some v => cases h
  | none =>
    cases hg : i.class.getter? name.text with
    | some getter =>
      simp only [hg] at h
      cases h
      exact ⟨getter, rfl, rfl⟩
    | none =>
      simp only [hg] at h
      cases hm : i.class.method? name.text with
      | some method =>
        rw [hm] at h
        cases h
      | none =>
        rw [hm] at h
        cases h

theorem getter_of_superPropertyOf {c : ClassValue} {i : Instance} {name : Name} {closure : Closure}
    (h : superPropertyOf c i name m = .ok (.getter closure) m₁) :
    ∃ getter, c.getter? name.text = some getter ∧ closure.function = getter.function := by
  unfold superPropertyOf at h
  cases hm : c.method? name.text with
  | some method =>
    rw [hm] at h
    cases h
  | none =>
    simp only [hm] at h
    cases hg : c.getter? name.text with
    | some getter =>
      rw [hg] at h
      cases h
      exact ⟨getter, rfl, rfl⟩
    | none =>
      rw [hg] at h
      cases h

/-- Of the values only instances have getters. -/
theorem getter_of_propertyOfValue {v : Value} {name : Name} {closure : Closure}
    (h : propertyOfValue v name m = .ok (.getter closure) m₁) :
    ∃ i getter, v = .instance i ∧ i.class.getter? name.text = some getter ∧
      closure.function = getter.function := by
  unfold propertyOfValue at h
  split at h
  · exact ⟨_, (getter_of_propertyOf h).imp fun _ => And.intro rfl⟩
  · obtain ⟨value, m₂, -, h⟩ := Fueled.exists_of_bind_eq_ok h
    cases h
  · cases h

end Eval

/-- The errors of a native that has all its arguments. One that looks for an argument in vain stops
by `wrongArity`. -/
def Native.Fails : Native → RuntimeError → Prop
  | .clock, _ => False
  | .input, e => ∃ reason, e = .unreadableInput reason
  | .array, e => e = .arrayLengthInvalid ∨ e = .arrayTooLarge
  | .arrayGet _, e | .arraySet _, e => e = .indexNotNumber ∨ e = .indexOutOfBounds
  | .arrayCopy _, e => e = .copyTargetNotArray ∨ e = .copyTargetTooShort

namespace Eval

/-- Whether a computation fails only by such errors, and those at one line. -/
def FailsBy {α : Type} (P : RuntimeError → Prop) (line : Nat) (x : Eval α) : Prop :=
  ∀ m d, Fueled.Fails x m d → ∃ e, P e ∧ d = .runtime line e

namespace FailsBy

variable {α β : Type} {P : RuntimeError → Prop} {line : Nat} {x : Eval α} {f : α → Eval β}

theorem pure (a : α) : FailsBy P line (Pure.pure a : Eval α) :=
  fun _ _ ⟨_, h⟩ => by cases h

theorem get : FailsBy P line (MonadStateOf.get : Eval Machine) :=
  fun _ _ ⟨_, h⟩ => by cases h

theorem modifyGet (f : Machine → α × Machine) :
    FailsBy P line (MonadStateOf.modifyGet f : Eval α) :=
  fun _ _ ⟨_, h⟩ => by cases h

theorem failAt {e : RuntimeError} (h : P e) : FailsBy P line (Eval.failAt line e : Eval α) :=
  fun _ _ ⟨_, hx⟩ => by
    cases hx
    exact ⟨e, h, rfl⟩

theorem bind (h : FailsBy P line x) (hf : ∀ a, FailsBy P line (f a)) :
    FailsBy P line (x >>= f) := by
  intro m d hx
  rcases hx.cases with hx | ⟨a, m₁, -, hx⟩
  · exact h m d hx
  · exact hf a m₁ d hx

end FailsBy

variable {P : RuntimeError → Prop} (line : Nat)

theorem elements_failsBy (array : Nat) : FailsBy P line (elements array) :=
  .bind .get fun _ => .pure _

theorem placeIn_failsBy (hn : P .indexNotNumber) (hb : P .indexOutOfBounds) (length : Nat)
    (index : Value) : FailsBy P line (placeIn length index line) := by
  unfold placeIn
  split
  · split
    · exact .pure _
    · exact .failAt hb
  · exact .failAt hn

theorem newArray_failsBy (hi : P .arrayLengthInvalid) (hl : P .arrayTooLarge) (length : Value) :
    FailsBy P line (newArray length line) := by
  unfold newArray
  split
  · exact .failAt hi
  · refine .bind (.modifyGet _) fun granted => ?_
    split
    · exact .modifyGet _
    · exact .failAt hl

theorem arrayCopy_failsBy (ha : P .copyTargetNotArray) (hs : P .copyTargetTooShort) (array : Nat)
    (target : Value) : FailsBy P line (arrayCopy array target line) := by
  unfold arrayCopy
  split
  · refine .bind (elements_failsBy line _) fun source => .bind (elements_failsBy line _) fun _ => ?_
    dsimp only
    split
    · exact .bind (.failAt hs) fun _ => .modifyGet _
    · exact .bind (.pure _) fun _ => .modifyGet _
  · exact .failAt ha

/-- A native that has all its arguments looks for no further one: it fails by its own errors only,
at the line of the call. -/
theorem runNative_failsBy {n : Native} {vs : List Value} (hvs : vs.length = n.arity) :
    FailsBy n.Fails line (runNative n vs line) := by
  cases n with
  | clock => exact .bind (.modifyGet _) fun _ => .pure _
  | input =>
    refine FailsBy.bind (.modifyGet _) fun answer => ?_
    split
    · exact .pure _
    · exact .pure _
    · exact .failAt ⟨_, rfl⟩
  | array =>
    obtain ⟨length, rfl⟩ := List.length_eq_one_iff.mp hvs
    exact newArray_failsBy line (.inl rfl) (.inr rfl) length
  | arrayGet array =>
    obtain ⟨index, rfl⟩ := List.length_eq_one_iff.mp hvs
    exact .bind (elements_failsBy line array) fun _ =>
      .bind (placeIn_failsBy line (.inl rfl) (.inr rfl) _ index) fun _ => .pure _
  | arraySet array =>
    obtain ⟨index, value, rfl⟩ := List.length_eq_two.mp hvs
    refine .bind (.bind (elements_failsBy line array) fun _ => ?_) fun _ => .pure _
    exact .bind (placeIn_failsBy line (.inl rfl) (.inr rfl) _ index) fun _ => .modifyGet _
  | arrayCopy array =>
    obtain ⟨target, rfl⟩ := List.length_eq_one_iff.mp hvs
    exact .bind (arrayCopy_failsBy line (.inl rfl) (.inr rfl) array target) fun _ => .pure _

end Eval

/-- Whether a task has as many arguments as it takes. -/
def Task.Matched : Task → Prop
  | .readProperty (.getter closure) _ => closure.function.parameters = []
  | .call c vs _ => vs.length = c.arity
  | .construct c vs => vs.length = (Callable.class c).arity
  | .run closure vs => vs.length = closure.arity
  | _ => True

/-- Behind the last step on the way to a point its task has as many arguments as it takes. -/
theorem Starts.matched (hs : Starts a b) (ha : a.Tracked H) (h : a.task.Matched) :
    b.task.Matched := by
  cases hs with
  | called _ _ hc => exact Eval.length_of_callableOf hc
  | @property _ m _ _ v object name p hx hp =>
    cases p with
    | value => trivial
    | getter closure =>
      obtain ⟨i, getter, rfl, hgetter, hfunction⟩ := Eval.getter_of_propertyOfValue hp
      have hs : m.Situated H fun p => (Expr.get object name).At H.mentions p := ha.task
      have hborn := ha.instance_born .object (hs.imp fun _ h => h.object) hx
      show closure.function.parameters = []
      rw [hfunction]
      exact hborn.2.parameters_getter? hgetter
  | @superProperty _ _ _ _ _ _ _ receiver p hx hp =>
    cases p with
    | value => trivial
    | getter closure =>
      obtain ⟨getter, hgetter, hfunction⟩ := Eval.getter_of_superPropertyOf hp
      obtain ⟨-, -, hc, -⟩ := (Eval.superOf_keeps ha.born _ _).passes hx
      show closure.function.parameters = []
      rw [hfunction]
      exact ClassBorn.parameters_getter? hc hgetter
  | getter hc =>
    cases hc
    exact (congrArg List.length (Eq.symm h) :)
  | function => exact h
  | «class» => exact h
  | @initializer _ _ _ _ _ c _ method _ _ hm hb =>
    have harity : (Callable.class c).arity = method.arity := by
      rw [Callable.arity, hm]
      rfl
    have hfunction := Eval.function_of_bindThis hb
    show _ = List.length _
    rw [hfunction]
    exact h.trans harity
  | _ => trivial

/-- On the way of a task every task has as many arguments as it takes. -/
theorem Reaches.matched {underway : List (Nat × String)} (hr : Reaches a underway b)
    (ha : a.Tracked H) (h : a.task.Matched) : b.task.Matched := by
  induction hr with
  | here => exact h
  | next hr hs ih => exact hs.matched (hr.arrives ha).tracked ih

/-- What holds of the arguments at a point. -/
structure ArgumentLaw (a : Point) : Prop where
  /-- A call has as many arguments as the callable takes. -/
  called : ∀ {c vs line}, a.task = .call c vs line → vs.length = c.arity
  /-- A native has all the arguments that it looks for. -/
  native : ∀ {id n vs line}, a.task = .call (.native id n) vs line →
    Eval.FailsBy n.Fails line (Eval.runNative n vs line)
  /-- A class without an initializer is constructed from nothing, any other one from an argument
  for each parameter of the initializer, which is run on them. -/
  constructed : ∀ {c vs}, a.task = .construct c vs → (c.initializer? = none → vs = []) ∧
    ∀ {b closure us}, Starts a b → b.task = .run closure us → us = vs ∧
      us.length = closure.function.parameters.length ∧
      ∃ initializer, c.initializer? = some initializer ∧ closure.function = initializer.function
  /-- A function that is run has an argument for each parameter. -/
  run : ∀ {closure vs}, a.task = .run closure vs → vs.length = closure.function.parameters.length
  /-- Its body is executed in a scope where they are bound. -/
  bound : ∀ {closure vs b}, a.task = .run closure vs → Starts a b →
    b.task = .executeAll closure.function.body ∧ ∃ scope,
      b.machine.environment = scope :: closure.environment ∧
        b.machine.Binds scope closure.function.parameters vs
  /-- Whatever value is held or given, no getter of the classes behind it has a parameter. -/
  getter : ∀ {v c c' name getter}, v.class? = some c →
    (a.machine.Holds v ∨ ∃ e m', a.task = .evaluate e ∧
      Eval.evaluate a.fuel e a.machine = .ok v m') →
    c' ∈ c.chain → c'.members.find? (getterKey name) = some getter →
    getter.function.parameters = []

namespace Point.Tracked

variable {fuel : Nat}

/-- The body of a function is executed with its parameters bound to their arguments. -/
theorem binds {closure : Closure} {vs : List Value} (h : Tracked H ⟨fuel, .run closure vs, m⟩)
    (hP : ∀ mention, H.mentions mention → mention.Allowed)
    (hlength : vs.length = closure.function.parameters.length)
    (hs : Starts ⟨fuel, .run closure vs, m⟩ b) : b.task = .executeAll closure.function.body ∧
      ∃ scope, b.machine.environment = scope :: closure.environment ∧
        b.machine.Binds scope closure.function.parameters vs := by
  cases hs with
  | body ho =>
    cases ho
    have hopened (name : String) :
        (m.scopes.push (parameterTable closure.function.parameters vs)).value? m.scopes.next name =
          (parameterTable closure.function.parameters vs).find? name := by
      rw [Scopes.value?_push, if_pos rfl]
    refine ⟨rfl, m.scopes.next, rfl, ?_, fun name v hv => ?_⟩
    · refine (parameterTable_binds hlength (ClosureBorn.nodup h.task.1 hP)).imp fun p v hp => ?_
      exact (hopened p.text).trans hp
    · exact exists_of_find?_parameterTable ((hopened name).symm.trans hv)

/-- The arguments of a tracked task are those that it takes. -/
theorem arguments (h : a.Tracked H) (hP : ∀ mention, H.mentions mention → mention.Allowed)
    (hm : a.task.Matched) : ArgumentLaw a := by
  obtain ⟨fuel, task, m⟩ := a
  constructor
  · rintro c vs line rfl
    exact hm
  · rintro id n vs line rfl
    exact Eval.runNative_failsBy line hm
  · rintro c vs rfl
    refine ⟨fun hnone => ?_, fun {b closure us} hs hb => ?_⟩
    · have hlength : vs.length = (Callable.class c).arity := hm
      rw [Callable.arity, hnone] at hlength
      exact List.length_eq_zero_iff.mp hlength
    · have hmatched := hs.matched h hm
      rw [hb] at hmatched
      cases hs with
      | initializer _ hinitializer hbound =>
        cases hb
        exact ⟨rfl, hmatched, _, hinitializer, Eval.function_of_bindThis hbound⟩
  · rintro closure vs rfl
    exact hm
  · rintro closure vs b rfl hs
    exact h.binds hP hm hs
  · intro v c c' name getter hc hv hchain hgetter
    have hborn : ∃ m', ClassBorn H m' c := by
      rcases hv with hv | ⟨e, m', ht, hx⟩
      · exact ⟨m, (h.born v hv).class hc⟩
      · cases ht
        obtain ⟨-, -, hv⟩ := Eval.Keeps.after h.keeps hx
        exact ⟨m', hv.class hc⟩
    obtain ⟨m', hborn⟩ := hborn
    exact hborn.parameters_getter hchain hgetter

end Point.Tracked

namespace Session

variable {maxDepth : Nat} {input : List UInt8} {sink : Sink} {clock : Nat → Nat} {memory : Memory}
  {history : List Stmt} {past : Point → Prop} {s s' : Session} {entry : Entry} {program : Program}

/-- At any point of any session, whatever is called has exactly its arguments. -/
theorem Lived.argument_law (h : Lived maxDepth input sink clock memory history past s)
    (ha : s.accepted? entry = some (program, s')) {fuel : Nat} {underway : List (Nat × String)}
    {a : Point} (hr : Reaches (s'.starting fuel program) underway a) : ArgumentLaw a :=
  (h.tracked ha hr).arguments (fun mention hm => (h.settled ha hr mention hm).1)
    (hr.matched (h.tracked ha .here) trivial)

/-- A class takes the arguments of the initializer that it inherits. -/
theorem Lived.argument_law_inherited : ∃ program s' underway m c,
    (Session.start 1024 [] .open fun _ => 0).accepted? (.program ("class A \x7b init(a, b) " ++
      "\x7b \x7d \x7d class B < A \x7b \x7d B(nil, true);")) = some (program, s') ∧
    Reaches (s'.starting 50 program) underway ⟨44, .construct c [.nil, .bool true], m⟩ ∧
    ArgumentLaw ⟨44, .construct c [.nil, .bool true], m⟩ := by
  have ha : (Session.start 1024 [] .open fun _ => 0).accepted? (.program
      ("class A \x7b init(a, b) \x7b \x7d \x7d class B < A \x7b \x7d B(nil, true);")) =
      some (⟨[.class ⟨⟨"A", 1⟩, none, [⟨some ⟨"init", 1⟩, [⟨"a", 1⟩, ⟨"b", 1⟩], [], 1⟩], []⟩,
        .class ⟨⟨"B", 1⟩, some ⟨0, ⟨"A", 1⟩⟩, [], []⟩,
        .expression (.call (.variable ⟨1, ⟨"B", 1⟩⟩) 1 [.literal .nil, .literal (.bool true)])], 2⟩,
        ⟨Machine.start 1024 [] .open fun _ => 0, 0⟩) := by
    cbv
  have hstart : ∀ {source : String} {program : Program} {s' : Session},
      (Session.start 1024 [] .open fun _ => 0).accepted? (.program source) = some (program, s') →
      Reaches (s'.starting 50 program) [] (s'.starting 50 program) := fun _ => .here
  have hA := (hstart ha).next (.next (by cbv))
  have hB := hA.next (.next (by cbv))
  have hcall := ((hB.next .first).next .expression).next (.called (by cbv) rfl rfl)
  have hmake := hcall.next (.class rfl)
  exact ⟨_, _, _, _, _, ha, hmake, Lived.argument_law .start ha hmake⟩

end Session

end LoxLang
