import LoxLang.Proofs.Classes.Histories

/-!
What `this` and `super` stand for. In a member of a class, and in the functions nested in it, `this`
is the instance that the member was bound to, and `super` starts at the superclass that the
declaration of the class had when it was executed. Neither the class of the instance nor later
assignments have a part in it.
-/

namespace LoxLang

variable {H : Chronicle} {m : Machine}

namespace Activation

variable {d : Class} {m₀ : Machine} {c : ClassValue} {i : Instance} {closure : Closure}
  {scope : Nat}

/-- Outside the scope of the call, `this` is the instance, and next to it `super` the superclass. -/
theorem environment_eq (h : Activation H m d m₀ c i closure scope) : ∃ receiver,
    closure.environment = receiver :: m₀.memberEnvironment c.superclass? ∧
      m.scopes.value? receiver "this" = some (.instance i) := by
  obtain ⟨key, member, receiver, hmember, rfl, hthis⟩ := h.bound
  exact ⟨receiver, congrArg _ (h.declared.made.member hmember).2, hthis⟩

/-- In a subclass the superclass was there. -/
theorem exists_superclass (h : Activation H m d m₀ c i closure scope)
    (hd : d.superclass?.isSome = true) : ∃ s, c.superclass? = some s := by
  obtain ⟨o, ho⟩ := Option.isSome_iff_exists.mp hd
  have hs := h.declared.made.superclass
  rw [ho, Eval.superclassOf] at hs
  obtain ⟨v, m₁, -, hs⟩ := Fueled.exists_of_bind_eq_ok hs
  split at hs
  · cases hc : c.superclass? with
    | some s => exact ⟨s, rfl⟩
    | none =>
      rw [hc] at hs
      cases hs
  · cases hs

variable {inner : Environment}

/-- Behind the scopes opened since, `this` is found at its distance. -/
theorem readAt_this (h : Activation H m d m₀ c i closure scope)
    (he : m.environment = inner ++ scope :: closure.environment) (line : Nat) :
    m.scopes.readAt m.environment (inner.length + 1) ⟨"this", line⟩ = .ok (.instance i) := by
  obtain ⟨receiver, hclosure, hthis⟩ := h.environment_eq
  have hscope : m.environment[inner.length + 1]? = some receiver := by
    rw [he, hclosure, List.getElem?_append_right (by omega)]
    simp
  unfold Scopes.readAt Scopes.findAt?
  rw [hscope]
  simp only [Option.bind_some, hthis]

/-- Behind the scopes opened since, `super` is found at its distance. -/
theorem readAt_super (h : Activation H m d m₀ c i closure scope)
    (he : m.environment = inner ++ scope :: closure.environment) {s : ClassValue}
    (hs : c.superclass? = some s) (line : Nat) :
    m.scopes.readAt m.environment (inner.length + 2) ⟨"super", line⟩ =
      .ok (.callable (.class s)) := by
  obtain ⟨receiver, hclosure, -⟩ := h.environment_eq
  have hscope : m.environment[inner.length + 2]? = some m₀.scopes.next := by
    rw [he, hclosure, hs, List.getElem?_append_right (by omega)]
    simp [Machine.memberEnvironment]
  unfold Scopes.readAt Scopes.findAt?
  rw [hscope]
  simp only [Option.bind_some, h.declared.bound s hs]

end Activation

/-- The call of a member of a class in which an expression is evaluated that belongs to the class.
Scopes may have been opened since, also in functions nested in the member. -/
structure InMember (H : Chronicle) (m : Machine) (e : Expr) (d : Class) (m₀ : Machine)
    (c : ClassValue) (i : Instance) : Prop where
  belongs : e ∈ d.receivers
  called : ∃ inner scope closure, m.environment = inner ++ scope :: closure.environment ∧
    Activation H m d m₀ c i closure scope

namespace Point.Tracked

variable {fuel id line : Nat} {method : Name}

/-- The setting of an expression that stands for an instance, or for its superclass. -/
theorem enclosed {e : Expr} (use : Use) (h : Tracked H ⟨fuel, .evaluate e, m⟩)
    (hP : ∀ mention, H.mentions mention → mention.Allowed ∧ mention.Placed m.distances)
    (hreceivers : e.receivers = [e])
    (hmentions : ∀ around frames, e.mentions around frames = [⟨use, around, frames⟩])
    (hallowed : ∀ around frames, Mention.Allowed ⟨use, around, frames⟩ →
      around.class ≠ .none) :
    ∃ (p : Setting) (d : Class), p.class? = some d ∧ p.Fits ∧ p.Rooted H m m.environment ∧
      e ∈ d.receivers ∧ Mention.Allowed ⟨use, p.around, p.frames⟩ ∧
      Mention.Placed m.distances ⟨use, p.around, p.frames⟩ := by
  obtain ⟨p, hfits, hroot, hcode⟩ := h.task
  have hmention : H.mentions ⟨use, p.around, p.frames⟩ := by
    refine hcode.mentions _ ?_
    rw [hmentions]
    exact List.mem_cons_self
  obtain ⟨ha, hplaced⟩ := hP _ hmention
  cases hclass : p.class? with
  | none =>
    have hnone : p.around.class = .none := by
      unfold Setting.Fits at hfits
      rwa [hclass] at hfits
    exact (hallowed _ _ ha hnone).elim
  | some d =>
    refine ⟨p, d, hclass, hfits, hroot, hcode.receivers d hclass e ?_, ha, hplaced⟩
    rw [hreceivers]
    exact List.mem_cons_self

/-- In a member `this` is the instance that the member was bound to. -/
theorem this (h : Tracked H ⟨fuel + 1, .evaluate (.this id line), m⟩)
    (hP : ∀ mention, H.mentions mention → mention.Allowed ∧ mention.Placed m.distances) :
    ∃ d m₀ c i, InMember H m (.this id line) d m₀ c i ∧
      Eval.evaluate (fuel + 1) (.this id line) m = .ok (.instance i) m := by
  obtain ⟨p, d, hclass, hfits, hroot, hmem, -, hplaced⟩ :=
    enclosed (.this id) h hP rfl (fun _ _ => rfl) fun _ _ h => h
  obtain ⟨inner, scope, closure, m₀, c, i, he, hdepth, ha⟩ := hroot d hclass
  refine ⟨d, m₀, c, i, ⟨hmem, inner, scope, closure, he, ha⟩, ?_⟩
  unfold Setting.Fits at hfits
  rw [hclass] at hfits
  have hdistance : m.distances.find? id = some (inner.length + 1) := by
    rw [hplaced id rfl, hdepth]
    exact hfits.1
  show Eval.readVariable id ⟨"this", line⟩ m = _
  rw [Eval.readVariable_eq_readAt _ hdistance, ha.readAt_this he]
  rfl

/-- In a member of a subclass `super` is the superclass of its declaration. -/
theorem superOf (h : Tracked H ⟨fuel, .evaluate (.super id line method), m⟩)
    (hP : ∀ mention, H.mentions mention → mention.Allowed ∧ mention.Placed m.distances) :
    ∃ d m₀ c i s, InMember H m (.super id line method) d m₀ c i ∧ c.superclass? = some s ∧
      Eval.superOf id line m = .ok (s, i) m := by
  have hsubclass {around : Surroundings} {frames : Frames}
      (h : Mention.Allowed ⟨.super id, around, frames⟩) : around.class = .subclass := h
  obtain ⟨p, d, hclass, hfits, hroot, hmem, hallowed, hplaced⟩ :=
    enclosed (.super id) h hP rfl (fun _ _ => rfl) fun _ _ h hnone => by
      rw [hsubclass h] at hnone
      cases hnone
  obtain ⟨inner, scope, closure, m₀, c, i, he, hdepth, ha⟩ := hroot d hclass
  unfold Setting.Fits at hfits
  rw [hclass] at hfits
  obtain ⟨hsome, hsuper⟩ := hfits.2 (hsubclass hallowed)
  obtain ⟨s, hs⟩ := ha.exists_superclass hsome
  have hdistance : m.distances.find? id = some (inner.length + 1 + 1) := by
    rw [hplaced id rfl, hdepth]
    exact hsuper
  exact ⟨d, m₀, c, i, s, ⟨hmem, inner, scope, closure, he, ha⟩, hs,
    Eval.superOf_eq hdistance (ha.readAt_super he hs line) (ha.readAt_this he line)⟩

end Point.Tracked

/-- A member with its `this` in a scope in front of its environment. -/
def Closure.boundIn (member : Closure) (scope : Nat) : Closure :=
  { member with environment := scope :: member.environment }

/-- The machine behind a member that was bound to an instance: a scope binds `this`, and a number is
taken for the function. -/
def Machine.binding (m : Machine) (i : Instance) : Machine :=
  { m with
    scopes := m.scopes.push (Table.empty.insert "this" (.instance i))
    nextId := m.nextId + 1 }

theorem Machine.value?_binding (m : Machine) (i : Instance) :
    (m.binding i).scopes.value? m.scopes.next "this" = some (.instance i) := by
  show (m.scopes.push _).value? m.scopes.next "this" = _
  rw [Scopes.value?_push, if_pos rfl, Table.find?_insert, if_pos rfl]

/-- What reading a member of a superclass for an instance comes to: a method is bound to the
instance, else a getter is called with it as its `this`, and else the name is undefined. -/
structure SuperReads (fuel id line : Nat) (method : Name) (m : Machine) (s : ClassValue)
    (i : Instance) : Prop where
  receiver : (m.binding i).scopes.value? m.scopes.next "this" = some (.instance i)
  bound : ∀ member, s.method? method.text = some member →
    Eval.evaluate (fuel + 2) (.super id line method) m =
      .ok (.callable (.function m.nextId (member.boundIn m.scopes.next))) (m.binding i)
  called : ∀ member, s.method? method.text = none → s.getter? method.text = some member →
    Eval.evaluate (fuel + 2) (.super id line method) m =
      Eval.call fuel (.function m.nextId (member.boundIn m.scopes.next)) [] method.line
        (m.binding i)
  missing : s.method? method.text = none → s.getter? method.text = none →
    Eval.evaluate (fuel + 2) (.super id line method) m =
      .error (.failed (.runtime method.line (.undefinedProperty method.text))) m

/-- The property of a superclass is looked up from the superclass on. -/
theorem superReads_of_superOf {fuel id line : Nat} {method : Name} {s : ClassValue} {i : Instance}
    (h : Eval.superOf id line m = .ok (s, i) m) : SuperReads fuel id line method m s i := by
  have hrun : Eval.evaluate (fuel + 2) (.super id line method) m =
      (Eval.superPropertyOf s i method >>= fun property =>
        Eval.readProperty (fuel + 1) property method.line) m := Fueled.bind_ok h
  constructor
  · exact m.value?_binding i
  · intro member hmember
    rw [hrun]
    unfold Eval.superPropertyOf
    rw [hmember]
    rfl
  · intro member hnone hmember
    rw [hrun]
    unfold Eval.superPropertyOf
    rw [hnone, hmember]
    rfl
  · intro hnone hnone'
    rw [hrun]
    unfold Eval.superPropertyOf
    rw [hnone, hnone']
    rfl

namespace Session

variable {maxDepth : Nat} {input : List UInt8} {sink : Sink} {clock : Nat → Nat} {memory : Memory}
  {history : List Stmt} {past : Point → Prop} {s s' : Session} {entry : Entry} {program : Program}

/-- At any point of any session, `super` in a member of a class, or in a function nested in it,
stands for the superclass that the declaration of the class had when it was executed, and the member
found there is bound to the `this` of the call around. -/
theorem Lived.super_static (h : Lived maxDepth input sink clock memory history past s)
    (ha : s.accepted? entry = some (program, s')) {budget fuel id line : Nat} {method : Name}
    {underway : List (Nat × String)} {m : Machine}
    (hr : Reaches (s'.starting budget program) underway
      ⟨fuel + 2, .evaluate (.super id line method), m⟩) :
    ∃ d m₀ c i superclass,
      InMember (s'.running history past budget program) m (.super id line method) d m₀ c i ∧
      Eval.superclassOf d.superclass? m₀ = .ok (some superclass) m₀ ∧
      SuperReads fuel id line method m superclass i := by
  obtain ⟨d, m₀, c, i, superclass, henclosed, hs, hsuper⟩ :=
    (h.tracked ha hr).superOf (h.settled ha hr)
  obtain ⟨inner, scope, closure, -, hactivation⟩ := henclosed.called
  refine ⟨d, m₀, c, i, superclass, henclosed, ?_, superReads_of_superOf hsuper⟩
  rw [← hs]
  exact hactivation.declared.made.superclass

/-- A method that a subclass inherits calls the one that it overrides. -/
theorem Lived.super_static_inherited : ∃ program s' underway m d m₀ c i superclass,
    (Session.start 1024 [] .open fun _ => 0).accepted? (.program ("class A \x7b m() \x7b \x7d " ++
      "\x7d class B < A \x7b m() \x7b return super.m; \x7d \x7d class C < B \x7b \x7d C().m();")) =
        some (program, s') ∧
    Reaches (s'.starting 50 program) underway ⟨38 + 2, .evaluate (.super 1 1 ⟨"m", 1⟩), m⟩ ∧
    InMember (s'.running [] (fun _ => False) 50 program) m (.super 1 1 ⟨"m", 1⟩) d m₀ c i ∧
    Eval.superclassOf d.superclass? m₀ = .ok (some superclass) m₀ ∧
    SuperReads 38 1 1 ⟨"m", 1⟩ m superclass i := by
  have ha : (Session.start 1024 [] .open fun _ => 0).accepted? (.program
      ("class A \x7b m() \x7b \x7d \x7d class B < A \x7b m() \x7b return super.m; \x7d \x7d " ++
        "class C < B \x7b \x7d C().m();")) =
      some (⟨[.class ⟨⟨"A", 1⟩, none, [⟨some ⟨"m", 1⟩, [], [], 1⟩], []⟩,
        .class ⟨⟨"B", 1⟩, some ⟨0, ⟨"A", 1⟩⟩,
          [⟨some ⟨"m", 1⟩, [], [.return 1 (some (.super 1 1 ⟨"m", 1⟩))], 1⟩], []⟩,
        .class ⟨⟨"C", 1⟩, some ⟨2, ⟨"B", 1⟩⟩, [], []⟩,
        .expression (.call (.get (.call (.variable ⟨3, ⟨"C", 1⟩⟩) 1 []) ⟨"m", 1⟩) 1 [])], 4⟩,
        ⟨{ Machine.start 1024 [] .open fun _ => 0 with
          distances := ⟨#[none, some 2]⟩ }, 0⟩) := by
    cbv
  have hstart : ∀ {source : String} {program : Program} {s' : Session},
      (Session.start 1024 [] .open fun _ => 0).accepted? (.program source) = some (program, s') →
      Reaches (s'.starting 50 program) [] (s'.starting 50 program) := fun _ => .here
  have hA := (hstart ha).next (.next (by cbv))
  have hB := hA.next (.next (by cbv))
  have hC := hB.next (.next (by cbv))
  have hcall := ((hC.next .first).next .expression).next (.called (by cbv) rfl rfl)
  have hread := (((hcall.next (.function rfl)).next (.body rfl)).next .first).next .result
  obtain ⟨d, m₀, c, i, superclass, h⟩ := Lived.super_static .start ha hread
  exact ⟨_, _, _, _, d, m₀, c, i, superclass, ha, hread, h⟩

end Session

end LoxLang
