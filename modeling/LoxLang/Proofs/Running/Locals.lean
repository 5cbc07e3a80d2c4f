import LoxLang.Proofs.Running.Jumps
import LoxLang.Proofs.Running.Origins
import LoxLang.Proofs.Running.Sessions
import LoxLang.Proofs.Running.Sparing

/-!
The variables of blocks and calls stay in scopes of their own. While a block or a call is under
way, the innermost scope at every declaration is one that was opened since, so that no declaration
touches a scope that was there before. Only assignments do. A step lemma says so of one task, given
the tasks that it starts, and the run lemma follows by induction on the fuel.
-/

namespace LoxLang

/-- The scope of an occurrence: at its distance, or else the one of the globals. -/
def Machine.Resolves (m : Machine) (o : Occurrence) (scope : Nat) : Prop :=
  match m.distances.find? o.id with
  | some distance => m.environment[distance]? = some scope
  | none => scope ∈ globalEnvironment

/-- Whether a value is assigned, on the way from a point, to the variable of a name in a scope. -/
def Point.Assigns (a : Point) (scope : Nat) (name : String) (v : Value) : Prop :=
  ∃ underway fuel o value m m', Reaches a underway ⟨fuel + 1, .evaluate (.assign o value), m⟩ ∧
    Eval.evaluate fuel value m = .ok v m' ∧ m'.Resolves o scope ∧ o.name.text = name

theorem Starts.assigns {a b : Point} {scope : Nat} {name : String} {v : Value} (hs : Starts a b)
    (h : b.Assigns scope name v) : a.Assigns scope name v := by
  obtain ⟨underway, fuel, o, value, m, m', hr, hv, hscope, hname⟩ := h
  exact ⟨_, fuel, o, value, m, m', .head hs hr, hv, hscope, hname⟩

/-- The machine behind a task, however that ends. -/
def Point.behind (a : Point) : Machine :=
  match a.task with
  | .evaluate e => Fueled.behind (Eval.evaluate a.fuel e a.machine)
  | .evaluateAll es => Fueled.behind (Eval.evaluateAll a.fuel es a.machine)
  | .readProperty property line => Fueled.behind (Eval.readProperty a.fuel property line a.machine)
  | .call c vs line => Fueled.behind (Eval.call a.fuel c vs line a.machine)
  | .run c vs => Fueled.behind (Eval.run a.fuel c vs a.machine)
  | .construct c vs => Fueled.behind (Eval.construct a.fuel c vs a.machine)
  | .execute s => Fueled.behind (Eval.execute a.fuel s a.machine)
  | .loop condition body increment? =>
    Fueled.behind (Eval.loop a.fuel condition body increment? a.machine)
  | .executeAll ss => Fueled.behind (Eval.executeAll a.fuel ss a.machine)

/-- Whether the innermost scope of a machine is none of the first scopes. -/
def Machine.Beyond (bound : Nat) (m : Machine) : Prop :=
  ∃ scope outer, m.environment = scope :: outer ∧ bound ≤ scope ∧ scope < m.scopes.next

/-- Whether a task may declare a variable in the innermost scope. All others open one before. -/
def Task.Declares : Task → Prop
  | .execute (.block _) => False
  | .execute _ | .loop .. | .executeAll _ => True
  | _ => False

/-- What holds of the points of a block or a call that is begun with so many scopes. -/
structure Point.Inside (bound : Nat) (a : Point) : Prop where
  next : bound ≤ a.machine.scopes.next
  beyond : a.task.Declares → a.machine.Beyond bound

/-- Whether a task leaves the first scopes alone, but for assignments. -/
def Point.Sparing (bound : Nat) (a : Point) : Prop :=
  a.machine.Spares bound a.Assigns a.behind

/-- Whether a computation does on a machine that has so many scopes. -/
def Eval.Spares {α : Type} (bound : Nat) (assigned : Nat → String → Value → Prop) (x : Eval α)
    (m : Machine) : Prop :=
  bound ≤ m.scopes.next → m.Spares bound assigned (Fueled.behind (x m))

variable {bound : Nat} {assigned : Nat → String → Value → Prop} {m m₁ : Machine} {a b : Point}

theorem Machine.Beyond.spared (h : m.Beyond bound) (hs : m.Spares bound assigned m₁) :
    m₁.Beyond bound := by
  obtain ⟨scope, outer, he, hb, hlt⟩ := h
  exact ⟨scope, outer, hs.environment.trans he, hb, Nat.lt_of_lt_of_le hlt hs.next⟩

/-- A scope that is opened is not among the scopes before. -/
theorem Machine.Beyond.opened {outer environment : Environment} {table : Table Value}
    (h : Eval.openScope outer table m = .ok environment m₁) (hb : bound ≤ m.scopes.next) :
    (m₁.inside environment).Beyond bound := by
  cases h
  refine ⟨m.scopes.next, outer, rfl, hb, ?_⟩
  show m.scopes.tables.size < (m.scopes.tables.push table).size
  rw [Array.size_push]
  exact Nat.lt_succ_self _

/-- The occurrence that is assigned to is bound where it resolves to. -/
theorem Eval.targetOf_resolves {o : Occurrence} {scope : Nat}
    (h : targetOf o m = .ok scope m₁) :
    m₁ = m ∧ m.Resolves o scope ∧ (m.scopes.value? scope o.name.text).isSome = true := by
  unfold Machine.Resolves
  cases hd : m.distances.find? o.id with
  | some distance =>
    rw [targetOf_eq_targetAt hd, Scopes.targetAt] at h
    cases hh : m.scopes.holderAt? m.environment distance o.name.text with
    | none =>
      rw [hh] at h
      cases h
    | some found =>
      rw [hh] at h
      cases h
      obtain ⟨he, hs⟩ := Option.filter_eq_some_iff.mp hh
      exact ⟨rfl, he, hs⟩
  | none =>
    rw [targetOf_eq_target hd, Scopes.target] at h
    cases hh : m.scopes.holder? globalEnvironment o.name.text with
    | none =>
      rw [hh] at h
      cases h
    | some found =>
      rw [hh] at h
      cases h
      have hs : (m.scopes.value? scope o.name.text).isSome = true :=
        List.find?_some (p := fun scope => (m.scopes.value? scope o.name.text).isSome) hh
      exact ⟨rfl, List.mem_of_find?_eq_some hh, hs⟩

/-- A name is found in the innermost scope that binds it. -/
theorem Scopes.target_innermost {scopes : Scopes} {scope : Nat} {outer : Environment} {name : Name}
    (h : (scopes.value? scope name.text).isSome = true) :
    scopes.target (scope :: outer) name = .ok scope := by
  have hholder : scopes.holder? (scope :: outer) name.text = some scope :=
    List.find?_cons_of_pos h
  rw [Scopes.target, hholder]

/-- A name that is declared is bound in the innermost scope. -/
theorem Scopes.value?_define {scopes : Scopes} {scope : Nat} {outer : Environment}
    (h : scope < scopes.next) (name : String) (v : Value) :
    (scopes.define (scope :: outer) name v).value? scope name = some v := by
  rw [Scopes.define, Scopes.value?_put, if_pos ⟨rfl, rfl, h⟩]

namespace Eval

section

variable {α β : Type} {x : Eval α} {f : α → Eval β}

theorem Sparing.on (h : Sparing x) (m : Machine) : Spares bound assigned x m :=
  fun hb => h.spares hb assigned

/-- What comes behind a computation is on a machine in the same environment, with all the scopes. -/
theorem Spares.bind (h : Spares bound assigned x m)
    (hf : ∀ v m₁, x m = .ok v m₁ → m.Spares bound assigned m₁ → Spares bound assigned (f v) m₁) :
    Spares bound assigned (x >>= f) m := by
  intro hb
  have h := h hb
  cases hx : x m with
  | ok v m₁ =>
    rw [hx] at h
    rw [Fueled.bind_ok hx]
    exact h.trans (hf v m₁ hx h (Nat.le_trans hb h.next))
  | error e m₁ =>
    rw [hx] at h
    rw [Fueled.bind_error hx]
    exact h

/-- The environment of a block or a body is left again. -/
theorem Spares.within {environment : Environment}
    (h : Spares bound assigned x (m.inside environment)) :
    Spares bound assigned (within environment x) m := by
  intro hb
  have h := h hb
  cases hx : x (m.inside environment) with
  | ok v m₁ =>
    rw [hx] at h
    rw [within_ok hx]
    exact { h with environment := rfl }
  | error e m₁ =>
    rw [hx] at h
    rw [within_error hx]
    exact { h with environment := rfl }

theorem Spares.nested (h : Spares bound assigned x { m with depth := m.depth + 1 }) :
    Spares bound assigned (nested x) m := by
  intro hb
  have h := h hb
  unfold Eval.nested
  cases hx : x { m with depth := m.depth + 1 } with
  | ok v m₁ =>
    rw [hx] at h
    exact { h with }
  | error e m₁ =>
    rw [hx] at h
    exact { h with }

/-- A declaration in a scope further in. -/
theorem Spares.define (h : m.Beyond bound) (name : String) (v : Value) :
    Spares bound assigned (define name v) m := by
  obtain ⟨scope, outer, he, hscope, -⟩ := h
  have hput : m.scopes.define m.environment name v = m.scopes.put scope name v := by
    rw [he]
    rfl
  show _ → m.Spares bound assigned { m with scopes := m.scopes.define m.environment name v }
  rw [hput]
  exact fun _ => .put m hscope name v

/-- An assignment stores its value where its occurrence resolves to. -/
theorem Spares.writeVariable {o : Occurrence} {v : Value}
    (ha : ∀ scope, m.Resolves o scope → assigned scope o.name.text v) :
    Spares bound assigned (writeVariable o v) m := by
  refine ((targetOf_sparing o).on m).bind fun scope m₁ ht _ _ => ?_
  obtain ⟨rfl, hr, hs⟩ := targetOf_resolves ht
  exact .assign _ hs (ha scope hr)

/-- A class is declared in the innermost scope, where its name is bound before its value is. -/
theorem Spares.declareClass (h : m.Beyond bound) (c : Class) :
    Spares bound assigned (declareClass c) m := by
  refine ((superclassOf_sparing _).on m).bind fun superclass? m₁ _ hs₁ => ?_
  have hbeyond := h.spared hs₁
  refine (Spares.define hbeyond _ _).bind fun _ m₂ hdefine hs₂ => ?_
  refine ((memberEnvironment_sparing _).on m₂).bind fun environment m₃ hm _ => ?_
  refine (freshId_sparing.on m₃).bind fun id m₄ hid _ _ => ?_
  obtain ⟨scope, outer, he, hscope, hlt⟩ := hbeyond
  have hkept : m₂.Spares m₂.scopes.next (fun _ _ _ => False) m₄ := by
    have h₃ := memberEnvironment_sparing superclass? m₂
    have h₄ := freshId_sparing m₃
    rw [hm] at h₃
    rw [hid] at h₄
    exact h₃.trans (h₄.mono h₃.next nofun)
  have hbound : (m₂.scopes.value? scope c.name.text).isSome = true := by
    cases hdefine
    have hdefined : (m₁.scopes.define (scope :: outer) c.name.text .nil).value? scope c.name.text =
        some .nil := Scopes.value?_define hlt _ _
    rw [← he] at hdefined
    exact congrArg Option.isSome hdefined
  rw [← hkept.isSome_eq (Nat.lt_of_lt_of_le hlt hs₂.next)] at hbound
  have henv : m₄.environment = scope :: outer :=
    hkept.environment.trans (hs₂.environment.trans he)
  have htarget : m₄.scopes.target (scope :: outer) c.name = .ok scope :=
    Scopes.target_innermost hbound
  rw [← henv] at htarget
  rw [Fueled.bind_get, htarget]
  exact .put m₄ hscope _ _

end

end Eval

/-- The tasks that a task starts, if they leave the first scopes alone. An assignment on the way
from one of them is on the way from the task. -/
def Point.SparesOn (bound : Nat) (a : Point) : Prop :=
  ∀ b, Starts a b → b.Inside bound → b.Sparing bound

namespace Point.SparesOn

/-- What starts in the same environment, or in no need of one. -/
theorem spares (h : a.SparesOn bound) (hs : Starts a b)
    (hd : b.task.Declares → b.machine.Beyond bound) (hb : bound ≤ b.machine.scopes.next) :
    b.machine.Spares bound a.Assigns b.behind :=
  (h b hs ⟨hb, hd⟩).mono (Nat.le_refl _) fun _ _ _ => hs.assigns

variable {fuel : Nat}

theorem evaluate {e : Expr} (h : SparesOn bound ⟨fuel + 1, .evaluate e, m⟩) :
    Eval.Spares bound (Assigns ⟨fuel + 1, .evaluate e, m⟩) (Eval.evaluate (fuel + 1) e) m := by
  cases e with
  | literal l => exact (Eval.Sparing.pure _).on m
  | group inner => exact h.spares .group nofun
  | unary op line operand =>
    refine .bind (h.spares .unary nofun) fun v m₁ _ _ => ?_
    exact (Eval.Sparing.ofExcept _).on m₁
  | binary op line left right =>
    refine .bind (h.spares .binaryLeft nofun) fun v m₁ hl _ => ?_
    refine .bind (h.spares (.binaryRight hl) nofun) fun u m₂ _ _ => ?_
    exact (Eval.Sparing.ofExcept _).on m₂
  | logical op left right =>
    refine .bind (h.spares .logicalLeft nofun) fun v m₁ hl _ => ?_
    split
    · exact (Eval.Sparing.pure _).on m₁
    · rename_i hv
      exact h.spares (.logicalRight hl (Bool.not_eq_true _ ▸ hv)) nofun
  | ternary condition thenBranch elseBranch =>
    refine .bind (h.spares .question nofun) fun v m₁ hc _ => ?_
    rw [← apply_ite (Eval.evaluate fuel)]
    exact h.spares (.answer hc) nofun
  | comma left right =>
    refine .bind (h.spares .commaLeft nofun) fun v m₁ hl _ => ?_
    exact h.spares (.commaRight hl) nofun
  | «variable» o => exact (Eval.readVariable_sparing _ _).on m
  | assign o value =>
    refine .bind (h.spares .assigned nofun) fun v m₁ hv _ => ?_
    refine .bind (.writeVariable fun scope hscope => ?_) fun _ m₂ _ _ => ?_
    · exact ⟨_, fuel, o, value, m, m₁, .here, hv, hscope, rfl⟩
    · exact (Eval.Sparing.pure _).on m₂
  | call callee line arguments =>
    refine .bind (h.spares .callee nofun) fun v m₁ hc _ => ?_
    refine .bind (h.spares (.arguments hc) nofun) fun vs m₂ ha _ => ?_
    refine .bind ((Eval.callableOf_sparing v vs.length line).on m₂) fun c m₃ hcallable _ => ?_
    exact h.spares (.called hc ha hcallable) nofun
  | get object name =>
    refine .bind (h.spares .object nofun) fun v m₁ ho _ => ?_
    refine .bind ((Eval.propertyOfValue_sparing v name).on m₁) fun property m₂ hp _ => ?_
    exact h.spares (.property ho hp) nofun
  | set object name value =>
    refine .bind (h.spares .holder nofun) fun v m₁ ho _ => ?_
    refine .bind ((Eval.instanceOf_sparing v name).on m₁) fun i m₂ hi _ => ?_
    refine .bind (h.spares (.stored ho hi) nofun) fun u m₃ _ _ => ?_
    exact ((Eval.setField_sparing i name.text u).bind fun _ => .pure _).on m₃
  | this id line => exact (Eval.readVariable_sparing _ _).on m
  | super id line method =>
    refine .bind ((Eval.superOf_sparing id line).on m) fun r m₁ hr _ => ?_
    refine .bind ((Eval.superPropertyOf_sparing r.1 r.2 method).on m₁) fun property m₂ hp _ => ?_
    exact h.spares (.superProperty hr hp) nofun
  | lambda f => exact ((Eval.declareFunction_sparing f).bind fun _ => .pure _).on m

theorem evaluateAll {es : List Expr} (h : SparesOn bound ⟨fuel + 1, .evaluateAll es, m⟩) :
    Eval.Spares bound (Assigns ⟨fuel + 1, .evaluateAll es, m⟩) (Eval.evaluateAll (fuel + 1) es)
      m := by
  cases es with
  | nil => exact (Eval.Sparing.pure _).on m
  | cons e es =>
    refine .bind (h.spares .head nofun) fun v m₁ he _ => ?_
    refine .bind (h.spares (.tail he) nofun) fun vs m₂ _ _ => ?_
    exact (Eval.Sparing.pure _).on m₂

theorem readProperty {property : Eval.Property} {line : Nat}
    (h : SparesOn bound ⟨fuel + 1, .readProperty property line, m⟩) :
    Eval.Spares bound (Assigns ⟨fuel + 1, .readProperty property line, m⟩)
      (Eval.readProperty (fuel + 1) property line) m := by
  cases property with
  | value v => exact (Eval.Sparing.pure _).on m
  | getter closure =>
    refine .bind ((Eval.newFunction_sparing closure).on m) fun c m₁ hc _ => ?_
    exact h.spares (.getter hc) nofun

theorem call {c : Callable} {vs : List Value} {line : Nat}
    (h : SparesOn bound ⟨fuel + 1, .call c vs line, m⟩) :
    Eval.Spares bound (Assigns ⟨fuel + 1, .call c vs line, m⟩)
      (Eval.call (fuel + 1) c vs line) m := by
  refine .bind ((Eval.checkDepth_sparing line).on m) fun _ m₁ hroom _ => ?_
  cases c with
  | function id closure => exact .nested (h.spares (.function hroom) nofun)
  | «class» c => exact .nested (h.spares (.class hroom) nofun)
  | native id n => exact .nested ((Eval.runNative_sparing n vs line).on _)

/-- The body of a function runs in a scope that is opened for it. -/
theorem run {c : Closure} {vs : List Value} (h : SparesOn bound ⟨fuel + 1, .run c vs, m⟩) :
    Eval.Spares bound (Assigns ⟨fuel + 1, .run c vs, m⟩) (Eval.run (fuel + 1) c vs) m := by
  intro hb
  refine Eval.Spares.bind ((Eval.openScope_sparing _ _).on m) (fun environment m₁ ho _ => ?_) hb
  refine .bind (.within (h.spares (.body ho) fun _ => .opened ho hb)) fun flow m₂ _ _ => ?_
  exact (Eval.resultOf_sparing c flow).on m₂

theorem construct {c : ClassValue} {vs : List Value}
    (h : SparesOn bound ⟨fuel + 1, .construct c vs, m⟩) :
    Eval.Spares bound (Assigns ⟨fuel + 1, .construct c vs, m⟩)
      (Eval.construct (fuel + 1) c vs) m := by
  refine .bind ((Eval.newInstance_sparing c).on m) fun i m₁ hi _ => ?_
  cases hc : c.initializer? with
  | none => exact (Eval.Sparing.pure _).on m₁
  | some method =>
    refine .bind ((Eval.bindThis_sparing method i).on m₁) fun closure m₂ hb _ => ?_
    refine .bind (h.spares (.initializer hi hc hb) nofun) fun v m₃ _ _ => ?_
    exact (Eval.Sparing.pure _).on m₃

theorem execute {s : Stmt} (h : SparesOn bound ⟨fuel + 1, .execute s, m⟩)
    (hm : (Task.execute s).Declares → m.Beyond bound) :
    Eval.Spares bound (Assigns ⟨fuel + 1, .execute s, m⟩) (Eval.execute (fuel + 1) s) m := by
  cases s with
  | expression e =>
    refine .bind (h.spares .expression nofun) fun v m₁ _ _ => ?_
    exact (Eval.Sparing.pure _).on m₁
  | print e =>
    refine .bind (h.spares .print nofun) fun v m₁ _ _ => ?_
    exact ((Eval.print_sparing v.text).bind fun _ => .pure _).on m₁
  | var name initializer? =>
    cases initializer? with
    | none =>
      refine .bind (.define (hm trivial) name.text .nil) fun _ m₁ _ _ => ?_
      exact (Eval.Sparing.pure _).on m₁
    | some e =>
      refine .bind (h.spares .var nofun) fun v m₁ _ hs => ?_
      refine .bind (.define ((hm trivial).spared hs) name.text v) fun _ m₂ _ _ => ?_
      exact (Eval.Sparing.pure _).on m₂
  | block ss =>
    intro hb
    refine Eval.Spares.bind (Eval.Sparing.get.on m) (fun m₁ m₂ hget _ => ?_) hb
    cases hget
    refine .bind ((Eval.openScope_sparing _ _).on m) fun environment m₁ ho _ => ?_
    exact .within (h.spares (.block ho) fun _ => .opened ho hb)
  | «if» condition thenBranch elseBranch? =>
    have hbeyond := hm trivial
    refine .bind (h.spares .condition nofun) fun v m₁ hc hs => ?_
    split
    · rename_i hv
      exact h.spares (.thenBranch hc hv) fun _ => hbeyond.spared hs
    · rename_i hv
      cases elseBranch? with
      | none => exact (Eval.Sparing.pure _).on m₁
      | some elseBranch =>
        exact h.spares (.elseBranch hc (Bool.not_eq_true _ ▸ hv)) fun _ => hbeyond.spared hs
  | «while» condition body increment? => exact h.spares .while fun _ => hm trivial
  | function f =>
    refine .bind ((Eval.declareFunction_sparing f).on m) fun c m₁ _ hs => ?_
    refine .bind (.define ((hm trivial).spared hs) _ _) fun _ m₂ _ _ => ?_
    exact (Eval.Sparing.pure _).on m₂
  | «class» c =>
    refine .bind (.declareClass (hm trivial) c) fun _ m₁ _ _ => ?_
    exact (Eval.Sparing.pure _).on m₁
  | «return» line value? =>
    cases value? with
    | none => exact (Eval.Sparing.pure _).on m
    | some e =>
      refine .bind (h.spares .result nofun) fun v m₁ _ _ => ?_
      exact (Eval.Sparing.pure _).on m₁
  | «break» | «continue» => exact (Eval.Sparing.pure _).on m

/-- Every turn of a loop is in the environment of the loop. -/
theorem loop {condition : Expr} {body : Stmt} {increment? : Option Expr}
    (h : SparesOn bound ⟨fuel + 1, .loop condition body increment?, m⟩) (hm : m.Beyond bound) :
    Eval.Spares bound (Assigns ⟨fuel + 1, .loop condition body increment?, m⟩)
      (Eval.loop (fuel + 1) condition body increment?) m := by
  refine .bind (h.spares .test nofun) fun v m₁ hc hs => ?_
  split
  · rename_i hv
    have hm := hm.spared hs
    refine .bind (h.spares (.turn hc hv) fun _ => hm) fun flow m₂ hb hs => ?_
    have hm := hm.spared hs
    have goesOn (hf : flow = .normal ∨ flow = .continue) :
        Eval.Spares bound (Assigns ⟨fuel + 1, .loop condition body increment?, m⟩)
          (Eval.nextTurn fuel condition body increment?) m₂ := by
      cases increment? with
      | none => exact h.spares (.again hc hv hb hf) fun _ => hm
      | some increment =>
        refine .bind (h.spares (.increment hc hv hb hf) nofun) fun u m₃ hi hs => ?_
        exact h.spares (.incremented hc hv hb hf hi) fun _ => hm.spared hs
    cases flow with
    | normal => exact goesOn (.inl rfl)
    | «continue» => exact goesOn (.inr rfl)
    | «return» v => exact (Eval.Sparing.pure _).on m₂
    | «break» => exact (Eval.Sparing.pure _).on m₂
  · exact (Eval.Sparing.pure _).on m₁

theorem executeAll {ss : List Stmt} (h : SparesOn bound ⟨fuel + 1, .executeAll ss, m⟩)
    (hm : m.Beyond bound) :
    Eval.Spares bound (Assigns ⟨fuel + 1, .executeAll ss, m⟩) (Eval.executeAll (fuel + 1) ss)
      m := by
  cases ss with
  | nil => exact (Eval.Sparing.pure _).on m
  | cons s ss =>
    refine .bind (h.spares .first fun _ => hm) fun flow m₁ hs hspares => ?_
    cases flow with
    | normal => exact h.spares (.next hs) fun _ => hm.spared hspares
    | _ => exact (Eval.Sparing.pure _).on m₁

end Point.SparesOn

/-- In a block or a call, every task leaves the scopes alone that were there before the block or
the call, but for the assignments on its way. -/
theorem Point.Inside.sparing : ∀ {a : Point}, a.Inside bound → a.Sparing bound := by
  rintro ⟨fuel, task, m⟩
  induction fuel generalizing task m with
  | zero =>
    intro _
    cases task with
    | _ => exact Machine.Spares.refl m
  | succ fuel ih =>
    intro h
    have hon : SparesOn bound ⟨fuel + 1, task, m⟩ := by
      intro ⟨fuel', task', m'⟩ hs
      cases hs.fuel_eq
      exact ih task' m'
    cases task with
    | evaluate e => exact hon.evaluate h.next
    | evaluateAll es => exact hon.evaluateAll h.next
    | readProperty property line => exact hon.readProperty h.next
    | call c vs line => exact hon.call h.next
    | run c vs => exact hon.run h.next
    | construct c vs => exact hon.construct h.next
    | execute s => exact hon.execute h.beyond h.next
    | loop condition body increment? => exact hon.loop (h.beyond trivial) h.next
    | executeAll ss => exact hon.executeAll (h.beyond trivial) h.next

/-- A block that is executed and a callable that is called neither add a name to a scope that was
there before nor remove one, however they end. A variable of such a scope has another value behind
them only if an assignment on their way, to an occurrence that resolves to this variable, has stored
it. -/
theorem Point.outer_scopes_kept {a : Point}
    (ha : (∃ ss, a.task = .execute (.block ss)) ∨ ∃ c vs line, a.task = .call c vs line)
    {scope : Nat} (hs : scope < a.machine.scopes.next) (name : String) :
    (a.behind.scopes.value? scope name).isSome = (a.machine.scopes.value? scope name).isSome ∧
      (a.behind.scopes.value? scope name ≠ a.machine.scopes.value? scope name →
        ∃ v, a.Assigns scope name v ∧ a.behind.scopes.value? scope name = some v) := by
  have hinside : a.Inside a.machine.scopes.next := by
    refine ⟨Nat.le_refl _, fun hd => ?_⟩
    rcases ha with ⟨ss, ht⟩ | ⟨c, vs, line, ht⟩
    all_goals
      rw [ht] at hd
      exact hd.elim
  have hspares := hinside.sparing
  refine ⟨hspares.isSome_eq hs name, fun hne => ?_⟩
  rcases hspares.kept scope hs name with heq | ⟨-, hstored⟩
  · exact (hne heq).elim
  · exact hstored

/-- A block assigns to a global and declares a variable of the same name. -/
theorem Point.outer_scopes_kept_shadowed : ∃ program s ss,
    (Session.start 1024 [] .open fun _ => 0).accepted?
      (.program "\x7b clock = nil; var clock = true; \x7d") = some (program, s) ∧
    program.statements = [.block ss] ∧ 0 < s.machine.scopes.next ∧
    s.machine.scopes.value? 0 "clock" = some (.callable (.native 0 .clock)) ∧
    (Point.behind ⟨50, .execute (.block ss), s.machine⟩).scopes.value? 0 "clock" = some .nil ∧
    ((Point.behind ⟨50, .execute (.block ss), s.machine⟩).scopes.value? 0 "clock").isSome =
      (s.machine.scopes.value? 0 "clock").isSome ∧
    ∃ v, Point.Assigns ⟨50, .execute (.block ss), s.machine⟩ 0 "clock" v ∧
      (Point.behind ⟨50, .execute (.block ss), s.machine⟩).scopes.value? 0 "clock" = some v := by
  have ha : (Session.start 1024 [] .open fun _ => 0).accepted?
      (.program "\x7b clock = nil; var clock = true; \x7d") =
        some (⟨[.block [.expression (.assign ⟨1, ⟨"clock", 1⟩⟩ (.literal .nil)),
          .var ⟨"clock", 1⟩ (some (.literal (.bool true)))]], 2⟩,
          ⟨Machine.start 1024 [] .open fun _ => 0, 0⟩) := by
    cbv
  have hglobals : 0 < (Machine.start 1024 [] .open fun _ => 0).scopes.next := by decide
  have hkept := Point.outer_scopes_kept (a := ⟨50, .execute (.block
      [.expression (.assign ⟨1, ⟨"clock", 1⟩⟩ (.literal .nil)),
        .var ⟨"clock", 1⟩ (some (.literal (.bool true)))]),
      Machine.start 1024 [] .open fun _ => 0⟩)
    (.inl ⟨_, rfl⟩) hglobals "clock"
  exact ⟨_, _, _, ha, rfl, hglobals, rfl, rfl, hkept.1, hkept.2 (by rintro ⟨⟩)⟩

end LoxLang
