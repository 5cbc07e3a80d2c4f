import LoxLang.Proofs.Running.Failing

/-!
Where a variable that is not at its distance comes from. If such a failure ends a run, the run has
come to a use whose scope does not bind its name. A step lemma traces a failure back to a task that
was started or to a use, and the run lemma follows it by induction on the fuel.
-/

namespace LoxLang

open Fueled

variable {P : Mention → Prop} {D : Distances} {pending : List (Nat × String)} {fuel line : Nat}
  {m : Machine} {name : String}

/-- A use whose name is not bound in the scope at its distance. -/
def Use.Misplaced (use : Use) (m : Machine) : Prop :=
  ∃ id ∈ use.id?, ∃ d, m.distances.find? id = some d ∧
    m.scopes.findAt? m.environment d use.name = none

/-- Where the failure of a task comes from: a task that it starts, or a use of the name. -/
def Point.Origin (a : Point) (line : Nat) (name : String) : Prop :=
  (∃ b, Starts a b ∧ b.Fails (.runtime line (.misplacedVariable name))) ∨
    ∃ use m, Accesses a use m ∧ use.name = name ∧ use.Misplaced m

namespace Point.Origin

variable {a b : Point}

theorem started (h : Starts a b) (hb : b.Fails (.runtime line (.misplacedVariable name))) :
    a.Origin line name :=
  .inl ⟨b, h, hb⟩

theorem used {use : Use} (h : Accesses a use m) (hn : use.name = name) (hu : use.Misplaced m) :
    a.Origin line name :=
  .inr ⟨use, m, h, hn, hu⟩

end Point.Origin

/-- A name that is read is missing at its distance if the reading says so. -/
theorem Eval.misplaced_of_readVariable {id : Nat} {n : Name}
    (h : Fails (Eval.readVariable id n) m (.runtime line (.misplacedVariable name))) :
    n.text = name ∧ ∃ d, m.distances.find? id = some d ∧
      m.scopes.findAt? m.environment d n.text = none := by
  obtain ⟨m', h⟩ := h
  cases hd : m.distances.find? id with
  | none =>
    rcases Eval.readVariable_global n hd with ⟨v, hr⟩ | hr
    · rw [hr] at h
      cases h
    · rw [hr] at h
      cases h
  | some d =>
    rcases Eval.readVariable_placed n hd with ⟨-, v, hr⟩ | ⟨hnone, hr⟩
    · rw [hr] at h
      cases h
    · rw [hr] at h
      cases h
      exact ⟨rfl, d, rfl, hnone⟩

theorem Eval.misplaced_of_targetOf {o : Occurrence}
    (h : Fails (Eval.targetOf o) m (.runtime line (.misplacedVariable name))) :
    o.name.text = name ∧ ∃ d, m.distances.find? o.id = some d ∧
      m.scopes.findAt? m.environment d o.name.text = none := by
  obtain ⟨m', h⟩ := h
  cases hd : m.distances.find? o.id with
  | none =>
    rcases Eval.targetOf_global hd with ⟨scope, hr⟩ | hr
    · rw [hr] at h
      cases h
    · rw [hr] at h
      cases h
  | some d =>
    rcases Eval.targetOf_placed hd with ⟨-, scope, hr⟩ | ⟨hnone, hr⟩
    · rw [hr] at h
      cases h
    · rw [hr] at h
      cases h
      exact ⟨rfl, d, rfl, hnone⟩

/-- A class declaration fails so only where it reads its superclass. -/
theorem Eval.misplaced_of_declareClass {c : Class}
    (h : Fails (Eval.declareClass c) m (.runtime line (.misplacedVariable name))) :
    ∃ o, c.superclass? = some o ∧ o.name.text = name ∧ ∃ d, m.distances.find? o.id = some d ∧
      m.scopes.findAt? m.environment d o.name.text = none := by
  unfold Eval.declareClass at h
  rcases h.cases with h | ⟨superclass?, m₁, -, h⟩
  · unfold Eval.superclassOf at h
    cases hc : c.superclass? with
    | none =>
      rw [hc] at h
      exact (Eval.Silent.pure _ _ _ _ h).elim
    | some o =>
      rw [hc] at h
      rcases h.cases with h | ⟨v, m₁, -, h⟩
      · obtain ⟨hn, hd⟩ := Eval.misplaced_of_readVariable h
        exact ⟨o, rfl, hn, hd⟩
      · split at h
        · exact (Eval.Silent.pure _ _ _ _ h).elim
        · exact (Eval.Silent.fail (fun _ _ he => by cases he) _ _ _ h).elim
  · refine (Eval.Silent.bind (Eval.define_silent _ _) (fun _ => ?_) _ _ _ h).elim
    refine .bind (Eval.memberEnvironment_silent _) fun environment => ?_
    refine .bind (.modifyGet _) fun id => ?_
    exact .bind .get fun m => .bind (Scopes.target_silent _ _ _) fun _ => .modifyGet _

/-- The failure of an expression. -/
theorem evaluate_origin (hP : ∀ m, P m → m.Allowed ∧ m.Placed D) {e : Expr}
    (hf : Point.Followed P D pending ⟨fuel + 1, .evaluate e, m⟩)
    (h : Fails (Eval.evaluate (fuel + 1) e) m (.runtime line (.misplacedVariable name))) :
    Point.Origin ⟨fuel + 1, .evaluate e, m⟩ line name := by
  cases e with
  | literal l => exact (Eval.Silent.pure _ _ _ _ h).elim
  | group inner => exact .started .group h
  | unary op line' operand =>
    rcases h.cases with h | ⟨v, m₁, -, h⟩
    · exact .started .unary h
    · exact (op.apply_silent line' v _ _ _ h).elim
  | binary op line' left right =>
    rcases h.cases with h | ⟨v, m₁, hl, h⟩
    · exact .started .binaryLeft h
    · rcases h.cases with h | ⟨u, m₂, -, h⟩
      · exact .started (.binaryRight hl) h
      · exact (op.apply_silent line' v u _ _ _ h).elim
  | logical op left right =>
    rcases h.cases with h | ⟨v, m₁, hl, h⟩
    · exact .started .logicalLeft h
    · split at h
      · exact (Eval.Silent.pure _ _ _ _ h).elim
      · rename_i hv
        exact .started (.logicalRight hl (Bool.not_eq_true _ ▸ hv)) h
  | ternary condition thenBranch elseBranch =>
    rcases h.cases with h | ⟨v, m₁, hc, h⟩
    · exact .started .question h
    · rw [← apply_ite (Eval.evaluate fuel)] at h
      exact .started (.answer hc) h
  | comma left right =>
    rcases h.cases with h | ⟨v, m₁, hl, h⟩
    · exact .started .commaLeft h
    · exact .started (.commaRight hl) h
  | «variable» o =>
    obtain ⟨hn, d, hd, hnone⟩ := Eval.misplaced_of_readVariable h
    exact .used .read hn ⟨o.id, rfl, d, hd, hnone⟩
  | assign o value =>
    rcases h.cases with h | ⟨v, m₁, hv, h⟩
    · exact .started .assigned h
    · rcases h.cases with h | ⟨_, _, -, h⟩
      · rcases h.cases with h | ⟨_, _, -, h⟩
        · obtain ⟨hn, d, hd, hnone⟩ := Eval.misplaced_of_targetOf h
          exact .used (.assign hv) hn ⟨o.id, rfl, d, hd, hnone⟩
        · exact (Eval.Silent.modifyGet _ _ _ _ h).elim
      · exact (Eval.Silent.pure _ _ _ _ h).elim
  | call callee line' arguments =>
    rcases h.cases with h | ⟨v, m₁, hc, h⟩
    · exact .started .callee h
    · rcases h.cases with h | ⟨vs, m₂, ha, h⟩
      · exact .started (.arguments hc) h
      · rcases h.cases with h | ⟨c, m₃, hcallable, h⟩
        · exact (Eval.callableOf_silent v vs.length line' _ _ _ h).elim
        · exact .started (.called hc ha hcallable) h
  | get object n =>
    rcases h.cases with h | ⟨v, m₁, ho, h⟩
    · exact .started .object h
    · rcases h.cases with h | ⟨property, m₂, hp, h⟩
      · exact (Eval.propertyOfValue_silent v n _ _ _ h).elim
      · exact .started (.property ho hp) h
  | set object n value =>
    rcases h.cases with h | ⟨v, m₁, ho, h⟩
    · exact .started .holder h
    · rcases h.cases with h | ⟨i, m₂, hi, h⟩
      · exact (Eval.instanceOf_silent v n _ _ _ h).elim
      · rcases h.cases with h | ⟨u, m₃, -, h⟩
        · exact .started (.stored ho hi) h
        · exact (Eval.Silent.bind (Eval.setField_silent i n.text u) (fun _ => .pure _) _ _ _ h).elim
  | this id line' =>
    obtain ⟨hn, d, hd, hnone⟩ := Eval.misplaced_of_readVariable h
    exact .used .this hn ⟨id, rfl, d, hd, hnone⟩
  | super id line' method =>
    rcases h.cases with h | ⟨r, m₁, hr, h⟩
    · obtain ⟨p, w, s, mention, -, hsighted⟩ := Accesses.super.sighted hP hf
      obtain ⟨d, c, i, hd, hc, hi⟩ := hsighted.super hP
      obtain ⟨m', h⟩ := h
      rw [Eval.superOf_found hd hc hi] at h
      cases h
    · rcases h.cases with h | ⟨property, m₂, hp, h⟩
      · exact (Eval.superPropertyOf_silent r.1 r.2 method _ _ _ h).elim
      · exact .started (.superProperty hr hp) h
  | lambda f =>
    exact (Eval.Silent.bind (Eval.declareFunction_silent f) (fun _ => .pure _) _ _ _ h).elim

/-- The failure of a list of expressions. -/
theorem evaluateAll_origin {es : List Expr}
    (h : Fails (Eval.evaluateAll (fuel + 1) es) m (.runtime line (.misplacedVariable name))) :
    Point.Origin ⟨fuel + 1, .evaluateAll es, m⟩ line name := by
  cases es with
  | nil => exact (Eval.Silent.pure _ _ _ _ h).elim
  | cons e es =>
    rcases h.cases with h | ⟨v, m₁, he, h⟩
    · exact .started .head h
    · rcases h.cases with h | ⟨vs, m₂, -, h⟩
      · exact .started (.tail he) h
      · exact (Eval.Silent.pure _ _ _ _ h).elim

/-- The failure of reading a property. -/
theorem readProperty_origin {property : Eval.Property} {line' : Nat}
    (h : Fails (Eval.readProperty (fuel + 1) property line') m
      (.runtime line (.misplacedVariable name))) :
    Point.Origin ⟨fuel + 1, .readProperty property line', m⟩ line name := by
  cases property with
  | value v => exact (Eval.Silent.pure _ _ _ _ h).elim
  | getter closure =>
    rcases h.cases with h | ⟨c, m₁, hc, h⟩
    · exact (Eval.newFunction_silent closure _ _ _ h).elim
    · exact .started (.getter hc) h

/-- The failure of a call. -/
theorem call_origin {c : Callable} {vs : List Value} {line' : Nat}
    (h : Fails (Eval.call (fuel + 1) c vs line') m (.runtime line (.misplacedVariable name))) :
    Point.Origin ⟨fuel + 1, .call c vs line', m⟩ line name := by
  rcases h.cases with h | ⟨_, m₁, hc, h⟩
  · exact (Eval.checkDepth_silent line' _ _ _ h).elim
  · cases c with
    | function id closure => exact .started (.function hc) (Eval.fails_nested_iff.mp h)
    | «class» c => exact .started (.class hc) (Eval.fails_nested_iff.mp h)
    | native id n =>
      exact (Eval.runNative_silent n vs line' _ _ _ (Eval.fails_nested_iff.mp h)).elim

/-- A call that has gone on to its end has a result. -/
theorem resultOf_ok {p : Position} {w : World} {s : Lexical.State} {c c' : Closure}
    (hs : Stands P D p w m s) (hc : FunctionRelated P w c c') (flow : Flow) :
    ∃ v, Eval.resultOf c flow m = .ok v m := by
  unfold Eval.resultOf
  cases hi : c.isInitializer with
  | true =>
    obtain ⟨around, kind, frames, hm, -, -, hthis⟩ := hc.matched
    obtain ⟨cell, b, value?, -, hl⟩ := hs.linked.located hm (hthis hi)
    obtain ⟨i, -, -, ha, -⟩ := hl.this c.function.line
    refine ⟨.instance i, ?_⟩
    show Eval.ofExcept (m.scopes.readAt c.environment 0 ⟨"this", c.function.line⟩) m = _
    rw [ha]
    rfl
  | false =>
    cases flow with
    | «return» v => exact ⟨v, rfl⟩
    | _ => exact ⟨.nil, rfl⟩

/-- The failure of a function. -/
theorem run_origin (hP : ∀ m, P m → m.Allowed ∧ m.Placed D) {c : Closure} {vs : List Value}
    (hf : Point.Followed P D pending ⟨fuel + 1, .run c vs, m⟩)
    (h : Fails (Eval.run (fuel + 1) c vs) m (.runtime line (.misplacedVariable name))) :
    Point.Origin ⟨fuel + 1, .run c vs, m⟩ line name := by
  obtain ⟨p, w, s, -, hs, c', vs', hc, hvs, hlength⟩ := hf
  obtain ⟨q, w₁, environment, cells, m₁, s₁, hb⟩ := hs.called hP hc hvs hlength
  rcases h.cases with h | ⟨environment', m₁', ho, h⟩
  · exact (Eval.Silent.modifyGet _ _ _ _ h).elim
  · rw [hb.opened] at ho
    cases ho
    rcases h.cases with h | ⟨flow, m₂, hflow, h⟩
    · exact .started (.body hb.opened) (Eval.fails_within_iff.mp h)
    · obtain ⟨_, s₂, w₂, -, hw₂, -, hs₂⟩ := ((simulates hP fuel).called hs hb).ok hflow
      have hw := World.le_trans hb.grows.le hw₂.le
      obtain ⟨v, hv⟩ := resultOf_ok hs₂ (hc.mono (fun _ => id) hw) flow
      obtain ⟨m', h⟩ := h
      rw [hv] at h
      cases h

/-- The failure of making an instance. -/
theorem construct_origin {c : ClassValue} {vs : List Value}
    (h : Fails (Eval.construct (fuel + 1) c vs) m (.runtime line (.misplacedVariable name))) :
    Point.Origin ⟨fuel + 1, .construct c vs, m⟩ line name := by
  rcases h.cases with h | ⟨i, m₁, hi, h⟩
  · exact (Eval.Silent.modifyGet _ _ _ _ h).elim
  · split at h
    · exact (Eval.Silent.pure _ _ _ _ h).elim
    · rename_i method hm
      rcases h.cases with h | ⟨closure, m₂, hb, h⟩
      · exact (Eval.bindThis_silent method i _ _ _ h).elim
      · rcases h.cases with h | ⟨_, _, -, h⟩
        · exact .started (.initializer hi hm hb) h
        · exact (Eval.Silent.pure _ _ _ _ h).elim

/-- The failure of a statement. -/
theorem execute_origin {stmt : Stmt}
    (h : Fails (Eval.execute (fuel + 1) stmt) m (.runtime line (.misplacedVariable name))) :
    Point.Origin ⟨fuel + 1, .execute stmt, m⟩ line name := by
  cases stmt with
  | expression e =>
    rcases h.cases with h | ⟨_, _, -, h⟩
    · exact .started .expression h
    · exact (Eval.Silent.pure _ _ _ _ h).elim
  | print e =>
    rcases h.cases with h | ⟨v, _, -, h⟩
    · exact .started .print h
    · exact (Eval.Silent.bind (Eval.print_silent v.text) (fun _ => .pure _) _ _ _ h).elim
  | var n initializer? =>
    cases initializer? with
    | none =>
      exact (Eval.Silent.bind (Eval.define_silent n.text .nil) (fun _ => .pure _) _ _ _ h).elim
    | some e =>
      rcases h.cases with h | ⟨v, _, -, h⟩
      · exact .started .var h
      · exact (Eval.Silent.bind (Eval.define_silent n.text v) (fun _ => .pure _) _ _ _ h).elim
  | block body =>
    rcases h.cases with h | ⟨_, _, hm, h⟩
    · exact (Eval.Silent.get _ _ _ h).elim
    · cases hm
      rcases h.cases with h | ⟨environment, m₁, ho, h⟩
      · exact (Eval.Silent.modifyGet _ _ _ _ h).elim
      · exact .started (.block ho) (Eval.fails_within_iff.mp h)
  | «if» condition thenBranch elseBranch? =>
    rcases h.cases with h | ⟨v, m₁, hc, h⟩
    · exact .started .condition h
    · split at h
      · rename_i hv
        exact .started (.thenBranch hc hv) h
      · rename_i hv
        cases elseBranch? with
        | none => exact (Eval.Silent.pure _ _ _ _ h).elim
        | some elseBranch => exact .started (.elseBranch hc (Bool.not_eq_true _ ▸ hv)) h
  | «while» condition body increment? => exact .started .while h
  | function f =>
    rcases h.cases with h | ⟨c, _, -, h⟩
    · exact (Eval.declareFunction_silent f _ _ _ h).elim
    · exact (Eval.Silent.bind (Eval.define_silent f.displayName (.callable c)) (fun _ => .pure _)
        _ _ _ h).elim
  | «class» c =>
    rcases h.cases with h | ⟨_, _, -, h⟩
    · obtain ⟨o, ho, hn, d, hd, hnone⟩ := Eval.misplaced_of_declareClass h
      exact .used (.inherit ho) hn ⟨o.id, rfl, d, hd, hnone⟩
    · exact (Eval.Silent.pure _ _ _ _ h).elim
  | «return» line' value? =>
    cases value? with
    | none => exact (Eval.Silent.pure _ _ _ _ h).elim
    | some value =>
      rcases h.cases with h | ⟨_, _, -, h⟩
      · exact .started .result h
      · exact (Eval.Silent.pure _ _ _ _ h).elim
  | «break» => exact (Eval.Silent.pure _ _ _ _ h).elim
  | «continue» => exact (Eval.Silent.pure _ _ _ _ h).elim

/-- The failure of a loop. -/
theorem loop_origin {condition : Expr} {body : Stmt} {increment? : Option Expr}
    (h : Fails (Eval.loop (fuel + 1) condition body increment?) m
      (.runtime line (.misplacedVariable name))) :
    Point.Origin ⟨fuel + 1, .loop condition body increment?, m⟩ line name := by
  rcases h.cases with h | ⟨v, m₁, hc, h⟩
  · exact .started .test h
  · split at h
    · rename_i hv
      rcases h.cases with h | ⟨flow, m₂, hb, h⟩
      · exact .started (.turn hc hv) h
      · cases increment? with
        | none =>
          cases flow with
          | normal => exact .started (.again hc hv hb (.inl rfl)) h
          | «continue» => exact .started (.again hc hv hb (.inr rfl)) h
          | «break» => exact (Eval.Silent.pure _ _ _ _ h).elim
          | «return» v => exact (Eval.Silent.pure _ _ _ _ h).elim
        | some increment =>
          have hnext : flow = .normal ∨ flow = .continue → Fails (do
              let _ ← Eval.evaluate fuel increment
              Eval.loop fuel condition body (some increment)) m₂
                (.runtime line (.misplacedVariable name)) →
              Point.Origin ⟨fuel + 1, .loop condition body (some increment), m⟩ line name := by
            intro hf h
            rcases h.cases with h | ⟨u, m₃, hi, h⟩
            · exact .started (.increment hc hv hb hf) h
            · exact .started (.incremented hc hv hb hf hi) h
          cases flow with
          | normal => exact hnext (.inl rfl) h
          | «continue» => exact hnext (.inr rfl) h
          | «break» => exact (Eval.Silent.pure _ _ _ _ h).elim
          | «return» v => exact (Eval.Silent.pure _ _ _ _ h).elim
    · exact (Eval.Silent.pure _ _ _ _ h).elim

/-- The failure of a list of statements. -/
theorem executeAll_origin {ss : List Stmt}
    (h : Fails (Eval.executeAll (fuel + 1) ss) m (.runtime line (.misplacedVariable name))) :
    Point.Origin ⟨fuel + 1, .executeAll ss, m⟩ line name := by
  cases ss with
  | nil => exact (Eval.Silent.pure _ _ _ _ h).elim
  | cons stmt ss =>
    rcases h.cases with h | ⟨flow, m₁, hs, h⟩
    · exact .started .first h
    · cases flow with
      | normal => exact .started (.next hs) h
      | «return» v => exact (Eval.Silent.pure _ _ _ _ h).elim
      | «break» => exact (Eval.Silent.pure _ _ _ _ h).elim
      | «continue» => exact (Eval.Silent.pure _ _ _ _ h).elim

/-- A failure by a variable that is not at its distance comes of a task started or of a use. -/
theorem Point.Followed.origin (hP : ∀ m, P m → m.Allowed ∧ m.Placed D) {a : Point}
    (hf : a.Followed P D pending) (h : a.Fails (.runtime line (.misplacedVariable name))) :
    a.Origin line name := by
  obtain ⟨fuel, task, m⟩ := a
  cases fuel with
  | zero => cases task <;> exact nomatch h
  | succ fuel =>
    cases task with
    | evaluate e => exact evaluate_origin hP hf h
    | evaluateAll es => exact evaluateAll_origin h
    | readProperty property line' => exact readProperty_origin h
    | call c vs line' => exact call_origin h
    | run c vs => exact run_origin hP hf h
    | construct c vs => exact construct_origin h
    | execute stmt => exact execute_origin h
    | loop condition body increment? => exact loop_origin h
    | executeAll ss => exact executeAll_origin h

theorem Starts.fuel_eq {a b : Point} (h : Starts a b) : a.fuel = b.fuel + 1 := by
  cases h <;> rfl

/-- A run goes on from what it starts. -/
theorem Reaches.head {a b c : Point} {underway : List (Nat × String)} (h : Starts a b)
    (hr : Reaches b underway c) : Reaches a (underway ++ a.initializing) c := by
  induction hr with
  | here =>
    have hb := Reaches.next .here h
    rw [List.append_nil] at hb
    exact hb
  | next _ hs ih =>
    rw [List.append_assoc]
    exact .next ih hs

/-- Behind a failure by a variable that is not at its distance, the run has come to a use of the
name that is misplaced. -/
theorem Point.Followed.misplaced (hP : ∀ m, P m → m.Allowed ∧ m.Placed D) {a : Point}
    (hf : a.Followed P D pending) (h : a.Fails (.runtime line (.misplacedVariable name))) :
    ∃ underway b use m, Reaches a underway b ∧ Accesses b use m ∧ use.name = name ∧
      use.Misplaced m := by
  have step : ∀ fuel a pending, a.fuel = fuel → Point.Followed P D pending a →
      a.Fails (.runtime line (.misplacedVariable name)) → ∃ underway b use m,
        Reaches a underway b ∧ Accesses b use m ∧ use.name = name ∧ use.Misplaced m := by
    intro fuel
    induction fuel with
    | zero =>
      intro a pending hfuel hf h
      rcases hf.origin hP h with ⟨b, hs, -⟩ | ⟨use, m, hu, hn, hm⟩
      · rw [hs.fuel_eq] at hfuel
        cases hfuel
      · exact ⟨[], a, use, m, .here, hu, hn, hm⟩
    | succ fuel ih =>
      intro a pending hfuel hf h
      rcases hf.origin hP h with ⟨b, hs, hb⟩ | ⟨use, m, hu, hn, hm⟩
      · rw [hs.fuel_eq] at hfuel
        obtain ⟨underway, c, use, m, hr, hu, hn, hm⟩ :=
          ih b _ (Nat.succ.inj hfuel) (hs.followed hP hf) hb
        exact ⟨_, c, use, m, hr.head hs, hu, hn, hm⟩
      · exact ⟨[], a, use, m, .here, hu, hn, hm⟩
  exact step a.fuel a pending rfl hf h

/-- A use that is misplaced fails, and the task with it. -/
theorem Accesses.fails {a : Point} {use : Use} (h : Accesses a use m)
    (hs : ∀ id, use ≠ .super id) (hm : use.Misplaced m) :
    ∃ line, a.Fails (.runtime line (.misplacedVariable use.name)) := by
  have hread : ∀ {id : Nat} {n : Name} {d : Nat}, m.distances.find? id = some d →
      m.scopes.findAt? m.environment d n.text = none →
      Fails (Eval.readVariable id n) m (.runtime n.line (.misplacedVariable n.text)) := by
    intro id n d hd hnone
    rcases Eval.readVariable_placed n hd with ⟨hsome, -⟩ | ⟨-, hr⟩
    · rw [hnone] at hsome
      cases hsome
    · exact ⟨m, hr⟩
  obtain ⟨id, hid, d, hd, hnone⟩ := hm
  cases h with
  | @read _ o _ =>
    cases hid
    exact ⟨o.name.line, hread hd hnone⟩
  | @assign _ o _ _ _ _ hv =>
    cases hid
    rcases Eval.targetOf_placed hd with ⟨hsome, -⟩ | ⟨-, hr⟩
    · have hnone : m.scopes.findAt? m.environment d o.name.text = none := hnone
      rw [hnone] at hsome
      cases hsome
    · have htarget : Fails (Eval.targetOf o) m
          (.runtime o.name.line (.misplacedVariable o.name.text)) := ⟨m, hr⟩
      exact ⟨o.name.line, Fails.after hv (Fails.bind (Fails.bind htarget))⟩
  | @inherit _ c o _ ho =>
    cases hid
    have hsuperclass : Fails (Eval.superclassOf c.superclass?) m
        (.runtime o.name.line (.misplacedVariable o.name.text)) := by
      rw [ho]
      exact Fails.bind (hread hd hnone)
    exact ⟨o.name.line, Fails.bind (Fails.bind hsuperclass)⟩
  | @this _ _ line _ =>
    cases hid
    exact ⟨line, hread (n := ⟨"this", line⟩) hd hnone⟩
  | super => exact (hs _ rfl).elim

/-- A failure at a point that a run comes to ends the run. -/
theorem Reaches.fails {start a : Point} {underway : List (Nat × String)} {d : Diagnostic}
    (h : Reaches start underway a) (ha : a.Fails d) : start.Fails d := by
  induction h with
  | here => exact ha
  | next _ hs ih => exact ih (hs.fails ha)

end LoxLang
