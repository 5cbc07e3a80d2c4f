import LoxLang.Proofs.Running.Depth

/-!
Where an overflow of the calls comes from. No step of a task overflows but a call that is attempted
where no further one may be made, so that an overflow can be traced back to such a call.
-/

namespace LoxLang

open Fueled

section

variable {fuel line : Nat} {m : Machine}

namespace Eval

variable {α β : Type} {x : Eval α} {f : α → Eval β}

theorem Plain.not_overflow (h : Plain x) : ¬ Fails x m (.stackOverflow line) := by
  intro ⟨m₁, hx⟩
  obtain ⟨d, hd, hne⟩ := h.ends m _ m₁ hx
  cases hd
  exact hne line rfl

/-- An overflow comes behind a step. -/
theorem Plain.overflow_behind (h : Plain x) (ho : Fails (x >>= f) m (.stackOverflow line)) :
    ∃ a m₁, x m = .ok a m₁ ∧ Fails (f a) m₁ (.stackOverflow line) :=
  ho.cases.resolve_left h.not_overflow

/-- An overflow comes before the steps. -/
theorem Plain.overflow_before (hf : ∀ a, Plain (f a))
    (ho : Fails (x >>= f) m (.stackOverflow line)) : Fails x m (.stackOverflow line) := by
  rcases ho.cases with hx | ⟨a, m₁, -, ha⟩
  · exact hx
  · exact ((hf a).not_overflow ha).elim

end Eval

open Eval (Plain)

/-- A task that a point starts overflows. -/
def Point.PassesOverflow (a : Point) (line : Nat) : Prop :=
  ∃ b, Starts a b ∧ b.Fails (.stackOverflow line)

theorem evaluate_overflow {e : Expr}
    (h : Fails (Eval.evaluate (fuel + 1) e) m (.stackOverflow line)) :
    Point.PassesOverflow ⟨fuel + 1, .evaluate e, m⟩ line := by
  cases e with
  | literal l => exact ((Plain.pure _).not_overflow h).elim
  | group inner => exact ⟨_, .group, h⟩
  | unary op line' operand =>
    exact ⟨_, .unary, Plain.overflow_before (op.apply_plain line') h⟩
  | binary op line' left right =>
    rcases h.cases with h | ⟨v, m₁, hl, h⟩
    · exact ⟨_, .binaryLeft, h⟩
    · exact ⟨_, .binaryRight hl, Plain.overflow_before (op.apply_plain line' v) h⟩
  | logical op left right =>
    rcases h.cases with h | ⟨v, m₁, hl, h⟩
    · exact ⟨_, .logicalLeft, h⟩
    · split at h
      · exact ((Plain.pure v).not_overflow h).elim
      · rename_i hv
        exact ⟨_, .logicalRight hl (Bool.not_eq_true _ ▸ hv), h⟩
  | ternary condition thenBranch elseBranch =>
    rcases h.cases with h | ⟨v, m₁, hc, h⟩
    · exact ⟨_, .question, h⟩
    · rw [← apply_ite (Eval.evaluate fuel)] at h
      exact ⟨_, .answer hc, h⟩
  | comma left right =>
    rcases h.cases with h | ⟨v, m₁, hl, h⟩
    · exact ⟨_, .commaLeft, h⟩
    · exact ⟨_, .commaRight hl, h⟩
  | «variable» o => exact ((Eval.readVariable_plain _ _).not_overflow h).elim
  | assign o value =>
    have written (v : Value) : Plain (do Eval.writeVariable o v; return v) :=
      (Eval.writeVariable_plain o v).bind fun _ => .pure v
    exact ⟨_, .assigned, Plain.overflow_before written h⟩
  | call callee line' arguments =>
    rcases h.cases with h | ⟨v, m₁, hc, h⟩
    · exact ⟨_, .callee, h⟩
    · rcases h.cases with h | ⟨vs, m₂, ha, h⟩
      · exact ⟨_, .arguments hc, h⟩
      · obtain ⟨c, m₃, hcallable, h⟩ :=
          (Eval.callableOf_plain v vs.length line').overflow_behind h
        exact ⟨_, .called hc ha hcallable, h⟩
  | get object name =>
    rcases h.cases with h | ⟨v, m₁, ho, h⟩
    · exact ⟨_, .object, h⟩
    · obtain ⟨property, m₂, hp, h⟩ := (Eval.propertyOfValue_plain v name).overflow_behind h
      exact ⟨_, .property ho hp, h⟩
  | set object name value =>
    rcases h.cases with h | ⟨v, m₁, ho, h⟩
    · exact ⟨_, .holder, h⟩
    · obtain ⟨i, m₂, hi, h⟩ := (Eval.instanceOf_plain v name).overflow_behind h
      have written (u : Value) : Plain (do Eval.setField i name.text u; return u) :=
        (Eval.setField_plain i name.text u).bind fun _ => .pure u
      exact ⟨_, .stored ho hi, Plain.overflow_before written h⟩
  | this id line' => exact ((Eval.readVariable_plain _ _).not_overflow h).elim
  | super id line' method =>
    obtain ⟨r, m₁, hr, h⟩ := (Eval.superOf_plain id line').overflow_behind h
    obtain ⟨property, m₂, hp, h⟩ := (Eval.superPropertyOf_plain r.1 r.2 method).overflow_behind h
    exact ⟨_, .superProperty hr hp, h⟩
  | lambda f =>
    have made : Plain (do return Value.callable (← Eval.declareFunction f)) :=
      (Eval.declareFunction_plain f).bind fun _ => .pure _
    exact (made.not_overflow h).elim

theorem evaluateAll_overflow {es : List Expr}
    (h : Fails (Eval.evaluateAll (fuel + 1) es) m (.stackOverflow line)) :
    Point.PassesOverflow ⟨fuel + 1, .evaluateAll es, m⟩ line := by
  cases es with
  | nil => exact ((Plain.pure _).not_overflow h).elim
  | cons e es =>
    rcases h.cases with h | ⟨v, m₁, he, h⟩
    · exact ⟨_, .head, h⟩
    · exact ⟨_, .tail he, Plain.overflow_before (fun _ => .pure _) h⟩

theorem readProperty_overflow {property : Eval.Property} {line' : Nat}
    (h : Fails (Eval.readProperty (fuel + 1) property line') m (.stackOverflow line)) :
    Point.PassesOverflow ⟨fuel + 1, .readProperty property line', m⟩ line := by
  cases property with
  | value v => exact ((Plain.pure v).not_overflow h).elim
  | getter closure =>
    obtain ⟨c, m₁, hc, h⟩ := (Eval.newFunction_plain closure).overflow_behind h
    exact ⟨_, .getter hc, h⟩

/-- A call overflows in what it calls, or at once. -/
theorem call_overflow {c : Callable} {vs : List Value} {line' : Nat}
    (h : Fails (Eval.call (fuel + 1) c vs line') m (.stackOverflow line)) :
    Point.PassesOverflow ⟨fuel + 1, .call c vs line', m⟩ line ∨
      line' = line ∧ m.maxDepth ≤ m.depth := by
  rcases h.cases with h | ⟨_, m₁, hc, h⟩
  · obtain ⟨hd, hdepth⟩ := Eval.checkDepth_fails h
    cases hd
    exact .inr ⟨rfl, hdepth⟩
  · left
    cases c with
    | function id closure => exact ⟨_, .function hc, Eval.fails_nested_iff.mp h⟩
    | «class» c => exact ⟨_, .class hc, Eval.fails_nested_iff.mp h⟩
    | native id n =>
      have hn := Eval.runNative_plain n vs line'
      exact (hn.not_overflow (Eval.fails_nested_iff.mp h)).elim

theorem run_overflow {c : Closure} {vs : List Value}
    (h : Fails (Eval.run (fuel + 1) c vs) m (.stackOverflow line)) :
    Point.PassesOverflow ⟨fuel + 1, .run c vs, m⟩ line := by
  obtain ⟨environment, m₁, ho, h⟩ := (Eval.openScope_plain _ _).overflow_behind h
  have h := Plain.overflow_before (Eval.resultOf_plain c) h
  exact ⟨_, .body ho, Eval.fails_within_iff.mp h⟩

theorem construct_overflow {c : ClassValue} {vs : List Value}
    (h : Fails (Eval.construct (fuel + 1) c vs) m (.stackOverflow line)) :
    Point.PassesOverflow ⟨fuel + 1, .construct c vs, m⟩ line := by
  obtain ⟨i, m₁, hi, h⟩ := (Eval.newInstance_plain c).overflow_behind h
  split at h
  · exact ((Plain.pure _).not_overflow h).elim
  · rename_i method hm
    obtain ⟨closure, m₂, hb, h⟩ := (Eval.bindThis_plain method i).overflow_behind h
    exact ⟨_, .initializer hi hm hb, Plain.overflow_before (fun _ => .pure _) h⟩

theorem execute_overflow {s : Stmt}
    (h : Fails (Eval.execute (fuel + 1) s) m (.stackOverflow line)) :
    Point.PassesOverflow ⟨fuel + 1, .execute s, m⟩ line := by
  cases s with
  | expression e => exact ⟨_, .expression, Plain.overflow_before (fun _ => .pure _) h⟩
  | print e =>
    have printed (v : Value) : Plain (do Eval.print v.text; return Flow.normal) :=
      (Eval.print_plain v.text).bind fun _ => .pure _
    exact ⟨_, .print, Plain.overflow_before printed h⟩
  | var name initializer? =>
    have defined (v : Value) : Plain (do Eval.define name.text v; return Flow.normal) :=
      (Eval.define_plain name.text v).bind fun _ => .pure _
    cases initializer? with
    | none => exact ((defined .nil).not_overflow h).elim
    | some e => exact ⟨_, .var, Plain.overflow_before defined h⟩
  | block body =>
    obtain ⟨_, _, hm, h⟩ := h.cases.resolve_left nofun
    cases hm
    obtain ⟨environment, m₁, ho, h⟩ := (Eval.openScope_plain _ _).overflow_behind h
    exact ⟨_, .block ho, Eval.fails_within_iff.mp h⟩
  | «if» condition thenBranch elseBranch? =>
    rcases h.cases with h | ⟨v, m₁, hc, h⟩
    · exact ⟨_, .condition, h⟩
    · split at h
      · rename_i hv
        exact ⟨_, .thenBranch hc hv, h⟩
      · rename_i hv
        cases elseBranch? with
        | none => exact ((Plain.pure _).not_overflow h).elim
        | some elseBranch => exact ⟨_, .elseBranch hc (Bool.not_eq_true _ ▸ hv), h⟩
  | «while» condition body increment? => exact ⟨_, .while, h⟩
  | function f =>
    have declared : Plain (do
        Eval.define f.displayName (.callable (← Eval.declareFunction f))
        return Flow.normal) :=
      (Eval.declareFunction_plain f).bind fun c =>
        (Eval.define_plain f.displayName (.callable c)).bind fun _ => .pure _
    exact (declared.not_overflow h).elim
  | «class» c =>
    have h := Plain.overflow_before (fun _ => .pure _) h
    exact ((Eval.declareClass_plain c).not_overflow h).elim
  | «return» line' value? =>
    cases value? with
    | none => exact ((Plain.pure _).not_overflow h).elim
    | some e => exact ⟨_, .result, Plain.overflow_before (fun _ => .pure _) h⟩
  | «break» => exact ((Plain.pure _).not_overflow h).elim
  | «continue» => exact ((Plain.pure _).not_overflow h).elim

theorem loop_overflow {condition : Expr} {body : Stmt} {increment? : Option Expr}
    (h : Fails (Eval.loop (fuel + 1) condition body increment?) m (.stackOverflow line)) :
    Point.PassesOverflow ⟨fuel + 1, .loop condition body increment?, m⟩ line := by
  rcases h.cases with h | ⟨v, m₁, hc, h⟩
  · exact ⟨_, .test, h⟩
  · split at h
    · rename_i hv
      rcases h.cases with h | ⟨flow, m₂, hb, h⟩
      · exact ⟨_, .turn hc hv, h⟩
      · cases increment? with
        | none =>
          cases flow with
          | normal => exact ⟨_, .again hc hv hb (.inl rfl), h⟩
          | «continue» => exact ⟨_, .again hc hv hb (.inr rfl), h⟩
          | «break» => exact ((Plain.pure _).not_overflow h).elim
          | «return» u => exact ((Plain.pure _).not_overflow h).elim
        | some increment =>
          have onward (hf : flow = .normal ∨ flow = .continue)
              (h : Fails (do
                let _ ← Eval.evaluate fuel increment
                Eval.loop fuel condition body (some increment)) m₂ (.stackOverflow line)) :
              Point.PassesOverflow ⟨fuel + 1, .loop condition body (some increment), m⟩ line := by
            rcases h.cases with h | ⟨u, m₃, hi, h⟩
            · exact ⟨_, .increment hc hv hb hf, h⟩
            · exact ⟨_, .incremented hc hv hb hf hi, h⟩
          cases flow with
          | normal => exact onward (.inl rfl) h
          | «continue» => exact onward (.inr rfl) h
          | «break» => exact ((Plain.pure _).not_overflow h).elim
          | «return» u => exact ((Plain.pure _).not_overflow h).elim
    · exact ((Plain.pure _).not_overflow h).elim

theorem executeAll_overflow {ss : List Stmt}
    (h : Fails (Eval.executeAll (fuel + 1) ss) m (.stackOverflow line)) :
    Point.PassesOverflow ⟨fuel + 1, .executeAll ss, m⟩ line := by
  cases ss with
  | nil => exact ((Plain.pure _).not_overflow h).elim
  | cons s ss =>
    rcases h.cases with h | ⟨flow, m₁, hs, h⟩
    · exact ⟨_, .first, h⟩
    · cases flow with
      | normal => exact ⟨_, .next hs, h⟩
      | _ => exact ((Plain.pure _).not_overflow h).elim

end

/-- An overflow is that of a task started, or of a call that is refused. -/
theorem Point.Fails.overflow {a : Point} {line : Nat} (h : a.Fails (.stackOverflow line)) :
    a.PassesOverflow line ∨ a.Refused line := by
  obtain ⟨fuel, task, m⟩ := a
  cases fuel with
  | zero => cases task <;> exact nomatch h
  | succ fuel =>
    cases task with
    | evaluate e => exact .inl (evaluate_overflow h)
    | evaluateAll es => exact .inl (evaluateAll_overflow h)
    | readProperty property line' => exact .inl (readProperty_overflow h)
    | call c vs line' =>
      rcases call_overflow h with h | ⟨rfl, hdepth⟩
      · exact .inl h
      · exact .inr ⟨fuel, c, vs, m, rfl, hdepth⟩
    | run c vs => exact .inl (run_overflow h)
    | construct c vs => exact .inl (construct_overflow h)
    | execute s => exact .inl (execute_overflow h)
    | loop condition body increment? => exact .inl (loop_overflow h)
    | executeAll ss => exact .inl (executeAll_overflow h)

/-- A call that is refused is over at once. -/
theorem Eval.call_refused {fuel line : Nat} {c : Callable} {vs : List Value} {m : Machine}
    (h : m.maxDepth ≤ m.depth) :
    Eval.call (fuel + 1) c vs line m = .error (.failed (.stackOverflow line)) m := by
  have hcheck : Eval.checkDepth line m = .error (.failed (.stackOverflow line)) m := by
    unfold Eval.checkDepth
    rw [Fueled.bind_get, if_pos h]
    rfl
  exact Fueled.bind_error hcheck

theorem Point.Refused.fails {a : Point} {line : Nat} (h : a.Refused line) :
    a.Fails (.stackOverflow line) := by
  obtain ⟨fuel, c, vs, m, rfl, hdepth⟩ := h
  exact ⟨m, Eval.call_refused hdepth⟩

/-- A failure at a point that a run comes to ends the run. -/
theorem Nests.fails {start a : Point} {calls : Nat} {d : Diagnostic} (h : Nests start calls a)
    (ha : a.Fails d) : start.Fails d := by
  induction h with
  | here => exact ha
  | next _ hs ih => exact ih (hs.fails ha)

/-- A run overflows just if it comes to a call that is refused. -/
theorem Point.fails_overflow_iff {start : Point} {line : Nat} :
    start.Fails (.stackOverflow line) ↔ ∃ calls a, Nests start calls a ∧ a.Refused line := by
  constructor
  · have step : ∀ fuel (start : Point), start.fuel = fuel → start.Fails (.stackOverflow line) →
        ∃ calls a, Nests start calls a ∧ a.Refused line := by
      intro fuel
      induction fuel with
      | zero =>
        intro start hfuel h
        rcases h.overflow with ⟨b, hs, -⟩ | hr
        · rw [hs.fuel_eq] at hfuel
          cases hfuel
        · exact ⟨0, start, .here, hr⟩
      | succ fuel ih =>
        intro start hfuel h
        rcases h.overflow with ⟨b, hs, hb⟩ | hr
        · rw [hs.fuel_eq] at hfuel
          obtain ⟨calls, a, hn, hr⟩ := ih b (Nat.succ.inj hfuel) hb
          exact ⟨_, a, hn.head hs, hr⟩
        · exact ⟨0, start, .here, hr⟩
    exact step start.fuel start rfl
  · rintro ⟨calls, a, hn, hr⟩
    exact hn.fails hr.fails

/-- A run in which at most `limit` calls are under way. It is stopped just where one more is
attempted. -/
structure Point.Limited (limit : Nat) (start : Point) : Prop where
  counted : ∀ calls a, Nests start calls a → a.machine.depth = calls ∧ calls ≤ limit
  begun : ∀ calls fuel c vs line m, Nests start calls ⟨fuel + 1, .call c vs line, m⟩ →
    calls < limit → Eval.checkDepth line m = .ok () m
  refused : ∀ fuel c vs line m, Nests start limit ⟨fuel + 1, .call c vs line, m⟩ →
    Eval.call (fuel + 1) c vs line m = .error (.failed (.stackOverflow line)) m
  overflow : ∀ line, start.Fails (.stackOverflow line) ↔
    ∃ fuel c vs m, Nests start limit ⟨fuel + 1, .call c vs line, m⟩

/-- A run that starts with no call under way is limited by its machine. -/
theorem Point.limited (start : Point) (hd : start.machine.depth = 0) :
    start.Limited start.machine.maxDepth where
  counted := by
    intro calls a h
    obtain ⟨hdepth, -, hle⟩ := h.depth hd
    exact ⟨hdepth, hle⟩
  begun := by
    intro calls fuel c vs line m h hlt
    obtain ⟨hdepth, hmax, -⟩ := h.depth hd
    have hdepth : m.depth = calls := hdepth
    have hmax : m.maxDepth = start.machine.maxDepth := hmax
    unfold Eval.checkDepth
    rw [Fueled.bind_get, if_neg (by omega)]
    rfl
  refused := by
    intro fuel c vs line m h
    obtain ⟨hdepth, hmax, -⟩ := h.depth hd
    have hdepth : m.depth = start.machine.maxDepth := hdepth
    have hmax : m.maxDepth = start.machine.maxDepth := hmax
    exact Eval.call_refused (by omega)
  overflow := by
    intro line
    rw [fails_overflow_iff]
    constructor
    · rintro ⟨calls, _, h, fuel, c, vs, m, rfl, hle⟩
      obtain ⟨hdepth, hmax, hcalls⟩ := h.depth hd
      have hdepth : m.depth = calls := hdepth
      have hmax : m.maxDepth = start.machine.maxDepth := hmax
      obtain rfl : calls = start.machine.maxDepth := by omega
      exact ⟨fuel, c, vs, m, h⟩
    · intro ⟨fuel, c, vs, m, h⟩
      obtain ⟨hdepth, hmax, -⟩ := h.depth hd
      exact ⟨_, _, h, fuel, c, vs, m, rfl, Nat.le_of_eq (hmax.trans hdepth.symm)⟩

end LoxLang
