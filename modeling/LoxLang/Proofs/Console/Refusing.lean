import LoxLang.Proofs.Console.Carrying

/-!
Runs whose output refuses every write. Such a run takes the steps of the same run with another
output, up to the first that prints, and fails there.
-/

namespace LoxLang

/-- The output when it refuses every write. -/
def Sink.unwritten (reason : String) (sink : Sink) : Sink :=
  { sink with writeRefusal? := some reason }

/-- The output when it refuses every flush. -/
def Sink.unflushed (reason : String) (sink : Sink) : Sink :=
  { sink with flushRefusal? := some reason }

/-- The console with a change of what its output answers. -/
def Console.answering (f : Sink → Sink) (c : Console) : Console :=
  { c with sink := f c.sink }

theorem Console.readLine_answering (f : Sink → Sink) (c : Console) :
    (c.answering f).readLine = (c.readLine.1, c.readLine.2.answering f) := by
  obtain ⟨hsink, hprinted⟩ := c.readLine_keeps
  refine (c.readLine_of_input c.printed (f c.sink)).trans ?_
  rw [← hprinted, ← hsink]
  rfl

/-- A run does not ask how a flush is answered. -/
theorem Eval.perform_unflushed (reason : String) (fuel : Nat) (t : Task) :
    Carries (Console.answering (.unflushed reason)) (perform fuel t) := by
  refine perform_carries (fun p => ?_) fuel t
  cases hp : p.printed? with
  | none => exact p.carries _ hp fun _ => Console.readLine_answering _
  | some text =>
    cases p with
    | print text =>
      exact print_carries (.answering (.unflushed reason)) (fun _ => rfl) (fun _ _ => rfl) text
    | _ => cases hp

namespace Action

/-- Whether a step prints. -/
def prints (s : Action) : Bool :=
  s.primitive.printed?.isSome

/-- The steps up to the first that prints, and that one. -/
def untilPrint : List Action → List Action
  | [] => []
  | s :: ss => if s.prints then [s] else s :: untilPrint ss

theorem untilPrint_append (ss ss' : List Action) :
    untilPrint (ss ++ ss') =
      if (ss.find? prints).isSome then untilPrint ss else ss ++ untilPrint ss' := by
  induction ss with
  | nil => rfl
  | cons s ss ih =>
    rw [List.cons_append, untilPrint, untilPrint, List.find?_cons]
    cases s.prints with
    | true => rfl
    | false =>
      rw [ih]
      cases ss.find? prints <;> rfl

theorem untilPrint_of_none {ss : List Action} (h : ss.find? prints = none) :
    untilPrint ss = ss := by
  have happend := untilPrint_append ss []
  rw [h, List.append_nil] at happend
  exact happend.trans (List.append_nil ss)

end Action

/-- How a computation ends where the output refuses every write: at its first step that prints, and
as it does otherwise if there is none. -/
def Eval.Refused {α : Type} (reason : String) (x : Eval α) (m : Machine) : Option Action → Prop
  | none => x (m.consoled (.answering (.unwritten reason))) =
      Fueled.consoled (.answering (.unwritten reason)) (x m)
  | some s => ∃ m', x (m.consoled (.answering (.unwritten reason))) =
      .error (.failed (.io reason)) m' ∧
      m'.atTop = (s.machine.consoled (.answering (.unwritten reason))).atTop

namespace Eval.Refused

variable {α β : Type} {reason : String} {x : Eval α} {f : α → Eval β} {m m₁ : Machine}
  {s? s'? : Option Action}

/-- Where nothing prints, the change of the output is carried on. -/
theorem ok_of_none {a : α} (h : Refused reason x m none) (hx : x m = .ok a m₁) :
    x (m.consoled (.answering (.unwritten reason))) =
      .ok a (m₁.consoled (.answering (.unwritten reason))) := by
  have h : x (m.consoled _) = Fueled.consoled _ (x m) := h
  rw [hx] at h
  exact h

theorem error_of_none {e : Stop} (h : Refused reason x m none) (hx : x m = .error e m₁) :
    x (m.consoled (.answering (.unwritten reason))) =
      .error e (m₁.consoled (.answering (.unwritten reason))) := by
  have h : x (m.consoled _) = Fueled.consoled _ (x m) := h
  rw [hx] at h
  exact h

/-- What fails still fails, if with another error. -/
theorem fails {e : Stop} (h : Refused reason x m s?) (hx : x m = .error e m₁) :
    ∃ e' m', x (m.consoled (.answering (.unwritten reason))) = .error e' m' := by
  cases s? with
  | none => exact ⟨_, _, h.error_of_none hx⟩
  | some s =>
    obtain ⟨m', hx', -⟩ := h
    exact ⟨_, m', hx'⟩

theorem bind_ok {a : α} (h : Refused reason x m s?) (hx : x m = .ok a m₁)
    (hf : Refused reason (f a) m₁ s'?) : Refused reason (x >>= f) m (s?.or s'?) := by
  cases s? with
  | some s =>
    obtain ⟨m', hx', hm'⟩ := h
    exact ⟨m', Fueled.bind_error hx', hm'⟩
  | none =>
    have hsame := h.ok_of_none hx
    rw [Option.none_or]
    cases s'? with
    | some s =>
      obtain ⟨m', hf', hm'⟩ := hf
      exact ⟨m', (Fueled.bind_ok hsame).trans hf', hm'⟩
    | none =>
      show (x >>= f) (m.consoled _) = Fueled.consoled _ ((x >>= f) m)
      rw [Fueled.bind_ok hsame, Fueled.bind_ok hx]
      exact hf

theorem bind_error {e : Stop} (h : Refused reason x m s?) (hx : x m = .error e m₁) :
    Refused reason (x >>= f) m s? := by
  cases s? with
  | some s =>
    obtain ⟨m', hx', hm'⟩ := h
    exact ⟨m', Fueled.bind_error hx', hm'⟩
  | none =>
    show (x >>= f) (m.consoled _) = Fueled.consoled _ ((x >>= f) m)
    rw [Fueled.bind_error (h.error_of_none hx), Fueled.bind_error hx]
    rfl

theorem around (shell : Shell) (h : Refused reason x (shell.enter m) s?) :
    Refused reason (shell.around x) m s? := by
  have henter := congrArg x (shell.enter_consoled (k := .answering (.unwritten reason)) m)
  cases s? with
  | some s =>
    obtain ⟨m', hx', hm'⟩ := h
    exact ⟨_, shell.around_error (henter.trans hx'), (shell.atTop_leave _ _).trans hm'⟩
  | none =>
    show shell.around x (m.consoled _) = Fueled.consoled _ (shell.around x m)
    cases hx : x (shell.enter m) with
    | ok a m₁ =>
      rw [shell.around_ok hx, shell.around_ok (henter.trans (h.ok_of_none hx)),
        shell.leave_consoled]
      rfl
    | error e m₁ =>
      rw [shell.around_error hx, shell.around_error (henter.trans (h.error_of_none hx)),
        shell.leave_consoled]
      rfl

end Eval.Refused

/-- A step is refused if it prints. -/
theorem Primitive.refused (reason : String) (p : Primitive) (m : Machine) :
    Eval.Refused reason p.go m ([(⟨p, m⟩ : Action)].find? Action.prints) := by
  cases hp : p.printed? with
  | none =>
    rw [List.find?_singleton, if_neg (by simp [Action.prints, hp])]
    exact p.carries _ hp (fun _ => Console.readLine_answering _) m
  | some text =>
    rw [List.find?_singleton, if_pos (by simp [Action.prints, hp])]
    cases p with
    | print text => exact ⟨_, Eval.print_refused rfl, rfl⟩
    | _ => cases hp

/-- What a run whose output refuses every write goes through, and how it ends. -/
structure Eval.RefusedWith {α : Type} (reason : String) (x : Eval α)
    (actions : Machine → List Action) (m : Machine) : Prop where
  result : x.Refused reason m ((actions m).find? Action.prints)
  actions : actions (m.consoled (.answering (.unwritten reason))) =
    (Action.untilPrint (actions m)).map (.consoled (.answering (.unwritten reason)))

/-- What is gone through behind something else is so only if nothing before it prints. -/
theorem Eval.RefusedWith.bind {α β : Type} {reason : String} {x : Eval α} {f : α → Eval β}
    {all own : Machine → List Action} {later : α → Machine → List Action} {m : Machine}
    (hok : ∀ {m m₁ a}, x m = .ok a m₁ → all m = own m ++ later a m₁)
    (herror : ∀ {m m₁ e}, x m = .error e m₁ → all m = own m)
    (h : RefusedWith reason x own m) (hf : ∀ a m₁, RefusedWith reason (f a) (later a) m₁) :
    RefusedWith reason (x >>= f) all m := by
  obtain ⟨hresult, hactions⟩ := h
  cases hx : x m with
  | ok a m₁ =>
    constructor
    · rw [hok hx, List.find?_append]
      exact hresult.bind_ok hx (hf a m₁).result
    · rw [hok hx, Action.untilPrint_append]
      cases hfind : (own m).find? Action.prints with
      | none =>
        rw [hfind] at hresult
        have hsame := Refused.ok_of_none hresult hx
        rw [hok hsame, hactions, Action.untilPrint_of_none hfind, (hf a m₁).actions]
        exact (List.map_append).symm
      | some s =>
        rw [hfind] at hresult
        obtain ⟨m', hx', -⟩ := hresult
        rw [herror hx', hactions]
        rfl
  | error e m₁ =>
    constructor
    · rw [herror hx]
      exact hresult.bind_error hx
    · rw [herror hx, ← hactions]
      obtain ⟨e', m', hx'⟩ := hresult.fails hx
      exact herror hx'

/-- A plan is refused as its steps and its tasks are. -/
theorem Plan.refused {α : Type} {reason : String} {fuel : Nat}
    {inner : Task → Machine → List Action}
    (hinner : ∀ t m, Eval.RefusedWith reason (Eval.perform fuel t) (inner t) m) (plan : Plan α)
    (m : Machine) : Eval.RefusedWith reason (plan.go fuel) (plan.actions inner fuel) m := by
  induction plan generalizing m with
  | done a => exact ⟨rfl, rfl⟩
  | step p next ih =>
    have hown : Eval.RefusedWith reason p.go (fun m => [⟨p, m⟩]) m := by
      refine ⟨p.refused reason m, ?_⟩
      unfold Action.untilPrint
      split <;> rfl
    exact .bind actions_step_ok actions_step_error hown ih
  | start shell t next ih =>
    have hown : Eval.RefusedWith reason (shell.around (Eval.perform fuel t))
        (fun m => inner t (shell.enter m)) m := by
      obtain ⟨hresult, hactions⟩ := hinner t (shell.enter m)
      exact ⟨hresult.around shell, (congrArg _ (shell.enter_consoled m)).trans hactions⟩
    exact .bind (actions_start_ok shell) (actions_start_error shell) hown ih

/-- A run whose output refuses every write takes the steps of the run with another output up to the
first that prints. -/
theorem Task.refused (reason : String) (fuel : Nat) (t : Task) (m : Machine) :
    Eval.RefusedWith reason (Eval.perform fuel t) (t.actions fuel) m := by
  induction fuel generalizing t m with
  | zero =>
    rw [Eval.perform_zero]
    exact ⟨rfl, rfl⟩
  | succ fuel ih =>
    rw [Eval.perform_succ]
    exact t.plan.refused (fun t m => ih t m) m

end LoxLang
