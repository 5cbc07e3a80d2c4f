import LoxLang.Proofs.Classes.Histories
import LoxLang.Proofs.Console.Refusing
import LoxLang.Proofs.Likeness.StaticFailures
import LoxLang.Proofs.Running.Restoring

/-!
Sessions whose output fails. A refused flush takes the place of what a run ends with and changes
nothing else. A refused write ends a run at the first `print` that it comes to, and leaves what had
come about until then.
-/

namespace LoxLang

/-- Whether a run comes to print a text, and the machine that does: a `print` statement is on its
way, and the value of its expression has this text. -/
def Point.Prints (a : Point) (text : String) (m : Machine) : Prop :=
  ∃ underway fuel e m₀ v, Reaches a underway ⟨fuel + 1, .execute (.print e), m₀⟩ ∧
    Eval.evaluate fuel e m₀ = .ok v m ∧ v.text = text

/-- Whether that is the first time that a run prints. -/
structure Point.PrintsFirst (a : Point) (text : String) (m : Machine) : Prop where
  prints : a.Prints text m
  first : ∃ before after, a.actions = before ++ ⟨.print text, m⟩ :: after ∧
    ∀ s ∈ before, s.primitive.printed? = none

section

variable {a : Point} {text : String} {m : Machine}

theorem Point.prints_iff : a.Prints text m ↔ ⟨.print text, m⟩ ∈ a.actions := by
  rw [Point.mem_actions_iff]
  constructor
  · rintro ⟨underway, fuel, e, m₀, v, hr, hx, hv⟩
    exact ⟨underway, _, hr, Point.mem_own_print.mpr ⟨fuel, e, m₀, v, rfl, hx, hv⟩⟩
  · rintro ⟨underway, b, hr, hs⟩
    obtain ⟨fuel, e, m₀, v, rfl, hx, hv⟩ := Point.mem_own_print.mp hs
    exact ⟨underway, fuel, e, m₀, v, hr, hx, hv⟩

theorem Action.prints_iff {s : Action} :
    s.prints = true ↔ ∃ text, s = ⟨.print text, s.machine⟩ := by
  obtain ⟨p, m⟩ := s
  constructor
  · intro h
    cases p with
    | print text => exact ⟨text, rfl⟩
    | _ => cases h
  · rintro ⟨text, h⟩
    cases h
    rfl

theorem Action.prints_eq_false {s : Action} :
    s.prints = false ↔ s.primitive.printed? = none :=
  Option.isSome_eq_false_iff.trans Option.isNone_iff_eq_none

/-- What prints first is the first of the steps that print. -/
theorem Point.printsFirst_iff :
    a.PrintsFirst text m ↔ a.actions.find? Action.prints = some ⟨.print text, m⟩ := by
  constructor
  · rintro ⟨-, before, after, hsplit, hnone⟩
    rw [hsplit]
    refine List.find?_eq_some_iff_append.mpr ⟨rfl, before, after, rfl, fun s hs => ?_⟩
    rw [Action.prints_eq_false.mpr (hnone s hs)]
    rfl
  · intro h
    obtain ⟨-, before, after, hsplit, hnone⟩ := List.find?_eq_some_iff_append.mp h
    refine ⟨Point.prints_iff.mpr (List.mem_of_find?_eq_some h), before, after, hsplit,
      fun s hs => ?_⟩
    exact Action.prints_eq_false.mp (by simpa using hnone s hs)

/-- A run that prints prints something first. -/
theorem Point.Prints.exists_first (h : a.Prints text m) : ∃ text m, a.PrintsFirst text m := by
  have hsome : (a.actions.find? Action.prints).isSome :=
    List.find?_isSome.mpr ⟨_, Point.prints_iff.mp h, rfl⟩
  obtain ⟨s, hs⟩ := Option.isSome_iff_exists.mp hsome
  obtain ⟨text, htext⟩ := Action.prints_iff.mp (List.find?_some hs)
  rw [htext] at hs
  exact ⟨text, _, Point.printsFirst_iff.mpr hs⟩

end

/-- A run whose output refuses writes prints nothing. -/
theorem Task.unprinted (fuel : Nat) (t : Task) {m : Machine} {reason : String}
    (h : m.console.sink.writeRefusal? = some reason) :
    (Fueled.behind (Eval.perform fuel t m)).console.printed = m.console.printed ∧
      (Fueled.behind (Eval.perform fuel t m)).console.sink = m.console.sink := by
  refine (t.course fuel m).keeps
    (P := fun m' => m'.console.printed = m.console.printed ∧ m'.console.sink = m.console.sink)
    (fun m₁ m₂ (hm : m₁.atTop = m₂.atTop) => ?_) (fun s _ hs => ?_) ⟨rfl, rfl⟩
  · have hconsole : m₁.atTop.console = m₂.atTop.console := congrArg Machine.console hm
    have hconsole : m₁.console = m₂.console := hconsole
    rw [hconsole]
    exact id
  · obtain ⟨p, m₁⟩ := s
    obtain ⟨hprinted, hsink⟩ := hs
    cases hp : p.printed? with
    | none =>
      obtain ⟨hprinted', hsink'⟩ := p.output_behind hp m₁
      exact ⟨hprinted'.trans hprinted, hsink'.trans hsink⟩
    | some text =>
      cases p with
      | print text =>
        have hrefusal : m₁.console.sink.writeRefusal? = some reason :=
          (congrArg Sink.writeRefusal? hsink).trans h
        have hgo : (Primitive.print text).go m₁ = .error (.failed (.io reason)) m₁ :=
          Eval.print_refused hrefusal
        unfold Action.behind
        rw [hgo]
        exact ⟨hprinted, hsink⟩
      | _ => cases hp

/-- Errors that are found before a run are none of a run. -/
theorem OneFailure.isStatic {errors : List Diagnostic} (h : OneFailure errors) :
    ∀ d ∈ errors, d.isStatic = true := by
  have hstatic {d : Diagnostic} (hd : d.phase ≠ .running) : d.isStatic = true := by
    cases hs : d.isStatic with
    | true => rfl
    | false => exact (hd (Diagnostic.isStatic_eq_false_iff.mp hs)).elim
  intro d hd
  rcases h with ⟨lexical, grammatical, rfl, hlexical, hgrammatical⟩ | h
  · rcases List.mem_append.mp hd with hd | hd
    · exact hstatic (by rw [hlexical d hd]; decide)
    · exact hstatic (by rw [hgrammatical d hd]; decide)
  · exact hstatic (by rw [h d hd]; decide)

/-- The outcome of a step when the output refuses to be flushed. Errors that are found before a run
are shown as they are. -/
def Outcome.unflushed (reason : String) (o : Outcome) : Outcome :=
  if o.errors.any Diagnostic.isStatic then o else ⟨o.output, [.io reason]⟩

namespace Session

/-- The session with a change of what its output answers. -/
def answering (s : Session) (f : Sink → Sink) : Session :=
  { s with machine := s.machine.consoled (.answering f) }

/-- What is seen of a step when the output refuses to be flushed. -/
def Shown.unflushed (reason : String) : Shown → Shown
  | .outcome o => .outcome (o.unflushed reason)
  | .line answer => .line answer

/-- How the run of a program differs where the output fails. -/
structure FailingRun (reason : String) (s : Session) (fuel : Nat) (program : Program) : Prop where
  /-- A refused flush is all that is shown besides the same output, and all else is the same. -/
  unflushed : (s.answering (.unflushed reason)).interpret fuel program =
    (s.interpret fuel program).map fun (o, t) =>
      (⟨o.output, [.io reason]⟩, t.answering (.unflushed reason))
  /-- Where nothing is printed, a refusal to write is never seen. -/
  quiet : (∀ text m, ¬ (s.starting fuel program).Prints text m) →
    (s.answering (.unwritten reason)).interpret fuel program =
      (s.interpret fuel program).map fun (o, t) => (o, t.answering (.unwritten reason))
  /-- The first `print` fails. Its expression has had its effects, and nothing comes after it. -/
  stopped : ∀ text m, (s.starting fuel program).PrintsFirst text m →
    (s.answering (.unwritten reason)).interpret fuel program =
      some (⟨"", [.io reason]⟩,
        ⟨m.atTop.consoled (.answering (.unwritten reason)), program.nextId⟩)
  first : ∀ text m, (s.starting fuel program).Prints text m →
    ∃ text m, (s.starting fuel program).PrintsFirst text m
  /-- Until then the run goes through the same steps. -/
  steps : ((s.answering (.unwritten reason)).starting fuel program).actions =
    (Action.untilPrint (s.starting fuel program).actions).map
      (Action.consoled (.answering (.unwritten reason)))

/-- How the steps of a session differ where its output fails. An entry reaches its run whatever the
output is, and where it does not, nothing differs. -/
structure SinkLaw (reason : String) (s : Session) : Prop where
  interpreted : ∀ fuel program, FailingRun reason s fuel program
  ran : ∀ {entry program t}, s.accepted? entry = some (program, t) → ∀ fuel,
    FailingRun reason t fuel program ∧ s.enter fuel entry = t.interpret fuel program ∧
      ∀ f, (s.answering f).enter fuel entry = (t.answering f).interpret fuel program
  refused : ∀ {entry}, s.accepted? entry = none → ∀ f fuel,
    (s.answering f).enter fuel entry = (s.enter fuel entry).map fun (o, t) => (o, t.answering f)
  read : ∀ f, (s.answering f).readLine = (s.readLine.1, s.readLine.2.answering f)

section

variable {maxDepth fuel : Nat} {input : List UInt8} {clock : Nat → Nat} {memory : Memory}
  {reason : String} {s : Session} {program : Program} {entry : Entry} {f : Sink → Sink}

/-- Where a run carries a change of what the output answers, only its flush may differ. -/
theorem interpret_answering (errors : List Diagnostic → List Diagnostic)
    (hcarries : Eval.executeAll fuel program.statements
      (s.machine.cleared.consoled (.answering f)) =
      Fueled.consoled (.answering f) (Eval.executeAll fuel program.statements s.machine.cleared))
    (hflush : ∀ (m : Machine) (error? : Option Diagnostic),
      ((m.consoled (.answering f)).flushed error?).toList = errors (m.flushed error?).toList) :
    (s.answering f).interpret fuel program =
      (s.interpret fuel program).map fun (o, t) =>
        (⟨o.output, errors o.errors⟩, t.answering f) := by
  have hcleared : (s.answering f).machine.cleared =
    s.machine.cleared.consoled (.answering f) := rfl
  have hends (m : Machine) (error? : Option Diagnostic) (t : Session) :
      some (Outcome.mk m.console.output ((m.consoled (.answering f)).flushed error?).toList, t) =
        some (⟨m.console.output, errors (m.flushed error?).toList⟩, t) := by
    rw [hflush]
  unfold interpret Machine.interpret
  rw [hcleared, hcarries]
  match Eval.executeAll fuel program.statements s.machine.cleared with
  | .ok flow m => exact hends m none _
  | .error (.failed d) m => exact hends m (some d) _
  | .error .outOfFuel m => rfl

theorem interpret_unflushed : (s.answering (.unflushed reason)).interpret fuel program =
    (s.interpret fuel program).map fun (o, t) =>
      (⟨o.output, [.io reason]⟩, t.answering (.unflushed reason)) :=
  interpret_answering (fun _ => [.io reason])
    (Eval.perform_unflushed reason fuel (.executeAll program.statements) s.machine.cleared)
    fun _ _ => rfl

theorem interpret_quiet (h : ∀ text m, ¬ (s.starting fuel program).Prints text m) :
    (s.answering (.unwritten reason)).interpret fuel program =
      (s.interpret fuel program).map fun (o, t) => (o, t.answering (.unwritten reason)) := by
  have hnone : (s.starting fuel program).actions.find? Action.prints = none := by
    refine List.find?_eq_none.mpr fun b hb hprints => ?_
    obtain ⟨text, htext⟩ := Action.prints_iff.mp hprints
    exact h text b.machine (Point.prints_iff.mpr (htext ▸ hb))
  have hrefused := ((Task.executeAll program.statements).refused reason fuel
    s.machine.cleared).result
  rw [show (Task.executeAll program.statements).actions fuel s.machine.cleared =
    (s.starting fuel program).actions from rfl, hnone] at hrefused
  exact interpret_answering id hrefused fun _ _ => rfl

/-- The run that is refused a write has come as far as the expression of the first `print`. -/
theorem interpret_stopped (hflush : s.machine.console.sink.flushRefusal? = none) {text : String}
    {m : Machine} (h : (s.starting fuel program).PrintsFirst text m) :
    (s.answering (.unwritten reason)).interpret fuel program =
      some (⟨"", [.io reason]⟩,
        ⟨m.atTop.consoled (.answering (.unwritten reason)), program.nextId⟩) := by
  let t : Task := .executeAll program.statements
  have hrefused := (t.refused reason fuel s.machine.cleared).result
  rw [show t.actions fuel s.machine.cleared = (s.starting fuel program).actions from rfl,
    Point.printsFirst_iff.mp h] at hrefused
  obtain ⟨m', hx, htop⟩ := hrefused
  have hrefusal : (s.machine.cleared.consoled
      (.answering (.unwritten reason))).console.sink.writeRefusal? = some reason := rfl
  obtain ⟨hprinted, hsink⟩ := t.unprinted fuel hrefusal
  rw [hx] at hprinted hsink
  have hx : Eval.executeAll fuel program.statements
      (s.answering (.unwritten reason)).machine.cleared = .error (.failed (.io reason)) m' := hx
  have hopen : m'.console.sink.flushRefusal? = none :=
    (congrArg Sink.flushRefusal? hsink).trans hflush
  have hempty : m'.atTop.console.output = "" := by
    show Console.output m'.console = ""
    unfold Console.output
    rw [show m'.console.printed = #[] from hprinted]
    rfl
  have hinterpret : (s.answering (.unwritten reason)).machine.cleared.interpret fuel
      program.statements = some (some (.io reason), m'.atTop) := by
    unfold Machine.interpret
    rw [hx]
    unfold Machine.flushed
    dsimp only
    rw [hopen]
  unfold interpret
  rw [hinterpret]
  show some (_, _) = _
  rw [hempty, htop]
  rfl

theorem failingRun (hflush : s.machine.console.sink.flushRefusal? = none) :
    FailingRun reason s fuel program where
  unflushed := interpret_unflushed
  quiet := interpret_quiet
  stopped _ _ := interpret_stopped hflush
  first _ _ h := h.exists_first
  steps := ((Task.executeAll program.statements).refused reason fuel s.machine.cleared).actions

/-- What is accepted does not hang on the output. -/
theorem accepted?_answering (s : Session) (f : Sink → Sink) (entry : Entry) :
    (s.answering f).accepted? entry =
      (s.accepted? entry).map fun (program, t) => (program, t.answering f) := by
  have hread : (s.answering f).reading entry = s.reading entry := by
    cases entry <;> rfl
  unfold accepted?
  rw [hread]
  cases s.reading entry with
  | error errors => rfl
  | ok program =>
    have hdistances : (s.answering f).machine.distances = s.machine.distances := rfl
    dsimp only
    unfold resolved
    rw [hdistances]
    cases resolveProgram program.statements s.machine.distances <;> rfl

/-- Errors that are found before a run do not hang on the output. -/
theorem enter_answering (h : s.accepted? entry = none) (f : Sink → Sink) (fuel : Nat) :
    (s.answering f).enter fuel entry =
      (s.enter fuel entry).map fun (o, t) => (o, t.answering f) := by
  have hread : (s.answering f).reading entry = s.reading entry := by
    cases entry <;> rfl
  rw [enter_eq, enter_eq, hread]
  unfold accepted? at h
  cases hreading : s.reading entry with
  | error errors => rfl
  | ok program =>
    rw [hreading] at h
    have hdistances : (s.answering f).machine.distances = s.machine.distances := rfl
    dsimp only at h ⊢
    unfold runProgram
    unfold resolved at h ⊢
    rw [hdistances]
    cases hresolved : resolveProgram program.statements s.machine.distances with
    | error errors => rfl
    | ok distances =>
      rw [hresolved] at h
      cases h

/-- An accepted entry runs its program, whatever the output is. -/
theorem enter_answering_of_accepted {t : Session} (h : s.accepted? entry = some (program, t))
    (f : Sink → Sink) (fuel : Nat) :
    (s.answering f).enter fuel entry = (t.answering f).interpret fuel program := by
  refine enter_of_accepted ?_ fuel
  rw [accepted?_answering, h]
  rfl

theorem readLine_answering (s : Session) (f : Sink → Sink) :
    (s.answering f).readLine = (s.readLine.1, s.readLine.2.answering f) := by
  have hread := s.machine.console.readLine_answering f
  show ((s.machine.console.answering f).readLine.1, { s with machine := { s.machine with
    console := (s.machine.console.answering f).readLine.2 } }) = _
  rw [hread]
  rfl

/-- A step shows the same when the output refuses to be flushed, but for the error of its run. -/
theorem step_unflushed (s : Session) (fuel : Nat) (reason : String) (step : Step) :
    (s.answering (.unflushed reason)).step fuel step =
      (s.step fuel step).map fun (shown, t) =>
        (shown.map (Shown.unflushed reason), t.answering (.unflushed reason)) := by
  cases step with
  | enter entry =>
    show Option.map _ _ = Option.map _ (Option.map _ _)
    cases ha : s.accepted? entry with
    | none =>
      obtain ⟨errors, he, hne, hfailure⟩ := enter_of_refused_errors ha fuel
      obtain ⟨d, hd⟩ := List.exists_mem_of_ne_nil errors hne
      have hstatic : errors.any Diagnostic.isStatic = true :=
        List.any_eq_true.mpr ⟨d, hd, hfailure.isStatic d hd⟩
      rw [enter_answering ha, he]
      show some ([Shown.outcome ⟨"", errors⟩], _) =
        some ([Shown.outcome (Outcome.unflushed reason ⟨"", errors⟩)], _)
      rw [Outcome.unflushed, if_pos hstatic]
    | some accepted =>
      obtain ⟨program, t⟩ := accepted
      rw [enter_answering_of_accepted ha, enter_of_accepted ha, interpret_unflushed]
      cases hx : t.interpret fuel program with
      | none => rfl
      | some r =>
        obtain ⟨o, t'⟩ := r
        have hrunning : o.errors.any Diagnostic.isStatic = false := by
          rcases errors_of_interpret hx with h | ⟨d, h, hd⟩
          · rw [h]
            rfl
          · rw [h, List.any_cons, Diagnostic.isStatic_eq_false_iff.mpr hd]
            rfl
        show some ([Shown.outcome ⟨o.output, [.io reason]⟩], _) =
          some ([Shown.outcome (o.unflushed reason)], _)
        rw [Outcome.unflushed, if_neg (by rw [hrunning]; decide)]
  | read => exact congrArg (fun r => some ([Shown.line r.1], r.2)) (s.readLine_answering _)
  | number count => rfl

/-- All that a session with such an output shows is known from the same session with another. -/
theorem steps_unflushed (s : Session) (fuel : Nat) (reason : String) (later : List Step) :
    (s.answering (.unflushed reason)).steps fuel later =
      (s.steps fuel later).map fun (shown, t) =>
        (shown.map (Shown.unflushed reason), t.answering (.unflushed reason)) := by
  induction later generalizing s with
  | nil => rfl
  | cons step later ih =>
    rw [steps_cons, steps_cons, step_unflushed]
    cases s.step fuel step with
    | none => rfl
    | some r =>
      obtain ⟨shown, t⟩ := r
      rw [Option.map_some, Option.bind_some, Option.bind_some]
      dsimp only
      rw [ih, Option.map_map, Option.map_map]
      refine congrArg (fun f => Option.map f _) (funext fun r => ?_)
      exact congrArg (fun shown => (shown, _)) (List.map_append).symm

theorem sinkLaw (hsink : s.machine.console.sink = .open) : SinkLaw reason s where
  interpreted _ _ := failingRun (congrArg Sink.flushRefusal? hsink)
  ran {entry program t} ha fuel := by
    obtain ⟨-, hresolved⟩ := accepted?_eq_some ha
    obtain ⟨D, -, ht⟩ := resolved_ok hresolved
    refine ⟨failingRun ?_, enter_of_accepted ha fuel,
      fun f => enter_answering_of_accepted ha f fuel⟩
    rw [ht]
    exact congrArg Sink.flushRefusal? hsink
  refused h f fuel := enter_answering h f fuel
  read f := s.readLine_answering f

/-- The output of a session answers as it did when the session started. -/
theorem Reachable.sink {sink : Sink} {history : List Stmt}
    (h : Reachable maxDepth input sink clock memory history s) : s.machine.console.sink = sink := by
  induction h with
  | start => rfl
  | @ran _ s _ fuel _ program _ _ _ ha hr ih =>
    obtain ⟨-, hresolved⟩ := accepted?_eq_some ha
    obtain ⟨D, -, rfl⟩ := resolved_ok hresolved
    rw [enter_of_accepted ha] at hr
    obtain ⟨m, rfl, hm⟩ := interpret_eq_some hr
    have hs := (Eval.steadies fuel).executeAll program.statements
    rcases hm with ⟨flow, hx⟩ | ⟨d, hx⟩
    · exact (hs.leads_ok hx).sink.trans ih
    · exact (hs.leads_error hx).sink.trans ih
  | @refused _ s _ fuel entry _ _ ha hr ih =>
    obtain ⟨errors, he⟩ := enter_of_refused ha fuel
    rw [he] at hr
    cases hr
    show (s.rejected entry).machine.console.sink = _
    rw [(s.extends_rejected entry).machine]
    exact ih
  | @read _ s _ ih => exact s.machine.console.readLine_keeps.1.trans ih

end

/-- A failing output changes only what it must. With one that refuses to be flushed, a session goes
through the same states as with a good one and prints the same, and each run ends with the one error
of the flush. With one that refuses every write, a run goes through the same steps up to the first
`print`, whose expression still has its effects, and ends there with the one error of the write; it
is the same altogether if it prints nothing. The errors that are found before a run, and the lines
that are read, are the same. However a session with any output is reached, it stands outside all
blocks and calls, and one whose output refuses every write is again a session with a good output but
for that. -/
theorem failing_sinks (maxDepth : Nat) (input : List UInt8) (clock : Nat → Nat) (memory : Memory)
    (reason : String) :
    (∀ fuel later, (start maxDepth input (.unflushed reason .open) clock memory).steps fuel later =
      ((start maxDepth input .open clock memory).steps fuel later).map fun (shown, t) =>
        (shown.map (Shown.unflushed reason), t.answering (.unflushed reason))) ∧
    (∀ s : Session, s.machine.console.sink = .open → SinkLaw reason s) ∧
    (∀ sink history s, Reachable maxDepth input sink clock memory history s →
      s.machine.environment = globalEnvironment ∧ s.machine.depth = 0) ∧
    ∀ history s, Reachable maxDepth input (.unwritten reason .open) clock memory history s →
      ∃ t : Session, t.machine.console.sink = .open ∧ s = t.answering (.unwritten reason) := by
  refine ⟨fun fuel later => ?_, fun s => sinkLaw, fun sink history s h => ?_,
    fun history s h => ?_⟩
  · exact (start maxDepth input .open clock memory).steps_unflushed fuel reason later
  · exact ⟨h.kept.outside, h.idle⟩
  · refine ⟨s.answering fun _ => .open, rfl, ?_⟩
    obtain ⟨⟨scopes, fields, arrays, nextId, environment, depth, maxDepth, distances,
      ⟨input, printed, sink⟩, clock, readings, memory, requests⟩, nextId'⟩ := s
    have hsink : sink = .unwritten reason .open := h.sink
    rw [hsink]
    rfl

/-- A `print` fails in a block of a function. What was assigned before it stays, and the session
goes on with that. -/
theorem failing_sinks_in_block :
    (start 1024 [] .open fun _ => 0).machine.console.sink = .open ∧ ∃ program s m t,
    (start 1024 [] .open fun _ => 0).accepted? (.program
      "var a; fun f() \x7b \x7b a = true; print a; a = nil; \x7d \x7d f();") = some (program, s) ∧
    (s.starting 100 program).PrintsFirst "true" m ∧
    (start 1024 [] (.unwritten "full" .open) fun _ => 0).enter 100 (.program
      "var a; fun f() \x7b \x7b a = true; print a; a = nil; \x7d \x7d f();") =
        some (⟨"", [.io "full"]⟩, t) ∧
    t.machine = m.atTop.consoled (.answering (.unwritten "full")) ∧
    t.machine.environment = globalEnvironment ∧ t.machine.depth = 0 ∧
    (start 1024 [] (.unwritten "full" .open) fun _ => 0).shows 100 [
      .enter (.program "var a; fun f() \x7b \x7b a = true; print a; a = nil; \x7d \x7d f();"),
      .enter (.program "if (a) print a; else print missing;"), .enter (.line "a = nil; a;")] =
        some [.outcome ⟨"", [.io "full"]⟩, .outcome ⟨"", [.io "full"]⟩, .outcome ⟨"", []⟩] := by
  have hlaw := failing_sinks 1024 [] (fun _ => 0) defaultMemory "full"
  have hfind : ((start 1024 [] .open fun _ => 0).accepted? (.program
      "var a; fun f() \x7b \x7b a = true; print a; a = nil; \x7d \x7d f();")).bind
        (fun (program, s) => ((s.starting 100 program).actions.find? Action.prints).bind
          (·.primitive.printed?)) = some "true" := by
    decide +kernel
  have hshows : (start 1024 [] (.unwritten "full" .open) fun _ => 0).shows 100 [
      .enter (.program "var a; fun f() \x7b \x7b a = true; print a; a = nil; \x7d \x7d f();"),
      .enter (.program "if (a) print a; else print missing;"), .enter (.line "a = nil; a;")] =
        some [.outcome ⟨"", [.io "full"]⟩, .outcome ⟨"", [.io "full"]⟩, .outcome ⟨"", []⟩] := by
    decide +kernel
  obtain ⟨⟨program, s⟩, ha, hfind⟩ := Option.bind_eq_some_iff.mp hfind
  obtain ⟨⟨p, m⟩, hfirst, hp⟩ := Option.bind_eq_some_iff.mp hfind
  cases p with
  | print text =>
    cases hp
    have hprints := Point.printsFirst_iff.mpr hfirst
    obtain ⟨hrun, -, hentered⟩ := (hlaw.2.1 _ rfl).ran ha 100
    have henter := (hentered (.unwritten "full")).trans (hrun.stopped _ m hprints)
    have haccepted := accepted?_answering (start 1024 [] .open fun _ => 0) (.unwritten "full")
      (.program "var a; fun f() \x7b \x7b a = true; print a; a = nil; \x7d \x7d f();")
    rw [ha] at haccepted
    obtain ⟨henvironment, hdepth⟩ := hlaw.2.2.1 _ _ _ (.ran .start haccepted henter)
    exact ⟨rfl, program, s, m, _, ha, hprints, henter, rfl, henvironment, hdepth, hshows⟩
  | _ => cases hp

end Session

end LoxLang
