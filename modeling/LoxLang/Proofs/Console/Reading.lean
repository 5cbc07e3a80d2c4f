import LoxLang.Proofs.Classes.Histories
import LoxLang.Proofs.Console.Carrying
import LoxLang.Proofs.Console.Lines
import LoxLang.Proofs.Likeness.StaticFailures

/-!
Input in sessions. Whatever programs do and however they end, the calls of `input` and the direct
readings of a session take the lines of its input one after the other.
-/

namespace LoxLang

open Console (linesOf Answers)

/-- What a call of `input` comes to when the line answers so. -/
def Fueled.GivesLine (line : Nat) : Except String (Option String) →
    EStateM.Result Stop Machine Value → Prop
  | .ok (some text), r => ∃ m, r = .ok (.string text) m
  | .ok none, r => ∃ m, r = .ok .nil m
  | .error reason, r => ∃ m, r = .error (.failed (.runtime line (.unreadableInput reason))) m

/-- A call of `input` reads a line and gives it, or fails where it stands. -/
theorem Primitive.go_input (vs : List Value) (line : Nat) (m : Machine) :
    Fueled.GivesLine line m.console.readLine.1 ((native .input vs line).go m) ∧
      (Fueled.behind ((native .input vs line).go m)).console = m.console.readLine.2 := by
  have hread : Eval.readLine (Shell.nested.enter m) = .ok m.console.readLine.1
      { Shell.nested.enter m with console := m.console.readLine.2 } := rfl
  have hok {v : Value} {m₁ : Machine}
      (h : Eval.runNative .input vs line (Shell.nested.enter m) = .ok v m₁) :
      (native .input vs line).go m = .ok v (Shell.nested.leave m m₁) :=
    Shell.nested.around_ok h
  have herror {e : Stop} {m₁ : Machine}
      (h : Eval.runNative .input vs line (Shell.nested.enter m) = .error e m₁) :
      (native .input vs line).go m = .error e (Shell.nested.leave m m₁) :=
    Shell.nested.around_error h
  rcases hline : m.console.readLine.1 with reason | text?
  · rw [hline] at hread
    rw [herror ((Fueled.bind_ok hread).trans rfl)]
    exact ⟨⟨_, rfl⟩, rfl⟩
  · rw [hline] at hread
    cases text? with
    | none =>
      rw [hok ((Fueled.bind_ok hread).trans rfl)]
      exact ⟨⟨_, rfl⟩, rfl⟩
    | some text =>
      rw [hok ((Fueled.bind_ok hread).trans rfl)]
      exact ⟨⟨_, rfl⟩, rfl⟩

/-- Whether consoles read lines one after the other, from these on and down to those that are
left. -/
def Console.Reads : List (List UInt8) → List Console → List (List UInt8) → Prop
  | lines, [], rest => rest = lines
  | lines, c :: cs, rest => linesOf c.input = lines ∧ Reads lines.tail cs rest

namespace Console.Reads

variable {lines between rest : List (List UInt8)} {cs cs' : List Console}

theorem append (h : Reads lines cs between) (h' : Reads between cs' rest) :
    Reads lines (cs ++ cs') rest := by
  induction cs generalizing lines with
  | nil =>
    cases h
    exact h'
  | cons c cs ih => exact ⟨h.1, ih h.2⟩

theorem drop (h : Reads lines cs rest) : rest = lines.drop cs.length := by
  induction cs generalizing lines with
  | nil => exact h
  | cons c cs ih =>
    rw [List.length_cons, ← List.drop_tail]
    exact ih h.2

/-- Before the reading of each number, as many lines are used up. -/
theorem before (h : Reads lines cs rest) {k : Nat} {c : Console} (hc : cs[k]? = some c) :
    linesOf c.input = lines.drop k := by
  induction cs generalizing lines k with
  | nil => cases hc
  | cons c' cs ih =>
    cases k with
    | zero =>
      cases hc
      exact h.1
    | succ k =>
      rw [← List.drop_tail]
      exact ih h.2 hc

end Console.Reads

/-- A reading of the input: a call of `input` in a run, or a direct one in a session. -/
inductive Reading where
  | call (arguments : List Value) (line : Nat) (m : Machine)
  | direct (s : Session)

namespace Reading

def console : Reading → Console
  | call _ _ m => m.console
  | direct s => s.machine.console

/-- Whether a reading gives this. A call gives it wherever the call stands. -/
def Gives (answer : Except String (Option String)) : Reading → Prop
  | call arguments line m => m.depth < m.maxDepth ∧ ∀ fuel id,
    Fueled.GivesLine line answer (Eval.call (fuel + 1) (.native id .input) arguments line m)
  | direct s => s.readLine.1 = answer

end Reading

/-- The reading that a step is. -/
def Action.reading? : Action → Option Reading
  | ⟨.native .input arguments line, m⟩ => some (.call arguments line m)
  | _ => none

theorem Action.reading?_eq_some_iff {s : Action} {r : Reading} : s.reading? = some r ↔
    ∃ vs line, s.primitive = .native .input vs line ∧ r = .call vs line s.machine := by
  obtain ⟨p, m⟩ := s
  constructor
  · intro h
    cases p with
    | native n vs line =>
      cases n with
      | input =>
        cases h
        exact ⟨vs, line, rfl, rfl⟩
      | _ => cases h
    | _ => cases h
  · rintro ⟨vs, line, rfl, rfl⟩
    rfl

theorem Action.reading?_eq_none {s : Action} (h : s.reading? = none) :
    s.primitive.reads = false := by
  obtain ⟨p, m⟩ := s
  cases p with
  | native n vs line =>
    cases n with
    | input => cases h
    | _ => rfl
  | _ => rfl

/-- The calls of `input` among the steps of a run read lines one after the other. -/
theorem Course.reads {m m' : Machine} {ss : List Action} (h : Course m ss m') :
    Console.Reads (linesOf m.console.input)
      ((ss.filterMap Action.reading?).map Reading.console) (linesOf m'.console.input) := by
  induction h with
  | @nil m m' h =>
    have hconsole : m'.atTop.console = m.atTop.console := congrArg Machine.console h
    exact congrArg (fun c => linesOf (Console.input c)) hconsole
  | @cons m m' s ss h _ ih =>
    have hconsole : s.machine.atTop.console = m.atTop.console := congrArg Machine.console h
    have hinput : s.machine.console.input = m.console.input := congrArg Console.input hconsole
    rw [List.filterMap_cons]
    cases hreading : s.reading? with
    | some r =>
      obtain ⟨vs, line, hp, rfl⟩ := Action.reading?_eq_some_iff.mp hreading
      refine ⟨congrArg linesOf hinput, ?_⟩
      have hbehind : s.behind.console = s.machine.console.readLine.2 := by
        unfold Action.behind
        rw [hp]
        exact (Primitive.go_input vs line s.machine).2
      rw [hbehind, s.machine.console.readLine_answers.2, hinput] at ih
      exact ih
    | none =>
      have hkeeps : s.behind.console.input = s.machine.console.input :=
        Primitive.input_behind (Action.reading?_eq_none hreading) s.machine
      rw [← hinput, ← hkeeps]
      exact ih

/-- The calls of `input` in a run, in order. -/
def Point.readings (a : Point) : List Reading :=
  a.actions.filterMap Action.reading?

/-- Every call of `input` that a run comes to is among them, unless it is one call too many. -/
theorem Point.mem_readings {a : Point} {r : Reading} : r ∈ a.readings ↔
    ∃ underway fuel id vs line m, r = .call vs line m ∧ m.depth < m.maxDepth ∧
      Reaches a underway ⟨fuel + 1, .call (.native id .input) vs line, m⟩ := by
  unfold readings
  rw [List.mem_filterMap]
  constructor
  · rintro ⟨⟨p, m⟩, hs, hr⟩
    obtain ⟨vs, line, hp, rfl⟩ := Action.reading?_eq_some_iff.mp hr
    have hp : p = .native .input vs line := hp
    subst hp
    obtain ⟨underway, b, hreach, hown⟩ := Point.mem_actions_iff.mp hs
    obtain ⟨fuel, id, rfl, hdepth⟩ := Point.mem_own_native.mp hown
    exact ⟨underway, fuel, id, vs, line, m, rfl, hdepth, hreach⟩
  · rintro ⟨underway, fuel, id, vs, line, m, rfl, hdepth, hreach⟩
    refine ⟨⟨.native .input vs line, m⟩, Point.mem_actions_iff.mpr ⟨underway, _, hreach, ?_⟩, rfl⟩
    exact Point.mem_own_native.mpr ⟨fuel, id, rfl, hdepth⟩

/-- What a call of `input` gives is what the next line answers. -/
theorem Point.readings_give {a : Point} {r : Reading} (h : r ∈ a.readings) :
    r.Gives r.console.readLine.1 := by
  obtain ⟨-, -, -, vs, line, m, rfl, hdepth, -⟩ := mem_readings.mp h
  refine ⟨hdepth, fun fuel id => ?_⟩
  have hcheck : Eval.checkDepth line m = .ok () m := by
    show (if m.maxDepth ≤ m.depth then _ else _ : Eval Unit) m = _
    rw [if_neg (by omega)]
    rfl
  have hcall : Eval.call (fuel + 1) (.native id .input) vs line m =
      (Primitive.native .input vs line).go m :=
    Fueled.bind_ok hcheck
  rw [hcall]
  exact (Primitive.go_input vs line m).1

namespace Session

variable {s : Session} {fuel : Nat}

/-- The readings of one step of a session. -/
def readings (fuel : Nat) (s : Session) : Step → List Reading
  | .enter entry =>
    match s.accepted? entry with
    | none => []
    | some (program, t) => (t.starting fuel program).readings
  | .read => [.direct s]
  | .number _ => []

/-- The readings of the steps of a session, in order. -/
def allReadings (fuel : Nat) : Session → List Step → List Reading
  | _, [] => []
  | s, step :: later =>
    s.readings fuel step ++ match s.step fuel step with
      | none => []
      | some (_, t) => t.allReadings fuel later

theorem readings_give {step : Step} {r : Reading} (h : r ∈ s.readings fuel step) :
    r.Gives r.console.readLine.1 := by
  cases step with
  | enter entry =>
    unfold readings at h
    dsimp only at h
    cases ha : s.accepted? entry with
    | none =>
      rw [ha] at h
      cases h
    | some accepted =>
      rw [ha] at h
      exact Point.readings_give h
  | read =>
    cases List.mem_singleton.mp h
    rfl
  | number count => cases h

theorem allReadings_give {steps : List Step} {r : Reading} (h : r ∈ s.allReadings fuel steps) :
    r.Gives r.console.readLine.1 := by
  induction steps generalizing s with
  | nil => cases h
  | cons step later ih =>
    rw [allReadings] at h
    rcases List.mem_append.mp h with h | h
    · exact readings_give h
    · cases hstep : s.step fuel step with
      | none =>
        rw [hstep] at h
        cases h
      | some r =>
        rw [hstep] at h
        exact ih h

/-- The readings of a step take lines one after the other, also where the step does not end. -/
theorem step_reads (s : Session) (fuel : Nat) (step : Step) :
    ∃ rest, Console.Reads (linesOf s.machine.console.input)
      ((s.readings fuel step).map Reading.console) rest ∧
      ∀ shown t, s.step fuel step = some (shown, t) → linesOf t.machine.console.input = rest := by
  cases step with
  | enter entry =>
    unfold readings
    dsimp only
    cases ha : s.accepted? entry with
    | none =>
      refine ⟨_, rfl, fun shown t h => ?_⟩
      obtain ⟨errors, he⟩ := enter_of_refused ha fuel
      have h : (s.enter fuel entry).map _ = some (shown, t) := h
      rw [he] at h
      cases h
      show linesOf (s.rejected entry).machine.console.input = _
      rw [(s.extends_rejected entry).machine]
    | some accepted =>
      obtain ⟨program, t⟩ := accepted
      obtain ⟨-, hresolved⟩ := accepted?_eq_some ha
      obtain ⟨D, -, ht⟩ := resolved_ok hresolved
      have hinput : (t.starting fuel program).machine.console.input = s.machine.console.input := by
        rw [ht]
        rfl
      let task : Task := .executeAll program.statements
      have hreads := (task.course fuel t.machine.cleared).reads
      rw [show t.machine.cleared.console.input = s.machine.console.input from hinput] at hreads
      refine ⟨_, hreads, fun shown t' h => ?_⟩
      have h : (s.enter fuel entry).map _ = some (shown, t') := h
      obtain ⟨⟨o, t''⟩, hr, heq⟩ := Option.map_eq_some_iff.mp h
      cases heq
      rw [enter_of_accepted ha] at hr
      obtain ⟨m, rfl, hm⟩ := interpret_eq_some hr
      have hbehind : Fueled.behind (Eval.perform fuel (.executeAll program.statements)
          t.machine.cleared) = m := by
        rcases hm with ⟨flow, hx⟩ | ⟨d, hx⟩
        · exact congrArg Fueled.behind hx
        · exact congrArg Fueled.behind hx
      rw [← hbehind]
      rfl
  | read =>
    refine ⟨_, ⟨rfl, rfl⟩, fun shown t h => ?_⟩
    cases h
    exact s.machine.console.readLine_answers.2
  | number count =>
    refine ⟨_, rfl, fun shown t h => ?_⟩
    cases h
    rfl

theorem steps_reads (s : Session) (fuel : Nat) (steps : List Step) :
    ∃ rest, Console.Reads (linesOf s.machine.console.input)
      ((s.allReadings fuel steps).map Reading.console) rest ∧
      ∀ shown t, s.steps fuel steps = some (shown, t) → linesOf t.machine.console.input = rest := by
  induction steps generalizing s with
  | nil =>
    refine ⟨_, rfl, fun shown t h => ?_⟩
    cases h
    rfl
  | cons step later ih =>
    obtain ⟨between, hreads, hbetween⟩ := s.step_reads fuel step
    rw [allReadings, List.map_append]
    cases hstep : s.step fuel step with
    | none =>
      refine ⟨between, (List.append_nil _).symm ▸ hreads, fun shown t h => ?_⟩
      rw [steps_cons, hstep] at h
      cases h
    | some r =>
      obtain ⟨shown, t⟩ := r
      obtain ⟨rest, hlater, hrest⟩ := ih t
      rw [hbetween shown t hstep] at hlater
      refine ⟨rest, hreads.append hlater, fun all t' h => ?_⟩
      rw [steps_cons, hstep] at h
      obtain ⟨⟨more, t''⟩, hmore, heq⟩ := Option.map_eq_some_iff.mp h
      cases heq
      exact hrest more _ hmore

/-- How the readings of a session, in calls of `input` and directly, go through its input. -/
structure InputLaw (input : List UInt8) (readings : List Reading) (s? : Option Session) : Prop where
  /-- Before a reading as many lines are used up as there have been readings. -/
  before : ∀ (k : Nat) (r : Reading), readings[k]? = some r →
    r.console.input = ((linesOf input).drop k).flatten
  /-- The reading gives the next line. -/
  gives : ∀ (k : Nat) (r : Reading), readings[k]? = some r →
    ∃ answer, r.Gives answer ∧ Answers (linesOf input)[k]? answer
  /-- Nothing else uses the input up. -/
  behind : ∀ s ∈ s?, s.machine.console.input = ((linesOf input).drop readings.length).flatten

/-- Input is read line by line, with no loss or repetition. In every session, the calls of `input`
that its runs come to and its direct readings, taken together in order, take the lines of the input
one each: the reading with number `k` gives the text of line `k` without the end of the line, an
error where the line is no text, and nothing behind the last line. The calls of a run that count are
all that it comes to, but for one too many. -/
theorem input_by_lines (maxDepth : Nat) (input : List UInt8) (sink : Sink) (clock : Nat → Nat)
    (memory : Memory) (fuel : Nat) (steps : List Step) :
    Console.LinesOf input (linesOf input) ∧
    InputLaw input ((start maxDepth input sink clock memory).allReadings fuel steps)
      (((start maxDepth input sink clock memory).steps fuel steps).map (·.2)) ∧
    ∀ (a : Point) (r : Reading), r ∈ a.readings ↔
      ∃ underway fuel id vs line m, r = .call vs line m ∧ m.depth < m.maxDepth ∧
        Reaches a underway ⟨fuel + 1, .call (.native id .input) vs line, m⟩ := by
  obtain ⟨rest, hreads, hrest⟩ := (start maxDepth input sink clock memory).steps_reads fuel steps
  have hlines {k : Nat} {r : Reading}
      (h : ((start maxDepth input sink clock memory).allReadings fuel steps)[k]? = some r) :
      linesOf r.console.input = (linesOf input).drop k := by
    refine hreads.before ?_
    rw [List.getElem?_map, h]
    rfl
  refine ⟨Console.linesOf_spec input, ⟨fun k r h => ?_, fun k r h => ?_, fun s h => ?_⟩,
    fun a r => Point.mem_readings⟩
  · rw [← hlines h]
    exact (Console.linesOf_spec r.console.input).flatten.symm
  · refine ⟨_, allReadings_give (List.mem_of_getElem? h), ?_⟩
    have hanswers := r.console.readLine_answers.1
    rw [hlines h, List.head?_drop] at hanswers
    exact hanswers
  · obtain ⟨⟨shown, t⟩, ht, rfl⟩ := Option.map_eq_some_iff.mp h
    have hdrop := hreads.drop
    rw [List.length_map] at hdrop
    have hleft : linesOf t.machine.console.input = (linesOf input).drop _ :=
      (hrest shown t ht).trans hdrop
    show t.machine.console.input = _
    rw [← hleft]
    exact (Console.linesOf_spec t.machine.console.input).flatten.symm

/-- A line with a mixed end, one that is no text and one without an end, read in turn by the session
and by its lines. -/
theorem input_by_lines_in_turn : ∃ r,
    (start 1024 [97, 13, 10, 255, 10, 98] .open fun _ => 0).shows 50
      [.read, .enter (.line "input();"), .read, .enter (.line "input();")] =
        some [.line (.ok (some "a")),
          .outcome ⟨"", [.runtime 1 (.unreadableInput Console.unreadable)]⟩,
          .line (.ok (some "b")), .outcome ⟨"nil\n", []⟩] ∧
    ((start 1024 [97, 13, 10, 255, 10, 98] .open fun _ => 0).allReadings 50
      [.read, .enter (.line "input();"), .read, .enter (.line "input();")])[1]? = some r ∧
    r.console.input = [255, 10, 98] ∧
    ∃ answer, r.Gives answer ∧ Answers (some [255, 10]) answer := by
  have hshows : (start 1024 [97, 13, 10, 255, 10, 98] .open fun _ => 0).shows 50
      [.read, .enter (.line "input();"), .read, .enter (.line "input();")] =
        some [.line (.ok (some "a")),
          .outcome ⟨"", [.runtime 1 (.unreadableInput Console.unreadable)]⟩,
          .line (.ok (some "b")), .outcome ⟨"nil\n", []⟩] := by
    decide +kernel
  have hsome : ((start 1024 [97, 13, 10, 255, 10, 98] .open fun _ => 0).allReadings 50
      [.read, .enter (.line "input();"), .read, .enter (.line "input();")])[1]?.isSome := by
    decide +kernel
  obtain ⟨-, hlaw, -⟩ := input_by_lines 1024 [97, 13, 10, 255, 10, 98] .open (fun _ => 0)
    defaultMemory 50 [.read, .enter (.line "input();"), .read, .enter (.line "input();")]
  obtain ⟨r, hsecond⟩ := Option.isSome_iff_exists.mp hsome
  exact ⟨r, hshows, hsecond, hlaw.before 1 _ hsecond, hlaw.gives 1 _ hsecond⟩

end Session

end LoxLang
