import LoxLang.Proofs.Likeness.Points
import LoxLang.Proofs.Likeness.Sessions
import LoxLang.Proofs.Running.Depth
import LoxLang.Proofs.Running.Flows

/-!
Where the jumps of a run end. In a program that passes the analysis a break or a continue is taken
by the innermost loop around it in the same activation, and a return by the function whose body it
is in. The bodies of functions and the program itself end in no other way.
-/

namespace LoxLang

open Fueled

/-- What a loop does behind a turn that has not left it. -/
def Eval.nextTurn (fuel : Nat) (condition : Expr) (body : Stmt) (increment? : Option Expr) :
    Eval Flow :=
  match increment? with
  | none => loop fuel condition body increment?
  | some increment => do
    let _ ← evaluate fuel increment
    loop fuel condition body increment?

namespace Point

variable {start a b t : Point} {calls fuel : Nat} {body : BodyKind} {inLoop : Bool} {flow : Flow}
  {m m₀ : Machine} {condition : Expr} {s : Stmt} {increment? : Option Expr} {v : Value}

theorem Turn.environment (h : a.Turn b) : b.machine.environment = a.machine.environment := by
  cases h with
  | intro h _ => exact (((Eval.steadies _).evaluate _).leads_ok h).environment

/-- A loop whose turn ends in a break is over. -/
theorem Turn.break (h : Turn ⟨fuel + 1, .loop condition s increment?, m₀⟩ t)
    (ht : t.Ends .break m) : Eval.loop (fuel + 1) condition s increment? m₀ = .ok .normal m := by
  cases h with
  | intro h hv =>
    refine (bind_ok h).trans ?_
    simp only [hv]
    exact bind_ok ht

/-- A loop whose turn ends in a continue goes on. -/
theorem Turn.continue (h : Turn ⟨fuel + 1, .loop condition s increment?, m₀⟩ t)
    (ht : t.Ends .continue m) : Eval.loop (fuel + 1) condition s increment? m₀ =
      Eval.nextTurn fuel condition s increment? m := by
  cases h with
  | intro h hv =>
    refine (bind_ok h).trans ?_
    simp only [hv]
    exact bind_ok ht

/-- A function whose body ends in a return gives its value. -/
theorem run_of_return {closure : Closure} {vs : List Value}
    (h : Starts ⟨fuel + 1, .run closure vs, m₀⟩ b) (hb : b.Ends (.return v) m) :
    Eval.run (fuel + 1) closure vs m₀ =
      Eval.resultOf closure (.return v) (m.inside m₀.environment) := by
  cases h with
  | body ho =>
    have hleads := (Eval.openScope_plain _ _).leads_ok ho
    have hbody := Eval.within_ok (x := Eval.executeAll fuel closure.function.body) hb
    rw [hleads.environment] at hbody
    exact (bind_ok ho).trans (bind_ok hbody)

/-- The statements of a point are in a turn of a loop of the run, in the same activation. -/
def InLoop (start : Point) (calls : Nat) (a : Point) : Prop :=
  ∃ fuel condition body increment? m t,
    Nests start calls ⟨fuel + 1, .loop condition body increment?, m⟩ ∧
    Turn ⟨fuel + 1, .loop condition body increment?, m⟩ t ∧ t.AroundInTurn a

/-- The statements of a point are in the body of a function of the run, in the same activation. -/
def InBody (start : Point) (calls : Nat) (a : Point) : Prop :=
  ∃ fuel closure vs m b, Nests start calls ⟨fuel + 1, .run closure vs, m⟩ ∧
    Starts ⟨fuel + 1, .run closure vs, m⟩ b ∧ b.Around a

/-- The statements of a point may make jumps only where something around them in the run takes
them. -/
structure Placed (start : Point) (calls : Nat) (body : BodyKind) (inLoop : Bool) (a : Point) :
    Prop where
  bounded : a.task.Bounded body inLoop
  inLoop : inLoop = true → start.InLoop calls a
  inBody : body ≠ .program → start.InBody calls a

/-- What a placed statement encloses is placed, in a turn of a loop if it is one. -/
theorem Placed.encloses (h : start.Placed calls body inLoop a) (ha : Nests start calls a)
    (hb : a.Encloses b) : ∃ inLoop', start.Placed calls body inLoop' b := by
  have hbody : body ≠ .program → start.InBody calls b := by
    intro hk
    obtain ⟨fuel, closure, vs, m, c, hn, hs, haround⟩ := h.inBody hk
    exact ⟨fuel, closure, vs, m, c, hn, hs, haround.tail hb⟩
  rcases hb.bounded h.bounded with ⟨hturn, hbounded⟩ | ⟨hturn, hbounded⟩
  · refine ⟨true, hbounded, fun _ => ?_, hbody⟩
    cases hturn with
    | intro hc hv => exact ⟨_, _, _, _, _, _, ha, .intro hc hv, .refl⟩
  · refine ⟨inLoop, hbounded, fun hl => ?_, hbody⟩
    obtain ⟨fuel, condition, s, increment?, m, t, hn, ht, haround⟩ := h.inLoop hl
    exact ⟨fuel, condition, s, increment?, m, t, hn, ht, haround.tail ⟨hb, hturn⟩⟩

/-- What encloses something is a statement, and no call. -/
theorem Encloses.outer (h : a.Encloses b) : a.task.IsStatement ∧ a.calls = 0 := by
  obtain ⟨fuel, task, m⟩ := a
  obtain ⟨fuel', task', m'⟩ := b
  cases h.part with
  | _ => exact ⟨trivial, rfl⟩

/-- Statements are started by the statements around them or as the body of a function. -/
theorem encloses_of_starts (h : Starts a b) (hb : b.task.IsStatement) :
    a.Encloses b ∨ ∃ fuel closure vs m, a = ⟨fuel + 1, .run closure vs, m⟩ ∧
      b.task = .executeAll closure.function.body := by
  cases h with
  | body _ => exact .inr ⟨_, _, _, _, rfl, rfl⟩
  | block h => exact .inl ⟨.block h, .block⟩
  | thenBranch h hv => exact .inl ⟨.thenBranch h hv, .thenBranch⟩
  | elseBranch h hv => exact .inl ⟨.elseBranch h hv, .elseBranch⟩
  | «while» => exact .inl ⟨.while, .while⟩
  | turn h hv => exact .inl ⟨.turn h hv, .turn⟩
  | again h hv hx hf => exact .inl ⟨.again h hv hx hf, .again⟩
  | incremented h hv hx hf hi => exact .inl ⟨.incremented h hv hx hf hi, .again⟩
  | first => exact .inl ⟨.first, .first⟩
  | next h => exact .inl ⟨.next h, .next⟩
  | _ => exact hb.elim

/-- Everything at a point that a run comes to is in functions with bounded bodies. -/
theorem Has.nests {P : Bool → Function → Prop} (h : start.Has P) (hn : Nests start calls a) :
    a.Has P := by
  induction hn with
  | here => exact h
  | next _ hs ih => exact hs.has ih

/-- The body of a function that is run is bounded. -/
theorem Has.bounded {closure : Closure} {vs : List Value}
    (h : Has Function.Bounded ⟨fuel, .run closure vs, m⟩) :
    closure.function.Bounded closure.isInitializer := by
  obtain ⟨L, rfl, hf⟩ := h.task.1.function
  exact hf.has

/-- Every statement that the run of a bounded program comes to is placed. -/
theorem Has.placed (h : start.Has Function.Bounded) (hb : start.task.Bounded .program false)
    (hn : Nests start calls a) (ha : a.task.IsStatement) :
    ∃ body inLoop, start.Placed calls body inLoop a := by
  induction hn with
  | here => exact ⟨.program, false, hb, nofun, fun hk => (hk rfl).elim⟩
  | @next calls a b hn hstarts ih =>
    rcases encloses_of_starts hstarts ha with hencloses | ⟨fuel, closure, vs, m, rfl, htask⟩
    · obtain ⟨houter, hcalls⟩ := hencloses.outer
      obtain ⟨body, inLoop, hplaced⟩ := ih houter
      obtain ⟨inLoop', hplaced⟩ := hplaced.encloses hn hencloses
      rw [hcalls]
      exact ⟨body, inLoop', hplaced⟩
    · obtain ⟨kind, hkind, -, hbounded⟩ := (h.nests hn).bounded
      refine ⟨kind, false, ?_, nofun, fun _ => ⟨fuel, closure, vs, m, b, hn, hstarts, .refl⟩⟩
      rw [htask]
      exact hbounded

/-- What the jumps of a run come to. The point of a `break` ends in a break and leaves the machine
as it is, and so does every statement around it that the break leaves. A point is in a turn of a
loop or in the body of a function if it is reached from there by going from statements to their
parts and to what is left of them. -/
structure JumpsTaken (start : Point) : Prop where
  /-- No program ends in a jump. -/
  program : ∀ flow m, start.Ends flow m → flow = .normal
  /-- The body of a function ends normally or by a return, of nothing if it is an initializer. -/
  body : ∀ calls fuel closure vs m₀ b, Nests start calls ⟨fuel, .run closure vs, m₀⟩ →
    Starts ⟨fuel, .run closure vs, m₀⟩ b → ∀ flow m, b.Ends flow m →
    flow = .normal ∨ ∃ v, flow = .return v ∧ (closure.isInitializer = true → v = .nil)
  /-- A break ends the innermost loop around it. -/
  «break» : ∀ calls a m, Nests start calls a → a.Ends .break m →
    ∃ fuel condition body increment? m₀ t,
      Nests start calls ⟨fuel + 1, .loop condition body increment?, m₀⟩ ∧
      Turn ⟨fuel + 1, .loop condition body increment?, m₀⟩ t ∧ t.AroundInTurn a ∧
      Eval.loop (fuel + 1) condition body increment? m₀ = .ok .normal (m.inside m₀.environment)
  /-- Behind a continue the innermost loop around it goes on with the next turn. -/
  «continue» : ∀ calls a m, Nests start calls a → a.Ends .continue m →
    ∃ fuel condition body increment? m₀ t,
      Nests start calls ⟨fuel + 1, .loop condition body increment?, m₀⟩ ∧
      Turn ⟨fuel + 1, .loop condition body increment?, m₀⟩ t ∧ t.AroundInTurn a ∧
      Eval.loop (fuel + 1) condition body increment? m₀ =
        Eval.nextTurn fuel condition body increment? (m.inside m₀.environment)
  /-- A return ends the run of the function whose body it is in. -/
  «return» : ∀ calls a v m, Nests start calls a → a.Ends (.return v) m →
    ∃ fuel closure vs m₀ b, Nests start calls ⟨fuel + 1, .run closure vs, m₀⟩ ∧
      Starts ⟨fuel + 1, .run closure vs, m₀⟩ b ∧ b.Around a ∧
      Eval.run (fuel + 1) closure vs m₀ =
        Eval.resultOf closure (.return v) (m.inside m₀.environment)

/-- In the run of a bounded program every jump is taken. -/
theorem Has.jumpsTaken (h : start.Has Function.Bounded)
    (hb : start.task.Bounded .program false) : start.JumpsTaken where
  program := by
    intro flow m hends
    have htaken := hends.taken hb
    cases flow with
    | normal => rfl
    | «return» v => exact (htaken.1 rfl).elim
    | «break» | «continue» => exact absurd htaken Bool.false_ne_true
  body := by
    intro calls fuel closure vs m₀ b hn hstarts flow m hends
    obtain ⟨kind, -, hinit, hbounded⟩ := (h.nests hn).bounded
    cases hstarts with
    | body _ =>
      have htaken : flow.Taken kind false := hends.taken hbounded
      cases flow with
      | normal => exact .inl rfl
      | «return» v =>
        refine .inr ⟨v, rfl, fun hi => htaken.2 ?_⟩
        rw [hi] at hinit
        exact of_decide_eq_true hinit.symm
      | «break» | «continue» => exact absurd htaken Bool.false_ne_true
  «break» := by
    intro calls a m hn hends
    obtain ⟨body, inLoop, hplaced⟩ := h.placed hb hn hends.isStatement
    obtain ⟨fuel, condition, s, increment?, m₀, t, hloop, hturn, haround⟩ :=
      hplaced.inLoop (hends.taken hplaced.bounded)
    have ht := haround.ends (fun hn => by cases hn) hends
    rw [hturn.environment] at ht
    exact ⟨fuel, condition, s, increment?, m₀, t, hloop, hturn, haround, hturn.break ht⟩
  «continue» := by
    intro calls a m hn hends
    obtain ⟨body, inLoop, hplaced⟩ := h.placed hb hn hends.isStatement
    obtain ⟨fuel, condition, s, increment?, m₀, t, hloop, hturn, haround⟩ :=
      hplaced.inLoop (hends.taken hplaced.bounded)
    have ht := haround.ends (fun hn => by cases hn) hends
    rw [hturn.environment] at ht
    exact ⟨fuel, condition, s, increment?, m₀, t, hloop, hturn, haround, hturn.continue ht⟩
  «return» := by
    intro calls a v m hn hends
    obtain ⟨body, inLoop, hplaced⟩ := h.placed hb hn hends.isStatement
    obtain ⟨fuel, closure, vs, m₀, b, hrun, hstarts, haround⟩ :=
      hplaced.inBody (hends.taken hplaced.bounded).1
    have hbody := run_of_return hstarts (haround.ends hends)
    exact ⟨fuel, closure, vs, m₀, b, hrun, hstarts, haround, hbody⟩

end Point

namespace Session

variable {maxDepth : Nat} {input : List UInt8} {sink : Sink} {clock : Nat → Nat} {memory : Memory}
  {history : List Stmt} {s s' : Session} {entry : Entry} {program : Program}

/-- A program that passes the analysis is bounded. -/
theorem accepted_bounded (ha : s.accepted? entry = some (program, s')) :
    stmtsLike boundedCode program.statements program.statements ∧
      stmtsBounded .program false program.statements := by
  obtain ⟨-, hresolved⟩ := accepted?_eq_some ha
  obtain ⟨D, hD, -⟩ := resolved_ok hresolved
  exact resolveProgram_bounded hD

/-- However a session is reached, all functions in its machine have bounded bodies. -/
theorem Reachable.bounded (h : Reachable maxDepth input sink clock memory history s) :
    s.machine.Has Function.Bounded := by
  induction h with
  | start => exact Machine.start_like maxDepth input sink clock memory
  | @ran _ s _ fuel _ program _ _ _ ha hr ih =>
    obtain ⟨-, hresolved⟩ := accepted?_eq_some ha
    obtain ⟨D, -, rfl⟩ := resolved_ok hresolved
    rw [enter_of_accepted ha] at hr
    obtain ⟨m, rfl, hm⟩ := interpret_eq_some hr
    have hstart : (Machine.cleared { s.machine with distances := D }).Has Function.Bounded :=
      ih.of_eq rfl rfl rfl
    have hbehind := ((Eval.goInStep (Having Function.Bounded) #[] fuel).executeAll rfl _ _
      (accepted_bounded ha).1).behind hstart
    have hend : m.Has Function.Bounded := by
      rcases hm with ⟨flow, hx⟩ | ⟨d, hx⟩
      · rw [hx] at hbehind
        exact hbehind
      · rw [hx] at hbehind
        exact hbehind
    exact hend.of_eq rfl rfl rfl
  | @refused _ s _ fuel entry _ _ ha hr ih =>
    obtain ⟨errors, he⟩ := enter_of_refused ha fuel
    rw [he] at hr
    cases hr
    rw [(extends_rejected s entry).machine]
    exact ih.of_eq rfl rfl rfl
  | read _ ih => exact ih.of_eq rfl rfl rfl

/-- A program that passes the analysis is run with every jump taken: a break and a continue by the
innermost loop around it in the same activation, a return by the function whose body it is in. The
bodies of functions end in no other way, those of initializers without a value, and the program
itself in no jump at all. -/
theorem Reachable.jumps_taken (h : Reachable maxDepth input sink clock memory history s)
    (ha : s.accepted? entry = some (program, s')) (fuel : Nat) :
    Point.JumpsTaken ⟨fuel, .executeAll program.statements, s'.machine.cleared⟩ := by
  obtain ⟨hlike, hbounded⟩ := accepted_bounded ha
  obtain ⟨-, hresolved⟩ := accepted?_eq_some ha
  obtain ⟨D, -, rfl⟩ := resolved_ok hresolved
  have hmachine : (Machine.cleared { s.machine with distances := D }).Has Function.Bounded :=
    h.bounded.of_eq rfl rfl rfl
  have hstart : Point.Has Function.Bounded ⟨fuel, .executeAll program.statements, _⟩ :=
    ⟨hlike, hmachine⟩
  exact hstart.jumpsTaken hbounded

/-- A break in a loop in the body of a function ends the loop, within one call. -/
theorem jumps_taken_break : ∃ program s',
    (Session.start 1024 [] .open fun _ => 0).accepted?
      (.program "fun f() \x7b while (true) \x7b break; \x7d \x7d f();") = some (program, s') ∧
    ∃ a m, Nests ⟨50, .executeAll program.statements, s'.machine.cleared⟩ 1 a ∧
      a.task = .execute (.break 1) ∧ a.Ends .break m ∧
      ∃ fuel condition body increment? m₀ t,
        Nests ⟨50, .executeAll program.statements, s'.machine.cleared⟩ 1
          ⟨fuel + 1, .loop condition body increment?, m₀⟩ ∧
        Point.Turn ⟨fuel + 1, .loop condition body increment?, m₀⟩ t ∧ t.AroundInTurn a ∧
        Eval.loop (fuel + 1) condition body increment? m₀ =
          .ok .normal (m.inside m₀.environment) := by
  have ha : (Session.start 1024 [] .open fun _ => 0).accepted?
      (.program "fun f() \x7b while (true) \x7b break; \x7d \x7d f();") =
        some (⟨[.function ⟨some ⟨"f", 1⟩, [],
          [.while (.literal (.bool true)) (.block [.break 1]) none], 1⟩,
          .expression (.call (.variable ⟨0, ⟨"f", 1⟩⟩) 1 [])], 1⟩,
          ⟨Machine.start 1024 [] .open fun _ => 0, 0⟩) := by
    cbv
  have hjumps := Reachable.jumps_taken .start ha 50
  have hstart : Nests ⟨50, .executeAll
      [.function ⟨some ⟨"f", 1⟩, [],
        [.while (.literal (.bool true)) (.block [.break 1]) none], 1⟩,
        .expression (.call (.variable ⟨0, ⟨"f", 1⟩⟩) 1 [])],
      (Machine.start 1024 [] .open fun _ => 0).cleared⟩ 0 _ := .here
  have hcall := ((hstart.next (.next rfl)).next .first).next .expression
  have hrun := (hcall.next (.called rfl rfl rfl)).next (.function rfl)
  have broken {start : Point} {m : Machine} (h : Nests start 1 ⟨45, .run ⟨⟨some ⟨"f", 1⟩, [],
      [.while (.literal (.bool true)) (.block [.break 1]) none], 1⟩, [0], false⟩ [], m⟩) :
      ∃ a m, Nests start 1 a ∧ a.task = .execute (.break 1) ∧ a.Ends .break m := by
    have hloop := ((h.next (.body rfl)).next .first).next .while
    have hbreak := ((hloop.next (.turn rfl rfl)).next (.block rfl)).next .first
    exact ⟨_, _, hbreak, rfl, rfl⟩
  obtain ⟨a, m, hn, ht, he⟩ := broken hrun
  exact ⟨_, _, ha, a, m, hn, ht, he, hjumps.break 1 a m hn he⟩

end Session

end LoxLang
