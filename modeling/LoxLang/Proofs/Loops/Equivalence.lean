import LoxLang.Proofs.Lexical.Refinement
import LoxLang.Proofs.Loops.Analysis
import LoxLang.Proofs.Loops.Unrolling
import LoxLang.Proofs.Running.CallLimit

/-!
A loop with an increment is the loop that ends its body with the increment, for the analysis as for
the run, unless a `continue` would leave the increment out. Distances and chains of scopes differ,
so the runs are compared by the rule of lexical scoping, which both of them follow.
-/

namespace LoxLang

variable {p : Stmt → Bool} {maxDepth : Nat} {input : List UInt8} {sink : Sink}
  {clock : Nat → Nat} {memory : Memory}

/-- Natives are no code. -/
theorem natives_desugared (pairs : List (Native × Nat)) (t : Table Value)
    (ht : t.map (Value.desugared p) = t) :
    (pairs.foldl (fun t (n, id) => t.insert n.name (.callable (.native id n))) t).map
        (Value.desugared p) =
      pairs.foldl (fun t (n, id) => t.insert n.name (.callable (.native id n))) t := by
  induction pairs generalizing t with
  | nil => exact ht
  | cons pair pairs ih =>
    refine ih _ ?_
    rw [Table.map_insert, ht]
    rfl

/-- Before a program there is no code to desugar. -/
theorem Lexical.start_desugared : (Lexical.start maxDepth input sink clock memory).desugared p =
    Lexical.start maxDepth input sink clock memory := by
  simp only [start, State.desugared, Machine.desugared, Machine.start, Scopes.desugared,
    Scopes.push, Scopes.empty, Array.map_push, Array.map_empty, natives_desugared _ .empty rfl]

namespace Lexical

/-- What is shown of results that meet. -/
theorem Meet.shown {lo hi : Prop} {P : Flow → State → Prop}
    {r r' : EStateM.Result Stop State Flow} (h : Meet p lo hi (Flow.desugared p) P r r')
    (x : Outcome × Console) :
    (lo → shown State.machine r = some x → shown State.machine r' = some x) ∧
      (hi → shown State.machine r' = some x → shown State.machine r = some x) := by
  have same : ∀ {m m' : Machine} (e : Option Diagnostic), m'.console = m.console →
      shown.outcome m' e = shown.outcome m e := by
    intro m m' e hc
    simp only [shown.outcome, Machine.flushed, hc]
  cases h with
  | @ok flow s =>
    have hs : Lexical.shown State.machine (.ok (flow.desugared p) (s.desugared p)) =
        Lexical.shown State.machine (.ok flow s) := congrArg some (same none rfl)
    rw [hs]
    exact ⟨fun _ => id, fun _ => id⟩
  | @failed d s s' hc =>
    have hs : Lexical.shown State.machine (.error (.failed d) s' : EStateM.Result _ _ Flow) =
        Lexical.shown State.machine (.error (.failed d) s) := congrArg some (same (some d) hc)
    rw [hs]
    exact ⟨fun _ => id, fun _ => id⟩
  | exhausted => exact ⟨fun _ => id, fun _ => id⟩
  | left h => exact ⟨fun _ hs => absurd hs.symm (Option.some_ne_none x), fun hhi => (h hhi).elim⟩
  | right h => exact ⟨fun hlo => (h hlo).elim, fun _ hs => absurd hs.symm (Option.some_ne_none x)⟩

/-- A program and the desugared program show the same by lexical scoping. -/
theorem runProgram_desugared
    (hp : ∀ body : Stmt, p body = true → body.steady = true ∧ body.continues = false)
    (ss : List Stmt) (x : Outcome × Console) :
    (∃ fuel, runProgram fuel maxDepth input sink clock memory ss = some x) ↔
      ∃ fuel, runProgram fuel maxDepth input sink clock memory (desugaredStmts p ss) = some x := by
  have meet := fun fuel fuel' => (desugars hp fuel fuel').executeAll .outside ss
    (Lexical.start maxDepth input sink clock memory)
  simp only [start_desugared] at meet
  constructor
  · rintro ⟨fuel, h⟩
    exact ⟨5 * fuel, ((meet fuel (5 * fuel)).shown x).1 (Nat.le_refl _) h⟩
  · rintro ⟨fuel, h⟩
    exact ⟨fuel, ((meet fuel fuel).shown x).2 (Nat.le_refl _) h⟩

end Lexical

/-- A formed program that passes the analysis shows the same whether it runs with the noted
distances or by lexical scoping. -/
theorem Session.runProgram_eq_lexical {program : Program} {s : Session}
    (hformed : stmtsFormed program.statements) (hnodup : (stmtsIds program.statements).Nodup)
    (hresolved : (Session.start maxDepth input sink clock memory).resolved program = .ok s)
    (fuel : Nat) :
    ((Session.start maxDepth input sink clock memory).runProgram fuel program).map
        (fun (outcome, s) => (outcome, s.machine.console)) =
      Lexical.runProgram fuel maxDepth input sink clock memory program.statements := by
  obtain ⟨D, hD, rfl⟩ := Session.resolved_ok hresolved
  obtain ⟨hmentions, -⟩ := resolveProgram_ok hformed hD hnodup fun _ _ => rfl
  have hpending : World.Pending ⟨[], 1⟩ [] := fun _ _ => by simp [World.Unset]
  have hstands := (Linked.start (fun m => m.Allowed ∧ m.Placed D) D maxDepth input sink clock
    memory).top hpending rfl rfl
  have hagrees := (simulates (fun _ h => h) fuel).executeAll _ _ program.statements hformed
    hmentions _ _ hstands
  rw [Session.runProgram, hresolved]
  dsimp only
  rw [Session.interpret_shown]
  exact hagrees.shown_eq

/-- What a session comes to on a program, with as much fuel as it takes. -/
def Session.Comes (s : Session) (program : Program) (outcome : Outcome) (console : Console) :
    Prop :=
  ∃ fuel s', s.runProgram fuel program = some (outcome, s') ∧ s'.machine.console = console

theorem Session.comes_iff {s : Session} {program : Program} {outcome : Outcome}
    {console : Console} : s.Comes program outcome console ↔
      ∃ fuel, (s.runProgram fuel program).map (fun (outcome, s) => (outcome, s.machine.console)) =
        some (outcome, console) := by
  refine exists_congr fun fuel => ?_
  rw [Option.map_eq_some_iff]
  constructor
  · rintro ⟨s', hr, rfl⟩
    exact ⟨(outcome, s'), hr, rfl⟩
  · rintro ⟨⟨_, s'⟩, hr, hx⟩
    cases hx
    exact ⟨s', hr, rfl⟩

theorem Session.comes_iff_lexical {program : Program} {s : Session}
    (hformed : stmtsFormed program.statements) (hnodup : (stmtsIds program.statements).Nodup)
    (hresolved : (Session.start maxDepth input sink clock memory).resolved program = .ok s)
    (outcome : Outcome) (console : Console) :
    (Session.start maxDepth input sink clock memory).Comes program outcome console ↔
      ∃ fuel, Lexical.runProgram fuel maxDepth input sink clock memory program.statements =
        some (outcome, console) := by
  rw [Session.comes_iff]
  exact exists_congr fun fuel => by
    rw [Session.runProgram_eq_lexical hformed hnodup hresolved fuel]

/-- A program that is refused comes to its errors. -/
theorem Session.comes_of_refused {s : Session} {program : Program} {errors : List Diagnostic}
    (h : s.resolved program = .error errors) (outcome : Outcome) (console : Console) :
    s.Comes program outcome console ↔ outcome = ⟨"", errors⟩ ∧ console = s.machine.console := by
  have refused : ∀ fuel, s.runProgram fuel program = some ((s.unresolved program).refused errors) :=
    fun fuel => by rw [Session.runProgram, h]
  constructor
  · rintro ⟨fuel, s', hr, rfl⟩
    rw [refused] at hr
    cases hr
    exact ⟨rfl, rfl⟩
  · rintro ⟨rfl, rfl⟩
    exact ⟨0, _, refused 0, rfl⟩

/-- A session accepts the desugared program if it accepts the program, and refuses it for the same
reasons. -/
theorem Session.resolved_desugared {program program' : Program} (s : Session)
    (hstatements : program'.statements = desugaredStmts p program.statements)
    (hformed : stmtsFormed program.statements) :
    ((∃ t, s.resolved program = .ok t) ↔ ∃ t, s.resolved program' = .ok t) ∧
      ∀ errors, s.resolved program' = .error errors ↔ s.resolved program = .error errors := by
  have herrors := resolveProgram_desugared p hformed s.machine.distances
  rw [← hstatements] at herrors
  unfold Session.resolved
  cases hr : resolveProgram program.statements s.machine.distances with
  | error errors =>
    rw [(herrors errors).mpr hr]
    simp [Except.map]
  | ok D =>
    cases hr' : resolveProgram program'.statements s.machine.distances with
    | error errors =>
      rw [(herrors errors).mp hr'] at hr
      cases hr
    | ok D' => simp [Except.map]

/-- The loops of a program that has been read may lose their increments to the ends of their
bodies, except where a `continue` leaves the body. The analysis accepts the one program if it
accepts the other, and the runs of both come to the same outcome and leave the same input, or both
go on for ever. -/
theorem Program.desugared_runs {firstId : Nat} {source : String} {program : Program}
    (hsource : Program.ofSource firstId source = .ok program) (maxDepth : Nat)
    (input : List UInt8) (sink : Sink) (clock : Nat → Nat) (memory : Memory) :
    ((∃ s, (Session.start maxDepth input sink clock memory).resolved program = .ok s) ↔
      ∃ s, (Session.start maxDepth input sink clock memory).resolved program.desugared = .ok s) ∧
    ∀ outcome console,
      (Session.start maxDepth input sink clock memory).Comes program outcome console ↔
        (Session.start maxDepth input sink clock memory).Comes program.desugared outcome
          console := by
  have hformed := Program.formed_of_ofSource hsource
  have hnodup := (Program.numbered_of_ofSource hsource).nodup
  have hstatements : program.desugared.statements =
      desugaredStmts (fun body => body.steady && !body.continues) program.statements :=
    desugaredStmts_congr _ (fun body hb => by rw [hb, Bool.true_and]) program.statements hformed
  obtain ⟨haccepted, hrefused⟩ :=
    (Session.start maxDepth input sink clock memory).resolved_desugared hstatements hformed
  refine ⟨haccepted, fun outcome console => ?_⟩
  cases hr : (Session.start maxDepth input sink clock memory).resolved program with
  | error errors =>
    rw [Session.comes_of_refused hr, Session.comes_of_refused ((hrefused errors).mpr hr)]
  | ok s =>
    obtain ⟨s', hr'⟩ := haccepted.mp ⟨s, hr⟩
    have hformed' : stmtsFormed program.desugared.statements := by
      rw [hstatements]
      exact stmtsFormed_desugared _ _ hformed
    have hnodup' : (stmtsIds program.desugared.statements).Nodup := by
      rw [hstatements, stmtsIds_desugared]
      exact hnodup
    rw [Session.comes_iff_lexical hformed hnodup hr,
      Session.comes_iff_lexical hformed' hnodup' hr', hstatements]
    refine Lexical.runProgram_desugared (fun body hb => ?_) _ _
    simpa using hb

/-- A function that captures the variable of a loop, with a call in the increment. -/
theorem Program.desugared_runs_captured :
    ∃ program,
      Program.ofSource 0 ("fun f() \x7b return false; \x7d " ++
          "for (var a = true; a; a = f()) \x7b fun g() \x7b print a; \x7d g(); \x7d") =
        .ok program ∧
      (∃ before condition body increment, program.statements =
          [before, .block [.var ⟨"a", 1⟩ (some (.literal (.bool true))),
            .while condition body (some increment)]] ∧
        program.desugared.statements =
          [before, .block [.var ⟨"a", 1⟩ (some (.literal (.bool true))),
            .while condition (.block [body, .expression increment]) none]]) ∧
      (Session.start 1024 [] .open fun _ => 0).Comes program.desugared ⟨"true\n", []⟩
        ⟨[], #["true"], .open⟩ := by
  have hsource : Program.ofSource 0 ("fun f() \x7b return false; \x7d " ++
      "for (var a = true; a; a = f()) \x7b fun g() \x7b print a; \x7d g(); \x7d") =
        .ok ⟨[.function ⟨some ⟨"f", 1⟩, [], [.return 1 (some (.literal (.bool false)))], 1⟩,
          .block [.var ⟨"a", 1⟩ (some (.literal (.bool true))),
            .while (.variable ⟨0, ⟨"a", 1⟩⟩)
              (.block [
                .function ⟨some ⟨"g", 1⟩, [], [.print (.variable ⟨4, ⟨"a", 1⟩⟩)], 1⟩,
                .expression (.call (.variable ⟨5, ⟨"g", 1⟩⟩) 1 [])])
              (some (.assign ⟨3, ⟨"a", 1⟩⟩ (.call (.variable ⟨2, ⟨"f", 1⟩⟩) 1 [])))]], 6⟩ := by
    cbv
  refine ⟨_, hsource, ⟨_, _, _, _, rfl, by cbv⟩, ?_⟩
  exact ((Program.desugared_runs hsource 1024 [] .open (fun _ => 0) defaultMemory).2 _ _).mp
    (Session.comes_iff.mpr ⟨60, by cbv⟩)

end LoxLang
