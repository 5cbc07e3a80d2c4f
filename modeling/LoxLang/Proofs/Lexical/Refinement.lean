import LoxLang.Proofs.Lexical.Simulation
import LoxLang.Proofs.Scoping.Forming
import LoxLang.Proofs.Scoping.Tracing

/-!
Running a program with the distances that the analysis has noted is running it by the rule of
lexical scoping.
-/

namespace LoxLang

variable {P : Mention → Prop} {D : Distances} {maxDepth : Nat} {input : List UInt8} {sink : Sink}
  {clock : Nat → Nat} {memory : Memory}

/-- The globals that are there before a program are native functions. -/
theorem native_of_find? (pairs : List (Native × Nat)) {name : String} {v : Value}
    (h : (pairs.foldl (fun t (n, id) => t.insert n.name (.callable (.native id n)))
      (.empty : Table Value)).find? name = some v) :
    ∃ id native, v = .callable (.native id native) := by
  have step : ∀ (t : Table Value),
      (∀ v, t.find? name = some v → ∃ id native, v = .callable (.native id native)) → ∀ v,
      (pairs.foldl (fun t (n, id) => t.insert n.name (.callable (.native id n))) t).find? name =
        some v → ∃ id native, v = .callable (.native id native) := by
    clear h
    induction pairs with
    | nil => exact fun _ ht => ht
    | cons pair pairs ih =>
      refine fun t ht => ih _ fun v hv => ?_
      rw [Table.find?_insert] at hv
      split at hv
      · cases hv
        exact ⟨_, _, rfl⟩
      · exact ht v hv
  exact step .empty (fun _ hv => by cases hv) v h

/-- The position of a program. -/
def Position.top (pending : List (Nat × String)) : Position :=
  ⟨.top, [], 0, pending⟩

/-- Without cells, and with the globals of both sides the same. -/
theorem Linked.start (P : Mention → Prop) (D : Distances) (maxDepth : Nat) (input : List UInt8)
    (sink : Sink) (clock : Nat → Nat) (memory : Memory) : Linked P D ⟨[], 1⟩
    { Machine.start maxDepth input sink clock memory with distances := D }
    (Lexical.start maxDepth input sink clock memory) where
  distances := rfl
  cells := by
    constructor
    · rfl
    · exact Nat.one_pos
    · rfl
    · exact fun i b hb => nomatch hb
    · exact fun i j b b' hb => nomatch hb
    · intro n name hn hs
      rw [Machine.start, Scopes.value?_push] at hs
      split at hs
      · rename_i hz
        exact absurd hz (Nat.ne_of_gt hn)
      · cases hs
    · exact Nat.one_pos
    · intro name
      have hzero : 0 = Scopes.empty.next := rfl
      rw [Lexical.start, Machine.start, Scopes.value?_push, if_pos hzero]
      cases hv : Table.find? _ name with
      | none => exact .none
      | some v =>
        obtain ⟨id, native, rfl⟩ := native_of_find? _ hv
        exact .some (.callable .native)
  objects := by
    constructor
    · rfl
    · exact fun _ _ => .none
    · rfl
    · exact fun _ => .none
  shared := ⟨rfl, rfl, rfl, rfl, rfl, rfl, rfl, rfl⟩

/-- A machine outside all blocks. -/
theorem Linked.top {w : World} {m : Machine} {s : Lexical.State} (h : Linked P D w m s)
    {pending : List (Nat × String)} (hp : w.Pending pending)
    (hm : m.environment = globalEnvironment)
    (hs : s.machine.environment = []) : Stands P D (.top pending) w m s where
  linked := h
  matched := hm ▸ hs ▸ .globals
  enclosed := trivial
  innermost := hm ▸ rfl
  current i b hb hscope := by
    obtain ⟨_, -, hk⟩ := h.cells.cell i b hb
    exact absurd hscope (Nat.ne_of_gt hk.positive)
  pending := hp

theorem Session.resolved_ok {s s' : Session} {program : Program}
    (h : s.resolved program = .ok s') : ∃ D,
      resolveProgram program.statements s.machine.distances = .ok D ∧
        s' = { s with machine := { s.machine with distances := D } } := by
  unfold Session.resolved at h
  cases hr : resolveProgram program.statements s.machine.distances with
  | error errors =>
    rw [hr] at h
    cases h
  | ok D =>
    rw [hr] at h
    cases h
    exact ⟨D, rfl, rfl⟩

/-- What a step shows is what its statements come to. -/
theorem Session.interpret_shown (fuel : Nat) (s : Session) (program : Program) :
    (s.interpret fuel program).map (fun (outcome, s) => (outcome, s.machine.console)) =
      Lexical.shown id (Eval.executeAll fuel program.statements s.machine.cleared) := by
  unfold Session.interpret Machine.interpret
  match Eval.executeAll fuel program.statements s.machine.cleared with
  | .ok _ _ => rfl
  | .error (.failed _) _ => rfl
  | .error .outOfFuel _ => rfl

/-- Where results agree, the same is shown. -/
theorem Agrees.shown_eq {S : Nat → Prop} {w : World} {pending : List (Nat × String)}
    {r : EStateM.Result Stop Machine Flow} {r' : EStateM.Result Stop Lexical.State Flow}
    (h : Agrees P D S w
      (fun w' f m' f' s' => FlowRelated P w' f f' ∧ Ended P D pending w' m' s') r r') :
    Lexical.shown id r = Lexical.shown Lexical.State.machine r' := by
  have same : ∀ {m m' : Machine} (e : Option Diagnostic), m'.console = m.console →
      Lexical.shown.outcome m e = Lexical.shown.outcome m' e := by
    intro m m' e h
    simp only [Lexical.shown.outcome, Machine.flushed, h]
  rcases h.cases with ⟨_, m, _, s, _, rfl, rfl, -, -, he⟩ | ⟨e, m, s, _, rfl, rfl, -, hl⟩
  · exact congrArg some (same none he.linked.shared.console)
  · cases e with
    | outOfFuel => rfl
    | failed d => exact congrArg some (same (some d) hl.shared.console)

/-- A program that is read and passes the analysis shows the same, ends in the same way and leaves
the same input, whether it runs with the noted distances or by lexical scoping. -/
theorem Session.run_eq_lexical {source : String} {program : Program} {s' : Session}
    (hsource : Program.ofSource 0 source = .ok program)
    (hresolved : (Session.start maxDepth input sink clock memory).resolved program = .ok s')
    (fuel : Nat) :
    ((Session.start maxDepth input sink clock memory).run fuel source).map
        (fun (outcome, s) => (outcome, s.machine.console)) =
      Lexical.runProgram fuel maxDepth input sink clock memory program.statements := by
  obtain ⟨D, hD, rfl⟩ := Session.resolved_ok hresolved
  have hformed := Program.formed_of_ofSource hsource
  obtain ⟨hmentions, -⟩ := resolveProgram_ok hformed hD
    (Program.numbered_of_ofSource hsource).nodup fun _ _ => rfl
  have hlinked := Linked.start (fun m => m.Allowed ∧ m.Placed D) D maxDepth input sink clock memory
  have hpending : World.Pending ⟨[], 1⟩ [] := fun _ _ => by simp [World.Unset]
  have hstands := hlinked.top hpending rfl rfl
  have hagrees := (simulates (fun _ h => h) fuel).executeAll _ _ program.statements hformed
    hmentions _ _ hstands
  have hrun : (Session.start maxDepth input sink clock memory).run fuel source =
      Session.interpret fuel
        ⟨{ Machine.start maxDepth input sink clock memory with distances := D }, 0⟩ program := by
    have hread : Program.ofSource (Session.start maxDepth input sink clock memory).nextId source =
      .ok program := hsource
    simp only [Session.run, hread, Session.runProgram, hresolved]
    rfl
  rw [hrun, Session.interpret_shown]
  exact hagrees.shown_eq

/-- A function goes on reading the global that its name stood for where it was declared. -/
theorem Session.run_eq_lexical_fixed :
    ∃ program s',
      Program.ofSource 0
          "var a = true; \x7b fun f() \x7b print a; \x7d f(); var a = nil; f(); \x7d" =
        .ok program ∧
      (Session.start 1024 [] .open fun _ => 0).resolved program = .ok s' ∧
      ((Session.start 1024 [] .open fun _ => 0).run 50
          "var a = true; \x7b fun f() \x7b print a; \x7d f(); var a = nil; f(); \x7d").map
          (fun (outcome, s) => (outcome, s.machine.console)) =
        Lexical.runProgram 50 1024 [] .open (fun _ => 0) defaultMemory program.statements ∧
      (Lexical.runProgram 50 1024 [] .open (fun _ => 0) defaultMemory program.statements).map
        (·.1) = some ⟨"true\ntrue\n", []⟩ := by
  have hread : (Program.ofSource 0
      "var a = true; \x7b fun f() \x7b print a; \x7d f(); var a = nil; f(); \x7d").map
        (fun program =>
          (((Session.start 1024 [] .open fun _ => 0).resolved program).map fun _ => (),
            (Lexical.runProgram 50 1024 [] .open (fun _ => 0) defaultMemory
              program.statements).map (·.1))) =
      .ok (.ok (), some ⟨"true\ntrue\n", []⟩) := by
    decide +kernel
  obtain ⟨program, hsource, hshown⟩ := Program.exists_of_map_eq_ok hread
  obtain ⟨hresolved, houtcome⟩ := Prod.mk.inj hshown
  obtain ⟨s', hresolved, -⟩ := Program.exists_of_map_eq_ok hresolved
  exact ⟨program, s', hsource, hresolved, Session.run_eq_lexical hsource hresolved 50, houtcome⟩

end LoxLang
