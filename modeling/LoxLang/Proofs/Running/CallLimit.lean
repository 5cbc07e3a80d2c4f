import LoxLang.Proofs.Running.Overflow
import LoxLang.Proofs.Running.Restoring

/-!
The limit on the calls under way. A higher limit changes nothing about a program that does not
overflow, and lets one that does print more behind what it has printed already. At any point of a
session there are no more calls under way than the limit allows, and an overflow is the attempt at
one more.
-/

namespace LoxLang

/-- More is printed as more text. -/
theorem Console.output_prefix {c c' : Console} (h : c.printed.toList <+: c'.printed.toList) :
    ∃ rest, c'.output = c.output ++ rest := by
  obtain ⟨texts, htexts⟩ := h
  let more : Console := { c with printed := texts.toArray }
  have hmore : c'.printed = c.printed ++ more.printed := by
    rw [← Array.toList_inj, Array.toList_append, htexts]
  exact ⟨more.output, output_append hmore⟩

namespace Session

variable {n k fuel fuel' : Nat} {s s₁ : Session} {program : Program} {outcome : Outcome}

/-- The session with another limit on its calls. -/
def limited (s : Session) (limit : Nat) : Session :=
  { s with machine := s.machine.limited limit }

/-- What a run with one limit on its calls, and less fuel, says of one with a higher limit. -/
structure Prolonged (k : Nat) (outcome : Outcome) (s₁ : Session)
    (r? : Option (Outcome × Session)) : Prop where
  same : (∀ line, outcome.errors ≠ [.stackOverflow line]) → r? = some (outcome, s₁.limited k)
  longer : ∀ r ∈ r?, ∃ rest, r.1.output = outcome.output ++ rest

theorem Prolonged.refl (k : Nat) (outcome : Outcome) (s₁ : Session) :
    Prolonged k outcome s₁ (some (outcome, s₁.limited k)) where
  same _ := rfl
  longer := by
    intro r hr
    cases hr
    exact ⟨"", (String.append_empty).symm⟩

theorem interpret_prolonged (hn : n ≤ k) (hf : fuel ≤ fuel') (hm : s.machine.maxDepth = n)
    (hsink : s.machine.console.sink = .open)
    (h : s.interpret fuel program = some (outcome, s₁)) :
    Prolonged k outcome s₁ ((s.limited k).interpret fuel' program) := by
  have hp := ((Eval.outlasts hn hf).executeAll program.statements).prolongs s.machine.cleared hm
  have hl := ((Eval.steadies fuel).executeAll program.statements).leads s.machine.cleared
  have hl' := ((Eval.steadies fuel').executeAll program.statements).leads
    (s.machine.cleared.limited k)
  have hcleared : (s.limited k).machine.cleared = s.machine.cleared.limited k := rfl
  unfold interpret Machine.interpret at h ⊢
  rw [hcleared]
  generalize Eval.executeAll fuel program.statements s.machine.cleared = r at hp hl h
  generalize Eval.executeAll fuel' program.statements (s.machine.cleared.limited k) = r' at hp hl'
  cases hp with
  | ok =>
    cases h
    exact .refl _ _ _
  | @error e m _ =>
    cases e with
    | outOfFuel => cases h
    | failed d =>
      cases h
      exact .refl _ _ _
  | @cut e m _ he hprinted =>
    cases e with
    | outOfFuel => cases h
    | failed d =>
      obtain ⟨-, line, hd⟩ := he.resolve_left nofun
      cases hd
      cases h
      have hopen : m.console.sink = .open := hl.sink.trans hsink
      constructor
      · intro hne
        refine (hne line ?_).elim
        show (Machine.flushed m _).toList = _
        unfold Machine.flushed
        rw [hopen]
        rfl
      · intro r hr
        cases r' with
        | ok a m' =>
          cases hr
          exact Console.output_prefix hprinted
        | error e m' =>
          cases e with
          | outOfFuel => cases hr
          | failed d =>
            cases hr
            exact Console.output_prefix hprinted

theorem runProgram_prolonged (hn : n ≤ k) (hf : fuel ≤ fuel') (hm : s.machine.maxDepth = n)
    (hsink : s.machine.console.sink = .open)
    (h : s.runProgram fuel program = some (outcome, s₁)) :
    Prolonged k outcome s₁ ((s.limited k).runProgram fuel' program) := by
  have hdistances : (s.limited k).machine.distances = s.machine.distances := rfl
  unfold runProgram resolved at h ⊢
  rw [hdistances]
  cases hr : resolveProgram program.statements s.machine.distances with
  | error errors =>
    rw [hr] at h
    cases h
    exact .refl _ _ _
  | ok distances =>
    rw [hr] at h
    exact interpret_prolonged (s := { s with machine := { s.machine with distances := distances } })
      hn hf hm hsink h

theorem run_prolonged (hn : n ≤ k) (hf : fuel ≤ fuel') (hm : s.machine.maxDepth = n)
    (hsink : s.machine.console.sink = .open) {source : String}
    (h : s.run fuel source = some (outcome, s₁)) :
    Prolonged k outcome s₁ ((s.limited k).run fuel' source) := by
  have hid : (s.limited k).nextId = s.nextId := rfl
  unfold run at h ⊢
  rw [hid]
  cases hr : Program.ofSource s.nextId source with
  | error errors =>
    rw [hr] at h
    cases h
    exact .refl _ _ _
  | ok program =>
    rw [hr] at h
    exact runProgram_prolonged hn hf hm hsink h

/-- With more fuel a program does the same. -/
theorem interpret_mono {r : Outcome × Session} (hf : fuel ≤ fuel')
    (h : s.interpret fuel program = some r) : s.interpret fuel' program = some r := by
  have hsame {r : EStateM.Result Stop Machine Flow} :=
    ((Eval.outlasts (Nat.le_refl _) hf).executeAll program.statements).same
      (m := s.machine.cleared) rfl (r := r)
  unfold interpret Machine.interpret at h ⊢
  cases hx : Eval.executeAll fuel program.statements s.machine.cleared with
  | ok flow m =>
    rw [hx] at h
    rw [hsame hx nofun]
    exact h
  | error e m =>
    rw [hx] at h
    cases e with
    | outOfFuel => cases h
    | failed d =>
      rw [hsame hx nofun]
      exact h

theorem runProgram_mono {r : Outcome × Session} (hf : fuel ≤ fuel')
    (h : s.runProgram fuel program = some r) : s.runProgram fuel' program = some r := by
  unfold runProgram at h ⊢
  cases hresolved : s.resolved program with
  | error errors =>
    rw [hresolved] at h
    exact h
  | ok s' =>
    rw [hresolved] at h
    exact interpret_mono hf h

theorem enter_mono {r : Outcome × Session} {entry : Entry} (hf : fuel ≤ fuel')
    (h : s.enter fuel entry = some r) : s.enter fuel' entry = some r := by
  rw [enter_eq] at h ⊢
  cases hread : s.reading entry with
  | error errors =>
    rw [hread] at h
    exact h
  | ok program =>
    rw [hread] at h
    exact runProgram_mono hf h

theorem run_mono {r : Outcome × Session} {source : String} (hf : fuel ≤ fuel')
    (h : s.run fuel source = some r) : s.run fuel' source = some r := by
  have h : s.enter fuel (.program source) = some r := h
  exact enter_mono hf h

/-- However a session is reached, no call is under way in it. -/
theorem Reachable.depth {maxDepth : Nat} {input : List UInt8} {sink : Sink} {clock : Nat → Nat}
    {memory : Memory} {history : List Stmt}
    (h : Reachable maxDepth input sink clock memory history s) :
    s.machine.depth = 0 ∧ s.machine.maxDepth = maxDepth := by
  induction h with
  | start => exact ⟨rfl, rfl⟩
  | @ran _ s _ fuel _ program _ _ _ ha hr ih =>
    obtain ⟨-, hresolved⟩ := accepted?_eq_some ha
    obtain ⟨D, -, rfl⟩ := resolved_ok hresolved
    rw [enter_of_accepted ha] at hr
    obtain ⟨m, rfl, hm⟩ := interpret_eq_some hr
    have hs := (Eval.steadies fuel).executeAll program.statements
    refine ⟨rfl, Eq.trans ?_ ih.2⟩
    rcases hm with ⟨flow, hx⟩ | ⟨d, hx⟩
    · exact (hs.leads_ok hx).maxDepth
    · exact (hs.leads_error hx).maxDepth
  | @refused _ s _ fuel entry _ _ ha hr ih =>
    obtain ⟨errors, he⟩ := enter_of_refused ha fuel
    rw [he] at hr
    cases hr
    unfold rejected
    cases s.reading entry with
    | error _ => exact ih
    | ok _ => exact ih
  | read _ ih => exact ih

/-- The limit on the calls only cuts runs short. A program that does not overflow with one limit
does the same with a higher one, and one that overflows prints the beginning of what it prints with
the higher one. At any point of a session the calls under way are no more than the limit, and a run
overflows just where a call is attempted with as many under way as the limit allows. -/
theorem run_limited (hn : n ≤ k) (input : List UInt8) (clock : Nat → Nat) (memory : Memory) :
    (∀ fuel source outcome s₁,
      (start n input .open clock memory).run fuel source = some (outcome, s₁) →
      ((∀ line, outcome.errors ≠ [.stackOverflow line]) →
        (∀ fuel', fuel ≤ fuel' →
          (start k input .open clock memory).run fuel' source = some (outcome, s₁.limited k)) ∧
        ∀ fuel' outcome' s',
          (start k input .open clock memory).run fuel' source = some (outcome', s') →
          outcome' = outcome ∧ s' = s₁.limited k) ∧
      ∀ line, outcome.errors = [.stackOverflow line] → ∀ fuel' outcome' s',
        (start k input .open clock memory).run fuel' source = some (outcome', s') →
        ∃ rest, outcome'.output = outcome.output ++ rest) ∧
    ∀ sink history s entry program s' fuel,
      Reachable n input sink clock memory history s → s.accepted? entry = some (program, s') →
      Point.Limited n ⟨fuel, .executeAll program.statements, s'.machine.cleared⟩ := by
  refine ⟨fun fuel source outcome s₁ h => ?_, fun sink history s entry program s' fuel h ha => ?_⟩
  · have hprolonged {fuel'} (hf : fuel ≤ fuel') :
        Prolonged k outcome s₁ ((start k input .open clock memory).run fuel' source) :=
      run_prolonged (s := start n input .open clock memory) hn hf rfl rfl h
    have hmost {fuel' r} (hr : (start k input .open clock memory).run fuel' source = some r) :
        (start k input .open clock memory).run (max fuel fuel') source = some r :=
      run_mono (Nat.le_max_right fuel fuel') hr
    constructor
    · intro hne
      refine ⟨fun fuel' hf => (hprolonged hf).same hne, fun fuel' outcome' s' hr => ?_⟩
      have hsame := (hprolonged (Nat.le_max_left fuel fuel')).same hne
      rw [hmost hr] at hsame
      cases hsame
      exact ⟨rfl, rfl⟩
    · intro line he fuel' outcome' s' hr
      exact (hprolonged (Nat.le_max_left fuel fuel')).longer _ (hmost hr)
  · obtain ⟨hdepth, hmax⟩ := h.depth
    obtain ⟨-, hresolved⟩ := accepted?_eq_some ha
    obtain ⟨D, -, rfl⟩ := resolved_ok hresolved
    have hlimited : ∀ m : Machine, m.depth = 0 → m.maxDepth = n →
        Point.Limited n ⟨fuel, .executeAll program.statements, m⟩ := by
      rintro m hd rfl
      exact Point.limited ⟨fuel, .executeAll program.statements, m⟩ hd
    exact hlimited _ hdepth hmax

/-- A function that calls itself prints one line more if it may do so once more. -/
theorem run_limited_recursion : 1 ≤ 2 ∧ ∃ outcome s₁ outcome' s',
    (start 1 [] .open fun _ => 0).run 50 "fun f() \x7b print true; f(); \x7d f();" =
      some (outcome, s₁) ∧
    (start 2 [] .open fun _ => 0).run 50 "fun f() \x7b print true; f(); \x7d f();" =
      some (outcome', s') ∧
    outcome = ⟨"true\n", [.stackOverflow 1]⟩ ∧ outcome'.output = "true\ntrue\n" ∧
    (∃ rest, outcome'.output = outcome.output ++ rest) ∧
    ∃ program s', (start 1 [] .open fun _ => 0).accepted?
        (.program "fun f() \x7b print true; f(); \x7d f();") = some (program, s') ∧
      ∃ fuel c vs m, Nests ⟨50, .executeAll program.statements, s'.machine.cleared⟩ 1
        ⟨fuel + 1, .call c vs 1, m⟩ := by
  have hn : 1 ≤ 2 := by decide
  have hlimited := run_limited hn [] (fun _ => 0) defaultMemory
  have hone : ((start 1 [] .open fun _ => 0).run 50
      "fun f() \x7b print true; f(); \x7d f();").map (·.1) =
        some ⟨"true\n", [.stackOverflow 1]⟩ := by
    decide +kernel
  have htwo : ((start 2 [] .open fun _ => 0).run 50
      "fun f() \x7b print true; f(); \x7d f();").map (·.1) =
        some ⟨"true\ntrue\n", [.stackOverflow 1]⟩ := by
    decide +kernel
  have hoverflow : ((start 1 [] .open fun _ => 0).accepted?
      (.program "fun f() \x7b print true; f(); \x7d f();")).bind (fun (program, s') =>
        Fueled.failure? (Eval.executeAll 50 program.statements s'.machine.cleared)) =
          some (.stackOverflow 1) := by
    decide +kernel
  obtain ⟨⟨_, s₁⟩, hrun₁, rfl⟩ := Option.map_eq_some_iff.mp hone
  obtain ⟨⟨_, s'⟩, hrun₂, houtput⟩ := Option.map_eq_some_iff.mp htwo
  obtain ⟨⟨program, s''⟩, ha, hfails⟩ := Option.bind_eq_some_iff.mp hoverflow
  have hlonger := (hlimited.1 50 _ _ _ hrun₁).2 1 rfl 50 _ _ hrun₂
  have hpoint := hlimited.2 .open [] _ _ _ _ 50 .start ha
  exact ⟨hn, _, s₁, _, s', hrun₁, hrun₂, rfl, congrArg Outcome.output houtput, hlonger,
    _, _, ha, (hpoint.overflow 1).mp (Fueled.failure?_eq_some.mp hfails)⟩

end Session

end LoxLang
