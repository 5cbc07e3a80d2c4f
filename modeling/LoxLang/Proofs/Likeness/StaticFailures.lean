import LoxLang.Proofs.Grammar.StatementSoundness
import LoxLang.Proofs.Likeness.Sessions

/-!
Steps that fail before they run. They show their errors and nothing else, and what comes later shows
the same as it would without them. Nor does it hang on where the numbers of its occurrences start.
-/

namespace LoxLang

/-- Errors that are found before a program runs: those of its text, the lexical ones first, or those
of its analysis. -/
def OneFailure (errors : List Diagnostic) : Prop :=
  (∃ lexical grammatical, errors = lexical ++ grammatical ∧
    (∀ d ∈ lexical, d.phase = .scanning) ∧ ∀ d ∈ grammatical, d.phase = .parsing) ∨
  ∀ d ∈ errors, d.phase = .analysis

theorem Scan.phase_of_errors (s : Scan) : ∀ d ∈ s.errors, d.phase = .scanning := by
  intro d hd
  obtain ⟨item, -, hitem⟩ := List.mem_filterMap.mp hd
  cases item with
  | token t => cases hitem
  | fault line e =>
    cases hitem
    rfl

theorem Program.oneFailure_of_ofSource {a : Nat} {source : String} {errors : List Diagnostic}
    (h : ofSource a source = .error errors) : errors ≠ [] ∧ OneFailure errors := by
  have hlexical := (scan source).phase_of_errors
  unfold ofSource at h
  dsimp only at h
  cases hr : ofTokens a (scan source).tokens (scan source).endLine with
  | error grammatical =>
    rw [hr] at h
    cases h
    have hne := ofTokens_error hr
    exact ⟨by simp [hne], .inl ⟨_, _, rfl, hlexical, phase_of_ofTokens hr⟩⟩
  | ok program =>
    rw [hr] at h
    dsimp only at h
    split at h
    · cases h
    · rename_i he
      cases h
      exact ⟨by simpa using he, .inl ⟨_, [], (List.append_nil _).symm, hlexical, nofun⟩⟩

namespace Session

variable {maxDepth : Nat} {input : List UInt8} {sink : Sink} {clock : Nat → Nat} {memory : Memory}
  {s s' : Session} {entry : Entry} {fuel : Nat}

/-- What is not accepted has errors of one kind. -/
theorem enter_of_refused_errors (h : s.accepted? entry = none) (fuel : Nat) :
    ∃ errors, s.enter fuel entry = some ((s.rejected entry).refused errors) ∧ errors ≠ [] ∧
      OneFailure errors := by
  rw [enter_eq]
  unfold accepted? at h
  unfold rejected
  cases hread : s.reading entry with
  | error errors =>
    refine ⟨errors, rfl, ?_⟩
    cases entry with
    | program source => exact Program.oneFailure_of_ofSource hread
    | line source =>
      have hread : (Program.ofSource s.nextId source).map _ = .error errors := hread
      cases hsource : Program.ofSource s.nextId source with
      | ok program =>
        rw [hsource] at hread
        cases hread
      | error errors' =>
        rw [hsource] at hread
        cases hread
        exact Program.oneFailure_of_ofSource hsource
  | ok program =>
    have hself := reading_like (Likeness.renumbering_counts s.nextId s.nextId Eq) (fun _ => rfl)
      ⟨0, rfl, rfl⟩ entry
    rw [hread] at hself h
    have hstart : Scoping.Like (.renumbering s.nextId s.nextId Eq) .start .start := .start _
    have hscoping := resolveStmts_like .top hstart program.statements hself.1
    have hphase := Diagnostic.phase_of_forall₂ hscoping.errors
    dsimp only at h ⊢
    rw [runProgram_eq]
    unfold resolved resolveProgram at h
    dsimp only at h
    split
    · rename_i he
      rw [if_pos he] at h
      cases h
    · rename_i he
      exact ⟨_, rfl, by simpa using he, .inr fun d hd => hphase d (List.mem_reverse.mp hd)⟩

/-- What runs fails with one error of its run at most. -/
theorem errors_of_interpret {program : Program} {outcome : Outcome}
    (h : s.interpret fuel program = some (outcome, s')) :
    outcome.errors = [] ∨ ∃ d, outcome.errors = [d] ∧ d.phase = .running := by
  have hflushed : ∀ (m : Machine) (error? : Option Diagnostic),
      (∀ d, error? = some d → d.phase = .running) →
      (m.flushed error?).toList = [] ∨
        ∃ d, (m.flushed error?).toList = [d] ∧ d.phase = .running := by
    intro m error? herror
    unfold Machine.flushed
    cases m.console.sink.flushRefusal? with
    | some reason => exact .inr ⟨_, rfl, rfl⟩
    | none =>
      cases error? with
      | none => exact .inl rfl
      | some d => exact .inr ⟨d, rfl, herror d rfl⟩
  unfold interpret Machine.interpret at h
  cases hx : Eval.executeAll fuel program.statements s.machine.cleared with
  | ok flow m =>
    rw [hx] at h
    cases h
    exact hflushed m none nofun
  | error e m =>
    rw [hx] at h
    cases e with
    | outOfFuel => cases h
    | failed d =>
      have hsteady := (Eval.steadies fuel).executeAll program.statements
      have hd := Diagnostic.isStatic_eq_false_iff.mp (hsteady.failing _ d m hx)
      cases h
      exact hflushed m (some d) fun _ he => Option.some.inj he ▸ hd

/-- What a session goes through. -/
inductive Step where
  | enter (entry : Entry)
  /-- Reads a line of the input. -/
  | read
  /-- So many occurrences are numbered outside the session. -/
  | number (count : Nat)

/-- What can be seen of a step. -/
inductive Shown where
  | outcome (outcome : Outcome)
  | line (line : Except String (Option String))

deriving instance DecidableEq for Shown

/-- The session in which occurrences are numbered from further on. -/
def advanced (s : Session) (count : Nat) : Session :=
  { s with nextId := s.nextId + count }

def step (fuel : Nat) (s : Session) : Step → Option (List Shown × Session)
  | .enter entry => (s.enter fuel entry).map fun (outcome, s) => ([.outcome outcome], s)
  | .read => some ([.line s.readLine.1], s.readLine.2)
  | .number count => some ([], s.advanced count)

def steps (fuel : Nat) : Session → List Step → Option (List Shown × Session)
  | s, [] => some ([], s)
  | s, step :: later => do
    let (shown, s) ← s.step fuel step
    let (more, s) ← s.steps fuel later
    return (shown ++ more, s)

theorem steps_cons (s : Session) (fuel : Nat) (step : Step) (later : List Step) :
    s.steps fuel (step :: later) = (s.step fuel step).bind fun (shown, t) =>
      (t.steps fuel later).map fun (more, t) => (shown ++ more, t) := by
  rw [steps]
  cases s.step fuel step with
  | none => rfl
  | some r =>
    show ((r.2.steps fuel later).bind fun r' => some (r.1 ++ r'.1, r'.2)) =
      (r.2.steps fuel later).map fun r' => (r.1 ++ r'.1, r'.2)
    exact (Option.map_eq_bind).symm

/-- What a session shows of its steps. -/
def shows (fuel : Nat) (s : Session) (later : List Step) : Option (List Shown) :=
  (s.steps fuel later).map (·.1)

theorem Kept.advanced {history : List Stmt} (h : Kept history s) (count : Nat) :
    Kept history (s.advanced count) where
  linked := h.linked
  outside := h.outside
  numbered id hid := Nat.lt_of_lt_of_le (h.numbered id hid) (Nat.le_add_right _ _)
  unplaced id hid := h.unplaced id (Nat.le_trans (Nat.le_add_right _ _) hid)

theorem extends_advanced (s : Session) (count : Nat) : s.Extends (s.advanced count) :=
  ⟨Nat.le_add_right _ _, rfl, fun _ _ => rfl⟩

theorem Alike.advanced_left (h : s.Alike s') (count : Nat) : (s.advanced count).Alike s' := by
  obtain ⟨history, hkept⟩ := h.left
  exact ⟨⟨history, hkept.advanced count⟩, h.right,
    h.like.extends (s.extends_advanced count) (.refl s')⟩

theorem Alike.advanced (h : s.Alike s') (count : Nat) :
    (s.advanced count).Alike (s'.advanced count) := by
  obtain ⟨history, hkept⟩ := h.left
  obtain ⟨history', hkept'⟩ := h.right
  exact ⟨⟨history, hkept.advanced count⟩, ⟨history', hkept'.advanced count⟩,
    h.like.extends (s.extends_advanced count) (s'.extends_advanced count)⟩

theorem Alike.rejected_left (h : s.Alike s') (entry : Entry) : (s.rejected entry).Alike s' := by
  obtain ⟨history, hkept⟩ := h.left
  exact ⟨⟨history, hkept.rejected entry⟩, h.right,
    h.like.extends (s.extends_rejected entry) (.refl s')⟩

theorem Alike.read (h : s.Alike s') :
    s'.readLine.1 = s.readLine.1 ∧ s.readLine.2.Alike s'.readLine.2 := by
  obtain ⟨history, hkept⟩ := h.left
  obtain ⟨history', hkept'⟩ := h.right
  have hm : Machine.Like (· = s.likeness s') #[] s.machine s'.machine := h.like
  obtain ⟨hanswer, hinput⟩ := Console.readLine_eq hm.input
  obtain ⟨hsink, hprinted⟩ := s.machine.console.readLine_keeps
  obtain ⟨hsink', hprinted'⟩ := s'.machine.console.readLine_keeps
  refine ⟨hanswer, ⟨history, hkept.read⟩, ⟨history', hkept'.read⟩, ?_⟩
  exact { hm with
    input := hinput
    sink := hsink'.trans (hm.sink.trans hsink.symm)
    printed := hprinted'.trans (hm.printed.trans (congrArg (#[] ++ ·) hprinted.symm)) }

/-- A step shows the same in alike sessions, and leaves alike sessions. -/
theorem Alike.step (h : s.Alike s') (fuel : Nat) (step : Step) :
    Option.Rel (fun r r' => r'.1 = r.1 ∧ r.2.Alike r'.2) (s.step fuel step)
      (s'.step fuel step) := by
  cases step with
  | enter entry =>
    have hr := h.enter fuel entry
    show Option.Rel _ ((s.enter fuel entry).map _) ((s'.enter fuel entry).map _)
    generalize s.enter fuel entry = r? at hr
    generalize s'.enter fuel entry = r'? at hr
    cases hr with
    | none => exact .none
    | some hr => exact .some ⟨congrArg (fun o => [Shown.outcome o]) hr.1, hr.2⟩
  | read => exact .some ⟨congrArg (fun l => [Shown.line l]) h.read.1, h.read.2⟩
  | number count => exact .some ⟨rfl, h.advanced count⟩

theorem Alike.steps (h : s.Alike s') (fuel : Nat) (later : List Step) :
    Option.Rel (fun r r' => r'.1 = r.1 ∧ r.2.Alike r'.2) (s.steps fuel later)
      (s'.steps fuel later) := by
  induction later generalizing s s' with
  | nil => exact .some ⟨rfl, h⟩
  | cons step later ih =>
    have hr := h.step fuel step
    unfold Session.steps
    generalize s.step fuel step = r? at hr
    generalize s'.step fuel step = r'? at hr
    cases hr with
    | none => exact .none
    | @some r r' hr =>
      have hmore := ih hr.2
      dsimp only [Option.bind_eq_bind, Option.bind_some]
      generalize r.2.steps fuel later = q? at hmore
      generalize r'.2.steps fuel later = q'? at hmore
      cases hmore with
      | none => exact .none
      | some hmore =>
        refine .some ⟨?_, hmore.2⟩
        dsimp only
        rw [hr.1, hmore.1]

theorem Alike.shows_eq (h : s.Alike s') (fuel : Nat) (later : List Step) :
    s'.shows fuel later = s.shows fuel later := by
  have hr := h.steps fuel later
  unfold shows
  generalize s.steps fuel later = r? at hr
  generalize s'.steps fuel later = r'? at hr
  cases hr with
  | none => rfl
  | some hr => exact congrArg some hr.1

/-- In a new session there is no code yet. -/
theorem start_alike :
    (start maxDepth input sink clock memory).Alike (start maxDepth input sink clock memory) where
  left := ⟨[], .start⟩
  right := ⟨[], .start⟩
  like := Machine.start_like maxDepth input sink clock memory

/-- A step that fails before it runs shows errors of one kind and nothing else, also where the
output refuses to be flushed, and leaves the console as it was. Later steps show the same without
it. Any other step that fails shows one error of its run. Nor does it matter how many occurrences
are numbered before a step. -/
theorem static_failure_invisible {earlier : List Step} {shown : List Shown}
    (h : (start maxDepth input sink clock memory).steps fuel earlier = some (shown, s)) :
    (∀ entry fuel, s.accepted? entry = none →
      (∃ errors, s.enter fuel entry = some (⟨"", errors⟩, s.rejected entry) ∧ errors ≠ [] ∧
        OneFailure errors) ∧
      (s.rejected entry).machine.console = s.machine.console ∧
      ∀ later, (s.rejected entry).shows fuel later = s.shows fuel later) ∧
    (∀ entry fuel outcome s', s.accepted? entry ≠ none →
      s.enter fuel entry = some (outcome, s') →
      outcome.errors = [] ∨ ∃ d, outcome.errors = [d] ∧ d.phase = .running) ∧
    ∀ count fuel later, (s.advanced count).shows fuel later = s.shows fuel later := by
  have hself : s.Alike s := by
    have hr :=
      Alike.steps (start_alike : (start maxDepth input sink clock memory).Alike _) fuel earlier
    rw [h] at hr
    cases hr with
    | some hr => exact hr.2
  refine ⟨fun entry fuel ha => ⟨?_, ?_, fun later => ?_⟩, fun entry fuel outcome s' ha hr => ?_,
    fun count fuel later => ?_⟩
  · exact enter_of_refused_errors ha fuel
  · rw [(s.extends_rejected entry).machine]
  · exact ((hself.rejected_left entry).shows_eq fuel later).symm
  · obtain ⟨⟨program, s₁⟩, ha⟩ := Option.ne_none_iff_exists'.mp ha
    rw [enter_of_accepted ha] at hr
    exact errors_of_interpret hr
  · exact ((hself.advanced_left count).shows_eq fuel later).symm

/-- A variable that is read in its own initializer does not pass the analysis, and what the line
before it has defined is still there. -/
theorem static_failure_invisible_initializer : ∃ shown s,
    (start 1024 [] .open fun _ => 0).steps 50 [.enter (.line "var a = true;")] =
      some (shown, s) ∧
    s.accepted? (.line "\x7b var b = b; \x7d") = none ∧
    (∃ errors, s.enter 50 (.line "\x7b var b = b; \x7d") =
        some (⟨"", errors⟩, s.rejected (.line "\x7b var b = b; \x7d")) ∧ errors ≠ [] ∧
      OneFailure errors) ∧
    (s.rejected (.line "\x7b var b = b; \x7d")).shows 50 [.enter (.line "a;")] =
      s.shows 50 [.enter (.line "a;")] ∧
    s.shows 50 [.enter (.line "a;")] = some [.outcome ⟨"true\n", []⟩] := by
  have hrun : ((start 1024 [] .open fun _ => 0).steps 50 [.enter (.line "var a = true;")]).map
      (fun (_, s) => ((s.accepted? (.line "\x7b var b = b; \x7d")).isNone,
        s.shows 50 [.enter (.line "a;")])) =
      some (true, some [.outcome ⟨"true\n", []⟩]) := by
    decide +kernel
  obtain ⟨⟨shown, s⟩, hs, hsees⟩ := Option.map_eq_some_iff.mp hrun
  have ha : s.accepted? (.line "\x7b var b = b; \x7d") = none :=
    Option.isNone_iff_eq_none.mp (congrArg Prod.fst hsees)
  obtain ⟨herrors, -, hlater⟩ := (static_failure_invisible hs).1 _ 50 ha
  exact ⟨shown, s, hs, ha, herrors, hlater _, congrArg Prod.snd hsees⟩

end Session

end LoxLang
