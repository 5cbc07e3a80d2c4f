import LoxLang.Proofs.Grammar.Renumbering
import LoxLang.Proofs.Lexical.Refinement
import LoxLang.Proofs.Running.Binding
import LoxLang.Proofs.Scoping.Visiting
import Mathlib

/-!
Sessions at any point of their history. The invariant of a session is that a lexical run can stand
for its machine, with the mentions in all programs that have run so far. Each step keeps it, so it
holds of every session that can be reached.
-/

namespace LoxLang

/-- What a session is given to run: a program, or a line of a dialogue. -/
inductive Entry where
  | program (source : String)
  | line (source : String)

def Entry.source : Entry → String
  | .program source | .line source => source

namespace Session

def enter (fuel : Nat) (s : Session) : Entry → Option (Outcome × Session)
  | .program source => s.run fuel source
  | .line source => s.runLine fuel source

/-- The program of an entry. -/
def reading (s : Session) : Entry → Except (List Diagnostic) Program
  | .program source => Program.ofSource s.nextId source
  | .line source => (Program.ofSource s.nextId source).map fun program =>
    { program with statements := echoing program.statements }

/-- The program of an entry and the session that runs it, if it is read and passes the analysis. -/
def accepted? (s : Session) (entry : Entry) : Option (Program × Session) :=
  match s.reading entry with
  | .error _ => none
  | .ok program =>
    match s.resolved program with
    | .error _ => none
    | .ok s => some (program, s)

/-- The session behind an entry that is not accepted. -/
def rejected (s : Session) (entry : Entry) : Session :=
  match s.reading entry with
  | .error _ => s.unread entry.source
  | .ok program => s.unresolved program

/-- The sessions that come of one by entries and by reading lines of the input, each with the
statements that have run in it. -/
inductive Reachable (maxDepth : Nat) (input : List UInt8) (sink : Sink) (clock : Nat → Nat)
    (memory : Memory) : List Stmt → Session → Prop
  | start : Reachable maxDepth input sink clock memory [] (.start maxDepth input sink clock memory)
  | ran {history s s' fuel entry program s₁ outcome}
      (h : Reachable maxDepth input sink clock memory history s)
      (ha : s.accepted? entry = some (program, s₁)) (hr : s.enter fuel entry = some (outcome, s')) :
      Reachable maxDepth input sink clock memory (history ++ program.statements) s'
  | refused {history s s' fuel entry outcome}
      (h : Reachable maxDepth input sink clock memory history s) (ha : s.accepted? entry = none)
      (hr : s.enter fuel entry = some (outcome, s')) :
      Reachable maxDepth input sink clock memory history s'
  | read {history s} (h : Reachable maxDepth input sink clock memory history s) :
      Reachable maxDepth input sink clock memory history s.readLine.2

end Session

section

variable {ss : List Stmt}

/-- A line that prints its value is formed as the expression is. -/
theorem stmtsFormed_echoing (h : stmtsFormed ss) : stmtsFormed (Session.echoing ss) := by
  unfold Session.echoing
  split
  · exact h
  · exact h

theorem stmtsIds_echoing (ss : List Stmt) : stmtsIds (Session.echoing ss) = stmtsIds ss := by
  unfold Session.echoing
  split <;> rfl

end

namespace Session

variable {s s' : Session} {entry : Entry} {program : Program}

theorem reading_ok (h : s.reading entry = .ok program) :
    stmtsFormed program.statements ∧
      Numbered s.nextId (stmtsIds program.statements) program.nextId := by
  cases entry with
  | program source => exact ⟨Program.formed_of_ofSource h, Program.numbered_of_ofSource h⟩
  | line source =>
    have h : (Program.ofSource s.nextId source).map (fun program =>
      { program with statements := echoing program.statements }) = .ok program := h
    cases hsource : Program.ofSource s.nextId source with
    | error errors =>
      rw [hsource] at h
      cases h
    | ok program =>
      rw [hsource] at h
      cases h
      dsimp only
      rw [stmtsIds_echoing]
      exact ⟨stmtsFormed_echoing (Program.formed_of_ofSource hsource),
        Program.numbered_of_ofSource hsource⟩

/-- An entry that is not read is refused, and one that is read runs its program. -/
theorem enter_eq (fuel : Nat) (s : Session) (entry : Entry) :
    s.enter fuel entry = match s.reading entry with
      | .error errors => some ((s.unread entry.source).refused errors)
      | .ok program => s.runProgram fuel program := by
  cases entry with
  | program source => rfl
  | line source =>
    show s.runLine fuel source = match (Program.ofSource s.nextId source).map _ with
      | .error errors => some ((s.unread source).refused errors)
      | .ok program => s.runProgram fuel program
    unfold runLine
    cases Program.ofSource s.nextId source <;> rfl

theorem accepted?_eq_some (h : s.accepted? entry = some (program, s')) :
    s.reading entry = .ok program ∧ s.resolved program = .ok s' := by
  unfold accepted? at h
  split at h
  · cases h
  · rename_i hread
    split at h
    · cases h
    · rename_i hresolved
      cases h
      exact ⟨hread, hresolved⟩

theorem enter_of_accepted (h : s.accepted? entry = some (program, s')) (fuel : Nat) :
    s.enter fuel entry = s'.interpret fuel program := by
  obtain ⟨hread, hresolved⟩ := accepted?_eq_some h
  rw [enter_eq, hread]
  dsimp only
  rw [runProgram, hresolved]

theorem enter_of_refused (h : s.accepted? entry = none) (fuel : Nat) :
    ∃ errors, s.enter fuel entry = some ((s.rejected entry).refused errors) := by
  rw [enter_eq]
  unfold accepted? at h
  unfold rejected
  cases hread : s.reading entry with
  | error errors => exact ⟨errors, rfl⟩
  | ok program =>
    rw [hread] at h
    dsimp only at h ⊢
    unfold runProgram
    cases hresolved : s.resolved program with
    | error errors => exact ⟨errors, rfl⟩
    | ok s' =>
      rw [hresolved] at h
      cases h

end Session

/-- A mention in what has run, allowed and at its distance. -/
def Known (history : List Stmt) (D : Distances) (mention : Mention) : Prop :=
  mention ∈ stmtsMentions .top [] history ∧ mention.Allowed ∧ mention.Placed D

theorem Known.settled (history : List Stmt) (D : Distances) :
    ∀ m, Known history D m → m.Allowed ∧ m.Placed D :=
  fun _ h => h.2

/-- What holds of a session with these statements in its history. -/
structure Session.Kept (history : List Stmt) (s : Session) : Prop where
  linked : ∃ w lexical,
    Linked (Known history s.machine.distances) s.machine.distances w s.machine lexical
  outside : s.machine.environment = globalEnvironment
  numbered : ∀ id ∈ stmtsIds history, id < s.nextId
  unplaced : ∀ id, s.nextId ≤ id → s.machine.distances.find? id = none

namespace Session

variable {maxDepth : Nat} {input : List UInt8} {sink : Sink} {clock : Nat → Nat} {memory : Memory}
  {history : List Stmt} {s s' : Session} {entry : Entry} {program : Program} {outcome : Outcome}

theorem Kept.start : Kept [] (start maxDepth input sink clock memory) where
  linked := ⟨_, _, Linked.start _ _ maxDepth input sink clock memory⟩
  outside := rfl
  numbered _ h := nomatch h
  unplaced _ _ := rfl

/-- What is accepted notes distances for its own mentions only. -/
theorem Kept.resolved (h : Kept history s) (ha : s.accepted? entry = some (program, s')) :
    stmtsFormed program.statements ∧
      (∀ m ∈ stmtsMentions .top [] program.statements,
        m.Allowed ∧ m.Placed s'.machine.distances) ∧
      (∀ id ∉ stmtsIds program.statements,
        s'.machine.distances.find? id = s.machine.distances.find? id) ∧
      s' = { s with machine := { s.machine with distances := s'.machine.distances } } := by
  obtain ⟨hread, hresolved⟩ := accepted?_eq_some ha
  obtain ⟨D, hD, rfl⟩ := resolved_ok hresolved
  obtain ⟨hformed, hnumbered⟩ := reading_ok hread
  have hnone : ∀ id ∈ stmtsIds program.statements, s.machine.distances.find? id = none :=
    fun id hid => h.unplaced id (hnumbered.bounds id hid).1
  obtain ⟨hmentions, hother⟩ := resolveProgram_ok hformed hD hnumbered.nodup hnone
  exact ⟨hformed, hmentions, hother, rfl⟩

/-- The mentions of the history are still known when more is accepted. -/
theorem Kept.known (h : Kept history s) (ha : s.accepted? entry = some (program, s'))
    (m : Mention) (hm : Known history s.machine.distances m) :
    Known (history ++ program.statements) s'.machine.distances m := by
  obtain ⟨-, -, hother, -⟩ := h.resolved ha
  obtain ⟨hread, -⟩ := accepted?_eq_some ha
  obtain ⟨hmem, hallowed, hplaced⟩ := hm
  refine ⟨?_, hallowed, fun id hid => ?_⟩
  · rw [stmtsMentions_append]
    exact List.mem_append_left _ hmem
  · rw [← hplaced id hid]
    refine hother id fun hnew => ?_
    have hold : id ∈ stmtsIds history := by
      rw [← stmtsIds_mentions .top []]
      exact List.mem_filterMap.mpr ⟨m, hmem, hid⟩
    have := h.numbered id hold
    have := ((reading_ok hread).2.bounds id hnew).1
    omega

/-- The mentions of what is accepted are known. -/
theorem Kept.fresh (h : Kept history s) (ha : s.accepted? entry = some (program, s')) :
    ∀ m ∈ stmtsMentions .top [] program.statements,
      Known (history ++ program.statements) s'.machine.distances m := by
  obtain ⟨-, hmentions, -, -⟩ := h.resolved ha
  intro m hm
  refine ⟨?_, hmentions m hm⟩
  rw [stmtsMentions_append, stmtsAfter_nil]
  exact List.mem_append_right _ hm

/-- Where an accepted program starts, a lexical run can stand for the machine. -/
theorem Kept.stands (h : Kept history s) (ha : s.accepted? entry = some (program, s')) :
    ∃ pending w lexical, Stands (Known (history ++ program.statements) s'.machine.distances)
      s'.machine.distances (.top pending) w s'.machine.cleared lexical := by
  obtain ⟨-, -, -, hs'⟩ := h.resolved ha
  obtain ⟨w, lexical, hlinked⟩ := h.linked
  obtain ⟨pending, hpending⟩ := w.exists_pending
  have hl := (hlinked.imp (h.known ha) s'.machine.distances).inside globalEnvironment []
  rw [hs']
  refine ⟨pending, w, { (lexical.inside []) with
    machine := { (lexical.inside []).machine with console := lexical.machine.console.cleared } },
    Linked.top ?_ hpending h.outside rfl⟩
  constructor
  · rfl
  · exact hl.cells
  · exact hl.objects.later w.le_refl rfl rfl rfl rfl
  · exact { hl.shared with console := congrArg Console.cleared hl.shared.console }

theorem Kept.followed (h : Kept history s) (ha : s.accepted? entry = some (program, s'))
    {fuel : Nat} : ∃ pending,
      Point.Followed (Known (history ++ program.statements) s'.machine.distances)
        s'.machine.distances pending
        ⟨fuel, .executeAll program.statements, s'.machine.cleared⟩ := by
  obtain ⟨pending, w, lexical, hstands⟩ := h.stands ha
  exact ⟨pending, _, w, lexical, rfl, hstands, (h.resolved ha).1, h.fresh ha⟩

/-- How a program ended, and the session behind it. -/
theorem interpret_eq_some {fuel : Nat} (h : s.interpret fuel program = some (outcome, s')) :
    ∃ m, s' = ⟨m.atTop, program.nextId⟩ ∧
      ((∃ flow, Eval.executeAll fuel program.statements s.machine.cleared = .ok flow m) ∨
        ∃ d, Eval.executeAll fuel program.statements s.machine.cleared =
          .error (.failed d) m) := by
  unfold interpret Machine.interpret at h
  match hx : Eval.executeAll fuel program.statements s.machine.cleared with
  | .ok flow m =>
    rw [hx] at h
    cases h
    exact ⟨m, rfl, .inl ⟨flow, rfl⟩⟩
  | .error (.failed d) m =>
    rw [hx] at h
    cases h
    exact ⟨m, rfl, .inr ⟨d, rfl⟩⟩
  | .error .outOfFuel m =>
    rw [hx] at h
    cases h

/-- What runs in the machine of a session keeps its links, however it ends. -/
theorem Kept.ran (h : Kept history s) (ha : s.accepted? entry = some (program, s')) {fuel : Nat}
    {s'' : Session} (hr : s.enter fuel entry = some (outcome, s'')) :
    Kept (history ++ program.statements) s'' := by
  obtain ⟨hformed, -, hother, -⟩ := h.resolved ha
  obtain ⟨pending, w, lexical, hstands⟩ := h.stands ha
  have hnumbered := (reading_ok (accepted?_eq_some ha).1).2
  have hagrees := (simulates (Known.settled _ _) fuel).executeAll _ w program.statements hformed
    (h.fresh ha) _ _ hstands
  rw [enter_of_accepted ha] at hr
  obtain ⟨m, rfl, hm⟩ := interpret_eq_some hr
  obtain ⟨w', lexical', hlinked⟩ : ∃ w' lexical',
      Linked (Known (history ++ program.statements) s'.machine.distances) s'.machine.distances w' m
        lexical' := by
    rcases hm with ⟨flow, hx⟩ | ⟨d, hx⟩
    · rw [hx] at hagrees
      obtain ⟨_, lexical', w', -, -, -, he⟩ := hagrees.ok rfl
      exact ⟨w', lexical', he.linked⟩
    · rw [hx] at hagrees
      obtain ⟨lexical', w', -, -, hl⟩ := hagrees.error rfl
      exact ⟨w', lexical', hl⟩
  have hdistances : m.distances = s'.machine.distances := hlinked.distances
  constructor
  · have hl := (hlinked.inside globalEnvironment []).atDepth (rfl : 0 = 0)
    show ∃ w lexical, Linked (Known _ m.distances) m.distances w m.atTop lexical
    rw [hdistances]
    exact ⟨w', _, hl⟩
  · rfl
  · intro id hid
    rw [stmtsIds_append] at hid
    rcases List.mem_append.mp hid with hid | hid
    · exact Nat.lt_of_lt_of_le (h.numbered id hid) hnumbered.le
    · exact (hnumbered.bounds id hid).2
  · intro id hid
    show m.distances.find? id = none
    rw [hdistances, hother id fun hnew => ?_]
    · exact h.unplaced id (Nat.le_trans hnumbered.le hid)
    · have := (hnumbered.bounds id hnew).2
      have : program.nextId ≤ id := hid
      omega

/-- The number of the next occurrence only grows, whatever a text reads as. -/
theorem le_nextIdAfter (firstId : Nat) (source : String) :
    firstId ≤ Program.nextIdAfter firstId source := by
  obtain ⟨i, hi, -⟩ := Program.nextIdAfter_like
    (Likeness.renumbering_counts firstId firstId Eq) (fun _ => rfl)
    ⟨0, rfl, rfl⟩ source
  exact hi ▸ Nat.le_add_right firstId i

/-- The analysis notes distances for the occurrences of its program only, also where it finds
errors. -/
theorem unresolved_find? (h : s.reading entry = .ok program) {id : Nat}
    (hid : id < s.nextId ∨ program.nextId ≤ id) :
    (s.unresolved program).machine.distances.find? id = s.machine.distances.find? id := by
  refine find?_noted_resolveStmts fun hmem => ?_
  have hbounds := (reading_ok h).2.bounds id hmem
  omega

/-- The mentions of the history are still known when a program does not pass the analysis. -/
theorem Kept.known_unresolved (h : Kept history s) (hread : s.reading entry = .ok program)
    (m : Mention) (hm : Known history s.machine.distances m) :
    Known history (s.unresolved program).machine.distances m := by
  obtain ⟨hmem, hallowed, hplaced⟩ := hm
  refine ⟨hmem, hallowed, fun id hid => ?_⟩
  rw [← hplaced id hid]
  refine unresolved_find? hread (.inl (h.numbered id ?_))
  rw [← stmtsIds_mentions .top []]
  exact List.mem_filterMap.mpr ⟨m, hmem, hid⟩

/-- What is not accepted leaves what is known as it was. -/
theorem Kept.rejected (h : Kept history s) (entry : Entry) : Kept history (s.rejected entry) := by
  unfold Session.rejected
  cases hread : s.reading entry with
  | error errors =>
    have hle := le_nextIdAfter s.nextId entry.source
    exact ⟨h.linked, h.outside, fun id hid => Nat.lt_of_lt_of_le (h.numbered id hid) hle,
      fun id hid => h.unplaced id (Nat.le_trans hle hid)⟩
  | ok program =>
    have hnumbered := (reading_ok hread).2
    have hknown := h.known_unresolved hread
    obtain ⟨w, lexical, hl⟩ := h.linked
    exact ⟨⟨w, lexical, hl.imp hknown _⟩, h.outside,
      fun id hid => Nat.lt_of_lt_of_le (h.numbered id hid) hnumbered.le,
      fun id hid => (unresolved_find? hread (.inr hid)).trans
        (h.unplaced id (Nat.le_trans hnumbered.le hid))⟩

theorem Kept.read (h : Kept history s) : Kept history s.readLine.2 := by
  obtain ⟨w, lexical, hl⟩ := h.linked
  refine ⟨⟨w, { lexical with machine := { lexical.machine with
    console := s.machine.console.readLine.2 } }, ?_⟩, h.outside, h.numbered, h.unplaced⟩
  constructor
  · rfl
  · exact hl.cells
  · exact hl.objects.later w.le_refl rfl rfl rfl rfl
  · exact { hl.shared with console := rfl }

/-- Every session that can be reached is kept. -/
theorem Reachable.kept (h : Reachable maxDepth input sink clock memory history s) :
    Kept history s := by
  induction h with
  | start => exact .start
  | ran _ ha hr ih => exact ih.ran ha hr
  | refused _ ha hr ih =>
    obtain ⟨errors, he⟩ := enter_of_refused ha _
    rw [he] at hr
    cases hr
    exact ih.rejected _
  | read _ ih => exact ih.read

/-- At any point of any session, every use of a name that the run of an entry comes to finds what
the analysis has promised, unless it lies in the initializer of the variable that it stands for. -/
theorem Reachable.access_bound (h : Reachable maxDepth input sink clock memory history s)
    (ha : s.accepted? entry = some (program, s')) {fuel : Nat} {underway : List (Nat × String)}
    {a : Point} {use : Use} {m : Machine}
    (hr : Reaches ⟨fuel, .executeAll program.statements, s'.machine.cleared⟩ underway a)
    (hu : Accesses a use m)
    (hown : ∀ mention ∈ stmtsMentions .top [] (history ++ program.statements),
      mention.use = use → ¬ mention.InOwnInitializer) :
    use.Bound m := by
  have hP := Known.settled (history ++ program.statements) s'.machine.distances
  obtain ⟨pending, hstart⟩ := h.kept.followed ha
  obtain ⟨p, w, lexical, mention, -, hsighted⟩ := hu.sighted hP (hr.followed hP hstart)
  exact hsighted.bound hP (hown mention hsighted.known.1 hsighted.mentions)

/-- A function reads a variable of the block that it was declared in. -/
theorem Reachable.access_bound_captured : ∃ program s' underway a m,
    (Session.start 1024 [] .open fun _ => 0).accepted?
      (.program "\x7b var a = nil; fun f() \x7b return a; \x7d f(); \x7d") = some (program, s') ∧
    Reaches ⟨50, .executeAll program.statements, s'.machine.cleared⟩ underway a ∧
    Accesses a (.read ⟨0, ⟨"a", 1⟩⟩) m ∧ Use.Bound (.read ⟨0, ⟨"a", 1⟩⟩) m := by
  have ha : (Session.start 1024 [] .open fun _ => 0).accepted?
      (.program "\x7b var a = nil; fun f() \x7b return a; \x7d f(); \x7d") =
        some (⟨[.block [.var ⟨"a", 1⟩ (some (.literal .nil)),
          .function ⟨some ⟨"f", 1⟩, [], [.return 1 (some (.variable ⟨0, ⟨"a", 1⟩⟩))], 1⟩,
          .expression (.call (.variable ⟨1, ⟨"f", 1⟩⟩) 1 [])]], 2⟩,
          ⟨{ Machine.start 1024 [] .open fun _ => 0 with
            distances := ⟨#[some 1, some 0]⟩ }, 0⟩) := by
    cbv
  have hstart : ∀ {program s'}, (Session.start 1024 [] .open fun _ => 0).accepted?
      (.program "\x7b var a = nil; fun f() \x7b return a; \x7d f(); \x7d") = some (program, s') →
      Reaches ⟨50, .executeAll program.statements, s'.machine.cleared⟩ []
        ⟨50, .executeAll program.statements, s'.machine.cleared⟩ := fun _ => .here
  have hblock := ((hstart ha).next .first).next (.block rfl)
  have hcall := (((hblock.next (.next rfl)).next (.next rfl)).next .first).next .expression
  have hbody := ((hcall.next (.called rfl rfl rfl)).next (.function rfl)).next (.body rfl)
  have hread := (hbody.next .first).next .result
  refine ⟨_, _, _, _, _, ha, hread, .read, Reachable.access_bound .start ha hread .read ?_⟩
  intro mention hm hu
  rcases hm with _ | ⟨_, _ | ⟨_, _ | ⟨_, _ | ⟨_, _ | _⟩⟩⟩⟩
  · cases hu
  · cases hu
  · exact Bool.false_ne_true
  · cases hu

end Session

end LoxLang
