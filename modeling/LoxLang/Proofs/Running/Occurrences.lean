import LoxLang.Proofs.Grammar.Drawing
import LoxLang.Proofs.Likeness.Sessions
import LoxLang.Proofs.Running.Restoring
import LoxLang.Proofs.Scoping.Visiting

/-!
The numbers of occurrences through a session. Whatever a session is given, the occurrences in all
programs that were read in it have different numbers, and no distance is noted for a number that is
still to be drawn. So the analysis of the next program meets each of its occurrences once and notes
its distance in a place that is empty.
-/

namespace LoxLang

/-- The program that a text reads as, if it does. -/
def Session.parsed (s : Session) (source : String) : List Program :=
  (Program.ofSource s.nextId source).toOption.toList

/-- The sessions that come of one by any steps, each with the programs that were read in it. -/
inductive Session.Logged (maxDepth : Nat) (input : List UInt8) (sink : Sink) (clock : Nat → Nat)
    (memory : Memory) : List Program → Session → Prop
  | start : Logged maxDepth input sink clock memory [] (.start maxDepth input sink clock memory)
  | ran {programs s s' fuel source outcome} (h : Logged maxDepth input sink clock memory programs s)
      (hr : s.run fuel source = some (outcome, s')) :
      Logged maxDepth input sink clock memory (programs ++ s.parsed source) s'
  | ranLine {programs s s' fuel source outcome}
      (h : Logged maxDepth input sink clock memory programs s)
      (hr : s.runLine fuel source = some (outcome, s')) :
      Logged maxDepth input sink clock memory (programs ++ s.parsed source) s'
  | ranUnresolved {programs s s' fuel source outcome}
      (h : Logged maxDepth input sink clock memory programs s)
      (hr : s.runUnresolved fuel source = some (outcome, s')) :
      Logged maxDepth input sink clock memory (programs ++ s.parsed source) s'
  | loaded {programs s s' analyse source statements}
      (h : Logged maxDepth input sink clock memory programs s)
      (hl : s.load analyse source = .ok (statements, s')) :
      Logged maxDepth input sink clock memory (programs ++ s.parsed source) s'
  | observed {programs s s' fuel statement observation output}
      (h : Logged maxDepth input sink clock memory programs s)
      (ho : s.observe fuel statement = some (observation, output, s')) :
      Logged maxDepth input sink clock memory programs s'
  | read {programs s} (h : Logged maxDepth input sink clock memory programs s) :
      Logged maxDepth input sink clock memory programs s.readLine.2

/-- The numbers of the occurrences in programs. -/
def programsIds (programs : List Program) : List Nat :=
  programs.flatMap fun p => stmtsIds p.statements

theorem programsIds_append (ps qs : List Program) :
    programsIds (ps ++ qs) = programsIds ps ++ programsIds qs :=
  List.flatMap_append

theorem programsIds_singleton (p : Program) : programsIds [p] = stmtsIds p.statements := by
  simp [programsIds]

namespace Session

variable {maxDepth : Nat} {input : List UInt8} {sink : Sink} {clock : Nat → Nat} {memory : Memory}
  {programs : List Program} {s s' : Session} {program : Program} {outcome : Outcome} {fuel : Nat}

/-- A step that read a program leaves the next number behind it and noted distances for its
occurrences only. -/
structure Took (s : Session) (program : Program) (s' : Session) : Prop where
  nextId : s'.nextId = program.nextId
  distances : ∀ id ∉ stmtsIds program.statements,
    s'.machine.distances.find? id = s.machine.distances.find? id

theorem interpret_took (h : s.interpret fuel program = some (outcome, s')) :
    s.Took program s' := by
  unfold interpret at h
  cases hm : s.machine.cleared.interpret fuel program.statements with
  | none =>
    rw [hm] at h
    cases h
  | some r =>
    rw [hm] at h
    cases h
    refine ⟨rfl, fun id _ => ?_⟩
    have hkept : r.2.distances = s.machine.cleared.distances := interpret_distances hm
    show r.2.distances.find? id = _
    rw [hkept]
    rfl

theorem resolved_took (h : s.resolved program = .ok s') :
    s'.nextId = s.nextId ∧ ∀ id ∉ stmtsIds program.statements,
      s'.machine.distances.find? id = s.machine.distances.find? id := by
  obtain ⟨D, hD, rfl⟩ := resolved_ok h
  obtain ⟨-, rfl⟩ := resolveProgram_eq_ok.mp hD
  exact ⟨rfl, fun id hid => find?_noted_resolveStmts hid⟩

theorem runProgram_took (h : s.runProgram fuel program = some (outcome, s')) :
    s.Took program s' := by
  unfold runProgram at h
  cases hr : s.resolved program with
  | error errors =>
    rw [hr] at h
    cases h
    exact ⟨rfl, fun id hid => find?_noted_resolveStmts hid⟩
  | ok s₁ =>
    rw [hr] at h
    have ht := interpret_took h
    exact ⟨ht.nextId, fun id hid => (ht.distances id hid).trans ((resolved_took hr).2 id hid)⟩

/-- Different occurrences have different numbers, and those still to be drawn have no distance. -/
structure Numbers (programs : List Program) (s : Session) : Prop where
  nodup : (programsIds programs).Nodup
  below : ∀ id ∈ programsIds programs, id < s.nextId
  unplaced : ∀ id, s.nextId ≤ id → s.machine.distances.find? id = none

namespace Numbers

theorem start : Numbers [] (start maxDepth input sink clock memory) :=
  ⟨.nil, by simp [programsIds], fun _ _ => rfl⟩

/-- A step that reads no program. -/
theorem later (h : Numbers programs s) (hn : s.nextId ≤ s'.nextId)
    (hd : s'.machine.distances = s.machine.distances) : Numbers programs s' := by
  refine ⟨h.nodup, fun id hid => Nat.lt_of_lt_of_le (h.below id hid) hn, fun id hid => ?_⟩
  rw [hd]
  exact h.unplaced id (Nat.le_trans hn hid)

theorem nodup_append (h : Numbers programs s) {p : Program}
    (hp : LoxLang.Numbered s.nextId (stmtsIds p.statements) p.nextId) :
    (programsIds (programs ++ [p])).Nodup := by
  rw [programsIds_append, programsIds_singleton, List.nodup_append]
  refine ⟨h.nodup, hp.nodup, fun a ha b hb hab => ?_⟩
  have := h.below a ha
  have := (hp.bounds b hb).1
  omega

theorem took (h : Numbers programs s) {p : Program}
    (hp : LoxLang.Numbered s.nextId (stmtsIds p.statements) p.nextId) (ht : s.Took p s') :
    Numbers (programs ++ [p]) s' := by
  refine ⟨h.nodup_append hp, ?_, ?_⟩
  · intro id hid
    rw [programsIds_append, programsIds_singleton, List.mem_append] at hid
    rw [ht.nextId]
    rcases hid with hid | hid
    · exact Nat.lt_of_lt_of_le (h.below id hid) hp.le
    · exact (hp.bounds id hid).2
  · intro id hid
    rw [ht.nextId] at hid
    rw [ht.distances id fun hmem => by have := (hp.bounds id hmem).2; omega]
    exact h.unplaced id (Nat.le_trans hp.le hid)

end Numbers

/-- What holds behind a text that is not read and behind every step with its program holds behind
the text. -/
theorem Numbers.entered (h : Numbers programs s) {source : String}
    (hbad : ∀ errors, Program.ofSource s.nextId source = .error errors → s' = s.unread source)
    (hok : ∀ p, Program.ofSource s.nextId source = .ok p → s.Took p s') :
    Numbers (programs ++ s.parsed source) s' := by
  unfold parsed
  cases hp : Program.ofSource s.nextId source with
  | error errors =>
    obtain rfl := hbad errors hp
    show Numbers (programs ++ []) _
    rw [List.append_nil]
    exact h.later (le_nextIdAfter s.nextId source) rfl
  | ok p => exact h.took (Program.numbered_of_ofSource hp) (hok p hp)

theorem load_took {analyse : Bool} {source : String} {statements : List Stmt}
    (h : s.load analyse source = .ok (statements, s')) :
    ∃ p, Program.ofSource s.nextId source = .ok p ∧ s.Took p s' := by
  unfold load at h
  cases hsource : Program.ofSource s.nextId source with
  | error errors =>
    rw [hsource] at h
    cases h
  | ok p =>
    rw [hsource] at h
    refine ⟨p, rfl, ?_⟩
    cases analyse with
    | false =>
      cases h
      exact ⟨rfl, fun _ _ => rfl⟩
    | true =>
      have h : (s.resolved p >>= fun s =>
          Except.ok (p.statements, { s with nextId := p.nextId })) = .ok (statements, s') := h
      cases hr : s.resolved p with
      | error errors =>
        rw [hr] at h
        cases h
      | ok t =>
        rw [hr] at h
        cases h
        exact ⟨rfl, (resolved_took hr).2⟩

theorem observe_numbers {statement : Stmt} {observation : Observation} {output : String}
    (h : s.observe fuel statement = some (observation, output, s')) :
    s'.nextId = s.nextId ∧ s'.machine.distances = s.machine.distances := by
  have hleads := (observed_steady fuel statement).leads s.machine.cleared
  unfold observe at h
  match hx : Session.observed fuel statement s.machine.cleared with
  | .ok _ m | .error (.failed _) m =>
    rw [hx] at h hleads
    cases h
    exact ⟨rfl, hleads.distances⟩
  | .error .outOfFuel m =>
    rw [hx] at h
    cases h

/-- The numbers of all programs that were read in a session are different, whatever was done. -/
theorem Logged.numbers (h : Logged maxDepth input sink clock memory programs s) :
    Numbers programs s := by
  induction h with
  | start => exact .start
  | ran _ hr ih =>
    unfold run at hr
    refine ih.entered (fun errors he => ?_) (fun p hp => ?_)
    · rw [he] at hr
      cases hr
      rfl
    · rw [hp] at hr
      exact runProgram_took hr
  | ranLine _ hr ih =>
    unfold runLine at hr
    refine ih.entered (fun errors he => ?_) (fun p hp => ?_)
    · rw [he] at hr
      cases hr
      rfl
    · rw [hp] at hr
      have ht := runProgram_took hr
      exact ⟨ht.nextId, fun id hid => ht.distances id (by rwa [stmtsIds_echoing])⟩
  | ranUnresolved _ hr ih =>
    unfold runUnresolved at hr
    refine ih.entered (fun errors he => ?_) (fun p hp => ?_)
    · rw [he] at hr
      cases hr
      rfl
    · rw [hp] at hr
      exact interpret_took hr
  | loaded _ hl ih =>
    obtain ⟨p, hp, ht⟩ := load_took hl
    refine ih.entered (fun errors he => ?_) (fun q hq => ?_)
    · rw [hp] at he
      cases he
    · rw [hp] at hq
      cases hq
      exact ht
  | observed _ ho ih =>
    obtain ⟨hn, hd⟩ := observe_numbers ho
    exact ih.later (Nat.le_of_eq hn.symm) hd
  | read _ ih => exact ih.later (Nat.le_refl _) rfl

/-- The occurrences of a program have numbers that differ from each other and from those of all
programs that were read before it, and the target of an assignment has a number above those in its
value. The analysis comes to each occurrence once. It notes the distances of different occurrences,
each in a place that was empty, and these are all that it adds to the distances of a program that it
accepts. -/
theorem Logged.occurrences_apart (h : Logged maxDepth input sink clock memory programs s)
    {source : String} {p : Program} (hp : Program.ofSource s.nextId source = .ok p) :
    (programsIds (programs ++ [p])).Nodup ∧
      (∀ target value, Expr.assign target value ∈ stmtsNodes p.statements →
        ∀ id ∈ value.ids, id < target.id) ∧
      ∀ ss, ss = p.statements ∨ ss = echoing p.statements →
        ∃ v, v = resolveStmts .top ss .start ∧
          v.visits = stmtsIds p.statements ∧ v.visits.Nodup ∧
          (v.notes.map Prod.fst).Sublist v.visits ∧ (v.notes.map Prod.fst).Nodup ∧
          (∀ front id d back, v.notes = front ++ (id, d) :: back →
            (s.machine.distances.noteAll front).find? id = none) ∧
          ∀ D, resolveProgram ss s.machine.distances = .ok D →
            D = s.machine.distances.noteAll v.notes := by
  have hnumbers := h.numbers
  have hnumbered := Program.numbered_of_ofSource hp
  have hdrawn := Program.drawn_of_ofTokens (Program.ofSource_ok hp)
  refine ⟨hnumbers.nodup_append hnumbered, fun target value hmem => hdrawn.ascends _ hmem, ?_⟩
  intro ss hss
  have hids : stmtsIds ss = stmtsIds p.statements := by
    rcases hss with rfl | rfl
    · rfl
    · exact stmtsIds_echoing _
  have hvisits : (resolveStmts .top ss .start).visits = stmtsIds p.statements :=
    (visits_resolveStmts ss).trans hids
  have hvisited : (resolveStmts .top ss .start).visits.Nodup := hvisits ▸ hnumbered.nodup
  have hnotes := (resolveStmts .top ss .start).notes_sublist_visits
  refine ⟨_, rfl, hvisits, hvisited, hnotes, hvisited.sublist hnotes, ?_, ?_⟩
  · intro front id d back hsplit
    have hnodup := hvisited.sublist hnotes
    rw [hsplit] at hnodup
    have hnoted : id ∈ (resolveStmts .top ss .start).notes.map Prod.fst := by simp [hsplit]
    have hmem : id ∈ stmtsIds p.statements := hvisits ▸ hnotes.subset hnoted
    exact Distances.find?_noteAll_front hnodup
      (hnumbers.unplaced id (hnumbered.bounds id hmem).1)
  · intro D hD
    obtain ⟨-, rfl⟩ := resolveProgram_eq_ok.mp hD
    exact Scoping.noted_eq _ _

/-- In a second program a captured variable is assigned to from a lambda in a value. -/
theorem Logged.occurrences_apart_captured :
    ∃ outcome s p q, (Session.start 1024 [] .open fun _ => 0).run 50 "var a = 1; a = a;" =
        some (outcome, s) ∧
      Program.ofSource 0 "var a = 1; a = a;" = .ok p ∧ stmtsIds p.statements = [1, 2] ∧
      Program.ofSource s.nextId "{ var b; b = fun () { b = a; }; }" = .ok q ∧
      stmtsIds q.statements = [5, 6, 7] ∧
      Logged 1024 [] .open (fun _ => 0) defaultMemory [p] s ∧
      (programsIds ([p] ++ [q])).Nodup ∧
      (∀ target value, Expr.assign target value ∈ stmtsNodes q.statements →
        ∀ id ∈ value.ids, id < target.id) ∧
      ∀ ss, ss = q.statements ∨ ss = echoing q.statements →
        ∃ v, v = resolveStmts .top ss .start ∧
          v.visits = stmtsIds q.statements ∧ v.visits.Nodup ∧
          (v.notes.map Prod.fst).Sublist v.visits ∧ (v.notes.map Prod.fst).Nodup ∧
          (∀ front id d back, v.notes = front ++ (id, d) :: back →
            (s.machine.distances.noteAll front).find? id = none) ∧
          ∀ D, resolveProgram ss s.machine.distances = .ok D →
            D = s.machine.distances.noteAll v.notes := by
  have hp : (Program.ofSource 0 "var a = 1; a = a;").map (fun p => stmtsIds p.statements) =
      .ok [1, 2] := by
    decide +kernel
  have hq : ((Session.start 1024 [] .open fun _ => 0).run 50 "var a = 1; a = a;").map (fun r =>
      (Program.ofSource r.2.nextId "{ var b; b = fun () { b = a; }; }").map fun q =>
        stmtsIds q.statements) = some (.ok [5, 6, 7]) := by
    decide +kernel
  obtain ⟨p, hp, hpids⟩ := Program.exists_of_map_eq_ok hp
  obtain ⟨⟨outcome, s⟩, hrun, hq⟩ := Option.map_eq_some_iff.mp hq
  obtain ⟨q, hq, hqids⟩ := Program.exists_of_map_eq_ok hq
  have hlogged : Logged 1024 [] .open (fun _ => 0) defaultMemory [p] s := by
    have hstart : Logged 1024 [] .open (fun _ => 0) defaultMemory []
        (Session.start 1024 [] .open fun _ => 0) := .start
    have h := hstart.ran hrun
    have hparsed : (Session.start 1024 [] .open fun _ => 0).parsed "var a = 1; a = a;" = [p] := by
      unfold parsed
      rw [show (Session.start 1024 [] .open fun _ => 0).nextId = 0 from rfl, hp]
      rfl
    rwa [hparsed] at h
  exact ⟨outcome, s, p, q, hrun, hp, hpids, hq, hqids, hlogged, hlogged.occurrences_apart hq⟩

end Session

end LoxLang
