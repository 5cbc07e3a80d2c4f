import LoxLang.Proofs.Grammar.Joining
import LoxLang.Proofs.Likeness.Pairing
import LoxLang.Proofs.Likeness.StaticFailures
import LoxLang.Proofs.Running.Jumps
import LoxLang.Proofs.Running.Restoring
import LoxLang.Proofs.Scoping.Reporting

/-!
Two programs one behind the other in a session, and the program of both their texts, the second on
a new line. They print the same, end in the same way and leave the same behind, but for the lines of
the second text, which are further on, and for the numbers of occurrences.
-/

namespace LoxLang

/-- The line on which a text begins that is put on a new line behind another. -/
def linesBefore (first : String) : Nat :=
  lineBreaks first.toList + 1

theorem stmtsLike_append {L : Likeness} {ss tt rr : List Stmt} (h : stmtsLike L (ss ++ tt) rr) :
    ∃ ss' tt', rr = ss' ++ tt' ∧ stmtsLike L ss ss' ∧ stmtsLike L tt tt' := by
  induction ss generalizing rr with
  | nil => exact ⟨[], rr, rfl, rfl, h⟩
  | cons s ss ih =>
    obtain ⟨s', rest, rfl, hs, hrest⟩ := h
    obtain ⟨ss', tt', rfl, hss, htt⟩ := ih hrest
    exact ⟨s' :: ss', tt', rfl, ⟨s', ss', rfl, hs, hss⟩, htt⟩

theorem stmtsLike.append {L : Likeness} {ss ss' tt tt' : List Stmt} (h : stmtsLike L ss ss')
    (h' : stmtsLike L tt tt') : stmtsLike L (ss ++ tt) (ss' ++ tt') := by
  induction ss generalizing ss' with
  | nil =>
    cases h
    exact h'
  | cons s ss ih =>
    obtain ⟨s', rest, rfl, hs, hrest⟩ := h
    exact ⟨s', _, rfl, hs, ih hrest⟩

/-- Statements that end normally are followed by what is behind them. -/
theorem Eval.executeAll_append {fuel fuel' : Nat} (hle : fuel ≤ fuel') {ss : List Stmt}
    (tt : List Stmt) {m m₁ : Machine} (h : executeAll fuel ss m = .ok .normal m₁) :
    executeAll (fuel' + ss.length) (ss ++ tt) m = executeAll fuel' tt m₁ := by
  induction ss generalizing fuel m with
  | nil =>
    cases fuel with
    | zero => cases h
    | succ fuel =>
      cases h
      rfl
  | cons s ss ih =>
    cases fuel with
    | zero => cases h
    | succ fuel =>
      have hfuel : fuel ≤ fuel' := by omega
      rw [executeAll] at h
      cases hs : execute fuel s m with
      | error e m₂ =>
        rw [Fueled.bind_error hs] at h
        cases h
      | ok flow m₂ =>
        rw [Fueled.bind_ok hs] at h
        cases flow with
        | normal =>
          have hmore : execute (fuel' + ss.length) s m = .ok .normal m₂ :=
            ((outlasts (Nat.le_refl m.maxDepth) (by omega)).execute s).same rfl hs
              (by rintro _ ⟨⟩)
          exact (Fueled.bind_ok hmore).trans (ih hfuel h)
        | _ => cases h

namespace Diagnostic

variable {c c' : Nat} {d d' : Diagnostic}

theorem moved_inj (h : d.moved c = d'.moved c) : d = d' := by
  cases d <;> cases d' <;> simp_all [moved]

/-- An error that does not move with its line has none. -/
theorem moved_eq_self (hc : 0 < c) (h : d.moved c = d) (c' : Nat) : d.moved c' = d := by
  cases d with
  | io => rfl
  | _ =>
    simp only [moved, lexical.injEq, grammar.injEq, scope.injEq, runtime.injEq,
      stackOverflow.injEq] at h
    omega

theorem Like.moved_cases (h : d.Like (Moves c c') d') :
    d' = d ∨ ∃ e : Diagnostic, d = e.moved c ∧ d' = e.moved c' := by
  cases h with
  | io => exact .inl rfl
  | @lexical _ _ e h =>
    obtain rfl | ⟨i, rfl, rfl⟩ := h
    · exact .inl rfl
    · exact .inr ⟨.lexical i e, rfl, rfl⟩
  | @grammar _ _ found? e h =>
    obtain rfl | ⟨i, rfl, rfl⟩ := h
    · exact .inl rfl
    · exact .inr ⟨.grammar i found? e, rfl, rfl⟩
  | @scope _ _ lexeme e h =>
    obtain rfl | ⟨i, rfl, rfl⟩ := h
    · exact .inl rfl
    · exact .inr ⟨.scope i lexeme e, rfl, rfl⟩
  | @runtime _ _ e h =>
    obtain rfl | ⟨i, rfl, rfl⟩ := h
    · exact .inl rfl
    · exact .inr ⟨.runtime i e, rfl, rfl⟩
  | stackOverflow h =>
    obtain rfl | ⟨i, rfl, rfl⟩ := h
    · exact .inl rfl
    · exact .inr ⟨.stackOverflow i, rfl, rfl⟩

end Diagnostic

namespace Program

variable {a c : Nat} {first second : String} {p q : Program}

theorem ReadAlike.ok {L : Likeness} {r : Except (List Diagnostic) Program}
    (h : ReadAlike L (.ok p) r) : ∃ p', r = .ok p' ∧ stmtsLike L p.statements p'.statements :=
  match r, h with
  | .ok p', h => ⟨p', rfl, h.1⟩

/-- The program of two texts is like that of the first, and behind it that of the second, which is
read on other lines. Each number stands for one number. -/
theorem ofSource_append_like (hp : ofSource a first = .ok p)
    (hq : ofSource p.nextId (blankLines c ++ second) = .ok q) :
    ∃ r, ofSource a (first ++ "\n" ++ second) = .ok r ∧
      stmtsLike (.ofCode (Zipped (stmtsIds (p.statements ++ q.statements)) (stmtsIds r.statements))
        (Moves c (linesBefore first))) (p.statements ++ q.statements) r.statements ∧
      Numbered a (stmtsIds (p.statements ++ q.statements)) q.nextId ∧
      Numbered a (stmtsIds r.statements) r.nextId := by
  have hmoved := ofSource_blankLines_like p.nextId p.nextId c (linesBefore first) second
  rw [hq] at hmoved
  obtain ⟨q', hq', hlike⟩ := hmoved.ok
  obtain ⟨r, hr, hunnumbered⟩ := ofSource_append hp hq'
  have hself := ofSource_like (Likeness.renumbering_counts a a (Moves c (linesBefore first)))
    (.refl _ _) (a := a) (b := a) ⟨0, rfl, rfl⟩ first
  rw [hp] at hself
  have himplies (b : Nat) : Likeness.Implies (fun _ => True)
      (.renumbering b b (Moves c (linesBefore first)))
      (.ofCode (fun _ _ => True) (Moves c (linesBefore first))) :=
    ⟨fun _ _ _ _ => trivial, fun _ _ hl => hl, fun _ _ hf => hf⟩
  have weaken {b : Nat} {ss ss' : List Stmt}
      (h : stmtsLike (.renumbering b b (Moves c (linesBefore first))) ss ss') :
      stmtsLike (.ofCode (fun _ _ => True) (Moves c (linesBefore first))) ss ss' :=
    stmts_like_imp (himplies b) ss (fun _ _ => trivial) h
  have hpaired := stmts_paired (p.statements ++ q.statements)
    ((weaken hself.1).append (weaken hlike)) hunnumbered.symm
  refine ⟨r, hr, hpaired.like _ (Zipped.forall₂ hpaired.length), ?_, numbered_of_ofSource hr⟩
  rw [stmtsIds_append]
  exact (numbered_of_ofSource hp).append (numbered_of_ofSource hq)

end Program

namespace Session

variable {maxDepth : Nat} {input : List UInt8} {sink : Sink} {clock : Nat → Nat} {memory : Memory}
  {history : List Stmt} {s s' t : Session} {entry : Entry} {program p q : Program}
  {first second output : String} {fuel : Nat}

/-- Every session that can be reached is like itself. -/
theorem Reachable.alike (h : Reachable maxDepth input sink clock memory history s) : s.Alike s := by
  have entered {s s' : Session} {fuel : Nat} {entry : Entry} {outcome : Outcome}
      (hs : s.Alike s) (hr : s.enter fuel entry = some (outcome, s')) : s'.Alike s' := by
    have hboth := hs.enter fuel entry
    rw [hr] at hboth
    cases hboth with
    | some hboth => exact hboth.2
  induction h with
  | start => exact start_alike
  | ran _ _ hr ih => exact entered ih hr
  | refused _ _ hr ih => exact entered ih hr
  | read _ ih => exact ih.read.2

/-- The session behind the analysis of a program that passes it. -/
theorem resolved_iff : s.resolved program = .ok s' ↔
    (resolveStmts .top program.statements .start).errors = [] ∧
      s' = ⟨(s.unresolved program).machine, s.nextId⟩ := by
  unfold resolved
  cases h : resolveProgram program.statements s.machine.distances with
  | ok D =>
    obtain ⟨he, rfl⟩ := resolveProgram_eq_ok.mp h
    rw [Except.map, Except.ok.injEq, and_iff_right he]
    exact eq_comm
  | error errors =>
    refine iff_of_false nofun fun ⟨he, _⟩ => ?_
    rw [resolveProgram_eq_ok.mpr ⟨he, rfl⟩] at h
    cases h

/-- A program that passes the analysis runs in the session behind the analysis. -/
theorem enter_of_unresolved (ha : s.accepted? entry = some (program, s')) (fuel : Nat) :
    s.enter fuel entry = (s.unresolved program).interpret fuel program := by
  obtain ⟨hread, hresolved⟩ := accepted?_eq_some ha
  rw [enter_eq, hread]
  dsimp only
  rw [runProgram_eq, (resolved_iff.mp hresolved).1]
  rfl

/-- What a program leaves that ends without an error. -/
theorem interpret_succeeded (h : s.interpret fuel program = some (⟨output, []⟩, t)) :
    ∃ flow m, Eval.executeAll fuel program.statements s.machine.cleared = .ok flow m ∧
      t = ⟨m.atTop, program.nextId⟩ ∧ output = m.console.output := by
  unfold interpret Machine.interpret at h
  match hx : Eval.executeAll fuel program.statements s.machine.cleared with
  | .ok flow m =>
    rw [hx] at h
    obtain ⟨ho, ht⟩ := Prod.mk.inj (Option.some.inj h)
    exact ⟨flow, m, rfl, ht.symm, (congrArg Outcome.output ho).symm⟩
  | .error (.failed d) m =>
    rw [hx] at h
    have h : some (Outcome.mk m.console.output (m.flushed (some d)).toList,
        Session.mk m.atTop program.nextId) = some (⟨output, []⟩, t) := h
    have herrors := congrArg (·.1.errors) (Option.some.inj h)
    unfold Machine.flushed at herrors
    split at herrors <;> cases herrors
  | .error .outOfFuel m =>
    rw [hx] at h
    cases h

/-- A program that ends without an error is accepted, and ends normally. -/
theorem Reachable.run_succeeded (hs : Reachable maxDepth input sink clock memory history s)
    (h : s.run fuel first = some (⟨output, []⟩, t)) :
    ∃ p, s.reading (.program first) = .ok p ∧ (∃ s₁, s.resolved p = .ok s₁) ∧
      Reachable maxDepth input sink clock memory (history ++ p.statements) t ∧
      ∃ m, Eval.executeAll fuel p.statements (s.unresolved p).machine.cleared = .ok .normal m ∧
        t = ⟨m, p.nextId⟩ ∧ output = m.console.output := by
  cases ha : s.accepted? (.program first) with
  | none =>
    obtain ⟨errors, he, hne, -⟩ := enter_of_refused_errors ha fuel
    have h : s.enter fuel (.program first) = some (⟨output, []⟩, t) := h
    rw [he] at h
    cases h
    exact (hne rfl).elim
  | some r =>
    obtain ⟨p, s₁⟩ := r
    obtain ⟨hread, hresolved⟩ := accepted?_eq_some ha
    have hrun : (s.unresolved p).interpret fuel p = some (⟨output, []⟩, t) := by
      rw [← enter_of_unresolved ha]
      exact h
    obtain ⟨flow, m, hx, ht, houtput⟩ := interpret_succeeded hrun
    have hmachine : s₁.machine.cleared = (s.unresolved p).machine.cleared := by
      rw [(resolved_iff.mp hresolved).2]
    obtain rfl := (hs.jumps_taken ha fuel).program flow m (hmachine ▸ hx)
    have hleads := ((Eval.steadies fuel).executeAll p.statements).leads_ok hx
    have htop : m.atTop = m := by
      have henvironment : m.environment = globalEnvironment :=
        hleads.environment.trans hs.kept.outside
      have hdepth : m.depth = 0 := hleads.depth.trans hs.idle
      rw [Machine.atTop, ← henvironment, ← hdepth]
    rw [htop] at ht
    exact ⟨p, hread, ⟨s₁, hresolved⟩, .ran hs ha h, m, hx, ht, houtput⟩

/-- Code is like code of other sessions if they know its numbers, at the same distances. -/
theorem stmtsLike_likenessOn {R line : Nat → Nat → Prop} {u u' : Session} {ss ss' : List Stmt}
    (h : stmtsLike (.ofCode R line) ss ss') (hids : ∀ id ∈ stmtsIds ss, id < u.nextId)
    (hR : ∀ id id', id < u.nextId → R id id' → id' < u'.nextId ∧
      u'.machine.distances.find? id' = u.machine.distances.find? id) :
    stmtsLike (u.likenessOn line u') ss ss' := by
  have himplies : Likeness.Implies (fun id => id < u.nextId) (.ofCode R line)
      (u.likenessOn line u') :=
    ⟨fun id id' hlt hid => ⟨hlt, hR id id' hlt hid⟩, fun _ _ hl => hl, fun _ _ _ => trivial⟩
  exact stmts_like_imp himplies ss hids h

/-- The program of both texts passes the analysis, and its occurrences are as far from their
bindings as those of the two programs. -/
theorem joined_resolved {t₁ : Session} {c : Nat} (hkept : Kept history s)
    (hp : s.reading (.program first) = .ok p) (hresolved : ∃ s₁, s.resolved p = .ok s₁)
    (hnext : t.nextId = p.nextId)
    (hdistances : t.machine.distances = (s.unresolved p).machine.distances)
    (hq : t.accepted? (.program (blankLines c ++ second)) = some (q, t₁)) :
    ∃ r r₁ r₂, s.reading (.program (first ++ "\n" ++ second)) = .ok r ∧
      r.statements = r₁ ++ r₂ ∧
      (∀ fuel, s.runProgram fuel r = (s.unresolved r).interpret fuel r) ∧
      stmtsLike ((s.unresolved p).likenessOn (Moves c (linesBefore first)) (s.unresolved r))
        p.statements r₁ ∧
      stmtsLike ((t.unresolved q).likenessOn (Moves c (linesBefore first)) (s.unresolved r))
        q.statements r₂ := by
  obtain ⟨s₁, hs₁⟩ := hresolved
  obtain ⟨hqread, ht₁⟩ := accepted?_eq_some hq
  have hqsource : Program.ofSource p.nextId (blankLines c ++ second) = .ok q := hnext ▸ hqread
  obtain ⟨r, hr, hlike, hnumbered, hnumbered'⟩ := Program.ofSource_append_like hp hqsource
  have hpresolved : resolveProgram p.statements s.machine.distances =
      .ok (s.unresolved p).machine.distances :=
    resolveProgram_eq_ok.mpr ⟨(resolved_iff.mp hs₁).1, rfl⟩
  have hqresolved : resolveProgram q.statements (s.unresolved p).machine.distances =
      .ok (t.unresolved q).machine.distances := by
    rw [← hdistances]
    exact resolveProgram_eq_ok.mpr ⟨(resolved_iff.mp ht₁).1, rfl⟩
  obtain ⟨hempty, hboth⟩ := resolveProgram_eq_ok.mp
    (resolveProgram_append (reading_ok hp).1 (reading_ok hqread).1 hpresolved hqresolved)
  have hstart : Scoping.Like (.ofCode
      (Zipped (stmtsIds (p.statements ++ q.statements)) (stmtsIds r.statements))
      (Moves c (linesBefore first))) .start .start := .start _
  have hscoping := resolveStmts_like .top hstart _ hlike
  have hplaces : ∀ id id', Zipped (stmtsIds (p.statements ++ q.statements)) (stmtsIds r.statements)
      id id' → s.machine.distances.find? id' = s.machine.distances.find? id := by
    intro id id' hid
    obtain ⟨hmem, hmem'⟩ := Zipped.mem hid
    rw [hkept.unplaced id (hnumbered.bounds id hmem).1,
      hkept.unplaced id' (hnumbered'.bounds id' hmem').1]
  obtain ⟨r₁, r₂, hstatements, hlike₁, hlike₂⟩ := stmtsLike_append hlike
  have hfind : ∀ id id', Zipped (stmtsIds (p.statements ++ q.statements)) (stmtsIds r.statements)
      id id' → id' < r.nextId ∧ (s.unresolved r).machine.distances.find? id' =
        (t.unresolved q).machine.distances.find? id := by
    intro id id' hid
    rw [← hboth]
    exact ⟨(hnumbered'.bounds id' (Zipped.mem hid).2).2,
      hscoping.noted (Zipped.oneToOne hnumbered.nodup hnumbered'.nodup _) hplaces hid⟩
  refine ⟨r, r₁, r₂, hr, hstatements, fun fuel => ?_,
    stmtsLike_likenessOn hlike₁ (fun id hid => ((reading_ok hp).2.bounds id hid).2) ?_,
    stmtsLike_likenessOn hlike₂ (fun id hid => ((reading_ok hqread).2.bounds id hid).2)
      fun id id' _ => hfind id id'⟩
  · rw [runProgram_eq, isEmpty_eq_of_forall₂ hscoping.errors, hempty]
    rfl
  · intro id id' hlt hid
    obtain ⟨hlt', hd⟩ := hfind id id' hid
    refine ⟨hlt', hd.trans ?_⟩
    rw [unresolved_find? hqread (.inl (hnext ▸ hlt)), hdistances]

/-- What a step shows and leaves, and what one does that has printed something before, in two
sessions with like lines. -/
def ShowsBehind (line : Nat → Nat → Prop) (before : Console) :
    Option (Outcome × Session) → Option (Outcome × Session) → Prop :=
  Option.Rel fun r r' => r'.1.output = before.output ++ r.1.output ∧
    List.Forall₂ (Diagnostic.Like line) r.1.errors r'.1.errors ∧ r.2.LikeOn line before.printed r'.2

/-- A like program shows and leaves the same behind what a machine has printed before, if it begins
to run where the machine is like the session. -/
theorem interpret_behind {u u' : Session} {m' : Machine} {line : Nat → Nat → Prop}
    {before : Console} {r : Program} {ss' : List Stmt} {fuel fuel' : Nat}
    (h : Machine.Like (· = u.likenessOn line ⟨m', r.nextId⟩) before.printed u.machine.cleared m')
    (hq : u.nextId = q.nextId)
    (hss : stmtsLike (u.likenessOn line ⟨m', r.nextId⟩) q.statements ss')
    (hrun : u'.machine.cleared.interpret fuel' r.statements = m'.interpret fuel ss') :
    ShowsBehind line before (u.interpret fuel q) (u'.interpret fuel' r) := by
  have hboth := interpret_like (K := (· = u.likenessOn line ⟨m', r.nextId⟩)) rfl h hss fuel
  have hd : ∀ error? m₁, u.machine.cleared.interpret fuel q.statements = some (error?, m₁) →
      m₁.distances = u.machine.distances := fun _ _ => interpret_distances
  have hd' : ∀ error? m₁, m'.interpret fuel ss' = some (error?, m₁) →
      m₁.distances = m'.distances := fun _ _ => interpret_distances
  unfold Session.interpret
  rw [hrun]
  generalize u.machine.cleared.interpret fuel q.statements = r? at hboth hd
  generalize m'.interpret fuel ss' = r'? at hboth hd'
  cases hboth with
  | none => exact .none
  | @some r₁ r₁' hr =>
    obtain ⟨error?, m₁⟩ := r₁
    obtain ⟨error'?, m₁'⟩ := r₁'
    obtain ⟨herror, hm₁⟩ := hr
    have hlikeness : likenessOn line ⟨m₁, q.nextId⟩ ⟨m₁', r.nextId⟩ =
        u.likenessOn line ⟨m', r.nextId⟩ := by
      unfold likenessOn
      rw [hd _ _ rfl, hd' _ _ rfl, hq]
    refine .some ⟨Console.output_append hm₁.printed, ?_, ?_⟩
    · cases herror with
      | none => exact .nil
      | some herror => exact .cons (herror.imp fun _ _ => lines_likenessOn) .nil
    · unfold LikeOn
      rw [hlikeness]
      exact hm₁

/-- The program of both texts does what the two programs do, one behind the other. -/
theorem Reachable.run_joined (hs : Reachable maxDepth input sink clock memory history s)
    (hfirst : s.run fuel first = some (⟨output, []⟩, t)) :
    output = t.machine.console.output ∧ ∃ more, ∀ second c q t₁,
      t.accepted? (.program (blankLines c ++ second)) = some (q, t₁) → ∀ fuel', fuel ≤ fuel' →
      ShowsBehind (Moves c (linesBefore first)) t.machine.console
        (t.run fuel' (blankLines c ++ second))
        (s.run (fuel' + more) (first ++ "\n" ++ second)) := by
  obtain ⟨p, hp, hresolved, -, m, hx, rfl, houtput⟩ := hs.run_succeeded hfirst
  refine ⟨houtput, p.statements.length, fun second c q t₁ hq fuel' hle => ?_⟩
  have hleads := ((Eval.steadies fuel).executeAll p.statements).leads_ok hx
  obtain ⟨r, r₁, r₂, hr, hstatements, hruns, hlike₁, hlike₂⟩ :=
    joined_resolved hs.kept hp hresolved rfl hleads.distances hq
  obtain ⟨hqread, ht₁⟩ := accepted?_eq_some hq
  have halike : s.LikeOn Eq #[] s := hs.alike.like
  have hstart : (s.unresolved p).LikeOn (Moves c (linesBefore first)) #[] (s.unresolved r) :=
    halike.extends (by rintro n _ rfl; exact .refl _ _ n) (extends_unresolved hp)
      (extends_unresolved hr)
  have hcleared : Machine.Like
      (· = (s.unresolved p).likenessOn (Moves c (linesBefore first)) (s.unresolved r)) #[]
      (s.unresolved p).machine.cleared (s.unresolved r).machine.cleared :=
    { hstart with printed := rfl }
  have hrun := (Eval.goInStep (· = (s.unresolved p).likenessOn (Moves c (linesBefore first))
    (s.unresolved r)) #[] fuel).executeAll rfl _ _ hlike₁ _ _ hcleared
  obtain ⟨_, m', hx', hflow, hm⟩ := hrun.ok hx
  cases hflow
  have hleads' := ((Eval.steadies fuel).executeAll r₁).leads_ok hx'
  have hlikeness : likenessOn (Moves c (linesBefore first)) ⟨m, p.nextId⟩ ⟨m', r.nextId⟩ =
      (s.unresolved p).likenessOn (Moves c (linesBefore first)) (s.unresolved r) := by
    unfold likenessOn
    rw [hleads.distances, hleads'.distances]
    rfl
  have hsecond : LikeOn (Moves c (linesBefore first)) #[] ⟨m, p.nextId⟩ ⟨m', r.nextId⟩ := by
    unfold LikeOn
    rw [hlikeness]
    exact hm
  have hsecond := hsecond.extends (fun _ _ hl => hl) (extends_unresolved hqread)
    (.refl ⟨m', r.nextId⟩)
  have hprinted : m'.console.printed = m.console.printed := hm.printed.trans Array.empty_append
  have hbefore : Machine.Like (· = likenessOn (Moves c (linesBefore first))
      (Session.unresolved ⟨m, p.nextId⟩ q) ⟨m', r.nextId⟩) m.console.printed
      (Session.unresolved ⟨m, p.nextId⟩ q).machine.cleared m' :=
    { hsecond with printed := hprinted.trans Array.append_empty.symm }
  have hcode : stmtsLike (likenessOn (Moves c (linesBefore first))
      (Session.unresolved ⟨m, p.nextId⟩ q) ⟨m', r.nextId⟩) q.statements r₂ := by
    have hd : m'.distances = (s.unresolved r).machine.distances := hleads'.distances
    unfold likenessOn
    rw [hd]
    exact hlike₂
  have hlength : r₁.length = p.statements.length :=
    (stmtsLike_iff.mp hlike₁).length_eq.symm
  have hcontinues : (s.unresolved r).machine.cleared.interpret (fuel' + p.statements.length)
      r.statements = m'.interpret fuel' r₂ := by
    unfold Machine.interpret
    rw [hstatements, ← hlength, Eval.executeAll_append hle r₂ hx']
  have hsecondRun : Session.run fuel' ⟨m, p.nextId⟩ (blankLines c ++ second) =
      (Session.unresolved ⟨m, p.nextId⟩ q).interpret fuel' q :=
    enter_of_unresolved hq fuel'
  have hjoinedRun : s.run (fuel' + p.statements.length) (first ++ "\n" ++ second) =
      (s.unresolved r).interpret (fuel' + p.statements.length) r := by
    have hrun := enter_eq (fuel' + p.statements.length) s (.program (first ++ "\n" ++ second))
    rw [hr] at hrun
    exact hrun.trans (hruns _)
  rw [hsecondRun, hjoinedRun]
  exact interpret_behind hbefore rfl hcode hcontinues

/-- Whether a text fails on a line of its own, which empty lines in front of it move further on. -/
def FailsOnOwnLine (fuel : Nat) (s : Session) (source : String) (errors : List Diagnostic) : Prop :=
  ∀ count, (s.run fuel (blankLines count ++ source)).map (·.1.errors) =
    some (errors.map (·.moved count))

/-- Whether a text fails in code that was read before, which empty lines do not move. -/
def FailsOnEarlierLine (fuel : Nat) (s : Session) (source : String) (errors : List Diagnostic) :
    Prop :=
  ∀ count, (s.run fuel (blankLines count ++ source)).map (·.1.errors) = some errors

/-- Where each number of empty lines in front of a text leaves its error alone or moves it, all of
them do the same. -/
theorem fails_on_line {errors errors' : List Diagnostic} {count : Nat} (hcount : 0 < count)
    (hone : errors = [] ∨ ∃ d, errors = [d])
    (h : List.Forall₂ (Diagnostic.Like (Moves 0 count)) errors errors')
    (hlines : ∀ c, ∃ found, (s.run fuel (blankLines c ++ second)).map (·.1.errors) = some found ∧
      List.Forall₂ (Diagnostic.Like (Moves 0 c)) errors found ∧
      List.Forall₂ (Diagnostic.Like (Moves c count)) found errors') :
    errors' = errors.map (·.moved count) ∧ s.FailsOnOwnLine fuel second errors ∨
      errors' = errors ∧ s.FailsOnEarlierLine fuel second errors := by
  rcases hone with rfl | ⟨d, rfl⟩
  · cases h
    refine .inr ⟨rfl, fun c => ?_⟩
    obtain ⟨found, hfound, hnone, -⟩ := hlines c
    cases hnone
    exact hfound
  · obtain ⟨d', _, hd, hnil, rfl⟩ := List.forall₂_cons_left_iff.mp h
    cases hnil
    have hat : ∀ c, ∃ e, (s.run fuel (blankLines c ++ second)).map (·.1.errors) = some [e] ∧
        e.Like (Moves c count) d' ∧ (e = d ∨ e = d.moved c) := by
      intro c
      obtain ⟨found, hfound, hfirst, hsecond⟩ := hlines c
      obtain ⟨e, _, he, hnil, rfl⟩ := List.forall₂_cons_left_iff.mp hfirst
      cases hnil
      obtain ⟨he', -⟩ := List.forall₂_cons.mp hsecond
      refine ⟨e, hfound, he', ?_⟩
      rcases he.moved_cases with rfl | ⟨d₁, hd₁, rfl⟩
      · exact .inl rfl
      · rw [Diagnostic.moved_zero] at hd₁
        exact .inr (hd₁ ▸ rfl)
    by_cases heq : d' = d
    · subst heq
      refine .inr ⟨rfl, fun c => ?_⟩
      obtain ⟨e, he, hlike, hcases⟩ := hat c
      rcases hcases with rfl | hmoved
      · exact he
      · rcases hlike.moved_cases with rfl | ⟨d₁, hd₁, hd'⟩
        · exact he
        · have hsame := Diagnostic.moved_inj (hmoved.symm.trans hd₁)
          rw [← hsame] at hd'
          rw [he, hmoved, Diagnostic.moved_eq_self hcount hd'.symm c]
    · have hd' : d' = d.moved count := by
        rcases hd.moved_cases with h | ⟨d₁, hd₁, hd'⟩
        · exact (heq h).elim
        · rw [Diagnostic.moved_zero] at hd₁
          rw [hd', hd₁]
      refine .inl ⟨congrArg (fun d => [d]) hd', fun c => ?_⟩
      obtain ⟨e, he, hlike, hcases⟩ := hat c
      rcases hcases with rfl | rfl
      · rcases hlike.moved_cases with h | ⟨d₁, hd₁, h⟩
        · exact (heq h).elim
        · rw [hd'] at h
          rw [← Diagnostic.moved_inj h] at hd₁
          exact he.trans (congrArg (fun e => some [e]) hd₁)
      · exact he

theorem blankLines_zero_append (source : String) : blankLines 0 ++ source = source :=
  String.empty_append

/-- Empty lines do not matter to the analysis. -/
theorem Alike.accepted_blankLines {t₁ : Session} (ht : t.Alike t)
    (ha : t.accepted? (.program second) = some (q, t₁)) (c : Nat) :
    ∃ q' t₁', t.accepted? (.program (blankLines c ++ second)) = some (q', t₁') := by
  obtain ⟨hread, hresolved⟩ := accepted?_eq_some ha
  obtain ⟨_, hkept⟩ := ht.left
  have hmoved := Program.ofSource_blankLines_like t.nextId t.nextId 0 c second
  rw [blankLines_zero_append] at hmoved
  have hsource : Program.ofSource t.nextId second = .ok q := hread
  rw [hsource] at hmoved
  obtain ⟨q', hq', -⟩ := hmoved.ok
  have hlike : t.LikeOn Eq #[] t := ht.like
  have hlike : t.LikeOn (Moves 0 c) #[] t :=
    hlike.extends (by rintro n _ rfl; exact .refl _ _ n) (.refl t) (.refl t)
  rw [hq'] at hmoved
  have hreads : t.reading (.program (blankLines c ++ second)) = .ok q' := hq'
  have herrors := (hlike.unresolved hkept hkept hread hreads hmoved).2.2
  rw [(resolved_iff.mp hresolved).1] at herrors
  have hresolved' : t.resolved q' = .ok ⟨(t.unresolved q').machine, t.nextId⟩ :=
    resolved_iff.mpr ⟨List.forall₂_nil_left_iff.mp herrors, rfl⟩
  refine ⟨q', ⟨(t.unresolved q').machine, t.nextId⟩, ?_⟩
  unfold accepted?
  rw [hreads]
  dsimp only
  rw [hresolved']

/-- A program that runs behind another that has ended without an error shows and leaves what the
program of both texts does, the second on a new line. Its error is as many lines further on as its
text is if it lies in that text, and on the same line if it lies in code that was read before. -/
theorem Reachable.run_behind (hs : Reachable maxDepth input sink clock memory history s)
    (hfirst : s.run fuel first = some (⟨output, []⟩, t))
    (hsecond : (t.accepted? (.program second)).isSome = true) :
    ∃ more, ∀ fuel', fuel ≤ fuel' → Option.Rel (fun r r' =>
      r'.1.output = output ++ r.1.output ∧
      (r'.1.errors = r.1.errors.map (·.moved (linesBefore first)) ∧
          t.FailsOnOwnLine fuel' second r.1.errors ∨
        r'.1.errors = r.1.errors ∧ t.FailsOnEarlierLine fuel' second r.1.errors) ∧
      r.2.LikeOn (Moves 0 (linesBefore first)) t.machine.console.printed r'.2)
      (t.run fuel' second) (s.run (fuel' + more) (first ++ "\n" ++ second)) := by
  obtain ⟨houtput, more, hjoined⟩ := hs.run_joined hfirst
  obtain ⟨_, -, -, ht, -⟩ := hs.run_succeeded hfirst
  obtain ⟨⟨q, t₁⟩, ha⟩ := Option.isSome_iff_exists.mp hsecond
  obtain ⟨_, hkept⟩ := ht.alike.left
  refine ⟨more, fun fuel' hle => ?_⟩
  have hboth := hjoined second 0 q t₁ (by rw [blankLines_zero_append]; exact ha) fuel' hle
  rw [blankLines_zero_append] at hboth
  have hrun : t.run fuel' second = (t.unresolved q).interpret fuel' q :=
    enter_of_unresolved ha fuel'
  have hlines : ∀ c, ShowsBehind (Moves c (linesBefore first)) t.machine.console
        (t.run fuel' (blankLines c ++ second)) (s.run (fuel' + more) (first ++ "\n" ++ second)) ∧
      ShowsOn (Moves 0 c) (t.run fuel' second) (t.run fuel' (blankLines c ++ second)) := by
    intro c
    obtain ⟨q', t₁', ha'⟩ := ht.alike.accepted_blankLines ha c
    have hlike : t.LikeOn Eq #[] t := ht.alike.like
    have hlike : t.LikeOn (Moves 0 c) #[] t :=
      hlike.extends (by rintro n _ rfl; exact .refl _ _ n) (.refl t) (.refl t)
    have hread := Program.ofSource_blankLines_like t.nextId t.nextId 0 c second
    rw [blankLines_zero_append] at hread
    have hread : Program.ReadAlike (.renumbering t.nextId t.nextId (Moves 0 c))
      (t.reading (.program second)) (t.reading (.program (blankLines c ++ second))) := hread
    exact ⟨hjoined second c q' t₁' ha' fuel' hle, hlike.enter hkept hkept hread fuel'⟩
  generalize s.run (fuel' + more) (first ++ "\n" ++ second) = joined at hboth hlines
  cases hr : t.run fuel' second with
  | none =>
    rw [hr] at hboth
    cases hboth
    exact .none
  | some r =>
    rw [hr] at hboth hlines hrun
    cases hboth with
    | @some _ r' hboth =>
      obtain ⟨hprinted, herrors, hlike⟩ := hboth
      refine .some ⟨houtput ▸ hprinted, ?_, hlike⟩
      have hone : r.1.errors = [] ∨ ∃ d, r.1.errors = [d] := by
        rcases errors_of_interpret hrun.symm with hnil | ⟨d, hd, -⟩
        · exact .inl hnil
        · exact .inr ⟨d, hd⟩
      refine fails_on_line (Nat.succ_pos _) hone herrors fun c => ?_
      obtain ⟨hbehind, hmoved⟩ := hlines c
      generalize t.run fuel' (blankLines c ++ second) = found at hbehind hmoved
      cases hmoved with
      | some hmoved =>
        cases hbehind with
        | some hbehind => exact ⟨_, rfl, hmoved.1.errors, hbehind.2.1⟩

/-- The second of two programs negates a variable of the first, which has no number. -/
theorem run_behind_negation : ∃ t more r r',
    (start 1024 [] .open fun _ => 0).run 50 "var a;" = some (⟨"", []⟩, t) ∧
    (t.accepted? (.program "-a;")).isSome = true ∧
    t.run 50 "-a;" = some r ∧ r.1 = ⟨"", [.runtime 1 .operandNotNumber]⟩ ∧
    (start 1024 [] .open fun _ => 0).run (50 + more) ("var a;" ++ "\n" ++ "-a;") = some r' ∧
    r'.1.output = "" ++ r.1.output ∧
    (r'.1.errors = r.1.errors.map (·.moved (linesBefore "var a;")) ∧
        t.FailsOnOwnLine 50 "-a;" r.1.errors ∨
      r'.1.errors = r.1.errors ∧ t.FailsOnEarlierLine 50 "-a;" r.1.errors) ∧
    r.2.LikeOn (Moves 0 (linesBefore "var a;")) t.machine.console.printed r'.2 := by
  have hrun : ((start 1024 [] .open fun _ => 0).run 50 "var a;").map
      (fun r => (r.1, (r.2.accepted? (.program "-a;")).isSome, (r.2.run 50 "-a;").map (·.1))) =
        some (⟨"", []⟩, true, some ⟨"", [.runtime 1 .operandNotNumber]⟩) := by
    decide +kernel
  obtain ⟨⟨o, t⟩, hfirst, hsees⟩ := Option.map_eq_some_iff.mp hrun
  simp only [Prod.mk.injEq] at hsees
  obtain ⟨rfl, hsecond, hfails⟩ := hsees
  obtain ⟨r, hr, ho⟩ := Option.map_eq_some_iff.mp hfails
  obtain ⟨more, hbehind⟩ := Reachable.run_behind .start hfirst hsecond
  have hboth := hbehind 50 (Nat.le_refl _)
  rw [hr] at hboth
  generalize hjoined : (start 1024 [] .open fun _ => 0).run (50 + more)
    ("var a;" ++ "\n" ++ "-a;") = joined at hboth
  cases hboth with
  | some hboth => exact ⟨t, more, r, _, hfirst, hsecond, hr, ho, hjoined, hboth⟩

/-- An error in a function of the first program is on the same line in the program of both texts,
and not on a later one. -/
theorem run_behind_earlier_line : ∃ t r r',
    (start 1024 [] .open fun _ => 0).run 50 "fun f() \x7b return -nil; \x7d" =
      some (⟨"", []⟩, t) ∧
    (t.accepted? (.program "f();")).isSome = true ∧ t.run 50 "f();" = some r ∧
    (start 1024 [] .open fun _ => 0).run 50
      ("fun f() \x7b return -nil; \x7d" ++ "\n" ++ "f();") = some r' ∧
    r.1.errors = [.runtime 1 .operandNotNumber] ∧ r'.1.errors = [.runtime 1 .operandNotNumber] ∧
    r'.1.errors ≠ r.1.errors.map (·.moved (linesBefore "fun f() \x7b return -nil; \x7d")) := by
  have hrun : ((start 1024 [] .open fun _ => 0).run 50 "fun f() \x7b return -nil; \x7d").map
      (fun r => (r.1, (r.2.accepted? (.program "f();")).isSome, (r.2.run 50 "f();").map (·.1))) =
        some (⟨"", []⟩, true, some ⟨"", [.runtime 1 .operandNotNumber]⟩) := by
    decide +kernel
  have hboth : ((start 1024 [] .open fun _ => 0).run 50
      ("fun f() \x7b return -nil; \x7d" ++ "\n" ++ "f();")).map (·.1) =
        some ⟨"", [.runtime 1 .operandNotNumber]⟩ := by
    decide +kernel
  obtain ⟨⟨o, t⟩, hfirst, hsees⟩ := Option.map_eq_some_iff.mp hrun
  simp only [Prod.mk.injEq] at hsees
  obtain ⟨rfl, hsecond, hfails⟩ := hsees
  obtain ⟨r, hr, ho⟩ := Option.map_eq_some_iff.mp hfails
  obtain ⟨r', hr', ho'⟩ := Option.map_eq_some_iff.mp hboth
  refine ⟨t, r, r', hfirst, hsecond, hr, hr', by rw [ho], by rw [ho'], ?_⟩
  rw [ho, ho']
  decide

end Session

end LoxLang
