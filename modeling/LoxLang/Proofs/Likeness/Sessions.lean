import LoxLang.Proofs.Likeness.Runs
import LoxLang.Proofs.Running.Limits
import LoxLang.Proofs.Running.Sessions
import LoxLang.Proofs.Scoping.Renumbering

/-!
Sessions that have run the same programs but numbered their occurrences otherwise. Whatever they are
given next shows the same in both, and leaves them so.
-/

namespace LoxLang.Session

/-- Code of two sessions whose occurrences are as far from their bindings in one as in the other. -/
def likeness (s s' : Session) : Likeness :=
  .ofCode (fun id id' => id < s.nextId ∧ id' < s'.nextId ∧
    s'.machine.distances.find? id' = s.machine.distances.find? id) Eq

/-- Code of two sessions with like lines, whose occurrences are as far from their bindings in one as
in the other. -/
def likenessOn (line : Nat → Nat → Prop) (s s' : Session) : Likeness :=
  .ofCode (fun id id' => id < s.nextId ∧ id' < s'.nextId ∧
    s'.machine.distances.find? id' = s.machine.distances.find? id) line

/-- Sessions with like code in like machines, where one has printed something before. -/
def LikeOn (line : Nat → Nat → Prop) (before : Array String) (s s' : Session) : Prop :=
  Machine.Like (· = s.likenessOn line s') before s.machine s'.machine

/-- Sessions with like code in like machines. -/
def Like (s s' : Session) : Prop :=
  Machine.Like (· = s.likeness s') #[] s.machine s'.machine

/-- A session that differs from an earlier one in what is noted of new occurrences only. -/
structure Extends (s t : Session) : Prop where
  nextId : s.nextId ≤ t.nextId
  machine : t.machine = { s.machine with distances := t.machine.distances }
  distances : ∀ id, id < s.nextId → t.machine.distances.find? id = s.machine.distances.find? id

variable {s s' t t' : Session} {history : List Stmt} {entry entry' : Entry} {program : Program}
  {line line' : Nat → Nat → Prop} {before : Array String}

theorem Extends.refl (s : Session) : s.Extends s :=
  ⟨Nat.le_refl _, rfl, fun _ _ => rfl⟩

/-- What is noted of new occurrences does not matter. -/
theorem LikeOn.extends (h : s.LikeOn line before s') (hl : ∀ n n', line n n' → line' n n')
    (ht : s.Extends t) (ht' : s'.Extends t') : t.LikeOn line' before t' := by
  have hcovered : Likeness.Covered (· = s.likenessOn line s') (· = t.likenessOn line' t') := by
    rintro L rfl
    refine ⟨_, rfl, fun id id' _ hid => ?_, hl, fun _ _ hf => hf⟩
    obtain ⟨hlt, hlt', hd⟩ := hid
    refine ⟨Nat.lt_of_lt_of_le hlt ht.nextId, Nat.lt_of_lt_of_le hlt' ht'.nextId, ?_⟩
    rw [ht.distances id hlt, ht'.distances id' hlt', hd]
  have hagree : ∀ L, L = t.likenessOn line' t' → ∀ id id', L.occurrence id id' →
      t'.machine.distances.find? id' = t.machine.distances.find? id := by
    rintro L rfl id id' ⟨-, -, hd⟩
    exact hd
  have hm := Machine.Like.mono h hcovered hagree
  rw [← ht.machine, ← ht'.machine] at hm
  exact hm

theorem Like.extends (h : s.Like s') (ht : s.Extends t) (ht' : s'.Extends t') : t.Like t' := by
  have h : s.LikeOn Eq #[] s' := h
  exact h.extends (fun _ _ hl => hl) ht ht'

theorem extends_unread (s : Session) (source : String) : s.Extends (s.unread source) :=
  ⟨le_nextIdAfter s.nextId source, rfl, fun _ _ => rfl⟩

theorem extends_unresolved (hread : s.reading entry = .ok program) :
    s.Extends (s.unresolved program) :=
  ⟨(reading_ok hread).2.le, rfl, fun _ hid => unresolved_find? hread (.inl hid)⟩

/-- What is read with errors, or does not pass the analysis, only numbers new occurrences. -/
theorem extends_rejected (s : Session) (entry : Entry) : s.Extends (s.rejected entry) := by
  unfold rejected
  cases hread : s.reading entry with
  | error errors => exact s.extends_unread entry.source
  | ok program => exact extends_unresolved hread

/-- A line that prints its value is like another one if the expressions are. -/
theorem stmtsLike_echoing {L : Likeness} {ss ss' : List Stmt} (h : stmtsLike L ss ss') :
    stmtsLike L (echoing ss) (echoing ss') := by
  unfold echoing
  split
  · obtain ⟨_, _, rfl, ⟨e', rfl, he⟩, rfl⟩ := h
    exact ⟨_, _, rfl, ⟨_, rfl, he⟩, rfl⟩
  · rename_i hne
    split
    · obtain ⟨s, ss, hs, hss, rfl⟩ := List.forall₂_cons_right_iff.mp (stmtsLike_iff.mp h)
      obtain ⟨e, rfl, -⟩ := hs.eq_expression
      cases hss
      exact (hne e rfl).elim
    · exact h

/-- What an entry reads as hangs on the number of the next occurrence only by the numbers. -/
theorem reading_like {L : Likeness} (hL : L.Counts) (hl : ∀ n, L.line n n)
    (h : L.occurrence s.nextId s'.nextId) (entry : Entry) :
    Program.ReadAlike L (s.reading entry) (s'.reading entry) := by
  cases entry with
  | program source => exact Program.ofSource_like hL hl h source
  | line source =>
    have h := Program.ofSource_like hL hl h source
    simp only [reading]
    generalize Program.ofSource s.nextId source = read at h
    generalize Program.ofSource s'.nextId source = read' at h
    cases read with
    | error errors =>
      cases read' with
      | error errors' => exact h
      | ok program' => exact h.elim
    | ok program =>
      cases read' with
      | error errors' => exact h.elim
      | ok program' => exact ⟨stmtsLike_echoing h.1, h.2⟩

/-- What a program notes of its occurrences agrees with what a like program notes of its own. -/
theorem LikeOn.unresolved (h : s.LikeOn line before s') (hkept : Kept history s)
    {history' : List Stmt} (hkept' : Kept history' s') {program' : Program}
    (hread : s.reading entry = .ok program) (hread' : s'.reading entry' = .ok program')
    (hprograms : Program.ReadAlike (.renumbering s.nextId s'.nextId line) (.ok program)
      (.ok program')) :
    (s.unresolved program).LikeOn line before (s'.unresolved program') ∧
      stmtsLike ((s.unresolved program).likenessOn line (s'.unresolved program'))
        program.statements program'.statements ∧
      List.Forall₂ (Diagnostic.Like line)
        (resolveStmts .top program.statements .start).errors
        (resolveStmts .top program'.statements .start).errors := by
  have hnumbered := (reading_ok hread).2
  obtain ⟨hstatements, count, hnext, hnext'⟩ := hprograms
  have hstart : Scoping.Like (.renumbering s.nextId s'.nextId line) .start .start := .start _
  have hscoping := resolveStmts_like .top hstart program.statements hstatements
  have hplaces : ∀ id id', (Likeness.renumbering s.nextId s'.nextId line).occurrence id id' →
      s'.machine.distances.find? id' = s.machine.distances.find? id := by
    rintro id id' ⟨i, rfl, rfl⟩
    rw [hkept.unplaced _ (Nat.le_add_right _ _), hkept'.unplaced _ (Nat.le_add_right _ _)]
  refine ⟨h.extends (fun _ _ hl => hl) (extends_unresolved hread) (extends_unresolved hread'), ?_,
    hscoping.errors.imp fun _ _ hd => hd.like⟩
  have himplies : Likeness.Implies (fun id => id < program.nextId)
      (.renumbering s.nextId s'.nextId line)
      ((s.unresolved program).likenessOn line (s'.unresolved program')) := by
    refine ⟨fun id id' hlt hid => ?_, fun _ _ hl => hl, fun _ _ _ => trivial⟩
    have hd := hscoping.noted (Likeness.renumbering_oneToOne _ _ line) hplaces hid
    obtain ⟨i, hi, hi'⟩ := hid
    have hlt' : id' < program'.nextId := by omega
    exact ⟨hlt, hlt', hd⟩
  exact stmts_like_imp himplies _ (fun id hid => (hnumbered.bounds id hid).2) hstatements

/-- What a program does on like machines. -/
theorem interpret_like {K : Likeness → Prop} {L : Likeness} (hL : K L) {m m' : Machine}
    (hm : Machine.Like K before m m') {ss ss' : List Stmt} (hss : stmtsLike L ss ss')
    (fuel : Nat) :
    Option.Rel (fun r r' => Option.Rel (Diagnostic.Like (Lines K)) r.1 r'.1 ∧
      Machine.Like K before r.2 r'.2) (m.interpret fuel ss) (m'.interpret fuel ss') := by
  have hflushed : ∀ {m m' : Machine} {error? error'? : Option Diagnostic},
      Machine.Like K before m m' → Option.Rel (Diagnostic.Like (Lines K)) error? error'? →
      Option.Rel (Diagnostic.Like (Lines K)) (m.flushed error?) (m'.flushed error'?) := by
    intro m m' error? error'? hm herror
    unfold Machine.flushed
    rw [hm.sink]
    cases m.console.sink.flushRefusal? with
    | some reason => exact .some .io
    | none => exact herror
  have htop : ∀ {m m' : Machine}, Machine.Like K before m m' →
      Machine.Like K before m.atTop m'.atTop :=
    fun hm => { hm with environment := rfl, depth := rfl }
  have hrun := (Eval.goInStep K before fuel).executeAll hL ss ss' hss m m' hm
  unfold Machine.interpret
  rcases hrun.cases with ⟨flow, m₁, flow', m₁', hx, hx', -, hm₁⟩ |
    ⟨e, m₁, e', m₁', hx, hx', he, hm₁⟩
  · rw [hx, hx']
    exact .some ⟨hflushed hm₁ .none, htop hm₁⟩
  · rw [hx, hx']
    cases he with
    | outOfFuel => exact .none
    | failed hd => exact .some ⟨hflushed hm₁ (.some hd), htop hm₁⟩

theorem interpret_distances {fuel : Nat} {ss : List Stmt} {m m₁ : Machine}
    {error? : Option Diagnostic} (h : m.interpret fuel ss = some (error?, m₁)) :
    m₁.distances = m.distances := by
  have hsteady := (Eval.steadies fuel).executeAll ss
  unfold Machine.interpret at h
  cases hx : Eval.executeAll fuel ss m with
  | ok flow m₂ =>
    rw [hx] at h
    cases h
    exact (hsteady.leads_ok hx).distances
  | error e m₂ =>
    rw [hx] at h
    cases e with
    | outOfFuel => cases h
    | failed d =>
      cases h
      exact (hsteady.leads_error hx).distances

/-- Outcomes that differ in the lines of their errors only. -/
structure OutcomeLike (line : Nat → Nat → Prop) (o o' : Outcome) : Prop where
  output : o'.output = o.output
  errors : List.Forall₂ (Diagnostic.Like line) o.errors o'.errors

/-- What a step shows and leaves, in two sessions with like lines. -/
abbrev ShowsOn (line : Nat → Nat → Prop) :
    Option (Outcome × Session) → Option (Outcome × Session) → Prop :=
  Option.Rel fun r r' => OutcomeLike line r.1 r'.1 ∧ r.2.LikeOn line #[] r'.2

/-- What a step shows and leaves, in two sessions. -/
abbrev ShowsLike : Option (Outcome × Session) → Option (Outcome × Session) → Prop :=
  Option.Rel fun r r' => r'.1 = r.1 ∧ r.2.Like r'.2

/-- Outcomes on the same lines are the same. -/
theorem ShowsOn.showsLike {r? r'? : Option (Outcome × Session)} (h : ShowsOn Eq r? r'?) :
    ShowsLike r? r'? := by
  cases h with
  | none => exact .none
  | @some r r' h =>
    obtain ⟨⟨output, errors⟩, s⟩ := r
    obtain ⟨⟨output', errors'⟩, s'⟩ := r'
    obtain ⟨⟨rfl, herrors⟩, hs⟩ := h
    obtain rfl : errors' = errors := eq_of_forall₂ (herrors.imp fun _ _ hd => hd.eq)
    exact .some ⟨rfl, hs⟩

theorem lines_likenessOn {n n' : Nat} (h : Lines (· = s.likenessOn line s') n n') : line n n' := by
  obtain ⟨L, rfl, hl⟩ := h
  exact hl

/-- Like programs, whose numbers the sessions know, show the same. -/
theorem LikeOn.interpret (h : s.LikeOn line before s') {program' : Program}
    (hn : s.nextId = program.nextId) (hn' : s'.nextId = program'.nextId)
    (hss : stmtsLike (s.likenessOn line s') program.statements program'.statements) (fuel : Nat) :
    ShowsOn line (s.interpret fuel program) (s'.interpret fuel program') := by
  have hm : Machine.Like (· = s.likenessOn line s') #[] s.machine.cleared s'.machine.cleared :=
    { h with printed := rfl }
  have hrun := interpret_like (K := (· = s.likenessOn line s')) rfl hm hss fuel
  have hd : ∀ error? m₁, s.machine.cleared.interpret fuel program.statements =
      some (error?, m₁) → m₁.distances = s.machine.distances := fun _ _ => interpret_distances
  have hd' : ∀ error? m₁, s'.machine.cleared.interpret fuel program'.statements =
      some (error?, m₁) → m₁.distances = s'.machine.distances := fun _ _ => interpret_distances
  unfold Session.interpret
  generalize s.machine.cleared.interpret fuel program.statements = r at hrun hd
  generalize s'.machine.cleared.interpret fuel program'.statements = r' at hrun hd'
  cases hrun with
  | none => exact .none
  | @some r r' hr =>
    obtain ⟨error?, m₁⟩ := r
    obtain ⟨error'?, m₁'⟩ := r'
    obtain ⟨herror, hm₁⟩ := hr
    have hlikeness : likenessOn line ⟨m₁, program.nextId⟩ ⟨m₁', program'.nextId⟩ =
        s.likenessOn line s' := by
      unfold likenessOn
      rw [hd _ _ rfl, hd' _ _ rfl, hn, hn']
    have hprinted : m₁'.console.printed = m₁.console.printed :=
      hm₁.printed.trans Array.empty_append
    refine .some ⟨⟨?_, ?_⟩, ?_⟩
    · simp only [Console.output, hprinted]
    · cases herror with
      | none => exact .nil
      | some herror => exact .cons (herror.imp fun _ _ => lines_likenessOn) .nil
    · unfold LikeOn
      rw [hlikeness]
      exact hm₁

theorem runProgram_eq (fuel : Nat) (s : Session) (program : Program) :
    s.runProgram fuel program =
      if (resolveStmts .top program.statements .start).errors.isEmpty then
        (s.unresolved program).interpret fuel program
      else some ((s.unresolved program).refused
        (resolveStmts .top program.statements .start).errors.reverse) := by
  unfold runProgram resolved resolveProgram
  dsimp only
  cases (resolveStmts .top program.statements .start).errors.isEmpty with
  | true => rfl
  | false => rfl

/-- Sessions that are given like programs, or texts with like errors, show the same up to lines. -/
theorem LikeOn.enter (h : s.LikeOn line #[] s') (hkept : Kept history s) {history' : List Stmt}
    (hkept' : Kept history' s') (hread : Program.ReadAlike (.renumbering s.nextId s'.nextId line)
      (s.reading entry) (s'.reading entry')) (fuel : Nat) :
    ShowsOn line (s.enter fuel entry) (s'.enter fuel entry') := by
  rw [enter_eq, enter_eq]
  match hr : s.reading entry, hr' : s'.reading entry', hread with
  | .ok program, .ok program', hprograms =>
    dsimp only
    obtain ⟨hlike, hss, herrors⟩ := h.unresolved hkept hkept' hr hr' hprograms
    rw [runProgram_eq, runProgram_eq, isEmpty_eq_of_forall₂ herrors]
    split
    · exact hlike.interpret rfl rfl hss fuel
    · exact .some ⟨⟨rfl, List.rel_reverse herrors⟩, hlike⟩
  | .error errors, .error errors', hread =>
    dsimp only
    exact .some ⟨⟨rfl, hread⟩,
      h.extends (fun _ _ hl => hl) (s.extends_unread _) (s'.extends_unread _)⟩

/-- Sessions with their invariants and with like code. -/
structure Alike (s s' : Session) : Prop where
  left : ∃ history, Kept history s
  right : ∃ history, Kept history s'
  like : s.Like s'

/-- Whatever is entered, alike sessions show the same. -/
theorem Alike.enter_like (h : s.Alike s') (fuel : Nat) (entry : Entry) :
    ShowsLike (s.enter fuel entry) (s'.enter fuel entry) := by
  obtain ⟨history, hkept⟩ := h.left
  obtain ⟨history', hkept'⟩ := h.right
  have hlike : s.LikeOn Eq #[] s' := h.like
  exact (hlike.enter hkept hkept' (reading_like (Likeness.renumbering_counts _ _ Eq)
    (fun _ => rfl) ⟨0, rfl, rfl⟩ entry) fuel).showsLike

theorem Kept.enter (h : Kept history s) {fuel : Nat} {outcome : Outcome}
    (hr : s.enter fuel entry = some (outcome, t)) : ∃ history, Kept history t := by
  cases ha : s.accepted? entry with
  | none =>
    obtain ⟨errors, he⟩ := enter_of_refused ha fuel
    rw [he] at hr
    cases hr
    exact ⟨history, h.rejected entry⟩
  | some a => exact ⟨_, h.ran ha hr⟩

theorem Alike.enter (h : s.Alike s') (fuel : Nat) (entry : Entry) :
    Option.Rel (fun r r' => r'.1 = r.1 ∧ r.2.Alike r'.2) (s.enter fuel entry)
      (s'.enter fuel entry) := by
  obtain ⟨history, hkept⟩ := h.left
  obtain ⟨history', hkept'⟩ := h.right
  have hshows := h.enter_like fuel entry
  cases hr : s.enter fuel entry with
  | none =>
    rw [hr] at hshows
    generalize s'.enter fuel entry = r'? at hshows
    cases hshows
    exact .none
  | some r =>
    rw [hr] at hshows
    cases hr' : s'.enter fuel entry with
    | none =>
      rw [hr'] at hshows
      cases hshows
    | some r' =>
      rw [hr'] at hshows
      obtain ⟨outcome, t⟩ := r
      obtain ⟨outcome', t'⟩ := r'
      cases hshows with
      | some hlike => exact .some ⟨hlike.1, hkept.enter hr, hkept'.enter hr', hlike.2⟩

end LoxLang.Session
