import LoxLang.Proofs.Classes.Upkeep

/-!
Sessions with all that has happened in them. Whatever has run before, the machine of a session holds
only values that have come about, so that every point of the next run is tracked.
-/

namespace LoxLang

namespace Session

/-- Where the run of a program starts. -/
def starting (s : Session) (fuel : Nat) (program : Program) : Point :=
  ⟨fuel, .executeAll program.statements, s.machine.cleared⟩

/-- The points of earlier runs and of the run of a program. -/
def visited (past : Point → Prop) (s : Session) (fuel : Nat) (program : Program) (a : Point) :
    Prop :=
  past a ∨ ∃ underway, Reaches (s.starting fuel program) underway a

/-- The sessions that come of one by entries and by reading lines of the input, each with the
statements that have run in it and the points that their runs have come to. -/
inductive Lived (maxDepth : Nat) (input : List UInt8) (sink : Sink) (clock : Nat → Nat)
    (memory : Memory) : List Stmt → (Point → Prop) → Session → Prop
  | start : Lived maxDepth input sink clock memory [] (fun _ => False)
      (.start maxDepth input sink clock memory)
  | ran {history past s s' fuel entry program s₁ outcome}
      (h : Lived maxDepth input sink clock memory history past s)
      (ha : s.accepted? entry = some (program, s₁)) (hr : s.enter fuel entry = some (outcome, s')) :
      Lived maxDepth input sink clock memory (history ++ program.statements)
        (s₁.visited past fuel program) s'
  | refused {history past s s' fuel entry outcome}
      (h : Lived maxDepth input sink clock memory history past s) (ha : s.accepted? entry = none)
      (hr : s.enter fuel entry = some (outcome, s')) :
      Lived maxDepth input sink clock memory history past s'
  | read {history past s} (h : Lived maxDepth input sink clock memory history past s) :
      Lived maxDepth input sink clock memory history past s.readLine.2

/-- What is known where a session stands. -/
def chronicle (history : List Stmt) (past : Point → Prop) (s : Session) : Chronicle :=
  ⟨past, Known history s.machine.distances⟩

/-- What is known in the run of a program. -/
def running (history : List Stmt) (past : Point → Prop) (s : Session) (fuel : Nat)
    (program : Program) : Chronicle :=
  s.chronicle (history ++ program.statements) (s.visited past fuel program)

end Session

/-- Nothing that a value can be found in has changed but numbers that are taken. -/
theorem Machine.Born.congr {H H' : Chronicle} {m m' : Machine} (h : m.Born H)
    (hH : H'.Continues H) (hscopes : m'.scopes = m.scopes) (hfields : m'.fields = m.fields)
    (harrays : m'.arrays = m.arrays) (hid : m'.nextId = m.nextId) : m'.Born H' := by
  have hgrows : m.Grows (fun _ _ _ => False) m' :=
    ⟨Nat.le_of_eq hid.symm, Nat.le_of_eq (congrArg _ hfields.symm), fun _ _ _ _ hv => by
      rwa [hscopes], fun id name => .inl (field?_congr hfields id name)⟩
  refine h.later hH hgrows fun v hv => .inl ?_
  cases hv with
  | «variable» hv => exact .variable (hscopes ▸ hv)
  | field hv => exact .field ((field?_congr hfields _ _).symm.trans hv)
  | element he hv => exact .element (harrays ▸ he) hv

namespace Session

variable {maxDepth : Nat} {input : List UInt8} {sink : Sink} {clock : Nat → Nat} {memory : Memory}
  {history : List Stmt} {past : Point → Prop} {s s' : Session} {entry : Entry} {program : Program}

theorem Lived.reachable (h : Lived maxDepth input sink clock memory history past s) :
    Reachable maxDepth input sink clock memory history s := by
  induction h with
  | start => exact .start
  | ran _ ha hr ih => exact ih.ran ha hr
  | refused _ ha hr ih => exact ih.refused ha hr
  | read _ ih => exact ih.read

/-- At the start there are only the natives. -/
theorem start_holds {v : Value} (h : (start maxDepth input sink clock memory).machine.Holds v) :
    ∃ id, ∃ n ∈ natives, v = .callable (.native id n) := by
  cases h with
  | @«variable» scope name hv =>
    have hscopes : (start maxDepth input sink clock memory).machine.scopes = Scopes.empty.push
        (((Table.empty.insert "clock" (.callable (.native 0 .clock))).insert "input"
          (.callable (.native 1 .input))).insert "Array" (.callable (.native 2 .array))) := rfl
    rw [hscopes, Scopes.value?_push] at hv
    split at hv
    · rw [Table.find?_insert, Table.find?_insert, Table.find?_insert] at hv
      split at hv
      · cases hv
        exact ⟨2, .array, by decide, rfl⟩
      · split at hv
        · cases hv
          exact ⟨1, .input, by decide, rfl⟩
        · split at hv <;> cases hv
          exact ⟨0, .clock, by decide, rfl⟩
    · cases hv
  | field hv => cases hv
  | element he hv => cases he

theorem start_born (H : Chronicle) : (start maxDepth input sink clock memory).machine.Born H := by
  intro v hv
  obtain ⟨id, n, -, rfl⟩ := start_holds hv
  trivial

/-- Where the run of an accepted program starts, all is known of the point. -/
theorem Kept.tracked (h : Kept history s) (hb : s.machine.Born (s.chronicle history past))
    (ha : s.accepted? entry = some (program, s')) (fuel : Nat) :
    (s'.starting fuel program).Tracked (s'.running history past fuel program) := by
  obtain ⟨hformed, -, -, hs'⟩ := h.resolved ha
  have hcontinues : (s'.running history past fuel program).Continues (s.chronicle history past) :=
    ⟨fun _ => .inl, h.known ha⟩
  refine ⟨fun underway b hr => .inr ⟨underway, hr⟩, hb.congr hcontinues ?_ ?_ ?_ ?_,
    .top, Setting.fits_top, Setting.rooted_top, hformed, h.fresh ha, nofun⟩
  all_goals
    rw [hs']
    rfl

/-- However a run ends, what the machine holds has come about. -/
theorem Kept.born_ran (h : Kept history s) (hb : s.machine.Born (s.chronicle history past))
    (ha : s.accepted? entry = some (program, s')) {fuel : Nat} {outcome : Outcome} {s'' : Session}
    (hr : s.enter fuel entry = some (outcome, s'')) :
    s''.machine.Born (s''.chronicle (history ++ program.statements)
      (s'.visited past fuel program)) := by
  have hkeeps : Eval.Keeps _ _ _ (Eval.executeAll fuel program.statements) s'.machine.cleared :=
    (h.tracked hb ha fuel).keeps
  rw [enter_of_accepted ha] at hr
  obtain ⟨m, rfl, hm⟩ := interpret_eq_some hr
  obtain ⟨hp, hborn⟩ : s'.machine.cleared.Precedes (Point.Stores (s'.starting fuel program)) m ∧
      m.Born (s'.running history past fuel program) := by
    obtain ⟨hp, hborn, -⟩ := hkeeps
    rcases hm with ⟨flow, hx⟩ | ⟨d, hx⟩
    · rw [hx] at hp hborn
      exact ⟨hp, hborn⟩
    · rw [hx] at hp hborn
      exact ⟨hp, hborn⟩
  have hdistances : m.distances = s'.machine.distances := hp.distances
  refine hborn.congr ⟨fun _ => id, fun mention hmention => ?_⟩ rfl rfl rfl rfl
  show Known _ m.distances mention
  rw [hdistances]
  exact hmention

theorem Kept.born_rejected (h : Kept history s) (hb : s.machine.Born (s.chronicle history past))
    (entry : Entry) :
    (s.rejected entry).machine.Born ((s.rejected entry).chronicle history past) := by
  unfold Session.rejected
  cases hread : s.reading entry with
  | error errors => exact hb
  | ok program =>
    exact hb.congr ⟨fun _ => id, h.known_unresolved hread⟩ rfl rfl rfl rfl

/-- The machine of every session holds only values that have come about in what has happened. -/
theorem Lived.born (h : Lived maxDepth input sink clock memory history past s) :
    s.machine.Born (s.chronicle history past) := by
  induction h with
  | start => exact start_born _
  | ran h ha hr ih => exact h.reachable.kept.born_ran ih ha hr
  | refused h ha hr ih =>
    obtain ⟨errors, he⟩ := enter_of_refused ha _
    rw [he] at hr
    cases hr
    exact h.reachable.kept.born_rejected ih _
  | read h ih => exact ih.congr (.refl _) rfl rfl rfl rfl

/-- Every point of a run in a session is tracked. -/
theorem Lived.tracked (h : Lived maxDepth input sink clock memory history past s)
    (ha : s.accepted? entry = some (program, s')) {fuel : Nat} {underway : List (Nat × String)}
    {a : Point} (hr : Reaches (s'.starting fuel program) underway a) :
    a.Tracked (s'.running history past fuel program) :=
  (hr.arrives (h.reachable.kept.tracked h.born ha fuel)).tracked

/-- The machine of every point of a run has the distances that were noted for the program. -/
theorem Lived.distances (h : Lived maxDepth input sink clock memory history past s)
    (ha : s.accepted? entry = some (program, s')) {fuel : Nat} {underway : List (Nat × String)}
    {a : Point} (hr : Reaches (s'.starting fuel program) underway a) :
    a.machine.distances = s'.machine.distances := by
  obtain ⟨pending, hstart⟩ := h.reachable.kept.followed ha
  obtain ⟨_, _, _, -, hstands, -⟩ := hr.followed (Known.settled _ _) hstart
  exact hstands.linked.distances

/-- What is mentioned in the statements of a session is allowed, and is placed as the machine of
every point has it. -/
theorem Lived.settled (h : Lived maxDepth input sink clock memory history past s)
    (ha : s.accepted? entry = some (program, s')) {fuel : Nat} {underway : List (Nat × String)}
    {a : Point} (hr : Reaches (s'.starting fuel program) underway a) :
    ∀ mention, (s'.running history past fuel program).mentions mention →
      mention.Allowed ∧ mention.Placed a.machine.distances := by
  have hdistances : a.machine.distances = s'.machine.distances := h.distances ha hr
  rw [hdistances]
  exact Known.settled (history ++ program.statements) s'.machine.distances

end Session

end LoxLang
