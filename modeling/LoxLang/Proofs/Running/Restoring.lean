import LoxLang.Proofs.Running.Limits
import LoxLang.Proofs.Running.Sessions

/-!
The context of a run. Whatever is evaluated, executed or called, and however that ends, the machine
is in the environment where it was, with as many calls under way. So a program can be run statement
by statement, also behind one that fails: each starts outside all blocks and calls.
-/

namespace LoxLang

/-- Whether a result has the environment of a machine and its calls under way. -/
def Machine.RestoredBy {α : Type} (m : Machine) (r : EStateM.Result Stop Machine α) : Prop :=
  (Fueled.behind r).environment = m.environment ∧ (Fueled.behind r).depth = m.depth

theorem Eval.Steady.restored {α : Type} {x : Eval α} (h : Steady x) (m : Machine) :
    m.RestoredBy (x m) :=
  ⟨(h.leads m).environment, (h.leads m).depth⟩

/-- The diagnostic of a failure. -/
def Fueled.failure? {σ α : Type} : EStateM.Result Stop σ α → Option Diagnostic
  | .ok .. => none
  | .error .outOfFuel _ => none
  | .error (.failed d) _ => some d

theorem Fueled.failure?_eq_some {σ α : Type} {r : EStateM.Result Stop σ α} {d : Diagnostic} :
    failure? r = some d ↔ ∃ s, r = .error (.failed d) s := by
  constructor
  · intro h
    cases r with
    | ok a s => cases h
    | error e s =>
      cases e with
      | outOfFuel => cases h
      | failed d' =>
        cases h
        exact ⟨s, rfl⟩
  · rintro ⟨s, rfl⟩
    rfl

namespace Session

variable {maxDepth : Nat} {input : List UInt8} {sink : Sink} {clock : Nat → Nat} {memory : Memory}
  {history : List Stmt} {s s' : Session} {statements : List Stmt}

/-- No step of a session that is over leaves a call under way. -/
theorem Reachable.idle (h : Reachable maxDepth input sink clock memory history s) :
    s.machine.depth = 0 := by
  induction h with
  | start => rfl
  | ran _ ha hr =>
    rw [enter_of_accepted ha] at hr
    obtain ⟨m, rfl, -⟩ := interpret_eq_some hr
    rfl
  | @refused _ s _ _ entry _ _ ha hr ih =>
    obtain ⟨errors, he⟩ := enter_of_refused ha _
    rw [he] at hr
    cases hr
    show (s.rejected entry).machine.depth = 0
    unfold rejected
    split <;> exact ih
  | read _ ih => exact ih

/-- A program that is loaded changes at most the noted distances. -/
theorem machine_of_load {analyse : Bool} {source : String}
    (h : s.load analyse source = .ok (statements, s')) :
    ∃ distances, s'.machine = { s.machine with distances := distances } := by
  unfold load at h
  cases hsource : Program.ofSource s.nextId source with
  | error errors =>
    rw [hsource] at h
    cases h
  | ok program =>
    rw [hsource] at h
    cases analyse with
    | false =>
      cases h
      exact ⟨_, rfl⟩
    | true =>
      have h : (s.resolved program >>= fun s =>
          Except.ok (program.statements, { s with nextId := program.nextId })) =
            .ok (statements, s') := h
      cases hresolved : s.resolved program with
      | error errors =>
        rw [hresolved] at h
        cases h
      | ok t =>
        obtain ⟨D, -, rfl⟩ := resolved_ok hresolved
        rw [hresolved] at h
        cases h
        exact ⟨D, rfl⟩

theorem observed_steady (fuel : Nat) (statement : Stmt) :
    Eval.Steady (observed fuel statement) := by
  have hs := Eval.steadies fuel
  cases statement with
  | expression e => exact (hs.evaluate e).bind fun _ => .pure _
  | _ => exact (hs.execute _).bind fun _ => .pure _

end Session

end LoxLang
