import LoxLang.Proofs.Running.Limits
import LoxLang.Proofs.Running.Origins

/-!
The calls under way. They are counted along the way to a point, one for each call that has been
begun there and is not over. A machine knows their number, which never exceeds the limit, and a run
stops by the limit just where a call is attempted with as many calls under way as there may be.
-/

namespace LoxLang

open Fueled

/-- The calls that a point adds to those under way at the points it starts. -/
def Point.calls (a : Point) : Nat :=
  match a.task with
  | .call .. => 1
  | _ => 0

/-- The points that a run comes to, each with the number of calls that are under way. -/
inductive Nests (start : Point) : Nat → Point → Prop
  | here : Nests start 0 start
  | next {calls a b} (h : Nests start calls a) (hs : Starts a b) :
      Nests start (calls + a.calls) b

/-- A call for which the machine of a point allows no further one. -/
def Point.Refused (a : Point) (line : Nat) : Prop :=
  ∃ fuel c vs m, a = ⟨fuel + 1, .call c vs line, m⟩ ∧ m.maxDepth ≤ m.depth

namespace Eval

theorem checkDepth_ok {line : Nat} {m m₁ : Machine} (h : checkDepth line m = .ok () m₁) :
    m₁ = m ∧ m.depth < m.maxDepth := by
  unfold checkDepth at h
  rw [Fueled.bind_get] at h
  split at h
  · cases h
  · rename_i hd
    cases h
    exact ⟨rfl, Nat.lt_of_not_le hd⟩

theorem checkDepth_fails {line : Nat} {m : Machine} {d : Diagnostic}
    (h : Fails (checkDepth line) m d) : d = .stackOverflow line ∧ m.maxDepth ≤ m.depth := by
  obtain ⟨m₁, h⟩ := h
  unfold checkDepth at h
  rw [Fueled.bind_get] at h
  split at h
  · rename_i hd
    cases h
    exact ⟨rfl, hd⟩
  · cases h

end Eval

/-- What a task starts has as many more calls under way as the task is a call. -/
theorem Starts.depth {a b : Point} (h : Starts a b) :
    b.machine.depth = a.machine.depth + a.calls ∧ b.machine.maxDepth = a.machine.maxDepth ∧
      (a.calls = 1 → a.machine.depth < a.machine.maxDepth) := by
  have level {m m₁ : Machine} (h : m.LeadsTo m₁) :
      m₁.depth = m.depth + 0 ∧ m₁.maxDepth = m.maxDepth ∧ (0 = 1 → m.depth < m.maxDepth) :=
    ⟨h.depth, h.maxDepth, nofun⟩
  have evaluated {fuel : Nat} {e : Expr} {m m₁ : Machine} {v : Value}
      (h : Eval.evaluate fuel e m = .ok v m₁) : m.LeadsTo m₁ :=
    ((Eval.steadies fuel).evaluate e).leads_ok h
  have executed {fuel : Nat} {s : Stmt} {m m₁ : Machine} {flow : Flow}
      (h : Eval.execute fuel s m = .ok flow m₁) : m.LeadsTo m₁ :=
    ((Eval.steadies fuel).execute s).leads_ok h
  cases h with
  | binaryRight h | logicalRight h _ | answer h | commaRight h | arguments h | tail h
  | thenBranch h _ | elseBranch h _ | turn h _ => exact level (evaluated h)
  | @called fuel line m m₁ m₂ m₃ v vs callee arguments c h hs hc =>
    have hleads := ((Eval.steadies fuel).evaluateAll arguments).leads_ok hs
    have hcallable := (Eval.callableOf_plain v vs.length line).leads_ok hc
    exact level (((evaluated h).trans hleads).trans hcallable)
  | @property _ _ _ _ v _ name _ h hp =>
    exact level ((evaluated h).trans ((Eval.propertyOfValue_plain v name).leads_ok hp))
  | @stored _ _ _ _ v _ name _ _ h hi =>
    exact level ((evaluated h).trans ((Eval.instanceOf_plain v name).leads_ok hi))
  | @superProperty _ line id _ _ _ method r _ h hp =>
    have hleads := (Eval.superOf_plain id line).leads_ok h
    exact level (hleads.trans ((Eval.superPropertyOf_plain r.1 r.2 method).leads_ok hp))
  | @getter _ _ _ _ closure _ h => exact level ((Eval.newFunction_plain closure).leads_ok h)
  | function h | «class» h =>
    obtain ⟨rfl, hd⟩ := Eval.checkDepth_ok h
    exact ⟨rfl, rfl, fun _ => hd⟩
  | @body _ _ _ vs closure _ h =>
    have hleads := (Eval.openScope_plain closure.environment
      (parameterTable closure.function.parameters vs)).leads_ok h
    exact ⟨hleads.depth, hleads.maxDepth, nofun⟩
  | @initializer _ _ _ _ _ c i method _ hi _ hb =>
    have hleads := (Eval.newInstance_plain c).leads_ok hi
    exact level (hleads.trans ((Eval.bindThis_plain method i).leads_ok hb))
  | @block _ m _ _ _ h =>
    have hleads := (Eval.openScope_plain m.environment .empty).leads_ok h
    exact ⟨hleads.depth, hleads.maxDepth, nofun⟩
  | increment h _ hb _ | again h _ hb _ => exact level ((evaluated h).trans (executed hb))
  | incremented h _ hb _ hi =>
    exact level (((evaluated h).trans (executed hb)).trans (evaluated hi))
  | next h => exact level (executed h)
  | _ => exact level (.refl _)

/-- A machine counts the calls that are under way, and they are no more than it allows. -/
theorem Nests.depth {start a : Point} {calls : Nat} (h : Nests start calls a)
    (hd : start.machine.depth = 0) :
    a.machine.depth = calls ∧ a.machine.maxDepth = start.machine.maxDepth ∧
      calls ≤ start.machine.maxDepth := by
  induction h with
  | here => exact ⟨hd, rfl, Nat.zero_le _⟩
  | @next calls a b _ hs ih =>
    obtain ⟨hdepth, hmax, hcalls⟩ := ih
    obtain ⟨hdepth', hmax', hroom⟩ := hs.depth
    have hone : a.calls = 0 ∨ a.calls = 1 := by
      unfold Point.calls
      split
      · exact .inr rfl
      · exact .inl rfl
    refine ⟨by omega, hmax'.trans hmax, ?_⟩
    rcases hone with hzero | hone
    · omega
    · have := hroom hone
      omega

/-- What comes before a point counts towards the calls under way there. -/
theorem Nests.head {a b c : Point} {calls : Nat} (hs : Starts a b) (h : Nests b calls c) :
    Nests a (a.calls + calls) c := by
  induction h with
  | here =>
    have h := Nests.here.next hs
    rw [Nat.zero_add] at h
    exact h
  | next _ hs' ih =>
    have h := ih.next hs'
    rw [Nat.add_assoc] at h
    exact h

end LoxLang
