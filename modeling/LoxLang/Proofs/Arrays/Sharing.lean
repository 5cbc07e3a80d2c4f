import LoxLang.Proofs.Arrays.Calls
import LoxLang.Proofs.Arrays.Keeping
import LoxLang.Proofs.Classes.Properties
import LoxLang.Proofs.Running.Occurrences

/-!
Arrays in sessions. Whatever a session goes through, its values stand for arrays that are there,
each of the length that it was made with, and every method that is bound to an array sees what was
last written into it.
-/

namespace LoxLang

theorem Point.behind_eq (a : Point) :
    a.behind = Fueled.behind (Eval.perform a.fuel a.task a.machine) := by
  obtain ⟨fuel, t, m⟩ := a
  cases t <;> rfl

/-- What holds of arrays from a point on. -/
structure Point.ArrayLaw (a : Point) : Prop where
  /-- No array is lost, and none gets another length. -/
  lengths : ∀ {m}, a.Passes m → a.machine.Lengthens m
  operations : ∀ {m array elements}, a.Passes m → m.arrays[array]? = some elements →
    m.ArrayLaw array elements
  make : ∀ {m} fuel id line v, a.Passes m →
    (Fueled.Succeeds (Eval.call (fuel + 1) (.native id .array) [v] line) m ↔
      m.depth < m.maxDepth ∧ ∃ n : Nat, v.rational? = some (n : ℚ) ∧ m.hasRoom n = true)
  made : ∀ {m fuel id line v r m₁}, a.Passes m →
    Eval.call fuel (.native id .array) [v] line m = .ok r m₁ →
    ∃ n : Nat, v.rational? = some (n : ℚ) ∧ m.hasRoom n = true ∧ r = .array m.arrays.size ∧
      m₁ = m.supplied n
  /-- A call that fails changes nothing. Only a line of the input is used up also if it is no text,
  and for an array memory may have been asked for. -/
  fails : ∀ {m fuel id n vs line e m₁}, a.Passes m → n ≠ .input →
    (Callable.native id n).Below m.arrays.size → (∀ v ∈ vs, v.Below m.arrays.size) →
    Eval.call fuel (.native id n) vs line m = .error e m₁ → m₁ = m ∨ n = .array ∧ m₁ = m.asked
  /-- The arrays that values stand for are there. -/
  held : ∀ {m v}, a.Passes m → m.Holds v → v.Below m.arrays.size
  given : ∀ {e v m}, a.task = .evaluate e → Eval.evaluate a.fuel e a.machine = .ok v m →
    v.Below m.arrays.size
  called : ∀ {c vs line}, a.task = .call c vs line →
    c.Below a.machine.arrays.size ∧ ∀ v ∈ vs, v.Below a.machine.arrays.size

namespace Point.Stocked

variable {a : Point} {m : Machine}

theorem passes (h : a.Stocked) (hp : a.Passes m) : m.Stocked ∧ a.machine.Lengthens m := by
  cases hp with
  | reached hr =>
    obtain ⟨hstocked, hl⟩ := h.reaches hr
    exact ⟨hstocked.machine, hl⟩
  | behind =>
    have hperform := Eval.perform_stocks a.fuel h.machine h.task
    rw [a.behind_eq]
    exact ⟨hperform.stocked, hperform.lengths⟩

theorem arrayLaw (h : a.Stocked) : a.ArrayLaw where
  lengths hp := (h.passes hp).2
  operations _ he := Machine.arrayLaw he
  make fuel id line v _ := Eval.call_array_succeeds fuel id line v
  made _ h := Eval.call_array_ok h
  fails _ hinput hn hvs h := Eval.call_unchanged hinput hn hvs h
  held hp := (h.passes hp).1 _
  given {e v m} ht hx := by
    obtain ⟨fuel, t, m₀⟩ := a
    cases ht
    exact (Eval.perform_stocks fuel h.machine h.task).gives v m hx
  called {c vs line} ht := by
    have htask := h.task
    rw [ht] at htask
    exact htask

end Point.Stocked

namespace Session

variable {maxDepth : Nat} {input : List UInt8} {sink : Sink} {clock : Nat → Nat} {memory : Memory}
  {programs : List Program} {s s' t : Session} {program : Program} {outcome : Outcome} {fuel : Nat}

/-- What may be gone through next in a session: the run of a program, analysed or not, or that of a
statement by itself. -/
inductive Begins (s : Session) : Point → Prop
  | program {entry program t fuel} (ha : s.accepted? entry = some (program, t)) :
      s.Begins (t.starting fuel program)
  | unresolved {source program fuel} (hr : Program.ofSource s.nextId source = .ok program) :
      s.Begins (s.starting fuel program)
  | expression {fuel e} : s.Begins ⟨fuel, .evaluate e, s.machine.cleared⟩
  | statement {fuel statement} : s.Begins ⟨fuel, .execute statement, s.machine.cleared⟩

/-- What may become of a session in one step. -/
inductive Becomes (s : Session) : Session → Prop
  | entered {s' fuel entry outcome} (h : s.enter fuel entry = some (outcome, s')) : s.Becomes s'
  | ranUnresolved {s' fuel source outcome} (h : s.runUnresolved fuel source = some (outcome, s')) :
      s.Becomes s'
  | loaded {s' analyse source statements} (h : s.load analyse source = .ok (statements, s')) :
      s.Becomes s'
  | observed {s' fuel statement observation output}
      (h : s.observe fuel statement = some (observation, output, s')) : s.Becomes s'
  | read : s.Becomes s.readLine.2

theorem start_stocked : (start maxDepth input sink clock memory).machine.Stocked := by
  intro v hv
  obtain ⟨id, n, hn, rfl⟩ := start_holds hv
  have hnone : ∀ n ∈ natives, n.array? = none := by decide
  exact Value.below_of_none (hnone n hn)

/-- A run of a program keeps the arrays of its session. -/
theorem interpret_stocked (hs : s.machine.Stocked)
    (h : s.interpret fuel program = some (outcome, s')) :
    s'.machine.Stocked ∧ s.machine.Lengthens s'.machine := by
  have hcleared : s.machine.cleared.Stocked := hs.congr rfl rfl rfl
  have hrun := Eval.perform_stocks fuel (t := .executeAll program.statements) hcleared trivial
  obtain ⟨m, rfl, hm⟩ := interpret_eq_some h
  have hbehind : Fueled.behind (Eval.perform fuel (.executeAll program.statements)
      s.machine.cleared) = m := by
    rcases hm with ⟨flow, hx⟩ | ⟨d, hx⟩
    · exact congrArg Fueled.behind hx
    · exact congrArg Fueled.behind hx
  obtain ⟨hl, hstocked, -⟩ := hrun
  rw [hbehind] at hl hstocked
  exact ⟨hstocked.congr rfl rfl rfl, hl⟩

theorem enter_stocked (hs : s.machine.Stocked) (entry : Entry)
    (h : s.enter fuel entry = some (outcome, s')) :
    s'.machine.Stocked ∧ s.machine.Lengthens s'.machine := by
  cases ha : s.accepted? entry with
  | none =>
    obtain ⟨errors, he⟩ := enter_of_refused ha fuel
    cases he.symm.trans h
    show (s.rejected entry).machine.Stocked ∧ s.machine.Lengthens (s.rejected entry).machine
    rw [(s.extends_rejected entry).machine]
    exact ⟨hs.congr rfl rfl rfl, .of_eq rfl⟩
  | some accepted =>
    obtain ⟨program, t⟩ := accepted
    obtain ⟨-, hresolved⟩ := accepted?_eq_some ha
    obtain ⟨D, -, rfl⟩ := resolved_ok hresolved
    rw [enter_of_accepted ha] at h
    let t : Session := { s with machine := { s.machine with distances := D } }
    have ht : t.machine.Stocked := hs.congr rfl rfl rfl
    have hrun := interpret_stocked ht h
    exact hrun

theorem observe_stocked (hs : s.machine.Stocked) {statement : Stmt} {observation : Observation}
    {output : String} (h : s.observe fuel statement = some (observation, output, s')) :
    s'.machine.Stocked ∧ s.machine.Lengthens s'.machine := by
  have hcleared : s.machine.cleared.Stocked := hs.congr rfl rfl rfl
  have hrun : Eval.Stocks (fun _ _ => True) (observed fuel statement) s.machine.cleared := by
    cases statement with
    | expression e =>
      exact (Eval.perform_stocks fuel (t := .evaluate e) hcleared trivial).bind
        fun _ _ _ hm₁ _ => .pure hm₁ trivial
    | _ =>
      exact (Eval.perform_stocks fuel (t := .execute _) hcleared trivial).bind
        fun _ _ _ hm₁ _ => .pure hm₁ trivial
  obtain ⟨hl, hstocked, -⟩ := hrun
  unfold observe at h
  match hx : observed fuel statement s.machine.cleared with
  | .ok _ m | .error (.failed _) m =>
    rw [hx] at h hl hstocked
    cases h
    exact ⟨hstocked, hl⟩
  | .error .outOfFuel m =>
    rw [hx] at h
    cases h

/-- Whatever becomes of a session, it keeps its arrays and their lengths. -/
theorem Becomes.stocked (hs : s.machine.Stocked) (h : s.Becomes s') :
    s'.machine.Stocked ∧ s.machine.Lengthens s'.machine := by
  cases h with
  | entered h => exact enter_stocked hs _ h
  | @ranUnresolved _ fuel source outcome h =>
    unfold runUnresolved at h
    split at h
    · cases h
      exact ⟨hs, .refl _⟩
    · exact interpret_stocked hs h
  | loaded h =>
    obtain ⟨distances, hmachine⟩ := machine_of_load h
    rw [hmachine]
    exact ⟨hs.congr rfl rfl rfl, .of_eq rfl⟩
  | observed h => exact observe_stocked hs h
  | read => exact ⟨hs.congr rfl rfl rfl, .of_eq rfl⟩

theorem Logged.stocked (h : Logged maxDepth input sink clock memory programs s) :
    s.machine.Stocked := by
  induction h with
  | start => exact start_stocked
  | @ran _ _ _ _ source _ _ hr ih =>
    exact (enter_stocked ih (.program source) hr).1
  | @ranLine _ _ _ _ source _ _ hr ih =>
    exact (enter_stocked ih (.line source) hr).1
  | ranUnresolved _ hr ih => exact (Becomes.stocked ih (.ranUnresolved hr)).1
  | loaded _ hl ih => exact (Becomes.stocked ih (.loaded hl)).1
  | observed _ ho ih => exact (Becomes.stocked ih (.observed ho)).1
  | read _ ih => exact (Becomes.stocked ih .read).1

/-- What is begun in a session whose values stand for its arrays. -/
theorem Begins.stocked (hs : s.machine.Stocked) {a : Point} (h : s.Begins a) : a.Stocked := by
  cases h with
  | program ha =>
    obtain ⟨-, hresolved⟩ := accepted?_eq_some ha
    obtain ⟨D, -, rfl⟩ := resolved_ok hresolved
    exact ⟨hs.congr rfl rfl rfl, trivial⟩
  | unresolved hr => exact ⟨hs.congr rfl rfl rfl, trivial⟩
  | expression => exact ⟨hs.congr rfl rfl rfl, trivial⟩
  | statement => exact ⟨hs.congr rfl rfl rfl, trivial⟩

/-- Arrays are shared stores of fixed length. At every point of every session, the methods of an
array succeed just for the places of the array and for targets that are long enough, change nothing
but the elements that they are about, and nothing at all if they fail. -/
theorem Logged.shared_arrays (h : Logged maxDepth input sink clock memory programs s) :
    (∀ {a b underway}, s.Begins a → Reaches a underway b → b.ArrayLaw) ∧
      ∀ {s'}, s.Becomes s' → s.machine.Lengthens s'.machine := by
  refine ⟨fun ha hr => ?_, fun hs' => (hs'.stocked h.stocked).2⟩
  exact Point.Stocked.arrayLaw ((ha.stocked h.stocked).reaches hr).1

/-- What is written through one name of an array is read through another one. -/
theorem Logged.shared_arrays_aliased : ∃ s s' m set get,
    Logged 1024 [] .open (fun _ => 0) defaultMemory [] s ∧ s.machine.arrays = #[#[.nil, .nil]] ∧
    set = Expr.call (.get (.variable ⟨2, ⟨"b", 3⟩⟩) ⟨"set", 3⟩) 3
      [.literal (.number 1), .literal (.bool true)] ∧
    get = Expr.call (.get (.variable ⟨3, ⟨"a", 4⟩⟩) ⟨"get", 4⟩) 4 [.literal (.number 1)] ∧
    s.observe 50 (.expression set) = some (.value .nil, "", s') ∧
    Eval.evaluate 50 get s'.machine.cleared = .ok (.bool true) m ∧
    Point.ArrayLaw ⟨50, .evaluate get, s'.machine.cleared⟩ ∧ m.length? 0 = some 2 := by
  let names : List (String × Value) :=
    [("clock", .callable (.native 0 .clock)), ("input", .callable (.native 1 .input)),
      ("Array", .callable (.native 2 .array))]
  let before : Machine := .start 1024 [] .open fun _ => 0
  let made : Machine := { before with
    scopes := ⟨#[⟨names ++ [("a", .array 0)]⟩]⟩
    arrays := #[#[.nil, .nil]]
    requests := 1 }
  let shared : Machine := { made with
    scopes := ⟨#[⟨names ++ [("a", .array 0), ("b", .array 0)]⟩]⟩ }
  let written : Machine := { shared with
    arrays := #[#[.nil, .bool true]]
    nextId := 4 }
  let set := Expr.call (.get (.variable ⟨2, ⟨"b", 3⟩⟩) ⟨"set", 3⟩) 3
    [.literal (.number 1), .literal (.bool true)]
  let get := Expr.call (.get (.variable ⟨3, ⟨"a", 4⟩⟩) ⟨"get", 4⟩) 4 [.literal (.number 1)]
  have hmade : observe 50 ⟨before, 0⟩
      (.var ⟨"a", 1⟩ (some (.call (.variable ⟨0, ⟨"Array", 1⟩⟩) 1 [.literal (.number 2)]))) =
        some (.flow .normal, "", ⟨made, 0⟩) := rfl
  have hshared : observe 50 ⟨made, 0⟩ (.var ⟨"b", 2⟩ (some (.variable ⟨1, ⟨"a", 2⟩⟩))) =
      some (.flow .normal, "", ⟨shared, 0⟩) := rfl
  have hset : observe 50 ⟨shared, 0⟩ (.expression set) =
      some (.value .nil, "", ⟨written, 0⟩) := rfl
  have hget : Eval.evaluate 50 get written.cleared =
      .ok (.bool true) { written with nextId := 5 } := rfl
  have hlogged : Logged 1024 [] .open (fun _ => 0) defaultMemory [] ⟨shared, 0⟩ :=
    (Logged.start.observed hmade).observed hshared
  have hbegins : Begins ⟨written, 0⟩ ⟨50, .evaluate get, written.cleared⟩ := .expression
  have hlaw := (hlogged.observed hset).shared_arrays.1 hbegins .here
  have hpasses :
      Point.Passes ⟨50, .evaluate get, written.cleared⟩ { written with nextId := 5 } := by
    have hbehind := Point.Passes.behind (a := ⟨50, .evaluate get, written.cleared⟩)
    rwa [Point.behind_eq, Eval.perform, hget] at hbehind
  exact ⟨⟨shared, 0⟩, ⟨written, 0⟩, _, set, get, hlogged, rfl, rfl, rfl, hset, hget, hlaw,
    hlaw.lengths hpasses 0 2 rfl⟩

end Session

end LoxLang
