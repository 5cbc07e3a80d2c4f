import LoxLang.Proofs.Running.Origins
import LoxLang.Proofs.Running.Sessions

/-!
Uses of a local variable under its own initializer. The analysis refuses a name that is read in the
scope of its own declaration, but neither an assignment nor what a function does that the
initializer calls. A run that comes to such a use fails there, and by a misplaced variable in no
other way.
-/

namespace LoxLang

variable {P : Mention → Prop} {D : Distances} {p : Position} {w : World} {m : Machine}
  {s : Lexical.State} {use : Use} {mention : Mention} {id d : Nat}

/-- In its own scope a name is not read under its own initializer. -/
theorem Frames.initializing_head {frames : Frames} {name : String}
    (hi : frames.initializing name = true) (hd : Scoping.distance? name frames = some 0) :
    frames.head?.any (·.find? name == some false) = true := by
  cases frames with
  | nil => cases hd
  | cons frame outer =>
    cases hf : frame.find? name with
    | none => simp [Scoping.distance?, List.findIdx?_cons, Table.contains, hf] at hd
    | some flag => simpa [initializing, hf] using hi

/-- A use whose initializer is under way: the scope at its distance is the one whose variable is
being initialized. In that scope itself only assignments are let through. -/
def Use.Underway (use : Use) (m : Machine) (underway : List (Nat × String)) : Prop :=
  ∃ id ∈ use.id?, ∃ d scope, m.distances.find? id = some d ∧ m.environment[d]? = some scope ∧
    (scope, use.name) ∈ underway ∧ (d = 0 → ∃ o, use = .assign o)

namespace Sighted

/-- A misplaced use lies in its own initializer. -/
theorem inOwnInitializer (h : Sighted P D p w m s use mention)
    (hP : ∀ m, P m → m.Allowed ∧ m.Placed D) (hm : use.Misplaced m) :
    mention.InOwnInitializer := by
  obtain ⟨id, hid, d, hd, hnone⟩ := hm
  by_contra hown
  obtain ⟨v, hv⟩ := h.found hP hid hd hown
  rw [hv] at hnone
  cases hnone

theorem not_misplaced_this (h : Sighted P D p w m s (.this id) mention)
    (hP : ∀ m, P m → m.Allowed ∧ m.Placed D) : ¬ (Use.this id).Misplaced m := by
  intro ⟨id', hid, d, hd, hnone⟩
  obtain ⟨d', i, hd', hi⟩ := h.this hP
  cases hid
  rw [hd'] at hd
  cases hd
  have hnone : m.scopes.findAt? m.environment d "this" = none := hnone
  rw [hi] at hnone
  cases hnone

theorem not_misplaced_super (h : Sighted P D p w m s (.super id) mention)
    (hP : ∀ m, P m → m.Allowed ∧ m.Placed D) : ¬ (Use.super id).Misplaced m := by
  intro ⟨id', hid, d, hd, hnone⟩
  obtain ⟨d', c, i, hd', hc, -⟩ := h.super hP
  cases hid
  rw [hd'] at hd
  cases hd
  have hnone : m.scopes.findAt? m.environment (d' + 1) "super" = none := hnone
  rw [hc] at hnone
  cases hnone

/-- Only an assignment is misplaced in the scope of the variable itself. -/
theorem assign_of_misplaced (h : Sighted P D p w m s use mention)
    (hP : ∀ m, P m → m.Allowed ∧ m.Placed D) (hm : use.Misplaced m) (hid : id ∈ use.id?)
    (hd : m.distances.find? id = some 0) : ∃ o, use = .assign o := by
  have hown := h.inOwnInitializer hP hm
  have hallowed := (hP _ h.known).1
  rw [h.find?_eq hP hid, ← h.distance] at hd
  rw [Mention.InOwnInitializer, h.mentions] at hown
  rw [Mention.Allowed, h.mentions] at hallowed
  have hhead := Frames.initializing_head hown hd
  cases use with
  | read o => exact (hallowed hhead).elim
  | assign o => exact ⟨o, rfl⟩
  | inherit className o => exact (hallowed.2 hhead).elim
  | this _ => exact (h.not_misplaced_this hP hm).elim
  | super _ => exact (h.not_misplaced_super hP hm).elim
  | declare _ => cases hid

/-- A use is misplaced just where its variable is pending. -/
theorem misplaced_iff (h : Sighted P D p w m s use mention)
    (hP : ∀ m, P m → m.Allowed ∧ m.Placed D) : use.Misplaced m ↔ use.Underway m p.pending := by
  constructor
  · intro hm
    obtain ⟨id, hid, d, hd, hnone⟩ := hm
    obtain ⟨scope, hscope, hp⟩ := (h.findAt?_eq_none_iff hP hid hd).mp hnone
    refine ⟨id, hid, d, scope, hd, hscope, hp, fun hzero => ?_⟩
    subst hzero
    exact h.assign_of_misplaced hP ⟨id, hid, 0, hd, hnone⟩ hid hd
  · intro ⟨id, hid, d, scope, hd, hscope, hp, _⟩
    exact ⟨id, hid, d, hd, (h.findAt?_eq_none_iff hP hid hd).mpr ⟨scope, hscope, hp⟩⟩

end Sighted

namespace Session

variable {maxDepth : Nat} {input : List UInt8} {sink : Sink} {clock : Nat → Nat} {memory : Memory}
  {s' : Session} {entry : Entry} {program : Program}

/-- In a new session no variable is pending where a program starts. -/
theorem start_followed
    (ha : (Session.start maxDepth input sink clock memory).accepted? entry = some (program, s'))
    (fuel : Nat) :
    Point.Followed (Known program.statements s'.machine.distances) s'.machine.distances []
      ⟨fuel, .executeAll program.statements, s'.machine.cleared⟩ := by
  have hkept : Kept [] (Session.start maxDepth input sink clock memory) := .start
  obtain ⟨hformed, -, -, hs'⟩ := hkept.resolved ha
  have hlinked := Linked.start (Known program.statements s'.machine.distances)
    s'.machine.distances maxDepth input sink clock memory
  have hpending : World.Pending ⟨[], 1⟩ [] := fun _ _ => by simp [World.Unset]
  have hmachine : s'.machine.cleared = { Machine.start maxDepth input sink clock memory with
      distances := s'.machine.distances } := by
    rw [hs']
    rfl
  rw [hmachine]
  exact ⟨.top [], _, _, rfl, hlinked.top hpending rfl rfl, hformed, hkept.fresh ha⟩

/-- A program that passes the analysis fails by a variable that is not at its distance just if its
run comes to a use of a local variable whose own initializer is under way in that activation. Such a
use lies in the initializer, and is an assignment unless it lies in a scope further in. -/
theorem misplaced_iff_underway
    (ha : (Session.start maxDepth input sink clock memory).accepted? entry = some (program, s'))
    (fuel : Nat) (name : String) :
    (∃ line m, Eval.executeAll fuel program.statements s'.machine.cleared =
        .error (.failed (.runtime line (.misplacedVariable name))) m) ↔
      ∃ underway a use m,
        Reaches ⟨fuel, .executeAll program.statements, s'.machine.cleared⟩ underway a ∧
        Accesses a use m ∧ use.name = name ∧ use.Underway m underway ∧
        ∃ mention ∈ stmtsMentions .top [] program.statements,
          mention.use = use ∧ mention.InOwnInitializer := by
  have hP := Known.settled program.statements s'.machine.distances
  have hstart := start_followed ha fuel
  constructor
  · intro ⟨line, m', herror⟩
    have hfails : Point.Fails ⟨fuel, .executeAll program.statements, s'.machine.cleared⟩
      (.runtime line (.misplacedVariable name)) := ⟨m', herror⟩
    obtain ⟨underway, a, use, m, hr, hu, hn, hm⟩ := hstart.misplaced hP hfails
    obtain ⟨p, w, lexical, mention, hp, hsighted⟩ := hu.sighted hP (hr.followed hP hstart)
    rw [List.append_nil] at hp
    subst hp
    exact ⟨p.pending, a, use, m, hr, hu, hn, (hsighted.misplaced_iff hP).mp hm, mention,
      hsighted.known.1, hsighted.mentions, hsighted.inOwnInitializer hP hm⟩
  · intro ⟨underway, a, use, m, hr, hu, hn, hm, _⟩
    obtain ⟨p, w, lexical, mention, hp, hsighted⟩ := hu.sighted hP (hr.followed hP hstart)
    rw [List.append_nil] at hp
    subst hp
    have hm := (hsighted.misplaced_iff hP).mpr hm
    have hs : ∀ id, use ≠ .super id := by
      intro id he
      subst he
      exact hsighted.not_misplaced_super hP hm
    obtain ⟨line, hfails⟩ := hu.fails hs hm
    rw [hn] at hfails
    obtain ⟨m', herror⟩ := hr.fails hfails
    exact ⟨line, m', herror⟩

/-- An initializer that assigns to its own variable comes to such a use. -/
theorem misplaced_iff_underway_assign :
    ∃ program s', (Session.start 1024 [] .open fun _ => 0).accepted?
        (.program "\x7b var a = (a = nil); \x7d") = some (program, s') ∧
      ∃ underway a use m,
        Reaches ⟨50, .executeAll program.statements, s'.machine.cleared⟩ underway a ∧
        Accesses a use m ∧ use.name = "a" ∧ use.Underway m underway ∧
        ∃ mention ∈ stmtsMentions .top [] program.statements,
          mention.use = use ∧ mention.InOwnInitializer := by
  have ha : (Session.start 1024 [] .open fun _ => 0).accepted?
      (.program "\x7b var a = (a = nil); \x7d") =
        some (⟨[.block [.var ⟨"a", 1⟩
          (some (.group (.assign ⟨1, ⟨"a", 1⟩⟩ (.literal .nil))))]], 2⟩,
          ⟨{ Machine.start 1024 [] .open fun _ => 0 with distances := ⟨#[none, some 0]⟩ }, 0⟩) := by
    cbv
  exact ⟨_, _, ha, (misplaced_iff_underway ha 50 "a").mp ⟨1, _, rfl⟩⟩

/-- A function that is called in the initializer of a variable may read the variable. -/
theorem misplaced_call :
    (∃ program s', (Session.start 1024 [] .open fun _ => 0).accepted?
      (.program "\x7b var a = fun () \x7b return a; \x7d(); \x7d") = some (program, s')) ∧
    ((Session.start 1024 [] .open fun _ => 0).run 50
      "\x7b var a = fun () \x7b return a; \x7d(); \x7d").map (·.1) =
        some ⟨"", [.runtime 1 (.misplacedVariable "a")]⟩ := by
  have haccepted : ((Session.start 1024 [] .open fun _ => 0).accepted?
      (.program "\x7b var a = fun () \x7b return a; \x7d(); \x7d")).isSome := by
    decide +kernel
  obtain ⟨⟨program, s'⟩, ha⟩ := Option.isSome_iff_exists.mp haccepted
  exact ⟨⟨program, s', ha⟩, by decide +kernel⟩

end Session

end LoxLang
