import LoxLang.Proofs.Running.Finding
import LoxLang.Proofs.Running.Following

/-!
What a machine finds where it looks for a variable. The scope at the noted distance binds the name
if the variable has its value, and it does not only while the variable is pending.
-/

namespace LoxLang

variable {P : Mention → Prop} {D : Distances} {p : Position} {w : World} {m : Machine}
  {s : Lexical.State} {use : Use} {mention : Mention} {id d line : Nat}

/-- A use of a name where a machine stands for a lexical run, with its mention. The name of a class
may lie between the two, but no other name. -/
structure Sighted (P : Mention → Prop) (D : Distances) (p : Position) (w : World) (m : Machine)
    (s : Lexical.State) (use : Use) (mention : Mention) : Prop where
  stands : Stands P D p w m s
  known : P mention
  mentions : mention.use = use
  around : mention.around = p.around
  distance : Scoping.distance? use.name mention.frames = Scoping.distance? use.name p.frames
  initializing : mention.frames.initializing use.name = p.frames.initializing use.name

/-- A use for which a machine finds what the analysis has promised: a name with a distance is bound
in the scope that lies so far out, `super` is a class there and `this` an instance one scope further
in, and no error is internal. -/
structure Use.Bound (use : Use) (m : Machine) : Prop where
  found : ∀ id ∈ use.id?, ∀ d, m.distances.find? id = some d →
    ∃ v, m.scopes.findAt? m.environment d use.name = some v
  super : ∀ id, use = .super id → ∃ d c i, m.distances.find? id = some (d + 1) ∧
    m.scopes.findAt? m.environment (d + 1) "super" = some (.callable (.class c)) ∧
    m.scopes.findAt? m.environment d "this" = some (.instance i)
  quiet : ∀ line line' error m',
    use.find line m = .error (.failed (.runtime line' error)) m' → error.isInternal = false

/-- A machine that looks for a variable does so at a mention. -/
theorem Accesses.sighted (hP : ∀ m, P m → m.Allowed ∧ m.Placed D) {a : Point}
    {pending : List (Nat × String)} (h : Accesses a use m) (ha : a.Followed P D pending) :
    ∃ p w s mention, p.pending = pending ∧ Sighted P D p w m s use mention := by
  obtain ⟨p, w, s, rfl, hs, hk⟩ := ha
  cases h with
  | read => exact ⟨p, w, s, _, rfl, hs, hk.2 _ List.mem_cons_self, rfl, rfl, rfl, rfl⟩
  | assign h =>
    obtain ⟨hmv, hmo⟩ := List.forall_mem_append.mp hk.2
    obtain ⟨_, s₁, w₁, -, -, hs₁⟩ := hs.evaluated hP hk.1.2 hmv h
    exact ⟨p, w₁, s₁, _, rfl, hs₁, hmo _ List.mem_cons_self, rfl, rfl, rfl, rfl⟩
  | inherit ho =>
    have hmention := hk.2 _ (Class.inherit_mem_mentions ho)
    obtain ⟨hallowed, -⟩ := hP _ hmention
    refine ⟨p, w, s, _, rfl, hs, hmention, rfl, rfl, ?_, ?_⟩
    · rw [Frames.introduced_eq]
      exact Frames.distance?_bound hallowed.1 _ _
    · rw [Frames.introduced_eq]
      exact Frames.initializing_bound hallowed.1 _ _
  | this => exact ⟨p, w, s, _, rfl, hs, hk.2 _ List.mem_cons_self, rfl, rfl, rfl, rfl⟩
  | super => exact ⟨p, w, s, _, rfl, hs, hk.2 _ List.mem_cons_self, rfl, rfl, rfl, rfl⟩

/-- What is read at a distance is found there. -/
theorem Scopes.findAt?_of_readAt {scopes : Scopes} {environment : Environment} {distance : Nat}
    {name : Name} {v : Value} (h : scopes.readAt environment distance name = .ok v) :
    scopes.findAt? environment distance name.text = some v := by
  unfold Scopes.readAt at h
  split at h
  · cases h
    assumption
  · cases h

/-- A scope binds a name where its cell has a value. -/
theorem Located.findAt?_isSome {frames : Frames} {environment : Environment} {name : String}
    {distance cell : Nat} {b : Binding} {value? : Option Value}
    (h : Located P w m s frames environment name distance cell b value?) :
    (m.scopes.findAt? environment distance name).isSome = b.isSet := by
  have hrelated := h.kept.related
  rw [h.named] at hrelated
  rw [← h.kept.filled, Scopes.findAt?, h.held, Option.bind_some]
  generalize m.scopes.value? b.scope name = v? at hrelated
  cases hrelated <;> rfl

namespace Sighted

/-- The noted distance is the one of the name where the machine stands. -/
theorem find?_eq (h : Sighted P D p w m s use mention)
    (hP : ∀ m, P m → m.Allowed ∧ m.Placed D) (hid : id ∈ use.id?) :
    m.distances.find? id = Scoping.distance? use.name p.frames := by
  have hplaced := (hP _ h.known).2
  rw [Mention.Placed, h.mentions] at hplaced
  rw [h.stands.linked.distances, hplaced id hid, h.distance]

theorem located (h : Sighted P D p w m s use mention) (hP : ∀ m, P m → m.Allowed ∧ m.Placed D)
    (hid : id ∈ use.id?) (hd : m.distances.find? id = some d) : ∃ cell b value?,
      Located P w m s p.frames m.environment use.name d cell b value? := by
  rw [h.find?_eq hP hid] at hd
  obtain ⟨cell, b, value?, -, hl⟩ := h.stands.linked.located h.stands.matched hd
  exact ⟨cell, b, value?, hl⟩

/-- Outside the initializer of its variable, a name is bound at its distance. -/
theorem found (h : Sighted P D p w m s use mention) (hP : ∀ m, P m → m.Allowed ∧ m.Placed D)
    (hid : id ∈ use.id?) (hd : m.distances.find? id = some d)
    (hown : ¬ mention.InOwnInitializer) :
    ∃ v, m.scopes.findAt? m.environment d use.name = some v := by
  obtain ⟨cell, b, value?, hl⟩ := h.located hP hid hd
  have hset : b.isSet = true := by
    rw [Mention.InOwnInitializer, h.mentions, h.initializing, Bool.not_eq_true] at hown
    exact hl.filled hown
  exact Option.isSome_iff_exists.mp (hl.findAt?_isSome.trans hset)

/-- A name is not bound at its distance only while its variable is pending. -/
theorem findAt?_eq_none_iff (h : Sighted P D p w m s use mention)
    (hP : ∀ m, P m → m.Allowed ∧ m.Placed D) (hid : id ∈ use.id?)
    (hd : m.distances.find? id = some d) :
    m.scopes.findAt? m.environment d use.name = none ↔
      ∃ scope, m.environment[d]? = some scope ∧ (scope, use.name) ∈ p.pending := by
  obtain ⟨cell, b, value?, hl⟩ := h.located hP hid hd
  rw [← Option.not_isSome_iff_eq_none, hl.findAt?_isSome, Bool.not_eq_true]
  constructor
  · intro hset
    exact ⟨b.scope, hl.held, (h.stands.pending _ _).mp ⟨cell, b, hl.binding, rfl, hl.named, hset⟩⟩
  · intro ⟨scope, hscope, hp⟩
    rw [hl.held] at hscope
    cases hscope
    obtain ⟨i, b', hb', hs', hn', hset⟩ := (h.stands.pending _ _).mpr hp
    have hi : i = cell :=
      h.stands.linked.cells.distinct i cell b' b hb' hl.binding hs' (hn'.trans hl.named.symm)
    subst hi
    rw [hl.binding] at hb'
    cases hb'
    exact hset

/-- In a class `this` has a distance, where it is an instance. -/
theorem this (h : Sighted P D p w m s (.this id) mention)
    (hP : ∀ m, P m → m.Allowed ∧ m.Placed D) : ∃ d i, m.distances.find? id = some d ∧
      m.scopes.findAt? m.environment d "this" = some (.instance i) := by
  have hallowed := (hP _ h.known).1
  rw [Mention.Allowed, h.mentions] at hallowed
  have hclass : p.around.class ≠ .none := h.around ▸ hallowed
  obtain ⟨d, hd⟩ : ∃ d, Scoping.distance? "this" p.frames = some d := by
    have henclosed := h.stands.enclosed
    rw [Enclosed] at henclosed
    cases hc : p.around.class with
    | none => exact (hclass hc).elim
    | base =>
      rw [hc] at henclosed
      exact henclosed
    | subclass =>
      rw [hc] at henclosed
      obtain ⟨d, hd, -⟩ := henclosed
      exact ⟨d, hd⟩
  obtain ⟨cell, b, value?, -, hl⟩ := h.stands.linked.located h.stands.matched hd
  obtain ⟨i, _, -, hr, -⟩ := hl.this 0
  exact ⟨d, i, (h.find?_eq hP rfl).trans hd, Scopes.findAt?_of_readAt hr⟩

/-- In a subclass `super` has a distance, where it is a class, and one scope further in `this` is
an instance. -/
theorem super (h : Sighted P D p w m s (.super id) mention)
    (hP : ∀ m, P m → m.Allowed ∧ m.Placed D) :
    ∃ d c i, m.distances.find? id = some (d + 1) ∧
      m.scopes.findAt? m.environment (d + 1) "super" = some (.callable (.class c)) ∧
      m.scopes.findAt? m.environment d "this" = some (.instance i) := by
  have hallowed := (hP _ h.known).1
  rw [Mention.Allowed, h.mentions] at hallowed
  have hclass : p.around.class = .subclass := h.around ▸ hallowed
  have henclosed := h.stands.enclosed
  rw [Enclosed, hclass] at henclosed
  obtain ⟨d, hthis, hsuper⟩ := henclosed
  obtain ⟨cell, b, value?, -, hl⟩ := h.stands.linked.located h.stands.matched hsuper
  obtain ⟨cell', b', value'?, -, hl'⟩ := h.stands.linked.located h.stands.matched hthis
  obtain ⟨c, _, -, hr, -⟩ := hl.super 0
  obtain ⟨i, _, -, hr', -⟩ := hl'.this 0
  exact ⟨d, c, i, (h.find?_eq hP rfl).trans hsuper, Scopes.findAt?_of_readAt hr,
    Scopes.findAt?_of_readAt hr'⟩

/-- Outside the initializer of its variable, a use finds what the analysis has promised. -/
theorem bound (h : Sighted P D p w m s use mention) (hP : ∀ m, P m → m.Allowed ∧ m.Placed D)
    (hown : ¬ mention.InOwnInitializer) : use.Bound m := by
  constructor
  · exact fun id hid d hd => h.found hP hid hd hown
  · intro id hid
    subst hid
    exact h.super hP
  · intro line line' error m' hfind
    by_cases hsuper : ∃ id, use = .super id
    · obtain ⟨id, rfl⟩ := hsuper
      obtain ⟨d, c, i, hd, hc, hi⟩ := h.super hP
      rw [Use.find_super hd hc hi] at hfind
      cases hfind
    · have hs : ∀ id, use ≠ .super id := fun id he => hsuper ⟨id, he⟩
      cases hid : use.id? with
      | none =>
        cases use with
        | declare name => cases hfind
        | _ => cases hid
      | some id =>
        cases hd : m.distances.find? id with
        | none =>
          rcases Use.find_global hs hid hd with hok | herror
          · rw [hok] at hfind
            cases hfind
          · rw [herror] at hfind
            cases hfind
            exact RuntimeError.isInternal_undefinedVariable use.name
        | some d =>
          obtain ⟨v, hv⟩ := h.found hP hid hd hown
          rcases Use.find_placed hs hid hd with ⟨-, hok⟩ | ⟨hnone, -⟩
          · rw [hok] at hfind
            cases hfind
          · rw [hv] at hnone
            cases hnone

end Sighted

end LoxLang
