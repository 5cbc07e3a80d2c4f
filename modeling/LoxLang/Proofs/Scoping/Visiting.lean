import LoxLang.Proofs.Tree.Numbering
import LoxLang.Scoping

/-!
What the analysis of scopes comes to. It comes to each occurrence of the tree once, in the order of
the tree, also where it finds errors. It notes a distance at most once for each, and nothing else
is noted.
-/

namespace LoxLang

/-- The distances with more of them noted. -/
def Distances.noteAll (D : Distances) (notes : List (Nat × Nat)) : Distances :=
  notes.foldl (fun D note => D.note note.1 note.2) D

theorem Distances.find?_noteAll {D : Distances} {notes : List (Nat × Nat)} {id : Nat}
    (h : id ∉ notes.map Prod.fst) : (D.noteAll notes).find? id = D.find? id := by
  induction notes generalizing D with
  | nil => rfl
  | cons note notes ih =>
    rw [List.map_cons, List.mem_cons, not_or] at h
    show ((D.note note.1 note.2).noteAll notes).find? id = D.find? id
    rw [ih h.2, find?_note, if_neg h.1]

/-- Where the notes are for different occurrences, each goes to a place that was empty before. -/
theorem Distances.find?_noteAll_front {D : Distances} {front back : List (Nat × Nat)} {id d : Nat}
    (hn : ((front ++ (id, d) :: back).map Prod.fst).Nodup) (hD : D.find? id = none) :
    (D.noteAll front).find? id = none := by
  rw [find?_noteAll, hD]
  intro hid
  rw [List.map_append, List.nodup_append] at hn
  exact hn.2.2 id hid id List.mem_cons_self rfl

namespace Scoping

/-- The occurrences that the analysis has come to, in order. -/
def visits (s : Scoping) : List Nat :=
  s.found.reverse.map Prod.fst

/-- The distances that the analysis notes, in order. -/
def notes (s : Scoping) : List (Nat × Nat) :=
  s.found.reverse.filterMap fun found => found.2.map (found.1, ·)

theorem noted_eq (s : Scoping) (D : Distances) : s.noted D = D.noteAll s.notes := by
  unfold noted notes Distances.noteAll
  induction s.found with
  | nil => rfl
  | cons found more ih =>
    obtain ⟨id, distance?⟩ := found
    rw [List.foldr_cons, ih, List.reverse_cons, List.filterMap_append, List.foldl_append]
    cases distance? <;> rfl

theorem notes_sublist_visits (s : Scoping) : (s.notes.map Prod.fst).Sublist s.visits := by
  unfold notes visits
  induction s.found.reverse with
  | nil => exact .slnil
  | cons found more ih =>
    obtain ⟨id, distance?⟩ := found
    cases distance? with
    | none => exact ih.cons id
    | some d => exact ih.cons_cons id

/-- Distances are noted for the occurrences only that the analysis has come to. -/
theorem find?_noted {s : Scoping} {D : Distances} {id : Nat} (h : id ∉ s.visits) :
    (s.noted D).find? id = D.find? id := by
  rw [s.noted_eq]
  exact Distances.find?_noteAll fun hid => h (s.notes_sublist_visits.subset hid)

end Scoping

/-- A step of the analysis that comes to these occurrences, in this order. -/
def Visits (f : Scoping → Scoping) (ids : List Nat) : Prop :=
  ∀ s : Scoping, (f s).visits = s.visits ++ ids

namespace Visits

variable {f f' : Scoping → Scoping} {ids ids' : List Nat}

theorem comp (h : Visits f ids) (h' : Visits f' ids') :
    Visits (fun s => f' (f s)) (ids ++ ids') := by
  intro s
  show (f' (f s)).visits = _
  rw [h' (f s), h s, List.append_assoc]

/-- A step that comes to no occurrence. -/
theorem still (h : ∀ s, (f s).found = s.found) : Visits f [] := by
  intro s
  rw [List.append_nil, Scoping.visits, h s, Scoping.visits]

/-- Steps between two that come to no occurrence. -/
theorem between {g k : Scoping → Scoping} (h : Visits f ids) (hg : ∀ s, (g s).found = s.found)
    (hk : ∀ s, (k s).found = s.found) : Visits (fun s => k (f (g s))) ids := by
  have h := ((still hg).comp h).comp (still hk)
  rw [List.nil_append, List.append_nil] at h
  exact h

theorem meet (id : Nat) (distance? : Scoping → Option Nat) :
    Visits (fun s => s.meet id (distance? s)) [id] := by
  intro s
  show ((id, distance? s) :: s.found).reverse.map Prod.fst = _
  rw [List.reverse_cons, List.map_append]
  rfl

theorem locate (id : Nat) (name : String) : Visits (·.locate id name) [id] :=
  meet id fun s => Scoping.distance? name s.scopes

end Visits

namespace Scoping

variable (s : Scoping)

@[simp] theorem found_reportIf (violated : Bool) (line : Nat) (lexeme : String)
    (error : ScopeError) : (s.reportIf violated line lexeme error).found = s.found := by
  unfold reportIf
  split <;> rfl

@[simp] theorem found_bind (name : String) (initialized : Bool) :
    (s.bind name initialized).found = s.found := by
  unfold bind
  split <;> rfl

@[simp] theorem found_enter : s.enter.found = s.found := rfl

@[simp] theorem found_declare (name : Name) : (s.declare name).found = s.found := by
  simp [declare]

@[simp] theorem found_define (name : Name) : (s.define name).found = s.found := by
  simp [define]

@[simp] theorem found_introduce (name : Name) : (s.introduce name).found = s.found := by
  simp [introduce]

@[simp] theorem found_foldl_introduce (names : List Name) :
    (names.foldl introduce s).found = s.found := by
  induction names generalizing s with
  | nil => rfl
  | cons name names ih => rw [List.foldl_cons, ih, found_introduce]

end Scoping

namespace Visits

theorem read (o : Occurrence) : Visits (·.read o) [o.id] :=
  (still fun s => by simp).comp (locate o.id o.name.text)

theorem readThis (around : Surroundings) (id line : Nat) :
    Visits (·.readThis around id line) [id] := by
  unfold Scoping.readThis
  split
  · exact (meet id fun _ => none).comp (still fun _ => rfl)
  · exact locate id "this"

theorem readSuper (around : Surroundings) (id line : Nat) :
    Visits (·.readSuper around id line) [id] := by
  refine comp (still fun s => ?_) (locate id "super")
  split <;> rfl

theorem readSuperclass (className : Name) (o : Occurrence) :
    Visits (·.readSuperclass className o) [o.id] :=
  ((still fun s => by simp).comp (read o)).comp (still fun s => by simp)

end Visits

mutual

theorem Expr.visits (around : Surroundings) :
    (e : Expr) → Visits (e.resolve around) e.ids
  | .literal _ => .still fun _ => rfl
  | .group inner => inner.visits around
  | .unary _ _ operand => operand.visits around
  | .binary _ _ left right => (left.visits around).comp (right.visits around)
  | .logical _ left right => (left.visits around).comp (right.visits around)
  | .ternary condition thenBranch elseBranch => by
    have h := (condition.visits around).comp
      ((thenBranch.visits around).comp (elseBranch.visits around))
    exact h
  | .comma left right => (left.visits around).comp (right.visits around)
  | .variable o => .read o
  | .assign o value => (value.visits around).comp (.locate o.id o.name.text)
  | .call callee _ arguments => (callee.visits around).comp (exprsVisits around arguments)
  | .get object _ => object.visits around
  | .set object _ value => (value.visits around).comp (object.visits around)
  | .this id line => .readThis around id line
  | .super id line _ => .readSuper around id line
  | .lambda f => f.visits around .function

theorem exprsVisits (around : Surroundings) :
    (es : List Expr) → Visits (resolveExprs around es) (exprsIds es)
  | [] => .still fun _ => rfl
  | e :: es => (e.visits around).comp (exprsVisits around es)

theorem Function.visits (around : Surroundings) (kind : BodyKind) :
    (f : Function) → Visits (f.resolve around kind) f.ids
  | ⟨_, parameters, body, _⟩ =>
    (stmtsVisits { around with body := kind, inLoop := false } body).between
      (g := fun s => parameters.foldl .introduce s.enter) (fun s => by simp) fun _ => rfl

theorem Stmt.visits (around : Surroundings) :
    (stmt : Stmt) → Visits (stmt.resolve around) stmt.ids
  | .expression e => e.visits around
  | .print e => e.visits around
  | .var name none => .still fun s => s.found_introduce name
  | .var name (some initializer) =>
    (initializer.visits around).between (g := (·.declare name)) (k := (·.define name))
      (fun s => by simp) fun s => by simp
  | .block body =>
    (stmtsVisits around body).between (g := .enter) (k := .leave) (fun _ => rfl) fun _ => rfl
  | .if condition thenBranch none => (condition.visits around).comp (thenBranch.visits around)
  | .if condition thenBranch (some elseBranch) =>
    (condition.visits around).comp ((thenBranch.visits around).comp (elseBranch.visits around))
  | .while condition body none => (condition.visits around).comp (body.visits _)
  | .while condition body (some increment) =>
    (condition.visits around).comp ((body.visits _).comp (increment.visits around))
  | .function f => by
    have named := Visits.still (f := fun s => (f.name?.map s.introduce).getD s) fun s => by
      cases f.name? <;> simp
    exact named.comp (f.visits around .function)
  | .class c => c.visits around
  | .return line none => .still fun s => s.found_reportIf _ _ _ _
  | .return line (some value) => by
    have reported := Visits.still (f := fun s =>
      (s.reportIf (around.body = .program) line "return" .returnOutsideFunction).reportIf
        (around.body = .initializer) line "return" .valueFromInitializer) fun s => by simp
    exact reported.comp (value.visits around)
  | .break line => .still fun s => s.found_reportIf _ _ _ _
  | .continue line => .still fun s => s.found_reportIf _ _ _ _

theorem stmtsVisits (around : Surroundings) :
    (ss : List Stmt) → Visits (resolveStmts around ss) (stmtsIds ss)
  | [] => .still fun _ => rfl
  | stmt :: ss => (stmt.visits around).comp (stmtsVisits around ss)

theorem Class.visits (around : Surroundings) :
    (c : Class) → Visits (c.resolve around) c.ids
  | ⟨name, none, methods, getters⟩ =>
    ((functionsVisits { around with «class» := .base } Function.methodKind methods).comp
      (functionsVisits { around with «class» := .base } (fun _ => .method) getters)).between
      (g := fun s => (s.introduce name).enter.bind "this" true) (fun s => by simp) fun _ => rfl
  | ⟨name, some superclass, methods, getters⟩ => by
    have opened := ((Visits.readSuperclass name superclass).between
      (g := (·.introduce name)) (k := (·.enter.bind "this" true)) (fun s => by simp)
      fun s => by simp)
    have members := ((functionsVisits { around with «class» := .subclass } Function.methodKind
      methods).comp (functionsVisits { around with «class» := .subclass } (fun _ => .method)
      getters)).between (g := id) (k := (·.leave.leave)) (fun _ => rfl) fun _ => rfl
    exact opened.comp members

theorem functionsVisits (around : Surroundings) (kind : Function → BodyKind) :
    (fs : List Function) → Visits (resolveFunctions around kind fs) (functionsIds fs)
  | [] => .still fun _ => rfl
  | f :: fs => (f.visits around (kind f)).comp (functionsVisits around kind fs)

end

/-- A program is gone through from its first occurrence to its last. -/
theorem visits_resolveStmts (ss : List Stmt) :
    (resolveStmts .top ss .start).visits = stmtsIds ss :=
  stmtsVisits .top ss .start

/-- Distances are noted for the occurrences of a program only, also where errors are found. -/
theorem find?_noted_resolveStmts {ss : List Stmt} {D : Distances} {id : Nat}
    (h : id ∉ stmtsIds ss) : ((resolveStmts .top ss .start).noted D).find? id = D.find? id := by
  rw [← visits_resolveStmts] at h
  exact Scoping.find?_noted h

end LoxLang
