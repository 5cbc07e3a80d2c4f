import LoxLang.Scoping

/-!
The mentions of names in a tree, each with the scopes that are around it. A tree is formed if it
keeps what the grammar promises of its names and branches.
-/

namespace LoxLang

namespace Table

variable {α : Type}

private theorem insertEntry_insertEntry (name : String) (value value' : α)
    (entries : List (String × α)) :
    insertEntry name value (insertEntry name value' entries) = insertEntry name value entries := by
  induction entries with
  | nil => simp [insertEntry]
  | cons entry entries ih =>
    obtain ⟨key, old⟩ := entry
    by_cases hk : name = key <;> simp [insertEntry, hk, ih]

/-- Only the value inserted last counts. -/
@[simp] theorem insert_insert (t : Table α) (name : String) (value value' : α) :
    (t.insert name value').insert name value = t.insert name value :=
  congrArg Table.mk (insertEntry_insertEntry name value value' t.entries)

end Table

/-- The local scopes around a point, the innermost first. A name is bound to `false` while its
initializer is read. -/
abbrev Frames := List (Table Bool)

namespace Frames

/-- Binds a name in the innermost scope, if there is one. -/
def bound (frames : Frames) (name : String) (initialized : Bool) : Frames :=
  match frames with
  | [] => []
  | frame :: outer => frame.insert name initialized :: outer

/-- The scopes behind a declaration. -/
def introduced (frames : Frames) (name : String) : Frames :=
  bound (bound frames name false) name true

/-- The scopes inside a new one that binds one name. -/
def within (frames : Frames) (name : String) : Frames :=
  bound (.empty :: frames) name true

/-- The scopes in a body with these parameters. -/
def inBody (frames : Frames) (parameters : List Name) : Frames :=
  parameters.foldl (fun frames p => introduced frames p.text) (.empty :: frames)

@[simp] theorem tail_bound (frames : Frames) (name : String) (initialized : Bool) :
    (frames.bound name initialized).tail = frames.tail := by
  cases frames <;> rfl

@[simp] theorem tail_introduced (frames : Frames) (name : String) :
    (frames.introduced name).tail = frames.tail := by
  simp [introduced]

theorem exists_inBody (frames : Frames) (parameters : List Name) :
    ∃ frame, frames.inBody parameters = frame :: frames := by
  have foldl : ∀ inner, ∃ frame, parameters.foldl
      (fun frames p => introduced frames p.text) (inner :: frames) = frame :: frames := by
    induction parameters with
    | nil => exact fun inner => ⟨inner, rfl⟩
    | cons p ps ih => exact fun _ => ih _
  exact foldl _

@[simp] theorem tail_inBody (frames : Frames) (parameters : List Name) :
    (frames.inBody parameters).tail = frames := by
  obtain ⟨frame, h⟩ := exists_inBody frames parameters
  rw [h]
  rfl

/-- Whether the nearest binding of a name is being initialized. -/
def initializing (frames : Frames) (name : String) : Bool :=
  (frames.findSome? (·.find? name)) == some false

theorem bound_bound (frames : Frames) (name : String) (initialized initialized' : Bool) :
    (frames.bound name initialized').bound name initialized = frames.bound name initialized := by
  cases frames with
  | nil => rfl
  | cons frame outer => simp [bound]

theorem introduced_eq (frames : Frames) (name : String) :
    frames.introduced name = frames.bound name true :=
  bound_bound frames name true false

/-- A new scope is one more on the way to every name. -/
theorem distance?_enter (frames : Frames) (name : String) :
    Scoping.distance? name (.empty :: frames) = (Scoping.distance? name frames).map (· + 1) := by
  simp [Scoping.distance?, List.findIdx?_cons, Table.contains]

/-- A binding is on the way to its own name only. -/
theorem distance?_bound {name other : String} (h : other ≠ name) (frames : Frames)
    (initialized : Bool) : Scoping.distance? other (frames.bound name initialized) =
      Scoping.distance? other frames := by
  cases frames with
  | nil => rfl
  | cons frame outer =>
    simp [bound, Scoping.distance?, List.findIdx?_cons, Table.contains, h]

theorem initializing_bound {name other : String} (h : other ≠ name) (frames : Frames)
    (initialized : Bool) :
    initializing (frames.bound name initialized) other = initializing frames other := by
  cases frames with
  | nil => rfl
  | cons frame outer => simp [bound, initializing, List.findSome?_cons, h]

theorem distance?_within (frames : Frames) (name : String) :
    Scoping.distance? name (frames.within name) = some 0 := by
  simp [within, bound, Scoping.distance?, List.findIdx?_cons, Table.contains]

theorem distance?_within_of_ne {name other : String} (h : other ≠ name) (frames : Frames) :
    Scoping.distance? other (frames.within name) =
      (Scoping.distance? other frames).map (· + 1) := by
  rw [within, distance?_bound h, distance?_enter]

end Frames

/-- How a name is mentioned. -/
inductive Use where
  | read (o : Occurrence)
  | assign (o : Occurrence)
  /-- The superclass of a class with this name. -/
  | inherit (className : Name) (o : Occurrence)
  | this (id : Nat)
  | super (id : Nat)
  | declare (name : Name)

namespace Use

/-- The number of the occurrence. -/
def id? : Use → Option Nat
  | .read o | .assign o | .inherit _ o => some o.id
  | .this id | .super id => some id
  | .declare _ => none

def name : Use → String
  | .read o | .assign o | .inherit _ o => o.name.text
  | .this _ => "this"
  | .super _ => "super"
  | .declare name => name.text

end Use

/-- A mention of a name, with what is around it. -/
structure Mention where
  use : Use
  around : Surroundings
  frames : Frames

namespace Mention

/-- Whether the mention lies in the initializer of the variable that it stands for. -/
def InOwnInitializer (m : Mention) : Prop :=
  m.frames.initializing m.use.name = true

/-- Whether no rule on names is violated. -/
def Allowed (m : Mention) : Prop :=
  match m.use with
  | .read o => ¬ m.frames.head?.any (·.find? o.name.text == some false)
  | .assign _ => True
  | .inherit className o => o.name.text ≠ className.text ∧
      ¬ m.frames.head?.any (·.find? o.name.text == some false)
  | .this _ => m.around.class ≠ .none
  | .super _ => m.around.class = .subclass
  | .declare name => ¬ m.frames.head?.any (·.contains name.text)

/-- Whether the noted distance is that of the nearest binding. -/
def Placed (distances : Distances) (m : Mention) : Prop :=
  ∀ id ∈ m.use.id?, distances.find? id = Scoping.distance? m.use.name m.frames

/-- Notes the distance of a mention. -/
def note (distances : Distances) (m : Mention) : Distances :=
  match m.use.id?, Scoping.distance? m.use.name m.frames with
  | some id, some d => distances.note id d
  | _, _ => distances

end Mention

/-- The names that a statement declares in the scope around it. -/
def Stmt.declared? : Stmt → Option Name
  | .var name _ => some name
  | .function f => f.name?
  | .class c => some c.name
  | _ => none

/-- The scopes behind a statement. -/
def Stmt.after (frames : Frames) (s : Stmt) : Frames :=
  match s.declared? with
  | some name => frames.introduced name.text
  | none => frames

@[simp] theorem Stmt.tail_after (frames : Frames) (s : Stmt) :
    (s.after frames).tail = frames.tail := by
  unfold Stmt.after
  split
  · exact Frames.tail_introduced _ _
  · rfl

/-- Only a declaration changes the scopes behind it. -/
theorem Stmt.after_of_none {s : Stmt} (h : s.declared? = none) (frames : Frames) :
    s.after frames = frames := by
  rw [Stmt.after, h]

/-- The scopes behind a list of statements. -/
def stmtsAfter (frames : Frames) (ss : List Stmt) : Frames :=
  ss.foldl Stmt.after frames

@[simp] theorem tail_stmtsAfter (frames : Frames) (ss : List Stmt) :
    (stmtsAfter frames ss).tail = frames.tail := by
  induction ss generalizing frames with
  | nil => rfl
  | cons s ss ih => exact (ih _).trans (s.tail_after frames)

/-- Outside all blocks a declaration is not seen by the analysis. -/
theorem stmtsAfter_nil (ss : List Stmt) : stmtsAfter [] ss = [] := by
  induction ss with
  | nil => rfl
  | cons s ss ih =>
    have hs : s.after [] = [] := by
      unfold Stmt.after
      cases s.declared? <;> rfl
    show stmtsAfter (s.after []) ss = []
    rw [hs, ih]

/-- The scope around the members of a class. -/
def Class.frames (frames : Frames) (c : Class) : Frames :=
  match c.superclass? with
  | none => (frames.introduced c.name.text).within "this"
  | some _ => ((frames.introduced c.name.text).within "super").within "this"

/-- What is around the members of a class. -/
def Class.inside (around : Surroundings) (c : Class) : Surroundings :=
  { around with «class» := if c.superclass?.isSome then .subclass else .base }

/-- The parameters of a function, which share a scope with its body. -/
def parameterMentions (around : Surroundings) (frames : Frames) : List Name → List Mention
  | [] => []
  | p :: ps => ⟨.declare p, around, frames⟩ ::
    parameterMentions around (frames.introduced p.text) ps

mutual

/-- The mentions in an expression, in the order of the analysis. -/
def Expr.mentions (around : Surroundings) (frames : Frames) : Expr → List Mention
  | .literal _ => []
  | .group inner => inner.mentions around frames
  | .unary _ _ operand => operand.mentions around frames
  | .binary _ _ left right => left.mentions around frames ++ right.mentions around frames
  | .logical _ left right => left.mentions around frames ++ right.mentions around frames
  | .ternary condition thenBranch elseBranch =>
    condition.mentions around frames ++
      (thenBranch.mentions around frames ++ elseBranch.mentions around frames)
  | .comma left right => left.mentions around frames ++ right.mentions around frames
  | .variable o => [⟨.read o, around, frames⟩]
  | .assign o value => value.mentions around frames ++ [⟨.assign o, around, frames⟩]
  | .call callee _ arguments =>
    callee.mentions around frames ++ exprsMentions around frames arguments
  | .get object _ => object.mentions around frames
  | .set object _ value => value.mentions around frames ++ object.mentions around frames
  | .this id _ => [⟨.this id, around, frames⟩]
  | .super id _ _ => [⟨.super id, around, frames⟩]
  | .lambda f => f.mentions around .function frames

def exprsMentions (around : Surroundings) (frames : Frames) : List Expr → List Mention
  | [] => []
  | e :: es => e.mentions around frames ++ exprsMentions around frames es

def Function.mentions (around : Surroundings) (kind : BodyKind) (frames : Frames) :
    Function → List Mention
  | ⟨_, parameters, body, _⟩ =>
    let inside := { around with body := kind, inLoop := false }
    parameterMentions around (.empty :: frames) parameters ++
      stmtsMentions inside (frames.inBody parameters) body

def Stmt.mentions (around : Surroundings) (frames : Frames) : Stmt → List Mention
  | .expression e => e.mentions around frames
  | .print e => e.mentions around frames
  | .var name none => [⟨.declare name, around, frames⟩]
  | .var name (some initializer) =>
    ⟨.declare name, around, frames⟩ :: initializer.mentions around (frames.bound name.text false)
  | .block body => stmtsMentions around (.empty :: frames) body
  | .if condition thenBranch none =>
    condition.mentions around frames ++ thenBranch.mentions around frames
  | .if condition thenBranch (some elseBranch) =>
    condition.mentions around frames ++
      (thenBranch.mentions around frames ++ elseBranch.mentions around frames)
  | .while condition body none =>
    condition.mentions around frames ++ body.mentions { around with inLoop := true } frames
  | .while condition body (some increment) =>
    condition.mentions around frames ++
      (body.mentions { around with inLoop := true } frames ++ increment.mentions around frames)
  | .function f => match f.name? with
    | none => f.mentions around .function frames
    | some name =>
      ⟨.declare name, around, frames⟩ ::
        f.mentions around .function (frames.introduced name.text)
  | .class c => c.mentions around frames
  | .return _ none => []
  | .return _ (some value) => value.mentions around frames
  | .break _ => []
  | .continue _ => []

def stmtsMentions (around : Surroundings) (frames : Frames) : List Stmt → List Mention
  | [] => []
  | s :: ss => s.mentions around frames ++ stmtsMentions around (s.after frames) ss

def Class.mentions (around : Surroundings) (frames : Frames) : Class → List Mention
  | ⟨name, none, methods, getters⟩ =>
    let inside := Class.inside around ⟨name, none, methods, getters⟩
    let inner := Class.frames frames ⟨name, none, methods, getters⟩
    ⟨.declare name, around, frames⟩ ::
      (functionsMentions inside inner Function.methodKind methods ++
        functionsMentions inside inner (fun _ => .method) getters)
  | ⟨name, some superclass, methods, getters⟩ =>
    let inside := Class.inside around ⟨name, some superclass, methods, getters⟩
    let inner := Class.frames frames ⟨name, some superclass, methods, getters⟩
    ⟨.declare name, around, frames⟩ ::
      ⟨.inherit name superclass, around, frames.introduced name.text⟩ ::
      (functionsMentions inside inner Function.methodKind methods ++
        functionsMentions inside inner (fun _ => .method) getters)

def functionsMentions (around : Surroundings) (frames : Frames) (kind : Function → BodyKind) :
    List Function → List Mention
  | [] => []
  | f :: fs => f.mentions around (kind f) frames ++ functionsMentions around frames kind fs

end

theorem stmtsMentions_append (around : Surroundings) (frames : Frames) (ss ss' : List Stmt) :
    stmtsMentions around frames (ss ++ ss') =
      stmtsMentions around frames ss ++ stmtsMentions around (stmtsAfter frames ss) ss' := by
  induction ss generalizing frames with
  | nil => rfl
  | cons s ss ih =>
    show s.mentions around frames ++ stmtsMentions around (s.after frames) (ss ++ ss') = _
    rw [ih, ← List.append_assoc]
    rfl

/-- A name that an identifier has: it is not bound without being declared, and holds no space. -/
structure Name.Plain (n : Name) : Prop where
  ne_this : n.text ≠ "this"
  ne_super : n.text ≠ "super"
  no_space : ' ' ∉ n.text.toList

/-- Whether a function has a name of its own. -/
def Function.Named (f : Function) : Prop :=
  ∃ name, f.name? = some name ∧ name.Plain

mutual

/-- Whether every name that is declared or assigned to and every name of a property is plain, every
declared function and every member has a name, no branch is a declaration and no getter has
parameters. -/
def Expr.Formed : Expr → Prop
  | .literal _ => True
  | .group inner => inner.Formed
  | .unary _ _ operand => operand.Formed
  | .binary _ _ left right => left.Formed ∧ right.Formed
  | .logical _ left right => left.Formed ∧ right.Formed
  | .ternary condition thenBranch elseBranch =>
    condition.Formed ∧ thenBranch.Formed ∧ elseBranch.Formed
  | .comma left right => left.Formed ∧ right.Formed
  | .variable _ => True
  | .assign o value => o.name.Plain ∧ value.Formed
  | .call callee _ arguments => callee.Formed ∧ exprsFormed arguments
  | .get object name => object.Formed ∧ name.Plain
  | .set object name value => object.Formed ∧ value.Formed ∧ name.Plain
  | .this _ _ => True
  | .super _ _ method => method.Plain
  | .lambda f => f.Formed

def exprsFormed : List Expr → Prop
  | [] => True
  | e :: es => e.Formed ∧ exprsFormed es

def Function.Formed : Function → Prop
  | ⟨_, parameters, body, _⟩ => (∀ p ∈ parameters, p.Plain) ∧ stmtsFormed body

def Stmt.Formed : Stmt → Prop
  | .expression e => e.Formed
  | .print e => e.Formed
  | .var name none => name.Plain
  | .var name (some initializer) => name.Plain ∧ initializer.Formed
  | .block body => stmtsFormed body
  | .if condition thenBranch none =>
    condition.Formed ∧ thenBranch.Formed ∧ thenBranch.declared? = none
  | .if condition thenBranch (some elseBranch) =>
    condition.Formed ∧ (thenBranch.Formed ∧ thenBranch.declared? = none) ∧
      elseBranch.Formed ∧ elseBranch.declared? = none
  | .while condition body none => condition.Formed ∧ body.Formed ∧ body.declared? = none
  | .while condition body (some increment) =>
    condition.Formed ∧ (body.Formed ∧ body.declared? = none) ∧ increment.Formed
  | .function f => f.Named ∧ f.Formed
  | .class c => c.Formed
  | .return _ none => True
  | .return _ (some value) => value.Formed
  | .break _ => True
  | .continue _ => True

def stmtsFormed : List Stmt → Prop
  | [] => True
  | s :: ss => s.Formed ∧ stmtsFormed ss

def Class.Formed : Class → Prop
  | ⟨name, _, methods, getters⟩ =>
    name.Plain ∧ (functionsFormed methods ∧ ∀ f ∈ methods, f.Named) ∧
      (functionsFormed getters ∧ ∀ f ∈ getters, f.Named) ∧ ∀ f ∈ getters, f.parameters = []

def functionsFormed : List Function → Prop
  | [] => True
  | f :: fs => f.Formed ∧ functionsFormed fs

end

end LoxLang
