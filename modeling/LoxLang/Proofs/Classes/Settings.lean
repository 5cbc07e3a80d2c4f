import LoxLang.Proofs.Scoping.Mentions

/-!
Where code stands in the members of classes. The innermost class around an expression decides what
`this` and `super` are in it, and every scope that is opened in a member puts them one further out.
-/

namespace LoxLang

mutual

/-- The expressions `this` and `super` in an expression. Those in a class declaration belong to that
class. -/
def Expr.receivers : Expr → List Expr
  | .literal _ => []
  | .group inner => inner.receivers
  | .unary _ _ operand => operand.receivers
  | .binary _ _ left right => left.receivers ++ right.receivers
  | .logical _ left right => left.receivers ++ right.receivers
  | .ternary condition thenBranch elseBranch =>
    condition.receivers ++ (thenBranch.receivers ++ elseBranch.receivers)
  | .comma left right => left.receivers ++ right.receivers
  | .variable _ => []
  | .assign _ value => value.receivers
  | .call callee _ arguments => callee.receivers ++ exprsReceivers arguments
  | .get object _ => object.receivers
  | .set object _ value => value.receivers ++ object.receivers
  | .this id line => [.this id line]
  | .super id line method => [.super id line method]
  | .lambda f => f.receivers

def exprsReceivers : List Expr → List Expr
  | [] => []
  | e :: es => e.receivers ++ exprsReceivers es

def Function.receivers : Function → List Expr
  | ⟨_, _, body, _⟩ => stmtsReceivers body

def Stmt.receivers : Stmt → List Expr
  | .expression e => e.receivers
  | .print e => e.receivers
  | .var _ none => []
  | .var _ (some initializer) => initializer.receivers
  | .block body => stmtsReceivers body
  | .if condition thenBranch none => condition.receivers ++ thenBranch.receivers
  | .if condition thenBranch (some elseBranch) =>
    condition.receivers ++ (thenBranch.receivers ++ elseBranch.receivers)
  | .while condition body none => condition.receivers ++ body.receivers
  | .while condition body (some increment) =>
    condition.receivers ++ (body.receivers ++ increment.receivers)
  | .function f => f.receivers
  | .class _ => []
  | .return _ none => []
  | .return _ (some value) => value.receivers
  | .break _ => []
  | .continue _ => []

def stmtsReceivers : List Stmt → List Expr
  | [] => []
  | s :: ss => s.receivers ++ stmtsReceivers ss

end

/-- The expressions `this` and `super` whose innermost class is this one. -/
def Class.receivers (c : Class) : List Expr :=
  (c.methods ++ c.getters).flatMap Function.receivers

/-- Where code stands: what is around it, the scopes that the analysis knows there, and the class
that it is in a member of, with the number of scopes opened since the member was called. -/
structure Setting where
  around : Surroundings
  frames : Frames
  class? : Option Class
  depth : Nat

namespace Setting

/-- The place outside all blocks. -/
def top : Setting :=
  ⟨.top, [], none, 0⟩

/-- Whether `this` and `super` are bound in the scopes just outside that of the call. -/
def Fits (p : Setting) : Prop :=
  match p.class? with
  | none => p.around.class = .none
  | some c => Scoping.distance? "this" p.frames = some (p.depth + 1) ∧
    (p.around.class = .subclass → c.superclass?.isSome = true ∧
      Scoping.distance? "super" p.frames = some (p.depth + 2))

def bound (p : Setting) (name : String) (initialized : Bool) : Setting :=
  { p with frames := p.frames.bound name initialized }

def after (p : Setting) (s : Stmt) : Setting :=
  { p with frames := s.after p.frames }

def entered (p : Setting) : Setting :=
  { p with frames := .empty :: p.frames, depth := p.depth + 1 }

def looping (p : Setting) : Setting :=
  { p with around := { p.around with inLoop := true } }

/-- The place of the body of a function that is no member. -/
def inBody (p : Setting) (parameters : List Name) : Setting :=
  { p with
    around := { p.around with body := .function, inLoop := false }
    frames := p.frames.inBody parameters
    depth := p.depth + 1 }

/-- The place of the body of a member. -/
def inMember (around : Surroundings) (frames : Frames) (c : Class) (kind : BodyKind)
    (parameters : List Name) : Setting where
  around := { Class.inside around c with body := kind, inLoop := false }
  frames := Frames.inBody (Class.frames frames c) parameters
  class? := some c
  depth := 0

variable {p : Setting}

theorem fits_top : top.Fits :=
  rfl

/-- Only the distances of `this` and `super` matter, and whether there is a superclass. -/
theorem Fits.congr {p' : Setting} (h : p.Fits) (hclass : p'.class? = p.class?)
    (hdepth : p'.depth = p.depth) (haround : p'.around.class = p.around.class)
    (hthis : Scoping.distance? "this" p'.frames = Scoping.distance? "this" p.frames)
    (hsuper : Scoping.distance? "super" p'.frames = Scoping.distance? "super" p.frames) :
    p'.Fits := by
  unfold Fits at h ⊢
  rw [hclass, hdepth, haround, hthis, hsuper]
  exact h

theorem Fits.bound (h : p.Fits) {name : Name} (hname : name.Plain) (initialized : Bool) :
    (p.bound name.text initialized).Fits :=
  h.congr rfl rfl rfl (Frames.distance?_bound hname.ne_this.symm _ _)
    (Frames.distance?_bound hname.ne_super.symm _ _)

theorem Fits.looping (h : p.Fits) : p.looping.Fits :=
  h.congr rfl rfl rfl rfl rfl

/-- A scope that binds neither puts both one further out. -/
theorem Fits.deeper {p' : Setting} (h : p.Fits) (hclass : p'.class? = p.class?)
    (hdepth : p'.depth = p.depth + 1) (haround : p'.around.class = p.around.class)
    (hthis : Scoping.distance? "this" p'.frames =
      (Scoping.distance? "this" p.frames).map (· + 1))
    (hsuper : Scoping.distance? "super" p'.frames =
      (Scoping.distance? "super" p.frames).map (· + 1)) : p'.Fits := by
  unfold Fits at h ⊢
  rw [hclass, haround]
  split
  · rename_i hnone
    rw [hnone] at h
    exact h
  · rename_i c hsome
    rw [hsome] at h
    rw [hthis, hsuper, hdepth, h.1]
    exact ⟨rfl, fun hc => ⟨(h.2 hc).1, by rw [(h.2 hc).2]; rfl⟩⟩

theorem Fits.entered (h : p.Fits) : p.entered.Fits :=
  h.deeper rfl rfl rfl (Frames.distance?_enter _ _) (Frames.distance?_enter _ _)

/-- Parameters hide neither `this` nor `super`. -/
theorem distance?_inBody (frames : Frames) {parameters : List Name} {name : String}
    (h : ∀ q ∈ parameters, name ≠ q.text) :
    Scoping.distance? name (frames.inBody parameters) =
      (Scoping.distance? name frames).map (· + 1) := by
  rw [← Frames.distance?_enter]
  unfold Frames.inBody
  generalize (Table.empty :: frames : List (Table Bool)) = opened
  induction parameters generalizing opened with
  | nil => rfl
  | cons q qs ih =>
    obtain ⟨hq, hqs⟩ := List.forall_mem_cons.mp h
    rw [List.foldl_cons, ih hqs, Frames.introduced_eq]
    exact Frames.distance?_bound hq _ _

theorem Fits.inBody (h : p.Fits) {parameters : List Name} (hp : ∀ q ∈ parameters, q.Plain) :
    (p.inBody parameters).Fits :=
  h.deeper rfl rfl rfl (distance?_inBody _ fun q hq => (hp q hq).ne_this.symm)
    (distance?_inBody _ fun q hq => (hp q hq).ne_super.symm)

theorem fits_inMember (around : Surroundings) (frames : Frames) (c : Class) (kind : BodyKind)
    {parameters : List Name} (hp : ∀ q ∈ parameters, q.Plain) :
    (inMember around frames c kind parameters).Fits := by
  show Scoping.distance? "this" (Frames.inBody (Class.frames frames c) parameters) = some 1 ∧
    ((Class.inside around c).class = .subclass → c.superclass?.isSome = true ∧
      Scoping.distance? "super" (Frames.inBody (Class.frames frames c) parameters) = some 2)
  rw [distance?_inBody _ fun q hq => (hp q hq).ne_this.symm,
    distance?_inBody _ fun q hq => (hp q hq).ne_super.symm]
  unfold Class.frames Class.inside
  cases c.superclass? with
  | none => exact ⟨by rw [Frames.distance?_within]; rfl, fun h => by cases h⟩
  | some o =>
    refine ⟨by rw [Frames.distance?_within]; rfl, fun _ => ⟨rfl, ?_⟩⟩
    rw [Frames.distance?_within_of_ne (by decide), Frames.distance?_within]
    rfl

end Setting

/-- What is known of code in a class: it is well formed, its mentions are known, and what stands for
an instance in it belongs to the class. -/
structure Settled (P : Mention → Prop) (class? : Option Class) (formed : Prop)
    (mentions : List Mention) (receivers : List Expr) : Prop where
  formed : formed
  mentions : ∀ m ∈ mentions, P m
  receivers : ∀ c ∈ class?, ∀ e ∈ receivers, e ∈ c.receivers

section

variable {P P' : Mention → Prop} {class? : Option Class} {formed formed' : Prop}
  {mentions mentions' : List Mention} {receivers receivers' : List Expr}

theorem Settled.imp (h : Settled P class? formed mentions receivers) (hP : ∀ m, P m → P' m) :
    Settled P' class? formed mentions receivers :=
  ⟨h.formed, fun m hm => hP m (h.mentions m hm), h.receivers⟩

theorem Settled.part (h : Settled P class? formed mentions receivers) (hf : formed → formed')
    (hm : mentions' ⊆ mentions) (hr : receivers' ⊆ receivers) :
    Settled P class? formed' mentions' receivers' :=
  ⟨hf h.formed, fun m hmem => h.mentions m (hm hmem), fun c hc e he => h.receivers c hc e (hr he)⟩

theorem Settled.left (h : Settled P class? (formed ∧ formed') (mentions ++ mentions')
    (receivers ++ receivers')) : Settled P class? formed mentions receivers :=
  h.part And.left (List.subset_append_left _ _) (List.subset_append_left _ _)

theorem Settled.right (h : Settled P class? (formed ∧ formed') (mentions ++ mentions')
    (receivers ++ receivers')) : Settled P class? formed' mentions' receivers' :=
  h.part And.right (List.subset_append_right _ _) (List.subset_append_right _ _)

end

def Expr.At (P : Mention → Prop) (p : Setting) (e : Expr) : Prop :=
  Settled P p.class? e.Formed (e.mentions p.around p.frames) e.receivers

def exprsAt (P : Mention → Prop) (p : Setting) (es : List Expr) : Prop :=
  Settled P p.class? (exprsFormed es) (exprsMentions p.around p.frames es) (exprsReceivers es)

def Function.At (P : Mention → Prop) (p : Setting) (f : Function) : Prop :=
  Settled P p.class? f.Formed (f.mentions p.around .function p.frames) f.receivers

def Stmt.At (P : Mention → Prop) (p : Setting) (s : Stmt) : Prop :=
  Settled P p.class? s.Formed (s.mentions p.around p.frames) s.receivers

def stmtsAt (P : Mention → Prop) (p : Setting) (ss : List Stmt) : Prop :=
  Settled P p.class? (stmtsFormed ss) (stmtsMentions p.around p.frames ss) (stmtsReceivers ss)

/-- What is known of a class declaration, wherever it stands. -/
def Class.Settled (P : Mention → Prop) (c : Class) : Prop :=
  c.Formed ∧ ∃ around frames, ∀ m ∈ c.mentions around frames, P m

variable {P P' : Mention → Prop} {p : Setting}

namespace Expr.At

variable {e e₁ e₂ value : Expr} {name : Name}

theorem question (h : (Expr.ternary e e₁ e₂).At P p) : e.At P p :=
  Settled.left h

theorem answer (h : (Expr.ternary e e₁ e₂).At P p) (b : Bool) :
    Expr.At P p (if b then e₁ else e₂) := by
  have h := Settled.right h
  cases b with
  | true => exact h.left
  | false => exact h.right

theorem assigned {o : Occurrence} (h : (Expr.assign o value).At P p) :
    o.name.Plain ∧ value.At P p :=
  ⟨h.formed.1, h.part And.right (List.subset_append_left _ _) fun _ => id⟩

theorem object (h : (Expr.get e name).At P p) : e.At P p :=
  h.part And.left (fun _ => id) fun _ => id

theorem holder (h : (Expr.set e name value).At P p) : e.At P p :=
  h.part And.left (List.subset_append_right _ _) (List.subset_append_right _ _)

theorem stored (h : (Expr.set e name value).At P p) : value.At P p :=
  h.part (fun hf => hf.2.1) (List.subset_append_left _ _) (List.subset_append_left _ _)

end Expr.At

/-- The body of a function that is no member. -/
theorem Function.At.body {f : Function} (h : f.At P p) :
    (∀ q ∈ f.parameters, q.Plain) ∧ stmtsAt P (p.inBody f.parameters) f.body := by
  obtain ⟨name?, parameters, body, line⟩ := f
  exact ⟨h.formed.1, h.part And.right (List.subset_append_right _ _) fun _ => id⟩

namespace Stmt.At

variable {name : Name} {e : Expr} {s : Stmt} {s? : Option Stmt} {e? : Option Expr}

theorem initializer (h : (Stmt.var name (some e)).At P p) :
    name.Plain ∧ e.At P (p.bound name.text false) :=
  ⟨h.formed.1, h.part And.right (List.subset_cons_self _ _) fun _ => id⟩

theorem named (h : (Stmt.var name e?).At P p) : name.Plain := by
  cases e? with
  | none => exact h.formed
  | some e => exact h.formed.1

theorem condition (h : (Stmt.if e s s?).At P p) : e.At P p := by
  cases s? with
  | none => exact Settled.left h
  | some s' => exact Settled.left h

theorem thenBranch (h : (Stmt.if e s s?).At P p) : s.At P p := by
  cases s? with
  | none => exact (Settled.right h).part And.left (fun _ => id) fun _ => id
  | some s' => exact (Settled.right h).left.part And.left (fun _ => id) fun _ => id

theorem elseBranch {s' : Stmt} (h : (Stmt.if e s (some s')).At P p) : s'.At P p :=
  (Settled.right h).right.part And.left (fun _ => id) fun _ => id

theorem test (h : (Stmt.while e s e?).At P p) : e.At P p := by
  cases e? with
  | none => exact Settled.left h
  | some e' => exact Settled.left h

theorem turn (h : (Stmt.while e s e?).At P p) : s.At P p.looping := by
  cases e? with
  | none => exact (Settled.right h).part And.left (fun _ => id) fun _ => id
  | some e' => exact (Settled.right h).left.part And.left (fun _ => id) fun _ => id

theorem increment {e' : Expr} (h : (Stmt.while e s (some e')).At P p) : e'.At P p :=
  (Settled.right h).right

/-- A function is declared where its name is bound. -/
theorem function {f : Function} (h : (Stmt.function f).At P p) :
    f.Named ∧ f.At P (p.after (.function f)) := by
  obtain ⟨name, hname, hplain⟩ := h.formed.1
  refine ⟨h.formed.1, h.part And.right ?_ fun _ => id⟩
  have hframes : (p.after (.function f)).frames = p.frames.introduced name.text := by
    have hdeclared : (Stmt.function f).declared? = some name := hname
    unfold Setting.after Stmt.after
    rw [hdeclared]
  have hmentions : (Stmt.function f).mentions p.around p.frames =
      ⟨.declare name, p.around, p.frames⟩ ::
        f.mentions p.around .function (p.frames.introduced name.text) := by
    unfold Stmt.mentions
    rw [hname]
  rw [hframes, hmentions]
  exact List.subset_cons_self _ _

theorem «class» {c : Class} (h : (Stmt.class c).At P p) : c.Settled P :=
  ⟨h.formed, p.around, p.frames, h.mentions⟩

theorem result {line : Nat} (h : (Stmt.return line (some e)).At P p) : e.At P p :=
  h

/-- The names that a statement declares are plain. -/
theorem declared {s : Stmt} (h : s.At P p) {name : Name} (hname : s.declared? = some name) :
    name.Plain := by
  cases s with
  | var n initializer? =>
    cases hname
    exact h.named
  | function f =>
    obtain ⟨n, hn, hplain⟩ := h.function.1
    rw [Stmt.declared?, hn] at hname
    cases hname
    exact hplain
  | «class» c =>
    cases hname
    obtain ⟨name, superclass?, methods, getters⟩ := c
    exact h.formed.1
  | _ => cases hname

theorem after {s : Stmt} (h : s.At P p) (hp : p.Fits) : (p.after s).Fits := by
  unfold Setting.after Stmt.after
  cases hs : s.declared? with
  | none => exact hp
  | some name =>
    dsimp only
    rw [Frames.introduced_eq]
    exact hp.bound (h.declared hs) true

end Stmt.At

theorem stmtsAt.next {s : Stmt} {ss : List Stmt} (h : stmtsAt P p (s :: ss)) :
    stmtsAt P (p.after s) ss :=
  Settled.right h

namespace Class

variable {c : Class}

theorem mem_receivers {f : Function} (hf : f ∈ c.methods ∨ f ∈ c.getters) {e : Expr}
    (he : e ∈ f.receivers) : e ∈ c.receivers :=
  List.mem_flatMap.mpr ⟨f, List.mem_append.mpr hf, he⟩

/-- The mentions in the members of a class. -/
theorem functionsMentions_subset (around : Surroundings) (frames : Frames) (c : Class) :
    functionsMentions (inside around c) (c.frames frames) Function.methodKind c.methods ++
      functionsMentions (inside around c) (c.frames frames) (fun _ => .method) c.getters ⊆
        c.mentions around frames := by
  obtain ⟨name, superclass?, methods, getters⟩ := c
  cases superclass? with
  | none => exact List.subset_cons_self _ _
  | some o => exact List.Subset.trans (List.subset_cons_self _ _) (List.subset_cons_self _ _)

end Class

/-- The mentions and the formation of one of several functions. -/
theorem functions_mem {around : Surroundings} {frames : Frames} (kind : Function → BodyKind)
    {fs : List Function} {f : Function} (hf : f ∈ fs) (hformed : functionsFormed fs) :
    f.Formed ∧ f.mentions around (kind f) frames ⊆ functionsMentions around frames kind fs := by
  induction fs with
  | nil => cases hf
  | cons g gs ih =>
    rcases List.mem_cons.mp hf with rfl | hmem
    · exact ⟨hformed.1, List.subset_append_left _ _⟩
    · obtain ⟨hformed, hsubset⟩ := ih hmem hformed.2
      exact ⟨hformed, List.Subset.trans hsubset (List.subset_append_right _ _)⟩

/-- The mentions and the formation of a member. -/
theorem Class.Formed.member {c : Class} (h : c.Formed) {f : Function}
    (hf : f ∈ c.methods ∨ f ∈ c.getters) (around : Surroundings) (frames : Frames) :
    ∃ kind, f.Formed ∧
      f.mentions (Class.inside around c) kind (c.frames frames) ⊆ c.mentions around frames := by
  obtain ⟨hmethods, hgetters⟩ : functionsFormed c.methods ∧ functionsFormed c.getters := by
    obtain ⟨name, superclass?, methods, getters⟩ := c
    exact ⟨h.2.1.1, h.2.2.1.1⟩
  obtain ⟨hinMethods, hinGetters⟩ :=
    List.append_subset.mp (Class.functionsMentions_subset around frames c)
  rcases hf with hf | hf
  · obtain ⟨hformed, hsubset⟩ := functions_mem Function.methodKind hf hmethods
    exact ⟨_, hformed, List.Subset.trans hsubset hinMethods⟩
  · obtain ⟨hformed, hsubset⟩ := functions_mem (fun _ => .method) hf hgetters
    exact ⟨_, hformed, List.Subset.trans hsubset hinGetters⟩

/-- The body of a member. -/
theorem Class.Settled.body {c : Class} (h : c.Settled P) {f : Function}
    (hf : f ∈ c.methods ∨ f ∈ c.getters) : ∃ p : Setting, p.class? = some c ∧ p.depth = 0 ∧ p.Fits ∧
      (∀ q ∈ f.parameters, q.Plain) ∧ stmtsAt P p f.body := by
  obtain ⟨hclass, around, frames, hP⟩ := h
  obtain ⟨kind, hformed, hsubset⟩ := hclass.member hf around frames
  have hreceivers : ∀ e ∈ f.receivers, e ∈ c.receivers := fun e => Class.mem_receivers hf
  obtain ⟨name?, parameters, body, line⟩ := f
  refine ⟨.inMember around frames c kind parameters, rfl, rfl,
    Setting.fits_inMember _ _ _ _ hformed.1, hformed.1, hformed.2,
    fun m hm => hP m (hsubset ?_), ?_⟩
  · exact List.mem_append_right _ hm
  · intro c' hc'
    cases hc'
    exact hreceivers

end LoxLang
