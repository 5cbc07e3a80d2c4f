import LoxLang.Proofs.Scoping.Forming
import LoxLang.Proofs.Scoping.Sites
import LoxLang.Proofs.Scoping.Tracing
import Mathlib.Data.List.Forall2
import Mathlib.Data.List.ReduceOption

/-!
What the analysis reports. Its scopes and flags say of every place what the path of the place says,
and so it reports each place that violates a rule, once and in order, and nothing else.
-/

namespace LoxLang

/-- The kind of the body of a function that is written in this way. -/
def FunctionForm.kind (f : Function) : FunctionForm → BodyKind
  | .declaration | .lambda => .function
  | .method => f.methodKind
  | .getter => .method

theorem Function.methodKind_eq_initializer {f : Function} :
    f.methodKind = .initializer ↔ ∃ name, f.name? = some name ∧ name.text = "init" := by
  have hkind : f.methodKind = .initializer ↔ f.displayName = "init" := by
    unfold methodKind
    split <;> simp [*]
  rw [hkind]
  unfold displayName
  cases f.name? with
  | none => simp
  | some name => simp

theorem FunctionForm.kind_ne_program (form : FunctionForm) (f : Function) :
    form.kind f ≠ .program := by
  cases form with
  | method =>
    show f.methodKind ≠ .program
    unfold Function.methodKind
    split <;> simp
  | _ => simp [kind]

/-- Only a method can have the body of an initializer. -/
theorem FunctionForm.kind_eq_initializer {form : FunctionForm} {f : Function} :
    form.kind f = .initializer ↔
      form = .method ∧ ∃ name, f.name? = some name ∧ name.text = "init" := by
  cases form with
  | method => simpa [kind] using Function.methodKind_eq_initializer
  | _ => simp [kind]

namespace Path

variable {P : Enclosure → Path → Prop} {e : Enclosure} {path outer : Path} {name : Name}

theorem directly_cons :
    Directly P (e :: outer) ↔ P e outer ∨ e.function? = none ∧ outer.Directly P := by
  constructor
  · intro h
    cases h with
    | here h => exact .inl h
    | outward he h => exact .inr ⟨he, h⟩
  · rintro (h | ⟨he, h⟩)
    · exact .here h
    · exact .outward he h

/-- What the analysis notes of the functions, the classes and the loops of a path. -/
def around : Path → Surroundings
  | [] => .top
  | .scope _ :: outer | .initializer _ :: outer => around outer
  | .function form f :: outer => { around outer with body := form.kind f, inLoop := false }
  | .class c :: outer => c.inside (around outer)
  | .loop :: outer => { around outer with inLoop := true }

theorem around_body_program : path.around.body = .program ↔ path.function? = none := by
  induction path with
  | nil => exact iff_of_true rfl rfl
  | cons e outer ih =>
    cases e with
    | function form f => exact iff_of_false (form.kind_ne_program f) nofun
    | _ => exact ih

theorem around_body_initializer : path.around.body = .initializer ↔
    ∃ f name, path.function? = some (.method, f) ∧ f.name? = some name ∧ name.text = "init" := by
  induction path with
  | nil => exact iff_of_false nofun (by rintro ⟨_, _, ⟨⟩, _⟩)
  | cons e outer ih =>
    cases e with
    | function form f =>
      refine FunctionForm.kind_eq_initializer.trans ?_
      constructor
      · rintro ⟨rfl, name, hn, hi⟩
        exact ⟨f, name, rfl, hn, hi⟩
      · rintro ⟨_, name, ⟨⟩, hn, hi⟩
        exact ⟨rfl, name, hn, hi⟩
    | _ => exact ih

theorem around_class_none : path.around.class = .none ↔ path.class? = none := by
  induction path with
  | nil => exact iff_of_true rfl rfl
  | cons e outer ih =>
    cases e with
    | «class» c =>
      refine iff_of_false ?_ nofun
      show (if c.superclass?.isSome then ClassKind.subclass else .base) ≠ .none
      split <;> simp
    | _ => exact ih

theorem around_class_base :
    path.around.class = .base ↔ ∃ c, path.class? = some c ∧ c.superclass? = none := by
  induction path with
  | nil => exact iff_of_false nofun (by rintro ⟨_, ⟨⟩, _⟩)
  | cons e outer ih =>
    cases e with
    | «class» c =>
      have hclass : class? (.class c :: outer) = some c := rfl
      have haround : (around (.class c :: outer)).class =
        if c.superclass?.isSome then .subclass else .base := rfl
      rw [hclass, haround]
      cases h : c.superclass? <;> simp [h]
    | _ => exact ih

theorem around_inLoop : path.around.inLoop = true ↔ path.InLoop := by
  unfold InLoop
  induction path with
  | nil => exact iff_of_false nofun nofun
  | cons e outer ih =>
    rw [directly_cons, ← ih]
    cases e with
    | loop => exact iff_of_true rfl (.inl rfl)
    | function form f =>
      refine iff_of_false nofun ?_
      rintro (h | ⟨h, -⟩) <;> cases h
    | _ => simp [around, Enclosure.function?, Class.inside]

@[simp] theorem held?_declaring :
    (path.declaring name).held? = path.held?.map (· ++ [name]) := by
  induction path with
  | nil => rfl
  | cons e outer ih =>
    cases e with
    | scope names => rfl
    | _ => exact ih

@[simp] theorem around_declaring : (path.declaring name).around = path.around := by
  induction path with
  | nil => rfl
  | cons e outer ih =>
    cases e with
    | scope names => rfl
    | _ => simp only [declaring, around, ih]

@[simp] theorem around_pathBehind (s : Stmt) : (s.pathBehind path).around = path.around := by
  unfold Stmt.pathBehind
  split
  · exact around_declaring
  · rfl

theorem inInitializer_cons {text : String} : InInitializer (e :: outer) text ↔
    (∃ v, e = .initializer v ∧ v.text = text ∧ outer.held? ≠ none) ∨
      e.function? = none ∧ outer.InInitializer text :=
  directly_cons

@[simp] theorem inInitializer_declaring {text : String} :
    (path.declaring name).InInitializer text ↔ path.InInitializer text := by
  induction path with
  | nil => exact Iff.rfl
  | cons e outer ih =>
    cases e with
    | scope names => simp [declaring, inInitializer_cons, Enclosure.function?]
    | _ => simp [declaring, inInitializer_cons, ih]

/-- Whether the innermost scope of the analysis is the one of a variable that is being initialized
just where the path of an expression says so. -/
def ReadsIn (path : Path) (Γ : Frames) : Prop :=
  ∀ text, Γ.head?.any (·.find? text == some false) = true ↔ path.InInitializer text

/-- Whether the innermost scope of the analysis is the one that the path of a statement says, and
no variable of it is being initialized. -/
structure StandsIn (path : Path) (Γ : Frames) : Prop where
  outside : Γ = [] ↔ path.held? = none
  held : ∀ text, Γ.head?.any (·.contains text) = true ↔
    ∃ names, path.held? = some names ∧ text ∈ names.map (·.text)
  settled : ∀ text, Γ.head?.any (·.find? text == some false) = false
  idle : ∀ text, ¬ path.InInitializer text

namespace StandsIn

variable {Γ : Frames}

theorem readsIn (h : path.StandsIn Γ) : path.ReadsIn Γ :=
  fun text => iff_of_false (by simp [h.settled text]) (h.idle text)

theorem top : StandsIn [] [] :=
  ⟨iff_of_true rfl rfl, by simp [held?], fun _ => rfl, nofun⟩

/-- A new scope holds nothing. -/
theorem scope (h : ∀ text, ¬ outer.InInitializer text) :
    StandsIn (.scope [] :: outer) (.empty :: Γ) := by
  refine ⟨iff_of_false nofun nofun, ?_, ?_, ?_⟩
  · simp [held?, Enclosure.names?, Table.contains]
  · simp
  · simpa [inInitializer_cons] using fun text _ => h text

theorem block (h : path.StandsIn Γ) : StandsIn (.scope [] :: path) (.empty :: Γ) :=
  scope h.idle

/-- The body of a function is in no initializer, wherever the function is. -/
theorem body (form : FunctionForm) (f : Function) :
    StandsIn (.scope [] :: .function form f :: outer) (.empty :: Γ) := by
  refine scope fun text => ?_
  rw [inInitializer_cons]
  rintro (⟨v, h, -⟩ | ⟨h, -⟩) <;> cases h

theorem loop (h : path.StandsIn Γ) : StandsIn (.loop :: path) Γ := by
  refine ⟨h.outside, h.held, h.settled, ?_⟩
  simpa [inInitializer_cons] using fun text _ => h.idle text

theorem declaring (h : path.StandsIn Γ) (name : Name) :
    (path.declaring name).StandsIn (Γ.introduced name.text) := by
  rw [Frames.introduced_eq]
  cases Γ with
  | nil =>
    have hheld : path.held? = none := h.outside.mp rfl
    have hbehind : (path.declaring name).held? = none := by simp [hheld]
    exact ⟨iff_of_true rfl hbehind, by simp [hbehind, Frames.bound], fun _ => rfl,
      by simpa using h.idle⟩
  | cons frame outer =>
    obtain ⟨names, hnames⟩ : ∃ names, path.held? = some names :=
      Option.ne_none_iff_exists'.mp fun hn => absurd (h.outside.mpr hn) (by simp)
    have hbehind : (path.declaring name).held? = some (names ++ [name]) := by simp [hnames]
    have hheld : ∀ text, frame.contains text = true ↔ text ∈ names.map (·.text) := by
      simpa [hnames] using h.held
    have hsettled : ∀ text, frame.find? text ≠ some false := by simpa using h.settled
    refine ⟨iff_of_false (by simp [Frames.bound]) (by simp [hbehind]), fun text => ?_,
      fun text => ?_, by simpa using h.idle⟩
    · have hinsert : (frame.insert name.text true).contains text = true ↔
          frame.contains text = true ∨ name.text = text := by
        by_cases ht : text = name.text
        · simp [Table.contains, ht]
        · simp [Table.contains, ht, Ne.symm ht]
      simp [Frames.bound, hinsert, hheld, hbehind]
    · by_cases ht : text = name.text <;> simp [Frames.bound, ht, hsettled]

/-- A statement is in no initializer, whatever it has declared so far. -/
theorem readsIn_introduced (h : path.StandsIn Γ) (name : Name) :
    path.ReadsIn (Γ.introduced name.text) :=
  fun text => iff_of_false (by simp [(h.declaring name).settled text]) (h.idle text)

theorem parameters {before : List Name} (h : StandsIn (.scope before :: outer) Γ)
    (ps : List Name) : StandsIn (.scope (before ++ ps) :: outer)
      (ps.foldl (fun Γ p => Γ.introduced p.text) Γ) := by
  induction ps generalizing before Γ with
  | nil =>
    rw [List.append_nil]
    exact h
  | cons p ps ih =>
    have hmore := ih (h.declaring p)
    rw [List.append_assoc] at hmore
    exact hmore

theorem pathBehind (h : path.StandsIn Γ) (s : Stmt) :
    (s.pathBehind path).StandsIn (s.after Γ) := by
  unfold Stmt.pathBehind Stmt.after
  cases s.declared? with
  | none => exact h
  | some name => exact h.declaring name

/-- While a local variable is initialized it is bound to `false`, and nothing else is. -/
theorem initializer (h : path.StandsIn Γ) (name : Name) :
    ReadsIn (.initializer name :: path) (Γ.bound name.text false) := by
  intro text
  have hin : InInitializer (.initializer name :: path) text ↔
      name.text = text ∧ path.held? ≠ none := by
    simp [inInitializer_cons, h.idle text]
  rw [hin]
  cases Γ with
  | nil => simp [Frames.bound, h.outside.mp rfl]
  | cons frame outer =>
    have hheld : path.held? ≠ none := fun hn => absurd (h.outside.mpr hn) (by simp)
    have hsettled : frame.find? text ≠ some false := by simpa using h.settled text
    by_cases ht : text = name.text
    · simp [Frames.bound, ht, hheld]
    · simp [Frames.bound, ht, hsettled, Ne.symm ht]

end StandsIn

end Path

/-- The analysis has gone from one state to another over these places, to these scopes, with a
report of each place that violates a rule. -/
structure Reported (before after : Scoping) (Γ : Frames) (sites : List Site) : Prop where
  frames : after.scopes = Γ
  errors : ∃ reports, List.Forall₂ Site.Reports sites reports ∧
    after.errors = reports.reduceOption.reverse ++ before.errors

namespace Reported

variable {s s₁ s₂ : Scoping} {Γ Γ₁ Γ₂ : Frames} {sites sites₁ sites₂ : List Site} {path : Path}
  {site : Site} {line : Nat} {ms : List Mention}

theorem refl (h : s.scopes = Γ) : Reported s s Γ [] :=
  ⟨h, [], .nil, rfl⟩

theorem trans (h₁ : Reported s s₁ Γ₁ sites₁) (h₂ : Reported s₁ s₂ Γ₂ sites₂) :
    Reported s s₂ Γ₂ (sites₁ ++ sites₂) := by
  obtain ⟨reports₁, hr₁, he₁⟩ := h₁.errors
  obtain ⟨reports₂, hr₂, he₂⟩ := h₂.errors
  refine ⟨h₂.frames, reports₁ ++ reports₂, List.rel_append hr₁ hr₂, ?_⟩
  rw [he₂, he₁, List.reduceOption_append, List.reverse_append, List.append_assoc]

/-- A step that concerns no place. -/
theorem silent (hf : s₁.scopes = Γ) (he : s₁.errors = s.errors) : Reported s s₁ Γ [] :=
  ⟨hf, [], .nil, he⟩

/-- A place that violates no rule. -/
theorem allowed (hv : ∀ e, ¬ site.Violates e) (hf : s.scopes = Γ) : Reported s s Γ [site] := by
  refine ⟨hf, [none], .cons (fun d => ?_) .nil, rfl⟩
  simp [hv]

/-- A place that violates one rule. -/
theorem violated {error : ScopeError} (hv : ∀ e, site.Violates e ↔ e = error)
    (hf : s.scopes = Γ) :
    Reported s (s.report site.node.line site.node.lexeme error) Γ [site] := by
  refine ⟨hf, [some (.scope site.node.line site.node.lexeme error)], .cons (fun d => ?_) .nil, rfl⟩
  simp [hv, eq_comm]

/-- A place that can violate one rule. -/
theorem reportIf {b : Bool} {error : ScopeError}
    (hv : ∀ e, site.Violates e ↔ b = true ∧ e = error) (hf : s.scopes = Γ) :
    Reported s (s.reportIf b site.node.line site.node.lexeme error) Γ [site] := by
  cases b with
  | true => exact violated (by simpa using hv) hf
  | false => exact allowed (by simpa using hv) hf

theorem declare (name : Name) (hf : s.scopes = Γ) (hp : path.StandsIn Γ) :
    Reported s (s.declare name) (Γ.bound name.text false) [⟨.declares name, path⟩] := by
  have hbound : (s.bind name.text false).scopes = Γ.bound name.text false := by
    rw [Scoping.bind_eq, hf]
  have herrors : (s.bind name.text false).errors = s.errors := by
    rw [Scoping.bind_eq]
  have hviolates : ∀ e, Site.Violates ⟨.declares name, path⟩ e ↔
      s.innermost (·.contains name.text) = true ∧ e = .duplicateName := by
    intro e
    rw [Site.violates_declares, Scoping.innermost, hf, hp.held]
  exact (silent (s := s) rfl herrors).trans (reportIf hviolates hbound)

theorem define (name : Name) (hf : s.scopes = Γ) :
    Reported s (s.define name) (Γ.bound name.text true) [] := by
  unfold Scoping.define
  rw [Scoping.bind_eq, hf]
  exact silent rfl rfl

theorem introduce (name : Name) (hf : s.scopes = Γ) (hp : path.StandsIn Γ) :
    Reported s (s.introduce name) (Γ.introduced name.text) [⟨.declares name, path⟩] :=
  have declared := declare name hf hp
  declared.trans (define name declared.frames)

theorem locate (id : Nat) (name : String) (hf : s.scopes = Γ) :
    Reported s (s.locate id name) Γ [] :=
  silent hf rfl

theorem read (o : Occurrence) (hf : s.scopes = Γ) (hp : path.ReadsIn Γ) :
    Reported s (s.read o) Γ [⟨.reads o, path⟩] := by
  have hviolates : ∀ e, Site.Violates ⟨.reads o, path⟩ e ↔
      s.innermost (·.find? o.name.text == some false) = true ∧ e = .ownInitializer := by
    intro e
    rw [Site.violates_reads, Scoping.innermost, hf, hp]
  have checked := reportIf hviolates hf
  exact checked.trans (locate o.id o.name.text checked.frames)

theorem readThis (id line : Nat) (hf : s.scopes = Γ) :
    Reported s (s.readThis path.around id line) Γ [⟨.this line, path⟩] := by
  have hviolates : ∀ e, Site.Violates ⟨.this line, path⟩ e ↔
      path.around.class = .none ∧ e = .thisOutsideClass := by
    intro e
    rw [Site.violates_this, Path.around_class_none]
  unfold Scoping.readThis
  split
  · rename_i hc
    have met : Reported s (s.meet id none) Γ [] := silent hf rfl
    let site : Site := ⟨.this line, path⟩
    have hthis : ∀ e, site.Violates e ↔ e = .thisOutsideClass := by
      simpa [hc] using hviolates
    exact met.trans (violated hthis met.frames)
  · rename_i hc
    exact (allowed (by simpa [hc] using hviolates) hf).trans (locate id "this" hf)

theorem readSuper (id line : Nat) (hf : s.scopes = Γ) :
    Reported s (s.readSuper path.around id line) Γ [⟨.super line, path⟩] := by
  have hviolates : ∀ e, Site.Violates ⟨.super line, path⟩ e ↔
      path.around.class = .none ∧ e = .superOutsideClass ∨
      path.around.class = .base ∧ e = .superWithoutSuperclass := by
    intro e
    rw [Site.violates_super, Path.around_class_none, Path.around_class_base]
  unfold Scoping.readSuper
  cases hc : path.around.class with
  | none | base =>
    have reported := violated (by simpa [hc] using hviolates) hf
    exact reported.trans (locate id "super" reported.frames)
  | subclass => exact (allowed (by simp [hviolates, hc]) hf).trans (locate id "super" hf)

theorem enter (hf : s.scopes = Γ) : Reported s s.enter (.empty :: Γ) [] :=
  silent (congrArg _ hf) rfl

theorem within (name : String) (hf : s.scopes = Γ) :
    Reported s (s.enter.bind name true) (Γ.within name) [] := by
  rw [Scoping.bind_eq]
  refine silent ?_ rfl
  rw [← hf]
  rfl

theorem leave (h : Reported s s₁ Γ₁ sites) (ht : Γ₁.tail = Γ) : Reported s s₁.leave Γ sites :=
  ⟨(congrArg List.tail h.frames).trans ht, h.errors⟩

theorem readSuperclass (className : Name) (o : Occurrence) (hf : s.scopes = Γ)
    (hp : path.ReadsIn Γ) : Reported s (s.readSuperclass className o) (Γ.within "super")
      [⟨.inherits className o, path⟩, ⟨.reads o, path⟩] := by
  have hviolates : ∀ e, Site.Violates ⟨.inherits className o, path⟩ e ↔
      decide (o.name.text = className.text) = true ∧ e = .inheritsFromItself := by
    intro e
    rw [Site.violates_inherits, decide_eq_true_iff]
  have checked := reportIf hviolates hf
  have reads := checked.trans (read o checked.frames hp)
  exact reads.trans (within "super" reads.frames)

theorem returns (line : Nat) (hf : s.scopes = Γ) :
    Reported s (s.reportIf (path.around.body = .program) line "return" .returnOutsideFunction) Γ
      [⟨.returns line false, path⟩] := by
  have hviolates : ∀ e, Site.Violates ⟨.returns line false, path⟩ e ↔
      decide (path.around.body = .program) = true ∧ e = .returnOutsideFunction := by
    intro e
    simp [Site.violates_returns, Path.around_body_program]
  exact reportIf hviolates hf

/-- No return is outside all functions and in an initializer. -/
theorem returnsValue (line : Nat) (hf : s.scopes = Γ) :
    Reported s ((s.reportIf (path.around.body = .program) line "return"
      .returnOutsideFunction).reportIf (path.around.body = .initializer) line "return"
      .valueFromInitializer) Γ [⟨.returns line true, path⟩] := by
  have hviolates : ∀ e, Site.Violates ⟨.returns line true, path⟩ e ↔
      path.around.body = .program ∧ e = .returnOutsideFunction ∨
      path.around.body = .initializer ∧ e = .valueFromInitializer := by
    intro e
    simp [Site.violates_returns, Path.around_body_program, Path.around_body_initializer]
  cases hb : path.around.body with
  | program | initializer => exact violated (by simpa [hb] using hviolates) hf
  | function | method => exact allowed (by simp [hviolates, hb]) hf

theorem breaks (line : Nat) (hf : s.scopes = Γ) :
    Reported s (s.reportIf (!path.around.inLoop) line "break" .breakOutsideLoop) Γ
      [⟨.breaks line, path⟩] := by
  have hviolates : ∀ e, Site.Violates ⟨.breaks line, path⟩ e ↔
      (!path.around.inLoop) = true ∧ e = .breakOutsideLoop := by
    intro e
    rw [Site.violates_breaks, ← Path.around_inLoop, Bool.not_eq_true', Bool.not_eq_true]
  exact reportIf hviolates hf

theorem continues (line : Nat) (hf : s.scopes = Γ) :
    Reported s (s.reportIf (!path.around.inLoop) line "continue" .continueOutsideLoop) Γ
      [⟨.continues line, path⟩] := by
  have hviolates : ∀ e, Site.Violates ⟨.continues line, path⟩ e ↔
      (!path.around.inLoop) = true ∧ e = .continueOutsideLoop := by
    intro e
    rw [Site.violates_continues, ← Path.around_inLoop, Bool.not_eq_true', Bool.not_eq_true]
  exact reportIf hviolates hf

theorem parameters {outer : Path} {before : List Name} (ps : List Name) (hf : s.scopes = Γ)
    (hp : Path.StandsIn (.scope before :: outer) Γ) :
    Reported s (ps.foldl .introduce s) (ps.foldl (fun Γ p => Γ.introduced p.text) Γ)
      (parameterSites outer before ps) := by
  induction ps generalizing s Γ before with
  | nil => exact refl hf
  | cons p ps ih =>
    have first := introduce p hf hp
    exact first.trans (ih first.frames (hp.declaring p))

end Reported

mutual

theorem Expr.reported {path : Path} {s : Scoping} {Γ : Frames} (hf : s.scopes = Γ)
    (hp : path.ReadsIn Γ) : (e : Expr) → e.Formed →
      Reported s (e.resolve path.around s) Γ (e.sites path)
  | .literal _, _ => .refl hf
  | .group inner, h => inner.reported hf hp h
  | .unary _ _ operand, h => operand.reported hf hp h
  | .binary _ _ left right, h =>
    have first := left.reported hf hp h.1
    first.trans (right.reported first.frames hp h.2)
  | .logical _ left right, h =>
    have first := left.reported hf hp h.1
    first.trans (right.reported first.frames hp h.2)
  | .ternary condition thenBranch elseBranch, h =>
    have first := condition.reported hf hp h.1
    have second := thenBranch.reported first.frames hp h.2.1
    first.trans (second.trans (elseBranch.reported second.frames hp h.2.2))
  | .comma left right, h =>
    have first := left.reported hf hp h.1
    first.trans (right.reported first.frames hp h.2)
  | .variable o, _ => .read o hf hp
  | .assign o value, h => by
    have first := value.reported hf hp h.2
    have second := first.trans (.locate o.id o.name.text first.frames)
    rw [List.append_nil] at second
    exact second
  | .call callee _ arguments, h =>
    have first := callee.reported hf hp h.1
    first.trans (exprsReported first.frames hp arguments h.2)
  | .get object _, h => object.reported hf hp h.1
  | .set object _ value, h =>
    have first := value.reported hf hp h.2.1
    first.trans (object.reported first.frames hp h.1)
  | .this id line, _ => .readThis id line hf
  | .super id line _, _ => .readSuper id line hf
  | .lambda f, h => f.reported path .lambda hf h

theorem exprsReported {path : Path} {s : Scoping} {Γ : Frames} (hf : s.scopes = Γ)
    (hp : path.ReadsIn Γ) : (es : List Expr) → exprsFormed es →
      Reported s (resolveExprs path.around es s) Γ (exprsSites path es)
  | [], _ => .refl hf
  | e :: es, h =>
    have first := e.reported hf hp h.1
    first.trans (exprsReported first.frames hp es h.2)

/-- A function is analysed the same way wherever it is. -/
theorem Function.reported (path : Path) (form : FunctionForm) {s : Scoping} {Γ : Frames}
    (hf : s.scopes = Γ) : (f : Function) → f.Formed →
      Reported s (f.resolve path.around (form.kind f) s) Γ (f.sites form path)
  | ⟨name?, parameters, body, line⟩, h =>
    have entered := Reported.enter hf
    have stands :
        Path.StandsIn (.scope [] :: .function form ⟨name?, parameters, body, line⟩ :: path)
          (.empty :: Γ) := .body form _
    have first := entered.trans (.parameters parameters entered.frames stands)
    have second := stmtsReported first.frames (stands.parameters parameters) body h.2
    (first.trans second).leave
      ((tail_stmtsAfter _ body).trans (Frames.tail_inBody Γ parameters))

theorem Stmt.reported {path : Path} {s : Scoping} {Γ : Frames} (hf : s.scopes = Γ)
    (hp : path.StandsIn Γ) : (stmt : Stmt) → stmt.Formed →
      Reported s (stmt.resolve path.around s) (stmt.after Γ) (stmt.sites path)
  | .expression e, h => e.reported hf hp.readsIn h
  | .print e, h => e.reported hf hp.readsIn h
  | .var name none, _ => .introduce name hf hp
  | .var name (some initializer), h => by
    have first := Reported.declare name hf hp
    have second := first.trans (initializer.reported first.frames (hp.initializer name) h.2)
    have third := second.trans (.define name second.frames)
    rw [List.append_nil] at third
    exact third
  | .block body, h =>
    have entered := Reported.enter hf
    (entered.trans (stmtsReported entered.frames hp.block body h)).leave (tail_stmtsAfter _ body)
  | .if condition thenBranch none, h => by
    have first := condition.reported hf hp.readsIn h.1
    have second := thenBranch.reported first.frames hp h.2.1
    rw [Stmt.after_of_none h.2.2] at second
    exact first.trans second
  | .if condition thenBranch (some elseBranch), h => by
    have first := condition.reported hf hp.readsIn h.1
    have second := thenBranch.reported first.frames hp h.2.1.1
    rw [Stmt.after_of_none h.2.1.2] at second
    have third := elseBranch.reported second.frames hp h.2.2.1
    rw [Stmt.after_of_none h.2.2.2] at third
    exact first.trans (second.trans third)
  | .while condition body none, h => by
    have first := condition.reported hf hp.readsIn h.1
    have second := body.reported first.frames hp.loop h.2.1
    rw [Stmt.after_of_none h.2.2] at second
    exact first.trans second
  | .while condition body (some increment), h => by
    have first := condition.reported hf hp.readsIn h.1
    have second := body.reported first.frames hp.loop h.2.1.1
    rw [Stmt.after_of_none h.2.1.2] at second
    exact first.trans (second.trans (increment.reported second.frames hp.readsIn h.2.2))
  | .function f, h => by
    obtain ⟨name, hn, -⟩ := h.1
    have first := Reported.introduce name hf hp
    have second := first.trans (f.reported path .declaration first.frames h.2)
    simpa [Stmt.resolve, Stmt.after, Stmt.sites, Stmt.declared?, FunctionForm.kind, hn] using second
  | .class c, h => c.reported hf hp h
  | .return line none, _ => .returns line hf
  | .return line (some value), h =>
    have first := Reported.returnsValue line hf
    first.trans (value.reported first.frames hp.readsIn h)
  | .break line, _ => .breaks line hf
  | .continue line, _ => .continues line hf

theorem stmtsReported {path : Path} {s : Scoping} {Γ : Frames} (hf : s.scopes = Γ)
    (hp : path.StandsIn Γ) : (ss : List Stmt) → stmtsFormed ss →
      Reported s (resolveStmts path.around ss s) (stmtsAfter Γ ss) (stmtsSites path ss)
  | [], _ => .refl hf
  | stmt :: ss, h => by
    have first := stmt.reported hf hp h.1
    have rest := stmtsReported first.frames (hp.pathBehind stmt) ss h.2
    rw [Path.around_pathBehind] at rest
    exact first.trans rest

theorem Class.reported {path : Path} {s : Scoping} {Γ : Frames} (hf : s.scopes = Γ)
    (hp : path.StandsIn Γ) : (c : Class) → c.Formed →
      Reported s (c.resolve path.around s) (Γ.introduced c.name.text) (c.sites path)
  | ⟨name, none, methods, getters⟩, h =>
    have declared := Reported.introduce name hf hp
    have first := declared.trans (.within "this" declared.frames)
    have second := functionsReported (.class ⟨name, none, methods, getters⟩ :: path) .method
      first.frames methods h.2.1.1
    have third := functionsReported (.class ⟨name, none, methods, getters⟩ :: path) .getter
      second.frames getters h.2.2.1.1
    (first.trans (second.trans third)).leave rfl
  | ⟨name, some superclass, methods, getters⟩, h =>
    have declared := Reported.introduce name hf hp
    have inherited := declared.trans
      (.readSuperclass name superclass declared.frames (hp.readsIn_introduced name))
    have first := inherited.trans (.within "this" inherited.frames)
    have second := functionsReported (.class ⟨name, some superclass, methods, getters⟩ :: path)
      .method first.frames methods h.2.1.1
    have third := functionsReported (.class ⟨name, some superclass, methods, getters⟩ :: path)
      .getter second.frames getters h.2.2.1.1
    ((first.trans (second.trans third)).leave rfl).leave rfl

theorem functionsReported (path : Path) (form : FunctionForm) {s : Scoping} {Γ : Frames}
    (hf : s.scopes = Γ) : (fs : List Function) → functionsFormed fs →
      Reported s (resolveFunctions path.around (form.kind ·) fs s) Γ (functionsSites form path fs)
  | [], _ => .refl hf
  | f :: fs, h =>
    have first := f.reported path form hf h.1
    first.trans (functionsReported path form first.frames fs h.2)

end

/-- There is no report just if no place violates a rule. -/
theorem Site.reduceOption_eq_nil {sites : List Site} {reports : List (Option Diagnostic)}
    (h : List.Forall₂ Site.Reports sites reports) :
    reports.reduceOption = [] ↔ ∀ site ∈ sites, ∀ error, ¬ site.Violates error := by
  induction h with
  | nil => simp
  | @cons site report? sites reports hr _ ih =>
    cases report? with
    | none =>
      have hv : ∀ error, ¬ site.Violates error := fun error h => by
        cases (hr _).mpr ⟨error, h, rfl⟩
      simp [hv, ih]
    | some d =>
      obtain ⟨error, hv, -⟩ := (hr d).mp rfl
      refine iff_of_false nofun fun hall => ?_
      exact hall site List.mem_cons_self error hv

/-- Where two programs pass the analysis one behind the other, so does the program of both. -/
theorem resolveProgram_append {ss tt : List Stmt} {D D₁ D₂ : Distances} (hss : stmtsFormed ss)
    (htt : stmtsFormed tt) (h : resolveProgram ss D = .ok D₁) (h' : resolveProgram tt D₁ = .ok D₂) :
    resolveProgram (ss ++ tt) D = .ok D₂ := by
  obtain ⟨he, rfl⟩ := resolveProgram_eq_ok.mp h
  obtain ⟨he', rfl⟩ := resolveProgram_eq_ok.mp h'
  have hscopes : (resolveStmts .top ss .start).scopes = [] :=
    (stmtsTraced .top rfl ss hss).frames.trans (stmtsAfter_nil ss)
  have stands : Path.StandsIn [] [] := .top
  obtain ⟨-, _, hreports, herrors⟩ := stmtsReported (s := .start) rfl stands tt htt
  obtain ⟨-, _, hreports', herrors'⟩ := stmtsReported hscopes stands tt htt
  have hnone := (List.append_eq_nil_iff.mp (herrors.symm.trans he')).1
  have hallowed := (Site.reduceOption_eq_nil hreports).mp (List.reverse_eq_nil_iff.mp hnone)
  have hboth : (resolveStmts .top tt (resolveStmts .top ss .start)).errors = [] := by
    rw [(Site.reduceOption_eq_nil hreports').mpr hallowed, he] at herrors'
    exact herrors'
  refine resolveProgram_eq_ok.mpr ⟨?_, ?_⟩
  · rw [resolveStmts_append]
    exact hboth
  · rw [resolveStmts_append, (stmtsTraced .top hscopes tt htt).noted (hboth.trans he.symm),
      (stmtsTraced .top (s := .start) rfl tt htt).noted he']
    rfl

/-- The analysis accepts a program that is read from a text just if no place violates a rule. Else
its errors are the reports of the places in order, one of each place that violates a rule and none
of any other. -/
theorem Program.resolve_exact {firstId : Nat} {source : String} {p : Program}
    (h : ofSource firstId source = .ok p) (D : Distances) :
    ((∃ D', resolveProgram p.statements D = .ok D') ↔
      ∀ site ∈ p.sites, ∀ error, ¬ site.Violates error) ∧
    ∃ reports, List.Forall₂ Site.Reports p.sites reports ∧
      ((∃ site ∈ p.sites, ∃ error, site.Violates error) →
        resolveProgram p.statements D = .error reports.reduceOption) := by
  have hreported : Reported .start (resolveStmts .top p.statements .start)
      (stmtsAfter [] p.statements) p.sites := by
    have stands : Path.StandsIn [] [] := .top
    refine stmtsReported ?_ stands p.statements (formed_of_ofSource h)
    rfl
  obtain ⟨-, reports, hreports, herrors⟩ := hreported
  have hanalysed : resolveProgram p.statements D =
      if reports.reduceOption = [] then
        .ok ((resolveStmts .top p.statements .start).noted D)
      else .error reports.reduceOption := by
    have herrors : (resolveStmts .top p.statements .start).errors =
        reports.reduceOption.reverse := by
      simpa [Scoping.start] using herrors
    simp [resolveProgram, herrors]
  have hnone := Site.reduceOption_eq_nil hreports
  refine ⟨?_, reports, hreports, ?_⟩
  · rw [← hnone, hanalysed]
    by_cases hn : reports.reduceOption = []
    · rw [if_pos hn]
      exact iff_of_true ⟨_, rfl⟩ hn
    · rw [if_neg hn]
      exact iff_of_false (by simp) hn
  · rintro ⟨site, hs, error, hv⟩
    have hsome : reports.reduceOption ≠ [] := fun hn => hnone.mp hn site hs error hv
    rw [hanalysed, if_neg hsome]

/-- A class inherits from itself, and a value is returned from an initializer, a variable is read in
its own, and a break is in no loop. -/
theorem Program.resolve_exact_errors : ∃ p reports,
    ofSource 0 "class A < A \x7b init() \x7b return nil; \x7d \x7d \x7b var a = a; \x7d break;" =
      .ok p ∧
    List.Forall₂ Site.Reports p.sites reports ∧
    (¬ ∃ D', resolveProgram p.statements .empty = .ok D') ∧
    resolveProgram p.statements .empty = .error reports.reduceOption ∧
    reports.reduceOption = [.scope 1 "A" .inheritsFromItself,
      .scope 1 "return" .valueFromInitializer, .scope 1 "a" .ownInitializer,
      .scope 1 "break" .breakOutsideLoop] := by
  have herrors : (ofSource 0
      "class A < A \x7b init() \x7b return nil; \x7d \x7d \x7b var a = a; \x7d break;").map
        (fun p => resolveProgram p.statements .empty) =
      .ok (.error [.scope 1 "A" .inheritsFromItself, .scope 1 "return" .valueFromInitializer,
        .scope 1 "a" .ownInitializer, .scope 1 "break" .breakOutsideLoop]) := by
    decide +kernel
  obtain ⟨p, hread, herrors⟩ := exists_of_map_eq_ok herrors
  obtain ⟨haccepts, reports, hreports, hanalysed⟩ := resolve_exact hread .empty
  have hrejects : ¬ ∃ D', resolveProgram p.statements .empty = .ok D' := by
    simp [herrors]
  have hviolates : ∃ site ∈ p.sites, ∃ error, site.Violates error := by
    simpa using mt haccepts.mpr hrejects
  have hall := hanalysed hviolates
  refine ⟨p, reports, hread, hreports, hrejects, hall, ?_⟩
  rw [herrors] at hall
  exact (Except.error.inj hall).symm

end LoxLang
