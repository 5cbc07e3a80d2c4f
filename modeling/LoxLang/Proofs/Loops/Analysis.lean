import LoxLang.Proofs.Loops.Desugaring
import LoxLang.Proofs.Scoping.Tracing

/-!
The analysis of a program finds the same errors where its loops have lost their increments: no rule
depends on how many scopes are around a mention. The scopes on the two sides agree in what the
innermost one says of names that are being initialized, and, where a name can be declared, in the
innermost one altogether.
-/

namespace LoxLang

namespace Frames

variable {Γ Γ' : Frames}

/-- No name of the innermost scope is being initialized. -/
def Calm (Γ : Frames) : Prop :=
  ∀ name, Γ.head?.any (·.find? name == some false) = false

/-- The innermost scopes initialize the same names. -/
def InitializeAlike (Γ Γ' : Frames) : Prop :=
  ∀ name, Γ'.head?.any (·.find? name == some false) = Γ.head?.any (·.find? name == some false)

theorem InitializeAlike.of_head? (h : Γ'.head? = Γ.head?) : Γ.InitializeAlike Γ' :=
  fun name => by rw [h]

theorem Calm.alike (h : Γ.Calm) (h' : Γ'.Calm) : Γ.InitializeAlike Γ' :=
  fun name => (h' name).trans (h name).symm

theorem Calm.of_head? (h : Γ.Calm) (hh : Γ'.head? = Γ.head?) : Γ'.Calm :=
  fun name => by rw [hh, h name]

theorem calm_enter (Γ : Frames) : Calm (.empty :: Γ) :=
  fun _ => rfl

theorem head?_enter (Γ Γ' : Frames) : List.head? (.empty :: Γ' : Frames) =
    List.head? (.empty :: Γ : Frames) :=
  rfl

theorem calm_top : Calm [] :=
  fun _ => rfl

theorem head?_bound (Γ : Frames) (name : String) (initialized : Bool) :
    (Γ.bound name initialized).head? = Γ.head?.map (·.insert name initialized) := by
  cases Γ <;> rfl

theorem head?_introduced (hh : Γ'.head? = Γ.head?) (name : String) :
    (Γ'.introduced name).head? = (Γ.introduced name).head? := by
  rw [introduced_eq, introduced_eq, head?_bound, head?_bound, hh]

theorem Calm.introduced (h : Γ.Calm) (name : String) : (Γ.introduced name).Calm := by
  intro other
  rw [introduced_eq]
  cases Γ with
  | nil => rfl
  | cons t outer =>
    have ht := h other
    by_cases ho : other = name <;> simp_all [bound]

end Frames

variable {Γ Γ' : Frames}

theorem Stmt.head?_after (hh : Γ'.head? = Γ.head?) (s : Stmt) :
    (s.after Γ').head? = (s.after Γ).head? := by
  unfold Stmt.after
  split
  · exact Frames.head?_introduced hh _
  · exact hh

theorem Stmt.calm_after (h : Γ.Calm) (s : Stmt) : (s.after Γ).Calm := by
  unfold Stmt.after
  split
  · exact h.introduced _
  · exact h

/-- Two analyses have reached these scopes with the same errors. -/
structure Scoping.Abreast (Γ Γ' : Frames) (s s' : Scoping) : Prop where
  frames : s.scopes = Γ
  frames' : s'.scopes = Γ'
  errors : s'.errors = s.errors

namespace Scoping

@[simp] theorem errors_locate (s : Scoping) (id : Nat) (name : String) :
    (s.locate id name).errors = s.errors := rfl

@[simp] theorem errors_bind (s : Scoping) (name : String) (initialized : Bool) :
    (s.bind name initialized).errors = s.errors := by
  rw [bind_eq]

namespace Abreast

variable {s s' : Scoping} {around around' : Surroundings}

theorem reportIf (h : Abreast Γ Γ' s s') (violated : Bool) (line : Nat) (lexeme : String)
    (error : ScopeError) : Abreast Γ Γ' (s.reportIf violated line lexeme error)
      (s'.reportIf violated line lexeme error) := by
  refine ⟨(Traced.reportIf h.frames).frames, (Traced.reportIf h.frames').frames, ?_⟩
  unfold Scoping.reportIf
  split
  · exact congrArg (Diagnostic.scope line lexeme error :: ·) h.errors
  · exact h.errors

theorem assign (h : Abreast Γ Γ' s s') (o : Occurrence) :
    Abreast Γ Γ' (s.locate o.id o.name.text) (s'.locate o.id o.name.text) :=
  ⟨(Traced.assign o .top h.frames).frames, (Traced.assign o .top h.frames').frames,
    by simpa using h.errors⟩

theorem read (h : Abreast Γ Γ' s s') (hi : Γ.InitializeAlike Γ') (o : Occurrence) :
    Abreast Γ Γ' (s.read o) (s'.read o) := by
  refine ⟨(Traced.read o .top h.frames).frames, (Traced.read o .top h.frames').frames, ?_⟩
  have reported := h.reportIf (s.innermost (·.find? o.name.text == some false)) o.name.line
    o.name.text .ownInitializer
  have violated : s'.innermost (·.find? o.name.text == some false) =
      s.innermost (·.find? o.name.text == some false) := by
    rw [innermost, innermost, h.frames, h.frames', hi]
  rw [Scoping.read, Scoping.read, errors_locate, errors_locate, violated]
  exact reported.errors

theorem readThis (h : Abreast Γ Γ' s s') (hc : around'.class = around.class) (id line : Nat) :
    Abreast Γ Γ' (s.readThis around id line) (s'.readThis around' id line) := by
  refine ⟨(Traced.readThis id line around h.frames).frames,
    (Traced.readThis id line around' h.frames').frames, ?_⟩
  unfold Scoping.readThis
  rw [hc]
  split
  · exact congrArg (Diagnostic.scope line "this" .thisOutsideClass :: ·) h.errors
  · simpa using h.errors

theorem readSuper (h : Abreast Γ Γ' s s') (hc : around'.class = around.class) (id line : Nat) :
    Abreast Γ Γ' (s.readSuper around id line) (s'.readSuper around' id line) := by
  refine ⟨(Traced.readSuper id line around h.frames).frames,
    (Traced.readSuper id line around' h.frames').frames, ?_⟩
  unfold Scoping.readSuper
  rw [hc]
  cases around.class with
  | none | base => simpa [report] using h.errors
  | subclass => simpa using h.errors

theorem declare (h : Abreast Γ Γ' s s') (hh : Γ'.head? = Γ.head?) (name : Name) :
    Abreast (Γ.bound name.text false) (Γ'.bound name.text false) (s.declare name)
      (s'.declare name) := by
  refine ⟨(Traced.declare name .top h.frames).frames, (Traced.declare name .top h.frames').frames,
    ?_⟩
  unfold Scoping.declare Scoping.reportIf innermost
  rw [h.frames, h.frames', hh]
  split
  · simpa [report] using h.errors
  · simpa using h.errors

theorem define (h : Abreast Γ Γ' s s') (name : Name) :
    Abreast (Γ.bound name.text true) (Γ'.bound name.text true) (s.define name)
      (s'.define name) :=
  ⟨(Traced.define name h.frames).frames, (Traced.define name h.frames').frames,
    by simpa [Scoping.define] using h.errors⟩

theorem introduce (h : Abreast Γ Γ' s s') (hh : Γ'.head? = Γ.head?) (name : Name) :
    Abreast (Γ.introduced name.text) (Γ'.introduced name.text) (s.introduce name)
      (s'.introduce name) :=
  (h.declare hh name).define name

theorem enter (h : Abreast Γ Γ' s s') : Abreast (.empty :: Γ) (.empty :: Γ') s.enter s'.enter :=
  ⟨congrArg _ h.frames, congrArg _ h.frames', h.errors⟩

theorem within (h : Abreast Γ Γ' s s') (name : String) :
    Abreast (Γ.within name) (Γ'.within name) (s.enter.bind name true)
      (s'.enter.bind name true) :=
  ⟨(Traced.within name h.frames).frames, (Traced.within name h.frames').frames,
    by simpa using h.enter.errors⟩

theorem leave (h : Abreast Γ Γ' s s') : Abreast Γ.tail Γ'.tail s.leave s'.leave :=
  ⟨congrArg List.tail h.frames, congrArg List.tail h.frames', h.errors⟩

/-- A scope that only one of the analyses has entered is left. -/
theorem leave_added {t : Table Bool} (h : Abreast Γ (t :: Γ') s s') : Abreast Γ Γ' s s'.leave :=
  ⟨h.frames, congrArg List.tail h.frames', h.errors⟩

theorem readSuperclass (h : Abreast Γ Γ' s s') (hi : Γ.InitializeAlike Γ') (className : Name)
    (o : Occurrence) : Abreast (Γ.within "super") (Γ'.within "super")
      (s.readSuperclass className o) (s'.readSuperclass className o) :=
  ((h.reportIf _ _ _ _).read hi o).within "super"

/-- Behind a statement that declares nothing the scopes are as before. -/
theorem branch {stmt : Stmt} (h : Abreast (stmt.after Γ) (stmt.after Γ') s s')
    (hd : stmt.declared? = none) : Abreast Γ Γ' s s' := by
  rwa [Stmt.after_of_none hd, Stmt.after_of_none hd] at h

theorem parameters (h : Abreast Γ Γ' s s') (hh : Γ'.head? = Γ.head?) (ps : List Name) :
    Abreast (ps.foldl (fun Γ p => Γ.introduced p.text) Γ)
      (ps.foldl (fun Γ p => Γ.introduced p.text) Γ') (ps.foldl .introduce s)
      (ps.foldl .introduce s') := by
  induction ps generalizing s s' Γ Γ' with
  | nil => exact h
  | cons p ps ih => exact ih (h.introduce hh p) (Frames.head?_introduced hh p.text)

end Abreast

end Scoping

theorem Frames.head?_inBody (Γ Γ' : Frames) (ps : List Name) :
    (Γ'.inBody ps).head? = (Γ.inBody ps).head? := by
  have foldl : ∀ Δ Δ' : Frames, Δ'.head? = Δ.head? →
      (ps.foldl (fun Γ p => Γ.introduced p.text) Δ').head? =
        (ps.foldl (fun Γ p => Γ.introduced p.text) Δ).head? := by
    induction ps with
    | nil => exact fun _ _ h => h
    | cons p ps ih => exact fun Δ Δ' h => ih _ _ (head?_introduced h p.text)
  exact foldl _ _ rfl

theorem Frames.calm_inBody (Γ : Frames) (ps : List Name) : (Γ.inBody ps).Calm := by
  have foldl : ∀ Δ : Frames, Δ.Calm → (ps.foldl (fun Γ p => Γ.introduced p.text) Δ).Calm := by
    induction ps with
    | nil => exact fun _ h => h
    | cons p ps ih => exact fun Δ h => ih _ (h.introduced p.text)
  exact foldl _ (calm_enter Γ)

/-- Only the class around is kept inside a function. -/
theorem Surroundings.inside_eq {around around' : Surroundings}
    (hc : around'.class = around.class) (kind : BodyKind) :
    { around' with body := kind, inLoop := false } =
      { around with body := kind, inLoop := false } := by
  rw [hc]

section

open Scoping (Abreast)

variable (p : Stmt → Bool)

mutual

theorem Expr.resolve_abreast {around around' : Surroundings} (hc : around'.class = around.class)
    {Γ Γ' : Frames} (hi : Γ.InitializeAlike Γ') {s s' : Scoping} (h : Abreast Γ Γ' s s') :
    (e : Expr) → e.Formed →
      Abreast Γ Γ' (e.resolve around s) ((e.desugared p).resolve around' s')
  | .literal _, _ => h
  | .group inner, hf => inner.resolve_abreast hc hi h hf
  | .unary _ _ operand, hf => operand.resolve_abreast hc hi h hf
  | .binary _ _ left right, hf | .logical _ left right, hf | .comma left right, hf =>
    right.resolve_abreast hc hi (left.resolve_abreast hc hi h hf.1) hf.2
  | .ternary condition thenBranch elseBranch, hf =>
    elseBranch.resolve_abreast hc hi (thenBranch.resolve_abreast hc hi
      (condition.resolve_abreast hc hi h hf.1) hf.2.1) hf.2.2
  | .variable o, _ => h.read hi o
  | .assign target value, hf => (value.resolve_abreast hc hi h hf.2).assign target
  | .call callee _ arguments, hf =>
    resolveExprs_abreast hc hi (callee.resolve_abreast hc hi h hf.1) arguments hf.2
  | .get object _, hf => object.resolve_abreast hc hi h hf.1
  | .set object _ value, hf =>
    object.resolve_abreast hc hi (value.resolve_abreast hc hi h hf.2.1) hf.1
  | .this id line, _ => h.readThis hc id line
  | .super id line _, _ => h.readSuper hc id line
  | .lambda f, hf => f.resolve_abreast hc .function h hf

theorem resolveExprs_abreast {around around' : Surroundings} (hc : around'.class = around.class)
    {Γ Γ' : Frames} (hi : Γ.InitializeAlike Γ') {s s' : Scoping} (h : Abreast Γ Γ' s s') :
    (es : List Expr) → exprsFormed es →
      Abreast Γ Γ' (resolveExprs around es s) (resolveExprs around' (desugaredExprs p es) s')
  | [], _ => h
  | e :: es, hf => resolveExprs_abreast hc hi (e.resolve_abreast hc hi h hf.1) es hf.2

theorem Function.resolve_abreast {around around' : Surroundings}
    (hc : around'.class = around.class) (kind : BodyKind) {Γ Γ' : Frames} {s s' : Scoping}
    (h : Abreast Γ Γ' s s') : (f : Function) → f.Formed →
      Abreast Γ Γ' (f.resolve around kind s) ((f.desugared p).resolve around' kind s')
  | ⟨_, parameters, body, _⟩, hf => by
    have inside := resolveStmts_abreast { around with body := kind, inLoop := false }
      (Frames.head?_inBody Γ Γ' parameters) (Frames.calm_inBody Γ parameters)
      (h.enter.parameters rfl parameters) body hf.2
    have left := inside.leave
    rw [tail_stmtsAfter, tail_stmtsAfter, Frames.tail_inBody, Frames.tail_inBody] at left
    rw [Function.desugared, Function.resolve, Function.resolve, Surroundings.inside_eq hc]
    exact left

theorem Stmt.resolve_abreast (around : Surroundings) {Γ Γ' : Frames} (hc : Γ.Calm) (hc' : Γ'.Calm)
    {s s' : Scoping} (h : Abreast Γ Γ' s s') :
    (stmt : Stmt) → stmt.Formed → (stmt.steady = true ∨ Γ'.head? = Γ.head?) →
      Abreast (stmt.after Γ) (stmt.after Γ') (stmt.resolve around s)
        ((stmt.desugared p).resolve around s')
  | .expression e, hf, _ | .print e, hf, _ => e.resolve_abreast rfl (hc.alike hc') h hf
  | .var name none, _, .inr hh => h.introduce hh name
  | .var name (some initializer), hf, .inr hh => by
    have declared := h.declare hh name
    have hi : (Γ.bound name.text false).InitializeAlike (Γ'.bound name.text false) :=
      .of_head? (by rw [Frames.head?_bound, Frames.head?_bound, hh])
    exact (initializer.resolve_abreast rfl hi declared hf.2).define name
  | .block body, hf, _ => by
    have left := (resolveStmts_abreast around (Frames.head?_enter Γ Γ') (Frames.calm_enter Γ)
      h.enter body hf).leave
    rw [tail_stmtsAfter, tail_stmtsAfter] at left
    exact left
  | .if condition thenBranch none, hf, _ =>
    have first := condition.resolve_abreast (rfl : around.class = _) (hc.alike hc') h hf.1
    have steady := thenBranch.steady_of_formed hf.2.1 hf.2.2
    (thenBranch.resolve_abreast around hc hc' first hf.2.1 (.inl steady)).branch hf.2.2
  | .if condition thenBranch (some elseBranch), hf, _ =>
    have first := condition.resolve_abreast (rfl : around.class = _) (hc.alike hc') h hf.1
    have steady := thenBranch.steady_of_formed hf.2.1.1 hf.2.1.2
    have steady' := elseBranch.steady_of_formed hf.2.2.1 hf.2.2.2
    have second := (thenBranch.resolve_abreast around hc hc' first hf.2.1.1 (.inl steady)).branch
      hf.2.1.2
    (elseBranch.resolve_abreast around hc hc' second hf.2.2.1 (.inl steady')).branch hf.2.2.2
  | .while condition body none, hf, _ =>
    have first := condition.resolve_abreast (rfl : around.class = _) (hc.alike hc') h hf.1
    have steady := body.steady_of_formed hf.2.1 hf.2.2
    (body.resolve_abreast { around with inLoop := true } hc hc' first hf.2.1
      (.inl steady)).branch hf.2.2
  | .while condition body (some increment), hf, _ => by
    have first := condition.resolve_abreast (rfl : around.class = _) (hc.alike hc') h hf.1
    have steady := body.steady_of_formed hf.2.1.1 hf.2.1.2
    rw [Stmt.desugared]
    split
    · have entered : Abreast Γ (.empty :: Γ') (condition.resolve around s)
          ((condition.desugared p).resolve around s').enter :=
        ⟨first.frames, congrArg _ first.frames', first.errors⟩
      have hc' := Frames.calm_enter Γ'
      have second := (body.resolve_abreast { around with inLoop := true } hc hc' entered hf.2.1.1
        (.inl steady)).branch hf.2.1.2
      have inside : ({ around with inLoop := true } : Surroundings).class = around.class := rfl
      exact (increment.resolve_abreast inside (hc.alike hc') second hf.2.2).leave_added
    · have second := (body.resolve_abreast { around with inLoop := true } hc hc' first hf.2.1.1
        (.inl steady)).branch hf.2.1.2
      exact increment.resolve_abreast rfl (hc.alike hc') second hf.2.2
  | .function f, hf, .inr hh => by
    obtain ⟨name, hn, -⟩ := hf.1
    have inside := f.resolve_abreast (rfl : around.class = _) .function (h.introduce hh name) hf.2
    simpa [Stmt.desugared, Stmt.resolve, Stmt.after, Stmt.declared?, hn] using inside
  | .class c, hf, .inr hh => c.resolve_abreast around hc hh h hf
  | .return line none, _, _ => h.reportIf _ line "return" .returnOutsideFunction
  | .return line (some value), hf, _ =>
    value.resolve_abreast rfl (hc.alike hc') ((h.reportIf _ line "return" _).reportIf _ _ _ _) hf
  | .break line, _, _ => h.reportIf _ line "break" .breakOutsideLoop
  | .continue line, _, _ => h.reportIf _ line "continue" .continueOutsideLoop

theorem resolveStmts_abreast (around : Surroundings) {Γ Γ' : Frames} (hh : Γ'.head? = Γ.head?)
    (hc : Γ.Calm) {s s' : Scoping} (h : Abreast Γ Γ' s s') :
    (ss : List Stmt) → stmtsFormed ss →
      Abreast (stmtsAfter Γ ss) (stmtsAfter Γ' ss) (resolveStmts around ss s)
        (resolveStmts around (desugaredStmts p ss) s')
  | [], _ => h
  | stmt :: ss, hf =>
    have first := stmt.resolve_abreast around hc (hc.of_head? hh) h hf.1 (.inr hh)
    resolveStmts_abreast around (stmt.head?_after hh) (stmt.calm_after hc) first ss hf.2

theorem Class.resolve_abreast (around : Surroundings) {Γ Γ' : Frames} (hc : Γ.Calm)
    (hh : Γ'.head? = Γ.head?) {s s' : Scoping} (h : Abreast Γ Γ' s s') :
    (c : Class) → c.Formed →
      Abreast (Γ.introduced c.name.text) (Γ'.introduced c.name.text) (c.resolve around s)
        ((c.desugared p).resolve around s')
  | ⟨name, none, methods, getters⟩, hf =>
    have declared := h.introduce hh name
    have first := resolveFunctions_abreast { around with «class» := .base } Function.methodKind
      (fun f => by rw [Function.methodKind, Function.methodKind, f.displayName_desugared])
      (declared.within "this") methods hf.2.1.1
    have second := resolveFunctions_abreast { around with «class» := .base } (fun _ => .method)
      (fun _ => rfl) first getters hf.2.2.1.1
    second.leave
  | ⟨name, some superclass, methods, getters⟩, hf =>
    have declared := h.introduce hh name
    have inherited := declared.readSuperclass
      ((hc.introduced name.text).alike ((hc.of_head? hh).introduced name.text)) name superclass
    have first := resolveFunctions_abreast { around with «class» := .subclass }
      Function.methodKind
      (fun f => by rw [Function.methodKind, Function.methodKind, f.displayName_desugared])
      (inherited.within "this") methods hf.2.1.1
    have second := resolveFunctions_abreast { around with «class» := .subclass }
      (fun _ => .method) (fun _ => rfl) first getters hf.2.2.1.1
    second.leave.leave

theorem resolveFunctions_abreast (around : Surroundings) (kind : Function → BodyKind)
    (hk : ∀ f : Function, kind (f.desugared p) = kind f) {Γ Γ' : Frames} {s s' : Scoping}
    (h : Abreast Γ Γ' s s') : (fs : List Function) → functionsFormed fs →
      Abreast Γ Γ' (resolveFunctions around kind fs s)
        (resolveFunctions around kind (desugaredFunctions p fs) s')
  | [], _ => h
  | f :: fs, hf => by
    have first := f.resolve_abreast (rfl : around.class = _) (kind f) h hf.1
    rw [desugaredFunctions, resolveFunctions, resolveFunctions, hk f]
    exact resolveFunctions_abreast around kind hk first fs hf.2

end

end

/-- The analysis refuses a program whose loops have lost their increments if it refuses the program,
and for the same reasons. -/
theorem resolveProgram_desugared (p : Stmt → Bool) {ss : List Stmt} (hf : stmtsFormed ss)
    (distances : Distances) (errors : List Diagnostic) :
    resolveProgram (desugaredStmts p ss) distances = .error errors ↔
      resolveProgram ss distances = .error errors := by
  have start : Scoping.Abreast [] [] .start .start := ⟨rfl, rfl, rfl⟩
  have abreast := resolveStmts_abreast p .top rfl Frames.calm_top start ss hf
  unfold resolveProgram
  dsimp only
  rw [abreast.errors]
  split <;> simp

end LoxLang
