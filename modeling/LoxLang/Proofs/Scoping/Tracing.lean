import LoxLang.Proofs.Scoping.Mentions
import LoxLang.Proofs.Tree.Numbering

/-!
What the analysis of scopes does, read off the mentions. It leaves the scopes of the statements
behind it, and where it finds no error, every mention is allowed and its distance is noted.
-/

namespace LoxLang

theorem Scoping.bind_eq (s : Scoping) (name : String) (initialized : Bool) :
    s.bind name initialized = { s with scopes := Frames.bound s.scopes name initialized } := by
  obtain ⟨scopes, errors, found⟩ := s
  cases scopes <;> rfl

/-- The analysis has gone from one state to another over these mentions, to these scopes. -/
structure Traced (before after : Scoping) (frames : Frames) (ms : List Mention) : Prop where
  frames : after.scopes = frames
  errors : before.errors <:+ after.errors
  allowed : after.errors = before.errors → ∀ m ∈ ms, m.Allowed
  noted : after.errors = before.errors →
    ∀ D, after.noted D = ms.foldl Mention.note (before.noted D)

namespace Traced

variable {s s₁ s₂ : Scoping} {Γ Γ₁ Γ₂ : Frames} {ms ms₁ ms₂ : List Mention}

theorem refl (h : s.scopes = Γ) : Traced s s Γ [] :=
  ⟨h, List.suffix_rfl, by simp, by simp⟩

theorem trans (h₁ : Traced s s₁ Γ₁ ms₁) (h₂ : Traced s₁ s₂ Γ₂ ms₂) :
    Traced s s₂ Γ₂ (ms₁ ++ ms₂) := by
  have split : s₂.errors = s.errors → s₁.errors = s.errors ∧ s₂.errors = s₁.errors := by
    intro h
    have h₁ : s₁.errors = s.errors :=
      (h₁.errors.eq_of_length_le (by rw [← h]; exact h₂.errors.length_le)).symm
    exact ⟨h₁, h.trans h₁.symm⟩
  refine ⟨h₂.frames, h₁.errors.trans h₂.errors, fun h m hm => ?_, fun h => ?_⟩
  · rcases List.mem_append.mp hm with hm | hm
    · exact h₁.allowed (split h).1 m hm
    · exact h₂.allowed (split h).2 m hm
  · intro D
    rw [List.foldl_append, ← h₁.noted (split h).1, h₂.noted (split h).2]

/-- Where there are more errors, nothing is promised of the mentions. -/
theorem of_ne (hf : s₁.scopes = Γ) (he : s.errors <:+ s₁.errors) (hn : s₁.errors ≠ s.errors) :
    Traced s s₁ Γ ms :=
  ⟨hf, he, fun h => (hn h).elim, fun h => (hn h).elim⟩

theorem of_error {d : Diagnostic} (hf : s₁.scopes = Γ) (he : s₁.errors = d :: s.errors) :
    Traced s s₁ Γ ms :=
  of_ne hf (he ▸ List.suffix_cons _ _) fun h => by simp [he] at h

/-- The distance of a mention is noted. -/
theorem locate {m : Mention} {id : Nat} (hf : s.scopes = m.frames) (hi : m.use.id? = some id)
    (ha : m.Allowed) : Traced s (s.locate id m.use.name) m.frames [m] := by
  refine ⟨hf, List.suffix_rfl, by simpa using fun _ => ha, fun _ D => ?_⟩
  show (s.noted D).note? id (Scoping.distance? m.use.name s.scopes) = m.note (s.noted D)
  unfold Mention.note
  rw [hi, hf]
  cases Scoping.distance? m.use.name m.frames <;> rfl

theorem locate_of_error {d : Diagnostic} {id : Nat} {name : String} (hf : s₁.scopes = Γ)
    (he : s₁.errors = d :: s.errors) : Traced s (s₁.locate id name) Γ ms :=
  of_error (d := d) hf he

theorem read (o : Occurrence) (around : Surroundings) (hf : s.scopes = Γ) :
    Traced s (s.read o) Γ [⟨.read o, around, Γ⟩] := by
  unfold Scoping.read Scoping.reportIf
  split
  · exact locate_of_error hf rfl
  · rename_i hv
    refine locate (m := ⟨.read o, around, Γ⟩) hf rfl ?_
    simpa [Mention.Allowed, Scoping.innermost, hf] using hv

theorem assign (o : Occurrence) (around : Surroundings) (hf : s.scopes = Γ) :
    Traced s (s.locate o.id o.name.text) Γ [⟨.assign o, around, Γ⟩] :=
  locate (m := ⟨.assign o, around, Γ⟩) hf rfl trivial

theorem readThis (id line : Nat) (around : Surroundings) (hf : s.scopes = Γ) :
    Traced s (s.readThis around id line) Γ [⟨.this id, around, Γ⟩] := by
  unfold Scoping.readThis
  split
  · exact of_error hf rfl
  · exact locate (m := ⟨.this id, around, Γ⟩) hf rfl ‹_›

theorem readSuper (id line : Nat) (around : Surroundings) (hf : s.scopes = Γ) :
    Traced s (s.readSuper around id line) Γ [⟨.super id, around, Γ⟩] := by
  unfold Scoping.readSuper
  match h : around.class with
  | .none => exact locate_of_error hf rfl
  | .base => exact locate_of_error hf rfl
  | .subclass => exact locate (m := ⟨.super id, around, Γ⟩) hf rfl h

theorem declare (name : Name) (around : Surroundings) (hf : s.scopes = Γ) :
    Traced s (s.declare name) (Γ.bound name.text false) [⟨.declare name, around, Γ⟩] := by
  unfold Scoping.declare Scoping.reportIf
  rw [Scoping.bind_eq, hf]
  split
  · exact of_error rfl rfl
  · rename_i hv
    refine ⟨rfl, List.suffix_rfl, fun _ => ?_, fun _ _ => rfl⟩
    simpa [Mention.Allowed, Scoping.innermost, hf] using hv

theorem define (name : Name) (hf : s.scopes = Γ) :
    Traced s (s.define name) (Γ.bound name.text true) [] := by
  unfold Scoping.define
  rw [Scoping.bind_eq, hf]
  exact ⟨rfl, List.suffix_rfl, by simp, fun _ _ => rfl⟩

theorem introduce (name : Name) (around : Surroundings) (hf : s.scopes = Γ) :
    Traced s (s.introduce name) (Γ.introduced name.text) [⟨.declare name, around, Γ⟩] :=
  (declare name around hf).trans (define name (declare name around hf).frames)

theorem enter (hf : s.scopes = Γ) : Traced s s.enter (.empty :: Γ) [] :=
  ⟨congrArg _ hf, List.suffix_rfl, by simp, fun _ _ => rfl⟩

theorem within (name : String) (hf : s.scopes = Γ) :
    Traced s (s.enter.bind name true) (Γ.within name) [] := by
  rw [Scoping.bind_eq]
  refine ⟨?_, List.suffix_rfl, by simp, fun _ _ => rfl⟩
  rw [← hf]
  rfl

theorem leave (h : Traced s s₁ Γ₁ ms) (ht : Γ₁.tail = Γ) : Traced s s₁.leave Γ ms :=
  ⟨(congrArg List.tail h.frames).trans ht, h.errors, h.allowed, h.noted⟩

theorem readSuperclass (className : Name) (o : Occurrence) (around : Surroundings)
    (hf : s.scopes = Γ) :
    Traced s (s.readSuperclass className o) (Γ.within "super")
      [⟨.inherit className o, around, Γ⟩] := by
  have reads : Traced s ((s.reportIf (o.name.text = className.text) o.name.line o.name.text
      .inheritsFromItself).read o) Γ [⟨.inherit className o, around, Γ⟩] := by
    unfold Scoping.reportIf
    split
    · have more := read (s := s.report o.name.line o.name.text .inheritsFromItself) o around hf
      refine of_ne more.frames ((List.suffix_cons _ _).trans more.errors) fun h => ?_
      have hl := more.errors.length_le
      rw [h] at hl
      simp only [Scoping.report, List.length_cons] at hl
      omega
    · rename_i hn
      unfold Scoping.read Scoping.reportIf
      split
      · exact locate_of_error hf rfl
      · rename_i hv
        refine locate (m := ⟨.inherit className o, around, Γ⟩) hf rfl ⟨by simpa using hn, ?_⟩
        simpa [Scoping.innermost, hf] using hv
  exact reads.trans (within "super" reads.frames)

theorem reportIf {violated : Bool} {line : Nat} {lexeme : String} {error : ScopeError}
    (hf : s.scopes = Γ) : Traced s (s.reportIf violated line lexeme error) Γ [] := by
  unfold Scoping.reportIf
  split
  · exact of_error hf rfl
  · exact refl hf

theorem parameters (around : Surroundings) (ps : List Name) (hf : s.scopes = Γ) :
    Traced s (ps.foldl .introduce s) (ps.foldl (fun Γ p => Γ.introduced p.text) Γ)
      (parameterMentions around Γ ps) := by
  induction ps generalizing s Γ with
  | nil => exact refl hf
  | cons p ps ih =>
    have hp := introduce p around hf
    exact hp.trans (ih hp.frames)

end Traced


mutual

theorem Expr.traced (around : Surroundings) {s : Scoping} {Γ : Frames} (hf : s.scopes = Γ) :
    (e : Expr) → e.Formed → Traced s (e.resolve around s) Γ (e.mentions around Γ)
  | .literal _, _ => .refl hf
  | .group inner, h => inner.traced around hf h
  | .unary _ _ operand, h => operand.traced around hf h
  | .binary _ _ left right, h =>
    have first := left.traced around hf h.1
    first.trans (right.traced around first.frames h.2)
  | .logical _ left right, h =>
    have first := left.traced around hf h.1
    first.trans (right.traced around first.frames h.2)
  | .ternary condition thenBranch elseBranch, h =>
    have first := condition.traced around hf h.1
    have second := thenBranch.traced around first.frames h.2.1
    first.trans (second.trans (elseBranch.traced around second.frames h.2.2))
  | .comma left right, h =>
    have first := left.traced around hf h.1
    first.trans (right.traced around first.frames h.2)
  | .variable o, _ => .read o around hf
  | .assign o value, h =>
    have first := value.traced around hf h.2
    first.trans (.assign o around first.frames)
  | .call callee _ arguments, h =>
    have first := callee.traced around hf h.1
    first.trans (exprsTraced around first.frames arguments h.2)
  | .get object _, h => object.traced around hf h.1
  | .set object _ value, h =>
    have first := value.traced around hf h.2.1
    first.trans (object.traced around first.frames h.1)
  | .this id line, _ => .readThis id line around hf
  | .super id line _, _ => .readSuper id line around hf
  | .lambda f, h => f.traced around .function hf h

theorem exprsTraced (around : Surroundings) {s : Scoping} {Γ : Frames} (hf : s.scopes = Γ) :
    (es : List Expr) → exprsFormed es →
      Traced s (resolveExprs around es s) Γ (exprsMentions around Γ es)
  | [], _ => .refl hf
  | e :: es, h =>
    have first := e.traced around hf h.1
    first.trans (exprsTraced around first.frames es h.2)

theorem Function.traced (around : Surroundings) (kind : BodyKind) {s : Scoping} {Γ : Frames}
    (hf : s.scopes = Γ) : (f : Function) → f.Formed →
      Traced s (f.resolve around kind s) Γ (f.mentions around kind Γ)
  | ⟨_, parameters, body, _⟩, h =>
    have entered := Traced.enter hf
    have first := entered.trans (.parameters around parameters entered.frames)
    have second := stmtsTraced { around with body := kind, inLoop := false } first.frames body h.2
    (first.trans second).leave
      ((tail_stmtsAfter _ body).trans (Frames.tail_inBody Γ parameters))

theorem Stmt.traced (around : Surroundings) {s : Scoping} {Γ : Frames} (hf : s.scopes = Γ) :
    (stmt : Stmt) → stmt.Formed →
      Traced s (stmt.resolve around s) (stmt.after Γ) (stmt.mentions around Γ)
  | .expression e, h => e.traced around hf h
  | .print e, h => e.traced around hf h
  | .var name none, _ => .introduce name around hf
  | .var name (some initializer), h =>
    have first := Traced.declare name around hf
    have second := first.trans (initializer.traced around first.frames h.2)
    by
      have third := second.trans (.define name second.frames)
      rw [List.append_nil] at third
      exact third
  | .block body, h =>
    have entered := Traced.enter hf
    (entered.trans (stmtsTraced around entered.frames body h)).leave (tail_stmtsAfter _ body)
  | .if condition thenBranch none, h =>
    have first := condition.traced around hf h.1
    have second := thenBranch.traced around first.frames h.2.1
    by
      rw [Stmt.after_of_none h.2.2] at second
      exact first.trans second
  | .if condition thenBranch (some elseBranch), h =>
    have first := condition.traced around hf h.1
    have second := thenBranch.traced around first.frames h.2.1.1
    have same := second.frames.trans (Stmt.after_of_none h.2.1.2 Γ)
    have third := elseBranch.traced around same h.2.2.1
    by
      rw [Stmt.after_of_none h.2.1.2] at second
      rw [Stmt.after_of_none h.2.2.2] at third
      exact first.trans (second.trans third)
  | .while condition body none, h =>
    have first := condition.traced around hf h.1
    have second := body.traced { around with inLoop := true } first.frames h.2.1
    by
      rw [Stmt.after_of_none h.2.2] at second
      exact first.trans second
  | .while condition body (some increment), h =>
    have first := condition.traced around hf h.1
    have second := body.traced { around with inLoop := true } first.frames h.2.1.1
    by
      rw [Stmt.after_of_none h.2.1.2] at second
      exact first.trans (second.trans (increment.traced around second.frames h.2.2))
  | .function f, h => by
    obtain ⟨name, hn, -⟩ := h.1
    have first := Traced.introduce name around hf
    have second := f.traced around .function first.frames h.2
    simpa [Stmt.resolve, Stmt.after, Stmt.mentions, Stmt.declared?, hn] using first.trans second
  | .class c, h => c.traced around hf h
  | .return _ none, _ => .reportIf hf
  | .return _ (some value), h =>
    have first := Traced.reportIf hf
    have second := first.trans (.reportIf first.frames)
    second.trans (value.traced around second.frames h)
  | .break _, _ => .reportIf hf
  | .continue _, _ => .reportIf hf

theorem stmtsTraced (around : Surroundings) {s : Scoping} {Γ : Frames} (hf : s.scopes = Γ) :
    (ss : List Stmt) → stmtsFormed ss →
      Traced s (resolveStmts around ss s) (stmtsAfter Γ ss) (stmtsMentions around Γ ss)
  | [], _ => .refl hf
  | stmt :: ss, h =>
    have first := stmt.traced around hf h.1
    first.trans (stmtsTraced around first.frames ss h.2)

theorem Class.traced (around : Surroundings) {s : Scoping} {Γ : Frames} (hf : s.scopes = Γ) :
    (c : Class) → c.Formed →
      Traced s (c.resolve around s) (Γ.introduced c.name.text) (c.mentions around Γ)
  | ⟨name, none, methods, getters⟩, h =>
    have declared := Traced.introduce name around hf
    have first := declared.trans (.within "this" declared.frames)
    have second := functionsTraced { around with «class» := .base } Function.methodKind
      first.frames methods h.2.1.1
    have third := functionsTraced { around with «class» := .base } (fun _ => .method)
      second.frames getters h.2.2.1.1
    ((first.trans (second.trans third)).leave rfl)
  | ⟨name, some superclass, methods, getters⟩, h =>
    have declared := Traced.introduce name around hf
    have inherited := declared.trans (.readSuperclass name superclass around declared.frames)
    have first := inherited.trans (.within "this" inherited.frames)
    have second := functionsTraced { around with «class» := .subclass } Function.methodKind
      first.frames methods h.2.1.1
    have third := functionsTraced { around with «class» := .subclass } (fun _ => .method)
      second.frames getters h.2.2.1.1
    ((first.trans (second.trans third)).leave rfl).leave rfl

theorem functionsTraced (around : Surroundings) (kind : Function → BodyKind) {s : Scoping}
    {Γ : Frames} (hf : s.scopes = Γ) : (fs : List Function) → functionsFormed fs →
      Traced s (resolveFunctions around kind fs s) Γ (functionsMentions around Γ kind fs)
  | [], _ => .refl hf
  | f :: fs, h =>
    have first := f.traced around (kind f) hf h.1
    first.trans (functionsTraced around kind first.frames fs h.2)

end

/-- The numbers of the mentions. -/
def mentionIds (ms : List Mention) : List Nat :=
  ms.filterMap (·.use.id?)

@[simp] theorem mentionIds_append (ms ms' : List Mention) :
    mentionIds (ms ++ ms') = mentionIds ms ++ mentionIds ms' :=
  List.filterMap_append

theorem mentionIds_parameters (around : Surroundings) (Γ : Frames) (ps : List Name) :
    mentionIds (parameterMentions around Γ ps) = [] := by
  induction ps generalizing Γ with
  | nil => rfl
  | cons p ps ih => exact ih _

mutual

theorem Expr.ids_mentions (around : Surroundings) (Γ : Frames) :
    (e : Expr) → mentionIds (e.mentions around Γ) = e.ids
  | .literal _ => rfl
  | .group inner => inner.ids_mentions around Γ
  | .unary _ _ operand => operand.ids_mentions around Γ
  | .binary _ _ left right => by
    simp [Expr.mentions, left.ids_mentions around Γ, right.ids_mentions around Γ]
  | .logical _ left right => by
    simp [Expr.mentions, left.ids_mentions around Γ, right.ids_mentions around Γ]
  | .ternary condition thenBranch elseBranch => by
    simp [Expr.mentions, condition.ids_mentions around Γ, thenBranch.ids_mentions around Γ,
      elseBranch.ids_mentions around Γ]
  | .comma left right => by
    simp [Expr.mentions, left.ids_mentions around Γ, right.ids_mentions around Γ]
  | .variable _ => rfl
  | .assign o value => by
    rw [Expr.mentions, mentionIds_append, value.ids_mentions around Γ]
    rfl
  | .call callee _ arguments => by
    simp [Expr.mentions, callee.ids_mentions around Γ, exprsIds_mentions around Γ arguments]
  | .get object _ => object.ids_mentions around Γ
  | .set object _ value => by
    simp [Expr.mentions, value.ids_mentions around Γ, object.ids_mentions around Γ]
  | .this _ _ => rfl
  | .super _ _ _ => rfl
  | .lambda f => f.ids_mentions around .function Γ

theorem exprsIds_mentions (around : Surroundings) (Γ : Frames) :
    (es : List Expr) → mentionIds (exprsMentions around Γ es) = exprsIds es
  | [] => rfl
  | e :: es => by
    simp [exprsMentions, e.ids_mentions around Γ, exprsIds_mentions around Γ es]

theorem Function.ids_mentions (around : Surroundings) (kind : BodyKind) (Γ : Frames) :
    (f : Function) → mentionIds (f.mentions around kind Γ) = f.ids
  | ⟨_, parameters, body, _⟩ => by
    simp [Function.mentions, mentionIds_parameters, stmtsIds_mentions _ _ body]

theorem Stmt.ids_mentions (around : Surroundings) (Γ : Frames) :
    (s : Stmt) → mentionIds (s.mentions around Γ) = s.ids
  | .expression e => e.ids_mentions around Γ
  | .print e => e.ids_mentions around Γ
  | .var _ none => rfl
  | .var _ (some initializer) => initializer.ids_mentions around _
  | .block body => stmtsIds_mentions around _ body
  | .if condition thenBranch none => by
    simp [Stmt.mentions, condition.ids_mentions around Γ, thenBranch.ids_mentions around Γ]
  | .if condition thenBranch (some elseBranch) => by
    simp [Stmt.mentions, condition.ids_mentions around Γ, thenBranch.ids_mentions around Γ,
      elseBranch.ids_mentions around Γ]
  | .while condition body none => by
    simp [Stmt.mentions, condition.ids_mentions around Γ, body.ids_mentions _ Γ]
  | .while condition body (some increment) => by
    simp [Stmt.mentions, condition.ids_mentions around Γ, body.ids_mentions _ Γ,
      increment.ids_mentions around Γ]
  | .function f => by
    rw [Stmt.mentions]
    split
    · exact f.ids_mentions around .function Γ
    · exact f.ids_mentions around .function _
  | .class c => c.ids_mentions around Γ
  | .return _ none => rfl
  | .return _ (some value) => value.ids_mentions around Γ
  | .break _ => rfl
  | .continue _ => rfl

theorem stmtsIds_mentions (around : Surroundings) (Γ : Frames) :
    (ss : List Stmt) → mentionIds (stmtsMentions around Γ ss) = stmtsIds ss
  | [] => rfl
  | s :: ss => by
    simp [stmtsMentions, s.ids_mentions around Γ, stmtsIds_mentions around _ ss]

theorem Class.ids_mentions (around : Surroundings) (Γ : Frames) :
    (c : Class) → mentionIds (c.mentions around Γ) = c.ids
  | ⟨_, none, methods, getters⟩ => by
    show mentionIds (_ ++ _) = _
    rw [mentionIds_append, functionsIds_mentions _ _ _ methods, functionsIds_mentions _ _ _ getters]
    rfl
  | ⟨_, some superclass, methods, getters⟩ => by
    show superclass.id :: mentionIds (_ ++ _) = _
    rw [mentionIds_append, functionsIds_mentions _ _ _ methods, functionsIds_mentions _ _ _ getters]
    rfl

theorem functionsIds_mentions (around : Surroundings) (Γ : Frames) (kind : Function → BodyKind) :
    (fs : List Function) → mentionIds (functionsMentions around Γ kind fs) = functionsIds fs
  | [] => rfl
  | f :: fs => by
    simp [functionsMentions, f.ids_mentions around (kind f) Γ,
      functionsIds_mentions around Γ kind fs]

end

namespace Mention

theorem find?_note (D : Distances) (m : Mention) {id : Nat} (h : id ∉ m.use.id?) :
    (m.note D).find? id = D.find? id := by
  unfold note
  split
  · rename_i other d ho _
    rw [Distances.find?_note, if_neg]
    rintro rfl
    exact h ho
  · rfl

theorem find?_foldl_note (ms : List Mention) (D : Distances) {id : Nat}
    (h : id ∉ mentionIds ms) : (ms.foldl note D).find? id = D.find? id := by
  induction ms generalizing D with
  | nil => rfl
  | cons m ms ih =>
    have hm : id ∉ m.use.id? := fun hi => h (List.mem_filterMap.mpr ⟨m, List.mem_cons_self, hi⟩)
    have hms : id ∉ mentionIds ms := fun hi => by
      obtain ⟨m', hm', hi⟩ := List.mem_filterMap.mp hi
      exact h (List.mem_filterMap.mpr ⟨m', List.mem_cons_of_mem _ hm', hi⟩)
    exact (ih _ hms).trans (m.find?_note D hm)

/-- Where every mention has a number of its own, the distances noted last are those of all. -/
theorem placed_foldl_note (ms : List Mention) (D : Distances) (hn : (mentionIds ms).Nodup)
    (hD : ∀ id ∈ mentionIds ms, D.find? id = none) :
    ∀ m ∈ ms, m.Placed (ms.foldl note D) := by
  induction ms generalizing D with
  | nil => simp
  | cons m ms ih =>
    have apart : ∀ id ∈ m.use.id?, id ∉ mentionIds ms := by
      intro id hi hms
      rw [mentionIds, List.filterMap_cons, Option.mem_def.mp hi] at hn
      exact (List.nodup_cons.mp hn).1 hms
    have own : ∀ id ∈ m.use.id?, id ∈ mentionIds (m :: ms) := fun id hi =>
      List.mem_filterMap.mpr ⟨m, List.mem_cons_self, hi⟩
    have later : ∀ id ∈ mentionIds ms, id ∈ mentionIds (m :: ms) := by
      intro id hi
      obtain ⟨m', hm', hi⟩ := List.mem_filterMap.mp hi
      exact List.mem_filterMap.mpr ⟨m', List.mem_cons_of_mem _ hm', hi⟩
    intro m' hm'
    rcases List.mem_cons.mp hm' with rfl | hm'
    · intro id hi
      rw [List.foldl_cons, find?_foldl_note ms _ (apart id hi)]
      have hnone := hD id (own id hi)
      simp only [note, Option.mem_def.mp hi]
      cases Scoping.distance? m'.use.name m'.frames with
      | none => exact hnone
      | some d => simp
    · refine ih (m.note D) ?_ ?_ m' hm'
      · exact hn.sublist ((List.sublist_cons_self m ms).filterMap _)
      · intro id hi
        rw [m.find?_note D fun h => apart id h hi]
        exact hD id (later id hi)

end Mention

/-- A program passes the analysis if no error is found, and then what was found is noted. -/
theorem resolveProgram_eq_ok {ss : List Stmt} {D D' : Distances} :
    resolveProgram ss D = .ok D' ↔ (resolveStmts .top ss .start).errors = [] ∧
      (resolveStmts .top ss .start).noted D = D' := by
  unfold resolveProgram
  dsimp only
  rw [← List.isEmpty_iff]
  split
  · rename_i he
    rw [Except.ok.injEq, and_iff_right he]
  · rename_i he
    exact iff_of_false nofun fun h => he h.1

theorem resolveStmts_append (around : Surroundings) (ss tt : List Stmt) (s : Scoping) :
    resolveStmts around (ss ++ tt) s = resolveStmts around tt (resolveStmts around ss s) := by
  induction ss generalizing s with
  | nil => rfl
  | cons stmt ss ih => exact ih _

/-- In a program that passes the analysis every mention is allowed and has the distance of its
nearest binding, and other distances are kept. -/
theorem resolveProgram_ok {ss : List Stmt} {D D' : Distances} (hf : stmtsFormed ss)
    (h : resolveProgram ss D = .ok D') (hn : (stmtsIds ss).Nodup)
    (hD : ∀ id ∈ stmtsIds ss, D.find? id = none) :
    (∀ m ∈ stmtsMentions .top [] ss, m.Allowed ∧ m.Placed D') ∧
      ∀ id ∉ stmtsIds ss, D'.find? id = D.find? id := by
  have traced := stmtsTraced .top (s := .start) (Γ := []) rfl ss hf
  obtain ⟨he, rfl⟩ := resolveProgram_eq_ok.mp h
  have hids := stmtsIds_mentions .top [] ss
  rw [traced.noted he]
  refine ⟨fun m hm => ⟨traced.allowed he m hm, ?_⟩, fun id hi => ?_⟩
  · exact Mention.placed_foldl_note _ D (hids ▸ hn) (hids ▸ hD) m hm
  · exact Mention.find?_foldl_note _ D (hids ▸ hi)

end LoxLang
