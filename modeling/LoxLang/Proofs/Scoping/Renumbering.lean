import LoxLang.Proofs.Likeness.Code

/-!
The analysis of like code. It finds like errors and the same distances: numbers only tell
occurrences apart, and lines only get into errors.
-/

namespace LoxLang

/-- Where the analysis of like code has got. -/
structure Scoping.Like (L : Likeness) (s s' : Scoping) : Prop where
  scopes : s'.scopes = s.scopes
  errors : List.Forall₂ (Diagnostic.LikeIn .analysis L.line) s.errors s'.errors
  found : List.Forall₂ (fun f f' => L.occurrence f.1 f'.1 ∧ f'.2 = f.2) s.found s'.found

namespace Scoping.Like

variable {L : Likeness} {s s' : Scoping}

/-- Before the analysis. -/
theorem start (L : Likeness) : Like L .start .start :=
  ⟨rfl, .nil, .nil⟩

/-- Where like occurrences had like distances before, they have like distances when those found are
noted. -/
theorem noted (h : Like L s s') (hL : L.OneToOne) {D D' : Distances}
    (hD : ∀ id id', L.occurrence id id' → D'.find? id' = D.find? id) {id id' : Nat}
    (hid : L.occurrence id id') : (s'.noted D').find? id' = (s.noted D).find? id := by
  obtain ⟨-, -, hfound⟩ := h
  unfold Scoping.noted
  generalize s.found = found, s'.found = found' at hfound ⊢
  induction hfound generalizing id id' with
  | nil => exact hD id id' hid
  | @cons f f' _ _ hf _ ih =>
    rw [List.foldr_cons, List.foldr_cons, Distances.find?_note?, Distances.find?_note?, ih hid,
      ih hf.1, hf.2]
    simp only [hL id id' f.1 f'.1 hid hf.1]

section

variable (h : Like L s s')
include h

theorem report {line line' : Nat} (hl : L.line line line') (lexeme : String) (e : ScopeError) :
    Like L (s.report line lexeme e) (s'.report line' lexeme e) :=
  { h with errors := .cons ⟨.scope hl, rfl⟩ h.errors }

theorem reportIf (violated : Bool) {line line' : Nat} (hl : L.line line line') (lexeme : String)
    (e : ScopeError) :
    Like L (s.reportIf violated line lexeme e) (s'.reportIf violated line' lexeme e) := by
  cases violated with
  | true => exact h.report hl lexeme e
  | false => exact h

theorem enter : Like L s.enter s'.enter :=
  { h with scopes := congrArg (Table.empty :: ·) h.scopes }

theorem leave : Like L s.leave s'.leave :=
  { h with scopes := congrArg List.tail h.scopes }

theorem bind (name : String) (initialized : Bool) :
    Like L (s.bind name initialized) (s'.bind name initialized) := by
  have hs := h.scopes
  unfold Scoping.bind
  rw [hs]
  split
  · exact h
  · exact { h with scopes := rfl }

theorem innermost_eq (p : Table Bool → Bool) : s'.innermost p = s.innermost p := by
  rw [Scoping.innermost, h.scopes, Scoping.innermost]

theorem declare {name name' : Name} (hn : name.Like L name') :
    Like L (s.declare name) (s'.declare name') := by
  unfold Scoping.declare
  rw [hn.text, h.innermost_eq]
  exact (h.bind _ _).reportIf _ hn.line _ _

theorem define {name name' : Name} (hn : name.Like L name') :
    Like L (s.define name) (s'.define name') := by
  unfold Scoping.define
  rw [hn.text]
  exact h.bind _ _

theorem introduce {name name' : Name} (hn : name.Like L name') :
    Like L (s.introduce name) (s'.introduce name') :=
  (h.declare hn).define hn

theorem meet {id id' : Nat} (hid : L.occurrence id id') (distance? : Option Nat) :
    Like L (s.meet id distance?) (s'.meet id' distance?) :=
  { h with found := .cons ⟨hid, rfl⟩ h.found }

theorem locate {id id' : Nat} (hid : L.occurrence id id') (name : String) :
    Like L (s.locate id name) (s'.locate id' name) := by
  unfold Scoping.locate
  rw [h.scopes]
  exact h.meet hid _

theorem read {o o' : Occurrence} (ho : o.Like L o') :
    Like L (s.read o) (s'.read o') := by
  unfold Scoping.read
  rw [ho.name.text, h.innermost_eq]
  exact (h.reportIf _ ho.name.line _ _).locate ho.id _

theorem readThis (around : Surroundings) {id id' line line' : Nat}
    (hid : L.occurrence id id') (hl : L.line line line') :
    Like L (s.readThis around id line) (s'.readThis around id' line') := by
  unfold Scoping.readThis
  split
  · exact (h.meet hid none).report hl _ _
  · exact h.locate hid _

theorem readSuper (around : Surroundings) {id id' line line' : Nat}
    (hid : L.occurrence id id') (hl : L.line line line') :
    Like L (s.readSuper around id line) (s'.readSuper around id' line') := by
  unfold Scoping.readSuper
  cases around.class with
  | none => exact (h.report hl _ _).locate hid _
  | base => exact (h.report hl _ _).locate hid _
  | subclass => exact h.locate hid _

theorem readSuperclass {name name' : Name} {o o' : Occurrence}
    (hn : name.Like L name') (ho : o.Like L o') :
    Like L (s.readSuperclass name o) (s'.readSuperclass name' o') := by
  unfold Scoping.readSuperclass
  rw [ho.name.text, hn.text]
  exact ((h.reportIf _ ho.name.line _ _).read ho).enter.bind _ _

theorem parameters {ps ps' : List Name} (hp : List.Forall₂ (Name.Like L) ps ps') :
    Like L (ps.foldl .introduce s) (ps'.foldl .introduce s') := by
  induction hp generalizing s s' with
  | nil => exact h
  | cons hn _ ih => exact ih (h.introduce hn)

end

end Scoping.Like

section

variable {L : Likeness}

mutual

theorem Expr.resolve_like (around : Surroundings) {s s' : Scoping} (hs : s.Like L s') :
    (e : Expr) → {e' : Expr} → e.Like L e' →
      (e.resolve around s).Like L (e'.resolve around s')
  | .literal _, _, h => by
    subst h
    exact hs
  | .group inner, _, h => by
    obtain ⟨_, rfl, h⟩ := h
    exact (inner.resolve_like around hs h :)
  | .unary _ _ operand, _, h => by
    obtain ⟨_, _, rfl, -, h⟩ := h
    exact (operand.resolve_like around hs h :)
  | .binary _ _ left right, _, h => by
    obtain ⟨_, _, _, rfl, -, hl, hr⟩ := h
    exact right.resolve_like around (left.resolve_like around hs hl) hr
  | .logical _ left right, _, h => by
    obtain ⟨_, _, rfl, hl, hr⟩ := h
    exact right.resolve_like around (left.resolve_like around hs hl) hr
  | .ternary condition thenBranch elseBranch, _, h => by
    obtain ⟨_, _, _, rfl, hc, ht, he⟩ := h
    exact elseBranch.resolve_like around
      (thenBranch.resolve_like around (condition.resolve_like around hs hc) ht) he
  | .comma left right, _, h => by
    obtain ⟨_, _, rfl, hl, hr⟩ := h
    exact right.resolve_like around (left.resolve_like around hs hl) hr
  | .variable _, _, h => by
    obtain ⟨_, rfl, ho⟩ := h
    exact hs.read ho
  | .assign _ value, _, h => by
    obtain ⟨_, _, rfl, ho, hv⟩ := h
    unfold Expr.resolve
    rw [ho.name.text]
    exact (value.resolve_like around hs hv).locate ho.id _
  | .call callee _ arguments, _, h => by
    obtain ⟨_, _, _, rfl, hc, -, ha⟩ := h
    exact resolveExprs_like around (callee.resolve_like around hs hc) arguments ha
  | .get object _, _, h => by
    obtain ⟨_, _, rfl, ho, -⟩ := h
    exact (object.resolve_like around hs ho :)
  | .set object _ value, _, h => by
    obtain ⟨_, _, _, rfl, ho, -, hv⟩ := h
    exact object.resolve_like around (value.resolve_like around hs hv) ho
  | .this _ _, _, h => by
    obtain ⟨_, _, rfl, hid, hl⟩ := h
    exact hs.readThis around hid hl
  | .super _ _ _, _, h => by
    obtain ⟨_, _, _, rfl, hid, hl, -⟩ := h
    exact hs.readSuper around hid hl
  | .lambda f, _, h => by
    obtain ⟨_, rfl, hf⟩ := h
    exact f.resolve_like around .function hs hf
termination_by structural x => x

theorem resolveExprs_like (around : Surroundings) {s s' : Scoping} (hs : s.Like L s') :
    (es : List Expr) → {es' : List Expr} → exprsLike L es es' →
      (resolveExprs around es s).Like L (resolveExprs around es' s')
  | [], _, h => by
    subst h
    exact hs
  | e :: es, _, h => by
    obtain ⟨_, _, rfl, he, hes⟩ := h
    exact resolveExprs_like around (e.resolve_like around hs he) es hes
termination_by structural x => x

theorem Function.resolve_like (around : Surroundings) (kind : BodyKind) {s s' : Scoping}
    (hs : s.Like L s') : (f : Function) → {f' : Function} → {isInitializer : Bool} →
      f.Like L isInitializer f' →
      (f.resolve around kind s).Like L (f'.resolve around kind s')
  | ⟨_, _, body, _⟩, _, _, h => by
    obtain ⟨-, _, _, _, _, rfl, -, hp, hb, -⟩ := h
    exact (resolveStmts_like _ (hs.enter.parameters hp) body hb).leave
termination_by structural x => x

theorem Stmt.resolve_like (around : Surroundings) {s s' : Scoping} (hs : s.Like L s') :
    (stmt : Stmt) → {stmt' : Stmt} → stmt.Like L stmt' →
      (stmt.resolve around s).Like L (stmt'.resolve around s')
  | .expression e, _, h => by
    obtain ⟨_, rfl, h⟩ := h
    exact e.resolve_like around hs h
  | .print e, _, h => by
    obtain ⟨_, rfl, h⟩ := h
    exact e.resolve_like around hs h
  | .var _ none, _, h => by
    obtain ⟨_, rfl, hn⟩ := h
    exact hs.introduce hn
  | .var _ (some initializer), _, h => by
    obtain ⟨_, _, rfl, hn, he⟩ := h
    exact (initializer.resolve_like around (hs.declare hn) he).define hn
  | .block body, _, h => by
    obtain ⟨_, rfl, hb⟩ := h
    exact (resolveStmts_like around hs.enter body hb).leave
  | .if condition thenBranch none, _, h => by
    obtain ⟨_, _, rfl, hc, ht⟩ := h
    exact thenBranch.resolve_like around (condition.resolve_like around hs hc) ht
  | .if condition thenBranch (some elseBranch), _, h => by
    obtain ⟨_, _, _, rfl, hc, ht, he⟩ := h
    exact elseBranch.resolve_like around
      (thenBranch.resolve_like around (condition.resolve_like around hs hc) ht) he
  | .while condition body none, _, h => by
    obtain ⟨_, _, rfl, hc, hb⟩ := h
    exact body.resolve_like _ (condition.resolve_like around hs hc) hb
  | .while condition body (some increment), _, h => by
    obtain ⟨_, _, _, rfl, hc, hb, hi⟩ := h
    exact increment.resolve_like around
      (body.resolve_like _ (condition.resolve_like around hs hc) hb) hi
  | .function f, _, h => by
    obtain ⟨f', rfl, hf⟩ := h
    have named : ((f.name?.map s.introduce).getD s).Like L
        ((f'.name?.map s'.introduce).getD s') := by
      obtain ⟨name?, parameters, body, line⟩ := f
      obtain ⟨-, _, _, _, _, rfl, hn, -⟩ := hf
      cases hn with
      | none => exact hs
      | some hn => exact hs.introduce hn
    exact f.resolve_like around .function named hf
  | .class c, _, h => by
    obtain ⟨_, rfl, hc⟩ := h
    exact c.resolve_like around hs hc
  | .return _ none, _, h => by
    obtain ⟨_, rfl, hl⟩ := h
    exact hs.reportIf _ hl _ _
  | .return _ (some value), _, h => by
    obtain ⟨_, _, rfl, hl, hv⟩ := h
    exact value.resolve_like around ((hs.reportIf _ hl _ _).reportIf _ hl _ _) hv
  | .break _, _, h => by
    obtain ⟨_, rfl, hl⟩ := h
    exact hs.reportIf _ hl _ _
  | .continue _, _, h => by
    obtain ⟨_, rfl, hl⟩ := h
    exact hs.reportIf _ hl _ _
termination_by structural x => x

theorem resolveStmts_like (around : Surroundings) {s s' : Scoping} (hs : s.Like L s') :
    (ss : List Stmt) → {ss' : List Stmt} → stmtsLike L ss ss' →
      (resolveStmts around ss s).Like L (resolveStmts around ss' s')
  | [], _, h => by
    subst h
    exact hs
  | stmt :: ss, _, h => by
    obtain ⟨_, _, rfl, hstmt, hss⟩ := h
    exact resolveStmts_like around (stmt.resolve_like around hs hstmt) ss hss
termination_by structural x => x

theorem Class.resolve_like (around : Surroundings) {s s' : Scoping} (hs : s.Like L s') :
    (c : Class) → {c' : Class} → c.Like L c' →
      (c.resolve around s).Like L (c'.resolve around s')
  | ⟨_, none, methods, getters⟩, _, h => by
    obtain ⟨_, _, _, _, rfl, hn, hsuper, hm, hg⟩ := h
    cases hsuper
    exact (resolveFunctions_like _ _
      (resolveFunctions_like _ _ ((hs.introduce hn).enter.bind "this" true) methods
        (fun _ _ _ h => h.methodKind_eq) hm) getters (fun _ _ _ _ => rfl) hg).leave
  | ⟨_, some _, methods, getters⟩, _, h => by
    obtain ⟨_, _, _, _, rfl, hn, hsuper, hm, hg⟩ := h
    cases hsuper with
    | some ho =>
      exact (resolveFunctions_like _ _
        (resolveFunctions_like _ _
          (((hs.introduce hn).readSuperclass hn ho).enter.bind "this" true) methods
          (fun _ _ _ h => h.methodKind_eq) hm) getters (fun _ _ _ _ => rfl) hg).leave.leave
termination_by structural x => x

theorem resolveFunctions_like (around : Surroundings) (kind : Function → BodyKind)
    {s s' : Scoping} (hs : s.Like L s') : (fs : List Function) → {fs' : List Function} →
      {isInitializer : Function → Bool} →
      (∀ f f' b, f.Like L b f' → kind f' = kind f) → functionsLike L isInitializer fs fs' →
      (resolveFunctions around kind fs s).Like L (resolveFunctions around kind fs' s')
  | [], _, _, _, h => by
    subst h
    exact hs
  | f :: fs, _, _, hk, h => by
    obtain ⟨f', _, rfl, hf, hfs⟩ := h
    have h := f.resolve_like around (kind f) hs hf
    unfold resolveFunctions
    rw [hk f f' _ hf]
    exact resolveFunctions_like around kind h fs hk hfs
termination_by structural x => x

end

end

end LoxLang
