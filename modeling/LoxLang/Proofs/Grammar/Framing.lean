import LoxLang.Proofs.Grammar.Reading

/-!
What a parser does not see. Where it stops in front of the rest of a program, it has looked at no
more of that rest than the first token, and at none of the errors reported before. So it does the
same in front of another rest that begins so, and with more fuel.
-/

namespace LoxLang

/-- What is around the tokens that a parser takes: the rest of the program, the line on which it
ends, and the errors reported before. -/
structure Frame where
  rest : List Token
  endLine : Nat
  errors : List Diagnostic

namespace Frame

/-- Whether a parser that stops in front of the rest of `M` cannot tell it from that of `M'`: it is
the same, or `M'` has only a beginning of it. -/
def Alike (M M' : Frame) : Prop :=
  M'.rest = M.rest ∧ M'.endLine = M.endLine ∨
    ∃ t ts ts', M.rest = t :: ts ∧ M'.rest = t :: ts' ∧ ts' <+: ts

/-- A cursor with a frame around it. -/
def around (M : Frame) (c : Cursor) : Cursor :=
  ⟨c.tokens ++ M.rest, M.endLine, c.nextId, c.errors ++ M.errors⟩

/-- The frame of a cursor that has nothing around it. -/
def plain (endLine : Nat) : Frame :=
  ⟨[], endLine, []⟩

theorem plain_around (c : Cursor) : (plain c.endLine).around c = c := by
  simp [around, plain]

theorem Alike.refl (M : Frame) : M.Alike M :=
  .inl ⟨rfl, rfl⟩

variable {M M' : Frame} {c : Cursor}

theorem Alike.head? (h : M.Alike M') :
    (M'.around c).tokens.head? = (M.around c).tokens.head? := by
  rcases h with ⟨hrest, -⟩ | ⟨t, ts, ts', hrest, hrest', -⟩
  · simp [around, hrest]
  · simp [around, hrest, hrest']

theorem Alike.diagnostic (h : M.Alike M') (error : GrammarError) :
    (M'.around c).diagnostic error = (M.around c).diagnostic error := by
  rcases h with ⟨hrest, hline⟩ | ⟨t, ts, ts', hrest, hrest', -⟩
  · simp [around, Cursor.diagnostic, hrest, hline]
  · obtain ⟨front, endLine, nextId, errors⟩ := c
    cases front <;> simp [around, Cursor.diagnostic, hrest, hrest']

/-- Recovery that stops in front of a rest does so in front of one like it. -/
theorem Alike.boundaryAfter (h : M.Alike M') {last : Token} {front : List Token}
    (hs : M.rest <:+ Cursor.boundaryAfter last (front ++ M.rest)) :
    ∃ back, Cursor.boundaryAfter last (front ++ M.rest) = back ++ M.rest ∧
      Cursor.boundaryAfter last (front ++ M'.rest) = back ++ M'.rest := by
  induction front generalizing last with
  | nil =>
    rcases h with ⟨hrest, -⟩ | ⟨t, ts, ts', hrest, hrest', -⟩
    · obtain ⟨back, hback⟩ := hs
      exact ⟨back, hback.symm, by rw [hrest, hback]⟩
    · rw [hrest] at hs ⊢
      rw [hrest']
      simp only [List.nil_append, Cursor.boundaryAfter] at hs ⊢
      split
      · exact ⟨[], rfl, rfl⟩
      · rename_i hno
        rw [if_neg hno] at hs
        exact absurd (hs.trans (Cursor.boundaryAfter_suffix t ts)).length_le
          (Nat.not_succ_le_self _)
  | cons t front ih =>
    simp only [List.cons_append, Cursor.boundaryAfter] at hs ⊢
    split
    · exact ⟨t :: front, rfl, rfl⟩
    · rename_i hno
      rw [if_neg hno] at hs
      exact ih hs

theorem Alike.skipToBoundary (h : M.Alike M') {front : List Token}
    (hs : M.rest <:+ Cursor.skipToBoundary (front ++ M.rest)) :
    ∃ back, Cursor.skipToBoundary (front ++ M.rest) = back ++ M.rest ∧
      Cursor.skipToBoundary (front ++ M'.rest) = back ++ M'.rest := by
  cases front with
  | cons t front => exact h.boundaryAfter hs
  | nil =>
    rcases h with ⟨hrest, -⟩ | ⟨t, ts, ts', hrest, -, -⟩
    · obtain ⟨back, hback⟩ := hs
      exact ⟨back, hback.symm, by rw [hrest, hback]⟩
    · rw [hrest] at hs
      exact absurd (hs.trans (Cursor.boundaryAfter_suffix t ts)).length_le
        (Nat.not_succ_le_self _)

end Frame

/-- A parser takes tokens from the front of `c`, and fails with an error at the next token. -/
def Cursor.Yields {α : Type} (c : Cursor) : EStateM.Result Stop Cursor α → Prop
  | .ok _ c' => c'.tokens <:+ c.tokens
  | .error (.failed d) c' => c'.tokens <:+ c.tokens ∧ ∃ error, d = c'.diagnostic error
  | .error .outOfFuel _ => True

theorem Cursor.Yields.of_suffix {α : Type} {c c₁ : Cursor} {r : EStateM.Result Stop Cursor α}
    (h : c₁.Yields r) (hs : c₁.tokens <:+ c.tokens) : c.Yields r := by
  match r, h with
  | .ok _ _, h => exact h.trans hs
  | .error (.failed _) _, ⟨h, hd⟩ => exact ⟨h.trans hs, hd⟩
  | .error .outOfFuel _, _ => trivial

theorem Cursor.Yields.bind {α β : Type} {c c₁ : Cursor} {p : Parser α} {f : α → Parser β}
    (hp : c₁.Yields (p c)) (hf : ∀ a c, Cursor.Yields c (f a c)) : c₁.Yields ((p >>= f) c) := by
  match hr : p c with
  | .ok a c₂ =>
    rw [hr] at hp
    rw [Fueled.bind_ok hr]
    exact (hf a c₂).of_suffix hp
  | .error (.failed _) _ | .error .outOfFuel _ =>
    rw [hr] at hp
    rw [Fueled.bind_error hr]
    exact hp

namespace Parser

/-- Whether what comes of a parser in front of the rest of `M` also comes of one in front of the
rest of `M'`. -/
def Framed {α : Type} (M M' : Frame) :
    EStateM.Result Stop Cursor α → EStateM.Result Stop Cursor α → Prop
  | .ok a c, r => M.rest <:+ c.tokens → ∃ c', c = M.around c' ∧ r = .ok a (M'.around c')
  | .error (.failed d) c, r =>
    M.rest <:+ c.tokens → ∃ c', c = M.around c' ∧ r = .error (.failed d) (M'.around c')
  | .error .outOfFuel _, _ => True

/-- Whether `q` does in the frame `M'` what `p` does in `M`. -/
def CarriesIn {α : Type} (M M' : Frame) (c : Cursor) (p q : Parser α) : Prop :=
  Framed M M' (p (M.around c)) (q (M'.around c))

/-- Whether `q` does what `p` does, in whatever frame, if `p` stops in front of the rest. -/
structure Carries {α : Type} (p q : Parser α) : Prop where
  yields : ∀ c : Cursor, c.Yields (p c)
  framed : ∀ M M', M.Alike M' → ∀ c : Cursor, CarriesIn M M' c p q

variable {α β : Type} {p q : Parser α}

/-- What takes a token of the rest does not stop in front of it. -/
theorem Framed.of_taken {M M' : Frame} {c : Cursor} {r r' : EStateM.Result Stop Cursor α}
    (h : c.Yields r) (hc : c.tokens.length < M.rest.length) : Framed M M' r r' := by
  have taken {c₁ : Cursor} (hs : M.rest <:+ c₁.tokens) (h : c₁.tokens <:+ c.tokens) : False :=
    Nat.not_le_of_lt hc (hs.trans h).length_le
  match r, h with
  | .ok _ _, h => exact fun hs => (taken hs h).elim
  | .error (.failed _) _, h => exact fun hs => (taken hs h.1).elim
  | .error .outOfFuel _, _ => trivial

namespace Carries

/-- With nothing around it, a result is carried over as it is. -/
theorem eq_ok {a : α} {c c' : Cursor} (h : Carries p q) (hp : p c = .ok a c') : q c = .ok a c' := by
  have hframed := h.framed _ _ (.refl (.plain c.endLine)) c
  rw [CarriesIn, Frame.plain_around, hp] at hframed
  obtain ⟨c₁, rfl, hq⟩ := hframed List.nil_suffix
  exact hq

theorem pure (a : α) : Carries (Pure.pure a) (Pure.pure a) :=
  ⟨fun _ => List.suffix_refl _, fun _ _ _ c _ => ⟨c, rfl, rfl⟩⟩

theorem exhausted (q : Parser α) : Carries Fueled.exhausted q :=
  ⟨fun _ => trivial, fun _ _ _ _ => trivial⟩

theorem bind {f g : α → Parser β} (hp : Carries p q) (hf : ∀ a, Carries (f a) (g a)) :
    Carries (p >>= f) (q >>= g) := by
  constructor
  · exact fun c => (hp.yields c).bind fun a => (hf a).yields
  · intro M M' hM c
    have h := hp.framed M M' hM c
    unfold CarriesIn at h ⊢
    match hr : p (M.around c) with
    | .error .outOfFuel _ =>
      rw [Fueled.bind_error hr]
      trivial
    | .error (.failed d) c₁ =>
      rw [hr] at h
      rw [Fueled.bind_error hr]
      intro hs
      obtain ⟨c', rfl, hq⟩ := h hs
      exact ⟨c', rfl, Fueled.bind_error hq⟩
    | .ok a c₁ =>
      rw [hr] at h
      rw [Fueled.bind_ok hr]
      by_cases hs : M.rest <:+ c₁.tokens
      · obtain ⟨c', rfl, hq⟩ := h hs
        rw [Fueled.bind_ok hq]
        exact (hf a).framed M M' hM c'
      · have hy := (hf a).yields c₁
        match hr₁ : f a c₁ with
        | .error .outOfFuel _ => trivial
        | .ok _ _ =>
          rw [hr₁] at hy
          exact fun hs' => (hs (hs'.trans hy)).elim
        | .error (.failed _) _ =>
          rw [hr₁] at hy
          exact fun hs' => (hs (hs'.trans hy.1)).elim

/-- What comes next may hang on the next token. -/
theorem look {f g : Cursor → Parser α}
    (hnil : ∀ c c', c.tokens = [] → c'.tokens = [] → Carries (f c) (g c'))
    (hcons : ∀ c c' t ts ts', c.tokens = t :: ts → c'.tokens = t :: ts' → Carries (f c) (g c')) :
    Carries (get >>= f) (get >>= g) := by
  have hlook : ∀ c c', c'.tokens.head? = c.tokens.head? → Carries (f c) (g c') := by
    intro c c' h
    match hc : c.tokens with
    | [] =>
      rw [hc] at h
      exact hnil c c' hc (List.head?_eq_none_iff.mp h)
    | t :: ts =>
      rw [hc] at h
      obtain ⟨ts', hc'⟩ := List.head?_eq_some_iff.mp h
      exact hcons c c' t ts ts' hc hc'
  exact ⟨fun c => (hlook c c rfl).yields c, fun M M' hM c =>
    (hlook _ _ hM.head?).framed M M' hM c⟩

/-- What comes next may hang on two tokens, if it does so in front of a rest of one token too. -/
theorem lookTwo {f g : Cursor → Parser α}
    (h : ∀ c c', c'.tokens.take 2 = c.tokens.take 2 → Carries (f c) (g c'))
    (hcut : ∀ M M' t u ts, M.Alike M' → M.rest = t :: u :: ts → M'.rest = [t] → ∀ c : Cursor,
      c.tokens = [] → CarriesIn M M' c (f (M.around c)) (g (M'.around c))) :
    Carries (get >>= f) (get >>= g) := by
  refine ⟨fun c => (h c c rfl).yields c, fun M M' hM c => ?_⟩
  have same (heq : (M'.around c).tokens.take 2 = (M.around c).tokens.take 2) :
      CarriesIn M M' c (f (M.around c)) (g (M'.around c)) :=
    (h _ _ heq).framed M M' hM c
  rcases id hM with ⟨hrest, -⟩ | ⟨t, ts, ts', hrest, hrest', hts⟩
  · exact same (by simp [Frame.around, hrest])
  · match hc : c.tokens with
    | x :: y :: front => exact same (by simp [Frame.around, hc])
    | [x] => exact same (by simp [Frame.around, hc, hrest, hrest'])
    | [] =>
      match ts', ts, hts with
      | [], [], _ => exact same (by simp [Frame.around, hc, hrest, hrest'])
      | [], u :: ts, _ => exact hcut M M' t u ts hM hrest hrest' c hc
      | u :: ts', v :: ts, hts =>
        obtain ⟨rfl, -⟩ := List.cons_prefix_cons.mp hts
        exact same (by simp [Frame.around, hc, hrest, hrest'])

theorem peek {f g : Option Kind → Parser α} (h : ∀ kind?, Carries (f kind?) (g kind?)) :
    Carries (peek? >>= f) (peek? >>= g) := by
  refine ⟨fun c => (h (c.tokens.head?.map Token.kind)).yields c, fun M M' hM c => ?_⟩
  show Framed M M' (f ((M.around c).tokens.head?.map Token.kind) (M.around c))
    (g ((M'.around c).tokens.head?.map Token.kind) (M'.around c))
  rw [hM.head?]
  exact (h _).framed M M' hM c

theorem skip : Carries skip skip := by
  refine ⟨fun c => List.tail_suffix _, fun M M' hM c hs => ?_⟩
  obtain ⟨front, endLine, nextId, errors⟩ := c
  cases front with
  | cons t front => exact ⟨⟨front, endLine, nextId, errors⟩, rfl, rfl⟩
  | nil =>
    rcases hM with ⟨hrest, -⟩ | ⟨t, ts, ts', hrest, -, -⟩
    · have hnil : M.rest = [] := by
        have hle : M.rest.length ≤ M.rest.tail.length := hs.length_le
        rw [List.length_tail] at hle
        exact List.eq_nil_of_length_eq_zero (by omega)
      refine ⟨⟨[], endLine, nextId, errors⟩, ?_, ?_⟩
      · simp [Frame.around, hnil]
      · show EStateM.Result.ok () { M'.around ⟨[], endLine, nextId, errors⟩ with
          tokens := ([] ++ M'.rest).tail } = _
        simp [Frame.around, hrest, hnil]
    · have hle : M.rest.length ≤ M.rest.tail.length := hs.length_le
      rw [hrest] at hle
      exact absurd hle (Nat.not_succ_le_self _)

theorem nextIs (kind : Kind) : Carries (nextIs kind) (nextIs kind) := by
  refine look (fun c c' hc hc' => ?_) fun c c' t ts ts' hc hc' => ?_
  · rw [hc, hc']
    exact .pure _
  · rw [hc, hc']
    exact .pure _

theorem accept (kind : Kind) : Carries (accept kind) (accept kind) :=
  (nextIs kind).bind fun b => by
    cases b with
    | false => exact .pure _
    | true => exact skip.bind fun _ => .pure _

theorem failHere (error : GrammarError) :
    Carries (failHere error : Parser α) (Parser.failHere error) := by
  refine ⟨fun c => ⟨List.suffix_refl _, error, rfl⟩, fun M M' hM c _ => ⟨c, rfl, ?_⟩⟩
  show EStateM.Result.error (Stop.failed ((M'.around c).diagnostic error)) (M'.around c) = _
  rw [hM.diagnostic]

theorem report (d : Diagnostic) : Carries (report d) (report d) :=
  ⟨fun _ => List.suffix_refl _, fun _ _ _ c _ => ⟨{ c with errors := d :: c.errors }, rfl, rfl⟩⟩

theorem reportHere (error : GrammarError) : Carries (reportHere error) (reportHere error) := by
  refine ⟨fun c => List.suffix_refl _, fun M M' hM c _ =>
    ⟨{ c with errors := (M.around c).diagnostic error :: c.errors }, rfl, ?_⟩⟩
  show EStateM.Result.ok () { M'.around c with
    errors := (M'.around c).diagnostic error :: (c.errors ++ M'.errors) } = _
  rw [hM.diagnostic]
  rfl

theorem expect (what : Expectation) : Carries (expect what) (expect what) := by
  rw [expect_look]
  refine look (fun c c' hc hc' => ?_) fun c c' t ts ts' hc hc' => ?_
  · rw [hc, hc']
    exact failHere _
  · rw [hc, hc']
    dsimp only
    split
    · exact skip.bind fun _ => .pure _
    · exact failHere _

/-- Where another token comes first, a name is refused. -/
theorem expectName_eq_error {what : Expectation} {c : Cursor} {t : Token} {ts : List Token}
    (hc : c.tokens = t :: ts) (ht : t.kind ≠ what.wanted) :
    Parser.expectName what c = .error (.failed (c.diagnostic (.expected what))) c :=
  Fueled.bind_error (expect_eq_error (by simp [hc, ht]))

theorem expectName (what : Expectation) : Carries (expectName what) (expectName what) :=
  (expect what).bind fun _ => .pure _

theorem freshId : Carries freshId freshId :=
  ⟨fun _ => List.suffix_refl _, fun _ _ _ c _ => ⟨{ c with nextId := c.nextId + 1 }, rfl, rfl⟩⟩

theorem occurrence (name : Name) : Carries (occurrence name) (occurrence name) :=
  freshId.bind fun _ => .pure _

theorem acceptOperator (l : Level) : Carries (acceptOperator l) (acceptOperator l) := by
  refine look (fun c c' hc hc' => ?_) fun c c' t ts ts' hc hc' => ?_
  · rw [hc, hc']
    exact .pure _
  · rw [hc, hc']
    dsimp only
    split
    · exact .pure _
    · exact skip.bind fun _ => .pure _

theorem acceptUnary : Carries acceptUnary acceptUnary := by
  refine look (fun c c' hc hc' => ?_) fun c c' t ts ts' hc hc' => ?_
  · rw [hc, hc']
    exact .pure _
  · rw [hc, hc']
    dsimp only
    split
    · exact .pure _
    · exact skip.bind fun _ => .pure _

theorem acceptEquals : Carries acceptEquals acceptEquals := by
  refine look (fun c c' hc hc' => ?_) fun c c' t ts ts' hc hc' => ?_
  · rw [hc, hc']
    exact .pure _
  · rw [hc, hc']
    dsimp only
    split
    · exact skip.bind fun _ => .pure _
    · exact .pure _

theorem assignment (equals : Token) (target value : Expr) :
    Carries (assignment equals target value) (assignment equals target value) := by
  have refused (target : Expr) : Carries
      (do Parser.report (.grammar equals.line (some equals.lexeme) .invalidAssignmentTarget)
          return target)
      (do Parser.report (.grammar equals.line (some equals.lexeme) .invalidAssignmentTarget)
          return target) :=
    (report _).bind fun _ => .pure _
  cases target with
  | «variable» o => exact (occurrence _).bind fun _ => .pure _
  | get object name => exact .pure _
  | _ => exact refused _

theorem superMethod (line : Nat) : Carries (superMethod line) (superMethod line) :=
  (expect _).bind fun _ => (expectName _).bind fun _ => freshId.bind fun _ => .pure _

theorem jump (s : Stmt) (what : Expectation) : Carries (jump s what) (jump s what) :=
  (expect _).bind fun _ => .pure _

theorem superclassReference : Carries superclassReference superclassReference :=
  (accept _).bind fun b => by
    cases b with
    | false => exact .pure _
    | true => exact (expectName _).bind fun _ => (occurrence _).bind fun _ => .pure _

/-- Where recovery stops in front of the rest, so did what failed. -/
theorem recovering (hp : Carries p q) : Carries (recovering p) (recovering q) := by
  constructor
  · intro c
    have h := hp.yields c
    unfold Parser.recovering
    match hr : p c with
    | .ok _ _ | .error .outOfFuel _ =>
      rw [hr] at h
      exact h
    | .error (.failed d) c₁ =>
      rw [hr] at h
      obtain ⟨skipped, hskip, -⟩ := Cursor.skipToBoundary_suffix c₁.tokens
      exact List.IsSuffix.trans ⟨skipped, hskip⟩ h.1
  · intro M M' hM c
    have h := hp.framed M M' hM c
    unfold CarriesIn at h ⊢
    unfold Parser.recovering
    match hr : p (M.around c) with
    | .error .outOfFuel _ => trivial
    | .ok a c₁ =>
      rw [hr] at h
      intro hs
      obtain ⟨c', rfl, hq⟩ := h hs
      exact ⟨c', rfl, by rw [hq]⟩
    | .error (.failed d) c₁ =>
      rw [hr] at h
      intro hs
      obtain ⟨skipped, hskip, -⟩ := Cursor.skipToBoundary_suffix c₁.tokens
      obtain ⟨c', rfl, hq⟩ := h (hs.trans ⟨skipped, hskip⟩)
      obtain ⟨back, hback, hback'⟩ := hM.skipToBoundary hs
      refine ⟨{ c' with tokens := back, errors := d :: c'.errors }, ?_, ?_⟩
      · simpa [Frame.around] using hback
      · rw [hq]
        simpa [Frame.around] using hback'

variable {fuel fuel' : Nat}

theorem parameterList (h : fuel ≤ fuel') (count : Nat) :
    Carries (parameterList fuel count) (parameterList fuel' count) := by
  induction fuel generalizing fuel' count with
  | zero => exact exhausted _
  | succ fuel ih =>
    obtain ⟨fuel', rfl⟩ := Nat.exists_eq_add_of_le' (Nat.le_trans (Nat.le_add_left 1 fuel) h)
    have names : Carries
        (do let name ← Parser.expectName .parameterName
            if ← Parser.accept (.symbol .comma) then
              return name :: (← Parser.parameterList fuel (count + 1))
            return [name])
        (do let name ← Parser.expectName .parameterName
            if ← Parser.accept (.symbol .comma) then
              return name :: (← Parser.parameterList fuel' (count + 1))
            return [name]) :=
      (expectName _).bind fun _ => (accept _).bind fun b => by
        cases b with
        | false => exact .pure _
        | true => exact (ih (Nat.le_of_succ_le_succ h) _).bind fun _ => .pure _
    unfold Parser.parameterList
    split
    · exact (reportHere _).bind fun _ => names
    · exact names

theorem parameters (h : fuel ≤ fuel') : Carries (parameters fuel) (parameters fuel') :=
  (nextIs _).bind fun b => by
    cases b with
    | false => exact parameterList h 0
    | true => exact .pure _

end Carries

end Parser

end LoxLang
