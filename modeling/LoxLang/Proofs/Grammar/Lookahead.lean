import LoxLang.Proofs.Grammar.Phrase

/-!
What one token of lookahead tells: the tokens that a phrase can begin with, and those behind it
that would belong to it.
-/

namespace LoxLang

/-- How far a token reaches for what stands before it, from the tightest on. A token of the
greatest number ends every phrase. -/
def Kind.reach : Kind → Nat
  | .symbol .leftParen | .symbol .dot => 0
  | .symbol .slash | .symbol .star => 1
  | .symbol .minus | .symbol .plus => 2
  | .symbol .greater | .symbol .greaterEqual | .symbol .less | .symbol .lessEqual => 3
  | .symbol .bangEqual | .symbol .equalEqual => 4
  | .keyword .and => 5
  | .keyword .or => 6
  | .symbol .equal => 7
  | .symbol .question => 8
  | .symbol .comma => 9
  | _ => 10

/-- The reach of the operators of a level. -/
def Level.reach : Level → Nat
  | .factor => 1
  | .term => 2
  | .comparison => 3
  | .equality => 4
  | .and => 5
  | .or => 6
  | .comma => 9

theorem Level.reach_of_operator {l : Level} {k : Kind} {op : Operator}
    (h : l.operator? k = some op) : k.reach = l.reach := by
  unfold Level.operator? at h
  split at h
  all_goals first | rfl | cases h

/-- No token in front of `rest` that reaches this far. -/
def Follows (reach : Nat) (rest : List Token) : Prop :=
  ∀ t ∈ rest.head?, reach < t.kind.reach

namespace Follows

variable {reach reach' : Nat} {t : Token} {rest : List Token}

theorem cons (h : reach < t.kind.reach) : Follows reach (t :: rest) := by
  rintro _ ⟨⟩
  exact h

theorem mono (h : Follows reach' rest) (hr : reach ≤ reach') : Follows reach rest :=
  fun t ht => Nat.lt_of_le_of_lt hr (h t ht)

theorem kind_ne {k : Kind} (h : Follows reach rest) (hk : k.reach ≤ reach) :
    ∀ t ∈ rest.head?, t.kind ≠ k := by
  rintro t ht rfl
  exact absurd (h t ht) (Nat.not_lt.mpr hk)

theorem next_ne {k : Kind} (h : Follows reach rest) (hk : k.reach ≤ reach) :
    rest.head?.map Token.kind ≠ some k := by
  intro hm
  obtain ⟨t, ht, hk'⟩ := Option.map_eq_some_iff.mp hm
  exact h.kind_ne hk t ht hk'

theorem operator_eq_none {l : Level} (h : Follows l.reach rest) :
    ∀ t ∈ rest.head?, l.operator? t.kind = none := by
  intro t ht
  cases ho : l.operator? t.kind with
  | none => rfl
  | some op =>
    have := h t ht
    rw [Level.reach_of_operator ho] at this
    exact absurd this (Nat.lt_irrefl _)

end Follows

/-- Whether an expression may begin with a token. -/
def Kind.opensExpression : Kind → Bool
  | .keyword .false | .keyword .true | .keyword .nil | .number _ | .string _ | .keyword .super
  | .keyword .this | .identifier | .symbol .leftParen | .keyword .fun | .symbol .bang
  | .symbol .minus => true
  | _ => false

/-- Whether a statement may begin with a token that no expression begins with. -/
def Kind.opensStatement : Kind → Bool
  | .keyword .for | .keyword .if | .keyword .print | .keyword .return | .keyword .while
  | .keyword .break | .keyword .continue | .symbol .leftBrace => true
  | _ => false

/-- Whether a declaration may begin with a token that no statement begins with. -/
def Kind.opensDeclaration : Kind → Bool
  | .keyword .class | .keyword .fun | .keyword .var => true
  | _ => false

/-- How the tokens of an expression begin. A function without a name has its parentheses behind
the keyword. -/
def OpensExpression : List Token → Prop
  | [] => False
  | t :: ts => t.kind.opensExpression = true ∧
    (t.kind = .keyword .fun → ∃ u ∈ ts.head?, u.kind = .symbol .leftParen)

/-- How the tokens of a statement begin. -/
def OpensStatement (ts : List Token) : Prop :=
  OpensExpression ts ∨ ∃ t ∈ ts.head?, t.kind.opensStatement = true

/-- How the tokens of a declaration begin. -/
def OpensDeclaration (ts : List Token) : Prop :=
  OpensStatement ts ∨ ∃ t ∈ ts.head?, t.kind.opensDeclaration = true

theorem OpensExpression.append {ts : List Token} (h : OpensExpression ts) (us : List Token) :
    OpensExpression (ts ++ us) := by
  match ts with
  | t :: ts =>
    refine ⟨h.1, fun hk => ?_⟩
    obtain ⟨u, hu, hl⟩ := h.2 hk
    exact ⟨u, by simp [Option.mem_def.mp hu], hl⟩

theorem OpensStatement.append {ts : List Token} (h : OpensStatement ts) (us : List Token) :
    OpensStatement (ts ++ us) := by
  rcases h with h | ⟨t, ht, ho⟩
  · exact .inl (h.append us)
  · exact .inr ⟨t, by simp [Option.mem_def.mp ht], ho⟩

/-- How the tokens of a phrase begin. -/
def Phrase.Opens : Phrase → List Token → Prop
  | .level _, ts | .operand _, ts | .ternary, ts | .assignment, ts | .unary, ts | .call, ts
  | .primary, ts | .argumentList, ts => OpensExpression ts
  | .statement _, ts => OpensStatement ts
  | .declaration, ts => OpensDeclaration ts
  | .block, ts => ∃ t ∈ ts.head?, t.kind = .symbol .leftBrace
  | _, _ => True

theorem Derives.opens {p : Phrase} {ts : List Token} {a : p.Tree} (h : Derives p ts a) :
    p.Opens ts := by
  have single : ∀ {t : Token} {ts : List Token} {k : Kind}, t.kind = k →
      k.opensExpression = true → k ≠ .keyword .fun → OpensExpression (t :: ts) := by
    rintro t ts _ rfl ho hf
    exact ⟨ho, fun hk => absurd hk hf⟩
  have worded : ∀ {t : Token} {ts : List Token} {k : Kind}, t.kind = k →
      k.opensStatement = true → OpensStatement (t :: ts) := by
    rintro t ts _ rfl ho
    exact .inr ⟨t, rfl, ho⟩
  induction h with
  | commaOperand _ ih | orOperand _ ih | andOperand _ ih | equalityOperand _ ih
  | comparisonOperand _ ih | termOperand _ ih | factorOperand _ ih | assignment _ ih
  | disjunction _ ih | unaryCall _ ih | lastArgument _ ih => exact ih
  | level _ _ ih | call _ _ ih | moreArguments _ _ _ ih | assignProperty _ _ _ _ _ ih =>
    exact ih.append _
  | ternary _ _ _ _ _ ih => exact (ih.append _).append _
  | unary ht =>
    unfold UnaryOp.ofKind? at ht
    split at ht
    · exact single ‹_› rfl (by simp)
    · exact single ‹_› rfl (by simp)
    · cases ht
  | assignVariable _ ht | falseLiteral ht | trueLiteral ht | nilLiteral ht | numberLiteral ht
  | stringLiteral ht | this _ ht | name _ ht | super _ ht | group ht =>
    exact single ht rfl (by simp)
  | lambda ht hl => exact ⟨by rw [ht]; rfl, fun _ => ⟨_, rfl, hl⟩⟩
  | block hl => exact ⟨_, rfl, hl⟩
  | expressionStatement _ _ ih => exact .inl (ih.append _)
  | print ht | «return» ht | «break» ht | «continue» ht | ifThen ht | ifElse ht | «while» ht
  | «for» ht => exact worded ht rfl
  | blockStatement _ ih =>
    obtain ⟨t, ht, hl⟩ := ih
    exact .inr ⟨t, ht, by rw [hl]; rfl⟩
  | base hc | subclass _ hc => exact .inr ⟨_, rfl, by rw [hc]; rfl⟩
  | functionDeclaration ht | variableDeclaration ht => exact .inr ⟨_, rfl, by rw [ht]; rfl⟩
  | statement _ ih => exact .inl ih
  | _ => exact trivial

/-- No call begins with an operator. -/
theorem Derives.call_head {ts : List Token} {e : Expr} (h : Derives .call ts e) :
    ∃ t us, ts = t :: us ∧ UnaryOp.ofKind? t.kind = none := by
  cases h with
  | call h₁ h₂ =>
    cases h₁ with
    | falseLiteral ht | trueLiteral ht | nilLiteral ht | numberLiteral ht | stringLiteral ht
    | this _ ht | name _ ht | super _ ht | group ht | lambda ht =>
      exact ⟨_, _, rfl, by rw [ht]; rfl⟩

/-- A phrase that begins with a token of its own is not empty. -/
theorem OpensExpression.cons_of {ts : List Token} (h : OpensExpression ts) :
    ∃ t us, ts = t :: us ∧ t.kind.opensExpression = true ∧
      (t.kind = .keyword .fun → ∃ u ∈ us.head?, u.kind = .symbol .leftParen) := by
  match ts with
  | t :: us => exact ⟨t, us, rfl, h⟩

/-- No declaration is empty or begins with what ends a block or a branch. -/
theorem OpensDeclaration.cons_of {ts : List Token} (h : OpensDeclaration ts) :
    ∃ t us, ts = t :: us ∧ t.kind ≠ .keyword .else ∧ t.kind ≠ .symbol .rightBrace := by
  rcases h with (h | ⟨t, ht, ho⟩) | ⟨t, ht, ho⟩
  · obtain ⟨t, us, rfl, ho, -⟩ := h.cons_of
    exact ⟨t, us, rfl, by rintro hk; simp [hk, Kind.opensExpression] at ho,
      by rintro hk; simp [hk, Kind.opensExpression] at ho⟩
  · obtain ⟨us, rfl⟩ := List.head?_eq_some_iff.mp ht
    exact ⟨t, us, rfl, by rintro hk; simp [hk, Kind.opensStatement] at ho,
      by rintro hk; simp [hk, Kind.opensStatement] at ho⟩
  · obtain ⟨us, rfl⟩ := List.head?_eq_some_iff.mp ht
    exact ⟨t, us, rfl, by rintro hk; simp [hk, Kind.opensDeclaration] at ho,
      by rintro hk; simp [hk, Kind.opensDeclaration] at ho⟩

end LoxLang
