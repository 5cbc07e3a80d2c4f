import LoxLang.Proofs.Grammar.Lookahead
import LoxLang.Proofs.Grammar.Reading

/-!
Parsers that give a tree without an error, and the rules for their steps.
-/

namespace LoxLang

/-- `Takes view c rest a r`: the result `r` of reading from `c` has no error, leaves `rest`, and
looks like `a`. -/
def Takes {α β : Type} (view : α → β) (c : Cursor) (rest : List Token) (a : α)
    (r : EStateM.Result Stop Cursor α) : Prop :=
  ∃ a' c', r = .ok a' c' ∧ c'.tokens = rest ∧ c'.errors = c.errors ∧ view a' = view a

namespace Takes

variable {α β γ δ : Type} {view : α → γ} {view' : β → δ} {c : Cursor} {t : Token}
  {ts rest rest' : List Token} {a a' : α} {b : β}

theorem bind {x : Parser α} {f : α → Parser β} (hx : Takes view c rest a (x c))
    (hf : ∀ a' c₁, view a' = view a → c₁.tokens = rest → Takes view' c₁ rest' b (f a' c₁)) :
    Takes view' c rest' b ((x >>= f) c) := by
  obtain ⟨a', c₁, hx, ht, he, hv⟩ := hx
  obtain ⟨b', c₂, hf, ht', he', hv'⟩ := hf a' c₁ hv ht
  exact ⟨b', c₂, (Fueled.bind_ok hx).trans hf, ht', he'.trans he, hv'⟩

/-- What is taken as it is goes on into what follows. -/
theorem step {x : Parser α} {f : α → Parser β} (hx : Takes id c rest a (x c))
    (hf : ∀ c₁, c₁.tokens = rest → Takes view' c₁ rest' b (f a c₁)) :
    Takes view' c rest' b ((x >>= f) c) := by
  refine hx.bind fun a' c₁ ha h₁ => ?_
  obtain rfl : a' = a := ha
  exact hf c₁ h₁

theorem pure (hc : c.tokens = rest) (h : view a' = view a) :
    Takes view c rest a ((Pure.pure a' : Parser α) c) :=
  ⟨a', c, rfl, hc, rfl, h⟩

/-- A result may be compared to any other that looks the same. -/
theorem trans {r : EStateM.Result Stop Cursor α} (h : Takes view c rest a r)
    (ha : view a = view a') : Takes view c rest a' r := by
  obtain ⟨b, c', hr, ht, he, hv⟩ := h
  exact ⟨b, c', hr, ht, he, hv.trans ha⟩

theorem look {f : Cursor → Parser α} (h : Takes view c rest a (f c c)) :
    Takes view c rest a ((get >>= f) c) := h

theorem peek {f : Option Kind → Parser α}
    (h : Takes view c rest a (f (c.tokens.head?.map Token.kind) c)) :
    Takes view c rest a ((Parser.peek? >>= f) c) := h

theorem skip (hc : c.tokens = t :: rest) : Takes id c rest () (Parser.skip c) := by
  rw [Parser.skip_eq hc]
  exact ⟨(), _, rfl, rfl, rfl, rfl⟩

theorem nextIs {k : Kind} :
    Takes id c c.tokens (decide (c.tokens.head?.map Token.kind = some k)) (Parser.nextIs k c) := by
  rw [Parser.nextIs_eq]
  exact pure rfl rfl

theorem accept_true {k : Kind} (hc : c.tokens = t :: rest) (ht : t.kind = k) :
    Takes id c rest true (Parser.accept k c) := by
  rw [Parser.accept_eq_true hc ht]
  exact ⟨true, _, rfl, rfl, rfl, rfl⟩

theorem accept_false {k : Kind} (hc : c.tokens = rest) (h : ∀ t ∈ rest.head?, t.kind ≠ k) :
    Takes id c rest false (Parser.accept k c) := by
  rw [Parser.accept_eq_false (hc ▸ h)]
  exact pure hc rfl

theorem expect {what : Expectation} (hc : c.tokens = t :: rest) (ht : t.kind = what.wanted) :
    Takes id c rest t (Parser.expect what c) := by
  rw [Parser.expect_eq hc ht]
  exact ⟨t, _, rfl, rfl, rfl, rfl⟩

theorem expectName {what : Expectation} (hc : c.tokens = t :: rest) (ht : t.kind = what.wanted) :
    Takes id c rest t.toName (Parser.expectName what c) := by
  unfold Parser.expectName
  exact .step (.expect hc ht) fun c₁ h₁ => .pure h₁ rfl

theorem freshId (hc : c.tokens = rest) (id : Nat) :
    Takes (fun _ => ()) c rest id (Parser.freshId c) :=
  ⟨c.nextId, _, rfl, hc, rfl, rfl⟩

theorem occurrence {name : Name} (hc : c.tokens = rest) (id : Nat) :
    Takes Occurrence.name c rest ⟨id, name⟩ (Parser.occurrence name c) :=
  ⟨⟨c.nextId, name⟩, _, rfl, hc, rfl, rfl⟩

theorem acceptOperator_some {l : Level} {op : Operator} (hc : c.tokens = t :: rest)
    (ht : l.operator? t.kind = some op) :
    Takes id c rest (some (op, t.line)) (Parser.acceptOperator l c) := by
  unfold Parser.acceptOperator
  apply look
  rw [hc]
  simp only [ht]
  exact .step (.skip hc) fun c₁ h₁ => .pure h₁ rfl

theorem acceptOperator_none {l : Level} (hc : c.tokens = rest)
    (h : ∀ t ∈ rest.head?, l.operator? t.kind = none) :
    Takes id c rest none (Parser.acceptOperator l c) := by
  unfold Parser.acceptOperator
  apply look
  cases rest with
  | nil =>
    rw [hc]
    exact pure hc rfl
  | cons t rest =>
    rw [hc]
    simp only [h t rfl]
    exact pure hc rfl

theorem acceptUnary_some {op : UnaryOp} (hc : c.tokens = t :: rest)
    (ht : UnaryOp.ofKind? t.kind = some op) :
    Takes id c rest (some (op, t.line)) (Parser.acceptUnary c) := by
  unfold Parser.acceptUnary
  apply look
  rw [hc]
  simp only [ht]
  exact .step (.skip hc) fun c₁ h₁ => .pure h₁ rfl

theorem acceptUnary_none (hc : c.tokens = t :: rest) (ht : UnaryOp.ofKind? t.kind = none) :
    Takes id c (t :: rest) none (Parser.acceptUnary c) := by
  unfold Parser.acceptUnary
  apply look
  rw [hc]
  simp only [ht]
  exact pure hc rfl

theorem acceptEquals_some (hc : c.tokens = t :: rest) (ht : t.kind = .symbol .equal) :
    Takes id c rest (some t) (Parser.acceptEquals c) := by
  unfold Parser.acceptEquals
  apply look
  rw [hc]
  simp only [ht, ↓reduceIte]
  exact .step (.skip hc) fun c₁ h₁ => .pure h₁ rfl

theorem acceptEquals_none (hc : c.tokens = rest) (h : ∀ t ∈ rest.head?, t.kind ≠ .symbol .equal) :
    Takes id c rest none (Parser.acceptEquals c) := by
  unfold Parser.acceptEquals
  apply look
  cases rest with
  | nil =>
    rw [hc]
    exact pure hc rfl
  | cons t rest =>
    rw [hc]
    simp only [h t rfl, ↓reduceIte]
    exact pure hc rfl

theorem assignVariable {equals : Token} {o : Occurrence} {target value value' : Expr} (id : Nat)
    (hc : c.tokens = rest) (ht : target.unnumbered = (Expr.variable o).unnumbered)
    (hv : value'.unnumbered = value.unnumbered) :
    Takes Expr.unnumbered c rest (.assign ⟨id, o.name⟩ value)
      (Parser.assignment equals target value' c) := by
  cases target with
  | «variable» o' =>
    have ho : o'.name = o.name := by simpa using ht
    refine .bind (.occurrence hc o'.id) fun o₁ c₁ ho₁ h₁ => .pure h₁ ?_
    simp [hv, ho₁, ho]
  | _ => simp at ht

theorem assignProperty {equals : Token} {object target value value' : Expr} {name : Name}
    (hc : c.tokens = rest) (ht : target.unnumbered = (Expr.get object name).unnumbered)
    (hv : value'.unnumbered = value.unnumbered) :
    Takes Expr.unnumbered c rest (.set object name value)
      (Parser.assignment equals target value' c) := by
  cases target with
  | get object' name' =>
    obtain ⟨ho, rfl⟩ : object'.unnumbered = object.unnumbered ∧ name' = name := by simpa using ht
    exact .pure hc (by simp [hv, ho])
  | _ => simp at ht

/-- A parser that takes its phrase needs no recovery. -/
theorem recovering {p : Parser α} (h : Takes view c rest a (p c)) :
    Takes (Option.map view) c rest (some a) (Parser.recovering p c) := by
  obtain ⟨a', c', hp, ht, he, hv⟩ := h
  refine ⟨some a', c', ?_, ht, he, congrArg some hv⟩
  unfold Parser.recovering
  rw [hp]

/-- The names of a parameter list that goes on behind `count` others. -/
theorem parameterList {fuel count : Nat} {ns : List Name} (h : Derives .nameList ts ns)
    (hn : ts.length ≤ fuel) (hm : count + ns.length ≤ maxArity) (hc : c.tokens = ts ++ rest)
    (hf : ∀ t ∈ rest.head?, t.kind ≠ .symbol .comma) :
    Takes id c rest ns (Parser.parameterList fuel count c) := by
  induction fuel generalizing ts count ns c with
  | zero =>
    cases h <;> simp at hn
  | succ fuel ih =>
    unfold Parser.parameterList
    cases h with
    | lastName ht =>
      have hm' : ¬ maxArity ≤ count := Nat.not_le.mpr hm
      simp only [hm', ↓reduceIte]
      refine .step (.expectName hc ht) fun c₁ h₁ => ?_
      exact .step (.accept_false h₁ hf) fun c₂ h₂ => .pure h₂ rfl
    | moreNames ht hk h =>
      have hm' : ¬ maxArity ≤ count := by
        rw [List.length_cons] at hm
        omega
      simp only [hm', ↓reduceIte]
      refine .step (.expectName hc ht) fun c₁ h₁ => ?_
      refine .step (.accept_true h₁ hk) fun c₂ h₂ => ?_
      rw [List.length_cons, List.length_cons] at hn
      rw [List.length_cons] at hm
      exact .step (ih h (by omega) (by omega) h₂) fun c₃ h₃ => .pure h₃ rfl

theorem parameters {fuel : Nat} {ns : List Name} (h : Derives .parameters ts ns)
    (hn : ts.length ≤ fuel) (hc : c.tokens = ts ++ t :: rest) (ht : t.kind = .symbol .rightParen) :
    Takes id c (t :: rest) ns (Parser.parameters fuel c) := by
  unfold Parser.parameters
  cases h with
  | noParameters =>
    refine .step .nextIs fun c₁ h₁ => ?_
    rw [List.nil_append] at hc
    simp only [hc, List.head?_cons, Option.map_some, ht, decide_true, ↓reduceIte]
    exact pure (h₁.trans hc) rfl
  | parameters hm h =>
    refine .step .nextIs fun c₁ h₁ => ?_
    have hne : (c.tokens.head?.map Token.kind = some (.symbol .rightParen)) = False := by
      rw [hc]
      cases h <;> simp [*]
    simp only [hne, decide_false, Bool.false_eq_true, ↓reduceIte]
    refine parameterList h hn (by simpa using hm) (h₁.trans hc) ?_
    rintro _ ⟨⟩
    simp [ht]

end Takes

end LoxLang
