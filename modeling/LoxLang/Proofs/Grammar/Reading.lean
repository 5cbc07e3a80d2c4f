import LoxLang.Grammar.Parse
import LoxLang.Proofs.Fuel
import LoxLang.Proofs.Grammar.Phrase
import LoxLang.Proofs.Tree.Numbering

/-!
What a parser may do to its cursor, and the rules for its steps. A parser that reads takes tokens
off the front, only adds errors, and does not run out of fuel.
-/

namespace LoxLang

/-- `Reads least Q c r`: the result `r` of reading from `c`. A result `a` has taken at least
`least a` tokens, and `Q` holds of these tokens, the cursor before, `a`, and the cursor after,
unless an error was recorded. -/
def Reads {α : Type} (least : α → Nat) (Q : List Token → Cursor → α → Cursor → Prop) (c : Cursor) :
    EStateM.Result Stop Cursor α → Prop
  | .ok a c' => c.errors <:+ c'.errors ∧ ∃ ts, c.tokens = ts ++ c'.tokens ∧ least a ≤ ts.length ∧
      (c'.errors = c.errors → Q ts c a c')
  | .error (.failed _) c' => c.errors <:+ c'.errors ∧ c'.tokens <:+ c.tokens
  | .error .outOfFuel _ => False

namespace Cursor

theorem boundaryAfter_suffix (last : Token) (ts : List Token) : boundaryAfter last ts <:+ ts := by
  induction ts generalizing last with
  | nil => exact List.suffix_rfl
  | cons t ts ih =>
    unfold boundaryAfter
    split
    · exact List.suffix_rfl
    · exact (ih t).trans (List.suffix_cons _ _)

/-- Recovery takes at least the token that the error is at. -/
theorem skipToBoundary_suffix (ts : List Token) :
    ∃ us, us ++ skipToBoundary ts = ts ∧ (ts ≠ [] → 1 ≤ us.length) := by
  cases ts with
  | nil => exact ⟨[], rfl, fun h => absurd rfl h⟩
  | cons t ts =>
    obtain ⟨us, hu⟩ := boundaryAfter_suffix t ts
    exact ⟨t :: us, by rw [List.cons_append, skipToBoundary, hu], fun _ => by simp⟩

end Cursor

namespace Parser

variable {c : Cursor} {t : Token} {ts : List Token}

theorem skip_eq (hc : c.tokens = t :: ts) : skip c = .ok () { c with tokens := ts } := by
  show EStateM.Result.ok () { c with tokens := c.tokens.tail } = _
  rw [hc, List.tail_cons]

theorem nextIs_eq (k : Kind) :
    nextIs k c = .ok (decide (c.tokens.head?.map Token.kind = some k)) c := by
  rw [nextIs, Fueled.bind_get]
  cases c.tokens with
  | nil => rfl
  | cons t ts =>
    rw [List.head?_cons, Option.map_some]
    show EStateM.Result.ok (decide (t.kind = k)) c = _
    simp only [Option.some.injEq]

theorem accept_eq_true {k : Kind} (hc : c.tokens = t :: ts) (ht : t.kind = k) :
    accept k c = .ok true { c with tokens := ts } := by
  rw [accept, Fueled.bind_ok (nextIs_eq k), hc]
  simp only [List.head?_cons, Option.map_some, ht, decide_true, ↓reduceIte]
  rw [Fueled.bind_ok (skip_eq hc)]
  rfl

theorem accept_eq_false {k : Kind} (hc : ∀ t ∈ c.tokens.head?, t.kind ≠ k) :
    accept k c = .ok false c := by
  rw [accept, Fueled.bind_ok (nextIs_eq k)]
  cases h : c.tokens with
  | nil => rfl
  | cons t ts =>
    have ht : t.kind ≠ k := hc t (by rw [h]; rfl)
    simp only [List.head?_cons, Option.map_some, Option.some.injEq, ht, decide_false,
      Bool.false_eq_true, ↓reduceIte]
    rfl

theorem expect_eq {what : Expectation} (hc : c.tokens = t :: ts) (ht : t.kind = what.wanted) :
    expect what c = .ok t { c with tokens := ts } := by
  rw [expect, Fueled.bind_get, hc]
  simp only [ht, ↓reduceIte]
  rfl

theorem expect_eq_error {what : Expectation} (h : ∀ t ∈ c.tokens.head?, t.kind ≠ what.wanted) :
    expect what c = .error (.failed (c.diagnostic (.expected what))) c := by
  rw [expect, Fueled.bind_get]
  cases hc : c.tokens with
  | nil => rfl
  | cons t ts =>
    have ht : t.kind ≠ what.wanted := h t (by rw [hc]; rfl)
    simp only [ht, ↓reduceIte]
    rfl

/-- A token that is taken is the next one. -/
theorem expect_look (what : Expectation) : expect what = (do
      match (← get).tokens with
      | t :: _ =>
        if t.kind = what.wanted then
          skip
          return t
        failHere (.expected what)
      | [] => failHere (.expected what)) := by
  funext c
  unfold expect
  rw [Fueled.bind_get, Fueled.bind_get]
  cases hc : c.tokens with
  | nil => rfl
  | cons t ts =>
    dsimp only
    split
    · rw [Fueled.bind_ok (skip_eq hc)]
      rfl
    · rfl

theorem forLoop_eq (start? : Option Stmt) (condition? increment? : Option Expr) (body : Stmt) :
    forLoop start? (condition?.getD (.literal (.bool true))) increment? body =
      .ofFor start? condition? increment? body := by
  cases start? <;> rfl

end Parser

namespace Reads

variable {α β : Type} {least least' : α → Nat} {last : β → Nat}
  {Q Q' : List Token → Cursor → α → Cursor → Prop}
  {R : List Token → Cursor → β → Cursor → Prop} {c : Cursor}

theorem weaken {r : EStateM.Result Stop Cursor α} (h : Reads least Q c r)
    (hl : ∀ a, least' a ≤ least a) (hq : ∀ ts a c', Q ts c a c' → Q' ts c a c') :
    Reads least' Q' c r := by
  match r with
  | .ok a c' =>
    obtain ⟨he, ts, ht, hn, h⟩ := h
    exact ⟨he, ts, ht, Nat.le_trans (hl a) hn, fun hs => hq ts a c' (h hs)⟩
  | .error (.failed _) c' => exact h
  | .error .outOfFuel c' => exact h

/-- What is read in sequence is appended, and the numbers go on. -/
theorem bind {x : Parser α} {f : α → Parser β} (hx : Reads least Q c (x c))
    (hf : ∀ a c₁, c₁.tokens.length + least a ≤ c.tokens.length →
      Reads (fun b => last b - least a)
        (fun ts c₁ b c₂ => ∀ ts₁, Q ts₁ c a c₁ → R (ts₁ ++ ts) c b c₂) c₁ (f a c₁)) :
    Reads last R c ((x >>= f) c) := by
  change Reads last R c (EStateM.bind x f c)
  unfold EStateM.bind
  match hr : x c with
  | .ok a c₁ =>
    rw [hr] at hx
    obtain ⟨he, ts₁, ht, hn, hq⟩ := hx
    have hf := hf a c₁ (by rw [ht, List.length_append]; omega)
    show Reads last R c (f a c₁)
    match hs : f a c₁ with
    | .ok b c₂ =>
      rw [hs] at hf
      obtain ⟨he', ts₂, ht', hn', hr⟩ := hf
      dsimp only at hn'
      refine ⟨he.trans he', ts₁ ++ ts₂, by rw [ht, ht', List.append_assoc],
        by rw [List.length_append]; omega, fun h => ?_⟩
      have h₁ : c₁.errors = c.errors :=
        (he.eq_of_length_le (by rw [← h]; exact he'.length_le)).symm
      exact hr (h.trans h₁.symm) ts₁ (hq h₁)
    | .error (.failed _) c₂ =>
      rw [hs] at hf
      exact ⟨he.trans hf.1, hf.2.trans ⟨ts₁, ht.symm⟩⟩
    | .error .outOfFuel c₂ =>
      rw [hs] at hf
      exact hf
  | .error (.failed d) c₁ =>
    rw [hr] at hx
    exact hx
  | .error .outOfFuel c₁ =>
    rw [hr] at hx
    exact hx

theorem pure {a : α} (hl : least a = 0) (hq : Q [] c a c) :
    Reads least Q c ((Pure.pure a : Parser α) c) :=
  ⟨List.suffix_rfl, [], rfl, by rw [hl]; exact Nat.zero_le _, fun _ => hq⟩

/-- Looking at the cursor reads nothing. -/
theorem look {f : Cursor → Parser α} (h : Reads least Q c (f c c)) :
    Reads least Q c ((get >>= f) c) := h

theorem skip {t : Token} {ts : List Token} (hc : c.tokens = t :: ts) :
    Reads (fun _ => 1) (fun us c _ c' => us = [t] ∧ c'.nextId = c.nextId) c (Parser.skip c) := by
  rw [Parser.skip_eq hc]
  exact ⟨List.suffix_rfl, [t], hc, Nat.le_refl _, fun _ => ⟨rfl, rfl⟩⟩

theorem failHere {error : GrammarError} : Reads least Q c ((Parser.failHere error : Parser α) c) :=
  ⟨List.suffix_rfl, List.suffix_rfl⟩

/-- Where an error is recorded, nothing has to hold of what is read. -/
theorem report {d : Diagnostic} {rest : Parser α}
    (h : Reads least (fun _ _ _ _ => True) { c with errors := d :: c.errors }
      (rest { c with errors := d :: c.errors })) :
    Reads least Q c ((Parser.report d >>= fun _ => rest) c) := by
  change Reads least Q c (rest { c with errors := d :: c.errors })
  match hr : rest { c with errors := d :: c.errors } with
  | .ok a c' =>
    rw [hr] at h
    obtain ⟨he, ts, ht, hn, -⟩ := h
    refine ⟨(List.suffix_cons _ _).trans he, ts, ht, hn, fun hs => ?_⟩
    have := he.length_le
    rw [hs] at this
    exact absurd this (by simp)
  | .error (.failed _) c' =>
    rw [hr] at h
    exact ⟨(List.suffix_cons _ _).trans h.1, h.2⟩
  | .error .outOfFuel c' =>
    rw [hr] at h
    exact h

theorem reportHere {error : GrammarError} {rest : Unit → Parser α}
    (h : Reads least (fun _ _ _ _ => True) { c with errors := c.diagnostic error :: c.errors }
      (rest () { c with errors := c.diagnostic error :: c.errors })) :
    Reads least Q c ((Parser.reportHere error >>= rest) c) :=
  report h

theorem nextIs {k : Kind} :
    Reads (fun _ => 0)
      (fun ts c b c' => ts = [] ∧ c' = c ∧ b = decide (c.tokens.head?.map Token.kind = some k)) c
      (Parser.nextIs k c) := by
  rw [Parser.nextIs_eq]
  exact pure rfl ⟨rfl, rfl, rfl⟩

theorem accept {k : Kind} :
    Reads (fun b => if b then 1 else 0)
      (fun ts c b c' => c'.nextId = c.nextId ∧
        if b then ∃ t, ts = [t] ∧ t.kind = k ∧ c.tokens.head? = some t
        else ts = [] ∧ ∀ t ∈ c'.tokens.head?, t.kind ≠ k) c
      (Parser.accept k c) := by
  by_cases h : ∃ t ts, c.tokens = t :: ts ∧ t.kind = k
  · obtain ⟨t, ts, hc, ht⟩ := h
    rw [Parser.accept_eq_true hc ht]
    exact ⟨List.suffix_rfl, [t], hc, Nat.le_refl _, fun _ => ⟨rfl, t, rfl, ht, by rw [hc]; rfl⟩⟩
  · have hne : ∀ t ∈ c.tokens.head?, t.kind ≠ k := fun t ht hk =>
      have ⟨ts, hc⟩ := List.head?_eq_some_iff.mp ht
      h ⟨t, ts, hc, hk⟩
    rw [Parser.accept_eq_false hne]
    exact pure rfl ⟨rfl, rfl, hne⟩

theorem expect {what : Expectation} :
    Reads (fun _ => 1) (fun ts c t c' => c'.nextId = c.nextId ∧ ts = [t] ∧ t.kind = what.wanted) c
      (Parser.expect what c) := by
  unfold Parser.expect
  apply look
  cases hc : c.tokens with
  | nil => exact failHere
  | cons t ts =>
    by_cases ht : t.kind = what.wanted
    · simp only [ht, ↓reduceIte]
      exact ⟨List.suffix_rfl, [t], hc, Nat.le_refl _, fun _ => ⟨rfl, rfl, ht⟩⟩
    · simp only [ht, ↓reduceIte]
      exact failHere

theorem expectName {what : Expectation} (hw : what.wanted = .identifier) :
    Reads (fun _ => 1)
      (fun ts c n c' => c'.nextId = c.nextId ∧
        ∃ t, ts = [t] ∧ t.kind = .identifier ∧ n = t.toName) c
      (Parser.expectName what c) := by
  unfold Parser.expectName
  refine bind expect fun t c₁ _ => ?_
  refine pure rfl fun ts₁ ⟨hj, ht, hk⟩ => ⟨hj, t, ?_, hk.trans hw, rfl⟩
  rw [ht, List.append_nil]

theorem freshId :
    Reads (fun _ => 0) (fun ts c id c' => ts = [] ∧ id = c.nextId ∧ c'.nextId = c.nextId + 1) c
      (Parser.freshId c) :=
  ⟨List.suffix_rfl, [], rfl, Nat.zero_le _, fun _ => ⟨rfl, rfl, rfl⟩⟩

theorem occurrence {name : Name} :
    Reads (fun _ => 0)
      (fun ts c o c' => ts = [] ∧ o = ⟨c.nextId, name⟩ ∧ c'.nextId = c.nextId + 1) c
      (Parser.occurrence name c) :=
  ⟨List.suffix_rfl, [], rfl, Nat.zero_le _, fun _ => ⟨rfl, rfl, rfl⟩⟩

/-- Looking at the next token reads nothing. -/
theorem peek {f : Option Kind → Parser α}
    (h : Reads least Q c (f (c.tokens.head?.map Token.kind) c)) :
    Reads least Q c ((Parser.peek? >>= f) c) := h

theorem acceptOperator {l : Level} :
    Reads (fun r => if r.isSome then 1 else 0)
      (fun ts c r c' => c'.nextId = c.nextId ∧ match r with
        | none => ts = []
        | some (op, line) => ∃ t, ts = [t] ∧ l.operator? t.kind = some op ∧ line = t.line) c
      (Parser.acceptOperator l c) := by
  unfold Parser.acceptOperator
  apply look
  cases hc : c.tokens with
  | nil => exact pure rfl ⟨rfl, rfl⟩
  | cons t ts =>
    cases ht : l.operator? t.kind with
    | none =>
      simp only [ht]
      exact pure rfl ⟨rfl, rfl⟩
    | some op =>
      simp only [ht]
      refine (skip hc).bind fun _ c₁ _ => pure rfl ?_
      rintro _ ⟨rfl, hj⟩
      exact ⟨hj, t, rfl, ht, rfl⟩

theorem acceptUnary :
    Reads (fun r => if r.isSome then 1 else 0)
      (fun ts c r c' => c'.nextId = c.nextId ∧ match r with
        | none => ts = []
        | some (op, line) => ∃ t, ts = [t] ∧ UnaryOp.ofKind? t.kind = some op ∧ line = t.line) c
      (Parser.acceptUnary c) := by
  unfold Parser.acceptUnary
  apply look
  cases hc : c.tokens with
  | nil => exact pure rfl ⟨rfl, rfl⟩
  | cons t ts =>
    cases ht : UnaryOp.ofKind? t.kind with
    | none =>
      simp only [ht]
      exact pure rfl ⟨rfl, rfl⟩
    | some op =>
      simp only [ht]
      refine (skip hc).bind fun _ c₁ _ => pure rfl ?_
      rintro _ ⟨rfl, hj⟩
      exact ⟨hj, t, rfl, ht, rfl⟩

theorem acceptEquals :
    Reads (fun r => if r.isSome then 1 else 0)
      (fun ts c r c' => c'.nextId = c.nextId ∧ match r with
        | none => ts = []
        | some t => ts = [t] ∧ t.kind = .symbol .equal) c
      (Parser.acceptEquals c) := by
  unfold Parser.acceptEquals
  apply look
  cases hc : c.tokens with
  | nil => exact pure rfl ⟨rfl, rfl⟩
  | cons t ts =>
    by_cases ht : t.kind = .symbol .equal
    · simp only [ht, ↓reduceIte]
      refine (skip hc).bind fun _ c₁ _ => pure rfl ?_
      rintro _ ⟨rfl, hj⟩
      exact ⟨hj, rfl, ht⟩
    · simp only [ht, ↓reduceIte]
      exact pure rfl ⟨rfl, rfl⟩

/-- Only a variable and a property can be assigned to without an error. -/
theorem assignment {equals : Token} {target value : Expr} :
    Reads (fun _ => 0)
      (fun ts c e c' => ts = [] ∧
        ((∃ o, target = .variable o ∧ e = .assign ⟨c.nextId, o.name⟩ value ∧
            c'.nextId = c.nextId + 1) ∨
          ∃ object name, target = .get object name ∧ e = .set object name value ∧
            c'.nextId = c.nextId)) c
      (Parser.assignment equals target value c) := by
  unfold Parser.assignment
  split
  · rename_i o
    refine occurrence.bind fun _ c₁ _ => pure rfl ?_
    rintro _ ⟨rfl, rfl, hj⟩
    exact ⟨rfl, .inl ⟨o, rfl, rfl, hj⟩⟩
  · rename_i object name
    exact pure rfl ⟨rfl, .inr ⟨object, name, rfl, rfl, rfl⟩⟩
  · exact report (pure rfl trivial)

/-- Where a parser fails, what is skipped counts as read. -/
theorem recovering {p : Parser α} (hc : c.tokens ≠ []) (h : Reads (fun _ => 1) Q c (p c)) :
    Reads (fun _ => 1) (fun ts c r c' => ∃ a, r = some a ∧ Q ts c a c') c
      (Parser.recovering p c) := by
  unfold Parser.recovering
  match hr : p c with
  | .ok a c' =>
    rw [hr] at h
    obtain ⟨he, ts, ht, hn, h⟩ := h
    exact ⟨he, ts, ht, hn, fun hs => ⟨a, rfl, h hs⟩⟩
  | .error (.failed d) c' =>
    rw [hr] at h
    obtain ⟨he, us, hu⟩ := h
    have hb := Cursor.skipToBoundary_suffix c'.tokens
    refine ⟨he.trans (List.suffix_cons _ _), ?_⟩
    obtain ⟨vs, hv, hl⟩ := hb
    refine ⟨us ++ vs, ?_, ?_, fun hs => ?_⟩
    · rw [List.append_assoc, hv, hu]
    · cases hus : us with
      | cons => simp
      | nil =>
        rw [hus, List.nil_append] at hu
        exact Nat.le_trans (hl (hu ▸ hc)) (by simp)
    · have := he.length_le
      rw [← hs] at this
      exact absurd this (by simp)
  | .error .outOfFuel c' =>
    rw [hr] at h
    exact h

end Reads

end LoxLang
