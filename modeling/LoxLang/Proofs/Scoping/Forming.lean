import LoxLang.Proofs.Grammar.StatementSoundness
import LoxLang.Proofs.Scoping.Mentions
import LoxLang.Proofs.Token.Joining
import Mathlib.Data.List.TakeWhile

/-!
Programs that are read from a text are formed: no identifier of the text is a keyword, and the
grammar has no declaration in a branch.
-/

namespace LoxLang

namespace Stretch

/-- An identifier is spelled like no keyword and holds no space. -/
def Unreserved (s : Stretch) : Prop :=
  s.role = .token .identifier →
    Keyword.ofWord? (String.ofList s.consumed) = none ∧ ' ' ∉ s.consumed

theorem unreserved_word {letters : List Char} (hl : ' ' ∉ letters) (rest : List Char) :
    (word letters rest).Unreserved := by
  intro h
  unfold word at h ⊢
  split at h
  · cases h
  · exact ⟨by assumption, hl⟩

theorem no_space_word {c : Char} (hc : isWordStart c) (cs : List Char) :
    ' ' ∉ c :: cs.takeWhile isWordPart := by
  rintro h
  rcases List.mem_cons.mp h with rfl | h
  · exact absurd hc (by decide)
  · exact absurd (List.mem_takeWhile_imp h) (by decide)

theorem unreserved_first (c : Char) (cs : List Char) : (first c cs).Unreserved := by
  have other : ∀ {s : Stretch}, s.role ≠ .token .identifier → s.Unreserved :=
    fun h h' => (h h').elim
  unfold first
  split
  · exact other (by simp)
  split
  · refine other ?_
    unfold string
    split <;> simp
  split
  · refine other ?_
    unfold number
    split
    · split <;> simp
    · simp
  split
  · exact unreserved_word (no_space_word (by assumption) cs) _
  split
  · exact other (by simp [lineComment])
  · refine other ?_
    unfold blockComment
    split <;> simp
  · split
    · refine other ?_
      unfold symbol
      split <;> simp
    · exact other (by simp)

end Stretch

theorem plain_of_mem_scan {source : String} {t : Token} (h : t ∈ (scan source).tokens)
    (hk : t.kind = .identifier) : t.toName.Plain := by
  obtain ⟨i, hi, ht⟩ := List.mem_filterMap.mp h
  cases i with
  | fault => cases ht
  | token t' =>
    obtain rfl : t' = t := by simpa using ht
    rcases mem_scanFrom hi with hi | ⟨c, cs, first, last, hi⟩
    · cases hi
    have unreserved := Stretch.unreserved_first c cs
    generalize Stretch.first c cs = s at hi unreserved
    obtain ⟨consumed, rest, role⟩ := s
    cases role with
    | blank => cases hi
    | fault error => cases error <;> cases hi
    | token kind =>
      cases hi
      obtain ⟨word, hspace⟩ := unreserved (congrArg _ hk)
      refine ⟨fun hn => ?_, fun hn => ?_, ?_⟩
      · rw [show String.ofList consumed = "this" from hn] at word
        exact absurd word (by decide)
      · rw [show String.ofList consumed = "super" from hn] at word
        exact absurd word (by decide)
      · show ' ' ∉ (String.ofList consumed).toList
        rwa [String.toList_ofList]

/-- Whether a tree of a phrase is formed. A part behind another is if that one is. -/
def Phrase.Formed : (p : Phrase) → p.Tree → Prop
  | .level _, e | .operand _, e | .ternary, e | .assignment, e | .unary, e | .call, e
  | .primary, e => Expr.Formed e
  | .tail _ left, e | .suffixes left, e => left.Formed → Expr.Formed e
  | .argumentList, es | .arguments, es => exprsFormed es
  | .nameList, ns | .parameters, ns => ∀ n ∈ ns, Name.Plain n
  | .functionRest, (ns, body) => (∀ n ∈ ns, Name.Plain n) ∧ stmtsFormed body
  | .function, f => Function.Named f ∧ Function.Formed f
  | .getter, f => Function.Named f ∧ Function.Formed f ∧ Function.parameters f = []
  | .members, (methods, getters) => (functionsFormed methods ∧ ∀ f ∈ methods, f.Named) ∧
      (functionsFormed getters ∧ ∀ f ∈ getters, f.Named) ∧ ∀ f ∈ getters, f.parameters = []
  | .block, ss | .declarations, ss => stmtsFormed ss
  | .declaration, s | .variable, s => Stmt.Formed s
  | .statement _, s => Stmt.Formed s ∧ Stmt.declared? s = none
  | .optional, e? => ∀ e ∈ e?, Expr.Formed e
  | .start, s? => ∀ s ∈ s?, Stmt.Formed s

theorem Operator.formed_apply (op : Operator) (line : Nat) {left right : Expr}
    (hl : left.Formed) (hr : right.Formed) : (op.apply line left right).Formed := by
  cases op <;> exact ⟨hl, hr⟩

theorem Stmt.formed_ofFor {start? : Option Stmt} {condition? increment? : Option Expr}
    {body : Stmt} (hs : ∀ s ∈ start?, s.Formed) (hc : ∀ e ∈ condition?, e.Formed)
    (hi : ∀ e ∈ increment?, e.Formed) (hb : body.Formed) (hn : body.declared? = none) :
    (Stmt.ofFor start? condition? increment? body).Formed ∧
      (Stmt.ofFor start? condition? increment? body).declared? = none := by
  have hc : (condition?.getD (.literal (.bool true))).Formed := by
    cases condition? with
    | none => exact trivial
    | some e => exact hc e rfl
  have looped : (Stmt.while (condition?.getD (.literal (.bool true))) body increment?).Formed := by
    cases increment? with
    | none => exact ⟨hc, hb, hn⟩
    | some e => exact ⟨hc, ⟨hb, hn⟩, hi e rfl⟩
  cases start? with
  | none => exact ⟨looped, rfl⟩
  | some s => exact ⟨⟨hs s rfl, looped, trivial⟩, rfl⟩

theorem Derives.formed {p : Phrase} {ts : List Token} {a : p.Tree} (h : Derives p ts a)
    (ht : ∀ t ∈ ts, t.kind = .identifier → t.toName.Plain) : p.Formed a := by
  induction h with
  | level _ _ ih₁ ih₂ | call _ _ ih₁ ih₂ =>
    rw [List.forall_mem_append] at ht
    exact ih₂ ht.2 (ih₁ ht.1)
  | tailEnd | suffixesEnd => exact id
  | tailMore _ _ _ ih₁ ih₂ =>
    rw [List.forall_mem_append, List.forall_mem_cons] at ht
    exact fun hl => ih₂ ht.2 (Operator.formed_apply _ _ hl (ih₁ ht.1.2))
  | commaOperand _ ih | orOperand _ ih | andOperand _ ih | equalityOperand _ ih
  | comparisonOperand _ ih | termOperand _ ih | factorOperand _ ih | assignment _ ih
  | disjunction _ ih | unaryCall _ ih | arguments _ _ ih | parameters _ _ ih => exact ih ht
  | ternary _ _ _ _ _ ih₁ ih₂ ih₃ =>
    simp only [List.forall_mem_append, List.forall_mem_cons] at ht
    exact ⟨ih₁ ht.1.1, ih₂ ht.1.2.2, ih₃ ht.2.2⟩
  | assignVariable id hk _ _ ih =>
    simp only [List.forall_mem_cons] at ht
    exact ⟨ht.1 hk, ih ht.2.2⟩
  | assignProperty _ hk _ _ _ ih₁ ih₂ =>
    simp only [List.forall_mem_append, List.forall_mem_cons] at ht
    exact ⟨ih₁ ht.1, ih₂ ht.2.2.2.2, ht.2.2.1 hk⟩
  | unary _ _ ih =>
    rw [List.forall_mem_cons] at ht
    exact ih ht.2
  | suffixesCall _ _ _ _ ih₁ ih₂ =>
    simp only [List.forall_mem_append, List.forall_mem_cons] at ht
    exact fun ho => ih₂ ht.2.2 ⟨ho, ih₁ ht.1.2⟩
  | suffixesGet _ hk _ ih =>
    simp only [List.forall_mem_cons] at ht
    exact fun ho => ih ht.2.2 ⟨ho, ht.2.1 hk⟩
  | lastArgument _ ih => exact ⟨ih ht, trivial⟩
  | moreArguments _ _ _ ih₁ ih₂ =>
    simp only [List.forall_mem_append, List.forall_mem_cons] at ht
    exact ⟨ih₁ ht.1, ih₂ ht.2.2⟩
  | group _ _ _ ih =>
    simp only [List.forall_mem_append, List.forall_mem_cons] at ht
    exact ih ht.1.2
  | lambda _ _ _ ih =>
    simp only [List.forall_mem_cons] at ht
    exact ih ht.2.2
  | «super» _ _ _ hk =>
    simp only [List.forall_mem_cons] at ht
    exact ht.2.2.1 hk
  | lastName hk =>
    simp only [List.forall_mem_singleton] at ht
    exact List.forall_mem_singleton.mpr (ht hk)
  | moreNames hk _ _ ih =>
    simp only [List.forall_mem_cons] at ht
    exact List.forall_mem_cons.mpr ⟨ht.1 hk, ih ht.2.2⟩
  | functionRest _ _ _ ih₁ ih₂ =>
    simp only [List.forall_mem_append, List.forall_mem_cons] at ht
    exact ⟨ih₁ ht.1, ih₂ ht.2.2⟩
  | function hk _ _ ih =>
    simp only [List.forall_mem_cons] at ht
    exact ⟨⟨_, rfl, ht.1 hk⟩, ih ht.2.2⟩
  | getter hk _ ih =>
    simp only [List.forall_mem_cons] at ht
    exact ⟨⟨_, rfl, ht.1 hk⟩, ⟨by simp, ih ht.2⟩, rfl⟩
  | noMembers => exact ⟨⟨trivial, by simp⟩, ⟨trivial, by simp⟩, by simp⟩
  | method _ _ ih₁ ih₂ =>
    rw [List.forall_mem_append] at ht
    have ⟨hname, hf⟩ := ih₁ ht.1
    have ⟨⟨hms, hnames⟩, hgs⟩ := ih₂ ht.2
    exact ⟨⟨⟨hf, hms⟩, List.forall_mem_cons.mpr ⟨hname, hnames⟩⟩, hgs⟩
  | getterMember _ _ ih₁ ih₂ =>
    rw [List.forall_mem_append] at ht
    have ⟨hname, hf, hp⟩ := ih₁ ht.1
    have ⟨hms, ⟨hgs, hnames⟩, hps⟩ := ih₂ ht.2
    exact ⟨hms, ⟨⟨hf, hgs⟩, List.forall_mem_cons.mpr ⟨hname, hnames⟩⟩,
      List.forall_mem_cons.mpr ⟨hp, hps⟩⟩
  | noParameters => simp [Phrase.Formed]
  | blockStatement _ ih => exact ⟨ih ht, rfl⟩
  | block _ _ _ ih =>
    simp only [List.forall_mem_append, List.forall_mem_cons] at ht
    exact ih ht.1.2
  | moreDeclarations _ _ ih₁ ih₂ =>
    rw [List.forall_mem_append] at ht
    exact ⟨ih₁ ht.1, ih₂ ht.2⟩
  | base _ hk _ _ _ ih =>
    simp only [List.forall_mem_append, List.forall_mem_cons] at ht
    exact ⟨ht.1.2.1 hk, ih ht.1.2.2.2⟩
  | subclass _ _ hk _ _ _ _ _ ih =>
    simp only [List.forall_mem_append, List.forall_mem_cons] at ht
    exact ⟨ht.1.2.1 hk, ih ht.1.2.2.2.2.2⟩
  | functionDeclaration _ _ ih | variableDeclaration _ _ ih =>
    rw [List.forall_mem_cons] at ht
    exact ih ht.2
  | statement _ ih => exact (ih ht).1
  | uninitialized hk _ =>
    simp only [List.forall_mem_cons] at ht
    exact ht.1 hk
  | initialized hk _ _ _ ih =>
    simp only [List.forall_mem_append, List.forall_mem_cons] at ht
    exact ⟨ht.1.1 hk, ih ht.1.2.2⟩
  | absent => simp [Phrase.Formed]
  | present _ ih => simpa [Phrase.Formed] using ih ht
  | expressionStatement _ _ ih =>
    rw [List.forall_mem_append] at ht
    exact ⟨ih ht.1, rfl⟩
  | print _ _ _ ih =>
    simp only [List.forall_mem_append, List.forall_mem_cons] at ht
    exact ⟨ih ht.1.2, rfl⟩
  | @«return» _ _ e? _ _ _ _ ih =>
    simp only [List.forall_mem_append, List.forall_mem_cons] at ht
    cases e? with
    | none => exact ⟨trivial, rfl⟩
    | some e => exact ⟨ih ht.1.2 e rfl, rfl⟩
  | «break» | «continue» => exact ⟨trivial, rfl⟩
  | ifThen _ _ _ _ _ ih₁ ih₂ =>
    simp only [List.forall_mem_append, List.forall_mem_cons] at ht
    exact ⟨⟨ih₁ ht.1.2.2, ih₂ ht.2.2⟩, rfl⟩
  | ifElse _ _ _ _ _ _ _ ih₁ ih₂ ih₃ =>
    simp only [List.forall_mem_append, List.forall_mem_cons] at ht
    exact ⟨⟨ih₁ ht.1.1.2.2, ih₂ ht.1.2.2, ih₃ ht.2.2⟩, rfl⟩
  | «while» _ _ _ _ _ ih₁ ih₂ =>
    simp only [List.forall_mem_append, List.forall_mem_cons] at ht
    exact ⟨⟨ih₁ ht.1.2.2, ih₂ ht.2.2⟩, rfl⟩
  | «for» _ _ _ _ _ _ _ _ ih₁ ih₂ ih₃ ih₄ =>
    simp only [List.forall_mem_append, List.forall_mem_cons] at ht
    have ⟨hs, hn⟩ := ih₄ ht.2.2
    exact Stmt.formed_ofFor (ih₁ ht.1.1.1.2.2) (ih₂ ht.1.1.2) (ih₃ ht.1.2.2) hs hn
  | noStart => simp [Phrase.Formed]
  | variableStart _ _ ih =>
    rw [List.forall_mem_cons] at ht
    simpa [Phrase.Formed] using ih ht.2
  | expressionStart _ _ ih =>
    rw [List.forall_mem_append] at ht
    simpa [Phrase.Formed, Stmt.Formed] using ih ht.1
  | _ => exact trivial

namespace Program

variable {firstId endLine : Nat} {source : String} {p : Program}

theorem ofSource_ok (h : ofSource firstId source = .ok p) :
    ofTokens firstId (scan source).tokens (scan source).endLine = .ok p := by
  unfold ofSource at h
  dsimp only at h
  split at h
  · split at h
    · cases h
      assumption
    · cases h
  · cases h

theorem exists_of_map_eq_ok {ε α β : Type} {x : Except ε α} {f : α → β} {b : β}
    (h : x.map f = .ok b) : ∃ a, x = .ok a ∧ f a = b := by
  cases x with
  | error => cases h
  | ok a => exact ⟨a, rfl, Except.ok.inj h⟩

theorem formed_of_ofSource (h : ofSource firstId source = .ok p) : stmtsFormed p.statements :=
  (ofTokens_ok (ofSource_ok h)).1.formed fun _ ht hk => plain_of_mem_scan ht hk

theorem numbered_of_ofSource (h : ofSource firstId source = .ok p) :
    Numbered firstId (stmtsIds p.statements) p.nextId :=
  (ofTokens_ok (ofSource_ok h)).2

end Program

end LoxLang
