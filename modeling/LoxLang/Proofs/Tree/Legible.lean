import LoxLang.Proofs.Decimal.Decoding
import LoxLang.Proofs.Likeness.Code
import LoxLang.Proofs.Token.Lexemes
import LoxLang.Proofs.Tree.Leaves
import LoxLang.Proofs.Tree.Shape

/-!
Trees that are told from their brackets. Where names are identifiers, and literals are neither
strings nor infinite, a tree with the same words and brackets differs in lines and in the numbers of
its occurrences only.
-/

namespace LoxLang

open Bracketing (word)

/-- Code that differs in lines and in the numbers of its occurrences. -/
def Likeness.shape : Likeness :=
  .ofCode (fun _ _ => True) fun _ _ => True

theorem Name.like_shape {n n' : Name} (h : n.text = n'.text) : n.Like .shape n' :=
  ⟨h.symm, trivial⟩

theorem Occurrence.like_shape {o o' : Occurrence} (h : o.name.text = o'.name.text) :
    o.Like .shape o' :=
  ⟨trivial, Name.like_shape h⟩

/-- Whether a name or literal can be told from its text. -/
def Leaf.Legible : Leaf → Prop
  | .name text => Lexeme text.toList .identifier
  | .literal (.number x) => ∃ negative v, Decimal.Reading.ofFloat x = .finite negative v
  | .literal (.string _) => False
  | .literal (.bool _) | .literal .nil => True

theorem Literal.numberLayout_positional : numberLayout.Positional where
  positional _ := rfl
  exactTail := .inr ⟨1, rfl⟩
  roundedTail := .inl rfl
  signedZero := rfl

/-- The text of a number begins like no word of a program. -/
theorem Literal.number_text {x : Float} (h : (Leaf.literal (.number x)).Legible) :
    ∃ c cs, (number x).bracketed.toList = c :: cs ∧ ¬ isWordStart c ∧
      ∀ d ∈ c :: cs, d.isDigit ∨ d = '.' ∨ d = '-' := by
  obtain ⟨negative, v, hx⟩ := h
  obtain ⟨c, cs, htext, hc, hcs⟩ := numberLayout_positional.readingText_finite negative v
  refine ⟨c, cs, ?_, ?_, ?_⟩
  · simp only [bracketed, Decimal.Layout.text, String.toList_ofList, hx, htext]
  · rcases hc with hc | rfl
    · intro hw
      rw [isDigit_of_isWordStart hw] at hc
      cases hc
    · decide
  · intro d hd
    rcases List.mem_cons.mp hd with rfl | hd
    · exact hc.imp id .inr
    · exact (hcs d hd).imp id .inl

/-- The literal that a keyword is. -/
def Literal.ofKeyword? : Keyword → Option Literal
  | .true => some (.bool true)
  | .false => some (.bool false)
  | .nil => some .nil
  | _ => none

/-- A literal is a number or spelled like a keyword. -/
theorem Literal.cases_legible {v : Literal} (h : (Leaf.literal v).Legible) :
    (∃ x, v = .number x) ∨ ∃ k, ofKeyword? k = some v ∧ v.bracketed = k.text := by
  cases v with
  | number x => exact .inl ⟨x, rfl⟩
  | string => cases h
  | bool b =>
    cases b
    · exact .inr ⟨.false, rfl, rfl⟩
    · exact .inr ⟨.true, rfl, rfl⟩
  | nil => exact .inr ⟨.nil, rfl, rfl⟩

theorem isWord_keyword (k : Keyword) : IsWord k.text := by
  cases k <;> constructor <;> simp [Keyword.text]

theorem Literal.isWord {v : Literal} (h : (Leaf.literal v).Legible) : IsWord v.bracketed := by
  rcases cases_legible h with ⟨x, rfl⟩ | ⟨k, -, hk⟩
  · obtain ⟨c, cs, htext, -, hchars⟩ := number_text h
    constructor
    · rw [htext]
      exact List.cons_ne_nil c cs
    · intro d hd
      rw [htext] at hd
      refine ⟨?_, ?_, ?_⟩ <;> rintro rfl <;> simpa using hchars _ hd
  · rw [hk]
    exact isWord_keyword k

theorem isWord_of_identifier {text : String} (h : (Leaf.name text).Legible) : IsWord text := by
  have hpart : ∀ d, isWordPart d → d ≠ ' ' ∧ d ≠ '(' ∧ d ≠ ')' := by
    intro d hd
    refine ⟨?_, ?_, ?_⟩ <;> rintro rfl <;> cases hd
  have hlexeme : Lexeme text.toList .identifier := h
  generalize hcs : text.toList = cs at hlexeme
  cases hlexeme with
  | @identifier c cs hc hcs' =>
    constructor
    · rw [hcs]
      exact List.cons_ne_nil c cs
    · rw [hcs, List.forall_mem_cons]
      exact ⟨hpart c (isWordPart_of_isWordStart hc), fun d hd => hpart d (hcs' d hd)⟩

theorem Keyword.text_inj {k k' : Keyword} (h : k.text = k'.text) : k = k' := by
  have hword := k.ofWord?_text
  rw [h, k'.ofWord?_text] at hword
  exact (Option.some.inj hword).symm

/-- An identifier is no keyword. -/
theorem name_ne_keyword {text : String} (h : (Leaf.name text).Legible) (k : Keyword) :
    text ≠ k.text := by
  have hlexeme : Lexeme text.toList .identifier := h
  generalize hcs : text.toList = cs at hlexeme
  rintro rfl
  cases hlexeme with
  | identifier _ _ hk => exact hk k hcs

/-- A name or keyword is no number. -/
theorem Literal.number_ne {x : Float} (h : (Leaf.literal (.number x)).Legible) {text : String}
    {c : Char} {cs : List Char} (htext : text.toList = c :: cs) (hc : isWordStart c) :
    (number x).bracketed ≠ text := by
  obtain ⟨d, ds, htext', hd, -⟩ := number_text h
  rintro rfl
  rw [htext] at htext'
  obtain ⟨rfl, -⟩ := List.cons.inj htext'
  exact hd hc

theorem Literal.number_ne_keyword {x : Float} (h : (Leaf.literal (.number x)).Legible)
    (k : Keyword) : (number x).bracketed ≠ k.text := by
  obtain ⟨c, cs, htext, hc, -⟩ := k.text_word
  exact number_ne h htext hc

theorem Literal.ne_name {v : Literal} {text : String} (hv : (Leaf.literal v).Legible)
    (hn : (Leaf.name text).Legible) : v.bracketed ≠ text := by
  rcases cases_legible hv with ⟨x, rfl⟩ | ⟨k, -, hk⟩
  · have hlexeme : Lexeme text.toList .identifier := hn
    generalize hcs : text.toList = cs at hlexeme
    cases hlexeme with
    | identifier hc => exact number_ne hv hcs hc
  · rw [hk]
    exact (name_ne_keyword hn k).symm

theorem Literal.ne_this {v : Literal} (h : (Leaf.literal v).Legible) : v.bracketed ≠ "this" := by
  rcases cases_legible h with ⟨x, rfl⟩ | ⟨k, hv, hk⟩
  · exact number_ne_keyword h .this
  · rw [hk]
    intro hthis
    obtain rfl : k = .this := Keyword.text_inj hthis
    cases hv

/-- A literal can be told from its text. -/
theorem Literal.bracketed_inj {v v' : Literal} (hv : (Leaf.literal v).Legible)
    (hv' : (Leaf.literal v').Legible) (h : v.bracketed = v'.bracketed) : v = v' := by
  rcases cases_legible hv with ⟨x, rfl⟩ | ⟨k, hk, ht⟩
  · rcases cases_legible hv' with ⟨y, rfl⟩ | ⟨k', -, ht'⟩
    · obtain ⟨_, _, hx⟩ := hv
      obtain ⟨_, _, hy⟩ := hv'
      rw [numberLayout_positional.spells.text_inj hx hy h]
    · exact (number_ne_keyword hv k' (h.trans ht')).elim
  · rcases cases_legible hv' with ⟨y, rfl⟩ | ⟨k', hk', ht'⟩
    · exact (number_ne_keyword hv' k (h.symm.trans ht)).elim
    · obtain rfl := Keyword.text_inj (ht.symm.trans (h.trans ht'))
      exact Option.some.inj (hk.symm.trans hk')

/-- The words that lists begin with, operators apart. -/
def heads : List String :=
  ["group", "?:", ",", "=", "call", ".", "super", "lambda", ";", "print", "var", "block", "if",
    "while", "fun", "class", "return", "break", "continue", "<", "method", "get"]

theorem isWord_head : ∀ w ∈ heads, IsWord w := by
  simp only [heads, List.forall_mem_cons]
  refine ⟨?_, ?_, ?_, ?_, ?_, ?_, ?_, ?_, ?_, ?_, ?_, ?_, ?_, ?_, ?_, ?_, ?_, ?_, ?_, ?_, ?_, ?_,
    by simp⟩ <;> constructor <;> simp

theorem UnaryOp.isWord_text (op : UnaryOp) : IsWord op.text := by
  cases op <;> constructor <;> simp [text]

theorem BinaryOp.isWord_text (op : BinaryOp) : IsWord op.text := by
  cases op <;> constructor <;> simp [text]

theorem LogicalOp.isWord_text (op : LogicalOp) : IsWord op.text := by
  cases op <;> constructor <;> simp [text]

theorem properAll_append (ps qs : List Bracketing) :
    properAll (ps ++ qs) ↔ properAll ps ∧ properAll qs := by
  induction ps with
  | nil => simp [properAll]
  | cons p ps ih => simp [properAll, ih, and_assoc]

theorem properAll_words {ns : List Name} (h : (ns.map Name.leaf).Forall Leaf.Legible) :
    properAll (ns.map (word ∘ Name.text)) := by
  induction ns with
  | nil => trivial
  | cons n ns ih =>
    rw [List.map_cons, List.forall_cons] at h
    exact ⟨isWord_of_identifier h.1, ih h.2⟩

mutual

theorem Expr.proper_bracketing : (e : Expr) → e.leaves.Forall Leaf.Legible → e.bracketing.Proper
  | .literal _, h => Literal.isWord h
  | .variable _, h => isWord_of_identifier h
  | .this _ _, _ => isWord_keyword .this
  | .group inner, h => ⟨isWord_head _ (by simp [heads]), inner.proper_bracketing h, trivial⟩
  | .unary op _ operand, h => ⟨op.isWord_text, operand.proper_bracketing h, trivial⟩
  | .binary op _ left right, h => by
    obtain ⟨hl, hr⟩ := List.forall_append.mp h
    exact ⟨op.isWord_text, left.proper_bracketing hl, right.proper_bracketing hr, trivial⟩
  | .logical op left right, h => by
    obtain ⟨hl, hr⟩ := List.forall_append.mp h
    exact ⟨op.isWord_text, left.proper_bracketing hl, right.proper_bracketing hr, trivial⟩
  | .comma left right, h => by
    obtain ⟨hl, hr⟩ := List.forall_append.mp h
    exact ⟨isWord_head _ (by simp [heads]), left.proper_bracketing hl, right.proper_bracketing hr,
      trivial⟩
  | .ternary condition thenBranch elseBranch, h => by
    obtain ⟨hc, h⟩ := List.forall_append.mp h
    obtain ⟨ht, he⟩ := List.forall_append.mp h
    exact ⟨isWord_head _ (by simp [heads]), condition.proper_bracketing hc,
      thenBranch.proper_bracketing ht, elseBranch.proper_bracketing he, trivial⟩
  | .assign _ value, h => by
    obtain ⟨hn, hv⟩ := (List.forall_cons ..).mp h
    exact ⟨isWord_head _ (by simp [heads]), isWord_of_identifier hn, value.proper_bracketing hv,
      trivial⟩
  | .call callee _ arguments, h => by
    obtain ⟨hc, ha⟩ := List.forall_append.mp h
    exact ⟨isWord_head _ (by simp [heads]), callee.proper_bracketing hc,
      proper_exprsBracketing arguments ha⟩
  | .get object _, h => by
    obtain ⟨hn, ho⟩ := (List.forall_cons ..).mp h
    exact ⟨isWord_head _ (by simp [heads]), object.proper_bracketing ho, isWord_of_identifier hn,
      trivial⟩
  | .set object _ value, h => by
    obtain ⟨hn, h⟩ := (List.forall_cons ..).mp h
    obtain ⟨ho, hv⟩ := List.forall_append.mp h
    exact ⟨isWord_head _ (by simp [heads]), ⟨isWord_head _ (by simp [heads]),
      object.proper_bracketing ho, isWord_of_identifier hn, trivial⟩, value.proper_bracketing hv,
      trivial⟩
  | .super _ _ _, h => ⟨isWord_head _ (by simp [heads]), isWord_of_identifier h, trivial⟩
  | .lambda f, h => ⟨isWord_head _ (by simp [heads]), f.proper_parts h⟩
termination_by structural e => e

theorem proper_exprsBracketing : (es : List Expr) → (exprsLeaves es).Forall Leaf.Legible →
    properAll (exprsBracketing es)
  | [], _ => trivial
  | e :: es, h => by
    obtain ⟨he, hes⟩ := List.forall_append.mp h
    exact ⟨e.proper_bracketing he, proper_exprsBracketing es hes⟩
termination_by structural es => es

theorem Function.proper_parts : (f : Function) → f.leaves.Forall Leaf.Legible → properAll f.parts
  | ⟨name?, parameters, body, _⟩, h => by
    obtain ⟨hn, h⟩ := List.forall_append.mp h
    obtain ⟨hp, hb⟩ := List.forall_append.mp h
    rw [Function.parts, properAll_append]
    exact ⟨properAll_words hn, properAll_words hp,
      ⟨isWord_head _ (by simp [heads]), proper_stmtsBracketing body hb⟩, trivial⟩
termination_by structural f => f

theorem Stmt.proper_bracketing : (s : Stmt) → s.leaves.Forall Leaf.Legible → s.bracketing.Proper
  | .expression e, h | .print e, h =>
    ⟨isWord_head _ (by simp [heads]), e.proper_bracketing h, trivial⟩
  | .var _ none, h => ⟨isWord_head _ (by simp [heads]), isWord_of_identifier h, trivial⟩
  | .var _ (some e), h => by
    obtain ⟨hn, he⟩ := (List.forall_cons ..).mp h
    exact ⟨isWord_head _ (by simp [heads]), isWord_of_identifier hn, e.proper_bracketing he,
      trivial⟩
  | .block body, h => ⟨isWord_head _ (by simp [heads]), proper_stmtsBracketing body h⟩
  | .if condition thenBranch none, h => by
    obtain ⟨hc, ht⟩ := List.forall_append.mp h
    exact ⟨isWord_head _ (by simp [heads]), condition.proper_bracketing hc,
      thenBranch.proper_bracketing ht, trivial⟩
  | .if condition thenBranch (some elseBranch), h => by
    obtain ⟨hc, h⟩ := List.forall_append.mp h
    obtain ⟨ht, he⟩ := List.forall_append.mp h
    exact ⟨isWord_head _ (by simp [heads]), condition.proper_bracketing hc,
      thenBranch.proper_bracketing ht, elseBranch.proper_bracketing he, trivial⟩
  | .while condition body none, h => by
    obtain ⟨hc, hb⟩ := List.forall_append.mp h
    exact ⟨isWord_head _ (by simp [heads]), condition.proper_bracketing hc,
      body.proper_bracketing hb, trivial⟩
  | .while condition body (some increment), h => by
    obtain ⟨hc, h⟩ := List.forall_append.mp h
    obtain ⟨hb, hi⟩ := List.forall_append.mp h
    exact ⟨isWord_head _ (by simp [heads]), condition.proper_bracketing hc,
      body.proper_bracketing hb, increment.proper_bracketing hi, trivial⟩
  | .function f, h => ⟨isWord_head _ (by simp [heads]), f.proper_parts h⟩
  | .class c, h => ⟨isWord_head _ (by simp [heads]), c.proper_parts h⟩
  | .return _ none, _ | .break _, _ | .continue _, _ => ⟨isWord_head _ (by simp [heads]), trivial⟩
  | .return _ (some e), h => ⟨isWord_head _ (by simp [heads]), e.proper_bracketing h, trivial⟩
termination_by structural s => s

theorem proper_stmtsBracketing : (ss : List Stmt) → (stmtsLeaves ss).Forall Leaf.Legible →
    properAll (stmtsBracketing ss)
  | [], _ => trivial
  | s :: ss, h => by
    obtain ⟨hs, hss⟩ := List.forall_append.mp h
    exact ⟨s.proper_bracketing hs, proper_stmtsBracketing ss hss⟩
termination_by structural ss => ss

theorem Class.proper_parts : (c : Class) → c.leaves.Forall Leaf.Legible → properAll c.parts
  | ⟨_, superclass?, methods, getters⟩, h => by
    obtain ⟨hn, h⟩ := (List.forall_cons ..).mp h
    obtain ⟨hs, h⟩ := List.forall_append.mp h
    obtain ⟨hm, hg⟩ := List.forall_append.mp h
    refine ⟨isWord_of_identifier hn, ?_⟩
    rw [properAll_append, properAll_append]
    refine ⟨?_, proper_functionsBracketing methods (isWord_head _ (by simp [heads])) hm,
      proper_functionsBracketing getters (isWord_head _ (by simp [heads])) hg⟩
    cases superclass? with
    | none => trivial
    | some o => exact ⟨⟨isWord_head _ (by simp [heads]), isWord_of_identifier hs, trivial⟩, trivial⟩
termination_by structural c => c

theorem proper_functionsBracketing : (fs : List Function) → {head : String} → IsWord head →
    (functionsLeaves fs).Forall Leaf.Legible → properAll (functionsBracketing head fs)
  | [], _, _, _ => trivial
  | f :: fs, _, hhead, h => by
    obtain ⟨hf, hfs⟩ := List.forall_append.mp h
    exact ⟨⟨hhead, f.proper_parts hf⟩, proper_functionsBracketing fs hhead hfs⟩
termination_by structural fs => fs

end

end LoxLang
