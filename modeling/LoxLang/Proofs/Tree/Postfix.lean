import LoxLang.Proofs.Decimal.Decoding
import LoxLang.Proofs.Tree.Legible
import LoxLang.Proofs.Tree.Scanned
import LoxLang.Tree.Polish

/-!
Trees of operators that are read from their reverse Polish text. The text falls into words at the
blanks outside of quotes, each word is an operand or an operator with a number of operands of its
own, and a machine with a stack puts the operators to their operands again.
-/

namespace LoxLang

/-- A tree of operators, in which grouping leaves no trace and nothing has a line or a number. -/
inductive OperatorTree where
  | literal (value : Literal)
  | this
  | variable (name : String)
  | unary (op : UnaryOp) (operand : OperatorTree)
  | binary (op : BinaryOp) (left right : OperatorTree)
  | logical (op : LogicalOp) (left right : OperatorTree)
  | ternary (condition thenBranch elseBranch : OperatorTree)
  | comma (left right : OperatorTree)
  | assign (target : String) (value : OperatorTree)
  deriving DecidableEq

/-- The tree of an expression that is built from nothing else. -/
def Expr.operators? : Expr → Option OperatorTree
  | .literal value => some (.literal value)
  | .this _ _ => some .this
  | .variable occurrence => some (.variable occurrence.name.text)
  | .group inner => inner.operators?
  | .unary op _ operand => do
    return .unary op (← operand.operators?)
  | .binary op _ left right => do
    return .binary op (← left.operators?) (← right.operators?)
  | .logical op left right => do
    return .logical op (← left.operators?) (← right.operators?)
  | .ternary condition thenBranch elseBranch => do
    return .ternary (← condition.operators?) (← thenBranch.operators?) (← elseBranch.operators?)
  | .comma left right => do
    return .comma (← left.operators?) (← right.operators?)
  | .assign target value => do
    return .assign target.name.text (← value.operators?)
  | .call .. | .get .. | .set .. | .super .. | .lambda .. => none

/-- A word of a reverse Polish text. -/
inductive PolishWord where
  | literal (value : Literal)
  | this
  | name (text : String)
  | unary (op : UnaryOp)
  | binary (op : BinaryOp)
  | logical (op : LogicalOp)
  | ternary
  | comma
  | assign
  deriving DecidableEq

/-- The words of a tree, operators behind their operands. -/
def OperatorTree.words : OperatorTree → List PolishWord
  | .literal value => [.literal value]
  | .this => [.this]
  | .variable name => [.name name]
  | .unary op operand => operand.words ++ [.unary op]
  | .binary op left right => left.words ++ (right.words ++ [.binary op])
  | .logical op left right => left.words ++ (right.words ++ [.logical op])
  | .ternary condition thenBranch elseBranch =>
    condition.words ++ (thenBranch.words ++ (elseBranch.words ++ [.ternary]))
  | .comma left right => left.words ++ (right.words ++ [.comma])
  | .assign target value => value.words ++ [.name target, .assign]

namespace PolishWord

def text : PolishWord → String
  | .literal (.number x) => Literal.polishLayout.text x
  | .literal (.string s) => "\"" ++ s ++ "\""
  | .literal value => value.bracketed
  | .this => "this"
  | .name text => text
  | .unary op => op.polish
  | .binary op => op.text
  | .logical op => op.text
  | .ternary => "?:"
  | .comma => ","
  | .assign => "="

/-- The operators, and the operands that are keywords. -/
def fixed : List PolishWord :=
  [.unary .negate, .unary .not, .binary .add, .binary .subtract, .binary .multiply, .binary .divide,
    .binary .equal, .binary .notEqual, .binary .less, .binary .lessEqual, .binary .greater,
    .binary .greaterEqual, .logical .and, .logical .or, .ternary, .comma, .assign,
    .literal (.bool true), .literal (.bool false), .literal .nil, .this]

/-- The word with a text. -/
def ofText? (text : List Char) : Option PolishWord :=
  match fixed.find? fun w => w.text.toList = text, text with
  | some w, _ => some w
  | none, [] => none
  | none, c :: cs =>
    if c = '\"' then some (.literal (.string (String.ofList cs.dropLast)))
    else if c.isDigit || c = '-' then
      (Decimal.double? (c :: cs)).map fun x => .literal (.number x)
    else some (.name (String.ofList (c :: cs)))

/-- What a word does to the stack. An operator takes its operands from it, the last one first. -/
def step : PolishWord → List OperatorTree → Option (List OperatorTree)
  | .literal value, stack => some (.literal value :: stack)
  | .this, stack => some (.this :: stack)
  | .name text, stack => some (.variable text :: stack)
  | .unary op, operand :: stack => some (.unary op operand :: stack)
  | .binary op, right :: left :: stack => some (.binary op left right :: stack)
  | .logical op, right :: left :: stack => some (.logical op left right :: stack)
  | .ternary, elseBranch :: thenBranch :: condition :: stack =>
    some (.ternary condition thenBranch elseBranch :: stack)
  | .comma, right :: left :: stack => some (.comma left right :: stack)
  | .assign, .variable target :: value :: stack => some (.assign target value :: stack)
  | _, _ => none

def run? (stack : List OperatorTree) (ws : List PolishWord) : Option (List OperatorTree) :=
  ws.foldlM (fun stack w => w.step stack) stack

end PolishWord

/-- The parts of a text between the blanks that are outside of quotes. -/
def splitWords (quoted : Bool) : List Char → List (List Char)
  | [] => [[]]
  | c :: cs =>
    if c = ' ' && !quoted then [] :: splitWords false cs
    else (splitWords (quoted != (c = '\"')) cs).modifyHead (c :: ·)

attribute [local simp] splitWords PolishWord.text

/-- The tree that the machine is left with after a reverse Polish text. -/
def OperatorTree.ofPolish? (text : String) : Option OperatorTree := do
  let ws ← (splitWords false text.toList).mapM PolishWord.ofText?
  match ← PolishWord.run? [] ws with
  | [t] => some t
  | _ => none

namespace OperatorTree

/-- The machine puts a tree on its stack that is the tree of the words it has read. An operand is
read with those before it on the stack and the operator among the words behind. -/
theorem run?_words (t : OperatorTree) (stack : List OperatorTree) (ws : List PolishWord) :
    PolishWord.run? stack (t.words ++ ws) = PolishWord.run? (t :: stack) ws := by
  induction t generalizing stack ws with
  | literal | this | «variable» => rfl
  | unary op operand ih =>
    rw [words, List.append_assoc, ih]
    rfl
  | binary op left right ihl ihr | logical op left right ihl ihr | comma left right ihl ihr =>
    rw [words, List.append_assoc, List.append_assoc, ihl, ihr]
    rfl
  | ternary condition thenBranch elseBranch ihc iht ihe =>
    rw [words, List.append_assoc, List.append_assoc, List.append_assoc, ihc, iht, ihe]
    rfl
  | assign target value ih =>
    rw [words, List.append_assoc, ih]
    rfl

@[simp]
theorem words_ne_nil (t : OperatorTree) : t.words ≠ [] := by
  cases t <;> simp [words]

end OperatorTree

/-- Whether a text is taken as a part of one word. -/
def IsWhole (cs : List Char) : Prop :=
  ∀ rest, splitWords false (cs ++ rest) = (splitWords false rest).modifyHead (cs ++ ·)

theorem isWhole_of_plain {cs : List Char} (h : ∀ c ∈ cs, c ≠ ' ' ∧ c ≠ '\"') : IsWhole cs := by
  intro rest
  induction cs with
  | nil =>
    rw [List.nil_append]
    cases splitWords false rest <;> rfl
  | cons c cs ih =>
    obtain ⟨⟨hblank, hquote⟩, hcs⟩ := List.forall_mem_cons.mp h
    simp [hblank, hquote, ih hcs, Function.comp_def]

theorem splitWords_quoted {contents : List Char} (h : '\"' ∉ contents) (rest : List Char) :
    splitWords true (contents ++ '\"' :: rest) =
      (splitWords false rest).modifyHead ((contents ++ ['\"']) ++ ·) := by
  induction contents with
  | nil => simp
  | cons c contents ih =>
    rw [List.mem_cons, not_or] at h
    simp [Ne.symm h.1, ih h.2, Function.comp_def]

theorem isWhole_quoted {contents : List Char} (h : '\"' ∉ contents) :
    IsWhole ('\"' :: (contents ++ ['\"'])) := by
  intro rest
  have hquoted := splitWords_quoted h rest
  simp [hquoted, Function.comp_def]

/-- Words are found again between single blanks. -/
theorem splitWords_intercalate (w : List Char) (ws : List (List Char))
    (h : ∀ v ∈ w :: ws, IsWhole v) :
    splitWords false ([' '].intercalate (w :: ws)) = w :: ws := by
  induction ws generalizing w with
  | nil =>
    have hw := h w List.mem_cons_self []
    rw [List.append_nil] at hw
    rw [List.intercalate_singleton, hw]
    simp
  | cons v ws ih =>
    obtain ⟨hw, hws⟩ := List.forall_mem_cons.mp h
    rw [List.intercalate_cons_cons, List.append_assoc, hw]
    simp [ih v hws]

namespace PolishWord

/-- The name or literal that a word is. -/
def leaf? : PolishWord → Option Leaf
  | .literal value => some (.literal value)
  | .name text => some (.name text)
  | _ => none

/-- Whether a word is not an infinite number and not a name that is spelled like negation. -/
def Clear : PolishWord → Prop
  | .literal (.number x) => x.isFinite
  | .name text => text ≠ UnaryOp.negate.polish
  | _ => True

instance : DecidablePred Clear
  | .literal (.number x) => inferInstanceAs (Decidable (x.isFinite = true))
  | .name text => inferInstanceAs (Decidable (text ≠ UnaryOp.negate.polish))
  | .literal (.string _) | .literal (.bool _) | .literal .nil | .this | .unary _ | .binary _
  | .logical _ | .ternary | .comma | .assign => .isTrue trivial

/-- Whether a word can be told from all others. -/
def Legible : PolishWord → Prop
  | .literal (.number x) => ∃ negative v, Decimal.Reading.ofFloat x = .finite negative v
  | .literal (.string s) => '\"' ∉ s.toList
  | .name text => Lexeme text.toList .identifier ∧ text ≠ UnaryOp.negate.polish
  | _ => True

theorem legible_of_scanned {w : PolishWord} (h : ∀ l ∈ w.leaf?, l.Scanned) (hclear : w.Clear) :
    w.Legible := by
  cases w with
  | literal value =>
    have hscanned := h _ rfl
    cases hscanned with
    | number => exact Decimal.Reading.exists_finite_of_isFinite hclear
    | string hquote =>
      show '\"' ∉ (String.ofList _).toList
      rwa [String.toList_ofList]
    | bool | nil => trivial
  | name text =>
    have hscanned := h _ rfl
    cases hscanned with
    | name hlexeme => exact ⟨hlexeme, hclear⟩
  | _ => trivial

theorem cases_legible {w : PolishWord} (h : w.Legible) : w ∈ fixed ∨
    (∃ x, w = .literal (.number x)) ∨ (∃ s, w = .literal (.string s)) ∨ ∃ text, w = .name text := by
  match w with
  | .literal (.number x) => exact .inr (.inl ⟨x, rfl⟩)
  | .literal (.string s) => exact .inr (.inr (.inl ⟨s, rfl⟩))
  | .name text => exact .inr (.inr (.inr ⟨text, rfl⟩))
  | .literal (.bool b) => cases b <;> simp [fixed]
  | .unary op => cases op <;> simp [fixed]
  | .binary op => cases op <;> simp [fixed]
  | .logical op => cases op <;> simp [fixed]
  | .literal .nil | .this | .ternary | .comma | .assign => simp [fixed]

theorem ofText?_fixed : ∀ w ∈ fixed, ofText? w.text.toList = some w := by
  decide +kernel

theorem plain_fixed : ∀ w ∈ fixed, ∀ c ∈ w.text.toList,
    c ≠ ' ' ∧ c ≠ '\"' ∧ c.isDigit = false := by
  simp only [fixed, List.forall_mem_cons]
  simp [UnaryOp.polish, BinaryOp.text, LogicalOp.text, Literal.bracketed]

theorem name_fixed : ∀ w ∈ fixed, w.text = UnaryOp.negate.polish ∨
    w.text.toList.head?.all (fun c => !isWordStart c) ∨ (Keyword.ofWord? w.text).isSome := by
  have h : fixed.all fun w => w.text == UnaryOp.negate.polish ||
      w.text.toList.head?.all (fun c => !isWordStart c) || (Keyword.ofWord? w.text).isSome := by
    decide +kernel
  intro w hw
  simpa [or_assoc] using List.all_eq_true.mp h w hw

/-- A text that no operator or keyword has is told by its first character. -/
theorem ofText?_of_not_fixed {c : Char} {cs : List Char}
    (h : ∀ w ∈ fixed, w.text.toList ≠ c :: cs) : ofText? (c :: cs) =
      if c = '\"' then some (.literal (.string (String.ofList cs.dropLast)))
      else if c.isDigit || c = '-' then
        (Decimal.double? (c :: cs)).map fun x => .literal (.number x)
      else some (.name (String.ofList (c :: cs))) := by
  have hnone : (fixed.find? fun w => w.text.toList = c :: cs) = none := by
    rw [List.find?_eq_none]
    intro w hw
    rw [decide_eq_true_eq]
    exact h w hw
  unfold ofText?
  rw [hnone]

theorem polishLayout_positional : Literal.polishLayout.Positional where
  positional _ := rfl
  exactTail := .inl rfl
  roundedTail := .inl rfl
  signedZero := rfl

/-- The text of a number begins with a digit, or with a minus sign and one, and has no blanks. -/
theorem number_text {x : Float} (h : (literal (.number x)).Legible) :
    ∃ c cs, (literal (.number x)).text.toList = c :: cs ∧ (c.isDigit ∨ c = '-') ∧
      (∃ d ∈ c :: cs, d.isDigit) ∧ ∀ d ∈ c :: cs, d ≠ ' ' ∧ d ≠ '\"' := by
  obtain ⟨negative, v, hx⟩ := h
  obtain ⟨⟨c, hc, hdigit⟩, hchars⟩ :=
    Decimal.Layout.Positional.magnitudeText_isDecimal polishLayout_positional v
  obtain ⟨cs, hcs⟩ := List.head?_eq_some_iff.mp hc
  have hplain : ∀ d ∈ c :: cs, d ≠ ' ' ∧ d ≠ '\"' := by
    intro d hd
    rw [← hcs] at hd
    constructor <;> rintro rfl <;> simpa using hchars _ hd
  have htext : (literal (.number x)).text.toList =
      (if negative then ['-'] else []) ++ c :: cs := by
    rw [text, Decimal.Layout.text, String.toList_ofList, hx, Decimal.Layout.readingText, hcs]
    cases negative <;> rfl
  rw [htext]
  cases negative
  · exact ⟨c, cs, rfl, .inl hdigit, ⟨c, List.mem_cons_self, hdigit⟩, hplain⟩
  · refine ⟨'-', c :: cs, rfl, .inr rfl, ⟨c, by simp, hdigit⟩, ?_⟩
    rw [List.forall_mem_cons]
    exact ⟨by decide, hplain⟩

theorem ofText?_number {x : Float} (h : (literal (.number x)).Legible) :
    ofText? (literal (.number x)).text.toList = some (literal (.number x)) := by
  obtain ⟨c, cs, htext, hc, ⟨d, hd, hdigit⟩, -⟩ := number_text h
  obtain ⟨negative, v, hx⟩ := h
  have hdouble : Decimal.double? (c :: cs) = some x := by
    rw [← htext, text, Decimal.Layout.text, String.toList_ofList, hx]
    exact (Decimal.Layout.Positional.spells polishLayout_positional).double?_readingText hx
  have hquote : c ≠ '\"' := by
    rintro rfl
    rcases hc with hc | hc <;> cases hc
  rw [htext, ofText?_of_not_fixed, if_neg hquote, if_pos, hdouble]
  · rfl
  · simpa using hc
  · intro w hw hsame
    rw [← hsame] at hd
    rw [(plain_fixed w hw d hd).2.2] at hdigit
    cases hdigit

theorem string_text (s : String) :
    (literal (.string s)).text.toList = '\"' :: (s.toList ++ ['\"']) := by
  simp

theorem ofText?_string (s : String) :
    ofText? (literal (.string s)).text.toList = some (literal (.string s)) := by
  rw [string_text, ofText?_of_not_fixed, if_pos rfl]
  · simp
  · intro w hw hsame
    have hplain := plain_fixed w hw '\"'
    rw [hsame] at hplain
    exact (hplain List.mem_cons_self).2.1 rfl

/-- No operator and no keyword is spelled like a name, but for negation. -/
theorem text_ne_of_lexeme {cs : List Char} (h : Lexeme cs .identifier)
    (hneg : String.ofList cs ≠ UnaryOp.negate.polish) : ∀ w ∈ fixed, w.text.toList ≠ cs := by
  intro w hw hsame
  have htext : w.text = String.ofList cs := by rw [← hsame, String.ofList_toList]
  cases h with
  | identifier hc _ hk =>
    rcases name_fixed w hw with hw | hw | hw
    · exact hneg (htext.symm.trans hw)
    · rw [hsame] at hw
      simp [hc] at hw
    · obtain ⟨k, hw⟩ := Option.isSome_iff_exists.mp hw
      exact hk k (by rw [Keyword.text_of_ofWord? hw, hsame])

theorem ofText?_name {text : String} (h : (name text).Legible) :
    ofText? text.toList = some (name text) := by
  obtain ⟨hlexeme, hneg⟩ := h
  rw [← String.ofList_toList (s := text)] at hneg
  have hfixed := text_ne_of_lexeme hlexeme hneg
  generalize hcs : text.toList = cs at hlexeme hfixed
  cases hlexeme with
  | @identifier c cs hc =>
    have hquote : c ≠ '\"' := by
      rintro rfl
      cases hc
    have hnumber : ¬ (c.isDigit || c = '-') := by
      rw [isDigit_of_isWordStart hc, Bool.false_or, decide_eq_true_eq]
      rintro rfl
      cases hc
    rw [ofText?_of_not_fixed hfixed, if_neg hquote, if_neg hnumber, ← hcs, String.ofList_toList]

theorem ofText?_text {w : PolishWord} (h : w.Legible) : ofText? w.text.toList = some w := by
  rcases cases_legible h with hfixed | ⟨x, rfl⟩ | ⟨s, rfl⟩ | ⟨name, rfl⟩
  · exact ofText?_fixed w hfixed
  · exact ofText?_number h
  · exact ofText?_string s
  · exact ofText?_name h

theorem isWhole_text {w : PolishWord} (h : w.Legible) : IsWhole w.text.toList := by
  rcases cases_legible h with hfixed | ⟨x, rfl⟩ | ⟨s, rfl⟩ | ⟨name, rfl⟩
  · apply isWhole_of_plain
    intro c hc
    have hplain := plain_fixed w hfixed c hc
    exact ⟨hplain.1, hplain.2.1⟩
  · obtain ⟨c, cs, htext, -, -, hplain⟩ := number_text h
    rw [htext]
    exact isWhole_of_plain hplain
  · rw [string_text]
    exact isWhole_quoted h
  · obtain ⟨hlexeme, -⟩ := h
    apply isWhole_of_plain
    show ∀ c ∈ name.toList, _
    generalize name.toList = text at hlexeme
    have hpart : ∀ d, isWordPart d → d ≠ ' ' ∧ d ≠ '\"' := by
      intro d hd
      constructor <;> rintro rfl <;> cases hd
    cases hlexeme with
    | @identifier c cs hc hcs =>
      rw [List.forall_mem_cons]
      exact ⟨hpart c (isWordPart_of_isWordStart hc), fun d hd => hpart d (hcs d hd)⟩

theorem mapM_ofText? {ws : List PolishWord} (h : ∀ w ∈ ws, w.Legible) :
    (ws.map fun w => w.text.toList).mapM ofText? = some ws := by
  induction ws with
  | nil => rfl
  | cons w ws ih =>
    obtain ⟨hw, hws⟩ := List.forall_mem_cons.mp h
    rw [List.map_cons, List.mapM_cons, ofText?_text hw, ih hws]
    rfl

/-- Words with a blank between two of them. -/
def texts (ws : List PolishWord) : String :=
  " ".intercalate (ws.map text)

theorem texts_singleton (w : PolishWord) : texts [w] = w.text := by
  simp [texts]

theorem texts_append {ws vs : List PolishWord} (hw : ws ≠ []) (hv : vs ≠ []) :
    texts (ws ++ vs) = texts ws ++ " " ++ texts vs := by
  rw [texts, List.map_append, String.intercalate_append_of_ne_nil]
  · rfl
  · simpa using hw
  · simpa using hv

theorem splitWords_texts {ws : List PolishWord} (hne : ws ≠ []) (h : ∀ w ∈ ws, w.Legible) :
    splitWords false (texts ws).toList = ws.map fun w => w.text.toList := by
  obtain ⟨w, ws, rfl⟩ := List.exists_cons_of_ne_nil hne
  rw [texts, String.toList_intercalate, List.map_map]
  apply splitWords_intercalate
  rw [← List.map_cons, List.forall_mem_map]
  exact fun w hw => isWhole_text (h w hw)

end PolishWord

/-- The machine reads a tree from its words. -/
theorem OperatorTree.ofPolish?_texts {t : OperatorTree} (h : ∀ w ∈ t.words, w.Legible) :
    ofPolish? (PolishWord.texts t.words) = some t := by
  have hrun := t.run?_words [] []
  rw [List.append_nil] at hrun
  unfold ofPolish?
  rw [PolishWord.splitWords_texts t.words_ne_nil h, PolishWord.mapM_ofText? h]
  show (PolishWord.run? [] t.words).bind _ = _
  rw [hrun]
  rfl

/-- The text of an expression is made of the words of its tree. -/
theorem Expr.polish_eq_texts {t : OperatorTree} : (e : Expr) → e.operators? = some t →
    e.polish = PolishWord.texts t.words
  | .literal value, h => by
    cases h
    rw [OperatorTree.words, PolishWord.texts_singleton]
    cases value <;> rfl
  | .this _ _, h | .variable _, h => by
    cases h
    rw [OperatorTree.words, PolishWord.texts_singleton]
    rfl
  | .group inner, h => inner.polish_eq_texts h
  | .unary op _ operand, h => by
    obtain ⟨t, ht, h⟩ := Option.bind_eq_some_iff.mp h
    cases h
    have ih := operand.polish_eq_texts ht
    simp [polish, OperatorTree.words, PolishWord.texts_append, PolishWord.texts_singleton, ih,
      PolishWord.text]
  | .binary _ _ left right, h | .logical _ left right, h | .comma left right, h => by
    obtain ⟨l, hl, h⟩ := Option.bind_eq_some_iff.mp h
    obtain ⟨r, hr, h⟩ := Option.bind_eq_some_iff.mp h
    cases h
    have ihl := left.polish_eq_texts hl
    have ihr := right.polish_eq_texts hr
    simp [polish, OperatorTree.words, PolishWord.texts_append, PolishWord.texts_singleton, ihl, ihr,
      PolishWord.text, String.append_assoc]
  | .ternary condition thenBranch elseBranch, h => by
    obtain ⟨c, hc, h⟩ := Option.bind_eq_some_iff.mp h
    obtain ⟨y, hy, h⟩ := Option.bind_eq_some_iff.mp h
    obtain ⟨n, hn, h⟩ := Option.bind_eq_some_iff.mp h
    cases h
    have ihc := condition.polish_eq_texts hc
    have ihy := thenBranch.polish_eq_texts hy
    have ihn := elseBranch.polish_eq_texts hn
    simp [polish, OperatorTree.words, PolishWord.texts_append, PolishWord.texts_singleton, ihc, ihy,
      ihn, PolishWord.text, String.append_assoc]
  | .assign target value, h => by
    obtain ⟨v, hv, h⟩ := Option.bind_eq_some_iff.mp h
    cases h
    have ih := value.polish_eq_texts hv
    have hassign : PolishWord.texts [.name target.name.text, .assign] =
        target.name.text ++ " =" := by
      simp [PolishWord.texts, String.append_assoc]
    simp [polish, OperatorTree.words, PolishWord.texts_append, ih, hassign, String.append_assoc]

/-- The names and literals among the words of a tree are those of the expression. -/
theorem Expr.mem_leaves_of_mem_words {t : OperatorTree} {w : PolishWord} {l : Leaf}
    (hl : l ∈ w.leaf?) : (e : Expr) → e.operators? = some t → w ∈ t.words → l ∈ e.leaves
  | .literal _, h, hw | .this _ _, h, hw | .variable _, h, hw => by
    cases h
    cases List.mem_singleton.mp hw
    cases hl <;> exact List.mem_singleton_self _
  | .group inner, h, hw => inner.mem_leaves_of_mem_words hl h hw
  | .unary _ _ operand, h, hw => by
    obtain ⟨t, ht, h⟩ := Option.bind_eq_some_iff.mp h
    cases h
    rcases List.mem_append.mp hw with hw | hw
    · exact operand.mem_leaves_of_mem_words hl ht hw
    · cases List.mem_singleton.mp hw
      cases hl
  | .binary _ _ left right, h, hw | .logical _ left right, h, hw | .comma left right, h, hw => by
    obtain ⟨t, ht, h⟩ := Option.bind_eq_some_iff.mp h
    obtain ⟨u, hu, h⟩ := Option.bind_eq_some_iff.mp h
    cases h
    simp only [OperatorTree.words, List.mem_append, List.mem_singleton] at hw
    rw [leaves, List.mem_append]
    rcases hw with hw | hw | rfl
    · exact .inl (left.mem_leaves_of_mem_words hl ht hw)
    · exact .inr (right.mem_leaves_of_mem_words hl hu hw)
    · cases hl
  | .ternary condition thenBranch elseBranch, h, hw => by
    obtain ⟨c, hc, h⟩ := Option.bind_eq_some_iff.mp h
    obtain ⟨y, hy, h⟩ := Option.bind_eq_some_iff.mp h
    obtain ⟨n, hn, h⟩ := Option.bind_eq_some_iff.mp h
    cases h
    simp only [OperatorTree.words, List.mem_append, List.mem_singleton] at hw
    rw [leaves, List.mem_append, List.mem_append]
    rcases hw with hw | hw | hw | rfl
    · exact .inl (condition.mem_leaves_of_mem_words hl hc hw)
    · exact .inr (.inl (thenBranch.mem_leaves_of_mem_words hl hy hw))
    · exact .inr (.inr (elseBranch.mem_leaves_of_mem_words hl hn hw))
    · cases hl
  | .assign _ value, h, hw => by
    obtain ⟨v, hv, h⟩ := Option.bind_eq_some_iff.mp h
    cases h
    simp only [OperatorTree.words, List.mem_append, List.mem_cons, List.not_mem_nil, or_false] at hw
    rw [leaves, List.mem_cons]
    rcases hw with hw | rfl | rfl
    · exact .inr (value.mem_leaves_of_mem_words hl hv hw)
    · cases hl
      exact .inl rfl
    · cases hl

/-- Whether all numbers are finite and no name is spelled like negation. -/
def OperatorTree.Clear (t : OperatorTree) : Prop :=
  ∀ w ∈ t.words, w.Clear

namespace Program

variable {a b : Nat} {source source' : String} {p q : Program} {e e' : Expr} {t t' : OperatorTree}

theorem legible_of_operators? (hp : ofSource a source = .ok p) (he : e ∈ stmtsNodes p.statements)
    (ht : e.operators? = some t) (hclear : t.Clear) : ∀ w ∈ t.words, w.Legible := by
  intro w hw
  have hscanned := scanned_of_mem_nodes hp he
  rw [List.forall_iff_forall_mem] at hscanned
  apply PolishWord.legible_of_scanned _ (hclear w hw)
  exact fun l hl => hscanned l (e.mem_leaves_of_mem_words hl ht hw)

theorem ofPolish?_polish (hp : ofSource a source = .ok p) (he : e ∈ stmtsNodes p.statements)
    (ht : e.operators? = some t) (hclear : t.Clear) : OperatorTree.ofPolish? e.polish = some t := by
  rw [e.polish_eq_texts ht]
  exact OperatorTree.ofPolish?_texts (legible_of_operators? hp he ht hclear)

/-- The machine rebuilds the tree of an expression from its reverse Polish text, so two expressions
have the same text if and only if they have the same tree. -/
theorem polish_exact (hp : ofSource a source = .ok p) (hq : ofSource b source' = .ok q)
    (he : e ∈ stmtsNodes p.statements) (he' : e' ∈ stmtsNodes q.statements)
    (ht : e.operators? = some t) (ht' : e'.operators? = some t') (hclear : t.Clear)
    (hclear' : t'.Clear) : OperatorTree.ofPolish? e.polish = some t ∧
      OperatorTree.ofPolish? e'.polish = some t' ∧ (e.polish = e'.polish ↔ t = t') := by
  have hread := ofPolish?_polish hp he ht hclear
  have hread' := ofPolish?_polish hq he' ht' hclear'
  refine ⟨hread, hread', ?_, ?_⟩
  · intro hsame
    rw [hsame, hread'] at hread
    exact (Option.some.inj hread).symm
  · rintro rfl
    rw [e.polish_eq_texts ht, e'.polish_eq_texts ht']

/-- A string is not taken for the operators in it, and parentheses leave no trace. -/
theorem polish_exact_quoted : ∃ p q e e' t,
    ofSource 0 "x = (\"- 1 ?:\" == -(y - 1.5) ? this : !nil and x);" = .ok p ∧
    ofSource 7 "x =\n((\"- 1 ?:\" == -((y) - 1.5)) ? this : ((!nil) and x));" = .ok q ∧
    e ∈ stmtsNodes p.statements ∧ e' ∈ stmtsNodes q.statements ∧
    e.operators? = some t ∧ e'.operators? = some t ∧ t.Clear ∧
    e.polish = "\"- 1 ?:\" y 1.5 - neg == this nil ! x and ?: x =" ∧
    OperatorTree.ofPolish? e.polish = some t ∧ e.polish = e'.polish := by
  let t : OperatorTree := .assign "x" (.ternary
    (.binary .equal (.literal (.string "- 1 ?:"))
      (.unary .negate (.binary .subtract (.variable "y") (.literal (.number 1.5)))))
    .this (.logical .and (.unary .not (.literal .nil)) (.variable "x")))
  have hp : (ofSource 0 "x = (\"- 1 ?:\" == -(y - 1.5) ? this : !nil and x);").map (fun p =>
      (stmtsNodes p.statements).head?.bind fun e => e.operators?.map fun t => (e.polish, t)) =
      .ok (some ("\"- 1 ?:\" y 1.5 - neg == this nil ! x and ?: x =", t)) := by
    decide +kernel
  have hq : (ofSource 7 "x =\n((\"- 1 ?:\" == -((y) - 1.5)) ? this : ((!nil) and x));").map (
      fun q => (stmtsNodes q.statements).head?.bind Expr.operators?) = .ok (some t) := by
    decide +kernel
  have hclear : t.Clear := by
    unfold OperatorTree.Clear
    decide +kernel
  obtain ⟨p, hp, hread⟩ := exists_of_map_eq_ok hp
  obtain ⟨q, hq, hread'⟩ := exists_of_map_eq_ok hq
  obtain ⟨e, he, hread⟩ := Option.bind_eq_some_iff.mp hread
  obtain ⟨t', ht, hread⟩ := Option.map_eq_some_iff.mp hread
  obtain ⟨e', he', ht'⟩ := Option.bind_eq_some_iff.mp hread'
  obtain ⟨htext, rfl⟩ := Prod.mk.inj hread
  have hexact := polish_exact hp hq (List.mem_of_head? he) (List.mem_of_head? he') ht ht' hclear
    hclear
  exact ⟨p, q, e, e', _, hp, hq, List.mem_of_head? he, List.mem_of_head? he', ht, ht', hclear,
    htext, hexact.1, hexact.2.2.mpr rfl⟩

end Program

end LoxLang
