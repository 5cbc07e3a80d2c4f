import LoxLang.Proofs.Tree.Legible
import LoxLang.Proofs.Tree.Scanned

/-!
Trees that are told from their text. The heads of lists, their lengths and what is a word and what a
list tell each kind of expression and statement from every other, also where a part is left out. So
programs without strings and infinite numbers that are printed alike are the same but for their
lines and the numbers of their occurrences.
-/

namespace LoxLang

open Bracketing (word parts)

theorem BinaryOp.text_inj {op op' : BinaryOp} (h : op.text = op'.text) : op = op' := by
  cases op <;> cases op' <;> first | rfl | simp [text] at h

theorem LogicalOp.text_inj {op op' : LogicalOp} (h : op.text = op'.text) : op = op' := by
  cases op <;> cases op' <;> first | rfl | simp [text] at h

theorem UnaryOp.text_inj {op op' : UnaryOp} (h : op.text = op'.text) : op = op' := by
  cases op <;> cases op' <;> first | rfl | simp [text] at h

theorem forall₂_like_shape {ns ns' : List Name}
    (h : ns.map (word ∘ Name.text) = ns'.map (word ∘ Name.text)) :
    List.Forall₂ (Name.Like .shape) ns ns' := by
  rw [← List.forall₂_eq_eq_eq, List.forall₂_map_left_iff, List.forall₂_map_right_iff] at h
  exact h.imp fun _ _ hn => Name.like_shape (Bracketing.word.inj hn)

/-- Where the methods of a class end its getters begin. -/
theorem functionsBracketing_inj {methods methods' getters getters' : List Function}
    (h : functionsBracketing "method" methods ++ functionsBracketing "get" getters =
      functionsBracketing "method" methods' ++ functionsBracketing "get" getters') :
    functionsBracketing "method" methods = functionsBracketing "method" methods' ∧
      functionsBracketing "get" getters = functionsBracketing "get" getters' := by
  induction methods generalizing methods' with
  | nil =>
    cases methods' with
    | nil => exact ⟨rfl, h⟩
    | cons => cases getters <;> simp at h
  | cons f methods ih =>
    cases methods' with
    | nil => cases getters' <;> simp at h
    | cons f' methods' =>
      obtain ⟨hf, hrest⟩ := List.cons.inj h
      obtain ⟨hm, hg⟩ := ih hrest
      exact ⟨by rw [functionsBracketing, functionsBracketing, hf, hm], hg⟩

/-- A superclass is told from a method and from a getter. -/
theorem superclass_ne_members (o : Occurrence) (ps : List Bracketing)
    (methods getters : List Function) :
    parts [word "<", word o.name.text] :: ps ≠
      functionsBracketing "method" methods ++ functionsBracketing "get" getters := by
  cases methods with
  | nil => cases getters <;> simp
  | cons => simp

/-- The word that tells what a statement is. -/
def Stmt.head : Stmt → String
  | .expression _ => ";"
  | .print _ => "print"
  | .var _ _ => "var"
  | .block _ => "block"
  | .if _ _ _ => "if"
  | .while _ _ _ => "while"
  | .function _ => "fun"
  | .class _ => "class"
  | .return _ _ => "return"
  | .break _ => "break"
  | .continue _ => "continue"

theorem Stmt.bracketing_head (s : Stmt) : ∃ ps, s.bracketing = parts (word s.head :: ps) := by
  cases s with
  | var _ initializer? => cases initializer? <;> exact ⟨_, rfl⟩
  | «if» _ _ elseBranch? => cases elseBranch? <;> exact ⟨_, rfl⟩
  | «while» _ _ increment? => cases increment? <;> exact ⟨_, rfl⟩
  | «return» _ value? => cases value? <;> exact ⟨_, rfl⟩
  | _ => exact ⟨_, rfl⟩

theorem Stmt.head_eq {s s' : Stmt} (h : s.bracketing = s'.bracketing) : s.head = s'.head := by
  obtain ⟨ps, hs⟩ := s.bracketing_head
  obtain ⟨ps', hs'⟩ := s'.bracketing_head
  rw [hs, hs'] at h
  exact word.inj (List.cons.inj (parts.inj h)).1

mutual

/-- Expressions with the same words and brackets have the same shape. -/
theorem Expr.like_of_bracketing : (e e' : Expr) → e.leaves.Forall Leaf.Legible →
    e'.leaves.Forall Leaf.Legible → e.bracketing = e'.bracketing → e.Like .shape e'
  | .literal v, e', h, h', heq => by
    cases e' with
    | literal v' => exact congrArg Expr.literal (Literal.bracketed_inj h h' (word.inj heq)).symm
    | «variable» => exact (Literal.ne_name h h' (word.inj heq)).elim
    | this => exact (Literal.ne_this h (word.inj heq)).elim
    | _ => simp at heq
  | .variable o, e', h, h', heq => by
    cases e' with
    | literal => exact (Literal.ne_name h' h (word.inj heq).symm).elim
    | «variable» o' => exact ⟨o', rfl, Occurrence.like_shape (word.inj heq)⟩
    | this => exact (name_ne_keyword h .this (word.inj heq)).elim
    | _ => simp at heq
  | .this _ _, e', h, h', heq => by
    cases e' with
    | literal => exact (Literal.ne_this h' (word.inj heq).symm).elim
    | «variable» => exact (name_ne_keyword h' .this (word.inj heq).symm).elim
    | this => exact ⟨_, _, rfl, trivial, trivial⟩
    | _ => simp at heq
  | .group inner, e', h, h', heq => by
    cases e' with
    | group inner' =>
      simp only [Expr.bracketing, parts.injEq, List.cons.injEq, true_and, and_true] at heq
      exact ⟨_, rfl, inner.like_of_bracketing inner' h h' heq⟩
    | unary op => cases op <;> simp [UnaryOp.text] at heq
    | _ => simp at heq
  | .unary op _ operand, e', h, h', heq => by
    cases e' with
    | unary op' _ operand' =>
      simp only [Expr.bracketing, parts.injEq, List.cons.injEq, word.injEq, and_true] at heq
      obtain ⟨hop, heq⟩ := heq
      obtain rfl := UnaryOp.text_inj hop
      exact ⟨_, _, rfl, trivial, operand.like_of_bracketing operand' h h' heq⟩
    | _ =>
      cases op <;> simp [UnaryOp.text] at heq
  | .binary op _ left right, e', h, h', heq => by
    cases e' with
    | binary op' _ left' right' =>
      simp only [Expr.bracketing, parts.injEq, List.cons.injEq, word.injEq, and_true] at heq
      obtain ⟨hop, hl, hr⟩ := heq
      obtain rfl := BinaryOp.text_inj hop
      obtain ⟨h₁, h₂⟩ := List.forall_append.mp h
      obtain ⟨h₁', h₂'⟩ := List.forall_append.mp h'
      exact ⟨_, _, _, rfl, trivial, left.like_of_bracketing left' h₁ h₁' hl,
        right.like_of_bracketing right' h₂ h₂' hr⟩
    | logical op' => cases op <;> cases op' <;>
        simp [BinaryOp.text, LogicalOp.text] at heq
    | _ => cases op <;> simp [BinaryOp.text] at heq
  | .logical op left right, e', h, h', heq => by
    cases e' with
    | logical op' left' right' =>
      simp only [Expr.bracketing, parts.injEq, List.cons.injEq, word.injEq, and_true] at heq
      obtain ⟨hop, hl, hr⟩ := heq
      obtain rfl := LogicalOp.text_inj hop
      obtain ⟨h₁, h₂⟩ := List.forall_append.mp h
      obtain ⟨h₁', h₂'⟩ := List.forall_append.mp h'
      exact ⟨_, _, rfl, left.like_of_bracketing left' h₁ h₁' hl,
        right.like_of_bracketing right' h₂ h₂' hr⟩
    | binary op' => cases op <;> cases op' <;>
        simp [BinaryOp.text, LogicalOp.text] at heq
    | _ => cases op <;> simp [LogicalOp.text] at heq
  | .comma left right, e', h, h', heq => by
    cases e' with
    | comma left' right' =>
      simp only [Expr.bracketing, parts.injEq, List.cons.injEq, true_and, and_true] at heq
      obtain ⟨h₁, h₂⟩ := List.forall_append.mp h
      obtain ⟨h₁', h₂'⟩ := List.forall_append.mp h'
      exact ⟨_, _, rfl, left.like_of_bracketing left' h₁ h₁' heq.1,
        right.like_of_bracketing right' h₂ h₂' heq.2⟩
    | binary op => cases op <;> simp [BinaryOp.text] at heq
    | logical op => cases op <;> simp [LogicalOp.text] at heq
    | _ => simp at heq
  | .ternary condition thenBranch elseBranch, e', h, h', heq => by
    cases e' with
    | ternary condition' thenBranch' elseBranch' =>
      simp only [Expr.bracketing, parts.injEq, List.cons.injEq, true_and, and_true] at heq
      obtain ⟨hc, ht, he⟩ := heq
      obtain ⟨h₁, h⟩ := List.forall_append.mp h
      obtain ⟨h₂, h₃⟩ := List.forall_append.mp h
      obtain ⟨h₁', h'⟩ := List.forall_append.mp h'
      obtain ⟨h₂', h₃'⟩ := List.forall_append.mp h'
      exact ⟨_, _, _, rfl, condition.like_of_bracketing condition' h₁ h₁' hc,
        thenBranch.like_of_bracketing thenBranch' h₂ h₂' ht,
        elseBranch.like_of_bracketing elseBranch' h₃ h₃' he⟩
    | _ => simp at heq
  | .assign o value, e', h, h', heq => by
    cases e' with
    | assign o' value' =>
      simp only [Expr.bracketing, parts.injEq, List.cons.injEq, true_and, and_true] at heq
      exact ⟨_, _, rfl, Occurrence.like_shape (word.inj heq.1),
        value.like_of_bracketing value' ((List.forall_cons ..).mp h).2
          ((List.forall_cons ..).mp h').2 heq.2⟩
    | set => simp at heq
    | binary op => cases op <;> simp [BinaryOp.text] at heq
    | logical op => cases op <;> simp [LogicalOp.text] at heq
    | _ => simp at heq
  | .call callee _ arguments, e', h, h', heq => by
    cases e' with
    | call callee' _ arguments' =>
      simp only [Expr.bracketing, parts.injEq, List.cons.injEq, true_and] at heq
      obtain ⟨h₁, h₂⟩ := List.forall_append.mp h
      obtain ⟨h₁', h₂'⟩ := List.forall_append.mp h'
      exact ⟨_, _, _, rfl, callee.like_of_bracketing callee' h₁ h₁' heq.1, trivial,
        exprsLike_of_bracketing arguments arguments' h₂ h₂' heq.2⟩
    | unary op => cases op <;> simp [UnaryOp.text] at heq
    | binary op => cases op <;> simp [BinaryOp.text] at heq
    | logical op => cases op <;> simp [LogicalOp.text] at heq
    | _ => simp at heq
  | .get object name, e', h, h', heq => by
    cases e' with
    | get object' name' =>
      simp only [Expr.bracketing, parts.injEq, List.cons.injEq, true_and, and_true] at heq
      exact ⟨_, _, rfl, object.like_of_bracketing object' ((List.forall_cons ..).mp h).2
          ((List.forall_cons ..).mp h').2 heq.1, Name.like_shape (word.inj heq.2)⟩
    | binary op => cases op <;> simp [BinaryOp.text] at heq
    | logical op => cases op <;> simp [LogicalOp.text] at heq
    | _ => simp at heq
  | .set object name value, e', h, h', heq => by
    cases e' with
    | set object' name' value' =>
      simp only [Expr.bracketing, parts.injEq, List.cons.injEq, true_and, and_true] at heq
      obtain ⟨⟨ho, hn⟩, hv⟩ := heq
      obtain ⟨h₁, h₂⟩ := List.forall_append.mp ((List.forall_cons ..).mp h).2
      obtain ⟨h₁', h₂'⟩ := List.forall_append.mp ((List.forall_cons ..).mp h').2
      exact ⟨_, _, _, rfl, object.like_of_bracketing object' h₁ h₁' ho,
        Name.like_shape (word.inj hn), value.like_of_bracketing value' h₂ h₂' hv⟩
    | binary op => cases op <;> simp [BinaryOp.text] at heq
    | logical op => cases op <;> simp [LogicalOp.text] at heq
    | _ => simp at heq
  | .super _ _ method, e', h, h', heq => by
    cases e' with
    | super _ _ method' =>
      simp only [Expr.bracketing, parts.injEq, List.cons.injEq, true_and, and_true] at heq
      exact ⟨_, _, _, rfl, trivial, trivial, Name.like_shape (word.inj heq)⟩
    | unary op => cases op <;> simp [UnaryOp.text] at heq
    | _ => simp at heq
  | .lambda f, e', h, h', heq => by
    cases e' with
    | lambda f' =>
      simp only [Expr.bracketing, parts.injEq, List.cons.injEq, true_and] at heq
      exact ⟨_, rfl, f.like_of_parts f' h h' heq⟩
    | unary op => cases op <;> simp [UnaryOp.text] at heq
    | binary op => cases op <;> simp [BinaryOp.text] at heq
    | logical op => cases op <;> simp [LogicalOp.text] at heq
    | _ => simp at heq
termination_by structural e => e

theorem exprsLike_of_bracketing : (es es' : List Expr) → (exprsLeaves es).Forall Leaf.Legible →
    (exprsLeaves es').Forall Leaf.Legible → exprsBracketing es = exprsBracketing es' →
    exprsLike .shape es es'
  | [], [], _, _, _ => rfl
  | [], _ :: _, _, _, heq | _ :: _, [], _, _, heq => by cases heq
  | e :: es, e' :: es', h, h', heq => by
    obtain ⟨he, hes⟩ := List.cons.inj heq
    obtain ⟨h₁, h₂⟩ := List.forall_append.mp h
    obtain ⟨h₁', h₂'⟩ := List.forall_append.mp h'
    exact ⟨e', es', rfl, e.like_of_bracketing e' h₁ h₁' he,
      exprsLike_of_bracketing es es' h₂ h₂' hes⟩
termination_by structural es => es

/-- A name is a word and the parameters are a list, so that a missing name is told. -/
theorem Function.like_of_parts : (f f' : Function) → {isInitializer : Bool} →
    f.leaves.Forall Leaf.Legible → f'.leaves.Forall Leaf.Legible → f.parts = f'.parts →
    f.Like .shape isInitializer f'
  | ⟨name?, parameters, body, _⟩, ⟨name?', parameters', body', _⟩, _, h, h', heq => by
    have hbody := (List.forall_append.mp (List.forall_append.mp h).2).2
    have hbody' := (List.forall_append.mp (List.forall_append.mp h').2).2
    obtain ⟨hname, hp, hb⟩ : Option.Rel (Name.Like .shape) name? name?' ∧
        parameters.map (word ∘ Name.text) = parameters'.map (word ∘ Name.text) ∧
        stmtsBracketing body = stmtsBracketing body' := by
      cases name? <;> cases name?' <;> simp at heq
      · exact ⟨.none, by simpa using heq⟩
      · exact ⟨.some (Name.like_shape heq.1), by simpa using heq.2⟩
    exact ⟨trivial, _, _, _, _, rfl, hname, forall₂_like_shape hp,
      stmtsLike_of_bracketing body body' hbody hbody' hb, trivial⟩
termination_by structural f => f

/-- Statements with the same words and brackets have the same shape. -/
theorem Stmt.like_of_bracketing : (s s' : Stmt) → s.leaves.Forall Leaf.Legible →
    s'.leaves.Forall Leaf.Legible → s.bracketing = s'.bracketing → s.Like .shape s'
  | .expression e, s', h, h', heq => by
    have hhead := Stmt.head_eq heq
    cases s' with
    | expression e' =>
      simp only [Stmt.bracketing, parts.injEq, List.cons.injEq, true_and, and_true] at heq
      exact ⟨_, rfl, e.like_of_bracketing e' h h' heq⟩
    | _ => simp [Stmt.head] at hhead
  | .print e, s', h, h', heq => by
    have hhead := Stmt.head_eq heq
    cases s' with
    | print e' =>
      simp only [Stmt.bracketing, parts.injEq, List.cons.injEq, true_and, and_true] at heq
      exact ⟨_, rfl, e.like_of_bracketing e' h h' heq⟩
    | _ => simp [Stmt.head] at hhead
  | .var name none, s', h, h', heq => by
    have hhead := Stmt.head_eq heq
    cases s' with
    | var name' initializer? =>
      cases initializer? with
      | none =>
        simp only [Stmt.bracketing, parts.injEq, List.cons.injEq, true_and, and_true] at heq
        exact ⟨_, rfl, Name.like_shape (word.inj heq)⟩
      | some => simp at heq
    | _ => simp [Stmt.head] at hhead
  | .var name (some e), s', h, h', heq => by
    have hhead := Stmt.head_eq heq
    cases s' with
    | var name' initializer? =>
      cases initializer? with
      | none => simp at heq
      | some e' =>
        simp only [Stmt.bracketing, parts.injEq, List.cons.injEq, true_and, and_true] at heq
        exact ⟨_, _, rfl, Name.like_shape (word.inj heq.1),
          e.like_of_bracketing e' ((List.forall_cons ..).mp h).2
            ((List.forall_cons ..).mp h').2 heq.2⟩
    | _ => simp [Stmt.head] at hhead
  | .block body, s', h, h', heq => by
    have hhead := Stmt.head_eq heq
    cases s' with
    | block body' =>
      simp only [Stmt.bracketing, parts.injEq, List.cons.injEq, true_and] at heq
      exact ⟨_, rfl, stmtsLike_of_bracketing body body' h h' heq⟩
    | _ => simp [Stmt.head] at hhead
  | .if condition thenBranch none, s', h, h', heq => by
    have hhead := Stmt.head_eq heq
    cases s' with
    | «if» condition' thenBranch' elseBranch? =>
      cases elseBranch? with
      | none =>
        simp only [Stmt.bracketing, parts.injEq, List.cons.injEq, true_and, and_true] at heq
        obtain ⟨h₁, h₂⟩ := List.forall_append.mp h
        obtain ⟨h₁', h₂'⟩ := List.forall_append.mp h'
        exact ⟨_, _, rfl, condition.like_of_bracketing condition' h₁ h₁' heq.1,
          thenBranch.like_of_bracketing thenBranch' h₂ h₂' heq.2⟩
      | some => simp at heq
    | _ => simp [Stmt.head] at hhead
  | .if condition thenBranch (some elseBranch), s', h, h', heq => by
    have hhead := Stmt.head_eq heq
    cases s' with
    | «if» condition' thenBranch' elseBranch? =>
      cases elseBranch? with
      | none => simp at heq
      | some elseBranch' =>
        simp only [Stmt.bracketing, parts.injEq, List.cons.injEq, true_and, and_true] at heq
        obtain ⟨h₁, h⟩ := List.forall_append.mp h
        obtain ⟨h₂, h₃⟩ := List.forall_append.mp h
        obtain ⟨h₁', h'⟩ := List.forall_append.mp h'
        obtain ⟨h₂', h₃'⟩ := List.forall_append.mp h'
        exact ⟨_, _, _, rfl, condition.like_of_bracketing condition' h₁ h₁' heq.1,
          thenBranch.like_of_bracketing thenBranch' h₂ h₂' heq.2.1,
          elseBranch.like_of_bracketing elseBranch' h₃ h₃' heq.2.2⟩
    | _ => simp [Stmt.head] at hhead
  | .while condition body none, s', h, h', heq => by
    have hhead := Stmt.head_eq heq
    cases s' with
    | «while» condition' body' increment? =>
      cases increment? with
      | none =>
        simp only [Stmt.bracketing, parts.injEq, List.cons.injEq, true_and, and_true] at heq
        obtain ⟨h₁, h₂⟩ := List.forall_append.mp h
        obtain ⟨h₁', h₂'⟩ := List.forall_append.mp h'
        exact ⟨_, _, rfl, condition.like_of_bracketing condition' h₁ h₁' heq.1,
          body.like_of_bracketing body' h₂ h₂' heq.2⟩
      | some => simp at heq
    | _ => simp [Stmt.head] at hhead
  | .while condition body (some increment), s', h, h', heq => by
    have hhead := Stmt.head_eq heq
    cases s' with
    | «while» condition' body' increment? =>
      cases increment? with
      | none => simp at heq
      | some increment' =>
        simp only [Stmt.bracketing, parts.injEq, List.cons.injEq, true_and, and_true] at heq
        obtain ⟨h₁, h⟩ := List.forall_append.mp h
        obtain ⟨h₂, h₃⟩ := List.forall_append.mp h
        obtain ⟨h₁', h'⟩ := List.forall_append.mp h'
        obtain ⟨h₂', h₃'⟩ := List.forall_append.mp h'
        exact ⟨_, _, _, rfl, condition.like_of_bracketing condition' h₁ h₁' heq.1,
          body.like_of_bracketing body' h₂ h₂' heq.2.1,
          increment.like_of_bracketing increment' h₃ h₃' heq.2.2⟩
    | _ => simp [Stmt.head] at hhead
  | .function f, s', h, h', heq => by
    have hhead := Stmt.head_eq heq
    cases s' with
    | function f' =>
      simp only [Stmt.bracketing, parts.injEq, List.cons.injEq, true_and] at heq
      exact ⟨_, rfl, f.like_of_parts f' h h' heq⟩
    | _ => simp [Stmt.head] at hhead
  | .class c, s', h, h', heq => by
    have hhead := Stmt.head_eq heq
    cases s' with
    | «class» c' =>
      simp only [Stmt.bracketing, parts.injEq, List.cons.injEq, true_and] at heq
      exact ⟨_, rfl, c.like_of_parts c' h h' heq⟩
    | _ => simp [Stmt.head] at hhead
  | .return _ none, s', h, h', heq => by
    have hhead := Stmt.head_eq heq
    cases s' with
    | «return» _ value? =>
      cases value? with
      | none => exact ⟨_, rfl, trivial⟩
      | some => simp at heq
    | _ => simp [Stmt.head] at hhead
  | .return _ (some e), s', h, h', heq => by
    have hhead := Stmt.head_eq heq
    cases s' with
    | «return» _ value? =>
      cases value? with
      | none => simp at heq
      | some e' =>
        simp only [Stmt.bracketing, parts.injEq, List.cons.injEq, true_and, and_true] at heq
        exact ⟨_, _, rfl, trivial, e.like_of_bracketing e' h h' heq⟩
    | _ => simp [Stmt.head] at hhead
  | .break _, s', _, _, heq => by
    have hhead := Stmt.head_eq heq
    cases s' with
    | «break» => exact ⟨_, rfl, trivial⟩
    | _ => simp [Stmt.head] at hhead
  | .continue _, s', _, _, heq => by
    have hhead := Stmt.head_eq heq
    cases s' with
    | «continue» => exact ⟨_, rfl, trivial⟩
    | _ => simp [Stmt.head] at hhead
termination_by structural s => s

theorem stmtsLike_of_bracketing : (ss ss' : List Stmt) → (stmtsLeaves ss).Forall Leaf.Legible →
    (stmtsLeaves ss').Forall Leaf.Legible → stmtsBracketing ss = stmtsBracketing ss' →
    stmtsLike .shape ss ss'
  | [], [], _, _, _ => rfl
  | [], _ :: _, _, _, heq | _ :: _, [], _, _, heq => by cases heq
  | s :: ss, s' :: ss', h, h', heq => by
    obtain ⟨hs, hss⟩ := List.cons.inj heq
    obtain ⟨h₁, h₂⟩ := List.forall_append.mp h
    obtain ⟨h₁', h₂'⟩ := List.forall_append.mp h'
    exact ⟨s', ss', rfl, s.like_of_bracketing s' h₁ h₁' hs,
      stmtsLike_of_bracketing ss ss' h₂ h₂' hss⟩
termination_by structural ss => ss

theorem Class.like_of_parts : (c c' : Class) → c.leaves.Forall Leaf.Legible →
    c'.leaves.Forall Leaf.Legible → c.parts = c'.parts → c.Like .shape c'
  | ⟨_, superclass?, methods, getters⟩, ⟨_, superclass?', methods', getters'⟩, h, h', heq => by
    obtain ⟨-, hmembers⟩ := List.forall_append.mp ((List.forall_cons ..).mp h).2
    obtain ⟨-, hmembers'⟩ := List.forall_append.mp ((List.forall_cons ..).mp h').2
    obtain ⟨hm, hg⟩ := List.forall_append.mp hmembers
    obtain ⟨hm', hg'⟩ := List.forall_append.mp hmembers'
    obtain ⟨hname, hrest⟩ := List.cons.inj heq
    obtain ⟨hsuper, hsame⟩ : Option.Rel (Occurrence.Like .shape) superclass? superclass?' ∧
        functionsBracketing "method" methods ++ functionsBracketing "get" getters =
          functionsBracketing "method" methods' ++ functionsBracketing "get" getters' := by
      cases superclass? with
      | none =>
        cases superclass?' with
        | none => exact ⟨.none, hrest⟩
        | some o' => exact (superclass_ne_members _ _ _ _ hrest.symm).elim
      | some o =>
        cases superclass?' with
        | none => exact (superclass_ne_members _ _ _ _ hrest).elim
        | some o' =>
          obtain ⟨ho, hrest⟩ := List.cons.inj hrest
          exact ⟨.some (Occurrence.like_shape (by simpa using ho)), hrest⟩
    obtain ⟨hmethods, hgetters⟩ := functionsBracketing_inj hsame
    exact ⟨_, _, _, _, rfl, Name.like_shape (word.inj hname), hsuper,
      functionsLike_of_bracketing methods methods' hm hm' hmethods,
      functionsLike_of_bracketing getters getters' hg hg' hgetters⟩
termination_by structural c => c

theorem functionsLike_of_bracketing : (fs fs' : List Function) → {head : String} →
    {isInitializer : Function → Bool} → (functionsLeaves fs).Forall Leaf.Legible →
    (functionsLeaves fs').Forall Leaf.Legible →
    functionsBracketing head fs = functionsBracketing head fs' →
    functionsLike .shape isInitializer fs fs'
  | [], [], _, _, _, _, _ => rfl
  | [], _ :: _, _, _, _, _, heq | _ :: _, [], _, _, _, _, heq => by cases heq
  | f :: fs, f' :: fs', _, _, h, h', heq => by
    obtain ⟨hf, hfs⟩ := List.cons.inj heq
    obtain ⟨h₁, h₂⟩ := List.forall_append.mp h
    obtain ⟨h₁', h₂'⟩ := List.forall_append.mp h'
    simp only [parts.injEq, List.cons.injEq, true_and] at hf
    exact ⟨f', fs', rfl, f.like_of_parts f' h₁ h₁' hf,
      functionsLike_of_bracketing fs fs' h₂ h₂' hfs⟩
termination_by structural fs => fs

end

/-- Statements that are printed alike have the same words and brackets. -/
theorem stmtsBracketing_inj (ss ss' : List Stmt) (h : (stmtsLeaves ss).Forall Leaf.Legible)
    (h' : (stmtsLeaves ss').Forall Leaf.Legible)
    (heq : ss.map Stmt.bracketed = ss'.map Stmt.bracketed) :
    stmtsBracketing ss = stmtsBracketing ss' := by
  induction ss generalizing ss' with
  | nil =>
    obtain rfl := List.map_eq_nil_iff.mp heq.symm
    rfl
  | cons s ss ih =>
    obtain ⟨s', ss', rfl, hs, hss⟩ := List.map_eq_cons_iff.mp heq.symm
    obtain ⟨h₁, h₂⟩ := List.forall_append.mp h
    obtain ⟨h₁', h₂'⟩ := List.forall_append.mp h'
    rw [← s.text_bracketing, ← s'.text_bracketing] at hs
    have hword := Bracketing.text_inj (s'.proper_bracketing h₁') (s.proper_bracketing h₁) hs
    rw [stmtsBracketing, stmtsBracketing, hword, ih ss' h₂ h₂' hss.symm]

/-- Whether a name is an identifier and a number a number, as those of tokens are. -/
def Leaf.Spelled : Leaf → Prop
  | .name text => Lexeme text.toList .identifier
  | .literal (.number x) => Decimal.Reading.ofFloat x ≠ .nan
  | .literal _ => True

/-- Whether what is there is neither a string nor an infinite number. -/
def Leaf.Tells : Leaf → Prop
  | .literal (.number x) => x.isInf = false
  | .literal (.string _) => False
  | .name _ | .literal (.bool _) | .literal .nil => True

instance : DecidablePred Leaf.Tells
  | .literal (.number x) => inferInstanceAs (Decidable (x.isInf = false))
  | .literal (.string _) => .isFalse id
  | .name _ | .literal (.bool _) | .literal .nil => .isTrue trivial

theorem Leaf.legible {l : Leaf} (h : l.Spelled) (htells : l.Tells) : l.Legible := by
  cases l with
  | name => exact h
  | literal v =>
    cases v with
    | number x =>
      cases hx : Decimal.Reading.ofFloat x with
      | nan => exact (h hx).elim
      | infinite =>
        have hinf := Decimal.Reading.isInf_of_infinite hx
        rw [Tells, hinf] at htells
        cases htells
      | finite negative v => exact ⟨negative, v, hx⟩
    | string => exact htells
    | _ => trivial

theorem Leaf.Scanned.spelled {l : Leaf} (h : l.Scanned) : l.Spelled := by
  cases h with
  | name h => exact h
  | number hx => exact number_ne_nan (.number hx)
  | _ => trivial

namespace Program

theorem spelled_of_ofSource {firstId : Nat} {source : String} {p : Program}
    (h : ofSource firstId source = .ok p) : (stmtsLeaves p.statements).Forall Leaf.Spelled := by
  have hscanned := scanned_of_ofSource h
  rw [List.forall_iff_forall_mem] at hscanned ⊢
  exact fun l hl => (hscanned l hl).spelled

theorem legible_of_ofSource {firstId : Nat} {source : String} {p : Program}
    (h : ofSource firstId source = .ok p) (htells : (stmtsLeaves p.statements).Forall Leaf.Tells) :
    (stmtsLeaves p.statements).Forall Leaf.Legible := by
  have hspelled := spelled_of_ofSource h
  rw [List.forall_iff_forall_mem] at hspelled htells ⊢
  exact fun l hl => Leaf.legible (hspelled l hl) (htells l hl)

/-- Programs without strings and infinite numbers whose statements are printed alike, one by one,
are the same but for their lines and the numbers of their occurrences. -/
theorem like_of_bracketed {a b : Nat} {source source' : String} {p q : Program}
    (hp : ofSource a source = .ok p) (hq : ofSource b source' = .ok q)
    (htells : (stmtsLeaves p.statements).Forall Leaf.Tells)
    (htells' : (stmtsLeaves q.statements).Forall Leaf.Tells)
    (h : p.statements.map Stmt.bracketed = q.statements.map Stmt.bracketed) :
    stmtsLike .shape p.statements q.statements := by
  have hl := legible_of_ofSource hp htells
  have hl' := legible_of_ofSource hq htells'
  exact stmtsLike_of_bracketing _ _ hl hl' (stmtsBracketing_inj _ _ hl hl' h)

/-- Names are not taken for what brackets begin with. -/
theorem like_of_bracketed_getter :
    ∃ p q, ofSource 0 "class A < B \x7b get \x7b return call = 2.5; \x7d \x7d" = .ok p ∧
      ofSource 7 "class A<B\n\x7bget\n\x7breturn call=2.50;\x7d\n\x7d" = .ok q ∧
      (stmtsLeaves p.statements).Forall Leaf.Tells ∧
      (stmtsLeaves q.statements).Forall Leaf.Tells ∧
      p.statements.map Stmt.bracketed =
        ["(class A (< B) (get get () (block (return (= call 2.5)))))"] ∧
      q.statements.map Stmt.bracketed = p.statements.map Stmt.bracketed ∧
      p.nextId ≠ q.nextId ∧ stmtsLike .shape p.statements q.statements := by
  have hp : (ofSource 0 "class A < B \x7b get \x7b return call = 2.5; \x7d \x7d").map (fun p =>
      (p.nextId, p.statements.map Stmt.bracketed,
        decide ((stmtsLeaves p.statements).Forall Leaf.Tells))) =
      .ok (3, ["(class A (< B) (get get () (block (return (= call 2.5)))))"], true) := by
    decide +kernel
  have hq : (ofSource 7 "class A<B\n\x7bget\n\x7breturn call=2.50;\x7d\n\x7d").map (fun q =>
      (q.nextId, q.statements.map Stmt.bracketed,
        decide ((stmtsLeaves q.statements).Forall Leaf.Tells))) =
      .ok (10, ["(class A (< B) (get get () (block (return (= call 2.5)))))"], true) := by
    decide +kernel
  obtain ⟨p, hp, hread⟩ := exists_of_map_eq_ok hp
  obtain ⟨q, hq, hread'⟩ := exists_of_map_eq_ok hq
  simp only [Prod.mk.injEq, decide_eq_true_eq] at hread hread'
  obtain ⟨hid, htext, htells⟩ := hread
  obtain ⟨hid', htext', htells'⟩ := hread'
  have hsame : q.statements.map Stmt.bracketed = p.statements.map Stmt.bracketed :=
    htext'.trans htext.symm
  refine ⟨p, q, hp, hq, htells, htells', htext, hsame, by omega, ?_⟩
  exact like_of_bracketed hp hq htells htells' hsame.symm

end Program

end LoxLang
