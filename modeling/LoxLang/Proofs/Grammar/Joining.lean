import LoxLang.Proofs.Grammar.Renumbering
import LoxLang.Proofs.Grammar.StatementCompleteness
import LoxLang.Proofs.Scoping.Forming
import LoxLang.Proofs.Token.Separating

/-!
Programs behind each other. The program of two texts, the second on a new line, is the program of
the first and behind it the program of the second with its lines further on, up to the numbers of
occurrences. In front of a text empty lines move the lines of what is read and nothing else.
-/

namespace LoxLang

/-- Lines that are the same, or as far behind the first `a` lines as behind the first `b`. -/
def Moves (a b n n' : Nat) : Prop :=
  n' = n ∨ ∃ i, n = i + a ∧ n' = i + b

theorem Moves.refl (a b n : Nat) : Moves a b n n :=
  .inl rfl

theorem Moves.moved (a b n : Nat) : Moves a b (n + a) (n + b) :=
  .inr ⟨n, rfl, rfl⟩

theorem Diagnostic.moved_like (a b : Nat) (d : Diagnostic) :
    (d.moved a).Like (Moves a b) (d.moved b) := by
  cases d with
  | lexical => exact .lexical (.moved a b _)
  | grammar => exact .grammar (.moved a b _)
  | scope => exact .scope (.moved a b _)
  | runtime => exact .runtime (.moved a b _)
  | stackOverflow => exact .stackOverflow (.moved a b _)
  | io => exact .io

theorem Scan.moved_like (a b : Nat) (s : Scan) : (s.moved a).Like (Moves a b) (s.moved b) where
  tokens := by
    rw [tokens_moved, tokens_moved, List.forall₂_map_left_iff, List.forall₂_map_right_iff]
    exact List.forall₂_same.mpr fun t _ => ⟨rfl, rfl, .moved a b t.line⟩
  errors := by
    rw [errors_moved, errors_moved, List.forall₂_map_left_iff, List.forall₂_map_right_iff]
    exact List.forall₂_same.mpr fun d _ => d.moved_like a b
  endLine := .moved a b s.endLine

theorem Derives.append {ts us : List Token} {ss tt : List Stmt}
    (h : Derives .declarations ts ss) (h' : Derives .declarations us tt) :
    Derives .declarations (ts ++ us) (ss ++ tt) := by
  induction ss generalizing ts with
  | nil =>
    cases h
    exact h'
  | cons s ss ih =>
    cases h with
    | moreDeclarations h₁ h₂ =>
      rw [List.append_assoc]
      exact .moreDeclarations h₁ (ih h₂)

namespace Program

variable {a b : Nat} {first second source : String} {p q : Program}

theorem ofSource_eq_ok :
    ofSource a source = .ok p ↔ (scan source).errors = [] ∧
      ofTokens a (scan source).tokens (scan source).endLine = .ok p := by
  unfold ofSource
  dsimp only
  cases ofTokens a (scan source).tokens (scan source).endLine with
  | error => simp
  | ok p' => cases (scan source).errors <;> simp

/-- Behind empty lines a text reads as the same program with its lines further on. -/
theorem ofSource_blankLines_like (a b count count' : Nat) (source : String) :
    ReadAlike (.renumbering a b (Moves count count')) (ofSource a (blankLines count ++ source))
      (ofSource b (blankLines count' ++ source)) := by
  refine ofSource_alike (Likeness.renumbering_counts a b (Moves count count')) ⟨0, rfl, rfl⟩ ?_
  rw [scan_blankLines_append, scan_blankLines_append]
  exact (scan source).moved_like count count'

/-- The program of two texts is that of the first, and behind it that of the second. -/
theorem ofSource_append (hp : ofSource a first = .ok p)
    (hq : ofSource b (blankLines (lineBreaks first.toList + 1) ++ second) = .ok q) :
    ∃ r, ofSource a (first ++ "\n" ++ second) = .ok r ∧
      unnumberedStmts r.statements = unnumberedStmts (p.statements ++ q.statements) := by
  obtain ⟨herrors, hp⟩ := ofSource_eq_ok.mp hp
  obtain ⟨herrors', hq⟩ := ofSource_eq_ok.mp hq
  have hscan := scan_append_line (.of_errors herrors) second
  rw [← scan_blankLines_append] at hscan
  have hderives := (ofTokens_ok hp).1.append (ofTokens_ok hq).1
  rw [← Scan.tokens_join, ← hscan] at hderives
  obtain ⟨r, hr, hstatements⟩ := ofTokens_of_derives a (scan (first ++ "\n" ++ second)).endLine
    hderives
  refine ⟨r, ofSource_eq_ok.mpr ⟨?_, hr⟩, hstatements⟩
  rw [hscan, Scan.errors_join, herrors, herrors']
  rfl

end Program

end LoxLang
