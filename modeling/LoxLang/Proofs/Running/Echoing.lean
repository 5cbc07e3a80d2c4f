import LoxLang.Proofs.Grammar.Joining
import LoxLang.Proofs.Grammar.Recovery
import LoxLang.Proofs.Token.Spacing
import LoxLang.Session

/-!
Lines that print their value. The keyword `print` and a space in front of a text are one more token,
and an expression behind that token is read as it is in a statement of its own. So a line that is
one expression does what the program does that prints it, and every other line does what a program
does.
-/

namespace LoxLang

/-- A token with a space behind it is scanned as itself, in front of whatever text. -/
theorem scanFrom_lexeme {cs : List Char} {kind : Kind} (h : Lexeme cs kind) (line : Nat)
    (rest : List Char) :
    let last := line + lineBreaks cs
    scanFrom [] line (cs ++ ' ' :: rest) =
      Scan.join ⟨[.token ⟨kind, String.ofList cs, last⟩], last⟩ (scanFrom [] last rest) := by
  intro last
  have htile := h.tile (.of_space (c := ' ') rfl rest [])
  have hspace : scanFrom [] last (' ' :: rest) = scanFrom [] last rest := by
    rw [scanFrom]
    rfl
  obtain ⟨c, cs, rfl⟩ := List.exists_cons_of_ne_nil h.ne_nil
  rw [List.cons_append] at htile ⊢
  rw [scanFrom_cons, ← htile.eq_first, hspace]
  rfl

theorem scan_print_append (source : String) : scan ("print " ++ source) =
    Scan.join ⟨[.token ⟨.keyword .print, "print", 1⟩], 1⟩ (scan source) := by
  have htext : ("print " ++ source).toList = Keyword.print.text.toList ++ ' ' :: source.toList := by
    rw [String.toList_append]
    rfl
  rw [scan, htext, scanFrom_lexeme (.keyword .print)]
  rfl

namespace Parser

variable {fuel : Nat} {c c₁ : Cursor} {t r : Token} {ts rest : List Token} {e : Expr} {s : Stmt}

/-- A declaration that takes all tokens is the whole program. -/
theorem program_of_declared (hc : c.tokens ≠ []) (hd : declared fuel c = .ok s c₁)
    (h₁ : c₁.tokens = []) : program (fuel + 2) [] c = .ok [s] c₁ := by
  have hdeclaration : declaration (fuel + 1) c = .ok (some s) c₁ := by
    rw [declaration, recovering, hd]
  rw [program_cons hc, Fueled.bind_ok hdeclaration]
  exact program_nil h₁

/-- Tokens that begin like an expression are read as an expression statement. A `fun` among them
has its parentheses next, and so begins no declaration. -/
theorem declared_of_opensExpression (ho : OpensExpression c.tokens) :
    declared (fuel + 2) c = expressionStatement fuel c := by
  have hstatement : statement (fuel + 1) c = expressionStatement fuel c := by
    obtain ⟨t, us, hc, ho, -⟩ := ho.cons_of
    rw [statement, Fueled.bind_get, hc]
    change EStateM.run _ c = _
    split
    all_goals first | rfl | simp [*, Kind.opensExpression] at ho
  rw [declared, Fueled.bind_get]
  change EStateM.run _ c = _
  split
  · rename_i ht
    simp [ht, OpensExpression, Kind.opensExpression] at ho
  · rename_i ht
    simp [ht, OpensExpression, Kind.opensExpression] at ho
  · rename_i ht
    simp [ht, OpensExpression, Kind.opensExpression] at ho
  · exact hstatement

theorem declared_of_print (hc : c.tokens = t :: ts) (ht : t.kind = .keyword .print) :
    declared (fuel + 2) c = printStatement fuel { c with tokens := ts } := by
  obtain ⟨_, lexeme, line⟩ := t
  obtain rfl := ht
  have hstatement : statement (fuel + 1) c = printStatement fuel { c with tokens := ts } := by
    rw [statement, Fueled.bind_get, hc]
    exact Fueled.bind_ok (skip_eq hc)
  rw [declared, Fueled.bind_get, hc]
  exact hstatement

/-- A statement of an expression and a token that ends it. -/
theorem expression_ended (what : Expectation) (statement : Expr → Stmt)
    (he : expression fuel c = .ok e c₁) (h₁ : c₁.tokens = r :: rest) (hr : r.kind = what.wanted) :
    (do
      let e ← expression fuel
      let _ ← expect what
      return statement e : Parser Stmt) c = .ok (statement e) { c₁ with tokens := rest } := by
  rw [Fueled.bind_ok he, Fueled.bind_ok (expect_eq h₁ hr)]
  rfl

end Parser

namespace Derives

variable {ts : List Token} {e : Expr} {s : Stmt}

theorem of_singleton (h : Derives .declarations ts [s]) : Derives .declaration ts s := by
  cases h with
  | moreDeclarations h h' =>
    cases h'
    rwa [List.append_nil]

theorem expression_of_declaration (h : Derives .declaration ts (.expression e)) :
    ∃ us r, ts = us ++ [r] ∧ r.kind = .symbol .semicolon ∧ Derives .expression us e := by
  generalize hs : Stmt.expression e = s at h
  cases h with
  | variableDeclaration _ h => cases h <;> cases hs
  | statement h =>
    cases h with
    | expressionStatement hr h =>
      cases hs
      exact ⟨_, _, rfl, hr, h⟩
    | @«for» _ _ _ _ start? => cases start? <;> cases hs
    | _ => cases hs
  | _ => cases hs

theorem expression_of_print (h : Derives .declaration ts (.print e)) :
    ∃ t us r, ts = t :: (us ++ [r]) ∧ r.kind = .symbol .semicolon ∧ Derives .expression us e := by
  generalize hs : Stmt.print e = s at h
  cases h with
  | variableDeclaration _ h => cases h <;> cases hs
  | statement h =>
    cases h with
    | print _ hr h =>
      cases hs
      exact ⟨_, _, _, rfl, hr, h⟩
    | @«for» _ _ _ _ start? => cases start? <;> cases hs
    | _ => cases hs
  | _ => cases hs

end Derives

namespace Program

variable {a endLine n : Nat} {source : String} {e : Expr} {r t : Token} {ts us : List Token}

/-- An expression is read as the same tree in a statement of its own and behind `print`. -/
theorem exists_ofTokens_print (a endLine : Nat) (h : Derives .expression us e)
    (hr : r.kind = .symbol .semicolon) (ht : t.kind = .keyword .print) : ∃ e' n,
      ofTokens a (us ++ [r]) endLine = .ok ⟨[.expression e'], n⟩ ∧
      ofTokens a (t :: (us ++ [r])) endLine = .ok ⟨[.print e'], n⟩ := by
  obtain ⟨e', c, he, hc, herrors, -⟩ := (Complete.of_fuel (32 * us.length + 20)).expression h
    ⟨us ++ [r], endLine, a, []⟩ [r] rfl (.cons (by rw [hr]; decide)) (Nat.le_refl _)
  have hmore {fuel : Nat} (hn : 32 * us.length + 20 ≤ fuel) :
      Parser.expression fuel ⟨us ++ [r], endLine, a, []⟩ = .ok e' c :=
    (Parser.carrying hn).expression.eq_ok he
  refine ⟨e', c.nextId, ?_, ?_⟩
  · have hfuel : fuelFor (us ++ [r]).length = 32 * us.length + 59 + 5 := by
      simp only [fuelFor, List.length_append, List.length_singleton]
      omega
    refine ofTokens_eq_ok (c := { c with tokens := [] }) ?_ herrors
    rw [hfuel]
    refine Parser.program_of_declared (by simp) ?_ rfl
    rw [Parser.declared_of_opensExpression (h.opens.append [r]), Parser.expressionStatement]
    exact Parser.expression_ended .expressionEnd .expression (hmore (by omega)) hc hr
  · have hfuel : fuelFor (t :: (us ++ [r])).length = 32 * us.length + 91 + 5 := by
      simp only [fuelFor, List.length_cons, List.length_append, List.length_nil]
      omega
    refine ofTokens_eq_ok (c := { c with tokens := [] }) ?_ herrors
    rw [hfuel]
    refine Parser.program_of_declared (by simp) ?_ rfl
    rw [Parser.declared_of_print rfl ht, Parser.printStatement]
    exact Parser.expression_ended .printEnd .print (hmore (by omega)) hc hr

theorem ofTokens_print_iff (ht : t.kind = .keyword .print) :
    ofTokens a (t :: ts) endLine = .ok ⟨[.print e], n⟩ ↔
      ofTokens a ts endLine = .ok ⟨[.expression e], n⟩ := by
  constructor
  · intro h
    obtain ⟨_, us, r, hts, hr, hd⟩ := (ofTokens_ok h).1.of_singleton.expression_of_print
    obtain ⟨rfl, rfl⟩ := List.cons.inj hts
    obtain ⟨e', n', he, hp⟩ := exists_ofTokens_print a endLine hd hr ht
    cases hp.symm.trans h
    exact he
  · intro h
    obtain ⟨us, r, rfl, hr, hd⟩ := (ofTokens_ok h).1.of_singleton.expression_of_declaration
    obtain ⟨e', n', he, hp⟩ := exists_ofTokens_print a endLine hd hr ht
    cases he.symm.trans h
    exact hp

/-- Behind `print` a text is the program that prints an expression just if it is that expression as
a statement, and with the same numbers. -/
theorem ofSource_print_iff : ofSource a ("print " ++ source) = .ok ⟨[.print e], n⟩ ↔
    ofSource a source = .ok ⟨[.expression e], n⟩ := by
  rw [ofSource_eq_ok, ofSource_eq_ok, scan_print_append]
  exact and_congr_right' (ofTokens_print_iff rfl)

/-- Whether a text is one expression statement. -/
def isExpression (source : String) : Bool :=
  match ofSource 0 source with
  | .ok ⟨[.expression _], _⟩ => true
  | _ => false

theorem expression_of_renumbered (h : ofSource a source = .ok ⟨[.expression e], n⟩) (b : Nat) :
    ∃ e' n', ofSource b source = .ok ⟨[.expression e'], n'⟩ := by
  have hlike : ReadAlike (.renumbering a b Eq) (ofSource a source) (ofSource b source) :=
    ofSource_like (Likeness.renumbering_counts a b Eq) (fun _ => rfl) ⟨0, rfl, rfl⟩ source
  rw [h] at hlike
  match hb : ofSource b source, hlike with
  | .ok ⟨ss, n'⟩, hlike =>
    obtain ⟨_, _, rfl, ⟨e', rfl, -⟩, rfl⟩ := hlike.1
    exact ⟨e', n', rfl⟩

/-- It does not matter where the numbers of occurrences begin. -/
theorem isExpression_iff (a : Nat) : isExpression source = true ↔
    ∃ e n, ofSource a source = .ok ⟨[.expression e], n⟩ := by
  unfold isExpression
  constructor
  · intro h
    split at h
    · exact expression_of_renumbered ‹_› a
    · cases h
  · rintro ⟨e, n, h⟩
    obtain ⟨e', n', h'⟩ := expression_of_renumbered h 0
    rw [h']

/-- A line may begin with a function that has no name. -/
example : isExpression "/* g */ fun (x) {};" = true ∧ isExpression "fun f(x) {}" = false := by
  decide +kernel

end Program

namespace Session

theorem echoing_of_ne {ss : List Stmt} (h : ∀ e, ss ≠ [.expression e]) : echoing ss = ss := by
  unfold echoing
  split
  · exact absurd rfl (h _)
  · rfl

/-- In every session a line that is one expression statement does what the program does that has
`print` in front of it, and every other line, also one with errors, does what a program does. The
outcomes are the same and so are the sessions behind them. -/
theorem runLine_eq_run (fuel : Nat) (s : Session) (source : String) :
    s.runLine fuel source =
      s.run fuel (if Program.isExpression source then "print " ++ source else source) := by
  split
  · rename_i h
    obtain ⟨e, n, he⟩ := (Program.isExpression_iff s.nextId).mp h
    rw [runLine, run, he, Program.ofSource_print_iff.mpr he]
    rfl
  · rename_i h
    rw [Program.isExpression_iff s.nextId] at h
    rw [runLine, run]
    cases hs : Program.ofSource s.nextId source with
    | error errors => rfl
    | ok p =>
      have hsame : echoing p.statements = p.statements :=
        echoing_of_ne fun e he => h ⟨e, p.nextId, by rw [hs, ← he]⟩
      dsimp only
      rw [hsame]

/-- A line that calls a function shows what the function prints, and then the value of the call. -/
theorem runLine_eq_run_value : ∃ s,
    (start 1024 [] .open fun _ => 0).runLine 50 "fun () \x7b print true; \x7d();" =
      some (⟨"true\nnil\n", []⟩, s) ∧
    (start 1024 [] .open fun _ => 0).run 50 ("print " ++ "fun () \x7b print true; \x7d();") =
      some (⟨"true\nnil\n", []⟩, s) := by
  have hline := runLine_eq_run 50 (start 1024 [] .open fun _ => 0)
    "fun () \x7b print true; \x7d();"
  have hexpression : Program.isExpression "fun () \x7b print true; \x7d();" = true := by
    decide +kernel
  have hshows : ((start 1024 [] .open fun _ => 0).runLine 50
      "fun () \x7b print true; \x7d();").map (·.1) = some ⟨"true\nnil\n", []⟩ := by
    decide +kernel
  rw [if_pos hexpression] at hline
  obtain ⟨⟨_, s⟩, hrun, rfl⟩ := Option.map_eq_some_iff.mp hshows
  exact ⟨s, hrun, hline.symm.trans hrun⟩

end Session

end LoxLang
