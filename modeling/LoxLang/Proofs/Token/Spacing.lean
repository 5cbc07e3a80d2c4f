import LoxLang.Proofs.Grammar.Renumbering
import LoxLang.Proofs.Token.Separating

/-!
The tokens of a text, written with single spaces between them. They are read as they were, so that a
text says no more than its tokens do: comments, blanks and faults are nothing to the parser.
-/

namespace LoxLang

/-- No token begins like a blank or a comment. -/
theorem Lexeme.not_opensBlank {cs : List Char} {kind : Kind} (h : Lexeme cs kind) :
    ¬ OpensBlank cs := by
  obtain ⟨c, cs, rfl⟩ := List.exists_cons_of_ne_nil h.ne_nil
  rcases h.sorts with ⟨s, t, hs, ht, -⟩ | ⟨hd, -⟩ | ⟨hw, -⟩ | ⟨rfl, -⟩
  · by_cases hc : c = '/'
    · have hnil : cs = [] := by
        subst hc
        cases s <;> cases hs
        rfl
      subst hc hnil
      simp [OpensBlank, isSpace]
    · exact LoxLang.not_opensBlank (Symbol.plain_of_ofChar? ht).1 hc
  · have hsolid := h.solid (by rintro rfl; cases hd)
    refine LoxLang.not_opensBlank ?_ (by rintro rfl; cases hd)
    simpa using hsolid c List.mem_cons_self
  · have hsolid := h.solid (by rintro rfl; cases hw)
    refine LoxLang.not_opensBlank ?_ (by rintro rfl; cases hw)
    simpa using hsolid c List.mem_cons_self
  · exact LoxLang.not_opensBlank rfl (by decide)

/-- A token is read as it is in front of the end of the text or a space. -/
theorem Lexeme.tile {cs rest : List Char} {kind : Kind} (h : Lexeme cs kind)
    (hw : Within rest []) : Tile (cs ++ rest) ⟨cs, rest, .token kind⟩ := by
  have halone : Tile (cs ++ []) ⟨cs, [], .token kind⟩ := by
    apply Tile.token _ h
    · intro p k hpre _
      rw [List.append_nil] at hpre
      exact hpre.length_le
    · rw [List.append_nil]
      exact h.not_opensBlank
  exact halone.of_within ⟨by simp, by simp⟩ hw (by simp)

/-- The text of a token in a scan is one of its kind. -/
theorem lexeme_of_mem_scan {source : String} {t : Token} (h : t ∈ (scan source).tokens) :
    Lexeme t.lexeme.toList t.kind := by
  obtain ⟨i, hi, ht⟩ := List.mem_filterMap.mp h
  cases i with
  | fault => cases ht
  | token u =>
    cases ht
    rcases mem_scanFrom hi with hi | ⟨c, cs, first, last, hi⟩
    · cases hi
    · have htile := Tile.first c cs
      generalize c :: cs = text, Stretch.first c cs = s at htile hi
      cases htile with
      | token _ hk _ =>
        cases hi
        rwa [String.toList_ofList]
      | _ => cases hi

/-- Tokens with single spaces between them are read as themselves, on whatever lines. -/
theorem exists_tiling_spaced : (ts : List Token) → (∀ t ∈ ts, Lexeme t.lexeme.toList t.kind) →
    ∃ tiles, Tiling (" ".intercalate (ts.map Token.lexeme)).toList tiles ∧
      ∀ line, ∃ us, tileItems line tiles = us.map .token ∧
        List.Forall₂ (Token.Like fun _ _ => True) ts us
  | [], _ => ⟨[], .nil, fun _ => ⟨[], rfl, .nil⟩⟩
  | [t], h => by
    have htile := (h t List.mem_cons_self).tile (.nil [])
    rw [List.append_nil] at htile
    rw [List.map_singleton, String.intercalate_singleton]
    exact ⟨_, .cons htile .nil,
      fun line => ⟨[_], rfl, .cons ⟨rfl, String.ofList_toList, trivial⟩ .nil⟩⟩
  | t :: u :: ts, h => by
    rw [List.forall_mem_cons] at h
    obtain ⟨tiles, htiles, hitems⟩ := exists_tiling_spaced (u :: ts) h.2
    have htext : (" ".intercalate ((t :: u :: ts).map Token.lexeme)).toList =
        t.lexeme.toList ++ ' ' :: (" ".intercalate ((u :: ts).map Token.lexeme)).toList := by
      rw [List.map_cons, List.map_cons, String.intercalate_cons_cons]
      simp
    have htile := h.1.tile (Within.of_space (c := ' ') rfl
      (" ".intercalate ((u :: ts).map Token.lexeme)).toList [])
    rw [htext]
    refine ⟨_, .cons htile (.cons (.space rfl) htiles), fun line => ?_⟩
    obtain ⟨us, hus, hlike⟩ := hitems (line + lineBreaks t.lexeme.toList + lineBreaks [' '])
    exact ⟨_ :: us, congrArg (List.cons _) hus, .cons ⟨rfl, String.ofList_toList, trivial⟩ hlike⟩

/-- A text without lexical errors is parsed as its tokens are. -/
theorem Program.ofSource_eq_ofTokens {source : String} (h : (scan source).errors = [])
    (firstId : Nat) : ofSource firstId source =
      ofTokens firstId (scan source).tokens (scan source).endLine := by
  unfold ofSource
  dsimp only
  rw [h]
  cases ofTokens firstId (scan source).tokens (scan source).endLine <;> rfl

/-- The tokens of a text with single spaces between them are scanned without errors as tokens of the
same kinds with the same texts, and parsed as the same tree or with the same errors, up to lines and
the numbers of occurrences. -/
theorem scan_spaced (source : String) :
    let tokens := (scan source).tokens
    let text := " ".intercalate (tokens.map Token.lexeme)
    Scanner.Scans source (scan source) ∧
      (∃ s, Scanner.Scans text s ∧ s.errors = [] ∧
        s.tokens.map (fun t => (t.kind, t.lexeme)) = tokens.map fun t => (t.kind, t.lexeme)) ∧
      ∀ a b, Program.ReadAlike (.renumbering a b fun _ _ => True)
        (Program.ofTokens a tokens (scan source).endLine) (Program.ofSource b text) := by
  intro tokens text
  obtain ⟨tiles, htiles, hitems⟩ := exists_tiling_spaced tokens fun t => lexeme_of_mem_scan
  obtain ⟨us, hus, hlike⟩ := hitems 1
  have hscan : (scan text).items = us.map .token :=
    (congrArg Scan.items (htiles.scanned 1)).trans hus
  have htokens : (scan text).tokens = us := by simp [Scan.tokens, hscan, List.filterMap_map]
  have herrors : (scan text).errors = [] := by simp [Scan.errors, hscan, List.filterMap_map]
  refine ⟨Scanner.scans_iff.mpr rfl, ⟨scan text, Scanner.scans_iff.mpr rfl, herrors, ?_⟩, ?_⟩
  · rw [htokens, ← List.forall₂_eq_eq_eq, List.forall₂_map_left_iff, List.forall₂_map_right_iff]
    exact (List.Forall₂.flip hlike).imp fun _ _ ht => Prod.ext ht.kind ht.lexeme
  · intro a b
    have halike : Program.ReadAlike (.renumbering a b fun _ _ => True)
        (Program.ofTokens a tokens (scan source).endLine)
        (Program.ofTokens b us (scan text).endLine) :=
      Program.ofTokens_like (Likeness.renumbering_counts a b _) ⟨0, rfl, rfl⟩ hlike trivial
    rwa [← htokens, ← Program.ofSource_eq_ofTokens herrors b] at halike

/-- An expression is missing behind a comment and a stray character, which are left out. -/
theorem scan_spaced_print : ∃ s errors,
    Scanner.Scans "print ;" s ∧ s.errors = [] ∧
    s.tokens.map (fun t => (t.kind, t.lexeme)) =
      [(.keyword .print, "print"), (.symbol .semicolon, ";")] ∧
    Program.ofTokens 0 (scan "print // none\n@;").tokens (scan "print // none\n@;").endLine =
      .error [.grammar 2 (some ";") .expectedExpression] ∧
    Program.ofSource 0 "print ;" = .error errors ∧
    List.Forall₂ (Diagnostic.Like fun _ _ => True)
      [.grammar 2 (some ";") .expectedExpression] errors := by
  have hscan : scan "print // none\n@;" =
      ⟨[.token ⟨.keyword .print, "print", 1⟩, .fault 2 (.unexpectedCharacter '@'),
        .token ⟨.symbol .semicolon, ";", 2⟩], 2⟩ := by
    decide +kernel
  have htext : " ".intercalate ((scan "print // none\n@;").tokens.map Token.lexeme) =
      "print ;" := by
    rw [hscan]
    rfl
  have hlexemes : (scan "print // none\n@;").tokens.map (fun t => (t.kind, t.lexeme)) =
      [(.keyword .print, "print"), (.symbol .semicolon, ";")] := by
    rw [hscan]
    rfl
  have hfails : Program.ofTokens 0 (scan "print // none\n@;").tokens
      (scan "print // none\n@;").endLine =
        .error [.grammar 2 (some ";") .expectedExpression] := by
    rw [hscan]
    with_unfolding_all rfl
  obtain ⟨-, ⟨s, hs, hnone, hsame⟩, halike⟩ := scan_spaced "print // none\n@;"
  have halike := halike 0 0
  rw [htext] at hs halike
  rw [hfails] at halike
  cases hread : Program.ofSource 0 "print ;" with
  | ok p =>
    rw [hread] at halike
    exact halike.elim
  | error errors =>
    rw [hread] at halike
    exact ⟨s, errors, hs, hnone, hsame.trans hlexemes, hfails, rfl, halike⟩

end LoxLang
