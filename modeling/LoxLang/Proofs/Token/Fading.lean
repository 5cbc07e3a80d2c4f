import LoxLang.Proofs.Likeness.StaticFailures
import LoxLang.Proofs.Token.Separating

/-!
Characters that begin nothing. Each of them is a fault, and a space in its place changes nothing
else: it ends what is in front of it as the character did, and nothing goes on behind it.
-/

namespace LoxLang

/-- Whether a stretch is a blank, a comment, a token or left open, and no stray character. -/
def Role.covers : Role → Bool
  | .fault (.unexpectedCharacter _) => false
  | _ => true

/-- The text of a stretch, with a space in place of a stray character. -/
def Stretch.faded (t : Stretch) : List Char :=
  if t.role.covers then t.consumed else t.consumed.map fun _ => ' '

/-- The tiles of a text with a space in place of each stray character. -/
def fadedTiles : List Stretch → List Stretch
  | [] => []
  | t :: ts =>
    ⟨t.faded, ts.flatMap Stretch.faded, if t.role.covers then t.role else .blank⟩ :: fadedTiles ts

/-- The characters that nothing covers, each with its line. -/
def uncovered (line : Nat) : List Stretch → List (Nat × Char)
  | [] => []
  | t :: ts =>
    (if t.role.covers then [] else t.consumed.map (line, ·)) ++
      uncovered (line + lineBreaks t.consumed) ts

/-- A stray character that is reported, with its line. -/
def Item.stray? : Item → Option (Nat × Char)
  | .fault line (.unexpectedCharacter c) => some (line, c)
  | _ => none

/-- A stretch that is no stray character adds none. -/
theorem Stretch.stray?_of_covers {t : Stretch} (h : t.role.covers) (first last : Nat) :
    ∀ i ∈ t.item? first last, i.stray? = none := by
  intro i hi
  unfold Stretch.item? at hi
  cases hr : t.role with
  | blank =>
    rw [hr] at hi
    cases hi
  | token kind =>
    rw [hr] at hi
    cases hi
    rfl
  | fault error =>
    rw [hr] at hi h
    cases error with
    | unexpectedCharacter c => cases h
    | _ =>
      cases hi
      rfl

namespace Tile

variable {text : List Char} {t : Stretch}

/-- A tile that is no stray character, or a single one, which ends no line. -/
theorem covers_or_eq (h : Tile text t) : t.role.covers = true ∨
    ∃ c rest, c ≠ '\n' ∧ t = ⟨[c], rest, .fault (.unexpectedCharacter c)⟩ := by
  cases h with
  | @unexpected c rest hb =>
    refine .inr ⟨c, rest, ?_, rfl⟩
    rintro rfl
    exact not_isSpace_of_not_opensBlank hb rfl
  | _ => exact .inl rfl

theorem lineBreaks_faded (h : Tile text t) : lineBreaks t.faded = lineBreaks t.consumed := by
  rcases h.covers_or_eq with hcovers | ⟨c, rest, hc, rfl⟩
  · rw [Stretch.faded, if_pos hcovers]
  · exact (lineBreaks_of_ne hc).symm

theorem rest_of_not_isClosed (h : Tile text t) (hopen : ¬ t.role.IsClosed) : t.rest = [] := by
  cases h with
  | unclosedComment | unclosedString => rfl
  | _ => exact (hopen ⟨by simp, by simp⟩).elim

end Tile

namespace Tiling

variable {cs : List Char} {ts : List Stretch}

theorem eq_nil (h : Tiling [] ts) : ts = [] := by
  cases h with
  | nil => rfl
  | cons ht => exact (ht.ne_nil rfl).elim

/-- With spaces for stray characters a text goes no further without a blank. -/
theorem within_faded (h : Tiling cs ts) : Within (ts.flatMap Stretch.faded) cs := by
  induction h with
  | nil => exact .nil []
  | @cons text t ts ht _ ih =>
    rw [List.flatMap_cons]
    rcases ht.covers_or_eq with hcovers | ⟨c, rest, -, rfl⟩
    · rw [Stretch.faded, if_pos hcovers, ← ht.consumed_append_rest]
      exact ih.append t.consumed
    · exact .of_space rfl _ _

/-- The line of a comment still ends where it did. -/
theorem faded_line (h : Tiling cs ts) (hline : cs = [] ∨ cs.head? = some '\n') :
    ts.flatMap Stretch.faded = [] ∨ (ts.flatMap Stretch.faded).head? = some '\n' := by
  rcases hline with rfl | hline
  · rw [h.eq_nil]
    exact .inl rfl
  · obtain ⟨rest, rfl⟩ := List.head?_eq_some_iff.mp hline
    cases h with
    | cons ht =>
      rw [ht.eq_first, Stretch.first_space rfl]
      exact .inr rfl

/-- A space in place of each stray character leaves the other tiles as they are. A tile that is left
open takes the rest of the text, so nothing behind it can fade. -/
theorem faded (h : Tiling cs ts) : Tiling (ts.flatMap Stretch.faded) (fadedTiles ts) := by
  induction h with
  | nil => exact .nil
  | @cons text t ts ht hs ih =>
    rw [List.flatMap_cons]
    refine .cons ?_ ih
    rcases ht.covers_or_eq with hcovers | ⟨c, rest, -, rfl⟩
    · rw [Stretch.faded, if_pos hcovers, if_pos hcovers]
      by_cases hclosed : t.role.IsClosed
      · exact ht.of_within hclosed hs.within_faded fun _ => hs.faded_line
      · have hrest := ht.rest_of_not_isClosed hclosed
        rw [hrest] at hs
        rw [hs.eq_nil, List.flatMap_nil, ← hrest, ht.consumed_append_rest]
        exact ht
    · exact .space rfl

/-- The faults for stray characters are gone, and only they. -/
theorem tileItems_faded (h : Tiling cs ts) (line : Nat) :
    tileItems line (fadedTiles ts) =
      (tileItems line ts).filter (·.stray?.isNone) := by
  induction h generalizing line with
  | nil => rfl
  | @cons text t ts ht _ ih =>
    simp only [fadedTiles, tileItems, List.filter_append, ht.lineBreaks_faded, ih]
    congr 1
    rcases ht.covers_or_eq with hcovers | ⟨c, rest, -, rfl⟩
    · have hitems : ∀ i ∈ (t.item? line (line + lineBreaks t.consumed)).toList,
          i.stray?.isNone = true := by
        intro i hi
        rw [Stretch.stray?_of_covers hcovers _ _ i (Option.mem_toList.mp hi)]
        rfl
      rw [Stretch.faded, if_pos hcovers, if_pos hcovers, List.filter_eq_self.mpr hitems]
      rfl
    · rfl

/-- The stray characters that are reported are those that nothing covers. -/
theorem stray_eq_uncovered (h : Tiling cs ts) (line : Nat) :
    (tileItems line ts).filterMap Item.stray? = uncovered line ts := by
  induction h generalizing line with
  | nil => rfl
  | @cons text t ts ht _ ih =>
    simp only [tileItems, uncovered, List.filterMap_append, ih]
    congr 1
    rcases ht.covers_or_eq with hcovers | ⟨c, rest, hc, rfl⟩
    · rw [if_pos hcovers, List.filterMap_eq_nil_iff]
      intro i hi
      exact Stretch.stray?_of_covers hcovers _ _ i (Option.mem_toList.mp hi)
    · simp [Stretch.item?, Item.stray?, Role.covers, lineBreaks_of_ne hc]

theorem lineBreaks_flatMap_faded (h : Tiling cs ts) :
    lineBreaks (ts.flatMap Stretch.faded) = lineBreaks cs := by
  induction h with
  | nil => rfl
  | cons ht _ ih =>
    rw [List.flatMap_cons, lineBreaks_append, ht.lineBreaks_faded, ih, ← lineBreaks_append,
      ht.consumed_append_rest]

end Tiling

namespace Program

/-- The errors in the grammar of a text. -/
def syntaxErrors : Except (List Diagnostic) Program → List Diagnostic
  | .ok _ => []
  | .error errors => errors.filter (·.phase = .parsing)

/-- The errors in the grammar of a text are those of its tokens. -/
theorem syntaxErrors_ofSource (firstId : Nat) (source : String) :
    syntaxErrors (ofSource firstId source) =
      syntaxErrors (ofTokens firstId (scan source).tokens (scan source).endLine) := by
  have hlexical : (scan source).errors.filter (·.phase = .parsing) = [] := by
    apply List.filter_eq_nil_iff.mpr
    intro d hd
    simp [(scan source).phase_of_errors d hd]
  unfold ofSource
  dsimp only
  cases ofTokens firstId (scan source).tokens (scan source).endLine with
  | ok program =>
    dsimp only
    split
    · rfl
    · exact hlexical
  | error errors => simp only [syntaxErrors, List.filter_append, hlexical, List.nil_append]

/-- Where the numbers of occurrences start is nothing to the errors. -/
theorem syntaxErrors_ofTokens (a b : Nat) (ts : List Token) (endLine : Nat) :
    syntaxErrors (ofTokens b ts endLine) = syntaxErrors (ofTokens a ts endLine) := by
  have halike := ofTokens_like (Likeness.renumbering_counts a b Eq) ⟨0, rfl, rfl⟩
    (Token.forall₂_like (fun _ => rfl) ts) (rfl : endLine = endLine)
  match ofTokens a ts endLine, ofTokens b ts endLine, halike with
  | .ok _, .ok _, _ => rfl
  | .error errors, .error errors', h =>
    obtain rfl : errors' = errors := eq_of_forall₂ (List.Forall₂.imp (fun _ _ hd => hd.eq) h)
    rfl

end Program

/-- The stray characters that a scan reports are, in order, those that no other tile of the text
covers. With a space in place of each, the text is scanned as before but for these faults, and has
the same errors in its grammar. -/
theorem scan_faded (source : String) :
    ∃ tiles, (∀ ts, Tiling source.toList ts ↔ ts = tiles) ∧
      tiles.flatMap (·.consumed) = source.toList ∧
      Scanner.Scans source (scan source) ∧
      (scan source).items.filterMap Item.stray? = uncovered 1 tiles ∧
      let faded := String.ofList (tiles.flatMap Stretch.faded)
      Scanner.Scans faded
        ⟨(scan source).items.filter (·.stray?.isNone), (scan source).endLine⟩ ∧
      ∀ a b, Program.syntaxErrors (Program.ofSource b faded) =
        Program.syntaxErrors (Program.ofSource a source) := by
  obtain ⟨tiles, htiles⟩ := Tiling.existsUnique source.toList
  have htiling := (htiles tiles).mpr rfl
  have hscan : scan source = ⟨tileItems 1 tiles, 1 + lineBreaks source.toList⟩ := htiling.scanned 1
  have hfaded : scan (String.ofList (tiles.flatMap Stretch.faded)) =
      ⟨(scan source).items.filter (·.stray?.isNone), (scan source).endLine⟩ := by
    unfold scan
    rw [String.toList_ofList, htiling.faded.scanned, htiling.scanned, htiling.tileItems_faded,
      htiling.lineBreaks_flatMap_faded]
  have htokens : (scan (String.ofList (tiles.flatMap Stretch.faded))).tokens =
      (scan source).tokens := by
    rw [hfaded]
    unfold Scan.tokens
    rw [List.filterMap_filter]
    congr 1
    funext i
    cases i with
    | token => rfl
    | fault line error => cases error <;> rfl
  refine ⟨tiles, htiles, htiling.text, Scanner.scans_iff.mpr rfl, ?_, ?_, ?_⟩
  · rw [hscan, htiling.stray_eq_uncovered]
  · exact Scanner.scans_iff.mpr hfaded.symm
  · intro a b
    rw [Program.syntaxErrors_ofSource, Program.syntaxErrors_ofSource, htokens, hfaded]
    exact Program.syntaxErrors_ofTokens a b _ _

/-- A stray character stands where an expression is missing, which is reported with a space in its
place also. -/
theorem scan_faded_print : ∃ tiles,
    (∀ ts, Tiling "print @;".toList ts ↔ ts = tiles) ∧ uncovered 1 tiles = [(1, '@')] ∧
    Scanner.Scans (String.ofList (tiles.flatMap Stretch.faded))
      ⟨[.token ⟨.keyword .print, "print", 1⟩, .token ⟨.symbol .semicolon, ";", 1⟩], 1⟩ ∧
    Program.syntaxErrors (Program.ofSource 0 (String.ofList (tiles.flatMap Stretch.faded))) =
      [.grammar 1 (some ";") .expectedExpression] := by
  have hstray : (scan "print @;").items.filterMap Item.stray? = [(1, '@')] := by
    decide +kernel
  have hscan :
      Scan.mk ((scan "print @;").items.filter (·.stray?.isNone)) (scan "print @;").endLine =
      ⟨[.token ⟨.keyword .print, "print", 1⟩, .token ⟨.symbol .semicolon, ";", 1⟩], 1⟩ := by
    decide +kernel
  have herrors : Program.syntaxErrors (Program.ofSource 0 "print @;") =
      [.grammar 1 (some ";") .expectedExpression] := by
    decide +kernel
  obtain ⟨tiles, hunique, -, -, huncovered, hscans, hsame⟩ := scan_faded "print @;"
  exact ⟨tiles, hunique, huncovered.symm.trans hstray, hscan ▸ hscans,
    (hsame 0 0).trans herrors⟩

end LoxLang
