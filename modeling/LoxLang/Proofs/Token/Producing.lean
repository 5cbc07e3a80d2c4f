import LoxLang.Proofs.Token.Cursor

/-!
What a scanner gives. It reads the stretches of its text one by one, so that it gives the items of
the scan in their order, the end of the text behind them, and then nothing. It always finds the
parts of the text that it takes: they begin and end between characters.
-/

namespace LoxLang

/-- What a stretch is read as where a scanner stands. -/
def Stretch.reading (t : Stretch) (s : Scanner) : Scanner.Reading :=
  match t.role with
  | .blank => none
  | .token kind => some (.ok kind, s.past t.consumed)
  | .fault error => some (.error ((s.past t.consumed).line, error), s.past t.consumed)

theorem Numeral.value {cs : List Char} {x : Float} (h : Numeral cs x) :
    numeralValue (.ofList cs) = x := by
  have hpoint : ∀ whole : List Char, (∀ c ∈ whole, c.isDigit) → '.' ∉ whole := by
    intro whole hwhole hp
    cases hwhole '.' hp
  unfold numeralValue
  rw [String.toList_ofList]
  cases h with
  | whole _ h =>
    rw [takeWhile_ne_of_not_mem (hpoint _ h), dropWhile_ne_of_not_mem (hpoint _ h)]
    rfl
  | decimal _ _ h =>
    rw [takeWhile_ne (hpoint _ h), dropWhile_ne (hpoint _ h)]
    rfl

namespace Scanner.Stands

variable {s : Scanner} {line : Nat} {before after cs whole rest : List Char} {c : Char}

/-- The text of a token that has been read is found. -/
theorem lexeme?_past (h : s.Stands line before (cs ++ after)) (hstart : s.start = s.pos) :
    (s.past cs).lexeme? = some (String.ofList cs) :=
  h.past.lexeme? (hstart.trans h.pos)

theorem skipFraction (h : (s.past whole).Stands line before rest) :
    (s.past whole).skipFraction = s.past (Stretch.number whole rest).consumed := by
  have hpoint := h.peek_eq_iff (d := '.') (by decide)
  unfold Scanner.skipFraction Stretch.number
  cases rest with
  | nil =>
    rw [decide_eq_false (fun he => by cases hpoint.mp he)]
    rfl
  | cons d ds =>
    by_cases hd : d = '.'
    · subst hd
      have hnext := h.past_one
      have hpeek : (s.past whole).peekAt 1 = ((s.past whole).past ['.']).peek := by
        rw [← advance_one (c := '.') (by decide) (by decide)]
        rfl
      rw [decide_eq_true (hpoint.mpr rfl), Bool.true_and, hpeek, isDigitByte_eq,
        advance_one (c := '.') (by decide) (by decide)]
      cases ds with
      | nil =>
        rw [hnext.peek]
        rfl
      | cons e es =>
        rw [hnext.peek_char fun _ => ascii_of_isDigit]
        by_cases he : e.isDigit
        · rw [if_pos he, hnext.skipWhile isDigitByte_eq (fun _ => ascii_of_isDigit) rfl, past_past,
            past_past, List.takeWhile_cons_of_pos he]
          simp [he]
        · simp [he]
    · have hne : (s.past whole).peek ≠ '.'.toUInt8 := by
        intro he
        exact hd (Option.some.inj (hpoint.mp he))
      rw [decide_eq_false hne]
      simp [hd]

theorem number (h : s.Stands line before (c :: cs)) (hstart : s.start = s.pos) (hc : c.isDigit) :
    s.bump.number =
      (Stretch.number (c :: cs.takeWhile Char.isDigit) (cs.dropWhile Char.isDigit)).reading s := by
  have htext := cs.takeWhile_append_dropWhile (p := Char.isDigit)
  have hone := h.past_one
  have hdigits : ∀ d ∈ c :: cs.takeWhile Char.isDigit, d.isDigit :=
    List.forall_mem_cons.mpr ⟨hc, fun d hd => List.mem_takeWhile_imp hd⟩
  obtain ⟨x, hx, hrole⟩ := Numeral.of_number (by simp) hdigits (cs.dropWhile Char.isDigit)
  have hwhole : (s.past (c :: cs.takeWhile Char.isDigit)).Stands _ _ (cs.dropWhile Char.isDigit) :=
    past (by rwa [List.cons_append, htext])
  have hpart := Stretch.number_text (c :: cs.takeWhile Char.isDigit) (cs.dropWhile Char.isDigit)
  rw [List.cons_append, htext] at hpart
  have hlexeme := lexeme?_past (hpart ▸ h) hstart
  rw [h.bump (ascii_of_isDigit hc), Scanner.number,
    hone.skipWhile isDigitByte_eq (fun _ => ascii_of_isDigit) rfl, past_past, List.singleton_append,
    hwhole.skipFraction, Stretch.reading, hrole, hlexeme]
  simp only [Option.bind_eq_bind, Option.bind_some, hx.value]
  rfl

theorem word (h : s.Stands line before (c :: cs)) (hstart : s.start = s.pos) (hc : isWordStart c) :
    s.bump.word =
      (Stretch.word (c :: cs.takeWhile isWordPart) (cs.dropWhile isWordPart)).reading s := by
  have htext := cs.takeWhile_append_dropWhile (p := isWordPart)
  have hone := h.past_one
  have hletters : s.Stands line before
      (c :: cs.takeWhile isWordPart ++ cs.dropWhile isWordPart) := by
    rwa [List.cons_append, htext]
  have hlexeme := hletters.lexeme?_past hstart
  rw [h.bump (ascii_of_isWordPart (isWordPart_of_isWordStart hc)), Scanner.word,
    hone.skipWhile isWordPartByte_eq (fun _ => ascii_of_isWordPart) rfl, past_past,
    List.singleton_append, hlexeme, Stretch.word, Stretch.reading]
  cases hk : Keyword.ofWord? (String.ofList (c :: cs.takeWhile isWordPart)) with
  | none =>
    simp only [Option.bind_eq_bind, Option.bind_some, hk]
    rfl
  | some k =>
    simp only [Option.bind_eq_bind, Option.bind_some, hk]
    rfl

theorem string (h : s.Stands line before ('\"' :: cs)) (hstart : s.start = s.pos) :
    s.bump.string = (Stretch.string cs).reading s := by
  have hone := h.past_one
  rw [h.bump (by decide), Scanner.string, find?, hone.rest, Stretch.string]
  by_cases hq : '\"' ∈ cs
  · obtain ⟨contents, rest, rfl, hcontents⟩ := List.eq_append_cons_of_mem hq
    have hclosing := hone.past
    have hslice : slice? (s.past ['\"']).source ((s.past ['\"']).start + 1)
        ((s.past ['\"']).pos + (utf8 contents).length) = some (String.ofList contents) := by
      have hfrom : s.start + 1 = (utf8 (before ++ ['\"'])).length := by
        rw [hstart, ← hone.pos]
        rfl
      show slice? s.source (s.start + 1) ((s.past ['\"']).past contents).pos = _
      rw [hfrom, hclosing.pos]
      exact slice?_utf8 hclosing.text
    rw [takeWhile_ne hcontents, dropWhile_ne hcontents, findIdx?_utf8 (by decide) hcontents]
    dsimp only
    rw [hone.bumps, advance_one (c := '\"') (by decide) (by decide), past_past, past_past, hslice]
    rfl
  · rw [dropWhile_ne_of_not_mem hq, findIdx?_utf8_eq_none (by decide) hq, hone.left]
    dsimp only
    rw [← List.append_nil cs] at hone
    rw [hone.bumps, past_past]
    rfl

theorem symbol {short : Symbol} (h : s.Stands line before (c :: cs))
    (hs : Symbol.ofChar? c = some short) :
    some (.ok (s.bump.symbol short).1, (s.bump.symbol short).2) =
      (Stretch.symbol c short cs).reading s := by
  have hone := h.past_one
  have hequal := hone.peek_eq_iff (d := '=') (by decide)
  rw [h.bump (ascii_of_ofChar? hs)]
  unfold Scanner.symbol Stretch.symbol
  cases short.withEqual? with
  | none => rfl
  | some long =>
    by_cases heq : cs.head? = some '='
    · obtain ⟨rest, rfl⟩ := List.head?_eq_some_iff.mp heq
      dsimp only
      rw [if_pos (hequal.mpr heq), advance_one (c := '=') (by decide) (by decide), past_past]
      rfl
    · dsimp only
      rw [if_neg (fun he => heq (hequal.mp he))]
      cases cs with
      | nil => rfl
      | cons d ds =>
        have hd : d ≠ '=' := by
          rintro rfl
          exact heq rfl
        simp [hd, Stretch.reading]

theorem unexpected (h : s.Stands line before (c :: cs)) (hstart : s.start = s.pos)
    (hline : c ≠ '\n') : s.bump.unexpected =
      Stretch.reading ⟨[c], cs, .fault (.unexpectedCharacter c)⟩ s := by
  have hpeek : s.peek ≠ '\n'.toUInt8 := by
    intro he
    exact hline (Option.some.inj ((h.peek_eq_iff (by decide)).mp he))
  have hslice : slice? s.bump.source s.bump.start s.bump.size = some (String.ofList (c :: cs)) := by
    show slice? s.source s.start s.size = _
    have htext : s.source.toList = before ++ (c :: cs) ++ [] := by rw [List.append_nil, h.text]
    rw [hstart, h.pos, h.size]
    exact slice?_utf8 htext
  have hpos : s.bump.start + c.utf8Size = (s.past [c]).pos := by
    simp [Scanner.past, Scanner.bump, hstart]
  have hbump : s.bump.line = (s.past [c]).line := by
    simp [Scanner.past, Scanner.bump, hpeek, lineBreaks, hline]
  rw [Scanner.unexpected, hslice]
  simp only [Option.bind_eq_bind, Option.bind_some, String.toList_ofList, List.head?_cons,
    Option.getD_some, hpos, hbump]
  rfl

/-- What a token or a fault that comes first is read as. -/
theorem token (h : s.Stands line before (c :: cs)) (hstart : s.start = s.pos)
    (hb : ¬ OpensBlank (c :: cs)) : s.token = (Stretch.first c cs).reading s := by
  have hquote := h.peek_eq_iff (d := '\"') (by decide)
  have hchar : Symbol.ofChar? (Char.ofUInt8 s.peek) = Symbol.ofChar? c := by
    ext short
    rw [← decide_eq_decide]
    exact h.peek_char (p := fun d => decide (Symbol.ofChar? d = some short))
      fun d hd => ascii_of_ofChar? (of_decide_eq_true hd)
  unfold Scanner.token
  rw [hchar, isDigitByte_eq, isWordStartByte_eq, h.peek_char (fun _ => ascii_of_isDigit),
    h.peek_char (fun _ hw => ascii_of_isWordPart (isWordPart_of_isWordStart hw))]
  cases hs : Symbol.ofChar? c with
  | some short =>
    rw [Stretch.first_symbol hb hs]
    exact h.symbol hs
  | none =>
    by_cases hq : c = '\"'
    · subst hq
      rw [if_pos (hquote.mpr rfl)]
      exact h.string hstart
    rw [if_neg (fun he => hq (Option.some.inj (hquote.mp he)))]
    by_cases hd : c.isDigit
    · rw [if_pos hd, Stretch.first_digit hb hd]
      exact h.number hstart hd
    rw [if_neg hd]
    by_cases hw : isWordStart c
    · rw [if_pos hw, Stretch.first_word hb hw]
      exact h.word hstart hw
    have hline : c ≠ '\n' := by
      rintro rfl
      exact not_isSpace_of_not_opensBlank hb rfl
    rw [if_neg hw, Stretch.first_unexpected hb hs hq hd hw]
    exact h.unexpected hstart hline

/-- A blank that comes first is gone over, and so is a comment. One that is not closed is a
fault. -/
theorem skipTrivia_of_opensBlank (h : s.Stands line before (c :: cs)) (hb : OpensBlank (c :: cs)) :
    (Stretch.first c cs).role = .blank ∧
      s.skipTrivia = (s.past (Stretch.first c cs).consumed).skipTrivia ∨
    (Stretch.first c cs).role = .fault .unterminatedComment ∧
      s.skipTrivia = (some (.fault line .unterminatedComment),
        s.past (Stretch.first c cs).consumed) := by
  have hspacebyte : isSpaceByte s.peek = isSpace c := by
    rw [isSpaceByte_eq, h.peek_char fun _ => ascii_of_isSpace]
  by_cases hspace : isSpace c
  · rw [Stretch.first_space hspace, skipTrivia, hspacebyte, if_pos hspace,
      h.bump (ascii_of_isSpace hspace)]
    exact .inl ⟨rfl, rfl⟩
  rw [skipTrivia, hspacebyte, if_neg hspace]
  rcases hb with ⟨d, hd, hs⟩ | hcomment | hcomment
  · cases hd
    exact (hspace hs).elim
  · rw [if_pos (h.sees_lineComment.mpr hcomment), h.skipLine]
    obtain ⟨rest, hrest⟩ := hcomment
    cases hrest
    exact .inl ⟨rfl, rfl⟩
  · obtain ⟨rest, hrest⟩ := hcomment
    obtain ⟨rfl, rfl⟩ := List.cons.inj (show '/' :: '*' :: rest = c :: cs from hrest)
    have hline : ¬ s.sees '/' '/' := by simp [h.sees_lineComment]
    rw [if_neg hline, if_pos (h.sees_open.mpr ⟨rest, rfl⟩), h.blockComment_open]
    have hfirst : Stretch.first '/' ('*' :: rest) = Stretch.blockComment rest := rfl
    rw [hfirst, Stretch.blockComment]
    rcases blockComment h.past_pair 0 with
      ⟨comment, rest, rfl, hrest, hresult⟩ | ⟨hrest, hresult⟩
    · rw [hrest, hresult]
      simp [past_past]
    · rw [hrest, hresult, h.line]
      exact .inr ⟨rfl, congrArg (Prod.mk _) (past_past ..)⟩

theorem skipTrivia_of_not_opensBlank (h : s.Stands line before after) (hb : ¬ OpensBlank after) :
    s.skipTrivia = (none, s) := by
  have hspace : ¬ isSpaceByte s.peek := by
    rw [isSpaceByte_eq]
    cases after with
    | nil =>
      rw [h.peek]
      decide
    | cons c cs =>
      rw [h.peek_char fun _ => ascii_of_isSpace]
      exact fun hs => hb (.inl ⟨c, rfl, hs⟩)
  rw [skipTrivia, if_neg hspace, if_neg fun hs => hb (.inr (.inl (h.sees_lineComment.mp hs))),
    if_neg fun hs => hb (.inr (.inr (h.sees_open.mp hs)))]

end Scanner.Stands

/-- What a scan comes to, with the end of the text behind its items. -/
def Scan.produced (s : Scan) : List Produced :=
  s.items.map .item ++ [.endOfText s.endLine]

/-- What the first stretch comes to stands in front. -/
theorem produced_cons (line : Nat) (c : Char) (cs : List Char) :
    let t := Stretch.first c cs
    let last := line + lineBreaks t.consumed
    (scanFrom [] line (c :: cs)).produced =
      (t.item? line last).toList.map .item ++ (scanFrom [] last t.rest).produced := by
  intro t last
  rw [scanFrom_cons]
  simp [Scan.produced, Scan.join, t, last]

/-- What a scanner is still to give. -/
inductive Scanner.Gives : Scanner → List Produced → Prop
  | going {s line before after} (h : s.Stands line before after) :
      Gives s (scanFrom [] line after).produced
  | done {s} (h : s.done = true) : Gives s []

namespace Scanner

/-- A token or a fault that comes first is given. -/
theorem Stands.next_item {s : Scanner} {line : Nat} {before : List Char} {c : Char}
    {cs : List Char} (h : s.Stands line before (c :: cs)) (hb : ¬ OpensBlank (c :: cs)) :
    let t := Stretch.first c cs
    ∃ item, t.item? line (line + lineBreaks t.consumed) = some item ∧
      s.next = some (some (.item item), { s with start := s.pos }.past t.consumed) := by
  intro t
  generalize hs : ({ s with start := s.pos } : Scanner) = started
  have hstarted : started.Stands line before (c :: cs) := by
    rw [← hs]
    exact ⟨h.text, h.pos, h.line, h.going⟩
  have hstart : started.start = started.pos := by rw [← hs]
  have htoken := hstarted.token hstart hb
  have hline : (started.past t.consumed).line = line + lineBreaks t.consumed := by
    rw [Scanner.past, hstarted.line]
  rw [Scanner.next, h.going, if_neg Bool.false_ne_true, h.skipTrivia_of_not_opensBlank hb]
  dsimp only
  rw [hs, if_neg (by simp [hstarted.atEnd]), htoken, Stretch.item?, Stretch.reading, ← hline]
  rcases (Tile.first c cs).role_of_not_opensBlank hb with ⟨kind, hrole⟩ | ⟨error, herror, hrole⟩
  · have htext : started.Stands line before (t.consumed ++ t.rest) := by rwa [Stretch.first_text]
    have hlexeme := htext.lexeme?_past hstart
    refine ⟨_, by rw [hrole], ?_⟩
    rw [hrole]
    simp only [Option.bind_eq_bind, Option.bind_some, hlexeme, t]
    rfl
  · refine ⟨.fault (started.past t.consumed).line error, ?_, ?_⟩
    · rw [hrole]
      cases error with
      | unterminatedComment => exact (herror rfl).elim
      | _ => rfl
    · rw [hrole]
      rfl

theorem Stands.next (line : Nat) (before : List Char) : (after : List Char) → (s : Scanner) →
    s.Stands line before after → ∃ s', s.next = some ((scanFrom [] line after).produced.head?, s') ∧
      s'.Gives (scanFrom [] line after).produced.tail
  | [], s, h => by
    have hblank : ¬ OpensBlank [] := by simp [OpensBlank]
    have hend : ({ s with start := s.pos } : Scanner).atEnd := h.atEnd.mpr rfl
    have hnext : s.next =
        some (some (.endOfText line), { s with start := s.pos, done := true }) := by
      rw [Scanner.next, h.going, if_neg Bool.false_ne_true, h.skipTrivia_of_not_opensBlank hblank]
      dsimp only
      rw [if_pos hend, h.line]
    rw [hnext, scanFrom]
    exact ⟨_, rfl, .done rfl⟩
  | c :: cs, s, h => by
    have hafter : (s.past (Stretch.first c cs).consumed).Stands
        (line + lineBreaks (Stretch.first c cs).consumed) (before ++ (Stretch.first c cs).consumed)
        (Stretch.first c cs).rest :=
      past (by rwa [Stretch.first_text])
    rw [produced_cons]
    by_cases hb : OpensBlank (c :: cs)
    · rcases h.skipTrivia_of_opensBlank hb with ⟨hrole, hskip⟩ | ⟨hrole, hskip⟩
      · have hnext : s.next = (s.past (Stretch.first c cs).consumed).next := by
          rw [Scanner.next, Scanner.next, hskip, h.going, hafter.going]
          rfl
        rw [hnext, Stretch.item?, hrole]
        exact next _ _ _ _ hafter
      · have hnext : s.next = some (some (.item (.fault line .unterminatedComment)),
            s.past (Stretch.first c cs).consumed) := by
          rw [Scanner.next, h.going, if_neg Bool.false_ne_true, hskip]
        rw [hnext, Stretch.item?, hrole]
        exact ⟨_, rfl, .going hafter⟩
    · obtain ⟨item, hitem, hnext⟩ := h.next_item hb
      rw [hitem, hnext]
      exact ⟨_, rfl, .going ⟨hafter.text, hafter.pos, hafter.line, hafter.going⟩⟩
termination_by after => after.length
decreasing_by exact Nat.lt_succ_of_le (Stretch.length_rest_first_le c cs)

theorem Gives.next {s : Scanner} {given : List Produced} (h : s.Gives given) :
    ∃ s', s.next = some (given.head?, s') ∧ s'.Gives given.tail := by
  cases h with
  | going h => exact h.next _ _ _ _
  | done h =>
    refine ⟨s, ?_, .done h⟩
    rw [Scanner.next, if_pos h]
    rfl

/-- However often a scanner is asked, it gives what it is to give and then nothing. -/
theorem Gives.calls {s : Scanner} {given : List Produced} (h : s.Gives given) (count : Nat) :
    calls count s = some ((List.range count).map (given[·]?)) := by
  induction count generalizing s given with
  | zero => rfl
  | succ count ih =>
    obtain ⟨s', hnext, hs'⟩ := h.next
    rw [Scanner.calls, hnext, List.range_succ_eq_map]
    simp [ih hs', List.head?_eq_getElem?, Function.comp_def]

end Scanner

/-- A text falls into tiles in one way, which loses nothing of it, and its scan is what they add up
to. A scanner gives that scan, with one end of the text behind it, and finds all that it takes. -/
theorem scan_exact (source : String) : ∃ tiles, (∀ ts, Tiling source.toList ts ↔ ts = tiles) ∧
    tiles.flatMap (·.consumed) = source.toList ∧
    scan source = ⟨tileItems 1 tiles, 1 + lineBreaks source.toList⟩ ∧
    ∀ count, Scanner.calls count (.new source) =
      some ((List.range count).map ((scan source).produced[·]?)) := by
  obtain ⟨tiles, htiles⟩ := Tiling.existsUnique source.toList
  have htiling := (htiles tiles).mpr rfl
  have hstands : (Scanner.new source).Stands 1 [] source.toList := ⟨rfl, rfl, rfl, rfl⟩
  exact ⟨tiles, htiles, htiling.text, htiling.scanned 1, (Scanner.Gives.going hstands).calls⟩

end LoxLang
