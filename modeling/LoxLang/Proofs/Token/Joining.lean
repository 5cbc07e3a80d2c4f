import LoxLang.Token.Scan

/-!
Scans behind each other. A stretch and what follows it are the text, so the scan of a text is what
its first stretch comes to and behind it the scan of the rest, with the lines counted on.
-/

namespace LoxLang

attribute [local simp] scanFrom

theorem lineBreaks_append (cs ds : List Char) :
    lineBreaks (cs ++ ds) = lineBreaks cs + lineBreaks ds :=
  List.count_append

theorem lineBreaks_of_ne {c : Char} (h : c ≠ '\n') : lineBreaks [c] = 0 := by
  simp [lineBreaks, h]

/-- What is behind a comment is an end of the text. -/
theorem afterComment?_suffix {depth : Nat} {cs rest : List Char}
    (h : afterComment? depth cs = some rest) : rest <:+ cs := by
  fun_induction afterComment? depth cs with
  | case1 depth cs ih => exact (ih h).trans ((List.suffix_cons _ _).trans (List.suffix_cons _ _))
  | case2 cs =>
    cases h
    exact (List.suffix_cons _ _).trans (List.suffix_cons _ _)
  | case3 depth cs ih => exact (ih h).trans ((List.suffix_cons _ _).trans (List.suffix_cons _ _))
  | case4 depth c cs _ _ _ ih => exact (ih h).trans (List.suffix_cons _ _)
  | case5 => cases h

namespace Stretch

theorem number_text (whole rest : List Char) :
    (number whole rest).consumed ++ (number whole rest).rest = whole ++ rest := by
  unfold number
  split
  · split
    · simp [List.takeWhile_append_dropWhile]
    · rfl
  · rfl

theorem string_text (cs : List Char) :
    (string cs).consumed ++ (string cs).rest = '\"' :: cs := by
  have htext := cs.takeWhile_append_dropWhile (p := (· != '\"'))
  unfold string
  cases hrest : cs.dropWhile (· != '\"') with
  | nil => simp
  | cons quote rest =>
    rw [hrest] at htext
    simp [htext]

theorem blockComment_text (cs : List Char) :
    (blockComment cs).consumed ++ (blockComment cs).rest = '/' :: '*' :: cs := by
  unfold blockComment
  cases hrest : afterComment? 0 cs with
  | none => simp
  | some rest =>
    obtain ⟨comment, rfl⟩ := afterComment?_suffix hrest
    simp

theorem lineComment_text (cs : List Char) :
    (lineComment cs).consumed ++ (lineComment cs).rest = '/' :: '/' :: cs := by
  unfold lineComment
  simp [List.takeWhile_append_dropWhile]

theorem symbol_text (c : Char) (s : Symbol) (cs : List Char) :
    (symbol c s cs).consumed ++ (symbol c s cs).rest = c :: cs := by
  unfold symbol
  split <;> rfl

/-- A stretch and what follows it are the text. -/
theorem first_text (c : Char) (cs : List Char) :
    (first c cs).consumed ++ (first c cs).rest = c :: cs := by
  unfold first
  split
  · rfl
  split
  · rename_i hquote
    rw [hquote]
    exact string_text cs
  split
  · rw [number_text, List.cons_append, List.takeWhile_append_dropWhile]
  split
  · show c :: cs.takeWhile isWordPart ++ cs.dropWhile isWordPart = c :: cs
    rw [List.cons_append, List.takeWhile_append_dropWhile]
  split
  · exact lineComment_text _
  · exact blockComment_text _
  · split
    · exact symbol_text _ _ _
    · rfl

theorem lineBreaks_first (c : Char) (cs : List Char) : lineBreaks (c :: cs) =
    lineBreaks (first c cs).consumed + lineBreaks (first c cs).rest := by
  rw [← lineBreaks_append, first_text]

end Stretch

/-- The error so many lines further on, if it has a line. -/
def Diagnostic.moved (count : Nat) : Diagnostic → Diagnostic
  | .lexical line error => .lexical (line + count) error
  | .grammar line found? error => .grammar (line + count) found? error
  | .scope line lexeme error => .scope (line + count) lexeme error
  | .runtime line error => .runtime (line + count) error
  | .stackOverflow line => .stackOverflow (line + count)
  | .io reason => .io reason

theorem Diagnostic.moved_zero (d : Diagnostic) : d.moved 0 = d := by
  cases d <;> rfl

/-- The token so many lines further on. -/
def Token.moved (count : Nat) (t : Token) : Token :=
  { t with line := t.line + count }

def Item.moved (count : Nat) : Item → Item
  | .token t => .token (t.moved count)
  | .fault line error => .fault (line + count) error

theorem Stretch.item?_moved (s : Stretch) (first last count : Nat) :
    s.item? (first + count) (last + count) = (s.item? first last).map (.moved count) := by
  unfold Stretch.item?
  cases s.role with
  | blank => rfl
  | token kind => rfl
  | fault error => cases error <;> rfl

namespace Scan

/-- The scan of a text that begins so many lines further on. -/
def moved (count : Nat) (s : Scan) : Scan :=
  ⟨s.items.map (.moved count), s.endLine + count⟩

/-- One scan behind another. -/
def join (s s' : Scan) : Scan :=
  ⟨s.items ++ s'.items, s'.endLine⟩

variable {s s' : Scan}

theorem tokens_join : (s.join s').tokens = s.tokens ++ s'.tokens :=
  List.filterMap_append

theorem errors_join : (s.join s').errors = s.errors ++ s'.errors :=
  List.filterMap_append

theorem tokens_moved (count : Nat) : (s.moved count).tokens = s.tokens.map (.moved count) := by
  unfold tokens moved
  rw [List.filterMap_map, List.map_filterMap]
  congr 1
  funext i
  cases i <;> rfl

theorem errors_moved (count : Nat) : (s.moved count).errors = s.errors.map (.moved count) := by
  unfold errors moved
  rw [List.filterMap_map, List.map_filterMap]
  congr 1
  funext i
  cases i <;> rfl

end Scan

/-- The items of a scan are those found before it and those of its stretches. -/
theorem mem_scanFrom {found : List Item} {line : Nat} {cs : List Char} {i : Item}
    (h : i ∈ (scanFrom found line cs).items) :
    i ∈ found ∨ ∃ c cs first last, i ∈ (Stretch.first c cs).item? first last := by
  fun_induction scanFrom found line cs with
  | case1 => exact .inl (List.mem_reverse.mp h)
  | case2 found line c cs s last ih =>
    rcases ih h with hi | hi
    · rcases List.mem_append.mp hi with hi | hi
      · exact .inr ⟨c, cs, line, last, Option.mem_toList.mp hi⟩
      · exact .inl hi
    · exact .inr hi

/-- What is found earlier stays in front. -/
theorem scanFrom_found (found : List Item) (line : Nat) : (cs : List Char) →
    scanFrom found line cs = Scan.join ⟨found.reverse, line⟩ (scanFrom [] line cs)
  | [] => by simp [Scan.join]
  | c :: cs => by
    rw [scanFrom, scanFrom]
    rw [scanFrom_found (_ ++ found) _ (Stretch.first c cs).rest,
      scanFrom_found (_ ++ []) _ (Stretch.first c cs).rest]
    simp [Scan.join]
termination_by cs => cs.length
decreasing_by all_goals exact Nat.lt_succ_of_le (Stretch.length_rest_first_le c cs)

/-- The first stretch is scanned, and then the rest from the line where it ends. -/
theorem scanFrom_cons (line : Nat) (c : Char) (cs : List Char) :
    let s := Stretch.first c cs
    let last := line + lineBreaks s.consumed
    scanFrom [] line (c :: cs) =
      Scan.join ⟨(s.item? line last).toList, last⟩ (scanFrom [] last s.rest) := by
  intro s last
  rw [scanFrom, scanFrom_found]
  cases (Stretch.first c cs).item? line (line + lineBreaks (Stretch.first c cs).consumed) <;> rfl

/-- Lines are only counted. -/
theorem scanFrom_moved (line count : Nat) : (cs : List Char) →
    scanFrom [] (line + count) cs = (scanFrom [] line cs).moved count
  | [] => by simp [Scan.moved]
  | c :: cs => by
    have ih := scanFrom_moved (line + lineBreaks (Stretch.first c cs).consumed) count
      (Stretch.first c cs).rest
    rw [scanFrom_cons, scanFrom_cons]
    rw [Nat.add_right_comm, ih, Stretch.item?_moved]
    cases (Stretch.first c cs).item? line (line + lineBreaks (Stretch.first c cs).consumed) <;>
      simp [Scan.join, Scan.moved]
termination_by cs => cs.length
decreasing_by exact Nat.lt_succ_of_le (Stretch.length_rest_first_le c cs)

/-- The end of a line adds nothing to a scan. -/
theorem scanFrom_newline (line : Nat) (cs : List Char) :
    scanFrom [] line ('\n' :: cs) = scanFrom [] (line + 1) cs := by
  rw [scanFrom]
  rfl

/-- A text of so many empty lines. -/
def blankLines (count : Nat) : String :=
  String.ofList (List.replicate count '\n')

theorem scan_blankLines_append (count : Nat) (source : String) :
    scan (blankLines count ++ source) = (scan source).moved count := by
  have hlines : ∀ line, scanFrom [] line (List.replicate count '\n' ++ source.toList) =
      scanFrom [] (line + count) source.toList := by
    induction count with
    | zero => exact fun _ => rfl
    | succ count ih =>
      intro line
      rw [List.replicate_succ, List.cons_append, scanFrom_newline, ih, Nat.add_right_comm]
      rfl
  have htext : (blankLines count ++ source).toList =
      List.replicate count '\n' ++ source.toList := by
    simp [blankLines]
  unfold scan
  rw [htext, hlines, scanFrom_moved]

end LoxLang
