import LoxLang.Proofs.Decimal.Numerals
import LoxLang.Proofs.Json.Tokens

/-!
JSON values read back from their text. A machine keeps the brackets that are open with what it has
read inside each, and ends with the value that was written. Only numbers that are not finite are
lost, since there is no text for them.
-/

namespace LoxLang

namespace Json

mutual

/-- What the text of a value stands for. -/
def written : Json → Json
  | .number x => if x.isFinite then .number x else .null
  | .array items => .array (writtenItems items)
  | .object members => .object (writtenMembers members)
  | .null => .null
  | .natural n => .natural n
  | .string s => .string s

def writtenItems : List Json → List Json
  | [] => []
  | j :: js => j.written :: writtenItems js

def writtenMembers : List Member → List Member
  | [] => []
  | ⟨key, value⟩ :: ms => ⟨key, value.written⟩ :: writtenMembers ms

end

mutual

def tokens : Json → List JsonToken
  | .array items => .openArray :: ([.comma].intercalate (itemsTokens items) ++ [.closeArray])
  | .object members =>
    .openObject :: ([.comma].intercalate (membersTokens members) ++ [.closeObject])
  | .number x => [.value (written (.number x))]
  | .null => [.value .null]
  | .natural n => [.value (.natural n)]
  | .string s => [.value (.string s)]

def itemsTokens : List Json → List (List JsonToken)
  | [] => []
  | j :: js => j.tokens :: itemsTokens js

def membersTokens : List Member → List (List JsonToken)
  | [] => []
  | ⟨key, value⟩ :: ms => (.value (.string key) :: .colon :: value.tokens) :: membersTokens ms

end

theorem membersTokens_cons (m : Member) (ms : List Member) : membersTokens (m :: ms) =
    (.value (.string m.key) :: .colon :: m.value.tokens) :: membersTokens ms := by
  cases m
  rfl

theorem breaks_newline (depth : Nat) (rest : List Char) :
    Breaks ((newline depth).toList ++ rest) := by
  rw [newline, String.toList_ofList]
  exact .inr rfl

/-- Texts with commas and line breaks between them are their tokens with commas between them. -/
theorem lexes_intercalate {text : String} {ts : List JsonToken} {texts : List String}
    {tss : List (List JsonToken)} (h : Lexes text.toList ts)
    (hs : List.Forall₂ (fun text ts => Lexes text.toList ts) texts tss) (depth : Nat) :
    Lexes (("," ++ newline depth).intercalate (text :: texts)).toList
      ([.comma].intercalate (ts :: tss)) := by
  induction hs generalizing text ts with
  | nil =>
    rw [String.intercalate_singleton, List.intercalate_singleton]
    exact h
  | @cons text' ts' texts tss h' hs ih =>
    intro rest hrest
    have hcomma : punctuation? ',' = some .comma := rfl
    rw [String.intercalate_cons_cons, List.intercalate_cons_cons]
    simp only [String.toList_append, List.append_assoc]
    show tokens? (.plain []) (text.toList ++ ',' :: ((newline depth).toList ++ _)) = _
    rw [h _ (breaks_of_punctuation? hcomma _), tokens?_punctuation hcomma, tokens?_newline,
      ih h' rest hrest, Option.map_map, Option.map_map]
    rfl

/-- So are texts between brackets. -/
theorem lexes_bracketed {opening closing : Char} {t t' : JsonToken}
    (ho : punctuation? opening = some t) (hc : punctuation? closing = some t')
    {texts : List String} {tss : List (List JsonToken)}
    (hs : List.Forall₂ (fun text ts => Lexes text.toList ts) texts tss) (depth : Nat) :
    Lexes (bracketed (String.singleton opening) (String.singleton closing) depth texts).toList
      (t :: ([.comma].intercalate tss ++ [t'])) := by
  intro rest hrest
  cases hs with
  | nil =>
    simp [bracketed, tokens?_punctuation ho, tokens?_punctuation hc, Function.comp_def]
  | cons h hs =>
    have hitems := lexes_intercalate h hs (depth + 1)
    simp only [bracketed, String.toList_append, String.toList_singleton, List.append_assoc,
      List.cons_append, List.nil_append]
    rw [tokens?_punctuation ho, tokens?_newline, hitems _ (breaks_newline depth _),
      tokens?_newline, tokens?_punctuation hc, Option.map_map, Option.map_map]
    simp [Function.comp_def]

theorem lexes_member {key text : String} {ts : List JsonToken} (h : Lexes text.toList ts) :
    Lexes (quoted key ++ ": " ++ text).toList (.value (.string key) :: .colon :: ts) := by
  intro rest hrest
  have hcolon : punctuation? ':' = some .colon := rfl
  simp only [String.toList_append, List.append_assoc]
  show tokens? (.plain []) ((quoted key).toList ++ ':' :: ' ' :: (text.toList ++ rest)) = _
  rw [lexes_quoted key _ (breaks_of_punctuation? hcolon _), tokens?_punctuation hcolon,
    tokens?_blank rfl, h rest hrest, Option.map_map, Option.map_map]
  rfl

theorem isWordChar_of_isDigit {c : Char} (h : c.isDigit) : IsWordChar c := by
  have hne : ∀ d : Char, d.isDigit = false → c ≠ d := by
    rintro d hd rfl
    rw [h] at hd
    cases hd
  refine ⟨hne _ rfl, ?_, ?_⟩
  · simp [punctuation?, hne '[' rfl, hne ']' rfl, hne '\x7b' rfl, hne '\x7d' rfl, hne ',' rfl,
      hne ':' rfl]
  · simp [isBlank, hne ' ' rfl, hne '\n' rfl, hne '\r' rfl, hne '\t' rfl]

theorem lexes_null : Lexes "null".toList [.value .null] := by
  apply lexes_word _ _ rfl
  · decide
  · simp [IsWordChar, punctuation?, isBlank]

theorem ofWord?_of_isDigit {cs : List Char} (h : ∀ c ∈ cs, c.isDigit) :
    ofWord? cs = some (.natural (digitsValue cs)) := by
  have hnull : cs ≠ ['n', 'u', 'l', 'l'] := by
    rintro rfl
    cases h 'n' List.mem_cons_self
  rw [ofWord?, if_neg hnull, if_pos (List.all_eq_true.mpr h)]

theorem lexes_natural (n : Nat) : Lexes n.repr.toList [.value (.natural n)] := by
  have hdigits := Decimal.isDigit_toDigits n
  have htext : n.repr.toList = Nat.toDigits 10 n := by
    rw [Nat.repr, String.toList_ofList]
  rw [htext]
  apply lexes_word Nat.toDigits_ne_nil (fun c hc => isWordChar_of_isDigit (hdigits c hc))
  rw [ofWord?_of_isDigit hdigits, Decimal.digitsValue_toDigits]

theorem numberLayout_spells : numberLayout.Spells where
  exactTail := .inl rfl
  roundedTail := .inr ⟨1, rfl⟩
  signedZero := rfl

theorem mem_positionalText_point (digits : List Char) (exponent : Int) :
    '.' ∈ Decimal.positionalText digits exponent ['.', '0'] := by
  unfold Decimal.positionalText
  dsimp only
  split
  · simp
  split
  · simp
  · simp

/-- A double has a point or a power of ten, which no natural number has. -/
theorem exists_not_isDigit (v : Decimal.Dyadic) :
    ∃ c ∈ numberLayout.magnitudeText v, c.isDigit = false := by
  have hscaled : ∀ d, ∃ c ∈ numberLayout.scaledText d, c.isDigit = false := by
    intro d
    unfold Decimal.Layout.scaledText
    dsimp only
    split
    · exact ⟨'.', mem_positionalText_point _ _, rfl⟩
    · refine ⟨'e', ?_, rfl⟩
      unfold Decimal.scientificText
      dsimp only
      split <;> simp
  unfold Decimal.Layout.magnitudeText
  split
  · exact hscaled _
  · exact hscaled _

theorem isWordChar_of_isNumberChar {c : Char} (h : Decimal.IsNumberChar c) : IsWordChar c := by
  rcases h with hdigit | hother
  · exact isWordChar_of_isDigit hdigit
  · simp only [List.mem_cons, List.not_mem_nil, or_false] at hother
    rcases hother with rfl | rfl | rfl | rfl <;> exact ⟨by decide, rfl, rfl⟩

/-- A finite double is one token, and it is not taken for a natural number. -/
theorem lexes_number {x : Float} {negative : Bool} {v : Decimal.Dyadic}
    (hx : Decimal.Reading.ofFloat x = .finite negative v) :
    Lexes (numberLayout.text x).toList [.value (.number x)] := by
  have hchars := numberLayout_spells.isNumberChar_readingText negative v
  have hdouble := numberLayout_spells.double?_readingText hx
  obtain ⟨c, hc, hdigit⟩ := exists_not_isDigit v
  have hmem : c ∈ numberLayout.readingText (.finite negative v) :=
    List.mem_append_right _ hc
  rw [Decimal.Layout.text, String.toList_ofList, hx]
  apply lexes_word (List.ne_nil_of_mem hmem)
    (fun c hc => isWordChar_of_isNumberChar (hchars c hc))
  have hnull : numberLayout.readingText (.finite negative v) ≠ ['n', 'u', 'l', 'l'] := by
    intro hnull
    rw [hnull] at hchars
    rcases hchars 'n' List.mem_cons_self with h | h
    · cases h
    · simp at h
  rw [ofWord?, if_neg hnull, if_neg, hdouble]
  · rfl
  · intro hall
    rw [List.all_eq_true.mp hall c hmem] at hdigit
    cases hdigit

mutual

/-- The text of a value is read as its tokens. -/
theorem lexes_pretty : (j : Json) → (depth : Nat) → Lexes (j.pretty depth).toList j.tokens
  | .null, _ => lexes_null
  | .natural n, _ => lexes_natural n
  | .string s, _ => lexes_quoted s
  | .number x, _ => by
    rw [pretty, tokens, written, numberText]
    by_cases h : x.isFinite
    · obtain ⟨negative, v, hx⟩ := Decimal.Reading.exists_finite_of_isFinite h
      rw [if_pos h, if_pos h]
      exact lexes_number hx
    · rw [if_neg h, if_neg h]
      exact lexes_null
  | .array items, depth => by
    have hopen : punctuation? '[' = some .openArray := rfl
    have hclose : punctuation? ']' = some .closeArray := rfl
    exact lexes_bracketed hopen hclose (lexes_prettyItems items depth) depth
  | .object members, depth => by
    have hopen : punctuation? '\x7b' = some .openObject := rfl
    have hclose : punctuation? '\x7d' = some .closeObject := rfl
    exact lexes_bracketed hopen hclose (lexes_prettyMembers members depth) depth
termination_by structural j => j

theorem lexes_prettyItems : (js : List Json) → (depth : Nat) →
    List.Forall₂ (fun text ts => Lexes text.toList ts) (prettyItems depth js) (itemsTokens js)
  | [], _ => .nil
  | j :: js, depth => .cons (lexes_pretty j (depth + 1)) (lexes_prettyItems js depth)
termination_by structural js => js

theorem lexes_prettyMembers : (ms : List Member) → (depth : Nat) →
    List.Forall₂ (fun text ts => Lexes text.toList ts) (prettyMembers depth ms) (membersTokens ms)
  | [], _ => .nil
  | ⟨_, value⟩ :: ms, depth =>
    .cons (lexes_member (lexes_pretty value (depth + 1))) (lexes_prettyMembers ms depth)
termination_by structural ms => ms

end

/-- A bracket that is open, with what is complete behind it. -/
inductive Frame where
  | items (js : List Json)
  | members (ms : List Member)
  /-- Behind the colon after a key. -/
  | value (ms : List Member) (key : String)

/-- The brackets that are open, the innermost first, and the value that has just ended. -/
structure Reader where
  frames : List Frame
  last? : Option Json

namespace Reader

/-- A value stands where none has ended, and a comma or closing bracket behind a value. -/
def step : Reader → JsonToken → Option Reader
  | ⟨fs, none⟩, .value j => some ⟨fs, some j⟩
  | ⟨fs, none⟩, .openArray => some ⟨.items [] :: fs, none⟩
  | ⟨fs, none⟩, .openObject => some ⟨.members [] :: fs, none⟩
  | ⟨.items js :: fs, some j⟩, .comma => some ⟨.items (js ++ [j]) :: fs, none⟩
  | ⟨.value ms key :: fs, some j⟩, .comma => some ⟨.members (ms ++ [⟨key, j⟩]) :: fs, none⟩
  | ⟨.members ms :: fs, some (.string key)⟩, .colon => some ⟨.value ms key :: fs, none⟩
  | ⟨.items js :: fs, some j⟩, .closeArray => some ⟨fs, some (.array (js ++ [j]))⟩
  | ⟨.items [] :: fs, none⟩, .closeArray => some ⟨fs, some (.array [])⟩
  | ⟨.value ms key :: fs, some j⟩, .closeObject => some ⟨fs, some (.object (ms ++ [⟨key, j⟩]))⟩
  | ⟨.members [] :: fs, none⟩, .closeObject => some ⟨fs, some (.object [])⟩
  | _, _ => none

def run? (r : Reader) (ts : List JsonToken) : Option Reader :=
  ts.foldlM step r

end Reader

/-- The value that a text is of. -/
def ofText? (text : String) : Option Json := do
  let ts ← tokens? (.plain []) text.toList
  match ← Reader.run? ⟨[], none⟩ ts with
  | ⟨[], last?⟩ => last?
  | _ => none

mutual

/-- The machine reads a value whatever brackets are open around it. -/
theorem run?_tokens : (j : Json) → (fs : List Frame) → (ts : List JsonToken) →
    Reader.run? ⟨fs, none⟩ (j.tokens ++ ts) = Reader.run? ⟨fs, some j.written⟩ ts
  | .null, _, _ | .natural _, _, _ | .number _, _, _ | .string _, _, _ => rfl
  | .array items, fs, ts => by
    rw [tokens, written, List.cons_append, List.append_assoc]
    cases items with
    | nil => rfl
    | cons j js => exact run?_itemsTokens (j :: js) (List.cons_ne_nil j js) [] fs ts
  | .object members, fs, ts => by
    rw [tokens, written, List.cons_append, List.append_assoc]
    cases members with
    | nil => rfl
    | cons m ms => exact run?_membersTokens (m :: ms) (List.cons_ne_nil m ms) [] fs ts
termination_by structural j => j

theorem run?_itemsTokens : (js : List Json) → js ≠ [] → (done : List Json) →
    (fs : List Frame) → (ts : List JsonToken) →
    Reader.run? ⟨.items done :: fs, none⟩
        ([.comma].intercalate (itemsTokens js) ++ .closeArray :: ts) =
      Reader.run? ⟨fs, some (.array (done ++ writtenItems js))⟩ ts
  | [j], _, done, fs, ts => by
    rw [itemsTokens, itemsTokens, List.intercalate_singleton, run?_tokens j]
    rfl
  | j :: k :: js, _, done, fs, ts => by
    have ih := run?_itemsTokens (k :: js) (List.cons_ne_nil k js) (done ++ [j.written]) fs ts
    rw [List.append_assoc] at ih
    rw [itemsTokens, itemsTokens, List.intercalate_cons_cons, List.append_assoc, List.append_assoc,
      run?_tokens j]
    exact ih
termination_by structural js => js

theorem run?_membersTokens : (ms : List Member) → ms ≠ [] → (done : List Member) →
    (fs : List Frame) → (ts : List JsonToken) →
    Reader.run? ⟨.members done :: fs, none⟩
        ([.comma].intercalate (membersTokens ms) ++ .closeObject :: ts) =
      Reader.run? ⟨fs, some (.object (done ++ writtenMembers ms))⟩ ts
  | [⟨key, value⟩], _, done, fs, ts => by
    rw [membersTokens, membersTokens, List.intercalate_singleton]
    exact run?_tokens value (.value done key :: fs) (.closeObject :: ts)
  | ⟨key, value⟩ :: m :: ms, _, done, fs, ts => by
    have ih := run?_membersTokens (m :: ms) (List.cons_ne_nil m ms) (done ++ [⟨key, value.written⟩])
      fs ts
    rw [List.append_assoc] at ih
    have hvalue := run?_tokens value (.value done key :: fs)
      (.comma :: ([.comma].intercalate (membersTokens (m :: ms)) ++ .closeObject :: ts))
    rw [membersTokens, membersTokens_cons m ms, List.intercalate_cons_cons, ← membersTokens_cons,
      List.append_assoc, List.append_assoc]
    exact hvalue.trans ih
termination_by structural ms => ms

end

/-- A value is read from its text, but for the numbers that are not finite. -/
theorem ofText?_pretty (j : Json) (depth : Nat) : ofText? (j.pretty depth) = some j.written := by
  have hlexes := lexes_pretty j depth [] trivial
  have hend : tokens? (.plain []) [] = some [] := rfl
  have hrun := run?_tokens j [] []
  rw [List.append_nil, hend, Option.map_some, List.append_nil] at hlexes
  rw [List.append_nil] at hrun
  unfold ofText?
  rw [hlexes]
  show (Reader.run? ⟨[], none⟩ j.tokens).bind _ = _
  rw [hrun]
  rfl

end Json

end LoxLang
