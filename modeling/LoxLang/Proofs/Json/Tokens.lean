import LoxLang.Json
import LoxLang.Proofs.Decimal.Decoding

/-!
JSON text as tokens. A string ends at the first quote that has no backslash in front of it, and all
else is punctuation, blanks and the words between them.
-/

namespace LoxLang

inductive JsonToken where
  /-- A string, a number or `null`. -/
  | value (j : Json)
  | openArray
  | closeArray
  | openObject
  | closeObject
  | comma
  | colon

namespace Json

def punctuation? (c : Char) : Option JsonToken :=
  if c = '[' then some .openArray
  else if c = ']' then some .closeArray
  else if c = '\x7b' then some .openObject
  else if c = '\x7d' then some .closeObject
  else if c = ',' then some .comma
  else if c = ':' then some .colon
  else none

def isBlank (c : Char) : Bool :=
  c = ' ' || c = '\n' || c = '\r' || c = '\t'

/-- Digits alone are a natural number, and a double has a point or a power of ten. -/
def ofWord? (word : List Char) : Option Json :=
  if word = ['n', 'u', 'l', 'l'] then some .null
  else if word.all Char.isDigit then some (.natural (digitsValue word))
  else (Decimal.double? word).map .number

/-- The token of the word before a blank, punctuation or the end, if there is a word. -/
def wordTokens? (word : List Char) : Option (List JsonToken) :=
  if word = [] then some [] else (ofWord? word).map fun j => [.value j]

/-- The character that a backslash and another one stand for. -/
def unescape? (c : Char) : Option Char :=
  if c = '\"' || c = '\\' || c = '/' then some c
  else if c = 'b' then some '\x08'
  else if c = 'f' then some '\x0c'
  else if c = 'n' then some '\n'
  else if c = 'r' then some '\r'
  else if c = 't' then some '\t'
  else none

def hexValue (c : Char) : Nat :=
  if c.isDigit then c.toNat - '0'.toNat else c.toLower.toNat - 'a'.toNat + 10

/-- Where in a text the next character stands, with what is read of the word or string there. -/
inductive Place where
  | plain (word : List Char)
  | quoted (contents : List Char)
  | escaped (contents : List Char)
  /-- Among the four digits of a character that is given by its number. -/
  | numbered (contents : List Char) (digits code : Nat)

/-- The tokens of what is left of a text. -/
def tokens? : Place → List Char → Option (List JsonToken)
  | .plain word, [] => wordTokens? word
  | _, [] => none
  | .plain word, c :: cs =>
    if c = '\"' then if word = [] then tokens? (.quoted []) cs else none
    else
      match punctuation? c, isBlank c with
      | some t, _ => do return (← wordTokens? word) ++ t :: (← tokens? (.plain []) cs)
      | none, true => do return (← wordTokens? word) ++ (← tokens? (.plain []) cs)
      | none, false => tokens? (.plain (word ++ [c])) cs
  | .quoted contents, c :: cs =>
    if c = '\"' then do
      return .value (.string (String.ofList contents)) :: (← tokens? (.plain []) cs)
    else if c = '\\' then tokens? (.escaped contents) cs
    else tokens? (.quoted (contents ++ [c])) cs
  | .escaped contents, c :: cs =>
    if c = 'u' then tokens? (.numbered contents 4 0) cs
    else do tokens? (.quoted (contents ++ [← unescape? c])) cs
  | .numbered contents digits code, c :: cs =>
    let code := 16 * code + hexValue c
    if digits = 1 then tokens? (.quoted (contents ++ [Char.ofNat code])) cs
    else tokens? (.numbered contents (digits - 1) code) cs

attribute [local simp] tokens?

/-- Whether no word goes on in a text. -/
def Breaks : List Char → Prop
  | [] => True
  | c :: _ => (punctuation? c).isSome ∨ isBlank c

/-- Whether a text is read as tokens wherever no word goes on behind it. -/
def Lexes (cs : List Char) (ts : List JsonToken) : Prop :=
  ∀ rest, Breaks rest → tokens? (.plain []) (cs ++ rest) = (tokens? (.plain []) rest).map (ts ++ ·)

variable {c : Char} {cs rest : List Char} {t : JsonToken}

theorem breaks_of_punctuation? (h : punctuation? c = some t) (cs : List Char) :
    Breaks (c :: cs) :=
  .inl (Option.isSome_iff_exists.mpr ⟨t, h⟩)

theorem punctuation?_of_isBlank (h : isBlank c) : punctuation? c = none := by
  simp only [isBlank, Bool.or_eq_true, decide_eq_true_eq] at h
  rcases h with ((rfl | rfl) | rfl) | rfl <;> rfl

theorem ne_quote_of_isBlank (h : isBlank c) : c ≠ '\"' := by
  rintro rfl
  cases h

theorem ne_quote_of_punctuation? (h : punctuation? c = some t) : c ≠ '\"' := by
  rintro rfl
  cases h

theorem tokens?_blank (h : isBlank c) (cs : List Char) :
    tokens? (.plain []) (c :: cs) = tokens? (.plain []) cs := by
  rw [tokens?, if_neg (ne_quote_of_isBlank h), punctuation?_of_isBlank h, h]
  cases tokens? (.plain []) cs <;> rfl

theorem tokens?_punctuation (h : punctuation? c = some t) (cs : List Char) :
    tokens? (.plain []) (c :: cs) = (tokens? (.plain []) cs).map (t :: ·) := by
  rw [tokens?, if_neg (ne_quote_of_punctuation? h), h]
  cases tokens? (.plain []) cs <;> rfl

theorem tokens?_newline (depth : Nat) (cs : List Char) :
    tokens? (.plain []) ((newline depth).toList ++ cs) = tokens? (.plain []) cs := by
  have hblanks : ∀ n, tokens? (.plain []) (List.replicate n ' ' ++ cs) =
      tokens? (.plain []) cs := by
    intro n
    induction n with
    | zero => rfl
    | succ n ih => rw [List.replicate_succ, List.cons_append, tokens?_blank rfl, ih]
  rw [newline, String.toList_ofList, List.cons_append, tokens?_blank rfl, hblanks]

/-- The characters of words. -/
def IsWordChar (c : Char) : Prop :=
  c ≠ '\"' ∧ punctuation? c = none ∧ isBlank c = false

theorem tokens?_word (hcs : ∀ c ∈ cs, IsWordChar c) (word rest : List Char) :
    tokens? (.plain word) (cs ++ rest) = tokens? (.plain (word ++ cs)) rest := by
  induction cs generalizing word with
  | nil => simp
  | cons c cs ih =>
    obtain ⟨⟨hquote, hpunctuation, hblank⟩, hcs⟩ := List.forall_mem_cons.mp hcs
    rw [List.cons_append, tokens?, if_neg hquote, hpunctuation, hblank]
    simp [ih hcs]

/-- A word is one token. -/
theorem lexes_word {j : Json} (hne : cs ≠ []) (hcs : ∀ c ∈ cs, IsWordChar c)
    (hj : ofWord? cs = some j) : Lexes cs [.value j] := by
  intro rest hbreaks
  have hword : wordTokens? cs = some [.value j] := by
    rw [wordTokens?, if_neg hne, hj]
    rfl
  rw [tokens?_word hcs, List.nil_append]
  cases rest with
  | nil =>
    rw [tokens?, tokens?, hword]
    rfl
  | cons c rest =>
    rcases hbreaks with hpunctuation | hblank
    · obtain ⟨t, ht⟩ := Option.isSome_iff_exists.mp hpunctuation
      rw [tokens?_punctuation ht, tokens?, if_neg (ne_quote_of_punctuation? ht), ht, hword]
      cases tokens? (.plain []) rest <;> rfl
    · rw [tokens?_blank hblank, tokens?, if_neg (ne_quote_of_isBlank hblank),
        punctuation?_of_isBlank hblank, hblank, hword]
      cases tokens? (.plain []) rest <;> rfl

theorem hexValue_digitChar : ∀ n < 16, hexValue (Nat.digitChar n) = n := by
  decide

/-- What is written for a character in a string stands for that character. Seven characters have a
letter or a sign of their own behind the backslash, and the others below a blank their number. -/
theorem tokens?_escape (contents : List Char) (c : Char) (rest : List Char) :
    tokens? (.quoted contents) (escape c ++ rest) = tokens? (.quoted (contents ++ [c])) rest := by
  unfold escape
  iterate 7
    split
    · subst c
      rfl
  split
  · have hhigh := hexValue_digitChar (c.toNat / 16) (by omega)
    have hlow := hexValue_digitChar (c.toNat % 16) (by omega)
    have hzero : hexValue '0' = 0 := rfl
    have hnumber : 16 * (c.toNat / 16) + c.toNat % 16 = c.toNat := by omega
    simp [hhigh, hlow, hzero, hnumber]
  · rename_i hquote hbackslash _ _ _ _ _ _
    simp [hquote, hbackslash]

/-- A string in quotes is one token, whatever is in it. -/
theorem lexes_quoted (s : String) : Lexes (quoted s).toList [.value (.string s)] := by
  intro rest _
  have hcontents : ∀ (cs contents : List Char) rest,
      tokens? (.quoted contents) (cs.flatMap escape ++ rest) =
        tokens? (.quoted (contents ++ cs)) rest := by
    intro cs
    induction cs with
    | nil => simp
    | cons c cs ih =>
      intro contents rest
      rw [List.flatMap_cons, List.append_assoc, tokens?_escape, ih, List.append_assoc]
      rfl
  have hend : ∀ cs rest, tokens? (.quoted cs) ('\"' :: rest) =
      (tokens? (.plain []) rest).map (.value (.string (String.ofList cs)) :: ·) := by
    intro cs rest
    rw [tokens?, if_pos rfl]
    cases tokens? (.plain []) rest <;> rfl
  rw [quoted, String.toList_ofList, List.cons_append, List.cons_append, tokens?, if_pos rfl,
    if_pos rfl, List.append_assoc, hcontents, List.nil_append, List.singleton_append, hend,
    String.ofList_toList]
  rfl

end Json

end LoxLang
