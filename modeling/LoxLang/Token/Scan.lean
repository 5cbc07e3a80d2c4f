import LoxLang.Token
import LoxLang.Diagnostic

/-!
Reading a text as tokens. A text falls into stretches: blanks and comments, lexemes, and faults.
Each stretch is as long as possible and takes at least one character, so `scan` ends.
-/

namespace LoxLang

/-- What a stretch of text is. -/
inductive Role where
  | blank
  | token (kind : Kind)
  | fault (error : LexicalError)
  deriving DecidableEq, Repr

/-- A beginning of a text, what it is and what follows it. -/
structure Stretch where
  consumed : List Char
  rest : List Char
  role : Role
  deriving DecidableEq, Repr

def isSpace (c : Char) : Bool :=
  c = ' ' || c = '\r' || c = '\t' || c = '\n'

def isWordStart (c : Char) : Bool :=
  c.isAlpha || c = '_'

def isWordPart (c : Char) : Bool :=
  c.isAlphanum || c = '_'

/-- The text after a block comment in which `depth` comments are open inside the outermost one.
Pairs are taken from left to right. -/
def afterComment? : Nat → List Char → Option (List Char)
  | depth, '/' :: '*' :: cs => afterComment? (depth + 1) cs
  | 0, '*' :: '/' :: cs => some cs
  | depth + 1, '*' :: '/' :: cs => afterComment? depth cs
  | depth, _ :: cs => afterComment? depth cs
  | _, [] => none

theorem afterComment?_length {depth : Nat} {cs rest : List Char}
    (h : afterComment? depth cs = some rest) : rest.length ≤ cs.length := by
  fun_induction afterComment? depth cs with
  | case1 depth cs ih => have := ih h; simp only [List.length_cons]; omega
  | case2 cs => cases h; simp only [List.length_cons]; omega
  | case3 depth cs ih => have := ih h; simp only [List.length_cons]; omega
  | case4 depth c cs _ _ _ ih => have := ih h; simp only [List.length_cons]; omega
  | case5 => cases h

/-- The natural number that decimal digits spell. -/
def digitsValue (digits : List Char) : Nat :=
  digits.foldl (fun n c => 10 * n + (c.toNat - '0'.toNat)) 0

/-- The double nearest to `whole.fraction`. -/
def numberValue (whole fraction : List Char) : Float :=
  Float.ofScientific (digitsValue (whole ++ fraction)) true fraction.length

namespace Stretch

/-- A number that begins with `whole`, with the fraction if a digit follows the point. -/
def number (whole rest : List Char) : Stretch :=
  match rest with
  | '.' :: c :: cs =>
    if c.isDigit then
      let fraction := c :: cs.takeWhile Char.isDigit
      ⟨whole ++ '.' :: fraction, cs.dropWhile Char.isDigit,
        .token (.number (numberValue whole fraction))⟩
    else ⟨whole, rest, .token (.number (numberValue whole []))⟩
  | _ => ⟨whole, rest, .token (.number (numberValue whole []))⟩

/-- A word: a keyword if it is in the table, else an identifier. -/
def word (letters rest : List Char) : Stretch :=
  ⟨letters, rest, .token (match Keyword.ofWord? (String.ofList letters) with
    | some k => .keyword k
    | none => .identifier)⟩

/-- The text after an opening quote, up to the next quote. -/
def string (cs : List Char) : Stretch :=
  let contents := cs.takeWhile (· != '\"')
  match cs.dropWhile (· != '\"') with
  | quote :: rest =>
    ⟨'\"' :: contents ++ [quote], rest, .token (.string (String.ofList contents))⟩
  | [] => ⟨'\"' :: cs, [], .fault .unterminatedString⟩

/-- The text after the two characters that open a block comment. -/
def blockComment (cs : List Char) : Stretch :=
  match afterComment? 0 cs with
  | some rest => ⟨'/' :: '*' :: cs.take (cs.length - rest.length), rest, .blank⟩
  | none => ⟨'/' :: '*' :: cs, [], .fault .unterminatedComment⟩

/-- A comment up to the end of its line. -/
def lineComment (cs : List Char) : Stretch :=
  ⟨'/' :: '/' :: cs.takeWhile (· != '\n'), cs.dropWhile (· != '\n'), .blank⟩

/-- A symbol, of two characters where that is possible. -/
def symbol (c : Char) (s : Symbol) (cs : List Char) : Stretch :=
  match s.withEqual?, cs with
  | some long, '=' :: rest => ⟨[c, '='], rest, .token (.symbol long)⟩
  | _, _ => ⟨[c], cs, .token (.symbol s)⟩

/-- The first stretch of the text `c :: cs`. -/
def first (c : Char) (cs : List Char) : Stretch :=
  if isSpace c then ⟨[c], cs, .blank⟩
  else if c = '\"' then string cs
  else if c.isDigit then
    number (c :: cs.takeWhile Char.isDigit) (cs.dropWhile Char.isDigit)
  else if isWordStart c then
    word (c :: cs.takeWhile isWordPart) (cs.dropWhile isWordPart)
  else match c, cs with
    | '/', '/' :: rest => lineComment rest
    | '/', '*' :: rest => blockComment rest
    | _, _ =>
      match Symbol.ofChar? c with
      | some s => symbol c s cs
      | none => ⟨[c], cs, .fault (.unexpectedCharacter c)⟩

private theorem length_dropWhile_le (p : Char → Bool) (cs : List Char) :
    (cs.dropWhile p).length ≤ cs.length :=
  (List.dropWhile_sublist p).length_le

theorem length_rest_number_le (whole rest : List Char) :
    (number whole rest).rest.length ≤ rest.length := by
  unfold number
  split
  · rename_i cs
    have := length_dropWhile_le Char.isDigit cs
    split
    · simp only [List.length_cons]; omega
    · exact Nat.le_refl _
  · exact Nat.le_refl _

theorem length_rest_string_le (cs : List Char) : (string cs).rest.length ≤ cs.length := by
  have := length_dropWhile_le (· != '\"') cs
  unfold string
  split
  · rename_i h
    rw [h, List.length_cons] at this
    exact Nat.le_of_succ_le this
  · exact Nat.zero_le _

theorem length_rest_blockComment_le (cs : List Char) :
    (blockComment cs).rest.length ≤ cs.length := by
  unfold blockComment
  split
  · rename_i h
    exact afterComment?_length h
  · exact Nat.zero_le _

theorem length_rest_symbol_le (c : Char) (s : Symbol) (cs : List Char) :
    (symbol c s cs).rest.length ≤ cs.length := by
  unfold symbol
  split
  · exact Nat.le_succ _
  · exact Nat.le_refl _

/-- A stretch takes at least one character. -/
theorem length_rest_first_le (c : Char) (cs : List Char) :
    (first c cs).rest.length ≤ cs.length := by
  unfold first
  split
  · exact Nat.le_refl _
  split
  · exact length_rest_string_le cs
  split
  · exact Nat.le_trans (length_rest_number_le _ _) (length_dropWhile_le _ _)
  split
  · exact length_dropWhile_le _ _
  split
  · exact Nat.le_trans (length_dropWhile_le _ _) (Nat.le_succ _)
  · exact Nat.le_trans (length_rest_blockComment_le _) (Nat.le_succ _)
  · split
    · exact length_rest_symbol_le _ _ _
    · exact Nat.le_refl _

end Stretch

/-- A token or a fault, in the order of the text. -/
inductive Item where
  | token (t : Token)
  | fault (line : Nat) (error : LexicalError)
  deriving DecidableEq, Repr

/-- What a text reads as, and the line on which it ends. -/
structure Scan where
  items : List Item
  endLine : Nat
  deriving DecidableEq, Repr

/-- The number of lines that a text ends. -/
def lineBreaks (cs : List Char) : Nat :=
  cs.count '\n'

/-- What a stretch from line `first` to line `last` adds to a scan. A token and an unclosed
string are on the line where they end, an unclosed comment is on the line where it begins. -/
def Stretch.item? (s : Stretch) (first last : Nat) : Option Item :=
  match s.role with
  | .blank => none
  | .token kind => some (.token ⟨kind, String.ofList s.consumed, last⟩)
  | .fault .unterminatedComment => some (.fault first .unterminatedComment)
  | .fault error => some (.fault last error)

/-- Scans from line `line` on, with the items found so far in reverse. -/
def scanFrom (found : List Item) (line : Nat) : List Char → Scan
  | [] => ⟨found.reverse, line⟩
  | c :: cs =>
    let s := Stretch.first c cs
    let last := line + lineBreaks s.consumed
    scanFrom ((s.item? line last).toList ++ found) last s.rest
termination_by cs => cs.length
decreasing_by exact Nat.lt_succ_of_le (Stretch.length_rest_first_le c cs)

/-- Reads a whole program text. -/
def scan (source : String) : Scan :=
  scanFrom [] 1 source.toList

namespace Scan

def tokens (s : Scan) : List Token :=
  s.items.filterMap fun
    | .token t => some t
    | .fault .. => none

def errors (s : Scan) : List Diagnostic :=
  s.items.filterMap fun
    | .token _ => none
    | .fault line error => some (.lexical line error)

end Scan

end LoxLang
