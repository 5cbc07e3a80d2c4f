import LoxLang.Token.Scan

/-!
Reading a text one token at a time, on its bytes in UTF-8. A scanner gives a token or a fault each
time it is asked, then one end of the text, and then nothing. A part of the text that it takes must
begin and end between characters: otherwise there is no such part, and no answer.
-/

namespace LoxLang

/-- The part of a text between two places, which are counted in bytes. -/
def slice? (text : String) (start stop : Nat) : Option String :=
  if h : start ≤ stop ∧ String.Pos.Raw.IsValid text ⟨start⟩ ∧
      String.Pos.Raw.IsValid text ⟨stop⟩ then
    some (text.extract ⟨⟨start⟩, h.2.1⟩ ⟨⟨stop⟩, h.2.2⟩)
  else none

/-- The value of digits with a point between them or not. -/
def numeralValue (text : String) : Float :=
  numberValue (text.toList.takeWhile (· != '.')) ((text.toList.dropWhile (· != '.')).drop 1)

/-- What a scanner gives. -/
inductive Produced where
  | item (i : Item)
  | endOfText (line : Nat)
  deriving DecidableEq, Repr

/-- A scanner stands behind the bytes that it has read. The token that it reads begins at
`start`. -/
structure Scanner where
  source : String
  start : Nat
  pos : Nat
  line : Nat
  done : Bool
  deriving DecidableEq, Repr

namespace Scanner

/-- A scanner that has read nothing. -/
def new (source : String) : Scanner := ⟨source, 0, 0, 1, false⟩

def bytes (s : Scanner) : List UInt8 :=
  s.source.toByteArray.data.toList

def size (s : Scanner) : Nat :=
  s.bytes.length

/-- The bytes that are left. -/
def rest (s : Scanner) : List UInt8 :=
  s.bytes.drop s.pos

def atEnd (s : Scanner) : Bool :=
  s.size ≤ s.pos

/-- A byte further on, or zero beyond the end. -/
def peekAt (s : Scanner) (offset : Nat) : UInt8 :=
  s.bytes[s.pos + offset]?.getD 0

def peek (s : Scanner) : UInt8 :=
  s.peekAt 0

/-- Whether these two bytes come next. -/
def sees (s : Scanner) (first second : Char) : Bool :=
  s.peek = first.toUInt8 && s.peekAt 1 = second.toUInt8

/-- Goes over bytes that end no line. -/
def advance (s : Scanner) (count : Nat) : Scanner :=
  { s with pos := s.pos + count }

/-- Goes over a byte. Where it is used there is one more. -/
def bump (s : Scanner) : Scanner :=
  { s with pos := s.pos + 1, line := if s.peek = '\n'.toUInt8 then s.line + 1 else s.line }

/-- Goes over so many bytes one by one. -/
def bumps : Nat → Scanner → Scanner
  | 0, s => s
  | count + 1, s => bumps count s.bump

/-- How far away a byte is. -/
def find? (s : Scanner) (c : Char) : Option Nat :=
  s.rest.findIdx? (· = c.toUInt8)

/-- Goes over the next bytes that satisfy a condition. -/
def skipWhile (s : Scanner) (p : UInt8 → Bool) : Scanner :=
  s.advance (s.rest.takeWhile p).length

def lexeme? (s : Scanner) : Option String :=
  slice? s.source s.start s.pos

def isSpaceByte (b : UInt8) : Bool :=
  b = ' '.toUInt8 || b = '\r'.toUInt8 || b = '\t'.toUInt8 || b = '\n'.toUInt8

def isDigitByte (b : UInt8) : Bool :=
  '0'.toUInt8 ≤ b && b ≤ '9'.toUInt8

def isWordStartByte (b : UInt8) : Bool :=
  'a'.toUInt8 ≤ b && b ≤ 'z'.toUInt8 || 'A'.toUInt8 ≤ b && b ≤ 'Z'.toUInt8 || b = '_'.toUInt8

def isWordPartByte (b : UInt8) : Bool :=
  isWordStartByte b || isDigitByte b

/-- A scanner further on in the same text has less left of it. -/
theorem left_lt {s s' : Scanner} (h : ¬ s.atEnd) (hsource : s'.source = s.source)
    (hpos : s.pos < s'.pos) : s'.size - s'.pos < s.size - s.pos := by
  have hsize : s'.size = s.size := by rw [size, size, bytes, bytes, hsource]
  have hend : s.pos < s.size := by simpa [atEnd] using h
  omega

theorem not_atEnd_of_peek {s : Scanner} (h : s.peek ≠ 0) : ¬ s.atEnd := by
  intro hend
  refine h ?_
  have hle : s.bytes.length ≤ s.pos := of_decide_eq_true hend
  simp [peek, peekAt, hle]

/-- Goes over a comment in which `depth` comments are open, and says whether it is closed. -/
def blockComment (depth : Nat) (s : Scanner) : Bool × Scanner :=
  if s.atEnd then (false, s)
  else if s.sees '/' '*' then blockComment (depth + 1) (s.advance 2)
  else if s.sees '*' '/' then
    if depth - 1 = 0 then (true, s.advance 2) else blockComment (depth - 1) (s.advance 2)
  else blockComment depth s.bump
termination_by s.size - s.pos
decreasing_by
  · exact left_lt ‹_› rfl (Nat.lt_add_of_pos_right (by decide))
  · exact left_lt ‹_› rfl (Nat.lt_add_of_pos_right (by decide))
  · exact left_lt ‹_› rfl (Nat.lt_succ_self _)

theorem blockComment_source (depth : Nat) (s : Scanner) :
    (blockComment depth s).2.source = s.source := by
  fun_induction blockComment depth s with
  | case1 => rfl
  | case2 depth s _ _ ih => exact ih
  | case3 => rfl
  | case4 depth s _ _ _ _ ih => exact ih
  | case5 depth s _ _ _ ih => exact ih

theorem le_blockComment_pos (depth : Nat) (s : Scanner) :
    s.pos ≤ (blockComment depth s).2.pos := by
  fun_induction blockComment depth s with
  | case1 => exact Nat.le_refl _
  | case2 depth s _ _ ih => exact Nat.le_trans (Nat.le_add_right _ _) ih
  | case3 => exact Nat.le_add_right _ _
  | case4 depth s _ _ _ _ ih => exact Nat.le_trans (Nat.le_add_right _ _) ih
  | case5 depth s _ _ _ ih => exact Nat.le_trans (Nat.le_add_right _ _) ih

theorem not_atEnd_of_sees {s : Scanner} {second : Char} (h : s.sees '/' second) : ¬ s.atEnd := by
  have hpeek : s.peek = '/'.toUInt8 := by
    simp only [sees, Bool.and_eq_true, decide_eq_true_eq] at h
    exact h.1
  refine not_atEnd_of_peek ?_
  rw [hpeek]
  decide

/-- A comment takes what opens it. -/
theorem lt_blockComment_pos {s : Scanner} (h : s.sees '/' '*') :
    s.pos < (blockComment 0 s).2.pos := by
  rw [blockComment, if_neg (not_atEnd_of_sees h), if_pos h]
  have hle := le_blockComment_pos (0 + 1) (s.advance 2)
  exact Nat.lt_of_lt_of_le (Nat.lt_add_of_pos_right Nat.two_pos) hle

/-- Goes over the bytes to the end of the line. -/
def skipLine (s : Scanner) : Scanner :=
  s.advance ((s.find? '\n').getD (s.size - s.pos))

theorem lt_skipLine_pos {s : Scanner} (h : s.sees '/' '/') : s.pos < s.skipLine.pos := by
  have hend := not_atEnd_of_sees h
  have hlt : s.pos < s.bytes.length :=
    Nat.lt_of_not_le fun hle => hend (decide_eq_true hle)
  have hpeek : s.bytes[s.pos] = '/'.toUInt8 := by
    simp only [sees, Bool.and_eq_true, decide_eq_true_eq] at h
    simpa [peek, peekAt, hlt] using h.1
  refine Nat.lt_add_of_pos_right ?_
  rw [find?, rest, List.drop_eq_getElem_cons hlt, hpeek, List.findIdx?_cons, if_neg (by decide)]
  cases (s.bytes.drop (s.pos + 1)).findIdx? (· = '\n'.toUInt8) with
  | none => exact Nat.sub_pos_of_lt hlt
  | some n => exact Nat.succ_pos n

/-- Goes over blanks and comments, up to a comment that is not closed. -/
def skipTrivia (s : Scanner) : Option Item × Scanner :=
  if isSpaceByte s.peek then skipTrivia s.bump
  else if s.sees '/' '/' then skipTrivia s.skipLine
  else if s.sees '/' '*' then
    if (s.blockComment 0).1 then skipTrivia (s.blockComment 0).2
    else (some (.fault s.line .unterminatedComment), (s.blockComment 0).2)
  else (none, s)
termination_by s.size - s.pos
decreasing_by
  · rename_i h
    refine left_lt (not_atEnd_of_peek fun hz => ?_) rfl (Nat.lt_succ_self _)
    rw [hz] at h
    exact absurd h (by decide)
  · rename_i h
    exact left_lt (not_atEnd_of_sees h) rfl (lt_skipLine_pos h)
  · rename_i h _
    exact left_lt (not_atEnd_of_sees h) (blockComment_source _ _) (lt_blockComment_pos h)

/-- The kind of a token or an error and its line, with the scanner behind it. -/
abbrev Reading := Option (Except (Nat × LexicalError) Kind × Scanner)

/-- Reads a string behind its opening quote. -/
def string (s : Scanner) : Reading :=
  match s.find? '\"' with
  | some count => do
    let contents ← slice? s.source (s.start + 1) (s.pos + count)
    return (.ok (.string contents), (s.bumps count).advance 1)
  | none =>
    let s := s.bumps (s.size - s.pos)
    some (.error (s.line, .unterminatedString), s)

/-- Goes over a point and digits, if a digit follows the point. -/
def skipFraction (s : Scanner) : Scanner :=
  if s.peek = '.'.toUInt8 && isDigitByte (s.peekAt 1) then (s.advance 1).skipWhile isDigitByte
  else s

/-- Reads a number behind its first digit. -/
def number (s : Scanner) : Reading := do
  let s := (s.skipWhile isDigitByte).skipFraction
  let lexeme ← s.lexeme?
  return (.ok (.number (numeralValue lexeme)), s)

/-- Reads a word behind its first letter. -/
def word (s : Scanner) : Reading := do
  let s := s.skipWhile isWordPartByte
  let lexeme ← s.lexeme?
  match Keyword.ofWord? lexeme with
  | some k => return (.ok (.keyword k), s)
  | none => return (.ok .identifier, s)

/-- Reads a symbol behind its first character. -/
def symbol (s : Scanner) (short : Symbol) : Kind × Scanner :=
  match short.withEqual? with
  | some long => if s.peek = '='.toUInt8 then (.symbol long, s.advance 1) else (.symbol short, s)
  | none => (.symbol short, s)

/-- Goes over the whole character at the start, of which one byte has been read. -/
def unexpected (s : Scanner) : Reading := do
  let text ← slice? s.source s.start s.size
  let c := text.toList.head?.getD '\uFFFD'
  return (.error (s.line, .unexpectedCharacter c), { s with pos := s.start + c.utf8Size })

/-- Reads a token that begins here. -/
def token (s : Scanner) : Reading :=
  match Symbol.ofChar? (Char.ofUInt8 s.peek) with
  | some short =>
    let (kind, s) := s.bump.symbol short
    some (.ok kind, s)
  | none =>
    if s.peek = '\"'.toUInt8 then s.bump.string
    else if isDigitByte s.peek then s.bump.number
    else if isWordStartByte s.peek then s.bump.word
    else s.bump.unexpected

/-- What a scanner gives when it is asked once more. Behind the end of the text it gives nothing. -/
def next (s : Scanner) : Option (Option Produced × Scanner) :=
  if s.done then some (none, s)
  else match s.skipTrivia with
    | (some fault, s) => some (some (.item fault), s)
    | (none, s) =>
      let s := { s with start := s.pos }
      if s.atEnd then some (some (.endOfText s.line), { s with done := true })
      else do
        let (result, s) ← s.token
        match result with
        | .error (line, error) => return (some (.item (.fault line error)), s)
        | .ok kind =>
          let lexeme ← s.lexeme?
          return (some (.item (.token ⟨kind, lexeme, s.line⟩)), s)

/-- What a scanner gives when it is asked so many times. -/
def calls : Nat → Scanner → Option (List (Option Produced))
  | 0, _ => some []
  | count + 1, s => do
    let (given, s) ← s.next
    let more ← calls count s
    return given :: more

end Scanner

end LoxLang
