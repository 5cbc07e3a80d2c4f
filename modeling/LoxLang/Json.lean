import LoxLang.Decimal.Layout

/-!
JSON values and their text: `compact` on one line, `pretty` with one member a line.
-/

namespace LoxLang

mutual

inductive Json where
  | null
  | natural (n : Nat)
  | number (x : Float)
  | string (s : String)
  | array (items : List Json)
  | object (members : List Member)

structure Member where
  key : String
  value : Json

end

namespace Json

/-- Doubles have their shortest digits, a half goes to the even neighbour, and from `1e16` on or
below `1e-5` there is a power of ten. -/
def numberLayout : Decimal.Layout where
  exact _ := false
  exactTail := ""
  roundedTail := ".0"
  positional leading := -5 ≤ leading && leading < 16
  tie := .toEven
  signedZero := true

/-- JSON has no infinities and no NaN. -/
def numberText (x : Float) : String :=
  if x.isFinite then numberLayout.text x else "null"

/-- A control character without a short escape has its number in four hexadecimal digits. -/
def escape (c : Char) : List Char :=
  if c = '\"' then ['\\', '\"']
  else if c = '\\' then ['\\', '\\']
  else if c = '\x08' then ['\\', 'b']
  else if c = '\x0c' then ['\\', 'f']
  else if c = '\n' then ['\\', 'n']
  else if c = '\r' then ['\\', 'r']
  else if c = '\t' then ['\\', 't']
  else if c.toNat < 0x20 then
    ['\\', 'u', '0', '0', Nat.digitChar (c.toNat / 16), Nat.digitChar (c.toNat % 16)]
  else [c]

def quoted (s : String) : String :=
  String.ofList ('\"' :: s.toList.flatMap escape ++ ['\"'])

mutual

def compact : Json → String
  | .null => "null"
  | .natural n => n.repr
  | .number x => numberText x
  | .string s => quoted s
  | .array items => "[" ++ ",".intercalate (compactItems items) ++ "]"
  | .object members => "\x7b" ++ ",".intercalate (compactMembers members) ++ "\x7d"

def compactItems : List Json → List String
  | [] => []
  | j :: js => j.compact :: compactItems js

def compactMembers : List Member → List String
  | [] => []
  | ⟨key, value⟩ :: ms => (quoted key ++ ":" ++ value.compact) :: compactMembers ms

end

/-- A line break and `depth` steps of two blanks. -/
def newline (depth : Nat) : String :=
  String.ofList ('\n' :: List.replicate (2 * depth) ' ')

/-- Texts on lines of their own, one step deeper than the brackets around them. -/
def bracketed (opening closing : String) (depth : Nat) : List String → String
  | [] => opening ++ closing
  | texts =>
    opening ++ newline (depth + 1) ++ ("," ++ newline (depth + 1)).intercalate texts ++
      newline depth ++ closing

mutual

/-- The text at nesting `depth`, without a final line break. -/
def pretty (depth : Nat) : Json → String
  | .null => "null"
  | .natural n => n.repr
  | .number x => numberText x
  | .string s => quoted s
  | .array items => bracketed "[" "]" depth (prettyItems depth items)
  | .object members => bracketed "\x7b" "\x7d" depth (prettyMembers depth members)

/-- The texts of the items of an array at nesting `depth`. -/
def prettyItems (depth : Nat) : List Json → List String
  | [] => []
  | j :: js => j.pretty (depth + 1) :: prettyItems depth js

/-- The texts of the members of an object at nesting `depth`. -/
def prettyMembers (depth : Nat) : List Member → List String
  | [] => []
  | ⟨key, value⟩ :: ms =>
    (quoted key ++ ": " ++ value.pretty (depth + 1)) :: prettyMembers depth ms

end

end Json

end LoxLang
