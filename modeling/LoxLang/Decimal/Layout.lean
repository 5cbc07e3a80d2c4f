import LoxLang.Decimal.Shortest

/-!
Doubles as text. A `Layout` holds the choices of one format: which whole numbers are written out
in full, where positional notation ends, what a whole number ends in and which way ties go.
-/

namespace LoxLang.Decimal

structure Layout where
  /-- The whole magnitudes written digit for digit, not by their shortest digits. -/
  exact : Nat → Bool
  /-- What follows a whole number written digit for digit. -/
  exactTail : String
  /-- What follows a whole number written by its shortest digits. -/
  roundedTail : String
  /-- The decimal exponents of the leading digit that are written without a power of ten. -/
  positional : Int → Bool
  tie : Tie
  /-- Whether negative zero has a sign. -/
  signedZero : Bool

/-- `n` zeros. -/
def zeros (n : Nat) : List Char :=
  List.replicate n '0'

/-- Digits with the point moved `exponent` places to the right, and `tail` where no digit
follows the point. -/
def positionalText (digits : List Char) (exponent : Int) (tail : List Char) : List Char :=
  let point : Int := digits.length + exponent
  if 0 ≤ exponent then digits ++ zeros exponent.toNat ++ tail
  else if 0 < point then digits.take point.toNat ++ '.' :: digits.drop point.toNat
  else '0' :: '.' :: zeros (-point).toNat ++ digits

/-- One digit before the point, and a signed power of ten. -/
def scientificText (digits : List Char) (leading : Int) : List Char :=
  let sign := if leading < 0 then '-' else '+'
  let power := 'e' :: sign :: Nat.toDigits 10 leading.natAbs
  match digits with
  | first :: rest@(_ :: _) => first :: '.' :: rest ++ power
  | _ => digits ++ power

namespace Layout

/-- A decimal number in this layout. -/
def scaledText (l : Layout) (d : Scaled) : List Char :=
  let digits := Nat.toDigits 10 d.coefficient
  let leading := digits.length + d.exponent - 1
  if d.coefficient = 0 || l.positional leading then
    positionalText digits d.exponent l.roundedTail.toList
  else scientificText digits leading

/-- A magnitude in this layout. -/
def magnitudeText (l : Layout) (v : Dyadic) : List Char :=
  match v.whole? with
  | some n =>
    if l.exact n then Nat.toDigits 10 n ++ l.exactTail.toList
    else l.scaledText (v.shortest l.tie)
  | none => l.scaledText (v.shortest l.tie)

def readingText (l : Layout) : Reading → List Char
  | .nan => ['N', 'a', 'N']
  | .infinite negative => (if negative then ['-'] else []) ++ ['i', 'n', 'f']
  | .finite negative v =>
    let signed := negative && (l.signedZero || v.mantissa != 0)
    (if signed then ['-'] else []) ++ l.magnitudeText v

/-- The text of a double. -/
def text (l : Layout) (x : Float) : String :=
  String.ofList (l.readingText (.ofFloat x))

end Layout

end LoxLang.Decimal
