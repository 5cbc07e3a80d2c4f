/-!
Doubles as exact binary fractions. `Reading.ofFloat` takes the bits of a double apart, and
`Dyadic.whole?` tells which magnitudes are whole numbers.
-/

namespace LoxLang.Decimal

/-- The magnitude `mantissa * 2 ^ exponent`. -/
structure Dyadic where
  mantissa : Nat
  exponent : Int
  deriving DecidableEq, Repr

/-- What a double stands for. -/
inductive Reading where
  | nan
  | infinite (negative : Bool)
  | finite (negative : Bool) (magnitude : Dyadic)
  deriving DecidableEq, Repr

namespace Dyadic

/-- The exponent of the subnormal doubles and of the least normal ones. -/
def leastExponent : Int := -1074

/-- The magnitude with biased exponent `biased` and fraction field `fraction`. A normal double
has a leading one that its fraction field leaves out. -/
def ofFields (biased fraction : Nat) : Dyadic :=
  if biased = 0 then ⟨fraction, leastExponent⟩
  else ⟨Nat.pow 2 52 + fraction, leastExponent + (biased - 1 : Nat)⟩

/-- The value as a natural number, if it is one. -/
def whole? (v : Dyadic) : Option Nat :=
  if 0 ≤ v.exponent then some (v.mantissa * Nat.pow 2 v.exponent.toNat)
  else
    let unit := Nat.pow 2 (-v.exponent).toNat
    if v.mantissa % unit = 0 then some (v.mantissa / unit) else none

end Dyadic

namespace Reading

/-- Sign bit, eleven exponent bits, fifty-two fraction bits. -/
def ofBits (bits : Nat) : Reading :=
  let negative := bits / Nat.pow 2 63 % 2 = 1
  let biased := bits / Nat.pow 2 52 % Nat.pow 2 11
  let fraction := bits % Nat.pow 2 52
  if biased = Nat.pow 2 11 - 1 then
    if fraction = 0 then .infinite negative else .nan
  else .finite negative (.ofFields biased fraction)

def ofFloat (x : Float) : Reading :=
  ofBits x.toBits.toNat

/-- The natural number that a double is, if it is one. Negative zero counts as zero. -/
def natural? : Reading → Option Nat
  | .finite negative v => v.whole?.filter fun n => n = 0 || !negative
  | _ => none

end Reading

end LoxLang.Decimal
