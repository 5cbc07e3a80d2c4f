/-!
Decoding of UTF-8. A text that is not well formed is refused at the first byte that rules it out,
with the place where the broken character begins.
-/

namespace LoxLang.Utf8

/-- Why bytes are no text. -/
inductive Fault where
  /-- `length` bytes from `start` begin no character. -/
  | invalid (start length : Nat)
  /-- The bytes end inside the character that begins at `start`. -/
  | truncated (start : Nat)
  deriving DecidableEq, Repr

def Fault.message : Fault → String
  | .invalid start length =>
    "invalid utf-8 sequence of " ++ length.repr ++ " bytes from index " ++ start.repr
  | .truncated start => "incomplete utf-8 byte sequence from index " ++ start.repr

/-- A character of which `seen` bytes are read and `owed` are missing. The next byte lies between
`least` and `greatest`. -/
structure Pending where
  seen : Nat
  owed : Nat
  least : Nat
  greatest : Nat
  value : Nat
  deriving DecidableEq, Repr

/-- The least and greatest byte that continues a character. -/
def tailLeast : Nat := 0x80

def tailGreatest : Nat := 0xBF

/-- What the first byte of a longer character promises. The bounds on the second byte leave out
overlong forms, surrogates and everything past `U+10FFFF`. -/
def Pending.ofLead? (b : Nat) : Option Pending :=
  if 0xC2 ≤ b ∧ b ≤ 0xDF then some ⟨1, 1, tailLeast, tailGreatest, b % 0x20⟩
  else if b = 0xE0 then some ⟨1, 2, 0xA0, tailGreatest, 0⟩
  else if b = 0xED then some ⟨1, 2, tailLeast, 0x9F, 0xD⟩
  else if 0xE1 ≤ b ∧ b ≤ 0xEF then some ⟨1, 2, tailLeast, tailGreatest, b % 0x10⟩
  else if b = 0xF0 then some ⟨1, 3, 0x90, tailGreatest, 0⟩
  else if 0xF1 ≤ b ∧ b ≤ 0xF3 then some ⟨1, 3, tailLeast, tailGreatest, b % 0x8⟩
  else if b = 0xF4 then some ⟨1, 3, tailLeast, 0x8F, 4⟩
  else none

/-- Decodes from byte number `index` on, with the characters read so far in reverse. -/
def decodeFrom (index : Nat) (read : List Char) : Option Pending → List UInt8 →
    Except Fault (List Char)
  | none, [] => .ok read.reverse
  | some p, [] => .error (.truncated (index - p.seen))
  | none, b :: bytes =>
    if b.toNat < 0x80 then decodeFrom (index + 1) (Char.ofNat b.toNat :: read) none bytes
    else match Pending.ofLead? b.toNat with
      | some p => decodeFrom (index + 1) read (some p) bytes
      | none => .error (.invalid index 1)
  | some p, b :: bytes =>
    if b.toNat < p.least ∨ p.greatest < b.toNat then .error (.invalid (index - p.seen) p.seen)
    else
      let value := p.value * 0x40 + b.toNat % 0x40
      if p.owed ≤ 1 then decodeFrom (index + 1) (Char.ofNat value :: read) none bytes
      else
        decodeFrom (index + 1) read
          (some ⟨p.seen + 1, p.owed - 1, tailLeast, tailGreatest, value⟩) bytes

/-- The text that the bytes spell. -/
def decode (bytes : List UInt8) : Except Fault String :=
  (decodeFrom 0 [] none bytes).map String.ofList

/-- The bytes that spell a text. -/
def encode (text : String) : List UInt8 :=
  text.toUTF8.toList

end LoxLang.Utf8
