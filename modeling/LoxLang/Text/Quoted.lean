import LoxLang.Text.Extending
import LoxLang.Text.Ignorable
import LoxLang.Text.Unprintable

/-!
Names between quotation marks, with everything in them that could not be seen or told apart
written as an escape.
-/

namespace LoxLang.Quoted

/-- The escape of a character by its number. -/
def byNumber (c : Char) : List Char :=
  ['\\', 'u', '{'] ++ Nat.toDigits 16 c.toNat ++ ['}']

/-- Whether a character is one of the two halfwidth sound marks of Katakana. They are letters and
can be seen on their own, although they extend the letter before them. -/
def isSoundMark (c : Char) : Bool :=
  c = '\uff9e' || c = '\uff9f'

/-- Whether a character could not be seen or told apart. -/
def isHidden (c : Char) : Bool :=
  isUnprintable c || isIgnorable c || isExtending c && !isSoundMark c

def escape (c : Char) : List Char :=
  if c = '\x00' then ['\\', '0']
  else if c = '\t' then ['\\', 't']
  else if c = '\r' then ['\\', 'r']
  else if c = '\n' then ['\\', 'n']
  else if c = '\\' then ['\\', '\\']
  else if c = '\"' then ['\\', '\"']
  else if isHidden c then byNumber c
  else [c]

def text (name : String) : String :=
  String.ofList ('\"' :: name.toList.flatMap escape ++ ['\"'])

end LoxLang.Quoted
