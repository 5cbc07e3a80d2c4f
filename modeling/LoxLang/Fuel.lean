import LoxLang.Diagnostic

/-!
Computations that run on fuel. Each step of a recursion spends some of it, so that a program that
does not end leaves a computation `outOfFuel`.
-/

namespace LoxLang

/-- Why a computation gave no value. -/
inductive Stop where
  | failed (d : Diagnostic)
  | outOfFuel
  deriving DecidableEq, Repr

/-- A computation on states `σ`. One that stops keeps what it did to the state. -/
abbrev Fueled (σ α : Type) := EStateM Stop σ α

namespace Fueled

variable {σ α : Type}

@[inline]
def fail (d : Diagnostic) : Fueled σ α :=
  throw (.failed d)

@[inline]
def exhausted : Fueled σ α :=
  throw .outOfFuel

end Fueled

end LoxLang
