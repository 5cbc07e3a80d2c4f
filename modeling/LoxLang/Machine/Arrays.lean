import LoxLang.Machine

/-!
Arrays of fixed length. An operation that fails changes nothing.
-/

namespace LoxLang

/-- The natural number that a value is. Negative zero counts as zero. -/
def Value.natural? : Value → Option Nat
  | .number x => (Decimal.Reading.ofFloat x).natural?
  | _ => none

namespace Eval

def elements (array : Nat) : Eval (Array Value) := do
  return (← get).arrays[array]?.getD #[]

/-- An array of `nil`s, if there is room for it. -/
def newArray (length : Value) (line : Nat) : Eval Value := do
  match length.natural? with
  | none => failAt line .arrayLengthInvalid
  | some n =>
    if ← reserve n then
      modifyGet fun m =>
        (.array m.arrays.size, { m with arrays := m.arrays.push (Array.replicate n .nil) })
    else failAt line .arrayTooLarge

/-- The place in an array that a value stands for. -/
def placeIn (length : Nat) (index : Value) (line : Nat) : Eval Nat := do
  match index with
  | .number _ =>
    match index.natural?.filter (· < length) with
    | some place => return place
    | none => failAt line .indexOutOfBounds
  | _ => failAt line .indexNotNumber

def arrayGet (array : Nat) (index : Value) (line : Nat) : Eval Value := do
  let elements ← elements array
  let place ← placeIn elements.size index line
  return elements[place]?.getD .nil

def arraySet (array : Nat) (index value : Value) (line : Nat) : Eval Unit := do
  let length := (← elements array).size
  let place ← placeIn length index line
  modify fun m => { m with arrays := m.arrays.modify array (·.setIfInBounds place value) }

/-- `target` with the elements of `source` in front. -/
def overwritten (source target : Array Value) : Array Value :=
  source ++ target.extract source.size

/-- Copies all elements into the front of another array. -/
def arrayCopy (array : Nat) (target : Value) (line : Nat) : Eval Unit := do
  match target with
  | .array other =>
    let source ← elements array
    let length := (← elements other).size
    if length < source.size then
      failAt line .copyTargetTooShort
    modify fun m => { m with arrays := m.arrays.modify other (overwritten source) }
  | _ => failAt line .copyTargetNotArray

/-- Reads a property of an array. Each read of a method gives a new value. -/
def arrayProperty (array : Nat) (name : Name) : Eval Value := do
  match name.text with
  | "length" => return .number (Float.ofNat (← elements array).size)
  | "get" => newNative (.arrayGet array)
  | "set" => newNative (.arraySet array)
  | "copyto" => newNative (.arrayCopy array)
  | _ => failAt name.line (.unsupportedByArray name.text)

/-- Runs what is built in. The number of arguments is the native's arity. -/
def runNative (n : Native) (arguments : List Value) (line : Nat) : Eval Value := do
  match n, arguments with
  | .clock, _ => return .number (Float.ofNat (← readClock) / 1000)
  | .input, _ =>
    match ← readLine with
    | .ok (some text) => return .string text
    | .ok none => return .nil
    | .error reason => failAt line (.unreadableInput reason)
  | .array, [length] => newArray length line
  | .arrayGet array, [index] => arrayGet array index line
  | .arraySet array, [index, value] =>
    arraySet array index value line
    return .nil
  | .arrayCopy array, [target] =>
    arrayCopy array target line
    return .nil
  | n, arguments => failAt line (.wrongArity n.arity arguments.length)

end Eval

end LoxLang
