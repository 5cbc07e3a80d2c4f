import LoxLang.Decimal.Layout
import LoxLang.Table
import LoxLang.Tree

/-!
The values of a running program. Functions, classes and instances never change, so values hold
them whole, under a number that tells equal-looking ones apart. What can change, the variables of
scopes, the fields of instances and the elements of arrays, is in the machine.
-/

namespace LoxLang

/-- The numbers of the scopes around a point, the innermost first. -/
abbrev Environment := List Nat

/-- A function or method with the environment of its declaration. -/
structure Closure where
  function : Function
  environment : Environment
  isInitializer : Bool

def Closure.arity (c : Closure) : Nat :=
  c.function.parameters.length

/-- The key of a getter among the members of a class. No identifier holds a space. -/
def getterKey (name : String) : String :=
  "get " ++ name

/-- A class with the class it inherits from. One table holds its members: methods under their names
and getters under their keys. -/
structure ClassValue where
  id : Nat
  name : String
  superclass? : Option ClassValue
  members : Table Closure

namespace ClassValue

/-- The member of the nearest class in the chain that has one under this key. -/
def method? : ClassValue → String → Option Closure
  | ⟨_, _, none, members⟩, key => members.find? key
  | ⟨_, _, some superclass, members⟩, key =>
    match members.find? key with
    | some member => some member
    | none => superclass.method? key

/-- The getter of the nearest class in the chain that declares one. -/
def getter? (c : ClassValue) (name : String) : Option Closure :=
  c.method? (getterKey name)

/-- The method that runs when a class is called. -/
def initializer? (c : ClassValue) : Option Closure :=
  c.method? "init"

end ClassValue

/-- What programs can call without having declared it. Array methods hold the number of their
array. -/
inductive Native where
  | clock
  | input
  | array
  | arrayGet (array : Nat)
  | arraySet (array : Nat)
  | arrayCopy (array : Nat)
  deriving DecidableEq, Repr

namespace Native

def name : Native → String
  | .clock => "clock"
  | .input => "input"
  | .array => "Array"
  | .arrayGet _ => "get"
  | .arraySet _ => "set"
  | .arrayCopy _ => "copyto"

def arity : Native → Nat
  | .clock | .input => 0
  | .array | .arrayGet _ | .arrayCopy _ => 1
  | .arraySet _ => 2

end Native

inductive Callable where
  | function (id : Nat) (closure : Closure)
  | «class» (c : ClassValue)
  | native (id : Nat) (n : Native)

namespace Callable

/-- A class takes the arguments of its initializer. -/
def arity : Callable → Nat
  | .function _ closure => closure.arity
  | .class c => (c.initializer?.map Closure.arity).getD 0
  | .native _ n => n.arity

def text : Callable → String
  | .function _ closure => "<fn " ++ closure.function.displayName ++ ">"
  | .class c => c.name
  | .native _ n => "<native fn " ++ n.name ++ ">"

/-- Whether two callables are the same object. -/
def same : Callable → Callable → Bool
  | .function a _, .function b _ => a = b
  | .class a, .class b => a.id = b.id
  | .native a _, .native b _ => a = b
  | _, _ => false

end Callable

/-- An object of a class. Its fields are in the machine. -/
structure Instance where
  id : Nat
  «class» : ClassValue

inductive Value where
  | nil
  | bool (b : Bool)
  | number (x : Float)
  | string (s : String)
  | callable (c : Callable)
  | instance (i : Instance)
  | array (id : Nat)

namespace Value

def ofLiteral : Literal → Value
  | .number x => .number x
  | .string s => .string s
  | .bool b => .bool b
  | .nil => .nil

/-- All values but `nil` and `false` count as true. -/
def isTruthy : Value → Bool
  | .nil | .bool false => false
  | _ => true

def kindName : Value → String
  | .nil => "nil"
  | .bool _ => "boolean"
  | .number _ => "number"
  | .string _ => "string"
  | .callable _ => "callable"
  | .instance _ => "instance"
  | .array _ => "array"

/-- Whole numbers are written in full, others by their shortest digits. -/
def numberLayout : Decimal.Layout where
  exact _ := true
  exactTail := ""
  roundedTail := ""
  positional _ := true
  tie := .up
  signedZero := true

/-- What `print` writes. -/
def text : Value → String
  | .nil => "nil"
  | .bool b => if b then "true" else "false"
  | .number x => numberLayout.text x
  | .string s => s
  | .callable c => c.text
  | .instance i => i.class.name ++ " instance"
  | .array _ => "<array>"

/-- Equality of programs: of value, and for objects of identity. -/
def same : Value → Value → Bool
  | .nil, .nil => true
  | .bool a, .bool b => a = b
  | .number a, .number b => a == b
  | .string a, .string b => a = b
  | .callable a, .callable b => a.same b
  | .instance a, .instance b => a.id = b.id
  | .array a, .array b => a = b
  | _, _ => false

end Value

end LoxLang
