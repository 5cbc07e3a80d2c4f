import LoxLang.Diagnostic
import LoxLang.Value

/-!
The variables of all scopes. An environment lists scopes from the innermost to the outermost;
where it goes on never changes, only the tables of the scopes do.
-/

namespace LoxLang

/-- The table of each scope, by the number of the scope. -/
structure Scopes where
  tables : Array (Table Value)

namespace Scopes

def empty : Scopes := ⟨#[]⟩

/-- The number of the next scope. -/
def next (s : Scopes) : Nat :=
  s.tables.size

/-- Adds a scope with these variables. -/
def push (s : Scopes) (table : Table Value) : Scopes :=
  ⟨s.tables.push table⟩

/-- The value of a name in one scope. -/
def value? (s : Scopes) (scope : Nat) (name : String) : Option Value :=
  s.tables[scope]?.bind (·.find? name)

/-- Gives a name a value in one scope. -/
def put (s : Scopes) (scope : Nat) (name : String) (value : Value) : Scopes :=
  ⟨s.tables.modify scope (·.insert name value)⟩

/-- Gives a name a value in the innermost scope of an environment. -/
def define (s : Scopes) (environment : Environment) (name : String) (value : Value) : Scopes :=
  match environment with
  | [] => s
  | scope :: _ => s.put scope name value

/-- The value of a name in the nearest scope that binds it. -/
def find? (s : Scopes) (environment : Environment) (name : String) : Option Value :=
  environment.findSome? (s.value? · name)

/-- The nearest scope that binds a name. -/
def holder? (s : Scopes) (environment : Environment) (name : String) : Option Nat :=
  environment.find? fun scope => (s.value? scope name).isSome

/-- The value of a name in the scope `distance` places out. -/
def findAt? (s : Scopes) (environment : Environment) (distance : Nat) (name : String) :
    Option Value :=
  environment[distance]?.bind (s.value? · name)

/-- The scope `distance` places out, if it binds a name. -/
def holderAt? (s : Scopes) (environment : Environment) (distance : Nat) (name : String) :
    Option Nat :=
  environment[distance]?.filter fun scope => (s.value? scope name).isSome

/-- The value of a name, looked up through the whole environment. -/
def read (s : Scopes) (environment : Environment) (name : Name) : Except Diagnostic Value :=
  match s.find? environment name.text with
  | some value => .ok value
  | none => .error (.runtime name.line (.undefinedVariable name.text))

/-- The value of a name at a known distance. -/
def readAt (s : Scopes) (environment : Environment) (distance : Nat) (name : Name) :
    Except Diagnostic Value :=
  match s.findAt? environment distance name.text with
  | some value => .ok value
  | none => .error (.runtime name.line (.misplacedVariable name.text))

/-- The scope where an assignment to a name takes effect. -/
def target (s : Scopes) (environment : Environment) (name : Name) : Except Diagnostic Nat :=
  match s.holder? environment name.text with
  | some scope => .ok scope
  | none => .error (.runtime name.line (.undefinedVariable name.text))

/-- The scope where an assignment to a name at a known distance takes effect. -/
def targetAt (s : Scopes) (environment : Environment) (distance : Nat) (name : Name) :
    Except Diagnostic Nat :=
  match s.holderAt? environment distance name.text with
  | some scope => .ok scope
  | none => .error (.runtime name.line (.misplacedVariable name.text))

/-- Assigns to the nearest binding of a name. -/
def write (s : Scopes) (environment : Environment) (name : Name) (value : Value) :
    Except Diagnostic Scopes :=
  (s.target environment name).map fun scope => s.put scope name.text value

/-- Assigns to the binding of a name at a known distance. -/
def writeAt (s : Scopes) (environment : Environment) (distance : Nat) (name : Name)
    (value : Value) : Except Diagnostic Scopes :=
  (s.targetAt environment distance name).map fun scope => s.put scope name.text value

/-- A write is seen at its scope and name, if the scope exists, and nowhere else. -/
theorem value?_put (s : Scopes) (scope other : Nat) (name key : String) (value : Value) :
    (s.put scope name value).value? other key =
      if other = scope ∧ key = name ∧ scope < s.next then some value else s.value? other key := by
  unfold put value? next
  rw [Array.getElem?_modify]
  by_cases ho : scope = other
  · subst ho
    by_cases hs : scope < s.tables.size
    · by_cases hk : key = name <;> simp [hs, hk]
    · simp [hs]
  · simp [ho, Ne.symm ho]

end Scopes

end LoxLang
