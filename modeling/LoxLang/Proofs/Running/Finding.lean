import LoxLang.Proofs.Lexical.Accessing
import LoxLang.Proofs.Running.Points

/-!
How a machine finds the variable of a use: at its distance, or else among the globals. It fails in
no other way than by an error that names the variable.
-/

namespace LoxLang

/-- What a machine does to find the variable of a use. The line of `this` and `super` is only told
to the user. -/
def Use.find (line : Nat) : Use → Eval Unit
  | .read o | .inherit _ o => do
    let _ ← Eval.readVariable o.id o.name
  | .assign o => do
    let _ ← Eval.targetOf o
  | .this id => do
    let _ ← Eval.readVariable id ⟨"this", line⟩
  | .super id => do
    let _ ← Eval.superOf id line
  | .declare _ => return

/-- The line of an error at a use. That of `this` and `super` is given. -/
def Use.line (given : Nat) : Use → Nat
  | .read o | .assign o | .inherit _ o => o.name.line
  | .declare name => name.line
  | .this _ | .super _ => given

/-- Whether the message of an error calls it internal. -/
def RuntimeError.isInternal (error : RuntimeError) : Bool :=
  "Internal error: ".toList.isPrefixOf error.message.toList

theorem RuntimeError.isInternal_undefinedVariable (name : String) :
    (undefinedVariable name).isInternal = false := by
  show List.isPrefixOf _ ("Undefined variable '" ++ name ++ "'").toList = false
  rw [String.toList_append, String.toList_append]
  rfl

section

variable {m : Machine} {use : Use} {id d line : Nat}

/-- A variable with a distance is found if its scope binds the name, and nowhere else. -/
theorem Eval.readVariable_placed (name : Name) (hd : m.distances.find? id = some d) :
    ((m.scopes.findAt? m.environment d name.text).isSome = true ∧
        ∃ v, Eval.readVariable id name m = .ok v m) ∨
      (m.scopes.findAt? m.environment d name.text = none ∧ Eval.readVariable id name m =
        .error (.failed (.runtime name.line (.misplacedVariable name.text))) m) := by
  rw [Eval.readVariable_eq_readAt name hd, Scopes.readAt]
  cases m.scopes.findAt? m.environment d name.text with
  | some v => exact .inl ⟨rfl, v, rfl⟩
  | none => exact .inr ⟨rfl, rfl⟩

theorem Eval.targetOf_placed {o : Occurrence} (hd : m.distances.find? o.id = some d) :
    ((m.scopes.findAt? m.environment d o.name.text).isSome = true ∧
        ∃ scope, Eval.targetOf o m = .ok scope m) ∨
      (m.scopes.findAt? m.environment d o.name.text = none ∧ Eval.targetOf o m =
        .error (.failed (.runtime o.name.line (.misplacedVariable o.name.text))) m) := by
  rw [Eval.targetOf_eq_targetAt hd, Scopes.targetAt, Scopes.holderAt?, Scopes.findAt?]
  cases m.environment[d]? with
  | none => exact .inr ⟨rfl, rfl⟩
  | some scope =>
    rw [Option.bind_some, Option.filter_some]
    cases m.scopes.value? scope o.name.text with
    | some v => exact .inl ⟨rfl, scope, rfl⟩
    | none => exact .inr ⟨rfl, rfl⟩

/-- A variable without a distance is looked for among the globals. -/
theorem Eval.readVariable_global (name : Name) (hd : m.distances.find? id = none) :
    (∃ v, Eval.readVariable id name m = .ok v m) ∨ Eval.readVariable id name m =
      .error (.failed (.runtime name.line (.undefinedVariable name.text))) m := by
  rw [Eval.readVariable_eq_read name hd, Scopes.read]
  cases m.scopes.find? globalEnvironment name.text with
  | some v => exact .inl ⟨v, rfl⟩
  | none => exact .inr rfl

theorem Eval.targetOf_global {o : Occurrence} (hd : m.distances.find? o.id = none) :
    (∃ scope, Eval.targetOf o m = .ok scope m) ∨ Eval.targetOf o m =
      .error (.failed (.runtime o.name.line (.undefinedVariable o.name.text))) m := by
  rw [Eval.targetOf_eq_target hd, Scopes.target]
  cases m.scopes.holder? globalEnvironment o.name.text with
  | some scope => exact .inl ⟨scope, rfl⟩
  | none => exact .inr rfl


theorem Eval.superOf_found {c : ClassValue} {i : Instance}
    (hd : m.distances.find? id = some (d + 1))
    (hc : m.scopes.findAt? m.environment (d + 1) "super" = some (.callable (.class c)))
    (hi : m.scopes.findAt? m.environment d "this" = some (.instance i)) :
    Eval.superOf id line m = .ok (c, i) m := by
  apply Eval.superOf_eq hd
  · rw [Scopes.readAt, hc]
  · rw [Scopes.readAt, hi]

namespace Use

/-- A use with a distance finds its variable if the scope at the distance binds the name. -/
theorem find_placed (hs : ∀ id, use ≠ .super id) (hid : id ∈ use.id?)
    (hd : m.distances.find? id = some d) :
    ((m.scopes.findAt? m.environment d use.name).isSome = true ∧ use.find line m = .ok () m) ∨
      (m.scopes.findAt? m.environment d use.name = none ∧ use.find line m =
        .error (.failed (.runtime (use.line line) (.misplacedVariable use.name))) m) := by
  cases use with
  | read o | inherit _ o =>
    cases hid
    rcases Eval.readVariable_placed o.name hd with ⟨hf, v, h⟩ | ⟨hf, h⟩
    · exact .inl ⟨hf, Fueled.bind_ok h⟩
    · exact .inr ⟨hf, Fueled.bind_error h⟩
  | assign o =>
    cases hid
    rcases Eval.targetOf_placed hd with ⟨hf, scope, h⟩ | ⟨hf, h⟩
    · exact .inl ⟨hf, Fueled.bind_ok h⟩
    · exact .inr ⟨hf, Fueled.bind_error h⟩
  | this id =>
    cases hid
    rcases Eval.readVariable_placed ⟨"this", line⟩ hd with ⟨hf, v, h⟩ | ⟨hf, h⟩
    · exact .inl ⟨hf, Fueled.bind_ok h⟩
    · exact .inr ⟨hf, Fueled.bind_error h⟩
  | super id => exact (hs id rfl).elim
  | declare name => cases hid

/-- A use without a distance is of a global, which may be undefined. -/
theorem find_global (hs : ∀ id, use ≠ .super id) (hid : id ∈ use.id?)
    (hd : m.distances.find? id = none) :
    use.find line m = .ok () m ∨ use.find line m =
      .error (.failed (.runtime (use.line line) (.undefinedVariable use.name))) m := by
  cases use with
  | read o | inherit _ o =>
    cases hid
    rcases Eval.readVariable_global o.name hd with ⟨v, h⟩ | h
    · exact .inl (Fueled.bind_ok h)
    · exact .inr (Fueled.bind_error h)
  | assign o =>
    cases hid
    rcases Eval.targetOf_global hd with ⟨scope, h⟩ | h
    · exact .inl (Fueled.bind_ok h)
    · exact .inr (Fueled.bind_error h)
  | this id =>
    cases hid
    rcases Eval.readVariable_global ⟨"this", line⟩ hd with ⟨v, h⟩ | h
    · exact .inl (Fueled.bind_ok h)
    · exact .inr (Fueled.bind_error h)
  | super id => exact (hs id rfl).elim
  | declare name => cases hid

/-- The class and the instance behind `super`. -/
theorem find_super {c : ClassValue} {i : Instance} (hd : m.distances.find? id = some (d + 1))
    (hc : m.scopes.findAt? m.environment (d + 1) "super" = some (.callable (.class c)))
    (hi : m.scopes.findAt? m.environment d "this" = some (.instance i)) :
    (Use.super id).find line m = .ok () m :=
  Fueled.bind_ok (Eval.superOf_found hd hc hi)

end Use

end

end LoxLang
