import LoxLang.Program
import LoxLang.Proofs.Scoping.Mentions

/-!
The places of a program where a rule on names and jumps can be violated, each with what is written
around it, and the rules. Nothing here is about how the analysis goes: whether a place violates a
rule depends on the place and on what is around it.
-/

namespace LoxLang

/-- How a function is written. -/
inductive FunctionForm where
  | declaration
  | lambda
  | method
  | getter
  deriving DecidableEq, Repr

/-- What can be written around a part of a program. -/
inductive Enclosure where
  /-- A block, or the parameters and the body of a function, of which the declarations of these
  names come before the part. -/
  | scope (names : List Name)
  | function (form : FunctionForm) (f : Function)
  | «class» (c : Class)
  /-- The body of a loop, not its condition or its increment. -/
  | loop
  /-- The initializer of a variable. -/
  | initializer (name : Name)

namespace Enclosure

def names? : Enclosure → Option (List Name)
  | .scope names => some names
  | _ => none

def function? : Enclosure → Option (FunctionForm × Function)
  | .function form f => some (form, f)
  | _ => none

def class? : Enclosure → Option Class
  | .class c => some c
  | _ => none

end Enclosure

/-- Everything around a part of a program, the innermost first. -/
abbrev Path := List Enclosure

namespace Path

/-- The names that the innermost scope holds. Outside all scopes names are global. -/
def held? (path : Path) : Option (List Name) :=
  path.findSome? (·.names?)

/-- The innermost function. -/
def function? (path : Path) : Option (FunctionForm × Function) :=
  path.findSome? (·.function?)

/-- The innermost class. -/
def class? (path : Path) : Option Class :=
  path.findSome? (·.class?)

/-- Whether something around, in the same body of a function, satisfies a condition on it and on
what is around it. -/
inductive Directly (P : Enclosure → Path → Prop) : Path → Prop
  | here {e outer} (h : P e outer) : Directly P (e :: outer)
  | outward {e outer} (he : e.function? = none) (h : Directly P outer) : Directly P (e :: outer)

/-- Whether there is a loop around, in the same body of a function. -/
def InLoop (path : Path) : Prop :=
  path.Directly fun e _ => e = .loop

/-- Whether the part is in the initializer of a local variable of this name, and in no function
there. -/
def InInitializer (path : Path) (name : String) : Prop :=
  path.Directly fun e outer => ∃ v, e = .initializer v ∧ v.text = name ∧ outer.held? ≠ none

/-- The innermost scope behind a declaration. -/
def declaring (name : Name) : Path → Path
  | [] => []
  | .scope names :: outer => .scope (names ++ [name]) :: outer
  | e :: outer => e :: declaring name outer

end Path

/-- What a rule is about. -/
inductive Node where
  /-- The declaration of a variable, a function, a class or a parameter. -/
  | declares (name : Name)
  | reads (o : Occurrence)
  /-- The superclass of a class of this name. -/
  | inherits (className : Name) (o : Occurrence)
  | returns (line : Nat) (valued : Bool)
  | breaks (line : Nat)
  | continues (line : Nat)
  | this (line : Nat)
  | super (line : Nat)

namespace Node

def line : Node → Nat
  | .declares name => name.line
  | .reads o | .inherits _ o => o.name.line
  | .returns line _ | .breaks line | .continues line | .this line | .super line => line

def lexeme : Node → String
  | .declares name => name.text
  | .reads o | .inherits _ o => o.name.text
  | .returns _ _ => "return"
  | .breaks _ => "break"
  | .continues _ => "continue"
  | .this _ => "this"
  | .super _ => "super"

end Node

/-- A place where a rule can be violated. -/
structure Site where
  node : Node
  path : Path

namespace Site

/-- The rules, each with what violates it. -/
inductive Violates : Site → ScopeError → Prop
  | duplicate {name names path} (h : Path.held? path = some names)
      (hn : name.text ∈ names.map (·.text)) : Violates ⟨.declares name, path⟩ .duplicateName
  | ownInitializer {o path} (h : Path.InInitializer path o.name.text) :
      Violates ⟨.reads o, path⟩ .ownInitializer
  | inheritance {className o path} (h : o.name.text = className.text) :
      Violates ⟨.inherits className o, path⟩ .inheritsFromItself
  | return {line valued path} (h : Path.function? path = none) :
      Violates ⟨.returns line valued, path⟩ .returnOutsideFunction
  | value {line f name path} (h : Path.function? path = some (.method, f))
      (hn : f.name? = some name) (hi : name.text = "init") :
      Violates ⟨.returns line true, path⟩ .valueFromInitializer
  | break {line path} (h : ¬ Path.InLoop path) :
      Violates ⟨.breaks line, path⟩ .breakOutsideLoop
  | continue {line path} (h : ¬ Path.InLoop path) :
      Violates ⟨.continues line, path⟩ .continueOutsideLoop
  | this {line path} (h : Path.class? path = none) :
      Violates ⟨.this line, path⟩ .thisOutsideClass
  | super {line path} (h : Path.class? path = none) :
      Violates ⟨.super line, path⟩ .superOutsideClass
  | superclass {line c path} (h : Path.class? path = some c) (hc : c.superclass? = none) :
      Violates ⟨.super line, path⟩ .superWithoutSuperclass

section

variable {name className : Name} {o : Occurrence} {path : Path} {line : Nat} {valued : Bool}
  {error : ScopeError}

theorem violates_declares : Violates ⟨.declares name, path⟩ error ↔
    (∃ names, path.held? = some names ∧ name.text ∈ names.map (·.text)) ∧
      error = .duplicateName := by
  constructor
  · intro h
    cases h with
    | duplicate h hn => exact ⟨⟨_, h, hn⟩, rfl⟩
  · rintro ⟨⟨names, h, hn⟩, rfl⟩
    exact .duplicate h hn

theorem violates_reads : Violates ⟨.reads o, path⟩ error ↔
    path.InInitializer o.name.text ∧ error = .ownInitializer := by
  constructor
  · intro h
    cases h with
    | ownInitializer h => exact ⟨h, rfl⟩
  · rintro ⟨h, rfl⟩
    exact .ownInitializer h

theorem violates_inherits : Violates ⟨.inherits className o, path⟩ error ↔
    o.name.text = className.text ∧ error = .inheritsFromItself := by
  constructor
  · intro h
    cases h with
    | inheritance h => exact ⟨h, rfl⟩
  · rintro ⟨h, rfl⟩
    exact .inheritance h

theorem violates_returns : Violates ⟨.returns line valued, path⟩ error ↔
    path.function? = none ∧ error = .returnOutsideFunction ∨
    valued = true ∧ (∃ f name, path.function? = some (.method, f) ∧ f.name? = some name ∧
      name.text = "init") ∧ error = .valueFromInitializer := by
  constructor
  · intro h
    cases h with
    | «return» h => exact .inl ⟨h, rfl⟩
    | value h hn hi => exact .inr ⟨rfl, ⟨_, _, h, hn, hi⟩, rfl⟩
  · rintro (⟨h, rfl⟩ | ⟨rfl, ⟨f, name, h, hn, hi⟩, rfl⟩)
    · exact .return h
    · exact .value h hn hi

theorem violates_breaks : Violates ⟨.breaks line, path⟩ error ↔
    ¬ path.InLoop ∧ error = .breakOutsideLoop := by
  constructor
  · intro h
    cases h with
    | «break» h => exact ⟨h, rfl⟩
  · rintro ⟨h, rfl⟩
    exact .break h

theorem violates_continues : Violates ⟨.continues line, path⟩ error ↔
    ¬ path.InLoop ∧ error = .continueOutsideLoop := by
  constructor
  · intro h
    cases h with
    | «continue» h => exact ⟨h, rfl⟩
  · rintro ⟨h, rfl⟩
    exact .continue h

theorem violates_this : Violates ⟨.this line, path⟩ error ↔
    path.class? = none ∧ error = .thisOutsideClass := by
  constructor
  · intro h
    cases h with
    | this h => exact ⟨h, rfl⟩
  · rintro ⟨h, rfl⟩
    exact .this h

theorem violates_super : Violates ⟨.super line, path⟩ error ↔
    path.class? = none ∧ error = .superOutsideClass ∨
    (∃ c, path.class? = some c ∧ c.superclass? = none) ∧ error = .superWithoutSuperclass := by
  constructor
  · intro h
    cases h with
    | super h => exact .inl ⟨h, rfl⟩
    | superclass h hc => exact .inr ⟨⟨_, h, hc⟩, rfl⟩
  · rintro (⟨h, rfl⟩ | ⟨⟨c, h, hc⟩, rfl⟩)
    · exact .super h
    · exact .superclass h hc

end

/-- Whether a place has this report: one that says which rule it violates and where, or none if
it violates no rule. -/
def Reports (site : Site) (report? : Option Diagnostic) : Prop :=
  ∀ d, report? = some d ↔
    ∃ error, site.Violates error ∧ d = .scope site.node.line site.node.lexeme error

end Site

/-- The path behind a statement. -/
def Stmt.pathBehind (path : Path) (s : Stmt) : Path :=
  match s.declared? with
  | some name => path.declaring name
  | none => path

/-- The parameters of a function. Before them come those of the same function with these names. -/
def parameterSites (outer : Path) (before : List Name) : List Name → List Site
  | [] => []
  | p :: ps => ⟨.declares p, .scope before :: outer⟩ :: parameterSites outer (before ++ [p]) ps

mutual

/-- The places in an expression. The value of a field comes before its object. -/
def Expr.sites (path : Path) : Expr → List Site
  | .literal _ => []
  | .group inner => inner.sites path
  | .unary _ _ operand => operand.sites path
  | .binary _ _ left right => left.sites path ++ right.sites path
  | .logical _ left right => left.sites path ++ right.sites path
  | .ternary condition thenBranch elseBranch =>
    condition.sites path ++ (thenBranch.sites path ++ elseBranch.sites path)
  | .comma left right => left.sites path ++ right.sites path
  | .variable o => [⟨.reads o, path⟩]
  | .assign _ value => value.sites path
  | .call callee _ arguments => callee.sites path ++ exprsSites path arguments
  | .get object _ => object.sites path
  | .set object _ value => value.sites path ++ object.sites path
  | .this _ line => [⟨.this line, path⟩]
  | .super _ line _ => [⟨.super line, path⟩]
  | .lambda f => f.sites .lambda path

def exprsSites (path : Path) : List Expr → List Site
  | [] => []
  | e :: es => e.sites path ++ exprsSites path es

/-- Parameters and body share a scope. -/
def Function.sites (form : FunctionForm) (path : Path) : Function → List Site
  | ⟨name?, parameters, body, line⟩ =>
    let inside : Path := .function form ⟨name?, parameters, body, line⟩ :: path
    parameterSites inside [] parameters ++ stmtsSites (.scope parameters :: inside) body

def Stmt.sites (path : Path) : Stmt → List Site
  | .expression e => e.sites path
  | .print e => e.sites path
  | .var name none => [⟨.declares name, path⟩]
  | .var name (some initializer) =>
    ⟨.declares name, path⟩ :: initializer.sites (.initializer name :: path)
  | .block body => stmtsSites (.scope [] :: path) body
  | .if condition thenBranch none => condition.sites path ++ thenBranch.sites path
  | .if condition thenBranch (some elseBranch) =>
    condition.sites path ++ (thenBranch.sites path ++ elseBranch.sites path)
  | .while condition body none => condition.sites path ++ body.sites (.loop :: path)
  | .while condition body (some increment) =>
    condition.sites path ++ (body.sites (.loop :: path) ++ increment.sites path)
  | .function f => f.name?.toList.map (⟨.declares ·, path⟩) ++ f.sites .declaration path
  | .class c => c.sites path
  | .return line none => [⟨.returns line false, path⟩]
  | .return line (some value) => ⟨.returns line true, path⟩ :: value.sites path
  | .break line => [⟨.breaks line, path⟩]
  | .continue line => [⟨.continues line, path⟩]

def stmtsSites (path : Path) : List Stmt → List Site
  | [] => []
  | s :: ss => s.sites path ++ stmtsSites (s.pathBehind path) ss

def Class.sites (path : Path) : Class → List Site
  | ⟨name, none, methods, getters⟩ =>
    let inside : Path := .class ⟨name, none, methods, getters⟩ :: path
    ⟨.declares name, path⟩ ::
      (functionsSites .method inside methods ++ functionsSites .getter inside getters)
  | ⟨name, some superclass, methods, getters⟩ =>
    let inside : Path := .class ⟨name, some superclass, methods, getters⟩ :: path
    ⟨.declares name, path⟩ :: ⟨.inherits name superclass, path⟩ :: ⟨.reads superclass, path⟩ ::
      (functionsSites .method inside methods ++ functionsSites .getter inside getters)

def functionsSites (form : FunctionForm) (path : Path) : List Function → List Site
  | [] => []
  | f :: fs => f.sites form path ++ functionsSites form path fs

end

/-- The places in a program. -/
def Program.sites (p : Program) : List Site :=
  stmtsSites [] p.statements

end LoxLang
