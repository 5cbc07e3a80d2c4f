import LoxLang.Proofs.Json.Reading
import LoxLang.Proofs.Tree.Scanned
import LoxLang.Tree.Json

/-!
Programs read back from their JSON. The name of a node's kind, the number of its parts and their
keys tell how each part is read, so that no string is taken for a kind and no part for another.
-/

namespace LoxLang

/-- A number that has no text is infinite. -/
def Literal.ofJson? : Json → Option Literal
  | .object [⟨"Number", .number x⟩] => some (.number x)
  | .object [⟨"Number", .null⟩] => some (.number Decimal.infinity)
  | .object [⟨"Str", .string s⟩] => some (.string s)
  | .string "True" => some (.bool true)
  | .string "False" => some (.bool false)
  | .string "Nil" => some .nil
  | _ => none

def UnaryOp.ofJson? : Json → Option UnaryOp
  | .string "Negate" => some .negate
  | .string "Not" => some .not
  | _ => none

def BinaryOp.ofJson? : Json → Option BinaryOp
  | .string "Add" => some .add
  | .string "Subtract" => some .subtract
  | .string "Multiply" => some .multiply
  | .string "Divide" => some .divide
  | .string "Equal" => some .equal
  | .string "NotEqual" => some .notEqual
  | .string "Less" => some .less
  | .string "LessEqual" => some .lessEqual
  | .string "Greater" => some .greater
  | .string "GreaterEqual" => some .greaterEqual
  | _ => none

def LogicalOp.ofJson? : Json → Option LogicalOp
  | .string "And" => some .and
  | .string "Or" => some .or
  | _ => none

def Name.ofJson? : Json → Option Name
  | .object [⟨"name", .string text⟩, ⟨"line", .natural line⟩] => some ⟨text, line⟩
  | _ => none

def Occurrence.ofJson? : Json → Option Occurrence
  | .object [⟨"Variable", .object [⟨"id", .natural id⟩, ⟨"name", name⟩]⟩] => do
    return ⟨id, ← Name.ofJson? name⟩
  | _ => none

/-- What a part is that may be missing, from what it is if it is there. -/
def Json.optional? {α : Type} (part? : Option α) : Json → Option (Option α)
  | .null => some none
  | _ => part?.map some

mutual

def Expr.ofJson? : Json → Option Expr
  | .object [⟨"Literal", value⟩] => do
    return .literal (← Literal.ofJson? value)
  | .object [⟨"Grouping", inner⟩] => do
    return .group (← Expr.ofJson? inner)
  | .object [⟨"Unary", .object
      [⟨"operator", op⟩, ⟨"line", .natural line⟩, ⟨"right", operand⟩]⟩] => do
    return .unary (← UnaryOp.ofJson? op) line (← Expr.ofJson? operand)
  | .object [⟨"Binary", .object
      [⟨"left", left⟩, ⟨"operator", op⟩, ⟨"line", .natural line⟩, ⟨"right", right⟩]⟩] => do
    return .binary (← BinaryOp.ofJson? op) line (← Expr.ofJson? left) (← Expr.ofJson? right)
  | .object [⟨"Logical", .object
      [⟨"left", left⟩, ⟨"operator", op⟩, ⟨"right", right⟩]⟩] => do
    return .logical (← LogicalOp.ofJson? op) (← Expr.ofJson? left) (← Expr.ofJson? right)
  | .object [⟨"Ternary", .object
      [⟨"condition", condition⟩, ⟨"then_branch", thenBranch⟩, ⟨"else_branch", elseBranch⟩]⟩] => do
    return .ternary (← Expr.ofJson? condition) (← Expr.ofJson? thenBranch)
      (← Expr.ofJson? elseBranch)
  | .object [⟨"Comma", .object [⟨"left", left⟩, ⟨"right", right⟩]⟩] => do
    return .comma (← Expr.ofJson? left) (← Expr.ofJson? right)
  | .object [⟨"Variable", .object [⟨"id", .natural id⟩, ⟨"name", name⟩]⟩] => do
    return .variable ⟨id, ← Name.ofJson? name⟩
  | .object [⟨"Assign", .object
      [⟨"id", .natural id⟩, ⟨"name", name⟩, ⟨"value", value⟩]⟩] => do
    return .assign ⟨id, ← Name.ofJson? name⟩ (← Expr.ofJson? value)
  | .object [⟨"Call", .object
      [⟨"callee", callee⟩, ⟨"line", .natural line⟩, ⟨"arguments", .array arguments⟩]⟩] => do
    return .call (← Expr.ofJson? callee) line (← exprsOfJson? arguments)
  | .object [⟨"Get", .object [⟨"object", object⟩, ⟨"name", name⟩]⟩] => do
    return .get (← Expr.ofJson? object) (← Name.ofJson? name)
  | .object [⟨"Set", .object
      [⟨"object", object⟩, ⟨"name", name⟩, ⟨"value", value⟩]⟩] => do
    return .set (← Expr.ofJson? object) (← Name.ofJson? name) (← Expr.ofJson? value)
  | .object [⟨"This", .object [⟨"id", .natural id⟩, ⟨"line", .natural line⟩]⟩] =>
    some (.this id line)
  | .object [⟨"Super", .object
      [⟨"id", .natural id⟩, ⟨"line", .natural line⟩, ⟨"method", method⟩]⟩] => do
    return .super id line (← Name.ofJson? method)
  | .object [⟨"Function", function⟩] => do
    return .lambda (← Function.ofJson? function)
  | _ => none

def exprsOfJson? : List Json → Option (List Expr)
  | [] => some []
  | j :: js => do
    return (← Expr.ofJson? j) :: (← exprsOfJson? js)

def Function.ofJson? : Json → Option Function
  | .object [⟨"name", name⟩, ⟨"params", .array parameters⟩, ⟨"body", .array body⟩,
      ⟨"line", .natural line⟩] => do
    return ⟨← Json.optional? (Name.ofJson? name) name, ← parameters.mapM Name.ofJson?,
      ← stmtsOfJson? body, line⟩
  | _ => none

def Stmt.ofJson? : Json → Option Stmt
  | .object [⟨"Expression", e⟩] => do
    return .expression (← Expr.ofJson? e)
  | .object [⟨"Print", e⟩] => do
    return .print (← Expr.ofJson? e)
  | .object [⟨"Var", .object [⟨"name", name⟩, ⟨"initializer", initializer⟩]⟩] => do
    return .var (← Name.ofJson? name) (← Json.optional? (Expr.ofJson? initializer) initializer)
  | .object [⟨"Block", .array body⟩] => do
    return .block (← stmtsOfJson? body)
  | .object [⟨"If", .object
      [⟨"condition", condition⟩, ⟨"then_branch", thenBranch⟩, ⟨"else_branch", elseBranch⟩]⟩] => do
    return .if (← Expr.ofJson? condition) (← Stmt.ofJson? thenBranch)
      (← Json.optional? (Stmt.ofJson? elseBranch) elseBranch)
  | .object [⟨"While", .object
      [⟨"condition", condition⟩, ⟨"body", body⟩, ⟨"increment", increment⟩]⟩] => do
    return .while (← Expr.ofJson? condition) (← Stmt.ofJson? body)
      (← Json.optional? (Expr.ofJson? increment) increment)
  | .object [⟨"Function", function⟩] => do
    return .function (← Function.ofJson? function)
  | .object [⟨"Class", declaration⟩] => do
    return .class (← Class.ofJson? declaration)
  | .object [⟨"Return", .object [⟨"line", .natural line⟩, ⟨"value", value⟩]⟩] => do
    return .return line (← Json.optional? (Expr.ofJson? value) value)
  | .object [⟨"Break", .object [⟨"line", .natural line⟩]⟩] => some (.break line)
  | .object [⟨"Continue", .object [⟨"line", .natural line⟩]⟩] => some (.continue line)
  | _ => none

def stmtsOfJson? : List Json → Option (List Stmt)
  | [] => some []
  | j :: js => do
    return (← Stmt.ofJson? j) :: (← stmtsOfJson? js)

def Class.ofJson? : Json → Option Class
  | .object [⟨"name", name⟩, ⟨"superclass", superclass⟩, ⟨"methods", .array methods⟩,
      ⟨"getters", .array getters⟩] => do
    return ⟨← Name.ofJson? name, ← Json.optional? (Occurrence.ofJson? superclass) superclass,
      ← functionsOfJson? methods, ← functionsOfJson? getters⟩
  | _ => none

def functionsOfJson? : List Json → Option (List Function)
  | [] => some []
  | j :: js => do
    return (← Function.ofJson? j) :: (← functionsOfJson? js)

end

/-- Whether a number has a text or is the infinite one that none stands for. -/
def Leaf.Written : Leaf → Prop
  | .literal (.number x) => x.isFinite ∨ x = Decimal.infinity
  | _ => True

theorem Leaf.Scanned.written {l : Leaf} (h : l.Scanned) : l.Written := by
  cases h with
  | @number cs x hx =>
    have hscanned : Scanned (.literal (.number x)) := .number hx
    cases hreading : Decimal.Reading.ofFloat x with
    | nan => exact (hscanned.number_ne_nan hreading).elim
    | infinite negative =>
      cases negative with
      | false => exact .inr (Decimal.eq_infinity hreading)
      | true => exact (hscanned.number_ne_negative hreading).elim
    | finite => exact .inl (Decimal.Reading.isFinite_of_finite hreading)
  | _ => trivial

attribute [simp] Json.written Json.writtenItems Json.writtenMembers tagged
attribute [simp] Expr.json exprsJson Function.json Stmt.json stmtsJson Class.json functionsJson
attribute [simp] Occurrence.json Json.ofOption
attribute [simp] Expr.ofJson? exprsOfJson? Function.ofJson? Stmt.ofJson? stmtsOfJson? Class.ofJson?
  functionsOfJson?

@[simp]
theorem UnaryOp.ofJson?_json (op : UnaryOp) : ofJson? op.json.written = some op := by
  cases op <;> rfl

@[simp]
theorem BinaryOp.ofJson?_json (op : BinaryOp) : ofJson? op.json.written = some op := by
  cases op <;> rfl

@[simp]
theorem LogicalOp.ofJson?_json (op : LogicalOp) : ofJson? op.json.written = some op := by
  cases op <;> rfl

@[simp]
theorem Name.ofJson?_json (n : Name) : ofJson? n.json.written = some n := rfl

theorem Literal.ofJson?_json {v : Literal} (h : (Leaf.literal v).Written) :
    ofJson? v.json.written = some v := by
  cases v with
  | number x =>
    by_cases hx : x.isFinite
    · simp [json, hx, ofJson?]
    · obtain rfl := h.resolve_left hx
      simp [json, hx, ofJson?]
  | string | nil => rfl
  | bool b => cases b <;> rfl

@[simp]
theorem mapM_nameOfJson? (ns : List Name) :
    (Json.writtenItems (ns.map Name.json)).mapM Name.ofJson? = some ns := by
  induction ns with
  | nil => rfl
  | cons n ns ih => simp [ih]

section

variable {α : Type} (part? : Option α)

@[simp]
theorem Json.optional?_null : optional? part? .null = some none := rfl

@[simp]
theorem Name.optional?_json (n : Name) : Json.optional? part? n.json.written = part?.map some := rfl

@[simp]
theorem Expr.optional?_json (e : Expr) : Json.optional? part? e.json.written = part?.map some := by
  cases e <;> rfl

@[simp]
theorem Stmt.optional?_json (s : Stmt) : Json.optional? part? s.json.written = part?.map some := by
  cases s <;> rfl

end

mutual

theorem Expr.ofJson?_json : (e : Expr) → e.leaves.Forall Leaf.Written →
    Expr.ofJson? e.json.written = some e
  | .literal v, h => by simp [Literal.ofJson?_json h]
  | .group inner, h => by simp [inner.ofJson?_json h]
  | .unary _ _ operand, h => by simp [operand.ofJson?_json h]
  | .binary _ _ left right, h | .logical _ left right, h | .comma left right, h => by
    obtain ⟨hl, hr⟩ := List.forall_append.mp h
    simp [left.ofJson?_json hl, right.ofJson?_json hr]
  | .ternary condition thenBranch elseBranch, h => by
    obtain ⟨hc, h⟩ := List.forall_append.mp h
    obtain ⟨ht, he⟩ := List.forall_append.mp h
    simp [condition.ofJson?_json hc, thenBranch.ofJson?_json ht, elseBranch.ofJson?_json he]
  | .variable _, _ | .this _ _, _ | .super _ _ _, _ => by simp
  | .assign _ value, h => by
    obtain ⟨-, hv⟩ := (List.forall_cons ..).mp h
    simp [value.ofJson?_json hv]
  | .call callee _ arguments, h => by
    obtain ⟨hc, ha⟩ := List.forall_append.mp h
    simp [callee.ofJson?_json hc, exprsOfJson?_json arguments ha]
  | .get object _, h => by
    obtain ⟨-, ho⟩ := (List.forall_cons ..).mp h
    simp [object.ofJson?_json ho]
  | .set object _ value, h => by
    obtain ⟨-, h⟩ := (List.forall_cons ..).mp h
    obtain ⟨ho, hv⟩ := List.forall_append.mp h
    simp [object.ofJson?_json ho, value.ofJson?_json hv]
  | .lambda f, h => by simp [f.ofJson?_json h]
termination_by structural e => e

theorem exprsOfJson?_json : (es : List Expr) → (exprsLeaves es).Forall Leaf.Written →
    exprsOfJson? (Json.writtenItems (exprsJson es)) = some es
  | [], _ => rfl
  | e :: es, h => by
    obtain ⟨he, hes⟩ := List.forall_append.mp h
    simp [e.ofJson?_json he, exprsOfJson?_json es hes]
termination_by structural es => es

theorem Function.ofJson?_json : (f : Function) → f.leaves.Forall Leaf.Written →
    Function.ofJson? f.json.written = some f
  | ⟨name?, parameters, body, _⟩, h => by
    obtain ⟨-, h⟩ := List.forall_append.mp h
    obtain ⟨-, hb⟩ := List.forall_append.mp h
    cases name? <;> simp [stmtsOfJson?_json body hb]
termination_by structural f => f

theorem Stmt.ofJson?_json : (s : Stmt) → s.leaves.Forall Leaf.Written →
    Stmt.ofJson? s.json.written = some s
  | .expression e, h | .print e, h | .return _ (some e), h => by
    simp [exprJson?, e.ofJson?_json h]
  | .var _ none, _ | .return _ none, _ | .break _, _ | .continue _, _ => by simp [exprJson?]
  | .var _ (some e), h => by
    obtain ⟨-, he⟩ := (List.forall_cons ..).mp h
    simp [exprJson?, e.ofJson?_json he]
  | .block body, h => by simp [stmtsOfJson?_json body h]
  | .if condition thenBranch none, h => by
    obtain ⟨hc, ht⟩ := List.forall_append.mp h
    simp [stmtJson?, condition.ofJson?_json hc, thenBranch.ofJson?_json ht]
  | .if condition thenBranch (some elseBranch), h => by
    obtain ⟨hc, h⟩ := List.forall_append.mp h
    obtain ⟨ht, he⟩ := List.forall_append.mp h
    simp [stmtJson?, condition.ofJson?_json hc, thenBranch.ofJson?_json ht,
      elseBranch.ofJson?_json he]
  | .while condition body none, h => by
    obtain ⟨hc, hb⟩ := List.forall_append.mp h
    simp [exprJson?, condition.ofJson?_json hc, body.ofJson?_json hb]
  | .while condition body (some increment), h => by
    obtain ⟨hc, h⟩ := List.forall_append.mp h
    obtain ⟨hb, hi⟩ := List.forall_append.mp h
    simp [exprJson?, condition.ofJson?_json hc, body.ofJson?_json hb, increment.ofJson?_json hi]
  | .function f, h => by simp [f.ofJson?_json h]
  | .class c, h => by simp [c.ofJson?_json h]
termination_by structural s => s

theorem stmtsOfJson?_json : (ss : List Stmt) → (stmtsLeaves ss).Forall Leaf.Written →
    stmtsOfJson? (Json.writtenItems (stmtsJson ss)) = some ss
  | [], _ => rfl
  | s :: ss, h => by
    obtain ⟨hs, hss⟩ := List.forall_append.mp h
    simp [s.ofJson?_json hs, stmtsOfJson?_json ss hss]
termination_by structural ss => ss

theorem Class.ofJson?_json : (c : Class) → c.leaves.Forall Leaf.Written →
    Class.ofJson? c.json.written = some c
  | ⟨_, superclass?, methods, getters⟩, h => by
    obtain ⟨-, h⟩ := (List.forall_cons ..).mp h
    obtain ⟨-, h⟩ := List.forall_append.mp h
    obtain ⟨hm, hg⟩ := List.forall_append.mp h
    have hmethods := functionsOfJson?_json methods hm
    have hgetters := functionsOfJson?_json getters hg
    cases superclass? <;> simp [hmethods, hgetters, Json.optional?, Occurrence.ofJson?]
termination_by structural c => c

theorem functionsOfJson?_json : (fs : List Function) → (functionsLeaves fs).Forall Leaf.Written →
    functionsOfJson? (Json.writtenItems (functionsJson fs)) = some fs
  | [], _ => rfl
  | f :: fs, h => by
    obtain ⟨hf, hfs⟩ := List.forall_append.mp h
    simp [f.ofJson?_json hf, functionsOfJson?_json fs hfs]
termination_by structural fs => fs

end

/-- The statements of the program that a JSON text is of. -/
def stmtsOfJsonText? (text : String) : Option (List Stmt) := do
  match ← Json.ofText? text with
  | .array items => stmtsOfJson? items
  | _ => none

/-- Of the numbers of programs only infinity has no text. -/
theorem Json.numberText_eq_null {x : Float} (h : (Leaf.literal (.number x)).Written) :
    numberText x = "null" ↔ x.isInf := by
  unfold numberText
  by_cases hx : x.isFinite
  · obtain ⟨negative, v, hreading⟩ := Decimal.Reading.exists_finite_of_isFinite hx
    have hchars := numberLayout_spells.isNumberChar_readingText negative v
    have hinf := Decimal.Reading.not_isInf_of_isFinite hx
    rw [if_pos hx, hinf, Decimal.Layout.text, hreading]
    constructor
    · intro hnull
      rw [← String.toList_inj, String.toList_ofList] at hnull
      rw [hnull] at hchars
      exact absurd (hchars 'n' (by simp)) (by simp [Decimal.IsNumberChar])
    · intro hfalse
      cases hfalse
  · obtain rfl := h.resolve_left hx
    rw [if_neg hx]
    exact ⟨fun _ => by decide +kernel, fun _ => rfl⟩

namespace Program

/-- The statements of a program are read back from its JSON, and of its numbers only infinity is
written `null` there. -/
theorem ofJson_exact {firstId : Nat} {source : String} {p : Program}
    (h : ofSource firstId source = .ok p) :
    stmtsOfJsonText? ((programJson p.statements).pretty 0) = some p.statements ∧
      ∀ x, .literal (.number x) ∈ stmtsLeaves p.statements →
        (Json.numberText x = "null" ↔ x.isInf) := by
  have hscanned := scanned_of_ofSource h
  have hwritten : (stmtsLeaves p.statements).Forall Leaf.Written := by
    rw [List.forall_iff_forall_mem] at hscanned ⊢
    exact fun l hl => (hscanned l hl).written
  constructor
  · unfold stmtsOfJsonText?
    rw [Json.ofText?_pretty, programJson, Json.written]
    exact stmtsOfJson?_json p.statements hwritten
  · rw [List.forall_iff_forall_mem] at hwritten
    exact fun x hx => Json.numberText_eq_null (hwritten _ hx)

/-- A string that holds brackets, a backslash and a line break stays a string. -/
theorem ofJson_exact_escapes :
    ∃ p, ofSource 3 "print \"[\\,\n]\", a = 0.5;" = .ok p ∧
      (programJson p.statements).compact =
        "[\x7b\"Print\":\x7b\"Comma\":\x7b\"left\":\x7b\"Literal\":\x7b\"Str\":" ++
          "\"[\\\\,\\n]\"\x7d\x7d,\"right\":\x7b\"Assign\":\x7b\"id\":4,\"name\":" ++
          "\x7b\"name\":\"a\",\"line\":2\x7d,\"value\":\x7b\"Literal\":" ++
          "\x7b\"Number\":0.5\x7d\x7d\x7d\x7d\x7d\x7d\x7d]" ∧
      stmtsOfJsonText? ((programJson p.statements).pretty 0) = some p.statements := by
  have hp : (ofSource 3 "print \"[\\,\n]\", a = 0.5;").map (fun p =>
      (programJson p.statements).compact) = .ok
        ("[\x7b\"Print\":\x7b\"Comma\":\x7b\"left\":\x7b\"Literal\":\x7b\"Str\":" ++
          "\"[\\\\,\\n]\"\x7d\x7d,\"right\":\x7b\"Assign\":\x7b\"id\":4,\"name\":" ++
          "\x7b\"name\":\"a\",\"line\":2\x7d,\"value\":\x7b\"Literal\":" ++
          "\x7b\"Number\":0.5\x7d\x7d\x7d\x7d\x7d\x7d\x7d]") := by
    decide +kernel
  obtain ⟨p, hp, htext⟩ := exists_of_map_eq_ok hp
  exact ⟨p, hp, htext, (ofJson_exact hp).1⟩

end Program

end LoxLang
