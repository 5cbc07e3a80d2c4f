import LoxLang.Proofs.Scoping.Mentions
import LoxLang.Session

/-!
The points that a run goes through: which task a machine goes on at some moment, which tasks it
starts for it, and which variables it looks for itself.
-/

namespace LoxLang

inductive Task where
  | evaluate (e : Expr)
  | evaluateAll (es : List Expr)
  | readProperty (property : Eval.Property) (line : Nat)
  | call (callable : Callable) (arguments : List Value) (line : Nat)
  | run (closure : Closure) (arguments : List Value)
  | construct (c : ClassValue) (arguments : List Value)
  | execute (s : Stmt)
  | loop (condition : Expr) (body : Stmt) (increment? : Option Expr)
  | executeAll (ss : List Stmt)

/-- A task, the fuel that is left for it and the machine that goes on it. -/
structure Point where
  fuel : Nat
  task : Task
  machine : Machine

/-- The tasks that are started for a task, each once the ones before it have ended well. -/
inductive Starts : Point → Point → Prop
  | group {fuel m inner} : Starts ⟨fuel + 1, .evaluate (.group inner), m⟩ ⟨fuel, .evaluate inner, m⟩
  | unary {fuel line m op operand} :
      Starts ⟨fuel + 1, .evaluate (.unary op line operand), m⟩ ⟨fuel, .evaluate operand, m⟩
  | binaryLeft {fuel line m op left right} :
      Starts ⟨fuel + 1, .evaluate (.binary op line left right), m⟩ ⟨fuel, .evaluate left, m⟩
  | binaryRight {fuel line m m₁ v op left right} (h : Eval.evaluate fuel left m = .ok v m₁) :
      Starts ⟨fuel + 1, .evaluate (.binary op line left right), m⟩ ⟨fuel, .evaluate right, m₁⟩
  | logicalLeft {fuel m op left right} :
      Starts ⟨fuel + 1, .evaluate (.logical op left right), m⟩ ⟨fuel, .evaluate left, m⟩
  | logicalRight {fuel m m₁ v op left right} (h : Eval.evaluate fuel left m = .ok v m₁)
      (hv : op.decidedBy v = false) :
      Starts ⟨fuel + 1, .evaluate (.logical op left right), m⟩ ⟨fuel, .evaluate right, m₁⟩
  | question {fuel m condition thenBranch elseBranch} :
      Starts ⟨fuel + 1, .evaluate (.ternary condition thenBranch elseBranch), m⟩
        ⟨fuel, .evaluate condition, m⟩
  | answer {fuel m m₁ v condition thenBranch elseBranch}
      (h : Eval.evaluate fuel condition m = .ok v m₁) :
      Starts ⟨fuel + 1, .evaluate (.ternary condition thenBranch elseBranch), m⟩
        ⟨fuel, .evaluate (if v.isTruthy then thenBranch else elseBranch), m₁⟩
  | commaLeft {fuel m left right} :
      Starts ⟨fuel + 1, .evaluate (.comma left right), m⟩ ⟨fuel, .evaluate left, m⟩
  | commaRight {fuel m m₁ v left right} (h : Eval.evaluate fuel left m = .ok v m₁) :
      Starts ⟨fuel + 1, .evaluate (.comma left right), m⟩ ⟨fuel, .evaluate right, m₁⟩
  | assigned {fuel m o value} :
      Starts ⟨fuel + 1, .evaluate (.assign o value), m⟩ ⟨fuel, .evaluate value, m⟩
  | callee {fuel line m callee arguments} :
      Starts ⟨fuel + 1, .evaluate (.call callee line arguments), m⟩ ⟨fuel, .evaluate callee, m⟩
  | arguments {fuel line m m₁ v callee arguments} (h : Eval.evaluate fuel callee m = .ok v m₁) :
      Starts ⟨fuel + 1, .evaluate (.call callee line arguments), m⟩
        ⟨fuel, .evaluateAll arguments, m₁⟩
  | called {fuel line m m₁ m₂ m₃ v vs callee arguments c}
      (h : Eval.evaluate fuel callee m = .ok v m₁)
      (hs : Eval.evaluateAll fuel arguments m₁ = .ok vs m₂)
      (hc : Eval.callableOf v vs.length line m₂ = .ok c m₃) :
      Starts ⟨fuel + 1, .evaluate (.call callee line arguments), m⟩ ⟨fuel, .call c vs line, m₃⟩
  | object {fuel m object name} :
      Starts ⟨fuel + 1, .evaluate (.get object name), m⟩ ⟨fuel, .evaluate object, m⟩
  | property {fuel m m₁ m₂ v object name property} (h : Eval.evaluate fuel object m = .ok v m₁)
      (hp : Eval.propertyOfValue v name m₁ = .ok property m₂) :
      Starts ⟨fuel + 1, .evaluate (.get object name), m⟩
        ⟨fuel, .readProperty property name.line, m₂⟩
  | holder {fuel m object name value} :
      Starts ⟨fuel + 1, .evaluate (.set object name value), m⟩ ⟨fuel, .evaluate object, m⟩
  | stored {fuel m m₁ m₂ v object name value i} (h : Eval.evaluate fuel object m = .ok v m₁)
      (hi : Eval.instanceOf v name m₁ = .ok i m₂) :
      Starts ⟨fuel + 1, .evaluate (.set object name value), m⟩ ⟨fuel, .evaluate value, m₂⟩
  | superProperty {fuel line id m m₁ m₂ method receiver property}
      (h : Eval.superOf id line m = .ok receiver m₁)
      (hp : Eval.superPropertyOf receiver.1 receiver.2 method m₁ = .ok property m₂) :
      Starts ⟨fuel + 1, .evaluate (.super id line method), m⟩
        ⟨fuel, .readProperty property method.line, m₂⟩
  | head {fuel m e es} : Starts ⟨fuel + 1, .evaluateAll (e :: es), m⟩ ⟨fuel, .evaluate e, m⟩
  | tail {fuel m m₁ v e es} (h : Eval.evaluate fuel e m = .ok v m₁) :
      Starts ⟨fuel + 1, .evaluateAll (e :: es), m⟩ ⟨fuel, .evaluateAll es, m₁⟩
  | getter {fuel line m m₁ closure c} (h : Eval.newFunction closure m = .ok c m₁) :
      Starts ⟨fuel + 1, .readProperty (.getter closure) line, m⟩ ⟨fuel, .call c [] line, m₁⟩
  | function {fuel line id m m₁ vs closure} (h : Eval.checkDepth line m = .ok () m₁) :
      Starts ⟨fuel + 1, .call (.function id closure) vs line, m⟩
        ⟨fuel, .run closure vs, { m₁ with depth := m₁.depth + 1 }⟩
  | class {fuel line m m₁ vs c} (h : Eval.checkDepth line m = .ok () m₁) :
      Starts ⟨fuel + 1, .call (.class c) vs line, m⟩
        ⟨fuel, .construct c vs, { m₁ with depth := m₁.depth + 1 }⟩
  | body {fuel m m₁ vs closure environment} (h : Eval.openScope closure.environment
        (parameterTable closure.function.parameters vs) m = .ok environment m₁) :
      Starts ⟨fuel + 1, .run closure vs, m⟩
        ⟨fuel, .executeAll closure.function.body, { m₁ with environment := environment }⟩
  | initializer {fuel m m₁ m₂ vs c i method closure} (h : Eval.newInstance c m = .ok i m₁)
      (hm : c.initializer? = some method) (hb : Eval.bindThis method i m₁ = .ok closure m₂) :
      Starts ⟨fuel + 1, .construct c vs, m⟩ ⟨fuel, .run closure vs, m₂⟩
  | expression {fuel m e} : Starts ⟨fuel + 1, .execute (.expression e), m⟩ ⟨fuel, .evaluate e, m⟩
  | print {fuel m e} : Starts ⟨fuel + 1, .execute (.print e), m⟩ ⟨fuel, .evaluate e, m⟩
  | var {fuel m name e} : Starts ⟨fuel + 1, .execute (.var name (some e)), m⟩ ⟨fuel, .evaluate e, m⟩
  | block {fuel m m₁ ss environment}
      (h : Eval.openScope m.environment .empty m = .ok environment m₁) :
      Starts ⟨fuel + 1, .execute (.block ss), m⟩
        ⟨fuel, .executeAll ss, { m₁ with environment := environment }⟩
  | condition {fuel m condition thenBranch elseBranch?} :
      Starts ⟨fuel + 1, .execute (.if condition thenBranch elseBranch?), m⟩
        ⟨fuel, .evaluate condition, m⟩
  | thenBranch {fuel m m₁ v condition thenBranch elseBranch?}
      (h : Eval.evaluate fuel condition m = .ok v m₁)
      (hv : v.isTruthy = true) :
      Starts ⟨fuel + 1, .execute (.if condition thenBranch elseBranch?), m⟩
        ⟨fuel, .execute thenBranch, m₁⟩
  | elseBranch {fuel m m₁ v condition thenBranch elseBranch}
      (h : Eval.evaluate fuel condition m = .ok v m₁)
      (hv : v.isTruthy = false) :
      Starts ⟨fuel + 1, .execute (.if condition thenBranch (some elseBranch)), m⟩
        ⟨fuel, .execute elseBranch, m₁⟩
  | while {fuel m condition body increment?} :
      Starts ⟨fuel + 1, .execute (.while condition body increment?), m⟩
        ⟨fuel, .loop condition body increment?, m⟩
  | result {fuel line m e} :
      Starts ⟨fuel + 1, .execute (.return line (some e)), m⟩ ⟨fuel, .evaluate e, m⟩
  | test {fuel m condition body increment?} :
      Starts ⟨fuel + 1, .loop condition body increment?, m⟩ ⟨fuel, .evaluate condition, m⟩
  | turn {fuel m m₁ v condition body increment?} (h : Eval.evaluate fuel condition m = .ok v m₁)
      (hv : v.isTruthy = true) :
      Starts ⟨fuel + 1, .loop condition body increment?, m⟩ ⟨fuel, .execute body, m₁⟩
  | increment {fuel m m₁ m₂ v condition body increment flow}
      (h : Eval.evaluate fuel condition m = .ok v m₁)
      (hv : v.isTruthy = true) (hb : Eval.execute fuel body m₁ = .ok flow m₂)
      (hf : flow = .normal ∨ flow = .continue) :
      Starts ⟨fuel + 1, .loop condition body (some increment), m⟩ ⟨fuel, .evaluate increment, m₂⟩
  | again {fuel m m₁ m₂ v condition body flow} (h : Eval.evaluate fuel condition m = .ok v m₁)
      (hv : v.isTruthy = true) (hb : Eval.execute fuel body m₁ = .ok flow m₂)
      (hf : flow = .normal ∨ flow = .continue) :
      Starts ⟨fuel + 1, .loop condition body none, m⟩ ⟨fuel, .loop condition body none, m₂⟩
  | incremented {fuel m m₁ m₂ m₃ v v' condition body increment flow}
      (h : Eval.evaluate fuel condition m = .ok v m₁)
      (hv : v.isTruthy = true) (hb : Eval.execute fuel body m₁ = .ok flow m₂)
      (hf : flow = .normal ∨ flow = .continue)
      (hi : Eval.evaluate fuel increment m₂ = .ok v' m₃) :
      Starts ⟨fuel + 1, .loop condition body (some increment), m⟩
        ⟨fuel, .loop condition body (some increment), m₃⟩
  | first {fuel m s ss} : Starts ⟨fuel + 1, .executeAll (s :: ss), m⟩ ⟨fuel, .execute s, m⟩
  | next {fuel m m₁ s ss} (h : Eval.execute fuel s m = .ok .normal m₁) :
      Starts ⟨fuel + 1, .executeAll (s :: ss), m⟩ ⟨fuel, .executeAll ss, m₁⟩

/-- The local variable whose initializer the machine goes on. -/
def Point.initializing (a : Point) : List (Nat × String) :=
  match a.task, a.machine.environment with
  | .execute (.var name (some _)), scope :: _ => if scope = 0 then [] else [(scope, name.text)]
  | _, _ => []

/-- The points that a run comes to, each with the local variables whose initializers are under
way. -/
inductive Reaches (start : Point) : List (Nat × String) → Point → Prop
  | here : Reaches start [] start
  | next {underway a b} (h : Reaches start underway a) (hs : Starts a b) :
      Reaches start (a.initializing ++ underway) b

/-- The uses of names on which a machine looks for a variable, and the machine that does. -/
inductive Accesses : Point → Use → Machine → Prop
  | read {fuel o m} : Accesses ⟨fuel + 1, .evaluate (.variable o), m⟩ (.read o) m
  | assign {fuel o value v m m₁} (h : Eval.evaluate fuel value m = .ok v m₁) :
      Accesses ⟨fuel + 1, .evaluate (.assign o value), m⟩ (.assign o) m₁
  | inherit {fuel c o m} (h : c.superclass? = some o) :
      Accesses ⟨fuel + 1, .execute (.class c), m⟩ (.inherit c.name o) m
  | this {fuel id line m} : Accesses ⟨fuel + 1, .evaluate (.this id line), m⟩ (.this id) m
  | super {fuel id line method m} :
      Accesses ⟨fuel + 1, .evaluate (.super id line method), m⟩ (.super id) m

end LoxLang
