import LoxLang.Proofs.Lexical.Linked

/-!
Environments as a tree of maps. The scopes of a machine are tables by number, and an environment
lists the numbers from a scope outwards. Here the same operations also run on scopes that have a
map and a link each, and no link ever changes. Main statement: `ScopeChains.run?_refines`, by which
both give the same answers and hold the same variables after any steps, with the laws of the next
step in terms of the tree (`ScopeTree.Governs`).
-/

namespace LoxLang

/-- What is done to the environment that begins at a scope. -/
inductive ScopeAccess where
  | define (name : String) (value : Value)
  | assign (name : Name) (value : Value)
  | get (name : Name)
  | assignAt (distance : Nat) (name : Name) (value : Value)
  | getAt (distance : Nat) (name : Name)

/-- A new scope, outermost or inside another, or an access through a scope. Scopes are numbered in
the order in which they are opened. -/
inductive ScopeStep where
  | root
  | child (outer : Nat)
  | access (scope : Nat) (access : ScopeAccess)

inductive ScopeAnswer where
  | opened (scope : Nat)
  | done
  | value (v : Value)
  | failed (d : Diagnostic)

namespace ScopeStep

/-- Whether a step is about scopes that are open when there are so many. -/
def Named (size : Nat) : ScopeStep → Prop
  | .root => True
  | .child scope | .access scope _ => scope < size

/-- How many scopes there are after a step. -/
def sizeAfter (size : Nat) : ScopeStep → Nat
  | .root | .child _ => size + 1
  | .access .. => size

/-- Whether each step is about scopes that are open by then. -/
def AllNamed : Nat → List ScopeStep → Prop
  | _, [] => True
  | size, step :: steps => step.Named size ∧ AllNamed (step.sizeAfter size) steps

instance (size : Nat) : (step : ScopeStep) → Decidable (step.Named size)
  | .root => .isTrue trivial
  | .child scope | .access scope _ => inferInstanceAs (Decidable (scope < size))

instance AllNamed.decidable : (size : Nat) → (steps : List ScopeStep) →
    Decidable (AllNamed size steps)
  | _, [] => .isTrue trivial
  | _, _ :: steps => @instDecidableAnd _ _ _ (AllNamed.decidable _ steps)

/-- The answers to steps in a row, and the state they lead to. -/
def run? {σ : Type} (step? : σ → ScopeStep → Option (ScopeAnswer × σ)) :
    σ → List ScopeStep → Option (List ScopeAnswer × σ)
  | s, [] => some ([], s)
  | s, step :: steps =>
    (step? s step).bind fun next =>
      (run? step? next.2 steps).map fun later => (next.1 :: later.1, later.2)

end ScopeStep

/-- The scopes of a machine, with the environment that begins at each of them. -/
structure ScopeChains where
  scopes : Scopes
  environments : List Environment

namespace ScopeChains

def empty : ScopeChains := ⟨.empty, []⟩

/-- Opens a scope inside an environment. -/
def opened (c : ScopeChains) (outer : Environment) : ScopeAnswer × ScopeChains :=
  (.opened c.environments.length,
    ⟨c.scopes.push .empty, c.environments ++ [c.scopes.next :: outer]⟩)

def reading (c : ScopeChains) : Except Diagnostic Value → ScopeAnswer × ScopeChains
  | .ok v => (.value v, c)
  | .error d => (.failed d, c)

def writing (c : ScopeChains) : Except Diagnostic Scopes → ScopeAnswer × ScopeChains
  | .ok scopes => (.done, { c with scopes := scopes })
  | .error d => (.failed d, c)

def access (c : ScopeChains) (environment : Environment) :
    ScopeAccess → ScopeAnswer × ScopeChains
  | .define name value => c.writing (.ok (c.scopes.define environment name value))
  | .assign name value => c.writing (c.scopes.write environment name value)
  | .get name => c.reading (c.scopes.read environment name)
  | .assignAt distance name value => c.writing (c.scopes.writeAt environment distance name value)
  | .getAt distance name => c.reading (c.scopes.readAt environment distance name)

/-- One step, if its scope is open. -/
def step? (c : ScopeChains) : ScopeStep → Option (ScopeAnswer × ScopeChains)
  | .root => some (c.opened [])
  | .child outer => c.environments[outer]?.map c.opened
  | .access scope access => c.environments[scope]?.map (c.access · access)

end ScopeChains

/-- Scopes with a map each and a link to the scope around it, which is an older one. -/
structure ScopeTree where
  size : Nat
  outer? : (scope : Nat) → Option (Fin scope)
  value? : Nat → String → Option Value

namespace ScopeTree

def empty : ScopeTree := ⟨0, fun _ => none, fun _ _ => none⟩

/-- The scope so many links out. -/
def ancestor? (t : ScopeTree) (scope : Nat) : Nat → Option Nat
  | 0 => some scope
  | distance + 1 => (t.outer? scope).bind fun outer => t.ancestor? outer distance

/-- The nearest scope, from a scope outwards, that has a name. -/
def nearest? (t : ScopeTree) (name : String) (scope : Nat) : Option Nat :=
  if (t.value? scope name).isSome then some scope
  else
    match t.outer? scope with
    | some outer => t.nearest? name outer
    | none => none
termination_by scope
decreasing_by exact outer.isLt

/-- Adds a scope with an empty map. -/
def add (t : ScopeTree) (outer? : Option (Fin t.size)) : ScopeTree where
  size := t.size + 1
  outer? scope := if h : scope = t.size then outer?.map (Fin.cast h.symm) else t.outer? scope
  value? scope name := if scope = t.size then none else t.value? scope name

/-- Sets one name in the map of one scope. -/
def bind (t : ScopeTree) (scope : Nat) (name : String) (value : Value) : ScopeTree :=
  { t with
    value? := fun s key => if s = scope ∧ key = name then some value else t.value? s key }

/-- What a scope gives for a name, or a failure. -/
def reading (t : ScopeTree) (name : Name) (error : RuntimeError) :
    Option Nat → ScopeAnswer × ScopeTree
  | some scope =>
    match t.value? scope name.text with
    | some v => (.value v, t)
    | none => (.failed (.runtime name.line error), t)
  | none => (.failed (.runtime name.line error), t)

/-- Sets a name where a scope has it already, or fails. -/
def writing (t : ScopeTree) (name : Name) (value : Value) (error : RuntimeError) :
    Option Nat → ScopeAnswer × ScopeTree
  | some scope =>
    if (t.value? scope name.text).isSome then (.done, t.bind scope name.text value)
    else (.failed (.runtime name.line error), t)
  | none => (.failed (.runtime name.line error), t)

def access (t : ScopeTree) (scope : Nat) : ScopeAccess → ScopeAnswer × ScopeTree
  | .define name value => (.done, t.bind scope name value)
  | .assign name value =>
    t.writing name value (.undefinedVariable name.text) (t.nearest? name.text scope)
  | .get name => t.reading name (.undefinedVariable name.text) (t.nearest? name.text scope)
  | .assignAt distance name value =>
    t.writing name value (.misplacedVariable name.text) (t.ancestor? scope distance)
  | .getAt distance name =>
    t.reading name (.misplacedVariable name.text) (t.ancestor? scope distance)

/-- One step, if its scope is open. -/
def step? (t : ScopeTree) : ScopeStep → Option (ScopeAnswer × ScopeTree)
  | .root => some (.opened t.size, t.add none)
  | .child outer =>
    if h : outer < t.size then some (.opened t.size, t.add (some ⟨outer, h⟩)) else none
  | .access scope access => if scope < t.size then some (t.access scope access) else none

/-- The scopes from a scope outwards. -/
def chain (t : ScopeTree) (scope : Nat) : List Nat :=
  scope ::
    match t.outer? scope with
    | some outer => t.chain outer
    | none => []
termination_by scope
decreasing_by exact outer.isLt

/-- The scope so many links out has a name, and none before it does. -/
def Nearest (t : ScopeTree) (scope : Nat) (name : String) (distance holder : Nat) : Prop :=
  t.ancestor? scope distance = some holder ∧ (t.value? holder name).isSome ∧
    ∀ nearer < distance, ∀ s, t.ancestor? scope nearer = some s → t.value? s name = none

variable {t : ScopeTree} {scope : Nat}

/-- An access opens no scope. -/
theorem size_access (t : ScopeTree) (scope : Nat) (access : ScopeAccess) :
    (t.access scope access).2.size = t.size := by
  have hr (name : Name) (error : RuntimeError) (s? : Option Nat) :
      (t.reading name error s?).2.size = t.size := by
    unfold reading
    split <;> try rfl
    split <;> rfl
  have hw (name : Name) (value : Value) (error : RuntimeError) (s? : Option Nat) :
      (t.writing name value error s?).2.size = t.size := by
    unfold writing
    split <;> try rfl
    split <;> rfl
  cases access with
  | define name value => rfl
  | assign name value => exact hw ..
  | get name => exact hr ..
  | assignAt distance name value => exact hw ..
  | getAt distance name => exact hr ..

theorem chain_eq_cons (t : ScopeTree) (scope : Nat) :
    t.chain scope = scope :: (t.outer? scope).elim [] fun outer => t.chain outer := by
  rw [chain]
  cases t.outer? scope <;> rfl

@[simp] theorem ancestor?_zero (t : ScopeTree) (scope : Nat) :
    t.ancestor? scope 0 = some scope := rfl

theorem ancestor?_succ (t : ScopeTree) (scope distance : Nat) :
    t.ancestor? scope (distance + 1) =
      (t.outer? scope).bind fun outer => t.ancestor? outer distance := rfl

theorem getElem?_chain (t : ScopeTree) (scope distance : Nat) :
    (t.chain scope)[distance]? = t.ancestor? scope distance := by
  induction distance generalizing scope with
  | zero => rw [chain_eq_cons, List.getElem?_cons_zero, ancestor?_zero]
  | succ distance ih =>
    rw [chain_eq_cons, List.getElem?_cons_succ, ancestor?_succ]
    cases t.outer? scope with
    | none => rfl
    | some outer => exact ih outer

/-- The links outwards end, as each leads to an older scope. -/
theorem find?_chain (t : ScopeTree) (name : String) (scope : Nat) :
    (t.chain scope).find? (fun s => (t.value? s name).isSome) = t.nearest? name scope := by
  induction scope using Nat.strongRecOn with
  | ind scope ih =>
    rw [chain_eq_cons, nearest?, List.find?_cons]
    cases hv : (t.value? scope name).isSome with
    | true => rfl
    | false =>
      simp only [Bool.false_eq_true, if_false]
      cases t.outer? scope with
      | none => rfl
      | some outer => exact ih outer outer.isLt

/-- A new scope changes no chain that is there. -/
theorem chain_add (t : ScopeTree) (outer? : Option (Fin t.size)) (h : scope < t.size) :
    (t.add outer?).chain scope = t.chain scope := by
  induction scope using Nat.strongRecOn with
  | ind scope ih =>
    have ho : (t.add outer?).outer? scope = t.outer? scope := dif_neg (Nat.ne_of_lt h)
    rw [chain_eq_cons, chain_eq_cons t, ho]
    cases t.outer? scope with
    | none => rfl
    | some outer =>
      exact congrArg _ (ih outer outer.isLt (Nat.lt_trans outer.isLt h))

theorem chain_add_self (t : ScopeTree) (outer? : Option (Fin t.size)) :
    (t.add outer?).chain t.size = t.size :: outer?.elim [] fun outer => t.chain outer := by
  have ho : (t.add outer?).outer? t.size = outer? := by
    simp only [add, dite_true]
    cases outer? <;> rfl
  rw [chain_eq_cons, ho]
  cases outer? with
  | none => rfl
  | some outer => exact congrArg _ (t.chain_add _ outer.isLt)

theorem chain_bind (t : ScopeTree) (holder scope : Nat) (name : String) (value : Value) :
    (t.bind holder name value).chain scope = t.chain scope := by
  induction scope using Nat.strongRecOn with
  | ind scope ih =>
    rw [chain_eq_cons, chain_eq_cons t]
    show scope :: (t.outer? scope).elim [] _ = _
    cases t.outer? scope with
    | none => rfl
    | some outer => exact congrArg _ (ih outer outer.isLt)

theorem mem_chain_le {s : Nat} (h : s ∈ t.chain scope) : s ≤ scope := by
  induction scope using Nat.strongRecOn with
  | ind scope ih =>
    rw [chain_eq_cons] at h
    cases h with
    | head => exact Nat.le_refl _
    | tail _ h =>
      cases ho : t.outer? scope with
      | none =>
        rw [ho] at h
        cases h
      | some outer =>
        rw [ho] at h
        exact Nat.le_trans (ih outer outer.isLt h) (Nat.le_of_lt outer.isLt)

theorem ancestor?_le {distance holder : Nat} (h : t.ancestor? scope distance = some holder) :
    holder ≤ scope :=
  mem_chain_le (List.mem_of_getElem? ((t.getElem?_chain scope distance).trans h))

theorem nearest?_eq_some_iff {name : String} {holder : Nat} :
    t.nearest? name scope = some holder ↔ ∃ distance, t.Nearest scope name distance holder := by
  rw [← find?_chain, List.find?_eq_some_iff_getElem]
  constructor
  · rintro ⟨hv, d, hd, he, hb⟩
    refine ⟨d, ?_, hv, fun e hlt s hs => ?_⟩
    · rw [← getElem?_chain, List.getElem?_eq_getElem hd, he]
    · rw [← getElem?_chain, List.getElem?_eq_getElem (Nat.lt_trans hlt hd)] at hs
      have h := hb e hlt
      rw [Option.some.inj hs] at h
      simpa using h
  · rintro ⟨d, ha, hv, hb⟩
    rw [← getElem?_chain] at ha
    obtain ⟨hd, he⟩ := List.getElem?_eq_some_iff.mp ha
    refine ⟨hv, d, hd, he, fun e hlt => ?_⟩
    have h := hb e hlt _ ((t.getElem?_chain scope e).symm.trans
      (List.getElem?_eq_getElem (Nat.lt_trans hlt hd)))
    simp [h]

theorem Nearest.nearest?_eq {name : String} {distance holder : Nat}
    (h : t.Nearest scope name distance holder) : t.nearest? name scope = some holder :=
  nearest?_eq_some_iff.mpr ⟨distance, h⟩

theorem nearest?_le {name : String} {holder : Nat} (h : t.nearest? name scope = some holder) :
    holder ≤ scope := by
  obtain ⟨d, ha, -⟩ := nearest?_eq_some_iff.mp h
  exact ancestor?_le ha

theorem isSome_of_nearest? {name : String} {holder : Nat}
    (h : t.nearest? name scope = some holder) : (t.value? holder name).isSome = true := by
  obtain ⟨d, -, hv, -⟩ := nearest?_eq_some_iff.mp h
  exact hv

theorem nearest?_eq_none_iff {name : String} :
    t.nearest? name scope = none ↔
      ∀ distance s, t.ancestor? scope distance = some s → t.value? s name = none := by
  rw [← find?_chain, List.find?_eq_none]
  constructor
  · intro h d s hs
    have hm : s ∈ t.chain scope :=
      List.mem_of_getElem? ((t.getElem?_chain scope d).trans hs)
    simpa using h s hm
  · intro h s hm
    obtain ⟨d, hd⟩ := List.mem_iff_getElem?.mp hm
    simp [h d s ((t.getElem?_chain scope d).symm.trans hd)]

/-- From a scope without a name, the nearest scope that has it is the nearest from the scope
around it. -/
theorem nearest?_of_unbound {name : String} {outer : Nat} (ho : t.ancestor? scope 1 = some outer)
    (hv : t.value? scope name = none) : t.nearest? name scope = t.nearest? name outer := by
  rw [ancestor?_succ] at ho
  obtain ⟨link, hl, he⟩ := Option.bind_eq_some_iff.mp ho
  rw [nearest?, hv, hl, ← Option.some.inj he]
  rfl

/-- A binding that is overwritten stays the nearest where it was. -/
theorem nearest?_bind {holder : Nat} {name : String} (value : Value)
    (h : (t.value? holder name).isSome = true) (key : String) (scope : Nat) :
    (t.bind holder name value).nearest? key scope = t.nearest? key scope := by
  rw [← find?_chain, ← find?_chain, chain_bind]
  congr 1
  funext s
  show (if s = holder ∧ key = name then some value else t.value? s key).isSome = _
  split
  case isTrue hs => rw [hs.1, hs.2, h, Option.isSome_some]
  case isFalse => rfl

end ScopeTree

namespace ScopeChains

/-- One variable is set, and all others and the environments stay. -/
def Sets (c c' : ScopeChains) (scope : Nat) (name : String) (value : Value) : Prop :=
  c'.environments = c.environments ∧
    ∀ s key, c'.scopes.value? s key =
      if s = scope ∧ key = name then some value else c.scopes.value? s key

/-- There is one more environment, and all variables stay. -/
def Opens (c c' : ScopeChains) (outer : Environment) : Prop :=
  c'.environments = c.environments ++ [c.environments.length :: outer] ∧
    ∀ s key, c'.scopes.value? s key = c.scopes.value? s key

/-- Each environment lists the scopes of a tree from one outwards, and the tables hold its maps. -/
structure Represents (c : ScopeChains) (t : ScopeTree) : Prop where
  next : c.scopes.next = t.size
  environments : c.environments = (List.range t.size).map t.chain
  value : ∀ scope name, c.scopes.value? scope name = t.value? scope name

end ScopeChains

/-- What the next step does to chains of scopes, by the tree that they stand for. -/
structure ScopeTree.Governs (t : ScopeTree) (c : ScopeChains) : Prop where
  contents : ∀ scope name, c.scopes.value? scope name = t.value? scope name
  links : ∀ scope < t.size, ∀ distance,
    c.environments[scope]?.bind (·[distance]?) = t.ancestor? scope distance
  root : ∃ c', c.step? .root = some (.opened t.size, c') ∧ c.Opens c' []
  child : ∀ outer < t.size, ∃ c',
    c.step? (.child outer) = some (.opened t.size, c') ∧ c.Opens c' (t.chain outer)
  define : ∀ scope < t.size, ∀ name value, ∃ c',
    c.step? (.access scope (.define name value)) = some (.done, c') ∧ c.Sets c' scope name value
  get : ∀ scope < t.size, ∀ (name : Name) distance holder v,
    t.Nearest scope name.text distance holder → t.value? holder name.text = some v →
    c.step? (.access scope (.get name)) = some (.value v, c)
  get_unbound : ∀ scope < t.size, ∀ name : Name,
    (∀ distance s, t.ancestor? scope distance = some s → t.value? s name.text = none) →
    c.step? (.access scope (.get name)) =
      some (.failed (.runtime name.line (.undefinedVariable name.text)), c)
  assign : ∀ scope < t.size, ∀ (name : Name) value distance holder,
    t.Nearest scope name.text distance holder → ∃ c',
    c.step? (.access scope (.assign name value)) = some (.done, c') ∧
      c.Sets c' holder name.text value
  assign_unbound : ∀ scope < t.size, ∀ (name : Name) value,
    (∀ distance s, t.ancestor? scope distance = some s → t.value? s name.text = none) →
    c.step? (.access scope (.assign name value)) =
      some (.failed (.runtime name.line (.undefinedVariable name.text)), c)
  getAt : ∀ scope < t.size, ∀ distance (name : Name) holder v,
    t.ancestor? scope distance = some holder → t.value? holder name.text = some v →
    c.step? (.access scope (.getAt distance name)) = some (.value v, c)
  getAt_unbound : ∀ scope < t.size, ∀ distance (name : Name),
    (∀ s, t.ancestor? scope distance = some s → t.value? s name.text = none) →
    c.step? (.access scope (.getAt distance name)) =
      some (.failed (.runtime name.line (.misplacedVariable name.text)), c)
  assignAt : ∀ scope < t.size, ∀ distance (name : Name) value holder,
    t.ancestor? scope distance = some holder → (t.value? holder name.text).isSome → ∃ c',
    c.step? (.access scope (.assignAt distance name value)) = some (.done, c') ∧
      c.Sets c' holder name.text value
  assignAt_unbound : ∀ scope < t.size, ∀ distance (name : Name) value,
    (∀ s, t.ancestor? scope distance = some s → t.value? s name.text = none) →
    c.step? (.access scope (.assignAt distance name value)) =
      some (.failed (.runtime name.line (.misplacedVariable name.text)), c)
  at_nearest : ∀ scope < t.size, ∀ (name : Name) distance holder,
    t.Nearest scope name.text distance holder →
    c.step? (.access scope (.get name)) = c.step? (.access scope (.getAt distance name)) ∧
      ∀ value, c.step? (.access scope (.assign name value)) =
        c.step? (.access scope (.assignAt distance name value))
  siblings : ∀ scope < t.size, ∀ other < t.size, ∀ (name : Name) value outer c',
    t.ancestor? scope 1 = some outer → t.ancestor? other 1 = some outer →
    t.value? scope name.text = none → t.value? other name.text = none →
    c.step? (.access scope (.assign name value)) = some (.done, c') →
    c'.step? (.access other (.get name)) = some (.value value, c')

/-- A new scope binds nothing. -/
theorem Scopes.value?_push_empty (s : Scopes) (scope : Nat) (name : String) :
    (s.push .empty).value? scope name = s.value? scope name := by
  rw [value?_push]
  split
  case isTrue hs =>
    rw [hs, Table.find?_empty]
    simp [value?, next]
  case isFalse => rfl

namespace ScopeChains

variable {c c' : ScopeChains} {t : ScopeTree} {scope : Nat}

namespace Represents

theorem empty : ScopeChains.empty.Represents ScopeTree.empty :=
  ⟨rfl, rfl, fun _ _ => rfl⟩

theorem length_environments (h : c.Represents t) : c.environments.length = t.size := by
  rw [h.environments, List.length_map, List.length_range]

theorem getElem?_environments (h : c.Represents t) (hs : scope < t.size) :
    c.environments[scope]? = some (t.chain scope) := by
  simp [h.environments, hs]

theorem holder?_chain (h : c.Represents t) (name : String) :
    c.scopes.holder? (t.chain scope) name = t.nearest? name scope := by
  unfold Scopes.holder?
  simp only [h.value]
  exact t.find?_chain name scope

theorem find?_chain (h : c.Represents t) (name : String) :
    c.scopes.find? (t.chain scope) name = (t.nearest? name scope).bind (t.value? · name) := by
  unfold Scopes.find?
  simp only [h.value]
  rw [← t.find?_chain]
  induction t.chain scope with
  | nil => rfl
  | cons s outer ih =>
    rw [List.findSome?_cons, List.find?_cons]
    cases hv : t.value? s name with
    | none => simpa [hv] using ih
    | some v => simp [hv]

theorem findAt?_chain (h : c.Represents t) (distance : Nat) (name : String) :
    c.scopes.findAt? (t.chain scope) distance name =
      (t.ancestor? scope distance).bind (t.value? · name) := by
  unfold Scopes.findAt?
  simp only [h.value, t.getElem?_chain]

theorem holderAt?_chain (h : c.Represents t) (distance : Nat) (name : String) :
    c.scopes.holderAt? (t.chain scope) distance name =
      (t.ancestor? scope distance).filter fun s => (t.value? s name).isSome := by
  unfold Scopes.holderAt?
  simp only [h.value, t.getElem?_chain]

theorem opened (h : c.Represents t) (outer? : Option (Fin t.size)) :
    (c.opened (outer?.elim [] fun outer => t.chain outer)).2.Represents (t.add outer?) := by
  constructor
  · simp [ScopeChains.opened, h.next, ScopeTree.add]
  · have hold : (List.range t.size).map (t.add outer?).chain = (List.range t.size).map t.chain :=
      List.map_congr_left fun s hs => t.chain_add outer? (List.mem_range.mp hs)
    show c.environments ++ [c.scopes.next :: _] = (List.range (t.size + 1)).map _
    rw [List.range_succ, List.map_append, hold, h.environments, h.next, List.map_singleton,
      t.chain_add_self]
  · intro s name
    show (c.scopes.push .empty).value? s name = if s = t.size then none else t.value? s name
    rw [Scopes.value?_push, h.next, h.value, Table.find?_empty]

theorem put (h : c.Represents t) (hs : scope < t.size) (name : String) (value : Value) :
    Represents { c with scopes := c.scopes.put scope name value } (t.bind scope name value) := by
  constructor
  · exact (Scopes.next_put ..).trans h.next
  · show c.environments = (List.range t.size).map (t.bind scope name value).chain
    rw [h.environments]
    exact List.map_congr_left fun s _ => (t.chain_bind scope s name value).symm
  · intro s key
    show (c.scopes.put scope name value).value? s key =
      if s = scope ∧ key = name then some value else t.value? s key
    rw [Scopes.value?_put, h.value, h.next]
    simp only [hs, and_true]

theorem sets (h : c.Represents t) (hs : scope < t.size) (name : String) (value : Value) :
    c.Sets { c with scopes := c.scopes.put scope name value } scope name value := by
  refine ⟨rfl, fun s key => ?_⟩
  rw [Scopes.value?_put, h.next]
  simp only [hs, and_true]

theorem step?_access (h : c.Represents t) (hs : scope < t.size) (access : ScopeAccess) :
    c.step? (.access scope access) = some (c.access (t.chain scope) access) := by
  rw [step?, h.getElem?_environments hs, Option.map_some]

variable (h : c.Represents t) (hs : scope < t.size)
include h hs

theorem define (name : String) (value : Value) :
    c.step? (.access scope (.define name value)) =
      some (.done, { c with scopes := c.scopes.put scope name value }) := by
  rw [h.step?_access hs, t.chain_eq_cons]
  rfl

theorem get {name : Name} {holder : Nat} {v : Value}
    (hn : t.nearest? name.text scope = some holder) (hv : t.value? holder name.text = some v) :
    c.step? (.access scope (.get name)) = some (.value v, c) := by
  rw [h.step?_access hs, ScopeChains.access, Scopes.read, h.find?_chain, hn, Option.bind_some, hv]
  rfl

theorem get_unbound {name : Name} (hn : t.nearest? name.text scope = none) :
    c.step? (.access scope (.get name)) =
      some (.failed (.runtime name.line (.undefinedVariable name.text)), c) := by
  rw [h.step?_access hs, ScopeChains.access, Scopes.read, h.find?_chain, hn, Option.bind_none]
  rfl

theorem assign {name : Name} {holder : Nat} (value : Value)
    (hn : t.nearest? name.text scope = some holder) :
    c.step? (.access scope (.assign name value)) =
      some (.done, { c with scopes := c.scopes.put holder name.text value }) := by
  rw [h.step?_access hs, ScopeChains.access, Scopes.write, Scopes.target, h.holder?_chain, hn]
  rfl

theorem assign_unbound {name : Name} (value : Value) (hn : t.nearest? name.text scope = none) :
    c.step? (.access scope (.assign name value)) =
      some (.failed (.runtime name.line (.undefinedVariable name.text)), c) := by
  rw [h.step?_access hs, ScopeChains.access, Scopes.write, Scopes.target, h.holder?_chain, hn]
  rfl

theorem getAt {distance : Nat} {name : Name} {holder : Nat} {v : Value}
    (ha : t.ancestor? scope distance = some holder) (hv : t.value? holder name.text = some v) :
    c.step? (.access scope (.getAt distance name)) = some (.value v, c) := by
  rw [h.step?_access hs, ScopeChains.access, Scopes.readAt, h.findAt?_chain, ha, Option.bind_some,
    hv]
  rfl

theorem getAt_unbound {distance : Nat} {name : Name}
    (hv : ∀ s, t.ancestor? scope distance = some s → t.value? s name.text = none) :
    c.step? (.access scope (.getAt distance name)) =
      some (.failed (.runtime name.line (.misplacedVariable name.text)), c) := by
  rw [h.step?_access hs, ScopeChains.access, Scopes.readAt, h.findAt?_chain,
    Option.bind_eq_none_iff.mpr hv]
  rfl

theorem assignAt {distance : Nat} {name : Name} {holder : Nat} (value : Value)
    (ha : t.ancestor? scope distance = some holder)
    (hv : (t.value? holder name.text).isSome = true) :
    c.step? (.access scope (.assignAt distance name value)) =
      some (.done, { c with scopes := c.scopes.put holder name.text value }) := by
  rw [h.step?_access hs, ScopeChains.access, Scopes.writeAt, Scopes.targetAt, h.holderAt?_chain,
    ha, Option.filter_some, if_pos hv]
  rfl

theorem assignAt_unbound {distance : Nat} {name : Name} (value : Value)
    (hv : ∀ s, t.ancestor? scope distance = some s → t.value? s name.text = none) :
    c.step? (.access scope (.assignAt distance name value)) =
      some (.failed (.runtime name.line (.misplacedVariable name.text)), c) := by
  have hf : ((t.ancestor? scope distance).filter fun s => (t.value? s name.text).isSome) = none :=
    Option.filter_eq_none_iff.mpr fun s hs => by simp [hv s hs]
  rw [h.step?_access hs, ScopeChains.access, Scopes.writeAt, Scopes.targetAt, h.holderAt?_chain,
    hf]
  rfl

/-- An access through the chain of a scope is the access in the tree. -/
theorem access (access : ScopeAccess) :
    ∃ c', c.step? (.access scope access) = some ((t.access scope access).1, c') ∧
      c'.Represents (t.access scope access).2 := by
  cases access with
  | define name value => exact ⟨_, h.define hs name value, h.put hs name value⟩
  | assign name value =>
    rw [ScopeTree.access]
    cases hn : t.nearest? name.text scope with
    | none => exact ⟨c, h.assign_unbound hs value hn, h⟩
    | some holder =>
      rw [ScopeTree.writing, if_pos (ScopeTree.isSome_of_nearest? hn)]
      have hlt := Nat.lt_of_le_of_lt (ScopeTree.nearest?_le hn) hs
      exact ⟨_, h.assign hs value hn, h.put hlt name.text value⟩
  | get name =>
    rw [ScopeTree.access]
    cases hn : t.nearest? name.text scope with
    | none => exact ⟨c, h.get_unbound hs hn, h⟩
    | some holder =>
      obtain ⟨v, hv⟩ := Option.isSome_iff_exists.mp (ScopeTree.isSome_of_nearest? hn)
      simp only [ScopeTree.reading, hv]
      exact ⟨c, h.get hs hn hv, h⟩
  | assignAt distance name value =>
    rw [ScopeTree.access]
    cases ha : t.ancestor? scope distance with
    | none => exact ⟨c, h.assignAt_unbound hs value (by simp [ha]), h⟩
    | some holder =>
      rw [ScopeTree.writing]
      split
      case isTrue hv =>
        have hlt := Nat.lt_of_le_of_lt (ScopeTree.ancestor?_le ha) hs
        exact ⟨_, h.assignAt hs value ha hv, h.put hlt name.text value⟩
      case isFalse hv =>
        rw [Bool.not_eq_true, Option.isSome_eq_false_iff, Option.isNone_iff_eq_none] at hv
        exact ⟨c, h.assignAt_unbound hs value (by simp [ha, hv]), h⟩
  | getAt distance name =>
    rw [ScopeTree.access]
    cases ha : t.ancestor? scope distance with
    | none => exact ⟨c, h.getAt_unbound hs (by simp [ha]), h⟩
    | some holder =>
      cases hv : t.value? holder name.text with
      | none =>
        simp only [ScopeTree.reading, hv]
        exact ⟨c, h.getAt_unbound hs (by simp [ha, hv]), h⟩
      | some v =>
        simp only [ScopeTree.reading, hv]
        exact ⟨c, h.getAt hs ha hv, h⟩

omit hs in
/-- A step about open scopes has the same answer on both sides, and they go on alike. -/
theorem step {step : ScopeStep} (hn : step.Named t.size) :
    ∃ answer c' t', c.step? step = some (answer, c') ∧ t.step? step = some (answer, t') ∧
      c'.Represents t' ∧ t'.size = step.sizeAfter t.size := by
  cases step with
  | root =>
    refine ⟨.opened t.size, _, _, ?_, rfl, h.opened none, rfl⟩
    rw [ScopeChains.step?, ScopeChains.opened, h.length_environments]
    rfl
  | child outer =>
    have ho : outer < t.size := hn
    refine ⟨.opened t.size, _, _, ?_, dif_pos ho, h.opened (some ⟨outer, ho⟩), rfl⟩
    rw [ScopeChains.step?, h.getElem?_environments ho, Option.map_some, ScopeChains.opened,
      h.length_environments]
    rfl
  | access scope access =>
    obtain ⟨c', hc, hr⟩ := h.access hn access
    refine ⟨_, c', _, hc, if_pos hn, hr, ?_⟩
    exact t.size_access scope access

omit hs in
/-- After an assignment through one scope, another that is inside the same scope reads the new
value, if neither has the name itself. -/
theorem siblings (hs : scope < t.size) {other outer : Nat} (ho : other < t.size) {name : Name}
    {value : Value} (hp : t.ancestor? scope 1 = some outer)
    (hq : t.ancestor? other 1 = some outer) (hv : t.value? scope name.text = none)
    (hw : t.value? other name.text = none)
    (ha : c.step? (.access scope (.assign name value)) = some (.done, c')) :
    c'.step? (.access other (.get name)) = some (.value value, c') := by
  cases hn : t.nearest? name.text scope with
  | none =>
    rw [h.assign_unbound hs value hn] at ha
    cases ha
  | some holder =>
    have hset := ScopeTree.isSome_of_nearest? hn
    rw [h.assign hs value hn] at ha
    cases ha
    have hb := h.put (Nat.lt_of_le_of_lt (ScopeTree.nearest?_le hn) hs) name.text value
    have hnear : (t.bind holder name.text value).nearest? name.text other = some holder := by
      rw [ScopeTree.nearest?_bind value hset, ScopeTree.nearest?_of_unbound hq hw,
        ← ScopeTree.nearest?_of_unbound hp hv, hn]
    exact hb.get ho hnear (if_pos ⟨rfl, rfl⟩)

omit hs in
theorem opens (outer : Environment) : c.Opens (c.opened outer).2 outer := by
  constructor
  · rw [h.length_environments, ← h.next]
    rfl
  · exact fun s key => c.scopes.value?_push_empty s key

omit hs in
theorem governs : t.Governs c where
  contents := h.value
  links scope hs distance := by
    rw [h.getElem?_environments hs, Option.bind_some, t.getElem?_chain]
  root := by
    refine ⟨(c.opened []).2, ?_, h.opens []⟩
    rw [← h.length_environments]
    rfl
  child outer hs := by
    refine ⟨(c.opened (t.chain outer)).2, ?_, h.opens _⟩
    rw [step?, h.getElem?_environments hs, ← h.length_environments]
    rfl
  define scope hs name value := ⟨_, h.define hs name value, h.sets hs name value⟩
  get scope hs name distance holder v hn hv := h.get hs hn.nearest?_eq hv
  get_unbound scope hs name hn := h.get_unbound hs (ScopeTree.nearest?_eq_none_iff.mpr hn)
  assign scope hs name value distance holder hn :=
    ⟨_, h.assign hs value hn.nearest?_eq,
      h.sets (Nat.lt_of_le_of_lt (ScopeTree.nearest?_le hn.nearest?_eq) hs) name.text value⟩
  assign_unbound scope hs name value hn :=
    h.assign_unbound hs value (ScopeTree.nearest?_eq_none_iff.mpr hn)
  getAt scope hs distance name holder v ha hv := h.getAt hs ha hv
  getAt_unbound scope hs distance name hv := h.getAt_unbound hs hv
  assignAt scope hs distance name value holder ha hv :=
    ⟨_, h.assignAt hs value ha hv,
      h.sets (Nat.lt_of_le_of_lt (ScopeTree.ancestor?_le ha) hs) name.text value⟩
  assignAt_unbound scope hs distance name value hv := h.assignAt_unbound hs value hv
  at_nearest scope hs name distance holder hn := by
    obtain ⟨ha, hset, -⟩ := id hn
    obtain ⟨v, hv⟩ := Option.isSome_iff_exists.mp hset
    constructor
    · rw [h.get hs hn.nearest?_eq hv, h.getAt hs ha hv]
    · intro value
      rw [h.assign hs value hn.nearest?_eq, h.assignAt hs value ha hset]
  siblings scope hs other ho name value outer c' hp hq hv hw ha := h.siblings hs ho hp hq hv hw ha

omit hs in
theorem run? {steps : List ScopeStep} (hn : ScopeStep.AllNamed t.size steps) :
    ∃ answers c' t', ScopeStep.run? ScopeChains.step? c steps = some (answers, c') ∧
      ScopeStep.run? ScopeTree.step? t steps = some (answers, t') ∧ c'.Represents t' := by
  induction steps generalizing c t with
  | nil => exact ⟨[], c, t, rfl, rfl, h⟩
  | cons step steps ih =>
    obtain ⟨answer, c₁, t₁, hc, ht, hr, hsize⟩ := h.step hn.1
    obtain ⟨answers, c₂, t₂, hcs, hts, hr₂⟩ := ih hr (hsize ▸ hn.2)
    refine ⟨answer :: answers, c₂, t₂, ?_, ?_, hr₂⟩
    · simp [ScopeStep.run?, hc, hcs]
    · simp [ScopeStep.run?, ht, hts]

end Represents

/-- Any steps about scopes that are open by then have the answers that they have on the tree of
maps; they leave the variables of its maps in the tables, and the tree says what comes next. -/
theorem run?_refines (steps : List ScopeStep) (h : ScopeStep.AllNamed 0 steps) :
    ∃ answers c t, ScopeStep.run? step? empty steps = some (answers, c) ∧
      ScopeStep.run? ScopeTree.step? .empty steps = some (answers, t) ∧ t.Governs c := by
  obtain ⟨answers, c, t, hc, ht, hr⟩ := Represents.empty.run? (t := .empty) h
  exact ⟨answers, c, t, hc, ht, hr.governs⟩

/-- A name that one child assigns through its parent, is read by the other, shadows it there and
is missed where it is not. -/
theorem run?_refines_siblings :
    let a : Name := ⟨"a", 1⟩
    let steps : List ScopeStep :=
      [.root, .access 0 (.define "a" (.bool false)), .child 0, .child 0,
        .access 1 (.assign a (.bool true)), .access 2 (.get a),
        .access 2 (.define "a" .nil), .access 2 (.getAt 1 a), .access 1 (.getAt 0 a)]
    ScopeStep.AllNamed 0 steps ∧
      ∃ answers c t, ScopeStep.run? step? empty steps = some (answers, c) ∧
        ScopeStep.run? ScopeTree.step? .empty steps = some (answers, t) ∧ t.Governs c := by
  intro a steps
  have h : ScopeStep.AllNamed 0 steps := by decide
  exact ⟨h, run?_refines steps h⟩

end ScopeChains

end LoxLang
