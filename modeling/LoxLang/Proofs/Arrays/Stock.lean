import LoxLang.Proofs.Arrays.Operations
import LoxLang.Proofs.Classes.Operations
import LoxLang.Proofs.Running.Plans

/-!
The arrays that are there. Every value that a machine holds or a computation gives stands for an
array of the machine, if for any. Each step keeps that, and the length of every array.
-/

namespace LoxLang

def Native.array? : Native → Option Nat
  | .arrayGet id | .arraySet id | .arrayCopy id => some id
  | _ => none

/-- The array that a value is, or is bound to. -/
def Value.array? : Value → Option Nat
  | .array id => some id
  | .callable (.native _ n) => n.array?
  | _ => none

/-- Whether a value stands for one of so many arrays, if for any. -/
def Value.Below (size : Nat) (v : Value) : Prop :=
  ∀ array ∈ v.array?, array < size

/-- Most values stand for no array. -/
theorem Value.below_of_none {size : Nat} {v : Value} (h : v.array? = none) : v.Below size := by
  intro array ha
  rw [h] at ha
  cases ha

theorem Value.Below.array {size : Nat} {v : Value} (h : v.Below size) (array : Nat)
    (hv : v = .array array) : array < size := by
  subst hv
  exact h array rfl

def Callable.Below (size : Nat) (c : Callable) : Prop :=
  (Value.callable c).Below size

def Flow.Below (size : Nat) : Flow → Prop
  | .return v => v.Below size
  | _ => True

def Eval.Property.Below (size : Nat) : Eval.Property → Prop
  | .value v => v.Below size
  | .getter _ => True

theorem Value.Below.mono {n n' : Nat} (h : n ≤ n') {v : Value} (hv : v.Below n) : v.Below n' :=
  fun array ha => Nat.lt_of_lt_of_le (hv array ha) h

theorem Value.below_mono_list {n n' : Nat} (h : n ≤ n') {vs : List Value}
    (hvs : ∀ v ∈ vs, v.Below n) : ∀ v ∈ vs, v.Below n' :=
  fun v hv => (hvs v hv).mono h

namespace Machine

/-- The element at a place of an array. -/
def element? (m : Machine) (array place : Nat) : Option Value :=
  m.arrays[array]?.bind (·[place]?)

/-- The length of an array. -/
def length? (m : Machine) (array : Nat) : Option Nat :=
  m.arrays[array]?.map Array.size

/-- Whether a machine holds only values that stand for arrays of its own. -/
def Stocked (m : Machine) : Prop :=
  ∀ v, m.Holds v → v.Below m.arrays.size

/-- Whether all arrays of a machine are in another one, as long as they were. -/
def Lengthens (m m' : Machine) : Prop :=
  ∀ array length, m.length? array = some length → m'.length? array = some length

variable {m m₁ m₂ : Machine} {v : Value} {array : Nat} {elements : Array Value}

theorem length?_placed (m : Machine) (array place : Nat) (v : Value) (other : Nat) :
    (m.placed array place v).length? other = m.length? other := by
  show ((m.arrays.modify array _)[other]?).map Array.size = m.arrays[other]?.map Array.size
  rw [Array.getElem?_modify]
  split
  · rw [Option.map_map]
    exact congrArg (Option.map · _) (funext fun elements => Array.size_setIfInBounds)
  · rfl

theorem length?_copied {source target : Array Value} {other : Nat}
    (ht : m.arrays[other]? = some target) (h : source.size ≤ target.size) (array : Nat) :
    (m.copied source other).length? array = m.length? array := by
  by_cases ho : array = other
  · subst ho
    rw [length?, length?, arrays_copied ht, ht, Option.map_some, Option.map_some,
      Eval.size_overwritten h]
  · rw [length?, length?, arrays_copied_of_ne ho]

namespace Lengthens

theorem refl (m : Machine) : m.Lengthens m :=
  fun _ _ => id

theorem trans (h : m.Lengthens m₁) (h' : m₁.Lengthens m₂) : m.Lengthens m₂ :=
  fun array length ha => h' array length (h array length ha)

theorem size_le (h : m.Lengthens m₁) : m.arrays.size ≤ m₁.arrays.size := by
  by_contra hlt
  have hin : m.length? m₁.arrays.size = some _ :=
    congrArg (Option.map Array.size) (Array.getElem?_eq_getElem (Nat.lt_of_not_le hlt))
  have hout := h _ _ hin
  rw [length?, Array.getElem?_eq_none (Nat.le_refl _)] at hout
  cases hout

theorem of_eq (h : m₁.arrays = m.arrays) : m.Lengthens m₁ := by
  intro array length ha
  rwa [length?, h]

theorem supplied (m : Machine) (n : Nat) : m.Lengthens (m.supplied n) := by
  intro array length ha
  obtain ⟨elements, he, rfl⟩ := Option.map_eq_some_iff.mp ha
  have hlt := (Array.getElem?_eq_some_iff.mp he).1
  show (m.arrays.push _)[array]?.map Array.size = _
  rw [Array.getElem?_push_lt hlt]
  exact congrArg some (congrArg Array.size (Array.getElem?_eq_some_iff.mp he).2)

theorem placed (m : Machine) (array place : Nat) (v : Value) :
    m.Lengthens (m.placed array place v) :=
  fun other _ ha => (m.length?_placed array place v other).trans ha

/-- A copy that fits keeps the length of its target. -/
theorem copied {source target : Array Value} {other : Nat} (ht : m.arrays[other]? = some target)
    (h : source.size ≤ target.size) : m.Lengthens (m.copied source other) :=
  fun array _ ha => (length?_copied ht h array).trans ha

end Lengthens

/-- A machine that holds nothing new but values that stand for its arrays. -/
theorem Stocked.later (h : m.Stocked) (hl : m.Lengthens m₁)
    (hnew : ∀ v, m₁.Holds v → m.Holds v ∨ v.Below m₁.arrays.size) : m₁.Stocked := by
  intro v hv
  rcases hnew v hv with hold | hbelow
  · exact (h v hold).mono hl.size_le
  · exact hbelow

/-- Only variables, fields and elements matter. -/
theorem Stocked.congr (h : m.Stocked) (hs : m₁.scopes = m.scopes) (hf : m₁.fields = m.fields)
    (ha : m₁.arrays = m.arrays) : m₁.Stocked := by
  refine h.later (.of_eq ha) fun v hv => .inl ?_
  cases hv with
  | «variable» hv => exact .variable (hs ▸ hv)
  | field hv => exact .field ((field?_congr hf _ _).symm.trans hv)
  | element he hv => exact .element (ha ▸ he) hv

theorem Stocked.still (h : m.Stocked) (hs : m.Still m₁) : m₁.Stocked :=
  h.congr hs.scopes hs.fields hs.arrays

theorem Stocked.push (h : m.Stocked) {table : Table Value}
    (ht : ∀ name v, table.find? name = some v → v.Below m.arrays.size) :
    Stocked { m with scopes := m.scopes.push table } := by
  refine h.later (.of_eq rfl) fun v hv => ?_
  cases hv with
  | «variable» hv =>
    rw [Scopes.value?_push] at hv
    split at hv
    · exact .inr (ht _ v hv)
    · exact .inl (.variable hv)
  | field hv => exact .inl (.field hv)
  | element he hv => exact .inl (.element he hv)

theorem Stocked.put (h : m.Stocked) (hv : v.Below m.arrays.size) (scope : Nat) (name : String) :
    Stocked { m with scopes := m.scopes.put scope name v } := by
  refine h.later (.of_eq rfl) fun u hu => ?_
  cases hu with
  | «variable» hu =>
    rw [Scopes.value?_put] at hu
    split at hu
    · cases hu
      exact .inr hv
    · exact .inl (.variable hu)
  | field hu => exact .inl (.field hu)
  | element he hu => exact .inl (.element he hu)

theorem Stocked.newInstance (h : m.Stocked) :
    Stocked { m with fields := m.fields.push .empty } := by
  refine h.later (.of_eq rfl) fun v hv => .inl ?_
  cases hv with
  | «variable» hv => exact .variable hv
  | field hv =>
    rw [field?_push] at hv
    exact .field hv
  | element he hv => exact .element he hv

theorem Stocked.setField (h : m.Stocked) (hv : v.Below m.arrays.size) (id : Nat) (name : String) :
    Stocked { m with fields := m.fields.modify id (·.insert name v) } := by
  refine h.later (.of_eq rfl) fun u hu => ?_
  cases hu with
  | «variable» hu => exact .inl (.variable hu)
  | field hu =>
    rw [field?_set] at hu
    split at hu
    · cases hu
      exact .inr hv
    · exact .inl (.field hu)
  | element he hu => exact .inl (.element he hu)

theorem Stocked.inside (h : m.Stocked) (environment : Environment) (depth : Nat) :
    Stocked { m with environment := environment, depth := depth } :=
  h.congr rfl rfl rfl

theorem Stocked.asked (h : m.Stocked) : m.asked.Stocked :=
  h.congr rfl rfl rfl

theorem Stocked.supplied (h : m.Stocked) (n : Nat) : (m.supplied n).Stocked := by
  refine h.later (.supplied m n) fun v hv => ?_
  cases hv with
  | «variable» hv => exact .inl (.variable hv)
  | field hv => exact .inl (.field hv)
  | element he hv =>
    rw [Machine.supplied, Array.getElem?_push] at he
    split at he
    · cases he
      obtain ⟨-, rfl⟩ := Array.mem_replicate.mp hv
      exact .inr (Value.below_of_none rfl)
    · exact .inl (.element he hv)

theorem Stocked.placed (h : m.Stocked) (hv : v.Below m.arrays.size) (array place : Nat) :
    (m.placed array place v).Stocked := by
  refine h.later (.placed m array place v) fun u hu => ?_
  cases hu with
  | «variable» hu => exact .inl (.variable hu)
  | field hu => exact .inl (.field hu)
  | element he hu =>
    rw [Machine.placed, Array.getElem?_modify] at he
    split at he
    · obtain ⟨old, hold, rfl⟩ := Option.map_eq_some_iff.mp he
      rcases Array.mem_or_eq_of_mem_setIfInBounds hu with hu | rfl
      · exact .inl (.element hold hu)
      · exact .inr (hv.mono (Lengthens.placed m array place u).size_le)
    · exact .inl (.element he hu)

theorem Stocked.copied (h : m.Stocked) {source target : Array Value} {array other : Nat}
    (hs : m.arrays[array]? = some source) (ht : m.arrays[other]? = some target)
    (hsize : source.size ≤ target.size) : (m.copied source other).Stocked := by
  refine h.later (.copied ht hsize) fun v hv => .inl ?_
  cases hv with
  | «variable» hv => exact .variable hv
  | field hv => exact .field hv
  | element he hv =>
    rw [Machine.copied, Array.getElem?_modify] at he
    split at he
    · obtain ⟨old, hold, rfl⟩ := Option.map_eq_some_iff.mp he
      rcases Array.mem_append.mp hv with hv | hv
      · exact .element hs hv
      · obtain ⟨place, hplace, rfl⟩ := Array.mem_iff_getElem.mp hv
        rw [Array.getElem_extract]
        exact .element hold (Array.getElem_mem _)
    · exact .element he hv

end Machine

end LoxLang
