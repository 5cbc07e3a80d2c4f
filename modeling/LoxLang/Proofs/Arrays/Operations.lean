import LoxLang.Proofs.Arrays.Indices
import LoxLang.Proofs.Fuel

/-!
What the operations on arrays do to a machine: which of them succeed, what they give, and which
elements they change. A failing one leaves the machine as it is.
-/

namespace LoxLang

/-- Whether a value stands for a place of an array with so many elements. -/
structure Value.IndexOf (index : Value) (length place : Nat) : Prop where
  rational : index.rational? = some (place : ℚ)
  lt : place < length

/-- What is wrong with an index that stands for no place. -/
def Value.indexError : Value → RuntimeError
  | .number _ => .indexOutOfBounds
  | _ => .indexNotNumber

namespace Machine

/-- The machine with another element at a place of an array. -/
def placed (m : Machine) (array place : Nat) (v : Value) : Machine :=
  { m with arrays := m.arrays.modify array (·.setIfInBounds place v) }

/-- The machine with these elements in the front of an array. -/
def copied (m : Machine) (source : Array Value) (target : Nat) : Machine :=
  { m with arrays := m.arrays.modify target (Eval.overwritten source) }

/-- The machine behind a request for memory. -/
def asked (m : Machine) : Machine :=
  { m with requests := m.requests + 1 }

/-- The machine with one more array, for which there is room. -/
def supplied (m : Machine) (n : Nat) : Machine :=
  { m.asked with arrays := m.arrays.push (Array.replicate n .nil) }

section

variable {m : Machine} {array other place : Nat} {elements : Array Value} {v : Value}

theorem arrays_placed (he : m.arrays[array]? = some elements) :
    (m.placed array place v).arrays[array]? = some (elements.setIfInBounds place v) := by
  simp [placed, Array.getElem?_modify, he]

theorem arrays_placed_of_ne (h : other ≠ array) :
    (m.placed array place v).arrays[other]? = m.arrays[other]? := by
  simp [placed, Array.getElem?_modify, h.symm]

theorem arrays_copied {source : Array Value} (he : m.arrays[array]? = some elements) :
    (m.copied source array).arrays[array]? = some (Eval.overwritten source elements) := by
  simp [copied, Array.getElem?_modify, he]

theorem arrays_copied_of_ne {source : Array Value} (h : other ≠ array) :
    (m.copied source array).arrays[other]? = m.arrays[other]? := by
  simp [copied, Array.getElem?_modify, h.symm]

end

end Machine

namespace Eval

section

variable {source target : Array Value}

/-- As many elements as the source has are its own, and the others are kept. -/
theorem getElem?_overwritten (h : source.size ≤ target.size) (place : Nat) :
    (overwritten source target)[place]? =
      if place < source.size then source[place]? else target[place]? := by
  unfold overwritten
  rw [Array.getElem?_append]
  split
  · rfl
  · rename_i hplace
    rw [Array.getElem?_extract]
    have hback : source.size + (place - source.size) = place := by omega
    rw [hback]
    split
    · rfl
    · rename_i hsize
      rw [Array.getElem?_eq_none (by omega)]

theorem size_overwritten (h : source.size ≤ target.size) :
    (overwritten source target).size = target.size := by
  unfold overwritten
  rw [Array.size_append, Array.size_extract]
  omega

/-- What is written over itself stays as it is. -/
theorem overwritten_self : overwritten source source = source := by
  apply Array.ext_getElem?
  intro place
  rw [getElem?_overwritten (Nat.le_refl _), ite_self]

end

variable {m m₁ : Machine} {line array : Nat} {elements : Array Value} {index v : Value}

theorem elements_eq (he : m.arrays[array]? = some elements) :
    Eval.elements array m = .ok elements m := by
  show EStateM.Result.ok (m.arrays[array]?.getD #[]) m = _
  rw [he]
  rfl

theorem reserve_eq (length : Nat) :
    reserve length m = .ok (m.hasRoom length) m.asked :=
  rfl

theorem placeIn_eq {length place : Nat} (h : index.IndexOf length place) :
    placeIn length index line m = .ok place m := by
  have hn := Value.natural?_eq_some_iff.mpr h.rational
  cases index with
  | number x =>
    unfold placeIn
    rw [hn]
    simp only [Option.filter_some, h.lt, decide_true, if_true]
    rfl
  | _ => cases hn

theorem placeIn_error {length : Nat} (h : ∀ place, ¬ index.IndexOf length place) :
    placeIn length index line m = .error (.failed (.runtime line index.indexError)) m := by
  cases index with
  | number x =>
    have hnone : (Value.number x).natural?.filter (· < length) = none := by
      refine Option.filter_eq_none_iff.mpr fun place hplace hlt => ?_
      exact h place ⟨Value.natural?_eq_some_iff.mp hplace, of_decide_eq_true hlt⟩
    unfold placeIn
    rw [hnone]
    rfl
  | _ => rfl

theorem arrayGet_eq {place : Nat} (he : m.arrays[array]? = some elements)
    (hi : index.IndexOf elements.size place) (hv : elements[place]? = some v) :
    runNative (.arrayGet array) [index] line m = .ok v m := by
  refine (Fueled.bind_ok (elements_eq he)).trans ((Fueled.bind_ok (placeIn_eq hi)).trans ?_)
  rw [hv]
  rfl

theorem arrayGet_error (he : m.arrays[array]? = some elements)
    (hi : ∀ place, ¬ index.IndexOf elements.size place) :
    runNative (.arrayGet array) [index] line m =
      .error (.failed (.runtime line index.indexError)) m :=
  (Fueled.bind_ok (elements_eq he)).trans (Fueled.bind_error (placeIn_error hi))

theorem arraySet_eq {place : Nat} (he : m.arrays[array]? = some elements)
    (hi : index.IndexOf elements.size place) :
    runNative (.arraySet array) [index, v] line m = .ok .nil (m.placed array place v) := by
  refine Fueled.bind_ok (a := ()) ((Fueled.bind_ok (elements_eq he)).trans ?_)
  exact Fueled.bind_ok (placeIn_eq hi)

theorem arraySet_error (he : m.arrays[array]? = some elements)
    (hi : ∀ place, ¬ index.IndexOf elements.size place) :
    runNative (.arraySet array) [index, v] line m =
      .error (.failed (.runtime line index.indexError)) m := by
  refine Fueled.bind_error ((Fueled.bind_ok (elements_eq he)).trans ?_)
  exact Fueled.bind_error (placeIn_error hi)

theorem arrayCopy_eq {other : Nat} {target : Array Value} (he : m.arrays[array]? = some elements)
    (ht : m.arrays[other]? = some target) (hsize : elements.size ≤ target.size) :
    runNative (.arrayCopy array) [.array other] line m = .ok .nil (m.copied elements other) := by
  refine Fueled.bind_ok (a := ()) ((Fueled.bind_ok (elements_eq he)).trans ?_)
  refine (Fueled.bind_ok (elements_eq ht)).trans ?_
  dsimp only
  rw [if_neg (by omega)]
  rfl

theorem arrayCopy_short {other : Nat} {target : Array Value}
    (he : m.arrays[array]? = some elements) (ht : m.arrays[other]? = some target)
    (hsize : target.size < elements.size) :
    runNative (.arrayCopy array) [.array other] line m =
      .error (.failed (.runtime line .copyTargetTooShort)) m := by
  refine Fueled.bind_error ((Fueled.bind_ok (elements_eq he)).trans ?_)
  refine (Fueled.bind_ok (elements_eq ht)).trans ?_
  dsimp only
  rw [if_pos hsize]
  rfl

theorem arrayCopy_other (h : ∀ other, v ≠ .array other) :
    runNative (.arrayCopy array) [v] line m =
      .error (.failed (.runtime line .copyTargetNotArray)) m := by
  cases v with
  | array other => exact (h other rfl).elim
  | _ => rfl

theorem newArray_eq {n : Nat} (hn : v.rational? = some (n : ℚ))
    (hroom : m.hasRoom n = true) :
    runNative .array [v] line m = .ok (.array m.arrays.size) (m.supplied n) := by
  show newArray v line m = _
  unfold newArray
  rw [Value.natural?_eq_some_iff.mpr hn]
  refine (Fueled.bind_ok (reserve_eq n)).trans ?_
  rw [hroom]
  rfl

theorem newArray_refused {n : Nat} (hn : v.rational? = some (n : ℚ))
    (hroom : m.hasRoom n = false) :
    runNative .array [v] line m =
      .error (.failed (.runtime line .arrayTooLarge)) m.asked := by
  show newArray v line m = _
  unfold newArray
  rw [Value.natural?_eq_some_iff.mpr hn]
  refine (Fueled.bind_ok (reserve_eq n)).trans ?_
  rw [hroom]
  rfl

theorem newArray_invalid (h : ∀ n : Nat, v.rational? ≠ some (n : ℚ)) :
    runNative .array [v] line m =
      .error (.failed (.runtime line .arrayLengthInvalid)) m := by
  have hnone : v.natural? = none :=
    Option.eq_none_iff_forall_ne_some.mpr fun n hn => h n (Value.natural?_eq_some_iff.mp hn)
  show newArray v line m = _
  unfold newArray
  rw [hnone]
  rfl

/-- Reading an element gives it, or fails at an index that is none. -/
theorem arrayGet_cases (he : m.arrays[array]? = some elements) (index : Value) (line : Nat) :
    (∃ place v, index.IndexOf elements.size place ∧ elements[place]? = some v ∧
      runNative (.arrayGet array) [index] line m = .ok v m) ∨
    (¬ ∃ place, index.IndexOf elements.size place) ∧
      runNative (.arrayGet array) [index] line m =
        .error (.failed (.runtime line index.indexError)) m := by
  by_cases hi : ∃ place, index.IndexOf elements.size place
  · obtain ⟨place, hi⟩ := hi
    have hv := Array.getElem?_eq_getElem hi.lt
    exact .inl ⟨place, _, hi, hv, arrayGet_eq he hi hv⟩
  · exact .inr ⟨hi, arrayGet_error he (not_exists.mp hi)⟩

theorem arraySet_cases (he : m.arrays[array]? = some elements) (index v : Value) (line : Nat) :
    (∃ place, index.IndexOf elements.size place ∧
      runNative (.arraySet array) [index, v] line m = .ok .nil (m.placed array place v)) ∨
    (¬ ∃ place, index.IndexOf elements.size place) ∧
      runNative (.arraySet array) [index, v] line m =
        .error (.failed (.runtime line index.indexError)) m := by
  by_cases hi : ∃ place, index.IndexOf elements.size place
  · obtain ⟨place, hi⟩ := hi
    exact .inl ⟨place, hi, arraySet_eq he hi⟩
  · exact .inr ⟨hi, arraySet_error he (not_exists.mp hi)⟩

/-- A copy fits into an array that is long enough. A target that is an array must be one of the
machine. -/
theorem arrayCopy_cases (he : m.arrays[array]? = some elements)
    (hv : ∀ target, v = .array target → target < m.arrays.size) (line : Nat) :
    (∃ target targets, v = .array target ∧ m.arrays[target]? = some targets ∧
      elements.size ≤ targets.size ∧
      runNative (.arrayCopy array) [v] line m = .ok .nil (m.copied elements target)) ∨
    (¬ ∃ target targets, v = .array target ∧ m.arrays[target]? = some targets ∧
      elements.size ≤ targets.size) ∧
      ∃ e, (e = .copyTargetNotArray ∨ e = .copyTargetTooShort) ∧
        runNative (.arrayCopy array) [v] line m = .error (.failed (.runtime line e)) m := by
  by_cases harray : ∃ target, v = .array target
  · obtain ⟨target, rfl⟩ := harray
    have hlt := hv target rfl
    have ht := Array.getElem?_eq_getElem hlt
    by_cases hsize : elements.size ≤ m.arrays[target].size
    · exact .inl ⟨target, _, rfl, ht, hsize, arrayCopy_eq he ht hsize⟩
    · refine .inr ⟨?_, _, .inr rfl, arrayCopy_short he ht (Nat.lt_of_not_le hsize)⟩
      rintro ⟨other, targets, hother, htargets, hlong⟩
      cases hother
      cases ht.symm.trans htargets
      exact hsize hlong
  · refine .inr ⟨?_, _, .inl rfl, arrayCopy_other (not_exists.mp harray)⟩
    rintro ⟨target, -, rfl, -⟩
    exact harray ⟨target, rfl⟩

/-- An array is made if its length is a natural number and there is room for it. -/
theorem newArray_cases (m : Machine) (v : Value) (line : Nat) :
    (∃ n : Nat, v.rational? = some (n : ℚ) ∧ m.hasRoom n = true ∧
      runNative .array [v] line m = .ok (.array m.arrays.size) (m.supplied n)) ∨
    (∃ n : Nat, v.rational? = some (n : ℚ) ∧ m.hasRoom n = false ∧
      runNative .array [v] line m =
        .error (.failed (.runtime line .arrayTooLarge)) m.asked) ∨
    (∀ n : Nat, v.rational? ≠ some (n : ℚ)) ∧
      runNative .array [v] line m =
        .error (.failed (.runtime line .arrayLengthInvalid)) m := by
  by_cases hn : ∃ n : Nat, v.rational? = some (n : ℚ)
  · obtain ⟨n, hn⟩ := hn
    cases hroom : m.hasRoom n with
    | true => exact .inl ⟨n, hn, hroom, newArray_eq hn hroom⟩
    | false => exact .inr (.inl ⟨n, hn, hroom, newArray_refused hn hroom⟩)
  · have hn := not_exists.mp hn
    exact .inr (.inr ⟨hn, newArray_invalid hn⟩)

end Eval

end LoxLang
