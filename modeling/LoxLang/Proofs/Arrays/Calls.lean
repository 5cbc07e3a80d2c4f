import LoxLang.Proofs.Arrays.Stock
import LoxLang.Proofs.Running.Depth

/-!
Calls of what arrays can do. A call succeeds just where the index is a place of the array, or the
target an array that is long enough; it changes the elements that it is about and nothing else, and
one that fails changes nothing, though it may have asked for memory.
-/

namespace LoxLang

/-- Whether a computation gives something. -/
def Fueled.Succeeds {σ α : Type} (x : Fueled σ α) (s : σ) : Prop :=
  ∃ a s₁, x s = .ok a s₁

/-- What a write at a place of an array with these elements leaves of a machine. -/
structure Machine.WrittenAt (m m₁ : Machine) (array : Nat) (elements : Array Value) (place : Nat)
    (v : Value) : Prop where
  only : m₁ = { m with arrays := m₁.arrays }
  element : ∀ other place', m₁.element? other place' =
    if other = array ∧ place' = place then some v else m.element? other place'
  length : ∀ other, m₁.length? other = m.length? other
  /-- Every method that is bound to the array reads what is written. -/
  read : ∀ {index place'} fuel id line, m.depth < m.maxDepth →
    index.IndexOf elements.size place' →
    ∃ u, (if place' = place then some v else elements[place']?) = some u ∧
      Eval.call (fuel + 1) (.native id (.arrayGet array)) [index] line m₁ = .ok u m₁

/-- What a copy of these elements of an array into another one leaves of a machine. -/
structure Machine.CopiedTo (m m₁ : Machine) (array : Nat) (elements : Array Value)
    (target : Nat) : Prop where
  only : m₁ = { m with arrays := m₁.arrays }
  front : ∀ place < elements.size, m₁.element? target place = elements[place]?
  back : ∀ place, elements.size ≤ place → m₁.element? target place = m.element? target place
  other : ∀ other, other ≠ target → m₁.arrays[other]? = m.arrays[other]?
  length : ∀ other, m₁.length? other = m.length? other
  self : target = array → m₁ = m

/-- What can be done with an array that has these elements. -/
structure Machine.ArrayLaw (m : Machine) (array : Nat) (elements : Array Value) : Prop where
  length : ∀ line, Eval.propertyOfValue (.array array) ⟨"length", line⟩ m =
    .ok (.value (.number (Float.ofNat elements.size))) m
  /-- Each read of a method gives a new value, bound to the same array. -/
  method : ∀ n line, n.array? = some array → Eval.propertyOfValue (.array array) ⟨n.name, line⟩ m =
    .ok (.value (.callable (.native m.nextId n))) { m with nextId := m.nextId + 1 }
  get : ∀ fuel id line index,
    Fueled.Succeeds (Eval.call (fuel + 1) (.native id (.arrayGet array)) [index] line) m ↔
      m.depth < m.maxDepth ∧ ∃ place, index.IndexOf elements.size place
  got : ∀ {fuel id line index v m₁},
    Eval.call fuel (.native id (.arrayGet array)) [index] line m = .ok v m₁ →
    m₁ = m ∧ ∃ place, index.IndexOf elements.size place ∧ elements[place]? = some v
  set : ∀ fuel id line index v,
    Fueled.Succeeds (Eval.call (fuel + 1) (.native id (.arraySet array)) [index, v] line) m ↔
      m.depth < m.maxDepth ∧ ∃ place, index.IndexOf elements.size place
  wasSet : ∀ {fuel id line index v r m₁},
    Eval.call fuel (.native id (.arraySet array)) [index, v] line m = .ok r m₁ →
    r = .nil ∧ ∃ place, index.IndexOf elements.size place ∧ m.WrittenAt m₁ array elements place v
  copy : ∀ fuel id line v, v.Below m.arrays.size →
    (Fueled.Succeeds (Eval.call (fuel + 1) (.native id (.arrayCopy array)) [v] line) m ↔
      m.depth < m.maxDepth ∧ ∃ target targets, v = .array target ∧
        m.arrays[target]? = some targets ∧ elements.size ≤ targets.size)
  wasCopied : ∀ {fuel id line v r m₁}, v.Below m.arrays.size →
    Eval.call fuel (.native id (.arrayCopy array)) [v] line m = .ok r m₁ →
    r = .nil ∧ ∃ target, v = .array target ∧ m.CopiedTo m₁ array elements target

namespace Eval

section

variable {m m₁ : Machine} {fuel id line : Nat} {n : Native} {vs : List Value} {v : Value} {e : Stop}

theorem call_native (h : m.depth < m.maxDepth) :
    call (fuel + 1) (.native id n) vs line m = nested (runNative n vs line) m := by
  have hcheck : checkDepth line m = .ok () m := by
    unfold checkDepth
    rw [Fueled.bind_get, if_neg (Nat.not_le_of_lt h)]
    rfl
  exact Fueled.bind_ok hcheck

/-- A call of a native is one if there is room for it. -/
theorem call_native_eq {r : EStateM.Result Stop Machine Value}
    (h : call fuel (.native id n) vs line m = r) :
    (m.depth < m.maxDepth ∧ nested (runNative n vs line) m = r) ∨ ∃ e, r = .error e m := by
  cases fuel with
  | zero => exact .inr ⟨_, h.symm⟩
  | succ fuel =>
    by_cases hd : m.depth < m.maxDepth
    · exact .inl ⟨hd, (call_native hd).symm.trans h⟩
    · have hcheck : checkDepth line m = .error (.failed (.stackOverflow line)) m := by
        unfold checkDepth
        rw [Fueled.bind_get, if_pos (Nat.le_of_not_lt hd)]
        rfl
      exact .inr ⟨_, h.symm.trans (Fueled.bind_error hcheck)⟩

theorem call_native_succeeds : Fueled.Succeeds (call (fuel + 1) (.native id n) vs line) m ↔
    m.depth < m.maxDepth ∧ Fueled.Succeeds (runNative n vs line) (Shell.nested.enter m) := by
  constructor
  · rintro ⟨v, m₁, h⟩
    rcases call_native_eq h with ⟨hd, h⟩ | ⟨e, h⟩
    · refine ⟨hd, ?_⟩
      cases hx : runNative n vs line (Shell.nested.enter m) with
      | ok u m₂ => exact ⟨u, m₂, hx⟩
      | error e m₂ => cases (Shell.nested.around_error hx).symm.trans h
    · cases h
  · rintro ⟨hd, v, m₁, h⟩
    exact ⟨v, _, (call_native hd).trans (Shell.nested.around_ok h)⟩

end

theorem exists_of_nested_ok {α : Type} {x : Eval α} {m m₁ : Machine} {a : α}
    (h : nested x m = .ok a m₁) :
    ∃ m₂, x (Shell.nested.enter m) = .ok a m₂ ∧ m₁ = Shell.nested.leave m m₂ := by
  cases hx : x (Shell.nested.enter m) with
  | ok b m₂ =>
    cases (Shell.nested.around_ok hx).symm.trans h
    exact ⟨m₂, rfl, rfl⟩
  | error e m₂ => cases (Shell.nested.around_error hx).symm.trans h

theorem exists_of_nested_error {α : Type} {x : Eval α} {m m₁ : Machine} {e : Stop}
    (h : nested x m = .error e m₁) :
    ∃ m₂, x (Shell.nested.enter m) = .error e m₂ ∧ m₁ = Shell.nested.leave m m₂ := by
  cases hx : x (Shell.nested.enter m) with
  | ok b m₂ => cases (Shell.nested.around_ok hx).symm.trans h
  | error e m₂ =>
    cases (Shell.nested.around_error hx).symm.trans h
    exact ⟨m₂, rfl, rfl⟩

section

variable {m m₁ : Machine} {line array : Nat} {elements : Array Value} {index v r : Value}

theorem arrayGet_succeeds (he : m.arrays[array]? = some elements) :
    Fueled.Succeeds (runNative (.arrayGet array) [index] line) m ↔
      ∃ place, index.IndexOf elements.size place := by
  rcases arrayGet_cases he index line with ⟨place, v, hi, -, hx⟩ | ⟨hi, hx⟩
  · exact iff_of_true ⟨v, m, hx⟩ ⟨place, hi⟩
  · refine iff_of_false ?_ hi
    rintro ⟨v, m₁, h⟩
    cases hx.symm.trans h

theorem arrayGet_ok (he : m.arrays[array]? = some elements)
    (h : runNative (.arrayGet array) [index] line m = .ok v m₁) :
    m₁ = m ∧ ∃ place, index.IndexOf elements.size place ∧ elements[place]? = some v := by
  rcases arrayGet_cases he index line with ⟨place, u, hi, hu, hx⟩ | ⟨-, hx⟩
  · cases hx.symm.trans h
    exact ⟨rfl, place, hi, hu⟩
  · cases hx.symm.trans h

theorem arraySet_succeeds (he : m.arrays[array]? = some elements) :
    Fueled.Succeeds (runNative (.arraySet array) [index, v] line) m ↔
      ∃ place, index.IndexOf elements.size place := by
  rcases arraySet_cases he index v line with ⟨place, hi, hx⟩ | ⟨hi, hx⟩
  · exact iff_of_true ⟨.nil, _, hx⟩ ⟨place, hi⟩
  · refine iff_of_false ?_ hi
    rintro ⟨v, m₁, h⟩
    cases hx.symm.trans h

theorem arraySet_ok (he : m.arrays[array]? = some elements)
    (h : runNative (.arraySet array) [index, v] line m = .ok r m₁) :
    r = .nil ∧ ∃ place, index.IndexOf elements.size place ∧ m₁ = m.placed array place v := by
  rcases arraySet_cases he index v line with ⟨place, hi, hx⟩ | ⟨-, hx⟩
  · cases hx.symm.trans h
    exact ⟨rfl, place, hi, rfl⟩
  · cases hx.symm.trans h

theorem arrayCopy_succeeds (he : m.arrays[array]? = some elements) (hv : v.Below m.arrays.size) :
    Fueled.Succeeds (runNative (.arrayCopy array) [v] line) m ↔
      ∃ target targets, v = .array target ∧ m.arrays[target]? = some targets ∧
        elements.size ≤ targets.size := by
  rcases arrayCopy_cases he hv.array line with
    ⟨target, targets, hv, ht, hsize, hx⟩ | ⟨hnone, e, -, hx⟩
  · exact iff_of_true ⟨.nil, _, hx⟩ ⟨target, targets, hv, ht, hsize⟩
  · refine iff_of_false ?_ hnone
    rintro ⟨v, m₁, h⟩
    cases hx.symm.trans h

theorem arrayCopy_ok (he : m.arrays[array]? = some elements) (hv : v.Below m.arrays.size)
    (h : runNative (.arrayCopy array) [v] line m = .ok r m₁) :
    r = .nil ∧ ∃ target targets, v = .array target ∧ m.arrays[target]? = some targets ∧
      elements.size ≤ targets.size ∧ m₁ = m.copied elements target := by
  rcases arrayCopy_cases he hv.array line with
    ⟨target, targets, hv, ht, hsize, hx⟩ | ⟨-, e, -, hx⟩
  · cases hx.symm.trans h
    exact ⟨rfl, target, targets, hv, ht, hsize, rfl⟩
  · cases hx.symm.trans h

theorem newArray_succeeds : Fueled.Succeeds (runNative .array [v] line) m ↔
    ∃ n : Nat, v.rational? = some (n : ℚ) ∧ m.hasRoom n = true := by
  rcases newArray_cases m v line with ⟨n, hn, hroom, hx⟩ | ⟨n, hn, hroom, hx⟩ | ⟨hn, hx⟩
  · exact iff_of_true ⟨_, _, hx⟩ ⟨n, hn, hroom⟩
  · refine iff_of_false ?_ ?_
    · rintro ⟨v, m₁, h⟩
      cases hx.symm.trans h
    · rintro ⟨n', hn', hroom'⟩
      obtain rfl : n = n' := by exact_mod_cast Option.some.inj (hn.symm.trans hn')
      cases hroom.symm.trans hroom'
  · refine iff_of_false ?_ fun ⟨n, hn', _⟩ => hn n hn'
    rintro ⟨v, m₁, h⟩
    cases hx.symm.trans h

theorem newArray_ok (h : runNative .array [v] line m = .ok r m₁) :
    ∃ n : Nat, v.rational? = some (n : ℚ) ∧ m.hasRoom n = true ∧ r = .array m.arrays.size ∧
      m₁ = m.supplied n := by
  rcases newArray_cases m v line with ⟨n, hn, hroom, hx⟩ | ⟨n, -, -, hx⟩ | ⟨-, hx⟩
  · cases hx.symm.trans h
    exact ⟨n, hn, hroom, rfl, rfl⟩
  · cases hx.symm.trans h
  · cases hx.symm.trans h

/-- What is built in changes nothing if it fails, but for a line of the input that is no text. For
an array memory may have been asked for. -/
theorem runNative_unchanged {n : Native} {vs : List Value} {e : Stop} (hinput : n ≠ .input)
    (hn : ∀ array ∈ n.array?, array < m.arrays.size) (hvs : ∀ v ∈ vs, v.Below m.arrays.size)
    (h : runNative n vs line m = .error e m₁) : m₁ = m ∨ n = .array ∧ m₁ = m.asked := by
  cases n with
  | clock => cases h
  | input => exact (hinput rfl).elim
  | array =>
    match vs with
    | [] | _ :: _ :: _ =>
      cases h
      exact .inl rfl
    | [v] =>
      rcases newArray_cases m v line with ⟨n, -, -, hx⟩ | ⟨n, -, -, hx⟩ | ⟨-, hx⟩
      · cases hx.symm.trans h
      · cases hx.symm.trans h
        exact .inr ⟨rfl, rfl⟩
      · cases hx.symm.trans h
        exact .inl rfl
  | arrayGet array =>
    match vs with
    | [] | _ :: _ :: _ =>
      cases h
      exact .inl rfl
    | [index] =>
      rcases arrayGet_cases (Array.getElem?_eq_getElem (hn array rfl)) index line with
        ⟨-, v, -, -, hx⟩ | ⟨-, hx⟩
      all_goals cases hx.symm.trans h
      exact .inl rfl
  | arraySet array =>
    match vs with
    | [] | [_] | _ :: _ :: _ :: _ =>
      cases h
      exact .inl rfl
    | [index, v] =>
      rcases arraySet_cases (Array.getElem?_eq_getElem (hn array rfl)) index v line with
        ⟨place, -, hx⟩ | ⟨-, hx⟩
      all_goals cases hx.symm.trans h
      exact .inl rfl
  | arrayCopy array =>
    match vs with
    | [] | _ :: _ :: _ =>
      cases h
      exact .inl rfl
    | [v] =>
      rcases arrayCopy_cases (Array.getElem?_eq_getElem (hn array rfl)) (hvs v (.head _)).array
        line with ⟨target, targets, -, -, -, hx⟩ | ⟨-, e, -, hx⟩
      all_goals cases hx.symm.trans h
      exact .inl rfl

/-- A call of what is built in changes nothing if it fails, but memory may have been asked for. -/
theorem call_unchanged {fuel id : Nat} {n : Native} {vs : List Value} {e : Stop}
    (hinput : n ≠ .input) (hn : ∀ array ∈ n.array?, array < m.arrays.size)
    (hvs : ∀ v ∈ vs, v.Below m.arrays.size)
    (h : call fuel (.native id n) vs line m = .error e m₁) :
    m₁ = m ∨ n = .array ∧ m₁ = m.asked := by
  rcases call_native_eq h with ⟨-, h⟩ | ⟨e', h⟩
  · obtain ⟨m₂, hx, rfl⟩ := exists_of_nested_error h
    rcases runNative_unchanged (m := Shell.nested.enter m) hinput hn hvs hx with rfl | ⟨hn, rfl⟩
    · exact .inl rfl
    · exact .inr ⟨hn, rfl⟩
  · cases h
    exact .inl rfl

/-- An array is made just if its length is a natural number and there is room for it. -/
theorem call_array_succeeds (fuel id line : Nat) (v : Value) :
    Fueled.Succeeds (call (fuel + 1) (.native id .array) [v] line) m ↔
      m.depth < m.maxDepth ∧ ∃ n : Nat, v.rational? = some (n : ℚ) ∧ m.hasRoom n = true :=
  call_native_succeeds.trans (and_congr_right fun _ => newArray_succeeds)

/-- An array is made with `nil`s only. -/
theorem call_array_ok {fuel id : Nat} (h : call fuel (.native id .array) [v] line m = .ok r m₁) :
    ∃ n : Nat, v.rational? = some (n : ℚ) ∧ m.hasRoom n = true ∧ r = .array m.arrays.size ∧
      m₁ = m.supplied n := by
  rcases call_native_eq h with ⟨-, h⟩ | ⟨e', h⟩
  · obtain ⟨m₂, hx, rfl⟩ := exists_of_nested_ok h
    obtain ⟨n, hn, hroom, rfl, rfl⟩ := newArray_ok hx
    exact ⟨n, hn, hroom, rfl, rfl⟩
  · cases h

end

end Eval

namespace Machine

variable {m m₁ : Machine} {array : Nat} {elements : Array Value}

theorem element?_placed (he : m.arrays[array]? = some elements) {place : Nat}
    (hp : place < elements.size) (v : Value) (other place' : Nat) :
    (m.placed array place v).element? other place' =
      if other = array ∧ place' = place then some v else m.element? other place' := by
  unfold element?
  by_cases ho : other = array
  · subst ho
    rw [arrays_placed he, he, Option.bind_some, Option.bind_some, Array.getElem?_setIfInBounds]
    by_cases hplace : place = place'
    · subst hplace
      simp [hp]
    · simp [hplace, Ne.symm hplace]
  · rw [arrays_placed_of_ne ho, if_neg fun h => ho h.1]

theorem writtenAt_placed (he : m.arrays[array]? = some elements) {place : Nat}
    (hp : place < elements.size) (v : Value) :
    m.WrittenAt (m.placed array place v) array elements place v where
  only := rfl
  element := element?_placed he hp v
  length := m.length?_placed array place v
  read {index place'} fuel id line hd hi := by
    let m₁ := Shell.nested.enter (m.placed array place v)
    have hplaced : m₁.arrays[array]? = some (elements.setIfInBounds place v) := arrays_placed he
    have hsize : (elements.setIfInBounds place v).size = elements.size :=
      Array.size_setIfInBounds
    rw [← hsize] at hi
    have hu := Array.getElem?_eq_getElem hi.lt
    have hd : (m.placed array place v).depth < (m.placed array place v).maxDepth := hd
    refine ⟨_, ?_, (Eval.call_native hd).trans
      (Shell.nested.around_ok (Eval.arrayGet_eq hplaced hi hu))⟩
    have helement := element?_placed he hp v array place'
    rw [element?, element?, arrays_placed he, he, Option.bind_some, Option.bind_some, hu]
      at helement
    simpa using helement.symm

theorem copiedTo_copied (he : m.arrays[array]? = some elements) {target : Nat}
    {targets : Array Value} (ht : m.arrays[target]? = some targets)
    (hsize : elements.size ≤ targets.size) :
    m.CopiedTo (m.copied elements target) array elements target where
  only := rfl
  front place hp := by
    rw [element?, arrays_copied ht, Option.bind_some, Eval.getElem?_overwritten hsize, if_pos hp]
  back place hp := by
    rw [element?, element?, arrays_copied ht, ht, Option.bind_some, Option.bind_some,
      Eval.getElem?_overwritten hsize, if_neg (Nat.not_lt_of_le hp)]
  other other ho := arrays_copied_of_ne ho
  length := length?_copied ht hsize
  self h := by
    subst h
    cases he.symm.trans ht
    have harrays : (m.copied elements target).arrays = m.arrays := by
      refine Array.ext_getElem? fun other => ?_
      by_cases ho : other = target
      · subst ho
        rw [arrays_copied ht, ht, Eval.overwritten_self]
      · exact arrays_copied_of_ne ho
    show { m with arrays := (m.copied elements target).arrays } = m
    rw [harrays]

/-- What can be done with an array that a machine has. -/
theorem arrayLaw (he : m.arrays[array]? = some elements) : m.ArrayLaw array elements := by
  have henter : (Shell.nested.enter m).arrays[array]? = some elements := he
  constructor
  · intro line
    have hlength : Eval.arrayProperty array ⟨"length", line⟩ m =
        .ok (.number (Float.ofNat elements.size)) m := Fueled.bind_ok (Eval.elements_eq he)
    exact Fueled.bind_ok hlength
  · intro n line hn
    cases n with
    | arrayGet _ | arraySet _ | arrayCopy _ =>
      cases hn
      rfl
    | _ => cases hn
  · intro fuel id line index
    exact Eval.call_native_succeeds.trans (and_congr_right fun _ => Eval.arrayGet_succeeds henter)
  · intro fuel id line index v m₁ h
    rcases Eval.call_native_eq h with ⟨hd, h⟩ | ⟨e, h⟩
    · obtain ⟨m₂, hx, rfl⟩ := Eval.exists_of_nested_ok h
      obtain ⟨rfl, hplace⟩ := Eval.arrayGet_ok henter hx
      exact ⟨rfl, hplace⟩
    · cases h
  · intro fuel id line index v
    exact Eval.call_native_succeeds.trans (and_congr_right fun _ => Eval.arraySet_succeeds henter)
  · intro fuel id line index v r m₁ h
    rcases Eval.call_native_eq h with ⟨hd, h⟩ | ⟨e, h⟩
    · obtain ⟨m₂, hx, rfl⟩ := Eval.exists_of_nested_ok h
      obtain ⟨hr, place, hplace, rfl⟩ := Eval.arraySet_ok henter hx
      exact ⟨hr, place, hplace, writtenAt_placed he hplace.lt v⟩
    · cases h
  · intro fuel id line v hv
    exact Eval.call_native_succeeds.trans
      (and_congr_right fun _ => Eval.arrayCopy_succeeds henter hv)
  · intro fuel id line v r m₁ hv h
    rcases Eval.call_native_eq h with ⟨hd, h⟩ | ⟨e, h⟩
    · obtain ⟨m₂, hx, rfl⟩ := Eval.exists_of_nested_ok h
      obtain ⟨hr, target, targets, rfl, ht, hsize, rfl⟩ := Eval.arrayCopy_ok henter hv hx
      exact ⟨hr, target, rfl, copiedTo_copied he ht hsize⟩
    · cases h

end Machine

end LoxLang
