import LoxLang.Evaluation
import LoxLang.Proofs.Scoping.Mentions
import Mathlib.Data.List.Basic

/-!
The members of a class. Methods and getters are in one table, where the key of a getter is the name
of no method.
-/

namespace LoxLang

/-- The last function of this name. -/
def lastNamed (name : String) (fs : List Function) : Option Function :=
  fs.reverse.find? fun f => f.displayName = name

theorem lastNamed_mem {name : String} {fs : List Function} {f : Function}
    (h : lastNamed name fs = some f) : f ∈ fs ∧ f.displayName = name :=
  ⟨List.mem_reverse.mp (List.mem_of_find?_eq_some h), by simpa using List.find?_some h⟩

theorem getterKey_injective {name other : String} (h : getterKey name = getterKey other) :
    name = other := by
  simpa [getterKey, ← String.toList_inj] using h

theorem space_mem_getterKey (name : String) : ' ' ∈ (getterKey name).toList := by
  simp [getterKey]

/-- What a function declared in this name has for it. -/
theorem Function.Named.no_space {f : Function} (h : f.Named) : ' ' ∉ f.displayName.toList := by
  obtain ⟨name, hname, hplain⟩ := h
  rw [Function.displayName, hname]
  exact hplain.no_space

/-- The members that are added last hide those of the same key. -/
theorem find?_insertMembers (key : String → String) (isInitializer : Function → Bool)
    (environment : Environment) (fs : List Function) (t : Table Closure) (k : String) :
    (insertMembers key isInitializer environment fs t).find? k =
      ((fs.reverse.find? fun f => key f.displayName = k).map
        fun f => ⟨f, environment, isInitializer f⟩).or (t.find? k) := by
  unfold insertMembers
  induction fs generalizing t with
  | nil => rfl
  | cons f fs ih =>
    rw [List.foldl_cons, ih, List.reverse_cons, List.find?_append, Table.find?_insert]
    cases fs.reverse.find? fun f => key f.displayName = k with
    | some g => rfl
    | none =>
      by_cases hk : key f.displayName = k
      · simp [hk]
      · simp [hk, Ne.symm hk]

section

variable {methods getters : List Function} {name : String} (environment : Environment)

/-- Every member comes from a method or a getter. -/
theorem mem_of_find?_memberTable {key : String} {member : Closure}
    (h : (memberTable environment methods getters).find? key = some member) :
    (∃ f ∈ methods, f.displayName = key ∧
      member = ⟨f, environment, f.methodKind = .initializer⟩) ∨
    ∃ f ∈ getters, getterKey f.displayName = key ∧ member = ⟨f, environment, false⟩ := by
  unfold memberTable at h
  rw [find?_insertMembers, find?_insertMembers] at h
  rcases Option.or_eq_some_iff.mp h with h | ⟨-, h⟩
  · obtain ⟨f, hf, rfl⟩ := Option.map_eq_some_iff.mp h
    have hmem := List.mem_reverse.mp (List.mem_of_find?_eq_some hf)
    exact .inr ⟨f, hmem, by simpa using List.find?_some hf, rfl⟩
  · rcases Option.or_eq_some_iff.mp h with h | ⟨-, h⟩
    · obtain ⟨f, hf, rfl⟩ := Option.map_eq_some_iff.mp h
      have hmem := List.mem_reverse.mp (List.mem_of_find?_eq_some hf)
      exact .inl ⟨f, hmem, by simpa using List.find?_some hf, rfl⟩
    · cases h

/-- No getter replaces a method in the table of a class: the last method of a name counts. -/
theorem find?_memberTable_method (hname : ' ' ∉ name.toList) :
    (memberTable environment methods getters).find? name =
      (lastNamed name methods).map fun f => ⟨f, environment, f.methodKind = .initializer⟩ := by
  have hgetters : (getters.reverse.find? fun f => getterKey f.displayName = name) = none := by
    refine List.find?_eq_none.mpr fun f _ h => hname ?_
    rw [← of_decide_eq_true h]
    exact space_mem_getterKey _
  unfold memberTable
  rw [find?_insertMembers, hgetters, find?_insertMembers]
  simp [lastNamed]

/-- No method replaces a getter in the table of a class: the last getter of a name counts. -/
theorem find?_memberTable_getter (hmethods : ∀ f ∈ methods, f.Named) :
    (memberTable environment methods getters).find? (getterKey name) =
      (lastNamed name getters).map fun f => ⟨f, environment, false⟩ := by
  have hnone : (methods.reverse.find? fun f => f.displayName = getterKey name) = none := by
    refine List.find?_eq_none.mpr fun f hf h => ?_
    have hspace := (hmethods f (List.mem_reverse.mp hf)).no_space
    rw [of_decide_eq_true h] at hspace
    exact hspace (space_mem_getterKey name)
  have hkey : (fun f : Function => decide (getterKey f.displayName = getterKey name)) =
      fun f => decide (f.displayName = name) :=
    funext fun f => decide_eq_decide.mpr ⟨getterKey_injective, congrArg _⟩
  unfold memberTable
  rw [find?_insertMembers, find?_insertMembers]
  simp [hnone, hkey, lastNamed]

end

end LoxLang
