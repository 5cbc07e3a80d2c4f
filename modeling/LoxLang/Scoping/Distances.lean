/-!
How many scopes lie between an occurrence of a local variable and its binding. An occurrence
without a distance stands for a global variable.
-/

namespace LoxLang

structure Distances where
  /-- The distance of the occurrence with each number. -/
  entries : Array (Option Nat)
  deriving DecidableEq, Repr

namespace Distances

def empty : Distances := ⟨#[]⟩

def find? (d : Distances) (id : Nat) : Option Nat :=
  (d.entries[id]?).join

/-- The table with room for the occurrence `id`. -/
def extended (d : Distances) (id : Nat) : Array (Option Nat) :=
  d.entries ++ Array.replicate (id + 1 - d.entries.size) none

/-- Notes the distance of an occurrence. -/
def note (d : Distances) (id distance : Nat) : Distances :=
  ⟨(d.extended id).setIfInBounds id (some distance)⟩

/-- Notes the distance of an occurrence that has one. -/
def note? (d : Distances) (id : Nat) : Option Nat → Distances
  | some distance => d.note id distance
  | none => d

/-- An occurrence has the distance noted last, and other occurrences keep theirs. -/
@[simp] theorem find?_note (d : Distances) (id other distance : Nat) :
    (d.note id distance).find? other = if other = id then some distance else d.find? other := by
  unfold note find? extended
  by_cases h : other = id
  · subst h
    rw [Array.getElem?_setIfInBounds_self_of_lt (by simp; omega)]
    simp
  · rw [Array.getElem?_setIfInBounds_ne (Ne.symm h)]
    simp only [h, if_false, Array.getElem?_append]
    split
    · rfl
    · rename_i hlt
      rw [Array.getElem?_eq_none (by omega : d.entries.size ≤ other), Array.getElem?_replicate]
      split <;> rfl

theorem find?_note? (d : Distances) (id other : Nat) (distance? : Option Nat) :
    (d.note? id distance?).find? other =
      if other = id then distance?.or (d.find? id) else d.find? other := by
  cases distance? with
  | none =>
    split
    · rename_i h
      rw [h]
      rfl
    · rfl
  | some distance => exact d.find?_note id other distance

end Distances

end LoxLang
