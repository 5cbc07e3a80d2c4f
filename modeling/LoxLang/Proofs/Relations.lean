import LoxLang.Evaluation
import Mathlib.Data.List.Forall2

/-!
Containers with related contents: options, tables and arrays. What is done to both sides keeps them
related.
-/

namespace LoxLang

variable {α β : Type} {R R' : α → β → Prop}

theorem rel_imp {a? : Option α} {b? : Option β} (h : Option.Rel R a? b?)
    (hR : ∀ a b, R a b → R' a b) : Option.Rel R' a? b? := by
  cases h with
  | none => exact .none
  | some h => exact .some (hR _ _ h)

/-- Tables with related values under the same names. -/
def Table.Rel (R : α → β → Prop) (t : Table α) (t' : Table β) : Prop :=
  ∀ name, Option.Rel R (t.find? name) (t'.find? name)

namespace Table.Rel

variable {t : Table α} {t' : Table β}

theorem empty : Table.Rel R .empty .empty :=
  fun _ => .none

theorem insert (h : Table.Rel R t t') (name : String) {a : α} {b : β} (hab : R a b) :
    Table.Rel R (t.insert name a) (t'.insert name b) := by
  intro other
  rw [Table.find?_insert, Table.find?_insert]
  split
  · exact .some hab
  · exact h other

theorem imp (h : Table.Rel R t t') (hR : ∀ a b, R a b → R' a b) : Table.Rel R' t t' :=
  fun name => rel_imp (h name) hR

end Table.Rel

section

variable {a : Array α} {a' : Array β}

theorem size_of_forall₂ (h : List.Forall₂ R a.toList a'.toList) : a'.size = a.size := by
  simpa using h.length_eq.symm

theorem getElem?_forall₂ (h : List.Forall₂ R a.toList a'.toList) (i : Nat) :
    Option.Rel R a[i]? a'[i]? := by
  obtain ⟨a⟩ := a
  obtain ⟨a'⟩ := a'
  simp only [List.getElem?_toArray]
  replace h : List.Forall₂ R a a' := h
  induction h generalizing i with
  | nil => exact .none
  | cons hv _ ih =>
    cases i with
    | zero => exact .some hv
    | succ i => exact ih i

theorem setIfInBounds_forall₂ (h : List.Forall₂ R a.toList a'.toList) (i : Nat) {v : α} {v' : β}
    (hv : R v v') :
    List.Forall₂ R (a.setIfInBounds i v).toList (a'.setIfInBounds i v').toList := by
  obtain ⟨a⟩ := a
  obtain ⟨a'⟩ := a'
  simp only [Array.toList_setIfInBounds]
  replace h : List.Forall₂ R a a' := h
  induction h generalizing i with
  | nil => exact .nil
  | cons hu h ih =>
    cases i with
    | zero => exact .cons hv h
    | succ i => exact .cons hu (ih i)

theorem replicate_forall₂ (n : Nat) {v : α} {v' : β} (hv : R v v') :
    List.Forall₂ R (Array.replicate n v).toList (Array.replicate n v').toList := by
  rw [Array.toList_replicate, Array.toList_replicate]
  induction n with
  | zero => exact .nil
  | succ n ih => exact .cons hv ih

end

/-- Arrays with related contents at the same places. -/
def ArrayRel (R : α → β → Prop) (a : Array α) (a' : Array β) : Prop :=
  ∀ i : Nat, Option.Rel R a[i]? a'[i]?

namespace ArrayRel

variable {a : Array α} {a' : Array β}

theorem size_eq (h : ArrayRel R a a') : a'.size = a.size := by
  have hnone : ∀ i : Nat, a.size ≤ i ↔ a'.size ≤ i := by
    intro i
    have hi := h i
    rw [← Array.getElem?_eq_none_iff, ← Array.getElem?_eq_none_iff]
    generalize a[i]? = b? at hi
    generalize a'[i]? = b'? at hi
    cases hi <;> simp
  have hle := (hnone a.size).mp (Nat.le_refl _)
  have hge := (hnone a'.size).mpr (Nat.le_refl _)
  omega

theorem push (h : ArrayRel R a a') {v : α} {v' : β} (hv : R v v') :
    ArrayRel R (a.push v) (a'.push v') := by
  intro i
  rw [Array.getElem?_push, Array.getElem?_push, h.size_eq]
  split
  · exact .some hv
  · exact h i

theorem modify (h : ArrayRel R a a') (place : Nat) {f : α → α} {f' : β → β}
    (hf : ∀ b b', R b b' → R (f b) (f' b')) :
    ArrayRel R (a.modify place f) (a'.modify place f') := by
  intro i
  have old := h i
  rw [Array.getElem?_modify, Array.getElem?_modify]
  split
  · generalize a[i]? = b? at old
    generalize a'[i]? = b'? at old
    cases old with
    | none => exact .none
    | some old => exact .some (hf _ _ old)
  · exact old

theorem imp (h : ArrayRel R a a') (hR : ∀ a b, R a b → R' a b) : ArrayRel R' a a' :=
  fun i => rel_imp (h i) hR

end ArrayRel

/-- Related tables at the same place of both have related values under a name. -/
theorem find?_rel {ts : Array (Table α)} {ts' : Array (Table β)} (h : ArrayRel (Table.Rel R) ts ts')
    (i : Nat) (name : String) :
    Option.Rel R (ts[i]?.bind (·.find? name)) (ts'[i]?.bind (·.find? name)) := by
  have hi := h i
  generalize ts[i]? = t? at hi
  generalize ts'[i]? = t'? at hi
  cases hi with
  | none => exact .none
  | some ht => exact ht name

theorem overwritten_forall₂ {R : Value → Value → Prop} {a a' b b' : Array Value}
    (h : List.Forall₂ R a.toList a'.toList) (h' : List.Forall₂ R b.toList b'.toList) :
    List.Forall₂ R (Eval.overwritten a b).toList (Eval.overwritten a' b').toList := by
  have hl := size_of_forall₂ h
  obtain ⟨a⟩ := a
  obtain ⟨a'⟩ := a'
  simp only [List.size_toArray] at hl
  simp only [Eval.overwritten, Array.toList_append, Array.toList_extract, List.size_toArray, hl,
    size_of_forall₂ h']
  exact List.rel_append h (List.forall₂_take _ (List.forall₂_drop _ h'))

end LoxLang
