/-!
Finite maps from names. `find?_insert` says what an insertion does to look-ups.
-/

namespace LoxLang

structure Table (α : Type) where
  entries : List (String × α)
  deriving Repr

namespace Table

variable {α : Type}

def empty : Table α := ⟨[]⟩

/-- The value that entries give a name. -/
def findEntry? (name : String) : List (String × α) → Option α
  | [] => none
  | (key, value) :: entries => if name = key then some value else findEntry? name entries

/-- The value of a name. -/
def find? (t : Table α) (name : String) : Option α :=
  findEntry? name t.entries

def contains (t : Table α) (name : String) : Bool :=
  (t.find? name).isSome

/-- Entries with the value of a name replaced, or added at the end. -/
def insertEntry (name : String) (value : α) : List (String × α) → List (String × α)
  | [] => [(name, value)]
  | (key, old) :: entries =>
    if name = key then (key, value) :: entries
    else (key, old) :: insertEntry name value entries

/-- Gives a name a value. -/
def insert (t : Table α) (name : String) (value : α) : Table α :=
  ⟨insertEntry name value t.entries⟩

@[simp] theorem find?_empty (name : String) : (empty : Table α).find? name = none := rfl

private theorem findEntry?_insertEntry (name other : String) (value : α)
    (entries : List (String × α)) :
    findEntry? other (insertEntry name value entries) =
      if other = name then some value else findEntry? other entries := by
  induction entries with
  | nil => rfl
  | cons entry entries ih =>
    obtain ⟨key, old⟩ := entry
    by_cases hk : name = key
    · subst hk
      by_cases ho : other = name <;> simp [insertEntry, findEntry?, ho]
    · by_cases ho : other = key
      · subst ho
        simp [insertEntry, findEntry?, hk, Ne.symm hk]
      · simp [insertEntry, findEntry?, hk, ho, ih]

/-- A name has the value inserted last, and other names keep theirs. -/
@[simp] theorem find?_insert (t : Table α) (name other : String) (value : α) :
    (t.insert name value).find? other = if other = name then some value else t.find? other :=
  findEntry?_insertEntry name other value t.entries

end Table

end LoxLang
