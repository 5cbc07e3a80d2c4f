import LoxLang.Proofs.Scoping.Mentions
import LoxLang.Value

/-!
Which variable of a machine each cell is. A world says it for all cells that there are, and grows
as a program runs. In a world, the scopes that the analysis sees, the environment of a machine and
a list of cells may match.
-/

namespace LoxLang

/-- The scope and the name that a cell stands for, and whether it has a value. -/
structure Binding where
  scope : Nat
  name : String
  isSet : Bool

structure World where
  /-- The binding of each cell, by the number of the cell. -/
  bindings : List Binding
  /-- The number of the next scope. -/
  scopes : Nat

namespace World

/-- Worlds grow: cells stay what they are, and keep a value. -/
structure Le (w w' : World) : Prop where
  scopes : w.scopes ≤ w'.scopes
  kept : ∀ (i : Nat) (b : Binding), w.bindings[i]? = some b →
    ∃ b' : Binding, w'.bindings[i]? = some b' ∧
    b'.scope = b.scope ∧ b'.name = b.name ∧ (b.isSet = true → b'.isSet = true)

instance : LE World := ⟨Le⟩

protected theorem le_refl (w : World) : w ≤ w :=
  ⟨Nat.le_refl _, fun _ b h => ⟨b, h, rfl, rfl, id⟩⟩

protected theorem le_trans {w₁ w₂ w₃ : World} (h : w₁ ≤ w₂) (h' : w₂ ≤ w₃) : w₁ ≤ w₃ := by
  refine ⟨Nat.le_trans h.scopes h'.scopes, fun i b hb => ?_⟩
  obtain ⟨b₂, hb₂, hs, hn, hi⟩ := h.kept i b hb
  obtain ⟨b₃, hb₃, hs', hn', hi'⟩ := h'.kept i b₂ hb₂
  exact ⟨b₃, hb₃, hs'.trans hs, hn'.trans hn, fun h => hi' (hi h)⟩

/-- The scopes that a computation may bind names in: the innermost one, and those to come. -/
def Ahead (w : World) (scope n : Nat) : Prop :=
  n = scope ∨ w.scopes ≤ n

/-- Growth by cells that stand in some scopes only. -/
structure Grows (S : Nat → Prop) (w w' : World) : Prop where
  le : w ≤ w'
  fresh : ∀ (i : Nat) (b : Binding), w'.bindings[i]? = some b → w.bindings.length ≤ i → S b.scope

namespace Grows

variable {S S' : Nat → Prop} {w w₁ w₂ : World}

theorem refl (S : Nat → Prop) (w : World) : Grows S w w := by
  refine ⟨w.le_refl, fun i b hb hl => ?_⟩
  have := (List.getElem?_eq_some_iff.mp hb).1
  omega

theorem trans (h₁ : Grows S w w₁) (h₂ : Grows S w₁ w₂) : Grows S w w₂ := by
  refine ⟨World.le_trans h₁.le h₂.le, fun i b hb hl => ?_⟩
  by_cases hi : w₁.bindings.length ≤ i
  · exact h₂.fresh i b hb hi
  · have hi := List.getElem?_eq_getElem (Nat.lt_of_not_le hi)
    obtain ⟨b', hb', hs, -⟩ := h₂.le.kept i _ hi
    rw [hb] at hb'
    cases hb'
    rw [hs]
    exact h₁.fresh i _ hi hl

theorem widen (h : Grows S w w₁) (hS : ∀ n, S n → S' n) : Grows S' w w₁ :=
  ⟨h.le, fun i b hb hl => hS _ (h.fresh i b hb hl)⟩

/-- A cell that stands in another scope was there before. -/
theorem old (h : Grows S w w₁) {i : Nat} {b : Binding} (hb : w₁.bindings[i]? = some b)
    (hS : ¬ S b.scope) : ∃ b₀ : Binding, w.bindings[i]? = some b₀ ∧ b₀.scope = b.scope ∧
      b₀.name = b.name := by
  by_cases hi : w.bindings.length ≤ i
  · exact (hS (h.fresh i b hb hi)).elim
  · have hi := List.getElem?_eq_getElem (Nat.lt_of_not_le hi)
    obtain ⟨b', hb', hs, hn, -⟩ := h.le.kept i _ hi
    rw [hb] at hb'
    cases hb'
    exact ⟨_, hi, hs.symm, hn.symm⟩

end Grows

/-- Whether a cell has this name. -/
def named (w : World) (name : String) (cell : Nat) : Bool :=
  (w.bindings[cell]?.map Binding.name) == some name

theorem named_iff {w : World} {name : String} {cell : Nat} :
    w.named name cell = true ↔ ∃ b : Binding, w.bindings[cell]? = some b ∧ b.name = name := by
  simp [named]

/-- Whether a variable has a cell without a value. -/
def Unset (w : World) (scope : Nat) (name : String) : Prop :=
  ∃ (i : Nat) (b : Binding), w.bindings[i]? = some b ∧ b.scope = scope ∧ b.name = name ∧
    b.isSet = false

/-- Whether these are the variables without a value. -/
def Pending (w : World) (pending : List (Nat × String)) : Prop :=
  ∀ scope name, w.Unset scope name ↔ (scope, name) ∈ pending

/-- No two cells stand for the same name in the same scope. -/
def Distinct (w : World) : Prop :=
  ∀ (i j : Nat) (b b' : Binding), w.bindings[i]? = some b → w.bindings[j]? = some b' →
    b.scope = b'.scope → b.name = b'.name → i = j

/-- The cells that stand for the names of one scope. -/
structure Holds (w : World) (scope : Nat) (frame : Table Bool) (cells : List Nat) : Prop where
  within : ∀ i ∈ cells, ∃ b : Binding, w.bindings[i]? = some b ∧ b.scope = scope ∧
    frame.contains b.name = true
  bound : ∀ name flag, frame.find? name = some flag → ∃ i ∈ cells, ∃ b : Binding,
    w.bindings[i]? = some b ∧ b.name = name ∧ (flag = true → b.isSet = true)

namespace Holds

variable {w w' : World} {scope : Nat} {frame : Table Bool} {cells : List Nat}

theorem mono (hw : w ≤ w') (h : w.Holds scope frame cells) : w'.Holds scope frame cells := by
  constructor
  · intro i hi
    obtain ⟨b, hb, hs, hc⟩ := h.within i hi
    obtain ⟨b', hb', hs', hn, -⟩ := hw.kept i b hb
    exact ⟨b', hb', hs'.trans hs, hn ▸ hc⟩
  · intro name flag hf
    obtain ⟨i, hi, b, hb, hn, hset⟩ := h.bound name flag hf
    obtain ⟨b', hb', -, hn', hset'⟩ := hw.kept i b hb
    exact ⟨i, hi, b', hb', hn'.trans hn, fun h => hset' (hset h)⟩

theorem empty (w : World) (scope : Nat) : w.Holds scope .empty [] :=
  ⟨by simp, by simp⟩

/-- A new cell for a name that is bound from now on. -/
theorem insert (h : w.Holds scope frame cells) {name : String} {initialized : Bool} {i : Nat}
    {b : Binding} (hb : w.bindings[i]? = some b) (hs : b.scope = scope) (hn : b.name = name)
    (hset : initialized = true → b.isSet = true) :
    w.Holds scope (frame.insert name initialized) (i :: cells) := by
  constructor
  · intro j hj
    rcases List.mem_cons.mp hj with rfl | hj
    · exact ⟨b, hb, hs, by simp [Table.contains, hn]⟩
    · obtain ⟨b', hb', hs', hc⟩ := h.within j hj
      refine ⟨b', hb', hs', ?_⟩
      rw [Table.contains, Table.find?_insert]
      split
      · rfl
      · exact hc
  · intro other flag hf
    rw [Table.find?_insert] at hf
    split at hf
    · rename_i ho
      cases hf
      exact ⟨i, List.mem_cons_self, b, hb, hn.trans ho.symm, hset⟩
    · obtain ⟨j, hj, b', hb', hn', hset'⟩ := h.bound other flag hf
      exact ⟨j, List.mem_cons_of_mem _ hj, b', hb', hn', hset'⟩

/-- A name may be bound again in its scope once its cell has a value. -/
theorem rebind (h : w.Holds scope frame cells) {name : String} {i : Nat} {b : Binding}
    (hi : i ∈ cells) (hb : w.bindings[i]? = some b) (hn : b.name = name)
    (hset : b.isSet = true) : w.Holds scope (frame.insert name true) cells := by
  constructor
  · intro j hj
    obtain ⟨b', hb', hs', hc⟩ := h.within j hj
    refine ⟨b', hb', hs', ?_⟩
    rw [Table.contains, Table.find?_insert]
    split
    · rfl
    · exact hc
  · intro other flag hf
    rw [Table.find?_insert] at hf
    split at hf
    · rename_i ho
      exact ⟨i, hi, b, hb, hn.trans ho.symm, fun _ => hset⟩
    · exact h.bound other flag hf

end Holds

/-- The world with one more scope. -/
def opened (w : World) : World :=
  { w with scopes := w.scopes + 1 }

/-- The world with one more cell. -/
def added (w : World) (b : Binding) : World :=
  { w with bindings := w.bindings ++ [b] }

/-- The world in which a cell has a value. -/
def filled (w : World) (cell : Nat) : World :=
  { w with bindings := w.bindings.modify cell fun b => { b with isSet := true } }

/-- Whether no cell stands for this variable. -/
def Absent (w : World) (scope : Nat) (name : String) : Prop :=
  ∀ (i : Nat) (b : Binding), w.bindings[i]? = some b → b.scope = scope → b.name ≠ name

variable {w : World}

theorem le_opened : w ≤ w.opened :=
  ⟨Nat.le_succ _, fun _ b h => ⟨b, h, rfl, rfl, id⟩⟩

theorem getElem?_added {b b' : Binding} {i : Nat} :
    (w.added b).bindings[i]? = some b' ↔
      w.bindings[i]? = some b' ∨ i = w.bindings.length ∧ b' = b := by
  rw [added, List.getElem?_append]
  split
  · rename_i h
    have := Nat.ne_of_lt h
    simp [this]
  · rename_i h
    rw [List.getElem?_singleton, List.getElem?_eq_none (Nat.le_of_not_lt h)]
    split
    · have : i = w.bindings.length := by omega
      simp [this, eq_comm]
    · have : i ≠ w.bindings.length := by omega
      simp [this]

theorem le_added (b : Binding) : w ≤ w.added b :=
  ⟨Nat.le_refl _, fun _ b' h => ⟨b', getElem?_added.mpr (.inl h), rfl, rfl, id⟩⟩

theorem getElem?_filled (cell : Nat) {b' : Binding} {i : Nat} :
    (w.filled cell).bindings[i]? = some b' ↔ ∃ b, w.bindings[i]? = some b ∧
      b' = if i = cell then { b with isSet := true } else b := by
  rw [filled, List.getElem?_modify, Option.map_eq_map, Option.map_eq_some_iff]
  simp only [eq_comm (a := cell), eq_comm (a := b')]

theorem le_filled (cell : Nat) : w ≤ w.filled cell := by
  refine ⟨Nat.le_refl _, fun i b h => ?_⟩
  by_cases hi : i = cell
  · exact ⟨_, (getElem?_filled cell).mpr ⟨b, h, rfl⟩, by simp [hi]⟩
  · exact ⟨_, (getElem?_filled cell).mpr ⟨b, h, rfl⟩, by simp [hi]⟩

theorem grows_opened (S : Nat → Prop) : Grows S w w.opened := by
  refine ⟨le_opened, fun i b hb hl => ?_⟩
  have := (List.getElem?_eq_some_iff.mp hb).1
  simp only [opened] at this
  omega

theorem grows_added {S : Nat → Prop} {b : Binding} (h : S b.scope) : Grows S w (w.added b) := by
  refine ⟨le_added b, fun i b' hb hl => ?_⟩
  rcases getElem?_added.mp hb with hb | ⟨-, rfl⟩
  · have := (List.getElem?_eq_some_iff.mp hb).1
    omega
  · exact h

theorem grows_filled (S : Nat → Prop) (cell : Nat) : Grows S w (w.filled cell) := by
  refine ⟨le_filled cell, fun i b hb hl => ?_⟩
  obtain ⟨b', hb', -⟩ := (getElem?_filled cell).mp hb
  have := (List.getElem?_eq_some_iff.mp hb').1
  omega

theorem Distinct.added (h : w.Distinct) {b : Binding} (ha : w.Absent b.scope b.name) :
    (w.added b).Distinct := by
  intro i j b₁ b₂ h₁ h₂ hs hn
  rcases getElem?_added.mp h₁ with old₁ | ⟨hi, rfl⟩ <;>
    rcases getElem?_added.mp h₂ with old₂ | ⟨hj, rfl⟩
  · exact h i j b₁ b₂ old₁ old₂ hs hn
  · exact (ha i b₁ old₁ hs hn).elim
  · exact (ha j b₂ old₂ hs.symm hn.symm).elim
  · exact hi.trans hj.symm

theorem Distinct.filled (h : w.Distinct) (cell : Nat) : (w.filled cell).Distinct := by
  intro i j b₁ b₂ h₁ h₂ hs hn
  obtain ⟨b₁', h₁', rfl⟩ := (getElem?_filled cell).mp h₁
  obtain ⟨b₂', h₂', rfl⟩ := (getElem?_filled cell).mp h₂
  refine h i j b₁' b₂' h₁' h₂' ?_ ?_
  · revert hs
    split <;> split <;> exact id
  · revert hn
    split <;> split <;> exact id

theorem filled_of_isSet {cell : Nat} {b : Binding} (hb : w.bindings[cell]? = some b)
    (hset : b.isSet = true) : w.filled cell = w := by
  have same : (w.filled cell).bindings = w.bindings := by
    apply List.ext_getElem?
    intro i
    rw [filled, List.getElem?_modify]
    by_cases hi : cell = i
    · subst hi
      obtain ⟨scope, name, isSet⟩ := b
      simp_all
    · simp [hi]
  exact congrArg (World.mk · w.scopes) same

theorem unset_added {b : Binding} {scope : Nat} {name : String} :
    (w.added b).Unset scope name ↔
      w.Unset scope name ∨ b.scope = scope ∧ b.name = name ∧ b.isSet = false := by
  constructor
  · rintro ⟨i, b', hb', h⟩
    rcases getElem?_added.mp hb' with hb' | ⟨-, rfl⟩
    · exact .inl ⟨i, b', hb', h⟩
    · exact .inr h
  · rintro (⟨i, b', hb', h⟩ | h)
    · exact ⟨i, b', getElem?_added.mpr (.inl hb'), h⟩
    · exact ⟨_, b, getElem?_added.mpr (.inr ⟨rfl, rfl⟩), h⟩

/-- A variable has no more value than before, if it is not the one that was given a value. -/
theorem unset_filled (hd : w.Distinct) {cell : Nat} {b : Binding}
    (hb : w.bindings[cell]? = some b) {scope : Nat} {name : String} :
    (w.filled cell).Unset scope name ↔
      w.Unset scope name ∧ ¬ (scope = b.scope ∧ name = b.name) := by
  constructor
  · rintro ⟨i, b', hb', hs, hn, hset⟩
    obtain ⟨b₀, hb₀, rfl⟩ := (getElem?_filled cell).mp hb'
    by_cases hi : i = cell
    · simp [hi] at hset
    · simp only [hi, if_false] at hs hn hset
      refine ⟨⟨i, b₀, hb₀, hs, hn, hset⟩, fun ⟨h₁, h₂⟩ => hi ?_⟩
      exact hd i cell b₀ b hb₀ hb (hs.trans h₁) (hn.trans h₂)
  · rintro ⟨⟨i, b₀, hb₀, hs, hn, hset⟩, hne⟩
    have hi : i ≠ cell := by
      rintro rfl
      rw [hb] at hb₀
      cases hb₀
      exact hne ⟨hs.symm, hn.symm⟩
    exact ⟨i, b₀, (getElem?_filled cell).mpr ⟨b₀, hb₀, by simp [hi]⟩, hs, hn, hset⟩

/-- What has no value can be listed. -/
theorem exists_pending (w : World) : ∃ pending, w.Pending pending := by
  refine ⟨(w.bindings.filter (!·.isSet)).map fun b => (b.scope, b.name), fun scope name => ?_⟩
  simp only [List.mem_map, List.mem_filter, Prod.mk.injEq]
  constructor
  · intro ⟨i, b, hb, hs, hn, hset⟩
    exact ⟨b, ⟨List.mem_of_getElem? hb, by simp [hset]⟩, hs, hn⟩
  · intro ⟨b, ⟨hb, hset⟩, hs, hn⟩
    obtain ⟨i, hb⟩ := List.getElem?_of_mem hb
    exact ⟨i, b, hb, hs, hn, by simpa using hset⟩

end World

/-- The local scopes of the analysis match the scopes of an environment, each with its cells. -/
inductive Matches (w : World) : Frames → Environment → Environment → Prop
  | globals : Matches w [] [0] []
  | scope {frame frames n environment held cells} (hp : 0 < n) (hn : n < w.scopes)
      (h : w.Holds n frame held) (ho : Matches w frames environment cells) :
      Matches w (frame :: frames) (n :: environment) (held ++ cells)

namespace Matches

variable {w w' : World} {frames : Frames} {environment cells : Environment}

theorem mono (hw : w ≤ w') (h : Matches w frames environment cells) :
    Matches w' frames environment cells := by
  induction h with
  | globals => exact .globals
  | scope hp hn h _ ih => exact .scope hp (Nat.lt_of_lt_of_le hn hw.scopes) (h.mono hw) ih

theorem lt_scopes (hw : 0 < w.scopes) (h : Matches w frames environment cells) :
    ∀ n ∈ environment, n < w.scopes := by
  induction h with
  | globals => simpa using hw
  | scope hp hn _ _ ih =>
    intro n hm
    rcases List.mem_cons.mp hm with rfl | hm
    · exact hn
    · exact ih n hm

theorem opened (hw : 0 < w.scopes) (h : Matches w frames environment cells) :
    Matches w.opened (.empty :: frames) (w.scopes :: environment) cells :=
  .scope hw (Nat.lt_succ_self _) (.empty _ _) (h.mono World.le_opened)

/-- A new cell for a name of the innermost scope. -/
theorem bound {frame : Table Bool} {scope : Nat} {initialized : Bool} {b : Binding}
    (h : Matches w (frame :: frames) (scope :: environment) cells) (hs : b.scope = scope)
    (hset : initialized = true → b.isSet = true) :
    Matches (w.added b) (Frames.bound (frame :: frames) b.name initialized)
      (scope :: environment) (w.bindings.length :: cells) := by
  have hb : (w.added b).bindings[w.bindings.length]? = some b :=
    World.getElem?_added.mpr (.inr ⟨rfl, rfl⟩)
  cases h with
  | @scope _ _ _ _ held cells hp hn h ho =>
    rw [← List.cons_append]
    have h := (h.mono (World.le_added b)).insert hb hs rfl hset
    exact .scope hp hn h (ho.mono (World.le_added b))

/-- What a name stands for in the list of cells, where it is bound in some scope. -/
structure Found (w : World) (frames : Frames) (environment : Environment) (name : String)
    (distance cell : Nat) (b : Binding) : Prop where
  placed : Scoping.distance? name frames = some distance
  binding : w.bindings[cell]? = some b
  named : b.name = name
  held : environment[distance]? = some b.scope
  filled : Frames.initializing frames name = false → b.isSet = true

/-- A name stands for the cell at its distance, or else is bound neither here nor there. -/
theorem lookup (hd : w.Distinct) (h : Matches w frames environment cells) (name : String) :
    (Scoping.distance? name frames = none ∧ cells.find? (w.named name) = none) ∨
      ∃ distance cell b, cells.find? (w.named name) = some cell ∧
        Found w frames environment name distance cell b := by
  induction h with
  | globals => exact .inl ⟨rfl, rfl⟩
  | @scope frame frames n environment held cells hp hn h _ ih =>
    cases hf : frame.find? name with
    | some flag =>
      obtain ⟨i, hi, b, hb, hbn, hset⟩ := h.bound name flag hf
      obtain ⟨j, hj⟩ : ∃ j, held.find? (w.named name) = some j := by
        apply Option.isSome_iff_exists.mp
        exact List.find?_isSome.mpr ⟨i, hi, World.named_iff.mpr ⟨b, hb, hbn⟩⟩
      obtain ⟨b', hb', hn'⟩ := World.named_iff.mp (List.find?_some hj)
      obtain ⟨b'', hb'', hs'', -⟩ := h.within j (List.mem_of_find?_eq_some hj)
      obtain ⟨b₀, hb₀, hs₀, -⟩ := h.within i hi
      rw [hb] at hb₀
      rw [hb'] at hb''
      cases hb₀
      cases hb''
      obtain rfl : i = j := hd i j b b' hb hb' (hs₀.trans hs''.symm) (hbn.trans hn'.symm)
      refine .inr ⟨0, i, b, by rw [List.find?_append, hj]; rfl, ?_⟩
      refine ⟨?_, hb, hbn, by simp [hs₀], fun hinit => hset ?_⟩
      · simp [Scoping.distance?, Table.contains, hf, List.findIdx?_cons]
      · simpa [Frames.initializing, hf] using hinit
    | none =>
      have none_held : held.find? (w.named name) = none := by
        rw [List.find?_eq_none]
        intro i hi hni
        obtain ⟨b, hb, hbn⟩ := World.named_iff.mp hni
        obtain ⟨b', hb', -, hc⟩ := h.within i hi
        rw [hb] at hb'
        cases hb'
        rw [hbn, Table.contains, hf] at hc
        cases hc
      rcases ih with ⟨hnone, hcells⟩ | ⟨d, cell, b, hcell, hfound⟩
      · refine .inl ⟨?_, by rw [List.find?_append, none_held, hcells]; rfl⟩
        simpa [Scoping.distance?, List.findIdx?_cons, Table.contains, hf] using hnone
      · refine .inr ⟨d + 1, cell, b, by rw [List.find?_append, none_held, hcell]; rfl, ?_⟩
        refine ⟨?_, hfound.binding, hfound.named, by simpa using hfound.held, fun hinit => ?_⟩
        · have := hfound.placed
          simp [Scoping.distance?, List.findIdx?_cons, Table.contains, hf] at this ⊢
          exact this
        · exact hfound.filled (by simpa [Frames.initializing, hf] using hinit)

end Matches

end LoxLang
