import LoxLang.Proofs.Lexical.Evaluation
import LoxLang.Proofs.Lexical.Related
import Mathlib.Data.List.Forall2

/-!
Machines and lexical runs that stand for each other in a world, up to their environments. Each
change of the variables of one side has its change of the cells of the other.
-/

namespace LoxLang

namespace Scopes

@[simp] theorem next_put (s : Scopes) (scope : Nat) (name : String) (value : Value) :
    (s.put scope name value).next = s.next := by
  simp [next, put]

@[simp] theorem next_push (s : Scopes) (table : Table Value) :
    (s.push table).next = s.next + 1 := by
  simp [next, push]

theorem value?_push (s : Scopes) (table : Table Value) (scope : Nat) (name : String) :
    (s.push table).value? scope name =
      if scope = s.next then table.find? name else s.value? scope name := by
  unfold push value? next
  rw [Array.getElem?_push]
  split <;> rfl

/-- A scope that is filled once it is open is the scope opened with these variables. -/
theorem put_push (s : Scopes) (table : Table Value) (name : String) (value : Value) :
    (s.push table).put s.next name value = s.push (table.insert name value) := by
  unfold push put next
  congr 1
  apply Array.ext_getElem?
  intro i
  rw [Array.getElem?_modify, Array.getElem?_push, Array.getElem?_push]
  by_cases hi : s.tables.size = i
  · simp [hi]
  · simp [hi, Ne.symm hi]

end Scopes

variable (P : Mention → Prop)

/-- What a variable of a machine and its cell hold. -/
structure Kept (w : World) (scopes : Scopes) (value? : Option Value) (b : Binding) : Prop where
  positive : 0 < b.scope
  scope : b.scope < w.scopes
  filled : value?.isSome = b.isSet
  related : Option.Rel (ValueRelated P w) (scopes.value? b.scope b.name) value?
  this : b.name = "this" → ∃ i, value? = some (.instance i)
  super : b.name = "super" → ∃ c, value? = some (.callable (.class c))

/-- The scopes of a machine and the cells and globals of a lexical run. -/
structure VariablesLinked (w : World) (scopes : Scopes) (cells : Array Cell) (globals : Scopes) :
    Prop where
  next : scopes.next = w.scopes
  positive : 0 < w.scopes
  size : cells.size = w.bindings.length
  cell : ∀ (i : Nat) (b : Binding), w.bindings[i]? = some b →
    ∃ value?, cells[i]? = some ⟨b.name, value?⟩ ∧ Kept P w scopes value? b
  distinct : w.Distinct
  covered : ∀ n name, 0 < n → (scopes.value? n name).isSome = true → ¬ w.Absent n name
  globalNext : 0 < globals.next
  global : ∀ name, Option.Rel (ValueRelated P w) (scopes.value? 0 name) (globals.value? 0 name)

/-- The fields of instances and the elements of arrays. -/
structure ObjectsLinked (w : World) (m m' : Machine) : Prop where
  instances : m'.fields.size = m.fields.size
  fields : ∀ (i : Nat) (name : String), Option.Rel (ValueRelated P w)
    (m.fields[i]?.bind (·.find? name)) (m'.fields[i]?.bind (·.find? name))
  arrays : m'.arrays.size = m.arrays.size
  elements : ∀ i : Nat, Option.Rel (fun a a' => List.Forall₂ (ValueRelated P w) a.toList a'.toList)
    m.arrays[i]? m'.arrays[i]?

/-- What two machines have in common. -/
structure Shared (m m' : Machine) : Prop where
  nextId : m'.nextId = m.nextId
  depth : m'.depth = m.depth
  maxDepth : m'.maxDepth = m.maxDepth
  console : m'.console = m.console
  clock : m'.clock = m.clock
  readings : m'.readings = m.readings
  memory : m'.memory = m.memory
  requests : m'.requests = m.requests

/-- A machine and a lexical run that stand for each other, up to their environments. -/
structure Linked (D : Distances) (w : World) (m : Machine) (s : Lexical.State) : Prop where
  distances : m.distances = D
  cells : VariablesLinked P w m.scopes s.cells s.machine.scopes
  objects : ObjectsLinked P w m s.machine
  shared : Shared m s.machine

variable {P} {w w' : World}

/-- Objects stay linked while fields and arrays stay as they are. -/
theorem ObjectsLinked.later {m m' m₁ m₁' : Machine} (h : ObjectsLinked P w m m') (hw : w ≤ w')
    (hf : m₁.fields = m.fields) (hf' : m₁'.fields = m'.fields) (ha : m₁.arrays = m.arrays)
    (ha' : m₁'.arrays = m'.arrays) : ObjectsLinked P w' m₁ m₁' := by
  have value : ∀ v v', ValueRelated P w v v' → ValueRelated P w' v v' :=
    fun _ _ => ValueRelated.mono (fun _ => id) hw
  constructor
  · rw [hf, hf']
    exact h.instances
  · intro i name
    rw [hf, hf']
    exact rel_imp (h.fields i name) value
  · rw [ha, ha']
    exact h.arrays
  · intro i
    rw [ha, ha']
    exact rel_imp (h.elements i) fun _ _ ha => ha.imp value

namespace Kept

variable {scopes scopes' : Scopes} {value? : Option Value} {b : Binding}

theorem mono (hw : w ≤ w') (h : Kept P w scopes value? b)
    (hv : scopes'.value? b.scope b.name = scopes.value? b.scope b.name) :
    Kept P w' scopes' value? b where
  positive := h.positive
  scope := Nat.lt_of_lt_of_le h.scope hw.scopes
  filled := h.filled
  related := hv ▸ rel_imp h.related fun _ _ => ValueRelated.mono (fun _ => id) hw
  this := h.this
  super := h.super

end Kept

namespace VariablesLinked

variable {scopes scopes' globals : Scopes} {cells : Array Cell} {value value' : Value}

theorem mono_global (hw : w ≤ w') (h : VariablesLinked P w scopes cells globals) (name : String) :
    Option.Rel (ValueRelated P w') (scopes.value? 0 name) (globals.value? 0 name) :=
  rel_imp (h.global name) fun _ _ => ValueRelated.mono (fun _ => id) hw

/-- A variable without a cell has no value. -/
theorem value?_of_absent (h : VariablesLinked P w scopes cells globals) {n : Nat} {name : String}
    (hn : 0 < n) (ha : w.Absent n name) : scopes.value? n name = none :=
  Option.not_isSome_iff_eq_none.mp fun hs => h.covered n name hn hs ha

/-- The scope that is opened next has no cells. -/
theorem absent_next (h : VariablesLinked P w scopes cells globals) (name : String) :
    w.Absent w.scopes name := by
  intro i b hb hs
  obtain ⟨_, -, hk⟩ := h.cell i b hb
  exact (Nat.ne_of_lt hk.scope hs).elim

theorem opened (h : VariablesLinked P w scopes cells globals) :
    VariablesLinked P w.opened (scopes.push .empty) cells globals := by
  have value?_eq : ∀ n name, n ≠ scopes.next →
      (scopes.push .empty).value? n name = scopes.value? n name := fun n name hn => by
    rw [Scopes.value?_push, if_neg hn]
  constructor
  · rw [Scopes.next_push, h.next]
    rfl
  · exact Nat.succ_pos _
  · exact h.size
  · intro i b hb
    obtain ⟨value?, hc, hk⟩ := h.cell i b hb
    have hn : b.scope ≠ scopes.next := h.next ▸ Nat.ne_of_lt hk.scope
    exact ⟨value?, hc, hk.mono World.le_opened (value?_eq _ _ hn)⟩
  · exact h.distinct
  · intro n name hn hs
    by_cases he : n = scopes.next
    · simp [Scopes.value?_push, he] at hs
    · rw [value?_eq n name he] at hs
      exact h.covered n name hn hs
  · exact h.globalNext
  · intro name
    rw [value?_eq 0 name (h.next ▸ Nat.ne_of_lt h.positive)]
    exact h.mono_global World.le_opened name

/-- A cell is added for a variable that had none. -/
theorem added (h : VariablesLinked P w scopes cells globals) {b : Binding}
    {value? value'? : Option Value} (ha : w.Absent b.scope b.name)
    (hk : Kept P w scopes' value'? b) (hnext : scopes'.next = scopes.next)
    (hv : ∀ n name, scopes'.value? n name =
      if n = b.scope ∧ name = b.name then value? else scopes.value? n name) :
    VariablesLinked P (w.added b) scopes' (cells.push ⟨b.name, value'?⟩) globals := by
  constructor
  · exact hnext.trans h.next
  · exact h.positive
  · simp [World.added, h.size]
  · intro i b' hb'
    rcases World.getElem?_added.mp hb' with hb' | ⟨rfl, rfl⟩
    · obtain ⟨old?, hc, hk'⟩ := h.cell i b' hb'
      refine ⟨old?, ?_, hk'.mono (World.le_added b) ?_⟩
      · have hi := (Array.getElem?_eq_some_iff.mp hc).1
        rw [Array.getElem?_push_lt hi, ← Array.getElem?_eq_getElem hi, hc]
      · rw [hv, if_neg]
        intro he
        exact ha i b' hb' he.1 he.2
    · refine ⟨value'?, ?_, hk.mono (World.le_added b') rfl⟩
      rw [← h.size, Array.getElem?_push_size]
  · exact h.distinct.added ha
  · intro n name hn hs habsent
    by_cases he : n = b.scope ∧ name = b.name
    · have hb : (w.added b).bindings[w.bindings.length]? = some b :=
        World.getElem?_added.mpr (.inr ⟨rfl, rfl⟩)
      exact habsent _ b hb he.1.symm he.2.symm
    · rw [hv, if_neg he] at hs
      refine h.covered n name hn hs fun i b' hb' => ?_
      exact habsent i b' (World.getElem?_added.mpr (.inl hb'))
  · exact h.globalNext
  · intro name
    rw [hv, if_neg fun he => Nat.ne_of_lt hk.positive he.1]
    exact h.mono_global (World.le_added b) name

/-- A variable and its cell get values that stand for each other. -/
theorem filled (h : VariablesLinked P w scopes cells globals) {cell : Nat} {b : Binding}
    (hb : w.bindings[cell]? = some b) (hplain : b.name ≠ "this" ∧ b.name ≠ "super")
    (hr : ValueRelated P (w.filled cell) value value') :
    VariablesLinked P (w.filled cell) (scopes.put b.scope b.name value)
      (cells.modify cell fun c => { c with value? := some value' }) globals := by
  obtain ⟨old?, hcell, hkept⟩ := h.cell cell b hb
  have hscope : b.scope < scopes.next := h.next ▸ hkept.scope
  constructor
  · rw [Scopes.next_put]
    exact h.next
  · exact h.positive
  · simp [World.filled, h.size]
  · intro i b' hb'
    obtain ⟨b₀, hb₀, rfl⟩ := (World.getElem?_filled cell).mp hb'
    obtain ⟨value₀?, hc, hk⟩ := h.cell i b₀ hb₀
    rw [Array.getElem?_modify, hc]
    by_cases hi : cell = i
    · subst hi
      rw [hb] at hb₀
      cases hb₀
      refine ⟨some value', by simp, ?_⟩
      simp only [if_true]
      refine ⟨hk.positive, hk.scope, rfl, ?_, fun hn => (hplain.1 hn).elim,
        fun hn => (hplain.2 hn).elim⟩
      rw [Scopes.value?_put, if_pos ⟨rfl, rfl, hscope⟩]
      exact .some hr
    · refine ⟨value₀?, by simp [hi, Ne.symm hi], ?_⟩
      rw [if_neg (Ne.symm hi)]
      refine hk.mono (World.le_filled cell) ?_
      rw [Scopes.value?_put, if_neg]
      intro he
      exact hi (h.distinct cell i b b₀ hb hb₀ he.1.symm he.2.1.symm)
  · exact h.distinct.filled cell
  · intro n name hn hs habsent
    rw [Scopes.value?_put] at hs
    split at hs
    · rename_i he
      have hb' := (World.getElem?_filled cell).mpr ⟨b, hb, rfl⟩
      exact habsent cell _ hb' (by simp [he.1]) (by simp [he.2.1])
    · refine h.covered n name hn hs fun i b' hb' hs' hn' => ?_
      have hb' := (World.getElem?_filled cell).mpr ⟨b', hb', rfl⟩
      refine habsent i _ hb' ?_ ?_ <;> split <;> assumption
  · exact h.globalNext
  · intro name
    rw [Scopes.value?_put, if_neg fun he => Nat.ne_of_lt hkept.positive he.1]
    exact h.mono_global (World.le_filled cell) name

/-- A global gets values that stand for each other. -/
theorem putGlobal (h : VariablesLinked P w scopes cells globals) (name : String)
    (hr : ValueRelated P w value value') :
    VariablesLinked P w (scopes.put 0 name value) cells (globals.put 0 name value') := by
  have other : ∀ n key, 0 < n → (scopes.put 0 name value).value? n key = scopes.value? n key :=
    fun n key hn => by
      rw [Scopes.value?_put, if_neg fun he => Nat.ne_of_gt hn he.1]
  constructor
  · rw [Scopes.next_put]
    exact h.next
  · exact h.positive
  · exact h.size
  · intro i b hb
    obtain ⟨value?, hc, hk⟩ := h.cell i b hb
    exact ⟨value?, hc, hk.mono w.le_refl (other _ _ hk.positive)⟩
  · exact h.distinct
  · intro n key hn hs
    rw [other n key hn] at hs
    exact h.covered n key hn hs
  · rw [Scopes.next_put]
    exact h.globalNext
  · intro key
    rw [Scopes.value?_put, Scopes.value?_put, h.next]
    by_cases hk : key = name
    · rw [if_pos ⟨rfl, hk, h.positive⟩, if_pos ⟨rfl, hk, h.globalNext⟩]
      exact .some hr
    · rw [if_neg fun he => hk he.2.1, if_neg fun he => hk he.2.1]
      exact h.global key

/-- The cells that a lexical run finds under a name are those of the world. -/
theorem cell?_eq (h : VariablesLinked P w scopes cells globals) (environment : Environment)
    (name : String) : (environment.find? fun cell => (cells[cell]?.map Cell.name) == some name) =
      environment.find? (w.named name) := by
  congr 1
  funext i
  unfold World.named
  cases hb : w.bindings[i]? with
  | some b =>
    obtain ⟨_, hc, -⟩ := h.cell i b hb
    simp [hc]
  | none =>
    have hi : cells[i]? = none := by
      rw [Array.getElem?_eq_none_iff, h.size]
      exact List.getElem?_eq_none_iff.mp hb
    simp [hi]

end VariablesLinked

/-- What is known of the mentions may become more, and other distances may be noted. -/
theorem Linked.imp {P' : Mention → Prop} (hP : ∀ m, P m → P' m) {D : Distances} {m : Machine}
    {s : Lexical.State} (h : Linked P D w m s) (D' : Distances) :
    Linked P' D' w { m with distances := D' } s := by
  have value : ∀ v v', ValueRelated P w v v' → ValueRelated P' w v v' :=
    fun _ _ => ValueRelated.mono hP w.le_refl
  constructor
  · rfl
  · refine { h.cells with cell := fun i b hb => ?_, global := fun name => ?_ }
    · obtain ⟨value?, hc, hk⟩ := h.cells.cell i b hb
      exact ⟨value?, hc, { hk with related := rel_imp hk.related value }⟩
    · exact rel_imp (h.cells.global name) value
  · constructor
    · exact h.objects.instances
    · exact fun i name => rel_imp (h.objects.fields i name) value
    · exact h.objects.arrays
    · exact fun i => rel_imp (h.objects.elements i) fun _ _ ha => ha.imp value
  · exact { h.shared with }

end LoxLang
