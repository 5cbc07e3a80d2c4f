import LoxLang.Proofs.Classes.Provenance

/-!
What the steps of a machine keep: it still holds only values that have come about, it precedes the
machine behind the step, and what the step gives has come about too.
-/

namespace LoxLang

variable {H : Chronicle} {stored : Nat → String → Value → Prop} {m m₁ : Machine}

namespace Machine

/-- A machine that differs in nothing that a value can be found in. -/
structure Still (m m₁ : Machine) : Prop where
  scopes : m₁.scopes = m.scopes
  fields : m₁.fields = m.fields
  arrays : m₁.arrays = m.arrays
  nextId : m.nextId ≤ m₁.nextId
  environment : m₁.environment = m.environment
  distances : m₁.distances = m.distances

theorem field?_congr (h : m₁.fields = m.fields) (id : Nat) (name : String) :
    m₁.field? id name = m.field? id name := by
  unfold field?
  rw [h]

theorem Still.precedes (h : m.Still m₁) : m.Precedes stored m₁ where
  nextId := h.nextId
  fields := Nat.le_of_eq (congrArg _ h.fields.symm)
  hidden scope name v _ hv := by rwa [h.scopes]
  environment := h.environment
  distances := h.distances
  kept id name := .inl (field?_congr h.fields id name)

theorem Still.grows (h : m.Still m₁) : m.Grows (fun _ _ _ => False) m₁ :=
  h.precedes.toGrows

/-- A number that is taken. -/
theorem Still.numbered (m : Machine) : m.Still { m with nextId := m.nextId + 1 } :=
  ⟨rfl, rfl, rfl, Nat.le_succ _, rfl, rfl⟩

theorem Still.holds (h : m.Still m₁) {v : Value} (hv : m₁.Holds v) : m.Holds v := by
  cases hv with
  | «variable» hv => exact .variable (h.scopes ▸ hv)
  | field hv => exact .field ((field?_congr h.fields _ _).symm.trans hv)
  | element he hv => exact .element (h.arrays ▸ he) hv

theorem Born.still (hb : m.Born H) (h : m.Still m₁) : m₁.Born H :=
  hb.later (.refl H) h.grows fun _ hv => .inl (h.holds hv)

theorem Precedes.push (m : Machine) (table : Table Value) :
    m.Precedes stored { m with scopes := m.scopes.push table } where
  nextId := Nat.le_refl _
  fields := Nat.le_refl _
  hidden scope name v _ hv := by
    have hlt : scope ≠ m.scopes.next := by
      rintro rfl
      rw [Scopes.value?, Scopes.next, Array.getElem?_eq_none (Nat.le_refl _)] at hv
      cases hv
    rwa [Scopes.value?_push, if_neg hlt]
  environment := rfl
  distances := rfl
  kept _ _ := .inl rfl

theorem Born.push (hb : m.Born H) {table : Table Value}
    (ht : ∀ name v, table.find? name = some v → ValueBorn H m v) :
    Born { m with scopes := m.scopes.push table } H := by
  have hp : m.Precedes (fun _ _ _ => True) { m with scopes := m.scopes.push table } :=
    .push m table
  have hgrows := hp.toGrows
  refine hb.later (.refl H) hgrows fun v hv => ?_
  cases hv with
  | @«variable» scope name hv =>
    rw [Scopes.value?_push] at hv
    split at hv
    · exact .inr ((ht name v hv).mono (.refl H) hgrows)
    · exact .inl (.variable hv)
  | field hv => exact .inl (.field hv)
  | element he hv => exact .inl (.element he hv)

/-- A variable is never called `this` or `super`. -/
theorem Precedes.put (m : Machine) {name : Name} (hname : name.Plain) (scope : Nat) (v : Value) :
    m.Precedes stored { m with scopes := m.scopes.put scope name.text v } where
  nextId := Nat.le_refl _
  fields := Nat.le_refl _
  hidden other key u hkey hu := by
    have hne : key ≠ name.text := by
      rcases hkey with rfl | rfl
      · exact hname.ne_this.symm
      · exact hname.ne_super.symm
    rwa [Scopes.value?_put, if_neg fun h => hne h.2.1]
  environment := rfl
  distances := rfl
  kept _ _ := .inl rfl

theorem Born.put (hb : m.Born H) {name : Name} (hname : name.Plain) (scope : Nat) {v : Value}
    (hv : ValueBorn H m v) : Born { m with scopes := m.scopes.put scope name.text v } H := by
  have hp : m.Precedes (fun _ _ _ => True) { m with scopes := m.scopes.put scope name.text v } :=
    .put m hname scope v
  have hgrows := hp.toGrows
  refine hb.later (.refl H) hgrows fun u hu => ?_
  cases hu with
  | «variable» hu =>
    rw [Scopes.value?_put] at hu
    split at hu
    · cases hu
      exact .inr (hv.mono (.refl H) hgrows)
    · exact .inl (.variable hu)
  | field hu => exact .inl (.field hu)
  | element he hu => exact .inl (.element he hu)

/-- An object has no fields at first. -/
theorem field?_push (m : Machine) (id : Nat) (name : String) :
    field? { m with fields := m.fields.push .empty } id name = m.field? id name := by
  unfold field?
  rw [Array.getElem?_push]
  split
  · rename_i he
    rw [he, Array.getElem?_eq_none (Nat.le_refl _)]
    rfl
  · rfl

theorem Precedes.newInstance (m : Machine) :
    m.Precedes stored { m with fields := m.fields.push .empty } where
  nextId := Nat.le_refl _
  fields := by
    rw [Array.size_push]
    exact Nat.le_succ _
  hidden _ _ _ _ hv := hv
  environment := rfl
  distances := rfl
  kept id name := .inl (field?_push m id name)

theorem Born.newInstance (hb : m.Born H) : Born { m with fields := m.fields.push .empty } H := by
  have hp : m.Precedes (fun _ _ _ => True) { m with fields := m.fields.push .empty } :=
    .newInstance m
  have hgrows := hp.toGrows
  refine hb.later (.refl H) hgrows fun v hv => .inl ?_
  cases hv with
  | «variable» hv => exact .variable hv
  | @field id name hv =>
    rw [field?_push] at hv
    exact .field hv
  | element he hv => exact .element he hv

/-- A field that is set is set on its instance, under its name, and nowhere else. -/
theorem field?_set (m : Machine) (id other : Nat) (name key : String) (v : Value) :
    field? { m with fields := m.fields.modify id (·.insert name v) } other key =
      if other = id ∧ key = name ∧ id < m.fields.size then some v else m.field? other key := by
  unfold field?
  rw [Array.getElem?_modify]
  by_cases ho : id = other
  · subst ho
    by_cases hi : id < m.fields.size
    · by_cases hk : key = name <;> simp [hi, hk]
    · simp [hi]
  · simp [ho, Ne.symm ho]

theorem Precedes.setField (m : Machine) {id : Nat} {name : String} {v : Value}
    (hs : stored id name v) :
    m.Precedes stored { m with fields := m.fields.modify id (·.insert name v) } where
  nextId := Nat.le_refl _
  fields := Nat.le_of_eq Array.size_modify.symm
  hidden _ _ _ _ hv := hv
  environment := rfl
  distances := rfl
  kept other key := by
    rw [field?_set]
    split
    · rename_i h
      exact .inr ⟨v, by rw [h.1, h.2.1]; exact hs, rfl⟩
    · exact .inl rfl

theorem Born.setField (hb : m.Born H) {v : Value} (hv : ValueBorn H m v) (id : Nat)
    (name : String) : Born { m with fields := m.fields.modify id (·.insert name v) } H := by
  have hp : m.Precedes (fun _ _ _ => True)
      { m with fields := m.fields.modify id (·.insert name v) } := .setField m trivial
  have hgrows := hp.toGrows
  refine hb.later (.refl H) hgrows fun u hu => ?_
  cases hu with
  | «variable» hu => exact .inl (.variable hu)
  | field hu =>
    rw [field?_set] at hu
    split at hu
    · cases hu
      exact .inr (hv.mono (.refl H) hgrows)
    · exact .inl (.field hu)
  | element he hu => exact .inl (.element he hu)

/-- Arrays whose elements are old values. -/
theorem Precedes.arrays (m : Machine) (arrays : Array (Array Value)) :
    m.Precedes stored { m with arrays := arrays } where
  nextId := Nat.le_refl _
  fields := Nat.le_refl _
  hidden _ _ _ _ hv := hv
  environment := rfl
  distances := rfl
  kept _ _ := .inl rfl

theorem Born.arrays (hb : m.Born H) {arrays : Array (Array Value)}
    (ha : ∀ (array : Nat) (elements : Array Value), arrays[array]? = some elements →
      ∀ v ∈ elements, ValueBorn H m v) : Born { m with arrays := arrays } H := by
  have hp : m.Precedes (fun _ _ _ => True) { m with arrays := arrays } :=
    .arrays m arrays
  have hgrows := hp.toGrows
  refine hb.later (.refl H) hgrows fun v hv => ?_
  cases hv with
  | «variable» hv => exact .inl (.variable hv)
  | field hv => exact .inl (.field hv)
  | element he hv => exact .inr ((ha _ _ he v hv).mono (.refl H) hgrows)

end Machine

/-- What holds of a computation on a machine that holds only values that have come about, however it
ends. -/
structure Eval.Keeps {α : Type} (H : Chronicle) (stored : Nat → String → Value → Prop)
    (Q : Machine → α → Prop) (x : Eval α) (m : Machine) : Prop where
  precedes : m.Precedes stored (Fueled.behind (x m))
  born : (Fueled.behind (x m)).Born H
  gives : ∀ a m₁, x m = .ok a m₁ → Q m₁ a

namespace Eval.Keeps

variable {α β : Type} {x : Eval α} {f : α → Eval β} {Q : Machine → α → Prop}
  {Q' : Machine → β → Prop} {a : α}

theorem pure (hm : m.Born H) (ha : Q m a) : Keeps H stored Q (Pure.pure a : Eval α) m :=
  ⟨.refl m, hm, fun _ _ h => by cases h; exact ha⟩

theorem fail (hm : m.Born H) (d : Diagnostic) : Keeps H stored Q (Fueled.fail d : Eval α) m :=
  ⟨.refl m, hm, fun _ _ h => by cases h⟩

theorem exhausted (hm : m.Born H) : Keeps H stored Q (Fueled.exhausted : Eval α) m :=
  ⟨.refl m, hm, fun _ _ h => by cases h⟩

theorem ofExcept {r : Except Diagnostic α} (hm : m.Born H) (hr : ∀ a, r = .ok a → Q m a) :
    Keeps H stored Q (Eval.ofExcept r) m := by
  cases r with
  | ok a => exact .pure hm (hr a rfl)
  | error d => exact .fail hm d

/-- A step that changes the machine. -/
theorem step {g : Machine → α × Machine} (hp : m.Precedes stored (g m).2) (hb : (g m).2.Born H)
    (hq : Q (g m).2 (g m).1) : Keeps H stored Q (modifyGet g : Eval α) m :=
  ⟨hp, hb, fun _ _ h => by cases h; exact hq⟩

/-- A step that changes nothing that a value can be found in. -/
theorem still {g : Machine → α × Machine} (hm : m.Born H) (h : m.Still (g m).2)
    (hq : Q (g m).2 (g m).1) : Keeps H stored Q (modifyGet g : Eval α) m :=
  .step h.precedes (hm.still h) hq

/-- A computation that looks at the machine. -/
theorem look {g : Machine → Eval β} (h : Keeps H stored Q' (g m) m) :
    Keeps H stored Q' (MonadStateOf.get >>= g) m :=
  ⟨h.precedes, h.born, h.gives⟩

theorem bind (h : Keeps H stored Q x m)
    (hf : ∀ a m₁, x m = .ok a m₁ → m.Precedes stored m₁ → m₁.Born H → Q m₁ a →
      Keeps H stored Q' (f a) m₁) : Keeps H stored Q' (x >>= f) m := by
  obtain ⟨hp, hb, hq⟩ := h
  cases hx : x m with
  | ok a m₁ =>
    rw [hx] at hp hb
    have hf := hf a m₁ hx hp hb (hq a m₁ hx)
    refine ⟨?_, ?_, fun b m₂ h => ?_⟩
    · rw [Fueled.bind_ok hx]
      exact hp.trans hf.precedes
    · rw [Fueled.bind_ok hx]
      exact hf.born
    · rw [Fueled.bind_ok hx] at h
      exact hf.gives b m₂ h
  | error e m₁ =>
    rw [hx] at hp hb
    refine ⟨?_, ?_, fun b m₂ h => ?_⟩
    · rw [Fueled.bind_error hx]
      exact hp
    · rw [Fueled.bind_error hx]
      exact hb
    · rw [Fueled.bind_error hx] at h
      cases h

theorem weaken {Q₁ : Machine → α → Prop} (h : Keeps H stored Q x m)
    (hq : ∀ m₁ a, Q m₁ a → Q₁ m₁ a) : Keeps H stored Q₁ x m :=
  { h with gives := fun a m₁ hx => hq m₁ a (h.gives a m₁ hx) }

end Eval.Keeps

/-- The environment and the calls under way have no part in what has come about. -/
theorem Machine.Grows.inside (m : Machine) (environment : Environment) (depth : Nat) :
    m.Grows (fun _ _ _ => False) { m with environment := environment, depth := depth } :=
  ⟨Nat.le_refl _, Nat.le_refl _, fun _ _ _ _ hv => hv, fun _ _ => .inl rfl⟩

theorem Machine.Born.inside (h : m.Born H) (environment : Environment) (depth : Nat) :
    Machine.Born { m with environment := environment, depth := depth } H := by
  refine h.later (.refl H) (.inside m environment depth) fun v hv => .inl ?_
  cases hv with
  | «variable» hv => exact .variable hv
  | field hv => exact .field hv
  | element he hv => exact .element he hv

namespace Eval

theorem Keeps.within {α : Type} {x : Eval α} {Q : Machine → α → Prop} {environment : Environment}
    (h : Keeps H stored Q x (m.inside environment))
    (hq : ∀ m₁ a, Q m₁ a → Q (m₁.inside m.environment) a) :
    Keeps H stored Q (within environment x) m := by
  obtain ⟨hp, hb, hgives⟩ := h
  cases hx : x (m.inside environment) with
  | ok a m₁ =>
    rw [hx] at hp hb
    have he := within_ok hx
    refine ⟨?_, ?_, fun b m₂ h => ?_⟩
    · rw [he]
      exact { hp with environment := rfl }
    · rw [he]
      exact hb.inside m.environment m₁.depth
    · rw [he] at h
      cases h
      exact hq m₁ a (hgives a m₁ hx)
  | error e m₁ =>
    rw [hx] at hp hb
    have he := within_error hx
    refine ⟨?_, ?_, fun b m₂ h => ?_⟩
    · rw [he]
      exact { hp with environment := rfl }
    · rw [he]
      exact hb.inside m.environment m₁.depth
    · rw [he] at h
      cases h

theorem Keeps.nested {α : Type} {x : Eval α} {Q : Machine → α → Prop}
    (h : Keeps H stored Q x { m with depth := m.depth + 1 })
    (hq : ∀ m₁ depth a, Q m₁ a → Q { m₁ with depth := depth } a) :
    Keeps H stored Q (nested x) m := by
  obtain ⟨hp, hb, hgives⟩ := h
  cases hx : x { m with depth := m.depth + 1 } with
  | ok a m₁ =>
    have hrun : Eval.nested x m = .ok a { m₁ with depth := m₁.depth - 1 } := by
      rw [Eval.nested, hx]
    rw [hx] at hp hb
    refine ⟨?_, ?_, fun b m₂ h => ?_⟩
    · rw [hrun]
      exact { hp with }
    · rw [hrun]
      exact hb.inside m₁.environment (m₁.depth - 1)
    · rw [hrun] at h
      cases h
      exact hq m₁ (m₁.depth - 1) a (hgives a m₁ hx)
  | error e m₁ =>
    have hrun : Eval.nested x m = .error e { m₁ with depth := m₁.depth - 1 } := by
      rw [Eval.nested, hx]
    rw [hx] at hp hb
    refine ⟨?_, ?_, fun b m₂ h => ?_⟩
    · rw [hrun]
      exact { hp with }
    · rw [hrun]
      exact hb.inside m₁.environment (m₁.depth - 1)
    · rw [hrun] at h
      cases h

end Eval

end LoxLang
