import LoxLang.Proofs.Classes.Provenance

/-!
The chain of a class. A look-up goes along it to the nearest class that declares a member, and in a
class the last declaration counts. A class is newer than every class behind it, so that the chain
comes back to no class.
-/

namespace LoxLang

/-- A class value with the classes that it inherits from, the nearest first. -/
def ClassValue.chain : ClassValue → List ClassValue
  | ⟨id, name, none, members⟩ => [⟨id, name, none, members⟩]
  | ⟨id, name, some superclass, members⟩ => ⟨id, name, some superclass, members⟩ :: superclass.chain

theorem ClassValue.method?_eq_findSome? (key : String) : (c : ClassValue) →
    c.method? key = c.chain.findSome? (·.members.find? key)
  | ⟨_, _, none, members⟩ => by
    rw [method?, chain, List.findSome?_cons]
    cases members.find? key <;> rfl
  | ⟨_, _, some superclass, members⟩ => by
    rw [method?, chain, List.findSome?_cons]
    cases members.find? key with
    | some member => rfl
    | none => exact method?_eq_findSome? key superclass

/-- A class value, its declaration, and the machine in which that was executed. -/
structure Generation where
  value : ClassValue
  declaration : Class
  machine : Machine

namespace Generation

/-- The environment of the members. -/
def environment (g : Generation) : Environment :=
  g.machine.memberEnvironment g.value.superclass?

/-- The last method of a name in the declaration. -/
def method? (g : Generation) (name : String) : Option Closure :=
  (lastNamed name g.declaration.methods).map fun f =>
    ⟨f, g.environment, f.methodKind = .initializer⟩

/-- The last getter of a name in the declaration. -/
def getter? (g : Generation) (name : String) : Option Closure :=
  (lastNamed name g.declaration.getters).map fun f => ⟨f, g.environment, false⟩

end Generation

/-- The declarations of the classes in the chain of a class value, the nearest first. -/
structure Ancestry (H : Chronicle) (c : ClassValue) (gs : List Generation) : Prop where
  chain : gs.map (·.value) = c.chain
  made : ∀ g ∈ gs, g.declaration.Made H g.machine g.value
  formed : ∀ g ∈ gs, g.declaration.Formed
  newer : (gs.map (·.value.id)).Pairwise (· > ·)

variable {H : Chronicle} {m : Machine} {c : ClassValue} {gs : List Generation}

/-- Every class value has finitely many ancestors, each older than the ones before. -/
theorem ClassBorn.exists_ancestry (h : ClassBorn H m c) : ∃ gs, Ancestry H c gs := by
  induction h with
  | @mk c d m₀ h _ ih =>
    obtain ⟨id, name, superclass?, members⟩ := c
    cases superclass? with
    | none =>
      exact ⟨[⟨_, d, m₀⟩], rfl, List.forall_mem_singleton.mpr h.made,
        List.forall_mem_singleton.mpr h.settled.1, List.pairwise_singleton _ _⟩
    | some s =>
      obtain ⟨gs, hchain, hmade, hformed, hnewer⟩ := ih s rfl
      refine ⟨⟨_, d, m₀⟩ :: gs, ?_, List.forall_mem_cons.mpr ⟨h.made, hmade⟩,
        List.forall_mem_cons.mpr ⟨h.settled.1, hformed⟩, ?_⟩
      · rw [List.map_cons, hchain, ClassValue.chain]
      · have holder : s.id < id := h.older s rfl
        obtain ⟨ids, hids⟩ : ∃ ids, gs.map (·.value.id) = s.id :: ids := by
          have hmap : gs.map (·.value.id) = s.chain.map (·.id) := by
            rw [← hchain, List.map_map]
            rfl
          obtain ⟨_, _, s?, _⟩ := s
          cases s? with
          | none => exact ⟨_, hmap⟩
          | some s' => exact ⟨_, hmap⟩
        rw [List.map_cons, hids]
        rw [hids] at hnewer
        refine List.pairwise_cons.mpr ⟨fun other hother => ?_, hnewer⟩
        rcases List.mem_cons.mp hother with rfl | hother
        · exact holder
        · exact Nat.lt_trans (List.rel_of_pairwise_cons hnewer hother) holder

namespace Ancestry

variable {name : String}

/-- A look-up in the tables of the classes, where it agrees with another on each of them. -/
theorem findSome? (h : Ancestry H c gs) {key : String} {f : Generation → Option Closure}
    (hf : ∀ g ∈ gs, g.value.members.find? key = f g) : c.method? key = gs.findSome? f := by
  rw [ClassValue.method?_eq_findSome?, ← h.chain, List.findSome?_map]
  clear h
  induction gs with
  | nil => rfl
  | cons g gs ih =>
    obtain ⟨hg, hgs⟩ := List.forall_mem_cons.mp hf
    rw [List.findSome?_cons, List.findSome?_cons, ← hg, ih hgs]
    rfl

/-- A method is the last one of its name in the nearest class that declares one. -/
theorem method? (h : Ancestry H c gs) (hname : ' ' ∉ name.toList) :
    c.method? name = gs.findSome? (·.method? name) := by
  refine h.findSome? fun g hg => ?_
  rw [(h.made g hg).members]
  exact find?_memberTable_method _ hname

/-- A getter is the last one of its name in the nearest class that declares one. -/
theorem getter? (h : Ancestry H c gs) : c.getter? name = gs.findSome? (·.getter? name) := by
  refine h.findSome? fun g hg => ?_
  have hmethods : ∀ f ∈ g.declaration.methods, f.Named := by
    have hformed := h.formed g hg
    generalize g.declaration = d at hformed
    obtain ⟨name, superclass?, methods, getters⟩ := d
    exact hformed.2.1.2
  rw [(h.made g hg).members]
  exact find?_memberTable_getter _ hmethods

end Ancestry

end LoxLang
