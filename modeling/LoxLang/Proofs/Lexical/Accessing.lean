import LoxLang.Proofs.Lexical.Declaring
import LoxLang.Proofs.Lexical.Objects

/-!
Reading and assigning to variables. A name that the analysis has placed is found in a machine
where the lexical run finds its cell, and an access fails on both sides if the cell has no value.
-/

namespace LoxLang

variable {P : Mention → Prop} {D : Distances} {p : Position} {w : World} {m : Machine}
  {s : Lexical.State} {α β : Type}

/-- The cell that a name stands for, and the variable that is found at its distance. -/
structure Located (P : Mention → Prop) (w : World) (m : Machine) (s : Lexical.State)
    (frames : Frames) (environment : Environment) (name : String) (distance cell : Nat)
    (b : Binding) (value? : Option Value) : Prop
    extends Matches.Found w frames environment name distance cell b where
  cell : s.cells[cell]? = some ⟨name, value?⟩
  kept : Kept P w m.scopes value? b

/-- A local name is located, and a global one has neither a distance nor a cell. -/
theorem Linked.lookup (h : Linked P D w m s) {frames : Frames} {environment cells : Environment}
    (hm : Matches w frames environment cells) (name : String) :
    (Scoping.distance? name frames = none ∧ s.cell? cells name = none) ∨
      ∃ distance cell b value?, s.cell? cells name = some cell ∧
        Located P w m s frames environment name distance cell b value? := by
  have hcell := h.cells.cell?_eq cells name
  rcases hm.lookup h.cells.distinct name with ⟨hnone, hcells⟩ | ⟨d, cell, b, hcells, hfound⟩
  · exact .inl ⟨hnone, hcell.trans hcells⟩
  · obtain ⟨value?, hc, hk⟩ := h.cells.cell cell b hfound.binding
    exact .inr ⟨d, cell, b, value?, hcell.trans hcells, hfound, hfound.named ▸ hc, hk⟩


/-- An access to a variable at its distance goes on if its cell has a value, as the access to the
cell does. -/
theorem Located.access (name : Name) {frames : Frames} {environment : Environment}
    {distance cell : Nat} {b : Binding} {value? : Option Value}
    (h : Located P w m s frames environment name.text distance cell b value?) :
    (∃ v v', value? = some v' ∧ ValueRelated P w v v' ∧
      m.scopes.readAt environment distance name = .ok v ∧
      m.scopes.targetAt environment distance name = .ok b.scope ∧
      Lexical.valueOf cell name s = .ok v' s) ∨
    (value? = none ∧
      m.scopes.readAt environment distance name =
        .error (.runtime name.line (.misplacedVariable name.text)) ∧
      m.scopes.targetAt environment distance name =
        .error (.runtime name.line (.misplacedVariable name.text)) ∧
      Lexical.valueOf cell name s =
        .error (.failed (.runtime name.line (.misplacedVariable name.text))) s) := by
  have hr := h.kept.related
  rw [h.named] at hr
  unfold Scopes.readAt Scopes.targetAt Scopes.findAt? Scopes.holderAt?
  rw [Lexical.valueOf, Fueled.bind_get, h.cell, h.held, Option.bind_some, Option.bind_some,
    Option.filter_some]
  generalize m.scopes.value? b.scope name.text = found at hr
  cases hr with
  | none => exact .inr ⟨rfl, rfl, rfl, rfl⟩
  | some hr => exact .inl ⟨_, _, rfl, hr, rfl, rfl, rfl⟩

namespace Eval

variable {id d : Nat}

theorem readVariable_eq_readAt (name : Name) (hd : m.distances.find? id = some d) :
    readVariable id name m = ofExcept (m.scopes.readAt m.environment d name) m := by
  rw [readVariable, Fueled.bind_get, hd]

theorem readVariable_eq_read (name : Name) (hd : m.distances.find? id = none) :
    readVariable id name m = ofExcept (m.scopes.read globalEnvironment name) m := by
  rw [readVariable, Fueled.bind_get, hd]

theorem targetOf_eq_targetAt {o : Occurrence} (hd : m.distances.find? o.id = some d) :
    targetOf o m = ofExcept (m.scopes.targetAt m.environment d o.name) m := by
  rw [targetOf, Fueled.bind_get, hd]

theorem targetOf_eq_target {o : Occurrence} (hd : m.distances.find? o.id = none) :
    targetOf o m = ofExcept (m.scopes.target globalEnvironment o.name) m := by
  rw [targetOf, Fueled.bind_get, hd]

/-- The instance of a method stands one scope in front of the superclass. -/
theorem superOf_eq {line : Nat} {c : ClassValue} {i : Instance}
    (hd : m.distances.find? id = some (d + 1))
    (hc : m.scopes.readAt m.environment (d + 1) ⟨"super", line⟩ = .ok (.callable (.class c)))
    (hi : m.scopes.readAt m.environment d ⟨"this", line⟩ = .ok (.instance i)) :
    superOf id line m = .ok (c, i) m := by
  rw [superOf, Fueled.bind_get, hd]
  simp only [hc, hi]
  rfl

end Eval

namespace Lexical

variable {name : Name} {cell : Nat}

theorem readVariable_eq_valueOf (hc : s.cell? s.machine.environment name.text = some cell) :
    readVariable name s = valueOf cell name s := by
  rw [readVariable, Fueled.bind_get, hc]

theorem readVariable_eq_read (hc : s.cell? s.machine.environment name.text = none) :
    readVariable name s =
      lift (Eval.ofExcept (s.machine.scopes.read globalEnvironment name)) s := by
  rw [readVariable, Fueled.bind_get, hc]

theorem writeVariable_eq_setCell {value : Value}
    (hc : s.cell? s.machine.environment name.text = some cell) :
    writeVariable name value s = (valueOf cell name >>= fun _ => setCell cell value) s := by
  rw [writeVariable, Fueled.bind_get, hc]

theorem writeVariable_eq_target {value : Value}
    (hc : s.cell? s.machine.environment name.text = none) :
    writeVariable name value s =
      lift (do
        let scope ← Eval.ofExcept (s.machine.scopes.target globalEnvironment name)
        modify fun m => { m with scopes := m.scopes.put scope name.text value }) s := by
  rw [writeVariable, Fueled.bind_get, hc]

end Lexical

/-- The calls under way may be any on both sides, if they are the same. -/
theorem Linked.atDepth (h : Linked P D w m s) {depth depth' : Nat} (hd : depth' = depth) :
    Linked P D w { m with depth := depth }
      { s with machine := { s.machine with depth := depth' } } :=
  ⟨h.distances, h.cells, h.objects.later w.le_refl rfl rfl rfl rfl,
    { h.shared with depth := hd }⟩

/-- A position is kept while one more call is under way. -/
theorem Stands.deeper (h : Stands P D p w m s) : Stands P D p w { m with depth := m.depth + 1 }
    { s with machine := { s.machine with depth := s.machine.depth + 1 } } :=
  h.here (h.linked.atDepth (congrArg (· + 1) h.linked.shared.depth)) rfl rfl

namespace Simulated

variable {V : World → α → β → Prop} {x : Eval α} {y : Lexical β}

/-- What goes on beside each other agrees. -/
theorem lift {y : Eval β} (h : Parallel P w (V w) x y) :
    Simulated P D p p w V x (Lexical.lift y) := by
  intro m s hs
  have hlinked : ∀ m₁ m₁', Beside P w m s.machine m₁ m₁' →
      Linked P D w m₁ { s with machine := m₁' } := by
    intro m₁ m₁' hb
    obtain ⟨ho, hsh, hl, hr⟩ := hb
    refine ⟨hl.distances.trans hs.linked.distances, ?_, ho, hsh⟩
    rw [hl.scopes]
    exact hr.scopes ▸ hs.linked.cells
  rcases (h m s.machine hs.linked.objects hs.linked.shared).cases with
    ⟨a, m₁, b, m₁', hx, hy, hv, hb⟩ | ⟨e, m₁, m₁', hx, hy, hb⟩
  · rw [Lexical.lift, hx, hy]
    exact ⟨w, .refl _ w, hv, hs.here (hlinked m₁ m₁' hb) hb.left.environment hb.right.environment⟩
  · rw [Lexical.lift, hx, hy]
    exact ⟨rfl, w, w.le_refl, hlinked m₁ m₁' hb⟩

/-- One more call is under way on both sides. -/
theorem nested (h : Simulated P D p p w V x y) :
    Simulated P D p p w V (Eval.nested x) (Lexical.nested y) := by
  intro m s hs
  rcases (h _ _ hs.deeper).cases with
    ⟨a, m₁, b, s₁, w₁, hx, hy, hw, hv, hs₁⟩ | ⟨e, m₁, s₁, w₁, hx, hy, hw, hl⟩
  · rw [Eval.nested, Lexical.nested, hx, hy]
    have hdepth := congrArg (· - 1) hs₁.linked.shared.depth
    exact ⟨w₁, hw, hv, hs₁.here (hs₁.linked.atDepth hdepth) rfl rfl⟩
  · rw [Eval.nested, Lexical.nested, hx, hy]
    exact ⟨rfl, w₁, hw, hl.atDepth (congrArg (· - 1) hl.shared.depth)⟩

end Simulated

section

variable (name : Name) {id : Nat}

/-- A name is read as the variable that its mention stands for. -/
theorem readVariable_simulated (hd : D.find? id = Scoping.distance? name.text p.frames) :
    Simulated P D p p w (ValueRelated P) (Eval.readVariable id name)
      (Lexical.readVariable name) := by
  intro m s hs
  rw [← hs.linked.distances] at hd
  rcases hs.linked.lookup hs.matched name.text with
    ⟨hnone, hcell⟩ | ⟨d, cell, b, value?, hcell, hl⟩
  · rw [Eval.readVariable_eq_read name (hd.trans hnone), Lexical.readVariable_eq_read hcell]
    have hg := hs.linked.cells.global name.text
    unfold Scopes.read Scopes.find? globalEnvironment
    simp only [List.findSome?_cons, List.findSome?_nil]
    generalize m.scopes.value? 0 name.text = v at hg
    generalize s.machine.scopes.value? 0 name.text = v' at hg
    cases hg with
    | none => exact ⟨rfl, w, w.le_refl, hs.linked⟩
    | some hv => exact ⟨w, .refl _ w, hv, hs⟩
  · rw [Eval.readVariable_eq_readAt name (hd.trans hl.placed),
      Lexical.readVariable_eq_valueOf hcell]
    rcases hl.access name with ⟨v, v', -, hv, hr, -, hc⟩ | ⟨-, hr, -, hc⟩
    · rw [hr, hc]
      exact ⟨w, .refl _ w, hv, hs⟩
    · rw [hr, hc]
      exact ⟨rfl, w, w.le_refl, hs.linked⟩

/-- An assignment goes to the variable that its mention stands for. -/
theorem writeVariable_simulated (o : Occurrence) {v v' : Value} (hn : Declarable o.name.text)
    (hd : D.find? o.id = Scoping.distance? o.name.text p.frames) (hr : ValueRelated P w v v') :
    Simulated P D p p w (fun _ _ _ => True) (Eval.writeVariable o v)
      (Lexical.writeVariable o.name v') := by
  intro m s hs
  rw [← hs.linked.distances] at hd
  rcases hs.linked.lookup hs.matched o.name.text with
    ⟨hnone, hcell⟩ | ⟨d, cell, b, value?, hcell, hl⟩
  · rw [Eval.writeVariable, Fueled.bind_of_eq (Eval.targetOf_eq_target (hd.trans hnone)),
      Lexical.writeVariable_eq_target hcell]
    have hg := hs.linked.cells.global o.name.text
    unfold Scopes.target Scopes.holder? globalEnvironment
    simp only [List.find?_cons, List.find?_nil]
    generalize m.scopes.value? 0 o.name.text = u at hg
    generalize s.machine.scopes.value? 0 o.name.text = u' at hg
    cases hg with
    | none => exact ⟨rfl, w, w.le_refl, hs.linked⟩
    | some _ => exact ⟨w, .refl _ w, trivial, hs.putGlobal o.name.text hr⟩
  · rw [Eval.writeVariable, Fueled.bind_of_eq (Eval.targetOf_eq_targetAt (hd.trans hl.placed)),
      Lexical.writeVariable_eq_setCell hcell]
    rcases hl.access o.name with ⟨u, u', rfl, -, -, ht, hc⟩ | ⟨-, -, ht, hc⟩
    · rw [ht, Fueled.bind_ok hc]
      have hset : b.isSet = true := hl.kept.filled.symm
      have hcells := hs.linked.cells.filled hl.binding (hl.named ▸ hn)
        (hr.mono (fun _ => id) (World.le_filled cell))
      rw [World.filled_of_isSet hl.binding hset, hl.named] at hcells
      have hlinked : Linked P D w { m with scopes := m.scopes.put b.scope o.name.text v }
          { s with cells := s.cells.modify cell fun c => { c with value? := some v' } } :=
        ⟨hs.linked.distances, hcells, hs.linked.objects.later w.le_refl rfl rfl rfl rfl,
          { hs.linked.shared with }⟩
      exact ⟨w, .refl _ w, trivial, hs.here hlinked rfl rfl⟩
    · rw [ht, Fueled.bind_error hc]
      exact ⟨rfl, w, w.le_refl, hs.linked⟩

end

/-- In a class `this` is located, and is an instance. -/
theorem Located.this {frames : Frames} {environment : Environment} {distance cell : Nat}
    {b : Binding} {value? : Option Value}
    (h : Located P w m s frames environment "this" distance cell b value?) (line : Nat) :
    ∃ i i', InstanceRelated P w i i' ∧
      m.scopes.readAt environment distance ⟨"this", line⟩ = .ok (.instance i) ∧
      Lexical.valueOf cell ⟨"this", line⟩ s = .ok (.instance i') s := by
  obtain ⟨i', hi⟩ := h.kept.this h.named
  subst hi
  rcases Located.access ⟨"this", line⟩ h with ⟨v, v', hv, hr, ha, -, hc⟩ | ⟨hn, -⟩
  · cases hv
    cases hr with
    | «instance» hr => exact ⟨_, i', hr, ha, hc⟩
  · cases hn

/-- In a subclass `super` is located, and is a class. -/
theorem Located.super {frames : Frames} {environment : Environment} {distance cell : Nat}
    {b : Binding} {value? : Option Value}
    (h : Located P w m s frames environment "super" distance cell b value?) (line : Nat) :
    ∃ c c', ClassRelated P w c c' ∧
      m.scopes.readAt environment distance ⟨"super", line⟩ = .ok (.callable (.class c)) ∧
      Lexical.valueOf cell ⟨"super", line⟩ s = .ok (.callable (.class c')) s := by
  obtain ⟨c', hc⟩ := h.kept.super h.named
  subst hc
  rcases Located.access ⟨"super", line⟩ h with ⟨v, v', hv, hr, ha, -, hc⟩ | ⟨hn, -⟩
  · cases hv
    cases hr with
    | callable hr =>
      cases hr with
      | «class» hr => exact ⟨_, c', hr, ha, hc⟩
  · cases hn

/-- A name with a distance is located there. -/
theorem Linked.located (h : Linked P D w m s) {frames : Frames} {environment cells : Environment}
    (hm : Matches w frames environment cells) {name : String} {d : Nat}
    (hd : Scoping.distance? name frames = some d) : ∃ cell b value?,
      s.cell? cells name = some cell ∧
        Located P w m s frames environment name d cell b value? := by
  rcases h.lookup hm name with ⟨hnone, -⟩ | ⟨d', cell, b, value?, hcell, hl⟩
  · rw [hd] at hnone
    cases hnone
  · have hd' := hl.placed
    rw [hd] at hd'
    cases hd'
    exact ⟨cell, b, value?, hcell, hl⟩

/-- A class and an instance that stand for others. -/
def ReceiverRelated (P : Mention → Prop) (w : World) (r r' : ClassValue × Instance) : Prop :=
  ClassRelated P w r.1 r'.1 ∧ InstanceRelated P w r.2 r'.2

theorem superOf_simulated {id line : Nat} (hc : p.around.class = .subclass)
    (hd : D.find? id = Scoping.distance? "super" p.frames) :
    Simulated P D p p w (ReceiverRelated P) (Eval.superOf id line) (Lexical.superOf line) := by
  intro m s hs
  obtain ⟨d, hthis, hsuper⟩ : ∃ d, Scoping.distance? "this" p.frames = some d ∧
      Scoping.distance? "super" p.frames = some (d + 1) := by
    have he := hs.enclosed
    rw [Enclosed, hc] at he
    exact he
  obtain ⟨cell, b, value?, hcell, hl⟩ := hs.linked.located hs.matched hsuper
  obtain ⟨cell', b', value'?, hcell', hl'⟩ := hs.linked.located hs.matched hthis
  obtain ⟨c, c', hclass, hr, hv⟩ := hl.super line
  obtain ⟨i, i', hinstance, hr', hv'⟩ := hl'.this line
  have hread : Lexical.readVariable ⟨"this", line⟩ s = .ok (.instance i') s :=
    (Lexical.readVariable_eq_valueOf hcell').trans hv'
  have heval : Eval.superOf id line m = .ok (c, i) m :=
    Eval.superOf_eq ((hs.linked.distances ▸ hd).trans hsuper) hr hr'
  have hlexical : Lexical.superOf line s = .ok (c', i') s := by
    rw [Lexical.superOf, Fueled.bind_get, hcell]
    simp only [Fueled.bind_ok hv, Fueled.bind_ok hread]
    rfl
  rw [heval, hlexical]
  exact ⟨w, .refl _ w, ⟨hclass, hinstance⟩, hs⟩

/-- Ends of statements that stand for each other. -/
inductive FlowRelated (P : Mention → Prop) (w : World) : Flow → Flow → Prop
  | normal : FlowRelated P w .normal .normal
  | return {v v'} (h : ValueRelated P w v v') : FlowRelated P w (.return v) (.return v')
  | break : FlowRelated P w .break .break
  | continue : FlowRelated P w .continue .continue

theorem resultOf_simulated {c c' : Closure} {flow flow' : Flow} (h : FunctionRelated P w c c')
    (hf : FlowRelated P w flow flow') :
    Simulated P D p p w (ValueRelated P) (Eval.resultOf c flow) (Lexical.resultOf c' flow') := by
  intro m s hs
  unfold Eval.resultOf Lexical.resultOf
  rw [h.isInitializer, h.function]
  cases hi : c.isInitializer with
  | true =>
    obtain ⟨around, kind, frames, hm, -, -, hthis⟩ := h.matched
    obtain ⟨cell, b, value?, hcell, hl⟩ := hs.linked.located hm (hthis hi)
    obtain ⟨i, i', hr, ha, hv⟩ := hl.this c.function.line
    rw [if_pos rfl, if_pos rfl, Fueled.bind_get, Fueled.bind_get, hcell, ha]
    simp only [hv]
    exact ⟨w, .refl _ w, .instance hr, hs⟩
  | false =>
    cases hf with
    | «return» hv => exact ⟨w, .refl _ w, hv, hs⟩
    | _ => exact ⟨w, .refl _ w, .nil, hs⟩

end LoxLang
