import LoxLang.Proofs.Lexical.Agreement
import LoxLang.Proofs.Running.Steadiness

/-!
What opening a scope, binding a name and giving it a value do to a position. A variable that is
declared before it has a value is pending until its initializer has finished.
-/

namespace LoxLang

/-- A name that may be declared. -/
def Declarable (name : String) : Prop :=
  name ≠ "this" ∧ name ≠ "super"

theorem Name.Plain.declarable {n : Name} (h : n.Plain) : Declarable n.text :=
  ⟨h.ne_this, h.ne_super⟩

namespace Enclosed

variable {around around' : Surroundings} {frames : Frames}

theorem of_class (hc : around'.class = around.class) (h : Enclosed around frames) :
    Enclosed around' frames := by
  unfold Enclosed at h ⊢
  rw [hc]
  exact h

theorem bound {name : String} (hn : Declarable name) (initialized : Bool)
    (h : Enclosed around frames) : Enclosed around (frames.bound name initialized) := by
  unfold Enclosed at h ⊢
  rw [Frames.distance?_bound hn.1.symm, Frames.distance?_bound hn.2.symm]
  exact h

theorem enter (h : Enclosed around frames) : Enclosed around (.empty :: frames) := by
  unfold Enclosed at h ⊢
  simp only [Frames.distance?_enter, Option.map_eq_some_iff]
  match hc : around.class, h with
  | .none, _ => trivial
  | .base, h =>
    obtain ⟨d, hd⟩ := h
    exact ⟨d + 1, d, hd, rfl⟩
  | .subclass, h =>
    obtain ⟨d, hd, hs⟩ := h
    exact ⟨d + 1, ⟨d, hd, rfl⟩, d + 1, hs, rfl⟩

/-- The members of a class are inside its scopes. -/
theorem members (around : Surroundings) (frames : Frames) (c : Class) :
    Enclosed (c.inside around) (c.frames frames) := by
  unfold Enclosed Class.inside Class.frames
  cases c.superclass? with
  | none => exact ⟨0, Frames.distance?_within _ _⟩
  | some _ =>
    refine ⟨0, Frames.distance?_within _ _, ?_⟩
    rw [Frames.distance?_within_of_ne (by decide), Frames.distance?_within]
    rfl

end Enclosed

variable {P : Mention → Prop} {D : Distances} {p : Position} {w w' : World} {m m' : Machine}
  {s s' : Lexical.State}

/-- The lexical run in another environment. -/
def Lexical.State.inside (s : Lexical.State) (environment : Environment) : Lexical.State :=
  { s with machine := { s.machine with environment := environment } }

/-- The lexical run with one more cell, not yet in its environment. -/
def Lexical.State.added (s : Lexical.State) (name : String) (value? : Option Value) :
    Lexical.State :=
  { s with cells := s.cells.push ⟨name, value?⟩ }

theorem Linked.inside (h : Linked P D w m s) (environment cells : Environment) :
    Linked P D w (m.inside environment) (s.inside cells) :=
  ⟨h.distances, h.cells, h.objects.later w.le_refl rfl rfl rfl rfl, { h.shared with }⟩

namespace Stands

/-- A position is kept by what happens elsewhere in the same world. -/
theorem here (h : Stands P D p w m s) (hl : Linked P D w m' s')
    (he : m'.environment = m.environment)
    (hc : s'.machine.environment = s.machine.environment) : Stands P D p w m' s' :=
  h.later ⟨hl, h.pending⟩ (.refl (fun _ => False) w) id he hc

theorem scope_lt (h : Stands P D p w m s) : p.scope < w.scopes := by
  apply h.matched.lt_scopes h.linked.cells.positive
  have hi := h.innermost
  cases he : m.environment with
  | nil => simp [he] at hi
  | cons n _ => simp_all

/-- The innermost scope of a position inside blocks. -/
theorem inner (h : Stands P D p w m s) {frame : Table Bool} {outer : Frames}
    (hf : p.frames = frame :: outer) :
    0 < p.scope ∧ ∃ environment, m.environment = p.scope :: environment := by
  have hm := h.matched
  have hi := h.innermost
  rw [hf] at hm
  generalize m.environment = environment at hm hi
  generalize s.machine.environment = cells at hm
  cases hm with
  | scope hp _ _ _ =>
    obtain rfl := Option.some.inj hi
    exact ⟨hp, _, rfl⟩

/-- The environment outside all blocks. -/
theorem outer (h : Stands P D p w m s) (hf : p.frames = []) :
    p.scope = 0 ∧ m.environment = globalEnvironment ∧ s.machine.environment = [] := by
  have hm := h.matched
  have hi := h.innermost
  rw [hf] at hm
  generalize m.environment = environment at hm hi
  generalize s.machine.environment = cells at hm
  cases hm with
  | globals => exact ⟨(Option.some.inj hi).symm, rfl, rfl⟩

theorem absent (h : Stands P D p w m s) {name : String}
    (hn : ¬ p.frames.head?.any (·.contains name) = true) : w.Absent p.scope name :=
  fun i b hb hs hbn => hn (hbn ▸ h.current i b hb hs)

/-- A new scope inside any environment. -/
theorem entered (around : Surroundings) {frames : Frames} {environment cells : Environment}
    {pending : List (Nat × String)} (hl : Linked P D w m s) (hp : w.Pending pending)
    (hm : Matches w frames environment cells) (he : Enclosed around frames) :
    Stands P D ⟨around, .empty :: frames, w.scopes, pending⟩ w.opened
      ({ m with scopes := m.scopes.push .empty }.inside (w.scopes :: environment))
      (s.inside cells) where
  linked := ⟨hl.distances, hl.cells.opened, hl.objects.later World.le_opened rfl rfl rfl rfl,
    { hl.shared with }⟩
  matched := hm.opened hl.cells.positive
  enclosed := he.enter
  innermost := rfl
  current i b hb hs := (hl.cells.absent_next b.name i b hb hs rfl).elim
  pending := hp

/-- A name of the innermost scope gets a cell. Where it has no value, it is pending. -/
theorem added (h : Stands P D p w m s) (scopes : Scopes) (value? : Option Value)
    {frame : Table Bool} {outer : Frames} {name : String} {value'? : Option Value}
    (hf : p.frames = frame :: outer)
    (hn : ¬ p.frames.head?.any (·.contains name) = true)
    (hr : Option.Rel (ValueRelated P w) value? value'?)
    (he : Enclosed p.around (p.frames.bound name value'?.isSome))
    (hthis : name = "this" → ∃ i, value'? = some (.instance i))
    (hsuper : name = "super" → ∃ c, value'? = some (.callable (.class c)))
    (hnext : scopes.next = m.scopes.next)
    (hv : ∀ n key, scopes.value? n key =
      if n = p.scope ∧ key = name then value? else m.scopes.value? n key) :
    Stands P D
      { p with
        frames := p.frames.bound name value'?.isSome
        pending := if value'?.isSome then p.pending else (p.scope, name) :: p.pending }
      (w.added ⟨p.scope, name, value'?.isSome⟩) { m with scopes := scopes }
      ((s.added name value'?).inside (s.cells.size :: s.machine.environment)) := by
  have hpos := (h.inner hf).1
  have hkept : Kept P w scopes value'? ⟨p.scope, name, value'?.isSome⟩ := by
    refine ⟨hpos, h.scope_lt, rfl, ?_, hthis, hsuper⟩
    rw [hv, if_pos ⟨rfl, rfl⟩]
    exact hr
  have hle : w ≤ w.added ⟨p.scope, name, value'?.isSome⟩ := World.le_added _
  constructor
  · refine ⟨h.linked.distances, ?_, h.linked.objects.later hle rfl rfl rfl rfl,
      { h.linked.shared with }⟩
    exact h.linked.cells.added (h.absent hn) hkept hnext hv
  · obtain ⟨environment, henv⟩ := (h.inner hf).2
    have hm := h.matched
    rw [hf, henv] at hm
    have hb := hm.bound (b := ⟨p.scope, name, value'?.isSome⟩) rfl id
    rw [← hf, ← h.linked.cells.size] at hb
    show Matches _ _ m.environment _
    rw [henv]
    exact hb
  · exact he
  · exact h.innermost
  · intro i b hb hs
    rw [hf]
    simp only [Frames.bound, List.head?_cons, Option.any_some, Table.contains,
      Table.find?_insert]
    split
    · rfl
    · rename_i hne
      rcases World.getElem?_added.mp hb with hb | ⟨-, rfl⟩
      · simpa [hf, Table.contains] using h.current i b hb hs
      · exact (hne rfl).elim
  · intro scope key
    rw [World.unset_added, h.pending scope key]
    cases value'? with
    | some _ => simp
    | none => simp [eq_comm, or_comm]

/-- A name of the innermost scope gets a cell with a value. -/
theorem bound (h : Stands P D p w m s) {frame : Table Bool} {outer : Frames} {name : String}
    {v v' : Value} (hf : p.frames = frame :: outer)
    (hn : ¬ p.frames.head?.any (·.contains name) = true) (hr : ValueRelated P w v v')
    (he : Enclosed p.around (p.frames.bound name true))
    (hthis : name = "this" → ∃ i, v' = .instance i)
    (hsuper : name = "super" → ∃ c, v' = .callable (.class c)) :
    Stands P D { p with frames := p.frames.bound name true }
      (w.added ⟨p.scope, name, true⟩) { m with scopes := m.scopes.put p.scope name v }
      ((s.added name (some v')).inside (s.cells.size :: s.machine.environment)) := by
  refine h.added _ (some v) hf hn (.some hr) he (fun hn => ?_) (fun hn => ?_)
    (Scopes.next_put _ _ _ _) fun n key => ?_
  · obtain ⟨i, hi⟩ := hthis hn
    exact ⟨i, congrArg some hi⟩
  · obtain ⟨c, hc⟩ := hsuper hn
    exact ⟨c, congrArg some hc⟩
  · rw [Scopes.value?_put, h.linked.cells.next]
    simp only [h.scope_lt, and_true]

/-- A name of the innermost scope gets a cell without a value. -/
theorem declared (h : Stands P D p w m s) {frame : Table Bool} {outer : Frames} {name : String}
    (hf : p.frames = frame :: outer)
    (hn : ¬ p.frames.head?.any (·.contains name) = true) (hname : Declarable name) :
    Stands P D
      { p with
        frames := p.frames.bound name false
        pending := (p.scope, name) :: p.pending }
      (w.added ⟨p.scope, name, false⟩) m
      ((s.added name none).inside (s.cells.size :: s.machine.environment)) := by
  refine h.added m.scopes none hf hn .none (h.enclosed.bound hname false)
    (fun he => (hname.1 he).elim) (fun he => (hname.2 he).elim) rfl fun n key => ?_
  split
  · rename_i he
    rw [he.1, he.2]
    exact h.linked.cells.value?_of_absent (h.inner hf).1 (h.absent hn)
  · rfl

/-- With the value of its cell, a name of the innermost scope is bound. -/
theorem matched_filled (h : Stands P D p w m s) {frame : Table Bool} {outer : Frames}
    {name : String} {cell : Nat} {isSet : Bool} (hf : p.frames = frame :: outer)
    (hc : frame.contains name = true)
    (hb : w.bindings[cell]? = some ⟨p.scope, name, isSet⟩) :
    Matches (w.filled cell) (p.frames.bound name true) m.environment s.machine.environment := by
  have hle : w ≤ w.filled cell := World.le_filled cell
  have hb' := (World.getElem?_filled cell).mpr ⟨_, hb, rfl⟩
  simp only [if_true] at hb'
  have hm := h.matched
  obtain ⟨environment, henv⟩ := (h.inner hf).2
  rw [hf, henv] at hm ⊢
  generalize s.machine.environment = cells at hm ⊢
  cases hm with
  | scope hp hn hh ho =>
    obtain ⟨flag, hflag⟩ := Option.isSome_iff_exists.mp hc
    obtain ⟨i, hi, b, hbi, hbn, -⟩ := hh.bound name flag hflag
    obtain ⟨b', hbi', hbs, -⟩ := hh.within i hi
    rw [hbi] at hbi'
    cases hbi'
    obtain rfl : i = cell := h.linked.cells.distinct i cell b _ hbi hb hbs hbn
    exact .scope hp hn ((hh.mono hle).rebind hi hb' rfl rfl) (ho.mono hle)

/-- A pending variable of the innermost scope gets its value. -/
theorem filled (h : Stands P D p w m s) {frame : Table Bool} {outer : Frames} {name : String}
    {cell : Nat} {isSet : Bool} {pending : List (Nat × String)} {v v' : Value}
    (hf : p.frames = frame :: outer) (hc : frame.contains name = true) (hname : Declarable name)
    (hb : w.bindings[cell]? = some ⟨p.scope, name, isSet⟩)
    (hp : p.pending = (p.scope, name) :: pending) (hnew : (p.scope, name) ∉ pending)
    (hr : ValueRelated P (w.filled cell) v v') :
    Stands P D { p with frames := p.frames.bound name true, pending := pending }
      (w.filled cell) { m with scopes := m.scopes.put p.scope name v }
      { s with cells := s.cells.modify cell fun c => { c with value? := some v' } } := by
  constructor
  · exact ⟨h.linked.distances, h.linked.cells.filled hb hname hr,
      h.linked.objects.later (World.le_filled cell) rfl rfl rfl rfl, { h.linked.shared with }⟩
  · exact h.matched_filled hf hc hb
  · exact h.enclosed.bound hname true
  · exact h.innermost
  · intro i b hbi hs
    obtain ⟨b₀, hb₀, rfl⟩ := (World.getElem?_filled _).mp hbi
    have hs₀ : b₀.scope = p.scope := by
      rw [← hs]
      split <;> rfl
    have hn₀ : (if i = cell then { b₀ with isSet := true } else b₀).name = b₀.name := by
      split <;> rfl
    have hold := h.current i b₀ hb₀ hs₀
    rw [hf] at hold
    rw [hf, hn₀]
    simp only [Frames.bound, List.head?_cons, Option.any_some, Table.contains,
      Table.find?_insert] at hold ⊢
    split
    · rfl
    · exact hold
  · intro scope key
    rw [World.unset_filled h.linked.cells.distinct hb, h.pending scope key, hp]
    simp only [List.mem_cons, Prod.mk.injEq]
    constructor
    · intro ho
      exact ho.1.resolve_left ho.2
    · intro hk
      refine ⟨.inr hk, fun he => hnew ?_⟩
      rw [← he.1, ← he.2]
      exact hk

/-- A global gets its value. -/
theorem putGlobal (h : Stands P D p w m s) (name : String) {v v' : Value}
    (hr : ValueRelated P w v v') :
    Stands P D p w { m with scopes := m.scopes.put 0 name v }
      { s with machine := { s.machine with scopes := s.machine.scopes.put 0 name v' } } := by
  exact h.here ⟨h.linked.distances, h.linked.cells.putGlobal name hr,
    h.linked.objects.later w.le_refl rfl rfl rfl rfl, { h.linked.shared with }⟩ rfl rfl

/-- A scope with one name, opened inside any environment. The position itself is kept. -/
theorem enclosing (h : Stands P D p w m s) (name : String) {frames : Frames}
    {environment cells : Environment} (hm : Matches w frames environment cells) {v v' : Value}
    (hr : ValueRelated P w v v') (hthis : name = "this" → ∃ i, v' = .instance i)
    (hsuper : name = "super" → ∃ c, v' = .callable (.class c)) :
    ∃ w', World.Grows (· = w.scopes) w w' ∧
      Matches w' (frames.within name) (m.scopes.next :: environment) (s.cells.size :: cells) ∧
      Stands P D p w' { m with scopes := m.scopes.push (Table.empty.insert name v) }
        (s.added name (some v')) := by
  have hq := Stands.entered .top h.linked h.pending hm trivial
  have hb := hq.bound (show _ = Table.empty :: frames from rfl) (by simp [Table.contains])
    (hr.mono (fun _ => id) World.le_opened) trivial hthis hsuper
  have hput := Scopes.put_push m.scopes .empty name v
  have hnext := h.linked.cells.next
  have hgrows : World.Grows (· = w.scopes) w (w.opened.added ⟨w.scopes, name, true⟩) :=
    (World.grows_opened _).trans (World.grows_added rfl)
  have hl := hb.linked.inside m.environment s.machine.environment
  refine ⟨_, hgrows, ?_, h.later ⟨?_, hb.pending⟩ hgrows (Nat.ne_of_lt h.scope_lt) rfl rfl⟩
  · rw [hnext]
    exact hb.matched
  · rw [← hput, hnext]
    exact hl

end Stands

/-- Puts variables into a scope one by one. -/
def Scopes.putAll (scopes : Scopes) (scope : Nat) (pairs : List (Name × Value)) : Scopes :=
  pairs.foldl (fun s (name, value) => s.put scope name.text value) scopes

theorem Scopes.putAll_push (scopes : Scopes) (pairs : List (Name × Value)) (table : Table Value) :
    (scopes.push table).putAll scopes.next pairs =
      scopes.push (pairs.foldl (fun t (name, value) => t.insert name.text value) table) := by
  induction pairs generalizing table with
  | nil => rfl
  | cons pair pairs ih =>
    obtain ⟨name, value⟩ := pair
    have ih := ih (table.insert name.text value)
    rw [← Scopes.put_push] at ih
    exact ih

/-- Every parameter gets a cell in the scope of the call. -/
theorem Stands.parameters {around : Surroundings} (parameters : List Name)
    (arguments arguments' : List Value) {frame : Table Bool} {outer : Frames}
    (h : Stands P D p w m s) (hf : p.frames = frame :: outer)
    (ha : List.Forall₂ (ValueRelated P w) arguments arguments')
    (hlength : arguments.length = parameters.length) (hplain : ∀ q ∈ parameters, q.Plain)
    (hallowed : ∀ q ∈ parameterMentions around p.frames parameters, q.Allowed) :
    ∃ w' cells environment,
      (∀ machine, Lexical.extended s.machine.environment
        ((parameters.map Name.text).zip arguments') ⟨machine, s.cells⟩ =
          .ok environment ⟨machine, cells⟩) ∧
      World.Grows (· = p.scope) w w' ∧
      Stands P D
        { p with frames := parameters.foldl (fun frames q => frames.introduced q.text) p.frames } w'
        { m with scopes := m.scopes.putAll p.scope (parameters.zip arguments) }
        (Lexical.State.inside ⟨s.machine, cells⟩ environment) := by
  induction parameters generalizing p w m s arguments arguments' frame outer with
  | nil => exact ⟨w, s.cells, s.machine.environment, fun _ => rfl, .refl _ w, h⟩
  | cons q qs ih =>
    match arguments, arguments', ha with
    | v :: vs, v' :: vs', .cons hv hvs =>
      have hq := hplain q List.mem_cons_self
      have hn : ¬ p.frames.head?.any (·.contains q.text) = true :=
        hallowed ⟨.declare q, around, p.frames⟩ List.mem_cons_self
      have hb := h.bound hf hn hv (h.enclosed.bound hq.declarable true)
        (fun he => (hq.ne_this he).elim)
        (fun he => (hq.ne_super he).elim)
      have hle : w ≤ w.added ⟨p.scope, q.text, true⟩ := World.le_added _
      have hgrows : World.Grows (· = p.scope) w (w.added ⟨p.scope, q.text, true⟩) :=
        World.grows_added rfl
      have hi : p.frames.introduced q.text = p.frames.bound q.text true :=
        Frames.introduced_eq _ _
      obtain ⟨w', cells, environment, he, hw, hs⟩ := ih vs vs' hb (by rw [hf]; rfl)
        (hvs.imp fun _ _ => ValueRelated.mono (fun _ => id) hle) (Nat.succ.inj hlength)
        (fun r hr => hplain r (List.mem_cons_of_mem _ hr))
        (fun r hr => hallowed r (List.mem_cons_of_mem _ (hi ▸ hr)))
      refine ⟨w', cells, environment, he, hgrows.trans hw, ?_⟩
      rw [List.foldl_cons, hi]
      exact hs

/-- The world in which what a declaration has made room for has its value. -/
def World.settled (w : World) : Option Nat → World
  | none => w
  | some cell => w.filled cell

/-- Where statements of a position stand. -/
def Position.place (p : Position) : Place :=
  match p.frames with
  | [] => .outside
  | _ :: _ => .inside

/-- The position of the initializer of a variable. -/
def Position.declared (p : Position) (name : String) : Position :=
  { p with
    frames := p.frames.bound name false
    pending := match p.frames with
      | [] => p.pending
      | _ :: _ => (p.scope, name) :: p.pending }

/-- The position behind a declaration. -/
def Position.defined (p : Position) (name : String) : Position :=
  { p with frames := p.frames.introduced name }

/-- What a declaration has made room for: a new cell, or else a global. -/
def Slot (p : Position) (w : World) (name : String) : Option Nat → Prop
  | none => p.frames = []
  | some cell => (∃ frame outer, p.frames = frame :: outer) ∧ (p.scope, name) ∉ p.pending ∧
    ∃ isSet, w.bindings[cell]? = some ⟨p.scope, name, isSet⟩

theorem Slot.mono {name : String} {cell? : Option Nat} (hw : w ≤ w') (h : Slot p w name cell?) :
    Slot p w' name cell? := by
  cases cell? with
  | none => exact h
  | some cell =>
    obtain ⟨hf, hn, isSet, hb⟩ := h
    obtain ⟨⟨scope, key, isSet'⟩, hb', hs, hbn, -⟩ := hw.kept cell _ hb
    dsimp only at hs hbn
    subst hs hbn
    exact ⟨hf, hn, isSet', hb'⟩

namespace Stands

/-- Declaring a name makes room for it. -/
theorem declare (h : Stands P D p w m s) {name : String}
    (hn : ¬ p.frames.head?.any (·.contains name) = true) (hname : Declarable name) :
    ∃ cell? w₁ s₁, Lexical.declare p.place name s = .ok cell? s₁ ∧
      World.Grows (w.Ahead p.scope) w w₁ ∧ Stands P D (p.declared name) w₁ m s₁ ∧
      Slot p w₁ name cell? := by
  unfold Position.place Position.declared
  match hf : p.frames with
  | [] =>
    refine ⟨none, w, s, rfl, .refl _ w, ?_, hf⟩
    rw [← hf]
    obtain ⟨around, frames, scope, pending⟩ := p
    cases hf
    exact h
  | frame :: outer =>
    have hgrows : World.Grows (w.Ahead p.scope) w (w.added ⟨p.scope, name, false⟩) :=
      World.grows_added (.inl rfl)
    refine ⟨some s.cells.size, _, _, rfl, hgrows, ?_, ⟨_, _, hf⟩, ?_, false, ?_⟩
    · have hd := h.declared hf hn hname
      rw [hf] at hd
      exact hd
    · intro hp
      obtain ⟨i, b, hb, hs, hbn, -⟩ := (h.pending _ _).mpr hp
      exact h.absent hn i b hb hs hbn
    · rw [h.linked.cells.size]
      exact World.getElem?_added.mpr (.inr ⟨rfl, rfl⟩)

/-- With its value, a declared name is bound. -/
theorem matched_settled {name : String} {cell? : Option Nat}
    (h : Stands P D (p.declared name) w m s) (hs : Slot p w name cell?) :
    Matches (w.settled cell?) (p.frames.introduced name) m.environment s.machine.environment := by
  cases cell? with
  | none =>
    have hf : p.frames = [] := hs
    have hm := h.matched
    rw [Position.declared, hf] at hm
    rw [hf]
    exact hm
  | some cell =>
    obtain ⟨⟨frame, outer, hf⟩, hnew, isSet, hb⟩ := hs
    have hframes : (p.declared name).frames = frame.insert name false :: outer := by
      simp only [Position.declared, hf, Frames.bound]
    exact h.matched_filled hframes (by simp [Table.contains]) hb

/-- A declared name gets its value. -/
theorem define {S : Nat → Prop} {name : String} {cell? : Option Nat} {v v' : Value}
    (h : Stands P D (p.declared name) w m s) (hs : Slot p w name cell?) (hname : Declarable name)
    (hr : ValueRelated P (w.settled cell?) v v') :
    Agrees P D S w (fun w' _ m' _ s' => Stands P D (p.defined name) w' m' s' ∧
        m'.scopes.value? p.scope name = some v)
      (Eval.define name v m) (Lexical.define cell? name v' s) := by
  have hvalue : (m.scopes.put p.scope name v).value? p.scope name = some v := by
    rw [Scopes.value?_put, h.linked.cells.next]
    exact if_pos ⟨rfl, rfl, h.scope_lt⟩
  cases cell? with
  | none =>
    have hf : p.frames = [] := hs
    have hd : p.declared name = p ∧ p.defined name = p := by
      obtain ⟨around, frames, scope, pending⟩ := p
      cases hf
      exact ⟨rfl, rfl⟩
    rw [hd.1] at h
    rw [hd.2]
    have hput := h.putGlobal name hr
    have hdefine : m.scopes.define m.environment name v = m.scopes.put 0 name v := by
      rw [(h.outer hf).2.1]
      rfl
    rw [(h.outer hf).1, ← hdefine] at hvalue
    rw [← hdefine] at hput
    refine ⟨w, .refl S w, hput, ?_⟩
    rw [(h.outer hf).1]
    exact hvalue
  | some cell =>
    obtain ⟨⟨frame, outer, hf⟩, hnew, isSet, hb⟩ := hs
    have hframes : (p.declared name).frames = frame.insert name false :: outer := by
      simp only [Position.declared, hf, Frames.bound]
    have hpending : (p.declared name).pending = (p.scope, name) :: p.pending := by
      simp only [Position.declared, hf]
    have hfilled := h.filled hframes (by simp [Table.contains]) hname hb hpending hnew hr
    obtain ⟨environment, henv⟩ := (h.inner hframes).2
    have hdefine : m.scopes.define m.environment name v = m.scopes.put p.scope name v := by
      rw [henv]
      rfl
    rw [← hdefine] at hvalue
    refine ⟨_, World.grows_filled S cell, ?_, hvalue⟩
    show Stands P D (p.defined name) _ { m with scopes := m.scopes.define m.environment name v } _
    rw [hdefine, Position.defined, Frames.introduced]
    exact hfilled

/-- A name that has a value in the innermost scope gets another one. -/
theorem redefine {S : Nat → Prop} {name : Name} {cell? : Option Nat} {v v' : Value}
    (h : Stands P D (p.defined name.text) w m s) (hs : Slot p w name.text cell?)
    (hname : name.Plain) (hv : (m.scopes.value? p.scope name.text).isSome = true)
    (hr : ValueRelated P w v v') :
    Agrees P D S w (fun w' _ m' _ s' => Stands P D (p.defined name.text) w' m' s')
      ((do
        let m ← get
        let scope ← Eval.ofExcept (m.scopes.target m.environment name)
        modify fun m => { m with scopes := m.scopes.put scope name.text v } : Eval Unit) m)
      (Lexical.define cell? name.text v' s) := by
  obtain ⟨outer, henv⟩ : ∃ outer, m.environment = p.scope :: outer := by
    have hi : m.environment.head? = some p.scope := h.innermost
    generalize m.environment = environment at hi
    match environment, hi with
    | _ :: outer, rfl => exact ⟨outer, rfl⟩
  have htarget : m.scopes.target m.environment name = .ok p.scope := by
    simp only [Scopes.target, Scopes.holder?, henv, List.find?_cons, hv]
  show Agrees P D S w _
    ((Eval.ofExcept (m.scopes.target m.environment name) >>= fun scope =>
      modify fun (m : Machine) => { m with scopes := m.scopes.put scope name.text v }) m) _
  simp only [htarget]
  cases cell? with
  | none =>
    have hput := h.putGlobal name.text hr
    have hf : p.frames = [] := hs
    have hscope : p.scope = 0 := (h.outer (by rw [Position.defined, hf]; rfl)).1
    rw [hscope]
    exact ⟨w, .refl S w, hput⟩
  | some cell =>
    obtain ⟨-, -, isSet, hb⟩ := hs
    obtain ⟨value?, hcell, hk⟩ := h.linked.cells.cell cell _ hb
    have hset : isSet = true := by
      refine Eq.trans hk.filled.symm ?_
      have hrel := hk.related
      dsimp only at hrel
      generalize m.scopes.value? p.scope name.text = u at hv hrel
      cases hrel with
      | none => cases hv
      | some _ => rfl
    have hcells := h.linked.cells.filled hb hname.declarable
      (hr.mono (fun _ => id) (World.le_filled cell))
    rw [World.filled_of_isSet hb hset] at hcells
    refine ⟨w, .refl S w, h.here ⟨h.linked.distances, hcells, ?_, { h.linked.shared with }⟩ rfl rfl⟩
    exact h.linked.objects.later w.le_refl rfl rfl rfl rfl

end Stands

end LoxLang
