import LoxLang.Proofs.Running.Plans

/-!
The tasks that are started in the plan of a task, in order. They are just those that it starts.
-/

namespace LoxLang

namespace Plan

variable {α : Type}

/-- The tasks that are started for a plan, in order. -/
def points (fuel : Nat) : Plan α → Machine → List Point
  | done _, _ => []
  | step p next, m =>
    match p.go m with
    | .ok b m₁ => (next b).points fuel m₁
    | .error _ _ => []
  | start shell t next, m =>
    ⟨fuel, t, shell.enter m⟩ ::
      match shell.around (Eval.perform fuel t) m with
      | .ok r m₁ => (next r).points fuel m₁
      | .error _ _ => []

attribute [local simp] points

variable {fuel : Nat} {m m₁ : Machine} {b : Point}

theorem of_mem_points_step {p : Primitive} {next : p.Result → Plan α}
    (h : b ∈ (step p next).points fuel m) :
    ∃ r m₁, p.go m = .ok r m₁ ∧ b ∈ (next r).points fuel m₁ := by
  rw [points] at h
  split at h
  · exact ⟨_, _, ‹_›, h⟩
  · cases h

theorem of_mem_points_start {shell : Shell} {t : Task} {next : t.Result → Plan α}
    (h : b ∈ (start shell t next).points fuel m) : b = ⟨fuel, t, shell.enter m⟩ ∨
      ∃ r m₁, shell.around (Eval.perform fuel t) m = .ok r m₁ ∧ b ∈ (next r).points fuel m₁ := by
  rw [points] at h
  rcases List.mem_cons.mp h with rfl | h
  · exact .inl rfl
  · split at h
    · exact .inr ⟨_, _, ‹_›, h⟩
    · cases h

theorem of_mem_points_last {t : Task} (h : b ∈ (last t).points fuel m) : b = ⟨fuel, t, m⟩ := by
  rcases of_mem_points_start h with rfl | ⟨r, m₁, -, h⟩
  · rfl
  · cases h

theorem not_mem_points_step_done {p : Primitive} : b ∉ (step p done).points fuel m := by
  intro h
  obtain ⟨r, m₁, -, h⟩ := of_mem_points_step h
  cases h

theorem mem_points_head (shell : Shell) {t : Task} {next : t.Result → Plan α} :
    ⟨fuel, t, shell.enter m⟩ ∈ (start shell t next).points fuel m := by
  simp

theorem mem_points_behind (shell : Shell) {t : Task} {next : t.Result → Plan α} {r : t.Result}
    (h : shell.around (Eval.perform fuel t) m = .ok r m₁) (hb : b ∈ (next r).points fuel m₁) :
    b ∈ (start shell t next).points fuel m := by
  simp [h, hb]

theorem mem_points_next {p : Primitive} {next : p.Result → Plan α} {r : p.Result}
    (h : p.go m = .ok r m₁) (hb : b ∈ (next r).points fuel m₁) :
    b ∈ (step p next).points fuel m := by
  simp [h, hb]

end Plan

/-- The tasks that are started for a task, in order. -/
def Point.children (a : Point) : List Point :=
  match a with
  | ⟨0, _, _⟩ => []
  | ⟨fuel + 1, t, m⟩ => t.plan.points fuel m

section

variable {fuel : Nat} {m : Machine} {b : Point}

open Plan

theorem Expr.starts_of_mem {e : Expr} (h : b ∈ e.plan.points fuel m) :
    Starts ⟨fuel + 1, .evaluate e, m⟩ b := by
  cases e with
  | literal v => cases h
  | group inner =>
    obtain rfl := of_mem_points_last (t := .evaluate inner) h
    exact .group
  | unary op line operand =>
    rcases of_mem_points_start h with rfl | ⟨v, m₁, -, h⟩
    · exact .unary
    · exact (not_mem_points_step_done h).elim
  | binary op line left right =>
    rcases of_mem_points_start h with rfl | ⟨u, m₁, hu, h⟩
    · exact .binaryLeft
    · rcases of_mem_points_start h with rfl | ⟨v, m₂, -, h⟩
      · exact .binaryRight hu
      · exact (not_mem_points_step_done h).elim
  | logical op left right =>
    rcases of_mem_points_start h with rfl | ⟨v, m₁, hv, h⟩
    · exact .logicalLeft
    · split at h
      · cases h
      · rename_i hdecided
        obtain rfl := of_mem_points_last (t := .evaluate right) h
        exact .logicalRight hv (Bool.not_eq_true _ ▸ hdecided)
  | ternary condition thenBranch elseBranch =>
    rcases of_mem_points_start h with rfl | ⟨v, m₁, hv, h⟩
    · exact .question
    · obtain rfl := of_mem_points_last h
      exact .answer hv
  | comma left right =>
    rcases of_mem_points_start h with rfl | ⟨v, m₁, hv, h⟩
    · exact .commaLeft
    · obtain rfl := of_mem_points_last (t := .evaluate right) h
      exact .commaRight hv
  | «variable» o => exact (not_mem_points_step_done h).elim
  | assign o value =>
    rcases of_mem_points_start h with rfl | ⟨v, m₁, -, h⟩
    · exact .assigned
    · obtain ⟨_, _, -, h⟩ := of_mem_points_step h
      cases h
  | call callee line arguments =>
    rcases of_mem_points_start h with rfl | ⟨v, m₁, hv, h⟩
    · exact .callee
    · rcases of_mem_points_start h with rfl | ⟨vs, m₂, hvs, h⟩
      · exact .arguments hv
      · obtain ⟨c, m₃, hc, h⟩ := of_mem_points_step h
        obtain rfl := of_mem_points_last (t := .call c vs line) h
        exact .called hv hvs hc
  | get object name =>
    rcases of_mem_points_start h with rfl | ⟨v, m₁, hv, h⟩
    · exact .object
    · obtain ⟨property, m₂, hp, h⟩ := of_mem_points_step h
      obtain rfl := of_mem_points_last (t := .readProperty property name.line) h
      exact .property hv hp
  | set object name value =>
    rcases of_mem_points_start h with rfl | ⟨v, m₁, hv, h⟩
    · exact .holder
    · obtain ⟨i, m₂, hi, h⟩ := of_mem_points_step h
      rcases of_mem_points_start h with rfl | ⟨u, m₃, -, h⟩
      · exact .stored hv hi
      · obtain ⟨_, _, -, h⟩ := of_mem_points_step h
        cases h
  | this id line => exact (not_mem_points_step_done h).elim
  | super id line method =>
    obtain ⟨receiver, m₁, hr, h⟩ := of_mem_points_step h
    obtain ⟨property, m₂, hp, h⟩ := of_mem_points_step h
    obtain rfl := of_mem_points_last (t := .readProperty property method.line) h
    exact .superProperty hr hp
  | lambda f =>
    obtain ⟨_, _, -, h⟩ := of_mem_points_step h
    cases h

theorem starts_of_mem_planAll {es : List Expr} (h : b ∈ (planAll es).points fuel m) :
    Starts ⟨fuel + 1, .evaluateAll es, m⟩ b := by
  cases es with
  | nil => cases h
  | cons e es =>
    rcases of_mem_points_start h with rfl | ⟨v, m₁, hv, h⟩
    · exact .head
    · rcases of_mem_points_start h with rfl | ⟨vs, m₂, -, h⟩
      · exact .tail hv
      · cases h

theorem Eval.Property.starts_of_mem {property : Eval.Property} {line : Nat}
    (h : b ∈ (property.plan line).points fuel m) :
    Starts ⟨fuel + 1, .readProperty property line, m⟩ b := by
  cases property with
  | value v => cases h
  | getter closure =>
    obtain ⟨c, m₁, hc, h⟩ := of_mem_points_step h
    obtain rfl := of_mem_points_last (t := .call c [] line) h
    exact .getter hc

theorem Callable.starts_of_mem {c : Callable} {vs : List Value} {line : Nat}
    (h : b ∈ (c.plan vs line).points fuel m) : Starts ⟨fuel + 1, .call c vs line, m⟩ b := by
  obtain ⟨_, m₁, hd, h⟩ := of_mem_points_step h
  cases c with
  | function id closure =>
    rcases of_mem_points_start h with rfl | ⟨v, m₂, -, h⟩
    · exact .function hd
    · cases h
  | «class» c =>
    rcases of_mem_points_start h with rfl | ⟨v, m₂, -, h⟩
    · exact .class hd
    · cases h
  | native id n => exact (not_mem_points_step_done h).elim

theorem Closure.starts_of_mem {closure : Closure} {vs : List Value}
    (h : b ∈ (closure.plan vs).points fuel m) : Starts ⟨fuel + 1, .run closure vs, m⟩ b := by
  obtain ⟨environment, m₁, ho, h⟩ := of_mem_points_step h
  rcases of_mem_points_start h with rfl | ⟨flow, m₂, -, h⟩
  · exact .body ho
  · exact (not_mem_points_step_done h).elim

theorem ClassValue.starts_of_mem {c : ClassValue} {vs : List Value}
    (h : b ∈ (c.plan vs).points fuel m) : Starts ⟨fuel + 1, .construct c vs, m⟩ b := by
  obtain ⟨i, m₁, hi, h⟩ := of_mem_points_step h
  cases hm : c.initializer? with
  | none =>
    rw [hm] at h
    cases h
  | some initializer =>
    rw [hm] at h
    obtain ⟨closure, m₂, hb, h⟩ := of_mem_points_step h
    rcases of_mem_points_start h with rfl | ⟨v, m₃, -, h⟩
    · exact .initializer hi hm hb
    · cases h

theorem Stmt.starts_of_mem {s : Stmt} (h : b ∈ s.plan.points fuel m) :
    Starts ⟨fuel + 1, .execute s, m⟩ b := by
  cases s with
  | expression e =>
    rcases of_mem_points_start h with rfl | ⟨v, m₁, -, h⟩
    · exact .expression
    · cases h
  | print e =>
    rcases of_mem_points_start h with rfl | ⟨v, m₁, -, h⟩
    · exact .print
    · obtain ⟨_, _, -, h⟩ := of_mem_points_step h
      cases h
  | var name initializer? =>
    cases initializer? with
    | none =>
      obtain ⟨_, _, -, h⟩ := of_mem_points_step h
      cases h
    | some initializer =>
      rcases of_mem_points_start h with rfl | ⟨v, m₁, -, h⟩
      · exact .var
      · obtain ⟨_, _, -, h⟩ := of_mem_points_step h
        cases h
  | block body =>
    obtain ⟨environment, m₁, ho, h⟩ := of_mem_points_step h
    rcases of_mem_points_start h with rfl | ⟨flow, m₂, -, h⟩
    · exact .block ho
    · cases h
  | «if» condition thenBranch elseBranch? =>
    rcases of_mem_points_start h with rfl | ⟨v, m₁, hv, h⟩
    · exact .condition
    · split at h
      · obtain rfl := of_mem_points_last (t := .execute thenBranch) h
        exact .thenBranch hv ‹_›
      · cases elseBranch? with
        | none => cases h
        | some elseBranch =>
          obtain rfl := of_mem_points_last (t := .execute elseBranch) h
          exact .elseBranch hv (Bool.not_eq_true _ ▸ ‹_›)
  | «while» condition body increment? =>
    obtain rfl := of_mem_points_last (t := .loop condition body increment?) h
    exact .while
  | function f =>
    obtain ⟨_, _, -, h⟩ := of_mem_points_step h
    obtain ⟨_, _, -, h⟩ := of_mem_points_step h
    cases h
  | «class» c =>
    obtain ⟨_, _, -, h⟩ := of_mem_points_step h
    cases h
  | «return» line value? =>
    cases value? with
    | none => cases h
    | some value =>
      rcases of_mem_points_start h with rfl | ⟨v, m₁, -, h⟩
      · exact .result
      · cases h
  | «break» line => cases h
  | «continue» line => cases h

theorem starts_of_mem_loopPlan {condition : Expr} {body : Stmt} {increment? : Option Expr}
    (h : b ∈ (loopPlan condition body increment?).points fuel m) :
    Starts ⟨fuel + 1, .loop condition body increment?, m⟩ b := by
  rcases of_mem_points_start h with rfl | ⟨v, m₁, hv, h⟩
  · exact .test
  · split at h
    · rename_i htrue
      rcases of_mem_points_start h with rfl | ⟨flow, m₂, hb, h⟩
      · exact .turn hv htrue
      · have again (hf : flow = .normal ∨ flow = .continue)
            (h : b ∈ (againPlan condition body increment?).points fuel m₂) :
            Starts ⟨fuel + 1, .loop condition body increment?, m⟩ b := by
          cases increment? with
          | none =>
            obtain rfl := of_mem_points_last (t := .loop condition body none) h
            exact .again hv htrue hb hf
          | some increment =>
            rcases of_mem_points_start h with rfl | ⟨u, m₃, hi, h⟩
            · exact .increment hv htrue hb hf
            · obtain rfl := of_mem_points_last (t := .loop condition body (some increment)) h
              exact .incremented hv htrue hb hf hi
        cases flow with
        | normal => exact again (.inl rfl) h
        | «continue» => exact again (.inr rfl) h
        | «break» => cases h
        | «return» v => cases h
    · cases h

theorem starts_of_mem_stmtsPlan {ss : List Stmt} (h : b ∈ (stmtsPlan ss).points fuel m) :
    Starts ⟨fuel + 1, .executeAll ss, m⟩ b := by
  cases ss with
  | nil => cases h
  | cons s ss =>
    rcases of_mem_points_start h with rfl | ⟨flow, m₁, hx, h⟩
    · exact .first
    · cases flow with
      | normal =>
        obtain rfl := of_mem_points_last (t := .executeAll ss) h
        exact .next hx
      | _ => cases h

end

section

open Plan

theorem Starts.mem_children {a b : Point} (h : Starts a b) : b ∈ a.children := by
  cases h with
  | group | unary | binaryLeft | logicalLeft | question | commaLeft | assigned | callee | object
  | holder | head | expression | print | var | condition | «while» | result | test | first =>
    exact mem_points_head .here
  | binaryRight h | commaRight h | arguments h | tail h | answer h =>
    exact mem_points_behind .here h (mem_points_head .here)
  | @logicalRight fuel m m₁ v op left right h hv =>
    refine mem_points_behind .here h ?_
    rw [if_neg (Bool.not_eq_true _ ▸ hv)]
    exact mem_points_head .here
  | called h hs hc =>
    exact mem_points_behind .here h
      (mem_points_behind .here hs (mem_points_next hc (mem_points_head .here)))
  | property h hp => exact mem_points_behind .here h (mem_points_next hp (mem_points_head .here))
  | stored h hi => exact mem_points_behind .here h (mem_points_next hi (mem_points_head .here))
  | superProperty h hp => exact mem_points_next h (mem_points_next hp (mem_points_head .here))
  | getter h => exact mem_points_next h (mem_points_head .here)
  | function h => exact mem_points_next h (mem_points_head .nested)
  | «class» h => exact mem_points_next h (mem_points_head .nested)
  | body h => exact mem_points_next h (mem_points_head (.within _))
  | initializer h hm hb =>
    refine mem_points_next h ?_
    rw [hm]
    exact mem_points_next hb (mem_points_head .here)
  | block h => exact mem_points_next h (mem_points_head (.within _))
  | thenBranch h hv =>
    refine mem_points_behind .here h ?_
    rw [if_pos hv]
    exact mem_points_head .here
  | elseBranch h hv =>
    refine mem_points_behind .here h ?_
    rw [if_neg (Bool.not_eq_true _ ▸ hv)]
    exact mem_points_head .here
  | turn h hv =>
    refine mem_points_behind .here h ?_
    rw [if_pos hv]
    exact mem_points_head .here
  | increment h hv hb hf =>
    refine mem_points_behind .here h ?_
    rw [if_pos hv]
    refine mem_points_behind .here hb ?_
    rcases hf with rfl | rfl
    all_goals exact mem_points_head .here
  | again h hv hb hf =>
    refine mem_points_behind .here h ?_
    rw [if_pos hv]
    refine mem_points_behind .here hb ?_
    rcases hf with rfl | rfl
    all_goals exact mem_points_head .here
  | incremented h hv hb hf hi =>
    refine mem_points_behind .here h ?_
    rw [if_pos hv]
    refine mem_points_behind .here hb ?_
    rcases hf with rfl | rfl
    all_goals exact mem_points_behind .here hi (mem_points_head .here)
  | next h => exact mem_points_behind .here h (mem_points_head .here)

end

/-- The tasks in the plan of a task are those that it starts. -/
theorem Point.mem_children_iff {a b : Point} : b ∈ a.children ↔ Starts a b := by
  obtain ⟨fuel, t, m⟩ := a
  constructor
  · intro h
    cases fuel with
    | zero => cases h
    | succ fuel =>
      cases t with
      | evaluate e => exact e.starts_of_mem h
      | evaluateAll es => exact starts_of_mem_planAll h
      | readProperty property line => exact property.starts_of_mem h
      | call c vs line => exact c.starts_of_mem h
      | run closure vs => exact closure.starts_of_mem h
      | construct c vs => exact c.starts_of_mem h
      | execute s => exact s.starts_of_mem h
      | loop condition body increment? => exact starts_of_mem_loopPlan h
      | executeAll ss => exact starts_of_mem_stmtsPlan h
  · exact Starts.mem_children

end LoxLang
