import LoxLang.Program
import LoxLang.Proofs.Grammar.Recovery
import LoxLang.Proofs.Grammar.Spending
import LoxLang.Proofs.Grammar.Standing

/-!
A parser that reads by index never asks for a place outside of its slice, never goes back, and takes
a token in each iteration of a loop: it goes as the parser that reads a list does, one rule for each
phrase of the grammar.
-/

namespace LoxLang

namespace Indexed

variable {α β : Type} {spots : List Spot} {lo hi mid : Nat} {t : Token}

/-- Reading by index goes as reading a list does: with the same result it gets to the same place,
which is not before place `here`, and with a value it gets to place `hi` or further. It does not
halt otherwise. -/
def Ends (spots : List Spot) (here hi : Nat) :
    EStateM.Result Halt Reader α → EStateM.Result Stop Cursor α → Prop
  | .ok a r, .ok a' c => a = a' ∧ c.Stands spots r ∧ here ≤ r.current ∧ hi ≤ r.current
  | .error (.stop e) r, .error e' c => e = e' ∧ c.Stands spots r ∧ here ≤ r.current
  | _, _ => False

/-- From here, if this is place `lo` or one behind it, reading by index goes as reading a list does,
and gets to place `hi` or one behind it. -/
def FollowsFrom (spots : List Spot) (lo hi : Nat) (c : Cursor) (x : Indexed α) (y : Parser α) :
    Prop :=
  ∀ r, Cursor.Stands spots c r → lo ≤ r.current → Ends spots r.current hi (x r) (y c)

/-- So from everywhere. -/
def Follows (spots : List Spot) (lo hi : Nat) (x : Indexed α) (y : Parser α) : Prop :=
  ∀ c, FollowsFrom spots lo hi c x y

/-- So where there is a token. -/
def FollowsToken (spots : List Spot) (lo hi : Nat) (x : Indexed α) (y : Parser α) : Prop :=
  ∀ c, c.tokens ≠ [] → FollowsFrom spots lo hi c x y

/-- So behind a token. -/
def FollowsBehind (spots : List Spot) (lo hi : Nat) (t : Token) (x : Indexed α) (y : Parser α) :
    Prop :=
  ∀ c r, Cursor.Stands spots c r → lo ≤ r.current → r.Behind t → Ends spots r.current hi (x r) (y c)

namespace Ends

variable {here : Nat} {c : Cursor} {r : Reader}

/-- What follows goes on from where the reader has got to. -/
theorem bind {x : Indexed α} {y : Parser α} {f : α → Indexed β} {g : α → Parser β}
    (hx : Ends spots here mid (x r) (y c))
    (hf : ∀ a c₁ r₁, Cursor.Stands spots c₁ r₁ → here ≤ r₁.current → mid ≤ r₁.current →
      Ends spots r₁.current hi (f a r₁) (g a c₁)) :
    Ends spots here hi ((x >>= f) r) ((y >>= g) c) := by
  match hr : x r, hc : y c with
  | .ok a r₁, .ok a' c₁ =>
    rw [hr, hc] at hx
    obtain ⟨rfl, hs, hle, hmid⟩ := hx
    rw [Indexed.bind_ok hr, Fueled.bind_ok hc]
    have h := hf a c₁ r₁ hs hle hmid
    match hr' : f a r₁, hc' : g a c₁ with
    | .ok b r₂, .ok b' c₂ =>
      rw [hr', hc'] at h
      obtain ⟨hb, hs', hle', hhi⟩ := h
      exact ⟨hb, hs', Nat.le_trans hle hle', hhi⟩
    | .error (.stop e) r₂, .error e' c₂ =>
      rw [hr', hc'] at h
      obtain ⟨he, hs', hle'⟩ := h
      exact ⟨he, hs', Nat.le_trans hle hle'⟩
    | .ok _ _, .error _ _ | .error .outside _, _ | .error .idle _, _
    | .error (.stop _) _, .ok _ _ =>
      rw [hr', hc'] at h
      exact h
  | .error (.stop e) r₁, .error e' c₁ =>
    rw [hr, hc] at hx
    rw [Indexed.bind_error hr, Fueled.bind_error hc]
    exact hx
  | .ok _ _, .error _ _ | .error .outside _, _ | .error .idle _, _
  | .error (.stop _) _, .ok _ _ =>
    rw [hr, hc] at hx
    exact hx.elim

/-- It has got further than it has to. -/
theorem past {here' hi' : Nat} {x : EStateM.Result Halt Reader α}
    {y : EStateM.Result Stop Cursor α} (h : Ends spots here hi x y) (hhere : here' ≤ here)
    (hle : hi' ≤ hi) : Ends spots here' hi' x y := by
  match x, y, h with
  | .ok _ _, .ok _ _, ⟨ha, hs, hcur, hhi⟩ =>
    exact ⟨ha, hs, Nat.le_trans hhere hcur, Nat.le_trans hle hhi⟩
  | .error (.stop _) _, .error _ _, ⟨he, hs, hcur⟩ =>
    exact ⟨he, hs, Nat.le_trans hhere hcur⟩

theorem exists_ok {x : EStateM.Result Halt Reader α} {a : α} (h : Ends spots here hi x (.ok a c)) :
    ∃ r, x = .ok a r ∧ c.Stands spots r := by
  match x, h with
  | .ok _ r, ⟨rfl, hs, _⟩ => exact ⟨r, rfl, hs⟩

theorem exists_error {x : EStateM.Result Halt Reader α} {e : Stop}
    (h : Ends spots here hi x (.error e c)) : ∃ r, x = .error (.stop e) r ∧ c.Stands spots r := by
  match x, h with
  | .error (.stop _) r, ⟨rfl, hs, _⟩ => exact ⟨r, rfl, hs⟩

/-- What is done behind the next token comes behind this place too. -/
theorem of_moved {x : EStateM.Result Halt Reader α} {y : EStateM.Result Stop Cursor α}
    (h : Ends spots r.moved.current hi x y) : Ends spots r.current hi x y :=
  h.past (Nat.le_succ _) (Nat.le_refl _)

end Ends

variable {x : Indexed α} {y : Parser α}

theorem Follows.behind (h : Follows spots lo hi x y) (t : Token) :
    FollowsBehind spots lo hi t x y :=
  fun c r hs hlo _ => h c r hs hlo

namespace FollowsFrom

variable {c : Cursor} {ts : List Token}

/-- A token that is skipped has been taken, and it is there to look back at. -/
theorem skip {f : Unit → Indexed α} {g : Unit → Parser α} (hc : c.tokens = t :: ts)
    (h : FollowsBehind spots (lo + 1) hi t (f ()) (g ())) :
    FollowsFrom spots lo hi c (Indexed.skip >>= f) (Parser.skip >>= g) := by
  intro r hs hlo
  rw [bind_ok (skip_eq hs hc), Fueled.bind_ok (Parser.skip_eq hc)]
  exact .of_moved (h _ _ (hs.moved hc) (Nat.succ_le_succ hlo) (hs.behind hc))

theorem accept_taken {k : Kind} {f : Bool → Indexed α} {g : Unit → Parser α}
    (hc : c.tokens = t :: ts) (ht : t.kind = k)
    (h : FollowsBehind spots (lo + 1) hi t (f true) (g ())) :
    FollowsFrom spots lo hi c (Indexed.accept k >>= f) (Parser.skip >>= g) := by
  intro r hs hlo
  rcases accept_cases hs k with ⟨t', ts', hc', hk, hr⟩ | ⟨hk, -⟩
  · rw [bind_ok hr, Fueled.bind_ok (Parser.skip_eq hc)]
    exact .of_moved (h _ _ (hs.moved hc) (Nat.succ_le_succ hlo) (hs.behind hc))
  · exact absurd ht (hk t (by rw [hc]; rfl))

theorem accept_other {k : Kind} {f : Bool → Indexed α} (hk : ∀ t ∈ c.tokens.head?, t.kind ≠ k)
    (h : FollowsFrom spots lo hi c (f false) y) :
    FollowsFrom spots lo hi c (Indexed.accept k >>= f) y := by
  intro r hs hlo
  rcases accept_cases hs k with ⟨t, ts, hc, ht, -⟩ | ⟨-, hr⟩
  · exact absurd ht (hk t (by rw [hc]; rfl))
  · rw [bind_ok hr]
    exact h r hs hlo

theorem nextIs {k : Kind} {f : Bool → Indexed α}
    (h : FollowsFrom spots lo hi c (f (decide (c.tokens.head?.map Token.kind = some k))) y) :
    FollowsFrom spots lo hi c (Indexed.nextIs k >>= f) y := by
  intro r hs hlo
  rw [bind_ok (nextIs_eq hs k)]
  exact h r hs hlo

theorem nextIs_here {k : Kind} {f : Bool → Indexed α} (hc : c.tokens = t :: ts) (ht : t.kind = k)
    (h : FollowsFrom spots lo hi c (f true) y) :
    FollowsFrom spots lo hi c (Indexed.nextIs k >>= f) y := by
  have hk : c.tokens.head?.map Token.kind = some k := by rw [hc]; exact congrArg some ht
  refine nextIs ?_
  rw [decide_eq_true hk]
  exact h

theorem nextIs_other {k : Kind} {f : Bool → Indexed α} (hk : ∀ t ∈ c.tokens.head?, t.kind ≠ k)
    (h : FollowsFrom spots lo hi c (f false) y) :
    FollowsFrom spots lo hi c (Indexed.nextIs k >>= f) y := by
  have hne : c.tokens.head?.map Token.kind ≠ some k := fun heq =>
    have ⟨t, ht, hkind⟩ := Option.map_eq_some_iff.mp heq
    hk t ht hkind
  refine nextIs ?_
  rw [decide_eq_false hne]
  exact h

theorem nextButOneIs {k : Kind} {f : Bool → Indexed α}
    (h : FollowsFrom spots lo hi c (f (decide (c.tokens[1]?.map Token.kind = some k))) y) :
    FollowsFrom spots lo hi c (Indexed.nextButOneIs k >>= f) y := by
  intro r hs hlo
  rw [bind_ok (nextButOneIs_eq hs k)]
  exact h r hs hlo

theorem isAtEnd {f : Bool → Indexed α} (h : FollowsFrom spots lo hi c (f c.tokens.isEmpty) y) :
    FollowsFrom spots lo hi c (Indexed.isAtEnd >>= f) y := by
  intro r hs hlo
  rw [bind_ok (isAtEnd_eq hs)]
  exact h r hs hlo

/-- An iteration that starts here has taken a token where it ends. -/
theorem position {f : Nat → Indexed α}
    (h : ∀ start, lo ≤ start → FollowsFrom spots start hi c (f start) y) :
    FollowsFrom spots lo hi c (Indexed.position >>= f) y := by
  intro r hs hlo
  rw [bind_ok (position_eq r)]
  exact h r.current hlo r hs (Nat.le_refl _)

end FollowsFrom

namespace FollowsBehind

theorem previous {f : Spot → Indexed α} (h : FollowsBehind spots lo hi t (f (.token t)) y) :
    FollowsBehind spots lo hi t (Indexed.previous >>= f) y := by
  intro c r hs hlo hb
  rw [bind_ok (previous_eq hb)]
  exact h c r hs hlo hb

/-- A number that is taken is no token. -/
theorem freshId {f : Nat → Indexed α} {g : Nat → Parser α}
    (h : ∀ id, FollowsBehind spots lo hi t (f id) (g id)) :
    FollowsBehind spots lo hi t (Indexed.freshId >>= f) (Parser.freshId >>= g) := by
  intro c r hs hlo hb
  show Ends spots r.current hi (f r.nextId { r with nextId := r.nextId + 1 })
    (g c.nextId { c with nextId := c.nextId + 1 })
  rw [← hs.nextId]
  exact h r.nextId _ _ (hs.nextId ▸ hs.freshId) hlo hb

end FollowsBehind

namespace Follows

theorem bind {x : Indexed α} {y : Parser α} {f : α → Indexed β} {g : α → Parser β}
    (hx : Follows spots lo mid x y) (hf : ∀ a, Follows spots mid hi (f a) (g a)) :
    Follows spots lo hi (x >>= f) (y >>= g) :=
  fun c r hs hlo => (hx c r hs hlo).bind fun a c₁ r₁ hs₁ _ hmid => hf a c₁ r₁ hs₁ hmid

theorem past {hi' : Nat} (h : Follows spots lo hi x y) (hle : hi' ≤ hi) :
    Follows spots lo hi' x y :=
  fun c r hs hlo => (h c r hs hlo).past (Nat.le_refl _) hle

theorem pure (a : α) (h : hi ≤ lo) : Follows spots lo hi (Pure.pure a) (Pure.pure a) :=
  fun _ r hs hlo => ⟨rfl, hs, Nat.le_refl r.current, Nat.le_trans h hlo⟩

theorem exhausted : Follows spots lo hi (Indexed.exhausted : Indexed α) Fueled.exhausted :=
  fun _ r hs _ => ⟨rfl, hs, Nat.le_refl r.current⟩

theorem failHere {error : GrammarError} :
    Follows spots lo hi (Indexed.failHere error : Indexed α) (Parser.failHere error) := by
  intro c r hs _
  rw [Indexed.failHere, bind_ok (peek_eq hs), Cursor.spot_diagnostic]
  exact ⟨rfl, hs, Nat.le_refl r.current⟩

theorem report (d : Diagnostic) : Follows spots lo lo (Indexed.report d) (Parser.report d) :=
  fun _ r hs hlo => ⟨rfl, hs.report d, Nat.le_refl r.current, hlo⟩

theorem reportHere (error : GrammarError) :
    Follows spots lo lo (Indexed.reportHere error) (Parser.reportHere error) := by
  intro c r hs hlo
  rw [Indexed.reportHere, bind_ok (peek_eq hs), Cursor.spot_diagnostic, Parser.reportHere,
    Fueled.bind_get]
  exact report _ c r hs hlo

theorem freshId : Follows spots lo lo Indexed.freshId Parser.freshId :=
  fun _ r hs hlo => ⟨hs.nextId, hs.freshId, Nat.le_refl r.current, hlo⟩

theorem occurrence (name : Name) :
    Follows spots lo lo (Indexed.occurrence name) (Parser.occurrence name) :=
  freshId.bind fun _ => .pure _ (Nat.le_refl _)

theorem position {f : Nat → Indexed α}
    (h : ∀ start, lo ≤ start → Follows spots start hi (f start) y) :
    Follows spots lo hi (Indexed.position >>= f) y :=
  fun c => .position fun start hstart => h start hstart c

theorem progressed {start : Nat} {f : Unit → Indexed α} (hstart : start < lo)
    (h : Follows spots lo hi (f ()) y) :
    Follows spots lo hi (Indexed.progressed start >>= f) y := by
  intro c r hs hlo
  rw [bind_ok (progressed_eq (Nat.lt_of_lt_of_le hstart hlo))]
  exact h c r hs hlo

/-- What is next decides. -/
theorem peek {f : Spot → Indexed α} {g : Cursor → Parser α}
    (hend : ∀ c, c.tokens = [] → Follows spots lo hi (f (.endOfText c.endLine)) (g c))
    (htoken : ∀ c t ts, c.tokens = t :: ts →
      FollowsFrom spots lo hi c (f (.token t)) (g c)) :
    Follows spots lo hi (Indexed.peek >>= f) (get >>= g) := by
  intro c r hs hlo
  rw [bind_ok (peek_eq hs), Fueled.bind_get, Cursor.spot]
  cases hc : c.tokens with
  | nil => exact hend c hc c r hs hlo
  | cons t ts => exact htoken c t ts hc r hs hlo

theorem look {g : Cursor → Parser α} (h : ∀ c, FollowsFrom spots lo hi c x (g c)) :
    Follows spots lo hi x (get >>= g) :=
  fun c => h c


theorem peekKind {f : Option Kind → Parser α}
    (h : ∀ c, FollowsFrom spots lo hi c x (f (c.tokens.head?.map Token.kind))) :
    Follows spots lo hi x (Parser.peek? >>= f) :=
  fun c => h c

theorem nextIs (k : Kind) : Follows spots lo lo (Indexed.nextIs k) (Parser.nextIs k) := by
  intro c r hs hlo
  rw [nextIs_eq hs, Parser.nextIs_eq]
  exact ⟨rfl, hs, Nat.le_refl r.current, hlo⟩

theorem accept (k : Kind) : Follows spots lo lo (Indexed.accept k) (Parser.accept k) := by
  intro c r hs hlo
  rcases accept_cases hs k with ⟨t, ts, hc, hk, hr⟩ | ⟨hk, hr⟩
  · rw [hr, Parser.accept_eq_true hc hk]
    exact ⟨rfl, hs.moved hc, Nat.le_succ _, Nat.le_succ_of_le hlo⟩
  · rw [hr, Parser.accept_eq_false hk]
    exact ⟨rfl, hs, Nat.le_refl _, hlo⟩

/-- Behind an equals sign it is there to look back at. -/
theorem acceptEquals {f : Bool → Indexed α} {g : Option Token → Parser α}
    (hnone : Follows spots lo hi (f false) (g none))
    (hsome : ∀ t, FollowsBehind spots lo hi t (f true) (g (some t))) :
    Follows spots lo hi (Indexed.accept (.symbol .equal) >>= f) (Parser.acceptEquals >>= g) := by
  intro c r hs hlo
  rcases accept_cases hs (.symbol .equal) with ⟨t, ts, hc, hk, hr⟩ | ⟨hk, hr⟩
  · have htake : Parser.acceptEquals c = .ok (some t) { c with tokens := ts } := by
      rw [Parser.acceptEquals, Fueled.bind_get, hc]
      simp only [hk, ↓reduceIte]
      exact Fueled.bind_ok (Parser.skip_eq hc)
    rw [bind_ok hr, Fueled.bind_ok htake]
    exact .of_moved (hsome t _ _ (hs.moved hc) (Nat.le_succ_of_le hlo) (hs.behind hc))
  · have hstay : Parser.acceptEquals c = .ok none c := by
      rw [Parser.acceptEquals, Fueled.bind_get]
      cases hc : c.tokens with
      | nil => rfl
      | cons t ts =>
        have hne : t.kind ≠ .symbol .equal := hk t (by rw [hc]; rfl)
        simp only [hne, ↓reduceIte]
        rfl
    rw [bind_ok hr, Fueled.bind_ok hstay]
    exact hnone c r hs hlo

theorem expect {what : Expectation} {f : Spot → Indexed α} {g : Token → Parser α}
    (h : ∀ t, Follows spots (lo + 1) hi (f (.token t)) (g t)) :
    Follows spots lo hi (Indexed.expect what >>= f) (Parser.expect what >>= g) := by
  intro c r hs hlo
  rcases nextIs_cases hs what.wanted with ⟨t, ts, hc, hk, hr⟩ | ⟨hk, hr⟩
  · have htake : Indexed.expect what r = .ok (.token t) r.moved := by
      rw [Indexed.expect, bind_ok hr]
      exact advance_eq hs hc
    rw [bind_ok htake, Fueled.bind_ok (Parser.expect_eq hc hk)]
    exact .of_moved (h t _ _ (hs.moved hc) (Nat.succ_le_succ hlo))
  · have hfail : Indexed.expect what r =
        .error (.stop (.failed (c.diagnostic (.expected what)))) r := by
      rw [Indexed.expect, bind_ok hr, ← Cursor.spot_diagnostic]
      exact bind_ok (peek_eq hs)
    rw [bind_error hfail, Fueled.bind_error (Parser.expect_eq_error hk)]
    exact ⟨rfl, hs, Nat.le_refl _⟩

theorem expectName (what : Expectation) :
    Follows spots lo (lo + 1) (Indexed.expectName what) (Parser.expectName what) :=
  expect fun _ => .pure _ (Nat.le_refl _)

theorem assignment (equals : Token) (target value : Expr) :
    Follows spots lo lo (Indexed.assignment (.token equals) target value)
      (Parser.assignment equals target value) := by
  cases target with
  | «variable» o => exact (occurrence _).bind fun _ => .pure _ (Nat.le_refl _)
  | get => exact .pure _ (Nat.le_refl _)
  | _ => exact (report _).bind fun _ => .pure _ (Nat.le_refl _)

theorem acceptOperator (l : Level) :
    Follows spots lo lo (Indexed.acceptOperator l) (Parser.acceptOperator l) := by
  refine peek (fun c hc => ?_) fun c t ts hc => ?_
  · rw [hc]
    exact .pure _ (Nat.le_refl _)
  · rw [hc]
    simp only [Spot.kind?, Option.bind_some]
    cases l.operator? t.kind with
    | none => exact Follows.pure _ (Nat.le_refl _) c
    | some op => exact .skip hc (.previous ((Follows.pure _ (Nat.le_succ _)).behind t))

theorem acceptUnary : Follows spots lo lo Indexed.acceptUnary Parser.acceptUnary := by
  refine peek (fun c hc => ?_) fun c t ts hc => ?_
  · rw [hc]
    exact .pure _ (Nat.le_refl _)
  · rw [hc]
    simp only [Spot.kind?, Option.bind_some]
    cases UnaryOp.ofKind? t.kind with
    | none => exact Follows.pure _ (Nat.le_refl _) c
    | some op => exact .skip hc (.previous ((Follows.pure _ (Nat.le_succ _)).behind t))

theorem superclassReference :
    Follows spots lo lo Indexed.superclassReference Parser.superclassReference := by
  refine (accept _).bind fun b => ?_
  cases b with
  | false => exact .pure _ (Nat.le_refl _)
  | true =>
    exact (expectName _).bind fun _ => (occurrence _).bind fun _ => .pure _ (Nat.le_succ _)

theorem parameterList (fuel count : Nat) :
    Follows spots lo (lo + 1) (Indexed.parameterList fuel count)
      (Parser.parameterList fuel count) := by
  induction fuel generalizing lo count with
  | zero =>
    rw [Indexed.parameterList, Parser.parameterList]
    exact .exhausted
  | succ fuel ih =>
    unfold Indexed.parameterList Parser.parameterList
    refine .position fun start hstart => ?_
    have hitem : Follows spots start (lo + 1)
        (do let name ← Indexed.expectName .parameterName
            let more ← Indexed.accept (.symbol .comma)
            Indexed.progressed start
            if more then
              return name :: (← Indexed.parameterList fuel (count + 1))
            return [name])
        (do let name ← Parser.expectName .parameterName
            if ← Parser.accept (.symbol .comma) then
              return name :: (← Parser.parameterList fuel (count + 1))
            return [name]) := by
      refine (expectName _).bind fun _ => (accept _).bind fun more =>
        .progressed (Nat.lt_succ_self start) ?_
      cases more with
      | false => exact .pure _ (Nat.succ_le_succ hstart)
      | true => exact (ih _).bind fun _ => .pure _ (by omega)
    split
    · exact (reportHere _).bind fun _ => hitem
    · exact hitem

theorem parameters (fuel : Nat) :
    Follows spots lo lo (Indexed.parameters fuel) (Parser.parameters fuel) := by
  refine (nextIs _).bind fun b => ?_
  cases b with
  | false => exact (parameterList fuel 0).past (Nat.le_succ _)
  | true => exact .pure _ (Nat.le_refl _)

end Follows

namespace FollowsBehind

theorem superMethod :
    FollowsBehind spots lo lo t Indexed.superMethod (Parser.superMethod t.line) := by
  refine .previous (Follows.behind ?_ t)
  exact .expect fun _ => (Follows.expectName _).bind fun _ => Follows.freshId.bind fun _ =>
    .pure _ (by omega)

theorem jump (s : Nat → Stmt) (what : Expectation) :
    FollowsBehind spots lo lo t (Indexed.jump s what) (Parser.jump (s t.line) what) := by
  refine .previous (Follows.behind ?_ t)
  exact .expect fun _ => .pure _ (Nat.le_succ _)

end FollowsBehind

theorem FollowsToken.bind {x : Indexed α} {y : Parser α} {f : α → Indexed β} {g : α → Parser β}
    (hx : FollowsToken spots lo mid x y) (hf : ∀ a, Follows spots mid hi (f a) (g a)) :
    FollowsToken spots lo hi (x >>= f) (y >>= g) :=
  fun c hc r hs hlo => (hx c hc r hs hlo).bind fun a c₁ r₁ hs₁ _ hmid => hf a c₁ r₁ hs₁ hmid

/-- Where a parser fails it skips a token, or it fails at the end behind one that it took. -/
theorem FollowsToken.recovering (h : Follows spots lo (lo + 1) x y) :
    FollowsToken spots lo (lo + 1) (Indexed.recovering x) (Parser.recovering y) := by
  intro c hc r hs hlo
  have h := h c r hs hlo
  unfold Indexed.recovering Parser.recovering
  match hr : x r, hy : y c with
  | .ok a r', .ok a' c' =>
    rw [hr, hy] at h
    exact ⟨congrArg some h.1, h.2⟩
  | .error (.stop .outOfFuel) r', .error .outOfFuel c' =>
    rw [hr, hy] at h
    exact h
  | .error (.stop (.failed d)) r', .error (.failed d') c' =>
    rw [hr, hy] at h
    obtain ⟨hd, hs', hle⟩ := h
    cases hd
    have hend := fun hc' => hs.behind_end hc hs' hc'
    obtain ⟨r'', hr'', hle', hlt, hs''⟩ := synchronize_eq (hs'.report d) fun hc' => (hend hc').2
    have hgot : r.current < r''.current := by
      by_cases hc' : c'.tokens = []
      · exact Nat.lt_of_lt_of_le (hend hc').1 hle'
      · exact Nat.lt_of_le_of_lt hle (hlt hc')
    dsimp only
    rw [bind_ok (show report d r' = .ok () { r' with errors := d :: r'.errors } from rfl),
      bind_ok hr'']
    exact ⟨rfl, hs'', Nat.le_of_lt hgot, Nat.le_trans (Nat.succ_le_succ hlo) hgot⟩
  | .ok _ _, .error _ _ | .error .outside _, _ | .error .idle _, _ | .error (.stop _) _, .ok _ _
  | .error (.stop .outOfFuel) _, .error (.failed _) _
  | .error (.stop (.failed _)) _, .error .outOfFuel _ =>
    rw [hr, hy] at h
    first
    | exact h.elim
    | exact nomatch h.1

/-- With this fuel, whatever phrase is read by index, it is read as from a list. -/
structure Indexing (spots : List Spot) (fuel : Nat) : Prop where
  level : ∀ {lo} l, Follows spots lo (lo + 1) (level fuel l) (Parser.level fuel l)
  operand : ∀ {lo} l, Follows spots lo (lo + 1) (operand fuel l) (Parser.operand fuel l)
  chain : ∀ {lo} l left, Follows spots lo lo (chain fuel l left) (Parser.chain fuel l left)
  expression : ∀ {lo}, Follows spots lo (lo + 1) (expression fuel) (Parser.expression fuel)
  ternary : ∀ {lo}, Follows spots lo (lo + 1) (ternary fuel) (Parser.ternary fuel)
  assigned : ∀ {lo}, Follows spots lo (lo + 1) (assigned fuel) (Parser.assigned fuel)
  unary : ∀ {lo}, Follows spots lo (lo + 1) (unary fuel) (Parser.unary fuel)
  call : ∀ {lo}, Follows spots lo (lo + 1) (call fuel) (Parser.call fuel)
  calls : ∀ {lo} object, Follows spots lo lo (calls fuel object) (Parser.calls fuel object)
  arguments : ∀ {lo}, Follows spots lo lo (arguments fuel) (Parser.arguments fuel)
  argumentList : ∀ {lo} count,
    Follows spots lo (lo + 1) (argumentList fuel count) (Parser.argumentList fuel count)
  primary : ∀ {lo}, Follows spots lo (lo + 1) (primary fuel) (Parser.primary fuel)
  group : ∀ {lo}, Follows spots lo lo (group fuel) (Parser.group fuel)
  lambda : ∀ {lo} t, FollowsBehind spots lo lo t (lambda fuel) (Parser.lambda fuel t.line)
  functionRest : ∀ {lo} name? line sort, Follows spots lo lo
    (functionRest fuel name? line sort) (Parser.functionRest fuel name? line sort)
  block : ∀ {lo}, Follows spots lo (lo + 1) (block fuel) (Parser.block fuel)
  declarations : ∀ {lo} read,
    Follows spots lo lo (declarations fuel read) (Parser.declarations fuel read)
  declaration : ∀ {lo},
    FollowsToken spots lo (lo + 1) (declaration fuel) (Parser.declaration fuel)
  declared : ∀ {lo}, Follows spots lo (lo + 1) (declared fuel) (Parser.declared fuel)
  classDeclaration : ∀ {lo},
    Follows spots lo lo (classDeclaration fuel) (Parser.classDeclaration fuel)
  members : ∀ {lo} methods getters, Follows spots lo lo
    (members fuel methods getters) (Parser.members fuel methods getters)
  function : ∀ {lo} sort,
    Follows spots lo (lo + 1) (function fuel sort) (Parser.function fuel sort)
  getter : ∀ {lo}, Follows spots lo (lo + 1) (getter fuel) (Parser.getter fuel)
  varDeclaration : ∀ {lo}, Follows spots lo lo (varDeclaration fuel) (Parser.varDeclaration fuel)
  initializer : ∀ {lo}, Follows spots lo lo (initializer fuel) (Parser.initializer fuel)
  statement : ∀ {lo}, Follows spots lo (lo + 1) (statement fuel) (Parser.statement fuel)
  expressionStatement : ∀ {lo}, Follows spots lo (lo + 1)
    (expressionStatement fuel) (Parser.expressionStatement fuel)
  printStatement : ∀ {lo}, Follows spots lo lo (printStatement fuel) (Parser.printStatement fuel)
  returnStatement : ∀ {lo} t, FollowsBehind spots lo lo t
    (returnStatement fuel) (Parser.returnStatement fuel t.line)
  unlessNext : ∀ {lo} s, Follows spots lo lo (unlessNext fuel s) (Parser.unlessNext fuel s)
  whileStatement : ∀ {lo}, Follows spots lo lo (whileStatement fuel) (Parser.whileStatement fuel)
  ifStatement : ∀ {lo}, Follows spots lo lo (ifStatement fuel) (Parser.ifStatement fuel)
  forStatement : ∀ {lo}, Follows spots lo lo (forStatement fuel) (Parser.forStatement fuel)
  forStart : ∀ {lo}, Follows spots lo lo (forStart fuel) (Parser.forStart fuel)

namespace Indexing

variable {fuel : Nat} (ih : Indexing spots fuel)

include ih in
theorem operand_succ (l : Level) :
    Follows spots lo (lo + 1) (Indexed.operand (fuel + 1) l) (Parser.operand (fuel + 1) l) := by
  unfold Indexed.operand Parser.operand
  cases l with
  | comma => exact ih.ternary
  | factor => exact ih.unary
  | _ => exact ih.level _

include ih in
theorem chain_succ (l : Level) (left : Expr) :
    Follows spots lo lo (Indexed.chain (fuel + 1) l left) (Parser.chain (fuel + 1) l left) := by
  unfold Indexed.chain Parser.chain
  refine .position fun start hstart => (Follows.acceptOperator l).bind fun r => ?_
  match r with
  | none => exact .pure _ hstart
  | some _ =>
    exact (ih.operand l).bind fun _ => .progressed (Nat.lt_succ_self start)
      ((ih.chain l _).past (Nat.le_succ_of_le hstart))

include ih in
theorem ternary_succ :
    Follows spots lo (lo + 1) (Indexed.ternary (fuel + 1)) (Parser.ternary (fuel + 1)) := by
  unfold Indexed.ternary Parser.ternary
  refine ih.assigned.bind fun _ => (Follows.accept _).bind fun b => ?_
  cases b with
  | false => exact .pure _ (Nat.le_refl _)
  | true =>
    exact ih.expression.bind fun _ => .expect fun _ => ih.ternary.bind fun _ => .pure _ (by omega)

include ih in
theorem assigned_succ :
    Follows spots lo (lo + 1) (Indexed.assigned (fuel + 1)) (Parser.assigned (fuel + 1)) := by
  unfold Indexed.assigned Parser.assigned
  refine (ih.level _).bind fun target => .acceptEquals (.pure _ (Nat.le_refl _)) fun equals => ?_
  refine .previous (Follows.behind ?_ equals)
  exact ih.assigned.bind fun value => (Follows.assignment equals target value).past (Nat.le_succ _)

include ih in
theorem unary_succ :
    Follows spots lo (lo + 1) (Indexed.unary (fuel + 1)) (Parser.unary (fuel + 1)) := by
  unfold Indexed.unary Parser.unary
  refine Follows.acceptUnary.bind fun r => ?_
  match r with
  | none => exact ih.call
  | some _ => exact ih.unary.bind fun _ => .pure _ (Nat.le_refl _)

include ih in
theorem calls_succ (object : Expr) :
    Follows spots lo lo (Indexed.calls (fuel + 1) object) (Parser.calls (fuel + 1) object) := by
  unfold Indexed.calls Parser.calls
  refine .peekKind fun c => .position fun start hstart => ?_
  split
  · rename_i heq
    obtain ⟨t, ts, hc, hk⟩ := Cursor.exists_of_kind heq
    refine .accept_taken hc hk (Follows.behind ?_ t)
    exact ih.arguments.bind fun _ => .expect fun _ => .progressed (by omega)
      ((ih.calls _).past (by omega))
  · rename_i heq
    obtain ⟨t, ts, hc, hk⟩ := Cursor.exists_of_kind heq
    refine .accept_other (by simp [hc, hk]) (.accept_taken hc hk (Follows.behind ?_ t))
    exact (Follows.expectName _).bind fun _ => .progressed (by omega) ((ih.calls _).past (by omega))
  · rename_i hparen hdot
    refine .accept_other (fun t ht hk => ?_) (.accept_other (fun t ht hk => ?_)
      (Follows.pure _ hstart c))
    · exact hparen (by rw [ht, Option.map_some, hk])
    · exact hdot (by rw [ht, Option.map_some, hk])

include ih in
theorem arguments_succ :
    Follows spots lo lo (Indexed.arguments (fuel + 1)) (Parser.arguments (fuel + 1)) := by
  unfold Indexed.arguments Parser.arguments
  refine (Follows.nextIs _).bind fun b => ?_
  cases b with
  | false => exact (ih.argumentList 0).past (Nat.le_succ _)
  | true => exact .pure _ (Nat.le_refl _)

include ih in
theorem argumentList_succ (count : Nat) :
    Follows spots lo (lo + 1) (Indexed.argumentList (fuel + 1) count)
      (Parser.argumentList (fuel + 1) count) := by
  unfold Indexed.argumentList Parser.argumentList
  refine .position fun start hstart => ?_
  have hitem : Follows spots start (lo + 1)
      (do let argument ← Indexed.ternary fuel
          let more ← Indexed.accept (.symbol .comma)
          Indexed.progressed start
          if more then
            return argument :: (← Indexed.argumentList fuel (count + 1))
          return [argument])
      (do let argument ← Parser.ternary fuel
          if ← Parser.accept (.symbol .comma) then
            return argument :: (← Parser.argumentList fuel (count + 1))
          return [argument]) := by
    refine ih.ternary.bind fun _ => (Follows.accept _).bind fun more =>
      .progressed (Nat.lt_succ_self start) ?_
    cases more with
    | false => exact .pure _ (Nat.succ_le_succ hstart)
    | true => exact (ih.argumentList _).bind fun _ => .pure _ (by omega)
  split
  · exact (Follows.reportHere _).bind fun _ => hitem
  · exact hitem

include ih in
theorem primary_succ :
    Follows spots lo (lo + 1) (Indexed.primary (fuel + 1)) (Parser.primary (fuel + 1)) := by
  unfold Indexed.primary Parser.primary
  refine .peek (fun c hc => ?_) fun c t ts hc => ?_
  · rw [hc]
    exact .failHere
  · rw [hc]
    obtain ⟨kind, lexeme, line⟩ := t
    dsimp only [Spot.kind?]
    have taken (e : Expr) : FollowsFrom spots lo (lo + 1) c
        (do Indexed.skip; return e) (do Parser.skip; return e) :=
      .skip hc (Follows.behind (.pure e (Nat.le_refl _)) _)
    split
    case h_11 =>
      split
      all_goals first
        | exact Follows.failHere c
        | simp_all
    all_goals
      rename_i heq
      cases heq
    case h_6 => exact .skip hc (.superMethod)
    case h_7 =>
      refine .skip hc (.freshId fun _ => .previous (Follows.behind ?_ _))
      exact .pure _ (Nat.le_refl _)
    case h_8 =>
      refine .skip hc (.previous (Follows.behind ?_ _))
      exact (Follows.occurrence _).bind fun _ => .pure _ (Nat.le_refl _)
    case h_9 => exact .skip hc (Follows.behind ih.group _)
    case h_10 => exact .skip hc (ih.lambda _)
    all_goals exact taken _

include ih in
theorem functionRest_succ (name? : Option Name) (line : Nat) (sort : FunctionSort) :
    Follows spots lo lo (Indexed.functionRest (fuel + 1) name? line sort)
      (Parser.functionRest (fuel + 1) name? line sort) := by
  unfold Indexed.functionRest Parser.functionRest
  exact (Follows.parameters fuel).bind fun _ => .expect fun _ => .expect fun _ =>
    ih.block.bind fun _ => .pure _ (by omega)

include ih in
theorem lambda_succ (t : Token) :
    FollowsBehind spots lo lo t (Indexed.lambda (fuel + 1)) (Parser.lambda (fuel + 1) t.line) := by
  unfold Indexed.lambda Parser.lambda
  refine .previous (Follows.behind ?_ t)
  exact .expect fun _ => (ih.functionRest _ _ _).bind fun _ => .pure _ (Nat.le_succ _)

include ih in
/-- At neither a brace nor the end there is a token, which a declaration takes. -/
theorem declarations_succ (read : List Stmt) :
    Follows spots lo lo (Indexed.declarations (fuel + 1) read)
      (Parser.declarations (fuel + 1) read) := by
  unfold Indexed.declarations Parser.declarations
  refine .peekKind fun c => .position fun start hstart => ?_
  split
  · rename_i heq
    have hc : c.tokens = [] := by simpa using heq
    refine .nextIs_other (by simp [hc]) (.isAtEnd ?_)
    rw [hc]
    exact Follows.pure _ hstart c
  · rename_i heq
    obtain ⟨t, ts, hc, hk⟩ := Cursor.exists_of_kind heq
    exact .nextIs_here hc hk (Follows.pure _ hstart c)
  · rename_i kind hbrace heq
    obtain ⟨t, ts, hc, rfl⟩ := Cursor.exists_of_kind heq
    refine .nextIs_other (by simp [hc]; exact hbrace) (.isAtEnd ?_)
    rw [hc]
    refine ih.declaration.bind (fun s? => .progressed (Nat.lt_succ_self start) ?_) c (by simp [hc])
    cases s? with
    | none => exact (ih.declarations read).past (Nat.le_succ_of_le hstart)
    | some s => exact (ih.declarations (s :: read)).past (Nat.le_succ_of_le hstart)

include ih in
theorem declared_succ :
    Follows spots lo (lo + 1) (Indexed.declared (fuel + 1)) (Parser.declared (fuel + 1)) := by
  unfold Indexed.declared Parser.declared
  refine .look fun c => ?_
  split
  · rename_i hc
    exact .accept_taken hc rfl (Follows.behind ih.classDeclaration _)
  · rename_i hc
    refine .accept_other (by simp [hc]) (.nextIs_here hc rfl (.nextButOneIs ?_))
    rw [hc]
    exact .skip hc (Follows.behind ((ih.function _).bind fun _ => .pure _ (Nat.le_succ _)) _)
  · rename_i hc
    refine .accept_other (by simp [hc]) (.nextIs_other (by simp [hc]) (.nextButOneIs ?_))
    exact .accept_taken hc rfl (Follows.behind (ih.varDeclaration.past (Nat.le_refl _)) _)
  · rename_i hclass hfun hvar
    refine .accept_other (fun t ht hk => ?_) (.nextIs (.nextButOneIs ?_))
    · obtain ⟨ts, hc⟩ := List.head?_eq_some_iff.mp ht
      obtain ⟨kind, lexeme, line⟩ := t
      cases hk
      exact hclass _ _ _ hc
    rw [if_neg (fun h => ?_)]
    · refine .accept_other (fun t ht hk => ?_) (ih.statement c)
      obtain ⟨ts, hc⟩ := List.head?_eq_some_iff.mp ht
      obtain ⟨kind, lexeme, line⟩ := t
      cases hk
      exact hvar _ _ _ hc
    · obtain ⟨hfirst, hsecond⟩ := Bool.and_eq_true_iff.mp h
      obtain ⟨⟨kind, lexeme, line⟩, ts, hc, hk⟩ := Cursor.exists_of_kind (of_decide_eq_true hfirst)
      have hnext := of_decide_eq_true hsecond
      rw [hc, List.getElem?_cons_succ, ← List.head?_eq_getElem?] at hnext
      obtain ⟨⟨kind', lexeme', line'⟩, ts', hts, hk'⟩ :=
        Cursor.exists_of_kind (c := { c with tokens := ts }) hnext
      cases hk
      cases hk'
      exact hfun _ _ _ _ _ (hc.trans (congrArg _ hts))

include ih in
theorem classDeclaration_succ :
    Follows spots lo lo (Indexed.classDeclaration (fuel + 1))
      (Parser.classDeclaration (fuel + 1)) := by
  unfold Indexed.classDeclaration Parser.classDeclaration
  exact (Follows.expectName _).bind fun _ => Follows.superclassReference.bind fun _ =>
    .expect fun _ => (ih.members [] []).bind fun _ => .expect fun _ => .pure _ (by omega)

include ih in
theorem members_succ (methods getters : List Function) :
    Follows spots lo lo (Indexed.members (fuel + 1) methods getters)
      (Parser.members (fuel + 1) methods getters) := by
  unfold Indexed.members Parser.members
  refine .look fun c => .position fun start hstart => ?_
  have hmethod : Follows spots start lo
      (do let method ← Indexed.function fuel .method
          Indexed.progressed start
          Indexed.members fuel (method :: methods) getters)
      (do let method ← Parser.function fuel .method
          Parser.members fuel (method :: methods) getters) :=
    (ih.function _).bind fun _ => .progressed (Nat.lt_succ_self start)
      ((ih.members _ _).past (Nat.le_succ_of_le hstart))
  have hgetter : Follows spots start lo
      (do let getter ← Indexed.getter fuel
          Indexed.progressed start
          Indexed.members fuel methods (getter :: getters))
      (do let getter ← Parser.getter fuel
          Parser.members fuel methods (getter :: getters)) :=
    ih.getter.bind fun _ => .progressed (Nat.lt_succ_self start)
      ((ih.members _ _).past (Nat.le_succ_of_le hstart))
  split
  · rename_i hc
    refine .nextIs_other (by simp [hc]) (.isAtEnd ?_)
    rw [hc]
    exact Follows.pure _ hstart c
  · rename_i hc
    exact .nextIs_here hc rfl (Follows.pure _ hstart c)
  · rename_i hbrace hc
    refine .nextIs_other (fun t ht hk => ?_) (.isAtEnd ?_)
    · obtain ⟨kind, lexeme, line⟩ := t
      rw [hc] at ht
      cases ht
      cases hk
      exact hbrace _ _ rfl
    rw [hc]
    refine .nextButOneIs ?_
    rw [hc]
    exact hmethod c
  · rename_i hend hbrace hparen
    refine .nextIs_other (fun t ht hk => ?_) (.isAtEnd ?_)
    · obtain ⟨ts, hc⟩ := List.head?_eq_some_iff.mp ht
      obtain ⟨kind, lexeme, line⟩ := t
      cases hk
      exact hbrace _ _ _ hc
    rw [List.isEmpty_eq_false_iff.mpr hend]
    refine .nextButOneIs ?_
    rw [decide_eq_false (fun h => ?_)]
    · exact hgetter c
    · obtain ⟨t, ts, hc⟩ := List.exists_cons_of_ne_nil hend
      rw [hc, List.getElem?_cons_succ, ← List.head?_eq_getElem?] at h
      obtain ⟨⟨kind, lexeme, line⟩, ts', hts, hk⟩ :=
        Cursor.exists_of_kind (c := { c with tokens := ts }) h
      cases hk
      exact hparen _ _ _ _ (hc.trans (congrArg _ hts))

include ih in
theorem initializer_succ :
    Follows spots lo lo (Indexed.initializer (fuel + 1)) (Parser.initializer (fuel + 1)) := by
  unfold Indexed.initializer Parser.initializer
  refine (Follows.accept _).bind fun b => ?_
  cases b with
  | false => exact .pure _ (Nat.le_refl _)
  | true => exact ih.expression.bind fun _ => .pure _ (Nat.le_succ _)

include ih in
theorem statement_succ :
    Follows spots lo (lo + 1) (Indexed.statement (fuel + 1)) (Parser.statement (fuel + 1)) := by
  unfold Indexed.statement Parser.statement
  refine .peek (fun c hc => ?_) fun c t ts hc => ?_
  · rw [hc]
    exact ih.expressionStatement
  · rw [hc]
    obtain ⟨kind, lexeme, line⟩ := t
    dsimp only [Spot.kind?]
    split
    case h_9 =>
      split
      all_goals first
        | exact ih.expressionStatement c
        | simp_all
    all_goals
      rename_i heq
      cases heq
    · exact .skip hc (Follows.behind ih.forStatement _)
    · exact .skip hc (Follows.behind ih.ifStatement _)
    · exact .skip hc (Follows.behind ih.printStatement _)
    · exact .skip hc (ih.returnStatement _)
    · exact .skip hc (Follows.behind ih.whileStatement _)
    · exact .skip hc (.jump .break _)
    · exact .skip hc (.jump .continue _)
    · exact .skip hc (Follows.behind (ih.block.bind fun _ => .pure _ (Nat.le_succ _)) _)

include ih in
theorem returnStatement_succ (t : Token) :
    FollowsBehind spots lo lo t (Indexed.returnStatement (fuel + 1))
      (Parser.returnStatement (fuel + 1) t.line) := by
  unfold Indexed.returnStatement Parser.returnStatement
  refine .previous (Follows.behind ?_ t)
  exact (ih.unlessNext _).bind fun _ => .expect fun _ => .pure _ (Nat.le_succ _)

include ih in
theorem unlessNext_succ (s : Symbol) :
    Follows spots lo lo (Indexed.unlessNext (fuel + 1) s) (Parser.unlessNext (fuel + 1) s) := by
  unfold Indexed.unlessNext Parser.unlessNext
  refine (Follows.nextIs _).bind fun b => ?_
  cases b with
  | false => exact ih.expression.bind fun _ => .pure _ (Nat.le_succ _)
  | true => exact .pure _ (Nat.le_refl _)

include ih in
theorem ifStatement_succ :
    Follows spots lo lo (Indexed.ifStatement (fuel + 1)) (Parser.ifStatement (fuel + 1)) := by
  unfold Indexed.ifStatement Parser.ifStatement
  refine .expect fun _ => ih.expression.bind fun _ => .expect fun _ => ih.statement.bind fun _ =>
    (Follows.accept _).bind fun b => ?_
  cases b with
  | false => exact .pure _ (by omega)
  | true => exact ih.statement.bind fun _ => .pure _ (by omega)

include ih in
theorem forStatement_succ :
    Follows spots lo lo (Indexed.forStatement (fuel + 1)) (Parser.forStatement (fuel + 1)) := by
  unfold Indexed.forStatement Parser.forStatement
  exact .expect fun _ => ih.forStart.bind fun _ => (ih.unlessNext _).bind fun _ =>
    .expect fun _ => (ih.unlessNext _).bind fun _ => .expect fun _ =>
      ih.statement.bind fun _ => .pure _ (by omega)

include ih in
theorem forStart_succ :
    Follows spots lo lo (Indexed.forStart (fuel + 1)) (Parser.forStart (fuel + 1)) := by
  unfold Indexed.forStart Parser.forStart
  refine .peekKind fun c => ?_
  split
  · rename_i heq
    obtain ⟨t, ts, hc, hk⟩ := Cursor.exists_of_kind heq
    exact .accept_taken hc hk (Follows.behind (.pure _ (Nat.le_succ _)) _)
  · rename_i heq
    obtain ⟨t, ts, hc, hk⟩ := Cursor.exists_of_kind heq
    refine .accept_other (by simp [hc, hk]) (.accept_taken hc hk (Follows.behind ?_ _))
    exact ih.varDeclaration.bind fun _ => .pure _ (Nat.le_succ _)
  · rename_i hsemi hvar
    refine .accept_other (fun t ht hk => ?_) (.accept_other (fun t ht hk => ?_) (Follows.bind
      ih.expressionStatement (fun _ => .pure _ (Nat.le_succ _)) c))
    · exact hsemi (by rw [ht, Option.map_some, hk])
    · exact hvar (by rw [ht, Option.map_some, hk])

end Indexing

theorem indexing_zero : Indexing spots 0 := by
  constructor
  case lambda | returnStatement =>
    intro lo t
    refine Follows.behind ?_ t
    simp only [lambda, returnStatement, Parser.lambda, Parser.returnStatement]
    exact .exhausted
  case declaration =>
    intro lo c _
    rw [declaration, Parser.declaration]
    exact Follows.exhausted c
  all_goals
    intros
    simp only [level, operand, chain, expression, ternary, assigned, unary, call, calls, arguments,
      argumentList, primary, group, functionRest, block, declarations, declared, classDeclaration,
      members, function, getter, varDeclaration, initializer, statement, expressionStatement,
      printStatement, unlessNext, whileStatement, ifStatement, forStatement, forStart,
      Parser.level, Parser.operand, Parser.chain, Parser.expression, Parser.ternary,
      Parser.assigned, Parser.unary, Parser.call, Parser.calls, Parser.arguments,
      Parser.argumentList, Parser.primary, Parser.group, Parser.functionRest, Parser.block,
      Parser.declarations, Parser.declared, Parser.classDeclaration, Parser.members,
      Parser.function, Parser.getter, Parser.varDeclaration, Parser.initializer, Parser.statement,
      Parser.expressionStatement, Parser.printStatement, Parser.unlessNext,
      Parser.whileStatement, Parser.ifStatement, Parser.forStatement, Parser.forStart]
    exact .exhausted

/-- A phrase is read by index as from a list. -/
theorem indexing (spots : List Spot) (fuel : Nat) : Indexing spots fuel := by
  induction fuel with
  | zero => exact indexing_zero
  | succ fuel ih =>
    exact {
      level := fun l => by
        unfold level Parser.level
        exact (ih.operand l).bind fun _ => ih.chain l _
      operand := ih.operand_succ
      chain := ih.chain_succ
      expression := by
        unfold expression Parser.expression
        exact ih.level _
      ternary := ih.ternary_succ
      assigned := ih.assigned_succ
      unary := ih.unary_succ
      call := by
        unfold call Parser.call
        exact ih.primary.bind fun _ => ih.calls _
      calls := ih.calls_succ
      arguments := ih.arguments_succ
      argumentList := ih.argumentList_succ
      primary := ih.primary_succ
      group := by
        unfold group Parser.group
        exact ih.expression.bind fun _ => .expect fun _ => .pure _ (by omega)
      lambda := ih.lambda_succ
      functionRest := ih.functionRest_succ
      block := by
        unfold block Parser.block
        exact (ih.declarations []).bind fun _ => .expect fun _ => .pure _ (Nat.le_refl _)
      declarations := ih.declarations_succ
      declaration := by
        unfold declaration Parser.declaration
        exact .recovering ih.declared
      declared := ih.declared_succ
      classDeclaration := ih.classDeclaration_succ
      members := ih.members_succ
      function := fun _ => by
        unfold function Parser.function
        exact (Follows.expectName _).bind fun _ => .expect fun _ =>
          (ih.functionRest _ _ _).past (Nat.le_succ _)
      getter := by
        unfold getter Parser.getter
        exact (Follows.expectName _).bind fun _ => .expect fun _ =>
          ih.block.bind fun _ => .pure _ (by omega)
      varDeclaration := by
        unfold varDeclaration Parser.varDeclaration
        exact (Follows.expectName _).bind fun _ => ih.initializer.bind fun _ =>
          .expect fun _ => .pure _ (by omega)
      initializer := ih.initializer_succ
      statement := ih.statement_succ
      expressionStatement := by
        unfold expressionStatement Parser.expressionStatement
        exact ih.expression.bind fun _ => .expect fun _ => .pure _ (Nat.le_succ _)
      printStatement := by
        unfold printStatement Parser.printStatement
        exact ih.expression.bind fun _ => .expect fun _ => .pure _ (by omega)
      returnStatement := ih.returnStatement_succ
      unlessNext := ih.unlessNext_succ
      whileStatement := by
        unfold whileStatement Parser.whileStatement
        exact .expect fun _ => ih.expression.bind fun _ => .expect fun _ =>
          ih.statement.bind fun _ => .pure _ (by omega)
      ifStatement := ih.ifStatement_succ
      forStatement := ih.forStatement_succ
      forStart := ih.forStart_succ }

theorem program_follows (fuel : Nat) (read : List Stmt) :
    Follows spots lo lo (program fuel read) (Parser.program fuel read) := by
  induction fuel generalizing lo read with
  | zero =>
    rw [program, Parser.program]
    exact .exhausted
  | succ fuel ih =>
    unfold program Parser.program
    refine .peekKind fun c => .position fun start hstart => .isAtEnd ?_
    cases hc : c.tokens with
    | nil => exact Follows.pure _ hstart c
    | cons t ts =>
      refine (indexing spots fuel).declaration.bind
        (fun s? => .progressed (Nat.lt_succ_self start) ?_) c (by simp [hc])
      cases s? with
      | none => exact (ih read).past (Nat.le_succ_of_le hstart)
      | some s => exact (ih (s :: read)).past (Nat.le_succ_of_le hstart)

end Indexed

/-- A program is read up to its end. -/
theorem Parser.tokens_of_program {fuel : Nat} {read statements : List Stmt} {c c' : Cursor}
    (h : program fuel read c = .ok statements c') : c'.tokens = [] := by
  induction fuel generalizing read c with
  | zero => cases h
  | succ fuel ih =>
    by_cases hc : c.tokens = []
    · rw [program_nil hc] at h
      cases h
      exact hc
    · rw [program_cons hc] at h
      obtain ⟨s?, c₁, -, hrest⟩ := Fueled.exists_of_bind_eq_ok h
      exact ih hrest

/-- A reader that has come to its place, which is one of the slice, one place after the other. -/
structure Reader.Onward (spots : List Spot) (r : Reader) : Prop where
  spots_eq : r.spots = spots
  inside : r.current < spots.length
  visited : r.visited = (List.range (r.current + 1)).reverse

theorem Cursor.Stands.onward {spots : List Spot} {c : Cursor} {r : Reader}
    (h : c.Stands spots r) : r.Onward spots :=
  ⟨h.spots_eq, by have := h.length_eq; omega, h.visited⟩

/-- A parser ends and never reads outside of its tokens. With enough fuel for the tokens it comes to
the end of the text, with no more errors than tokens. With any fuel it neither asks for a place that
is not in the slice nor goes on from an iteration that took no token. -/
theorem Indexed.program_ends (tokens : List Token) (endLine firstId : Nat) :
    (∀ fuel, (∃ statements r,
        program fuel [] (.start (Spot.slice tokens endLine) firstId) = .ok statements r ∧
          r.Onward (Spot.slice tokens endLine) ∧ r.current = tokens.length ∧
          r.errors.length ≤ tokens.length) ∨
      ∃ r, program fuel [] (.start (Spot.slice tokens endLine) firstId) =
          .error (.stop .outOfFuel) r ∧
        r.Onward (Spot.slice tokens endLine) ∧ fuel < Program.fuelFor tokens.length) ∧
    ∃ statements r, program (Program.fuelFor tokens.length) []
        (.start (Spot.slice tokens endLine) firstId) = .ok statements r ∧
      Program.ofTokens firstId tokens endLine =
        if r.errors.isEmpty then .ok ⟨statements, r.nextId⟩ else .error r.errors.reverse := by
  have hstart := Cursor.Stands.start tokens endLine firstId
  have hends (fuel : Nat) := program_follows fuel [] _ _ hstart (Nat.zero_le _)
  refine ⟨fun fuel => ?_, ?_⟩
  · have h := hends fuel
    match hp : Parser.program fuel [] ⟨tokens, endLine, firstId, []⟩ with
    | .ok statements c =>
      rw [hp] at h
      obtain ⟨r, hr, hs⟩ := h.exists_ok
      have hc := Parser.tokens_of_program hp
      have hcurrent : r.current = tokens.length := by
        have hlen := hstart.length_eq.symm.trans hs.length_eq
        simpa [Reader.start, hc] using hlen.symm
      have hload : c.load ≤ tokens.length := by
        have hcovers := Parser.program_covering fuel [] ⟨tokens, endLine, firstId, []⟩
        rw [hp] at hcovers
        exact hcovers
      refine .inl ⟨statements, r, hr, hs.onward, hcurrent, ?_⟩
      rw [hs.errors]
      simpa [Cursor.load, hc] using hload
    | .error e c =>
      rw [hp] at h
      obtain ⟨rfl, hfuel⟩ := Parser.program_error hp
      obtain ⟨r, hr, hs⟩ := h.exists_error
      exact .inr ⟨r, hr, hs.onward, hfuel⟩
  · have h := hends (Program.fuelFor tokens.length)
    obtain ⟨statements, c, hp⟩ := Cursor.exists_program ⟨tokens, endLine, firstId, []⟩
    rw [hp] at h
    obtain ⟨r, hr, hs⟩ := h.exists_ok
    refine ⟨statements, r, hr, ?_⟩
    rw [Program.ofTokens, hp, hs.errors, hs.nextId]

/-- The end of the text is needed: without it a parser runs out of its slice. -/
example : ∃ r, Indexed.program 40 [] (.start [.token ⟨.keyword .print, "print", 1⟩] 0) =
    .error .outside r :=
  ⟨_, rfl⟩

end LoxLang
