import LoxLang.Proofs.Grammar.Indexed
import LoxLang.Proofs.Grammar.Reading

/-!
Reading by index next to reading off the front of a list. A reader of a slice stands where a cursor
does if what is left of the slice is what the cursor has still to read. A step that takes a token
keeps the two together and leaves the reader behind the token, so that it can look back.
-/

namespace LoxLang

/-- The next place. -/
def Cursor.spot (c : Cursor) : Spot :=
  match c.tokens with
  | [] => .endOfText c.endLine
  | t :: _ => .token t

theorem Cursor.exists_of_kind {c : Cursor} {k : Kind}
    (h : c.tokens.head?.map Token.kind = some k) : ∃ t ts, c.tokens = t :: ts ∧ t.kind = k := by
  obtain ⟨t, ht, hk⟩ := Option.map_eq_some_iff.mp h
  obtain ⟨ts, hc⟩ := List.head?_eq_some_iff.mp ht
  exact ⟨t, ts, hc, hk⟩

theorem Cursor.spot_diagnostic (c : Cursor) (error : GrammarError) :
    c.spot.diagnostic error = c.diagnostic error := by
  unfold spot diagnostic
  cases c.tokens <;> rfl

/-- A reader of these places stands where a cursor does, and has been at each place before. -/
structure Cursor.Stands (spots : List Spot) (c : Cursor) (r : Reader) : Prop where
  spots_eq : r.spots = spots
  rest : spots.drop r.current = Spot.slice c.tokens c.endLine
  visited : r.visited = (List.range (r.current + 1)).reverse
  nextId : r.nextId = c.nextId
  errors : r.errors = c.errors

namespace Reader

/-- One place further. -/
def moved (r : Reader) : Reader :=
  { r with current := r.current + 1, visited := (r.current + 1) :: r.visited }

/-- The token before the next place. -/
def Behind (t : Token) (r : Reader) : Prop :=
  ∃ i, r.current = i + 1 ∧ r.spots[i]? = some (.token t)

end Reader

namespace Cursor.Stands

variable {spots : List Spot} {c : Cursor} {r : Reader} {t : Token} {ts : List Token}

theorem here (h : c.Stands spots r) : r.spots[r.current]? = some c.spot := by
  have hget : (spots.drop r.current)[0]? = some c.spot := by
    rw [h.rest, spot]
    cases c.tokens <;> rfl
  rwa [List.getElem?_drop, Nat.add_zero, ← h.spots_eq] at hget

theorem next (h : c.Stands spots r) (hc : c.tokens = t :: ts) :
    r.spots[r.current + 1]? = some (Cursor.spot { c with tokens := ts }) := by
  have hget : (spots.drop r.current)[1]? = some (Cursor.spot { c with tokens := ts }) := by
    rw [h.rest, spot, hc]
    cases ts <;> rfl
  rwa [List.getElem?_drop, ← h.spots_eq] at hget

/-- No place is behind the end of the text. -/
theorem next_end (h : c.Stands spots r) (hc : c.tokens = []) : r.spots[r.current + 1]? = none := by
  have hget : (spots.drop r.current)[1]? = none := by
    rw [h.rest, hc]
    rfl
  rwa [List.getElem?_drop, ← h.spots_eq] at hget

theorem length_eq (h : c.Stands spots r) :
    spots.length = r.current + c.tokens.length + 1 := by
  have hlen := congrArg List.length h.rest
  simp only [List.length_drop, Spot.slice, List.length_append, List.length_map,
    List.length_singleton] at hlen
  omega

theorem moved (h : c.Stands spots r) (hc : c.tokens = t :: ts) :
    Cursor.Stands spots { c with tokens := ts } r.moved where
  spots_eq := h.spots_eq
  rest := by
    show spots.drop (r.current + 1) = _
    rw [← List.drop_drop, h.rest, hc]
    rfl
  visited := by
    show (r.current + 1) :: r.visited = (List.range (r.current + 1 + 1)).reverse
    rw [h.visited, List.range_succ (n := r.current + 1), List.reverse_append]
    rfl
  nextId := h.nextId
  errors := h.errors

theorem behind (h : c.Stands spots r) (hc : c.tokens = t :: ts) : r.moved.Behind t := by
  refine ⟨r.current, rfl, ?_⟩
  show r.spots[r.current]? = _
  rw [h.here, spot, hc]

/-- Where there was a token, there is one to look back at from the end. -/
theorem behind_end {c' : Cursor} {r' : Reader} (h : c.Stands spots r) (hc : c.tokens ≠ [])
    (h' : c'.Stands spots r') (hc' : c'.tokens = []) :
    r.current < r'.current ∧ ∃ t, r'.Behind t := by
  have hpos := List.length_pos_iff.mpr hc
  have hlen := h.length_eq
  have hlen' := h'.length_eq
  rw [hc', List.length_nil] at hlen'
  refine ⟨by omega, c.tokens.getLast hc, r.current + (c.tokens.length - 1), by omega, ?_⟩
  rw [h'.spots_eq, ← List.getElem?_drop, h.rest, Spot.slice, List.getElem?_append_left
      (by rw [List.length_map]; exact Nat.sub_lt hpos Nat.one_pos),
    List.getElem?_map, ← List.getLast?_eq_getElem?, List.getLast?_eq_some_getLast hc]
  rfl

theorem report (h : c.Stands spots r) (d : Diagnostic) :
    Cursor.Stands spots { c with errors := d :: c.errors } { r with errors := d :: r.errors } :=
  ⟨h.spots_eq, h.rest, h.visited, h.nextId, by rw [h.errors]⟩

theorem freshId (h : c.Stands spots r) :
    Cursor.Stands spots { c with nextId := c.nextId + 1 } { r with nextId := r.nextId + 1 } :=
  ⟨h.spots_eq, h.rest, h.visited, by rw [h.nextId], h.errors⟩

theorem start (tokens : List Token) (endLine firstId : Nat) :
    Cursor.Stands (Spot.slice tokens endLine) ⟨tokens, endLine, firstId, []⟩
      (Reader.start (Spot.slice tokens endLine) firstId) :=
  ⟨rfl, rfl, rfl, rfl, rfl⟩

end Cursor.Stands

namespace Indexed

variable {α β : Type} {spots : List Spot} {c : Cursor} {r r₁ : Reader} {t : Token}
  {ts : List Token}

theorem bind_ok {x : Indexed α} {f : α → Indexed β} {a : α} (h : x r = .ok a r₁) :
    (x >>= f) r = f a r₁ := by
  show EStateM.bind x f r = f a r₁
  rw [EStateM.bind, h]

theorem bind_error {x : Indexed α} {f : α → Indexed β} {e : Halt} (h : x r = .error e r₁) :
    (x >>= f) r = .error e r₁ := by
  show EStateM.bind x f r = .error e r₁
  rw [EStateM.bind, h]

theorem bind_get (f : Reader → Indexed β) : ((get : Indexed Reader) >>= f) r = f r r :=
  rfl

theorem position_eq (r : Reader) : position r = .ok r.current r :=
  rfl

theorem progressed_eq {start : Nat} (h : start < r.current) : progressed start r = .ok () r := by
  rw [progressed, bind_ok (position_eq r), if_neg (Nat.not_le_of_lt h)]
  rfl

theorem spotAt_eq {i : Nat} {s : Spot} (h : r.spots[i]? = some s) : spotAt i r = .ok s r := by
  rw [spotAt, bind_get, h]
  rfl

theorem peek_eq (h : c.Stands spots r) : peek r = .ok c.spot r :=
  spotAt_eq h.here

theorem previous_eq (h : r.Behind t) : previous r = .ok (.token t) r := by
  obtain ⟨i, hi, ht⟩ := h
  rw [previous, bind_ok (position_eq r), hi]
  exact spotAt_eq ht

theorem isAtEnd_eq (h : c.Stands spots r) : isAtEnd r = .ok c.tokens.isEmpty r := by
  unfold isAtEnd
  rw [bind_ok (peek_eq h), Cursor.spot]
  cases c.tokens <;> rfl

theorem nextIs_eq (h : c.Stands spots r) (k : Kind) :
    nextIs k r = .ok (decide (c.tokens.head?.map Token.kind = some k)) r := by
  unfold nextIs
  rw [bind_ok (isAtEnd_eq h)]
  cases hc : c.tokens with
  | nil => rfl
  | cons t ts =>
    simp only [List.isEmpty_cons, Bool.false_eq_true, ↓reduceIte]
    rw [bind_ok (peek_eq h), Cursor.spot, hc]
    rfl

theorem nextIs_cases (h : c.Stands spots r) (k : Kind) :
    (∃ t ts, c.tokens = t :: ts ∧ t.kind = k ∧ nextIs k r = .ok true r) ∨
      (∀ t ∈ c.tokens.head?, t.kind ≠ k) ∧ nextIs k r = .ok false r := by
  rw [nextIs_eq h]
  cases c.tokens with
  | nil => exact .inr ⟨by simp, rfl⟩
  | cons t ts =>
    by_cases hk : t.kind = k
    · exact .inl ⟨t, ts, rfl, hk, by simp [hk]⟩
    · exact .inr ⟨by simpa using hk, by simp [hk]⟩

theorem nextButOneIs_eq (h : c.Stands spots r) (k : Kind) :
    nextButOneIs k r = .ok (decide (c.tokens[1]?.map Token.kind = some k)) r := by
  show EStateM.Result.ok (decide (r.spots[r.current + 1]?.bind Spot.kind? = some k)) r = _
  cases hc : c.tokens with
  | nil => rw [h.next_end hc]; rfl
  | cons t ts =>
    rw [h.next hc, Cursor.spot]
    cases ts <;> rfl

theorem moveOn_eq (h : c.Stands spots r) (hc : c.tokens = t :: ts) :
    moveOn r = .ok () r.moved := by
  have hlt : r.current + 1 < r.spots.length :=
    (List.getElem?_eq_some_iff.mp (h.next hc)).choose
  show (if r.current + 1 < r.spots.length then
    set r.moved else throw .outside : Indexed Unit) r = _
  rw [if_pos hlt]
  rfl

theorem advance_eq (h : c.Stands spots r) (hc : c.tokens = t :: ts) :
    advance r = .ok (.token t) r.moved := by
  unfold advance
  rw [bind_ok (isAtEnd_eq h), hc]
  simp only [List.isEmpty_cons, Bool.not_false, ↓reduceIte]
  rw [bind_ok (moveOn_eq h hc), previous_eq (h.behind hc)]

theorem skip_eq (h : c.Stands spots r) (hc : c.tokens = t :: ts) : skip r = .ok () r.moved := by
  unfold skip
  rw [bind_ok (advance_eq h hc)]
  rfl

theorem accept_cases (h : c.Stands spots r) (k : Kind) :
    (∃ t ts, c.tokens = t :: ts ∧ t.kind = k ∧ accept k r = .ok true r.moved) ∨
      (∀ t ∈ c.tokens.head?, t.kind ≠ k) ∧ accept k r = .ok false r := by
  unfold accept
  rcases nextIs_cases h k with ⟨t, ts, hc, hk, hr⟩ | ⟨hk, hr⟩
  · refine .inl ⟨t, ts, hc, hk, ?_⟩
    rw [bind_ok hr]
    exact bind_ok (skip_eq h hc)
  · refine .inr ⟨hk, ?_⟩
    rw [bind_ok hr]
    rfl

/-- At the end of a text that is not empty there is a token to look back at. -/
theorem skip_eq_end (h : c.Stands spots r) (hc : c.tokens = []) (hb : r.Behind t) :
    skip r = .ok () r := by
  have hadvance : advance r = .ok (.token t) r := by
    unfold advance
    rw [bind_ok (isAtEnd_eq h), hc]
    exact previous_eq hb
  unfold skip
  rw [bind_ok hadvance]
  rfl

/-- Skipping goes on to the same boundary as in a list. Fuel for each place is enough. -/
theorem boundary_eq (fuel : Nat) (last : Token) (h : c.Stands spots r) (hb : r.Behind last)
    (hfuel : c.tokens.length < fuel) :
    ∃ r', boundary fuel r = .ok () r' ∧ r.current ≤ r'.current ∧
      Cursor.Stands spots { c with tokens := Cursor.boundaryAfter last c.tokens } r' := by
  induction fuel generalizing c r last with
  | zero => exact absurd hfuel (Nat.not_lt_zero _)
  | succ fuel ih =>
    rw [boundary, bind_ok (position_eq r), bind_ok (isAtEnd_eq h)]
    cases hc : c.tokens with
    | nil => exact ⟨r, rfl, Nat.le_refl _, by rw [Cursor.boundaryAfter, ← hc]; exact h⟩
    | cons t ts =>
      simp only [List.isEmpty_cons, Bool.false_eq_true, ↓reduceIte]
      rw [bind_ok (previous_eq hb)]
      have stays (hstop : (decide (last.kind = .symbol .semicolon) ||
          Cursor.beginsStatement t.kind) = true) :
          Cursor.Stands spots { c with tokens := Cursor.boundaryAfter last (t :: ts) } r := by
        rw [Cursor.boundaryAfter, if_pos hstop, ← hc]
        exact h
      by_cases hsemi : (Spot.token last).kind? = some (.symbol .semicolon)
      · rw [if_pos hsemi]
        exact ⟨r, rfl, Nat.le_refl _, stays (by simp [Option.some.inj hsemi])⟩
      · rw [if_neg hsemi, bind_ok (peek_eq h), Cursor.spot, hc]
        by_cases hbegin : (Spot.token t).kind?.any Cursor.beginsStatement = true
        · rw [if_pos hbegin]
          exact ⟨r, rfl, Nat.le_refl _, stays (Bool.or_eq_true_iff.mpr (.inr hbegin))⟩
        · rw [if_neg hbegin, bind_ok (skip_eq h hc)]
          obtain ⟨r', hr, hle, hs⟩ := ih t (h.moved hc) (h.behind hc)
            (by rw [hc] at hfuel; exact Nat.lt_of_succ_lt_succ hfuel)
          have hmoved : progressed r.current r.moved = .ok () r.moved :=
            progressed_eq (Nat.lt_succ_self r.current)
          rw [bind_ok hmoved]
          refine ⟨r', hr, Nat.le_trans (Nat.le_succ _) hle, ?_⟩
          have hgoes : ¬(decide (last.kind = .symbol .semicolon) ||
              Cursor.beginsStatement t.kind) = true := fun h =>
            (Bool.or_eq_true_iff.mp h).elim (fun h => hsemi (congrArg some (of_decide_eq_true h)))
              hbegin
          rw [Cursor.boundaryAfter, if_neg hgoes]
          exact hs

/-- At the end there is nothing to skip, but a token to look back at. -/
theorem synchronize_eq (h : c.Stands spots r) (hb : c.tokens = [] → ∃ t, r.Behind t) :
    ∃ r', synchronize r = .ok () r' ∧ r.current ≤ r'.current ∧
      (c.tokens ≠ [] → r.current < r'.current) ∧
      Cursor.Stands spots { c with tokens := Cursor.skipToBoundary c.tokens } r' := by
  unfold synchronize
  have hfuel (c : Cursor) (r : Reader) (h : c.Stands spots r) :
      c.tokens.length < r.spots.length := by
    have := h.length_eq
    rw [h.spots_eq]
    omega
  cases hc : c.tokens with
  | nil =>
    obtain ⟨t, hb⟩ := hb hc
    obtain ⟨r', hr, hle, hs⟩ := boundary_eq r.spots.length t h hb (hfuel c r h)
    rw [bind_ok (skip_eq_end h hc hb), bind_get, hr]
    rw [hc] at hs
    exact ⟨r', rfl, hle, fun hne => absurd rfl hne, hs⟩
  | cons t ts =>
    have hm := h.moved hc
    obtain ⟨r', hr, hle, hs⟩ := boundary_eq r.moved.spots.length t hm (h.behind hc) (hfuel _ _ hm)
    rw [bind_ok (skip_eq h hc), bind_get, hr]
    exact ⟨r', rfl, Nat.le_trans (Nat.le_succ _) hle, fun _ => hle, hs⟩

end Indexed

end LoxLang
