import LoxLang.Proofs.Grammar.Carrying
import LoxLang.Proofs.Grammar.Renumbering
import LoxLang.Proofs.Grammar.StatementSoundness

/-!
Recovery from syntax errors. A declaration that fails ends a piece of the program: reading goes on
at the next statement boundary as if the program began there, and the piece in front has the errors
that it has by itself. So the errors of a program are those of its pieces, one behind the other.
-/

namespace LoxLang

namespace Token

/-- Whether a statement may begin at an index: at the end, behind a semicolon, or at a keyword that
begins a statement. -/
def Boundary (tokens : List Token) (p : Nat) : Prop :=
  p = tokens.length ∨ (∃ q t, p = q + 1 ∧ tokens[q]? = some t ∧ t.kind = .symbol .semicolon) ∨
    ∃ t k, tokens[p]? = some t ∧ t.kind = .keyword k ∧
      k ∈ [.class, .fun, .var, .for, .if, .while, .print, .return]

/-- Where reading goes on behind an error at an index: there, if it is the end, and else at the next
boundary. -/
inductive Resumes (tokens : List Token) (t : Nat) : Nat → Prop
  | atEnd (h : t = tokens.length) : Resumes tokens t t
  | boundary {p} (ht : t < p) (hp : p ≤ tokens.length) (h : Boundary tokens p)
      (hleast : ∀ k, t < k → k < p → ¬ Boundary tokens k) : Resumes tokens t p

variable {tokens : List Token} {t p : Nat}

theorem beginsStatement_iff {kind : Kind} : Cursor.beginsStatement kind ↔
    ∃ k, kind = .keyword k ∧ k ∈ [.class, .fun, .var, .for, .if, .while, .print, .return] := by
  cases kind <;> simp [Cursor.beginsStatement]

/-- Skipping from the token behind `last` on stops at the next boundary. -/
theorem boundaryAfter_drop {t : Nat} {last : Token} (h : tokens[t]? = some last) :
    ∃ p, t < p ∧ Resumes tokens t p ∧
      Cursor.boundaryAfter last (tokens.drop (t + 1)) = tokens.drop p := by
  have ht : t < tokens.length := (List.getElem?_eq_some_iff.mp h).1
  by_cases hend : t + 1 = tokens.length
  · refine ⟨t + 1, Nat.lt_succ_self t, .boundary (Nat.lt_succ_self t) (Nat.le_of_eq hend)
      (.inl hend) fun k hk hkp => absurd hk (by omega), ?_⟩
    rw [List.drop_of_length_le (Nat.le_of_eq hend.symm)]
    with_unfolding_all rfl
  · have hlt : t + 1 < tokens.length := by omega
    rw [List.drop_eq_getElem_cons hlt, Cursor.boundaryAfter]
    split
    · rename_i hb
      refine ⟨t + 1, Nat.lt_succ_self t, .boundary (Nat.lt_succ_self t) (Nat.le_of_lt hlt) ?_
        fun k hk hkp => absurd hk (by omega), (List.drop_eq_getElem_cons hlt).symm⟩
      rcases Bool.or_eq_true .. ▸ hb with hsemi | hbegins
      · exact .inr (.inl ⟨t, last, rfl, h, of_decide_eq_true hsemi⟩)
      · obtain ⟨k, hk, hmem⟩ := beginsStatement_iff.mp hbegins
        exact .inr (.inr ⟨_, k, List.getElem?_eq_getElem hlt, hk, hmem⟩)
    · rename_i hno
      obtain ⟨p, hp, hresumes, heq⟩ := boundaryAfter_drop (List.getElem?_eq_getElem hlt)
      refine ⟨p, by omega, ?_, heq⟩
      cases hresumes with
      | atEnd => omega
      | boundary _ hle hb hleast =>
        refine .boundary (by omega) hle hb fun k hk hkp => ?_
        rcases Nat.eq_or_lt_of_le (Nat.succ_le_of_lt hk) with rfl | hk'
        · rintro (he | ⟨q, u, hq, hu, hsemi⟩ | ⟨u, k, hu, hk, hmem⟩)
          · omega
          · cases hq
            cases h.symm.trans hu
            exact hno (by simp [hsemi])
          · rw [List.getElem?_eq_getElem hlt] at hu
            cases hu
            exact hno (by simp [beginsStatement_iff.mpr ⟨k, hk, hmem⟩])
        · exact hleast k hk' hkp
termination_by tokens.length - t

/-- Recovery from an error at an index goes on where it should. -/
theorem skipToBoundary_drop (ht : t ≤ tokens.length) : ∃ p, Resumes tokens t p ∧
    Cursor.skipToBoundary (tokens.drop t) = tokens.drop p := by
  rcases Nat.eq_or_lt_of_le ht with rfl | hlt
  · exact ⟨_, .atEnd rfl, by rw [List.drop_length]; rfl⟩
  · obtain ⟨p, -, hp, heq⟩ := boundaryAfter_drop (List.getElem?_eq_getElem hlt)
    exact ⟨p, hp, by rw [List.drop_eq_getElem_cons hlt]; exact heq⟩

/-- There is one place to go on. -/
theorem Resumes.unique {q : Nat} (hp : Resumes tokens t p) (hq : Resumes tokens t q) : p = q := by
  cases hp with
  | atEnd h =>
    cases hq with
    | atEnd => rfl
    | boundary => omega
  | boundary hp hple hpb hpleast =>
    cases hq with
    | atEnd => omega
    | boundary hq hqle hqb hqleast =>
      rcases Nat.lt_trichotomy p q with h | h | h
      · exact (hqleast p hp h hpb).elim
      · exact h
      · exact (hpleast q hq h hqb).elim

/-- A program that is cut off where reading goes on ends there. -/
theorem Resumes.take (h : Resumes tokens t p) :
    Resumes (tokens.take p) t (tokens.take p).length := by
  have hp : p ≤ tokens.length := by
    cases h with
    | atEnd h => exact Nat.le_of_eq h
    | boundary _ h => exact h
  have hlen : (tokens.take p).length = p := List.length_take_of_le hp
  cases h with
  | atEnd h =>
    rw [hlen]
    exact .atEnd hlen.symm
  | boundary ht _ hb hleast =>
    rw [hlen]
    refine .boundary ht (Nat.le_of_eq hlen.symm) (.inl hlen.symm) fun k hk hkp hcut => ?_
    refine hleast k hk hkp ?_
    rcases hcut with h | ⟨q, u, hq, hu, hsemi⟩ | ⟨u, l, hu, hl⟩
    · omega
    · rw [List.getElem?_take_of_lt (by omega)] at hu
      exact .inr (.inl ⟨q, u, hq, hu, hsemi⟩)
    · rw [List.getElem?_take_of_lt hkp] at hu
      exact .inr (.inr ⟨u, l, hu, hl⟩)

end Token

/-- Whether a program from a cursor on is read to its end with these errors, the last one first. -/
def Cursor.Ends (c : Cursor) (errors : List Diagnostic) : Prop :=
  ∃ fuel read statements c', Parser.program fuel read c = .ok statements c' ∧ c'.errors = errors

/-- Where a program is when it has read declarations from a cursor on. -/
inductive Cursor.Arrives (start : Cursor) : Cursor → Prop
  | start : Arrives start start
  | next {fuel s? c c'} (h : Arrives start c) (hc : c.tokens ≠ [])
      (hd : Parser.declaration fuel c = .ok s? c') : Arrives start c'

namespace Parser

/-- A declaration is read in the same way with more fuel. -/
theorem declaration_mono {fuel fuel' : Nat} {c c' : Cursor} {s? : Option Stmt} (h : fuel ≤ fuel')
    (hd : declaration fuel c = .ok s? c') : declaration fuel' c = .ok s? c' :=
  (carrying h).declaration.eq_ok hd

/-- A program is read declaration by declaration. -/
theorem program_cons {fuel : Nat} {read : List Stmt} {c : Cursor} (hc : c.tokens ≠ []) :
    program (fuel + 1) read c =
      (declaration fuel >>= fun s? => program fuel (s?.toList ++ read)) c := by
  obtain ⟨t, ts, ht⟩ := List.exists_cons_of_ne_nil hc
  have hpeek : peek? c = .ok (some t.kind) c := by
    show EStateM.Result.ok (c.tokens.head?.map Token.kind) c = _
    rw [ht]
    with_unfolding_all rfl
  rw [program, Fueled.bind_ok hpeek]
  refine congrArg (fun f => (declaration fuel >>= f) c) (funext fun s? => ?_)
  cases s? <;> rfl

theorem program_nil {fuel : Nat} {read : List Stmt} {c : Cursor} (hc : c.tokens = []) :
    program (fuel + 1) read c = .ok read.reverse c := by
  have hpeek : peek? c = .ok none c := by
    show EStateM.Result.ok (c.tokens.head?.map Token.kind) c = _
    rw [hc]
    with_unfolding_all rfl
  rw [program, Fueled.bind_ok hpeek]
  rfl

/-- At the end of a program, what was reported and read before does not count. -/
theorem program_framed {fuel fuel' : Nat} (h : fuel ≤ fuel') {M M' : Frame} (hM : M.Alike M')
    (hrest : M.rest = []) {read read' statements : List Stmt} {c c' : Cursor}
    (hp : program fuel read (M.around c) = .ok statements c') : ∃ statements' c₁,
      c' = M.around c₁ ∧ program fuel' read' (M'.around c) = .ok statements' (M'.around c₁) := by
  induction fuel generalizing fuel' read read' c with
  | zero => cases hp
  | succ fuel ih =>
    obtain ⟨fuel', rfl⟩ := Nat.exists_eq_add_of_le' (Nat.le_trans (Nat.le_add_left 1 fuel) h)
    have hle := Nat.le_of_succ_le_succ h
    have hhead := hM.head? (c := c)
    by_cases hc : (M.around c).tokens = []
    · rw [program_nil hc] at hp
      cases hp
      rw [hc] at hhead
      exact ⟨_, c, rfl, program_nil (List.head?_eq_none_iff.mp hhead)⟩
    · rw [program_cons hc] at hp
      obtain ⟨s?, c₁, hd, hp⟩ := Fueled.exists_of_bind_eq_ok hp
      have hframed := (carrying hle).declaration.framed M M' hM c
      rw [CarriesIn, hd] at hframed
      obtain ⟨c₁, rfl, hd'⟩ := hframed (by rw [hrest]; exact List.nil_suffix)
      obtain ⟨statements', c₂, rfl, hp'⟩ := ih hle hp
      refine ⟨statements', c₂, rfl, ?_⟩
      have hc' : (M'.around c).tokens ≠ [] := by
        intro hnil
        rw [hnil] at hhead
        exact hc (List.head?_eq_none_iff.mp hhead.symm)
      rw [program_cons hc', Fueled.bind_ok hd', hp']

theorem program_mono {fuel fuel' : Nat} (h : fuel ≤ fuel') {read statements : List Stmt}
    {c c' : Cursor} (hp : program fuel read c = .ok statements c') (read' : List Stmt) :
    ∃ statements', program fuel' read' c = .ok statements' c' := by
  rw [← Frame.plain_around c] at hp
  obtain ⟨statements', c₁, rfl, hp'⟩ : ∃ statements' c₁, c' = (Frame.plain c.endLine).around c₁ ∧
      program fuel' read' ((Frame.plain c.endLine).around c) =
        .ok statements' ((Frame.plain c.endLine).around c₁) :=
    program_framed h (.refl _) rfl hp
  rw [Frame.plain_around] at hp'
  exact ⟨statements', hp'⟩

/-- A program can only be left unread for want of fuel, and not with the fuel for its tokens. -/
theorem program_error {fuel : Nat} {read : List Stmt} {c c' : Cursor} {e : Stop}
    (h : program fuel read c = .error e c') :
    e = .outOfFuel ∧ fuel < Program.fuelFor c.tokens.length := by
  cases e with
  | failed d => exact absurd h (program_ne_failed _ _ _ _ _)
  | outOfFuel =>
    refine ⟨rfl, Nat.lt_of_not_le fun hle => ?_⟩
    have hr := Sound.program fuel read c (by unfold Program.fuelFor at hle; omega)
    rw [h] at hr
    exact hr

end Parser

namespace Cursor

variable {c c' start : Cursor} {es es' : List Diagnostic}

/-- With the fuel for its tokens a program is read to its end. -/
theorem exists_program (c : Cursor) : ∃ statements c',
    Parser.program (Program.fuelFor c.tokens.length) [] c = .ok statements c' := by
  cases hp : Parser.program (Program.fuelFor c.tokens.length) [] c with
  | ok statements c' => exact ⟨_, _, rfl⟩
  | error e c' => exact absurd (Parser.program_error hp).2 (Nat.lt_irrefl _)

theorem exists_ends (c : Cursor) : ∃ es, c.Ends es := by
  obtain ⟨statements, c', hp⟩ := c.exists_program
  exact ⟨_, _, _, _, _, hp, rfl⟩

theorem Ends.framed {M M' : Frame} (hM : M.Alike M') (hrest : M.rest = [])
    (h : (M.around c).Ends es) :
    ∃ ds, es = ds ++ M.errors ∧ (M'.around c).Ends (ds ++ M'.errors) := by
  obtain ⟨fuel, read, statements, c', hp, rfl⟩ := h
  obtain ⟨statements', c₁, rfl, hp'⟩ := Parser.program_framed (Nat.le_refl fuel) hM hrest hp
  exact ⟨c₁.errors, rfl, _, read, _, _, hp', rfl⟩

/-- A program has the same errors with more fuel, whatever was read before. -/
theorem Ends.unique (h : c.Ends es) (h' : c.Ends es') : es = es' := by
  obtain ⟨fuel, read, statements, c₁, hp, rfl⟩ := h
  obtain ⟨fuel', read', statements', c₁', hp', rfl⟩ := h'
  obtain ⟨_, hp⟩ := Parser.program_mono (Nat.le_max_left fuel fuel') hp []
  obtain ⟨_, hp'⟩ := Parser.program_mono (Nat.le_max_right fuel fuel') hp' []
  obtain ⟨-, rfl⟩ := EStateM.Result.ok.inj (hp.symm.trans hp')
  rfl

/-- A program has the errors that it has behind its first declaration. -/
theorem Ends.step {fuel : Nat} {s? : Option Stmt} (hc : c.tokens ≠ [])
    (hd : Parser.declaration fuel c = .ok s? c') (h : c'.Ends es) : c.Ends es := by
  obtain ⟨fuel', read, statements, c₁, hp, rfl⟩ := h
  have hd := Parser.declaration_mono (Nat.le_max_left fuel fuel') hd
  obtain ⟨statements', hp⟩ := Parser.program_mono (Nat.le_max_right fuel fuel') hp (s?.toList ++ [])
  refine ⟨max fuel fuel' + 1, [], statements', c₁, ?_, rfl⟩
  rw [Parser.program_cons hc, Fueled.bind_ok hd, hp]

theorem Arrives.ends (h : start.Arrives c) (hc : c.Ends es) : start.Ends es := by
  induction h with
  | start => exact hc
  | next _ hne hd ih => exact ih (hc.step hne hd)

theorem Arrives.suffix (h : start.Arrives c) : c.tokens <:+ start.tokens := by
  induction h with
  | start => exact List.suffix_refl _
  | @next fuel s? c c' _ _ hd ih =>
    have hy := (Parser.carrying (Nat.le_refl fuel)).declaration.yields c
    rw [hd] at hy
    exact hy.trans ih

/-- Where a program arrives in front of a rest, it arrives in front of another. -/
theorem Arrives.framed {M M' : Frame} (hM : M.Alike M') (h : (M.around start).Arrives c)
    (hs : M.rest <:+ c.tokens) :
    ∃ c₁, c = M.around c₁ ∧ (M'.around start).Arrives (M'.around c₁) := by
  induction h with
  | start => exact ⟨start, rfl, .start⟩
  | @next fuel s? c c' _ hc hd ih =>
    have hcarries := (Parser.carrying (Nat.le_refl fuel)).declaration
    have hy := hcarries.yields c
    rw [hd] at hy
    obtain ⟨c₁, rfl, harrives⟩ := ih (hs.trans hy)
    have hframed := hcarries.framed M M' hM c₁
    rw [Parser.CarriesIn, hd] at hframed
    obtain ⟨c₂, rfl, hd'⟩ := hframed hs
    have hc' : (M'.around c₁).tokens ≠ [] := by
      have hhead := hM.head? (c := c₁)
      intro hnil
      rw [hnil] at hhead
      exact hc (List.head?_eq_none_iff.mp hhead.symm)
    exact ⟨c₂, rfl, harrives.next hc' hd'⟩

end Cursor

namespace Program

/-- The errors of a program. -/
def errors (tokens : List Token) (endLine : Nat) : List Diagnostic :=
  match ofTokens 0 tokens endLine with
  | .ok _ => []
  | .error errors => errors

variable {tokens : List Token} {endLine firstId : Nat} {es : List Diagnostic}

theorem ofTokens_of_ends (h : Cursor.Ends ⟨tokens, endLine, firstId, []⟩ es) :
    es = [] ∧ (∃ p, ofTokens firstId tokens endLine = .ok p) ∨
      ofTokens firstId tokens endLine = .error es.reverse := by
  obtain ⟨statements, c, hp⟩ := Cursor.exists_program ⟨tokens, endLine, firstId, []⟩
  have hes : c.errors = es := Cursor.Ends.unique ⟨_, _, _, _, hp, rfl⟩ h
  unfold ofTokens
  rw [hp]
  dsimp only
  rw [hes]
  split
  · rename_i hnil
    exact .inl ⟨List.isEmpty_iff.mp hnil, _, rfl⟩
  · exact .inr rfl

/-- Occurrences may be numbered from elsewhere on. -/
theorem errors_of_ends (h : Cursor.Ends ⟨tokens, endLine, firstId, []⟩ es) :
    errors tokens endLine = es.reverse := by
  have hlike : ReadAlike (.renumbering firstId 0 Eq) (ofTokens firstId tokens endLine)
      (ofTokens 0 tokens endLine) :=
    ofTokens_like (Likeness.renumbering_counts firstId 0 Eq) ⟨0, rfl, rfl⟩
      (Token.forall₂_like (fun _ => rfl) tokens) rfl
  unfold errors
  rcases ofTokens_of_ends h with ⟨rfl, p, hp⟩ | hp <;> rw [hp] at hlike
  · cases h' : ofTokens 0 tokens endLine with
    | ok p' => rfl
    | error errors =>
      rw [h'] at hlike
      exact hlike.elim
  · cases h' : ofTokens 0 tokens endLine with
    | ok p' =>
      rw [h'] at hlike
      exact hlike.elim
    | error errors =>
      rw [h'] at hlike
      have hlike : List.Forall₂ (Diagnostic.Like Eq) es.reverse errors := hlike
      have heq : List.Forall₂ Eq es.reverse errors := hlike.imp fun _ _ h => h.eq.symm
      exact (List.forall₂_eq_eq_eq ▸ heq : es.reverse = errors).symm

/-- What was reported before stays in front of what is found behind. -/
theorem ends_of_errors (tokens : List Token) (endLine nextId : Nat) (before : List Diagnostic) :
    Cursor.Ends ⟨tokens, endLine, nextId, before⟩ ((errors tokens endLine).reverse ++ before) := by
  obtain ⟨es, h⟩ := Cursor.exists_ends ⟨tokens, endLine, nextId, []⟩
  rw [errors_of_ends h, List.reverse_reverse]
  have hM : Frame.Alike ⟨[], endLine, []⟩ ⟨[], endLine, before⟩ := .inl ⟨rfl, rfl⟩
  have hplain : Frame.around ⟨[], endLine, []⟩ ⟨tokens, endLine, nextId, []⟩ =
      ⟨tokens, endLine, nextId, []⟩ := by simp [Frame.around]
  rw [← hplain] at h
  obtain ⟨ds, rfl, hends⟩ := h.framed hM rfl
  simpa [Frame.around] using hends

/-- What comes of a declaration that fails at index `t`, with `p` as the place to go on. Its error
is the last one of the piece in front of `p`, and reading goes on as if it began at `p`. -/
structure Recovers (tokens : List Token) (endLine : Nat) (c c' : Cursor) (d : Diagnostic)
    (t p : Nat) : Prop where
  place : t ≤ tokens.length ∧ c'.tokens = tokens.drop t ∧ ∃ error, d = c'.diagnostic error
  resumes : Token.Resumes tokens t p
  goesOn : ∃ fuel, Parser.declaration fuel c =
    .ok none ⟨tokens.drop p, endLine, c'.nextId, d :: c'.errors⟩
  behind : errors tokens endLine = (d :: c'.errors).reverse ++ errors (tokens.drop p) endLine
  /-- The line on which a piece ends counts only where the program ends too. -/
  before : ∀ endLine', (t = tokens.length → endLine' = endLine) →
    errors (tokens.take p) endLine' = (d :: c'.errors).reverse

variable {c c' : Cursor} {d : Diagnostic} {fuel t p : Nat}

/-- What is in front of the place to go on cannot be told from the whole program before `t`. -/
theorem alike_of_resumes {endLine' : Nat} (h : Token.Resumes tokens t p)
    (hline : t = tokens.length → endLine' = endLine) (before before' : List Diagnostic) :
    Frame.Alike ⟨tokens.drop t, endLine, before⟩ ⟨(tokens.take p).drop t, endLine', before'⟩ := by
  cases h with
  | atEnd h => exact .inl ⟨by rw [h, List.take_length], hline h⟩
  | boundary ht hp =>
    have hlt : t < tokens.length := Nat.lt_of_lt_of_le ht hp
    have hcut : t < (tokens.take p).length := by rwa [List.length_take_of_le hp]
    refine .inr ⟨tokens[t], tokens.drop (t + 1), (tokens.take p).drop (t + 1),
      List.drop_eq_getElem_cons hlt, ?_, ?_⟩
    · rw [List.drop_eq_getElem_cons hcut, List.getElem_take]
    · rw [List.drop_take]
      exact List.take_prefix _ _

/-- The piece that a failing declaration ends has the errors that it has by itself. -/
theorem errors_take {endLine' : Nat} (h : Cursor.Arrives ⟨tokens, endLine, firstId, []⟩ c)
    (hc : c.tokens ≠ []) (hf : Parser.declared fuel c = .error (.failed d) c')
    (ht : c'.tokens = tokens.drop t) (hp : Token.Resumes tokens t p)
    (hline : t = tokens.length → endLine' = endLine) :
    errors (tokens.take p) endLine' = (d :: c'.errors).reverse := by
  have htp : t ≤ p := by
    cases hp with
    | atEnd => exact Nat.le_refl t
    | boundary ht => exact Nat.le_of_lt ht
  have hM := alike_of_resumes hp hline [] []
  have hcarries := (Parser.carrying (Nat.le_refl fuel)).declared
  generalize hframe : (⟨tokens.drop t, endLine, []⟩ : Frame) = M at hM
  generalize hframe' : (⟨(tokens.take p).drop t, endLine', []⟩ : Frame) = M' at hM
  have hrest : M.rest = tokens.drop t := by rw [← hframe]
  have hstart : M.around ⟨tokens.take t, endLine, firstId, []⟩ =
      ⟨tokens, endLine, firstId, []⟩ := by
    simp [← hframe, Frame.around]
  have hstart' : M'.around ⟨tokens.take t, endLine, firstId, []⟩ =
      ⟨tokens.take p, endLine', firstId, []⟩ := by
    have htake : tokens.take t = (tokens.take p).take t := by
      rw [List.take_take, Nat.min_eq_left htp]
    simp [← hframe', Frame.around, htake]
  have hy := hcarries.yields c
  rw [hf] at hy
  rw [← hstart] at h
  obtain ⟨c₁, rfl, h'⟩ := h.framed hM (by rw [hrest, ← ht]; exact hy.1)
  have hframed := hcarries.framed M M' hM c₁
  rw [Parser.CarriesIn, hf] at hframed
  obtain ⟨c₂, rfl, hf'⟩ := hframed (by simp [hrest, ht])
  have hnil : c₂.tokens = [] := by
    have hlen := congrArg List.length ht
    simp only [Frame.around, hrest, List.length_append] at hlen
    exact List.eq_nil_of_length_eq_zero (by omega)
  have hskip : Cursor.skipToBoundary (M'.around c₂).tokens = [] := by
    have hle : t ≤ (tokens.take p).length := by
      cases hp with
      | atEnd h => simp [h]
      | boundary _ hp => rwa [List.length_take_of_le hp]
    obtain ⟨q, hq, heq⟩ := Token.skipToBoundary_drop hle
    rw [← hp.take.unique hq, List.drop_length] at heq
    simpa [Frame.around, hnil, ← hframe'] using heq
  have hd : Parser.declaration (fuel + 1) (M'.around c₁) =
      .ok none { M'.around c₂ with errors := d :: (M'.around c₂).errors, tokens := [] } := by
    rw [Parser.declaration, Parser.recovering, hf']
    simp only [hskip]
  have hc' : (M'.around c₁).tokens ≠ [] := by
    have hhead := hM.head? (c := c₁)
    intro hnil
    rw [hnil] at hhead
    exact hc (List.head?_eq_none_iff.mp hhead.symm)
  have hends := h'.ends (.step hc' hd ⟨1, [], _, _, Parser.program_nil rfl, rfl⟩)
  rw [hstart'] at hends
  rw [errors_of_ends hends]
  simp [Frame.around, ← hframe, ← hframe']

/-- A declaration that fails ends a piece. -/
theorem recovers (h : Cursor.Arrives ⟨tokens, endLine, firstId, []⟩ c) (hc : c.tokens ≠ [])
    (hf : Parser.declared fuel c = .error (.failed d) c') :
    ∃ t p, Recovers tokens endLine c c' d t p := by
  have hcarries := (Parser.carrying (Nat.le_refl fuel)).declared
  have hy := hcarries.yields c
  rw [hf] at hy
  obtain ⟨hsuffix, error, herror⟩ := hy
  obtain ⟨front, hfront⟩ : c'.tokens <:+ tokens := hsuffix.trans h.suffix
  have ht : c'.tokens = tokens.drop front.length := by rw [← hfront, List.drop_left]
  have hle : front.length ≤ tokens.length := by rw [← hfront]; simp
  have hend : c'.endLine = endLine := by
    have hM := Frame.Alike.refl ⟨[], endLine, []⟩
    have hstart : Frame.around ⟨[], endLine, []⟩ ⟨tokens, endLine, firstId, []⟩ =
        ⟨tokens, endLine, firstId, []⟩ := by simp [Frame.around]
    rw [← hstart] at h
    obtain ⟨c₁, rfl, -⟩ := h.framed hM List.nil_suffix
    have hframed := hcarries.framed _ _ hM c₁
    rw [Parser.CarriesIn, hf] at hframed
    obtain ⟨c₂, rfl, -⟩ := hframed List.nil_suffix
    with_unfolding_all rfl
  obtain ⟨p, hp, hskip⟩ := Token.skipToBoundary_drop hle
  have hd : Parser.declaration (fuel + 1) c =
      .ok none ⟨tokens.drop p, endLine, c'.nextId, d :: c'.errors⟩ := by
    rw [Parser.declaration, Parser.recovering, hf]
    simp only [ht, hskip, hend]
  refine ⟨front.length, p, ⟨hle, ht, error, herror⟩, hp, ⟨_, hd⟩, ?_,
    fun _ => errors_take h hc hf ht hp⟩
  have hends := h.ends (.step hc hd (ends_of_errors ..))
  rw [errors_of_ends hends, List.reverse_append, List.reverse_reverse]

/-- Where a program is when it has read declarations that do not fail. -/
inductive Passes (start : Cursor) : Cursor → Prop
  | start : Passes start start
  | next {fuel s c c'} (h : Passes start c) (hc : c.tokens ≠ [])
      (hd : Parser.declared fuel c = .ok s c') : Passes start c'

theorem Passes.arrives {start : Cursor} (h : Passes start c) : start.Arrives c := by
  induction h with
  | start => exact .start
  | @next fuel s c c' _ hc hd ih =>
    have hd : Parser.declaration (fuel + 1) c = .ok (some s) c' := by
      rw [Parser.declaration, Parser.recovering, hd]
    exact ih.next hc hd

/-- The pieces of a program. Each but the last ends where reading goes on behind the first of its
declarations that fails. -/
inductive Pieces (endLine : Nat) : List Token → List (List Token) → Prop
  | last {tokens : List Token} (h : ∀ c, Passes ⟨tokens, endLine, 0, []⟩ c → c.tokens ≠ [] →
      ∀ fuel d c', Parser.declared fuel c ≠ .error (.failed d) c') : Pieces endLine tokens [tokens]
  | cut {tokens : List Token} {pieces : List (List Token)} {c c' : Cursor} {d : Diagnostic}
      {fuel t p : Nat} (h : Passes ⟨tokens, endLine, 0, []⟩ c) (hc : c.tokens ≠ [])
      (hf : Parser.declared fuel c = .error (.failed d) c') (ht : t ≤ tokens.length)
      (ht' : c'.tokens = tokens.drop t) (hp : Token.Resumes tokens t p)
      (hs : Pieces endLine (tokens.drop p) pieces) :
      Pieces endLine tokens (tokens.take p :: pieces)

theorem exists_pieces (tokens : List Token) (endLine : Nat) :
    ∃ pieces, Pieces endLine tokens pieces := by
  by_cases hfails : ∃ c fuel d c', Passes ⟨tokens, endLine, 0, []⟩ c ∧ c.tokens ≠ [] ∧
      Parser.declared fuel c = .error (.failed d) c'
  · obtain ⟨c, fuel, d, c', h, hc, hf⟩ := hfails
    obtain ⟨t, p, hr⟩ := recovers h.arrives hc hf
    obtain ⟨ht, ht', -⟩ := hr.place
    have hne : 0 < tokens.length := by
      have hpos := List.length_pos_of_ne_nil hc
      exact Nat.lt_of_lt_of_le hpos h.arrives.suffix.length_le
    have hpos : 0 < p := by
      cases hr.resumes with
      | atEnd h => omega
      | boundary h => omega
    obtain ⟨pieces, hs⟩ := exists_pieces (tokens.drop p) endLine
    exact ⟨_, .cut h hc hf ht ht' hr.resumes hs⟩
  · exact ⟨_, .last fun c h hc fuel d c' hf => hfails ⟨c, fuel, d, c', h, hc, hf⟩⟩
termination_by tokens.length
decreasing_by
  rw [List.length_drop]
  omega

theorem Pieces.flatten {pieces : List (List Token)} (h : Pieces endLine tokens pieces) :
    pieces.flatten = tokens := by
  induction h with
  | last => simp
  | cut h hc hf ht ht' hp hs ih => rw [List.flatten_cons, ih, List.take_append_drop]

theorem Pieces.errors_eq {pieces : List (List Token)} (h : Pieces endLine tokens pieces) :
    errors tokens endLine = pieces.flatMap fun piece => errors piece endLine := by
  induction h with
  | last => simp
  | @cut tokens pieces c c' d fuel t p h hc hf ht ht' hp hs ih =>
    obtain ⟨t', p', hr⟩ := recovers h.arrives hc hf
    obtain ⟨hle, hdrop, -⟩ := hr.place
    have hlen := congrArg List.length (ht'.symm.trans hdrop)
    simp only [List.length_drop] at hlen
    obtain rfl : t' = t := by omega
    obtain rfl := hr.resumes.unique hp
    rw [List.flatMap_cons, ← ih, hr.behind, hr.before endLine fun _ => rfl]

/-- Recovery composes. From whatever number on occurrences are numbered, the errors of tokens are
those of the program. Each declaration that fails ends a piece, and the errors of the program are
those that its pieces have by themselves, one behind the other. -/
theorem recovery_composes (tokens : List Token) (endLine firstId : Nat) :
    (errors tokens endLine = [] ∧ (∃ p, ofTokens firstId tokens endLine = .ok p) ∨
      errors tokens endLine ≠ [] ∧
        ofTokens firstId tokens endLine = .error (errors tokens endLine)) ∧
    (∀ c fuel d c', Cursor.Arrives ⟨tokens, endLine, firstId, []⟩ c → c.tokens ≠ [] →
      Parser.declared fuel c = .error (.failed d) c' →
        ∃ t p, Recovers tokens endLine c c' d t p) ∧
    ∃ pieces, Pieces endLine tokens pieces ∧ pieces.flatten = tokens ∧
      errors tokens endLine = pieces.flatMap fun piece => errors piece endLine := by
  obtain ⟨es, h⟩ := Cursor.exists_ends ⟨tokens, endLine, firstId, []⟩
  obtain ⟨pieces, hpieces⟩ := exists_pieces tokens endLine
  refine ⟨?_, fun c fuel d c' h hc hf => recovers h hc hf, pieces, hpieces, hpieces.flatten,
    hpieces.errors_eq⟩
  rw [errors_of_ends h]
  rcases ofTokens_of_ends h with ⟨rfl, hp⟩ | hp
  · exact .inl ⟨rfl, hp⟩
  · exact .inr ⟨ofTokens_error hp, hp⟩

/-- A block reads on behind an error of its own, and the program reads on behind the semicolon at
which the declaration after the block has its error. -/
theorem recovery_composes_nested : ∃ tokens c c' d t p pieces,
    tokens = [⟨.symbol .leftBrace, "\x7b", 1⟩, ⟨.keyword .print, "print", 1⟩,
      ⟨.symbol .semicolon, ";", 1⟩, ⟨.symbol .rightBrace, "\x7d", 1⟩, ⟨.keyword .var, "var", 2⟩,
      ⟨.symbol .semicolon, ";", 2⟩, ⟨.keyword .print, "print", 3⟩, ⟨.symbol .semicolon, ";", 3⟩] ∧
    Cursor.Arrives ⟨tokens, 3, 0, []⟩ c ∧ c.errors = [.grammar 1 (some ";") .expectedExpression] ∧
    Parser.declared 50 c = .error (.failed d) c' ∧
    d = .grammar 2 (some ";") (.expected .variableName) ∧ Recovers tokens 3 c c' d t p ∧
    Pieces 3 tokens pieces ∧ pieces.flatten = tokens ∧
    errors tokens 3 = pieces.flatMap (fun piece => errors piece 3) ∧
    ofTokens 0 tokens 3 = .error [.grammar 1 (some ";") .expectedExpression,
      .grammar 2 (some ";") (.expected .variableName),
      .grammar 3 (some ";") .expectedExpression] := by
  let behind : List Token := [⟨.keyword .var, "var", 2⟩, ⟨.symbol .semicolon, ";", 2⟩,
    ⟨.keyword .print, "print", 3⟩, ⟨.symbol .semicolon, ";", 3⟩]
  let tokens : List Token := [⟨.symbol .leftBrace, "\x7b", 1⟩, ⟨.keyword .print, "print", 1⟩,
    ⟨.symbol .semicolon, ";", 1⟩, ⟨.symbol .rightBrace, "\x7d", 1⟩] ++ behind
  let c : Cursor := ⟨behind, 3, 0, [.grammar 1 (some ";") .expectedExpression]⟩
  have hblock : Parser.declaration 50 ⟨tokens, 3, 0, []⟩ = .ok (some (.block [])) c := by
    with_unfolding_all rfl
  have harrives : Cursor.Arrives ⟨tokens, 3, 0, []⟩ c := .next .start (List.cons_ne_nil _ _) hblock
  have hfails : Parser.declared 50 c = .error (.failed
      (.grammar 2 (some ";") (.expected .variableName))) { c with tokens := behind.tail } := by
    with_unfolding_all rfl
  have herrors : errors tokens 3 = [.grammar 1 (some ";") .expectedExpression,
      .grammar 2 (some ";") (.expected .variableName),
      .grammar 3 (some ";") .expectedExpression] := by
    with_unfolding_all rfl
  obtain ⟨hends, hrecovers, pieces, hpieces, hflatten, hcomposed⟩ := recovery_composes tokens 3 0
  obtain ⟨t, p, hr⟩ := hrecovers c 50 _ _ harrives (List.cons_ne_nil _ _) hfails
  refine ⟨tokens, c, _, _, t, p, pieces, rfl, harrives, rfl, hfails, rfl, hr, hpieces, hflatten,
    hcomposed, ?_⟩
  rcases hends with ⟨hnone, -⟩ | ⟨-, hrefused⟩
  · cases herrors.symm.trans hnone
  · rw [hrefused, herrors]

end Program

end LoxLang
