import LoxLang.Proofs.Token.Joining
import Mathlib.Data.List.TakeWhile

/-!
The texts of tokens: symbols, numbers, words and strings. The first character of a text tells which
of these it can be, and a text is one token at most.
-/

namespace LoxLang

/-- How a symbol is written. -/
def Symbol.text : Symbol → String
  | .leftParen => "("
  | .rightParen => ")"
  | .leftBrace => "\x7b"
  | .rightBrace => "\x7d"
  | .comma => ","
  | .dot => "."
  | .minus => "-"
  | .plus => "+"
  | .semicolon => ";"
  | .slash => "/"
  | .star => "*"
  | .question => "?"
  | .colon => ":"
  | .bang => "!"
  | .bangEqual => "!="
  | .equal => "="
  | .equalEqual => "=="
  | .greater => ">"
  | .greaterEqual => ">="
  | .less => "<"
  | .lessEqual => "<="

/-- Digits, or digits with a point between them, and their value. -/
inductive Numeral : List Char → Float → Prop
  | whole {digits} (hne : digits ≠ []) (h : ∀ c ∈ digits, c.isDigit) :
      Numeral digits (numberValue digits [])
  | decimal {whole fraction} (hne : whole ≠ []) (hne' : fraction ≠ [])
      (h : ∀ c ∈ whole, c.isDigit) (h' : ∀ c ∈ fraction, c.isDigit) :
      Numeral (whole ++ '.' :: fraction) (numberValue whole fraction)

/-- The texts of tokens. -/
inductive Lexeme : List Char → Kind → Prop
  | symbol (s : Symbol) : Lexeme s.text.toList (.symbol s)
  | number {cs x} (h : Numeral cs x) : Lexeme cs (.number x)
  | keyword (k : Keyword) : Lexeme k.text.toList (.keyword k)
  | identifier {c cs} (hc : isWordStart c) (hcs : ∀ d ∈ cs, isWordPart d)
      (hk : ∀ k : Keyword, k.text.toList ≠ c :: cs) : Lexeme (c :: cs) .identifier
  | string {contents} (h : '\"' ∉ contents) :
      Lexeme ('\"' :: contents ++ ['\"']) (.string (String.ofList contents))

namespace Symbol

variable {c : Char} {s t : Symbol}

theorem text_of_ofChar? (h : ofChar? c = some s) : s.text.toList = [c] := by
  unfold ofChar? at h
  split at h <;> cases h <;> rfl

theorem text_of_withEqual? (hc : ofChar? c = some s) (h : s.withEqual? = some t) :
    t.text.toList = [c, '='] := by
  unfold ofChar? at hc
  split at hc <;> cases hc <;> cases h <;> rfl

/-- A symbol is one character, or one with an equals sign behind it. -/
theorem text_cases (s : Symbol) : (∃ c, s.text.toList = [c] ∧ ofChar? c = some s) ∨
    ∃ c t, s.text.toList = [c, '='] ∧ ofChar? c = some t ∧ t.withEqual? = some s := by
  cases s
  all_goals first
    | exact .inl ⟨_, rfl, rfl⟩
    | exact .inr ⟨_, _, rfl, rfl, rfl⟩

theorem text_inj (h : s.text = t.text) : s = t := by
  have h : s.text.toList = t.text.toList := congrArg String.toList h
  rcases s.text_cases with ⟨c, hs, hc⟩ | ⟨c, u, hs, hc, hu⟩ <;>
    rcases t.text_cases with ⟨d, ht, hd⟩ | ⟨d, v, ht, hd, hv⟩ <;>
    rw [hs, ht] at h <;> cases h
  · exact Option.some.inj (hc.symm.trans hd)
  · obtain rfl := Option.some.inj (hc.symm.trans hd)
    exact Option.some.inj (hu.symm.trans hv)

/-- No symbol begins like a blank, a string, a number or a word. -/
theorem plain_of_ofChar? (h : ofChar? c = some s) :
    isSpace c = false ∧ c ≠ '\"' ∧ c.isDigit = false ∧ isWordStart c = false := by
  unfold ofChar? at h
  split at h <;> first | decide | cases h

end Symbol

namespace Keyword

theorem text_of_ofWord? {word : String} {k : Keyword} (h : ofWord? word = some k) :
    k.text = word := by
  simpa using List.find?_some h

theorem ofWord?_text (k : Keyword) : ofWord? k.text = some k := by
  cases k <;> rfl

/-- A keyword is a word. -/
theorem text_word (k : Keyword) : ∃ c cs, k.text.toList = c :: cs ∧ isWordStart c ∧
    ∀ d ∈ cs, isWordPart d := by
  cases k <;> exact ⟨_, _, rfl, rfl, List.all_eq_true.mp rfl⟩

end Keyword

theorem isAlpha_iff {c : Char} : c.isAlpha ↔
    65 ≤ c.val.toNat ∧ c.val.toNat ≤ 90 ∨ 97 ≤ c.val.toNat ∧ c.val.toNat ≤ 122 := by
  show (decide (_ ∧ _) || (decide _ && decide _)) = true ↔ _
  rw [Bool.or_eq_true, decide_eq_true_eq, Bool.and_eq_true, decide_eq_true_eq, decide_eq_true_eq]
  exact Iff.rfl

theorem isDigit_iff {c : Char} : c.isDigit ↔ 48 ≤ c.val.toNat ∧ c.val.toNat ≤ 57 := by
  rw [Char.isDigit, Bool.and_eq_true, decide_eq_true_eq, decide_eq_true_eq]
  exact Iff.rfl

theorem isDigit_of_isWordStart {c : Char} (h : isWordStart c) : c.isDigit = false := by
  have hc : c.isAlpha = true ∨ c = '_' := by simpa [isWordStart] using h
  rcases hc with hc | rfl
  · rw [isAlpha_iff] at hc
    rw [← Bool.not_eq_true, isDigit_iff]
    omega
  · rfl

theorem isWordPart_of_isWordStart {c : Char} (h : isWordStart c) : isWordPart c := by
  have hc : c.isAlpha = true ∨ c = '_' := by simpa [isWordStart] using h
  rcases hc with hc | rfl
  · simp [isWordPart, Char.isAlphanum, hc]
  · rfl

namespace Numeral

variable {c : Char} {cs : List Char} {x y : Float}

theorem isDigit_head (h : Numeral (c :: cs) x) : c.isDigit := by
  generalize hl : c :: cs = text at h
  cases h with
  | whole hne h =>
    rw [← hl] at h
    exact h c List.mem_cons_self
  | @decimal whole _ hne hne' h h' =>
    cases whole with
    | nil => exact (hne rfl).elim
    | cons d whole =>
      obtain ⟨rfl, -⟩ := List.cons.inj hl
      exact h c List.mem_cons_self

theorem ne_nil (h : Numeral cs x) : cs ≠ [] := by
  cases h with
  | whole hne => exact hne
  | decimal => simp

end Numeral

namespace Lexeme

variable {c : Char} {cs p : List Char} {kind kind' : Kind}

/-- The four sorts of tokens are told from each other by the first character. -/
theorem sorts (h : Lexeme (c :: cs) kind) :
    (∃ s t, s.text.toList = c :: cs ∧ Symbol.ofChar? c = some t ∧ kind = .symbol s) ∨
    (c.isDigit ∧ ∃ x, Numeral (c :: cs) x ∧ kind = .number x) ∨
    (isWordStart c ∧ (∀ d ∈ cs, isWordPart d) ∧
      Stretch.word (c :: cs) [] = ⟨c :: cs, [], .token kind⟩) ∨
    (c = '\"' ∧ ∃ contents, cs = contents ++ ['\"'] ∧ '\"' ∉ contents ∧
      kind = .string (String.ofList contents)) := by
  generalize hl : c :: cs = text at h
  cases h with
  | symbol s =>
    refine .inl ⟨s, ?_⟩
    rcases s.text_cases with ⟨d, ht, hs⟩ | ⟨d, t, ht, hs, -⟩
    · rw [ht] at hl
      obtain ⟨rfl, -⟩ := List.cons.inj hl
      exact ⟨s, rfl, hs, rfl⟩
    · rw [ht] at hl
      obtain ⟨rfl, -⟩ := List.cons.inj hl
      exact ⟨t, rfl, hs, rfl⟩
  | number h =>
    subst hl
    exact .inr (.inl ⟨h.isDigit_head, _, h, rfl⟩)
  | keyword k =>
    obtain ⟨d, ds, hk, hd, hds⟩ := k.text_word
    rw [hk] at hl
    obtain ⟨rfl, rfl⟩ := List.cons.inj hl
    refine .inr (.inr (.inl ⟨hd, hds, ?_⟩))
    rw [hk, Stretch.word, ← hk, String.ofList_toList, k.ofWord?_text]
  | identifier hd hds hk =>
    obtain ⟨rfl, rfl⟩ := List.cons.inj hl
    refine .inr (.inr (.inl ⟨hd, hds, ?_⟩))
    cases hw : Keyword.ofWord? (String.ofList (c :: cs)) with
    | none => rw [Stretch.word, hw]
    | some k =>
      refine (hk k ?_).elim
      rw [Keyword.text_of_ofWord? hw, String.toList_ofList]
  | string h =>
    obtain ⟨rfl, rfl⟩ := List.cons.inj hl
    exact .inr (.inr (.inr ⟨rfl, _, rfl, h, rfl⟩))

theorem ne_nil (h : Lexeme cs kind) : cs ≠ [] := by
  cases h with
  | symbol s => rcases s.text_cases with ⟨c, ht, -⟩ | ⟨c, t, ht, -⟩ <;> simp [ht]
  | number h => exact h.ne_nil
  | keyword k =>
    obtain ⟨c, cs, hk, -⟩ := k.text_word
    simp [hk]
  | identifier => simp
  | string => simp

theorem exists_of_prefix (h : Lexeme p kind) (hp : p <+: c :: cs) : ∃ q, p = c :: q ∧ q <+: cs := by
  obtain ⟨d, q, rfl⟩ := List.exists_cons_of_ne_nil h.ne_nil
  obtain ⟨rfl, hq⟩ := List.cons_prefix_cons.mp hp
  exact ⟨q, rfl, hq⟩

theorem of_digit (h : Lexeme (c :: cs) kind) (hc : c.isDigit) :
    ∃ x, Numeral (c :: cs) x ∧ kind = .number x := by
  rcases h.sorts with ⟨s, t, -, ht, -⟩ | ⟨-, hx⟩ | ⟨hw, -⟩ | ⟨rfl, -⟩
  · rw [(Symbol.plain_of_ofChar? ht).2.2.1] at hc
    cases hc
  · exact hx
  · rw [isDigit_of_isWordStart hw] at hc
    cases hc
  · cases hc

theorem of_word (h : Lexeme (c :: cs) kind) (hc : isWordStart c) :
    (∀ d ∈ cs, isWordPart d) ∧ Stretch.word (c :: cs) [] = ⟨c :: cs, [], .token kind⟩ := by
  rcases h.sorts with ⟨s, t, -, ht, -⟩ | ⟨hd, -⟩ | ⟨-, hw⟩ | ⟨rfl, -⟩
  · rw [(Symbol.plain_of_ofChar? ht).2.2.2] at hc
    cases hc
  · rw [isDigit_of_isWordStart hc] at hd
    cases hd
  · exact hw
  · cases hc

theorem of_quote (h : Lexeme ('\"' :: cs) kind) : ∃ contents, cs = contents ++ ['\"'] ∧
    '\"' ∉ contents ∧ kind = .string (String.ofList contents) := by
  rcases h.sorts with ⟨s, t, -, ht, -⟩ | ⟨hd, -⟩ | ⟨hw, -⟩ | ⟨-, hs⟩
  · cases ht
  · cases hd
  · cases hw
  · exact hs

theorem of_plain (h : Lexeme (c :: cs) kind) (hq : c ≠ '\"') (hd : c.isDigit = false)
    (hw : isWordStart c = false) :
    ∃ s t, s.text.toList = c :: cs ∧ Symbol.ofChar? c = some t ∧ kind = .symbol s := by
  rcases h.sorts with hs | ⟨hd', -⟩ | ⟨hw', -⟩ | ⟨hq', -⟩
  · exact hs
  · rw [hd] at hd'
    cases hd'
  · rw [hw] at hw'
    cases hw'
  · exact (hq hq').elim

end Lexeme

section

variable {d : Char} {body : List Char}

theorem takeWhile_ne (h : d ∉ body) (rest : List Char) :
    (body ++ d :: rest).takeWhile (· != d) = body := by
  rw [List.takeWhile_append_of_pos (by simpa using fun c hc => ne_of_mem_of_not_mem hc h)]
  simp

theorem dropWhile_ne (h : d ∉ body) (rest : List Char) :
    (body ++ d :: rest).dropWhile (· != d) = d :: rest := by
  rw [List.dropWhile_append_of_pos (by simpa using fun c hc => ne_of_mem_of_not_mem hc h)]
  simp

theorem takeWhile_ne_of_not_mem (h : d ∉ body) : body.takeWhile (· != d) = body :=
  List.takeWhile_eq_self_iff.mpr (by simpa using fun c hc => ne_of_mem_of_not_mem hc h)

theorem dropWhile_ne_of_not_mem (h : d ∉ body) : body.dropWhile (· != d) = [] :=
  List.dropWhile_eq_nil_iff.mpr (by simpa using fun c hc => ne_of_mem_of_not_mem hc h)

end

theorem takeWhile_digits {whole : List Char} (h : ∀ c ∈ whole, c.isDigit) (rest : List Char) :
    (whole ++ '.' :: rest).takeWhile Char.isDigit = whole := by
  rw [List.takeWhile_append_of_pos h]
  simp

theorem dropWhile_digits {whole : List Char} (h : ∀ c ∈ whole, c.isDigit) (rest : List Char) :
    (whole ++ '.' :: rest).dropWhile Char.isDigit = '.' :: rest := by
  rw [List.dropWhile_append_of_pos h]
  simp

namespace Numeral

variable {cs p : List Char} {x y : Float}

/-- A text is one number at most. -/
theorem unique (h : Numeral cs x) (h' : Numeral cs y) : x = y := by
  cases h with
  | whole hne h =>
    cases h' with
    | whole => rfl
    | decimal => cases h '.' (by simp)
  | @decimal whole fraction _ _ hw _ =>
    generalize hl : whole ++ '.' :: fraction = text at h'
    cases h' with
    | whole _ h' =>
      subst hl
      cases h' '.' (by simp)
    | @decimal whole' fraction' _ _ hw' _ =>
      have hwhole : whole = whole' := by
        rw [← takeWhile_digits hw fraction, hl, takeWhile_digits hw']
      subst hwhole
      obtain rfl : fraction = fraction' := by simpa using hl
      rfl

theorem of_number {whole : List Char} (hne : whole ≠ []) (h : ∀ c ∈ whole, c.isDigit)
    (rest : List Char) : ∃ x, Numeral (Stretch.number whole rest).consumed x ∧
      (Stretch.number whole rest).role = .token (.number x) := by
  unfold Stretch.number
  split
  · rename_i c cs
    split
    · rename_i hc
      refine ⟨_, .decimal hne (by simp) h ?_, rfl⟩
      intro d hd
      rcases List.mem_cons.mp hd with rfl | hd
      · exact hc
      · exact List.mem_takeWhile_imp hd
    · exact ⟨_, .whole hne h, rfl⟩
  · exact ⟨_, .whole hne h, rfl⟩

/-- No number at the beginning of a text is longer than the one that is read. -/
theorem length_le (h : Numeral p x) (hp : p <+: cs) : p.length ≤ (Stretch.number
    (cs.takeWhile Char.isDigit) (cs.dropWhile Char.isDigit)).consumed.length := by
  obtain ⟨rest, rfl⟩ := hp
  cases h with
  | whole hne h =>
    have hconsumed : ∀ whole rest : List Char,
        whole.length ≤ (Stretch.number whole rest).consumed.length := by
      intro whole rest
      unfold Stretch.number
      split
      · split <;> simp
      · exact Nat.le_refl _
    rw [List.takeWhile_append_of_pos h]
    refine Nat.le_trans ?_ (hconsumed _ _)
    simp
  | @decimal whole fraction hne hne' h h' =>
    obtain ⟨d, fraction, rfl⟩ := List.exists_cons_of_ne_nil hne'
    have hd : d.isDigit := h' d List.mem_cons_self
    have hfraction : ∀ c ∈ fraction, c.isDigit := fun c hc => h' c (List.mem_cons_of_mem _ hc)
    rw [List.append_assoc, List.cons_append, takeWhile_digits h, dropWhile_digits h]
    simp only [Stretch.number, List.cons_append, hd, if_true,
      List.takeWhile_append_of_pos hfraction]
    simp

end Numeral

/-- A text is one token at most. -/
theorem Lexeme.unique {cs : List Char} {kind kind' : Kind} (h : Lexeme cs kind)
    (h' : Lexeme cs kind') : kind = kind' := by
  obtain ⟨c, cs, rfl⟩ := List.exists_cons_of_ne_nil h.ne_nil
  rcases h.sorts with ⟨s, t, hs, ht, rfl⟩ | ⟨hd, x, hx, rfl⟩ | ⟨hw, -, hk⟩ | ⟨rfl, _, hc, -, rfl⟩
  · obtain ⟨-, hq, hd, hw⟩ := Symbol.plain_of_ofChar? ht
    obtain ⟨s', t', hs', ht', rfl⟩ := h'.of_plain hq hd hw
    rw [Symbol.text_inj (String.toList_inj.mp (hs.trans hs'.symm))]
  · obtain ⟨y, hy, rfl⟩ := h'.of_digit hd
    rw [hx.unique hy]
  · have hk' := (h'.of_word hw).2
    rw [hk] at hk'
    cases hk'
    rfl
  · obtain ⟨contents', hc', -, rfl⟩ := h'.of_quote
    rw [List.append_inj_left' (hc.symm.trans hc') rfl]

end LoxLang
