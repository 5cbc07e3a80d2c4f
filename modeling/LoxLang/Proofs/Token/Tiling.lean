import LoxLang.Proofs.Token.Lexemes

/-!
The lexical grammar. A text is tiled by blanks, comments, lexemes and faults, each of which is told
from the text behind its beginning alone: a lexeme is the longest text of a token that begins there,
a comment the shortest text that closes itself. The scan tiles every text, in the one way there is.
-/

namespace LoxLang

/-- The pairs that open and close comments, from left to right. Those that open one are `true`. -/
def commentPairs : List Char → List Bool
  | '/' :: '*' :: cs => true :: commentPairs cs
  | '*' :: '/' :: cs => false :: commentPairs cs
  | _ :: cs => commentPairs cs
  | [] => []

attribute [local simp] commentPairs

/-- Whether a text closes all comments that it opens, and so many more. -/
def Closes (depth : Nat) (cs : List Char) : Prop :=
  depth + (commentPairs cs).count true = (commentPairs cs).count false

/-- Whether a text opens a comment and closes all that it opens. -/
def Closed (cs : List Char) : Prop :=
  ['/', '*'] <+: cs ∧ Closes 0 cs

/-- Whether a blank or a comment comes first in a text. -/
def OpensBlank (cs : List Char) : Prop :=
  (∃ c ∈ cs.head?, isSpace c) ∨ ['/', '/'] <+: cs ∨ ['/', '*'] <+: cs

/-- What comes first in a text. -/
inductive Tile : List Char → Stretch → Prop
  | space {c rest} (h : isSpace c) : Tile (c :: rest) ⟨[c], rest, .blank⟩
  | lineComment {body rest} (hb : '\n' ∉ body) (hr : rest = [] ∨ rest.head? = some '\n') :
      Tile ('/' :: '/' :: body ++ rest) ⟨'/' :: '/' :: body, rest, .blank⟩
  | blockComment {comment rest} (h : Closed comment)
      (hshortest : ∀ p, p <+: comment ++ rest → Closed p → comment.length ≤ p.length) :
      Tile (comment ++ rest) ⟨comment, rest, .blank⟩
  | unclosedComment {text} (ho : ['/', '*'] <+: text) (h : ∀ p, p <+: text → ¬ Closed p) :
      Tile text ⟨text, [], .fault .unterminatedComment⟩
  | token {lexeme kind rest} (hb : ¬ OpensBlank (lexeme ++ rest)) (h : Lexeme lexeme kind)
      (hlongest : ∀ p k, p <+: lexeme ++ rest → Lexeme p k → p.length ≤ lexeme.length) :
      Tile (lexeme ++ rest) ⟨lexeme, rest, .token kind⟩
  | unclosedString {cs} (h : '\"' ∉ cs) :
      Tile ('\"' :: cs) ⟨'\"' :: cs, [], .fault .unterminatedString⟩
  | unexpected {c rest} (hb : ¬ OpensBlank (c :: rest)) (hq : c ≠ '\"')
      (h : ∀ p k, p <+: c :: rest → ¬ Lexeme p k) :
      Tile (c :: rest) ⟨[c], rest, .fault (.unexpectedCharacter c)⟩

/-- A text falls into what comes first and the tiles of the rest. -/
inductive Tiling : List Char → List Stretch → Prop
  | nil : Tiling [] []
  | cons {text s ss} (h : Tile text s) (hs : Tiling s.rest ss) : Tiling text (s :: ss)

theorem not_opensBlank {c : Char} {cs : List Char} (hs : isSpace c = false) (hc : c ≠ '/') :
    ¬ OpensBlank (c :: cs) := by
  rintro (⟨d, hd, hspace⟩ | h | h)
  · cases hd
    rw [hs] at hspace
    cases hspace
  · exact hc (List.cons_prefix_cons.mp h).1.symm
  · exact hc (List.cons_prefix_cons.mp h).1.symm

theorem not_isSpace_of_not_opensBlank {c : Char} {cs : List Char} (hb : ¬ OpensBlank (c :: cs)) :
    ¬ isSpace c :=
  fun hs => hb (.inl ⟨c, rfl, hs⟩)

theorem commentPairs_cons {c : Char} {cs : List Char}
    (ho : ¬ ['/', '*'] <+: c :: cs) (hc : ¬ ['*', '/'] <+: c :: cs) :
    commentPairs (c :: cs) = commentPairs cs := by
  rw [commentPairs]
  · rintro cs rfl rfl
    exact ho ⟨cs, rfl⟩
  · rintro cs rfl rfl
    exact hc ⟨cs, rfl⟩

namespace Closes

variable {depth : Nat} {c : Char} {cs p rest : List Char}

theorem opening : Closes depth ('/' :: '*' :: cs) ↔ Closes (depth + 1) cs := by
  simp only [Closes, commentPairs, List.count_cons_self, List.count_cons_of_ne, ne_eq,
    Bool.true_eq_false, not_false_eq_true]
  omega

theorem closing : Closes (depth + 1) ('*' :: '/' :: cs) ↔ Closes depth cs := by
  simp only [Closes, commentPairs, List.count_cons_self, List.count_cons_of_ne, ne_eq,
    Bool.false_eq_true, not_false_eq_true]
  omega

theorem not_nil : ¬ Closes (depth + 1) [] := by
  simp [Closes]

/-- A character that is not the first of a pair in a text is none in a beginning of it. -/
theorem skipping (ho : ¬ ['/', '*'] <+: c :: cs) (hc : ¬ ['*', '/'] <+: c :: cs) (hp : p <+: cs) :
    Closes depth (c :: p) ↔ Closes depth p := by
  have hcp : c :: p <+: c :: cs := List.cons_prefix_cons.mpr ⟨rfl, hp⟩
  rw [Closes, Closes, commentPairs_cons (fun h => ho (h.trans hcp)) (fun h => hc (h.trans hcp))]

/-- A text that closes a comment goes over a pair that it begins with. -/
theorem exists_of_pair {c' : Char} (hp : Closes (depth + 1) p) (hpre : p <+: c :: c' :: cs) :
    ∃ q, p = c :: c' :: q ∧ q <+: cs := by
  cases p with
  | nil => exact (not_nil hp).elim
  | cons d p =>
    cases p with
    | nil => simp [Closes] at hp
    | cons d' q =>
      obtain ⟨rfl, htail⟩ := List.cons_prefix_cons.mp hpre
      obtain ⟨rfl, hq⟩ := List.cons_prefix_cons.mp htail
      exact ⟨q, rfl, hq⟩

end Closes

/-- A text begins with no pair if no step over a pair applies to it. -/
theorem not_pair {depth : Nat} {c : Char} {cs : List Char}
    (hopen : ∀ t, c = '/' → cs = '*' :: t → False)
    (hclose : ∀ t, depth = 0 → c = '*' → cs = '/' :: t → False)
    (hinner : ∀ d t, depth = d + 1 → c = '*' → cs = '/' :: t → False) :
    ¬ ['/', '*'] <+: c :: cs ∧ ¬ ['*', '/'] <+: c :: cs := by
  constructor
  · rintro ⟨t, ht⟩
    obtain ⟨hc, hcs⟩ := List.cons.inj ht
    exact hopen t hc.symm hcs.symm
  · rintro ⟨t, ht⟩
    obtain ⟨hc, hcs⟩ := List.cons.inj ht
    cases depth with
    | zero => exact hclose t rfl hc.symm hcs.symm
    | succ d => exact hinner d t rfl hc.symm hcs.symm

/-- What is behind a comment is behind a text that closes it. -/
theorem afterComment?_closes {depth : Nat} {cs rest : List Char}
    (h : afterComment? depth cs = some rest) : ∃ p, cs = p ++ rest ∧ Closes (depth + 1) p := by
  fun_induction afterComment? depth cs with
  | case1 depth cs ih =>
    obtain ⟨p, rfl, hp⟩ := ih h
    exact ⟨'/' :: '*' :: p, rfl, Closes.opening.mpr hp⟩
  | case2 cs =>
    cases h
    exact ⟨['*', '/'], rfl, rfl⟩
  | case3 depth cs ih =>
    obtain ⟨p, rfl, hp⟩ := ih h
    exact ⟨'*' :: '/' :: p, rfl, Closes.closing.mpr hp⟩
  | case4 depth c cs hopen hclose hinner ih =>
    obtain ⟨ho, hc⟩ := not_pair hopen hclose hinner
    obtain ⟨p, rfl, hp⟩ := ih h
    exact ⟨c :: p, rfl, (Closes.skipping ho hc (List.prefix_append p rest)).mpr hp⟩
  | case5 => cases h

/-- A comment ends no later than a text that closes it. -/
theorem exists_afterComment? {depth : Nat} {cs p : List Char} (hpre : p <+: cs)
    (hp : Closes (depth + 1) p) :
    ∃ rest, afterComment? depth cs = some rest ∧ cs.length ≤ p.length + rest.length := by
  fun_induction afterComment? depth cs generalizing p with
  | case1 depth cs ih =>
    obtain ⟨q, rfl, hq⟩ := hp.exists_of_pair hpre
    obtain ⟨rest, h, hle⟩ := ih hq (Closes.opening.mp hp)
    refine ⟨rest, h, ?_⟩
    simp only [List.length_cons]
    omega
  | case2 cs =>
    obtain ⟨q, rfl, hq⟩ := hp.exists_of_pair hpre
    refine ⟨cs, rfl, ?_⟩
    simp only [List.length_cons]
    omega
  | case3 depth cs ih =>
    obtain ⟨q, rfl, hq⟩ := hp.exists_of_pair hpre
    obtain ⟨rest, h, hle⟩ := ih hq (Closes.closing.mp hp)
    refine ⟨rest, h, ?_⟩
    simp only [List.length_cons]
    omega
  | case4 depth c cs hopen hclose hinner ih =>
    obtain ⟨ho, hc⟩ := not_pair hopen hclose hinner
    cases p with
    | nil => exact (Closes.not_nil hp).elim
    | cons c' p =>
      obtain ⟨rfl, hq⟩ := List.cons_prefix_cons.mp hpre
      obtain ⟨rest, h, hle⟩ := ih hq ((Closes.skipping ho hc hq).mp hp)
      refine ⟨rest, h, ?_⟩
      simp only [List.length_cons]
      omega
  | case5 =>
    rw [List.prefix_nil.mp hpre] at hp
    exact (Closes.not_nil hp).elim

namespace Stretch

variable {c : Char} {cs : List Char}

theorem first_space (hs : isSpace c) : first c cs = ⟨[c], cs, .blank⟩ := by
  unfold first
  rw [if_pos hs]

theorem first_digit (hb : ¬ OpensBlank (c :: cs)) (hd : c.isDigit) : first c cs =
    number (c :: cs.takeWhile Char.isDigit) (cs.dropWhile Char.isDigit) := by
  have hq : c ≠ '\"' := by
    rintro rfl
    cases hd
  unfold first
  rw [if_neg (not_isSpace_of_not_opensBlank hb), if_neg hq, if_pos hd]

theorem first_word (hb : ¬ OpensBlank (c :: cs)) (hw : isWordStart c) : first c cs =
    word (c :: cs.takeWhile isWordPart) (cs.dropWhile isWordPart) := by
  have hq : c ≠ '\"' := by
    rintro rfl
    cases hw
  unfold first
  rw [if_neg (not_isSpace_of_not_opensBlank hb), if_neg hq, isDigit_of_isWordStart hw,
    if_neg Bool.false_ne_true, if_pos hw]

/-- Where nothing else begins there is a symbol or a fault. -/
theorem first_plain (hb : ¬ OpensBlank (c :: cs)) (hq : c ≠ '\"') (hd : ¬ c.isDigit)
    (hw : ¬ isWordStart c) :
    first c cs = (Symbol.ofChar? c).elim ⟨[c], cs, .fault (.unexpectedCharacter c)⟩
      (symbol c · cs) := by
  unfold first
  rw [if_neg (not_isSpace_of_not_opensBlank hb), if_neg hq, if_neg hd, if_neg hw]
  split
  · exact (hb (.inr (.inl ⟨_, rfl⟩))).elim
  · exact (hb (.inr (.inr ⟨_, rfl⟩))).elim
  · cases Symbol.ofChar? c <;> rfl

theorem first_symbol {s : Symbol} (hb : ¬ OpensBlank (c :: cs)) (hs : Symbol.ofChar? c = some s) :
    first c cs = symbol c s cs := by
  obtain ⟨-, hq, hd, hw⟩ := Symbol.plain_of_ofChar? hs
  rw [first_plain hb hq (by simp [hd]) (by simp [hw]), hs, Option.elim_some]

theorem first_unexpected (hb : ¬ OpensBlank (c :: cs)) (hs : Symbol.ofChar? c = none)
    (hq : c ≠ '\"') (hd : ¬ c.isDigit) (hw : ¬ isWordStart c) :
    first c cs = ⟨[c], cs, .fault (.unexpectedCharacter c)⟩ := by
  rw [first_plain hb hq hd hw, hs, Option.elim_none]

end Stretch

namespace Tile

variable {c : Char} {cs text rest : List Char} {s : Stretch} {kind : Kind}

/-- A stretch that is the longest token. -/
theorem of_lexeme (htext : s.consumed ++ s.rest = text) (hrole : s.role = .token kind)
    (hb : ¬ OpensBlank text) (h : Lexeme s.consumed kind)
    (hlongest : ∀ p k, p <+: text → Lexeme p k → p.length ≤ s.consumed.length) :
    Tile text s := by
  obtain ⟨consumed, rest, role⟩ := s
  cases hrole
  cases htext
  exact .token hb h hlongest

theorem of_number (hb : ¬ OpensBlank (c :: cs)) (hd : c.isDigit) : Tile (c :: cs)
    (Stretch.number (c :: cs.takeWhile Char.isDigit) (cs.dropWhile Char.isDigit)) := by
  have hdigits : ∀ d ∈ c :: cs.takeWhile Char.isDigit, d.isDigit :=
    List.forall_mem_cons.mpr ⟨hd, fun d h => List.mem_takeWhile_imp h⟩
  obtain ⟨x, hx, hrole⟩ := Numeral.of_number (by simp) hdigits (cs.dropWhile Char.isDigit)
  refine of_lexeme ?_ hrole hb (.number hx) fun p k hp hk => ?_
  · rw [Stretch.number_text, List.cons_append, List.takeWhile_append_dropWhile]
  · obtain ⟨q, rfl, -⟩ := hk.exists_of_prefix hp
    obtain ⟨y, hy, -⟩ := hk.of_digit hd
    have hle := hy.length_le hp
    rwa [List.takeWhile_cons_of_pos hd, List.dropWhile_cons_of_pos hd] at hle

theorem of_word (hb : ¬ OpensBlank (c :: cs)) (hw : isWordStart c) : Tile (c :: cs)
    (Stretch.word (c :: cs.takeWhile isWordPart) (cs.dropWhile isWordPart)) := by
  have hparts : ∀ d ∈ cs.takeWhile isWordPart, isWordPart d :=
    fun d h => List.mem_takeWhile_imp h
  have hlexeme : ∃ kind, Lexeme (c :: cs.takeWhile isWordPart) kind ∧
      (Stretch.word (c :: cs.takeWhile isWordPart) (cs.dropWhile isWordPart)).role =
        .token kind := by
    cases hk : Keyword.ofWord? (String.ofList (c :: cs.takeWhile isWordPart)) with
    | some k =>
      refine ⟨.keyword k, ?_, by rw [Stretch.word, hk]⟩
      have htext := congrArg String.toList (Keyword.text_of_ofWord? hk)
      rw [String.toList_ofList] at htext
      rw [← htext]
      exact .keyword k
    | none =>
      refine ⟨.identifier, .identifier hw hparts fun k hk' => ?_, by rw [Stretch.word, hk]⟩
      rw [← hk', String.ofList_toList, k.ofWord?_text] at hk
      cases hk
  obtain ⟨kind, hkind, hrole⟩ := hlexeme
  refine of_lexeme ?_ hrole hb hkind fun p k hp hk => ?_
  · show c :: cs.takeWhile isWordPart ++ cs.dropWhile isWordPart = c :: cs
    rw [List.cons_append, List.takeWhile_append_dropWhile]
  · obtain ⟨q, rfl, rest, rfl⟩ := hk.exists_of_prefix hp
    show (c :: q).length ≤ (c :: (q ++ rest).takeWhile isWordPart).length
    rw [List.takeWhile_append_of_pos (hk.of_word hw).1]
    simp

theorem of_string (cs : List Char) : Tile ('\"' :: cs) (Stretch.string cs) := by
  unfold Stretch.string
  by_cases hq : '\"' ∈ cs
  · obtain ⟨contents, rest, rfl, hcontents⟩ := List.eq_append_cons_of_mem hq
    rw [takeWhile_ne hcontents, dropWhile_ne hcontents]
    refine of_lexeme (by simp) rfl (not_opensBlank rfl (by decide)) (.string hcontents) ?_
    intro p k hp hk
    obtain ⟨q, rfl, rest', hrest⟩ := hk.exists_of_prefix hp
    obtain ⟨contents', rfl, hcontents', -⟩ := hk.of_quote
    have htake := takeWhile_ne hcontents' rest'
    rw [← List.singleton_append, ← List.append_assoc, hrest, takeWhile_ne hcontents] at htake
    rw [htake]
    exact Nat.le_refl _
  · rw [takeWhile_ne_of_not_mem hq, dropWhile_ne_of_not_mem hq]
    exact .unclosedString hq

theorem of_symbol {s : Symbol} (hb : ¬ OpensBlank (c :: cs)) (hs : Symbol.ofChar? c = some s) :
    Tile (c :: cs) (Stretch.symbol c s cs) := by
  obtain ⟨-, hq, hd, hw⟩ := Symbol.plain_of_ofChar? hs
  have hsymbols : ∀ p k, p <+: c :: cs → Lexeme p k → p = [c] ∨
      p = [c, '='] ∧ ∃ t rest, s.withEqual? = some t ∧ cs = '=' :: rest := by
    intro p k hp hk
    obtain ⟨q, rfl, rest, rfl⟩ := hk.exists_of_prefix hp
    obtain ⟨t, -, ht, -, -⟩ := hk.of_plain hq hd hw
    rcases t.text_cases with ⟨d, ht', -⟩ | ⟨d, u, ht', hu, ht''⟩
    · rw [ht] at ht'
      cases ht'
      exact .inl rfl
    · rw [ht] at ht'
      cases ht'
      obtain rfl := Option.some.inj (hs.symm.trans hu)
      exact .inr ⟨rfl, t, rest, ht'', rfl⟩
  unfold Stretch.symbol
  split
  · rename_i long rest hlong
    refine of_lexeme rfl rfl hb ?_ fun p k hp hk => ?_
    · show Lexeme [c, '='] (.symbol long)
      rw [← Symbol.text_of_withEqual? hs hlong]
      exact .symbol long
    · rcases hsymbols p k hp hk with rfl | ⟨rfl, -⟩ <;> simp
  · rename_i hshort
    refine of_lexeme rfl rfl hb ?_ fun p k hp hk => ?_
    · show Lexeme [c] (.symbol s)
      rw [← Symbol.text_of_ofChar? hs]
      exact .symbol s
    · rcases hsymbols p k hp hk with rfl | ⟨-, t, rest, ht, rfl⟩
      · exact Nat.le_refl _
      · exact (hshort t rest ht rfl).elim

theorem of_lineComment (cs : List Char) :
    Tile ('/' :: '/' :: cs) (Stretch.lineComment cs) := by
  unfold Stretch.lineComment
  by_cases hline : '\n' ∈ cs
  · obtain ⟨body, rest, rfl, hbody⟩ := List.eq_append_cons_of_mem hline
    rw [takeWhile_ne hbody, dropWhile_ne hbody]
    exact lineComment hbody (.inr rfl)
  · rw [takeWhile_ne_of_not_mem hline, dropWhile_ne_of_not_mem hline]
    have htile := lineComment hline (.inl rfl)
    rwa [List.append_nil] at htile

/-- A block comment ends where its pairs first balance, or takes the rest of the text. -/
theorem of_blockComment (cs : List Char) :
    Tile ('/' :: '*' :: cs) (Stretch.blockComment cs) := by
  have hopens : ∀ p, p <+: '/' :: '*' :: cs → Closed p → ∃ q, p = '/' :: '*' :: q ∧ q <+: cs ∧
      Closes 1 q := by
    rintro p hp ⟨⟨q, rfl⟩, hc⟩
    obtain ⟨-, hp⟩ := List.cons_prefix_cons.mp hp
    obtain ⟨-, hp⟩ := List.cons_prefix_cons.mp hp
    exact ⟨q, rfl, hp, Closes.opening.mp hc⟩
  unfold Stretch.blockComment
  cases hrest : afterComment? 0 cs with
  | none =>
    refine unclosedComment ⟨cs, rfl⟩ fun p hp hc => ?_
    obtain ⟨q, -, hq, hcloses⟩ := hopens p hp hc
    obtain ⟨rest, h, -⟩ := exists_afterComment? hq hcloses
    rw [hrest] at h
    cases h
  | some rest =>
    obtain ⟨comment, rfl, hcloses⟩ := afterComment?_closes hrest
    have hclosed : Closed ('/' :: '*' :: comment) := ⟨⟨comment, rfl⟩, Closes.opening.mpr hcloses⟩
    have htake : (comment ++ rest).take ((comment ++ rest).length - rest.length) = comment := by
      simp
    dsimp only
    rw [htake]
    show Tile ('/' :: '*' :: comment ++ rest) _
    refine blockComment hclosed fun p hp hc => ?_
    obtain ⟨q, rfl, hq, hcloses⟩ := hopens p hp hc
    obtain ⟨rest', h, hle⟩ := exists_afterComment? hq hcloses
    obtain rfl := Option.some.inj (hrest.symm.trans h)
    simp only [List.length_append, List.length_cons] at hle ⊢
    omega

theorem ne_nil (h : Tile text s) : text ≠ [] := by
  cases h with
  | blockComment h =>
    obtain ⟨⟨p, rfl⟩, -⟩ := h
    simp
  | unclosedComment ho =>
    rintro rfl
    cases List.prefix_nil.mp ho
  | token _ hk => simp [hk.ne_nil]
  | _ => simp

/-- Where no token comes first there is a fault. -/
theorem of_unexpected (hb : ¬ OpensBlank (c :: cs)) (hs : Symbol.ofChar? c = none) (hq : c ≠ '\"')
    (hd : ¬ c.isDigit) (hw : ¬ isWordStart c) :
    Tile (c :: cs) ⟨[c], cs, .fault (.unexpectedCharacter c)⟩ := by
  refine .unexpected hb hq fun p k hp hk => ?_
  obtain ⟨q, rfl, -⟩ := hk.exists_of_prefix hp
  obtain ⟨s, t, -, ht, -⟩ :=
    hk.of_plain hq (Bool.not_eq_true _ ▸ hd) (Bool.not_eq_true _ ▸ hw)
  rw [hs] at ht
  cases ht

/-- The first stretch of a text is what comes first in it. -/
theorem first (c : Char) (cs : List Char) : Tile (c :: cs) (Stretch.first c cs) := by
  by_cases hb : OpensBlank (c :: cs)
  · rcases hb with ⟨d, hd, hspace⟩ | ⟨rest, hrest⟩ | ⟨rest, hrest⟩
    · cases hd
      rw [Stretch.first_space hspace]
      exact .space hspace
    · cases hrest
      exact of_lineComment rest
    · cases hrest
      exact of_blockComment rest
  cases hs : Symbol.ofChar? c with
  | some s =>
    rw [Stretch.first_symbol hb hs]
    exact of_symbol hb hs
  | none =>
    by_cases hq : c = '\"'
    · subst hq
      exact of_string cs
    by_cases hd : c.isDigit
    · rw [Stretch.first_digit hb hd]
      exact of_number hb hd
    by_cases hw : isWordStart c
    · rw [Stretch.first_word hb hw]
      exact of_word hb hw
    rw [Stretch.first_unexpected hb hs hq hd hw]
    exact of_unexpected hb hs hq hd hw

theorem not_lexeme_of_unclosed {p : List Char} (h : '\"' ∉ cs) (hp : p <+: '\"' :: cs) :
    ¬ Lexeme p kind := by
  intro hk
  obtain ⟨q, rfl, hq⟩ := hk.exists_of_prefix hp
  obtain ⟨contents, rfl, -, -⟩ := hk.of_quote
  exact h (hq.subset (List.mem_append_right _ List.mem_cons_self))

/-- Where no blank or comment comes first, the longest token does, or else a fault. -/
theorem of_not_opensBlank (h : Tile text s) (hb : ¬ OpensBlank text) :
    (∃ kind, s.role = .token kind ∧ s.consumed ++ s.rest = text ∧ Lexeme s.consumed kind ∧
      ∀ p k, p <+: text → Lexeme p k → p.length ≤ s.consumed.length) ∨
    (∀ p k, p <+: text → ¬ Lexeme p k) ∧ ∃ c cs, text = c :: cs ∧
      s = if c = '\"' then ⟨c :: cs, [], .fault .unterminatedString⟩
        else ⟨[c], cs, .fault (.unexpectedCharacter c)⟩ := by
  cases h with
  | space h => exact (hb (.inl ⟨_, rfl, h⟩)).elim
  | lineComment => exact (hb (.inr (.inl ⟨_, rfl⟩))).elim
  | blockComment h => exact (hb (.inr (.inr (h.1.trans (List.prefix_append _ _))))).elim
  | unclosedComment ho => exact (hb (.inr (.inr ho))).elim
  | token _ hk hlongest => exact .inl ⟨_, rfl, rfl, hk, hlongest⟩
  | unclosedString h =>
    exact .inr ⟨fun p k hp => not_lexeme_of_unclosed h hp, _, _, rfl, (if_pos rfl).symm⟩
  | unexpected _ hq h => exact .inr ⟨h, _, _, rfl, (if_neg hq).symm⟩

theorem role_of_not_opensBlank (h : Tile text s) (hb : ¬ OpensBlank text) :
    (∃ kind, s.role = .token kind) ∨
    ∃ error, error ≠ .unterminatedComment ∧ s.role = .fault error := by
  rcases h.of_not_opensBlank hb with ⟨kind, hrole, -⟩ | ⟨-, c, cs, -, hs⟩
  · exact .inl ⟨kind, hrole⟩
  · rw [hs]
    split
    · exact .inr ⟨_, by simp, rfl⟩
    · exact .inr ⟨_, by simp, rfl⟩

theorem unique_of_not_opensBlank {s' : Stretch} (h : Tile text s) (h' : Tile text s')
    (hb : ¬ OpensBlank text) : s = s' := by
  rcases h.of_not_opensBlank hb with ⟨kind, hr, ht, hk, hlongest⟩ | ⟨hnone, c, cs, ht, hs⟩
  · rcases h'.of_not_opensBlank hb with ⟨kind', hr', ht', hk', hlongest'⟩ | ⟨hnone, -⟩
    · have hle := hlongest _ _ ⟨_, ht'⟩ hk'
      have hle' := hlongest' _ _ ⟨_, ht⟩ hk
      obtain ⟨hc, hrest⟩ := List.append_inj (ht.trans ht'.symm) (Nat.le_antisymm hle' hle)
      obtain ⟨consumed, rest, role⟩ := s
      obtain ⟨consumed', rest', role'⟩ := s'
      cases hc
      cases hrest
      cases hr
      cases hr'
      rw [hk.unique hk']
    · exact (hnone _ _ ⟨_, ht⟩ hk).elim
  · rcases h'.of_not_opensBlank hb with ⟨kind', -, ht', hk', -⟩ | ⟨-, c', cs', ht', hs'⟩
    · exact (hnone _ _ ⟨_, ht'⟩ hk').elim
    · cases ht.symm.trans ht'
      rw [hs, hs']

/-- Only one tile can come first. -/
theorem eq_first (h : Tile (c :: cs) s) : s = Stretch.first c cs := by
  by_cases hb : OpensBlank (c :: cs)
  · generalize ht : c :: cs = text at h hb
    cases h with
    | space h =>
      cases ht
      exact (Stretch.first_space h).symm
    | @lineComment body rest hbody hrest =>
      cases ht
      show _ = Stretch.lineComment (body ++ rest)
      unfold Stretch.lineComment
      rcases hrest with rfl | hrest
      · rw [List.append_nil, takeWhile_ne_of_not_mem hbody, dropWhile_ne_of_not_mem hbody]
      · cases rest with
        | nil => cases hrest
        | cons d rest =>
          cases hrest
          rw [takeWhile_ne hbody, dropWhile_ne hbody]
    | @blockComment _ rest h hshortest =>
      obtain ⟨⟨p, rfl⟩, hc⟩ := h
      cases ht
      obtain ⟨rest', hrest, hle⟩ :=
        exists_afterComment? (List.prefix_append p rest) (Closes.opening.mp hc)
      obtain ⟨p', hp', hcloses⟩ := afterComment?_closes hrest
      have hle' := hshortest ('/' :: '*' :: p') ⟨rest', by simp [hp']⟩
        ⟨⟨p', rfl⟩, Closes.opening.mpr hcloses⟩
      have hlength := congrArg List.length hp'
      simp only [List.length_append, List.length_cons, List.length_nil] at hle hle' hlength
      obtain ⟨rfl, rfl⟩ := List.append_inj hp' (by omega)
      show _ = Stretch.blockComment (p ++ rest)
      unfold Stretch.blockComment
      rw [hrest]
      simp
    | unclosedComment ho h =>
      obtain ⟨rest, rfl⟩ := ho
      cases ht
      show _ = Stretch.blockComment rest
      unfold Stretch.blockComment
      cases hrest : afterComment? 0 rest with
      | none => rfl
      | some rest' =>
        obtain ⟨p, rfl, hcloses⟩ := afterComment?_closes hrest
        exact (h _ ⟨rest', rfl⟩ ⟨⟨p, rfl⟩, Closes.opening.mpr hcloses⟩).elim
    | token hb' => exact (hb' hb).elim
    | unclosedString => exact (not_opensBlank rfl (by decide) hb).elim
    | unexpected hb' => exact (hb' hb).elim
  · exact h.unique_of_not_opensBlank (first c cs) hb

end Tile

/-- What tiles add to a scan, from the line on which they begin. -/
def tileItems (line : Nat) : List Stretch → List Item
  | [] => []
  | s :: ss =>
    let last := line + lineBreaks s.consumed
    (s.item? line last).toList ++ tileItems last ss

namespace Tiling

variable {cs : List Char} {tiles : List Stretch}

/-- A text falls into tiles in one way. -/
theorem existsUnique : (cs : List Char) → ∃ tiles, ∀ ss, Tiling cs ss ↔ ss = tiles
  | [] => by
    refine ⟨[], fun ss => ⟨fun h => ?_, fun h => h ▸ .nil⟩⟩
    generalize hcs : [] = cs at h
    cases h with
    | nil => rfl
    | cons h => exact (h.ne_nil hcs.symm).elim
  | c :: cs => by
    obtain ⟨tiles, htiles⟩ := existsUnique (Stretch.first c cs).rest
    refine ⟨Stretch.first c cs :: tiles, fun ss => ⟨fun h => ?_, fun h => ?_⟩⟩
    · cases h with
      | cons h hs =>
        cases h.eq_first
        rw [(htiles _).mp hs]
    · exact h ▸ .cons (.first c cs) ((htiles tiles).mpr rfl)
termination_by cs => cs.length
decreasing_by exact Nat.lt_succ_of_le (Stretch.length_rest_first_le c cs)

/-- Tiles lose nothing of the text and do not overlap. -/
theorem text (h : Tiling cs tiles) : tiles.flatMap (·.consumed) = cs := by
  induction h with
  | nil => rfl
  | @cons text s ss h _ ih =>
    obtain ⟨c, cs, rfl⟩ := List.exists_cons_of_ne_nil h.ne_nil
    cases h.eq_first
    rw [List.flatMap_cons, ih, Stretch.first_text]

/-- The scan of a text adds up what its tiles add. -/
theorem scanned (h : Tiling cs tiles) (line : Nat) :
    scanFrom [] line cs = ⟨tileItems line tiles, line + lineBreaks cs⟩ := by
  induction h generalizing line with
  | nil => rw [scanFrom]; rfl
  | @cons text s ss h _ ih =>
    obtain ⟨c, cs, rfl⟩ := List.exists_cons_of_ne_nil h.ne_nil
    cases h.eq_first
    rw [scanFrom_cons, ih, Stretch.lineBreaks_first, ← Nat.add_assoc]
    rfl

end Tiling

end LoxLang
