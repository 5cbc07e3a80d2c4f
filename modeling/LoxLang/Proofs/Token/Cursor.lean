import LoxLang.Proofs.Token.Tiling
import LoxLang.Proofs.Token.Encoding

/-!
Where a scanner stands. Each of its moves goes over whole characters, those that a stretch of the
text has, and counts the lines in them.
-/

namespace LoxLang

namespace Scanner

/-- Whether a scanner that is not done stands on a line between two parts of its text. -/
structure Stands (s : Scanner) (line : Nat) (before after : List Char) : Prop where
  text : s.source.toList = before ++ after
  pos : s.pos = (utf8 before).length
  line : s.line = line
  going : s.done = false

/-- The scanner behind the next characters. -/
def past (s : Scanner) (cs : List Char) : Scanner :=
  { s with pos := s.pos + (utf8 cs).length, line := s.line + lineBreaks cs }

theorem past_past (s : Scanner) (cs ds : List Char) : (s.past cs).past ds = s.past (cs ++ ds) := by
  simp [past, lineBreaks_append, Nat.add_assoc]

theorem advance_eq_past {cs : List Char} (h : '\n' ∉ cs) (s : Scanner) :
    s.advance (utf8 cs).length = s.past cs := by
  rw [advance, past, lineBreaks, List.count_eq_zero_of_not_mem h, Nat.add_zero]

theorem peek_eq (s : Scanner) : s.peek = s.rest.headD 0 := by
  rw [peek, peekAt, rest, List.headD_eq_head?_getD, List.head?_drop, Nat.add_zero]

theorem rest_bump (s : Scanner) : s.bump.rest = s.rest.tail := by
  rw [rest, rest, List.tail_drop]
  rfl

/-- Bytes are gone over one by one, and the ends of lines among them are counted. -/
theorem bumps_eq (count : Nat) (s : Scanner) : bumps count s =
    { s with pos := s.pos + count, line := s.line + (s.rest.take count).count '\n'.toUInt8 } := by
  induction count generalizing s with
  | zero => simp [bumps]
  | succ count ih =>
    have hpos : s.pos + 1 + count = s.pos + (count + 1) := by omega
    rw [bumps, ih, rest_bump, bump, peek_eq]
    dsimp only
    rw [hpos]
    cases s.rest with
    | nil => simp; decide
    | cons b bs =>
      rw [List.headD_cons, List.tail_cons, List.take_succ_cons, List.count_cons]
      by_cases hb : b = '\n'.toUInt8
      · simp only [hb, beq_self_eq_true, if_true]
        congr 1
        omega
      · simp [hb]

theorem advance_one {c : Char} (hc : IsAscii c) (hline : c ≠ '\n') (s : Scanner) :
    s.advance 1 = s.past [c] := by
  have hmem : '\n' ∉ [c] := by simpa using hline.symm
  rw [← advance_eq_past hmem, utf8_cons, utf8EncodeChar_ascii hc]
  rfl

theorem not_atEnd_of_rest {s : Scanner} (h : s.rest ≠ []) : ¬ s.atEnd := by
  intro hend
  exact h (List.drop_eq_nil_of_le (of_decide_eq_true hend))

/-- Bytes outside of ASCII are none of the bytes that open and close comments. -/
theorem blockComment_bumps (depth : Nat) {bs more : List UInt8} {s : Scanner}
    (hrest : s.rest = bs ++ more) (hwide : ∀ b ∈ bs, 0x80 ≤ b.toNat) :
    blockComment depth s = blockComment depth (bumps bs.length s) := by
  induction bs generalizing s with
  | nil => rfl
  | cons b bs ih =>
    have hend : ¬ s.atEnd := not_atEnd_of_rest (by simp [hrest])
    have hpeek : s.peek = b := by rw [peek_eq, hrest, List.cons_append, List.headD_cons]
    have hsees : ∀ d e : Char, IsAscii d → s.sees d e = false := by
      intro d e hd
      have hne : b ≠ d.toUInt8 := by
        intro he
        have hle : (Char.ofUInt8 b).val.toNat ≤ 0x7f := (eq_toUInt8 hd).mp he ▸ hd
        have hb := hwide b List.mem_cons_self
        rw [toNat_ofUInt8] at hle
        omega
      rw [sees, hpeek, decide_eq_false hne, Bool.false_and]
    have hskip : blockComment depth s = blockComment depth s.bump := by
      rw [blockComment, if_neg hend, hsees _ _ (by decide), hsees _ _ (by decide)]
      rfl
    rw [hskip]
    refine ih ?_ fun b hb => hwide b (List.mem_cons_of_mem _ hb)
    rw [rest_bump, hrest]
    rfl

/-- What going over a comment comes to, if `rest?` is what the comment leaves of a text. -/
def CommentEnds (rest? : Option (List Char)) (text : List Char) (s : Scanner)
    (result : Bool × Scanner) : Prop :=
  (∃ comment rest, text = comment ++ rest ∧ rest? = some rest ∧ result = (true, s.past comment)) ∨
  rest? = none ∧ result = (false, s.past text)

theorem CommentEnds.append {rest? : Option (List Char)} {cs ds : List Char} {s : Scanner}
    {result : Bool × Scanner} (h : CommentEnds rest? ds (s.past cs) result) :
    CommentEnds rest? (cs ++ ds) s result := by
  rcases h with ⟨comment, rest, rfl, hrest, hresult⟩ | ⟨hrest, hresult⟩
  · exact .inl ⟨cs ++ comment, rest, (List.append_assoc ..).symm, hrest, past_past s .. ▸ hresult⟩
  · exact .inr ⟨hrest, past_past s .. ▸ hresult⟩

namespace Stands

variable {s : Scanner} {line : Nat} {before after cs : List Char} {c : Char}

theorem past (h : s.Stands line before (cs ++ after)) :
    (s.past cs).Stands (line + lineBreaks cs) (before ++ cs) after where
  text := by rw [List.append_assoc]; exact h.text
  pos := by simp [Scanner.past, h.pos]
  line := by rw [Scanner.past, h.line]
  going := h.going

theorem past_one (h : s.Stands line before (c :: cs)) :
    (s.past [c]).Stands (line + lineBreaks [c]) (before ++ [c]) cs :=
  past h

theorem past_pair {d : Char} (h : s.Stands line before (c :: d :: cs)) :
    (s.past [c, d]).Stands (line + lineBreaks [c, d]) (before ++ [c, d]) cs :=
  past h

theorem rest (h : s.Stands line before after) : s.rest = utf8 after := by
  rw [Scanner.rest, bytes, utf8_toList, h.text, h.pos, utf8_append, List.drop_left]

theorem size (h : s.Stands line before after) : s.size = (utf8 (before ++ after)).length := by
  rw [Scanner.size, bytes, utf8_toList, h.text]

theorem left (h : s.Stands line before after) : s.size - s.pos = (utf8 after).length := by
  rw [h.size, h.pos, utf8_append, List.length_append, Nat.add_sub_cancel_left]

theorem atEnd (h : s.Stands line before after) : s.atEnd ↔ after = [] := by
  rw [Scanner.atEnd, decide_eq_true_iff, h.size, h.pos, utf8_append, List.length_append]
  cases after with
  | nil => simp
  | cons c cs =>
    have hpos := Char.utf8Size_pos c
    simp
    omega

theorem peek (h : s.Stands line before after) : Char.ofUInt8 s.peek = leading after := by
  rw [peek_eq, h.rest, leading]

theorem peek_char (h : s.Stands line before (c :: cs)) {p : Char → Bool}
    (hp : ∀ d, p d → IsAscii d) : p (Char.ofUInt8 s.peek) = p c := by
  rw [h.peek, leading_cons hp]

/-- A character of ASCII comes next if its byte does. Zero also stands for the end of the text. -/
theorem peek_eq_iff (h : s.Stands line before after) {d : Char} (hd : IsAscii d ∧ d ≠ '\x00') :
    s.peek = d.toUInt8 ↔ after.head? = some d := by
  rw [eq_toUInt8 hd.1, h.peek]
  cases after with
  | nil =>
    constructor
    · intro he
      exact (hd.2 he.symm).elim
    · rintro ⟨⟩
  | cons c cs =>
    have hp : ∀ e, decide (e = d) = true → IsAscii e := by
      intro e he
      rw [of_decide_eq_true he]
      exact hd.1
    rw [List.head?_cons, Option.some.injEq, ← decide_eq_decide]
    exact leading_cons hp c cs

theorem sees (h : s.Stands line before after) {d e : Char} (hd : IsAscii d ∧ d ≠ '\x00')
    (hline : d ≠ '\n') (he : IsAscii e ∧ e ≠ '\x00') : s.sees d e ↔ [d, e] <+: after := by
  rw [Scanner.sees, Bool.and_eq_true, decide_eq_true_iff, decide_eq_true_iff, h.peek_eq_iff hd]
  cases after with
  | nil => simp
  | cons c cs =>
    rw [List.head?_cons, Option.some.injEq, List.cons_prefix_cons, eq_comm]
    refine and_congr_right ?_
    rintro rfl
    have hnext : s.peekAt 1 = (s.past [d]).peek := by
      rw [← advance_one hd.1 hline]
      rfl
    rw [hnext, h.past_one.peek_eq_iff he]
    cases cs with
    | nil => simp
    | cons c cs => simp [List.cons_prefix_cons, eq_comm]

theorem bumps (h : s.Stands line before (cs ++ after)) :
    bumps (utf8 cs).length s = s.past cs := by
  have hcount := count_utf8 (d := '\n') (by decide) cs
  rw [bumps_eq, h.rest, utf8_append, List.take_left, hcount]
  rfl

theorem bumps_one (h : s.Stands line before (c :: cs)) :
    Scanner.bumps (String.utf8EncodeChar c).length s = s.past [c] := by
  have hbumps : Scanner.bumps (utf8 [c]).length s = s.past [c] := bumps h
  rwa [utf8_cons, utf8_nil, List.append_nil] at hbumps

theorem bump (h : s.Stands line before (c :: cs)) (hc : IsAscii c) : s.bump = s.past [c] := by
  have hbumps := h.bumps_one
  rwa [utf8EncodeChar_ascii hc] at hbumps

/-- The characters that satisfy a condition are gone over whole. -/
theorem skipWhile (h : s.Stands line before after) {p : Char → Bool} {q : UInt8 → Bool}
    (hq : ∀ b, q b = p (Char.ofUInt8 b)) (hp : ∀ d, p d → IsAscii d) (hline : p '\n' = false) :
    s.skipWhile q = s.past (after.takeWhile p) := by
  have hmem : '\n' ∉ after.takeWhile p := by
    intro hm
    rw [List.mem_takeWhile_imp hm] at hline
    cases hline
  rw [Scanner.skipWhile, h.rest, takeWhile_utf8 hq hp, advance_eq_past hmem]

theorem skipLine (h : s.Stands line before after) :
    s.skipLine = s.past (after.takeWhile (· != '\n')) := by
  by_cases hline : '\n' ∈ after
  · obtain ⟨body, rest, rfl, hbody⟩ := List.eq_append_cons_of_mem hline
    rw [takeWhile_ne hbody, ← advance_eq_past hbody, Scanner.skipLine, find?, h.rest,
      findIdx?_utf8 (by decide) hbody, Option.getD_some]
  · rw [takeWhile_ne_of_not_mem hline, ← advance_eq_past hline, Scanner.skipLine, find?, h.rest,
      findIdx?_utf8_eq_none (by decide) hline, Option.getD_none, h.left]

theorem sees_lineComment (h : s.Stands line before after) :
    s.sees '/' '/' ↔ ['/', '/'] <+: after :=
  h.sees (by decide) (by decide) (by decide)

theorem sees_open (h : s.Stands line before after) : s.sees '/' '*' ↔ ['/', '*'] <+: after :=
  h.sees (by decide) (by decide) (by decide)

theorem sees_close (h : s.Stands line before after) : s.sees '*' '/' ↔ ['*', '/'] <+: after :=
  h.sees (by decide) (by decide) (by decide)

/-- A character that begins no pair is gone over whole. -/
theorem blockComment_skip (h : s.Stands line before (c :: cs)) (ho : ¬ ['/', '*'] <+: c :: cs)
    (hc : ¬ ['*', '/'] <+: c :: cs) (depth : Nat) :
    blockComment depth s = blockComment depth (s.past [c]) := by
  by_cases hascii : IsAscii c
  · have hend : ¬ s.atEnd := by simp [h.atEnd]
    rw [blockComment, if_neg hend, if_neg (ho ∘ h.sees_open.mp), if_neg (hc ∘ h.sees_close.mp),
      h.bump hascii]
  · rw [← h.bumps_one]
    exact blockComment_bumps depth h.rest fun b hb => wide_of_mem_utf8EncodeChar hascii hb

theorem blockComment_open (h : s.Stands line before ('/' :: '*' :: cs)) (depth : Nat) :
    blockComment depth s = blockComment (depth + 1) (s.past ['/', '*']) := by
  rw [blockComment, if_neg (by simp [h.atEnd]), if_pos (h.sees_open.mpr ⟨cs, rfl⟩),
    ← advance_eq_past (by decide)]
  rfl

/-- A scanner goes over a comment that is closed, or over the rest of the text. -/
theorem blockComment (h : s.Stands line before after) (depth : Nat) :
    CommentEnds (afterComment? depth after) after s (blockComment (depth + 1) s) := by
  fun_induction afterComment? depth after generalizing s line before with
  | case1 depth cs ih =>
    rw [h.blockComment_open]
    exact (ih h.past_pair).append
  | case2 cs =>
    refine .inl ⟨['*', '/'], cs, rfl, rfl, ?_⟩
    have hopen : ¬ s.sees '/' '*' := by simp [h.sees_open]
    rw [Scanner.blockComment, if_neg (by simp [h.atEnd]), if_neg hopen,
      if_pos (h.sees_close.mpr ⟨cs, rfl⟩), if_pos rfl, ← advance_eq_past (by decide)]
    rfl
  | case3 depth cs ih =>
    have hopen : ¬ s.sees '/' '*' := by simp [h.sees_open]
    have hstep : Scanner.blockComment (depth + 1 + 1) s =
        Scanner.blockComment (depth + 1) (s.past ['*', '/']) := by
      rw [Scanner.blockComment, if_neg (by simp [h.atEnd]), if_neg hopen,
        if_pos (h.sees_close.mpr ⟨cs, rfl⟩), Nat.add_sub_cancel, if_neg (Nat.succ_ne_zero depth),
        ← advance_eq_past (by decide)]
      rfl
    rw [hstep]
    exact (ih h.past_pair).append
  | case4 depth c cs hopen hclose hinner ih =>
    obtain ⟨ho, hc⟩ := not_pair hopen hclose hinner
    rw [h.blockComment_skip ho hc]
    exact (ih h.past_one).append
  | case5 =>
    refine .inr ⟨rfl, ?_⟩
    rw [Scanner.blockComment, if_pos (h.atEnd.mpr rfl)]
    rfl

/-- The text since the start is found. -/
theorem lexeme? (h : s.Stands line (before ++ cs) after) (hstart : s.start = (utf8 before).length) :
    s.lexeme? = some (String.ofList cs) := by
  rw [Scanner.lexeme?, hstart, h.pos]
  exact slice?_utf8 h.text

end Stands

end Scanner

end LoxLang
