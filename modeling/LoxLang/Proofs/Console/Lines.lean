import LoxLang.Machine.Console
import LoxLang.Proofs.Console.Decoding

/-!
The lines of the input. Each reading takes the next line, whatever its bytes are, and leaves the
lines behind it.
-/

namespace LoxLang

namespace Console

/-- The lines of bytes: each goes up to and with a line feed, or up to the end. -/
def linesOf : List UInt8 → List (List UInt8)
  | [] => []
  | b :: bytes =>
    if b = lineFeed then [b] :: linesOf bytes
    else match linesOf bytes with
      | [] => [[b]]
      | line :: lines => (b :: line) :: lines

/-- What it is to split bytes into lines: nothing is lost or added, no line is empty, and line feeds
stand just where a line ends before another. -/
structure LinesOf (bytes : List UInt8) (lines : List (List UInt8)) : Prop where
  flatten : lines.flatten = bytes
  ne_nil : ∀ line ∈ lines, line ≠ []
  inner : ∀ line ∈ lines, lineFeed ∉ line.dropLast
  ended : ∀ line ∈ lines.dropLast, line.getLast? = some lineFeed

theorem linesOf_spec (bytes : List UInt8) : LinesOf bytes (linesOf bytes) := by
  induction bytes with
  | nil => exact ⟨rfl, nofun, nofun, nofun⟩
  | cons b bytes ih =>
    unfold linesOf
    split
    · rename_i hb
      subst hb
      refine ⟨congrArg (_ :: ·) ih.flatten, ?_, ?_, ?_⟩
      · exact List.forall_mem_cons.mpr ⟨nofun, ih.ne_nil⟩
      · exact List.forall_mem_cons.mpr ⟨nofun, ih.inner⟩
      · cases hlines : linesOf bytes with
        | nil => exact nofun
        | cons line lines =>
          rw [List.dropLast_cons_cons, ← hlines]
          exact List.forall_mem_cons.mpr ⟨rfl, ih.ended⟩
    · rename_i hb
      cases hlines : linesOf bytes with
      | nil =>
        rw [hlines] at ih
        have hbytes : bytes = [] := ih.flatten.symm
        subst hbytes
        refine ⟨rfl, ?_, ?_, nofun⟩
        · exact List.forall_mem_cons.mpr ⟨nofun, nofun⟩
        · exact List.forall_mem_cons.mpr ⟨nofun, nofun⟩
      | cons line lines =>
        rw [hlines] at ih
        obtain ⟨hne, hrest⟩ := List.forall_mem_cons.mp ih.ne_nil
        obtain ⟨hinner, hothers⟩ := List.forall_mem_cons.mp ih.inner
        obtain ⟨b', line, rfl⟩ := List.exists_cons_of_ne_nil hne
        refine ⟨congrArg (b :: ·) ih.flatten, ?_, ?_, ?_⟩
        · exact List.forall_mem_cons.mpr ⟨nofun, hrest⟩
        · refine List.forall_mem_cons.mpr ⟨?_, hothers⟩
          rw [List.dropLast_cons_cons]
          exact List.not_mem_cons_of_ne_of_not_mem (Ne.symm hb) hinner
        · have hended := ih.ended
          cases lines with
          | nil => exact nofun
          | cons next lines =>
            rw [List.dropLast_cons_cons] at hended ⊢
            obtain ⟨hlast, hended⟩ := List.forall_mem_cons.mp hended
            exact List.forall_mem_cons.mpr ⟨List.getLast?_cons_cons.trans hlast, hended⟩

/-- The first line goes up to and with the first line feed. -/
theorem linesOf_eq {bytes : List UInt8} (h : bytes ≠ []) :
    linesOf bytes = (bytes.takeWhile (· ≠ lineFeed) ++
      (bytes.dropWhile (· ≠ lineFeed)).take 1) ::
        linesOf ((bytes.dropWhile (· ≠ lineFeed)).drop 1) := by
  induction bytes with
  | nil => exact (h rfl).elim
  | cons b bytes ih =>
    by_cases hb : b = lineFeed
    · subst hb
      rw [linesOf, if_pos rfl, List.takeWhile_cons_of_neg (by simp),
        List.dropWhile_cons_of_neg (by simp)]
      rfl
    · rw [linesOf, if_neg hb, List.takeWhile_cons_of_pos (by simpa using hb),
        List.dropWhile_cons_of_pos (by simpa using hb)]
      cases bytes with
      | nil => rfl
      | cons b' bytes =>
        rw [ih nofun]
        rfl

/-- A reading takes the first of the lines. -/
theorem takeLine_lines (c : Console) :
    c.takeLine.1 = (linesOf c.input).head? ∧
      linesOf c.takeLine.2.input = (linesOf c.input).tail := by
  obtain ⟨input, printed, sink⟩ := c
  unfold takeLine
  cases input with
  | nil => exact ⟨rfl, rfl⟩
  | cons b bytes =>
    have hne : b :: bytes ≠ [] := nofun
    dsimp only
    rw [linesOf_eq hne]
    cases (b :: bytes).dropWhile (· ≠ lineFeed) with
    | nil => exact ⟨congrArg some (List.append_nil _).symm, rfl⟩
    | cons feed rest => exact ⟨rfl, rfl⟩

/-- Whether a text is another one without all the line feeds and carriage returns at its end. -/
structure Trims (text trimmed : String) : Prop where
  split : ∃ ends : List Char, text.toList = trimmed.toList ++ ends ∧
    ∀ c ∈ ends, c = '\n' ∨ c = '\r'
  last : ∀ c, trimmed.toList.getLast? = some c → c ≠ '\n' ∧ c ≠ '\r'

theorem trims_withoutLineEnd (text : String) : Trims text (withoutLineEnd text) := by
  let atEnd : Char → Bool := fun c => c = '\n' || c = '\r'
  have hlist : (withoutLineEnd text).toList = (text.toList.reverse.dropWhile atEnd).reverse :=
    String.toList_ofList
  have hatEnd {c : Char} : atEnd c = true ↔ c = '\n' ∨ c = '\r' := by
    simp [atEnd]
  constructor
  · refine ⟨(text.toList.reverse.takeWhile atEnd).reverse, ?_, fun c hc => ?_⟩
    · rw [hlist, ← List.reverse_append, List.takeWhile_append_dropWhile, List.reverse_reverse]
    · exact hatEnd.mp (List.all_eq_true.mp List.all_takeWhile c (List.mem_reverse.mp hc))
  · intro c hc
    rw [hlist, List.getLast?_reverse] at hc
    have hnot : atEnd c = false := by
      have hhead := List.head?_dropWhile_not atEnd text.toList.reverse
      rw [hc] at hhead
      simpa using hhead
    exact not_or.mp fun h => by rw [hatEnd.mpr h] at hnot; cases hnot

/-- What the reading of a line answers: its text without the end of the line, if it is one, or else
an error, and nothing behind the last line. -/
inductive Answers : Option (List UInt8) → Except String (Option String) → Prop
  | over : Answers none (.ok none)
  | text {line : List UInt8} {text trimmed : String} (h : line.toByteArray = text.toByteArray)
      (ht : Trims text trimmed) : Answers (some line) (.ok (some trimmed))
  | unreadable {line : List UInt8} (h : ∀ text : String, line.toByteArray ≠ text.toByteArray) :
      Answers (some line) (.error unreadable)

/-- A reading answers to the first of the lines and leaves the others. -/
theorem readLine_answers (c : Console) :
    Answers (linesOf c.input).head? c.readLine.1 ∧
      linesOf c.readLine.2.input = (linesOf c.input).tail := by
  obtain ⟨hline, hrest⟩ := c.takeLine_lines
  rw [← hline, ← hrest]
  unfold readLine
  obtain ⟨line?, c'⟩ := c.takeLine
  cases line? with
  | none => exact ⟨.over, rfl⟩
  | some line =>
    dsimp only
    cases htext : Utf8.decode line with
    | ok text =>
      exact ⟨.text (Utf8.decode_eq_ok_iff.mp htext) (trims_withoutLineEnd text), rfl⟩
    | error fault =>
      refine ⟨.unreadable fun text h => ?_, rfl⟩
      rw [Utf8.decode_eq_ok_iff.mpr h] at htext
      cases htext

end Console

end LoxLang
