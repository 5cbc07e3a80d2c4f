import LoxLang.Tree.Bracketed
import Mathlib.Data.List.TakeWhile

/-!
Words and brackets. A text of words between parentheses, with a space between two of them, can be
read in one way only.
-/

namespace LoxLang

/-- A word, or parts between parentheses. -/
inductive Bracketing where
  | word (text : String)
  | parts (ps : List Bracketing)

mutual

def Bracketing.text : Bracketing → String
  | .word text => text
  | .parts ps => bracket (bracketingTexts ps)

def bracketingTexts : List Bracketing → List String
  | [] => []
  | p :: ps => p.text :: bracketingTexts ps

end

/-- Whether a text is a word: not empty, without spaces and parentheses. -/
structure IsWord (w : String) : Prop where
  ne_nil : w.toList ≠ []
  plain : ∀ c ∈ w.toList, c ≠ ' ' ∧ c ≠ '(' ∧ c ≠ ')'

mutual

/-- Whether all words are words. -/
def Bracketing.Proper : Bracketing → Prop
  | .word text => IsWord text
  | .parts ps => properAll ps

def properAll : List Bracketing → Prop
  | [] => True
  | p :: ps => p.Proper ∧ properAll ps

end

/-- Parts with a space in front of each. -/
def spaced (ps : List Bracketing) : List Char :=
  ps.flatMap fun p => ' ' :: p.text.toList

/-- Whether no word goes on in a text. -/
def Stops (cs : List Char) : Prop :=
  ∀ c ∈ cs.head?, c = ' ' ∨ c = ')'

theorem toList_intercalate (w : String) (ps : List Bracketing) :
    (" ".intercalate (w :: bracketingTexts ps)).toList = w.toList ++ spaced ps := by
  induction ps generalizing w with
  | nil => simp [bracketingTexts, spaced]
  | cons p ps ih =>
    rw [bracketingTexts, String.intercalate_cons_cons, String.toList_append, ih]
    simp [spaced]

namespace Bracketing

theorem text_nil : (parts []).text.toList = ['(', ')'] := rfl

theorem text_cons (p : Bracketing) (ps : List Bracketing) :
    (parts (p :: ps)).text.toList = '(' :: (p.text.toList ++ (spaced ps ++ [')'])) := by
  simp only [text, bracketingTexts, bracket, String.toList_append, toList_intercalate]
  simp

theorem stops_spaced (ps : List Bracketing) (rest : List Char) :
    Stops (spaced ps ++ ')' :: rest) := by
  intro c hc
  cases ps with
  | nil =>
    cases hc
    exact .inr rfl
  | cons p ps =>
    cases hc
    exact .inl rfl

/-- A text begins like no end of a list. -/
theorem text_ne {p : Bracketing} (hp : p.Proper) (rest cs : List Char) :
    p.text.toList ++ rest ≠ ')' :: cs := by
  cases p with
  | word text =>
    obtain ⟨c, ds, htext⟩ := List.exists_cons_of_ne_nil hp.ne_nil
    have hc := hp.plain c (by simp [htext])
    intro h
    have htext' : (word text).text.toList = c :: ds := htext
    rw [htext', List.cons_append] at h
    exact hc.2.2 (List.cons.inj h).1
  | parts ps =>
    cases ps with
    | nil => simp [text_nil]
    | cons => simp [text_cons]

/-- A word begins like no list. -/
theorem word_ne_parts {w : String} (hw : IsWord w) (ps : List Bracketing) (rest rest' : List Char) :
    w.toList ++ rest ≠ (parts ps).text.toList ++ rest' := by
  obtain ⟨c, cs, htext⟩ := List.exists_cons_of_ne_nil hw.ne_nil
  have hc := hw.plain c (by simp [htext])
  intro h
  cases ps with
  | nil =>
    rw [htext, text_nil] at h
    exact hc.2.1 (List.cons.inj h).1
  | cons =>
    rw [htext, text_cons] at h
    exact hc.2.1 (List.cons.inj h).1

/-- A word ends where the first space or parenthesis comes. -/
theorem word_inj {w w' : String} (hw : IsWord w) (hw' : IsWord w') {rest rest' : List Char}
    (hs : Stops rest) (hs' : Stops rest') (h : w.toList ++ rest = w'.toList ++ rest') :
    w = w' ∧ rest = rest' := by
  have htake : ∀ {w : String} {rest : List Char}, IsWord w → Stops rest →
      (w.toList ++ rest).takeWhile (fun c => c ≠ ' ' ∧ c ≠ ')') = w.toList := by
    intro w rest hw hs
    rw [List.takeWhile_append_of_pos]
    · cases rest with
      | nil => simp
      | cons c rest =>
        rcases hs c rfl with rfl | rfl <;> simp
    · intro c hc
      have hplain := hw.plain c hc
      simp [hplain.1, hplain.2.2]
  have hword : w = w' := by
    rw [← String.toList_inj, ← htake hw hs, h, htake hw' hs']
  subst hword
  exact ⟨rfl, List.append_cancel_left h⟩

mutual

/-- What comes first in a text is one word or list. -/
theorem reading_inj : (p q : Bracketing) → {rest rest' : List Char} → p.Proper → q.Proper →
    Stops rest → Stops rest' → p.text.toList ++ rest = q.text.toList ++ rest' →
    p = q ∧ rest = rest'
  | .word _, .word _, _, _, hp, hq, hs, hs', h => by
    obtain ⟨rfl, hrest⟩ := word_inj hp hq hs hs' h
    exact ⟨rfl, hrest⟩
  | .word _, .parts qs, _, _, hp, _, _, _, h => (word_ne_parts hp qs _ _ h).elim
  | .parts ps, .word _, _, _, _, hq, _, _, h => (word_ne_parts hq ps _ _ h.symm).elim
  | .parts [], .parts [], _, _, _, _, _, _, h => ⟨rfl, List.append_cancel_left h⟩
  | .parts [], .parts (q :: qs), _, _, _, hq, _, _, h => by
    simp only [text_nil, text_cons, List.cons_append, List.append_assoc] at h
    exact (text_ne hq.1 _ _ (List.cons.inj h).2.symm).elim
  | .parts (p :: ps), .parts [], _, _, hp, _, _, _, h => by
    simp only [text_nil, text_cons, List.cons_append, List.append_assoc] at h
    exact (text_ne hp.1 _ _ (List.cons.inj h).2).elim
  | .parts (p :: ps), .parts (q :: qs), _, _, hp, hq, _, _, h => by
    simp only [text_cons, List.cons_append, List.append_assoc, List.nil_append] at h
    obtain ⟨rfl, hrest⟩ := reading_inj p q hp.1 hq.1 (stops_spaced _ _) (stops_spaced _ _)
      (List.cons.inj h).2
    obtain ⟨rfl, htail⟩ := readings_inj ps qs hp.2 hq.2 hrest
    exact ⟨rfl, htail⟩
termination_by structural p => p

/-- So are the parts up to the end of a list. -/
theorem readings_inj : (ps qs : List Bracketing) → {rest rest' : List Char} → properAll ps →
    properAll qs → spaced ps ++ ')' :: rest = spaced qs ++ ')' :: rest' → ps = qs ∧ rest = rest'
  | [], [], _, _, _, _, h => ⟨rfl, (List.cons.inj h).2⟩
  | [], q :: qs, _, _, _, _, h => by simp [spaced] at h
  | p :: ps, [], _, _, _, _, h => by simp [spaced] at h
  | p :: ps, q :: qs, _, _, hp, hq, h => by
    simp only [spaced, List.flatMap_cons, List.cons_append, List.append_assoc] at h
    obtain ⟨rfl, hrest⟩ := reading_inj p q hp.1 hq.1 (stops_spaced ps _) (stops_spaced qs _)
      (List.cons.inj h).2
    obtain ⟨rfl, htail⟩ := readings_inj ps qs hp.2 hq.2 hrest
    exact ⟨rfl, htail⟩
termination_by structural ps => ps

end

/-- A text is read in one way. -/
theorem text_inj {p q : Bracketing} (hp : p.Proper) (hq : q.Proper) (h : p.text = q.text) :
    p = q := by
  have hstops : Stops [] := nofun
  exact (reading_inj p q hp hq hstops hstops (congrArg (·.toList ++ []) h)).1

end Bracketing

end LoxLang
