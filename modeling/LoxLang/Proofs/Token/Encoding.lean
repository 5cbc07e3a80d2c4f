import LoxLang.Proofs.Token.Lexemes
import LoxLang.Token.Scanner

/-!
Characters and their bytes. A character of ASCII is one byte, and no byte of any other character is
one of ASCII. So a search for bytes of ASCII finds what a search for the characters does, and it
ends between characters.
-/

namespace LoxLang

/-- The bytes of a text. -/
def utf8 (cs : List Char) : List UInt8 :=
  cs.flatMap String.utf8EncodeChar

/-- Whether a character is one of ASCII. -/
def IsAscii (c : Char) : Prop :=
  c.val.toNat ≤ 0x7f

instance (c : Char) : Decidable (IsAscii c) :=
  inferInstanceAs (Decidable (c.val.toNat ≤ 0x7f))

@[simp] theorem utf8_nil : utf8 [] = [] := rfl

@[simp] theorem utf8_cons (c : Char) (cs : List Char) :
    utf8 (c :: cs) = String.utf8EncodeChar c ++ utf8 cs :=
  List.flatMap_cons

@[simp] theorem utf8_append (cs ds : List Char) : utf8 (cs ++ ds) = utf8 cs ++ utf8 ds :=
  List.flatMap_append

theorem utf8_toList (source : String) : source.toByteArray.data.toList = utf8 source.toList := by
  rw [← String.utf8Encode_toList, List.utf8Encode, List.toList_data_toByteArray]
  rfl

theorem utf8EncodeChar_ascii {c : Char} (h : IsAscii c) :
    String.utf8EncodeChar c = [c.toUInt8] :=
  String.utf8EncodeChar_eq_singleton (Char.utf8Size_eq_one_iff.mpr (UInt32.le_iff_toNat_le.mpr h))

theorem wide_of_mem_utf8EncodeChar {c : Char} (h : ¬ IsAscii c) {b : UInt8}
    (hb : b ∈ String.utf8EncodeChar c) : 0x80 ≤ b.toNat := by
  have h : ¬ c.val.toNat ≤ 0x7f := h
  unfold String.utf8EncodeChar at hb
  rw [if_neg h] at hb
  split at hb
  · simp only [List.mem_cons, List.not_mem_nil, or_false] at hb
    rcases hb with rfl | rfl <;> rw [UInt8.toNat_ofNat'] <;> omega
  split at hb
  all_goals simp only [List.mem_cons, List.not_mem_nil, or_false] at hb
  · rcases hb with rfl | rfl | rfl <;> rw [UInt8.toNat_ofNat'] <;> omega
  · rcases hb with rfl | rfl | rfl | rfl <;> rw [UInt8.toNat_ofNat'] <;> omega

/-- The character that the first byte of a text is by itself, or zero if there is none. -/
def leading (cs : List Char) : Char :=
  Char.ofUInt8 ((utf8 cs).headD 0)

theorem toNat_ofUInt8 (b : UInt8) : (Char.ofUInt8 b).val.toNat = b.toNat := rfl

theorem ofUInt8_toUInt8 {c : Char} (h : IsAscii c) : Char.ofUInt8 c.toUInt8 = c := by
  refine Char.ext (UInt32.toNat_inj.mp ?_)
  have h : c.val.toNat ≤ 0x7f := h
  rw [toNat_ofUInt8, Char.toUInt8, UInt32.toNat_toUInt8]
  omega

theorem toUInt8_ofUInt8 (b : UInt8) : (Char.ofUInt8 b).toUInt8 = b := by
  refine UInt8.toNat_inj.mp ?_
  rw [Char.toUInt8, UInt32.toNat_toUInt8, toNat_ofUInt8]
  exact Nat.mod_eq_of_lt b.toNat_lt

/-- A byte and a character of ASCII are the same if they are so as characters. -/
theorem eq_toUInt8 {b : UInt8} {c : Char} (h : IsAscii c) :
    b = c.toUInt8 ↔ Char.ofUInt8 b = c := by
  constructor
  · rintro rfl
    exact ofUInt8_toUInt8 h
  · rintro rfl
    exact (toUInt8_ofUInt8 b).symm

theorem exists_utf8EncodeChar {c : Char} (h : ¬ IsAscii c) :
    ∃ b bs, String.utf8EncodeChar c = b :: bs ∧ ¬ IsAscii (Char.ofUInt8 b) := by
  obtain ⟨b, bs, hb⟩ := List.exists_cons_of_ne_nil (String.utf8EncodeChar_ne_nil (c := c))
  have hwide := wide_of_mem_utf8EncodeChar h (hb ▸ List.mem_cons_self)
  refine ⟨b, bs, hb, fun hle => ?_⟩
  have hle : b.toNat ≤ 0x7f := hle
  omega

section

variable {p : Char → Bool} {q : UInt8 → Bool}

/-- What holds of characters of ASCII only is told from the first byte. -/
theorem leading_cons (hp : ∀ c, p c → IsAscii c) (c : Char) (cs : List Char) :
    p (leading (c :: cs)) = p c := by
  have hfalse : ∀ d, ¬ IsAscii d → p d = false := by
    intro d hd
    cases hpd : p d with
    | false => rfl
    | true => exact (hd (hp d hpd)).elim
  by_cases hc : IsAscii c
  · rw [leading, utf8_cons, utf8EncodeChar_ascii hc]
    exact congrArg p (ofUInt8_toUInt8 hc)
  · obtain ⟨b, bs, hb, hwide⟩ := exists_utf8EncodeChar hc
    rw [leading, utf8_cons, hb, hfalse c hc]
    exact hfalse _ hwide

theorem takeWhile_utf8 (hq : ∀ b, q b = p (Char.ofUInt8 b)) (hp : ∀ c, p c → IsAscii c)
    (cs : List Char) : (utf8 cs).takeWhile q = utf8 (cs.takeWhile p) := by
  induction cs with
  | nil => rfl
  | cons c cs ih =>
    rw [List.takeWhile_cons, utf8_cons]
    cases hc : p c with
    | true =>
      have hascii := utf8EncodeChar_ascii (hp c hc)
      rw [hascii, List.singleton_append, List.takeWhile_cons, hq, ofUInt8_toUInt8 (hp c hc), hc,
        if_pos rfl, ih, if_pos rfl, utf8_cons, hascii]
      rfl
    | false =>
      obtain ⟨b, bs, hb⟩ := List.exists_cons_of_ne_nil (String.utf8EncodeChar_ne_nil (c := c))
      have hhead : p (Char.ofUInt8 b) = false := by
        have h := leading_cons hp c cs
        rw [leading, utf8_cons, hb, hc] at h
        exact h
      rw [hb, List.cons_append, List.takeWhile_cons, hq, hhead]
      rfl

end

namespace Scanner

variable (b : UInt8)

theorem isSpaceByte_eq : isSpaceByte b = isSpace (Char.ofUInt8 b) := by
  have h : ∀ c, IsAscii c → decide (b = c.toUInt8) = decide (Char.ofUInt8 b = c) :=
    fun c hc => decide_eq_decide.mpr (eq_toUInt8 hc)
  rw [isSpaceByte, isSpace, h ' ' (by decide), h '\r' (by decide), h '\t' (by decide),
    h '\n' (by decide)]

theorem isDigitByte_eq : isDigitByte b = (Char.ofUInt8 b).isDigit := rfl

theorem isWordStartByte_eq : isWordStartByte b = isWordStart (Char.ofUInt8 b) := by
  have hlow : decide (b = '_'.toUInt8) = decide (Char.ofUInt8 b = '_') :=
    decide_eq_decide.mpr (eq_toUInt8 (by decide))
  rw [isWordStartByte, isWordStart, hlow]
  show _ = (decide (_ ∧ _) || _ || _)
  rw [Bool.decide_and, Bool.or_comm (_ && _) (_ && _)]
  rfl

theorem isWordPartByte_eq : isWordPartByte b = isWordPart (Char.ofUInt8 b) := by
  rw [isWordPartByte, isWordPart, isWordStartByte_eq, isDigitByte_eq, isWordStart, Char.isAlphanum,
    Bool.or_right_comm]

end Scanner

theorem ascii_of_isSpace {c : Char} (h : isSpace c) : IsAscii c := by
  simp only [isSpace, Bool.or_eq_true, decide_eq_true_eq] at h
  rcases h with ((rfl | rfl) | rfl) | rfl <;> decide

theorem ascii_of_isWordPart {c : Char} (h : isWordPart c) : IsAscii c := by
  rw [isWordPart, Char.isAlphanum, Bool.or_eq_true, Bool.or_eq_true, isAlpha_iff, isDigit_iff,
    decide_eq_true_eq] at h
  rcases h with h | rfl
  · unfold IsAscii
    omega
  · decide

theorem ascii_of_isDigit {c : Char} (h : c.isDigit) : IsAscii c :=
  ascii_of_isWordPart (by simp [isWordPart, Char.isAlphanum, h])

theorem ascii_of_ofChar? {c : Char} {s : Symbol} (h : Symbol.ofChar? c = some s) : IsAscii c := by
  unfold Symbol.ofChar? at h
  split at h <;> first | decide | cases h

/-- A character of ASCII stands in a text if and only if its byte stands in the bytes. -/
theorem mem_utf8 {d : Char} (hd : IsAscii d) {cs : List Char} : d.toUInt8 ∈ utf8 cs ↔ d ∈ cs := by
  rw [utf8, List.mem_flatMap]
  constructor
  · rintro ⟨c, hc, hb⟩
    by_cases hascii : IsAscii c
    · rw [utf8EncodeChar_ascii hascii, List.mem_singleton, eq_toUInt8 hascii,
        ofUInt8_toUInt8 hd] at hb
      exact hb ▸ hc
    · have hwide := wide_of_mem_utf8EncodeChar hascii hb
      have hle : IsAscii (Char.ofUInt8 d.toUInt8) := (ofUInt8_toUInt8 hd).symm ▸ hd
      have hle : d.toUInt8.toNat ≤ 0x7f := hle
      omega
  · intro h
    refine ⟨d, h, ?_⟩
    rw [utf8EncodeChar_ascii hd]
    exact List.mem_singleton_self _

/-- The bytes of a character of ASCII are as many as the character itself. -/
theorem count_utf8 {d : Char} (hd : IsAscii d) (cs : List Char) :
    (utf8 cs).count d.toUInt8 = cs.count d := by
  induction cs with
  | nil => rfl
  | cons c cs ih =>
    rw [utf8_cons, List.count_append, ih, List.count_cons, Nat.add_comm]
    congr 1
    by_cases hc : c = d
    · rw [hc, utf8EncodeChar_ascii hd]
      simp
    · rw [if_neg (by simpa using hc), List.count_eq_zero]
      intro hmem
      have h : d ∈ [c] := (mem_utf8 hd).mp (by simpa using hmem)
      exact hc (List.mem_singleton.mp h).symm

theorem findIdx?_utf8_eq_none {d : Char} (hd : IsAscii d) {cs : List Char} (h : d ∉ cs) :
    (utf8 cs).findIdx? (· = d.toUInt8) = none := by
  rw [List.findIdx?_eq_none_iff]
  intro b hb
  exact decide_eq_false fun he => h ((mem_utf8 hd).mp (he ▸ hb))

/-- The first byte of a character is found behind the bytes of what is before it. -/
theorem findIdx?_utf8 {d : Char} (hd : IsAscii d) {cs : List Char} (h : d ∉ cs)
    (ds : List Char) :
    (utf8 (cs ++ d :: ds)).findIdx? (· = d.toUInt8) = some (utf8 cs).length := by
  rw [utf8_append, List.findIdx?_append, findIdx?_utf8_eq_none hd h, utf8_cons,
    utf8EncodeChar_ascii hd, List.singleton_append, List.findIdx?_cons, if_pos (decide_eq_true rfl)]
  simp

/-- A text ends behind its bytes. -/
theorem rawEndPos_ofList (cs : List Char) :
    (String.ofList cs).rawEndPos = ⟨(utf8 cs).length⟩ := by
  have h := utf8_toList (.ofList cs)
  rw [String.toList_ofList] at h
  rw [← h]
  rfl

/-- A part of a text that begins and ends between characters is found. -/
theorem slice?_utf8 {source : String} {before mid after : List Char}
    (h : source.toList = before ++ mid ++ after) :
    slice? source (utf8 before).length (utf8 (before ++ mid)).length =
      some (String.ofList mid) := by
  have hvalid : ∀ cs ds, source.toList = cs ++ ds →
      String.Pos.Raw.IsValid source ⟨(utf8 cs).length⟩ := by
    intro cs ds hcs
    refine String.Pos.Raw.isValid_iff_exists_append.mpr ⟨.ofList cs, .ofList ds, ?_, ?_⟩
    · rw [← String.ofList_append, ← hcs, String.ofList_toList]
    · rw [rawEndPos_ofList]
  have hle : (utf8 before).length ≤ (utf8 (before ++ mid)).length := by simp
  rw [slice?, dif_pos ⟨hle, hvalid _ _ (by rw [h, List.append_assoc]), hvalid _ _ h⟩]
  refine congrArg some (String.toByteArray_inj.mp (ByteArray.ext (Array.toList_inj.mp ?_)))
  rw [utf8_toList (.ofList mid), String.toList_ofList, String.toByteArray_extract,
    ByteArray.data_extract, Array.toList_extract, utf8_toList]
  dsimp only
  rw [h]
  simp

end LoxLang
