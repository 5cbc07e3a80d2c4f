import LoxLang.Decimal.Layout
import LoxLang.Proofs.Decimal.Rounding
import LoxLang.Token.Scan
import Mathlib.Data.List.TakeWhile

/-!
Doubles in positional notation. Digits spell the same decimal wherever the point is put and zeros
are filled in, and a text is made of digits and a point.
-/

namespace LoxLang.Decimal

/-- The number that digits with a point between them or not spell. -/
def decimalValue (cs : List Char) : ℚ :=
  let whole := cs.takeWhile (· != '.')
  let fraction := (cs.dropWhile (· != '.')).drop 1
  digitsValue (whole ++ fraction) / 10 ^ fraction.length

/-- What may follow a whole number without changing it: nothing, or a point and zeros. -/
def IsEmptyTail (tail : List Char) : Prop :=
  tail = [] ∨ ∃ n, tail = '.' :: zeros n

theorem digitsValue_eq (digits : List Char) : digitsValue digits = Nat.ofDigitChars 10 digits 0 :=
  Nat.ofDigitChars_eq_foldl.symm

theorem digitsValue_append_zeros (digits : List Char) (n : Nat) :
    digitsValue (digits ++ zeros n) = digitsValue digits * 10 ^ n := by
  simp only [digitsValue_eq, zeros, Nat.ofDigitChars_append, Nat.ofDigitChars_replicate_zero]
  exact Nat.mul_comm _ _

theorem digitsValue_zeros_append (digits : List Char) (n : Nat) :
    digitsValue (zeros n ++ digits) = digitsValue digits := by
  simp [digitsValue_eq, zeros, Nat.ofDigitChars_append, Nat.ofDigitChars_replicate_zero]

theorem isDigit_zeros (n : Nat) : ∀ c ∈ zeros n, c.isDigit := by
  intro c hc
  rw [List.eq_of_mem_replicate hc]
  rfl

section

variable {digits : List Char} (hdigits : ∀ c ∈ digits, c.isDigit)
include hdigits

theorem ne_point : ∀ c ∈ digits, (c != '.') = true := by
  intro c hc
  have hdigit := hdigits c hc
  rw [bne_iff_ne]
  rintro rfl
  cases hdigit

theorem decimalValue_whole : decimalValue digits = digitsValue digits := by
  have hpoint := ne_point hdigits
  unfold decimalValue
  rw [List.takeWhile_eq_self_iff.mpr hpoint, List.dropWhile_eq_nil_iff.mpr hpoint]
  simp

theorem decimalValue_point (fraction : List Char) : decimalValue (digits ++ '.' :: fraction) =
    digitsValue (digits ++ fraction) / 10 ^ fraction.length := by
  have hpoint := ne_point hdigits
  unfold decimalValue
  rw [List.takeWhile_append_of_pos hpoint, List.dropWhile_append_of_pos hpoint]
  simp

theorem decimalValue_tail {tail : List Char} (ht : IsEmptyTail tail) :
    decimalValue (digits ++ tail) = digitsValue digits := by
  rcases ht with rfl | ⟨n, rfl⟩
  · rw [List.append_nil]
    exact decimalValue_whole hdigits
  · have hpos : (10 : ℚ) ^ n ≠ 0 := by positivity
    rw [decimalValue_point hdigits, digitsValue_append_zeros]
    simp [zeros, hpos]

/-- Digits spell the same number wherever the point is put and zeros are filled in. -/
theorem decimalValue_positionalText {tail : List Char} (ht : IsEmptyTail tail) (exponent : Int) :
    decimalValue (positionalText digits exponent tail) = digitsValue digits * 10 ^ exponent := by
  unfold positionalText
  dsimp only
  split
  · rename_i hexponent
    obtain ⟨n, rfl⟩ := Int.eq_ofNat_of_zero_le hexponent
    have hzeros : ∀ c ∈ digits ++ zeros n, c.isDigit := by
      intro c hc
      rcases List.mem_append.mp hc with hc | hc
      · exact hdigits c hc
      · exact isDigit_zeros n c hc
    simp only [Int.toNat_natCast]
    rw [decimalValue_tail hzeros ht, digitsValue_append_zeros]
    simp
  · rename_i hexponent
    obtain ⟨n, hn⟩ : ∃ n : Nat, exponent = -n := ⟨(-exponent).toNat, by omega⟩
    subst hn
    split
    · rename_i hpoint
      have htake : ∀ c ∈ digits.take (digits.length + -n : Int).toNat, c.isDigit :=
        fun c hc => hdigits c (List.mem_of_mem_take hc)
      have hlength : (digits.drop (digits.length + -n : Int).toNat).length = n := by
        rw [List.length_drop]
        omega
      rw [decimalValue_point htake, List.take_append_drop, hlength]
      simp [div_eq_mul_inv]
    · rename_i hpoint
      generalize hm : (-(digits.length + -n : Int)).toNat = m
      have hlength : (zeros m ++ digits).length = n := by
        simp only [zeros, List.length_append, List.length_replicate]
        omega
      have hvalue := decimalValue_point (isDigit_zeros 1) (zeros m ++ digits)
      rw [digitsValue_zeros_append, digitsValue_zeros_append, hlength] at hvalue
      refine Eq.trans hvalue ?_
      simp [div_eq_mul_inv]

end

/-- Digits and points that begin with a digit. -/
def IsDecimal (cs : List Char) : Prop :=
  (∃ c ∈ cs.head?, c.isDigit) ∧ ∀ c ∈ cs, c.isDigit ∨ c = '.'

theorem isDigit_of_mem_emptyTail {tail : List Char} (h : IsEmptyTail tail) :
    ∀ c ∈ tail, c.isDigit ∨ c = '.' := by
  intro c hc
  rcases h with rfl | ⟨n, rfl⟩
  · cases hc
  · rcases List.mem_cons.mp hc with rfl | hc
    · exact .inr rfl
    · exact .inl (isDigit_zeros n c hc)

namespace IsDecimal

variable {cs ds : List Char}

theorem append (h : IsDecimal cs) (hds : ∀ c ∈ ds, c.isDigit ∨ c = '.') : IsDecimal (cs ++ ds) := by
  obtain ⟨⟨c, hc, hdigit⟩, hcs⟩ := h
  constructor
  · refine ⟨c, ?_, hdigit⟩
    rw [List.head?_append, Option.mem_def.mp hc]
    rfl
  · rw [List.forall_mem_append]
    exact ⟨hcs, hds⟩

theorem digits (hne : cs ≠ []) (h : ∀ c ∈ cs, c.isDigit) : IsDecimal cs := by
  obtain ⟨c, cs, rfl⟩ := List.exists_cons_of_ne_nil hne
  exact ⟨⟨c, rfl, h c List.mem_cons_self⟩, fun d hd => .inl (h d hd)⟩

end IsDecimal

theorem positionalText_isDecimal {digits tail : List Char} (hne : digits ≠ [])
    (hdigits : ∀ c ∈ digits, c.isDigit) (ht : IsEmptyTail tail) (exponent : Int) :
    IsDecimal (positionalText digits exponent tail) := by
  have hchars : ∀ {cs : List Char}, (∀ c ∈ cs, c.isDigit) →
      ∀ c ∈ '.' :: cs, c.isDigit ∨ c = '.' := by
    intro cs hcs
    rw [List.forall_mem_cons]
    exact ⟨.inr rfl, fun c hc => .inl (hcs c hc)⟩
  unfold positionalText
  dsimp only
  split
  · rw [List.append_assoc]
    apply IsDecimal.append (.digits hne hdigits)
    rw [List.forall_mem_append]
    exact ⟨fun c hc => .inl (isDigit_zeros _ c hc), isDigit_of_mem_emptyTail ht⟩
  split
  · rename_i hpoint
    apply IsDecimal.append
    · apply IsDecimal.digits
      · rw [ne_eq, List.take_eq_nil_iff]
        rintro (hzero | hnil)
        · omega
        · exact hne hnil
      · exact fun c hc => hdigits c (List.mem_of_mem_take hc)
    · exact hchars fun c hc => hdigits c (List.mem_of_mem_drop hc)
  · have hzero : IsDecimal ['0'] := .digits (by simp) (by simp)
    exact hzero.append (hchars (List.forall_mem_append.mpr ⟨isDigit_zeros _, hdigits⟩))

theorem isDigit_toDigits (n : Nat) : ∀ c ∈ Nat.toDigits 10 n, c.isDigit :=
  fun _ hc => Nat.isDigit_of_mem_toDigits (by decide) (by decide) hc

theorem digitsValue_toDigits (n : Nat) : digitsValue (Nat.toDigits 10 n) = n := by
  rw [digitsValue_eq, Nat.ofDigitChars_ten_toDigits]

/-- A layout without powers of ten, in which whole numbers have at most zeros behind the point. -/
structure Layout.Positional (l : Layout) : Prop where
  positional : ∀ leading, l.positional leading = true
  exactTail : IsEmptyTail l.exactTail.toList
  roundedTail : IsEmptyTail l.roundedTail.toList
  signedZero : l.signedZero = true

namespace Layout.Positional

variable {l : Layout} (hl : l.Positional)
include hl

theorem scaledText_eq (d : Scaled) : l.scaledText d =
    positionalText (Nat.toDigits 10 d.coefficient) d.exponent l.roundedTail.toList := by
  simp [scaledText, hl.positional]

theorem magnitudeText_isDecimal (v : Dyadic) : IsDecimal (l.magnitudeText v) := by
  have hscaled : IsDecimal (l.scaledText (v.shortest l.tie)) := by
    rw [hl.scaledText_eq]
    exact positionalText_isDecimal Nat.toDigits_ne_nil (isDigit_toDigits _) hl.roundedTail _
  unfold magnitudeText
  split
  · split
    · apply IsDecimal.append (.digits Nat.toDigits_ne_nil (isDigit_toDigits _))
      exact isDigit_of_mem_emptyTail hl.exactTail
    · exact hscaled
  · exact hscaled

/-- The text of a finite double begins with a digit or a minus sign. -/
theorem readingText_finite (negative : Bool) (v : Dyadic) :
    ∃ c cs, l.readingText (.finite negative v) = c :: cs ∧ (c.isDigit ∨ c = '-') ∧
      ∀ d ∈ cs, d.isDigit ∨ d = '.' := by
  obtain ⟨⟨c, hc, hdigit⟩, hchars⟩ := hl.magnitudeText_isDecimal v
  obtain ⟨cs, hcs⟩ := List.head?_eq_some_iff.mp hc
  simp only [readingText, hl.signedZero, Bool.true_or, Bool.and_true]
  cases negative
  · rw [hcs] at hchars ⊢
    exact ⟨c, cs, rfl, .inl hdigit, fun d hd => hchars d (List.mem_cons_of_mem _ hd)⟩
  · exact ⟨'-', _, rfl, .inr rfl, hchars⟩

end Layout.Positional

namespace Reading

theorem canonical_of_ofBits {bits : Nat} {negative : Bool} {v : Dyadic}
    (h : ofBits bits = .finite negative v) : v.Canonical := by
  unfold ofBits at h
  simp only [Nat.pow_eq] at h
  split at h
  · split at h <;> cases h
  · cases h
    apply Dyadic.canonical_ofFields <;> omega

theorem canonical_of_ofFloat {x : Float} {negative : Bool} {v : Dyadic}
    (h : ofFloat x = .finite negative v) : v.Canonical :=
  canonical_of_ofBits h

end Reading

end LoxLang.Decimal
