import LoxLang.Proofs.Decimal.Positional
import Mathlib

/-!
Doubles read back from their text. The decimal that a text spells lies next to a multiple of each
power of two, and one of these is the double that the decimal rounds to. So what a layout writes of
a finite double is read as that double, with or without a power of ten. That the bits of a double
give it back is a law that comes with the whole of Mathlib only.
-/

namespace LoxLang.Decimal

namespace Dyadic

instance (v : Dyadic) : Decidable v.Canonical :=
  decidable_of_iff (v.mantissa < 2 ^ 53 ∧ (leastExponent < v.exponent → 2 ^ 52 ≤ v.mantissa) ∧
      leastExponent ≤ v.exponent ∧ v.exponent ≤ 971)
    ⟨fun ⟨h₁, h₂, h₃, h₄⟩ => ⟨h₁, h₂, h₃, h₄⟩,
      fun h => ⟨h.mantissa, h.leading, h.least, h.greatest⟩⟩

end Dyadic

namespace Scaled

/-- The rational number that it is. -/
def value (d : Scaled) : ℚ :=
  d.coefficient * 10 ^ d.exponent

/-- The two multiples of `2 ^ e` around a decimal. -/
def neighbours (d : Scaled) (e : Int) : List Dyadic :=
  let i := Interval.around ⟨0, e⟩
  let mantissa := d.coefficient * i.step d.exponent / i.scale d.exponent / 4
  [⟨mantissa, e⟩, ⟨mantissa + 1, e⟩]

/-- The exponents of doubles. -/
def exponents : List Int :=
  (List.range 2046).map fun n : Nat => Dyadic.leastExponent + n

/-- The neighbours with the exponents of doubles. -/
def candidates (d : Scaled) : List Dyadic :=
  exponents.flatMap d.neighbours

/-- The magnitude that a decimal rounds to, if a double has it. -/
def rounded? (d : Scaled) : Option Dyadic :=
  d.candidates.find? fun v =>
    decide v.Canonical && (Interval.around v).contains d.exponent d.coefficient

variable {d : Scaled} {v : Dyadic}

/-- A decimal below a double that it rounds to is at most half a unit away, so that the double is
the multiple above it. -/
theorem mem_neighbours (h : (Interval.around v).Holds d.value) : v ∈ d.neighbours v.exponent := by
  set i := Interval.around v with hi
  have hscale : 0 < i.scale d.exponent := by
    simp only [Interval.scale, Nat.pow_eq]
    positivity
  have hbounds : i.lower * i.scale d.exponent ≤ d.coefficient * i.step d.exponent ∧
      d.coefficient * i.step d.exponent ≤ i.upper * i.scale d.exponent := by
    rw [Interval.scale_le_step, Interval.step_le_scale]
    unfold Interval.Holds at h
    split at h
    · exact h
    · exact ⟨h.1.le, h.2.le⟩
  have hlower : 4 * v.mantissa - 2 ≤ i.lower := by
    simp only [hi, Interval.around]
    split <;> omega
  have hupper : i.upper = 4 * v.mantissa + 2 := rfl
  have hfloor := (Nat.le_div_iff_mul_le hscale).mpr hbounds.1
  have hceil : d.coefficient * i.step d.exponent / i.scale d.exponent ≤ i.upper := by
    have hdiv := Nat.div_le_div_right (c := i.scale d.exponent) hbounds.2
    rwa [Nat.mul_div_cancel _ hscale] at hdiv
  have hunit : d.neighbours v.exponent =
      [⟨d.coefficient * i.step d.exponent / i.scale d.exponent / 4, v.exponent⟩,
        ⟨d.coefficient * i.step d.exponent / i.scale d.exponent / 4 + 1, v.exponent⟩] := rfl
  generalize d.coefficient * i.step d.exponent / i.scale d.exponent = q at hfloor hceil hunit
  rw [hunit, List.mem_pair]
  rcases Nat.lt_or_ge (q / 4) v.mantissa with hbelow | habove
  · have hnext : q / 4 + 1 = v.mantissa := by omega
    rw [hnext]
    exact .inr rfl
  · have hsame : q / 4 = v.mantissa := by omega
    rw [hsame]
    exact .inl rfl

theorem mem_exponents {e : Int} (hleast : Dyadic.leastExponent ≤ e) (hgreatest : e ≤ 971) :
    e ∈ exponents := by
  obtain ⟨n, rfl⟩ : ∃ n : Nat, e = Dyadic.leastExponent + n :=
    ⟨(e - Dyadic.leastExponent).toNat, by omega⟩
  have hrange : n < 2046 := by
    simp only [Dyadic.leastExponent] at hgreatest
    omega
  exact List.mem_map.mpr ⟨n, List.mem_range.mpr hrange, rfl⟩

/-- Of all candidates only the double that a decimal rounds to is taken. -/
theorem rounded?_eq (hv : v.Canonical) (h : (Interval.around v).Holds d.value) :
    d.rounded? = some v := by
  cases hfound : d.rounded? with
  | none =>
    have hcandidate : v ∈ d.candidates :=
      List.mem_flatMap.mpr ⟨v.exponent, mem_exponents hv.least hv.greatest, mem_neighbours h⟩
    have hrejected := List.find?_eq_none.mp hfound v hcandidate
    rw [Bool.and_eq_true, decide_eq_true_eq, Interval.contains_iff] at hrejected
    exact (hrejected ⟨hv, h⟩).elim
  | some w =>
    have htaken := List.find?_some hfound
    rw [Bool.and_eq_true, decide_eq_true_eq, Interval.contains_iff] at htaken
    rw [hv.eq_of_holds htaken.1 h htaken.2]

/-- The power of ten that `e`, a sign and digits spell. -/
def powerValue : List Char → Int
  | _ :: sign :: digits => if sign = '-' then -(digitsValue digits : Int) else digitsValue digits
  | _ => 0

/-- The decimal that a text without a sign spells. -/
def ofText (cs : List Char) : Scaled :=
  let mantissa := cs.takeWhile (· != 'e')
  let whole := mantissa.takeWhile (· != '.')
  let fraction := (mantissa.dropWhile (· != '.')).drop 1
  ⟨digitsValue (whole ++ fraction), powerValue (cs.dropWhile (· != 'e')) - fraction.length⟩

theorem value_ofText (cs : List Char) : (ofText cs).value =
    decimalValue (cs.takeWhile (· != 'e')) * 10 ^ powerValue (cs.dropWhile (· != 'e')) := by
  have hten : (10 : ℚ) ≠ 0 := by norm_num
  unfold ofText value decimalValue
  dsimp only
  rw [zpow_sub₀ hten, zpow_natCast]
  ring

end Scaled

/-- A power of ten behind the digits. -/
def powerText (leading : Int) : List Char :=
  'e' :: (if leading < 0 then '-' else '+') :: Nat.toDigits 10 leading.natAbs

theorem powerValue_powerText (leading : Int) : Scaled.powerValue (powerText leading) = leading := by
  simp only [powerText, Scaled.powerValue, digitsValue_toDigits]
  by_cases hsign : leading < 0
  · rw [if_pos hsign, if_pos rfl]
    omega
  · rw [if_neg hsign, if_neg (by decide)]
    omega

/-- A decimal with or without a power of ten. -/
inductive IsNumber : List Char → Prop
  | decimal {cs} (h : IsDecimal cs) : IsNumber cs
  | power {cs} (h : IsDecimal cs) (leading : Int) : IsNumber (cs ++ powerText leading)

/-- The characters of numbers. -/
def IsNumberChar (c : Char) : Prop :=
  c.isDigit ∨ c ∈ ['.', 'e', '+', '-']

namespace IsDecimal

variable {cs : List Char} (h : IsDecimal cs)
include h

theorem exists_cons : ∃ c ds, cs = c :: ds ∧ c.isDigit := by
  obtain ⟨⟨c, hc, hdigit⟩, -⟩ := h
  obtain ⟨ds, hds⟩ := List.head?_eq_some_iff.mp hc
  exact ⟨c, ds, hds, hdigit⟩

theorem isNumberChar : ∀ c ∈ cs, IsNumberChar c := by
  intro c hc
  rcases h.2 c hc with hdigit | rfl
  · exact .inl hdigit
  · exact .inr (by decide)

theorem no_power : ∀ c ∈ cs, (c != 'e') = true := by
  intro c hc
  rw [bne_iff_ne]
  rintro rfl
  rcases h.2 'e' hc with hdigit | hpoint
  · cases hdigit
  · cases hpoint

/-- Without a power of ten a text spells what its digits do. -/
theorem value_ofText : (Scaled.ofText cs).value = decimalValue cs := by
  rw [Scaled.value_ofText, List.takeWhile_eq_self_iff.mpr h.no_power,
    List.dropWhile_eq_nil_iff.mpr h.no_power]
  simp [Scaled.powerValue]

/-- What stands before a power of ten is multiplied by it. -/
theorem value_ofText_power (leading : Int) :
    (Scaled.ofText (cs ++ powerText leading)).value = decimalValue cs * 10 ^ leading := by
  have htake : (powerText leading).takeWhile (· != 'e') = [] := rfl
  have hdrop : (powerText leading).dropWhile (· != 'e') = powerText leading := rfl
  rw [Scaled.value_ofText, List.takeWhile_append_of_pos h.no_power,
    List.dropWhile_append_of_pos h.no_power, htake, hdrop, List.append_nil, powerValue_powerText]

end IsDecimal

namespace IsNumber

variable {cs : List Char} (h : IsNumber cs)
include h

theorem exists_cons : ∃ c ds, cs = c :: ds ∧ c.isDigit := by
  cases h with
  | decimal h => exact h.exists_cons
  | power h leading =>
    obtain ⟨c, ds, rfl, hdigit⟩ := h.exists_cons
    exact ⟨c, ds ++ powerText leading, rfl, hdigit⟩

theorem isNumberChar : ∀ c ∈ cs, IsNumberChar c := by
  cases h with
  | decimal h => exact h.isNumberChar
  | power h leading =>
    have hpower : ∀ c ∈ powerText leading, IsNumberChar c := by
      simp only [powerText, List.forall_mem_cons]
      refine ⟨.inr (by decide), ?_, fun c hc => .inl (isDigit_toDigits _ c hc)⟩
      split <;> exact .inr (by decide)
    exact List.forall_mem_append.mpr ⟨h.isNumberChar, hpower⟩

end IsNumber

/-- In scientific notation a point stands behind the first digit if others follow. -/
theorem exists_scientificText_eq {digits : List Char} (hne : digits ≠ [])
    (hdigits : ∀ c ∈ digits, c.isDigit) (leading : Int) :
    ∃ cs, scientificText digits leading = cs ++ powerText leading ∧ IsDecimal cs ∧
      decimalValue cs = digitsValue digits / 10 ^ (digits.length - 1) := by
  match digits, hne with
  | [first], _ =>
    refine ⟨[first], rfl, .digits (by simp) hdigits, ?_⟩
    rw [decimalValue_whole hdigits]
    simp
  | first :: second :: rest, _ =>
    obtain ⟨hfirst, hrest⟩ := List.forall_mem_cons.mp hdigits
    have hfirst : ∀ c ∈ [first], c.isDigit := List.forall_mem_singleton.mpr hfirst
    refine ⟨[first] ++ '.' :: second :: rest, rfl, .append (.digits (by simp) hfirst) ?_,
      decimalValue_point hfirst _⟩
    rw [List.forall_mem_cons]
    exact ⟨.inr rfl, fun c hc => .inl (hrest c hc)⟩

/-- A layout whose texts spell numbers: behind a whole number are at most zeros, and every negative
number has a sign. -/
structure Layout.Spells (l : Layout) : Prop where
  exactTail : IsEmptyTail l.exactTail.toList
  roundedTail : IsEmptyTail l.roundedTail.toList
  signedZero : l.signedZero = true

theorem Layout.Positional.spells {l : Layout} (hl : l.Positional) : l.Spells :=
  ⟨hl.exactTail, hl.roundedTail, hl.signedZero⟩

namespace Reading

/-- The bits of a finite double. The leading one of its mantissa, which no field holds, makes the
exponent field greater by one. -/
def finiteBits (negative : Bool) (v : Dyadic) : Nat :=
  negative.toNat * 2 ^ 63 + (v.exponent - Dyadic.leastExponent).toNat * 2 ^ 52 + v.mantissa

theorem finiteBits_of_ofBits {bits : Nat} (hbits : bits < 2 ^ 64) {negative : Bool} {v : Dyadic}
    (h : ofBits bits = .finite negative v) : finiteBits negative v = bits := by
  unfold ofBits at h
  simp only [Nat.pow_eq] at h
  split at h
  · split at h <;> cases h
  · cases h
    unfold finiteBits Dyadic.ofFields
    simp only [Nat.pow_eq]
    have hsign : (decide (bits / 2 ^ 63 % 2 = 1)).toNat = bits / 2 ^ 63 := by
      have hlt : bits / 2 ^ 63 < 2 := by omega
      interval_cases bits / 2 ^ 63 <;> rfl
    rw [hsign]
    split
    · dsimp only
      omega
    · dsimp only
      omega

/-- The double with a sign and a magnitude. -/
def double (negative : Bool) (v : Dyadic) : Float :=
  .ofBits (.ofNat (finiteBits negative v))

theorem double_of_ofFloat {x : Float} {negative : Bool} {v : Dyadic}
    (h : ofFloat x = .finite negative v) : double negative v = x := by
  unfold double
  rw [finiteBits_of_ofBits x.toBits.toNat_lt h, UInt64.ofNat_toNat, Float.ofBits_toBits]

end Reading

/-- The double above all finite ones. -/
def infinity : Float :=
  .ofBits 0x7FF0000000000000

theorem eq_infinity {x : Float} (h : Reading.ofFloat x = .infinite false) : x = infinity := by
  have hlt := x.toBits.toNat_lt
  have hbits : x.toBits.toNat = 0x7FF0000000000000 := by
    unfold Reading.ofFloat Reading.ofBits at h
    simp only [Nat.pow_eq] at h
    split at h
    · split at h
      · simp only [Reading.infinite.injEq, decide_eq_false_iff_not] at h
        omega
      · cases h
    · cases h
  have hbits : x.toBits = 0x7FF0000000000000 := by
    rw [← UInt64.toNat_inj, hbits]
    rfl
  rw [infinity, ← hbits, Float.ofBits_toBits]

/-- The double that a text spells, if it spells one. -/
def double? : List Char → Option Float
  | [] => none
  | c :: cs =>
    if c = '-' then (Scaled.ofText cs).rounded?.map (Reading.double true)
    else (Scaled.ofText (c :: cs)).rounded?.map (Reading.double false)

namespace Layout.Spells

variable {l : Layout} (hl : l.Spells)
include hl

theorem isNumber_scaledText (d : Scaled) : IsNumber (l.scaledText d) := by
  have hdigits := isDigit_toDigits d.coefficient
  unfold scaledText
  dsimp only
  split
  · exact .decimal (positionalText_isDecimal Nat.toDigits_ne_nil hdigits hl.roundedTail _)
  · obtain ⟨cs, hcs, hdecimal, -⟩ := exists_scientificText_eq Nat.toDigits_ne_nil hdigits
      ((Nat.toDigits 10 d.coefficient).length + d.exponent - 1)
    rw [hcs]
    exact .power hdecimal _

theorem value_scaledText (d : Scaled) : (Scaled.ofText (l.scaledText d)).value = d.value := by
  have hten : (10 : ℚ) ≠ 0 := by norm_num
  have hdigits := isDigit_toDigits d.coefficient
  have hlength := Nat.length_toDigits_pos (b := 10) (n := d.coefficient)
  unfold scaledText
  dsimp only
  split
  · rw [(positionalText_isDecimal Nat.toDigits_ne_nil hdigits hl.roundedTail _).value_ofText,
      decimalValue_positionalText hdigits hl.roundedTail, digitsValue_toDigits]
    rfl
  · generalize hleading : ((Nat.toDigits 10 d.coefficient).length + d.exponent - 1 : Int) = leading
    obtain ⟨cs, hcs, hdecimal, hvalue⟩ :=
      exists_scientificText_eq Nat.toDigits_ne_nil hdigits leading
    have hexponent : leading =
        ((Nat.toDigits 10 d.coefficient).length - 1 : Nat) + d.exponent := by omega
    rw [hcs, hdecimal.value_ofText_power, hvalue, digitsValue_toDigits, Scaled.value, hexponent,
      zpow_add₀ hten, zpow_natCast]
    field_simp

theorem isDecimal_exactText (n : Nat) : IsDecimal (Nat.toDigits 10 n ++ l.exactTail.toList) :=
  .append (.digits Nat.toDigits_ne_nil (isDigit_toDigits n))
    (isDigit_of_mem_emptyTail hl.exactTail)

/-- The text of a magnitude spells a number that rounds to it. -/
theorem magnitudeText_holds {v : Dyadic} (h : v.Canonical) :
    (Interval.around v).Holds (Scaled.ofText (l.magnitudeText v)).value := by
  have hscaled :
      (Interval.around v).Holds (Scaled.ofText (l.scaledText (v.shortest l.tie))).value := by
    rw [hl.value_scaledText]
    exact Dyadic.shortest_holds h l.tie
  unfold magnitudeText
  split
  · rename_i n hn
    split
    · rw [(isDecimal_exactText hl n).value_ofText, decimalValue_tail (isDigit_toDigits n)
          hl.exactTail, digitsValue_toDigits, ← Dyadic.value_of_whole? hn]
      exact Dyadic.holds_value v
    · exact hscaled
  · exact hscaled

theorem isNumber_magnitudeText (v : Dyadic) : IsNumber (l.magnitudeText v) := by
  unfold magnitudeText
  split
  · split
    · exact .decimal (isDecimal_exactText hl _)
    · exact hl.isNumber_scaledText _
  · exact hl.isNumber_scaledText _

/-- The text of a finite double spells that double. -/
theorem double?_readingText {x : Float} {negative : Bool} {v : Dyadic}
    (hx : Reading.ofFloat x = .finite negative v) :
    double? (l.readingText (.finite negative v)) = some x := by
  have hrounded := Scaled.rounded?_eq (Reading.canonical_of_ofFloat hx)
    (hl.magnitudeText_holds (Reading.canonical_of_ofFloat hx))
  have hdouble := Reading.double_of_ofFloat hx
  obtain ⟨c, cs, hcs, hdigit⟩ := (hl.isNumber_magnitudeText v).exists_cons
  simp only [readingText, hl.signedZero, Bool.true_or, Bool.and_true]
  cases negative with
  | false =>
    have hsign : c ≠ '-' := by
      rintro rfl
      exact absurd hdigit (by decide)
    rw [hcs] at hrounded ⊢
    show double? (c :: cs) = _
    rw [double?, if_neg hsign, hrounded, Option.map_some, hdouble]
  | true =>
    show double? ('-' :: l.magnitudeText v) = _
    rw [double?, if_pos rfl, hrounded, Option.map_some, hdouble]

/-- Doubles that are finite and have the same text are the same double. -/
theorem text_inj {x y : Float} {negative negative' : Bool} {v w : Dyadic}
    (hx : Reading.ofFloat x = .finite negative v) (hy : Reading.ofFloat y = .finite negative' w)
    (h : l.text x = l.text y) : x = y := by
  have hread := hl.double?_readingText hx
  unfold text at h
  rw [String.ofList_inj, hx, hy] at h
  rw [h, hl.double?_readingText hy] at hread
  exact (Option.some.inj hread).symm

theorem isNumberChar_readingText (negative : Bool) (v : Dyadic) :
    ∀ c ∈ l.readingText (.finite negative v), IsNumberChar c := by
  unfold readingText
  dsimp only
  rw [List.forall_mem_append]
  refine ⟨?_, (hl.isNumber_magnitudeText v).isNumberChar⟩
  split
  · rw [List.forall_mem_singleton]
    exact .inr (by decide)
  · exact List.forall_mem_nil _

end Layout.Spells

end LoxLang.Decimal
