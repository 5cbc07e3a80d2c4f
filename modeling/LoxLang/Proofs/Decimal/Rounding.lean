import Mathlib.Algebra.Order.Field.Power
import Mathlib.Data.Rat.Cast.Order
import Mathlib.Tactic.Linarith
import Mathlib.Tactic.LinearCombination
import Mathlib.Tactic.Positivity
import Mathlib.Tactic.Ring
import LoxLang.Decimal.Shortest

/-!
The reals that round to a double. The intervals of two doubles have no point in common, and the
shortest decimal of a double is a point of its interval, so it tells the double from all others.
-/

namespace LoxLang.Decimal

/-- What a power lacks of being whole. -/
theorem zpow_mul_toNat {b : ℚ} (hb : b ≠ 0) (n : Int) : b ^ n * b ^ (-n).toNat = b ^ n.toNat := by
  rw [← zpow_natCast, ← zpow_natCast, ← zpow_add₀ hb]
  congr 1
  omega

namespace Dyadic

/-- The rational number that it is. -/
def value (v : Dyadic) : ℚ :=
  v.mantissa * 2 ^ v.exponent

/-- The magnitudes of doubles: fifty-three bits, of which the first is a one but for the numbers of
the least exponent. -/
structure Canonical (v : Dyadic) : Prop where
  mantissa : v.mantissa < 2 ^ 53
  leading : leastExponent < v.exponent → 2 ^ 52 ≤ v.mantissa
  least : leastExponent ≤ v.exponent
  greatest : v.exponent ≤ 971

theorem canonical_ofFields {biased fraction : Nat} (hb : biased < 2 ^ 11 - 1)
    (hf : fraction < 2 ^ 52) : (ofFields biased fraction).Canonical := by
  unfold ofFields
  split
  · constructor <;> simp only [leastExponent] <;> omega
  · constructor <;> simp only [leastExponent, Nat.pow_eq] <;> omega

/-- What is a whole number is that number. -/
theorem value_of_whole? {v : Dyadic} {n : Nat} (h : v.whole? = some n) : v.value = n := by
  have hscale := zpow_mul_toNat (two_ne_zero (α := ℚ)) v.exponent
  unfold whole? at h
  unfold value
  split at h
  · rename_i hexponent
    obtain rfl := Option.some.inj h
    have hnone : (-v.exponent).toNat = 0 := by omega
    rw [hnone, pow_zero, mul_one] at hscale
    simp [hscale]
  · rename_i hexponent
    have hnone : v.exponent.toNat = 0 := by omega
    rw [hnone, pow_zero] at hscale
    simp only [Nat.pow_eq, Option.ite_none_right_eq_some, Option.some.injEq] at h
    obtain ⟨hmod, rfl⟩ := h
    obtain ⟨n, hn⟩ := Nat.dvd_of_mod_eq_zero hmod
    rw [hn, Nat.mul_div_cancel_left n (by positivity)]
    push_cast
    linear_combination (n : ℚ) * hscale

end Dyadic

namespace Interval

variable (i : Interval) (k : Int)

/-- Whether a rational number rounds to the double. -/
def Holds (x : ℚ) : Prop :=
  if i.closed then i.lower * 2 ^ i.unit ≤ x ∧ x ≤ i.upper * 2 ^ i.unit
  else i.lower * 2 ^ i.unit < x ∧ x < i.upper * 2 ^ i.unit

/-- The scale that `step` and `scale` have in common. -/
def common : ℚ :=
  2 ^ (-i.unit).toNat * 10 ^ (-k).toNat

theorem common_pos : 0 < i.common k := by
  unfold common
  positivity

theorem step_eq : (i.step k : ℚ) = 10 ^ k * i.common k := by
  have h := zpow_mul_toNat (b := 10) (by norm_num) k
  simp only [step, common, Nat.pow_eq, Nat.cast_mul, Nat.cast_pow, Nat.cast_ofNat]
  linear_combination (-2 ^ (-i.unit).toNat) * h

theorem scale_eq : (i.scale k : ℚ) = 2 ^ i.unit * i.common k := by
  have h := zpow_mul_toNat (b := 2) (by norm_num) i.unit
  simp only [scale, common, Nat.pow_eq, Nat.cast_mul, Nat.cast_pow, Nat.cast_ofNat]
  linear_combination (-10 ^ (-k).toNat) * h

/-- Multiples of the unit and points of the grid are compared in a common scale. -/
theorem scale_le_step (n d : Nat) :
    n * i.scale k ≤ d * i.step k ↔ (n * 2 ^ i.unit : ℚ) ≤ d * 10 ^ k := by
  rw [← Nat.cast_le (α := ℚ), Nat.cast_mul, Nat.cast_mul, step_eq, scale_eq, ← mul_assoc,
    ← mul_assoc]
  exact mul_le_mul_iff_of_pos_right (i.common_pos k)

theorem step_le_scale (n d : Nat) :
    d * i.step k ≤ n * i.scale k ↔ (d * 10 ^ k : ℚ) ≤ n * 2 ^ i.unit := by
  rw [← Nat.cast_le (α := ℚ), Nat.cast_mul, Nat.cast_mul, step_eq, scale_eq, ← mul_assoc,
    ← mul_assoc]
  exact mul_le_mul_iff_of_pos_right (i.common_pos k)

/-- The test on points of a grid is right. -/
theorem contains_iff (d : Nat) : i.contains k d = true ↔ i.Holds (d * 10 ^ k) := by
  unfold contains Holds
  dsimp only
  split
  · rw [Bool.and_eq_true, decide_eq_true_eq, decide_eq_true_eq, scale_le_step, step_le_scale]
  · rw [Bool.and_eq_true, decide_eq_true_eq, decide_eq_true_eq, ← not_le, ← not_le, step_le_scale,
      scale_le_step, not_le, not_le]

theorem nearer_cases (tie : Tie) (d : Nat) :
    i.nearer tie k d = d ∨ i.nearer tie k d = d + 1 := by
  unfold nearer
  dsimp only
  split
  · exact .inl rfl
  split
  · exact .inr rfl
  cases tie with
  | up => exact .inr rfl
  | toEven =>
    dsimp only
    split
    · exact .inl rfl
    · exact .inr rfl

/-- The search ends with a point of the interval if the finest grids have one. -/
theorem contains_search (tie : Tie) {finest : Int}
    (hfinest : ∀ k ≤ finest, i.contains k (i.floor k)) (steps : Nat)
    (hsteps : k - finest < steps) :
    i.contains (i.search tie steps k).exponent (i.search tie steps k).coefficient := by
  induction steps generalizing k with
  | zero =>
    apply hfinest
    simp only [search]
    omega
  | succ steps ih =>
    unfold search
    dsimp only
    split
    · rename_i hd hd'
      rcases i.nearer_cases k tie (i.floor k) with h | h
      · rw [h]
        exact hd
      · rw [h]
        exact hd'
    · assumption
    · assumption
    · apply ih
      omega

end Interval

namespace Dyadic

variable {v w : Dyadic} {x : ℚ}

/-- On a grid that is fine enough a double is a point. -/
theorem around_contains_floor (h : v.Canonical) (hne : v.mantissa ≠ 0) {k : Int}
    (hk : k ≤ leastExponent) :
    (Interval.around v).contains k ((Interval.around v).floor k) := by
  have hleast := h.least
  simp only [leastExponent] at hk hleast
  set i := Interval.around v with hi
  have hunit : i.unit = v.exponent - 2 := rfl
  have hcentre : i.centre = 4 * v.mantissa := rfl
  have hstep : i.step k = 2 ^ (-i.unit).toNat := by
    have hnone : k.toNat = 0 := by omega
    simp [Interval.step, hnone]
  have hdvd : i.step k ∣ i.centre * i.scale k := by
    have hpow : 2 ^ (-i.unit).toNat ∣ 2 ^ (2 + (-k).toNat) :=
      Nat.pow_dvd_pow 2 (by omega)
    have hten : 2 ^ (-k).toNat ∣ 10 ^ (-k).toNat := pow_dvd_pow_of_dvd (by norm_num) _
    rw [pow_add] at hpow
    rw [hstep, hcentre, Interval.scale]
    simp only [Nat.pow_eq]
    have hfour := hpow.trans (Nat.mul_dvd_mul_left (2 ^ 2) hten)
    exact hfour.trans ⟨v.mantissa * 2 ^ i.unit.toNat, by ring⟩
  have hpoint : i.floor k * i.step k = i.centre * i.scale k := Nat.div_mul_cancel hdvd
  have hscale : 0 < i.scale k := by
    simp only [Interval.scale, Nat.pow_eq]
    positivity
  have hlower : i.lower < i.centre := by
    rw [hcentre, hi]
    simp only [Interval.around]
    split <;> omega
  have hupper : i.centre < i.upper := by
    rw [hcentre, hi]
    simp only [Interval.around]
    omega
  have hlower' := Nat.mul_lt_mul_of_pos_right hlower hscale
  have hupper' := Nat.mul_lt_mul_of_pos_right hupper hscale
  unfold Interval.contains
  dsimp only
  rw [hpoint]
  split <;> simp only [Bool.and_eq_true, decide_eq_true_eq] <;> omega

/-- A double rounds to itself. -/
theorem holds_value (v : Dyadic) : (Interval.around v).Holds v.value := by
  have hpos : (0 : ℚ) < 2 ^ (v.exponent - 2) := by positivity
  by_cases hzero : v.mantissa = 0
  · simpa [Interval.Holds, Interval.around, hzero, value] using hpos.le
  have hlower : (Interval.around v).lower < 4 * v.mantissa := by
    simp only [Interval.around]
    split <;> omega
  have hvalue : v.value = (4 * v.mantissa : Nat) * 2 ^ (v.exponent - 2) := by
    rw [value, zpow_sub₀ two_ne_zero]
    push_cast
    ring
  have hbelow : ((Interval.around v).lower : ℚ) * 2 ^ (v.exponent - 2) < v.value := by
    rw [hvalue]
    exact mul_lt_mul_of_pos_right (by exact_mod_cast hlower) hpos
  have habove : v.value < ((Interval.around v).upper : ℚ) * 2 ^ (v.exponent - 2) := by
    rw [hvalue]
    apply mul_lt_mul_of_pos_right _ hpos
    simp [Interval.around]
  unfold Interval.Holds
  split
  · exact ⟨hbelow.le, habove.le⟩
  · exact ⟨hbelow, habove⟩

/-- The shortest decimal of a double rounds to it. -/
theorem shortest_holds (h : v.Canonical) (tie : Tie) :
    (Interval.around v).Holds ((v.shortest tie).coefficient * 10 ^ (v.shortest tie).exponent) := by
  unfold shortest
  split
  · rename_i hzero
    simpa [value, hzero] using holds_value v
  · rename_i hne
    rw [← Interval.contains_iff]
    apply Interval.contains_search _ _ _ (fun k hk => around_contains_floor h hne hk)
    have hlog : (Interval.around v).upper.log2 < 55 := by
      have hmantissa := h.mantissa
      rw [Nat.log2_lt (by simp [Interval.around])]
      simp only [Interval.around]
      omega
    have hunit : (Interval.around v).unit = v.exponent - 2 := rfl
    have hgreatest := h.greatest
    simp only [Interval.start, leastExponent]
    omega

/-- No number above the middle between a double and the next one rounds to it, and that middle does
not if the mantissa is odd. -/
theorem le_of_holds (h : (Interval.around v).Holds x) :
    x ≤ (v.mantissa + 1 / 2) * 2 ^ v.exponent ∧
      (v.mantissa % 2 = 1 → x < (v.mantissa + 1 / 2) * 2 ^ v.exponent) := by
  have hupper : ((4 * v.mantissa + 2 : Nat) : ℚ) * 2 ^ (v.exponent - 2) =
      (v.mantissa + 1 / 2) * 2 ^ v.exponent := by
    rw [zpow_sub₀ two_ne_zero]
    push_cast
    ring
  unfold Interval.Holds at h
  simp only [Interval.around, hupper, decide_eq_true_eq] at h
  split at h
  · rename_i heven
    exact ⟨h.2, fun hodd => by omega⟩
  · exact ⟨h.2.le, fun _ => h.2⟩

/-- Nor does any number below the middle between a double and the one before. -/
theorem ge_of_holds (h : (Interval.around v).Holds x) (hne : v.mantissa ≠ 0) :
    (v.mantissa - 1 / 2) * 2 ^ v.exponent ≤ x ∧
      (v.mantissa % 2 = 1 → (v.mantissa - 1 / 2) * 2 ^ v.exponent < x) ∧
      (v.mantissa = 2 ^ 52 → leastExponent < v.exponent →
        (v.mantissa - 1 / 4) * 2 ^ v.exponent ≤ x) := by
  have hpos : (0 : ℚ) < 2 ^ v.exponent := by positivity
  have hhalf : ((4 * v.mantissa - 2 : Nat) : ℚ) * 2 ^ (v.exponent - 2) =
      (v.mantissa - 1 / 2) * 2 ^ v.exponent := by
    rw [zpow_sub₀ two_ne_zero, Nat.cast_sub (by omega)]
    push_cast
    ring
  have hquarter : ((4 * v.mantissa - 1 : Nat) : ℚ) * 2 ^ (v.exponent - 2) =
      (v.mantissa - 1 / 4) * 2 ^ v.exponent := by
    rw [zpow_sub₀ two_ne_zero, Nat.cast_sub (by omega)]
    push_cast
    ring
  have hle : (v.mantissa - 1 / 2) * 2 ^ v.exponent < (v.mantissa - 1 / 4 : ℚ) * 2 ^ v.exponent := by
    nlinarith
  unfold Interval.Holds at h
  simp only [Interval.around, Nat.pow_eq, decide_eq_true_eq] at h
  by_cases hpower : v.mantissa = 2 ^ 52 ∧ leastExponent < v.exponent
  · have heven : v.mantissa % 2 = 0 := by omega
    rw [if_pos heven, if_pos hpower, hquarter] at h
    exact ⟨hle.le.trans h.1, fun _ => by omega, fun _ _ => h.1⟩
  · rw [if_neg hpower, hhalf] at h
    refine ⟨?_, fun hodd => ?_, fun hm he => (hpower ⟨hm, he⟩).elim⟩
    · split at h
      · exact h.1
      · exact h.1.le
    · rw [if_neg (by omega)] at h
      exact h.1

/-- No number rounds to a double and to a greater one with the same exponent. Of two neighbours one
is odd, and leaves the middle to the other. -/
theorem not_holds_of_mantissa_lt (hexponent : v.exponent = w.exponent)
    (hmantissa : v.mantissa < w.mantissa) (hv : (Interval.around v).Holds x) :
    ¬ (Interval.around w).Holds x := by
  intro hw
  obtain ⟨hle, hlt⟩ := le_of_holds hv
  obtain ⟨hge, hgt, -⟩ := ge_of_holds hw (by omega)
  rw [← hexponent] at hge hgt
  have hpos : (0 : ℚ) < 2 ^ v.exponent := by positivity
  rcases Nat.lt_or_ge (v.mantissa + 1) w.mantissa with hfar | hnear
  · have hcast : (v.mantissa + 2 : ℚ) ≤ w.mantissa := by exact_mod_cast hfar
    nlinarith
  · have hnext : w.mantissa = v.mantissa + 1 := by omega
    have hcast : (w.mantissa : ℚ) = v.mantissa + 1 := by exact_mod_cast hnext
    rw [hcast] at hge hgt
    have hmiddle : ((v.mantissa : ℚ) + 1 - 1 / 2) * 2 ^ v.exponent =
        (v.mantissa + 1 / 2) * 2 ^ v.exponent := by ring
    rw [hmiddle] at hge hgt
    rcases Nat.mod_two_eq_zero_or_one v.mantissa with heven | hodd
    · exact absurd (hgt (by omega)) (not_lt.mpr hle)
    · exact absurd (hlt hodd) (not_lt.mpr hge)

/-- No number rounds to a double and to one with a greater exponent. The least mantissa has a
neighbour half as far away, the greatest one, which is odd. -/
theorem not_holds_of_exponent_lt (hcv : v.Canonical) (hcw : w.Canonical)
    (hexponent : v.exponent < w.exponent) (hv : (Interval.around v).Holds x) :
    ¬ (Interval.around w).Holds x := by
  intro hw
  have hleast : leastExponent < w.exponent := lt_of_le_of_lt hcv.least hexponent
  have hleading := hcw.leading hleast
  obtain ⟨hle, hlt⟩ := le_of_holds hv
  obtain ⟨hge, -, hpower⟩ := ge_of_holds hw (by omega)
  have hpos : (0 : ℚ) < 2 ^ v.exponent := by positivity
  have htwice : 2 * (2 : ℚ) ^ v.exponent ≤ 2 ^ w.exponent := by
    rw [← zpow_one_add₀ two_ne_zero]
    exact zpow_le_zpow_right₀ one_le_two (by omega)
  have hgreatest : (v.mantissa : ℚ) + 1 ≤ 2 ^ 53 := by exact_mod_cast hcv.mantissa
  rcases Nat.lt_or_ge (2 ^ 52) w.mantissa with hfar | hnear
  · have hcast : (2 ^ 52 + 1 : ℚ) ≤ w.mantissa := by exact_mod_cast hfar
    nlinarith
  · have hm : w.mantissa = 2 ^ 52 := by omega
    have hquarter := hpower hm hleast
    rw [hm] at hquarter
    push_cast at hquarter
    rcases Nat.lt_or_ge (v.mantissa + 1) (2 ^ 53) with hfar | hnear
    · have hcast : (v.mantissa : ℚ) + 2 ≤ 2 ^ 53 := by exact_mod_cast hfar
      nlinarith
    · have hbound := hcv.mantissa
      have hlast : v.mantissa = 2 ^ 53 - 1 := by omega
      have hmiddle := hlt (by omega)
      rw [hlast] at hmiddle
      norm_num at hmiddle hquarter
      linarith

/-- A number rounds to one double. -/
theorem Canonical.eq_of_holds (hcv : v.Canonical) (hcw : w.Canonical)
    (hv : (Interval.around v).Holds x) (hw : (Interval.around w).Holds x) : v = w := by
  have hexponent : v.exponent = w.exponent := by
    rcases lt_trichotomy v.exponent w.exponent with h | h | h
    · exact (not_holds_of_exponent_lt hcv hcw h hv hw).elim
    · exact h
    · exact (not_holds_of_exponent_lt hcw hcv h hw hv).elim
  have hmantissa : v.mantissa = w.mantissa := by
    rcases lt_trichotomy v.mantissa w.mantissa with h | h | h
    · exact (not_holds_of_mantissa_lt hexponent h hv hw).elim
    · exact h
    · exact (not_holds_of_mantissa_lt hexponent.symm h hw hv).elim
  obtain ⟨mantissa, exponent⟩ := v
  obtain ⟨mantissa', exponent'⟩ := w
  simp only at hexponent hmantissa
  rw [hexponent, hmantissa]

end Dyadic

end LoxLang.Decimal
