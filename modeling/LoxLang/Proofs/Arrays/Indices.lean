import LoxLang.Machine.Arrays
import LoxLang.Proofs.Decimal.Rounding

/-!
The values that are places in an array: the numbers that are whole and not negative.
-/

namespace LoxLang

namespace Decimal

/-- A number that is whole is found to be so. -/
theorem Dyadic.whole?_eq_some_iff {v : Dyadic} {n : Nat} : v.whole? = some n ↔ v.value = n := by
  refine ⟨value_of_whole?, fun h => ?_⟩
  cases hw : v.whole? with
  | some n' =>
    have hn' := value_of_whole? hw
    rw [h] at hn'
    exact congrArg some (by exact_mod_cast hn'.symm)
  | none =>
    unfold whole? at hw
    simp only [Nat.pow_eq] at hw
    split at hw
    · cases hw
    · rename_i hexponent
      split at hw
      · cases hw
      · rename_i hmod
        refine (hmod (Nat.mod_eq_zero_of_dvd ⟨n, ?_⟩)).elim
        have hscale := zpow_mul_toNat (two_ne_zero (α := ℚ)) v.exponent
        have hnone : v.exponent.toNat = 0 := by omega
        rw [hnone, pow_zero] at hscale
        have hmantissa : (v.mantissa : ℚ) = 2 ^ (-v.exponent).toNat * n := by
          rw [← h, Dyadic.value]
          linear_combination (-(v.mantissa : ℚ)) * hscale
        exact_mod_cast hmantissa

namespace Reading

/-- The rational number that a double is, unless it is infinite or no number at all. -/
def rational? : Reading → Option ℚ
  | .finite negative v => some (if negative then -v.value else v.value)
  | _ => none

/-- The natural numbers among the doubles. Negative zero is zero. -/
theorem natural?_eq_some_iff {r : Reading} {n : Nat} :
    r.natural? = some n ↔ r.rational? = some (n : ℚ) := by
  cases r with
  | finite negative v =>
    cases negative with
    | false => simp [natural?, rational?, Dyadic.whole?_eq_some_iff]
    | true =>
      have hneg : -v.value = (n : ℚ) ↔ v.value = n ∧ n = 0 := by
        have hpos : 0 ≤ v.value := by
          unfold Dyadic.value
          positivity
        have hn : (0 : ℚ) ≤ n := by positivity
        constructor
        · intro h
          have hzero : (n : ℚ) = 0 := by linarith
          exact ⟨by linarith, by exact_mod_cast hzero⟩
        · rintro ⟨h, rfl⟩
          rw [h]
          simp
      simp [natural?, rational?, Dyadic.whole?_eq_some_iff, hneg]
  | _ => simp [natural?, rational?]

end Reading

end Decimal

/-- The rational number that a value is. -/
def Value.rational? : Value → Option ℚ
  | .number x => (Decimal.Reading.ofFloat x).rational?
  | _ => none

theorem Value.natural?_eq_some_iff {v : Value} {n : Nat} :
    v.natural? = some n ↔ v.rational? = some (n : ℚ) := by
  cases v with
  | number x => exact Decimal.Reading.natural?_eq_some_iff
  | _ => simp [natural?, rational?]

end LoxLang
