import Mathlib
import LoxLang.Decimal.Binary
import LoxLang.Token.Scan

/-!
The doubles that numerals stand for. Digits may spell more than a double can hold, which is then
infinite, but what they spell is a number, and it is not below zero. The laws of the fields of a
double come with the whole of Mathlib only.
-/

namespace LoxLang.Decimal

open Float.Model (Format UnpackedFloat)

namespace Unpacked

variable {spec : Format} {f g : UnpackedFloat} {s t : UnpackedFloat.Sign}

/-- The sign of what is a number. -/
def sign? : UnpackedFloat → Option UnpackedFloat.Sign
  | .notANumber => none
  | .infinity s | .zero s | .finite s .. => some s

theorem ne_nan_of_sign? (h : sign? f = some s) : f ≠ .notANumber := by
  rintro rfl
  cases h

/-- Whether what is divided by it is a number again. -/
def Divides : UnpackedFloat → Bool
  | .finite .. => true
  | _ => false

theorem sign?_round (mantissa : Nat) (exponent : Int) (accuracy : UnpackedFloat.Accuracy) :
    sign? (UnpackedFloat.roundWithAccuracy spec s mantissa exponent accuracy) = some s := by
  unfold UnpackedFloat.roundWithAccuracy
  dsimp only
  split <;> rfl

theorem sign?_div (hf : sign? f = some s) (hg : sign? g = some t) (hd : Divides g) :
    sign? (UnpackedFloat.div spec f g) = some (s / t) := by
  cases g with
  | finite =>
    cases hg
    cases f with
    | notANumber => cases hf
    | finite =>
      cases hf
      exact sign?_round _ _ _
    | _ =>
      cases hf
      rfl
  | _ => cases hd

theorem sign?_ofScientific (m : Nat) (e : Int) :
    sign? (UnpackedFloat.ofScientific spec m e) = some .positive := by
  unfold UnpackedFloat.ofScientific
  split
  · rfl
  split
  · rfl
  split
  · rfl
  split
  · exact sign?_round _ _ _
  · exact sign?_round _ _ _

theorem sign?_ofUInt64 (n : UInt64) : sign? (UnpackedFloat.ofUInt64 spec n) = some .positive := by
  unfold UnpackedFloat.ofUInt64 UnpackedFloat.ofNat UnpackedFloat.ofInt UnpackedFloat.normalize
  split
  · rename_i hlt
    rw [Int.compare_eq_lt] at hlt
    omega
  · rfl
  · exact sign?_round _ _ _

/-- A number never gets the fields of what is none. -/
theorem unpackMantissa_pack (hf : f ≠ .notANumber)
    (h : UnpackedFloat.unpackExponent (UnpackedFloat.pack spec f) = -1#_) :
    UnpackedFloat.unpackMantissa (UnpackedFloat.pack spec f) = 0#_ := by
  have hbits := spec.he
  revert h
  fun_cases UnpackedFloat.pack with
  | case1 => exact (hf rfl).elim
  | case2 => simp [UnpackedFloat.packedInfinity]
  | case3 => simp [UnpackedFloat.packedZero]
  | case4 => simp [UnpackedFloat.packedInfinity]
  | case5 _ _ _ _ _ biased hlt =>
    have hmod : biased % 2 ^ spec.exponentBits = biased := Nat.mod_eq_of_lt (by omega)
    rw [UnpackedFloat.unpackExponent_packComponents, BitVec.neg_one_eq_allOnes, ← BitVec.toNat_inj,
      BitVec.toNat_ofNat, BitVec.toNat_allOnes, hmod]
    omega
  | case6 =>
    have hpow := Nat.pow_le_pow_right (n := 2) Nat.two_pos hbits
    rw [UnpackedFloat.unpackExponent_packComponents, BitVec.neg_one_eq_allOnes, ← BitVec.toNat_inj,
      BitVec.toNat_ofNat, BitVec.toNat_allOnes, Nat.zero_mod]
    omega

theorem unpackSign_pack (hf : sign? f = some s) :
    UnpackedFloat.unpackSign (UnpackedFloat.pack spec f) = s.toBitVec := by
  revert hf
  fun_cases UnpackedFloat.pack with
  | case1 => simp [sign?]
  | _ =>
    intro hf
    cases hf
    exact UnpackedFloat.unpackSign_packComponents _ _ _

theorem unpack_pack_ne_nan (hf : f ≠ .notANumber) :
    UnpackedFloat.unpack spec (UnpackedFloat.pack spec f) ≠ .notANumber := by
  unfold UnpackedFloat.unpack
  dsimp only
  split
  · rename_i he
    rw [if_pos (unpackMantissa_pack hf he)]
    simp
  split
  · split <;> simp
  · simp

theorem sign?_unpack (b : BitVec spec.numBits) (h : UnpackedFloat.unpack spec b ≠ .notANumber) :
    sign? (UnpackedFloat.unpack spec b) = some (.ofBitVec (UnpackedFloat.unpackSign b)) := by
  revert h
  unfold UnpackedFloat.unpack
  dsimp only
  split
  · split
    · exact fun _ => rfl
    · exact fun h => (h rfl).elim
  split
  · split <;> exact fun _ => rfl
  · exact fun _ => rfl

theorem sign?_unpack_pack (hf : sign? f = some s) :
    sign? (UnpackedFloat.unpack spec (UnpackedFloat.pack spec f)) = some s := by
  rw [sign?_unpack _ (unpack_pack_ne_nan (ne_nan_of_sign? hf)), unpackSign_pack hf]
  cases s <;> rfl

end Unpacked

theorem toNat_unpackExponent (b : BitVec 64) :
    (@UnpackedFloat.unpackExponent .binary64 b).toNat =
      b.toNat / 2 ^ 52 % 2 ^ 11 := by
  simp [UnpackedFloat.unpackExponent, BitVec.extractLsb, BitVec.extractLsb',
    Nat.shiftRight_eq_div_pow]

theorem toNat_unpackMantissa (b : BitVec 64) :
    (@UnpackedFloat.unpackMantissa .binary64 b).toNat = b.toNat % 2 ^ 52 := by
  simp [UnpackedFloat.unpackMantissa, BitVec.extractLsb, BitVec.extractLsb']

theorem toNat_unpackSign (b : BitVec 64) :
    (@UnpackedFloat.unpackSign .binary64 b).toNat = b.toNat / 2 ^ 63 % 2 := by
  simp [UnpackedFloat.unpackSign, BitVec.extractLsb, BitVec.extractLsb',
    Nat.shiftRight_eq_div_pow]

namespace Reading

/-- What is made of a number reads as a number. -/
theorem ofModel_pack_ne_nan {f : UnpackedFloat} (hf : f ≠ .notANumber) :
    ofFloat (.ofModel (.pack f)) ≠ .nan := by
  have hfields := @Unpacked.unpackMantissa_pack .binary64 _ hf
  rw [← BitVec.toNat_inj, ← BitVec.toNat_inj, toNat_unpackExponent, toNat_unpackMantissa] at hfields
  show ofBits (UnpackedFloat.pack Format.binary64 f).toNat ≠ .nan
  unfold ofBits
  simp only [Nat.pow_eq]
  split
  · rename_i hbiased
    have hfraction : (UnpackedFloat.pack Format.binary64 f).toNat % 2 ^ 52 = 0 := hfields hbiased
    rw [if_pos hfraction]
    simp
  · simp

theorem ofModel_pack_ne_negative {f : UnpackedFloat} (hf : Unpacked.sign? f = some .positive) :
    ofFloat (.ofModel (.pack f)) ≠ .infinite true := by
  have hsign := congrArg BitVec.toNat (@Unpacked.unpackSign_pack .binary64 _ _ hf)
  rw [toNat_unpackSign] at hsign
  show ofBits (UnpackedFloat.pack Format.binary64 f).toNat ≠ .infinite true
  unfold ofBits
  simp only [Nat.pow_eq]
  split
  · split
    · intro h
      simp only [infinite.injEq, decide_eq_true_eq] at h
      rw [h] at hsign
      cases hsign
    · simp
  · simp

theorem isInf_of_infinite {x : Float} {negative : Bool} (h : ofFloat x = .infinite negative) :
    x.isInf := by
  unfold ofFloat ofBits at h
  simp only [Nat.pow_eq] at h
  split at h
  · split at h
    · rename_i hexponent hmantissa
      unfold Float.isInf Float.Model.isInf Float.Model.unpack UnpackedFloat.unpack
      dsimp only
      rw [if_pos, if_pos]
      · rfl
      · rw [← BitVec.toNat_inj, toNat_unpackMantissa]
        exact hmantissa
      · rw [← BitVec.toNat_inj, toNat_unpackExponent]
        exact hexponent
    · cases h
  · cases h

theorem not_isInf_of_isFinite {x : Float} (h : x.isFinite) : x.isInf = false := by
  unfold Float.isFinite Float.Model.isFinite at h
  unfold Float.isInf Float.Model.isInf
  cases hx : x.toModel.unpack with
  | infinity =>
    rw [hx] at h
    cases h
  | _ => rfl

theorem isFinite_of_finite {x : Float} {negative : Bool} {v : Dyadic}
    (h : ofFloat x = .finite negative v) : x.isFinite := by
  unfold ofFloat ofBits at h
  simp only [Nat.pow_eq] at h
  split at h
  · split at h <;> cases h
  · rename_i hexponent
    unfold Float.isFinite Float.Model.isFinite Float.Model.unpack UnpackedFloat.unpack
    dsimp only
    rw [if_neg]
    · split
      · split <;> rfl
      · rfl
    · rw [← BitVec.toNat_inj, toNat_unpackExponent]
      exact hexponent

theorem exists_finite_of_isFinite {x : Float} (h : x.isFinite) :
    ∃ negative v, ofFloat x = .finite negative v := by
  unfold ofFloat ofBits
  simp only [Nat.pow_eq]
  split
  · rename_i hexponent
    unfold Float.isFinite Float.Model.isFinite Float.Model.unpack UnpackedFloat.unpack at h
    dsimp only at h
    rw [if_pos] at h
    · split at h <;> cases h
    · rw [← BitVec.toNat_inj, toNat_unpackExponent]
      exact hexponent
  · exact ⟨_, _, rfl⟩

end Reading

instance decidableEqSign : DecidableEq UnpackedFloat.Sign
  | .positive, .positive | .negative, .negative => .isTrue rfl
  | .positive, .negative | .negative, .positive => .isFalse nofun

theorem divides_powersOfTen : ∀ x ∈ Float.exactlyRepresentablePowersOfTen.toList,
    Unpacked.Divides x.toModel.unpack = true ∧
      Unpacked.sign? x.toModel.unpack = some .positive := by
  decide +kernel

/-- The value of a numeral is made of a number without a minus sign. -/
theorem exists_numberValue_eq (whole fraction : List Char) :
    ∃ f, numberValue whole fraction = .ofModel (.pack f) ∧
      Unpacked.sign? f = some .positive := by
  unfold numberValue Float.ofScientific
  split
  · rename_i h
    have hsize : fraction.length < Float.exactlyRepresentablePowersOfTen.size := by
      simp only [Float.exactlyRepresentablePowersOfTen, List.size_toArray, List.length_cons,
        List.length_nil]
      omega
    obtain ⟨hdivides, hsign⟩ := divides_powersOfTen _ (Array.getElem_mem_toList hsize)
    refine ⟨_, rfl, ?_⟩
    exact Unpacked.sign?_div (Unpacked.sign?_unpack_pack (Unpacked.sign?_ofUInt64 _)) hsign hdivides
  · exact ⟨_, rfl, Unpacked.sign?_ofScientific _ _⟩

theorem Reading.numberValue_ne_nan (whole fraction : List Char) :
    ofFloat (numberValue whole fraction) ≠ .nan := by
  obtain ⟨f, hf, hsign⟩ := exists_numberValue_eq whole fraction
  rw [hf]
  exact ofModel_pack_ne_nan (Unpacked.ne_nan_of_sign? hsign)

theorem Reading.numberValue_ne_negative (whole fraction : List Char) :
    ofFloat (numberValue whole fraction) ≠ .infinite true := by
  obtain ⟨f, hf, hsign⟩ := exists_numberValue_eq whole fraction
  rw [hf]
  exact ofModel_pack_ne_negative hsign

end LoxLang.Decimal
