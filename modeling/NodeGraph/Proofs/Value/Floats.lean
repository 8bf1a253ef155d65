import Mathlib
import NodeGraph.Value.Basic

/-!
Floats: their order, and the whole numbers among them. Up to 2^53 each whole number is a float, and
reading it as one loses nothing; beyond, integers that are close to each other become the same
float.
-/

namespace NodeGraph

open Float.Model (Format UnpackedFloat totalExponent)
open Float.Model.UnpackedFloat

theorem compare_eq_none_iff (left right : UnpackedFloat) :
    left.compare right = none ↔ left.isNaN = true ∨ right.isNaN = true := by
  rcases left with (_ | _) | _ | _ | ⟨_ | _, _, _, _⟩ <;>
    rcases right with (_ | _) | _ | _ | ⟨_ | _, _, _, _⟩ <;>
    simp [UnpackedFloat.compare]

theorem compare_swap (left right : UnpackedFloat) :
    right.compare left = (left.compare right).map Ordering.swap := by
  rcases left with (_ | _) | _ | _ | ⟨_ | _, _, _, _⟩ <;>
    rcases right with (_ | _) | _ | _ | ⟨_ | _, _, _, _⟩ <;>
    simp [UnpackedFloat.compare, Ordering.swap_then, Int.compare_swap, Nat.compare_swap]
  all_goals rfl

namespace Binary64

/-- The same float, except that there is only one zero. -/
def joinZeros : UnpackedFloat → UnpackedFloat
  | .zero _ => .zero .positive
  | other => other

theorem compare_eq_eq_iff (left right : UnpackedFloat) :
    left.compare right = some .eq ↔ joinZeros left = joinZeros right ∧ left.isNaN = false := by
  rcases left with (_ | _) | _ | _ | ⟨_ | _, _, _, _⟩ <;>
    rcases right with (_ | _) | _ | _ | ⟨_ | _, _, _, _⟩ <;>
    simp [UnpackedFloat.compare, joinZeros, UnpackedFloat.isNaN, Ordering.then_eq_eq, and_comm]
  all_goals decide

theorem beq_iff {left right : Float} :
    (left == right) = true ↔
      joinZeros left.toModel.unpack = joinZeros right.toModel.unpack ∧ left.isNaN = false := by
  refine Iff.trans ?_ (compare_eq_eq_iff left.toModel.unpack right.toModel.unpack)
  change (left.toModel.unpack.compare right.toModel.unpack == some .eq) = true ↔ _
  exact beq_iff_eq

theorem isNaN_joinZeros (value : UnpackedFloat) : (joinZeros value).isNaN = value.isNaN := by
  cases value <;> rfl

theorem isNaN_eq {left right : Float}
    (joined : joinZeros left.toModel.unpack = joinZeros right.toModel.unpack) :
    left.isNaN = right.isNaN :=
  (isNaN_joinZeros _).symm.trans ((congrArg UnpackedFloat.isNaN joined).trans (isNaN_joinZeros _))

theorem beq_comm (left right : Float) : (left == right) = (right == left) := by
  have oneWay {first second : Float} (same : (first == second) = true) :
      (second == first) = true := by
    obtain ⟨joined, number⟩ := beq_iff.mp same
    exact beq_iff.mpr ⟨joined.symm, isNaN_eq joined ▸ number⟩
  exact Bool.eq_iff_iff.mpr ⟨oneWay, oneWay⟩

theorem le_iff {left right : Float} :
    left ≤ right ↔ (left.toModel.unpack.compare right.toModel.unpack).any (·.isLE) = true := by
  change decide (left.toModel ≤ right.toModel) = true ↔ _
  exact decide_eq_true_iff

theorem lt_iff {left right : Float} :
    left < right ↔ left.toModel.unpack.compare right.toModel.unpack = some .lt := by
  change decide (left.toModel < right.toModel) = true ↔ _
  rw [decide_eq_true_iff]
  change (left.toModel.unpack.compare right.toModel.unpack == some .lt) = true ↔ _
  exact beq_iff_eq

theorem unordered_iff (low high : Float) :
    (¬ low > high ∧ ¬ low ≤ high) ↔ low.isNaN = true ∨ high.isNaN = true := by
  refine Iff.trans ?_ (compare_eq_none_iff low.toModel.unpack high.toModel.unpack)
  rw [gt_iff_lt, lt_iff, le_iff, compare_swap low.toModel.unpack high.toModel.unpack]
  cases low.toModel.unpack.compare high.toModel.unpack with
  | none => simp
  | some order => cases order <;> simp

theorem le_and_ge (left right : Float) :
    (decide (left ≤ right) && decide (left ≥ right)) = (left == right) := by
  change _ = (left.toModel.unpack.compare right.toModel.unpack == some .eq)
  rw [Bool.eq_iff_iff, Bool.and_eq_true, decide_eq_true_iff, decide_eq_true_iff, ge_iff_le, le_iff,
    le_iff, compare_swap left.toModel.unpack right.toModel.unpack]
  cases left.toModel.unpack.compare right.toModel.unpack with
  | none => simp
  | some order => cases order <;> simp

/-- A mantissa with its leading bit in place, and an exponent that the format has room for. -/
structure Normal (mantissa : Nat) (exponent : Int) : Prop where
  least : 2 ^ 52 ≤ mantissa
  less : mantissa < 2 ^ 53
  lowest : -1074 ≤ exponent
  highest : exponent ≤ 971

variable {mantissa : Nat} {exponent : Int}

theorem Normal.pos (normal : Normal mantissa exponent) : 0 < mantissa :=
  Nat.lt_of_lt_of_le (Nat.two_pow_pos 52) normal.least

theorem Normal.log2_eq (normal : Normal mantissa exponent) (shift : Nat) :
    (mantissa * 2 ^ shift).log2 = 52 + shift := by
  have pos := Nat.mul_pos normal.pos (Nat.two_pow_pos shift)
  rw [Nat.log2_eq_iff (Nat.ne_of_gt pos)]
  constructor
  · rw [Nat.pow_add]
    exact Nat.mul_le_mul_right _ normal.least
  · rw [show 52 + shift + 1 = 53 + shift by omega, Nat.pow_add]
    exact Nat.mul_lt_mul_of_pos_right normal.less (Nat.two_pow_pos shift)

theorem shiftRight_exact (mantissa shift : Nat) :
    (⟨mantissa * 2 ^ shift, false, false⟩ : ExtendedMantissa) >>> shift =
      ⟨mantissa, false, false⟩ := by
  change Nat.repeat ExtendedMantissa.shiftRightOne shift _ = _
  induction shift generalizing mantissa with
  | zero => simp [Nat.repeat]
  | succ shift ih =>
      have doubled : mantissa * 2 ^ (shift + 1) = mantissa * 2 * 2 ^ shift := by ring
      rw [Nat.repeat, doubled, ih]
      simp [ExtendedMantissa.shiftRightOne]

theorem shiftToTargetExponent_exact (normal : Normal mantissa exponent) (shift : Nat) :
    shiftToTargetExponent Format.binary64 (mantissa * 2 ^ shift) (exponent - shift) .exact =
      (⟨mantissa, false, false⟩, exponent) := by
  have lowest := normal.lowest
  have target : Format.binary64.targetExponent
      (totalExponent (mantissa * 2 ^ shift) (exponent - shift)) = exponent := by
    rw [totalExponent, normal.log2_eq, Format.targetExponent,
      show Format.binary64.minExponent = -1074 by decide,
      show Format.binary64.mantissaBits = 53 by decide]
    omega
  have amount : (exponent - (exponent - shift)).toNat = shift := by omega
  rw [shiftToTargetExponent, target, shiftToExponent, amount,
    ExtendedMantissa.ofMantissaAndAccuracy, shiftRight_exact, Int.sub_add_cancel]

theorem roundWithAccuracy_exact (normal : Normal mantissa exponent) (sign : Sign) (shift : Nat) :
    roundWithAccuracy Format.binary64 sign (mantissa * 2 ^ shift) (exponent - shift) .exact =
      .finite sign mantissa exponent normal.pos := by
  have settled := shiftToTargetExponent_exact normal 0
  rw [Nat.pow_zero, Nat.mul_one, Nat.cast_zero, Int.sub_zero] at settled
  have rounded : (⟨mantissa, false, false⟩ : ExtendedMantissa).roundedMantissa = mantissa := rfl
  simp only [roundWithAccuracy, shiftToTargetExponent_exact normal shift, rounded, settled,
    dif_neg (Nat.ne_of_gt normal.pos)]

theorem unpackSign_packComponents {spec : Format} (sign : Sign)
    (exponent : BitVec spec.exponentBits) (mantissa : BitVec spec.mantissaBitsWithoutImplicit) :
    unpackSign (packComponents spec sign exponent mantissa) = sign.toBitVec := by
  ext index inside
  obtain rfl : index = 0 := by omega
  simp [unpackSign, packComponents, BitVec.getLsbD_append, BitVec.getElem_append]

theorem ofBitVec_toBitVec (sign : Sign) : Sign.ofBitVec sign.toBitVec = sign := by
  cases sign <;> rfl

theorem Normal.restored (normal : Normal mantissa exponent) :
    (1#1 ++ BitVec.ofNat 52 mantissa).toNat = mantissa := by
  have least := normal.least
  have less := normal.less
  have stored : mantissa % 2 ^ 52 < 2 ^ 52 := Nat.mod_lt _ (Nat.two_pow_pos 52)
  rw [BitVec.toNat_append, BitVec.toNat_ofNat mantissa, ← Nat.shiftLeft_add_eq_or_of_lt stored]
  change 2 ^ 52 + mantissa % 2 ^ 52 = mantissa
  omega

theorem unpack_pack (normal : Normal mantissa exponent) (sign : Sign) :
    unpack Format.binary64 (pack Format.binary64 (.finite sign mantissa exponent normal.pos)) =
      .finite sign mantissa exponent normal.pos := by
  have lowest := normal.lowest
  have highest := normal.highest
  have log := normal.log2_eq 0
  rw [Nat.pow_zero, Nat.mul_one] at log
  let biased := (exponent + 1075).toNat
  have stored : (BitVec.ofNat 11 biased).toNat = biased := by
    rw [BitVec.toNat_ofNat]
    omega
  have finite : BitVec.ofNat 11 biased ≠ -1#11 := by
    intro same
    have := stored.symm.trans (congrArg BitVec.toNat same)
    change biased = 2047 at this
    omega
  have leading : BitVec.ofNat 11 biased ≠ 0#11 := by
    intro same
    have := stored.symm.trans (congrArg BitVec.toNat same)
    change biased = 0 at this
    omega
  have packed : pack Format.binary64 (.finite sign mantissa exponent normal.pos) =
      packComponents Format.binary64 sign (BitVec.ofNat 11 biased) (BitVec.ofNat 52 mantissa) := by
    have sum : (exponent + (Format.binary64.exponentBias : Int) + (52 : Nat)).toNat = biased := by
      change (exponent + 1023 + 52).toNat = biased
      omega
    have room : ¬ 2 ^ 11 ≤ biased + 1 := by omega
    rw [pack, log, sum, if_neg room]
    rfl
  have unbiased : (biased : Int) - (Format.binary64.exponentBias + 52) = exponent := by
    change (biased : Int) - (1023 + 52) = exponent
    omega
  rw [packed]
  simp only [unpack, unpackMantissa_packComponents, unpackExponent_packComponents,
    unpackSign_packComponents, ofBitVec_toBitVec, if_neg finite, if_neg leading, stored,
    normal.restored]
  congr 1

theorem round_whole (sign : Sign) (whole : Nat) (pos : 0 < whole) (small : whole ≤ 2 ^ 53) :
    ∃ mantissa exponent, ∃ normal : Normal mantissa exponent,
      UnpackedFloat.round Format.binary64 sign whole 0 = .finite sign mantissa exponent normal.pos ∧
        (mantissa : ℚ) * 2 ^ exponent = whole := by
  have target :
      Format.binary64.targetExponent (totalExponent whole 0) = (whole.log2 : Int) - 52 := by
    rw [totalExponent, Format.targetExponent, show Format.binary64.minExponent = -1074 by decide,
      show Format.binary64.mantissaBits = 53 by decide]
    omega
  rcases Nat.lt_or_eq_of_le small with less | rfl
  · obtain ⟨lower, upper⟩ := (Nat.log2_eq_iff (Nat.ne_of_gt pos)).mp rfl
    have short : whole.log2 < 53 := (Nat.log2_lt (Nat.ne_of_gt pos)).mpr less
    obtain ⟨missing, known⟩ : ∃ missing, whole.log2 + missing = 52 := ⟨52 - whole.log2, by omega⟩
    have normal : Normal (whole * 2 ^ missing) (whole.log2 - 52) := by
      refine ⟨?_, ?_, by omega, by omega⟩
      · rw [← known, Nat.pow_add]
        exact Nat.mul_le_mul_right _ lower
      · rw [show 53 = whole.log2 + 1 + missing by omega, Nat.pow_add]
        exact Nat.mul_lt_mul_of_pos_right upper (Nat.two_pow_pos missing)
    refine ⟨_, _, normal, ?_, ?_⟩
    · have shift : (0 - ((whole.log2 : Int) - 52)).toNat = missing := by omega
      have exponent : (0 : Int) - missing = whole.log2 - 52 - (0 : Nat) := by omega
      have exact := roundWithAccuracy_exact normal sign 0
      rw [Nat.pow_zero, Nat.mul_one] at exact
      simp only [UnpackedFloat.round, target, decreaseExponent, shift, Nat.shiftLeft_eq, exponent,
        exact]
    · rw [show ((whole.log2 : Int) - 52) = -(missing : Int) by omega]
      push_cast
      rw [zpow_neg, zpow_natCast, mul_inv_cancel_right₀ (by positivity)]
  · have normal : Normal (2 ^ 52) 1 := ⟨by decide, by decide, by decide, by decide⟩
    refine ⟨_, _, normal, ?_, by norm_num⟩
    rw [Nat.log2_two_pow] at target
    have exact := roundWithAccuracy_exact normal sign 1
    simp only [UnpackedFloat.round, target, decreaseExponent]
    exact exact

theorem isNaN_unpack {spec : Format} {sign : Sign} {exponent : BitVec spec.exponentBits}
    {mantissa : BitVec spec.mantissaBitsWithoutImplicit}
    (number : exponent ≠ -1#_ ∨ mantissa = 0#_) :
    (unpack spec (packComponents spec sign exponent mantissa)).isNaN = false := by
  simp only [unpack, unpackMantissa_packComponents, unpackExponent_packComponents]
  split_ifs with infinite bare
  · rfl
  · exact absurd (number.resolve_left (not_not.mpr infinite)) bare
  all_goals rfl

theorem isNaN_unpack_pack (sign : Sign) (mantissa : Nat) (exponent : Int) (pos : 0 < mantissa) :
    (unpack Format.binary64 (pack Format.binary64 (.finite sign mantissa exponent pos))).isNaN =
      false := by
  rw [pack]
  dsimp only
  split_ifs with large normal
  · exact isNaN_unpack (.inr rfl)
  · refine isNaN_unpack (.inl fun full => ?_)
    have stored := congrArg BitVec.toNat full
    rw [BitVec.toNat_ofNat] at stored
    change _ % 2048 = 2047 at stored
    omega
  · exact isNaN_unpack (.inl (by decide))

theorem isNaN_ofInt (whole : Int) :
    (unpack Format.binary64 (pack Format.binary64 (ofInt Format.binary64 whole))).isNaN =
      false := by
  have rounded (sign : Sign) (mantissa : Nat) :
      (unpack Format.binary64 (pack Format.binary64
        (UnpackedFloat.round Format.binary64 sign mantissa 0))).isNaN = false := by
    simp only [UnpackedFloat.round, roundWithAccuracy]
    split_ifs
    · cases sign <;> rfl
    · exact isNaN_unpack_pack ..
  rw [ofInt, UnpackedFloat.normalize]
  split
  · exact rounded ..
  · rfl
  · exact rounded ..

def number? : UnpackedFloat → Option ℚ
  | .finite sign mantissa exponent _ => some (sign.apply mantissa * 2 ^ exponent)
  | .zero _ => some 0
  | .infinity _ | .notANumber => none

theorem number?_joinZeros (value : UnpackedFloat) : number? (joinZeros value) = number? value := by
  cases value <;> rfl

theorem number?_congr {left right : UnpackedFloat} (joined : joinZeros left = joinZeros right) :
    number? left = number? right := by
  rw [← number?_joinZeros left, joined, number?_joinZeros]

theorem ofNat_whole (whole : Nat) (pos : 0 < whole) (small : whole ≤ 2 ^ 53) :
    ∃ mantissa exponent, ∃ normal : Normal mantissa exponent,
      ofNat Format.binary64 whole = .finite .positive mantissa exponent normal.pos ∧
        (mantissa : ℚ) * 2 ^ exponent = whole := by
  obtain ⟨mantissa, exponent, normal, rounded, same⟩ := round_whole .positive whole pos small
  refine ⟨mantissa, exponent, normal, ?_, same⟩
  rw [ofNat, ofInt, UnpackedFloat.normalize, Int.compare_eq_gt.mpr (by omega)]
  exact rounded

theorem ofInt_whole {whole : Int} (nonzero : whole ≠ 0) (small : whole.natAbs ≤ 2 ^ 53) :
    ∃ sign mantissa exponent, ∃ normal : Normal mantissa exponent,
      ofInt Format.binary64 whole = .finite sign mantissa exponent normal.pos ∧
        (sign.apply mantissa : ℚ) * 2 ^ exponent = whole := by
  rcases Int.lt_or_gt_of_ne nonzero with negative | positive
  · obtain ⟨mantissa, exponent, normal, rounded, same⟩ :=
      round_whole .negative (-whole).toNat (by omega) (by omega)
    refine ⟨.negative, mantissa, exponent, normal, ?_, ?_⟩
    · rw [ofInt, UnpackedFloat.normalize, Int.compare_eq_lt.mpr negative]
      exact rounded
    · have cast : ((-whole).toNat : ℚ) = -whole := by
        exact_mod_cast Int.toNat_of_nonneg (by omega : 0 ≤ -whole)
      rw [cast] at same
      simp only [Sign.apply, Int.cast_neg, Int.cast_natCast, neg_mul, same, neg_neg]
  · obtain ⟨whole, rfl⟩ := Int.eq_ofNat_of_zero_le (Int.le_of_lt positive)
    obtain ⟨mantissa, exponent, normal, known, same⟩ :=
      ofNat_whole whole (by omega) small
    refine ⟨.positive, mantissa, exponent, normal, known, ?_⟩
    simp only [Sign.apply, Int.cast_natCast, same]

theorem number?_ofInt {whole : Int} (small : whole.natAbs ≤ 2 ^ 53) :
    number? (unpack Format.binary64 (pack Format.binary64 (ofInt Format.binary64 whole))) =
      some ↑whole := by
  rcases eq_or_ne whole 0 with rfl | nonzero
  · rfl
  · obtain ⟨sign, mantissa, exponent, normal, known, same⟩ := ofInt_whole nonzero small
    rw [known, unpack_pack normal, number?, same]

theorem mul_exact {left right product : Nat} {leftExponent rightExponent exponent : Int}
    (leftNormal : Normal left leftExponent) (rightNormal : Normal right rightExponent)
    (normal : Normal product exponent) (leftSign rightSign : Sign)
    (same : (left : ℚ) * 2 ^ leftExponent * (right * 2 ^ rightExponent) = product * 2 ^ exponent) :
    mul Format.binary64 (.finite leftSign left leftExponent leftNormal.pos)
      (.finite rightSign right rightExponent rightNormal.pos) =
        .finite (leftSign * rightSign) product exponent normal.pos := by
  have scaled : (left * right : ℚ) = product * 2 ^ (exponent - (leftExponent + rightExponent)) := by
    rw [zpow_sub₀ two_ne_zero, zpow_add₀ two_ne_zero]
    field_simp
    linarith
  -- Two mantissas have more bits together than one, so only bits that are zero are shifted out.
  have lower : leftExponent + rightExponent ≤ exponent := by
    by_contra above
    have shrinks : (2 : ℚ) ^ (exponent - (leftExponent + rightExponent)) ≤ 1 :=
      zpow_le_one_of_nonpos₀ one_le_two (by omega)
    have most : (left * right : ℚ) ≤ product := by
      rw [scaled]
      exact mul_le_of_le_one_right (Nat.cast_nonneg product) shrinks
    have least := Nat.mul_le_mul leftNormal.least rightNormal.least
    have less := normal.less
    have : left * right ≤ product := by exact_mod_cast most
    omega
  obtain ⟨shift, known⟩ := Int.eq_ofNat_of_zero_le (Int.sub_nonneg_of_le lower)
  have mantissas : left * right = product * 2 ^ shift := by
    rw [known, zpow_natCast] at scaled
    exact_mod_cast scaled
  have exponents : leftExponent + rightExponent = exponent - shift := by omega
  rw [mul, mantissas, exponents]
  exact roundWithAccuracy_exact normal _ shift

theorem ofNat_mul {left right : Nat} (leftSmall : left ≤ 2 ^ 53) (rightSmall : right ≤ 2 ^ 53)
    (small : left * right ≤ 2 ^ 53) :
    Float.Model.ofNat left * Float.Model.ofNat right = Float.Model.ofNat (left * right) := by
  change Float.Model.pack (mul Format.binary64
    (unpack Format.binary64 (pack Format.binary64 (ofNat Format.binary64 left)))
    (unpack Format.binary64 (pack Format.binary64 (ofNat Format.binary64 right)))) =
      Float.Model.pack (ofNat Format.binary64 (left * right))
  rcases Nat.eq_zero_or_pos left with rfl | leftPos
  · rw [Nat.zero_mul]
    rcases Nat.eq_zero_or_pos right with rfl | rightPos
    · rfl
    · obtain ⟨_, _, normal, known, _⟩ := ofNat_whole right rightPos rightSmall
      rw [known, unpack_pack normal]
      rfl
  obtain ⟨_, _, leftNormal, leftKnown, leftSame⟩ := ofNat_whole left leftPos leftSmall
  rw [leftKnown, unpack_pack leftNormal]
  rcases Nat.eq_zero_or_pos right with rfl | rightPos
  · rfl
  obtain ⟨_, _, rightNormal, rightKnown, rightSame⟩ := ofNat_whole right rightPos rightSmall
  obtain ⟨_, _, normal, known, same⟩ := ofNat_whole _ (Nat.mul_pos leftPos rightPos) small
  rw [rightKnown, unpack_pack rightNormal, known]
  rw [Nat.cast_mul, ← leftSame, ← rightSame] at same
  rw [mul_exact leftNormal rightNormal normal _ _ same.symm]
  rfl

end Binary64

theorem isNaN_nearestFloat (whole : Int64) : (nearestFloat whole).isNaN = false :=
  Binary64.isNaN_ofInt whole.toInt

theorem eq_of_nearestFloat {left right : Int64} (leftSmall : left.toInt.natAbs ≤ 2 ^ 53)
    (rightSmall : right.toInt.natAbs ≤ 2 ^ 53)
    (same : (nearestFloat left == nearestFloat right) = true) : left = right := by
  have numbers : Binary64.number? (nearestFloat left).toModel.unpack =
      Binary64.number? (nearestFloat right).toModel.unpack :=
    Binary64.number?_congr (Binary64.beq_iff.mp same).1
  have leftNumber : Binary64.number? (nearestFloat left).toModel.unpack = some ↑left.toInt :=
    Binary64.number?_ofInt leftSmall
  have rightNumber : Binary64.number? (nearestFloat right).toModel.unpack = some ↑right.toInt :=
    Binary64.number?_ofInt rightSmall
  rw [leftNumber, rightNumber] at numbers
  exact Int64.toInt_inj.mp (by exact_mod_cast Option.some.inj numbers)

theorem toFloat_eq {whole : Nat} (small : whole < 2 ^ 53) :
    whole.toFloat = .ofModel (Float.Model.ofNat whole) := by
  have fits : whole.toUInt64.toNat = whole :=
    UInt64.toNat_ofNat_of_lt' (Nat.lt_trans small (by decide))
  have fast : whole.toFloat = whole.toUInt64.toFloat * .ofModel (Float.Model.ofNat 1) := by
    change Float.ofScientific whole false 0 = _
    rw [Float.ofScientific, dif_pos ⟨small, Nat.zero_le 22⟩]
    rfl
  rw [fast]
  change Float.ofModel (Float.Model.ofNat whole.toUInt64.toNat * Float.Model.ofNat 1) = _
  rw [fits, Binary64.ofNat_mul (Nat.le_of_lt small) (by decide) (by omega), Nat.mul_one]

theorem toFloat_mul {left right : Nat} (leftSmall : left < 2 ^ 53) (rightSmall : right < 2 ^ 53)
    (small : left * right < 2 ^ 53) : left.toFloat * right.toFloat = (left * right).toFloat := by
  rw [toFloat_eq leftSmall, toFloat_eq rightSmall, toFloat_eq small]
  exact congrArg Float.ofModel
    (Binary64.ofNat_mul (Nat.le_of_lt leftSmall) (Nat.le_of_lt rightSmall) (Nat.le_of_lt small))

end NodeGraph
