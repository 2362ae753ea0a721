import Mathlib.Tactic.Ring

/-! The rate of a timeline (`media/cpp/timeline_rate.cc`): scaling a 64-bit time by the ratio of
two 32-bit deltas. The 96-bit product is divided in two halves of 32 bits, and a negative time
is scaled by its absolute value, rounded away from zero. -/
namespace FuchsiaSdk.TimelineRate

/-- `TimelineRate::kOverflow`. -/
def kOverflow : Int64 := Int64.maxValue

def kLow32Bits : UInt64 := 0xffffffff

def kHigh32Bits : UInt64 := kLow32Bits <<< 32

/-- The product of `subject_delta` and the value as two words: what is above the low 32 bits, and
the low 32 bits. -/
def product (v : UInt64) (subjectDelta : UInt32) : UInt64 × UInt64 :=
  let high := subjectDelta.toUInt64 * (v >>> 32)
  let low := subjectDelta.toUInt64 * (v &&& kLow32Bits)
  (high + (low >>> 32), low &&& kLow32Bits)

/-- `ScaleUInt64`: `none` where the source sets `*overflow`. -/
def scaleUInt64 (v : UInt64) (subjectDelta referenceDelta : UInt32) (roundUp : Bool) :
    Option UInt64 :=
  let high := (product v subjectDelta).1
  let low := (product v subjectDelta).2
  let divisor := referenceDelta.toUInt64
  -- The remainder of the high division becomes the high end of the low dividend.
  let low := low ||| ((high % divisor) <<< 32)
  let roundUp := roundUp && low % divisor != 0
  let high := high / divisor
  let low := low / divisor
  if high &&& kHigh32Bits != 0 then none
  else
    let result := (high <<< 32) ||| low
    if roundUp then
      -- The source compares with the largest `int64_t`, not with the largest `uint64_t`.
      if result = Int64.maxValue.toUInt64 then none else some (result + 1)
    else some result

def absOfMinInt64 : UInt64 := Int64.maxValue.toUInt64 + 1

/-- `TimelineRate::Scale`. -/
def scale (v : Int64) (subjectDelta referenceDelta : UInt32) : Int64 :=
  let absResult :=
    if 0 ≤ v then scaleUInt64 v.toUInt64 subjectDelta referenceDelta false
    else if v = Int64.minValue then scaleUInt64 absOfMinInt64 subjectDelta referenceDelta true
    else scaleUInt64 (-v).toUInt64 subjectDelta referenceDelta true
  match absResult with
  | none => kOverflow
  | some absResult =>
    if absResult > Int64.maxValue.toUInt64 then
      if v < 0 ∧ absResult = absOfMinInt64 then Int64.minValue else kOverflow
    else if 0 ≤ v then absResult.toInt64
    else -absResult.toInt64

/-- The number the documentation of `Scale` asks for, over the integers. -/
def exactScale (v : Int64) (subjectDelta referenceDelta : UInt32) : Int :=
  (v.toInt * subjectDelta.toNat).fdiv referenceDelta.toNat

/-! ### The unsigned scaling, in numbers -/

lemma product_toNat : (product v subjectDelta).1.toNat = v.toNat * subjectDelta.toNat / 2 ^ 32 ∧
      (product v subjectDelta).2.toNat = v.toNat * subjectDelta.toNat % 2 ^ 32 := by
  have valueBound := v.toNat_lt
  have deltaBound := subjectDelta.toNat_lt
  have highBound : subjectDelta.toNat * (v.toNat / 2 ^ 32) ≤ (2 ^ 32 - 1) * (2 ^ 32 - 1) :=
    Nat.mul_le_mul (by omega) (by omega)
  have lowBound : subjectDelta.toNat * (v.toNat % 2 ^ 32) ≤ (2 ^ 32 - 1) * (2 ^ 32 - 1) :=
    Nat.mul_le_mul (by omega) (by omega)
  have split : v.toNat * subjectDelta.toNat =
      2 ^ 32 * (subjectDelta.toNat * (v.toNat / 2 ^ 32)) +
        subjectDelta.toNat * (v.toNat % 2 ^ 32) := by
    have parts := Nat.div_add_mod v.toNat (2 ^ 32)
    calc v.toNat * subjectDelta.toNat
        = (2 ^ 32 * (v.toNat / 2 ^ 32) + v.toNat % 2 ^ 32) * subjectDelta.toNat := by
          rw [parts]
      _ = _ := by ring
  have mask : ∀ word : UInt64, (word &&& kLow32Bits).toNat = word.toNat % 2 ^ 32 := by
    intro word
    exact Nat.and_two_pow_sub_one_eq_mod word.toNat 32
  have shifted : ∀ word : UInt64, (word >>> 32).toNat = word.toNat / 2 ^ 32 := by
    intro word
    exact Nat.shiftRight_eq_div_pow word.toNat 32
  have high : (subjectDelta.toUInt64 * (v >>> 32)).toNat =
      subjectDelta.toNat * (v.toNat / 2 ^ 32) := by
    rw [UInt64.toNat_mul, UInt32.toNat_toUInt64, shifted, Nat.mod_eq_of_lt (by omega)]
  have low : (subjectDelta.toUInt64 * (v &&& kLow32Bits)).toNat =
      subjectDelta.toNat * (v.toNat % 2 ^ 32) := by
    rw [UInt64.toNat_mul, UInt32.toNat_toUInt64, mask, Nat.mod_eq_of_lt (by omega)]
  constructor
  · simp only [product, UInt64.toNat_add, high, low, shifted]
    omega
  · simp only [product, mask, low]
    omega

/-- Dividing in two steps: the remainder of the high word, spliced above the low word, carries
what the first division left over. -/
lemma division_splits (positive : 0 < divisor) : dividend / divisor = dividend / 2 ^ 32 / divisor * 2 ^ 32 +
        (dividend / 2 ^ 32 % divisor * 2 ^ 32 + dividend % 2 ^ 32) / divisor ∧ dividend % divisor =
        (dividend / 2 ^ 32 % divisor * 2 ^ 32 + dividend % 2 ^ 32) % divisor := by
  have halves := Nat.div_add_mod (dividend / 2 ^ 32) divisor
  have spliced : dividend = dividend / 2 ^ 32 % divisor * 2 ^ 32 + dividend % 2 ^ 32 +
      divisor * (dividend / 2 ^ 32 / divisor * 2 ^ 32) := by
    calc dividend
        = (divisor * (dividend / 2 ^ 32 / divisor) + dividend / 2 ^ 32 % divisor) * 2 ^ 32 +
            dividend % 2 ^ 32 := by omega
      _ = _ := by ring
  constructor
  · conv_lhs => rw [spliced, Nat.add_mul_div_left _ _ positive]
    exact Nat.add_comm _ _
  · conv_lhs => rw [spliced, Nat.add_mul_mod_self_left]

lemma join_toNat (high : UInt64) (highBound : high.toNat < 2 ^ 32) (lowBound : low.toNat < 2 ^ 32) :
    ((high <<< 32) ||| low).toNat = high.toNat * 2 ^ 32 + low.toNat := by
  have shifted : (high <<< 32).toNat = high.toNat <<< 32 := by
    change high.toNat <<< 32 % 2 ^ 64 = _
    rw [Nat.mod_eq_of_lt (by omega)]
  rw [UInt64.toNat_or, shifted, ← Nat.shiftLeft_add_eq_or_of_lt lowBound, Nat.shiftLeft_eq]

lemma highBits_eq_zero : word &&& kHigh32Bits = 0 ↔ word.toNat < 2 ^ 32 := by
  have bound := word.toNat_lt
  have mask : kHigh32Bits.toNat = (2 ^ 32 - 1) <<< 32 := rfl
  rw [← UInt64.toNat_inj, UInt64.toNat_and, mask]
  constructor
  · intro zero
    have shifted : (word.toNat &&& (2 ^ 32 - 1) <<< 32) >>> 32 = word.toNat / 2 ^ 32 % 2 ^ 32 := by
      rw [Nat.shiftRight_and_distrib, Nat.shiftLeft_shiftRight, Nat.and_two_pow_sub_one_eq_mod,
        Nat.shiftRight_eq_div_pow]
    rw [zero] at shifted
    change 0 = _ at shifted
    omega
  · intro small
    apply Nat.eq_of_testBit_eq
    intro i
    rw [Nat.testBit_and, Nat.testBit_shiftLeft]
    by_cases high : 32 ≤ i
    · rw [Nat.testBit_lt_two_pow (small.trans_le (Nat.pow_le_pow_right (by decide) high))]
      simp
    · simp [high]

/-- What `ScaleUInt64` computes: the quotient, or the quotient and one where it rounds up, which
overflows at the largest `int64_t` and wraps at the largest `uint64_t`. -/
lemma scaleUInt64_toNat (v : UInt64) (subjectDelta : UInt32) (roundUp : Bool)
    (nonzero : referenceDelta ≠ 0) :
    let dividend := v.toNat * subjectDelta.toNat
    let quotient := dividend / referenceDelta.toNat
    (scaleUInt64 v subjectDelta referenceDelta roundUp).map UInt64.toNat =
      if 2 ^ 64 ≤ quotient then none
      else if roundUp = true ∧ dividend % referenceDelta.toNat ≠ 0 then
        if quotient = 2 ^ 63 - 1 then none else some ((quotient + 1) % 2 ^ 64)
      else some quotient := by
  have positive : 0 < referenceDelta.toNat :=
    Nat.pos_of_ne_zero fun zero => nonzero (UInt32.toNat_inj.mp zero)
  have divisorBound := referenceDelta.toNat_lt
  obtain ⟨highWord, lowWord⟩ := product_toNat
  obtain ⟨quotientSplit, remainderSplit⟩ :=
    division_splits positive
  intro dividend quotient
  have remainderBound := Nat.mod_lt (dividend / 2 ^ 32) positive
  have lowBound : dividend % 2 ^ 32 < 2 ^ 32 := Nat.mod_lt _ (by decide)
  have divisorWord : referenceDelta.toUInt64.toNat = referenceDelta.toNat :=
    UInt32.toNat_toUInt64 referenceDelta
  -- The low dividend, with the remainder of the high division on top.
  have spliced : ((product v subjectDelta).2 |||
      (((product v subjectDelta).1 % referenceDelta.toUInt64) <<< 32)).toNat =
        dividend / 2 ^ 32 % referenceDelta.toNat * 2 ^ 32 + dividend % 2 ^ 32 := by
    rw [UInt64.or_comm, join_toNat _ (by
      rw [UInt64.toNat_mod, highWord]
      exact remainderBound.trans divisorBound) (by rw [lowWord]; exact lowBound),
      UInt64.toNat_mod, highWord, lowWord, divisorWord]
  unfold scaleUInt64
  dsimp only
  generalize (product v subjectDelta).2 |||
      (((product v subjectDelta).1 % referenceDelta.toUInt64) <<< 32) = low at spliced ⊢
  have lowQuotient : (low / referenceDelta.toUInt64).toNat < 2 ^ 32 := by
    rw [UInt64.toNat_div]
    apply Nat.div_lt_of_lt_mul
    omega
  have highQuotient : ((product v subjectDelta).1 / referenceDelta.toUInt64).toNat =
      dividend / 2 ^ 32 / referenceDelta.toNat := by
    rw [UInt64.toNat_div, highWord, divisorWord]
  have quotient_eq : quotient =
      dividend / 2 ^ 32 / referenceDelta.toNat * 2 ^ 32 + (low / referenceDelta.toUInt64).toNat := by
    rw [UInt64.toNat_div, spliced]
    exact quotientSplit
  have remainder_eq : dividend % referenceDelta.toNat = (low % referenceDelta.toUInt64).toNat := by
    rw [UInt64.toNat_mod, spliced]
    exact remainderSplit
  generalize (product v subjectDelta).1 / referenceDelta.toUInt64 = high at highQuotient ⊢
  rw [← highQuotient] at quotient_eq
  have rounds : (roundUp && low % referenceDelta.toUInt64 != 0) = true ↔
      roundUp = true ∧ dividend % referenceDelta.toNat ≠ 0 := by
    rw [Bool.and_eq_true, bne_iff_ne, remainder_eq, ne_eq, ← UInt64.toNat_inj]
    rfl
  by_cases overflow : high.toNat < 2 ^ 32
  · have inside : ¬2 ^ 64 ≤ quotient := by omega
    have result : (high <<< 32 ||| low / referenceDelta.toUInt64).toNat = quotient := by
      rw [join_toNat _ overflow lowQuotient, quotient_eq]
    rw [if_neg inside, if_neg (by simpa using (highBits_eq_zero).mpr overflow)]
    simp only [rounds]
    by_cases up : roundUp = true ∧ dividend % referenceDelta.toNat ≠ 0
    · rw [if_pos up, if_pos up]
      have largest : high <<< 32 ||| low / referenceDelta.toUInt64 = Int64.maxValue.toUInt64 ↔
          quotient = 2 ^ 63 - 1 := by
        rw [← UInt64.toNat_inj, result]
        rfl
      by_cases top : quotient = 2 ^ 63 - 1
      · rw [if_pos top, if_pos (largest.mpr top)]
        rfl
      · rw [if_neg top, if_neg (mt largest.mp top), Option.map_some, UInt64.toNat_add, result]
        rfl
    · rw [if_neg up, if_neg up, Option.map_some, result]
  · rw [if_pos (by simpa using mt (highBits_eq_zero).mp overflow), if_pos (by omega)]
    rfl

/-! ### The signed scaling -/

lemma toNat_toUInt64 (v : Int64) (nonneg : 0 ≤ v.toInt) :
    v.toUInt64.toNat = v.toInt.toNat := by
  have range : v.toBitVec.toInt = v.toInt := rfl
  have word : v.toUInt64.toNat = v.toBitVec.toNat := rfl
  rw [BitVec.toInt_eq_toNat_cond] at range
  split at range <;> omega

lemma toInt_toInt64 (word : UInt64) (small : word.toNat < 2 ^ 63) : word.toInt64.toInt = word.toNat := by
  have range : word.toInt64.toInt = word.toBitVec.toInt := rfl
  have bits : word.toBitVec.toNat = word.toNat := rfl
  rw [range, BitVec.toInt_eq_toNat_cond, bits, if_pos (by omega)]

lemma toInt_neg (v : Int64) (inside : v.toInt ≠ -2 ^ 63) : (-v).toInt = -v.toInt := by
  have upper := v.toInt_lt
  have lower := v.le_toInt
  rw [Int64.toInt_neg]
  apply Int.bmod_eq_of_le <;> omega

/-- The absolute value `Scale` hands to `ScaleUInt64`. -/
def magnitude (v : Int64) : UInt64 :=
  if 0 ≤ v then v.toUInt64
  else if v = Int64.minValue then absOfMinInt64
  else (-v).toUInt64

lemma magnitude_toNat : (magnitude v).toNat = v.toInt.natAbs := by
  have sign : 0 ≤ v ↔ 0 ≤ v.toInt := Int64.le_iff_toInt_le
  have least : v = Int64.minValue ↔ v.toInt = -2 ^ 63 := Int64.toInt_inj.symm
  unfold magnitude
  split
  next nonneg =>
    have := sign.mp nonneg
    rw [toNat_toUInt64 v this]
    omega
  next negative =>
    rw [sign] at negative
    split
    next minimum =>
      rw [least.mp minimum]
      rfl
    next inside =>
      rw [least] at inside
      have negated := toInt_neg v inside
      rw [toNat_toUInt64 _ (by omega)]
      omega

lemma scale_eq : scale v subjectDelta referenceDelta =
      match scaleUInt64 (magnitude v) subjectDelta referenceDelta (!decide (0 ≤ v)) with
      | none => kOverflow
      | some absResult =>
        if absResult > Int64.maxValue.toUInt64 then
          if v < 0 ∧ absResult = absOfMinInt64 then Int64.minValue else kOverflow
        else if 0 ≤ v then absResult.toInt64
        else -absResult.toInt64 := by
  unfold scale magnitude
  by_cases nonneg : 0 ≤ v
  · simp only [nonneg, if_true, decide_true, Bool.not_true]
  · simp only [nonneg, if_false, decide_false, Bool.not_false]
    by_cases minimum : v = Int64.minValue <;> simp only [minimum, if_true, if_false]

/-- `Scale` from the number `ScaleUInt64` leaves for the magnitude. -/
lemma scale_toInt : (scale v subjectDelta referenceDelta).toInt =
      match (scaleUInt64 (magnitude v) subjectDelta referenceDelta
        (!decide (0 ≤ v))).map UInt64.toNat with
      | none => 2 ^ 63 - 1
      | some result =>
        if 2 ^ 63 ≤ result then
          if v.toInt < 0 ∧ result = 2 ^ 63 then -2 ^ 63 else 2 ^ 63 - 1
        else if 0 ≤ v.toInt then (result : Int)
        else -(result : Int) := by
  rw [scale_eq]
  cases scaleUInt64 (magnitude v) subjectDelta referenceDelta (!decide (0 ≤ v)) with
  | none => rfl
  | some absResult =>
    have above : absResult > Int64.maxValue.toUInt64 ↔ 2 ^ 63 ≤ absResult.toNat :=
      UInt64.lt_iff_toNat_lt
    have least : absResult = absOfMinInt64 ↔ absResult.toNat = 2 ^ 63 := UInt64.toNat_inj.symm
    have negative : v < 0 ↔ v.toInt < 0 := Int64.lt_iff_toInt_lt
    have nonneg : 0 ≤ v ↔ 0 ≤ v.toInt := Int64.le_iff_toInt_le
    simp only [Option.map_some, above, least, negative, nonneg]
    by_cases large : 2 ^ 63 ≤ absResult.toNat
    · rw [if_pos large]
      split <;> rfl
    rw [if_neg large]
    have word := toInt_toInt64 absResult (by omega)
    split
    · exact word
    · rw [toInt_neg _ (by omega), word]

/-- The exact number in terms of the magnitude's quotient and remainder. -/
lemma exactScale_eq (v : Int64) (subjectDelta : UInt32) (nonzero : referenceDelta ≠ 0) :
    let dividend := v.toInt.natAbs * subjectDelta.toNat
    exactScale v subjectDelta referenceDelta =
      if 0 ≤ v.toInt then ((dividend / referenceDelta.toNat : Nat) : Int)
      else if dividend % referenceDelta.toNat = 0 then -((dividend / referenceDelta.toNat : Nat) : Int)
      else -((dividend / referenceDelta.toNat : Nat) : Int) - 1 := by
  have positive : 0 < referenceDelta.toNat :=
    Nat.pos_of_ne_zero fun zero => nonzero (UInt32.toNat_inj.mp zero)
  intro dividend
  unfold exactScale
  rw [Int.fdiv_eq_ediv_of_nonneg _ (Int.natCast_nonneg _)]
  split
  next nonneg =>
    have same : v.toInt * subjectDelta.toNat = dividend := by
      rw [Int.natCast_mul, Int.natAbs_of_nonneg nonneg]
    rw [same]
    rfl
  · have same : v.toInt * subjectDelta.toNat = -dividend := by
      rw [Int.natCast_mul, Int.ofNat_natAbs_of_nonpos (by omega), Int.neg_mul, Int.neg_neg]
    have divides : (referenceDelta.toNat : Int) ∣ dividend ↔
        dividend % referenceDelta.toNat = 0 := by
      rw [Int.natCast_dvd_natCast, Nat.dvd_iff_mod_eq_zero]
    rw [same, Int.neg_ediv, Int.sign_eq_one_of_pos (by exact_mod_cast positive)]
    simp only [divides]
    split <;> simp

/-- What `Scale` returns instead of an exact number: an overflow also for the least `int64_t` where
that is rounded down to, which `ScaleUInt64` refuses to round up to, and zero for `-2 ^ 64`, where
rounding up wraps. -/
lemma scale_cases (v : Int64) (subjectDelta : UInt32) (nonzero : referenceDelta ≠ 0) :
    let exact := exactScale v subjectDelta referenceDelta
    let inexact := (v.toInt * subjectDelta.toNat) % referenceDelta.toNat ≠ 0
    (scale v subjectDelta referenceDelta).toInt =
      if inexact ∧ exact = -2 ^ 64 then 0
      else if exact < -2 ^ 63 ∨ 2 ^ 63 - 1 < exact ∨ inexact ∧ exact = -2 ^ 63 then 2 ^ 63 - 1
      else exact := by
  have signed : 0 ≤ v ↔ 0 ≤ v.toInt := Int64.le_iff_toInt_le
  have inexact : (v.toInt * subjectDelta.toNat) % referenceDelta.toNat ≠ 0 ↔
      v.toInt.natAbs * subjectDelta.toNat % referenceDelta.toNat ≠ 0 := by
    rw [ne_eq, ne_eq, ← Int.dvd_iff_emod_eq_zero, ← Int.natAbs_dvd_natAbs, Int.natAbs_mul,
      Int.natAbs_natCast, Int.natAbs_natCast, Nat.dvd_iff_mod_eq_zero]
  have outcome := scaleUInt64_toNat (magnitude v) subjectDelta
    (!decide (0 ≤ v)) nonzero
  have number := exactScale_eq v subjectDelta nonzero
  rw [magnitude_toNat] at outcome
  dsimp only at number ⊢
  rw [scale_toInt, outcome]
  simp only [inexact, Int.reducePow, Int.reduceNeg, Int.reduceSub, Nat.reducePow, Nat.reduceSub,
    Bool.not_eq_true', decide_eq_false_iff_not, signed]
  generalize exactScale v subjectDelta referenceDelta = exact at number ⊢
  generalize v.toInt.natAbs * subjectDelta.toNat / referenceDelta.toNat = quotient at number ⊢
  generalize v.toInt.natAbs * subjectDelta.toNat % referenceDelta.toNat = remainder at number ⊢
  by_cases huge : 18446744073709551616 ≤ quotient
  · rw [if_pos huge]
    dsimp only
    split_ifs at number ⊢ <;> omega
  · rw [if_neg huge]
    by_cases up : ¬0 ≤ v.toInt ∧ remainder ≠ 0
    · rw [if_pos up]
      by_cases top : quotient = 9223372036854775807
      · rw [if_pos top]
        dsimp only
        split_ifs at number ⊢ <;> omega
      · rw [if_neg top]
        dsimp only
        generalize negated : -(((quotient + 1) % 18446744073709551616 : Nat) : Int) = lowered
        split_ifs at number ⊢ <;> omega
    · rw [if_neg up]
      dsimp only
      generalize negated : -(quotient : Int) = lowered at number ⊢
      split_ifs at number ⊢ <;> omega

/-- `Scale` is exact, or reports the overflow, unless the result lies strictly between two
integers of which the lower is the least `int64_t`, which `ScaleUInt64` refuses to round up to,
or `-2 ^ 64`, where rounding up wraps to zero. -/
theorem scale_exact_iff (v : Int64) (subjectDelta referenceDelta : UInt32)
    (nonzero : referenceDelta ≠ 0) :
    (scale v subjectDelta referenceDelta).toInt =
        (if Int64.minValue.toInt ≤ exactScale v subjectDelta referenceDelta ∧
            exactScale v subjectDelta referenceDelta ≤ Int64.maxValue.toInt then
          exactScale v subjectDelta referenceDelta else kOverflow.toInt) ↔
      ¬((v.toInt * subjectDelta.toNat) % referenceDelta.toNat ≠ 0 ∧
        (exactScale v subjectDelta referenceDelta = -2 ^ 63 ∨
          exactScale v subjectDelta referenceDelta = -2 ^ 64)) := by
  have least : Int64.minValue.toInt = -2 ^ 63 := rfl
  have greatest : Int64.maxValue.toInt = 2 ^ 63 - 1 := rfl
  have overflow : kOverflow.toInt = 2 ^ 63 - 1 := rfl
  have bounds := scale_cases v subjectDelta nonzero
  split_ifs <;> omega

theorem scale_exact_iff_negative :
    (scale (-7) 1 2).toInt =
        (if Int64.minValue.toInt ≤ exactScale (-7) 1 2 ∧
            exactScale (-7) 1 2 ≤ Int64.maxValue.toInt then exactScale (-7) 1 2
        else kOverflow.toInt) ↔
      ¬(((-7 : Int64).toInt * (1 : UInt32).toNat) % (2 : UInt32).toNat ≠ 0 ∧
        (exactScale (-7) 1 2 = -2 ^ 63 ∨ exactScale (-7) 1 2 = -2 ^ 64)) :=
  scale_exact_iff (-7) 1 2 (by decide)

/-- Three halves of a negative time: the exact result rounds down to the least `int64_t`, and
`Scale` reports an overflow. -/
theorem scale_refuses_least :
    exactScale (-6148914691236517205) 3 2 = Int64.minValue.toInt ∧
      scale (-6148914691236517205) 3 2 = kOverflow := by
  decide +kernel

end FuchsiaSdk.TimelineRate
