import FuchsiaSdk.TimelineRate

/-! `TimelineFunction` (`media/cpp/timeline_function.cc`): a rate through a point. The difference
to the point, its scaling and the sum are numbers of 64 bits; only the scaling has a value that
stands for an overflow. -/
namespace FuchsiaSdk
open TimelineRate

structure TimelineFunction where
  subjectTime : Int64
  referenceTime : Int64
  subjectDelta : UInt32
  referenceDelta : UInt32
  nonzero : referenceDelta ≠ 0

namespace TimelineFunction

abbrev Representable (number : Int) : Prop := -2 ^ 63 ≤ number ∧ number ≤ 2 ^ 63 - 1

/-- Signed arithmetic: `none` where the language leaves the result undefined. -/
def checked (number : Int) : Option Int64 :=
  if Representable number then some (.ofInt number) else none

variable (function : TimelineFunction) (input : Int64)

/-- `TimelineFunction::Apply`. -/
def apply : Option Int64 :=
  (checked (input.toInt - function.referenceTime.toInt)).bind fun difference =>
    checked ((scale difference function.subjectDelta function.referenceDelta).toInt +
      function.subjectTime.toInt)

/-- `TimelineFunction::Inverse`. -/
def inverse (invertible : function.subjectDelta ≠ 0) : TimelineFunction where
  subjectTime := function.referenceTime
  referenceTime := function.subjectTime
  subjectDelta := function.referenceDelta
  referenceDelta := function.subjectDelta
  nonzero := invertible

/-- `TimelineFunction::ApplyInverse`. -/
def applyInverse (invertible : function.subjectDelta ≠ 0) : Option Int64 :=
  (function.inverse invertible).apply input

/-- The difference to the point, times `subject_delta`, over the integers. -/
def dividend : Int := (input.toInt - function.referenceTime.toInt) * function.subjectDelta.toNat

def scaled : Int := (function.dividend input).fdiv function.referenceDelta.toNat

/-- The number that the documentation asks for. -/
def value : Int := function.scaled input + function.subjectTime.toInt

/-- A number is returned, or `kOverflow` if it is not representable. -/
def Reports (number : Int) (outcome : Option Int64) : Prop :=
  outcome.map Int64.toInt = some (if Representable number then number else kOverflow.toInt)

/-- When nothing is lost: the difference is representable, and so are the scaled difference and
the sum; or the scaling reports an overflow, and nothing is added to it. -/
def Fits : Prop :=
  let inexact := function.dividend input % function.referenceDelta.toNat ≠ 0
  let scaled := function.scaled input
  Representable (input.toInt - function.referenceTime.toInt) ∧
    if inexact ∧ scaled = -2 ^ 64 then function.subjectTime.toInt = kOverflow.toInt
    else if Representable scaled then
      Representable (function.value input) ∧ ¬ (inexact ∧ scaled = -2 ^ 63)
    else function.subjectTime.toInt = 0

lemma checked_toInt :
    (checked number).map Int64.toInt = if Representable number then some number else none := by
  unfold checked
  split
  next fits => rw [Option.map_some, Int64.toInt_ofInt_of_le fits.1 (by omega)]
  · rfl

lemma apply_reports_iff : Reports (function.value input) (function.apply input) ↔ function.Fits input := by
  have overflow : kOverflow.toInt = 2 ^ 63 - 1 := rfl
  have lower := function.subjectTime.le_toInt
  have upper := function.subjectTime.toInt_lt
  unfold Reports apply Fits
  rw [checked, overflow]
  split
  next near =>
    have bounds := scale_cases (.ofInt (input.toInt - function.referenceTime.toInt))
      function.subjectDelta function.nonzero
    unfold exactScale at bounds
    rw [Int64.toInt_ofInt_of_le near.1 (by omega)] at bounds
    change _ = ite (function.dividend input % _ ≠ 0 ∧ function.scaled input = _) _
      (ite (function.scaled input < _ ∨ _ < function.scaled input ∨
        function.dividend input % _ ≠ 0 ∧ function.scaled input = _) _ (function.scaled input)) at bounds
    rw [Option.bind_some, checked_toInt, bounds]
    unfold value
    dsimp only
    repeat' split
    all_goals simp only [Option.some.injEq, reduceCtorEq, false_iff, true_iff]
    all_goals omega
  next far => exact iff_of_false nofun fun fits => far fits.1

/-- `Apply` and `ApplyInverse` return the exact number, or `kOverflow` where there is none, exactly
if nothing is lost on the way. -/
theorem apply_exact_iff :
    (Reports (function.value input) (function.apply input) ↔ function.Fits input) ∧
      ∀ invertible, Reports ((function.inverse invertible).value input)
        (function.applyInverse input invertible) ↔ (function.inverse invertible).Fits input :=
  ⟨function.apply_reports_iff input,
    fun invertible => (function.inverse invertible).apply_reports_iff input⟩

/-- Twice `2 ^ 62` overflows, and less 1 it would not. -/
theorem overflow_and_sum :
    let function : TimelineFunction := ⟨-1, 0, 2, 1, by decide⟩
    function.value (2 ^ 62) = Int64.maxValue.toInt ∧
      function.apply (2 ^ 62) = some (Int64.maxValue - 1) := by
  decide +kernel

end TimelineFunction

end FuchsiaSdk
