import LadderLogic.Proofs.Binary.Range
import LadderLogic.Instruction.Timer

/-!
The fraction of a unit that a timer carries over is a number and not negative, for every time step.
-/

set_option autoImplicit false

namespace LadderLogic.Binary

open Float.Model (UnpackedFloat)
open Float.Model.UnpackedFloat

theorem perSecond_positive (unit : TimeUnit) : Positive (unpacked unit.perSecond) := by
  rw [positive_iff]
  cases unit <;> decide +kernel

theorem billionth_nonNeg : NonNeg (unpacked 1e-9) := by
  rw [← zero_le_iff]
  decide +kernel

theorem nonNeg_zero : NonNeg (unpacked 0.0) := trivial

/-- The time step as timers take it. -/
theorem nonNeg_nonNegative (x : Float) : NonNeg (unpacked (Timer.nonNegative x)) := by
  unfold Timer.nonNegative
  split
  case isTrue h => exact nonNeg_of_zero_lt h
  case isFalse => exact nonNeg_zero

theorem nonNeg_elapsed {carry : Float} (h : NonNeg (unpacked carry)) (dt : Float)
    (unit : TimeUnit) : NonNeg (unpacked (Timer.elapsed carry dt unit)) :=
  add_nonNeg h (mul_nonNeg (nonNeg_nonNegative dt) (perSecond_positive unit))

theorem nonNeg_wholeUnits {total : Float} (h : NonNeg (unpacked total)) :
    NonNeg (unpacked (Timer.wholeUnits total)) :=
  nonNeg_floor (add_nonNeg h billionth_nonNeg)

/-- An infinite total is all whole units. -/
theorem unpacked_wholeUnits_infinite {total : Float}
    (h : unpacked total = .infinity .positive) :
    unpacked (Timer.wholeUnits total) = .infinity .positive := by
  have hsum : unpacked (total + 1e-9) = .infinity .positive := by
    have hg := billionth_nonNeg
    rw [unpacked_add, h]
    generalize unpacked 1e-9 = g at hg ⊢
    have hadd : UnpackedFloat.add binary64 (.infinity .positive) g = .infinity .positive := by
      cases g with
      | notANumber => exact hg.elim
      | infinity s =>
        obtain rfl : s = .positive := hg
        rfl
      | _ => rfl
    rw [hadd]
    exact unpack_pack trivial
  rw [Timer.wholeUnits, floor_of_infinite (b := false), hsum]
  rw [datum_eq, hsum]
  rfl

theorem isFinite_zero : isFinite 0.0 = true := by decide +kernel

theorem unpacked_of_not_finite {x : Float} (h : NonNeg (unpacked x)) (hx : ¬ isFinite x = true) :
    unpacked x = .infinity .positive := by
  rw [isFinite_iff] at hx
  generalize unpacked x = f at *
  cases f with
  | notANumber => exact h.elim
  | infinity s =>
    obtain rfl : s = .positive := h
    rfl
  | _ => simp [UnpackedFloat.isFinite] at hx

/-- Nothing is left after infinitely many whole units. -/
theorem nonNegative_sub_infinite (x : Float) {y : Float} (hy : unpacked y = .infinity .positive) :
    Timer.nonNegative (x - y) = 0.0 := by
  have hsub : unpacked (x - y) = .infinity .negative ∨ unpacked (x - y) = .notANumber := by
    rw [unpacked_sub, hy]
    cases unpacked x with
    | notANumber => exact .inr (unpack_pack (f := .notANumber) trivial)
    | infinity s =>
      cases s with
      | positive => exact .inr (unpack_pack (f := .notANumber) trivial)
      | negative => exact .inl (unpack_pack (f := .infinity .negative) trivial)
    | zero s => exact .inl (unpack_pack (f := .infinity .negative) trivial)
    | finite s m e hm => exact .inl (unpack_pack (f := .infinity .negative) trivial)
  rw [Timer.nonNegative, if_neg]
  rw [lt_iff, unpacked_zero]
  rcases hsub with h | h <;> simp [h, UnpackedFloat.lt, UnpackedFloat.compare]

/-- What a timer carries over is a number, and not negative. -/
theorem carry_isFinite {total : Float} (h : NonNeg (unpacked total)) :
    isFinite (Timer.nonNegative (total - Timer.wholeUnits total)) = true := by
  have hwhole := nonNeg_wholeUnits h
  by_cases hw : isFinite (Timer.wholeUnits total) = true
  · by_cases ht : isFinite total = true
    · unfold Timer.nonNegative
      split
      · exact sub_isFinite h hwhole ht hw
      · exact isFinite_zero
    · have hinf := unpacked_wholeUnits_infinite (unpacked_of_not_finite h ht)
      rw [isFinite_iff, hinf] at hw
      exact absurd hw (by decide)
  · rw [nonNegative_sub_infinite _ (unpacked_of_not_finite hwhole hw)]
    exact isFinite_zero

end LadderLogic.Binary
