import LadderLogic.Proofs.Binary.Arithmetic
import LadderLogic.Proofs.Binary.Encode
import LadderLogic.TagType.Store

/-!
The reals that cells take over are finite: those clamped into single precision, and those nearest
to the integers of cells. Floors and integer parts keep what is not negative.
-/

set_option autoImplicit false

namespace LadderLogic.Binary

open Float.Model (UnpackedFloat)
open Float.Model.UnpackedFloat

theorem double_signBit_two : 2 * double.signBit = 2 ^ 64 := by decide

theorem isFinite_of_datum {x : Float} {b : Bool} {m : Nat} {e : Int}
    (h : datum x = .finite b m e) : isFinite x = true := by
  unfold isFinite
  rw [h]

/-- A number that is no larger than the largest real denotes a finite one. -/
theorem isFinite_ofDatum (negative : Bool) {m : Nat} {e : Int}
    (h : (m : ℚ) * 2 ^ e ≤ (2 ^ double.precision - 1 : Nat) * 2 ^ double.maxExponent) :
    isFinite (ofDatum (.finite negative m e)) = true := by
  obtain ⟨m', e', hdecode⟩ := Format.decode_encodeDatum Format.double_regular negative h
  refine isFinite_of_datum (b := negative) (m := m') (e := e') ?_
  rw [← hdecode, ofDatum, datum_ofWord]
  exact double_signBit_two ▸ double.encodeDatum_finite_lt negative m e

/-- Every finite word of single precision is a finite real. -/
theorem isFinite_ofSingleWord {word : Nat} {negative : Bool} {m : Nat} {e : Int}
    (h : single.decode word = .finite negative m e) : isFinite (ofSingleWord word) = true := by
  obtain ⟨hm, he⟩ := Format.decode_bounds Format.single_regular h
  rw [ofSingleWord, h]
  exact isFinite_ofDatum negative
    ((Format.value_le_of_bounds hm he).trans single_max_le_double_max)

/-- A real that is no larger than the largest one of single precision stays finite there. -/
theorem isFinite_toSingle {x : Float} {negative : Bool} {m : Nat} {e : Int}
    (hx : datum x = .finite negative m e)
    (h : (m : ℚ) * 2 ^ e ≤ (2 ^ single.precision - 1 : Nat) * 2 ^ single.maxExponent) :
    isFinite (toSingle x) = true := by
  obtain ⟨m', e', hdecode⟩ := Format.decode_encodeDatum Format.single_regular negative h
  rw [toSingle, singleWord, hx]
  exact isFinite_ofSingleWord hdecode

theorem datum_singleMax : datum singleMax = .finite false ((2 ^ 24 - 1) * 2 ^ 29) 75 := by
  decide +kernel

theorem datum_neg_singleMax : datum (-singleMax) = .finite true ((2 ^ 24 - 1) * 2 ^ 29) 75 := by
  decide +kernel

theorem toSingle_singleMax_isFinite : isFinite (toSingle singleMax) = true := by
  decide +kernel

theorem toSingle_neg_singleMax_isFinite : isFinite (toSingle (-singleMax)) = true := by
  decide +kernel

theorem unpacked_of_datum {x : Float} {negative : Bool} {m : Nat} {e : Int} (hm : 0 < m)
    (h : datum x = .finite negative m e) :
    unpacked x = .finite (if negative then .negative else .positive) m e hm := by
  rw [datum_eq] at h
  generalize unpacked x = f at h
  cases f with
  | notANumber => simp [Datum.ofUnpacked] at h
  | infinity s => simp [Datum.ofUnpacked] at h
  | zero s =>
    simp only [Datum.ofUnpacked, Datum.finite.injEq] at h
    omega
  | finite s n k hn =>
    simp only [Datum.ofUnpacked, Datum.finite.injEq] at h
    obtain ⟨hs, rfl, rfl⟩ := h
    cases s <;> subst hs <;> rfl

theorem single_top : ((2 ^ single.precision - 1 : Nat) : ℚ) * 2 ^ single.maxExponent =
    (((2 ^ 24 - 1) * 2 ^ 29 : Nat) : ℚ) * 2 ^ (75 : Int) := by
  have hp : single.precision = 24 := rfl
  have he : single.maxExponent = 104 := by decide
  rw [hp, he]
  norm_num

/-- Canonical numbers are ordered by their exponents first. -/
theorem value_le_of_canonical {m n : Nat} {e k : Int} (hm : m < 2 ^ 53) (hn : 2 ^ 52 ≤ n)
    (h : ¬ ((compare k e).then (compare n m) = .lt)) :
    (m : ℚ) * 2 ^ e ≤ n * 2 ^ k := by
  rcases lt_trichotomy k e with hlt | rfl | hgt
  · rw [compare_lt_iff_lt.mpr hlt] at h
    exact absurd rfl h
  · rw [compare_eq_iff_eq.mpr rfl] at h
    have hle : m ≤ n := not_lt.mp (mt compare_lt_iff_lt.mpr h)
    gcongr
  · have hpow : (2 : ℚ) ^ (e + 1) ≤ 2 ^ k := zpow_le_zpow_right₀ one_lt_two.le (by omega)
    have hmn : (m : ℚ) ≤ n * 2 := by exact_mod_cast (by omega : m ≤ n * 2)
    calc (m : ℚ) * 2 ^ e ≤ n * 2 * 2 ^ e := by gcongr
      _ = n * 2 ^ (e + 1) := by rw [zpow_add_one₀ two_ne_zero]; ring
      _ ≤ n * 2 ^ k := by gcongr

/-- A finite real in the range of single precision stays finite when it is rounded to it. -/
theorem toSingle_isFinite_of_le {x : Float} (hx : isFinite x = true)
    (hlow : ¬ x < -singleMax) (hhigh : ¬ singleMax < x) : isFinite (toSingle x) = true := by
  have hc := unpacked_canonical x
  have hd := datum_eq x
  rw [isFinite_iff] at hx
  rw [lt_iff, unpacked_of_datum (by decide) datum_neg_singleMax] at hlow
  rw [lt_iff, unpacked_of_datum (by decide) datum_singleMax] at hhigh
  generalize unpacked x = f at *
  cases f with
  | notANumber => simp [UnpackedFloat.isFinite] at hx
  | infinity s => simp [UnpackedFloat.isFinite] at hx
  | zero s =>
    refine isFinite_toSingle hd ?_
    rw [Nat.cast_zero, zero_mul]
    positivity
  | finite s m e hm =>
    refine isFinite_toSingle hd ?_
    rw [single_top]
    apply value_le_of_canonical hc.1 (by decide)
    intro hlt
    cases s with
    | positive =>
      refine hhigh ?_
      simp only [if_false, UnpackedFloat.lt, UnpackedFloat.compare, Bool.false_eq_true, hlt]
      rfl
    | negative =>
      refine hlow ?_
      simp only [if_true, UnpackedFloat.lt, UnpackedFloat.compare, Ordering.swap_then,
        ← Std.OrientedOrd.eq_swap, hlt]
      rfl

/-- A finite real that is clamped into the range of REAL cells is finite. -/
theorem clampSingle_isFinite {x : Float} (hx : isFinite x = true) :
    isFinite (TagType.clampSingle x) = true := by
  unfold TagType.clampSingle
  split
  case isTrue => exact toSingle_neg_singleMax_isFinite
  case isFalse hlow =>
    split
    case isTrue => exact toSingle_singleMax_isFinite
    case isFalse hhigh => exact toSingle_isFinite_of_le hx hlow hhigh

theorem datum_ofInt {i : Int} (h : i.natAbs ≤ 2 ^ 63) :
    ∃ m e, datum (ofInt i) = .finite (decide (i < 0)) m e ∧ m < 2 ^ double.precision ∧
      e ≤ 11 := by
  have hbound : (i.natAbs : ℚ) / (1 : Nat) ≤ (2 ^ double.precision - 1 : Nat) * 2 ^ (11 : Int) := by
    have hi : (i.natAbs : ℚ) ≤ 2 ^ 63 := by exact_mod_cast h
    have hp : double.precision = 53 := rfl
    rw [Nat.cast_one, div_one, hp]
    refine hi.trans ?_
    norm_num
  obtain ⟨m, e, hdecode, hm, he⟩ := Format.decode_encode Format.double_regular (decide (i < 0))
    one_pos (by decide) (by decide) hbound
  refine ⟨m, e, ?_, hm, he⟩
  rw [← hdecode, ofInt, datum_ofWord]
  exact double_signBit_two ▸ Format.word_lt (decide (i < 0)) Format.encodeMagnitude_le_infinity

theorem ofInt_isFinite {i : Int} (h : i.natAbs ≤ 2 ^ 63) : isFinite (ofInt i) = true := by
  obtain ⟨m, e, hd, -, -⟩ := datum_ofInt h
  exact isFinite_of_datum hd

theorem toSingle_ofInt_isFinite {i : Int} (h : i.natAbs ≤ 2 ^ 63) :
    isFinite (toSingle (ofInt i)) = true := by
  obtain ⟨m, e, hd, hm, he⟩ := datum_ofInt h
  refine isFinite_toSingle hd ((Format.value_le_of_bounds hm he).trans ?_)
  have hp : double.precision = 53 := rfl
  rw [single_top, hp]
  norm_num

theorem nonNeg_iff_datum (x : Float) :
    NonNeg (unpacked x) ↔
      datum x = .infinite false ∨
        ∃ negative m e, datum x = .finite negative m e ∧ (negative = true → m = 0) := by
  rw [datum_eq]
  cases unpacked x with
  | notANumber => simp [NonNeg, Datum.ofUnpacked]
  | infinity s => cases s <;> simp [NonNeg, Datum.ofUnpacked]
  | zero s => simp [NonNeg, Datum.ofUnpacked]
  | finite s m e hm => cases s <;> simp [NonNeg, Datum.ofUnpacked, hm.ne']

/-- The real nearest to an integer that is not negative, however large. -/
theorem nonNeg_ofInt {i : Int} (h : 0 ≤ i) : NonNeg (unpacked (ofInt i)) := by
  have hsign : decide (i < 0) = false := decide_eq_false h.not_gt
  have hle : double.encodeMagnitude i.natAbs 1 ≤ double.infinity :=
    Format.encodeMagnitude_le_infinity
  have hd : datum (ofInt i) = double.decodeMagnitude false (double.encodeMagnitude i.natAbs 1) := by
    rw [ofInt, datum_ofWord, Format.encode, hsign, Format.decode_word _ hle]
    exact double_signBit_two ▸ Format.word_lt _ hle
  rw [nonNeg_iff_datum, hd]
  rcases hle.lt_or_eq with hlt | heq
  · obtain ⟨m, e, hdecode, -, -⟩ := Format.decodeMagnitude_of_le Format.double_regular false
      (Format.minExponent_le_maxExponent Format.double_regular) le_rfl
      ((Format.lt_infinity_iff Format.double_regular).mp hlt)
    exact .inr ⟨false, m, e, hdecode, by simp⟩
  · rw [heq, Format.decodeMagnitude_infinity]
    exact .inl rfl

theorem wholePart_zero (e : Int) : wholePart 0 e = 0 := by
  cases e <;> simp [wholePart]

theorem signed_nonneg {negative : Bool} {m : Nat} (h : negative = true → m = 0) :
    0 ≤ signed negative m := by
  cases negative with
  | false => exact Int.natCast_nonneg m
  | true =>
    rw [h rfl]
    decide

theorem wholePart_eq_zero {negative : Bool} {m : Nat} (h : negative = true → m = 0) (e : Int) :
    negative = true → wholePart m e = 0 := by
  intro hn
  rw [h hn, wholePart_zero]

theorem floorInt?_nonneg {x : Float} (h : NonNeg (unpacked x)) {i : Int}
    (hi : floorInt? x = some i) : 0 ≤ i := by
  rw [nonNeg_iff_datum] at h
  unfold floorInt? at hi
  rcases h with h | ⟨negative, m, e, h, hzero⟩
  · simp only [h, reduceCtorEq] at hi
  · have hwhole := signed_nonneg (wholePart_eq_zero hzero e)
    have hfraction : (negative && hasFraction m e) = false := by
      cases negative with
      | false => rfl
      | true =>
        rw [hzero rfl]
        cases e <;> simp [hasFraction]
    simp only [h, hfraction, Bool.false_eq_true, if_false, Option.some.injEq] at hi
    omega

/-- The floor of a real that is not negative is none either. -/
theorem nonNeg_floor {x : Float} (h : NonNeg (unpacked x)) : NonNeg (unpacked (floor x)) := by
  unfold floor
  split
  case h_1 i hi =>
    split
    case isTrue => exact h
    case isFalse => exact nonNeg_ofInt (floorInt?_nonneg h hi)
  case h_2 => exact h

theorem floor_of_infinite {x : Float} {b : Bool} (h : datum x = .infinite b) :
    floor x = x := by
  simp only [floor, floorInt?, h]

theorem toInteger_nonneg {x : Float} (h : NonNeg (unpacked x)) : 0 ≤ toInteger x := by
  rw [nonNeg_iff_datum] at h
  unfold toInteger
  rcases h with h | ⟨negative, m, e, h, hzero⟩
  · rw [h]
    decide
  · rw [h]
    have hwhole := signed_nonneg (wholePart_eq_zero hzero e)
    simp only [Integer.saturate, Integer.clamp, Integer.least, Integer.greatest]
    split_ifs <;> omega

end LadderLogic.Binary
