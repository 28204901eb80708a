import Mathlib
import LadderLogic.Binary.Format

/-!
Encoding an exact ratio into a format: what is no larger than the largest word of the format is
encoded as a number, and within the same bound.
-/

set_option autoImplicit false

namespace LadderLogic.Binary

namespace Format

variable {f : Format} {num den : Nat}

theorem scaled_spec (num : Nat) (hden : 0 < den) (e : Int) :
    0 < (scaled num den e).2 ∧
      ((scaled num den e).1 : ℚ) / (scaled num den e).2 = (num : ℚ) / den / 2 ^ e := by
  have hd : (den : ℚ) ≠ 0 := by exact_mod_cast hden.ne'
  cases e with
  | ofNat n =>
    refine ⟨?_, ?_⟩
    · simp only [scaled, Nat.shiftLeft_eq]
      positivity
    · simp only [scaled, Nat.shiftLeft_eq, Int.ofNat_eq_natCast, zpow_natCast]
      push_cast
      field_simp
  | negSucc n =>
    refine ⟨hden, ?_⟩
    simp only [scaled, Nat.shiftLeft_eq, zpow_negSucc]
    push_cast
    field_simp

theorem roundQuotient_le {bound : Nat} (hden : 0 < den) (h : num ≤ bound * den) :
    roundQuotient num den ≤ bound := by
  have hdiv : num / den ≤ bound := (Nat.div_le_iff_le_mul_add_pred hden).mpr (by nlinarith)
  have hmod := Nat.div_add_mod num den
  unfold roundQuotient
  dsimp only
  split
  case isFalse => exact hdiv
  case isTrue hup =>
    rcases hdiv.lt_or_eq with hlt | heq
    · exact hlt
    · have hzero : num % den = 0 := by
        rw [heq, Nat.mul_comm] at hmod
        omega
      omega

theorem two_pow_log2_le (h : num ≠ 0) : (2 : ℚ) ^ (num.log2 : Int) ≤ num := by
  rw [zpow_natCast]
  exact_mod_cast Nat.log2_self_le h

theorem lt_two_pow_log2 : (num : ℚ) < 2 ^ ((num.log2 : Int) + 1) := by
  have h : (num : ℚ) < 2 ^ (num.log2 + 1) := by exact_mod_cast Nat.lt_log2_self
  exact_mod_cast h

theorem ratio_lt (num : Nat) (hden : 0 < den) :
    (num : ℚ) / den < 2 ^ ((num.log2 : Int) - den.log2 + 1) := by
  have hd : (0 : ℚ) < den := by exact_mod_cast hden
  rw [div_lt_iff₀ hd]
  calc (num : ℚ) < 2 ^ ((num.log2 : Int) + 1) := lt_two_pow_log2
    _ = 2 ^ ((num.log2 : Int) - den.log2 + 1) * 2 ^ (den.log2 : Int) := by
      rw [← zpow_add₀ two_ne_zero]
      congr 1
      omega
    _ ≤ _ := by
      gcongr
      exact two_pow_log2_le hden.ne'

theorem lt_ratio (hnum : num ≠ 0) (hden : 0 < den) :
    (2 : ℚ) ^ ((num.log2 : Int) - den.log2 - 1) < (num : ℚ) / den := by
  have hd : (0 : ℚ) < den := by exact_mod_cast hden
  rw [lt_div_iff₀ hd]
  calc (2 : ℚ) ^ ((num.log2 : Int) - den.log2 - 1) * den
      < 2 ^ ((num.log2 : Int) - den.log2 - 1) * 2 ^ ((den.log2 : Int) + 1) := by
        gcongr
        exact lt_two_pow_log2
    _ = 2 ^ (num.log2 : Int) := by
      rw [← zpow_add₀ two_ne_zero]
      congr 1
      omega
    _ ≤ num := two_pow_log2_le hnum

/-- Whether the significand fits at a place, as a bound on the ratio. -/
theorem scaled_lt_iff (hden : 0 < den) (e : Int) (p : Nat) :
    (scaled num den e).1 / (scaled num den e).2 < 1 <<< p ↔
      (num : ℚ) / den < 2 ^ ((p : Int) + e) := by
  obtain ⟨hpos, hval⟩ := scaled_spec num hden e
  have hd : (0 : ℚ) < (scaled num den e).2 := by exact_mod_cast hpos
  have h2 : (0 : ℚ) < 2 ^ e := by positivity
  rw [Nat.div_lt_iff_lt_mul hpos, Nat.one_shiftLeft, zpow_add₀ two_ne_zero, ← div_lt_iff₀ h2,
    ← hval, div_lt_iff₀ hd, zpow_natCast]
  exact_mod_cast Iff.rfl

theorem scaled_le (hden : 0 < den) {b : Nat} {e : Int}
    (h : (num : ℚ) / den ≤ b * 2 ^ e) :
    (scaled num den e).1 ≤ b * (scaled num den e).2 := by
  obtain ⟨hpos, hval⟩ := scaled_spec num hden e
  have hd : (0 : ℚ) < (scaled num den e).2 := by exact_mod_cast hpos
  have h2 : (0 : ℚ) < 2 ^ e := by positivity
  rw [← div_le_iff₀ h2, ← hval, div_le_iff₀ hd] at h
  exact_mod_cast h

/-- The place that is kept is in the format, leaves a significand that fits, and is no higher than
that of any bound on the ratio. -/
theorem lastPlace_spec (hnum : num ≠ 0) (hden : 0 < den) :
    f.minExponent ≤ f.lastPlace num den ∧
      (num : ℚ) / den < 2 ^ ((f.precision : Int) + f.lastPlace num den) ∧
      ∀ k, f.minExponent ≤ k → (num : ℚ) / den < 2 ^ ((f.precision : Int) + k) →
        f.lastPlace num den ≤ k := by
  unfold lastPlace
  rw [if_neg hnum]
  dsimp only
  have hupper := ratio_lt num hden
  have hlower := lt_ratio hnum hden
  set guess := max f.minExponent ((num.log2 : Int) - den.log2 - f.precision) with hguess
  by_cases hfits : (scaled num den guess).1 / (scaled num den guess).2 < 1 <<< f.precision
  · rw [if_pos hfits]
    refine ⟨le_max_left .., (scaled_lt_iff hden guess _).mp hfits, ?_⟩
    intro k hk hlt
    have := (zpow_lt_zpow_iff_right₀ (one_lt_two (α := ℚ))).mp (hlower.trans hlt)
    omega
  · rw [if_neg hfits]
    have hge := not_lt.mp (mt (scaled_lt_iff hden guess f.precision).mpr hfits)
    refine ⟨by omega, hupper.trans_le ?_, fun k hk hlt => ?_⟩
    · exact zpow_le_zpow_right₀ one_lt_two.le (by omega)
    · have := (zpow_lt_zpow_iff_right₀ (one_lt_two (α := ℚ))).mp (hge.trans_lt hlt)
      omega

theorem encodeMagnitude_eq : f.encodeMagnitude num den =
    min f.infinity (((f.lastPlace num den - f.minExponent).toNat <<< f.fractionBits) +
      roundQuotient (scaled num den (f.lastPlace num den)).1
        (scaled num den (f.lastPlace num den)).2) := rfl

/-- The exponent of the last place of the largest words. -/
def maxExponent (f : Format) : Int := f.minExponent + ((1 <<< f.exponentBits : Nat) : Int) - 3

/-- What both formats have: a leading bit, and an exponent field with room for numbers. -/
def Regular (f : Format) : Prop := 1 ≤ f.precision ∧ 2 ≤ f.exponentBits

theorem single_regular : single.Regular := ⟨by decide, by decide⟩

theorem double_regular : double.Regular := ⟨by decide, by decide⟩

theorem Regular.two_pow_precision (hf : f.Regular) : 2 ^ f.precision = 2 * 2 ^ f.fractionBits := by
  rw [← pow_succ']
  congr 1
  have := hf.1
  unfold fractionBits
  omega

theorem infinity_eq (f : Format) :
    f.infinity = (2 ^ f.exponentBits - 1) * 2 ^ f.fractionBits := by
  rw [infinity, Nat.one_shiftLeft, Nat.shiftLeft_eq]

theorem signBit_eq (f : Format) : f.signBit = 2 ^ f.exponentBits * 2 ^ f.fractionBits := by
  rw [signBit, Nat.one_shiftLeft, pow_add]

theorem infinity_lt_signBit (f : Format) : f.infinity < f.signBit := by
  rw [infinity_eq, signBit_eq]
  exact Nat.mul_lt_mul_of_pos_right (Nat.sub_lt (Nat.two_pow_pos _) one_pos) (Nat.two_pow_pos _)

theorem encodeMagnitude_le_infinity : f.encodeMagnitude num den ≤ f.infinity := min_le_left ..

/-- The greatest magnitude of a number whose last place has exponent `k`. -/
def magnitudeAt (f : Format) (k : Int) : Nat :=
  (k - f.minExponent).toNat * 2 ^ f.fractionBits + (2 ^ f.precision - 1)

theorem magnitudeAt_mono (f : Format) {k l : Int} (h : k ≤ l) :
    f.magnitudeAt k ≤ f.magnitudeAt l :=
  Nat.add_le_add_right (Nat.mul_le_mul_right _ (by omega)) _

theorem magnitudeAt_maxExponent (hf : f.Regular) :
    f.magnitudeAt f.maxExponent + 1 = f.infinity := by
  have hfour : 2 ^ 2 ≤ 2 ^ f.exponentBits := Nat.pow_le_pow_right (by decide) hf.2
  have hmax : (f.maxExponent - f.minExponent).toNat = 2 ^ f.exponentBits - 3 := by
    rw [maxExponent, Nat.one_shiftLeft]
    omega
  have hF : 0 < 2 ^ f.fractionBits := Nat.two_pow_pos _
  have hsum : (2 ^ f.exponentBits - 1) * 2 ^ f.fractionBits =
      (2 ^ f.exponentBits - 3) * 2 ^ f.fractionBits + 2 * 2 ^ f.fractionBits := by
    rw [← Nat.add_mul]
    congr 1
    omega
  rw [magnitudeAt, hmax, hf.two_pow_precision, infinity_eq, hsum]
  omega

theorem lt_infinity_iff (hf : f.Regular) {magnitude : Nat} :
    magnitude < f.infinity ↔ magnitude ≤ f.magnitudeAt f.maxExponent := by
  rw [← magnitudeAt_maxExponent hf, Nat.lt_succ_iff]

theorem decode_word (negative : Bool) {magnitude : Nat} (h : magnitude ≤ f.infinity) :
    f.decode ((if negative then f.signBit else 0) + magnitude) =
      f.decodeMagnitude negative magnitude := by
  have hlt := h.trans_lt f.infinity_lt_signBit
  have hpos : 0 < f.signBit := by omega
  unfold decode
  cases negative with
  | false => simp [Nat.mod_eq_of_lt hlt, Nat.div_eq_of_lt hlt]
  | true =>
    rw [if_pos rfl, Nat.add_mod_left, Nat.mod_eq_of_lt hlt, Nat.add_div_left _ hpos,
      Nat.div_eq_of_lt hlt]
    rfl

theorem word_lt (negative : Bool) {magnitude : Nat} (h : magnitude ≤ f.infinity) :
    (if negative then f.signBit else 0) + magnitude < 2 * f.signBit := by
  have hlt := h.trans_lt f.infinity_lt_signBit
  split <;> omega

/-- A magnitude bounded by that of the numbers at a place is one of a number at most there. -/
theorem decodeMagnitude_of_le (hf : f.Regular) (negative : Bool) {magnitude : Nat} {k : Int}
    (least : f.minExponent ≤ k) (greatest : k ≤ f.maxExponent)
    (h : magnitude ≤ f.magnitudeAt k) :
    ∃ m e, f.decodeMagnitude negative magnitude = .finite negative m e ∧ m < 2 ^ f.precision ∧
      e ≤ k := by
  have hF : 0 < 2 ^ f.fractionBits := Nat.two_pow_pos _
  have hmod := Nat.mod_lt magnitude hF
  have hfinite := (lt_infinity_iff hf).mpr (h.trans (f.magnitudeAt_mono greatest))
  have hdiv : magnitude / 2 ^ f.fractionBits < (k - f.minExponent).toNat + 2 := by
    rw [Nat.div_lt_iff_lt_mul hF, Nat.add_mul]
    rw [magnitudeAt, hf.two_pow_precision] at h
    omega
  unfold decodeMagnitude
  simp only [Nat.one_shiftLeft, Nat.shiftRight_eq_div_pow]
  rw [if_neg hfinite.not_gt, if_neg hfinite.ne, hf.two_pow_precision]
  split
  · exact ⟨_, _, rfl, by omega, by omega⟩
  · exact ⟨_, _, rfl, by omega, by omega⟩

theorem decodeMagnitude_infinity (negative : Bool) :
    f.decodeMagnitude negative f.infinity = .infinite negative := by
  unfold decodeMagnitude
  rw [if_neg (lt_irrefl _), if_pos rfl]

theorem minExponent_le_maxExponent (hf : f.Regular) : f.minExponent ≤ f.maxExponent := by
  have hfour : 2 ^ 2 ≤ 2 ^ f.exponentBits := Nat.pow_le_pow_right (by decide) hf.2
  rw [maxExponent, Nat.one_shiftLeft]
  omega

theorem decode_bounds (hf : f.Regular) {word m : Nat} {negative : Bool} {e : Int}
    (h : f.decode word = .finite negative m e) : m < 2 ^ f.precision ∧ e ≤ f.maxExponent := by
  rcases lt_trichotomy f.infinity (word % f.signBit) with hlt | heq | hgt
  · simp only [decode, decodeMagnitude, if_pos hlt, reduceCtorEq] at h
  · simp only [decode, ← heq, decodeMagnitude_infinity, reduceCtorEq] at h
  · obtain ⟨m', e', hdecode, hm, he⟩ := decodeMagnitude_of_le hf
      (decide (word / f.signBit % 2 = 1)) (minExponent_le_maxExponent hf) le_rfl
      ((lt_infinity_iff hf).mp hgt)
    rw [decode, hdecode, Datum.finite.injEq] at h
    obtain ⟨-, rfl, rfl⟩ := h
    exact ⟨hm, he⟩

/-- A ratio that is no larger than a finite number of the format is encoded as no larger one. -/
theorem encodeMagnitude_le (hden : 0 < den) {k : Int}
    (hk : f.minExponent ≤ k) (h : (num : ℚ) / den ≤ (2 ^ f.precision - 1 : Nat) * 2 ^ k) :
    f.encodeMagnitude num den ≤ f.magnitudeAt k := by
  have hk2 : (0 : ℚ) < 2 ^ k := by positivity
  have hbound : (num : ℚ) / den < 2 ^ ((f.precision : Int) + k) := by
    rw [zpow_add₀ two_ne_zero, zpow_natCast]
    refine h.trans_lt (mul_lt_mul_of_pos_right ?_ hk2)
    exact_mod_cast Nat.sub_lt (Nat.two_pow_pos _) one_pos
  obtain ⟨hleast, hfits, hplace⟩ : f.minExponent ≤ f.lastPlace num den ∧
      (num : ℚ) / den < 2 ^ ((f.precision : Int) + f.lastPlace num den) ∧
      f.lastPlace num den ≤ k := by
    by_cases hnum : num = 0
    · subst hnum
      simp only [lastPlace, if_true]
      refine ⟨le_rfl, ?_, hk⟩
      rw [Nat.cast_zero, zero_div]
      positivity
    · obtain ⟨hleast, hfits, hbest⟩ := lastPlace_spec (f := f) hnum hden
      exact ⟨hleast, hfits, hbest k hk hbound⟩
  rw [encodeMagnitude_eq]
  refine (min_le_right _ _).trans ?_
  generalize f.lastPlace num den = place at *
  rw [Nat.shiftLeft_eq, magnitudeAt]
  obtain ⟨hpos, -⟩ := scaled_spec num hden place
  have hF : 0 < 2 ^ f.fractionBits := Nat.two_pow_pos _
  have hP : 0 < 2 ^ f.precision := Nat.two_pow_pos _
  rcases hplace.lt_or_eq with hlt | rfl
  · have hround := roundQuotient_le hpos
      (scaled_le hden (b := 2 ^ f.precision) (e := place) (by
        rw [Nat.cast_pow, Nat.cast_two, ← zpow_natCast, ← zpow_add₀ two_ne_zero]
        exact hfits.le))
    have hstep : (place - f.minExponent).toNat + 1 ≤ (k - f.minExponent).toNat := by omega
    have := Nat.mul_le_mul_right (2 ^ f.fractionBits) hstep
    rw [Nat.add_mul, one_mul] at this
    omega
  · have hround := roundQuotient_le hpos (scaled_le hden h)
    omega

/-- A number is encoded through a ratio that is its exact value. -/
theorem encodeDatum_finite (f : Format) (negative : Bool) (m : Nat) (e : Int) :
    ∃ num den : Nat, 0 < den ∧ (num : ℚ) / den = m * 2 ^ e ∧
      f.encodeDatum (.finite negative m e) = f.encode negative num den := by
  cases e with
  | ofNat n =>
    refine ⟨m <<< n, 1, one_pos, ?_, rfl⟩
    simp [Nat.shiftLeft_eq]
  | negSucc n =>
    refine ⟨m, 1 <<< (n + 1), by simp [Nat.one_shiftLeft], ?_, rfl⟩
    simp only [Nat.one_shiftLeft, zpow_negSucc]
    push_cast
    rfl

/-- A number below a bound is encoded as a number within it. -/
theorem decode_encode (hf : f.Regular) (negative : Bool) (hden : 0 < den) {k : Int}
    (least : f.minExponent ≤ k) (greatest : k ≤ f.maxExponent)
    (h : (num : ℚ) / den ≤ (2 ^ f.precision - 1 : Nat) * 2 ^ k) :
    ∃ m e, f.decode (f.encode negative num den) = .finite negative m e ∧
      m < 2 ^ f.precision ∧ e ≤ k := by
  rw [encode, decode_word negative encodeMagnitude_le_infinity]
  exact decodeMagnitude_of_le hf negative least greatest (encodeMagnitude_le hden least h)

/-- A number that is no larger than the largest word is encoded as a number. -/
theorem decode_encodeDatum (hf : f.Regular) (negative : Bool) {m : Nat} {e : Int}
    (h : (m : ℚ) * 2 ^ e ≤ (2 ^ f.precision - 1 : Nat) * 2 ^ f.maxExponent) :
    ∃ m' e', f.decode (f.encodeDatum (.finite negative m e)) = .finite negative m' e' := by
  obtain ⟨num, den, hden, hval, hword⟩ := f.encodeDatum_finite negative m e
  obtain ⟨m', e', hdecode, -, -⟩ := decode_encode hf negative hden
    (minExponent_le_maxExponent hf) le_rfl (hval ▸ h)
  exact ⟨m', e', hword ▸ hdecode⟩

theorem encodeDatum_finite_lt (f : Format) (negative : Bool) (m : Nat) (e : Int) :
    f.encodeDatum (.finite negative m e) < 2 * f.signBit := by
  obtain ⟨num, den, -, -, hword⟩ := f.encodeDatum_finite negative m e
  rw [hword]
  exact word_lt negative encodeMagnitude_le_infinity

/-- A number within the bounds of a format is no larger than its largest word. -/
theorem value_le_of_bounds {p m : Nat} {e top : Int} (hm : m < 2 ^ p) (he : e ≤ top) :
    (m : ℚ) * 2 ^ e ≤ (2 ^ p - 1 : Nat) * 2 ^ top := by
  have hnat : (m : ℚ) ≤ (2 ^ p - 1 : Nat) := by exact_mod_cast (by omega : m ≤ 2 ^ p - 1)
  have hpow : (2 : ℚ) ^ e ≤ 2 ^ top := zpow_le_zpow_right₀ one_lt_two.le he
  gcongr


end Format

/-- The largest real of single precision is one of double precision. -/
theorem single_max_le_double_max :
    ((2 ^ single.precision - 1 : Nat) : ℚ) * 2 ^ single.maxExponent ≤
      (2 ^ double.precision - 1 : Nat) * 2 ^ double.maxExponent :=
  Format.value_le_of_bounds (by decide) (by decide)

end LadderLogic.Binary
