import LadderLogic.Proofs.Binary.Unpacked

/-!
Sums, products and differences of reals that are not negative: what keeps the sign, and what keeps
finite.
-/

set_option autoImplicit false

namespace LadderLogic.Binary

open Float.Model (UnpackedFloat)
open Float.Model.UnpackedFloat

/-- Not below zero: a positive datum, or a zero of either sign. -/
def NonNeg : UnpackedFloat → Prop
  | .notANumber => False
  | .infinity s => s = .positive
  | .zero _ => True
  | .finite s _ _ _ => s = .positive

theorem unpacked_zero : unpacked 0.0 = .zero .positive := by rfl

theorem zero_le_iff (x : Float) : (0.0 : Float) ≤ x ↔ NonNeg (unpacked x) := by
  rw [le_iff, unpacked_zero]
  cases unpacked x with
  | notANumber => simp [NonNeg, UnpackedFloat.le, UnpackedFloat.compare]
  | infinity s => cases s <;> simp [NonNeg, UnpackedFloat.le, UnpackedFloat.compare]
  | zero s => simp [NonNeg, UnpackedFloat.le, UnpackedFloat.compare]
  | finite s m e hm => cases s <;> simp [NonNeg, UnpackedFloat.le, UnpackedFloat.compare]

theorem nonNeg_of_zero_lt {x : Float} (h : (0.0 : Float) < x) : NonNeg (unpacked x) := by
  rw [lt_iff, unpacked_zero] at h
  revert h
  cases unpacked x with
  | notANumber => simp [NonNeg, UnpackedFloat.lt, UnpackedFloat.compare]
  | infinity s => cases s <;> simp [NonNeg, UnpackedFloat.lt, UnpackedFloat.compare]
  | zero s => simp [NonNeg]
  | finite s m e hm => cases s <;> simp [NonNeg, UnpackedFloat.lt, UnpackedFloat.compare]

/-- Whatever the exponent field of a positive word, unless it is the highest one. -/
theorem nonNeg_unpack_packComponents {e : BitVec 11} (he : e ≠ -1#_) (m : BitVec 52) :
    NonNeg (unpack binary64 (packComponents binary64 .positive e m)) := by
  rw [unpack_packComponents, if_neg he]
  split
  · split <;> trivial
  · rfl

/-- Packing keeps the sign, even where it overflows. -/
theorem nonNeg_unpack_pack {f : UnpackedFloat} (h : NonNeg f) :
    NonNeg (unpack binary64 (pack binary64 f)) := by
  cases f with
  | notANumber => exact h.elim
  | infinity s =>
    obtain rfl : s = .positive := h
    rfl
  | zero s => cases s <;> trivial
  | finite s m e hm =>
    obtain rfl : s = .positive := h
    unfold pack
    dsimp only
    split
    · rfl
    · rename_i hover
      split
      · apply nonNeg_unpack_packComponents
        rw [ne_eq, ← BitVec.toNat_inj, BitVec.toNat_ofNat, Nat.mod_eq_of_lt (by omega)]
        change _ ≠ 2047
        omega
      · exact nonNeg_unpack_packComponents (by decide) _

theorem nonNeg_roundWithAccuracy (m : Nat) (e : Int) (a : Accuracy) :
    NonNeg (roundWithAccuracy binary64 .positive m e a) := by
  unfold roundWithAccuracy
  dsimp only
  split <;> trivial

theorem nonNeg_normalize {m : Int} (h : 0 ≤ m) (e : Int) :
    NonNeg (UnpackedFloat.normalize binary64 m e .positive) := by
  unfold UnpackedFloat.normalize
  rcases h.lt_or_eq with hpos | rfl
  · rw [Int.compare_eq_gt.mpr hpos]
    exact nonNeg_roundWithAccuracy _ _ _
  · trivial

theorem nonNeg_add {f g : UnpackedFloat} (hf : NonNeg f) (hg : NonNeg g) :
    NonNeg (UnpackedFloat.add binary64 f g) := by
  cases f with
  | notANumber => exact hf.elim
  | infinity s =>
    obtain rfl : s = .positive := hf
    cases g with
    | notANumber => exact hg.elim
    | infinity t =>
      obtain rfl : t = .positive := hg
      rfl
    | _ => rfl
  | zero s =>
    cases g with
    | notANumber => exact hg.elim
    | zero t => cases s <;> cases t <;> trivial
    | _ => exact hg
  | finite s m e hm =>
    obtain rfl : s = .positive := hf
    cases g with
    | notANumber => exact hg.elim
    | infinity t => exact hg
    | zero t => rfl
    | finite t n k hn =>
      obtain rfl : t = .positive := hg
      exact nonNeg_normalize (Int.add_nonneg (Int.natCast_nonneg _) (Int.natCast_nonneg _)) _

theorem add_nonNeg {x y : Float} (hx : NonNeg (unpacked x)) (hy : NonNeg (unpacked y)) :
    NonNeg (unpacked (x + y)) :=
  nonNeg_unpack_pack (nonNeg_add hx hy)

def Positive : UnpackedFloat → Prop
  | .finite s _ _ _ => s = .positive
  | _ => False

theorem nonNeg_mul {f g : UnpackedFloat} (hf : NonNeg f) (hg : Positive g) :
    NonNeg (UnpackedFloat.mul binary64 f g) := by
  cases g with
  | finite t n k hn =>
    obtain rfl : t = .positive := hg
    cases f with
    | notANumber => exact hf.elim
    | infinity s =>
      obtain rfl : s = .positive := hf
      rfl
    | zero s => trivial
    | finite s m e hm =>
      obtain rfl : s = .positive := hf
      exact nonNeg_roundWithAccuracy _ _ _
  | _ => exact hg.elim

theorem mul_nonNeg {x y : Float} (hx : NonNeg (unpacked x)) (hy : Positive (unpacked y)) :
    NonNeg (unpacked (x * y)) :=
  nonNeg_unpack_pack (nonNeg_mul hx hy)

theorem positive_iff (x : Float) : Positive (unpacked x) ↔ isFinite x ∧ (0.0 : Float) < x := by
  rw [isFinite_iff, lt_iff, unpacked_zero]
  cases unpacked x with
  | finite s m e hm =>
    cases s <;>
      simp [Positive, UnpackedFloat.isFinite, UnpackedFloat.lt, UnpackedFloat.compare]
  | _ => simp [Positive, UnpackedFloat.isFinite, UnpackedFloat.lt, UnpackedFloat.compare]

theorem shiftRight_mantissa (em : ExtendedMantissa) (k : Nat) :
    (em >>> k).mantissa = em.mantissa / 2 ^ k := by
  induction k with
  | zero => exact (Nat.div_one _).symm
  | succ k ih =>
    change (em >>> k).mantissa / 2 = _
    rw [ih, Nat.div_div_eq_div_mul, ← pow_succ]

theorem roundedMantissa_le (em : ExtendedMantissa) : em.roundedMantissa ≤ em.mantissa + 1 := by
  obtain ⟨m, r, s⟩ := em
  cases r <;> cases s <;>
    simp only [ExtendedMantissa.roundedMantissa, ExtendedMantissa.accuracy,
      Accuracy.roundToNearestEven] <;> omega

/-- The exponent, if there is one, fits its field. -/
def TopFits : UnpackedFloat → Prop
  | .finite _ _ e _ => e ≤ 971
  | .zero _ => True
  | _ => False

theorem isFinite_unpack_pack {f : UnpackedFloat} (h : TopFits f) :
    (unpack binary64 (pack binary64 f)).isFinite = true := by
  cases f with
  | zero s => cases s <;> rfl
  | finite s m e hm =>
    have hover : ¬ 2 ^ 11 ≤
        (e + binary64.exponentBias + binary64.mantissaBitsWithoutImplicit).toNat + 1 := by
      have htop : e ≤ 971 := h
      change ¬ 2 ^ 11 ≤ (e + (1023 : Nat) + (52 : Nat)).toNat + 1
      omega
    unfold pack
    dsimp only
    rw [if_neg hover]
    split
    · rw [unpack_packComponents, if_neg]
      · split
        · split <;> rfl
        · rfl
      · rw [← BitVec.toNat_inj, BitVec.toNat_ofNat]
        change (e + binary64.exponentBias + binary64.mantissaBitsWithoutImplicit).toNat % 2048 ≠ 2047
        omega
    · rw [unpack_packComponents, if_neg (by decide), if_pos rfl]
      split <;> rfl
  | _ => exact h.elim

theorem log2_lt_of_lt {m n : Nat} (h : m < 2 ^ (n + 1)) : m.log2 < n + 1 := by
  rcases Nat.eq_zero_or_pos m with rfl | hm
  · simp
  · exact (Nat.log2_lt hm.ne').mpr h

theorem topFits_roundWithAccuracy (s : Sign) {m : Nat} {e : Int} (he : e ≤ 971)
    (h : m < (2 ^ 53 - 1) * 2 ^ (971 - e).toNat) :
    TopFits (roundWithAccuracy binary64 s m e .exact) := by
  set k := (max (m.log2 + 1 + e - 53) (-1074) - e).toNat with hk
  set r := (ExtendedMantissa.ofMantissaAndAccuracy m .exact >>> k).roundedMantissa with hr
  have hround : r ≤ m / 2 ^ k + 1 := by
    have h := roundedMantissa_le (ExtendedMantissa.ofMantissaAndAccuracy m .exact >>> k)
    rwa [shiftRight_mantissa] at h
  have htop : e + k ≤ 971 := by
    have hlog : m.log2 < 53 + (971 - e).toNat := by
      rcases Nat.eq_zero_or_pos m with rfl | hm
      · simp
      · rw [Nat.log2_lt hm.ne', pow_add]
        exact h.trans_le (Nat.mul_le_mul_right _ (by norm_num))
    omega
  have hlow : m / 2 ^ k < 2 ^ 53 := by
    rw [Nat.div_lt_iff_lt_mul (Nat.two_pow_pos k), ← pow_add]
    exact Nat.lt_log2_self.trans_le (Nat.pow_le_pow_right (by norm_num) (by omega))
  have hfinal : e + k + (max (r.log2 + 1 + (e + k) - 53) (-1074) - (e + k)).toNat ≤ 971 := by
    by_cases hlast : e + k = 971
    · have hk971 : k = (971 - e).toNat := by omega
      have hdiv : m / 2 ^ k < 2 ^ 53 - 1 := by
        rw [Nat.div_lt_iff_lt_mul (Nat.two_pow_pos k), hk971]
        exact h
      have hr53 : r.log2 < 53 := log2_lt_of_lt (by omega)
      omega
    · have hr54 : r.log2 < 54 := log2_lt_of_lt (by omega)
      omega
  unfold roundWithAccuracy
  dsimp only
  split
  · trivial
  · exact hfinal

theorem topFits_round (s : Sign) {m : Nat} {e : Int} (he : e ≤ 971)
    (h : m < (2 ^ 53 - 1) * 2 ^ (971 - e).toNat) : TopFits (UnpackedFloat.round binary64 s m e) := by
  unfold UnpackedFloat.round
  simp only [decreaseExponent, Nat.shiftLeft_eq]
  set k := (e - binary64.targetExponent (Float.Model.totalExponent m e)).toNat
  have hk : (971 - (e - k)).toNat = (971 - e).toNat + k := by omega
  refine topFits_roundWithAccuracy s (by omega) ?_
  rw [hk, pow_add, ← mul_assoc]
  exact Nat.mul_lt_mul_of_pos_right h (Nat.two_pow_pos k)

theorem topFits_normalize {m : Int} {e : Int} (he : e ≤ 971)
    (h : m.natAbs < (2 ^ 53 - 1) * 2 ^ (971 - e).toNat) (s : Sign) :
    TopFits (UnpackedFloat.normalize binary64 m e s) := by
  unfold UnpackedFloat.normalize
  split
  · exact topFits_round _ he (lt_of_le_of_lt (by omega) h)
  · trivial
  · exact topFits_round _ he (lt_of_le_of_lt (by omega) h)

/-- A canonical mantissa brought to a lower exponent. -/
theorem shifted_mantissa_le {m : Nat} {e k : Int} (hm : m < 2 ^ 53)
    (he : e ≤ 971) : m * 2 ^ (e - k).toNat ≤ (2 ^ 53 - 1) * 2 ^ (971 - k).toNat :=
  Nat.mul_le_mul (by omega) (Nat.pow_le_pow_right (by norm_num) (by omega))

/-- The difference of two numbers that are not negative cannot overflow. -/
theorem sub_isFinite {x y : Float} (hx : NonNeg (unpacked x)) (hy : NonNeg (unpacked y))
    (fx : isFinite x) (fy : isFinite y) : isFinite (x - y) := by
  rw [isFinite_iff] at fx fy ⊢
  have cx := unpacked_canonical x
  have cy := unpacked_canonical y
  rw [unpacked_sub]
  generalize unpacked x = f at *
  generalize unpacked y = g at *
  apply isFinite_unpack_pack
  cases f with
  | notANumber => exact hx.elim
  | infinity s => simp [UnpackedFloat.isFinite] at fx
  | zero s =>
    cases g with
    | notANumber => exact hy.elim
    | infinity t => simp [UnpackedFloat.isFinite] at fy
    | zero t => cases s <;> cases t <;> trivial
    | finite t n k hn => exact cy.2.2.1
  | finite s m e hm =>
    obtain rfl : s = .positive := hx
    cases g with
    | notANumber => exact hy.elim
    | infinity t => simp [UnpackedFloat.isFinite] at fy
    | zero t => exact cx.2.2.1
    | finite t n k hn =>
      obtain rfl : t = .positive := hy
      obtain ⟨hm53, -, he, -⟩ := cx
      obtain ⟨hn53, -, hk, -⟩ := cy
      have hleft := shifted_mantissa_le (k := min e k) hm53 he
      have hright := shifted_mantissa_le (k := min e k) hn53 hk
      have hm0 := Nat.mul_pos hm (Nat.two_pow_pos (e - min e k).toNat)
      have hn0 := Nat.mul_pos hn (Nat.two_pow_pos (k - min e k).toNat)
      simp only [UnpackedFloat.sub, decreaseExponent, Sign.apply, Nat.shiftLeft_eq]
      exact topFits_normalize (by omega) (by omega) _

end LadderLogic.Binary
