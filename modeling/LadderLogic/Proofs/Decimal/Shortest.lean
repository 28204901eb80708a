import LadderLogic.Decimal.Shortest
import LadderLogic.Proofs.Binary.Encode

/-!
The search for a shortest decimal ends with one. The finest grid that is tried is narrower than half
the interval of a word of double precision, so one of its points lies in the interval, and it is not
zero.
-/

set_option autoImplicit false

namespace LadderLogic.Decimal

open Binary

theorem tens_eq (zeros : Nat) : tens zeros = 10 ^ zeros := rfl

theorem tens_pos (zeros : Nat) : 0 < tens zeros := Nat.pow_pos (by decide)

/-- A power of ten as the ratio that the search calculates with. -/
theorem ten_zpow_eq (place : Int) :
    (10 : ℚ) ^ place = (tens place.toNat : ℚ) / tens (-place).toNat := by
  rw [tens_eq, tens_eq]
  push_cast
  rw [← zpow_natCast, ← zpow_natCast, ← zpow_sub₀ (by norm_num)]
  congr 1
  omega

theorem lt_scaled_tens_iff {a b : Nat} (hb : 0 < b) (place : Int) :
    a * tens (-place).toNat < b * tens place.toNat ↔ (a : ℚ) / b < 10 ^ place := by
  have hbq : (0 : ℚ) < b := by exact_mod_cast hb
  have htens : (0 : ℚ) < tens (-place).toNat := by exact_mod_cast tens_pos _
  rw [ten_zpow_eq, div_lt_div_iff₀ hbq htens, mul_comm (tens place.toNat : ℚ)]
  exact_mod_cast Iff.rfl

theorem scaled_tens_lt_iff {a b : Nat} (hb : 0 < b) (place : Int) :
    b * tens place.toNat < a * tens (-place).toNat ↔ (10 : ℚ) ^ place < a / b := by
  have hbq : (0 : ℚ) < b := by exact_mod_cast hb
  have htens : (0 : ℚ) < tens (-place).toNat := by exact_mod_cast tens_pos _
  rw [ten_zpow_eq, div_lt_div_iff₀ htens hbq, mul_comm (tens place.toNat : ℚ)]
  exact_mod_cast Iff.rfl

namespace Interval

variable {i : Interval} {tie : Tie} {place : Int}

/-- The size of one unit. -/
def unit (i : Interval) : ℚ := i.numUnit / i.denUnit

/-- An interval above zero that reaches two units above its value. -/
structure Regular (i : Interval) : Prop where
  low : 0 < i.low
  high : i.high = i.value + 2
  num : 0 < i.numUnit
  den : 0 < i.denUnit

theorem regular_ofFinite (f : Format) {m : Nat} (hm : m ≠ 0) (e : Int) :
    (ofFinite f m e).Regular where
  low := by
    unfold ofFinite
    dsimp only
    split_ifs <;> omega
  high := rfl
  num := by simp [ofFinite, Nat.shiftLeft_eq]
  den := by simp [ofFinite, Nat.shiftLeft_eq]

/-- Zero is in no such interval. -/
theorem onGrid_ne_zero (h : i.Regular) {digits : Nat} (hgrid : i.onGrid tie place = some digits) :
    digits ≠ 0 := by
  have htens := tens_pos (-place).toNat
  have hlow : 0 < i.low * (i.numUnit * tens (-place).toNat) :=
    Nat.mul_pos h.low (Nat.mul_pos h.num htens)
  rintro rfl
  unfold onGrid at hgrid
  dsimp only at hgrid
  generalize i.value * (i.numUnit * tens (-place).toNat) / _ = below at hgrid
  by_cases hlowIn : if i.closed then
      i.low * (i.numUnit * tens (-place).toNat) ≤ below * (i.denUnit * tens place.toNat)
    else i.low * (i.numUnit * tens (-place).toNat) < below * (i.denUnit * tens place.toNat)
  · have hbelow : below ≠ 0 := by
      rintro rfl
      rw [Nat.zero_mul] at hlowIn
      split_ifs at hlowIn <;> omega
    rw [if_pos hlowIn] at hgrid
    cases tie <;> split_ifs at hgrid <;> have := Option.some.inj hgrid <;> omega
  · rw [if_neg hlowIn] at hgrid
    split_ifs at hgrid <;> have := Option.some.inj hgrid <;> omega

/-- A grid that is narrower than what the interval reaches above its value has a point in it. -/
theorem exists_onGrid (h : i.Regular) (hplace : (10 : ℚ) ^ place < 2 * i.unit) (tie : Tie) :
    ∃ digits, i.onGrid tie place = some digits := by
  have hgrid : i.denUnit * tens place.toNat < 2 * i.numUnit * tens (-place).toNat := by
    rw [scaled_tens_lt_iff h.den]
    push_cast
    rwa [mul_div_assoc]
  unfold onGrid
  dsimp only
  rw [Nat.mul_assoc] at hgrid
  generalize i.numUnit * tens (-place).toNat = num at *
  generalize i.denUnit * tens place.toNat = den at *
  have hbelow : i.value * num / den * den ≤ i.value * num := Nat.div_mul_le_self _ _
  have habove : (i.value * num / den + 1) * den < i.high * num := by
    rw [h.high, Nat.add_mul, Nat.add_mul]
    omega
  have hhighIn : if i.closed then (i.value * num / den + 1) * den ≤ i.high * num
      else (i.value * num / den + 1) * den < i.high * num := by
    split_ifs
    · exact habove.le
    · exact habove
  by_cases hlowIn : if i.closed then i.low * num ≤ i.value * num / den * den
    else i.low * num < i.value * num / den * den
  · rw [if_pos hlowIn]
    cases tie <;> split_ifs <;> exact ⟨_, rfl⟩
  · rw [if_neg hlowIn, if_pos hhighIn]
    exact ⟨_, rfl⟩

theorem digits_search_ne_zero (h : i.Regular) (tie : Tie) {fuel : Nat}
    (hplace : (10 : ℚ) ^ (place - fuel) < 2 * i.unit) : (i.search tie fuel place).digits ≠ 0 := by
  induction fuel generalizing place with
  | zero =>
    obtain ⟨digits, hgrid⟩ := exists_onGrid h (by simpa using hplace) tie
    rw [search, hgrid]
    exact onGrid_ne_zero h hgrid
  | succ fuel ih =>
    unfold search
    cases hgrid : i.onGrid tie place with
    | some digits => exact onGrid_ne_zero h hgrid
    | none =>
      apply ih
      have hsplit : place - (fuel + 1 : Nat) = place - 1 - fuel := by
        push_cast
        ring
      rwa [hsplit] at hplace

/-- The first place is a guess, or one that the value reaches. -/
theorem firstPlace_spec (h : i.Regular) (fuel : Nat) (k : Int) :
    i.firstPlace fuel k = k ∨ (10 : ℚ) ^ i.firstPlace fuel k ≤ i.value * i.unit := by
  induction fuel generalizing k with
  | zero => exact .inl rfl
  | succ fuel ih =>
    unfold firstPlace
    split_ifs with hfirst
    · exact .inl rfl
    · refine .inr ((ih (k + 1)).elim (fun hnext => ?_) id)
      have hreached := not_lt.mp (mt (lt_scaled_tens_iff h.den (k + 1)).mpr hfirst)
      rw [hnext]
      push_cast at hreached
      rwa [mul_div_assoc] at hreached

/-- The guess does not go beyond the magnitude. The ratio 0.30103 is slightly more than the
logarithm of two, which the two places that are taken off make up for. -/
theorem ten_zpow_guess_le {magnitude : Int} (hlow : -2000 ≤ magnitude) (hhigh : magnitude ≤ 1800) :
    (10 : ℚ) ^ ((magnitude * 30103).fdiv 100000 - 2) ≤ 2 ^ magnitude := by
  rw [Int.fdiv_eq_ediv_of_nonneg _ (by decide)]
  generalize hguess : magnitude * 30103 / 100000 - 2 = guess
  obtain ⟨n, rfl | rfl⟩ := guess.eq_nat_or_neg
  · -- A thousand is less than ten doublings.
    refine (pow_le_pow_iff_left₀ (by positivity) (by positivity) (by decide : 3 ≠ 0)).mp ?_
    calc ((10 : ℚ) ^ (n : Int)) ^ 3 = (10 ^ 3) ^ n := by
          rw [zpow_natCast, ← pow_mul, ← pow_mul, mul_comm]
      _ ≤ (2 ^ 10) ^ n := by gcongr; norm_num
      _ = 2 ^ (10 * n : Int) := by rw [← pow_mul]; exact_mod_cast rfl
      _ ≤ 2 ^ (magnitude * 3) := zpow_le_zpow_right₀ one_le_two (by omega)
      _ = ((2 : ℚ) ^ magnitude) ^ 3 := by rw [zpow_mul]; rfl
  · -- Ten to the 28 is more than 93 doublings.
    refine (pow_le_pow_iff_left₀ (by positivity) (by positivity) (by decide : 28 ≠ 0)).mp ?_
    calc ((10 : ℚ) ^ (-n : Int)) ^ 28 = ((10 ^ 28) ^ n)⁻¹ := by
          rw [zpow_neg, zpow_natCast, inv_pow, ← pow_mul, ← pow_mul, mul_comm]
      _ ≤ ((2 ^ 93) ^ n)⁻¹ := by gcongr; norm_num
      _ = 2 ^ (-(93 * n) : Int) := by rw [← pow_mul, zpow_neg]; exact_mod_cast rfl
      _ ≤ 2 ^ (magnitude * 28) := zpow_le_zpow_right₀ one_le_two (by omega)
      _ = ((2 : ℚ) ^ magnitude) ^ 28 := by rw [zpow_mul]; rfl

variable {m : Nat} {e : Int}

theorem unit_ofFinite (f : Format) (m : Nat) (e : Int) : (ofFinite f m e).unit = 2 ^ (e - 2) := by
  simp only [unit, ofFinite, Nat.one_shiftLeft]
  push_cast
  rw [← zpow_natCast, ← zpow_natCast, ← zpow_sub₀ two_ne_zero]
  congr 1
  omega

theorem value_ofFinite (f : Format) (m : Nat) (e : Int) :
    ((ofFinite f m e).value : ℚ) * (ofFinite f m e).unit = m * 2 ^ e := by
  have hfour : (4 : ℚ) = 2 ^ (2 : Int) := by norm_num
  rw [unit_ofFinite]
  simp only [ofFinite]
  push_cast
  rw [hfour, mul_comm (2 ^ (2 : Int) : ℚ), mul_assoc, ← zpow_add₀ two_ne_zero]
  congr 2
  omega

/-- The first place that is tried is at most that of twice the value. -/
theorem ten_zpow_leadingPlace_le (f : Format) (hm : m ≠ 0) (hlt : m < 2 ^ 53) (hlow : -1074 ≤ e)
    (hhigh : e ≤ 971) :
    (10 : ℚ) ^ (ofFinite f m e).leadingPlace ≤ 2 * (m * 2 ^ e) := by
  have hregular := regular_ofFinite f hm e
  have hvalue := value_ofFinite f m e
  have hone : (1 : ℚ) ≤ m := by exact_mod_cast Nat.one_le_iff_ne_zero.mpr hm
  have hbound : (m : ℚ) < 2 ^ (53 : Int) := by exact_mod_cast hlt
  have hpower : (0 : ℚ) < 2 ^ e := by positivity
  have hfine : (2 : ℚ) ^ e ≤ m * 2 ^ e := le_mul_of_one_le_left hpower.le hone
  have hcoarse : (m : ℚ) * 2 ^ e < 2 ^ (53 + e) := by
    rw [zpow_add₀ two_ne_zero]
    gcongr
  unfold leadingPlace
  generalize ofFinite f m e = i at *
  have hnum : i.value * i.numUnit ≠ 0 := by
    intro hzero
    have hproduct : (i.value : ℚ) * i.numUnit = 0 := by exact_mod_cast hzero
    rw [unit, ← mul_div_assoc, hproduct, zero_div] at hvalue
    linarith
  have hratio : ((i.value * i.numUnit : Nat) : ℚ) / i.denUnit = m * 2 ^ e := by
    rw [← hvalue, unit, Nat.cast_mul, mul_div_assoc]
  have hbelow := Format.lt_ratio hnum hregular.den
  have habove := Format.ratio_lt (i.value * i.numUnit) hregular.den
  rw [hratio] at hbelow habove
  dsimp only
  generalize ((i.value * i.numUnit).log2 : Int) - i.denUnit.log2 = magnitude at *
  have hleast : e < magnitude + 1 :=
    (zpow_lt_zpow_iff_right₀ one_lt_two).mp (hfine.trans_lt habove)
  have hgreatest : magnitude - 1 < 53 + e :=
    (zpow_lt_zpow_iff_right₀ one_lt_two).mp (hbelow.trans hcoarse)
  rcases i.firstPlace_spec hregular 4 ((magnitude * 30103).fdiv 100000 - 2) with hguess | hreached
  · rw [hguess]
    calc (10 : ℚ) ^ ((magnitude * 30103).fdiv 100000 - 2) ≤ 2 ^ magnitude :=
          ten_zpow_guess_le (by omega) (by omega)
      _ = 2 * 2 ^ (magnitude - 1) := by
        rw [← zpow_one_add₀ two_ne_zero]
        congr 1
        omega
      _ ≤ 2 * (m * 2 ^ e) := by gcongr
  · rw [hvalue] at hreached
    linarith

end Interval

theorem Scaled.digits_strip_ne_zero {s : Scaled} (h : s.digits ≠ 0) (fuel : Nat) :
    (s.strip fuel).digits ≠ 0 := by
  induction fuel generalizing s with
  | zero => exact h
  | succ fuel ih =>
    unfold strip
    split_ifs with hstrip
    · apply ih
      have := hstrip.2
      dsimp only
      omega
    · exact h

/-- A shortest decimal is not zero. Seventeen places below the first one the grid is narrow
enough. -/
theorem digits_shortest_ne_zero (f : Format) (tie : Tie) {m : Nat} {e : Int} (hm : m ≠ 0)
    (hlt : m < 2 ^ 53) (hlow : -1074 ≤ e) (hhigh : e ≤ 971) :
    (shortest f tie m e).digits ≠ 0 := by
  apply Scaled.digits_strip_ne_zero
  apply Interval.digits_search_ne_zero (Interval.regular_ofFinite f hm e)
  have hplace := Interval.ten_zpow_leadingPlace_le f hm hlt hlow hhigh
  have hbound : (m : ℚ) < 2 ^ (53 : Int) := by exact_mod_cast hlt
  generalize (Interval.ofFinite f m e).leadingPlace = place at *
  rw [Interval.unit_ofFinite, zpow_sub₀ (by norm_num), zpow_sub₀ two_ne_zero]
  have hpower : (0 : ℚ) < 2 ^ e := by positivity
  have hvalue : (m : ℚ) * 2 ^ e < 2 ^ (53 : Int) * 2 ^ e := by gcongr
  rw [div_lt_iff₀ (by positivity)]
  norm_num at hvalue ⊢
  linarith

end LadderLogic.Decimal
