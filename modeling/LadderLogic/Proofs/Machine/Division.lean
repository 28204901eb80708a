import LadderLogic.Proofs.Expression.Exact
import LadderLogic.Proofs.Machine.Arithmetic

/-!
The law of floored division. The quotient of two integers is the floor of their ratio, and the
remainder is what is left, smaller than the divisor and of its sign. Both are integers for all
words but one pair: the truncated quotient of the least word and -1 is no word, and there both the
quotient and the remainder are computed on reals.
-/

set_option autoImplicit false

namespace LadderLogic

open Binary

namespace Integer

variable {i j : Int}

/-- Quotient and remainder of floored division. -/
structure Floored (i j q r : Int) : Prop where
  floor : q = ⌊(i : ℚ) / j⌋
  rest : r = i - q * j
  lt : |r| < |j|
  sign : r = 0 ∨ r.sign = j.sign

theorem fmod_eq_sub (i j : Int) : i.fmod j = i - i.fdiv j * j := by
  rw [Int.fmod_def, mul_comm]

/-- The remainder lies between zero and the divisor. -/
theorem fmod_mem (i : Int) (hj : j ≠ 0) :
    0 < j ∧ 0 ≤ i.fmod j ∧ i.fmod j < j ∨ j < 0 ∧ j < i.fmod j ∧ i.fmod j ≤ 0 := by
  have hnonneg := Int.emod_nonneg i hj
  have hlt := Int.emod_lt i hj
  have hdvd : j ∣ i ↔ i % j = 0 := Int.dvd_iff_emod_eq_zero
  rw [Int.fmod_eq_emod]
  split_ifs with h <;> omega

theorem fdiv_eq_floor (i : Int) (hj : j ≠ 0) : i.fdiv j = ⌊(i : ℚ) / j⌋ := by
  symm
  have hrest := fmod_eq_sub i j
  rw [Int.floor_eq_iff]
  rcases fmod_mem i hj with ⟨hpos, hlow, hhigh⟩ | ⟨hneg, hlow, hhigh⟩
  · have hcast : (0 : ℚ) < j := by exact_mod_cast hpos
    rw [le_div_iff₀ hcast, div_lt_iff₀ hcast]
    constructor
    · have hle : i.fdiv j * j ≤ i := by omega
      exact_mod_cast hle
    · have hless : i < (i.fdiv j + 1) * j := by linarith
      exact_mod_cast hless
  · have hcast : (j : ℚ) < 0 := by exact_mod_cast hneg
    rw [le_div_iff_of_neg hcast, div_lt_iff_of_neg hcast]
    constructor
    · have hle : i ≤ i.fdiv j * j := by omega
      exact_mod_cast hle
    · have hless : (i.fdiv j + 1) * j < i := by linarith
      exact_mod_cast hless

theorem floored_fdiv (i : Int) (hj : j ≠ 0) : Floored i j (i.fdiv j) (i.fmod j) where
  floor := fdiv_eq_floor i hj
  rest := fmod_eq_sub i j
  lt := by
    have hmem := fmod_mem i hj
    simp only [Int.abs_eq_natAbs]
    omega
  sign := by
    rcases fmod_mem i hj with ⟨hpos, hlow, -⟩ | ⟨hneg, -, hhigh⟩
    · rcases hlow.eq_or_lt with hzero | hlow
      · exact .inl hzero.symm
      · right
        rw [Int.sign_eq_one_of_pos hpos, Int.sign_eq_one_of_pos hlow]
    · rcases hhigh.eq_or_lt with hzero | hhigh
      · exact .inl hzero
      · right
        rw [Int.sign_eq_neg_one_of_neg hneg, Int.sign_eq_neg_one_of_neg hhigh]

/-- The one pair of words whose quotient is no word: a quotient as large as that leaves a remainder
of the wrong sign for every other divisor. -/
theorem fits_fdiv (hi : Fits i) (hj : j ≠ 0) (h : ¬ (i = least ∧ j = -1)) : Fits (i.fdiv j) := by
  have habs := Int.natAbs_fdiv_le_natAbs i j
  have hrest := fmod_eq_sub i j
  have hmem := fmod_mem i hj
  unfold Fits least greatest at *
  by_contra hlarge
  have hquotient : i.fdiv j = 9223372036854775808 := by omega
  rw [hquotient] at hrest
  omega

/-- The truncated quotient differs only where there is a remainder, and is small there. -/
theorem fits_tdiv (hi : Fits i) (hj : j ≠ 0) (h : ¬ (i = least ∧ j = -1)) : Fits (i.tdiv j) := by
  by_cases hdvd : j ∣ i
  · have hexact : i.fdiv j = i.tdiv j := by rw [Int.fdiv_eq_tdiv, if_pos hdvd, sub_zero]
    rw [← hexact]
    exact fits_fdiv hi hj h
  · have hhalf := two_natAbs_tdiv_le hj hdvd
    unfold Fits least greatest at *
    omega

end Integer

namespace Number

variable {i j : Int}

theorem nonzeroDivisor_int (hj : j ≠ 0) (result : Number) :
    nonzeroDivisor (int j) result = .ok result := by
  simp [nonzeroDivisor, isZero, hj]

theorem binary_floorDiv (hj : j ≠ 0) :
    binary .floorDiv (int i) (int j) =
      .ok (ofExact (i.fdiv j) (floor (ofInt i / ofInt j))) := by
  show nonzeroDivisor (int j) (promote _ _ (int i) (int j)) = _
  rw [nonzeroDivisor_int hj, promote_int _ rfl]

theorem binary_mod_of_fits (hj : j ≠ 0) (h : Integer.Fits (i.tdiv j)) :
    binary .mod (int i) (int j) = .ok (int (i.fmod j)) := by
  show nonzeroDivisor (int j) (promote _ _ (int i) (int j)) = _
  rw [nonzeroDivisor_int hj]
  simp only [promote, Integer.checked_of_fits h, Option.map_some]

theorem binary_mod_of_not_fits (hj : j ≠ 0) (h : ¬ Integer.Fits (i.tdiv j)) :
    binary .mod (int i) (int j) = .ok (real (floorMod (ofInt i) (ofInt j))) := by
  show nonzeroDivisor (int j) (promote _ _ (int i) (int j)) = _
  rw [nonzeroDivisor_int hj]
  simp only [promote, Integer.checked, if_neg h, Option.map_none]

end Number

namespace Expression

open Integer

variable {ctx : ScanContext} {left right : Expression} {i j : Int}

/-- Division and remainder of integers obey the law of floored division, and no step on the way
overflows, except for the least word and -1: the steps end without an integer, and the operations
are done on reals. -/
theorem evaluate_floored (hi : Fits i) (hj : Fits j) (hzero : j ≠ 0)
    (hleft : left.evaluate ctx = .ok (.int i)) (hright : right.evaluate ctx = .ok (.int j)) :
    (¬ (i = least ∧ j = -1) → ∃ q r, Floored i j q r ∧
      (binary .floorDiv left right).evaluate ctx = .ok (.int q) ∧
      (binary .mod left right).evaluate ctx = .ok (.int r) ∧
      floorDivGuarded i j = .ok (some q) ∧ floorModGuarded i j = .ok (some r)) ∧
    (i = least ∧ j = -1 →
      (binary .floorDiv left right).evaluate ctx =
        (Number.real (Binary.floor (ofInt i / ofInt j))).toValue ∧
      (binary .mod left right).evaluate ctx =
        (Number.real (Number.floorMod (ofInt i) (ofInt j))).toValue ∧
      floorDivGuarded i j = .ok none ∧ floorModGuarded i j = .ok none) := by
  rw [evaluate_binary .floorDiv hleft hright, evaluate_binary .mod hleft hright,
    Number.binary_floorDiv hzero, floorDivGuarded_eq hi hzero, floorModGuarded_eq hj hzero]
  constructor
  · intro hpair
    have hquotient := fits_fdiv hi hzero hpair
    have htruncated := fits_tdiv hi hzero hpair
    refine ⟨i.fdiv j, i.fmod j, floored_fdiv i hzero, ?_, ?_, ?_, ?_⟩
    · rw [Number.ofExact_of_fits hquotient]
      rfl
    · rw [Number.binary_mod_of_fits hzero htruncated]
      rfl
    · rw [checked_of_fits hquotient]
    · rw [checked_of_fits htruncated]
      rfl
  · rintro ⟨rfl, rfl⟩
    have hquotient : ¬ Fits (least.fdiv (-1)) := by decide
    have htruncated : ¬ Fits (least.tdiv (-1)) := by decide
    refine ⟨?_, ?_, ?_, ?_⟩
    · rw [Number.ofExact_of_not_fits hquotient]
      rfl
    · rw [Number.binary_mod_of_not_fits hzero htruncated]
      rfl
    · rw [checked, if_neg hquotient]
    · rw [checked, if_neg htruncated]
      rfl

/-- The least word and its remainder by 3. -/
theorem evaluate_floored_sample :
    Fits least ∧ Fits 3 ∧ (3 : Int) ≠ 0 ∧
      (literal (.int least)).evaluate Sample.blank = .ok (.int least) ∧
      (literal (.int 3)).evaluate Sample.blank = .ok (.int 3) ∧
      ∃ q r, Floored least 3 q r ∧
        (binary .mod (.literal (.int least)) (.literal (.int 3))).evaluate Sample.blank =
          .ok (.int r) := by
  have hleast : Fits least := by decide
  have hthree : Fits 3 ∧ (3 : Int) ≠ 0 := by decide
  have hleft : (literal (.int least)).evaluate Sample.blank = .ok (.int least) := rfl
  have hright : (literal (.int 3)).evaluate Sample.blank = .ok (.int 3) := rfl
  have h := evaluate_floored hleast hthree.1 hthree.2 hleft hright
  obtain ⟨q, r, hlaw, -, hr, -, -⟩ := h.1 (by decide)
  exact ⟨hleast, hthree.1, hthree.2, hleft, hright, q, r, hlaw, hr⟩

/-- The remainder of the least word by -1 is no integer. -/
theorem exists_remainder_on_reals :
    ¬ ∀ (ctx : ScanContext) (left right : Expression) (i j : Int), Fits i → Fits j → j ≠ 0 →
      left.evaluate ctx = .ok (.int i) → right.evaluate ctx = .ok (.int j) →
      ∃ r, (binary .mod left right).evaluate ctx = .ok (.int r) := by
  intro h
  obtain ⟨r, hr⟩ := h Sample.blank (literal (.int least)) (literal (.int (-1))) least (-1)
    (by decide) (by decide) (by decide) rfl rfl
  rw [evaluate_binary .mod rfl rfl, Number.binary_mod_of_not_fits (by decide) (by decide)] at hr
  obtain ⟨a, hreal, hvalue⟩ := bind_eq_ok.mp hr
  cases hreal
  simp only [Number.toValue] at hvalue
  split at hvalue <;> cases hvalue

end Expression

end LadderLogic
