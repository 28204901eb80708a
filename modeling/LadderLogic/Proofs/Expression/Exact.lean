import LadderLogic.Proofs.Expression.Finite

/-!
Integer results are exact for as long as they fit. Sums, differences, products, powers, negations
and magnitudes of integers are the exact integers while these are in the 64-bit range, and become
reals only beyond it. Powers have a second limit: an exponent that is no 32-bit word is always
raised to on reals, also where the base is of magnitude at most one and the power would fit.
-/

set_option autoImplicit false

namespace LadderLogic

open Binary

namespace Integer

variable {base : Int} {exponent : ℕ}

/-- A base of magnitude at least two leaves the range before its 64th power. -/
theorem not_fits_pow (hbase : 2 ≤ base.natAbs) (hexponent : 64 ≤ exponent) :
    ¬ Fits (base ^ exponent) := by
  have hpow : 18446744073709551616 ≤ (base ^ exponent).natAbs := by
    rw [Int.natAbs_pow]
    calc 2 ^ 64 ≤ 2 ^ exponent := Nat.pow_le_pow_right (by decide) hexponent
      _ ≤ base.natAbs ^ exponent := Nat.pow_le_pow_left hbase exponent
  unfold Fits least greatest
  omega

/-- Powers of bases of magnitude at most one depend on the parity of the exponent. -/
theorem pow_of_small (hbase : base.natAbs ≤ 1) (exponent : ℕ) :
    base ^ exponent =
      if exponent = 0 then 1 else if exponent % 2 = 0 then base * base else base := by
  have hcases : base = -1 ∨ base = 0 ∨ base = 1 := by omega
  by_cases hzero : exponent = 0
  · simp [hzero]
  · rw [if_neg hzero]
    rcases Nat.even_or_odd exponent with heven | hodd
    · rw [if_pos (Nat.even_iff.mp heven)]
      rcases hcases with rfl | rfl | rfl
      · simp [heven.neg_one_pow]
      · simp [hzero]
      · simp
    · rw [if_neg (by simp [Nat.odd_iff.mp hodd])]
      rcases hcases with rfl | rfl | rfl
      · simp [hodd.neg_one_pow]
      · simp [hzero]
      · simp

theorem fits_pow_of_small (hbase : base.natAbs ≤ 1) (exponent : ℕ) : Fits (base ^ exponent) := by
  apply fits_of_small
  rw [Int.natAbs_pow]
  exact (pow_le_one' hbase exponent).trans (by decide)

/-- The shortcuts of the checked power do not change its result. -/
theorem checkedPow_eq (base : Int) (exponent : ℕ) :
    checkedPow base exponent = checked (base ^ exponent) := by
  unfold checkedPow
  by_cases hsmall : base.natAbs ≤ 1
  · rw [if_pos hsmall, ← pow_of_small hsmall exponent]
    exact (if_pos (fits_pow_of_small hsmall exponent)).symm
  · rw [if_neg hsmall]
    by_cases hlong : 64 ≤ exponent
    · rw [if_pos hlong]
      exact (if_neg (not_fits_pow (by omega) hlong)).symm
    · rw [if_neg hlong]
      rfl

end Integer

/-- The integer that an operation gives on integers, if it is one that never divides and never
looks at bits. A power has none for a negative exponent. -/
def BinaryOp.result? : BinaryOp → Int → Int → Option Int
  | add, i, j => some (i + j)
  | sub, i, j => some (i - j)
  | mul, i, j => some (i * j)
  | pow, i, j => if 0 ≤ j then some (i ^ j.toNat) else none
  | _, _, _ => none

def UnaryOp.result? : UnaryOp → Int → Option Int
  | neg, i => some (-i)
  | abs, i => some |i|
  | _, _ => none

/-- The same operation on reals. -/
def BinaryOp.onReals : BinaryOp → Float → Float → Float
  | sub => (· - ·)
  | mul => (· * ·)
  | pow => Float.pow
  | _ => (· + ·)

def UnaryOp.onReal : UnaryOp → Float → Float
  | neg => (-·)
  | _ => Float.abs

namespace Number

variable {i j r : Int}

/-- The integer if it fits, and otherwise the real. -/
def ofExact (r : Int) (x : Float) : Number := ((Integer.checked r).map int).getD (real x)

theorem ofExact_of_fits (h : Integer.Fits r) (x : Float) : ofExact r x = int r := by
  simp [ofExact, Integer.checked, h]

theorem ofExact_of_not_fits (h : ¬ Integer.Fits r) (x : Float) : ofExact r x = real x := by
  simp [ofExact, Integer.checked, h]

theorem promote_int {intOp : Int → Int → Option Int} (realOp : Float → Float → Float)
    (h : intOp i j = Integer.checked r) :
    promote intOp realOp (int i) (int j) = ofExact r (realOp (ofInt i) (ofInt j)) := by
  simp only [promote, h, ofExact]
  cases Integer.checked r <;> rfl

/-- Powers with an exponent of 32 bits. -/
theorem power_of_lt (hj : 0 ≤ j) (h : j < 4294967296) :
    power (int i) (int j) = .ok (ofExact (i ^ j.toNat) (Float.pow (ofInt i) (ofInt j))) := by
  have hsize : j < UInt32.size := h
  simp only [power, if_pos hj, if_pos hsize, Integer.checkedPow_eq, ofExact]
  cases Integer.checked (i ^ j.toNat) <;> rfl

/-- Powers with a longer exponent are reals. -/
theorem power_of_ge (h : 4294967296 ≤ j) :
    power (int i) (int j) = .ok (real (Float.pow (ofInt i) (ofInt j))) := by
  have hsize : ¬ j < UInt32.size := not_lt.mpr h
  have hj : 0 ≤ j := by omega
  simp only [power, if_pos hj, if_neg hsize]

/-- Only an exponent of more than 32 bits keeps a power from its exact result, and only a base of
magnitude at most one has such a result. -/
theorem binary_exact {op : BinaryOp} (hr : op.result? i j = some r)
    (hpow : op = .pow → j < 4294967296 ∨ 2 ≤ |i|) :
    binary op (int i) (int j) = .ok (ofExact r (op.onReals (ofInt i) (ofInt j))) := by
  cases op with
  | add | sub | mul =>
    cases hr
    exact congrArg Except.ok (promote_int _ rfl)
  | pow =>
    simp only [BinaryOp.result?, Option.ite_none_right_eq_some, Option.some.injEq] at hr
    obtain ⟨hj, rfl⟩ := hr
    by_cases hlong : j < 4294967296
    · exact power_of_lt hj hlong
    · have hbase : 2 ≤ i.natAbs := by
        have habs := (hpow rfl).resolve_left hlong
        rw [Int.abs_eq_natAbs] at habs
        omega
      rw [ofExact_of_not_fits (Integer.not_fits_pow hbase (by omega))]
      exact power_of_ge (not_lt.mp hlong)
  | _ => cases hr

theorem unary_exact {op : UnaryOp} (hr : op.result? i = some r) :
    unary op (int i) = .ok (ofExact r (op.onReal (ofInt i))) := by
  cases op with
  | neg =>
    cases hr
    rfl
  | abs =>
    cases hr
    rw [Int.abs_eq_natAbs]
    rfl
  | _ => cases hr

end Number

namespace Expression

variable {ctx : ScanContext} {left right operand : Expression} {i j r : Int}

/-- An expression with the exact result `r` has it while it fits, and is computed on reals, with the
result `x`, beyond. So only a result that does not fit comes out as a real. -/
structure StaysIntegral (ctx : ScanContext) (e : Expression) (r : Int) (x : Float) : Prop where
  exact : Integer.Fits r → e.evaluate ctx = .ok (.int r)
  promoted : ¬ Integer.Fits r → e.evaluate ctx = (Number.real x).toValue
  of_real : ∀ y, e.evaluate ctx = .ok (.real y) → ¬ Integer.Fits r

theorem StaysIntegral.of_evaluate {e : Expression} {x : Float}
    (h : e.evaluate ctx = (Number.ofExact r x).toValue) : StaysIntegral ctx e r x := by
  have hexact : Integer.Fits r → e.evaluate ctx = .ok (.int r) := by
    intro hfits
    rw [h, Number.ofExact_of_fits hfits]
    rfl
  refine ⟨hexact, ?_, ?_⟩
  · intro hfits
    rw [h, Number.ofExact_of_not_fits hfits]
  · intro y hy hfits
    rw [hexact hfits] at hy
    cases hy

theorem evaluate_binary (op : BinaryOp) (hleft : left.evaluate ctx = .ok (.int i))
    (hright : right.evaluate ctx = .ok (.int j)) :
    (binary op left right).evaluate ctx =
      Number.binary op (.int i) (.int j) >>= Number.toValue := by
  simp only [evaluate, hleft, hright]
  rfl

theorem evaluate_unary (op : UnaryOp) (hoperand : operand.evaluate ctx = .ok (.int i)) :
    (unary op operand).evaluate ctx = Number.unary op (.int i) >>= Number.toValue := by
  simp only [evaluate, hoperand]
  rfl

/-- Sums, differences, products, powers, negations and magnitudes stay integers for as long as they
fit, except that an exponent of more than 32 bits is always raised to on reals. -/
theorem evaluate_integral (hleft : left.evaluate ctx = .ok (.int i))
    (hright : right.evaluate ctx = .ok (.int j)) :
    (∀ op r, BinaryOp.result? op i j = some r → (op = .pow → j < 2 ^ 32 ∨ 2 ≤ |i|) →
      StaysIntegral ctx (binary op left right) r (op.onReals (ofInt i) (ofInt j))) ∧
    (∀ op r, UnaryOp.result? op i = some r →
      StaysIntegral ctx (unary op left) r (op.onReal (ofInt i))) ∧
    (2 ^ 32 ≤ j →
      (binary .pow left right).evaluate ctx =
        (Number.real (Float.pow (ofInt i) (ofInt j))).toValue) := by
  refine ⟨?_, ?_, ?_⟩
  · intro op r hr hpow
    apply StaysIntegral.of_evaluate
    rw [evaluate_binary op hleft hright, Number.binary_exact hr hpow]
    rfl
  · intro op r hr
    apply StaysIntegral.of_evaluate
    rw [evaluate_unary op hleft, Number.unary_exact hr]
    rfl
  · intro hlong
    rw [evaluate_binary .pow hleft hright]
    show Number.power (.int i) (.int j) >>= Number.toValue = _
    rw [Number.power_of_ge hlong]
    rfl

/-- The greatest power of -2 in the range, and the first one beyond it. -/
theorem evaluate_integral_sample :
    (literal (.int (-2))).evaluate Sample.blank = .ok (.int (-2)) ∧
      (literal (.int 63)).evaluate Sample.blank = .ok (.int 63) ∧
      (binary .pow (.literal (.int (-2))) (.literal (.int 63))).evaluate Sample.blank =
        .ok (.int Integer.least) := by
  have hleft : (literal (.int (-2))).evaluate Sample.blank = .ok (.int (-2)) := rfl
  have hright : (literal (.int 63)).evaluate Sample.blank = .ok (.int 63) := rfl
  have h := evaluate_integral hleft hright
  exact ⟨hleft, hright, (h.1 .pow Integer.least rfl fun _ => .inl (by decide)).exact (by decide)⟩

/-- One to the power of `2 ^ 32` is no integer. -/
theorem exists_power_on_reals :
    ¬ ∀ (ctx : ScanContext) (left right : Expression) (i j : Int), Integer.Fits i →
      Integer.Fits j → left.evaluate ctx = .ok (.int i) → right.evaluate ctx = .ok (.int j) →
      0 ≤ j → Integer.Fits (i ^ j.toNat) →
      (binary .pow left right).evaluate ctx = .ok (.int (i ^ j.toNat)) := by
  intro h
  have hone : Integer.Fits ((1 : Int) ^ (4294967296 : Int).toNat) := by
    rw [one_pow]
    decide
  have hint := h Sample.blank (literal (.int 1)) (literal (.int 4294967296)) 1 4294967296
    (by decide) (by decide) rfl rfl (by decide) hone
  rw [evaluate_binary .pow rfl rfl] at hint
  obtain ⟨a, ha, hvalue⟩ := bind_eq_ok.mp hint
  have hreal : Number.power (.int 1) (.int 4294967296) = .ok a := ha
  rw [Number.power_of_ge (by decide)] at hreal
  cases hreal
  simp only [Number.toValue] at hvalue
  split at hvalue <;> cases hvalue

end Expression

end LadderLogic
