import LadderLogic.Proofs.Scan.Names

/-!
Integers never leave the 64-bit range: neither in arithmetic on numbers nor in an expression whose
literals and cells are in range.
-/

set_option autoImplicit false

namespace LadderLogic

namespace Integer

theorem checked_fits {i r : Int} (h : checked i = some r) : Fits r := by
  unfold checked at h
  split_ifs at h with hi
  cases h
  exact hi

theorem fits_of_small {i : Int} (h : i.natAbs ≤ 4294967296) : Fits i := by
  unfold Fits least greatest
  omega

theorem wrap_fits (i : Int) : Fits (wrap i) := by
  have hlow := Int.le_bmod (x := i) (m := 18446744073709551616) (by decide)
  have hhigh := Int.bmod_lt (x := i) (m := 18446744073709551616) (by decide)
  change -9223372036854775808 ≤ i.bmod 18446744073709551616 ∧
    i.bmod 18446744073709551616 ≤ 9223372036854775807
  omega

theorem saturate_fits (i : Int) : Fits (saturate i) := by
  unfold saturate clamp Fits least greatest
  split_ifs <;> omega

theorem bitwise_fits (op : Int64 → Int64 → Int64) (i j : Int) : Fits (bitwise op i j) := by
  have hlow := Int64.minValue_le_toInt (op (.ofInt i) (.ofInt j))
  have hhigh := Int64.toInt_lt (op (.ofInt i) (.ofInt j))
  have hmin : Int64.minValue.toInt = -9223372036854775808 := by decide
  unfold bitwise Fits least greatest
  omega

theorem checkedPow_fits {base r : Int} {exponent : Nat} (h : checkedPow base exponent = some r) :
    Fits r := by
  unfold checkedPow at h
  split_ifs at h with hsmall hzero heven
  · cases h
    decide
  · cases h
    have hcases : base = -1 ∨ base = 0 ∨ base = 1 := by omega
    rcases hcases with rfl | rfl | rfl <;> decide
  · cases h
    exact fits_of_small (by omega)
  · exact checked_fits h

theorem shiftRight_fits {i : Int} (h : Fits i) (n : Nat) : Fits (i >>> n) := by
  obtain ⟨hlow, hhigh⟩ := h
  rcases le_total i 0 with hi | hi
  · have hdown := Int.le_shiftRight_of_nonpos (s := n) hi
    have hup := Int.shiftRight_le_of_nonpos (s := n) hi
    exact ⟨by omega, by unfold greatest; omega⟩
  · have hdown := Int.le_shiftRight_of_nonneg (s := n) hi
    have hup := Int.shiftRight_le_of_nonneg (s := n) hi
    exact ⟨by unfold least; omega, by omega⟩

/-- A floored remainder lies between zero and the divisor. -/
theorem fmod_fits {j : Int} (h : Fits j) (hj : j ≠ 0) (i : Int) : Fits (i.fmod j) := by
  have hnonneg := Int.emod_nonneg i hj
  have hlt := Int.emod_lt i hj
  rw [Int.fmod_eq_emod]
  unfold Fits least greatest at *
  split_ifs <;> omega

end Integer

/-- An integer of a cell or of a literal is in range. -/
def Value.Fits : Value → Prop
  | .int i => Integer.Fits i
  | _ => True

namespace Number

def Fits : Number → Prop
  | int i => Integer.Fits i
  | real _ => True

theorem ofValue_fits {v : Value} {a : Number} (hv : v.Fits) (h : ofValue v = .ok a) : a.Fits := by
  cases v with
  | bool b =>
    cases h
    cases b <;> exact Integer.fits_of_small (by decide)
  | int i =>
    cases h
    exact hv
  | real x =>
    cases h
    trivial
  | text s => cases h

theorem toValue_fits {a : Number} {v : Value} (ha : a.Fits) (h : a.toValue = .ok v) : v.Fits := by
  cases a with
  | int i =>
    cases h
    exact ha
  | real x =>
    simp only [toValue] at h
    split at h <;> cases h
    trivial

theorem toInt_fits {a : Number} {i : Int} (ha : a.Fits) (h : a.toInt = .ok i) :
    Integer.Fits i := by
  cases a with
  | int j =>
    cases h
    exact ha
  | real x =>
    simp only [toInt] at h
    split at h <;> cases h
    unfold Binary.toInteger
    split
    · decide
    · split <;> decide
    · exact Integer.saturate_fits _

theorem promote_fits {intOp : Int → Int → Option Int} {realOp : Float → Float → Float}
    {a b : Number} (h : ∀ i j r, a = int i → b = int j → intOp i j = some r → Integer.Fits r) :
    (promote intOp realOp a b).Fits := by
  cases a with
  | real x => trivial
  | int i =>
    cases b with
    | real y => trivial
    | int j =>
      simp only [promote]
      split
      case h_1 r hr => exact h i j r rfl rfl hr
      case h_2 => trivial

theorem realPower_fits {a b r : Number}
    (h : (if a.isZero && b.toReal < 0.0 then Except.error EvalFault.divisionByZero
      else
        let x := Float.pow a.toReal b.toReal
        if x.isNaN then .error .domain else .ok (real x)) = .ok r) : r.Fits := by
  split at h
  · cases h
  · dsimp only at h
    split at h <;> cases h
    trivial

theorem power_fits {a b r : Number} (h : power a b = .ok r) : r.Fits := by
  cases a with
  | real x => exact realPower_fits h
  | int i =>
    cases b with
    | real y => exact realPower_fits h
    | int j =>
      simp only [power] at h
      split at h
      case isTrue =>
        split at h
        case h_1 n hn =>
          cases h
          split at hn
          · exact Integer.checkedPow_fits hn
          · cases hn
        case h_2 =>
          cases h
          trivial
      case isFalse => exact realPower_fits h

theorem shiftLeft_fits {i n : Int} {r : Number} (h : shiftLeft i n = .ok r) : r.Fits := by
  unfold shiftLeft at h
  split at h <;> cases h
  split
  · exact Integer.fits_of_small (by decide)
  · exact Integer.wrap_fits _

theorem shiftRight_fits {i n : Int} {r : Number} (hi : Integer.Fits i)
    (h : shiftRight i n = .ok r) : r.Fits := by
  unfold shiftRight at h
  split at h <;> cases h
  split
  · split <;> exact Integer.fits_of_small (by decide)
  · exact Integer.shiftRight_fits hi _

theorem onIntegers_fits {op : Int → Int → Except EvalFault Number} {a b r : Number}
    (ha : a.Fits) (h : ∀ i j, Integer.Fits i → op i j = .ok r → r.Fits)
    (hr : onIntegers op a b = .ok r) : r.Fits := by
  unfold onIntegers at hr
  cases hi : a.toInt with
  | error e =>
    rw [hi] at hr
    cases hr
  | ok i =>
    cases hj : b.toInt with
    | error e =>
      rw [hi, hj] at hr
      cases hr
    | ok j =>
      rw [hi, hj] at hr
      exact h i j (toInt_fits ha hi) hr

theorem nonzeroDivisor_fits {b result r : Number} (h : b.isZero = false → result.Fits)
    (hr : nonzeroDivisor b result = .ok r) : r.Fits := by
  unfold nonzeroDivisor at hr
  split at hr <;> cases hr
  exact h (by simpa using ‹¬ b.isZero = true›)

/-- Arithmetic on numbers in range stays in range. -/
theorem binary_fits {op : BinaryOp} {a b r : Number} (ha : a.Fits) (hb : b.Fits)
    (h : binary op a b = .ok r) : r.Fits := by
  cases op with
  | add | sub | mul =>
    cases h
    exact promote_fits fun i j r _ _ hr => Integer.checked_fits hr
  | div =>
    refine nonzeroDivisor_fits (fun _ => ?_) h
    trivial
  | floorDiv =>
    exact nonzeroDivisor_fits
      (fun _ => promote_fits fun i j r _ _ hr => Integer.checked_fits hr) h
  | mod =>
    refine nonzeroDivisor_fits (fun hzero => promote_fits fun i j r _ hj hr => ?_) h
    subst hj
    obtain ⟨-, -, rfl⟩ := Option.map_eq_some_iff.mp hr
    exact Integer.fmod_fits hb (by simpa [isZero] using hzero) i
  | pow => exact power_fits h
  | bitAnd | bitOr | bitXor =>
    refine onIntegers_fits ha (fun i j _ hr => ?_) h
    cases hr
    exact Integer.bitwise_fits _ _ _
  | shl => exact onIntegers_fits ha (fun i j _ hr => shiftLeft_fits hr) h
  | shr => exact onIntegers_fits ha (fun i j hi hr => shiftRight_fits hi hr) h

theorem unary_fits {op : UnaryOp} {a r : Number} (ha : a.Fits) (h : unary op a = .ok r) :
    r.Fits := by
  cases op with
  | pos =>
    cases h
    exact ha
  | bitNot =>
    simp only [unary] at h
    cases hi : a.toInt with
    | error e =>
      rw [hi] at h
      cases h
    | ok i =>
      rw [hi] at h
      cases h
      obtain ⟨hlow, hhigh⟩ := toInt_fits ha hi
      change Integer.Fits (-i - 1)
      unfold Integer.least at hlow
      unfold Integer.greatest at hhigh
      unfold Integer.Fits Integer.least Integer.greatest
      omega
  | neg | abs =>
    cases a with
    | real x =>
      cases h
      trivial
    | int i =>
      cases h
      unfold Integer.checked
      split
      · assumption
      · trivial

theorem math_fits {fn : MathFn} {a r : Number} (h : math fn a = .ok r) : r.Fits := by
  cases fn <;> simp only [math] at h <;> first
    | (cases h; trivial)
    | (split at h <;> cases h; trivial)

theorem turnLeft_le (v : Nat) (n : Int) (hv : v < 65536) : turnLeft v n ≤ 131072 := by
  have hlow := Nat.mod_lt (v <<< (n % 16).toNat) (y := 65536) (by decide)
  have hhigh : v >>> (16 - (n % 16).toNat) ≤ v := Nat.shiftRight_le _ _
  unfold turnLeft
  dsimp only
  omega

theorem wordOn_fits {fn : WordFn} {i n : Int} {r : Number} (h : wordOn fn i n = .ok r) :
    r.Fits := by
  have hv : (i % 65536).toNat < 65536 := by omega
  cases fn with
  | shiftLeft =>
    simp only [wordOn] at h
    split at h <;> cases h
    refine Integer.fits_of_small ?_
    have hmod := Nat.mod_lt ((i % 65536).toNat <<< n.toNat) (y := 65536) (by decide)
    split <;> omega
  | shiftRight =>
    simp only [wordOn] at h
    split at h <;> cases h
    refine Integer.fits_of_small ?_
    have hle := (Nat.shiftRight_le (i % 65536).toNat n.toNat).trans_lt hv
    generalize (i % 65536).toNat >>> n.toNat = w at hle
    split <;> omega
  | rotateLeft | rotateRight =>
    cases h
    exact Integer.fits_of_small ((turnLeft_le _ _ hv).trans (by decide))

theorem word_fits {fn : WordFn} {a b r : Number} (ha : a.Fits) (h : word fn a b = .ok r) :
    r.Fits :=
  onIntegers_fits ha (fun _ _ _ hr => wordOn_fits hr) h

end Number

namespace Expression

/-- The cells that an expression can read. -/
def Mentions : Expression → Tag → Prop
  | literal _, _ => False
  | tag t, u => u = t
  | indirect b pointer, u => (∃ a, b.contains a = true ∧ u = b.cell a) ∨ pointer.Mentions u
  | binary _ left right, u => left.Mentions u ∨ right.Mentions u
  | unary _ operand, u => operand.Mentions u
  | math _ operand, u => operand.Mentions u
  | word _ value amount, u => value.Mentions u ∨ amount.Mentions u

/-- The integers written in an expression are 64-bit words. -/
def LiteralsFit : Expression → Prop
  | literal v => v.Fits
  | tag _ => True
  | indirect _ pointer => pointer.LiteralsFit
  | binary _ left right => left.LiteralsFit ∧ right.LiteralsFit
  | unary _ operand => operand.LiteralsFit
  | math _ operand => operand.LiteralsFit
  | word _ value amount => value.LiteralsFit ∧ amount.LiteralsFit

/-- An expression over cells in range has no integer value out of range. -/
theorem evaluate_fits {ctx : ScanContext} {e : Expression} {v : Value} (hlit : e.LiteralsFit)
    (hread : ∀ t, e.Mentions t → (ctx.read t).Fits) (h : e.evaluate ctx = .ok v) : v.Fits := by
  induction e generalizing v with
  | literal w =>
    cases h
    exact hlit
  | tag t =>
    cases h
    exact hread t rfl
  | indirect b pointer ih =>
    simp only [evaluate] at h
    split at h <;> cases h
    exact hread _ (.inl (Block.pointed_cell ‹_›))
  | binary op left right ihl ihr =>
    obtain ⟨x, hx, h⟩ := bind_eq_ok.mp h
    obtain ⟨a, ha, h⟩ := bind_eq_ok.mp h
    obtain ⟨y, hy, h⟩ := bind_eq_ok.mp h
    obtain ⟨b, hb, h⟩ := bind_eq_ok.mp h
    obtain ⟨r, hr, h⟩ := bind_eq_ok.mp h
    have hxa := Number.ofValue_fits (ihl hlit.1 (fun t ht => hread t (.inl ht)) hx) ha
    have hyb := Number.ofValue_fits (ihr hlit.2 (fun t ht => hread t (.inr ht)) hy) hb
    exact Number.toValue_fits (Number.binary_fits hxa hyb hr) h
  | unary op operand ih =>
    obtain ⟨x, hx, h⟩ := bind_eq_ok.mp h
    obtain ⟨a, ha, h⟩ := bind_eq_ok.mp h
    obtain ⟨r, hr, h⟩ := bind_eq_ok.mp h
    exact Number.toValue_fits
      (Number.unary_fits (Number.ofValue_fits (ih hlit hread hx) ha) hr) h
  | math fn operand ih =>
    obtain ⟨x, hx, h⟩ := bind_eq_ok.mp h
    obtain ⟨a, ha, h⟩ := bind_eq_ok.mp h
    obtain ⟨r, hr, h⟩ := bind_eq_ok.mp h
    exact Number.toValue_fits (Number.math_fits hr) h
  | word fn value amount ihv iha =>
    obtain ⟨x, hx, h⟩ := bind_eq_ok.mp h
    obtain ⟨a, ha, h⟩ := bind_eq_ok.mp h
    obtain ⟨y, hy, h⟩ := bind_eq_ok.mp h
    obtain ⟨b, hb, h⟩ := bind_eq_ok.mp h
    obtain ⟨r, hr, h⟩ := bind_eq_ok.mp h
    have hxa := Number.ofValue_fits (ihv hlit.1 (fun t ht => hread t (.inl ht)) hx) ha
    exact Number.toValue_fits (Number.word_fits hxa hr) h

end Expression

end LadderLogic
