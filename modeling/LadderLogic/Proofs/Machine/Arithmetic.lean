import LadderLogic.Proofs.Expression.Integers

/-!
Arithmetic in guarded steps. A machine with 64-bit words cannot hold every exact result: a guarded
step stops where the result leaves the words, where a divisor is zero, where a shift is wider than
the word or where a list has no such element. Floored division, remainders and shifts are computed
in such steps from what the machine offers, and no expression over cells in range comes to a stop.
-/

set_option autoImplicit false

namespace LadderLogic

inductive Accident where
  | overflow (exact : Int)
  | zeroDivisor
  | shiftAmount (places : Int)
  | index (place : Int)

/-- A computation on a machine that stops at an accident. -/
abbrev Machine := Except Accident

namespace Machine

def word (exact : Int) : Machine Int :=
  if Integer.Fits exact then .ok exact else .error (.overflow exact)

/-- An unsigned word of so many bits. -/
def unsigned (bits : Nat) (exact : Int) : Machine Nat :=
  if 0 ≤ exact ∧ exact < 2 ^ bits then .ok exact.toNat else .error (.overflow exact)

/-- The remainder that belongs to the truncated quotient. There is none if the quotient is none. -/
def remainder (i j : Int) : Machine Int := do
  if j = 0 then throw .zeroDivisor
  let _ ← word (i.tdiv j)
  return i.tmod j

def shiftAmount (places : Int) (width : Nat) : Machine Nat :=
  if 0 ≤ places ∧ places < width then .ok places.toNat else .error (.shiftAmount places)

def element {α : Type} (xs : List α) (place : Int) : Machine α :=
  if place < 0 then .error (.index place)
  else match xs[place.toNat]? with
    | some x => .ok x
    | none => .error (.index place)

/-- Goes on with a result unless there is an error in its place. -/
def onResult {ε α β : Type} (x : Except ε α) (next : α → Machine (Except ε β)) :
    Machine (Except ε β) :=
  match x with
  | .error e => .ok (.error e)
  | .ok a => next a

theorem word_of_fits {i : Int} (h : Integer.Fits i) : word i = .ok i := if_pos h

theorem unsigned_of_lt {bits n : Nat} (h : n < 2 ^ bits) : unsigned bits n = .ok n :=
  if_pos ⟨Int.natCast_nonneg n, by exact_mod_cast h⟩

theorem onResult_eq {ε α β : Type} {next : α → Machine (Except ε β)} {f : α → Except ε β}
    {x : Except ε α} (h : ∀ a, x = .ok a → next a = .ok (f a)) :
    onResult x next = .ok (x >>= f) := by
  cases x with
  | error e => rfl
  | ok a => exact h a rfl

theorem remainder_of_fits {i j : Int} (hj : j ≠ 0) (h : Integer.Fits (i.tdiv j)) :
    remainder i j = .ok (i.tmod j) := by
  unfold remainder
  rw [if_neg hj, word_of_fits h]
  rfl

theorem shiftAmount_of_lt {places : Int} {width : Nat} (h0 : 0 ≤ places) (h : places < width) :
    shiftAmount places width = .ok places.toNat := if_pos ⟨h0, h⟩

theorem element_of_getElem? {α : Type} {xs : List α} {place : Int} {x : α} (h0 : 0 ≤ place)
    (h : xs[place.toNat]? = some x) : element xs place = .ok x := by
  unfold element
  rw [if_neg (not_lt.mpr h0), h]

end Machine

open Machine

namespace Integer

/-- The truncated quotient, if there is one. -/
def quotient? (i j : Int) : Option Int := if j = 0 then none else checked (i.tdiv j)

/-- Floored division from the truncated one: the quotient is one less if there is a remainder and
the signs differ. -/
def floorDivGuarded (i j : Int) : Machine (Option Int) :=
  match quotient? i j with
  | none => .ok none
  | some q => do
    let r ← remainder i j
    if r ≠ 0 ∧ decide (i < 0) ≠ decide (j < 0) then return some (← word (q - 1))
    return some q

/-- The floored remainder from the truncated one, by adding the divisor if the signs differ. -/
def floorModGuarded (i j : Int) : Machine (Option Int) :=
  match quotient? i j with
  | none => .ok none
  | some _ => do
    let r := i.tmod j
    if r ≠ 0 ∧ decide (r < 0) ≠ decide (j < 0) then return some (← word (r + j))
    return some r

theorem quotient?_eq {i j : Int} (hj : j ≠ 0) : quotient? i j = checked (i.tdiv j) := if_neg hj

theorem fits_of_checked {i r : Int} (h : checked i = some r) : Fits i := by
  unfold checked at h
  split_ifs at h with hi
  exact hi

theorem checked_of_fits {i : Int} (h : Fits i) : checked i = some i := if_pos h

/-- A quotient with a remainder has at most half the magnitude of the dividend. -/
theorem two_natAbs_tdiv_le {i j : Int} (hj : j ≠ 0) (h : ¬j ∣ i) :
    2 * (i.tdiv j).natAbs ≤ i.natAbs := by
  have hone : j.natAbs ≠ 1 := fun hone => h (Int.natAbs_dvd.mp (by rw [hone]; exact one_dvd i))
  have htwo : 2 ≤ j.natAbs := by omega
  rw [Int.natAbs_tdiv]
  calc 2 * (i.natAbs / j.natAbs) ≤ j.natAbs * (i.natAbs / j.natAbs) :=
        Nat.mul_le_mul_right _ htwo
    _ ≤ i.natAbs := Nat.mul_div_le _ _

theorem tmod_ne_zero_iff {i j : Int} : i.tmod j ≠ 0 ↔ ¬j ∣ i :=
  not_congr Int.dvd_iff_tmod_eq_zero.symm

theorem floorDivGuarded_eq {i j : Int} (hi : Fits i) (hj : j ≠ 0) :
    floorDivGuarded i j = .ok (checked (i.fdiv j)) := by
  unfold floorDivGuarded
  rw [quotient?_eq hj]
  by_cases hdvd : j ∣ i
  · -- Without a remainder the floored quotient is the truncated one.
    have hexact : i.fdiv j = i.tdiv j := by rw [Int.fdiv_eq_tdiv, if_pos hdvd, sub_zero]
    have hzero : i.tmod j = 0 := Int.tmod_eq_zero_of_dvd hdvd
    rw [hexact]
    cases hq : checked (i.tdiv j) with
    | none => rfl
    | some q =>
      dsimp only
      rw [remainder_of_fits hj (fits_of_checked hq), hzero]
      rfl
  · have hhalf := two_natAbs_tdiv_le hj hdvd
    have hrem := tmod_ne_zero_iff.mpr hdvd
    obtain ⟨hlow, hhigh⟩ := hi
    unfold least at hlow
    unfold greatest at hhigh
    have hfits : Fits (i.tdiv j) := by
      unfold Fits least greatest
      omega
    have hless : Fits (i.tdiv j - 1) := by
      unfold Fits least greatest
      omega
    rw [checked_of_fits hfits]
    dsimp only
    rw [remainder_of_fits hj hfits]
    change (if _ then _ else _ : Machine (Option Int)) = _
    rw [Int.fdiv_eq_tdiv, if_neg hdvd]
    by_cases hineg : i < 0 <;> by_cases hjneg : j < 0
    · rw [if_neg (by simp [hineg, hjneg]), if_neg (by omega), if_neg (by omega),
        Int.sign_eq_neg_one_of_neg hjneg]
      simp only [Int.reduceNeg, Int.reduceAdd, sub_zero, checked_of_fits hfits]
      rfl
    · rw [if_pos (by simp [hrem, hineg, hjneg]), if_neg (by omega), if_pos (by omega),
        Int.sign_eq_one_of_pos (by omega), word_of_fits hless, checked_of_fits hless]
      rfl
    · rw [if_pos (by simp [hrem, hineg, hjneg]), if_pos (by omega), if_neg (by omega),
        word_of_fits hless, checked_of_fits hless]
      rfl
    · rw [if_neg (by simp [hineg, hjneg]), if_pos (by omega), if_pos (by omega), sub_zero,
        checked_of_fits hfits]
      rfl

theorem floorModGuarded_eq {i j : Int} (hj : Fits j) (hzero : j ≠ 0) :
    floorModGuarded i j = .ok ((checked (i.tdiv j)).map fun _ => i.fmod j) := by
  unfold floorModGuarded
  rw [quotient?_eq hzero]
  cases checked (i.tdiv j) with
  | none => rfl
  | some q =>
    have hsign : (i.tmod j).sign = if j ∣ i then 0 else i.sign := Int.sign_tmod i j
    change (if _ then _ else _ : Machine (Option Int)) = .ok (some (i.fmod j))
    by_cases hdvd : j ∣ i
    · rw [if_neg (by simp [Int.tmod_eq_zero_of_dvd hdvd]), Int.fmod_eq_tmod, if_pos hdvd, add_zero]
      rfl
    · have hrem := tmod_ne_zero_iff.mpr hdvd
      have hlt : (i.tmod j).natAbs < j.natAbs := by
        rw [Int.natAbs_tmod]
        exact Nat.mod_lt _ (Int.natAbs_pos.mpr hzero)
      rw [if_neg hdvd] at hsign
      have hsum : i.tmod j < 0 ∧ 0 < j ∨ 0 < i.tmod j ∧ j < 0 → Fits (i.tmod j + j) := by
        obtain ⟨hlow, hhigh⟩ := hj
        unfold least at hlow
        unfold greatest at hhigh
        unfold Fits least greatest
        omega
      rw [Int.fmod_eq_tmod, if_neg hdvd]
      rcases lt_or_ge i 0 with hi | hi
      · have hneg : i.tmod j < 0 :=
          Int.sign_eq_neg_one_iff_neg.mp (by rw [hsign, Int.sign_eq_neg_one_of_neg hi])
        rw [if_neg (not_le.mpr hi)]
        by_cases hjneg : j < 0
        · rw [if_neg (by simp [hneg, hjneg]), if_neg (by omega), show j.toNat = 0 by omega,
            Nat.cast_zero, mul_zero, add_zero]
          rfl
        · rw [if_pos (by simp [hneg, hjneg, hrem]), if_pos (by omega),
            word_of_fits (hsum (.inl ⟨hneg, by omega⟩)), Int.natAbs_of_nonneg (by omega)]
          rfl
      · have hpos : 0 < i.tmod j := lt_of_le_of_ne (Int.tmod_nonneg j hi) hrem.symm
        rw [if_pos hi]
        by_cases hjneg : j < 0
        · rw [if_pos (by simp [hpos.le, hjneg, hrem]), if_neg (by omega),
            word_of_fits (hsum (.inr ⟨hpos, hjneg⟩))]
          rfl
        · rw [if_neg (by simp [hpos.le, hjneg]), if_pos (by omega), add_zero]
          rfl

end Integer

namespace Number

/-- A shift by `n` places in words of a width. There is none by a negative number of places, and by
the width or more it leaves `outside`. -/
def shiftGuarded (width : Nat) (n outside : Int) (inside : Nat → Int) :
    Machine (Except EvalFault Number) := do
  if n < 0 then return .error .domain
  if width ≤ n then return .ok (int outside)
  let places ← shiftAmount n width
  return .ok (int (inside places))

theorem shiftGuarded_eq (width : Nat) (n outside : Int) (inside : Nat → Int) :
    shiftGuarded width n outside inside =
      .ok (if n < 0 then .error .domain
        else .ok (int (if width ≤ n then outside else inside n.toNat))) := by
  unfold shiftGuarded
  by_cases hneg : n < 0
  · rw [if_pos hneg, if_pos hneg]
    rfl
  · rw [if_neg hneg, if_neg hneg]
    by_cases hwide : width ≤ n
    · rw [if_pos hwide, if_pos hwide]
      rfl
    · rw [if_neg hwide, if_neg hwide, shiftAmount_of_lt (by omega) (by omega)]
      rfl

def shiftLeftGuarded (i n : Int) : Machine (Except EvalFault Number) :=
  shiftGuarded 64 n 0 fun places => Integer.wrap (i * (1 <<< places : Nat))

def shiftRightGuarded (i n : Int) : Machine (Except EvalFault Number) :=
  shiftGuarded 64 n (if i < 0 then -1 else 0) (i >>> ·)

/-- Shifts of a 16-bit word; a rotation takes its amount modulo the width and needs no guard. -/
def wordOnGuarded (fn : WordFn) (i n : Int) : Machine (Except EvalFault Number) :=
  let v := (i % 65536).toNat
  match fn with
  | .shiftLeft => shiftGuarded 16 n 0 fun places => ((v <<< places) % 65536 : Nat)
  | .shiftRight => shiftGuarded 16 n 0 fun places => (v >>> places : Nat)
  | .rotateLeft => .ok (.ok (int (turnLeft v n)))
  | .rotateRight => .ok (.ok (int (turnLeft v (-n))))

theorem wordOnGuarded_eq (fn : WordFn) (i n : Int) :
    wordOnGuarded fn i n = .ok (wordOn fn i n) := by
  cases fn with
  | rotateLeft => rfl
  | rotateRight => rfl
  | shiftLeft | shiftRight =>
    simp only [wordOnGuarded, wordOn, shiftGuarded_eq, Nat.cast_ite, Nat.cast_zero, Nat.cast_ofNat]

def promoteGuarded (intOp : Int → Int → Machine (Option Int)) (realOp : Float → Float → Float)
    (a b : Number) : Machine Number :=
  match a, b with
  | int i, int j => do
    match ← intOp i j with
    | some r => return int r
    | none => return real (realOp (Binary.ofInt i) (Binary.ofInt j))
  | _, _ => .ok (real (realOp a.toReal b.toReal))

theorem promoteGuarded_eq {guarded : Int → Int → Machine (Option Int)}
    {intOp : Int → Int → Option Int} {a b : Number} (realOp : Float → Float → Float)
    (h : ∀ i j, a = int i → b = int j → guarded i j = .ok (intOp i j)) :
    promoteGuarded guarded realOp a b = .ok (promote intOp realOp a b) := by
  cases a with
  | real x => rfl
  | int i =>
    cases b with
    | real y => rfl
    | int j =>
      simp only [promoteGuarded, promote, h i j rfl rfl]
      cases intOp i j <;> rfl

def onIntegersGuarded (op : Int → Int → Machine (Except EvalFault Number)) (a b : Number) :
    Machine (Except EvalFault Number) :=
  match a.toInt, b.toInt with
  | .ok i, .ok j => op i j
  | .error e, _ => .ok (.error e)
  | .ok _, .error e => .ok (.error e)

theorem onIntegersGuarded_eq {guarded : Int → Int → Machine (Except EvalFault Number)}
    {op : Int → Int → Except EvalFault Number} (h : ∀ i j, guarded i j = .ok (op i j))
    (a b : Number) : onIntegersGuarded guarded a b = .ok (onIntegers op a b) := by
  unfold onIntegersGuarded onIntegers
  cases a.toInt with
  | error e => rfl
  | ok i =>
    cases b.toInt with
    | error e => rfl
    | ok j => exact h i j

/-- Sums, differences, products and powers ask the machine whether their result fits, division is done
on reals, and bitwise operations always have a result. Floored division, its remainder and the shifts
are left. -/
def binaryGuarded (op : BinaryOp) (a b : Number) : Machine (Except EvalFault Number) :=
  match op with
  | .floorDiv => do
    if b.isZero then return .error .divisionByZero
    return .ok (← promoteGuarded Integer.floorDivGuarded (fun x y => Binary.floor (x / y)) a b)
  | .mod => do
    if b.isZero then return .error .divisionByZero
    return .ok (← promoteGuarded Integer.floorModGuarded floorMod a b)
  | .shl => onIntegersGuarded shiftLeftGuarded a b
  | .shr => onIntegersGuarded shiftRightGuarded a b
  | .add | .sub | .mul | .div | .pow | .bitAnd | .bitOr | .bitXor => .ok (binary op a b)

theorem ne_zero_of_isZero {j : Int} (h : ¬(int j).isZero = true) : j ≠ 0 := by
  simpa [isZero] using h

theorem binaryGuarded_eq {a b : Number} (ha : a.Fits) (hb : b.Fits) (op : BinaryOp) :
    binaryGuarded op a b = .ok (binary op a b) := by
  cases op with
  | floorDiv =>
    simp only [binaryGuarded, binary, nonzeroDivisor]
    by_cases hzero : b.isZero = true
    · rw [if_pos hzero, if_pos hzero]
      rfl
    · have hdivide : ∀ i j, a = int i → b = int j →
          Integer.floorDivGuarded i j = .ok (Integer.checked (i.fdiv j)) := by
        rintro i j rfl rfl
        exact Integer.floorDivGuarded_eq ha (ne_zero_of_isZero hzero)
      rw [if_neg hzero, if_neg hzero, promoteGuarded_eq _ hdivide]
      rfl
  | mod =>
    simp only [binaryGuarded, binary, nonzeroDivisor]
    by_cases hzero : b.isZero = true
    · rw [if_pos hzero, if_pos hzero]
      rfl
    · have hmod : ∀ i j, a = int i → b = int j → Integer.floorModGuarded i j =
          .ok ((Integer.checked (i.tdiv j)).map fun _ => i.fmod j) := by
        rintro i j rfl rfl
        exact Integer.floorModGuarded_eq hb (ne_zero_of_isZero hzero)
      rw [if_neg hzero, if_neg hzero, promoteGuarded_eq _ hmod]
      rfl
  | shl => exact onIntegersGuarded_eq (fun i n => shiftGuarded_eq 64 n _ _) a b
  | shr => exact onIntegersGuarded_eq (fun i n => shiftGuarded_eq 64 n _ _) a b
  | add | sub | mul | div | pow | bitAnd | bitOr | bitXor => rfl

def wordGuarded (fn : WordFn) (value amount : Number) : Machine (Except EvalFault Number) :=
  onIntegersGuarded (wordOnGuarded fn) value amount

theorem wordGuarded_eq (fn : WordFn) (value amount : Number) :
    wordGuarded fn value amount = .ok (word fn value amount) :=
  onIntegersGuarded_eq (wordOnGuarded_eq fn) value amount

end Number

namespace Expression

def evaluateGuarded (ctx : ScanContext) : Expression → Machine (Except EvalFault Value)
  | literal v => .ok (.ok v)
  | tag t => .ok (.ok (ctx.read t))
  | indirect b pointer => do
    match b.pointed (← pointer.evaluateGuarded ctx) with
    | some t => return .ok (ctx.read t)
    | none => return .error .address
  | binary op left right => do
    onResult (← left.evaluateGuarded ctx) fun x =>
      onResult (Number.ofValue x) fun a => do
        onResult (← right.evaluateGuarded ctx) fun y =>
          onResult (Number.ofValue y) fun b => do
            onResult (← Number.binaryGuarded op a b) fun r => .ok r.toValue
  | unary op operand => do
    onResult (← operand.evaluateGuarded ctx) fun x =>
      onResult (Number.ofValue x) fun a =>
        onResult (Number.unary op a) fun r => .ok r.toValue
  | math fn operand => do
    onResult (← operand.evaluateGuarded ctx) fun x =>
      onResult (Number.ofValue x) fun a =>
        onResult (Number.math fn a) fun r => .ok r.toValue
  | word fn value amount => do
    onResult (← value.evaluateGuarded ctx) fun x =>
      onResult (Number.ofValue x) fun a => do
        onResult (← amount.evaluateGuarded ctx) fun y =>
          onResult (Number.ofValue y) fun b => do
            onResult (← Number.wordGuarded fn a b) fun r => .ok r.toValue

/-- Induction over the expression: what its parts evaluate to is in range, so the guards let the
operations on them pass. -/
theorem evaluateGuarded_eq {ctx : ScanContext} {e : Expression} (hlit : e.LiteralsFit)
    (hread : ∀ t, e.Mentions t → (ctx.read t).Fits) :
    e.evaluateGuarded ctx = .ok (e.evaluate ctx) := by
  induction e with
  | literal v => rfl
  | tag t => rfl
  | indirect b pointer ih =>
    simp only [evaluateGuarded, evaluate, ih hlit fun t ht => hread t (.inr ht)]
    change (match b.pointed (pointer.evaluate ctx) with
      | some t => _
      | none => _ : Machine (Except EvalFault Value)) = _
    cases b.pointed (pointer.evaluate ctx) <;> rfl
  | binary op left right ihl ihr =>
    have hl : ∀ t, left.Mentions t → (ctx.read t).Fits := fun t ht => hread t (.inl ht)
    have hr : ∀ t, right.Mentions t → (ctx.read t).Fits := fun t ht => hread t (.inr ht)
    rw [evaluateGuarded, ihl hlit.1 hl, ihr hlit.2 hr]
    refine onResult_eq fun x hx => onResult_eq fun a ha => onResult_eq fun y hy =>
      onResult_eq fun b hb => ?_
    have hafits := Number.ofValue_fits (evaluate_fits hlit.1 hl hx) ha
    have hbfits := Number.ofValue_fits (evaluate_fits hlit.2 hr hy) hb
    rw [Number.binaryGuarded_eq hafits hbfits]
    exact onResult_eq fun r _ => rfl
  | unary op operand ih =>
    rw [evaluateGuarded, ih hlit hread]
    exact onResult_eq fun x _ => onResult_eq fun a _ => onResult_eq fun r _ => rfl
  | math fn operand ih =>
    rw [evaluateGuarded, ih hlit hread]
    exact onResult_eq fun x _ => onResult_eq fun a _ => onResult_eq fun r _ => rfl
  | word fn value amount ihv iha =>
    rw [evaluateGuarded, ihv hlit.1 fun t ht => hread t (.inl ht),
      iha hlit.2 fun t ht => hread t (.inr ht)]
    refine onResult_eq fun x _ => onResult_eq fun a _ => onResult_eq fun y _ =>
      onResult_eq fun b _ => ?_
    rw [Number.wordGuarded_eq]
    exact onResult_eq fun r _ => rfl

end Expression

end LadderLogic
