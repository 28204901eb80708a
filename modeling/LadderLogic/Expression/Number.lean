import LadderLogic.Value

/-!
Arithmetic on numbers. Integers stay integers until a result leaves the 64-bit range, and then the
operation is done on reals. A fault takes the place of a result that does not exist.
-/

set_option autoImplicit false

namespace LadderLogic

open Binary

inductive EvalFault where
  | divisionByZero
  /-- An operation that is undefined for its operands. -/
  | domain
  | nonFinite
  /-- A pointer outside its block. -/
  | address
  deriving DecidableEq, Repr

inductive BinaryOp where
  | add
  | sub
  | mul
  | div
  | floorDiv
  | mod
  | pow
  | bitAnd
  | bitOr
  | bitXor
  | shl
  | shr
  deriving DecidableEq, Repr

inductive UnaryOp where
  | neg
  | pos
  | abs
  | bitNot
  deriving DecidableEq, Repr

inductive MathFn where
  | sqrt
  | sin
  | cos
  | tan
  | asin
  | acos
  | atan
  | radians
  | degrees
  | log
  | log10
  deriving DecidableEq, Repr

/-- Shifts and rotations of 16-bit words. -/
inductive WordFn where
  | shiftLeft
  | shiftRight
  | rotateLeft
  | rotateRight
  deriving DecidableEq, Repr

inductive Number where
  | int (i : Int)
  | real (x : Float)
  deriving DecidableEq

namespace Number

/-- Truth values count as zero and one. -/
def ofValue : Value → Except EvalFault Number
  | .bool b => .ok (int (if b then 1 else 0))
  | .int i => .ok (int i)
  | .real x => .ok (real x)
  | .text _ => .error .domain

/-- Every number is a value, unless it is not finite. -/
def toValue : Number → Except EvalFault Value
  | int i => .ok (.int i)
  | real x => if isFinite x then .ok (.real x) else .error .nonFinite

def toReal : Number → Float
  | int i => ofInt i
  | real x => x

def toInt : Number → Except EvalFault Int
  | int i => .ok i
  | real x => if isFinite x then .ok (toInteger x) else .error .domain

def isZero : Number → Bool
  | int i => i == 0
  | real x => x == 0.0

/-- The integer operation if both operands are integers and it has a result, otherwise the real
one. -/
def promote (intOp : Int → Int → Option Int) (realOp : Float → Float → Float) (a b : Number) :
    Number :=
  match a, b with
  | int i, int j =>
    match intOp i j with
    | some r => int r
    | none => real (realOp (ofInt i) (ofInt j))
  | _, _ => real (realOp a.toReal b.toReal)

/-- The remainder of floored division: exact, and zero or of the divisor's sign. -/
def floorMod (x y : Float) : Float :=
  let r := remainder x y
  if r != 0.0 && ((decide (r < 0.0)) != (decide (y < 0.0))) then r + y else r

def power (a b : Number) : Except EvalFault Number :=
  let realPower : Except EvalFault Number :=
    if a.isZero && b.toReal < 0.0 then .error .divisionByZero
    else
      let r := Float.pow a.toReal b.toReal
      if r.isNaN then .error .domain else .ok (real r)
  match a, b with
  | int i, int j =>
    if 0 ≤ j then
      match if j < UInt32.size then Integer.checkedPow i j.toNat else none with
      | some r => .ok (int r)
      | none => .ok (real (Float.pow (ofInt i) (ofInt j)))
    else realPower
  | _, _ => realPower

/-- Bits shifted out on the left are lost. -/
def shiftLeft (i n : Int) : Except EvalFault Number :=
  if n < 0 then .error .domain
  else .ok (int (if 64 ≤ n then 0 else Integer.wrap (i * (1 <<< n.toNat : Nat))))

/-- The sign enters on the left. -/
def shiftRight (i n : Int) : Except EvalFault Number :=
  if n < 0 then .error .domain
  else .ok (int (if 64 ≤ n then (if i < 0 then -1 else 0) else i >>> n.toNat))

/-- An operation on the integer parts of two numbers, the left one first. -/
def onIntegers (op : Int → Int → Except EvalFault Number) (a b : Number) :
    Except EvalFault Number := do
  let i ← a.toInt
  let j ← b.toInt
  op i j

def nonzeroDivisor (b : Number) (result : Number) : Except EvalFault Number :=
  if b.isZero then .error .divisionByZero else .ok result

def binary (op : BinaryOp) (a b : Number) : Except EvalFault Number :=
  match op with
  | .add => .ok (promote (fun i j => Integer.checked (i + j)) (· + ·) a b)
  | .sub => .ok (promote (fun i j => Integer.checked (i - j)) (· - ·) a b)
  | .mul => .ok (promote (fun i j => Integer.checked (i * j)) (· * ·) a b)
  | .div => nonzeroDivisor b (real (a.toReal / b.toReal))
  | .floorDiv =>
    nonzeroDivisor b
      (promote (fun i j => Integer.checked (i.fdiv j)) (fun x y => floor (x / y)) a b)
  | .mod =>
    nonzeroDivisor b
      (promote (fun i j => (Integer.checked (i.tdiv j)).map fun _ => i.fmod j) floorMod a b)
  | .pow => power a b
  | .bitAnd => onIntegers (fun i j => .ok (int (Integer.bitwise (· &&& ·) i j))) a b
  | .bitOr => onIntegers (fun i j => .ok (int (Integer.bitwise (· ||| ·) i j))) a b
  | .bitXor => onIntegers (fun i j => .ok (int (Integer.bitwise (· ^^^ ·) i j))) a b
  | .shl => onIntegers shiftLeft a b
  | .shr => onIntegers shiftRight a b

def unary (op : UnaryOp) (a : Number) : Except EvalFault Number :=
  match op, a with
  | .pos, _ => .ok a
  | .neg, int i => .ok (((Integer.checked (-i)).map int).getD (real (-(ofInt i))))
  | .neg, real x => .ok (real (-x))
  | .abs, int i => .ok (((Integer.checked i.natAbs).map int).getD (real (ofInt i).abs))
  | .abs, real x => .ok (real x.abs)
  | .bitNot, _ => a.toInt.map fun i => int (-i - 1)

/-- The ratio of a circle's circumference to its diameter. -/
def pi : Float := ofWord 0x400921fb54442d18

/-- Outside the domain of the function there is a fault. -/
def math (fn : MathFn) (a : Number) : Except EvalFault Number :=
  let x := a.toReal
  match fn with
  | .sqrt => if x < 0.0 then .error .domain else .ok (real x.sqrt)
  | .sin => .ok (real x.sin)
  | .cos => .ok (real x.cos)
  | .tan => .ok (real x.tan)
  | .asin => if -1.0 ≤ x ∧ x ≤ 1.0 then .ok (real x.asin) else .error .domain
  | .acos => if -1.0 ≤ x ∧ x ≤ 1.0 then .ok (real x.acos) else .error .domain
  | .atan => .ok (real x.atan)
  | .radians => .ok (real (x * (pi / 180.0)))
  | .degrees => .ok (real (x * (180.0 / pi)))
  | .log => if x ≤ 0.0 then .error .domain else .ok (real x.log)
  | .log10 => if x ≤ 0.0 then .error .domain else .ok (real x.log10)

/-- A 16-bit word turned left by `n` places. -/
def turnLeft (v : Nat) (n : Int) : Nat :=
  let places := (n % 16).toNat
  (v <<< places) % 65536 + (v >>> (16 - places))

def wordOn (fn : WordFn) (i n : Int) : Except EvalFault Number :=
  let v := (i % 65536).toNat
  match fn with
  | .shiftLeft =>
    if n < 0 then .error .domain
    else .ok (int (if 16 ≤ n then 0 else (v <<< n.toNat) % 65536 : Nat))
  | .shiftRight =>
    if n < 0 then .error .domain else .ok (int (if 16 ≤ n then 0 else v >>> n.toNat : Nat))
  | .rotateLeft => .ok (int (turnLeft v n))
  | .rotateRight => .ok (int (turnLeft v (-n)))

def word (fn : WordFn) (value amount : Number) : Except EvalFault Number :=
  onIntegers (wordOn fn) value amount

end Number

end LadderLogic
