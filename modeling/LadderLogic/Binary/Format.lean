/-!
Binary floating-point formats as words of bits. `Format.decode` reads a word as an exact multiple
of a power of two, and `Format.encode` rounds an exact ratio to the nearest word, a tie going to
the even one. Everything is arithmetic on natural numbers.
-/

set_option autoImplicit false

namespace LadderLogic.Binary

/-- A format is given by the bits of its significand, the leading one counted, and of its exponent
field. -/
structure Format where
  precision : Nat
  exponentBits : Nat
  deriving DecidableEq, Repr

/-- Words of 32 bits: the range of REAL cells. -/
def single : Format := ⟨24, 8⟩

/-- Words of 64 bits: the range of evaluation. -/
def double : Format := ⟨53, 11⟩

/-- What a word denotes. A finite datum is `mantissa * 2 ^ exponent` with a sign. -/
inductive Datum where
  | nan
  | infinite (negative : Bool)
  | finite (negative : Bool) (mantissa : Nat) (exponent : Int)
  deriving DecidableEq, Repr

namespace Format

variable (f : Format)

def fractionBits : Nat := f.precision - 1

/-- The exponent of the last place of the smallest words. -/
def minExponent : Int := 3 - (1 <<< (f.exponentBits - 1) : Nat) - f.precision

/-- The word of positive infinity, which is also the number of finite words of one sign. -/
def infinity : Nat := ((1 <<< f.exponentBits) - 1) <<< f.fractionBits

def signBit : Nat := 1 <<< (f.exponentBits + f.fractionBits)

/-- The word that stands for every datum that is no number. -/
def quietNaN : Nat := f.infinity + (1 <<< (f.fractionBits - 1))

/-- The datum of a word whose sign bit is `negative` and whose other bits are `magnitude`. -/
def decodeMagnitude (negative : Bool) (magnitude : Nat) : Datum :=
  let fraction := magnitude % (1 <<< f.fractionBits)
  let exponent := magnitude >>> f.fractionBits
  if f.infinity < magnitude then .nan
  else if magnitude = f.infinity then .infinite negative
  else if exponent = 0 then .finite negative fraction f.minExponent
  else .finite negative (fraction + (1 <<< f.fractionBits)) (f.minExponent + exponent - 1)

def decode (word : Nat) : Datum :=
  f.decodeMagnitude (decide (word / f.signBit % 2 = 1)) (word % f.signBit)

/-- The quotient of two natural numbers to the nearest, a tie going to the even neighbour. -/
def roundQuotient (num den : Nat) : Nat :=
  let quotient := num / den
  let twice := 2 * (num % den)
  if den < twice ∨ (twice = den ∧ quotient % 2 = 1) then quotient + 1 else quotient

/-- `num / den / 2 ^ exponent` as a ratio. -/
def scaled (num den : Nat) (exponent : Int) : Nat × Nat :=
  match exponent with
  | .ofNat n => (num, den <<< n)
  | .negSucc n => (num <<< (n + 1), den)

/-- The exponent of the last place kept when `num / den` is rounded: the least one of the format
for which the significand fits. -/
def lastPlace (num den : Nat) : Int :=
  if num = 0 then f.minExponent else
  let guess := max f.minExponent ((num.log2 : Int) - den.log2 - f.precision)
  let (n, d) := scaled num den guess
  if n / d < 1 <<< f.precision then guess else guess + 1

/-- The magnitude bits of the word nearest to `num / den`; what is too large becomes infinity. The
significand is added to the exponent field, so that a carry out of it moves on to the next
exponent. -/
def encodeMagnitude (num den : Nat) : Nat :=
  let place := f.lastPlace num den
  let (n, d) := scaled num den place
  min f.infinity (((place - f.minExponent).toNat <<< f.fractionBits) + roundQuotient n d)

def encode (negative : Bool) (num den : Nat) : Nat :=
  (if negative then f.signBit else 0) + f.encodeMagnitude num den

def encodeDatum : Datum → Nat
  | .nan => f.quietNaN
  | .infinite negative => (if negative then f.signBit else 0) + f.infinity
  | .finite negative mantissa exponent =>
    match exponent with
    | .ofNat n => f.encode negative (mantissa <<< n) 1
    | .negSucc n => f.encode negative mantissa (1 <<< (n + 1))

end Format

end LadderLogic.Binary
