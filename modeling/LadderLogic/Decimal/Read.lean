import LadderLogic.Decimal.Digits
import LadderLogic.Binary.Real

/-!
Reading a decimal number with an optional fraction and exponent to the nearest word of a format.
-/

set_option autoImplicit false

namespace LadderLogic.Decimal

open Binary

/-- The word nearest to `mantissa * 10 ^ place`. Magnitudes far beyond the range of the format need
no exact ratio. -/
def nearestWord (f : Format) (negative : Bool) (mantissa : Nat) (place : Int) : Nat :=
  let top := (digits mantissa).length + place
  let far : Int := (1 <<< f.exponentBits : Nat)
  if mantissa = 0 ∨ top < -far then f.encode negative 0 1
  else if far < top then f.encodeDatum (.infinite negative)
  else f.encode negative (mantissa * tens place.toNat) (tens (-place).toNat)

structure Written where
  negative : Bool
  whole : List Char
  fraction : List Char
  exponent : Int

def Written.mantissa (w : Written) : Nat := value (w.whole ++ w.fraction)

def Written.place (w : Written) : Int := w.exponent - w.fraction.length

def Written.toWord (f : Format) (w : Written) : Nat := nearestWord f w.negative w.mantissa w.place

/-- Splits off a sign; `true` is a minus. -/
def splitSign : List Char → Bool × List Char
  | '-' :: cs => (true, cs)
  | '+' :: cs => (false, cs)
  | cs => (false, cs)

/-- The exponent part of a number: nothing, or a mark, an optional sign and digits. -/
def readExponent? : List Char → Option Int
  | [] => some 0
  | c :: cs =>
    if c = 'e' ∨ c = 'E' then
      let (negative, ds) := splitSign cs
      if ds ≠ [] ∧ ds.all Char.isDigit then some (signed negative (value ds)) else none
    else none

/-- Reads a whole text as a number: an optional sign, digits with an optional point among or around
them, and an optional exponent. At least one digit is required before the exponent. -/
def readNumber? (cs : List Char) : Option Written :=
  let (negative, unsignedText) := splitSign cs
  let (whole, rest) := spanDigits unsignedText
  let (fraction, tail) :=
    match rest with
    | '.' :: more => spanDigits more
    | _ => ([], rest)
  if whole = [] ∧ fraction = [] then none
  else (readExponent? tail).map fun exponent => ⟨negative, whole, fraction, exponent⟩

end LadderLogic.Decimal
