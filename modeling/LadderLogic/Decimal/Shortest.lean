import LadderLogic.Binary.Real
import LadderLogic.Decimal.Digits

/-!
The shortest decimal that reads back as a given word. Among the decimals with the fewest digits
that lie in the interval of numbers rounded to the word, the nearest one is taken.
-/

set_option autoImplicit false

namespace LadderLogic.Decimal

open Binary

/-- Which of two equally near decimals is taken. -/
inductive Tie where
  | upward
  | toEven
  deriving DecidableEq, Repr

/-- The decimal `digits * 10 ^ exponent`. -/
structure Scaled where
  digits : Nat
  exponent : Int
  deriving DecidableEq, Repr

/-- A positive number `value` and the ends of the interval of the numbers that are rounded to it,
all in units of `numUnit / denUnit`. -/
structure Interval where
  low : Nat
  value : Nat
  high : Nat
  closed : Bool
  numUnit : Nat
  denUnit : Nat

/-- The interval of a positive finite word. It reaches half way to both neighbours, and the lower
neighbour of a power of two is nearer; an even significand owns its ends. -/
def Interval.ofFinite (f : Format) (mantissa : Nat) (exponent : Int) : Interval where
  low := 4 * mantissa -
    (if mantissa = 1 <<< f.fractionBits ∧ f.minExponent < exponent then 1 else 2)
  value := 4 * mantissa
  high := 4 * mantissa + 2
  closed := mantissa % 2 = 0
  numUnit := 1 <<< (exponent - 2).toNat
  denUnit := 1 <<< (2 - exponent).toNat

namespace Interval

/-- The least `k`, from a guess on, with the value below `10 ^ (k + 1)`. -/
def firstPlace (i : Interval) : Nat → Int → Int
  | 0, k => k
  | fuel + 1, k =>
    if i.value * i.numUnit * tens (-(k + 1)).toNat < i.denUnit * tens (k + 1).toNat then k
    else i.firstPlace fuel (k + 1)

def leadingPlace (i : Interval) : Int :=
  let magnitude : Int := ((i.value * i.numUnit).log2 : Int) - i.denUnit.log2
  i.firstPlace 4 ((magnitude * 30103).fdiv 100000 - 2)

/-- The nearest multiple of `10 ^ place` in the interval, if one of the value's two neighbours
among these multiples lies in it. -/
def onGrid (i : Interval) (tie : Tie) (place : Int) : Option Nat :=
  let num := i.numUnit * tens (-place).toNat
  let den := i.denUnit * tens place.toNat
  let below := i.value * num / den
  let rest := i.value * num % den
  let lowIn := if i.closed then i.low * num ≤ below * den else i.low * num < below * den
  let highIn :=
    if i.closed then (below + 1) * den ≤ i.high * num else (below + 1) * den < i.high * num
  if lowIn then
    if highIn then
      if 2 * rest < den then some below
      else if den < 2 * rest then some (below + 1)
      else match tie with
        | .upward => some (below + 1)
        | .toEven => some (if below % 2 = 0 then below else below + 1)
    else some below
  else if highIn then some (below + 1)
  else none

/-- Tries ever finer grids, starting at `place`. -/
def search (i : Interval) (tie : Tie) : Nat → Int → Scaled
  | 0, place => ⟨(i.onGrid tie place).getD 0, place⟩
  | fuel + 1, place =>
    match i.onGrid tie place with
    | some digits => ⟨digits, place⟩
    | none => i.search tie fuel (place - 1)

end Interval

/-- Moves trailing zeros into the exponent. -/
def Scaled.strip : Nat → Scaled → Scaled
  | 0, s => s
  | fuel + 1, s =>
    if s.digits ≠ 0 ∧ s.digits % 10 = 0 then strip fuel ⟨s.digits / 10, s.exponent + 1⟩ else s

/-- The shortest decimal of a positive finite word. Seventeen digits are enough for every one. -/
def shortest (f : Format) (tie : Tie) (mantissa : Nat) (exponent : Int) : Scaled :=
  let interval := Interval.ofFinite f mantissa exponent
  (interval.search tie 17 interval.leadingPlace).strip 18

end LadderLogic.Decimal
