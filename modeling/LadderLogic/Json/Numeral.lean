import LadderLogic.Decimal.Read
import LadderLogic.Integer

/-!
Numbers in JSON: how they are written, and the value they are read as. Integers that fit 64 bits
are read exactly. For other numbers the leading digits that fit 64 bits are scaled by a power of
ten in one step, which is not always the nearest real.
-/

set_option autoImplicit false

namespace LadderLogic.Json

open Binary

structure Numeral where
  negative : Bool
  whole : List Char
  fraction : Option (List Char)
  /-- Whether the exponent is negative, and its digits. -/
  exponent : Option (Bool × List Char)
  deriving DecidableEq

/-- The value of a number: a non-negative or a negative integer, or a real. -/
inductive Number where
  | natural (n : Nat)
  | negative (i : Int)
  | real (x : Float)
  deriving DecidableEq

namespace Numeral

/-- Digits without a leading zero, unless it is the only one. -/
def readWhole? (cs : List Char) : Option (List Char × List Char) :=
  let (ds, rest) := Decimal.spanDigits cs
  match ds with
  | [] => none
  | '0' :: _ :: _ => none
  | ds => some (ds, rest)

def readFraction? : List Char → Option (Option (List Char) × List Char)
  | '.' :: cs =>
    let (ds, rest) := Decimal.spanDigits cs
    if ds = [] then none else some (some ds, rest)
  | cs => some (none, cs)

/-- A mark, an optional sign and digits, or none of them. -/
def readExponent? : List Char → Option (Option (Bool × List Char) × List Char)
  | c :: cs =>
    if c = 'e' ∨ c = 'E' then
      let (negative, cs) := Decimal.splitSign cs
      let (ds, rest) := Decimal.spanDigits cs
      if ds = [] then none else some (some (negative, ds), rest)
    else some (none, c :: cs)
  | [] => some (none, [])

def read? (cs : List Char) : Option (Numeral × List Char) := do
  let (negative, cs) :=
    match cs with
    | '-' :: cs => (true, cs)
    | cs => (false, cs)
  let (whole, cs) ← readWhole? cs
  let (fraction, cs) ← readFraction? cs
  let (exponent, cs) ← readExponent? cs
  return (⟨negative, whole, fraction, exponent⟩, cs)

/-- Appends digits to a number as long as it fits 64 bits, and returns the digits that are left. -/
def appendFitting (n : Nat) : List Char → Nat × List Char
  | [] => (n, [])
  | d :: ds =>
    let m := 10 * n + Decimal.digitValue d
    if m < UInt64.size then appendFitting m ds else (n, d :: ds)

def powerOfTen (n : Nat) : Float := ofWord (Decimal.nearestWord double false 1 n)

def widest : Nat := 308

/-- Scales a real by a power of ten, at most by `10 ^ 308` in one step; `none` if the result is not
finite. -/
def scaled? (x : Float) (exponent : Int) : Option Float :=
  if exponent.natAbs ≤ widest then
    if 0 ≤ exponent then
      let y := x * powerOfTen exponent.natAbs
      if y.isInf then none else some y
    else some (x / powerOfTen exponent.natAbs)
  else if x == 0.0 then some x
  else if 0 ≤ exponent then none
  else scaled? (x / powerOfTen widest) (exponent + widest)
termination_by (-exponent).toNat
decreasing_by simp only [widest] at *; omega

/-- Exponents are kept in signed 32 bits. -/
def leastExponent : Int := -2147483648

def greatestExponent : Int := 2147483647

/-- The exponent as written; `none` if its magnitude is above the greatest exponent. -/
def exponentValue? (n : Numeral) : Option Int :=
  match n.exponent with
  | none => some 0
  | some (negative, ds) =>
    let magnitude := Decimal.value ds
    if magnitude ≤ greatestExponent then some (signed negative magnitude) else none

/-- The magnitude of the number as a real; `none` if it is too large. -/
def magnitude? (n : Numeral) : Option Float :=
  let (significand, dropped) := appendFitting 0 n.whole
  let fraction := n.fraction.getD []
  let (significand, unused) := appendFitting significand fraction
  let place : Int := dropped.length - (fraction.length - unused.length : Nat)
  match n.exponentValue? with
  | some e =>
    scaled? (ofInt significand) (Integer.clamp leastExponent greatestExponent (place + e))
  | none =>
    if significand ≠ 0 ∧ (n.exponent.any fun e => !e.1) then none else some 0.0

def toReal? (n : Numeral) : Option Float :=
  n.magnitude?.map fun x => if n.negative then -x else x

/-- The value of a number; `none` if it is too large. Minus zero is a real. -/
def value? (n : Numeral) : Option Number :=
  let whole := Decimal.value n.whole
  if n.fraction.isSome || n.exponent.isSome || UInt64.size ≤ whole then n.toReal?.map .real
  else if !n.negative then some (.natural whole)
  else if 1 ≤ whole ∧ Integer.Fits (-whole) then some (.negative (-whole))
  else some (.real (-(ofInt whole)))

end Numeral

def Number.toReal : Number → Float
  | natural n => ofInt n
  | negative i => ofInt i
  | real x => x

end LadderLogic.Json
