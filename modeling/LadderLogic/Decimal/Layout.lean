import LadderLogic.Decimal.Digits
import LadderLogic.Decimal.Shortest

/-!
How a shortest decimal is laid out in text: positionally or with an exponent.
-/

set_option autoImplicit false

namespace LadderLogic.Decimal

open Binary

/-- The choices of a number format. `positional` bounds the places of the first digit (from the
first, below the second) that are written positionally, all of them if it is `none`. `keepPoint`
writes `.0` after whole numbers. -/
structure Layout where
  positional : Option (Int × Int)
  keepPoint : Bool
  tie : Tie

namespace Layout

/-- Digits with the point after the first `point` of them. -/
def positionalText (layout : Layout) (ds : List Char) (point : Int) : List Char :=
  if point ≤ 0 then '0' :: '.' :: (List.replicate (-point).toNat '0' ++ ds)
  else if ds.length ≤ point.toNat then
    ds ++ List.replicate (point.toNat - ds.length) '0' ++
      (if layout.keepPoint then ['.', '0'] else [])
  else ds.take point.toNat ++ '.' :: ds.drop point.toNat

/-- One digit before the point, then the place of that digit with its sign. -/
def exponentText (ds : List Char) (place : Int) : List Char :=
  let sign := if place < 0 then '-' else '+'
  ds.take 1 ++ (if ds.length ≤ 1 then [] else '.' :: ds.drop 1) ++
    'e' :: sign :: digits place.natAbs

def scaledText (layout : Layout) (s : Scaled) : List Char :=
  let ds := digits s.digits
  let place := s.exponent + ds.length - 1
  match layout.positional with
  | none => layout.positionalText ds (place + 1)
  | some (first, last) =>
    if first ≤ place ∧ place < last then layout.positionalText ds (place + 1)
    else exponentText ds place

/-- A finite word of the format in text, with the fewest digits that read back as it. -/
def finiteText (layout : Layout) (f : Format) (negative : Bool) (mantissa : Nat) (exponent : Int) :
    List Char :=
  let magnitude :=
    if mantissa = 0 then '0' :: (if layout.keepPoint then ['.', '0'] else [])
    else layout.scaledText (shortest f layout.tie mantissa exponent)
  if negative then '-' :: magnitude else magnitude

end Layout

end LadderLogic.Decimal
