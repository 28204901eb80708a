import LadderLogic.TagType

/-!
The two laws by which a value enters a cell: `storeCopy` takes the nearest element of the domain,
`storeCalc` the element that agrees with the value modulo the width of the cell.
-/

set_option autoImplicit false

namespace LadderLogic

open Binary

namespace TagType

/-- A real brought into the range of single precision and rounded to it. -/
def clampSingle (x : Float) : Float :=
  toSingle (if x < -singleMax then -singleMax else if singleMax < x then singleMax else x)

/-- The integer that an integral cell clamps; `none` for text. -/
def copyInteger? : Value → Option Int
  | .bool b => some (if b then 1 else 0)
  | .int i => some i
  | .real x => some ((truncate? x).getD 0)
  | .text _ => none

/-- The value a cell of the type takes over from a copy. Integers and reals are clamped into the
domain, and reals that are not finite become zero. `none` if the cell cannot represent the value:
text in a number, and numbers or longer text in a CHAR. -/
def storeCopy (t : TagType) (v : Value) : Option Value :=
  match t with
  | bool => if v.isNumeric then some (.bool v.isTruthy) else none
  | int | dint | word =>
    match t.bounds? with
    | some (low, high) => (copyInteger? v).map fun i => .int (Integer.clamp low high i)
    | none => none
  | real => v.toReal?.map fun x => .real (if isFinite x then clampSingle x else 0.0)
  | char =>
    match v with
    | .text s => if isCharText s then some v else none
    | _ => none

/-- The integer that an integral cell wraps: a truth value or an integer itself, and the integer
part of a real. `none` for text and for reals that are not finite. -/
def calcInteger? : Value → Option Int
  | .bool b => some (if b then 1 else 0)
  | .int i => some i
  | .real x => truncate? x
  | .text _ => none

def storeWord (t : TagType) (i : Int) : Value :=
  match t with
  | int => .int (Integer.residue 16 true i)
  | real => .real (ofInt i)
  | bool => .bool (i != 0)
  | dint | word | char => .int i

/-- The real that a REAL cell takes over from a calculation. -/
def calcReal? : Value → Option Value
  | .real x => let y := toSingle x; if isFinite y then some (.real y) else none
  | v => v.toReal?.map fun x => .real (toSingle x)

/-- The value a cell of the type takes over from a calculation: integers wrap to the width of the
cell, or with `hex` to 16 unsigned bits whatever the cell. `none` for text, for reals that are not
finite, and for what a REAL cell cannot hold. -/
def storeCalc (t : TagType) (v : Value) (hex : Bool) : Option Value :=
  match calcInteger? v with
  | none => none
  | some i =>
    if hex then some (t.storeWord (Integer.residue 16 false i))
    else match t with
      | bool => some (.bool v.isTruthy)
      | int => some (.int (Integer.residue 16 true i))
      | dint => some (.int (Integer.residue 32 true i))
      | word => some (.int (Integer.residue 16 false i))
      | real => calcReal? v
      | char => none

end TagType

end LadderLogic
