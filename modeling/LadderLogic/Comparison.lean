import LadderLogic.Value

/-!
Comparison operators and their meaning on values.
-/

set_option autoImplicit false

namespace LadderLogic

inductive Comparison where
  | eq
  | ne
  | lt
  | le
  | gt
  | ge
  deriving DecidableEq, Repr

namespace Comparison

def all : List Comparison := [eq, ne, lt, le, gt, ge]

def isEquality : Comparison → Bool
  | eq | ne => true
  | _ => false

/-- Whether the operator holds of two operands that are ordered so. -/
def holds : Comparison → Ordering → Bool
  | eq, o => o == .eq
  | ne, o => o != .eq
  | lt, o => o == .lt
  | le, o => o != .gt
  | gt, o => o == .gt
  | ge, o => o != .lt

def symbol : Comparison → String
  | eq => "=="
  | ne => "!="
  | lt => "<"
  | le => "<="
  | gt => ">"
  | ge => ">="

/-- The order of two reals; `none` if one is no number. -/
def compareReal? (x y : Float) : Option Ordering :=
  if x < y then some .lt else if y < x then some .gt else if x == y then some .eq else none

/-- The order of two values that can be compared: reals as soon as one operand is a real, integers
otherwise. Text has an order with text only. -/
def compareValue? : Value → Value → Option Ordering
  | .text s, .text t => some (compare s t)
  | .text _, _ => none
  | _, .text _ => none
  | .real x, v => v.toReal?.bind (compareReal? x ·)
  | v, .real y => v.toReal?.bind (compareReal? · y)
  | v, w => v.toInt?.bind fun i => w.toInt?.map (compare i ·)

/-- Applies the operator. `none` if the values cannot be compared; texts know equality only. -/
def apply (op : Comparison) (v w : Value) : Option Bool :=
  match v, w with
  | .text _, .text _ => if op.isEquality then (compareValue? v w).map op.holds else none
  | _, _ => (compareValue? v w).map op.holds

end Comparison

end LadderLogic
