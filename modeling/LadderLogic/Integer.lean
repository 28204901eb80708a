/-!
The integers of cells: 64-bit two's complement words, seen as unbounded integers with a range.
Arithmetic is exact and says where it leaves the range.
-/

set_option autoImplicit false

namespace LadderLogic.Integer

def least : Int := -9223372036854775808

def greatest : Int := 9223372036854775807

def Fits (i : Int) : Prop := least ≤ i ∧ i ≤ greatest

instance (i : Int) : Decidable (Fits i) := inferInstanceAs (Decidable (_ ∧ _))

def checked (i : Int) : Option Int := if Fits i then some i else none

/-- The element of `low..high` nearest to `i`. -/
def clamp (low high i : Int) : Int := if i < low then low else if high < i then high else i

def saturate (i : Int) : Int := clamp least greatest i

/-- The integer in range that agrees with `i` modulo `2 ^ 64`. -/
def wrap (i : Int) : Int := i.bmod UInt64.size

/-- The residue modulo `2 ^ bits` that lies in the signed or the unsigned range of that width. -/
def residue (bits : Nat) (isSigned : Bool) (i : Int) : Int :=
  if isSigned then i.bmod (1 <<< bits) else i % (1 <<< bits : Nat)

/-- A bitwise operation on the 64-bit words of two integers. -/
def bitwise (op : Int64 → Int64 → Int64) (i j : Int) : Int := (op (.ofInt i) (.ofInt j)).toInt

/-- The power, if it is in range. Bases of magnitude at most one are settled by the parity of the
exponent, and every other base leaves the range before the 64th power. -/
def checkedPow (base : Int) (exponent : Nat) : Option Int :=
  if base.natAbs ≤ 1 then
    some (if exponent = 0 then 1 else if exponent % 2 = 0 then base * base else base)
  else if 64 ≤ exponent then none
  else checked (base.pow exponent)

end LadderLogic.Integer
