import LadderLogic.Value

/-!
The data types of tags: their names, widths and domains.
-/

set_option autoImplicit false

namespace LadderLogic

inductive TagType where
  | bool
  | int
  | dint
  | real
  | word
  | char
  deriving DecidableEq, Repr

/-- The texts a CHAR cell can hold: blank, or one ASCII character. -/
def isCharText (s : String) : Bool :=
  match s.toList with
  | [] => true
  | [c] => decide (c.toNat < 128)
  | _ => false

namespace TagType

def all : List TagType := [bool, int, dint, real, word, char]

def display : TagType → String
  | bool => "BOOL"
  | int => "INT"
  | dint => "DINT"
  | real => "REAL"
  | word => "WORD"
  | char => "CHAR"

/-- The value of a cell that is declared without a default. -/
def initial : TagType → Value
  | bool => .bool false
  | int | dint | word => .int 0
  | real => .real 0.0
  | char => .text ""

def isRetentive : TagType → Bool
  | bool => false
  | _ => true

def isNumeric : TagType → Bool
  | int | dint | real | word => true
  | _ => false

def isInteger : TagType → Bool
  | int | dint | word => true
  | _ => false

def bitWidth? : TagType → Option Nat
  | int | word => some 16
  | dint | real => some 32
  | _ => none

/-- The least and the greatest integer of the integral types. -/
def bounds? : TagType → Option (Int × Int)
  | int => some (-32768, 32767)
  | dint => some (-2147483648, 2147483647)
  | word => some (0, 65535)
  | bool => some (0, 1)
  | _ => none

/-- The values that belong to a type. -/
def Holds : TagType → Value → Prop
  | bool, .bool _ => True
  | int, .int i => -32768 ≤ i ∧ i ≤ 32767
  | dint, .int i => -2147483648 ≤ i ∧ i ≤ 2147483647
  | word, .int i => 0 ≤ i ∧ i ≤ 65535
  | real, .real x => Binary.isFinite x = true
  | char, .text s => isCharText s = true
  | _, _ => False

instance (t : TagType) (v : Value) : Decidable (t.Holds v) := by
  unfold Holds; split <;> infer_instance

end TagType

end LadderLogic
