import LadderLogic.Integer
import LadderLogic.Binary.Real
import LadderLogic.Decimal.Layout
import LadderLogic.Text.Quoted
import Std.Data.ExtTreeMap

/-!
The values that tags, memory cells and literals hold, and finite maps of them.
-/

set_option autoImplicit false

namespace LadderLogic

open Binary

namespace Binary

def isFinite (x : Float) : Bool :=
  match datum x with
  | .finite .. => true
  | _ => false

/-- The 64-bit integer nearest to the integer part; what is not a number gives zero. -/
def toInteger (x : Float) : Int :=
  match datum x with
  | .nan => 0
  | .infinite negative => if negative then Integer.least else Integer.greatest
  | .finite negative mantissa exponent =>
    Integer.saturate (signed negative (wholePart mantissa exponent))

end Binary

inductive Value where
  | bool (b : Bool)
  | int (i : Int)
  | real (x : Float)
  | text (s : String)
  deriving DecidableEq

/-- Values by name, in the order of the names. -/
abbrev ValueMap := Std.ExtTreeMap String Value

namespace Value

instance : Inhabited Value := ⟨.bool false⟩

def isTruthy : Value → Bool
  | bool b => b
  | int i => i != 0
  | real x => x != 0.0
  | text s => s != ""

def isNumeric : Value → Bool
  | text _ => false
  | _ => true

/-- The value as a real; `none` for text. -/
def toReal? : Value → Option Float
  | bool b => some (if b then 1.0 else 0.0)
  | int i => some (ofInt i)
  | real x => some x
  | text _ => none

/-- The value as an integer, a real without its fraction; `none` for text and for reals that are
not finite. -/
def toInt? : Value → Option Int
  | bool b => some (if b then 1 else 0)
  | int i => some i
  | real x => if isFinite x then some (toInteger x) else none
  | text _ => none

def toText? : Value → Option String
  | text s => some s
  | _ => none

def firstChar? (v : Value) : Option Char := v.toText?.bind fun s => s.toList.head?

/-- Equality of variant and content. Reals are compared as numbers, so that both zeros are equal
and what is not a number equals nothing. -/
def equal : Value → Value → Bool
  | bool a, bool b => a == b
  | int i, int j => i == j
  | real x, real y => x == y
  | text s, text t => s == t
  | _, _ => false

/-- Reals are written positionally, whole ones without a point, and of two equally near shortest
decimals the upper one is taken. -/
def realLayout : Decimal.Layout := ⟨none, false, .upward⟩

def wordText (f : Format) (word : Nat) : List Char :=
  match f.decode word with
  | .nan => "NaN".toList
  | .infinite negative => if negative then "-inf".toList else "inf".toList
  | .finite negative mantissa exponent => realLayout.finiteText f negative mantissa exponent

def display : Value → String
  | bool b => if b then "true" else "false"
  | int i => Decimal.text i
  | real x => String.ofList (wordText double x.toBits.toNat)
  | text s => Text.quoted s

end Value

end LadderLogic
