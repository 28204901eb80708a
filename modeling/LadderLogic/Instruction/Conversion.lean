/-!
Conversions between CHAR cells and numbers that a copy can apply.
-/

set_option autoImplicit false

namespace LadderLogic

inductive Conversion where
  /-- A digit to its value, or a range of digits to a signed decimal integer. -/
  | asValue
  /-- A character to its code. -/
  | asAscii
  /-- A number to decimal text, a WORD to hexadecimal text, spread over a range. -/
  | asText (suppressZero : Bool)
  /-- A code to its character. -/
  | asBinary
  deriving DecidableEq, Repr

namespace Conversion

def display : Conversion → String
  | asValue => "AsValue"
  | asAscii => "AsAscii"
  | asText suppressZero =>
    "AsText \x7b suppress_zero: " ++ (if suppressZero then "true" else "false") ++ " \x7d"
  | asBinary => "AsBinary"

def displayOption : Option Conversion → String
  | none => "None"
  | some c => "Some(" ++ c.display ++ ")"

end Conversion

end LadderLogic
