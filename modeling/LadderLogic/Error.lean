import LadderLogic.Comparison
import LadderLogic.Instruction.Conversion
import LadderLogic.TagType

/-!
What is wrong with a malformed program, found while it is built or run. Data problems at run time
are no errors: they raise fault tags and the scan goes on.
-/

set_option autoImplicit false

namespace LadderLogic

/-- A combination of operands that a tag, a block, a condition or an instruction refuses. -/
inductive Misuse where
  | initialOutsideDomain (value : Value) (type : TagType) (tag : String)
  | overlappingWindows (block : String)
  | orderingOnText (op : Comparison) (tag : String)
  | textTagAgainstNumber (tag : String)
  | numberTagAgainstText (type : TagType) (tag : String)
  | textInExpressionComparison
  | orderingInTextComparison (tag : String)
  | textInCalculation (target : String)
  | textAsTimerPreset (accumulator : String)
  | textAsCounterPreset (accumulator : String)
  | copyConversion (target : TagType) (conversion : Option Conversion)
  | blockCopyConversion (source target : TagType) (conversion : Option Conversion)
  | fillMismatch (target : TagType) (block : String)
  | numberSearchOnText (block : String) (type : TagType)
  | orderingInTextSearch (op : Comparison)
  | searchPattern
  | drumWithoutSteps
  | textAsDrumPreset
  | textAsLoopCount
  | oneshotUnsupported (instruction : String)
  | stated (reason : String)

def Misuse.message : Misuse → String
  | initialOutsideDomain value type tag =>
    "default " ++ value.display ++ " does not fit " ++ type.display ++ " tag '" ++ tag ++ "'"
  | overlappingWindows block => "overlapping valid ranges on block '" ++ block ++ "'"
  | orderingOnText op tag =>
    "ordering comparison '" ++ op.symbol ++ "' on CHAR tag '" ++ tag ++ "'"
  | textTagAgainstNumber tag => "CHAR tag '" ++ tag ++ "' can only be compared with text"
  | numberTagAgainstText type tag => type.display ++ " tag '" ++ tag ++ "' compared with text"
  | textInExpressionComparison => "expression comparisons only accept numeric operands"
  | orderingInTextComparison tag => "text comparison on '" ++ tag ++ "' only supports == and !="
  | textInCalculation target => "calc into '" ++ target ++ "' uses a text operand"
  | textAsTimerPreset accumulator => "timer '" ++ accumulator ++ "' preset must be numeric"
  | textAsCounterPreset accumulator => "counter '" ++ accumulator ++ "' preset must be numeric"
  | copyConversion target conversion =>
    "copy cannot convert this source into " ++ target.display ++ " with " ++
      Conversion.displayOption conversion
  | blockCopyConversion source target conversion =>
    "blockcopy cannot copy " ++ source.display ++ " into " ++ target.display ++ " with " ++
      Conversion.displayOption conversion
  | fillMismatch target block =>
    "fill value does not match " ++ target.display ++ " range '" ++ block ++ "'"
  | numberSearchOnText block type =>
    "numeric search needs a numeric range and value, '" ++ block ++ "' is " ++ type.display
  | orderingInTextSearch op => "text search only supports == and !=, got " ++ op.symbol
  | searchPattern => "text search needs a non-empty ASCII pattern"
  | drumWithoutSteps => "drum needs at least one step"
  | textAsDrumPreset => "time drum presets must be numeric"
  | textAsLoopCount => "for loop count must be numeric"
  | oneshotUnsupported instruction => instruction ++ " does not support oneshot"
  | stated reason => reason

inductive LadderError where
  /-- A tag of another type than a condition or an instruction works with. -/
  | tagType (tag : String) (expected : String) (found : TagType)
  /-- A literal address outside a block or outside its windows. -/
  | addressOutOfBlock (block : String) (address : Int)
  /-- A range whose first address comes after its last. -/
  | invalidRange (block : String) (first last : Int)
  | lengthMismatch (expected found : Nat)
  | unknownSubroutine (name : String)
  | returnOutsideSubroutine
  /-- A drum followed by more work in the same flow. -/
  | terminalNotLast (instruction : String)
  | callDepthExceeded (limit : Nat)
  | invalidInstruction (misuse : Misuse)

def LadderError.message : LadderError → String
  | tagType tag expected found =>
    "tag '" ++ tag ++ "' is " ++ found.display ++ ", expected " ++ expected
  | addressOutOfBlock block address =>
    "address " ++ Decimal.text address ++ " is not part of block '" ++ block ++ "'"
  | invalidRange block first last =>
    "invalid range " ++ Decimal.text first ++ "..=" ++ Decimal.text last ++ " on block '" ++ block ++
      "' (start after end)"
  | lengthMismatch expected found =>
    "length mismatch: expected " ++ Decimal.text expected ++ " elements, found " ++
      Decimal.text found
  | unknownSubroutine name => "unknown subroutine '" ++ name ++ "'"
  | returnOutsideSubroutine => "return used outside of a subroutine"
  | terminalNotLast instruction =>
    instruction ++ " must be the last instruction of its execution flow"
  | callDepthExceeded limit => "subroutine call depth exceeded (" ++ Decimal.text limit ++ ")"
  | invalidInstruction misuse => "invalid instruction: " ++ misuse.message

end LadderLogic
