import LadderLogic.Tag

/-!
The reserved tags: fault bits that a scan clears and raises, and the status of the scan.
-/

set_option autoImplicit false

namespace LadderLogic

/-- A data problem met during a scan. Raising it never ends the scan. -/
inductive Fault where
  /-- Text that cannot be read, or a value the destination cannot represent. -/
  | outOfRange
  /-- Division by zero, or a result that is undefined or not finite. -/
  | divisionError
  /-- A pointer outside its block or outside the windows of the block. -/
  | addressError
  deriving DecidableEq, Repr

namespace Fault

def all : List Fault := [outOfRange, divisionError, addressError]

def tagName : Fault → String
  | outOfRange => "system.fault.out_of_range"
  | divisionError => "system.fault.division_error"
  | addressError => "system.fault.address_error"

def tag (f : Fault) : Tag := .ofType .bool f.tagName

end Fault

namespace SystemTag

def alwaysOnName : String := "system.sys.always_on"

def firstScanName : String := "system.sys.first_scan"

def scanCounterName : String := "system.sys.scan_counter"

def alwaysOn : Tag := .ofType .bool alwaysOnName

def firstScan : Tag := .ofType .bool firstScanName

def scanCounter : Tag := (Tag.ofType .dint scanCounterName).withRetentive false

end SystemTag

end LadderLogic
