import LadderLogic.SystemTag

/-!
What the engine reports while it builds, loads and scans.
-/

set_option autoImplicit false

namespace LadderLogic

/-- How grave a report is, from the gravest on. -/
inductive Severity where
  | fatal
  | error
  | warn
  | info
  | debug
  deriving DecidableEq, Repr

namespace Severity

def rank : Severity → Nat
  | fatal => 0
  | error => 1
  | warn => 2
  | info => 3
  | debug => 4

/-- A logger at level `threshold` lets through what is at least as grave. -/
def passes (s threshold : Severity) : Bool := s.rank ≤ threshold.rank

def all : List Severity := [fatal, error, warn, info, debug]

def name : Severity → String
  | fatal => "fatal"
  | error => "error"
  | warn => "warn"
  | info => "info"
  | debug => "debug"

def ofName? (s : String) : Option Severity := all.find? fun l => l.name == s

def label : Severity → String
  | fatal => "[FATAL]"
  | error => "[ERROR]"
  | warn => "[WARN]"
  | info => "[INFO]"
  | debug => "[DEBUG]"

end Severity

inductive Notice where
  | faultRaised (scan : UInt64) (fault : Fault)
  | loopClamped (count : Int) (limit : Nat)
  | programBuilt (rungs subroutines instructions : Nat)
  | loopLimitRepaired (found default : Nat)
  | callDepthRepaired (found default : Nat)
  | configReplaced (backup : String)
  deriving DecidableEq

namespace Notice

def severity : Notice → Severity
  | faultRaised .. | loopClamped .. => .debug
  | programBuilt .. => .info
  | loopLimitRepaired .. | callDepthRepaired .. => .warn
  | configReplaced .. => .error

def message : Notice → String
  | faultRaised scan fault => "scan " ++ Decimal.text scan.toNat ++ ": " ++ fault.tagName ++ " set"
  | loopClamped count limit =>
    "for loop count " ++ Decimal.text count ++ " clamped to " ++ Decimal.text limit
  | programBuilt rungs subroutines instructions =>
    "Program built: " ++ Decimal.text rungs ++ " rungs, " ++ Decimal.text subroutines ++
      " subroutines, " ++ Decimal.text instructions ++ " instructions"
  | loopLimitRepaired found default =>
    "Invalid max_loop_iterations: " ++ Decimal.text found ++ ". Using default: " ++
      Decimal.text default
  | callDepthRepaired found default =>
    "Invalid max_call_depth: " ++ Decimal.text found ++ ". Using default: " ++
      Decimal.text default
  | configReplaced backup =>
    "Config file corrupted. Backup saved to " ++ Text.quoted backup ++ ". Using defaults."

def line (n : Notice) : String := n.severity.label ++ " " ++ n.message

end Notice

end LadderLogic
