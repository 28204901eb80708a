import LadderLogic.Json
import LadderLogic.State

/-!
Snapshots: committed states as JSON text. Writing leaves no blanks and keeps a fixed order of
fields; reading takes the fields in any order, and also as a list of four.
-/

set_option autoImplicit false

namespace LadderLogic.Snapshot

open Binary

/-- Reals always show a point or an exponent. They are written positionally from `1e-5` up to
`1e16`, and of two equally near shortest decimals the one with the even last digit is taken. -/
def realLayout : Decimal.Layout := ⟨some (-5, 16), true, .toEven⟩

/-- A real; one that is not finite has no text of its own. -/
def realText (x : Float) : List Char :=
  match datum x with
  | .finite negative mantissa exponent => realLayout.finiteText double negative mantissa exponent
  | _ => "null".toList

def valueText : Value → List Char
  | .bool b => (if b then "true" else "false").toList
  | .int i => Decimal.integer i
  | .real x => realText x
  | .text s => Json.quoted s.toList

def separated : List (List Char) → List Char
  | [] => []
  | [t] => t
  | t :: ts => t ++ ',' :: separated ts

def entryText (entry : String × Value) : List Char :=
  Json.quoted entry.1.toList ++ ':' :: valueText entry.2

def mapText (m : ValueMap) : List Char :=
  '\x7b' :: (separated (m.toList.map entryText) ++ ['\x7d'])

def write (s : SystemState) : String :=
  String.ofList ("\x7b\"scan_id\":".toList ++ Decimal.digits s.scanId.toNat ++
    ",\"timestamp\":".toList ++ realText s.timestamp ++
    ",\"tags\":".toList ++ mapText s.tags ++
    ",\"memory\":".toList ++ mapText s.memory ++ ['\x7d'])

/-- A value. Numbers that are no integers of 64 bits are reals. -/
def readValue? : Json → Option Value
  | .bool b => some (.bool b)
  | .text s => s.map .text
  | .number n => n.value?.map fun
    | .natural k => if Integer.Fits k then .int k else .real (Json.Number.natural k).toReal
    | .negative i => .int i
    | .real x => .real x
  | _ => none

/-- A map; the last entry of a name counts. -/
def readMap? : Json → Option ValueMap
  | .object members => do
    let entries ← members.mapM fun (name, value) => do return (← name, ← readValue? value)
    return .ofEntries entries
  | _ => none

def readScanId? : Json → Option UInt64
  | .number n =>
    match n.value? with
    | some (.natural k) => some (.ofNat k)
    | _ => none
  | _ => none

def readReal? : Json → Option Float
  | .number n => n.value?.map Json.Number.toReal
  | _ => none

def readFields? (scanId timestamp tags memory : Json) : Option SystemState := do
  return ⟨← readScanId? scanId, ← readReal? timestamp, ← readMap? tags, ← readMap? memory⟩

def field? (members : List (Option String × Json)) (name : String) : Option Json :=
  match members.filter fun m => m.1 == some name with
  | [m] => some m.2
  | _ => none

/-- Reads a state. Fields of other names are ignored, but all names must be readable. -/
def read? (s : String) : Option SystemState :=
  match Json.ofText? s with
  | some (.object members) =>
    if members.all fun m => m.1.isSome then do
      readFields? (← field? members "scan_id") (← field? members "timestamp")
        (← field? members "tags") (← field? members "memory")
    else none
  | some (.list [scanId, timestamp, tags, memory]) => readFields? scanId timestamp tags memory
  | _ => none

end LadderLogic.Snapshot
