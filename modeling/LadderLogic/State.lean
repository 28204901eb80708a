import LadderLogic.Value

/-!
Committed scans.
-/

set_option autoImplicit false

namespace LadderLogic

/-- The state that a scan starts from and that it commits. -/
structure SystemState where
  scanId : UInt64
  timestamp : Float
  tags : ValueMap
  memory : ValueMap
  deriving DecidableEq

/-- The memory cell of the running scan's time step, in seconds. -/
def dtKey : String := "_dt"

/-- The memory cell of a tag's level at the end of the last scan. -/
def prevKey (tag : String) : String := "_prev:" ++ tag

/-- The memory cell of a timer's fraction of a unit, by its accumulator. -/
def fracKey (tag : String) : String := "_frac:" ++ tag

/-- Handle of an instruction in its program. -/
abbrev InstructionId := Nat

namespace InstructionId

/-- The memory cell of one kind of bookkeeping of an instruction. -/
def memoryKey (id : InstructionId) (kind : String) : String :=
  "_" ++ kind ++ ":" ++ Decimal.text id

def label (id : InstructionId) : String := "#" ++ Decimal.text id

end InstructionId

namespace ValueMap

def equal (m n : ValueMap) : Bool :=
  m.size == n.size && (m.toList.zip n.toList).all fun (x, y) => x.1 == y.1 && x.2.equal y.2

/-- Later entries of a name replace earlier ones. -/
def ofEntries (entries : List (String × Value)) : ValueMap := Std.ExtTreeMap.ofList entries

end ValueMap

namespace SystemState

def empty : SystemState := ⟨0, 0.0, ∅, ∅⟩

/-- A state before any scan. -/
def ofTags (tags : ValueMap) : SystemState := { empty with tags }

def tag? (s : SystemState) (name : String) : Option Value := s.tags[name]?

def memory? (s : SystemState) (key : String) : Option Value := s.memory[key]?

/-- The state with some tags replaced, as inputs are injected between scans. -/
def patched (s : SystemState) (tags : ValueMap) : SystemState := { s with tags := s.tags ∪ tags }

/-- Equality of states as values, reals being compared as numbers. -/
def equal (s t : SystemState) : Bool :=
  s.scanId == t.scanId && s.timestamp == t.timestamp && s.tags.equal t.tags &&
    s.memory.equal t.memory

end SystemState

end LadderLogic
