import LadderLogic.Error
import LadderLogic.TagType.Store

/-!
Tags: named, typed memory cells.
-/

set_option autoImplicit false

namespace LadderLogic

/-- A tag reads as `initial` until it is written. -/
structure Tag where
  name : String
  type : TagType
  initial : Value
  retentive : Bool
  deriving DecidableEq

/-- Refuses a type that is not among the allowed ones. The error names the cell and says what was
expected. -/
def TagType.expect (t : TagType) (allowed : List TagType) (expected name : String) :
    Except LadderError Unit :=
  if t ∈ allowed then .ok () else .error (.tagType name expected t)

namespace Tag

def ofType (type : TagType) (name : String) : Tag :=
  ⟨name, type, type.initial, type.isRetentive⟩

/-- Declares another initial value, which must belong to the domain of the tag. Only a REAL tag
rounds it. -/
def withInitial (tag : Tag) (value : Value) : Except LadderError Tag :=
  let refusal := LadderError.invalidInstruction (.initialOutsideDomain value tag.type tag.name)
  match tag.type.storeCopy value with
  | some stored =>
    if stored.equal value || tag.type == .real then .ok { tag with initial := stored }
    else .error refusal
  | none => .error refusal

def withRetentive (tag : Tag) (retentive : Bool) : Tag := { tag with retentive }

def expect (tag : Tag) (allowed : List TagType) (expected : String) : Except LadderError Unit :=
  tag.type.expect allowed expected tag.name

end Tag

/-- The checks that conditions and instructions make on their tags. -/
def Tag.expectBool (tag : Tag) : Except LadderError Unit := tag.expect [.bool] "BOOL"

/-- Accumulators, steps, indices and search results are INT or DINT. -/
def Tag.expectCounter (tag : Tag) : Except LadderError Unit :=
  tag.expect [.int, .dint] "INT or DINT"

end LadderLogic
