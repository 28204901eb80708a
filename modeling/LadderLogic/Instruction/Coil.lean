import LadderLogic.Reference
import LadderLogic.Scan.Outcome

/-!
Coils: OUT, LATCH and RESET drive one tag or a range of tags.
-/

set_option autoImplicit false

namespace LadderLogic

/-- Goes on with the cells of a range. A bound that leads nowhere raises the address fault. -/
def RangeRef.onCells (r : RangeRef) (ctx : ScanContext) (next : BlockRange → ScanContext) :
    Outcome :=
  match r.resolve ctx with
  | .error e => ctx.fail (.error e)
  | .ok none => (ctx.raise .addressError).proceed
  | .ok (some cells) => (next cells).proceed

inductive CoilTarget where
  | tag (tag : Tag)
  | range (range : RangeRef)

namespace CoilTarget

def expectBool : CoilTarget → Except LadderError Unit
  | tag t => t.expectBool
  | range r => r.expect [.bool] "BOOL"

/-- Writes to every tag of the target a value that may depend on the tag. -/
def drive (target : CoilTarget) (value : Tag → Value) (ctx : ScanContext) : Outcome :=
  match target with
  | tag t => (ctx.write t (value t)).proceed
  | range r => r.onCells ctx fun cells => ctx.writeAll (cells.tags.map fun t => (t, value t))

end CoilTarget

/-- Follows the rung: on while enabled, off otherwise. -/
structure Out where
  target : CoilTarget

namespace Out

def make (target : CoilTarget) : Except LadderError Out := do
  target.expectBool
  return ⟨target⟩

def execute (coil : Out) (enabled : Bool) (ctx : ScanContext) : Outcome :=
  coil.target.drive (fun _ => .bool enabled) ctx

end Out

/-- Switches its target on and never off. -/
structure Latch where
  target : CoilTarget

namespace Latch

def make (target : CoilTarget) : Except LadderError Latch := do
  target.expectBool
  return ⟨target⟩

def execute (coil : Latch) (ctx : ScanContext) : Outcome :=
  coil.target.drive (fun _ => .bool true) ctx

end Latch

/-- Writes the initial value of every target tag, of whatever type. -/
structure Reset where
  target : CoilTarget

namespace Reset

def make (target : CoilTarget) : Except LadderError Reset := .ok ⟨target⟩

def execute (coil : Reset) (ctx : ScanContext) : Outcome := coil.target.drive Tag.initial ctx

end Reset

end LadderLogic
