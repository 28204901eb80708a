import LadderLogic.Condition
import LadderLogic.Instruction.Coil

/-!
The shift register over a BOOL range.
-/

set_option autoImplicit false

namespace LadderLogic

/-- On a rising clock every bit moves one cell on, and the enable flag enters at the front. The
reset depends on its level and beats a clock edge of the same scan. -/
structure Shift where
  range : RangeRef
  clock : Condition
  reset : Option Condition

namespace Shift

def make (range : RangeRef) (clock : Condition) : Except LadderError Shift := do
  range.expect [.bool] "BOOL"
  return ⟨range, clock, none⟩

def resetWhen (shift : Shift) (condition : Condition) : Shift :=
  { shift with reset := some condition }

def clockKey (id : InstructionId) : String := id.memoryKey "shift_clock"

/-- The bits after one shift: as many as before, with `enabled` in front. -/
def shifted (enabled : Bool) (bits : List Bool) : List Bool := (enabled :: bits).take bits.length

def apply (shift : Shift) (rising enabled : Bool) (cells : BlockRange) (ctx : ScanContext) :
    ScanContext :=
  if Condition.optionHolds ctx shift.reset then
    ctx.writeAll (cells.tags.map fun t => (t, .bool false))
  else if rising then
    ctx.writeAll
      (cells.tags.zip ((shifted enabled (cells.tags.map ctx.readBool)).map Value.bool))
  else ctx

def execute (shift : Shift) (id : InstructionId) (enabled : Bool) (ctx : ScanContext) : Outcome :=
  let clock := shift.clock.holds ctx
  let rising := clock && !ctx.memoryBool (clockKey id)
  let ctx := ctx.setMemory (clockKey id) (.bool clock)
  shift.range.onCells ctx fun cells => shift.apply rising enabled cells ctx

end Shift

end LadderLogic
