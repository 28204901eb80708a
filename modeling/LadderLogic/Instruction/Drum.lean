import LadderLogic.Instruction.Timer

/-!
Drum sequencers. A drum walks through the rows of a pattern of outputs. The step, counted from one,
and the completion flag are tags; what else a drum remembers is kept in memory under its handle.
-/

set_option autoImplicit false

namespace LadderLogic

/-- What event drums and time drums share. The pattern has a row per step and a column per output. -/
structure DrumCore where
  outputs : List Tag
  pattern : List (List Bool)
  step : Tag
  completion : Tag
  reset : Option Condition
  jump : Option (Condition × Expression)
  jog : Option Condition

inductive DrumMove where
  | stay
  | advance
  | jumpTo (step : Int)
  deriving DecidableEq, Repr

namespace DrumCore

def make (outputs : List Tag) (pattern : List (List Bool)) (step completion : Tag) :
    Except LadderError DrumCore := do
  if pattern.isEmpty then throw (.invalidInstruction .drumWithoutSteps)
  outputs.forM Tag.expectBool
  pattern.forM fun row =>
    if row.length = outputs.length then .ok ()
    else .error (.lengthMismatch outputs.length row.length)
  step.expectCounter
  completion.expectBool
  return ⟨outputs, pattern, step, completion, none, none, none⟩

def resetWhen (drum : DrumCore) (condition : Condition) : DrumCore :=
  { drum with reset := some condition }

def jumpWhen (drum : DrumCore) (condition : Condition) (target : Expression) : DrumCore :=
  { drum with jump := some (condition, target) }

def jogWhen (drum : DrumCore) (condition : Condition) : DrumCore :=
  { drum with jog := some condition }

def steps (drum : DrumCore) : Nat := drum.pattern.length

def isStep (drum : DrumCore) (i : Int) : Bool := 1 ≤ i && i ≤ drum.steps

def conditions (drum : DrumCore) : List Condition :=
  drum.reset.toList ++ (drum.jump.map Prod.fst).toList ++ drum.jog.toList

/-- Set once the event of the current step has been seen off. -/
def armedKey (id : InstructionId) : String := id.memoryKey "drum_step_armed"

def fracKey (id : InstructionId) : String := id.memoryKey "drum_frac"

def jumpKey (id : InstructionId) : String := id.memoryKey "drum_jump"

def jogKey (id : InstructionId) : String := id.memoryKey "drum_jog"

/-- The current step; a step tag that holds none means the first. -/
def currentStep (drum : DrumCore) (ctx : ScanContext) : Int :=
  let step := ctx.readInt drum.step
  if drum.isStep step then step else 1

def row (drum : DrumCore) (step : Int) : List Bool := (drum.pattern[(step - 1).toNat]?).getD []

def driveOutputs (drum : DrumCore) (step : Int) (ctx : ScanContext) : ScanContext :=
  ctx.writeAll (drum.outputs.zip ((drum.row step).map Value.bool))

/-- Whether an optional condition rises, by its last level under `key`, which is brought up to
date. -/
def edge (condition : Option Condition) (key : String) (ctx : ScanContext) : Bool × ScanContext :=
  match condition with
  | none => (false, ctx)
  | some c =>
    let now := c.holds ctx
    (now && !ctx.memoryBool key, ctx.setMemory key (.bool now))

def restart (drum : DrumCore) (id : InstructionId) (ctx : ScanContext) : ScanContext :=
  drum.driveOutputs 1
    (((ctx.write drum.step (.int 1)).write drum.completion (.bool false)).setMemory
      (armedKey id) (.bool false))

/-- The step that a jump leads to. A target that is no step raises a fault, in addition to the
fault of an operand that cannot be evaluated. -/
def jumpTarget (drum : DrumCore) (target : Expression) (ctx : ScanContext) :
    Option Int × ScanContext :=
  match target.preset ctx with
  | (some step, ctx) =>
    if drum.isStep step then (some step, ctx) else (none, ctx.raise .outOfRange)
  | (none, ctx) => (none, ctx.raise .outOfRange)

/-- The move that jump and jog ask for. A jump that is refused leaves the jog its chance. -/
def requested (drum : DrumCore) (jumpEdge jogEdge : Bool) (ctx : ScanContext) :
    DrumMove × ScanContext :=
  let (accepted, ctx) :=
    match jumpEdge, drum.jump with
    | true, some (_, target) => drum.jumpTarget target ctx
    | _, _ => (none, ctx)
  match accepted with
  | some step => (.jumpTo step, ctx)
  | none => (if jogEdge then .advance else .stay, ctx)

/-- The part of an execution before the step's own event or time counts: the edges of jump and jog,
then the reset, then what jump and jog ask for. `none` if the reset took the scan. -/
def begin (drum : DrumCore) (id : InstructionId) (enabled : Bool) (ctx : ScanContext) :
    Option DrumMove × ScanContext :=
  let (jumpEdge, ctx) := edge (drum.jump.map Prod.fst) (jumpKey id) ctx
  let (jogEdge, ctx) := edge drum.jog (jogKey id) ctx
  if Condition.optionHolds ctx drum.reset then (none, drum.restart id ctx)
  else if enabled then
    let (move, ctx) := drum.requested jumpEdge jogEdge ctx
    (some move, ctx)
  else (some .stay, ctx)

/-- Writes the step after a move. Advancing past the last step sets completion instead. -/
def applyMove (drum : DrumCore) (move : DrumMove) (ctx : ScanContext) : ScanContext :=
  let step := drum.currentStep ctx
  match move with
  | .stay => ctx.write drum.step (.int step)
  | .jumpTo target => (ctx.write drum.step (.int target)).write drum.completion (.bool false)
  | .advance =>
    if step < drum.steps then ctx.write drum.step (.int (step + 1))
    else (ctx.write drum.step (.int step)).write drum.completion (.bool true)

/-- Makes the move and, while enabled, drives the outputs of the step that results. A drum that
moved waits for a fresh event. -/
def finish (drum : DrumCore) (id : InstructionId) (enabled : Bool) (move : DrumMove)
    (ctx : ScanContext) : ScanContext :=
  let ctx := drum.applyMove move ctx
  let ctx := if move = .stay then ctx else ctx.setMemory (armedKey id) (.bool false)
  if enabled then drum.driveOutputs (drum.currentStep ctx) ctx else ctx

/-- Whether the event or the time of the current step counts in this execution. -/
def isWaiting (drum : DrumCore) (enabled : Bool) (move : DrumMove) (ctx : ScanContext) : Bool :=
  enabled && decide (move = .stay) && !ctx.readBool drum.completion

end DrumCore

/-- Advances when the event of the current step goes from off to on. -/
structure EventDrum where
  core : DrumCore
  events : List Condition

namespace EventDrum

def make (core : DrumCore) (events : List Condition) : Except LadderError EventDrum :=
  if events.length = core.steps then .ok ⟨core, events⟩
  else .error (.lengthMismatch core.steps events.length)

def event (drum : EventDrum) (step : Int) (ctx : ScanContext) : Bool :=
  Condition.optionHolds ctx drum.events[(step - 1).toNat]?

/-- Looks at the event of the current step: on after it has been seen off, it advances the drum. -/
def watch (drum : EventDrum) (id : InstructionId) (ctx : ScanContext) : DrumMove × ScanContext :=
  if drum.event (drum.core.currentStep ctx) ctx then
    (if ctx.memoryBool (DrumCore.armedKey id) then .advance else .stay, ctx)
  else (.stay, ctx.setMemory (DrumCore.armedKey id) (.bool true))

def execute (drum : EventDrum) (id : InstructionId) (enabled : Bool) (ctx : ScanContext) :
    ScanContext :=
  match drum.core.begin id enabled ctx with
  | (none, ctx) => ctx
  | (some move, ctx) =>
    let (move, ctx) :=
      if drum.core.isWaiting enabled move ctx then drum.watch id ctx else (move, ctx)
    drum.core.finish id enabled move ctx

end EventDrum

/-- Advances when the time spent in the current step reaches its preset. -/
structure TimeDrum where
  core : DrumCore
  presets : List Expression
  unit : TimeUnit
  accumulator : Tag

namespace TimeDrum

def make (core : DrumCore) (presets : List Expression) (unit : TimeUnit) (accumulator : Tag) :
    Except LadderError TimeDrum := do
  if presets.length ≠ core.steps then throw (.lengthMismatch core.steps presets.length)
  if presets.any fun p => !p.isNumeric then throw (.invalidInstruction .textAsDrumPreset)
  accumulator.expectCounter
  return ⟨core, presets, unit, accumulator⟩

def clearTimer (drum : TimeDrum) (id : InstructionId) (ctx : ScanContext) : ScanContext :=
  (ctx.write drum.accumulator (.int 0)).setMemory (DrumCore.fracKey id) (.real 0.0)

def preset (drum : TimeDrum) (step : Int) (ctx : ScanContext) : Option Int × ScanContext :=
  match drum.presets[(step - 1).toNat]? with
  | some p => p.preset ctx
  | none => (none, ctx)

/-- Counts the time of the current step, unless its preset has no value. -/
def watch (drum : TimeDrum) (id : InstructionId) (ctx : ScanContext) : DrumMove × ScanContext :=
  match drum.preset (drum.core.currentStep ctx) ctx with
  | (none, ctx) => (.stay, ctx)
  | (some preset, ctx) =>
    let (count, ctx) :=
      Timer.accumulate ctx (DrumCore.fracKey id) (ctx.readInt drum.accumulator) drum.unit
    (if preset ≤ count then .advance else .stay, ctx.write drum.accumulator (.int count))

def execute (drum : TimeDrum) (id : InstructionId) (enabled : Bool) (ctx : ScanContext) :
    ScanContext :=
  match drum.core.begin id enabled ctx with
  | (none, ctx) => drum.clearTimer id ctx
  | (some move, ctx) =>
    let (move, ctx) :=
      if drum.core.isWaiting enabled move ctx then drum.watch id ctx else (move, ctx)
    let ctx := drum.core.finish id enabled move ctx
    if move = .stay then ctx else drum.clearTimer id ctx

end TimeDrum

end LadderLogic
