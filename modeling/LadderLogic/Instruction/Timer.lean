import LadderLogic.Condition

/-!
On-delay, retentive on-delay and off-delay timers. The time step is converted into units and added
to the accumulator; the fraction of a unit that is left over is kept in memory, so that uneven
steps add up exactly.
-/

set_option autoImplicit false

namespace LadderLogic

inductive TimeUnit where
  | ms
  | sec
  | min
  | hour
  | day
  deriving DecidableEq, Repr

namespace TimeUnit

def all : List TimeUnit := [ms, sec, min, hour, day]

def name : TimeUnit → String
  | ms => "ms"
  | sec => "sec"
  | min => "min"
  | hour => "hour"
  | day => "day"

def perSecond : TimeUnit → Float
  | ms => 1000.0
  | sec => 1.0
  | min => 1.0 / 60.0
  | hour => 1.0 / 3600.0
  | day => 1.0 / 86400.0

end TimeUnit

namespace Timer

/-- Accumulators saturate here. -/
def greatest : Int := 32767

/-- The real itself if it is positive, and zero otherwise. -/
def nonNegative (x : Float) : Float := if 0.0 < x then x else 0.0

/-- The carried fraction and the time step together, in units. -/
def elapsed (carry dt : Float) (unit : TimeUnit) : Float :=
  carry + nonNegative dt * unit.perSecond

/-- A total within a billionth of a whole unit below counts as that unit. -/
def wholeUnits (total : Float) : Float := Binary.floor (total + 1e-9)

/-- Adds the whole units of the time step to `current` and keeps the rest under `key`. -/
def accumulate (ctx : ScanContext) (key : String) (current : Int) (unit : TimeUnit) :
    Int × ScanContext :=
  let total := elapsed (ctx.memoryReal key) ctx.dt unit
  let whole := wholeUnits total
  (min (Integer.saturate (current + Binary.toInteger whole)) greatest,
    ctx.setMemory key (.real (nonNegative (total - whole))))

def check (done accumulator : Tag) (preset : Expression) : Except LadderError Unit := do
  done.expectBool
  accumulator.expectCounter
  if preset.isNumeric then return ()
  else throw (.invalidInstruction (.textAsTimerPreset accumulator.name))

end Timer

/-- The preset as an integer, `none` if it has none. A faulting operand raises its fault. -/
def Expression.preset (e : Expression) (ctx : ScanContext) : Option Int × ScanContext :=
  match e.evaluate ctx with
  | .ok v => (v.toInt?, ctx)
  | .error fault => (none, ctx.raise fault.fault)

/-- Counts while enabled. With a reset condition it is retentive: it holds while disabled and is
cleared only by the condition. -/
structure OnDelay where
  done : Tag
  accumulator : Tag
  preset : Expression
  unit : TimeUnit
  reset : Option Condition

namespace OnDelay

def make (done accumulator : Tag) (preset : Expression) (unit : TimeUnit) :
    Except LadderError OnDelay := do
  Timer.check done accumulator preset
  return ⟨done, accumulator, preset, unit, none⟩

def resetWhen (timer : OnDelay) (condition : Condition) : OnDelay :=
  { timer with reset := some condition }

def clear (timer : OnDelay) (ctx : ScanContext) : ScanContext :=
  ((ctx.write timer.accumulator (.int 0)).write timer.done (.bool false)).setMemory
    (fracKey timer.accumulator.name) (.real 0.0)

/-- An enabled execution. -/
def advance (timer : OnDelay) (ctx : ScanContext) : ScanContext :=
  match timer.preset.preset ctx with
  | (none, ctx) => ctx
  | (some preset, ctx) =>
    let (count, ctx) :=
      Timer.accumulate ctx (fracKey timer.accumulator.name) (ctx.readInt timer.accumulator)
        timer.unit
    (ctx.write timer.accumulator (.int count)).write timer.done (.bool (preset ≤ count))

def execute (timer : OnDelay) (enabled : Bool) (ctx : ScanContext) : ScanContext :=
  if Condition.optionHolds ctx timer.reset then timer.clear ctx
  else if enabled then timer.advance ctx
  else if timer.reset.isNone then timer.clear ctx
  else ctx

end OnDelay

/-- On while enabled, and for the preset time after that. -/
structure OffDelay where
  done : Tag
  accumulator : Tag
  preset : Expression
  unit : TimeUnit

namespace OffDelay

def make (done accumulator : Tag) (preset : Expression) (unit : TimeUnit) :
    Except LadderError OffDelay := do
  Timer.check done accumulator preset
  return ⟨done, accumulator, preset, unit⟩

/-- A disabled execution while done. -/
def advance (timer : OffDelay) (ctx : ScanContext) : ScanContext :=
  match timer.preset.preset ctx with
  | (none, ctx) => ctx
  | (some preset, ctx) =>
    let (count, ctx) :=
      Timer.accumulate ctx (fracKey timer.accumulator.name) (ctx.readInt timer.accumulator)
        timer.unit
    let ctx := ctx.write timer.accumulator (.int count)
    if preset ≤ count then ctx.write timer.done (.bool false) else ctx

def execute (timer : OffDelay) (enabled : Bool) (ctx : ScanContext) : ScanContext :=
  if enabled then
    ((ctx.write timer.done (.bool true)).write timer.accumulator (.int 0)).setMemory
      (fracKey timer.accumulator.name) (.real 0.0)
  else if ctx.readBool timer.done then timer.advance ctx
  else ctx

end OffDelay

end LadderLogic
