import LadderLogic.Instruction.Timer
import LadderLogic.Scan.Outcome

/-!
Counters. They are sensitive to levels: the accumulator moves by one in every scan in which its
condition holds. The new count and the negated preset have to be words; a scan in which one of them
is none overflows.
-/

set_option autoImplicit false

namespace LadderLogic

namespace Counter

def least : Int := -2147483648

def greatest : Int := 2147483647

def check (done accumulator : Tag) (preset : Expression) : Except LadderError Unit := do
  done.expectBool
  accumulator.expectCounter
  if preset.isNumeric then return ()
  else throw (.invalidInstruction (.textAsCounterPreset accumulator.name))

def clear (done accumulator : Tag) (ctx : ScanContext) : ScanContext :=
  (ctx.write accumulator (.int 0)).write done (.bool false)

/-- Stores a count, clamped into the DINT domain and then into that of the accumulator. -/
def store (accumulator : Tag) (count : Int) (ctx : ScanContext) : ScanContext :=
  ctx.write accumulator
    ((accumulator.type.storeCopy (.int (Integer.clamp least greatest count))).getD (.int 0))

/-- Moves the accumulator. -/
def move (accumulator : Tag) (delta : Int) (ctx : ScanContext) : Outcome :=
  ctx.onWord (ctx.readInt accumulator + delta) fun count => (store accumulator count ctx).proceed

/-- Goes on with the preset, if it has a value. -/
def onPreset (preset : Expression) (ctx : ScanContext) (next : Int → ScanContext → Outcome) :
    Outcome :=
  match preset.preset ctx with
  | (none, ctx) => ctx.proceed
  | (some preset, ctx) => next preset ctx

end Counter

/-- Counts up while enabled, and down while a condition holds. -/
structure CountUp where
  done : Tag
  accumulator : Tag
  preset : Expression
  down : Option Condition
  reset : Option Condition

namespace CountUp

def make (done accumulator : Tag) (preset : Expression) : Except LadderError CountUp := do
  Counter.check done accumulator preset
  return ⟨done, accumulator, preset, none, none⟩

def downWhen (counter : CountUp) (condition : Condition) : CountUp :=
  { counter with down := some condition }

def resetWhen (counter : CountUp) (condition : Condition) : CountUp :=
  { counter with reset := some condition }

def delta (counter : CountUp) (enabled : Bool) (ctx : ScanContext) : Int :=
  (if enabled then 1 else 0) - (if Condition.optionHolds ctx counter.down then 1 else 0)

/-- Done once the accumulator reaches the preset. -/
def finish (counter : CountUp) (ctx : ScanContext) : Outcome :=
  Counter.onPreset counter.preset ctx fun preset ctx =>
    (ctx.write counter.done (.bool (preset ≤ ctx.readInt counter.accumulator))).proceed

def execute (counter : CountUp) (enabled : Bool) (ctx : ScanContext) : Outcome :=
  if Condition.optionHolds ctx counter.reset then
    (Counter.clear counter.done counter.accumulator ctx).proceed
  else
    (Counter.move counter.accumulator (counter.delta enabled ctx) ctx).andThen counter.finish

end CountUp

/-- Counts down from zero; done once the accumulator reaches the negated preset. -/
structure CountDown where
  done : Tag
  accumulator : Tag
  preset : Expression
  reset : Option Condition

namespace CountDown

def make (done accumulator : Tag) (preset : Expression) : Except LadderError CountDown := do
  Counter.check done accumulator preset
  return ⟨done, accumulator, preset, none⟩

def resetWhen (counter : CountDown) (condition : Condition) : CountDown :=
  { counter with reset := some condition }

/-- The counter after it has counted. -/
def moved (counter : CountDown) (enabled : Bool) (ctx : ScanContext) : Outcome :=
  if enabled then Counter.move counter.accumulator (-1) ctx else ctx.proceed

/-- Done once the accumulator reaches the negated preset. -/
def finish (counter : CountDown) (ctx : ScanContext) : Outcome :=
  Counter.onPreset counter.preset ctx fun preset ctx =>
    ctx.onWord (-preset) fun bound =>
      (ctx.write counter.done (.bool (ctx.readInt counter.accumulator ≤ bound))).proceed

def execute (counter : CountDown) (enabled : Bool) (ctx : ScanContext) : Outcome :=
  if Condition.optionHolds ctx counter.reset then
    (Counter.clear counter.done counter.accumulator ctx).proceed
  else (counter.moved enabled ctx).andThen counter.finish

end CountDown

end LadderLogic
