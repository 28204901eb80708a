import LadderLogic.Instruction.Calc
import LadderLogic.Instruction.Counter
import LadderLogic.Instruction.Drum
import LadderLogic.Instruction.HostFunction
import LadderLogic.Instruction.Pack
import LadderLogic.Instruction.Search
import LadderLogic.Instruction.Shift

/-!
Instructions: an operation, or a loop over instructions, with a handle and a oneshot flag. What an
instruction remembers between scans is kept in the runtime table or in memory, never in itself.
-/

set_option autoImplicit false

namespace LadderLogic

inductive Operation where
  | out (op : Out)
  | latch (op : Latch)
  | reset (op : Reset)
  | copy (op : SingleCopy)
  | blockCopy (op : BlockCopy)
  | fill (op : Fill)
  | calculate (op : Calc)
  | onDelay (op : OnDelay)
  | offDelay (op : OffDelay)
  | countUp (op : CountUp)
  | countDown (op : CountDown)
  | shift (op : Shift)
  | eventDrum (op : EventDrum)
  | timeDrum (op : TimeDrum)
  | search (op : Search)
  | packBits (op : PackBits)
  | packWords (op : PackWords)
  | unpackToBits (op : UnpackToBits)
  | unpackToWords (op : UnpackToWords)
  | packText (op : PackText)
  | callSubroutine (name : String)
  | leaveSubroutine
  | runFunction (op : RunFunction)
  | runEnabledFunction (op : RunEnabledFunction)

/-- How a CALL of a named subroutine runs. -/
abbrev Subroutines := String → ScanContext → Outcome

namespace Operation

def name : Operation → String
  | out _ => "out"
  | latch _ => "latch"
  | reset _ => "reset"
  | copy _ => "copy"
  | blockCopy _ => "blockcopy"
  | fill _ => "fill"
  | calculate _ => "calc"
  | onDelay _ => "on_delay"
  | offDelay _ => "off_delay"
  | countUp _ => "count_up"
  | countDown _ => "count_down"
  | shift _ => "shift"
  | eventDrum _ => "event_drum"
  | timeDrum _ => "time_drum"
  | search _ => "search"
  | packBits _ => "pack_bits"
  | packWords _ => "pack_words"
  | unpackToBits _ => "unpack_to_bits"
  | unpackToWords _ => "unpack_to_words"
  | packText _ => "pack_text"
  | callSubroutine _ => "call"
  | leaveSubroutine => "return"
  | runFunction _ => "run_function"
  | runEnabledFunction _ => "run_enabled_function"

/-- Whether the operation runs on a false rung too, to reset or to hold what it remembers. -/
def alwaysExecutes : Operation → Bool
  | onDelay _ | offDelay _ | countUp _ | countDown _ | shift _ | eventDrum _ | timeDrum _
  | runEnabledFunction _ => true
  | _ => false

/-- Whether the operation has nothing to do on a false rung. -/
def inertWhenDisabled (op : Operation) : Bool :=
  !op.alwaysExecutes &&
    match op with
    | out _ => false
    | _ => true

def isTerminal : Operation → Bool
  | eventDrum _ | timeDrum _ => true
  | _ => false

def supportsOneshot (op : Operation) : Bool :=
  !op.alwaysExecutes &&
    match op with
    | callSubroutine _ | leaveSubroutine => false
    | _ => true

/-- The conditions inside the operation: clocks, resets, events. -/
def conditions : Operation → List Condition
  | onDelay op => op.reset.toList
  | countUp op => op.down.toList ++ op.reset.toList
  | countDown op => op.reset.toList
  | shift op => op.clock :: op.reset.toList
  | eventDrum op => op.events ++ op.core.conditions
  | timeDrum op => op.core.conditions
  | _ => []

def execute (op : Operation) (subroutines : Subroutines) (id : InstructionId) (enabled : Bool)
    (ctx : ScanContext) : Outcome :=
  match op with
  | out op => op.execute enabled ctx
  | latch op => op.execute ctx
  | reset op => op.execute ctx
  | copy op => op.execute ctx
  | blockCopy op => op.execute ctx
  | fill op => op.execute ctx
  | calculate op => (op.execute ctx).proceed
  | onDelay op => (op.execute enabled ctx).proceed
  | offDelay op => (op.execute enabled ctx).proceed
  | countUp op => op.execute enabled ctx
  | countDown op => op.execute enabled ctx
  | shift op => op.execute id enabled ctx
  | eventDrum op => (op.execute id enabled ctx).proceed
  | timeDrum op => (op.execute id enabled ctx).proceed
  | search op => op.execute ctx
  | packBits op => op.execute ctx
  | packWords op => op.execute ctx
  | unpackToBits op => op.execute ctx
  | unpackToWords op => op.execute ctx
  | packText op => op.execute ctx
  | callSubroutine name => subroutines name ctx
  | leaveSubroutine => ctx.leave
  | runFunction op => (op.execute ctx).proceed
  | runEnabledFunction op => (op.execute enabled ctx).proceed

end Operation

/-- The head of a loop: how often it runs, and the tag that receives the number of each pass. -/
structure ForHead where
  count : Expression
  index : Tag

namespace ForHead

def make (count : Expression) (index : Tag) : Except LadderError ForHead := do
  if !count.isNumeric then throw (.invalidInstruction .textAsLoopCount)
  index.expectCounter
  return ⟨count, index⟩

/-- The number of passes. A count above the limit is clamped and raises a fault, a negative one
gives no pass, and so does one that cannot be evaluated. -/
def passes (head : ForHead) (limit : Nat) (ctx : ScanContext) : Nat × ScanContext :=
  match head.count.evaluate ctx with
  | .error e => (0, ctx.raise e.fault)
  | .ok v =>
    let count := v.toInt?.getD 0
    if (limit : Int) < count then
      (limit, (ctx.report (.loopClamped count limit)).raise .outOfRange)
    else (count.toNat, ctx)

def writeIndex (head : ForHead) (pass : Nat) (ctx : ScanContext) : ScanContext :=
  match head.index.type.storeCopy (.int pass) with
  | some v => ctx.write head.index v
  | none => ctx

end ForHead

inductive Instruction where
  | single (id : InstructionId) (oneshot : Bool) (op : Operation)
  | loop (id : InstructionId) (oneshot : Bool) (head : ForHead) (body : List Instruction)

namespace Instruction

/-- An instruction outside any program. -/
def ofOperation (op : Operation) : Instruction := single 0 false op

def ofLoop (head : ForHead) (body : List Instruction) : Instruction := loop 0 false head body

def id : Instruction → InstructionId
  | single id _ _ => id
  | loop id _ _ _ => id

def oneshot : Instruction → Bool
  | single _ oneshot _ => oneshot
  | loop _ oneshot _ _ => oneshot

def name : Instruction → String
  | single _ _ op => op.name
  | loop _ _ _ _ => "for"

def alwaysExecutes : Instruction → Bool
  | single _ _ op => op.alwaysExecutes
  | loop _ _ _ _ => false

def inertWhenDisabled : Instruction → Bool
  | single _ _ op => op.inertWhenDisabled
  | loop _ _ _ _ => false

def isTerminal : Instruction → Bool
  | single _ _ op => op.isTerminal
  | loop _ _ _ _ => false

def supportsOneshot : Instruction → Bool
  | single _ _ op => op.supportsOneshot
  | loop _ _ _ _ => true

def conditions : Instruction → List Condition
  | single _ _ op => op.conditions
  | loop _ _ _ _ => []

def children : Instruction → List Instruction
  | single _ _ _ => []
  | loop _ _ _ body => body

/-- Lets the instruction act once per activation instead of in every enabled scan. -/
def withOneshot (i : Instruction) : Except LadderError Instruction :=
  if i.supportsOneshot then
    match i with
    | single id _ op => .ok (single id true op)
    | loop id _ head body => .ok (loop id true head body)
  else .error (.invalidInstruction (.oneshotUnsupported i.name))

mutual

/-- The instruction and all inside it, in the order of their handles. -/
def flatten : Instruction → List Instruction
  | single id oneshot op => [single id oneshot op]
  | loop id oneshot head body => loop id oneshot head body :: flattenAll body

def flattenAll : List Instruction → List Instruction
  | [] => []
  | i :: is => i.flatten ++ flattenAll is

end

mutual

/-- Gives the instruction the handle `next`, those inside it the following ones, and returns the
first handle that is still free. -/
def number (next : InstructionId) : Instruction → Instruction × InstructionId
  | single _ oneshot op => (single next oneshot op, next + 1)
  | loop _ oneshot head body =>
    let (body, free) := numberAll (next + 1) body
    (loop next oneshot head body, free)

def numberAll (next : InstructionId) : List Instruction → List Instruction × InstructionId
  | [] => ([], next)
  | i :: is =>
    let (i, next) := i.number next
    let (is, next) := numberAll next is
    (i :: is, next)

end

/-- What surrounds an instruction while it runs: the limit on loops and the subroutines. -/
structure Surroundings where
  loopLimit : Nat
  subroutines : Subroutines

/-- The gate of a oneshot. Disabled executions re-arm it; the first enabled one after that runs
`act`, and every further one runs `spent` instead. Without a oneshot every enabled execution
acts. -/
def gate {α : Type} (id : InstructionId) (oneshot enabled : Bool)
    (act idle spent : ScanContext → α) (ctx : ScanContext) : α :=
  if enabled then
    if oneshot then
      if ctx.oneshotFired id then spent ctx else act (ctx.setOneshot id true)
    else act ctx
  else idle (if oneshot then ctx.setOneshot id false else ctx)

/-- An operation under its gate. An OUT that has fired is off again, as a pulse of one scan. -/
def executeSingle (env : Surroundings) (id : InstructionId) (oneshot : Bool) (op : Operation)
    (enabled : Bool) : ScanContext → Outcome :=
  gate id oneshot enabled
    (op.execute env.subroutines id true)
    (fun ctx => if op.inertWhenDisabled then ctx.proceed
      else op.execute env.subroutines id false ctx)
    (fun ctx => match op with
      | .out coil => coil.execute false ctx
      | _ => ctx.proceed)

def executePasses (env : Surroundings) (head : ForHead) (body : ScanContext → Outcome)
    (ctx : ScanContext) : Outcome :=
  let (passes, ctx) := head.passes env.loopLimit ctx
  ctx.runPasses (fun pass ctx => body (head.writeIndex pass ctx)) passes 0

mutual

def execute (env : Surroundings) (enabled : Bool) : Instruction → ScanContext → Outcome
  | single id oneshot op => executeSingle env id oneshot op enabled
  | loop id oneshot head body =>
    gate id oneshot enabled
      (executePasses env head (executeAll env true body))
      (executeAll env false body)
      ScanContext.proceed

/-- The instructions of a loop body, one after the other. -/
def executeAll (env : Surroundings) (enabled : Bool) : List Instruction → ScanContext → Outcome
  | [], ctx => ctx.proceed
  | i :: is, ctx => (i.execute env enabled ctx).andThen (executeAll env enabled is)

end

end Instruction

end LadderLogic
