import LadderLogic.Notice
import LadderLogic.State

/-!
The transaction of one scan over a committed state. Writes go to an overlay, later reads of the
same scan see them, and `commit` merges them into the next state.
-/

set_option autoImplicit false

namespace LadderLogic

/-- For each instruction with an entry, whether its oneshot has fired. The table belongs to whoever
drives the scans. -/
abbrev RuntimeTable := Std.ExtTreeMap Nat Bool

namespace RuntimeTable

def fired (r : RuntimeTable) (id : InstructionId) : Bool := (r[id]?).getD false

/-- The table with an entry for the instruction, which has not fired if it is new. -/
def withEntry (r : RuntimeTable) (id : InstructionId) : RuntimeTable := r.insertIfNew id false

/-- Records whether the oneshot has fired. Clearing one that has no entry makes none. -/
def setOneshot (r : RuntimeTable) (id : InstructionId) (fired : Bool) : RuntimeTable :=
  if fired || r.contains id then r.insert id fired else r

def firedIds (r : RuntimeTable) : List InstructionId :=
  r.toList.filterMap fun (id, fired) => if fired then some id else none

end RuntimeTable

/-- Tags watched for edges, with the level that each reads as while it is unwritten. -/
abbrev EdgeTags := Std.ExtTreeMap String Bool

/-- The last mention of a tag decides on its level. -/
def EdgeTags.ofMentions (mentions : List (String × Bool)) : EdgeTags :=
  Std.ExtTreeMap.ofList mentions

structure ScanContext where
  state : SystemState
  runtime : RuntimeTable
  tags : ValueMap
  memory : ValueMap
  edgeTags : EdgeTags
  callDepth : Nat
  notices : Array Notice

namespace ScanContext

/-- A context on a state, with nothing written. -/
def start (state : SystemState) (runtime : RuntimeTable) : ScanContext :=
  ⟨state, runtime, ∅, ∅, ∅, 0, #[]⟩

def tag? (ctx : ScanContext) (name : String) : Option Value :=
  (ctx.tags[name]?).or (ctx.state.tags[name]?)

def getTag (ctx : ScanContext) (name : String) (fallback : Value) : Value :=
  (ctx.tag? name).getD fallback

def read (ctx : ScanContext) (tag : Tag) : Value := ctx.getTag tag.name tag.initial

def readBool (ctx : ScanContext) (tag : Tag) : Bool := (ctx.read tag).isTruthy

/-- The current value of a tag as an integer; what is none reads as zero. -/
def readInt (ctx : ScanContext) (tag : Tag) : Int := (ctx.read tag).toInt?.getD 0

def setTag (ctx : ScanContext) (name : String) (value : Value) : ScanContext :=
  { ctx with tags := ctx.tags.insert name value }

def setTags (ctx : ScanContext) (values : ValueMap) : ScanContext :=
  { ctx with tags := ctx.tags ∪ values }

def write (ctx : ScanContext) (tag : Tag) (value : Value) : ScanContext :=
  ctx.setTag tag.name value

def writeAll (ctx : ScanContext) (writes : List (Tag × Value)) : ScanContext :=
  writes.foldl (fun c w => c.write w.1 w.2) ctx

def memory? (ctx : ScanContext) (key : String) : Option Value :=
  (ctx.memory[key]?).or (ctx.state.memory[key]?)

def getMemory (ctx : ScanContext) (key : String) (fallback : Value) : Value :=
  (ctx.memory? key).getD fallback

/-- A memory cell as a real; what is none, or missing, reads as zero. -/
def memoryReal (ctx : ScanContext) (key : String) : Float :=
  ((ctx.memory? key).bind Value.toReal?).getD 0.0

def memoryBool (ctx : ScanContext) (key : String) : Bool :=
  ((ctx.memory? key).map Value.isTruthy).getD false

def setMemory (ctx : ScanContext) (key : String) (value : Value) : ScanContext :=
  { ctx with memory := ctx.memory.insert key value }

/-- Stages the time step of the running scan, for timers to read. -/
def setDt (ctx : ScanContext) (dt : Float) : ScanContext := ctx.setMemory dtKey (.real dt)

def dt (ctx : ScanContext) : Float := ctx.memoryReal dtKey

/-- Adds tags whose level the commit records. -/
def watch (ctx : ScanContext) (edges : EdgeTags) : ScanContext :=
  { ctx with edgeTags := ctx.edgeTags ∪ edges }

def report (ctx : ScanContext) (notice : Notice) : ScanContext :=
  { ctx with notices := ctx.notices.push notice }

def raise (ctx : ScanContext) (fault : Fault) : ScanContext :=
  (ctx.report (.faultRaised ctx.state.scanId fault)).setTag fault.tagName (.bool true)

def clearFaults (ctx : ScanContext) : ScanContext :=
  Fault.all.foldl (fun c f => c.setTag f.tagName (.bool false)) ctx

def faultActive (ctx : ScanContext) (fault : Fault) : Bool :=
  ((ctx.tag? fault.tagName).map Value.isTruthy).getD false

def oneshotFired (ctx : ScanContext) (id : InstructionId) : Bool := ctx.runtime.fired id

def setOneshot (ctx : ScanContext) (id : InstructionId) (fired : Bool) : ScanContext :=
  { ctx with runtime := ctx.runtime.setOneshot id fired }

def enterCall (ctx : ScanContext) : ScanContext := { ctx with callDepth := ctx.callDepth + 1 }

def exitCall (ctx : ScanContext) : ScanContext := { ctx with callDepth := ctx.callDepth - 1 }

/-- Whether the next state has the same tags because none was written. -/
def tagsUntouched (ctx : ScanContext) : Bool := ctx.tags.isEmpty

/-- All tags as the running scan sees them. -/
def currentTags (ctx : ScanContext) : ValueMap := ctx.state.tags ∪ ctx.tags

def levelOf (ctx : ScanContext) (name : String) (unwritten : Bool) : Bool :=
  ((ctx.tag? name).map Value.isTruthy).getD unwritten

/-- The memory cells of the watched tags at the end of the scan. -/
def edgeMemory (ctx : ScanContext) : List (String × Value) :=
  ctx.edgeTags.toList.map fun (name, unwritten) =>
    (prevKey name, .bool (ctx.levelOf name unwritten))

/-- The next state: the overlay over the old one, the time step, and the level of every watched
tag. -/
def commit (ctx : ScanContext) (dt : Float) : SystemState where
  scanId := ctx.state.scanId + 1
  timestamp := ctx.state.timestamp + dt
  tags := ctx.currentTags
  memory := ((ctx.state.memory ∪ ctx.memory).insert dtKey (.real dt)).insertMany ctx.edgeMemory

end ScanContext

end LadderLogic
