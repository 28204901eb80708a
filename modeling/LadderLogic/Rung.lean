import LadderLogic.Instruction

/-!
Rungs: conditions that gate an ordered list of instructions and branches. All enables are decided
when the rung is entered, so what its instructions write never changes them.
-/

set_option autoImplicit false

namespace LadderLogic

/-- What a rung runs in order. A branch runs with the enable of what surrounds it and its own
conditions. -/
inductive RungItem where
  | instruction (i : Instruction)
  | branch (conditions : List Condition) (items : List RungItem)

structure Rung where
  conditions : List Condition
  items : List RungItem

namespace RungItem

/-- A rung inside another one. -/
def ofRung (r : Rung) : RungItem := branch r.conditions r.items

mutual

/-- The enable of every branch, an outer one before those inside it. -/
def enables (ctx : ScanContext) (enabled : Bool) : RungItem → List Bool
  | instruction _ => []
  | branch conditions items =>
    let own := enabled && Condition.allHold ctx conditions
    own :: enablesOfAll ctx own items

def enablesOfAll (ctx : ScanContext) (enabled : Bool) : List RungItem → List Bool
  | [] => []
  | item :: items => item.enables ctx enabled ++ enablesOfAll ctx enabled items

end

mutual

/-- Runs an item. Every branch on the way takes the next of the enables that were decided before,
and those that are left are returned. -/
def run (env : Instruction.Surroundings) (enabled : Bool) :
    RungItem → List Bool → ScanContext → List Bool × Outcome
  | instruction i, decided, ctx => (decided, i.execute env enabled ctx)
  | branch _ items, decided, ctx => runAll env (decided.headD false) items decided.tail ctx

def runAll (env : Instruction.Surroundings) (enabled : Bool) :
    List RungItem → List Bool → ScanContext → List Bool × Outcome
  | [], decided, ctx => (decided, ctx.proceed)
  | item :: items, decided, ctx =>
    match item.run env enabled decided ctx with
    | (decided, ⟨ctx, .proceed⟩) => runAll env enabled items decided ctx
    | stopped => stopped

end

mutual

/-- The instructions inside, in the order of their handles. -/
def instructions : RungItem → List Instruction
  | instruction i => i.flatten
  | branch _ items => instructionsOfAll items

def instructionsOfAll : List RungItem → List Instruction
  | [] => []
  | item :: items => item.instructions ++ instructionsOfAll items

end

mutual

/-- Gives the instructions inside their handles, from `next` on, and returns the first handle that
is still free. -/
def number (next : InstructionId) : RungItem → RungItem × InstructionId
  | instruction i =>
    let (i, free) := i.number next
    (instruction i, free)
  | branch conditions items =>
    let (items, free) := numberAll next items
    (branch conditions items, free)

def numberAll (next : InstructionId) : List RungItem → List RungItem × InstructionId
  | [] => ([], next)
  | item :: items =>
    let (item, next) := item.number next
    let (items, next) := numberAll next items
    (item :: items, next)

end

mutual

/-- The edges that a branch mentions: in its conditions, in its branches, and last in all its
instructions. -/
def branchEdges : RungItem → List (String × Bool)
  | instruction _ => []
  | branch conditions items =>
    Condition.edgesOfAll conditions ++ branchEdgesOfAll items ++
      (instructionsOfAll items).flatMap fun i => Condition.edgesOfAll i.conditions

def branchEdgesOfAll : List RungItem → List (String × Bool)
  | [] => []
  | item :: items => item.branchEdges ++ branchEdgesOfAll items

end

end RungItem

namespace Rung

def enabled (r : Rung) (ctx : ScanContext) : Bool := Condition.allHold ctx r.conditions

/-- Decides all enables, then runs the items. -/
def execute (env : Instruction.Surroundings) (r : Rung) (ctx : ScanContext) : Outcome :=
  let enabled := r.enabled ctx
  (RungItem.runAll env enabled r.items (RungItem.enablesOfAll ctx enabled r.items) ctx).2

def executeAll (env : Instruction.Surroundings) : List Rung → ScanContext → Outcome
  | [], ctx => ctx.proceed
  | r :: rs, ctx => (r.execute env ctx).andThen (executeAll env rs)

def instructions (r : Rung) : List Instruction := RungItem.instructionsOfAll r.items

def number (next : InstructionId) (r : Rung) : Rung × InstructionId :=
  let (items, free) := RungItem.numberAll next r.items
  (⟨r.conditions, items⟩, free)

def numberAll (next : InstructionId) : List Rung → List Rung × InstructionId
  | [] => ([], next)
  | r :: rs =>
    let (r, next) := r.number next
    let (rs, next) := numberAll next rs
    (r :: rs, next)

/-- The tags whose edges the rung watches. Of several mentions of a tag the last one counts. -/
def edges (r : Rung) : List (String × Bool) := (RungItem.ofRung r).branchEdges

end Rung

end LadderLogic
