import LadderLogic.Config
import LadderLogic.Rung

/-!
Programs: main rungs and named subroutines. Building one refuses malformed ladders and gives every
instruction its handle.
-/

set_option autoImplicit false

namespace LadderLogic

/-- A program before it is checked. -/
structure Draft where
  rungs : List Rung
  subroutines : Std.ExtTreeMap String (List Rung)
  limits : Limits
  statusTags : Bool

/-- A checked program. Its subroutines are in the order of their names, each name once. -/
structure Program where
  rungs : List Rung
  subroutines : List (String × List Rung)
  /-- The tags whose level every commit records. -/
  edgeTags : EdgeTags
  limits : Limits
  statusTags : Bool
  instructionCount : Nat

namespace Draft

def empty : Draft := ⟨[], ∅, .defaults, true⟩

def withRung (d : Draft) (r : Rung) : Draft := { d with rungs := d.rungs ++ [r] }

/-- Adds a subroutine; one of the same name is replaced. -/
def withSubroutine (d : Draft) (name : String) (rungs : List Rung) : Draft :=
  { d with subroutines := d.subroutines.insert name rungs }

/-- What an operation needs of its place: a drum comes last, a CALL has its subroutine, a RETURN is
in one. -/
def checkOperation (d : Draft) (inSubroutine last : Bool) (op : Operation) :
    Except LadderError Unit :=
  if op.isTerminal && !last then .error (.terminalNotLast op.name)
  else
    match op with
    | .callSubroutine name =>
      if d.subroutines.contains name then .ok () else .error (.unknownSubroutine name)
    | .leaveSubroutine => if inSubroutine then .ok () else .error .returnOutsideSubroutine
    | _ => .ok ()

mutual

def checkInstruction (d : Draft) (inSubroutine last : Bool) :
    Instruction → Except LadderError Unit
  | .single _ _ op => d.checkOperation inSubroutine last op
  | .loop _ _ _ body => d.checkBody inSubroutine body

def checkBody (d : Draft) (inSubroutine : Bool) : List Instruction → Except LadderError Unit
  | [] => .ok ()
  | i :: is => do
    d.checkInstruction inSubroutine is.isEmpty i
    d.checkBody inSubroutine is

end

mutual

def checkItem (d : Draft) (inSubroutine last : Bool) : RungItem → Except LadderError Unit
  | .instruction i => d.checkInstruction inSubroutine last i
  | .branch _ items => d.checkItems inSubroutine items

def checkItems (d : Draft) (inSubroutine : Bool) : List RungItem → Except LadderError Unit
  | [] => .ok ()
  | item :: items => do
    d.checkItem inSubroutine items.isEmpty item
    d.checkItems inSubroutine items

end

def checkRungs (d : Draft) (inSubroutine : Bool) (rungs : List Rung) : Except LadderError Unit :=
  rungs.forM fun r => d.checkItems inSubroutine r.items

/-- The first thing that is wrong, in the main rungs and then in the subroutines by name. -/
def check (d : Draft) : Except LadderError Unit := do
  d.checkRungs false d.rungs
  d.subroutines.toList.forM fun s => d.checkRungs true s.2

/-- Gives the instructions of the subroutines their handles. -/
def numberSubroutines (next : InstructionId) :
    List (String × List Rung) → List (String × List Rung) × InstructionId
  | [] => ([], next)
  | (name, rungs) :: rest =>
    let (rungs, next) := Rung.numberAll next rungs
    let (rest, next) := numberSubroutines next rest
    ((name, rungs) :: rest, next)

/-- The program of a checked draft. Handles count from zero through the main rungs and then through
the subroutines by name. -/
def assemble (d : Draft) : Program :=
  let (rungs, next) := Rung.numberAll 0 d.rungs
  let (subroutines, count) := numberSubroutines next d.subroutines.toList
  { rungs, subroutines, limits := d.limits, statusTags := d.statusTags, instructionCount := count
    edgeTags := .ofMentions ((rungs ++ subroutines.flatMap Prod.snd).flatMap Rung.edges) }

def build (d : Draft) : Except LadderError Program := do
  d.check
  return d.assemble

end Draft

namespace Program

def subroutine? (p : Program) (name : String) : Option (List Rung) := p.subroutines.lookup name

/-- All rungs, those of subroutines by name after the main ones. -/
def allRungs (p : Program) : List Rung := p.rungs ++ p.subroutines.flatMap Prod.snd

def instructions (p : Program) : List Instruction := p.allRungs.flatMap Rung.instructions

def builtNotice (p : Program) : Notice :=
  .programBuilt p.rungs.length p.subroutines.length p.instructionCount

end Program

end LadderLogic
