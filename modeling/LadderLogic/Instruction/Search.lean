import LadderLogic.Instruction.Coil

/-!
SEARCH finds the first matching cell of a range and reports its address.
-/

set_option autoImplicit false

namespace LadderLogic

inductive SearchPattern where
  /-- The first cell that compares so with the value. -/
  | number (op : Comparison) (value : Expression)
  /-- The first cell where the cells from there on hold the text, or do not hold it. -/
  | text (op : Comparison) (text : String)

/-- A continuous search goes on after its last result: zero starts anew, `-1` stays exhausted. -/
structure Search where
  range : RangeRef
  pattern : SearchPattern
  result : Tag
  found : Tag
  continuous : Bool

namespace Search

def isPattern (s : String) : Bool :=
  s != "" && s.toList.all fun c => decide (c.toNat < 128)

def make (range : RangeRef) (pattern : SearchPattern) (result found : Tag) :
    Except LadderError Search := do
  result.expectCounter
  found.expectBool
  match pattern with
  | .number _ value =>
    if !(range.type.isNumeric && value.isNumeric) then
      throw (.invalidInstruction (.numberSearchOnText range.block.name range.type))
  | .text op text =>
    range.expect [.char] "CHAR"
    if !op.isEquality then throw (.invalidInstruction (.orderingInTextSearch op))
    if !isPattern text then throw (.invalidInstruction .searchPattern)
  return ⟨range, pattern, result, found, false⟩

def asContinuous (search : Search) : Search := { search with continuous := true }

def report (search : Search) (hit : Option Int) (ctx : ScanContext) : ScanContext :=
  (ctx.write search.result (.int (hit.getD (-1)))).write search.found (.bool hit.isSome)

/-- Whether an address lies behind the last result in the order of the range. -/
def isPast (reversed : Bool) (last address : Int) : Bool :=
  if reversed then address < last else last < address

/-- The cells that are still to be searched; `none` if a continuous search is exhausted. -/
def remaining? (search : Search) (cells : BlockRange) (ctx : ScanContext) : Option (List Int) :=
  if search.continuous then
    let last := ctx.readInt search.result
    if last = 0 then some cells.addresses
    else if last = -1 then none
    else some (cells.addresses.dropWhile fun a => !isPast cells.reversed last a)
  else some cells.addresses

/-- The first address from which on the cells start with the pattern, or do not start with it. Only
places with enough cells left are looked at. -/
def findWindow (pattern : List Char) (wanted : Bool) : List (Int × Option Char) → Option Int
  | [] => none
  | (address, cell) :: rest =>
    let window := (cell :: rest.map Prod.snd).take pattern.length
    if window.length < pattern.length then none
    else if (window == pattern.map some) == wanted then some address
    else findWindow pattern wanted rest

/-- The hit among the remaining cells, or the fault of the operand. -/
def hit (search : Search) (block : Block) (addresses : List Int) (ctx : ScanContext) :
    Except Fault (Option Int) :=
  match search.pattern with
  | .number op value =>
    match value.evaluate ctx with
    | .error e => .error e.fault
    | .ok wanted =>
      .ok (addresses.find? fun a => op.apply (ctx.read (block.cell a)) wanted == some true)
  | .text op text =>
    .ok (findWindow text.toList (op == .eq)
      (addresses.map fun a => (a, (ctx.read (block.cell a)).firstChar?)))

def run (search : Search) (cells : BlockRange) (ctx : ScanContext) : ScanContext :=
  match search.remaining? cells ctx with
  | none => search.report none ctx
  | some addresses =>
    match search.hit cells.block addresses ctx with
    | .ok address => search.report address ctx
    | .error fault => ctx.raise fault

def execute (search : Search) (ctx : ScanContext) : Outcome :=
  search.range.onCells ctx fun cells => search.run cells ctx

end Search

end LadderLogic
