import LadderLogic.Tag

/-!
Typed memory blocks: consecutive cells addressed by integers. A block may be sparse, and then only
the addresses inside its windows exist.
-/

set_option autoImplicit false

namespace LadderLogic

inductive Direction where
  | input
  | output
  deriving DecidableEq, Repr

/-- Cells `first..last`, or those of them that lie in a window. -/
structure Block where
  name : String
  type : TagType
  first : Int
  last : Int
  windows : Option (List (Int × Int))
  direction : Option Direction
  retentive : Bool
  initial : Value
  deriving DecidableEq

/-- The order of windows: by their first address, then by their last. -/
def windowLe (v w : Int × Int) : Bool := v.1 < w.1 || (v.1 == w.1 && v.2 ≤ w.2)

/-- Inserts a window before the first one that is not smaller. -/
def insertWindow (w : Int × Int) : List (Int × Int) → List (Int × Int)
  | [] => [w]
  | v :: ws => if windowLe w v then w :: v :: ws else v :: insertWindow w ws

def sortWindows (ws : List (Int × Int)) : List (Int × Int) := ws.foldr insertWindow []

namespace Block

def make (name : String) (type : TagType) (first last : Int) : Except LadderError Block :=
  if last < first then .error (.invalidRange name first last)
  else .ok ⟨name, type, first, last, none, none, type.isRetentive, type.initial⟩

/-- What is wrong with a window that follows a window ending at `previous`. -/
def windowFault? (b : Block) (previous : Option Int) (w : Int × Int) : Option LadderError :=
  if w.2 < w.1 then some (.invalidRange b.name w.1 w.2)
  else if w.1 < b.first then some (.addressOutOfBlock b.name w.1)
  else if b.last < w.2 then some (.addressOutOfBlock b.name w.2)
  else match previous with
    | some stop =>
      if w.1 ≤ stop then some (.invalidInstruction (.overlappingWindows b.name)) else none
    | none => none

def windowsFault? (b : Block) : Option Int → List (Int × Int) → Option LadderError
  | _, [] => none
  | previous, w :: ws =>
    match b.windowFault? previous w with
    | some e => some e
    | none => b.windowsFault? (some w.2) ws

/-- Restricts the block to disjoint windows inside it, given in any order. -/
def withWindows (b : Block) (windows : List (Int × Int)) : Except LadderError Block :=
  let sorted := sortWindows windows
  match b.windowsFault? none sorted with
  | some e => .error e
  | none => .ok { b with windows := some sorted }

def withDirection (b : Block) (direction : Direction) : Block := { b with direction }

def withRetentive (b : Block) (retentive : Bool) : Block := { b with retentive }

def contains (b : Block) (address : Int) : Bool :=
  if address < b.first ∨ b.last < address then false
  else match b.windows with
    | some ws => ws.any fun w => w.1 ≤ address && address ≤ w.2
    | none => true

/-- The address a pointer lands on; `none` if there is no such cell. -/
def resolvePointer (b : Block) (pointer : Int) : Option Int :=
  if b.contains pointer then some pointer else none

def cellName (b : Block) (address : Int) : String := b.name ++ Decimal.text address

def cell (b : Block) (address : Int) : Tag :=
  ⟨b.cellName address, b.type, b.initial, b.retentive⟩

def get (b : Block) (address : Int) : Except LadderError Tag :=
  if b.contains address then .ok (b.cell address)
  else .error (.addressOutOfBlock b.name address)

/-- The integers from `low` to `high`, ascending. -/
def interval (low high : Int) : List Int :=
  (List.range (high - low + 1).toNat).map fun (n : Nat) => low + n

def addressesBetween (b : Block) (low high : Int) : List Int :=
  (interval (max low b.first) (min high b.last)).filter b.contains

/-- Blocks are the same if name, type, addresses and windows are. -/
def same (b c : Block) : Bool :=
  b.name == c.name && b.type == c.type && b.first == c.first && b.last == c.last &&
    b.windows == c.windows

end Block

/-- Cells of one block in the order an instruction visits them. -/
structure BlockRange where
  block : Block
  addresses : List Int
  reversed : Bool
  deriving DecidableEq

namespace BlockRange

def reverse (r : BlockRange) : BlockRange :=
  { r with addresses := r.addresses.reverse, reversed := !r.reversed }

def length (r : BlockRange) : Nat := r.addresses.length

def type (r : BlockRange) : TagType := r.block.type

def tags (r : BlockRange) : List Tag := r.addresses.map r.block.cell

end BlockRange

namespace Block

/-- The range between two literal addresses. Addresses outside the windows are skipped. -/
def select (b : Block) (first last : Int) : Except LadderError BlockRange :=
  if last < first then .error (.invalidRange b.name first last)
  else if first < b.first ∨ b.last < first then .error (.addressOutOfBlock b.name first)
  else if last < b.first ∨ b.last < last then .error (.addressOutOfBlock b.name last)
  else .ok ⟨b, b.addressesBetween first last, false⟩

def all (b : Block) : BlockRange := ⟨b, b.addressesBetween b.first b.last, false⟩

end Block

end LadderLogic
