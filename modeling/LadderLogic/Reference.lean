import LadderLogic.Expression

/-!
How instructions name their operands: one cell or a range of cells, chosen when the program is
written or by expressions during the scan.
-/

set_option autoImplicit false

namespace LadderLogic

inductive TagRef where
  | direct (tag : Tag)
  | indirect (block : Block) (pointer : Expression)

namespace TagRef

def type : TagRef → TagType
  | direct t => t.type
  | indirect b _ => b.type

/-- The name of the tag, or of the block it is chosen from. -/
def name : TagRef → String
  | direct t => t.name
  | indirect b _ => b.name

/-- The cell meant now; `none` if the pointer leads nowhere. -/
def resolve (r : TagRef) (ctx : ScanContext) : Option Tag :=
  match r with
  | direct t => some t
  | indirect b pointer => b.pointed (pointer.evaluate ctx)

def expect (r : TagRef) (allowed : List TagType) (expected : String) : Except LadderError Unit :=
  r.type.expect allowed expected r.name

end TagRef

inductive RangeRef where
  | direct (range : BlockRange)
  | indirect (block : Block) (first last : Expression) (reversed : Bool)

namespace RangeRef

def block : RangeRef → Block
  | direct r => r.block
  | indirect b _ _ _ => b

def type (r : RangeRef) : TagType := r.block.type

def reverse : RangeRef → RangeRef
  | direct r => direct r.reverse
  | indirect b first last reversed => indirect b first last (!reversed)

/-- The number of cells, if it is known when the program is written. -/
def staticLength? : RangeRef → Option Nat
  | direct r => some r.length
  | indirect .. => none

/-- The range between two computed addresses; `none` if one of them lies outside the block. Bounds
in the wrong order are an error. -/
def between (b : Block) (first last : Int) (reversed : Bool) :
    Except LadderError (Option BlockRange) :=
  if last < first then .error (.invalidRange b.name first last)
  else if first < b.first ∨ b.last < last then .ok none
  else
    let addresses := b.addressesBetween first last
    .ok (some ⟨b, if reversed then addresses.reverse else addresses, reversed⟩)

/-- The cells meant now; `none` if a bound cannot be read or lies outside the block. -/
def resolve (r : RangeRef) (ctx : ScanContext) : Except LadderError (Option BlockRange) :=
  match r with
  | direct range => .ok (some range)
  | indirect b first last reversed =>
    match first.integer? ctx, last.integer? ctx with
    | some i, some j => between b i j reversed
    | _, _ => .ok none

def expect (r : RangeRef) (allowed : List TagType) (expected : String) :
    Except LadderError Unit :=
  r.type.expect allowed expected r.block.name

end RangeRef

end LadderLogic
