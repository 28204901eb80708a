import LadderLogic.Decimal.Read
import LadderLogic.Instruction.Copy

/-!
Packing and unpacking between ranges and numbers. Patterns are raw bits: a REAL gives and takes its
binary word, never a converted number. Of two words the first is the low one.
-/

set_option autoImplicit false

namespace LadderLogic

namespace TagType

def patternOf (t : TagType) (v : Value) : Option Nat :=
  match t with
  | bool => some (if v.isTruthy then 1 else 0)
  | int | word => v.toInt?.map fun i => (Integer.residue 16 false i).toNat
  | dint => v.toInt?.map fun i => (Integer.residue 32 false i).toNat
  | real => v.toReal?.map Binary.singleWord
  | char => none

/-- The value of a cell of the type with these raw bits; `none` for bits the type cannot hold. -/
def valueOf (t : TagType) (bits : Nat) : Option Value :=
  match t with
  | bool => some (.bool (bits % 2 == 1))
  | int => some (.int (Integer.residue 16 true bits))
  | word => some (.int (Integer.residue 16 false bits))
  | dint => some (.int (Integer.residue 32 true bits))
  | real =>
    match Binary.single.decode bits with
    | .finite .. => some (.real (Binary.ofSingleWord bits))
    | _ => none
  | char => none

def packable : List TagType := [int, dint, word, real]

def wide : List TagType := [dint, real]

def narrow : List TagType := [int, word]

def width (t : TagType) : Nat := t.bitWidth?.getD 0

end TagType

namespace Pack

/-- A range of a known length must have at most, or exactly, so many cells. -/
def checkLength (range : RangeRef) (most : Nat) (exact : Bool) : Except LadderError Unit :=
  match range.staticLength? with
  | some found =>
    if most < found ∨ (exact ∧ found ≠ most) then .error (.lengthMismatch most found) else .ok ()
  | none => .ok ()

/-- Goes on with the cells of a range and a tag. If one of them leads nowhere, the address fault is
raised. -/
def onPair (range : RangeRef) (tag : TagRef) (ctx : ScanContext)
    (next : BlockRange → Tag → ScanContext) : Outcome :=
  range.onCells ctx fun cells =>
    match tag.resolve ctx with
    | some t => next cells t
    | none => ctx.raise .addressError

def writePattern (ctx : ScanContext) (tag : Tag) (bits : Nat) : ScanContext :=
  match tag.type.valueOf bits with
  | some v => ctx.write tag v
  | none => ctx.raise .outOfRange

/-- The number whose bits are given from the lowest on. -/
def ofBits : List Bool → Nat
  | [] => 0
  | b :: bs => (if b then 1 else 0) + 2 * ofBits bs

def toBits : Nat → Nat → List Bool
  | 0, _ => []
  | count + 1, n => (n % 2 == 1) :: toBits count (n / 2)

def readWord (ctx : ScanContext) (tag : Tag) : Nat :=
  (tag.type.patternOf (ctx.read tag)).getD 0 % 65536

end Pack

/-- A BOOL range into a number, the first cell as the lowest bit. -/
structure PackBits where
  bits : RangeRef
  target : TagRef

namespace PackBits

def make (bits : RangeRef) (target : TagRef) : Except LadderError PackBits := do
  bits.expect [.bool] "BOOL"
  target.expect TagType.packable "INT, DINT, WORD or REAL"
  Pack.checkLength bits target.type.width false
  return ⟨bits, target⟩

def execute (pack : PackBits) (ctx : ScanContext) : Outcome :=
  Pack.onPair pack.bits pack.target ctx fun cells target =>
    if target.type.width < cells.length then ctx.raise .outOfRange
    else Pack.writePattern ctx target (Pack.ofBits (cells.tags.map ctx.readBool))

end PackBits

/-- Two words into a DINT or REAL. -/
structure PackWords where
  words : RangeRef
  target : TagRef

namespace PackWords

def make (words : RangeRef) (target : TagRef) : Except LadderError PackWords := do
  words.expect TagType.narrow "INT or WORD"
  target.expect TagType.wide "DINT or REAL"
  Pack.checkLength words 2 true
  return ⟨words, target⟩

def execute (pack : PackWords) (ctx : ScanContext) : Outcome :=
  Pack.onPair pack.words pack.target ctx fun cells target =>
    match cells.tags with
    | [low, high] =>
      Pack.writePattern ctx target
        (Pack.readWord ctx low + 65536 * Pack.readWord ctx high)
    | _ => ctx.raise .outOfRange

end PackWords

/-- A number into a BOOL range, the lowest bit into the first cell. -/
structure UnpackToBits where
  source : TagRef
  bits : RangeRef

namespace UnpackToBits

def make (source : TagRef) (bits : RangeRef) : Except LadderError UnpackToBits := do
  source.expect TagType.packable "INT, DINT, WORD or REAL"
  bits.expect [.bool] "BOOL"
  Pack.checkLength bits source.type.width false
  return ⟨source, bits⟩

def execute (unpack : UnpackToBits) (ctx : ScanContext) : Outcome :=
  Pack.onPair unpack.bits unpack.source ctx fun cells source =>
    if source.type.width < cells.length then ctx.raise .outOfRange
    else match source.type.patternOf (ctx.read source) with
      | some pattern =>
        ctx.writeAll
          (cells.tags.zip ((Pack.toBits cells.length pattern).map Value.bool))
      | none => ctx.raise .outOfRange

end UnpackToBits

/-- A DINT or REAL into two words. -/
structure UnpackToWords where
  source : TagRef
  words : RangeRef

namespace UnpackToWords

def make (source : TagRef) (words : RangeRef) : Except LadderError UnpackToWords := do
  source.expect TagType.wide "DINT or REAL"
  words.expect TagType.narrow "INT or WORD"
  Pack.checkLength words 2 true
  return ⟨source, words⟩

def execute (unpack : UnpackToWords) (ctx : ScanContext) : Outcome :=
  Pack.onPair unpack.words unpack.source ctx fun cells source =>
    match cells.tags with
    | [low, high] =>
      match source.type.patternOf (ctx.read source) with
      | some pattern =>
        Pack.writePattern (Pack.writePattern ctx low (pattern % 65536)) high (pattern / 65536)
      | none => ctx.raise .outOfRange
    | _ => ctx.raise .outOfRange

end UnpackToWords

/-- Reads the text of a CHAR range into a number: INT and DINT take an optional sign and decimal
digits, WORD one to four hexadecimal digits, REAL a decimal number that fits single precision. -/
structure PackText where
  source : RangeRef
  target : TagRef

namespace PackText

def isRealChar (c : Char) : Bool :=
  c.isDigit || c == '+' || c == '-' || c == '.' || c == 'e' || c == 'E'

def readReal? (cs : List Char) : Option Value :=
  if cs.all isRealChar then
    (Decimal.readNumber? cs).bind fun w => TagType.real.valueOf (w.toWord Binary.single)
  else none

def readWord? (cs : List Char) : Option Value :=
  if cs = [] ∨ 4 < cs.length then none
  else (Decimal.hexNumber? cs).map fun n => .int n

/-- The decimal number that a text writes, if it lies in the domain. -/
def readInteger? (low high : Int) (cs : List Char) : Option Value :=
  match Conversion.signedDecimal? cs with
  | some i => if low ≤ i ∧ i ≤ high then some (.int i) else none
  | none => none

def read? (cs : List Char) (t : TagType) : Option Value :=
  match t with
  | .int => readInteger? (-32768) 32767 cs
  | .dint => readInteger? (-2147483648) 2147483647 cs
  | .word => readWord? cs
  | .real => readReal? cs
  | .bool | .char => none

def make (source : RangeRef) (target : TagRef) : Except LadderError PackText := do
  source.expect [.char] "CHAR"
  target.expect TagType.packable "INT, DINT, WORD or REAL"
  return ⟨source, target⟩

def execute (pack : PackText) (ctx : ScanContext) : Outcome :=
  Pack.onPair pack.source pack.target ctx fun cells target =>
    match read? (cells.text ctx) target.type with
    | some v => ctx.write target v
    | none => ctx.raise .outOfRange

end PackText

end LadderLogic
