import LadderLogic.Instruction.Coil
import LadderLogic.Decimal.Digits

/-!
COPY, BLOCKCOPY and FILL. All follow the copy law. The writes of one execution are staged first, so
a failure anywhere among them raises a fault and writes nothing.
-/

set_option autoImplicit false

namespace LadderLogic

/-- The writes of one execution, or the fault that keeps all of them from being made. -/
abbrev Staged := Except Fault (List (Tag × Value))

def ScanContext.commitStaged (ctx : ScanContext) : Staged → ScanContext
  | .ok writes => ctx.writeAll writes
  | .error fault => ctx.raise fault

def Tag.store (tag : Tag) (value : Value) : Except Fault (Tag × Value) :=
  match tag.type.storeCopy value with
  | some stored => .ok (tag, stored)
  | none => .error .outOfRange

/-- An integer that comes from a conversion. One outside the domain is not clamped. -/
def Tag.storeExact (tag : Tag) (i : Int) : Except Fault (Tag × Value) :=
  match tag.type.bounds? with
  | some (low, high) => if i < low ∨ high < i then .error .outOfRange else tag.store (.int i)
  | none => tag.store (.int i)

def BlockRange.text (cells : BlockRange) (ctx : ScanContext) : List Char :=
  cells.tags.flatMap fun t => (((ctx.read t).toText?).getD "").toList

namespace Conversion

def charDigit (v : Value) : Except Fault Int :=
  match v.firstChar? with
  | some c => if c.isDigit then .ok (Decimal.digitValue c) else .error .outOfRange
  | none => .error .outOfRange

def charCode (v : Value) : Except Fault Int :=
  match v.firstChar? with
  | some c => if c.toNat < 128 then .ok c.toNat else .error .outOfRange
  | none => .error .outOfRange

def codeChar (v : Value) : Except Fault Value :=
  match v.toInt? with
  | some i =>
    if 0 ≤ i ∧ i ≤ 127 then .ok (.text (String.singleton (Char.ofNat i.toNat)))
    else .error .outOfRange
  | none => .error .outOfRange

/-- Reads an optional sign and at least one digit, and nothing else, as a 64-bit integer. -/
def signedDecimal? (cs : List Char) : Option Int :=
  let (negative, ds) :=
    match cs with
    | '-' :: ds => (true, ds)
    | '+' :: ds => (false, ds)
    | _ => (false, cs)
  if ds ≠ [] ∧ ds.all Char.isDigit then
    Integer.checked (Binary.signed negative (Decimal.value ds))
  else none

/-- The type by which a value is rendered: the type of its source if that is a number or a truth
value, otherwise the type of the value itself. -/
def renderedType? (source : Option TagType) (v : Value) : Option TagType :=
  let own : Option TagType :=
    match v with
    | .real _ => some .real
    | .bool _ => some .bool
    | .int _ => some .dint
    | .text _ => none
  match source with
  | some t => if t.isNumeric || t == .bool then some t else own
  | none => own

/-- An integer in decimal, without `suppressZero` filled up with zeros behind the sign. -/
def renderDecimal (width : Nat) (suppressZero : Bool) (i : Int) : List Char :=
  let ds := Decimal.digits i.natAbs
  let filled := if suppressZero then ds else Decimal.padLeft width ds
  if i < 0 then '-' :: filled else filled

/-- A WORD in four hexadecimal digits, or in as many as it needs. -/
def renderHex? (suppressZero : Bool) (i : Int) : Option (List Char) :=
  if 0 ≤ i ∧ i ≤ 0xffff then
    let ds := Decimal.upperHex i.toNat
    some (if suppressZero then ds else Decimal.padLeft 4 ds)
  else none

/-- The text of a number for a range of CHAR cells. Reals are rendered in single precision. -/
def render? (v : Value) (source : Option TagType) (suppressZero : Bool) : Option (List Char) :=
  match renderedType? source v with
  | none => none
  | some .real =>
    match v.toReal? with
    | some x =>
      if Binary.isFinite x then some (Value.wordText Binary.single (Binary.singleWord x)) else none
    | none => none
  | some .word => v.toInt?.bind (renderHex? suppressZero)
  | some .bool => v.toInt?.map (renderDecimal 1 suppressZero)
  | some .int => v.toInt?.map (renderDecimal 5 suppressZero)
  | some .dint | some .char => v.toInt?.map (renderDecimal 10 suppressZero)

end Conversion

/-- The write of a value, converted on its own, into one cell. -/
def Tag.storeConverted (tag : Tag) (conversion : Option Conversion) (value : Value) :
    Except Fault (Tag × Value) :=
  match conversion with
  | none => tag.store value
  | some .asValue => do tag.storeExact (← Conversion.charDigit value)
  | some .asAscii => do tag.storeExact (← Conversion.charCode value)
  | some .asBinary => do tag.store (← Conversion.codeChar value)
  | some (.asText _) => .error .outOfRange

inductive CopySource where
  | value (expression : Expression)
  | range (range : RangeRef)

inductive CopyTarget where
  | tag (tag : TagRef)
  | range (range : RangeRef)

def CopyTarget.type : CopyTarget → TagType
  | tag t => t.type
  | range r => r.type

/-- Copies one value into one tag, or text into a CHAR range. -/
structure SingleCopy where
  source : CopySource
  target : CopyTarget
  conversion : Option Conversion

namespace SingleCopy

/-- Whether a copy of this shape means anything. -/
def isValid (source : CopySource) (target : CopyTarget) (conversion : Option Conversion) : Bool :=
  let toChar := target.type == .char
  match source, target, conversion with
  | .value e, .tag _, none => if toChar then e.isText else e.isNumeric
  | .value e, .range _, none => toChar && e.isText
  | .value e, .tag _, some .asValue => e.isText && !toChar
  | .range r, .tag t, some .asValue => r.type == .char && t.type.isInteger
  | .value e, .tag t, some .asAscii => e.isText && t.type.isNumeric
  | .value e, .range _, some (.asText _) => e.isNumeric && toChar
  | .value e, .tag _, some .asBinary => e.isNumeric && toChar
  | _, _, _ => false

def make (source : CopySource) (target : CopyTarget) (conversion : Option Conversion) :
    Except LadderError SingleCopy :=
  if isValid source target conversion then .ok ⟨source, target, conversion⟩
  else .error (.invalidInstruction (.copyConversion target.type conversion))

/-- The value to copy. A range stands for the text it holds. -/
def sourceValue (copy : SingleCopy) (ctx : ScanContext) : Except LadderError (Except Fault Value) :=
  match copy.source with
  | .value e => .ok ((e.evaluate ctx).mapError EvalFault.fault)
  | .range r =>
    (r.resolve ctx).map fun
      | some cells => .ok (.text (String.ofList (cells.text ctx)))
      | none => .error .addressError

/-- The write into one tag. The digits of a whole range make one number. -/
def convertScalar (copy : SingleCopy) (tag : Tag) (value : Value) : Except Fault (Tag × Value) :=
  match copy.source, copy.conversion with
  | .range _, some .asValue =>
    match value.toText?.bind fun s => Conversion.signedDecimal? s.toList with
    | some i => tag.storeExact i
    | none => .error .outOfRange
  | _, conversion => tag.storeConverted conversion value

def sourceType? (copy : SingleCopy) : Option TagType :=
  match copy.source with
  | .value e => e.staticType?
  | .range _ => none

/-- One character per cell, and blanks after them. -/
def fillCells : List Tag → List Char → List (Tag × Value)
  | [], _ => []
  | t :: ts, [] => (t, .text "") :: fillCells ts []
  | t :: ts, c :: cs => (t, .text (String.singleton c)) :: fillCells ts cs

/-- The writes into a CHAR range. A rendered number leaves the cells behind it alone, copied text
blanks them. -/
def spreadText (copy : SingleCopy) (cells : BlockRange) (value : Value) : Staged :=
  match copy.conversion with
  | some (.asText suppressZero) =>
    match Conversion.render? value copy.sourceType? suppressZero with
    | none => .error .outOfRange
    | some cs =>
      if cells.length < cs.length then .error .outOfRange
      else .ok (fillCells (cells.tags.take cs.length) cs)
  | _ =>
    match value with
    | .text s =>
      if s.toList.all (fun c => decide (c.toNat < 128)) ∧ s.toList.length ≤ cells.length then
        .ok (fillCells cells.tags s.toList)
      else .error .outOfRange
    | _ => .error .outOfRange

def stage (copy : SingleCopy) (ctx : ScanContext) : Except LadderError Staged := do
  match ← copy.sourceValue ctx with
  | .error fault => return .error fault
  | .ok value =>
    match copy.target with
    | .tag target =>
      match target.resolve ctx with
      | some tag => return (copy.convertScalar tag value).map fun write => [write]
      | none => return .error .addressError
    | .range target =>
      match ← target.resolve ctx with
      | some cells => return copy.spreadText cells value
      | none => return .error .addressError

end SingleCopy

/-- Makes the staged writes, or raises the fault that prevents them. -/
def ScanContext.perform (ctx : ScanContext) : Except LadderError Staged → Outcome
  | .ok staged => (ctx.commitStaged staged).proceed
  | .error e => ctx.fail (.error e)

def SingleCopy.execute (copy : SingleCopy) (ctx : ScanContext) : Outcome :=
  ctx.perform (copy.stage ctx)

/-- Copies a range into a range of the same length, element by element. -/
structure BlockCopy where
  source : RangeRef
  target : RangeRef
  conversion : Option Conversion

namespace BlockCopy

def isValid (source target : TagType) : Option Conversion → Bool
  | none => (source == .char) == (target == .char)
  | some .asValue | some .asAscii => source == .char && target.isNumeric
  | some .asBinary => source.isNumeric && target == .char
  | some (.asText _) => false

def make (source target : RangeRef) (conversion : Option Conversion) :
    Except LadderError BlockCopy :=
  if !isValid source.type target.type conversion then
    .error (.invalidInstruction (.blockCopyConversion source.type target.type conversion))
  else match source.staticLength?, target.staticLength? with
    | some expected, some found =>
      if expected = found then .ok ⟨source, target, conversion⟩
      else .error (.lengthMismatch expected found)
    | _, _ => .ok ⟨source, target, conversion⟩

/-- All cells are read before one is written, so the ranges may overlap. -/
def stageCells (copy : BlockCopy) (ctx : ScanContext) (source target : BlockRange) : Staged :=
  if source.length = target.length then
    (source.tags.zip target.tags).mapM fun (src, dst) =>
      dst.storeConverted copy.conversion (ctx.read src)
  else .error .addressError

def stage (copy : BlockCopy) (ctx : ScanContext) : Except LadderError Staged := do
  match ← copy.source.resolve ctx with
  | none => return .error .addressError
  | some source =>
    match ← copy.target.resolve ctx with
    | none => return .error .addressError
    | some target => return copy.stageCells ctx source target

def execute (copy : BlockCopy) (ctx : ScanContext) : Outcome := ctx.perform (copy.stage ctx)

end BlockCopy

/-- Writes one value into every cell of a range. -/
structure Fill where
  value : Expression
  target : RangeRef

namespace Fill

def make (value : Expression) (target : RangeRef) : Except LadderError Fill :=
  if (if target.type = .char then value.isText else value.isNumeric) then .ok ⟨value, target⟩
  else .error (.invalidInstruction (.fillMismatch target.type target.block.name))

def stage (fill : Fill) (ctx : ScanContext) : Except LadderError Staged :=
  match fill.value.evaluate ctx with
  | .error e => .ok (.error e.fault)
  | .ok value =>
    (fill.target.resolve ctx).map fun
      | some cells => cells.tags.mapM fun tag => tag.store value
      | none => .error .addressError

def execute (fill : Fill) (ctx : ScanContext) : Outcome := ctx.perform (fill.stage ctx)

end Fill

end LadderLogic
