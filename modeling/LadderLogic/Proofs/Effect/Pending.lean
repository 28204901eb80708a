import LadderLogic.Proofs.Effect.Operation

/-!
What an instruction that works all or nothing has to write. To each cell that it addresses a write
is due, or there is a fault against it; if an operand or an address fails, that fault is all there
is. Nothing here says in which order the cells are looked at or written.
-/

set_option autoImplicit false

namespace LadderLogic

/-- What is due to a cell: a write, or the fault that stands against it. -/
abbrev Pending := Except Fault (Tag × Value)

namespace RangeRef

def due (r : RangeRef) (ctx : ScanContext) (cells : BlockRange → List Pending) :
    Except LadderError (List Pending) :=
  (r.resolve ctx).map fun
    | some range => cells range
    | none => [.error .addressError]

end RangeRef

def CoilTarget.due (target : CoilTarget) (value : Tag → Value) (ctx : ScanContext) :
    Except LadderError (List Pending) :=
  match target with
  | tag t => .ok [.ok (t, value t)]
  | range r => r.due ctx fun cells => cells.tags.map fun t => .ok (t, value t)

namespace SingleCopy

/-- A character for each cell, and blanks for those behind the text. -/
def dueLetters (tags : List Tag) (cs : List Char) : List Pending :=
  tags.mapIdx fun i t => .ok (t, .text ((cs[i]?).elim "" String.singleton))

/-- Text that is copied as it is must be ASCII and fit the cells. -/
def dueCopied (cells : BlockRange) (value : Value) : List Pending :=
  match value with
  | .text s =>
    if s.toList.all (fun c => decide (c.toNat < 128)) ∧ s.toList.length ≤ cells.length then
      dueLetters cells.tags s.toList
    else [.error .outOfRange]
  | _ => [.error .outOfRange]

def dueText (copy : SingleCopy) (cells : BlockRange) (value : Value) : List Pending :=
  match copy.conversion with
  | some (.asText suppressZero) =>
    match Conversion.render? value copy.sourceType? suppressZero with
    | some cs =>
      if cs.length ≤ cells.length then dueLetters (cells.tags.take cs.length) cs
      else [.error .outOfRange]
    | none => [.error .outOfRange]
  | _ => dueCopied cells value

def due (copy : SingleCopy) (ctx : ScanContext) : Except LadderError (List Pending) :=
  match copy.sourceValue ctx with
  | .error e => .error e
  | .ok (.error fault) => .ok [.error fault]
  | .ok (.ok value) =>
    match copy.target with
    | .tag target =>
      match target.resolve ctx with
      | some tag => .ok [copy.convertScalar tag value]
      | none => .ok [.error .addressError]
    | .range target => target.due ctx fun cells => copy.dueText cells value

end SingleCopy

/-- Each target cell is due the converted value of its source cell. -/
def BlockCopy.due (copy : BlockCopy) (ctx : ScanContext) : Except LadderError (List Pending) :=
  match copy.source.resolve ctx with
  | .error e => .error e
  | .ok none => .ok [.error .addressError]
  | .ok (some source) =>
    copy.target.due ctx fun target =>
      if source.length = target.length then
        (source.tags.zip target.tags).map fun (src, dst) =>
          dst.storeConverted copy.conversion (ctx.read src)
      else [.error .addressError]

def Fill.due (fill : Fill) (ctx : ScanContext) : Except LadderError (List Pending) :=
  match fill.value.evaluate ctx with
  | .error e => .ok [.error e.fault]
  | .ok value => fill.target.due ctx fun cells => cells.tags.map fun t => t.store value

/-- The address of the hit and whether there is one. A search that is exhausted has none. -/
def Search.due (search : Search) (ctx : ScanContext) : Except LadderError (List Pending) :=
  search.range.due ctx fun cells =>
    let hit :=
      match search.remaining? cells ctx with
      | some addresses => search.hit cells.block addresses ctx
      | none => .ok none
    match hit with
    | .ok address =>
      [.ok (search.result, .int (address.getD (-1))), .ok (search.found, .bool address.isSome)]
    | .error fault => [.error fault]

namespace Pack

def due (range : RangeRef) (tag : TagRef) (ctx : ScanContext)
    (pending : BlockRange → Tag → List Pending) : Except LadderError (List Pending) :=
  range.due ctx fun cells =>
    match tag.resolve ctx with
    | some t => pending cells t
    | none => [.error .addressError]

/-- The bits are due to a cell that can hold them. -/
def duePattern (t : Tag) (bits : Nat) : Pending :=
  match t.type.valueOf bits with
  | some v => .ok (t, v)
  | none => .error .outOfRange

end Pack

def PackBits.due (pack : PackBits) (ctx : ScanContext) : Except LadderError (List Pending) :=
  Pack.due pack.bits pack.target ctx fun cells target =>
    if target.type.width < cells.length then [.error .outOfRange]
    else [Pack.duePattern target (Pack.ofBits (cells.tags.map ctx.readBool))]

def PackWords.due (pack : PackWords) (ctx : ScanContext) : Except LadderError (List Pending) :=
  Pack.due pack.words pack.target ctx fun cells target =>
    match cells.tags with
    | [low, high] =>
      [Pack.duePattern target (Pack.readWord ctx low + 65536 * Pack.readWord ctx high)]
    | _ => [.error .outOfRange]

def UnpackToBits.due (unpack : UnpackToBits) (ctx : ScanContext) :
    Except LadderError (List Pending) :=
  Pack.due unpack.bits unpack.source ctx fun cells source =>
    if source.type.width < cells.length then [.error .outOfRange]
    else match source.type.patternOf (ctx.read source) with
      | some pattern => cells.tags.mapIdx fun i t => .ok (t, .bool (pattern.testBit i))
      | none => [.error .outOfRange]

def UnpackToWords.due (unpack : UnpackToWords) (ctx : ScanContext) :
    Except LadderError (List Pending) :=
  Pack.due unpack.words unpack.source ctx fun cells source =>
    match cells.tags, source.type.patternOf (ctx.read source) with
    | [low, high], some pattern =>
      [Pack.duePattern low (pattern % 65536), Pack.duePattern high (pattern / 65536)]
    | _, _ => [.error .outOfRange]

def PackText.due (pack : PackText) (ctx : ScanContext) : Except LadderError (List Pending) :=
  Pack.due pack.source pack.target ctx fun cells target =>
    match read? (cells.text ctx) target.type with
    | some v => [.ok (target, v)]
    | none => [.error .outOfRange]

/-- Each output that the function returns is due to its tag. -/
def Bindings.due (b : Bindings) (function : ValueMap → ValueMap) (ctx : ScanContext) :
    List Pending :=
  match b.gather ctx with
  | .error e => [.error e.fault]
  | .ok inputs =>
    b.outputs.filterMap fun (name, target) =>
      (function inputs)[name]?.map fun value =>
        match target.resolve ctx with
        | some tag => tag.store value
        | none => .error .addressError

namespace Operation

/-- The instructions that work all or nothing. -/
def IsTransaction : Operation → Prop
  | out _ | latch _ | reset _ | copy _ | blockCopy _ | fill _ | search _ | packBits _ | packWords _
  | unpackToBits _ | unpackToWords _ | packText _ | runFunction _ | runEnabledFunction _ => True
  | calculate _ | onDelay _ | offDelay _ | countUp _ | countDown _ | shift _ | eventDrum _
  | timeDrum _ | callSubroutine _ | leaveSubroutine => False

def due (op : Operation) (enabled : Bool) (ctx : ScanContext) :
    Except LadderError (List Pending) :=
  match op with
  | out op => op.target.due (fun _ => .bool enabled) ctx
  | latch op => op.target.due (fun _ => .bool true) ctx
  | reset op => op.target.due Tag.initial ctx
  | copy op => op.due ctx
  | blockCopy op => op.due ctx
  | fill op => op.due ctx
  | search op => op.due ctx
  | packBits op => op.due ctx
  | packWords op => op.due ctx
  | unpackToBits op => op.due ctx
  | unpackToWords op => op.due ctx
  | packText op => op.due ctx
  | runFunction op => .ok (op.bindings.due op.function ctx)
  | runEnabledFunction op => .ok (op.bindings.due (op.function enabled) ctx)
  | calculate _ | onDelay _ | offDelay _ | countUp _ | countDown _ | shift _ | eventDrum _
  | timeDrum _ | callSubroutine _ | leaveSubroutine => .ok []

end Operation

end LadderLogic
