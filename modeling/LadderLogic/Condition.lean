import LadderLogic.Expression

/-!
Conditions of rungs and instructions. They only read. A comparison whose operand cannot be
evaluated is false.
-/

set_option autoImplicit false

namespace LadderLogic

inductive Condition where
  /-- A BOOL tag is on. -/
  | bit (tag : Tag)
  /-- A BOOL tag is off. -/
  | normallyClosed (tag : Tag)
  /-- A numeric tag is not zero. -/
  | nonzero (tag : Tag)
  | compare (op : Comparison) (left : Tag) (right : Expression)
  | compareIndirect (op : Comparison) (block : Block) (pointer : Expression) (right : Expression)
  | compareExpressions (op : Comparison) (left right : Expression)
  /-- A CHAR tag against literal text. -/
  | compareText (op : Comparison) (left : Tag) (right : String)
  | risingEdge (tag : Tag)
  | fallingEdge (tag : Tag)
  | all (conditions : List Condition)
  | any (conditions : List Condition)

namespace Condition

/-- A cell of the given type may be compared with the expression: text with text for equality,
numbers with numbers. -/
def checkComparison (op : Comparison) (type : TagType) (name : String) (right : Expression) :
    Except LadderError Unit :=
  if type = .char then
    if !op.isEquality then .error (.invalidInstruction (.orderingOnText op name))
    else if right.isText then .ok ()
    else .error (.invalidInstruction (.textTagAgainstNumber name))
  else if right.isNumeric then .ok ()
  else .error (.invalidInstruction (.numberTagAgainstText type name))

def ofBit (tag : Tag) : Except LadderError Condition := do
  tag.expectBool
  return bit tag

def ofNormallyClosed (tag : Tag) : Except LadderError Condition := do
  tag.expectBool
  return normallyClosed tag

def ofNonzero (tag : Tag) : Except LadderError Condition := do
  tag.expect [.int, .dint, .word, .real] "a numeric type"
  return nonzero tag

def ofCompare (op : Comparison) (left : Tag) (right : Expression) :
    Except LadderError Condition := do
  checkComparison op left.type left.name right
  return compare op left right

def ofCompareIndirect (op : Comparison) (block : Block) (pointer right : Expression) :
    Except LadderError Condition := do
  checkComparison op block.type block.name right
  return compareIndirect op block pointer right

def ofCompareExpressions (op : Comparison) (left right : Expression) :
    Except LadderError Condition :=
  if left.isNumeric && right.isNumeric then .ok (compareExpressions op left right)
  else .error (.invalidInstruction .textInExpressionComparison)

def ofCompareText (op : Comparison) (left : Tag) (right : String) :
    Except LadderError Condition := do
  left.expect [.char] "CHAR"
  if op.isEquality then return compareText op left right
  else throw (.invalidInstruction (.orderingInTextComparison left.name))

def ofRisingEdge (tag : Tag) : Except LadderError Condition := do
  tag.expectBool
  return risingEdge tag

def ofFallingEdge (tag : Tag) : Except LadderError Condition := do
  tag.expectBool
  return fallingEdge tag

/-- Compares a value with an operand; false if the operand or the comparison has no value. -/
def compareWith (ctx : ScanContext) (op : Comparison) (left : Value) (right : Expression) : Bool :=
  match right.evaluate ctx with
  | .ok v => (op.apply left v).getD false
  | .error _ => false

mutual

def holds (ctx : ScanContext) : Condition → Bool
  | bit t => ctx.readBool t
  | normallyClosed t => !ctx.readBool t
  | nonzero t => (ctx.read t).isTruthy
  | compare op left right => compareWith ctx op (ctx.read left) right
  | compareIndirect op b pointer right =>
    match b.pointed (pointer.evaluate ctx) with
    | some t => compareWith ctx op (ctx.read t) right
    | none => false
  | compareExpressions op left right =>
    match left.evaluate ctx with
    | .ok v => compareWith ctx op v right
    | .error _ => false
  | compareText op left right =>
    let equal := (ctx.read left).toText? == some right
    if op = .eq then equal else !equal
  | risingEdge t => ctx.readBool t && !ctx.memoryBool (prevKey t.name)
  | fallingEdge t => !ctx.readBool t && ctx.memoryBool (prevKey t.name)
  | all cs => allHold ctx cs
  | any cs => someHolds ctx cs

def allHold (ctx : ScanContext) : List Condition → Bool
  | [] => true
  | c :: cs => c.holds ctx && allHold ctx cs

def someHolds (ctx : ScanContext) : List Condition → Bool
  | [] => false
  | c :: cs => c.holds ctx || someHolds ctx cs

end

mutual

/-- The tags whose edges the condition watches, in order, each with the level it reads as while it
is unwritten. -/
def edges : Condition → List (String × Bool)
  | risingEdge t => [(t.name, t.initial.isTruthy)]
  | fallingEdge t => [(t.name, t.initial.isTruthy)]
  | all cs => edgesOfAll cs
  | any cs => edgesOfAll cs
  | bit _ => []
  | normallyClosed _ => []
  | nonzero _ => []
  | compare _ _ _ => []
  | compareIndirect _ _ _ _ => []
  | compareExpressions _ _ _ => []
  | compareText _ _ _ => []

def edgesOfAll : List Condition → List (String × Bool)
  | [] => []
  | c :: cs => c.edges ++ edgesOfAll cs

end

def edgeTags (c : Condition) : EdgeTags := .ofMentions c.edges

def optionHolds (ctx : ScanContext) : Option Condition → Bool
  | some c => c.holds ctx
  | none => false

end Condition

end LadderLogic
