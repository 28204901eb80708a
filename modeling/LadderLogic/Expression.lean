import LadderLogic.Block
import LadderLogic.Expression.Number
import LadderLogic.Scan.Context

/-!
Arithmetic trees over tags and block cells, evaluated against a scan.
-/

set_option autoImplicit false

namespace LadderLogic

/-- The fault tag that a failed evaluation raises. -/
def EvalFault.fault : EvalFault → Fault
  | address => .addressError
  | divisionByZero | domain | nonFinite => .divisionError

inductive Expression where
  | literal (value : Value)
  | tag (tag : Tag)
  /-- The cell of a block that a pointer chooses. -/
  | indirect (block : Block) (pointer : Expression)
  | binary (op : BinaryOp) (left right : Expression)
  | unary (op : UnaryOp) (operand : Expression)
  | math (fn : MathFn) (operand : Expression)
  | word (fn : WordFn) (value amount : Expression)

namespace Block

/-- The cell a pointer value lands on; `none` if it is no number or there is no such cell. -/
def pointed (b : Block) (pointer : Except EvalFault Value) : Option Tag :=
  match pointer with
  | .ok v => (v.toInt?.bind b.resolvePointer).map b.cell
  | .error _ => none

end Block

namespace Expression

def evaluate (ctx : ScanContext) : Expression → Except EvalFault Value
  | literal v => .ok v
  | tag t => .ok (ctx.read t)
  | indirect b pointer =>
    match b.pointed (pointer.evaluate ctx) with
    | some t => .ok (ctx.read t)
    | none => .error .address
  | binary op left right => do
    let a ← Number.ofValue (← left.evaluate ctx)
    let b ← Number.ofValue (← right.evaluate ctx)
    (← Number.binary op a b).toValue
  | unary op operand => do
    let a ← Number.ofValue (← operand.evaluate ctx)
    (← Number.unary op a).toValue
  | math fn operand => do
    let a ← Number.ofValue (← operand.evaluate ctx)
    (← Number.math fn a).toValue
  | word fn value amount => do
    let a ← Number.ofValue (← value.evaluate ctx)
    let b ← Number.ofValue (← amount.evaluate ctx)
    (← Number.word fn a b).toValue

def staticType? : Expression → Option TagType
  | tag t => some t.type
  | indirect b _ => some b.type
  | literal (.text _) => some .char
  | _ => none

/-- Whether no leaf is text, so that the tree can take part in arithmetic. -/
def isNumeric : Expression → Bool
  | literal v => v.isNumeric
  | tag t => t.type != .char
  | indirect b _ => b.type != .char
  | binary _ left right => left.isNumeric && right.isNumeric
  | word _ value amount => value.isNumeric && amount.isNumeric
  | unary _ operand => operand.isNumeric
  | math _ operand => operand.isNumeric

/-- Whether the expression is a bare reference to a CHAR cell, or literal text. -/
def isText (e : Expression) : Bool := e.staticType? == some .char

def integer? (ctx : ScanContext) (e : Expression) : Option Int :=
  match e.evaluate ctx with
  | .ok v => v.toInt?
  | .error _ => none

end Expression

end LadderLogic
