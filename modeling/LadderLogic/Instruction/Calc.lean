import LadderLogic.Reference

/-!
CALC evaluates an expression and stores it under the calculation law.
-/

set_option autoImplicit false

namespace LadderLogic

structure Calc where
  expression : Expression
  target : TagRef
  /-- Results wrap to 16 unsigned bits whatever the target. -/
  hex : Bool

namespace Calc

def make (expression : Expression) (target : TagRef) : Except LadderError Calc := do
  target.expect [.int, .dint, .real, .word] "a numeric type"
  if expression.isNumeric then return ⟨expression, target, false⟩
  else throw (.invalidInstruction (.textInCalculation target.name))

def withHex (c : Calc) : Calc := { c with hex := true }

/-- What a target holds after a result that does not exist. -/
def zero (type : TagType) (hex : Bool) : Value :=
  (type.storeCalc (.int 0) hex).getD type.initial

/-- A pointer that leads nowhere, in the expression or as target, writes nothing. Every other
fault stores zero. -/
def execute (c : Calc) (ctx : ScanContext) : ScanContext :=
  match c.expression.evaluate ctx with
  | .error .address => ctx.raise .addressError
  | result =>
    match c.target.resolve ctx with
    | none => ctx.raise .addressError
    | some tag =>
      match result.toOption.bind fun v => tag.type.storeCalc v c.hex with
      | some v => ctx.write tag v
      | none => (ctx.raise .divisionError).write tag (zero tag.type c.hex)

end Calc

end LadderLogic
