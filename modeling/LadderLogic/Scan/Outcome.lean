import LadderLogic.Scan.Context

/-!
How a part of a scan ends. The context is kept on every exit, so that what a failed scan did to the
runtime table is known.
-/

set_option autoImplicit false

namespace LadderLogic

/-- Why a scan comes to no next state. -/
inductive ScanFailure where
  | error (e : LadderError)
  /-- The exact result of an integer operation is no 64-bit word. Nothing recovers from it. -/
  | overflow (exact : Int)

inductive Exit where
  | proceed
  /-- A RETURN: the enclosing subroutine ends. -/
  | leave
  | fail (failure : ScanFailure)

structure Outcome where
  context : ScanContext
  exit : Exit

namespace ScanContext

def proceed (ctx : ScanContext) : Outcome := ⟨ctx, .proceed⟩

def leave (ctx : ScanContext) : Outcome := ⟨ctx, .leave⟩

def fail (ctx : ScanContext) (failure : ScanFailure) : Outcome := ⟨ctx, .fail failure⟩

/-- Goes on with the result of an integer operation, which has to be a word. -/
@[inline] def onWord (ctx : ScanContext) (exact : Int) (next : Int → Outcome) : Outcome :=
  match Integer.checked exact with
  | some i => next i
  | none => ctx.fail (.overflow exact)

end ScanContext

namespace Outcome

/-- Goes on with the next step unless the flow was left or has failed. -/
@[inline] def andThen (o : Outcome) (next : ScanContext → Outcome) : Outcome :=
  match o with
  | ⟨ctx, .proceed⟩ => next ctx
  | ⟨ctx, .leave⟩ => ⟨ctx, .leave⟩
  | ⟨ctx, .fail e⟩ => ⟨ctx, .fail e⟩

/-- The boundary of a subroutine: a RETURN ends here. -/
def absorbLeave (o : Outcome) : Outcome :=
  match o with
  | ⟨ctx, .leave⟩ => ⟨ctx, .proceed⟩
  | ⟨ctx, .proceed⟩ => ⟨ctx, .proceed⟩
  | ⟨ctx, .fail e⟩ => ⟨ctx, .fail e⟩

def mapContext (f : ScanContext → ScanContext) (o : Outcome) : Outcome := ⟨f o.context, o.exit⟩

@[simp] theorem andThen_proceed (ctx : ScanContext) (next : ScanContext → Outcome) :
    ctx.proceed.andThen next = next ctx := rfl

@[simp] theorem andThen_leave (ctx : ScanContext) (next : ScanContext → Outcome) :
    ctx.leave.andThen next = ctx.leave := rfl

@[simp] theorem andThen_fail (ctx : ScanContext) (e : ScanFailure)
    (next : ScanContext → Outcome) : (ctx.fail e).andThen next = ctx.fail e := rfl

end Outcome

/-- Runs `step` for the given number of passes, which are counted from `pass` on. -/
def ScanContext.runPasses (step : Nat → ScanContext → Outcome) :
    Nat → Nat → ScanContext → Outcome
  | 0, _, ctx => ctx.proceed
  | count + 1, pass, ctx => (step pass ctx).andThen (runPasses step count (pass + 1))

end LadderLogic
