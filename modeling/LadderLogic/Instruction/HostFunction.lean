import LadderLogic.Reference

/-!
Calls of functions that the host of the engine provides. A function maps named inputs to named
outputs, and every output goes to its tag under the copy law.
-/

set_option autoImplicit false

namespace LadderLogic

structure Bindings where
  inputs : List (String × Expression)
  outputs : List (String × TagRef)

namespace Bindings

/-- The evaluated inputs, the last of a name counting, or the first fault among them. -/
def gather (b : Bindings) (ctx : ScanContext) : Except EvalFault ValueMap :=
  b.inputs.foldlM (fun values (name, e) => (e.evaluate ctx).map (values.insert name ·)) ∅

/-- The write of one output. A name that the function does not return has none. -/
def stageOutput (ctx : ScanContext) (results : ValueMap) (output : String × TagRef) :
    Except Fault (Option (Tag × Value)) :=
  match results[output.1]? with
  | none => .ok none
  | some value =>
    match output.2.resolve ctx with
    | none => .error .addressError
    | some tag =>
      match tag.type.storeCopy value with
      | some stored => .ok (some (tag, stored))
      | none => .error .outOfRange

/-- The writes of all outputs, or the first fault among them. -/
def stage (b : Bindings) (ctx : ScanContext) (results : ValueMap) :
    Except Fault (List (Tag × Value)) :=
  (b.outputs.mapM (stageOutput ctx results)).map (·.filterMap id)

/-- Calls a function. Any fault, of an input or of an output, keeps all outputs from being
written. -/
def call (b : Bindings) (function : ValueMap → ValueMap) (ctx : ScanContext) : ScanContext :=
  match b.gather ctx with
  | .error e => ctx.raise e.fault
  | .ok inputs =>
    match b.stage ctx (function inputs) with
    | .ok writes => ctx.writeAll writes
    | .error fault => ctx.raise fault

end Bindings

/-- A function that is called in every enabled scan. -/
structure RunFunction where
  name : String
  function : ValueMap → ValueMap
  bindings : Bindings

def RunFunction.execute (run : RunFunction) (ctx : ScanContext) : ScanContext :=
  run.bindings.call run.function ctx

/-- A function that is called in every scan and is told whether the rung is enabled. -/
structure RunEnabledFunction where
  name : String
  function : Bool → ValueMap → ValueMap
  bindings : Bindings

def RunEnabledFunction.execute (run : RunEnabledFunction) (enabled : Bool) (ctx : ScanContext) :
    ScanContext :=
  run.bindings.call (run.function enabled) ctx

end LadderLogic
