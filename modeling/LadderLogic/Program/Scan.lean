import LadderLogic.Program

/-!
Running a program: one scan reads a state and the runtime table, and ends with the next state or a
failure. The runtime table keeps what happened in either case.
-/

set_option autoImplicit false

namespace LadderLogic

structure ScanResult where
  next : Except ScanFailure SystemState
  runtime : RuntimeTable
  notices : Array Notice

/-- The end of a scan on a context: a commit unless the flow has failed. -/
def Outcome.finish (o : Outcome) (dt : Float) : ScanResult where
  next :=
    match o.exit with
    | .fail e => .error e
    | .proceed => .ok (o.context.commit dt)
    | .leave => .ok (o.context.commit dt)
  runtime := o.context.runtime
  notices := o.context.notices

namespace Program

def loopLimit (p : Program) : Nat := p.limits.maxLoopIterations.toNat

def depthLimit (p : Program) : Nat := p.limits.maxCallDepth.toNat

/-- Runs a subroutine with `levels` levels of calls left: a RETURN inside it ends here, and the
call depth is restored on every exit. -/
def callWithin (p : Program) (levels : Nat) (name : String) (ctx : ScanContext) : Outcome :=
  match p.subroutine? name with
  | none => ctx.fail (.error (.unknownSubroutine name))
  | some rungs =>
    match levels with
    | 0 => ctx.fail (.error (.callDepthExceeded p.depthLimit))
    | levels + 1 =>
      let env : Instruction.Surroundings := ⟨p.loopLimit, p.callWithin levels⟩
      (Rung.executeAll env rungs ctx.enterCall).absorbLeave.mapContext ScanContext.exitCall

/-- Runs a subroutine in the context of its caller. -/
def call (p : Program) (name : String) (ctx : ScanContext) : Outcome :=
  p.callWithin (p.depthLimit - ctx.callDepth) name ctx

/-- What surrounds the main rungs when they run in the context. -/
def surroundings (p : Program) (ctx : ScanContext) : Instruction.Surroundings :=
  ⟨p.loopLimit, p.callWithin (p.depthLimit - ctx.callDepth)⟩

/-- Writes the status tags. The counter is the number of the running scan, counted from one, as a
signed 32-bit integer. -/
def refreshStatus (ctx : ScanContext) : ScanContext :=
  ((ctx.setTag SystemTag.alwaysOnName (.bool true)).setTag SystemTag.firstScanName
    (.bool (ctx.state.scanId == 0))).setTag SystemTag.scanCounterName
      (.int (Integer.residue 32 true (ctx.state.scanId + 1).toNat))

def prepare (p : Program) (ctx : ScanContext) : ScanContext :=
  let ctx := ctx.watch p.edgeTags
  (if p.statusTags then refreshStatus ctx else ctx).clearFaults

def evaluate (p : Program) (ctx : ScanContext) : Outcome :=
  let ctx := p.prepare ctx
  Rung.executeAll (p.surroundings ctx) p.rungs ctx

/-- One scan with a time step. -/
def scan (p : Program) (state : SystemState) (runtime : RuntimeTable) (dt : Float) : ScanResult :=
  (p.evaluate ((ScanContext.start state runtime).setDt dt)).finish dt

/-- A subroutine on its own, without the work that precedes the main rungs. -/
def scanSubroutine (p : Program) (name : String) (state : SystemState) (runtime : RuntimeTable)
    (dt : Float) : ScanResult :=
  (p.call name ((ScanContext.start state runtime).setDt dt)).finish dt

end Program

end LadderLogic
