import LadderLogic.Program.Scan

/-!
The moments of a scan in the order in which they happen: a rung is entered, an instruction is
reached, an operation runs. They follow the scan through loops, branches and calls, with the very
contexts that it passes through, and stop where it stops.
-/

set_option autoImplicit false

namespace LadderLogic

inductive Moment where
  /-- The enables of a rung and of its branches are decided. -/
  | rung (r : Rung) (context : ScanContext)
  /-- An instruction is reached, before its oneshot is looked at. -/
  | reach (i : Instruction) (enabled : Bool) (context : ScanContext)
  /-- An operation runs. -/
  | operate (id : InstructionId) (op : Operation) (enabled : Bool) (context : ScanContext)

namespace Moment

def context : Moment → ScanContext
  | rung _ ctx => ctx
  | reach _ _ ctx => ctx
  | operate _ _ _ ctx => ctx

/-- What a moment does to the runtime table: reaching an instruction with a oneshot records whether
it is enabled. -/
def record (r : RuntimeTable) : Moment → RuntimeTable
  | reach i enabled _ => if i.oneshot then r.setOneshot i.id enabled else r
  | rung _ _ => r
  | operate _ _ _ _ => r

end Moment

/-- The moments of what follows, which happen only if the flow goes on. -/
def Outcome.onward (o : Outcome) (next : ScanContext → List Moment) : List Moment :=
  match o with
  | ⟨ctx, .proceed⟩ => next ctx
  | ⟨_, .leave⟩ => []
  | ⟨_, .fail _⟩ => []

abbrev CallMoments := String → ScanContext → List Moment

def Operation.moments (op : Operation) (calls : CallMoments) (id : InstructionId) (enabled : Bool)
    (ctx : ScanContext) : List Moment :=
  .operate id op enabled ctx ::
    match op with
    | .callSubroutine name => calls name ctx
    | _ => []

namespace Instruction

def singleMoments (calls : CallMoments) (id : InstructionId) (oneshot : Bool) (op : Operation)
    (enabled : Bool) : ScanContext → List Moment :=
  gate id oneshot enabled
    (op.moments calls id true)
    (fun ctx => if op.inertWhenDisabled then [] else op.moments calls id false ctx)
    (fun ctx => match op with
      | .out _ => op.moments calls id false ctx
      | _ => [])

def runMoments (step : Nat → ScanContext → Outcome) (moments : Nat → ScanContext → List Moment) :
    Nat → Nat → ScanContext → List Moment
  | 0, _, _ => []
  | count + 1, pass, ctx =>
    moments pass ctx ++ (step pass ctx).onward (runMoments step moments count (pass + 1))

def passesMoments (env : Surroundings) (head : ForHead) (body : ScanContext → Outcome)
    (moments : ScanContext → List Moment) (ctx : ScanContext) : List Moment :=
  let (passes, ctx) := head.passes env.loopLimit ctx
  runMoments (fun pass ctx => body (head.writeIndex pass ctx))
    (fun pass ctx => moments (head.writeIndex pass ctx)) passes 0 ctx

mutual

def moments (env : Surroundings) (calls : CallMoments) (enabled : Bool) :
    Instruction → ScanContext → List Moment
  | single id oneshot op, ctx =>
    .reach (single id oneshot op) enabled ctx :: singleMoments calls id oneshot op enabled ctx
  | loop id oneshot head body, ctx =>
    .reach (loop id oneshot head body) enabled ctx ::
      gate id oneshot enabled
        (passesMoments env head (executeAll env true body) (momentsOfAll env calls true body))
        (momentsOfAll env calls false body)
        (fun _ => []) ctx

def momentsOfAll (env : Surroundings) (calls : CallMoments) (enabled : Bool) :
    List Instruction → ScanContext → List Moment
  | [], _ => []
  | i :: is, ctx =>
    i.moments env calls enabled ctx ++
      (i.execute env enabled ctx).onward (momentsOfAll env calls enabled is)

end

end Instruction

namespace RungItem

mutual

def moments (env : Instruction.Surroundings) (calls : CallMoments) (enabled : Bool) :
    RungItem → List Bool → ScanContext → List Moment
  | instruction i, _, ctx => i.moments env calls enabled ctx
  | branch _ items, decided, ctx =>
    momentsOfAll env calls (decided.headD false) items decided.tail ctx

def momentsOfAll (env : Instruction.Surroundings) (calls : CallMoments) (enabled : Bool) :
    List RungItem → List Bool → ScanContext → List Moment
  | [], _, _ => []
  | item :: items, decided, ctx =>
    item.moments env calls enabled decided ctx ++
      (item.run env enabled decided ctx).2.onward
        (momentsOfAll env calls enabled items (item.run env enabled decided ctx).1)

end

end RungItem

namespace Rung

def moments (env : Instruction.Surroundings) (calls : CallMoments) (r : Rung) (ctx : ScanContext) :
    List Moment :=
  let enabled := r.enabled ctx
  .rung r ctx ::
    RungItem.momentsOfAll env calls enabled r.items (RungItem.enablesOfAll ctx enabled r.items) ctx

def momentsOfAll (env : Instruction.Surroundings) (calls : CallMoments) :
    List Rung → ScanContext → List Moment
  | [], _ => []
  | r :: rs, ctx => r.moments env calls ctx ++ (r.execute env ctx).onward (momentsOfAll env calls rs)

end Rung

/-- The context of a scan before its main rungs are readied. -/
def ScanContext.startScan (s : SystemState) (r : RuntimeTable) (dt : Float) : ScanContext :=
  (ScanContext.start s r).setDt dt

namespace Program

/-- The moments of a CALL with `levels` levels of calls left. -/
def callMoments (p : Program) (levels : Nat) (name : String) (ctx : ScanContext) : List Moment :=
  match p.subroutine? name with
  | none => []
  | some rungs =>
    match levels with
    | 0 => []
    | levels + 1 =>
      Rung.momentsOfAll ⟨p.loopLimit, p.callWithin levels⟩ (p.callMoments levels) rungs ctx.enterCall

def moments (p : Program) (ctx : ScanContext) : List Moment :=
  let ctx := p.prepare ctx
  Rung.momentsOfAll (p.surroundings ctx) (p.callMoments (p.depthLimit - ctx.callDepth)) p.rungs ctx

/-- The moments of a scan, up to where it ends or fails. -/
def scanMoments (p : Program) (s : SystemState) (r : RuntimeTable) (dt : Float) : List Moment :=
  p.moments (.startScan s r dt)

end Program

end LadderLogic
