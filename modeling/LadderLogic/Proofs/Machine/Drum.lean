import LadderLogic.Proofs.Effect.Drum
import LadderLogic.Proofs.Machine.Counter

/-!
Drums in guarded steps. The step is always one of the pattern, which has a row for it, and an event
drum has an event and a time drum a preset for it; so no drum looks behind the end of a list.
-/

set_option autoImplicit false

namespace LadderLogic

open Machine

namespace DrumCore

variable {drum : DrumCore}

/-- The element of a list that belongs to a step, which counts from one. -/
def ofStep {α : Type} (xs : List α) (step : Int) : Machine α := do
  element xs (← word (step - 1))

/-- The number of steps is compared as a word. -/
def isStepGuarded (drum : DrumCore) (step : Int) : Machine Bool := do
  let last ← word drum.steps
  return 1 ≤ step && step ≤ last

def currentStepGuarded (drum : DrumCore) (ctx : ScanContext) : Machine Int := do
  let step := ctx.readInt drum.step
  if ← drum.isStepGuarded step then return step else return 1

def driveOutputsGuarded (drum : DrumCore) (step : Int) (ctx : ScanContext) :
    Machine ScanContext := do
  let row ← ofStep drum.pattern step
  return ctx.writeAll (drum.outputs.zip (row.map Value.bool))

def restartGuarded (drum : DrumCore) (id : InstructionId) (ctx : ScanContext) :
    Machine ScanContext :=
  drum.driveOutputsGuarded 1
    (((ctx.write drum.step (.int 1)).write drum.completion (.bool false)).setMemory
      (armedKey id) (.bool false))

def jumpTargetGuarded (drum : DrumCore) (target : Expression) (ctx : ScanContext) :
    Machine (Option Int × ScanContext) :=
  match target.preset ctx with
  | (some step, ctx) => do
    if ← drum.isStepGuarded step then return (some step, ctx)
    else return (none, ctx.raise .outOfRange)
  | (none, ctx) => return (none, ctx.raise .outOfRange)

def acceptedGuarded (drum : DrumCore) (jumpEdge : Bool) (ctx : ScanContext) :
    Machine (Option Int × ScanContext) :=
  match jumpEdge, drum.jump with
  | true, some (_, target) => drum.jumpTargetGuarded target ctx
  | _, _ => return (none, ctx)

def requestedGuarded (drum : DrumCore) (jumpEdge jogEdge : Bool) (ctx : ScanContext) :
    Machine (DrumMove × ScanContext) := do
  match ← drum.acceptedGuarded jumpEdge ctx with
  | (some step, ctx) => return (.jumpTo step, ctx)
  | (none, ctx) => return (if jogEdge then .advance else .stay, ctx)

def beginGuarded (drum : DrumCore) (id : InstructionId) (enabled : Bool) (ctx : ScanContext) :
    Machine (Option DrumMove × ScanContext) :=
  let (jumpEdge, ctx) := edge (drum.jump.map Prod.fst) (jumpKey id) ctx
  let (jogEdge, ctx) := edge drum.jog (jogKey id) ctx
  if Condition.optionHolds ctx drum.reset then do return (none, ← drum.restartGuarded id ctx)
  else if enabled then do
    let (move, ctx) ← drum.requestedGuarded jumpEdge jogEdge ctx
    return (some move, ctx)
  else return (some .stay, ctx)

def applyMoveGuarded (drum : DrumCore) (move : DrumMove) (ctx : ScanContext) :
    Machine ScanContext := do
  let step ← drum.currentStepGuarded ctx
  match move with
  | .stay => return ctx.write drum.step (.int step)
  | .jumpTo target =>
    return (ctx.write drum.step (.int target)).write drum.completion (.bool false)
  | .advance =>
    if step < (← word drum.steps) then return ctx.write drum.step (.int (← word (step + 1)))
    else return (ctx.write drum.step (.int step)).write drum.completion (.bool true)

def finishGuarded (drum : DrumCore) (id : InstructionId) (enabled : Bool) (move : DrumMove)
    (ctx : ScanContext) : Machine ScanContext := do
  let ctx ← drum.applyMoveGuarded move ctx
  let ctx := if move = .stay then ctx else ctx.setMemory (armedKey id) (.bool false)
  if enabled then drum.driveOutputsGuarded (← drum.currentStepGuarded ctx) ctx else return ctx

/-- A drum with a step, and no more steps than a word can count. -/
def Countable (drum : DrumCore) : Prop := 0 < drum.steps ∧ Integer.Fits drum.steps

theorem isStepGuarded_eq (h : drum.Countable) (step : Int) :
    drum.isStepGuarded step = .ok (drum.isStep step) := by
  unfold isStepGuarded isStep
  rw [word_of_fits h.2]
  rfl

theorem currentStepGuarded_eq (h : drum.Countable) (ctx : ScanContext) :
    drum.currentStepGuarded ctx = .ok (drum.currentStep ctx) := by
  unfold currentStepGuarded currentStep
  dsimp only
  rw [isStepGuarded_eq h]
  cases drum.isStep (ctx.readInt drum.step) <;> rfl

theorem jumpTargetGuarded_eq (h : drum.Countable) (target : Expression) (ctx : ScanContext) :
    drum.jumpTargetGuarded target ctx = .ok (drum.jumpTarget target ctx) := by
  unfold jumpTargetGuarded jumpTarget
  generalize target.preset ctx = result
  obtain ⟨value, mid⟩ := result
  cases value with
  | none => rfl
  | some step =>
    dsimp only
    rw [isStepGuarded_eq h]
    cases drum.isStep step <;> rfl

theorem requestedGuarded_eq (h : drum.Countable) (jumpEdge jogEdge : Bool) (ctx : ScanContext) :
    drum.requestedGuarded jumpEdge jogEdge ctx = .ok (drum.requested jumpEdge jogEdge ctx) := by
  unfold requestedGuarded acceptedGuarded requested
  cases jumpEdge with
  | false => rfl
  | true =>
    cases drum.jump with
    | none => rfl
    | some jump =>
      dsimp only
      rw [jumpTargetGuarded_eq h]
      generalize drum.jumpTarget jump.2 ctx = result
      obtain ⟨accepted, mid⟩ := result
      cases accepted <;> rfl

theorem ofStep_eq {α : Type} {xs : List α} {x : α} {step : Int} (hfits : Integer.Fits drum.steps)
    (hstep : drum.isStep step = true) (hx : xs[(step - 1).toNat]? = some x) :
    ofStep xs step = .ok x := by
  obtain ⟨hlow, hhigh⟩ := (isStep_iff step).mp hstep
  have hplace : Integer.Fits (step - 1) := by
    unfold Integer.Fits Integer.least Integer.greatest at *
    omega
  unfold ofStep
  rw [word_of_fits hplace]
  exact element_of_getElem? (by omega) hx

/-- A list with an element for each step has one for this step. -/
theorem exists_ofStep {α : Type} {xs : List α} {step : Int} (hlength : xs.length = drum.steps)
    (hstep : drum.isStep step = true) : ∃ x, xs[(step - 1).toNat]? = some x := by
  obtain ⟨hlow, hhigh⟩ := (isStep_iff step).mp hstep
  exact ⟨xs[(step - 1).toNat], List.getElem?_eq_getElem (by omega)⟩

theorem driveOutputsGuarded_eq (h : drum.Countable) {step : Int} (hstep : drum.isStep step = true)
    (ctx : ScanContext) : drum.driveOutputsGuarded step ctx = .ok (drum.driveOutputs step ctx) := by
  have hlength : drum.pattern.length = drum.steps := rfl
  obtain ⟨row, hrow⟩ := exists_ofStep hlength hstep
  unfold driveOutputsGuarded driveOutputs DrumCore.row
  rw [ofStep_eq h.2 hstep hrow, hrow]
  rfl

theorem isStep_one (h : drum.Countable) : drum.isStep 1 = true := by
  rw [isStep_iff]
  exact ⟨le_rfl, by exact_mod_cast h.1⟩

theorem beginGuarded_eq (h : drum.Countable) (id : InstructionId) (enabled : Bool)
    (ctx : ScanContext) : drum.beginGuarded id enabled ctx = .ok (drum.begin id enabled ctx) := by
  unfold beginGuarded begin restartGuarded restart
  dsimp only
  split_ifs
  · rw [driveOutputsGuarded_eq h (isStep_one h)]
    rfl
  · rw [requestedGuarded_eq h]
    rfl
  · rfl

theorem applyMoveGuarded_eq (h : drum.Countable) (move : DrumMove) (ctx : ScanContext) :
    drum.applyMoveGuarded move ctx = .ok (drum.applyMove move ctx) := by
  unfold applyMoveGuarded applyMove
  rw [currentStepGuarded_eq h]
  cases move with
  | stay => rfl
  | jumpTo target => rfl
  | advance =>
    obtain ⟨hlow, hhigh⟩ := (isStep_iff _).mp (isStep_currentStep h.1 ctx)
    change (word drum.steps >>= fun last => if drum.currentStep ctx < last then _ else _) = _
    rw [word_of_fits h.2]
    change (if drum.currentStep ctx < drum.steps then _ else _ : Machine ScanContext) = _
    dsimp only
    split_ifs with hless
    · have hnext : Integer.Fits (drum.currentStep ctx + 1) := by
        have hfits := h.2
        unfold Integer.Fits Integer.least Integer.greatest at *
        omega
      rw [word_of_fits hnext]
      rfl
    · rfl

theorem finishGuarded_eq (h : drum.Countable) (id : InstructionId) (enabled : Bool)
    (move : DrumMove) (ctx : ScanContext) :
    drum.finishGuarded id enabled move ctx = .ok (drum.finish id enabled move ctx) := by
  unfold finishGuarded finish
  rw [applyMoveGuarded_eq h]
  cases enabled with
  | true =>
    change (drum.currentStepGuarded _ >>= fun step => drum.driveOutputsGuarded step _) = _
    rw [currentStepGuarded_eq h]
    exact driveOutputsGuarded_eq h (isStep_currentStep h.1 _) _
  | false => rfl

end DrumCore

namespace EventDrum

def eventGuarded (drum : EventDrum) (step : Int) (ctx : ScanContext) : Machine Bool := do
  return (← DrumCore.ofStep drum.events step).holds ctx

def watchGuarded (drum : EventDrum) (id : InstructionId) (ctx : ScanContext) :
    Machine (DrumMove × ScanContext) := do
  if ← drum.eventGuarded (← drum.core.currentStepGuarded ctx) ctx then
    return (if ctx.memoryBool (DrumCore.armedKey id) then .advance else .stay, ctx)
  else return (.stay, ctx.setMemory (DrumCore.armedKey id) (.bool true))

def nextMoveGuarded (drum : EventDrum) (id : InstructionId) (enabled : Bool) (move : DrumMove)
    (ctx : ScanContext) : Machine (DrumMove × ScanContext) :=
  if drum.core.isWaiting enabled move ctx then drum.watchGuarded id ctx else return (move, ctx)

def executeGuarded (drum : EventDrum) (id : InstructionId) (enabled : Bool) (ctx : ScanContext) :
    Machine ScanContext := do
  match ← drum.core.beginGuarded id enabled ctx with
  | (none, ctx) => return ctx
  | (some move, ctx) =>
    let (move, ctx) ← drum.nextMoveGuarded id enabled move ctx
    drum.core.finishGuarded id enabled move ctx

variable {drum : EventDrum}

theorem watchGuarded_eq (h : drum.core.Countable) (hevents : drum.events.length = drum.core.steps)
    (id : InstructionId) (ctx : ScanContext) :
    drum.watchGuarded id ctx = .ok (drum.watch id ctx) := by
  have hstep := DrumCore.isStep_currentStep h.1 ctx
  obtain ⟨event, hevent⟩ := DrumCore.exists_ofStep hevents hstep
  unfold watchGuarded watch eventGuarded EventDrum.event
  rw [DrumCore.currentStepGuarded_eq h]
  change ((DrumCore.ofStep drum.events (drum.core.currentStep ctx) >>= _) >>= _) = _
  rw [DrumCore.ofStep_eq h.2 hstep hevent, hevent]
  change (if event.holds ctx then _ else _ : Machine (DrumMove × ScanContext)) =
    .ok (if event.holds ctx then _ else _)
  split_ifs <;> rfl

theorem executeGuarded_eq (h : drum.core.Countable)
    (hevents : drum.events.length = drum.core.steps) (id : InstructionId) (enabled : Bool)
    (ctx : ScanContext) :
    drum.executeGuarded id enabled ctx = .ok (drum.execute id enabled ctx) := by
  unfold executeGuarded execute
  rw [DrumCore.beginGuarded_eq h]
  generalize drum.core.begin id enabled ctx = start
  obtain ⟨move, mid⟩ := start
  cases move with
  | none => rfl
  | some move =>
    change (drum.nextMoveGuarded id enabled move mid >>= fun next =>
      drum.core.finishGuarded id enabled next.1 next.2) = _
    rw [nextMoveGuarded, watchGuarded_eq h hevents]
    dsimp only
    split_ifs <;> exact DrumCore.finishGuarded_eq h id enabled _ _

end EventDrum

namespace TimeDrum

def presetGuarded (drum : TimeDrum) (step : Int) (ctx : ScanContext) :
    Machine (Option Int × ScanContext) := do
  return (← DrumCore.ofStep drum.presets step).preset ctx

def watchGuarded (drum : TimeDrum) (id : InstructionId) (ctx : ScanContext) :
    Machine (DrumMove × ScanContext) := do
  match ← drum.presetGuarded (← drum.core.currentStepGuarded ctx) ctx with
  | (none, ctx) => return (.stay, ctx)
  | (some preset, ctx) =>
    let (count, ctx) :=
      Timer.accumulate ctx (DrumCore.fracKey id) (ctx.readInt drum.accumulator) drum.unit
    return (if preset ≤ count then .advance else .stay, ctx.write drum.accumulator (.int count))

def nextMoveGuarded (drum : TimeDrum) (id : InstructionId) (enabled : Bool) (move : DrumMove)
    (ctx : ScanContext) : Machine (DrumMove × ScanContext) :=
  if drum.core.isWaiting enabled move ctx then drum.watchGuarded id ctx else return (move, ctx)

def executeGuarded (drum : TimeDrum) (id : InstructionId) (enabled : Bool) (ctx : ScanContext) :
    Machine ScanContext := do
  match ← drum.core.beginGuarded id enabled ctx with
  | (none, ctx) => return drum.clearTimer id ctx
  | (some move, ctx) =>
    let (move, ctx) ← drum.nextMoveGuarded id enabled move ctx
    let ctx ← drum.core.finishGuarded id enabled move ctx
    return if move = .stay then ctx else drum.clearTimer id ctx

variable {drum : TimeDrum}

theorem watchGuarded_eq (h : drum.core.Countable)
    (hpresets : drum.presets.length = drum.core.steps) (id : InstructionId) (ctx : ScanContext) :
    drum.watchGuarded id ctx = .ok (drum.watch id ctx) := by
  have hstep := DrumCore.isStep_currentStep h.1 ctx
  obtain ⟨preset, hpreset⟩ := DrumCore.exists_ofStep hpresets hstep
  unfold watchGuarded watch presetGuarded TimeDrum.preset
  rw [DrumCore.currentStepGuarded_eq h]
  change ((DrumCore.ofStep drum.presets (drum.core.currentStep ctx) >>= _) >>= _) = _
  rw [DrumCore.ofStep_eq h.2 hstep hpreset, hpreset]
  change (match preset.preset ctx with
    | (none, ctx) => _
    | (some preset, ctx) => _ : Machine (DrumMove × ScanContext)) = _
  dsimp only
  generalize preset.preset ctx = result
  obtain ⟨_ | value, mid⟩ := result <;> rfl

theorem executeGuarded_eq (h : drum.core.Countable)
    (hpresets : drum.presets.length = drum.core.steps) (id : InstructionId) (enabled : Bool)
    (ctx : ScanContext) :
    drum.executeGuarded id enabled ctx = .ok (drum.execute id enabled ctx) := by
  unfold executeGuarded execute
  rw [DrumCore.beginGuarded_eq h]
  generalize drum.core.begin id enabled ctx = start
  obtain ⟨move, mid⟩ := start
  cases move with
  | none => rfl
  | some move =>
    change (drum.nextMoveGuarded id enabled move mid >>= fun next =>
      drum.core.finishGuarded id enabled next.1 next.2 >>= fun last =>
        .ok (if next.1 = .stay then last else drum.clearTimer id last)) = _
    rw [nextMoveGuarded, watchGuarded_eq h hpresets]
    dsimp only
    cases drum.core.isWaiting enabled move mid with
    | true | false =>
      change (drum.core.finishGuarded id enabled _ _ >>= _) = _
      rw [DrumCore.finishGuarded_eq h]
      rfl

end TimeDrum

end LadderLogic
