import LadderLogic.Proofs.Drum.Move
import LadderLogic.Proofs.Lockstep.Timer

/-!
Drums in contexts that are alike. A part of a drum's execution hands a move on with a context, and
both sides hand on the same move.
-/

set_option autoImplicit false

namespace LadderLogic

/-- The same result on both sides, with contexts that are in step. -/
structure ResultsInStep {α : Type} (targets : Tag → Prop) (a b : ScanContext)
    (x y : α × ScanContext) : Prop where
  result : x.1 = y.1
  context : a.InStep (Touch.Plain targets) b x.2 y.2

theorem ResultsInStep.exists_eq {α : Type} {targets : Tag → Prop} {a b : ScanContext}
    {x y : α × ScanContext} (h : ResultsInStep targets a b x y) :
    ∃ r c d, x = (r, c) ∧ y = (r, d) ∧ a.InStep (Touch.Plain targets) b c d :=
  ⟨x.1, x.2, y.2, rfl, Prod.ext h.result.symm rfl, h.context⟩

namespace ScanContext.Alike

variable {a b : ScanContext}

theorem currentStep (h : a.Alike b) (drum : DrumCore) : drum.currentStep a = drum.currentStep b :=
  DrumCore.currentStep_congr (congrFun h.tags drum.step.name)

theorem isWaiting (h : a.Alike b) (drum : DrumCore) (enabled : Bool) (move : DrumMove) :
    drum.isWaiting enabled move a = drum.isWaiting enabled move b := by
  unfold DrumCore.isWaiting
  rw [h.readBool]

end ScanContext.Alike

namespace DrumCore

variable {drum : DrumCore} {targets : Tag → Prop} {a b c d : ScanContext}

theorem driveOutputs_inStep (hdrum : ∀ t, drum.Targets t → targets t)
    (h : a.InStep (Touch.Plain targets) b c d) (step : Int) :
    a.InStep (Touch.Plain targets) b (drum.driveOutputs step c) (drum.driveOutputs step d) :=
  h.writeAll fun w hw => hdrum w.1 (.inl (List.of_mem_zip hw).1)

theorem edge_inStep (h : a.InStep (Touch.Plain targets) b c d) (condition : Option Condition)
    (key : String) :
    ResultsInStep targets a b (edge condition key c) (edge condition key d) := by
  cases condition with
  | none => exact ⟨rfl, h⟩
  | some condition =>
    unfold edge
    dsimp only
    rw [h.alike.holds, h.alike.memoryBool]
    exact ⟨rfl, h.setMemory _ _⟩

theorem restart_inStep (hdrum : ∀ t, drum.Targets t → targets t) (id : InstructionId)
    (h : a.InStep (Touch.Plain targets) b c d) :
    a.InStep (Touch.Plain targets) b (drum.restart id c) (drum.restart id d) := by
  have hstep := h.write (hdrum drum.step (.inr (.inl rfl))) (.int 1)
  have hcompletion := hstep.write (hdrum drum.completion (.inr (.inr rfl))) (.bool false)
  exact driveOutputs_inStep hdrum (hcompletion.setMemory _ _) 1

theorem jumpTarget_inStep (h : a.InStep (Touch.Plain targets) b c d) (drum : DrumCore)
    (target : Expression) :
    ResultsInStep targets a b (drum.jumpTarget target c) (drum.jumpTarget target d) := by
  unfold jumpTarget Expression.preset
  rw [h.alike.evaluate]
  cases target.evaluate d with
  | error fault => exact ⟨rfl, (h.raise _).raise _⟩
  | ok v =>
    dsimp only
    cases v.toInt? with
    | none => exact ⟨rfl, h.raise _⟩
    | some i =>
      dsimp only
      split_ifs
      · exact ⟨rfl, h⟩
      · exact ⟨rfl, h.raise _⟩

theorem requested_inStep (h : a.InStep (Touch.Plain targets) b c d) (drum : DrumCore)
    (jumpEdge jogEdge : Bool) :
    ResultsInStep targets a b (drum.requested jumpEdge jogEdge c)
      (drum.requested jumpEdge jogEdge d) := by
  cases jumpEdge with
  | false => exact ⟨rfl, h⟩
  | true =>
    unfold requested
    cases drum.jump with
    | none => exact ⟨rfl, h⟩
    | some jump =>
      obtain ⟨condition, target⟩ := jump
      obtain ⟨accepted, x, y, hx, hy, hcontext⟩ := (jumpTarget_inStep h drum target).exists_eq
      dsimp only
      rw [hx, hy]
      cases accepted with
      | none => exact ⟨rfl, hcontext⟩
      | some i => exact ⟨rfl, hcontext⟩

theorem begin_inStep (hdrum : ∀ t, drum.Targets t → targets t) (id : InstructionId)
    (enabled : Bool) (h : a.InStep (Touch.Plain targets) b c d) :
    ResultsInStep targets a b (drum.begin id enabled c) (drum.begin id enabled d) := by
  have hjump := edge_inStep h (drum.jump.map Prod.fst) (jumpKey id)
  have hjog := edge_inStep hjump.context drum.jog (jogKey id)
  unfold begin
  dsimp only
  rw [hjog.context.alike.optionHolds, hjump.result, hjog.result]
  split_ifs
  · exact ⟨rfl, restart_inStep hdrum id hjog.context⟩
  · have hrequested := requested_inStep hjog.context drum
      (edge (drum.jump.map Prod.fst) (jumpKey id) d).1
      (edge drum.jog (jogKey id) (edge (drum.jump.map Prod.fst) (jumpKey id) d).2).1
    exact ⟨congrArg some hrequested.result, hrequested.context⟩
  · exact ⟨rfl, hjog.context⟩

theorem applyMove_inStep (hdrum : ∀ t, drum.Targets t → targets t) (move : DrumMove)
    (h : a.InStep (Touch.Plain targets) b c d) :
    a.InStep (Touch.Plain targets) b (drum.applyMove move c) (drum.applyMove move d) := by
  have hstep : ∀ i : Int, a.InStep (Touch.Plain targets) b (c.write drum.step (.int i))
      (d.write drum.step (.int i)) := fun i => h.write (hdrum _ (.inr (.inl rfl))) _
  have hcompletion : targets drum.completion := hdrum _ (.inr (.inr rfl))
  unfold applyMove
  rw [h.alike.currentStep]
  cases move with
  | stay => exact hstep _
  | jumpTo i => exact (hstep i).write hcompletion _
  | advance =>
    dsimp only
    split_ifs
    · exact hstep _
    · exact (hstep _).write hcompletion _

theorem finish_inStep (hdrum : ∀ t, drum.Targets t → targets t) (id : InstructionId)
    (enabled : Bool) (move : DrumMove) (h : a.InStep (Touch.Plain targets) b c d) :
    a.InStep (Touch.Plain targets) b (drum.finish id enabled move c)
      (drum.finish id enabled move d) := by
  have hmove := applyMove_inStep hdrum move h
  have harmed : a.InStep (Touch.Plain targets) b
      (if move = .stay then drum.applyMove move c
        else (drum.applyMove move c).setMemory (armedKey id) (.bool false))
      (if move = .stay then drum.applyMove move d
        else (drum.applyMove move d).setMemory (armedKey id) (.bool false)) := by
    split_ifs
    · exact hmove
    · exact hmove.setMemory _ _
  unfold finish
  dsimp only
  split
  · rw [harmed.alike.currentStep]
    exact driveOutputs_inStep hdrum harmed _
  · exact harmed

end DrumCore

section Drums

variable {a b c d : ScanContext}

theorem EventDrum.watch_inStep {targets : Tag → Prop} (drum : EventDrum) (id : InstructionId)
    (h : a.InStep (Touch.Plain targets) b c d) :
    ResultsInStep targets a b (drum.watch id c) (drum.watch id d) := by
  unfold watch event
  rw [h.alike.currentStep, h.alike.optionHolds, h.alike.memoryBool]
  split
  · exact ⟨rfl, h⟩
  · exact ⟨rfl, h.setMemory _ _⟩

theorem EventDrum.inStep (drum : EventDrum) (id : InstructionId) (enabled : Bool) (h : a.Alike b) :
    a.InStep (Touch.Plain (Operation.eventDrum drum).Targets) b (drum.execute id enabled a)
      (drum.execute id enabled b) := by
  have hcore : ∀ t, drum.core.Targets t → (Operation.eventDrum drum).Targets t := fun _ ht => ht
  have hstart : a.InStep (Touch.Plain (Operation.eventDrum drum).Targets) b a b := .start h
  have hbegin := DrumCore.begin_inStep hcore id enabled hstart
  obtain ⟨move, c, d, hc, hd, hmid⟩ := hbegin.exists_eq
  unfold execute
  rw [hc, hd]
  cases move with
  | none => exact hmid
  | some move =>
    dsimp only
    rw [hmid.alike.isWaiting]
    split
    · have hwatch := drum.watch_inStep id hmid
      rw [hwatch.result]
      exact DrumCore.finish_inStep hcore id enabled _ hwatch.context
    · exact DrumCore.finish_inStep hcore id enabled move hmid

theorem TimeDrum.watch_inStep {targets : Tag → Prop} (drum : TimeDrum) (id : InstructionId)
    (ht : targets drum.accumulator) (h : a.InStep (Touch.Plain targets) b c d) :
    ResultsInStep targets a b (drum.watch id c) (drum.watch id d) := by
  obtain ⟨hcount, hcontext⟩ :=
    Timer.accumulate_inStep h (DrumCore.fracKey id) drum.accumulator drum.unit
  unfold watch preset Expression.preset
  rw [h.alike.currentStep]
  cases drum.presets[(drum.core.currentStep d - 1).toNat]? with
  | none => exact ⟨rfl, h⟩
  | some p =>
    dsimp only
    rw [h.alike.evaluate]
    cases p.evaluate d with
    | error fault => exact ⟨rfl, h.raise _⟩
    | ok v =>
      dsimp only
      cases v.toInt? with
      | none => exact ⟨rfl, h⟩
      | some i =>
        dsimp only
        rw [hcount]
        exact ⟨rfl, hcontext.write ht _⟩

theorem TimeDrum.inStep (drum : TimeDrum) (id : InstructionId) (enabled : Bool) (h : a.Alike b) :
    a.InStep (Touch.Plain (Operation.timeDrum drum).Targets) b (drum.execute id enabled a)
      (drum.execute id enabled b) := by
  have hcore : ∀ t, drum.core.Targets t → (Operation.timeDrum drum).Targets t := fun t => .inl
  have hclear : ∀ {c d}, a.InStep (Touch.Plain (Operation.timeDrum drum).Targets) b c d →
      a.InStep (Touch.Plain (Operation.timeDrum drum).Targets) b (drum.clearTimer id c)
        (drum.clearTimer id d) := fun hmid => (hmid.write (.inr rfl) _).setMemory _ _
  have hsettle : ∀ (move : DrumMove) {c d},
      a.InStep (Touch.Plain (Operation.timeDrum drum).Targets) b c d →
      a.InStep (Touch.Plain (Operation.timeDrum drum).Targets) b
        (if move = .stay then drum.core.finish id enabled move c
          else drum.clearTimer id (drum.core.finish id enabled move c))
        (if move = .stay then drum.core.finish id enabled move d
          else drum.clearTimer id (drum.core.finish id enabled move d)) := by
    intro move c d hmid
    have hfinish := DrumCore.finish_inStep hcore id enabled move hmid
    split_ifs
    · exact hfinish
    · exact hclear hfinish
  have hstart : a.InStep (Touch.Plain (Operation.timeDrum drum).Targets) b a b := .start h
  have hbegin := DrumCore.begin_inStep hcore id enabled hstart
  obtain ⟨move, c, d, hc, hd, hmid⟩ := hbegin.exists_eq
  unfold execute
  rw [hc, hd]
  cases move with
  | none => exact hclear hmid
  | some move =>
    dsimp only
    rw [hmid.alike.isWaiting]
    split
    · have hwatch := drum.watch_inStep id (.inr rfl) hmid
      rw [hwatch.result]
      exact hsettle _ hwatch.context
    · exact hsettle move hmid

end Drums

end LadderLogic
