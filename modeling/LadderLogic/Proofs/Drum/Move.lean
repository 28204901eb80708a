import LadderLogic.Proofs.Drum.Request

/-!
Where a drum arrives. One execution is one move, made from the step at which it found the drum; a
reset is a move to the first step. The tags of step, completion and outputs hold what the move
leads to, for event drums and for time drums.
-/

set_option autoImplicit false

namespace LadderLogic

namespace DrumCore

/-- Nothing else that the drum writes, and no fault, shares a name with its step or its
completion. -/
structure Apart (drum : DrumCore) : Prop where
  completion : drum.completion.name ≠ drum.step.name
  outputs : ∀ t ∈ drum.outputs, t.name ≠ drum.step.name ∧ t.name ≠ drum.completion.name
  faults : ∀ f : Fault, f.tagName ≠ drum.step.name ∧ f.tagName ≠ drum.completion.name

/-- The step that a move leads to. -/
def landing (drum : DrumCore) (step : Int) : DrumMove → Int
  | .stay => step
  | .jumpTo target => target
  | .advance => if step < drum.steps then step + 1 else step

/-- What a move does to the completion, if anything. -/
def flag? (drum : DrumCore) (step : Int) : DrumMove → Option Bool
  | .stay => none
  | .jumpTo _ => some false
  | .advance => if step < drum.steps then none else some true

/-- A move made in the first context has led to the second one, and the outputs were driven or
left alone. -/
structure Lands (drum : DrumCore) (driven : Bool) (move : DrumMove) (ctx next : ScanContext) :
    Prop where
  step : next.tag? drum.step.name = some (.int (drum.landing (drum.currentStep ctx) move))
  completion : next.tag? drum.completion.name =
    ((drum.flag? (drum.currentStep ctx) move).map Value.bool).or (ctx.tag? drum.completion.name)
  outputs : driven = true → (drum.outputs.map Tag.name).Nodup →
    drum.outputs.map (fun t => next.tag? t.name) =
      (drum.row (drum.landing (drum.currentStep ctx) move)).map fun b => some (.bool b)
  untouched : driven = false → ∀ t ∈ drum.outputs, next.tag? t.name = ctx.tag? t.name

variable {drum : DrumCore} {id : InstructionId} {ctx mid next : ScanContext}

/-- Each row has a column for each output. -/
theorem length_of_mem_pattern (h : drum.Checked) {row : List Bool} (hrow : row ∈ drum.pattern) :
    row.length = drum.outputs.length := by
  unfold Checked make at h
  split at h
  case isTrue => cases h
  case isFalse =>
    obtain ⟨_, _, h⟩ := bind_eq_ok.mp h
    obtain ⟨_, hpattern, _⟩ := bind_eq_ok.mp h
    have hcheck := eq_ok_of_forM hpattern row hrow
    split at hcheck
    · assumption
    · cases hcheck

/-- The pattern has a row for each step. -/
theorem pattern_row {step : Int} (hstep : drum.isStep step = true) :
    drum.pattern[(step - 1).toNat]? = some (drum.row step) := by
  obtain ⟨row, hrow⟩ := exists_ofStep (rfl : drum.pattern.length = drum.steps) hstep
  unfold DrumCore.row
  rw [hrow]
  rfl

theorem length_row (h : drum.Checked) {step : Int} (hstep : drum.isStep step = true) :
    (drum.row step).length = drum.outputs.length :=
  length_of_mem_pattern h (List.mem_of_getElem? (pattern_row hstep))

theorem driveOutputs_tag?_of_ne {name : String} (h : ∀ t ∈ drum.outputs, t.name ≠ name)
    (step : Int) (ctx : ScanContext) :
    (drum.driveOutputs step ctx).tag? name = ctx.tag? name :=
  ScanContext.tag?_writeAll_of_ne fun w hw => h w.1 (List.of_mem_zip hw).1

theorem driveOutputs_outputs (h : drum.Checked) (hnames : (drum.outputs.map Tag.name).Nodup)
    {step : Int} (hstep : drum.isStep step = true) (ctx : ScanContext) :
    drum.outputs.map (fun t => (drum.driveOutputs step ctx).tag? t.name) =
      (drum.row step).map fun b => some (.bool b) := by
  have hlength : ((drum.row step).map Value.bool).length = drum.outputs.length := by
    rw [List.length_map, length_row h hstep]
  refine (ScanContext.tag?_writeAll_zip hnames hlength).trans ?_
  rw [List.map_map]
  rfl

theorem currentStep_congr (h : mid.tag? drum.step.name = ctx.tag? drum.step.name) :
    drum.currentStep mid = drum.currentStep ctx := by
  unfold currentStep
  rw [ScanContext.readInt_congr h]

theorem currentStep_of_tag? {step : Int} (h : ctx.tag? drum.step.name = some (.int step))
    (hstep : drum.isStep step = true) : drum.currentStep ctx = step := by
  unfold currentStep
  simp only [ScanContext.readInt_of_tag? h, hstep, if_true]

/-- No move leads out of the pattern. -/
theorem isStep_landing {step : Int} (hstep : drum.isStep step = true) {move : DrumMove}
    (hin : drum.Inside move) : drum.isStep (drum.landing step move) = true := by
  cases move with
  | stay => exact hstep
  | jumpTo target => exact hin target rfl
  | advance =>
    rw [isStep_iff] at hstep ⊢
    dsimp only [landing]
    split_ifs <;> omega

theorem applyMove_step (h : drum.Apart) (move : DrumMove) (ctx : ScanContext) :
    (drum.applyMove move ctx).tag? drum.step.name =
      some (.int (drum.landing (drum.currentStep ctx) move)) := by
  have hboth : ∀ (i : Int) (v : Value),
      ((ctx.write drum.step (.int i)).write drum.completion v).tag? drum.step.name =
        some (.int i) := fun i v =>
    (ScanContext.tag?_write_of_ne h.completion v).trans (ScanContext.tag?_write_self ctx _ _)
  cases move with
  | stay => exact ScanContext.tag?_write_self ctx _ _
  | jumpTo target => exact hboth target _
  | advance =>
    unfold applyMove landing
    dsimp only
    split_ifs
    · exact ScanContext.tag?_write_self ctx _ _
    · exact hboth _ _

theorem applyMove_completion (h : drum.Apart) (move : DrumMove) (ctx : ScanContext) :
    (drum.applyMove move ctx).tag? drum.completion.name =
      ((drum.flag? (drum.currentStep ctx) move).map Value.bool).or
        (ctx.tag? drum.completion.name) := by
  cases move with
  | stay => exact ScanContext.tag?_write_of_ne h.completion.symm _
  | jumpTo target => exact ScanContext.tag?_write_self _ _ _
  | advance =>
    unfold applyMove flag?
    dsimp only
    split_ifs
    · exact ScanContext.tag?_write_of_ne h.completion.symm _
    · exact ScanContext.tag?_write_self _ _ _

theorem applyMove_of_ne {name : String} (hstep : drum.step.name ≠ name)
    (hcompletion : drum.completion.name ≠ name) (move : DrumMove) (ctx : ScanContext) :
    (drum.applyMove move ctx).tag? name = ctx.tag? name := by
  have hboth : ∀ v w, ((ctx.write drum.step v).write drum.completion w).tag? name =
      ctx.tag? name := fun v w =>
    (ScanContext.tag?_write_of_ne hcompletion w).trans (ScanContext.tag?_write_of_ne hstep v)
  cases move with
  | stay => exact ScanContext.tag?_write_of_ne hstep _
  | jumpTo target => exact hboth _ _
  | advance =>
    unfold applyMove
    dsimp only
    split_ifs
    · exact ScanContext.tag?_write_of_ne hstep _
    · exact hboth _ _

/-- Driving the outputs of the step at which the drum arrived leaves step and completion. -/
theorem finish_lands (hchecked : drum.Checked) (h : drum.Apart) (enabled : Bool) {move : DrumMove}
    (hin : drum.Inside move) (ctx : ScanContext) :
    drum.Lands enabled move ctx (drum.finish id enabled move ctx) := by
  have hpos := (types_of_checked hchecked).2.2.2
  have harrived : drum.isStep (drum.landing (drum.currentStep ctx) move) = true :=
    isStep_landing (isStep_currentStep hpos ctx) hin
  obtain ⟨armed, harmed⟩ : ∃ armed : ScanContext, armed.tag? = (drum.applyMove move ctx).tag? ∧
      drum.finish id enabled move ctx =
        if enabled then drum.driveOutputs (drum.currentStep armed) armed else armed := by
    refine ⟨if move = .stay then drum.applyMove move ctx
      else (drum.applyMove move ctx).setMemory (armedKey id) (.bool false), ?_, rfl⟩
    split_ifs <;> rfl
  obtain ⟨htags, hfinish⟩ := harmed
  have hstep := (congrFun htags drum.step.name).trans (applyMove_step h move ctx)
  have hcompletion :=
    (congrFun htags drum.completion.name).trans (applyMove_completion h move ctx)
  have hcurrent := currentStep_of_tag? hstep harrived
  rw [hfinish, hcurrent]
  cases enabled with
  | false =>
    refine ⟨hstep, hcompletion, nofun, fun _ t ht => ?_⟩
    obtain ⟨hne, hnc⟩ := h.outputs t ht
    exact (congrFun htags t.name).trans (applyMove_of_ne hne.symm hnc.symm move ctx)
  | true =>
    refine ⟨?_, ?_, fun _ hnames => driveOutputs_outputs hchecked hnames harrived armed, nofun⟩
    · exact (driveOutputs_tag?_of_ne (fun t ht => (h.outputs t ht).1) _ armed).trans hstep
    · exact (driveOutputs_tag?_of_ne (fun t ht => (h.outputs t ht).2) _ armed).trans hcompletion

/-- A reset is a jump to the first step that drives the outputs in any case. -/
theorem restart_lands (hchecked : drum.Checked) (h : drum.Apart) (ctx : ScanContext) :
    drum.Lands true (.jumpTo 1) ctx (drum.restart id ctx) where
  step := (driveOutputs_tag?_of_ne (fun t ht => (h.outputs t ht).1) 1 _).trans
    ((ScanContext.tag?_write_of_ne h.completion _).trans (ScanContext.tag?_write_self _ _ _))
  completion := (driveOutputs_tag?_of_ne (fun t ht => (h.outputs t ht).2) 1 _).trans
    (ScanContext.tag?_write_self _ _ _)
  outputs _ hnames := by
    have hpos := (types_of_checked hchecked).2.2.2
    refine driveOutputs_outputs hchecked hnames ?_ _
    rw [isStep_iff]
    omega
  untouched := nofun

/-- What was done to other tags before the move, or after it, does not count. -/
theorem Lands.of_agree {driven : Bool} {move : DrumMove} {start last : ScanContext}
    (h : drum.Lands driven move mid next)
    (hstart : ∀ t, t = drum.step ∨ t = drum.completion → mid.tag? t.name = start.tag? t.name)
    (hheld : driven = false → ∀ t ∈ drum.outputs, mid.tag? t.name = start.tag? t.name)
    (hlast : ∀ t, drum.Targets t → last.tag? t.name = next.tag? t.name) :
    drum.Lands driven move start last := by
  have hcurrent : drum.currentStep mid = drum.currentStep start :=
    currentStep_congr (hstart drum.step (.inl rfl))
  obtain ⟨hstep, hcompletion, houtputs, huntouched⟩ := h
  rw [hcurrent] at hstep hcompletion houtputs
  rw [hstart drum.completion (.inr rfl)] at hcompletion
  refine ⟨(hlast _ (.inr (.inl rfl))).trans hstep, (hlast _ (.inr (.inr rfl))).trans hcompletion,
    fun hdriven hnames => ?_, fun hdriven t ht => ?_⟩
  · rw [← houtputs hdriven hnames]
    exact List.map_congr_left fun t ht => hlast t (.inl ht)
  · exact (hlast t (.inl ht)).trans ((huntouched hdriven t ht).trans (hheld hdriven t ht))

theorem Lands.currentStep_eq (hpos : 0 < drum.steps) {driven : Bool} {move : DrumMove}
    (h : drum.Lands driven move ctx next) (hin : drum.Inside move) :
    drum.currentStep next = drum.landing (drum.currentStep ctx) move :=
  currentStep_of_tag? h.step (isStep_landing (isStep_currentStep hpos ctx) hin)

theorem Lands.readBool_completion {driven : Bool} {move : DrumMove}
    (h : drum.Lands driven move ctx next) :
    next.readBool drum.completion =
      (drum.flag? (drum.currentStep ctx) move).getD (ctx.readBool drum.completion) := by
  unfold ScanContext.readBool ScanContext.read ScanContext.getTag
  rw [h.completion]
  cases drum.flag? (drum.currentStep ctx) move <;> rfl

theorem applyMove_memoryBool (move : DrumMove) (ctx : ScanContext) (key : String) :
    (drum.applyMove move ctx).memoryBool key = ctx.memoryBool key := by
  cases move with
  | stay => rfl
  | jumpTo target => rfl
  | advance =>
    unfold applyMove
    dsimp only
    split_ifs <;> rfl

/-- A drum that has moved is no longer armed. -/
theorem finish_armed (enabled : Bool) (move : DrumMove) (ctx : ScanContext) :
    (drum.finish id enabled move ctx).memoryBool (armedKey id) =
      if move = .stay then ctx.memoryBool (armedKey id) else false := by
  have hmoved : (if move = .stay then drum.applyMove move ctx
      else (drum.applyMove move ctx).setMemory (armedKey id) (.bool false)).memoryBool
        (armedKey id) = if move = .stay then ctx.memoryBool (armedKey id) else false := by
    split_ifs
    · exact applyMove_memoryBool move ctx _
    · exact (ScanContext.memoryBool_setMemory _ _ false _).trans (if_pos rfl)
  cases enabled with
  | false => exact hmoved
  | true => exact (ScanContext.memoryBool_writeAll _ _ _).trans hmoved

theorem restart_armed (drum : DrumCore) (id : InstructionId) (ctx : ScanContext) :
    (drum.restart id ctx).memoryBool (armedKey id) = false :=
  (ScanContext.memoryBool_writeAll _ _ _).trans
    ((ScanContext.memoryBool_setMemory _ _ false _).trans (if_pos rfl))

end DrumCore

end LadderLogic
