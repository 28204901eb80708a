import LadderLogic.Proofs.Effect.Timer

/-!
What drums do to a context. The step never leaves the pattern: it is read back as a step, it advances
below the last one, and a jump to anything else is refused.
-/

set_option autoImplicit false

namespace LadderLogic

namespace DrumCore

/-- What a permit has to allow a drum. -/
structure Allowed (drum : DrumCore) (id : InstructionId) (targets : Tag → Prop)
    (keeps : String → Prop) (sound words : Prop) : Prop where
  outputs : ∀ t ∈ drum.outputs, MayDrive targets sound t
  step : MayCount targets sound drum.step
  completion : MayDrive targets sound drum.completion
  keeps : ∀ key, Keeps id key → keeps key
  steps : sound → 0 < drum.steps ∧ drum.step.type.Holds (.int drum.steps)
  word : words → Integer.Fits drum.steps

variable {drum : DrumCore} {id : InstructionId} {targets : Tag → Prop} {keeps : String → Prop}
  {sound words : Prop} {ctx mid : ScanContext}

theorem isStep_iff (i : Int) : drum.isStep i = true ↔ 1 ≤ i ∧ i ≤ drum.steps := by
  simp [isStep]

theorem holds_step (ha : drum.Allowed id targets keeps sound words) (hs : sound) {i : Int}
    (hi : drum.isStep i = true) : drum.step.type.Holds (.int i) := by
  obtain ⟨-, hsteps⟩ := ha.steps hs
  have htype := ha.step.type hs
  rw [isStep_iff] at hi
  simp only [List.mem_cons, List.not_mem_nil, or_false] at htype
  rcases htype with htype | htype <;> rw [htype] at hsteps ⊢ <;>
    simp only [TagType.Holds] at * <;> omega

/-- A step is a word if the steps can be counted in words. -/
theorem fits_of_isStep (h : Integer.Fits drum.steps) {i : Int} (hi : drum.isStep i = true) :
    Integer.Fits i := by
  rw [isStep_iff] at hi
  unfold Integer.Fits Integer.least Integer.greatest at *
  omega

/-- A step of the pattern, or the first one if the pattern has none. -/
def CanStand (drum : DrumCore) (i : Int) : Prop := drum.isStep i = true ∨ i = 1

theorem canStand_currentStep (drum : DrumCore) (mid : ScanContext) :
    drum.CanStand (drum.currentStep mid) := by
  unfold currentStep
  dsimp only
  split
  case isTrue h => exact .inl h
  case isFalse => exact .inr rfl

theorem CanStand.one_le {i : Int} (hi : drum.CanStand i) : 1 ≤ i := by
  rcases hi with hi | rfl
  · exact ((isStep_iff i).mp hi).1
  · exact le_rfl

theorem CanStand.isStep (h : 0 < drum.steps) {i : Int} (hi : drum.CanStand i) :
    drum.isStep i = true := by
  rcases hi with hi | rfl
  · exact hi
  · rw [isStep_iff]
    omega

theorem isStep_currentStep (h : 0 < drum.steps) (mid : ScanContext) :
    drum.isStep (drum.currentStep mid) = true :=
  (drum.canStand_currentStep mid).isStep h

theorem CanStand.fits (h : Integer.Fits drum.steps) {i : Int} (hi : drum.CanStand i) :
    Integer.Fits i := by
  rcases hi with hi | rfl
  · exact fits_of_isStep h hi
  · decide

theorem writeStep_becomes (ha : drum.Allowed id targets keeps sound words)
    (h : ctx.Becomes (Permit targets keeps sound words) mid) {i : Int} (hi : drum.CanStand i) :
    ctx.Becomes (Permit targets keeps sound words) (mid.write drum.step (.int i)) :=
  h.write ha.step.target (fun hs => holds_step ha hs (hi.isStep (ha.steps hs).1))
    fun hwords => hi.fits (ha.word hwords)

theorem driveOutputs_becomes (ha : drum.Allowed id targets keeps sound words)
    (h : ctx.Becomes (Permit targets keeps sound words) mid) (step : Int) :
    ctx.Becomes (Permit targets keeps sound words) (drum.driveOutputs step mid) :=
  h.driveAll ha.outputs _

/-- A drum keeps truth values only. -/
theorem setLevel_becomes (ha : drum.Allowed id targets keeps sound words)
    (h : ctx.Becomes (Permit targets keeps sound words) mid) {key : String} (hkey : Keeps id key)
    (b : Bool) : ctx.Becomes (Permit targets keeps sound words) (mid.setMemory key (.bool b)) := by
  apply h.setMemory (ha.keeps key hkey)
  intro _ hcarry
  rcases hkey with rfl | rfl | rfl
  · exact absurd hcarry (not_isCarryKey_memoryKey (by decide) id)
  · exact absurd hcarry (not_isCarryKey_memoryKey (by decide) id)
  · exact absurd hcarry (not_isCarryKey_memoryKey (by decide) id)

theorem edge_becomes (ha : drum.Allowed id targets keeps sound words)
    (h : ctx.Becomes (Permit targets keeps sound words) mid) (condition : Option Condition)
    {key : String} (hkey : Keeps id key) :
    ctx.Becomes (Permit targets keeps sound words) (edge condition key mid).2 := by
  cases condition with
  | none => exact h
  | some c => exact setLevel_becomes ha h hkey _

theorem restart_becomes (ha : drum.Allowed id targets keeps sound words)
    (h : ctx.Becomes (Permit targets keeps sound words) mid) :
    ctx.Becomes (Permit targets keeps sound words) (drum.restart id mid) := by
  have hstep := writeStep_becomes ha h (.inr rfl)
  exact driveOutputs_becomes ha
    (setLevel_becomes ha (hstep.drive ha.completion false) (.inl rfl) false) 1

/-- A jump that is accepted leads to a step. -/
theorem jumpTarget_becomes (drum : DrumCore)
    (h : ctx.Becomes (Permit targets keeps sound words) mid)
    (target : Expression) :
    ctx.Becomes (Permit targets keeps sound words) (drum.jumpTarget target mid).2 ∧
      ∀ i, (drum.jumpTarget target mid).1 = some i → drum.isStep i = true := by
  unfold jumpTarget Expression.preset
  cases target.evaluate mid with
  | error fault => exact ⟨(h.raise _).raise _, fun i hi => by cases hi⟩
  | ok v =>
    dsimp only
    cases v.toInt? with
    | none => exact ⟨h.raise _, fun i hi => by cases hi⟩
    | some i =>
      dsimp only
      split
      case isTrue hstep => exact ⟨h, fun j hj => by cases hj; exact hstep⟩
      case isFalse => exact ⟨h.raise _, fun j hj => by cases hj⟩

/-- A move that is a jump leads to a step. -/
def Inside (drum : DrumCore) (move : DrumMove) : Prop :=
  ∀ i, move = .jumpTo i → drum.isStep i = true

theorem inside_stay : drum.Inside .stay := fun i h => by cases h

theorem inside_advance : drum.Inside .advance := fun i h => by cases h

theorem requested_becomes (drum : DrumCore)
    (h : ctx.Becomes (Permit targets keeps sound words) mid)
    (jumpEdge jogEdge : Bool) :
    ctx.Becomes (Permit targets keeps sound words) (drum.requested jumpEdge jogEdge mid).2 ∧
      drum.Inside (drum.requested jumpEdge jogEdge mid).1 := by
  have hrest : drum.Inside (if jogEdge then .advance else .stay) := by
    cases jogEdge
    · exact inside_stay
    · exact inside_advance
  cases jumpEdge with
  | false => exact ⟨h, hrest⟩
  | true =>
    unfold requested
    cases drum.jump with
    | none => exact ⟨h, hrest⟩
    | some jump =>
      obtain ⟨condition, target⟩ := jump
      obtain ⟨hjump, hin⟩ := jumpTarget_becomes drum h target
      dsimp only
      generalize drum.jumpTarget target mid = result at hjump hin
      obtain ⟨accepted, last⟩ := result
      cases accepted with
      | none => exact ⟨hjump, hrest⟩
      | some i => exact ⟨hjump, fun j hj => by cases hj; exact hin i rfl⟩

theorem begin_becomes (ha : drum.Allowed id targets keeps sound words)
    (h : ctx.Becomes (Permit targets keeps sound words) mid) (enabled : Bool) :
    ctx.Becomes (Permit targets keeps sound words) (drum.begin id enabled mid).2 ∧
      ∀ move, (drum.begin id enabled mid).1 = some move → drum.Inside move := by
  unfold begin
  have hjump := edge_becomes ha h (drum.jump.map Prod.fst) (.inr (.inl rfl))
  generalize edge (drum.jump.map Prod.fst) (jumpKey id) mid = jump at hjump
  obtain ⟨jumpEdge, afterJump⟩ := jump
  have hjog := edge_becomes ha hjump drum.jog (.inr (.inr rfl))
  dsimp only
  generalize edge drum.jog (jogKey id) afterJump = jog at hjog
  obtain ⟨jogEdge, afterJog⟩ := jog
  dsimp only
  split_ifs
  · exact ⟨restart_becomes ha hjog, fun move hmove => by cases hmove⟩
  · obtain ⟨hrequested, hin⟩ := requested_becomes drum hjog jumpEdge jogEdge
    exact ⟨hrequested, fun move hmove => by cases hmove; exact hin⟩
  · exact ⟨hjog, fun move hmove => by cases hmove; exact inside_stay⟩

theorem applyMove_becomes (ha : drum.Allowed id targets keeps sound words)
    (h : ctx.Becomes (Permit targets keeps sound words) mid) {move : DrumMove} (hin : drum.Inside move) :
    ctx.Becomes (Permit targets keeps sound words) (drum.applyMove move mid) := by
  have hcurrent := drum.canStand_currentStep mid
  cases move with
  | stay => exact writeStep_becomes ha h hcurrent
  | jumpTo i => exact (writeStep_becomes ha h (.inl (hin i rfl))).drive ha.completion false
  | advance =>
    unfold applyMove
    dsimp only
    split
    case isTrue hlt =>
      refine writeStep_becomes ha h (.inl ?_)
      have hstep := hcurrent.one_le
      rw [isStep_iff]
      omega
    case isFalse => exact (writeStep_becomes ha h hcurrent).drive ha.completion true

theorem finish_becomes (ha : drum.Allowed id targets keeps sound words)
    (h : ctx.Becomes (Permit targets keeps sound words) mid) (enabled : Bool) {move : DrumMove}
    (hin : drum.Inside move) :
    ctx.Becomes (Permit targets keeps sound words) (drum.finish id enabled move mid) := by
  have hmove := applyMove_becomes ha h hin
  have harmed : ctx.Becomes (Permit targets keeps sound words)
      (if move = .stay then drum.applyMove move mid
        else (drum.applyMove move mid).setMemory (armedKey id) (.bool false)) := by
    split
    · exact hmove
    · exact setLevel_becomes ha hmove (.inl rfl) false
  unfold finish
  dsimp only
  split
  · exact driveOutputs_becomes ha harmed _
  · exact harmed

end DrumCore

namespace EventDrum

variable {drum : EventDrum} {id : InstructionId} {ctx mid : ScanContext}

theorem allowed (drum : EventDrum) (id : InstructionId) (ctx : ScanContext) :
    drum.core.Allowed id (Operation.eventDrum drum).Targets ((Operation.eventDrum drum).Keeps id)
      ((Operation.eventDrum drum).Sound ctx) (Operation.eventDrum drum).InWords where
  outputs t ht := ⟨.inl ht, fun hs => (DrumCore.types_of_checked hs.1.checked.1).1 t ht⟩
  step := ⟨.inr (.inl rfl), fun hs => (DrumCore.types_of_checked hs.1.checked.1).2.1⟩
  completion := ⟨.inr (.inr rfl), fun hs => (DrumCore.types_of_checked hs.1.checked.1).2.2.1⟩
  keeps _ hkey := hkey
  steps hs := ⟨(DrumCore.types_of_checked hs.1.checked.1).2.2.2, hs.1.reports⟩
  word hwords := hwords.reports _ rfl

theorem watch_becomes (h : (Operation.eventDrum drum).Effect id ctx mid) :
    (Operation.eventDrum drum).Effect id ctx (drum.watch id mid).2 ∧
      drum.core.Inside (drum.watch id mid).1 := by
  unfold watch
  split
  · refine ⟨h, ?_⟩
    dsimp only
    split
    · exact DrumCore.inside_advance
    · exact DrumCore.inside_stay
  · exact ⟨DrumCore.setLevel_becomes (allowed drum id ctx) h (.inl rfl) true,
      DrumCore.inside_stay⟩

theorem effect (drum : EventDrum) (id : InstructionId) (enabled : Bool) (ctx : ScanContext) :
    (Operation.eventDrum drum).Effect id ctx (drum.execute id enabled ctx) := by
  obtain ⟨hbegin, hin⟩ := DrumCore.begin_becomes (allowed drum id ctx) .refl enabled
  unfold execute
  generalize drum.core.begin id enabled ctx = start at hbegin hin
  obtain ⟨move, mid⟩ := start
  cases move with
  | none => exact hbegin
  | some move =>
    dsimp only
    split
    · obtain ⟨hwatch, hmove⟩ := watch_becomes hbegin
      exact DrumCore.finish_becomes (allowed drum id ctx) hwatch enabled hmove
    · exact DrumCore.finish_becomes (allowed drum id ctx) hbegin enabled (hin move rfl)

end EventDrum

namespace TimeDrum

variable {drum : TimeDrum} {id : InstructionId} {ctx mid : ScanContext}

theorem allowed (drum : TimeDrum) (id : InstructionId) (ctx : ScanContext) :
    drum.core.Allowed id (Operation.timeDrum drum).Targets ((Operation.timeDrum drum).Keeps id)
      ((Operation.timeDrum drum).Sound ctx) (Operation.timeDrum drum).InWords where
  outputs t ht := ⟨.inl (.inl ht), fun hs => (DrumCore.types_of_checked hs.1.checked.1).1 t ht⟩
  step := ⟨.inl (.inr (.inl rfl)), fun hs => (DrumCore.types_of_checked hs.1.checked.1).2.1⟩
  completion :=
    ⟨.inl (.inr (.inr rfl)), fun hs => (DrumCore.types_of_checked hs.1.checked.1).2.2.1⟩
  keeps _ hkey := .inl hkey
  steps hs := ⟨(DrumCore.types_of_checked hs.1.checked.1).2.2.2, hs.1.reports⟩
  word hwords := hwords.reports _ rfl

theorem mayCount : MayCount (Operation.timeDrum drum).Targets
    ((Operation.timeDrum drum).Sound ctx) drum.accumulator :=
  ⟨.inr rfl, fun hs => type_of_make hs.1.checked.2⟩

theorem clearTimer_becomes (h : (Operation.timeDrum drum).Effect id ctx mid) :
    (Operation.timeDrum drum).Effect id ctx (drum.clearTimer id mid) :=
  (h.clearCount mayCount).setMemory (.inr rfl) fun _ _ => isCarry_zero

theorem watch_becomes (h : (Operation.timeDrum drum).Effect id ctx mid) :
    (Operation.timeDrum drum).Effect id ctx (drum.watch id mid).2 ∧
      drum.core.Inside (drum.watch id mid).1 := by
  have hcount := Timer.count_becomes h (.inr rfl) (isCarryKey_drumFracKey id)
    (fun hs => hs.covered.of_becomes hs h) mayCount drum.unit
  unfold watch preset Expression.preset
  cases drum.presets[(drum.core.currentStep mid - 1).toNat]? with
  | none => exact ⟨h, DrumCore.inside_stay⟩
  | some p =>
    dsimp only
    cases p.evaluate mid with
    | error fault => exact ⟨h.raise _, DrumCore.inside_stay⟩
    | ok v =>
      dsimp only
      cases v.toInt? with
      | none => exact ⟨h, DrumCore.inside_stay⟩
      | some i =>
        refine ⟨hcount, ?_⟩
        dsimp only
        split
        · exact DrumCore.inside_advance
        · exact DrumCore.inside_stay

theorem finish_becomes (h : (Operation.timeDrum drum).Effect id ctx mid) (enabled : Bool)
    {move : DrumMove} (hin : drum.core.Inside move) :
    (Operation.timeDrum drum).Effect id ctx
      (if move = .stay then drum.core.finish id enabled move mid
        else drum.clearTimer id (drum.core.finish id enabled move mid)) := by
  have hfinish := DrumCore.finish_becomes (allowed drum id ctx) h enabled hin
  split
  · exact hfinish
  · exact clearTimer_becomes hfinish

theorem effect (drum : TimeDrum) (id : InstructionId) (enabled : Bool) (ctx : ScanContext) :
    (Operation.timeDrum drum).Effect id ctx (drum.execute id enabled ctx) := by
  obtain ⟨hbegin, hin⟩ := DrumCore.begin_becomes (allowed drum id ctx) .refl enabled
  unfold execute
  generalize drum.core.begin id enabled ctx = start at hbegin hin
  obtain ⟨move, mid⟩ := start
  cases move with
  | none => exact clearTimer_becomes hbegin
  | some move =>
    dsimp only
    split
    · obtain ⟨hwatch, hmove⟩ := watch_becomes hbegin
      exact finish_becomes hwatch enabled hmove
    · exact finish_becomes hbegin enabled (hin move rfl)

end TimeDrum

end LadderLogic
