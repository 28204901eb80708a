import LadderLogic.Proofs.Effect.Coil

/-!
What timers and counters do to a context. An accumulator stays in its domain because a timer only
counts up to where it saturates, and a counter stores under the copy law.
-/

set_option autoImplicit false

namespace LadderLogic

/-- A preset without a value changes nothing, or raises a fault. -/
theorem Expression.preset_cases (e : Expression) (ctx : ScanContext) :
    (∃ i, e.preset ctx = (some i, ctx)) ∨ e.preset ctx = (none, ctx) ∨
      ∃ f, e.preset ctx = (none, ctx.raise f) := by
  unfold preset
  cases e.evaluate ctx with
  | error fault => exact .inr (.inr ⟨fault.fault, rfl⟩)
  | ok v =>
    dsimp only
    cases v.toInt? with
    | none => exact .inr (.inl rfl)
    | some i => exact .inl ⟨i, rfl⟩

section Timer

variable {targets : Tag → Prop} {keeps : String → Prop} {sound words : Prop} {ctx mid : ScanContext}

/-- A preset without a value changes nothing but faults, and otherwise the context is as before. -/
theorem Expression.onPreset_becomes (e : Expression) {next : Int → ScanContext → ScanContext}
    (h : ctx.Becomes (Permit targets keeps sound words) mid)
    (hnext : ∀ i, ctx.Becomes (Permit targets keeps sound words) (next i mid)) :
    ctx.Becomes (Permit targets keeps sound words)
      (match e.preset mid with
        | (none, last) => last
        | (some i, last) => next i last) := by
  rcases e.preset_cases mid with ⟨i, hpreset⟩ | hpreset | ⟨f, hpreset⟩
  · rw [hpreset]
    exact hnext i
  · rw [hpreset]
    exact h
  · rw [hpreset]
    exact h.raise f

/-- A count does not go down, unless it stands above the value where it stops. -/
theorem Timer.accumulate_bounds {key : String}
    (hcarry : Binary.NonNeg (Binary.unpacked (mid.memoryReal key))) (current : Int)
    (unit : TimeUnit) :
    min current greatest ≤ (accumulate mid key current unit).1 ∧
      (accumulate mid key current unit).1 ≤ greatest := by
  have hwhole := Binary.toInteger_nonneg
    (Binary.nonNeg_wholeUnits (Binary.nonNeg_elapsed hcarry mid.dt unit))
  unfold accumulate
  dsimp only
  generalize Binary.toInteger _ = whole at hwhole
  have hsaturate : min current greatest ≤ Integer.saturate (current + whole) :=
    Integer.le_clamp (by omega) (by unfold greatest Integer.greatest; omega)
  omega

/-- A count that starts in the domain stays there. -/
theorem Timer.accumulate_holds {t : TagType} (ht : t ∈ [.int, .dint]) {key : String}
    {current : Int} (hcurrent : t.Holds (.int current))
    (hcarry : Binary.NonNeg (Binary.unpacked (mid.memoryReal key))) (unit : TimeUnit) :
    t.Holds (.int (accumulate mid key current unit).1) := by
  obtain ⟨hlow, hhigh⟩ := accumulate_bounds hcarry current unit
  generalize (accumulate mid key current unit).1 = count at hlow hhigh
  simp only [List.mem_cons, List.not_mem_nil, or_false] at ht
  rcases ht with rfl | rfl <;> simp only [TagType.Holds, greatest] at * <;> omega

/-- A count saturates in the words. -/
theorem Timer.accumulate_fits (key : String) (current : Int) (unit : TimeUnit) :
    Integer.Fits (accumulate mid key current unit).1 := by
  have hgreatest : Integer.least ≤ greatest ∧ greatest ≤ Integer.greatest := by decide
  have hlow : ∀ i, Integer.least ≤ Integer.saturate i :=
    fun i => (Integer.clamp_mem (by decide) i).1
  exact ⟨le_min (hlow _) hgreatest.1, (min_le_right _ _).trans hgreatest.2⟩

theorem Timer.accumulate_becomes (h : ctx.Becomes (Permit targets keeps sound words) mid) {key : String}
    (hkey : keeps key) (hcarry : sound → Binary.NonNeg (Binary.unpacked (mid.memoryReal key)))
    (current : Int) (unit : TimeUnit) :
    ctx.Becomes (Permit targets keeps sound words) (accumulate mid key current unit).2 := by
  refine h.setMemory hkey fun hs _ => ⟨?_, ?_⟩
  · exact Binary.carry_isFinite (Binary.nonNeg_elapsed (hcarry hs) mid.dt unit)
  · exact (Binary.zero_le_iff _).mpr (Binary.nonNeg_nonNegative _)

theorem isCarry_zero : (Value.real 0.0).IsCarry :=
  ⟨Binary.isFinite_zero, (Binary.zero_le_iff _).mpr Binary.nonNeg_zero⟩

/-- One count of a timer: the fraction into memory, the whole units into the accumulator. -/
theorem Timer.count_becomes (h : ctx.Becomes (Permit targets keeps sound words) mid) {key : String}
    (hkey : keeps key) (hcarry : IsCarryKey key) (hcover : sound → Covered targets mid)
    {accumulator : Tag} (hacc : MayCount targets sound accumulator) (unit : TimeUnit) :
    ctx.Becomes (Permit targets keeps sound words)
      ((accumulate mid key (mid.readInt accumulator) unit).2.write accumulator
        (.int (accumulate mid key (mid.readInt accumulator) unit).1)) := by
  have hreal : sound → Binary.NonNeg (Binary.unpacked (mid.memoryReal key)) :=
    fun hs => (hcover hs).nonNeg_memoryReal hcarry
  refine (accumulate_becomes h hkey hreal _ unit).write hacc.target (fun hs => ?_)
    fun _ => accumulate_fits key _ unit
  exact accumulate_holds (hacc.type hs) ((hcover hs).holds_readInt hacc hs) (hreal hs) unit

end Timer

/-- A tag to switch and a tag to count with, as timers and counters have them. -/
structure MayTally (targets : Tag → Prop) (sound : Prop) (done accumulator : Tag) : Prop where
  done : MayDrive targets sound done
  count : MayCount targets sound accumulator

theorem Operation.mayTally (op : Operation) {done accumulator : Tag} (hdone : op.Targets done)
    (hcount : op.Targets accumulator)
    (htypes : op.Checked → done.type = .bool ∧ accumulator.type ∈ [.int, .dint])
    (ctx : ScanContext) : MayTally op.Targets (op.Sound ctx) done accumulator where
  done := ⟨hdone, fun hs => (htypes hs.1.checked).1⟩
  count := ⟨hcount, fun hs => (htypes hs.1.checked).2⟩

namespace OnDelay

variable {timer : OnDelay} {ctx : ScanContext}

theorem mayTally (timer : OnDelay) (ctx : ScanContext) :
    MayTally (Operation.onDelay timer).Targets ((Operation.onDelay timer).Sound ctx) timer.done
      timer.accumulator := by
  refine (Operation.onDelay timer).mayTally (.inl rfl) (.inr rfl) (fun hchecked => ?_) ctx
  obtain ⟨_, hcheck, _⟩ := bind_eq_ok.mp hchecked
  exact Timer.types_of_check hcheck

theorem clear_becomes (id : InstructionId) :
    (Operation.onDelay timer).Effect id ctx (timer.clear ctx) := by
  have htally := timer.mayTally ctx
  exact ((ScanContext.Becomes.clearCount .refl htally.count).drive htally.done false).setMemory rfl
    fun _ _ => isCarry_zero

theorem advance_becomes (id : InstructionId) :
    (Operation.onDelay timer).Effect id ctx (timer.advance ctx) := by
  have htally := timer.mayTally ctx
  have hstart : (Operation.onDelay timer).Effect id ctx ctx := .refl
  have hcount := Timer.count_becomes hstart rfl (isCarryKey_fracKey timer.accumulator.name)
    (fun hs => hs.covered) htally.count timer.unit
  exact timer.preset.onPreset_becomes hstart fun preset => hcount.drive htally.done _

theorem effect (timer : OnDelay) (id : InstructionId) (enabled : Bool) (ctx : ScanContext) :
    (Operation.onDelay timer).Effect id ctx (timer.execute enabled ctx) := by
  unfold execute
  split_ifs
  · exact clear_becomes id
  · exact advance_becomes id
  · exact clear_becomes id
  · exact .refl

end OnDelay

namespace OffDelay

variable {timer : OffDelay} {ctx : ScanContext}

theorem mayTally (timer : OffDelay) (ctx : ScanContext) :
    MayTally (Operation.offDelay timer).Targets ((Operation.offDelay timer).Sound ctx) timer.done
      timer.accumulator := by
  refine (Operation.offDelay timer).mayTally (.inl rfl) (.inr rfl) (fun hchecked => ?_) ctx
  obtain ⟨_, hcheck, _⟩ := bind_eq_ok.mp hchecked
  exact Timer.types_of_check hcheck

theorem advance_becomes (id : InstructionId) :
    (Operation.offDelay timer).Effect id ctx (timer.advance ctx) := by
  have htally := timer.mayTally ctx
  have hstart : (Operation.offDelay timer).Effect id ctx ctx := .refl
  have hcount := Timer.count_becomes hstart rfl (isCarryKey_fracKey timer.accumulator.name)
    (fun hs => hs.covered) htally.count timer.unit
  apply timer.preset.onPreset_becomes hstart
  intro preset
  dsimp only
  split
  · exact hcount.drive htally.done false
  · exact hcount

theorem effect (timer : OffDelay) (id : InstructionId) (enabled : Bool) (ctx : ScanContext) :
    (Operation.offDelay timer).Effect id ctx (timer.execute enabled ctx) := by
  have htally := timer.mayTally ctx
  unfold execute
  split_ifs
  · exact ((ScanContext.Becomes.drive .refl htally.done true).clearCount htally.count).setMemory rfl
      fun _ _ => isCarry_zero
  · exact advance_becomes id
  · exact .refl

end OffDelay

namespace Counter

variable {targets : Tag → Prop} {keeps : String → Prop} {sound words : Prop} {ctx mid : ScanContext}
  {done accumulator : Tag}

theorem clear_becomes (h : ctx.Becomes (Permit targets keeps sound words) mid)
    (htally : MayTally targets sound done accumulator) :
    ctx.Becomes (Permit targets keeps sound words) (clear done accumulator mid) :=
  (h.clearCount htally.count).drive htally.done false

/-- The copy law takes every count into the domain of the accumulator. -/
theorem store_becomes (h : ctx.Becomes (Permit targets keeps sound words) mid)
    (hacc : MayCount targets sound accumulator) (count : Int) :
    ctx.Becomes (Permit targets keeps sound words) (store accumulator count mid) := by
  unfold store
  cases hv : accumulator.type.storeCopy _ with
  | none => exact h.clearCount hacc
  | some v => exact h.store hacc.target (TagType.storeCopy_holds hv)

theorem move_becomes (h : ctx.Becomes (Permit targets keeps sound words) mid)
    (hacc : MayCount targets sound accumulator) (delta : Int) :
    ctx.Becomes (Permit targets keeps sound words) (move accumulator delta mid).context :=
  h.onWord fun count => store_becomes h hacc count

theorem onPreset_becomes (preset : Expression)
    {next : Int → ScanContext → Outcome} (h : ctx.Becomes (Permit targets keeps sound words) mid)
    (hnext : ∀ i, ctx.Becomes (Permit targets keeps sound words) (next i mid).context) :
    ctx.Becomes (Permit targets keeps sound words) (onPreset preset mid next).context := by
  unfold onPreset
  rcases preset.preset_cases mid with ⟨i, hpreset⟩ | hpreset | ⟨f, hpreset⟩ <;> rw [hpreset]
  · exact hnext i
  · exact h
  · exact h.raise f

end Counter

theorem CountUp.mayTally (counter : CountUp) (ctx : ScanContext) :
    MayTally (Operation.countUp counter).Targets ((Operation.countUp counter).Sound ctx)
      counter.done counter.accumulator := by
  refine (Operation.countUp counter).mayTally (.inl rfl) (.inr rfl) (fun hchecked => ?_) ctx
  obtain ⟨_, hcheck, _⟩ := bind_eq_ok.mp hchecked
  exact Counter.types_of_check hcheck

theorem CountUp.effect (counter : CountUp) (id : InstructionId) (enabled : Bool)
    (ctx : ScanContext) :
    (Operation.countUp counter).Effect id ctx (counter.execute enabled ctx).context := by
  have hstart : (Operation.countUp counter).Effect id ctx ctx := .refl
  have htally := counter.mayTally ctx
  unfold execute
  split
  · exact Counter.clear_becomes hstart htally
  · refine ScanContext.Becomes.andThen (Counter.move_becomes hstart htally.count _) fun mid hmid => ?_
    exact Counter.onPreset_becomes counter.preset hmid fun _ => hmid.drive htally.done _

theorem CountDown.mayTally (counter : CountDown) (ctx : ScanContext) :
    MayTally (Operation.countDown counter).Targets ((Operation.countDown counter).Sound ctx)
      counter.done counter.accumulator := by
  refine (Operation.countDown counter).mayTally (.inl rfl) (.inr rfl) (fun hchecked => ?_) ctx
  obtain ⟨_, hcheck, _⟩ := bind_eq_ok.mp hchecked
  exact Counter.types_of_check hcheck

theorem CountDown.moved_becomes (counter : CountDown) (id : InstructionId) (enabled : Bool)
    (ctx : ScanContext) :
    (Operation.countDown counter).Effect id ctx (counter.moved enabled ctx).context := by
  unfold moved
  split
  · exact Counter.move_becomes .refl (counter.mayTally ctx).count _
  · exact .refl

theorem CountDown.effect (counter : CountDown) (id : InstructionId) (enabled : Bool)
    (ctx : ScanContext) :
    (Operation.countDown counter).Effect id ctx (counter.execute enabled ctx).context := by
  have hstart : (Operation.countDown counter).Effect id ctx ctx := .refl
  have htally := counter.mayTally ctx
  unfold execute
  split
  · exact Counter.clear_becomes hstart htally
  · refine ScanContext.Becomes.andThen (counter.moved_becomes id enabled ctx) fun mid hmid => ?_
    refine Counter.onPreset_becomes counter.preset hmid fun preset => ?_
    exact hmid.onWord fun _ => hmid.drive htally.done _

end LadderLogic
