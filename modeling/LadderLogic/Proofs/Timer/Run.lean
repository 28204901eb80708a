import LadderLogic.Proofs.Effect.Timer
import LadderLogic.Proofs.Scan.Lookup

/-!
Timers over a run of executions. Whatever time steps and presets the executions find, the count
stays in its range and goes down only to zero, and the flag follows the count.
-/

set_option autoImplicit false

namespace LadderLogic

namespace Timer

/-- The count is in its range, and what is carried is a number and not negative. -/
structure InRange (accumulator : Tag) (ctx : ScanContext) : Prop where
  low : 0 ≤ ctx.readInt accumulator
  high : ctx.readInt accumulator ≤ greatest
  finite : Binary.isFinite (ctx.memoryReal (fracKey accumulator.name)) = true
  nonNegative : 0.0 ≤ ctx.memoryReal (fracKey accumulator.name)

/-- The count is in its range, and has not gone down but to zero. -/
structure Counts (accumulator : Tag) (ctx next : ScanContext) : Prop
    extends InRange accumulator next where
  rises : ctx.readInt accumulator ≤ next.readInt accumulator ∨ next.readInt accumulator = 0

/-- Count and carry are zero, and the flag is set so. -/
structure Zeroed (done accumulator : Tag) (level : Bool) (ctx : ScanContext) : Prop where
  count : ctx.tag? accumulator.name = some (.int 0)
  done : ctx.tag? done.name = some (.bool level)
  carry : ctx.memory? (fracKey accumulator.name) = some (.real 0.0)

/-- From one context to the next nothing has changed what the timer writes. -/
structure LeftAlone (done accumulator : Tag) (ctx next : ScanContext) : Prop where
  done : next.tag? done.name = ctx.tag? done.name
  count : next.tag? accumulator.name = ctx.tag? accumulator.name
  carry : next.memory? (fracKey accumulator.name) = ctx.memory? (fracKey accumulator.name)

variable {done accumulator : Tag} {ctx mid next : ScanContext}

theorem InRange.congr (h : InRange accumulator ctx)
    (hcount : next.tag? accumulator.name = ctx.tag? accumulator.name)
    (hcarry : next.memory? (fracKey accumulator.name) = ctx.memory? (fracKey accumulator.name)) :
    InRange accumulator next where
  low := (ScanContext.readInt_congr hcount).symm ▸ h.low
  high := (ScanContext.readInt_congr hcount).symm ▸ h.high
  finite := (ScanContext.memoryReal_congr hcarry).symm ▸ h.finite
  nonNegative := (ScanContext.memoryReal_congr hcarry).symm ▸ h.nonNegative

theorem InRange.counts (h : InRange accumulator ctx) : Counts accumulator ctx ctx where
  toInRange := h
  rises := .inl (le_refl _)

theorem Counts.congr (h : Counts accumulator ctx mid)
    (hcount : next.tag? accumulator.name = mid.tag? accumulator.name)
    (hcarry : next.memory? (fracKey accumulator.name) = mid.memory? (fracKey accumulator.name)) :
    Counts accumulator ctx next where
  toInRange := h.toInRange.congr hcount hcarry
  rises := (ScanContext.readInt_congr hcount).symm ▸ h.rises

theorem Counts.write (h : Counts accumulator ctx mid) {t : Tag}
    (ht : t.name ≠ accumulator.name) (v : Value) : Counts accumulator ctx (mid.write t v) :=
  h.congr (ScanContext.tag?_write_of_ne ht v) rfl

theorem Counts.raise (h : Counts accumulator ctx mid)
    (hfault : ∀ f : Fault, f.tagName ≠ accumulator.name) (f : Fault) :
    Counts accumulator ctx (mid.raise f) :=
  h.congr (ScanContext.tag?_raise_of_ne (hfault f) mid) rfl

theorem Zeroed.counts {level : Bool} (h : Zeroed done accumulator level next) :
    Counts accumulator ctx next := by
  have hcount : next.readInt accumulator = 0 := ScanContext.readInt_of_tag? h.count
  have hcarry : next.memoryReal (fracKey accumulator.name) = 0.0 := by
    unfold ScanContext.memoryReal
    rw [h.carry]
    rfl
  refine ⟨⟨?_, ?_, ?_, ?_⟩, .inr hcount⟩
  · rw [hcount]
  · rw [hcount]
    decide
  · rw [hcarry]
    exact Binary.isFinite_zero
  · rw [hcarry]
    exact isCarry_zero.2

/-- One count goes up, whatever the time step is, and stops where it saturates. -/
theorem counts_accumulate (h : InRange accumulator ctx) (unit : TimeUnit) :
    Counts accumulator ctx
      ((accumulate ctx (fracKey accumulator.name) (ctx.readInt accumulator) unit).2.write
        accumulator
        (.int (accumulate ctx (fracKey accumulator.name) (ctx.readInt accumulator) unit).1)) := by
  let key := fracKey accumulator.name
  let counted := accumulate ctx key (ctx.readInt accumulator) unit
  let next := counted.2.write accumulator (.int counted.1)
  have hcarry : Binary.NonNeg (Binary.unpacked (ctx.memoryReal key)) :=
    (Binary.zero_le_iff _).mp h.nonNegative
  have hbounds : min (ctx.readInt accumulator) greatest ≤ counted.1 ∧ counted.1 ≤ greatest :=
    accumulate_bounds hcarry (ctx.readInt accumulator) unit
  have hlow := h.low
  have hhigh := h.high
  have hcount : next.readInt accumulator = counted.1 :=
    ScanContext.readInt_of_tag? (ScanContext.tag?_write_self _ _ _)
  let total := elapsed (ctx.memoryReal key) ctx.dt unit
  have hkept : next.memoryReal key = Timer.nonNegative (total - wholeUnits total) := by
    show (((ctx.setMemory key _).memory? key).bind Value.toReal?).getD 0.0 = _
    rw [ScanContext.memory?_setMemory, if_pos rfl]
    rfl
  refine ⟨⟨?_, ?_, ?_, ?_⟩, .inl ?_⟩
  · show 0 ≤ next.readInt accumulator
    omega
  · show next.readInt accumulator ≤ greatest
    omega
  · show Binary.isFinite (next.memoryReal key) = true
    rw [hkept]
    exact Binary.carry_isFinite (Binary.nonNeg_elapsed hcarry ctx.dt unit)
  · show 0.0 ≤ next.memoryReal key
    rw [hkept]
    exact (Binary.zero_le_iff _).mpr (Binary.nonNeg_nonNegative _)
  · show ctx.readInt accumulator ≤ next.readInt accumulator
    omega

end Timer

namespace OnDelay

variable {timer : OnDelay} {ctx : ScanContext}

/-- What one execution does, from one context to the next. A reset goes before all else, and without
a reset condition a disabled timer is cleared. -/
structure Obeys (timer : OnDelay) (enabled : Bool) (ctx next : ScanContext) : Prop where
  counts : Timer.Counts timer.accumulator ctx next
  reset : Condition.optionHolds ctx timer.reset = true →
    Timer.Zeroed timer.done timer.accumulator false next
  disabled : enabled = false → timer.reset = none →
    Timer.Zeroed timer.done timer.accumulator false next
  held : enabled = false → timer.reset.isSome = true →
    Condition.optionHolds ctx timer.reset = false → next = ctx
  done : enabled = true → Condition.optionHolds ctx timer.reset = false →
    ∀ preset, (timer.preset.preset ctx).1 = some preset →
      (next.readBool timer.done = true ↔ preset ≤ next.readInt timer.accumulator)

theorem zeroed_clear (hnames : timer.done.name ≠ timer.accumulator.name) (ctx : ScanContext) :
    Timer.Zeroed timer.done timer.accumulator false (timer.clear ctx) where
  count := (ScanContext.tag?_write_of_ne hnames _).trans (ScanContext.tag?_write_self _ _ _)
  done := ScanContext.tag?_write_self _ _ _
  carry := (ScanContext.memory?_setMemory _ _ _ _).trans (if_pos rfl)

/-- Without a preset nothing is counted. -/
theorem advance_spec (hnames : timer.done.name ≠ timer.accumulator.name)
    (hfault : ∀ f : Fault, f.tagName ≠ timer.accumulator.name)
    (h : Timer.InRange timer.accumulator ctx) :
    Timer.Counts timer.accumulator ctx (timer.advance ctx) ∧
      ∀ preset, (timer.preset.preset ctx).1 = some preset →
        ((timer.advance ctx).readBool timer.done = true ↔
          preset ≤ (timer.advance ctx).readInt timer.accumulator) := by
  unfold advance
  rcases timer.preset.preset_cases ctx with ⟨preset, hpreset⟩ | hpreset | ⟨f, hpreset⟩
  · rw [hpreset]
    dsimp only
    refine ⟨(Timer.counts_accumulate h timer.unit).write hnames _, ?_⟩
    rintro _ ⟨⟩
    rw [ScanContext.readBool_of_tag? (ScanContext.tag?_write_self _ _ _), decide_eq_true_eq,
      ScanContext.readInt_of_tag?
        ((ScanContext.tag?_write_of_ne hnames _).trans (ScanContext.tag?_write_self _ _ _))]
  · rw [hpreset]
    exact ⟨h.counts, nofun⟩
  · rw [hpreset]
    exact ⟨h.counts.raise hfault f, nofun⟩

theorem execute_obeys (hnames : timer.done.name ≠ timer.accumulator.name)
    (hfault : ∀ f : Fault, f.tagName ≠ timer.accumulator.name)
    (h : Timer.InRange timer.accumulator ctx) (enabled : Bool) :
    timer.Obeys enabled ctx (timer.execute enabled ctx) := by
  have hclear := timer.zeroed_clear hnames ctx
  obtain ⟨hcounts, hdone⟩ := timer.advance_spec hnames hfault h
  unfold execute
  split_ifs with hreset henabled hplain
  · exact ⟨hclear.counts, fun _ => hclear, fun _ _ => hclear, by simp [hreset], by simp [hreset]⟩
  · exact ⟨hcounts, by simp [hreset], by simp [henabled], by simp [henabled], fun _ _ => hdone⟩
  · rw [Option.isNone_iff_eq_none] at hplain
    exact ⟨hclear.counts, fun _ => hclear, fun _ _ => hclear, by simp [hplain], by simp [henabled]⟩
  · exact ⟨h.counts, by simp [hreset], fun _ hnone => absurd (by simp [hnone]) hplain,
      fun _ _ _ => rfl, by simp [henabled]⟩

end OnDelay

namespace OffDelay

variable {timer : OffDelay} {ctx : ScanContext}

/-- What one execution does, from one context to the next. Nothing but an enabled execution sets the
flag, and nothing but a disabled one that counts to the preset clears it. -/
structure Obeys (timer : OffDelay) (enabled : Bool) (ctx next : ScanContext) : Prop where
  counts : Timer.Counts timer.accumulator ctx next
  restart : enabled = true → Timer.Zeroed timer.done timer.accumulator true next
  rises : ctx.readBool timer.done = false → (next.readBool timer.done = true ↔ enabled = true)
  falls : ctx.readBool timer.done = true → (next.readBool timer.done = false ↔
    enabled = false ∧ ∃ preset, (timer.preset.preset ctx).1 = some preset ∧
      preset ≤ next.readInt timer.accumulator)

/-- Where the flag is on it goes off with the count that reaches the preset. -/
theorem advance_spec (hnames : timer.done.name ≠ timer.accumulator.name)
    (hfault : ∀ f : Fault, f.tagName ≠ timer.accumulator.name)
    (h : Timer.InRange timer.accumulator ctx) (hon : ctx.readBool timer.done = true) :
    Timer.Counts timer.accumulator ctx (timer.advance ctx) ∧
      ((timer.advance ctx).readBool timer.done = false ↔
        ∃ preset, (timer.preset.preset ctx).1 = some preset ∧
          preset ≤ (timer.advance ctx).readInt timer.accumulator) := by
  unfold advance
  rcases timer.preset.preset_cases ctx with ⟨preset, hpreset⟩ | hpreset | ⟨f, hpreset⟩
  · rw [hpreset]
    dsimp only
    have hcounts := Timer.counts_accumulate h timer.unit
    have hflag : (Timer.accumulate ctx (fracKey timer.accumulator.name)
        (ctx.readInt timer.accumulator) timer.unit).2.readBool timer.done = true := hon
    generalize Timer.accumulate ctx _ _ _ = counted at hcounts hflag ⊢
    obtain ⟨count, mid⟩ := counted
    dsimp only at hcounts hflag ⊢
    have hcount : (mid.write timer.accumulator (.int count)).tag? timer.accumulator.name =
        some (.int count) := ScanContext.tag?_write_self _ _ _
    have hstill : (mid.write timer.accumulator (.int count)).readBool timer.done = true :=
      (ScanContext.readBool_congr (ScanContext.tag?_write_of_ne hnames.symm _)).trans hflag
    split_ifs with hreached
    · refine ⟨hcounts.write hnames _, ?_⟩
      rw [ScanContext.readBool_of_tag? (ScanContext.tag?_write_self _ _ _),
        ScanContext.readInt_of_tag? ((ScanContext.tag?_write_of_ne hnames _).trans hcount)]
      exact iff_of_true rfl ⟨preset, rfl, hreached⟩
    · refine ⟨hcounts, ?_⟩
      rw [hstill, ScanContext.readInt_of_tag? hcount]
      refine iff_of_false nofun ?_
      rintro ⟨_, ⟨⟩, hle⟩
      exact hreached hle
  · rw [hpreset]
    exact ⟨h.counts, by simp [hon]⟩
  · rw [hpreset]
    exact ⟨h.counts.raise hfault f, by simp [ctx.readBool_raise f hon]⟩

theorem execute_obeys (hnames : timer.done.name ≠ timer.accumulator.name)
    (hfault : ∀ f : Fault, f.tagName ≠ timer.accumulator.name)
    (h : Timer.InRange timer.accumulator ctx) (enabled : Bool) :
    timer.Obeys enabled ctx (timer.execute enabled ctx) := by
  unfold execute
  split_ifs with henabled hon
  · have hzeroed : Timer.Zeroed timer.done timer.accumulator true
        (((ctx.write timer.done (.bool true)).write timer.accumulator (.int 0)).setMemory
          (fracKey timer.accumulator.name) (.real 0.0)) :=
      ⟨ScanContext.tag?_write_self _ _ _,
        (ScanContext.tag?_write_of_ne hnames.symm _).trans (ScanContext.tag?_write_self _ _ _),
        (ScanContext.memory?_setMemory _ _ _ _).trans (if_pos rfl)⟩
    have hflag := ScanContext.readBool_of_tag? hzeroed.done
    exact ⟨hzeroed.counts, fun _ => hzeroed, by simp [hflag, henabled], by simp [hflag, henabled]⟩
  · obtain ⟨hcounts, hfalls⟩ := advance_spec hnames hfault h hon
    exact ⟨hcounts, by simp [henabled], by simp [hon], fun _ => by simpa [henabled] using hfalls⟩
  · exact ⟨h.counts, by simp [henabled], by simp [henabled], fun hset => absurd hset hon⟩

end OffDelay

/-- A timer of one of the kinds, which all write a flag, a count and what is carried over. -/
inductive DelayTimer where
  | on (timer : OnDelay)
  | off (timer : OffDelay)

namespace DelayTimer

def done : DelayTimer → Tag
  | on timer => timer.done
  | off timer => timer.done

def accumulator : DelayTimer → Tag
  | on timer => timer.accumulator
  | off timer => timer.accumulator

def execute : DelayTimer → Bool → ScanContext → ScanContext
  | on timer => timer.execute
  | off timer => timer.execute

def Obeys : DelayTimer → Bool → ScanContext → ScanContext → Prop
  | on timer => timer.Obeys
  | off timer => timer.Obeys

/-- The contexts in which a timer is executed one time after the other. It starts with a count in
range and the flag off, and in between only the timer changes what it writes; the time steps, the
presets and all else may change as they like. -/
inductive Run (timer : DelayTimer) : ScanContext → Prop
  | start {ctx : ScanContext} : Timer.InRange timer.accumulator ctx →
    ctx.readBool timer.done = false → Run timer ctx
  | next {ctx next : ScanContext} (enabled : Bool) : Run timer ctx →
    Timer.LeftAlone timer.done timer.accumulator (timer.execute enabled ctx) next → Run timer next

variable {timer : DelayTimer} {ctx : ScanContext}

theorem counts_execute (hnames : timer.done.name ≠ timer.accumulator.name)
    (hfault : ∀ f : Fault, f.tagName ≠ timer.accumulator.name)
    (h : Timer.InRange timer.accumulator ctx) (enabled : Bool) :
    Timer.Counts timer.accumulator ctx (timer.execute enabled ctx) := by
  cases timer with
  | on timer => exact (timer.execute_obeys hnames hfault h enabled).counts
  | off timer => exact (timer.execute_obeys hnames hfault h enabled).counts

/-- The count is in its range before each execution, and each execution does what its kind of timer
is for. -/
theorem Run.obeys (hnames : timer.done.name ≠ timer.accumulator.name)
    (hfault : ∀ f : Fault, f.tagName ≠ timer.accumulator.name) (h : timer.Run ctx)
    (enabled : Bool) :
    Timer.InRange timer.accumulator ctx ∧ timer.Obeys enabled ctx (timer.execute enabled ctx) := by
  have hrange : Timer.InRange timer.accumulator ctx := by
    induction h with
    | start hrange _ => exact hrange
    | next enabled _ hleft ih =>
      exact (counts_execute hnames hfault ih enabled).toInRange.congr hleft.count hleft.carry
  refine ⟨hrange, ?_⟩
  cases timer with
  | on timer => exact timer.execute_obeys hnames hfault hrange enabled
  | off timer => exact timer.execute_obeys hnames hfault hrange enabled

end DelayTimer

namespace Sample

def retentive : OnDelay :=
  ⟨.ofType .bool "Done", .ofType .int "Elapsed", .literal (.int 150), .ms,
    some (.bit (.ofType .bool "Restart"))⟩

/-- A scan that comes a tenth of a second after the last one. -/
def afterTenth (tags : List (String × Value)) : ScanContext :=
  (ScanContext.start (.ofTags (.ofEntries tags)) ∅).setDt 0.1

def countedOnce : ScanContext := retentive.execute true (afterTenth [])

/-- Flag and count under the name of the first cell of a block of bits. -/
def sharedTimer : OnDelay :=
  ⟨.ofType .bool "C1", .ofType .int "C1", .literal (.int 50), .ms, none⟩

/-- The count under the name of the fault that the preset raises. -/
def faultyTimer : OnDelay :=
  ⟨.ofType .bool "Done", .ofType .int "system.fault.division_error",
    .binary .div (.literal (.int 1)) (.literal (.int 0)), .ms, none⟩

def fiveCounted : ScanContext := afterTenth [("system.fault.division_error", .int 5)]

def restarted : OnDelay := { retentive with preset := .literal (.int 0) }

def restarting : ScanContext := afterTenth [("Restart", .bool true)]

theorem start_afterTenth {timer : DelayTimer} {tags : List (String × Value)}
    (hcount : 0 ≤ (afterTenth tags).readInt timer.accumulator ∧
      (afterTenth tags).readInt timer.accumulator ≤ Timer.greatest)
    (hcarry : (afterTenth tags).memory? (fracKey timer.accumulator.name) = none)
    (hdone : (afterTenth tags).readBool timer.done = false) : timer.Run (afterTenth tags) := by
  have hzero : (afterTenth tags).memoryReal (fracKey timer.accumulator.name) = 0.0 := by
    unfold ScanContext.memoryReal
    rw [hcarry]
    rfl
  refine .start ⟨hcount.1, hcount.2, ?_, ?_⟩ hdone
  · rw [hzero]
    exact Binary.isFinite_zero
  · rw [hzero]
    exact isCarry_zero.2

end Sample

/-- The second tenth of a second takes the count past the preset. -/
theorem DelayTimer.Run.obeys_sample :
    (DelayTimer.on Sample.retentive).Run Sample.countedOnce ∧
      Sample.countedOnce.readInt Sample.retentive.accumulator = 100 ∧
      (DelayTimer.on Sample.retentive).Obeys true Sample.countedOnce
        (Sample.retentive.execute true Sample.countedOnce) ∧
      (Sample.retentive.execute true Sample.countedOnce).readBool Sample.retentive.done = true := by
  have hnames : (DelayTimer.on Sample.retentive).done.name ≠
      (DelayTimer.on Sample.retentive).accumulator.name := by decide
  have hfault : ∀ f : Fault, f.tagName ≠ (DelayTimer.on Sample.retentive).accumulator.name := by
    intro f
    cases f <;> decide
  have hstart : (DelayTimer.on Sample.retentive).Run (Sample.afterTenth []) :=
    Sample.start_afterTenth (by decide) rfl rfl
  have hrun : (DelayTimer.on Sample.retentive).Run Sample.countedOnce :=
    .next true hstart ⟨rfl, rfl, rfl⟩
  exact ⟨hrun, by decide +kernel, (Run.obeys hnames hfault hrun true).2, by decide +kernel⟩

/-- Where flag and count share a name the flag overwrites the count, and a fault of the preset does
so if the count has its name. A timer that is reset is not done, however small its preset is. -/
theorem DelayTimer.exists_run_not_obeying :
    (OnDelay.make Sample.sharedTimer.done Sample.sharedTimer.accumulator
          Sample.sharedTimer.preset .ms = .ok Sample.sharedTimer ∧
        (DelayTimer.on Sample.sharedTimer).Run (Sample.afterTenth []) ∧
        (Sample.sharedTimer.preset.preset (Sample.afterTenth [])).1 = some 50 ∧
        (Sample.sharedTimer.execute true (Sample.afterTenth [])).readBool Sample.sharedTimer.done =
          true ∧
        (Sample.sharedTimer.execute true (Sample.afterTenth [])).readInt
          Sample.sharedTimer.accumulator = 1) ∧
      (OnDelay.make Sample.faultyTimer.done Sample.faultyTimer.accumulator
          Sample.faultyTimer.preset .ms = .ok Sample.faultyTimer ∧
        (DelayTimer.on Sample.faultyTimer).Run Sample.fiveCounted ∧
        Sample.fiveCounted.readInt Sample.faultyTimer.accumulator = 5 ∧
        (Sample.faultyTimer.execute true Sample.fiveCounted).readInt
          Sample.faultyTimer.accumulator = 1) ∧
      (OnDelay.make Sample.restarted.done Sample.restarted.accumulator
          Sample.restarted.preset .ms = .ok { Sample.restarted with reset := none } ∧
        (DelayTimer.on Sample.restarted).Run Sample.restarting ∧
        (Sample.restarted.preset.preset Sample.restarting).1 = some 0 ∧
        (Sample.restarted.execute true Sample.restarting).readBool Sample.restarted.done = false ∧
        (Sample.restarted.execute true Sample.restarting).readInt
          Sample.restarted.accumulator = 0) :=
  ⟨⟨rfl, Sample.start_afterTenth (by decide) rfl rfl, rfl, by decide +kernel, by decide +kernel⟩,
    ⟨rfl, Sample.start_afterTenth (by decide) rfl rfl, rfl, by decide +kernel⟩,
    ⟨rfl, Sample.start_afterTenth (by decide) rfl rfl, rfl, by decide +kernel, by decide +kernel⟩⟩

end LadderLogic
