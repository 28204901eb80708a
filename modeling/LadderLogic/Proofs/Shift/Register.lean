import LadderLogic.Proofs.Block.Names
import LadderLogic.Proofs.Drum.Request

/-!
Shift registers over a run of executions. The cells are written in place while they are read, and
the level of the clock lies in memory; what they hold in the end is a fold over what the executions
found, which knows neither cells nor memory.
-/

set_option autoImplicit false

namespace LadderLogic

namespace Shift

/-- What one execution finds: its enabled flag, and whether the clock and the reset hold. -/
structure Beat where
  enabled : Bool
  clock : Bool
  reset : Bool

/-- The bits in the order of the range, and the clock of the last execution. -/
structure Register where
  bits : List Bool
  clock : Bool

namespace Register

/-- The reset clears, a rising clock shifts, and nothing else changes a bit. -/
def step (r : Register) (b : Beat) : Register where
  bits :=
    if b.reset then List.replicate r.bits.length false
    else if b.clock && !r.clock then b.enabled :: r.bits.take (r.bits.length - 1)
    else r.bits
  clock := b.clock

variable {r : Register} {b : Beat} {beats : List Beat}

@[simp] theorem step_clock (r : Register) (b : Beat) : (r.step b).clock = b.clock := rfl

theorem step_of_reset (h : b.reset = true) :
    (r.step b).bits = List.replicate r.bits.length false := by
  simp [step, h]

theorem step_of_rising (hreset : b.reset = false) (hclock : b.clock = true)
    (hlast : r.clock = false) : (r.step b).bits = b.enabled :: r.bits.take (r.bits.length - 1) := by
  simp [step, hreset, hclock, hlast]

theorem step_of_level (hreset : b.reset = false) (hlevel : (b.clock && !r.clock) = false) :
    (r.step b).bits = r.bits := by
  simp [step, hreset, hlevel]

theorem length_step (hpos : 0 < r.bits.length) (b : Beat) :
    (r.step b).bits.length = r.bits.length := by
  unfold step
  dsimp only
  split_ifs
  · rw [List.length_replicate]
  · rw [List.length_cons, List.length_take]
    omega
  · rfl

theorem length_foldl (hpos : 0 < r.bits.length) (beats : List Beat) :
    (beats.foldl step r).bits.length = r.bits.length := by
  induction beats generalizing r with
  | nil => rfl
  | cons b beats ih =>
    have hstep := length_step hpos b
    rw [List.foldl_cons, ih (by omega), hstep]

/-- While the clock is held, cleared bits stay cleared. -/
theorem foldl_of_held {n : Nat} (hbits : r.bits = List.replicate n false) (hclock : r.clock = true)
    (hheld : ∀ b ∈ beats, b.clock = true) :
    (beats.foldl step r).bits = List.replicate n false := by
  induction beats generalizing r with
  | nil => exact hbits
  | cons b beats ih =>
    obtain ⟨hb, hrest⟩ := List.forall_mem_cons.mp hheld
    refine ih ?_ hb hrest
    by_cases hreset : b.reset = true
    · rw [step_of_reset hreset, hbits, List.length_replicate]
    · rw [step_of_level (Bool.not_eq_true _ ▸ hreset) (by simp [hclock]), hbits]

end Register

/-- The enabled flags of the rising clocks, in the order of the executions. -/
def entered : Bool → List Beat → List Bool
  | _, [] => []
  | last, b :: beats =>
    if b.clock && !last then b.enabled :: entered b.clock beats else entered b.clock beats

/-- The clock of the last execution, which is off before there is one. -/
def lastClock (beats : List Beat) : Bool := (beats.getLast?.map Beat.clock).getD false

namespace Register

variable {r : Register} {beats : List Beat}

theorem foldl_clock (start : List Bool) (beats : List Beat) :
    (beats.foldl step ⟨start, false⟩).clock = lastClock beats := by
  induction beats using List.reverseRecOn with
  | nil => rfl
  | append_singleton beats b _ =>
    simp [List.foldl_append, lastClock]

/-- Without a reset the flags of the rising clocks stand in front of what was there before, the
latest one first. -/
theorem foldl_of_running (hpos : 0 < r.bits.length) (h : ∀ b ∈ beats, b.reset = false) :
    (beats.foldl step r).bits =
      ((entered r.clock beats).reverse ++ r.bits).take r.bits.length := by
  induction beats generalizing r with
  | nil => simp [entered]
  | cons b beats ih =>
    obtain ⟨hb, hrest⟩ := List.forall_mem_cons.mp h
    have hlength := length_step hpos b
    rw [List.foldl_cons, ih (by omega) hrest, hlength, step_clock, entered]
    by_cases hrising : (b.clock && !r.clock) = true
    · obtain ⟨hclock, hlast⟩ : b.clock = true ∧ r.clock = false := by simpa using hrising
      have hfront : b.enabled :: r.bits.take (r.bits.length - 1) =
          (b.enabled :: r.bits).take r.bits.length := by
        rw [List.take_cons hpos]
      rw [step_of_rising hb hclock hlast, if_pos hrising, hfront, List.reverse_cons,
        List.append_assoc, List.singleton_append]
      simp [List.take_append, List.take_take]
    · rw [Bool.not_eq_true] at hrising
      rw [step_of_level hb hrising, if_neg (by simp [hrising])]

end Register

variable {shift : Shift} {id : InstructionId} {cells : BlockRange} {ctx next : ScanContext}

/-- What the next execution finds. -/
def beat (shift : Shift) (enabled : Bool) (ctx : ScanContext) : Beat :=
  ⟨enabled, shift.clock.holds ctx, Condition.optionHolds ctx shift.reset⟩

/-- From one context to the next nothing has changed the cells and the level of the clock. -/
structure LeftAlone (id : InstructionId) (cells : BlockRange) (ctx next : ScanContext) : Prop where
  cells : ∀ t ∈ cells.tags, next.tag? t.name = ctx.tag? t.name
  clock : next.memory? (clockKey id) = ctx.memory? (clockKey id)

/-- Executions one after the other, and the context in which they end. The first one finds the bits
of the start and no level of the clock, and in between only the register changes the two. -/
inductive Run (shift : Shift) (id : InstructionId) (cells : BlockRange) (start : List Bool) :
    List Beat → ScanContext → Prop
  | start {ctx : ScanContext} : cells.tags.map ctx.readBool = start →
      ctx.memory? (clockKey id) = none → Run shift id cells start [] ctx
  | next {beats : List Beat} {ctx next : ScanContext} (enabled : Bool) :
      Run shift id cells start beats ctx →
      LeftAlone id cells (shift.execute id enabled ctx).context next →
      Run shift id cells start (beats ++ [shift.beat enabled ctx]) next

/-- The cells and the memory of the clock are those of the register. -/
structure Shows (id : InstructionId) (cells : BlockRange) (r : Register) (ctx : ScanContext) :
    Prop where
  bits : cells.tags.map ctx.readBool = r.bits
  clock : ctx.memoryBool (clockKey id) = r.clock

namespace Shows

variable {r : Register}

theorem leftAlone (h : Shows id cells r ctx) (k : LeftAlone id cells ctx next) :
    Shows id cells r next where
  bits := by
    rw [← h.bits]
    apply List.map_congr_left
    intro t ht
    exact ScanContext.readBool_congr (k.cells t ht)
  clock := (ScanContext.memoryBool_congr k.clock).trans h.clock

theorem writeAll (hnames : (cells.tags.map Tag.name).Nodup) {bits : List Bool}
    (hlength : bits.length = cells.length) (hclock : ctx.memoryBool (clockKey id) = r.clock)
    (hbits : bits = r.bits) :
    Shows id cells r (ctx.writeAll (cells.tags.zip (bits.map Value.bool))) where
  bits := by rw [ctx.readBool_writeAll_zip hnames (by simpa using hlength), hbits]
  clock := (ctx.memoryBool_writeAll _ _).trans hclock

end Shows

/-- The level of the clock, which the execution keeps first, has no part in the reset. -/
theorem optionHolds_setMemory (ctx : ScanContext) (id : InstructionId) (level : Bool)
    (c : Option Condition) :
    Condition.optionHolds (ctx.setMemory (clockKey id) (.bool level)) c =
      Condition.optionHolds ctx c := by
  apply Condition.optionHolds_congr
  constructor
  · rfl
  · intro name
    have hkind : "shift_clock" ∈ "drum_frac" :: levelKinds := by decide
    have hkey : prevKey name ≠ clockKey id := prevKey_ne_memoryKey hkind name id
    rw [ctx.memoryBool_setMemory, if_neg hkey]

/-- An execution over cells that are fixed when the program is written. -/
theorem execute_direct (hrange : shift.range = .direct cells) (enabled : Bool) :
    shift.execute id enabled ctx =
      (shift.apply ((shift.beat enabled ctx).clock && !ctx.memoryBool (clockKey id)) enabled cells
        (ctx.setMemory (clockKey id) (.bool (shift.beat enabled ctx).clock))).proceed := by
  unfold execute
  rw [hrange]
  rfl

/-- One execution is one step of the register. -/
theorem shows_execute (hrange : shift.range = .direct cells)
    (hnames : (cells.tags.map Tag.name).Nodup) (hpos : 0 < cells.length) {r : Register}
    (h : Shows id cells r ctx) (enabled : Bool) :
    Shows id cells (r.step (shift.beat enabled ctx)) (shift.execute id enabled ctx).context := by
  have hlength : r.bits.length = cells.length := by
    rw [← h.bits, List.length_map, BlockRange.length_tags]
  let mid := ctx.setMemory (clockKey id) (.bool (shift.beat enabled ctx).clock)
  have hclock : mid.memoryBool (clockKey id) = (r.step (shift.beat enabled ctx)).clock := by
    rw [ctx.memoryBool_setMemory, if_pos rfl, Register.step_clock]
  have hreset : Condition.optionHolds mid shift.reset = (shift.beat enabled ctx).reset :=
    optionHolds_setMemory ctx id _ shift.reset
  have hbits : cells.tags.map mid.readBool = r.bits := h.bits
  rw [execute_direct hrange]
  show Shows id cells _ (shift.apply _ enabled cells mid)
  unfold apply
  rw [hreset, h.clock, hbits]
  split_ifs with hresets hrising
  · -- The reset writes the same to all cells.
    have hwrites : cells.tags.map (fun t => (t, Value.bool false)) =
        cells.tags.zip ((List.replicate cells.length false).map Value.bool) := by
      apply List.ext_getElem <;> simp
    rw [hwrites]
    refine Shows.writeAll hnames (by simp) hclock ?_
    rw [Register.step_of_reset hresets, hlength]
  · obtain ⟨hon, hoff⟩ : (shift.beat enabled ctx).clock = true ∧ r.clock = false := by
      simpa using hrising
    have hshifted : shifted enabled r.bits = enabled :: r.bits.take (r.bits.length - 1) := by
      rw [shifted, List.take_cons (by omega)]
    refine Shows.writeAll hnames ?_ hclock ?_
    · simp [shifted, hlength]
    · rw [Register.step_of_rising (by simpa using hresets) hon hoff, hshifted]
      rfl
  · refine ⟨?_, hclock⟩
    rw [hbits, Register.step_of_level (by simpa using hresets) (by simpa using hrising)]

theorem Run.length_start {start : List Bool} {beats : List Beat}
    (h : shift.Run id cells start beats ctx) : start.length = cells.length := by
  induction h with
  | start hbits => rw [← hbits, List.length_map, BlockRange.length_tags]
  | next _ _ _ ih => exact ih

theorem Run.shows (hrange : shift.range = .direct cells) (hnames : (cells.tags.map Tag.name).Nodup)
    (hpos : 0 < cells.length) {start : List Bool} {beats : List Beat}
    (h : shift.Run id cells start beats ctx) :
    Shows id cells (beats.foldl Register.step ⟨start, false⟩) ctx := by
  induction h with
  | start hbits hclock =>
    refine ⟨hbits, ?_⟩
    unfold ScanContext.memoryBool
    rw [hclock]
    rfl
  | next enabled _ hleft ih =>
    rw [List.foldl_append]
    exact (shows_execute hrange hnames hpos ih enabled).leftAlone hleft

/-- The cells are what the fold says, and no execution fails. So a clock that is held through a
reset shifts nothing afterwards, and while nothing is reset the enabled flags of the rising clocks
stand in the first cells, the latest one in front. -/
theorem Run.holds_register (hrange : shift.range = .direct cells) (hmade : cells.Made)
    (hpos : 0 < cells.length) {start : List Bool} {beats : List Beat}
    (h : shift.Run id cells start beats ctx) :
    (∀ enabled, (shift.execute id enabled ctx).exit = .proceed) ∧
      cells.tags.map ctx.readBool = (beats.foldl Register.step ⟨start, false⟩).bits ∧
      (∀ earlier now later, beats = earlier ++ now :: later → now.reset = true → now.clock = true →
        (∀ b ∈ later, b.clock = true) →
        cells.tags.map ctx.readBool = List.replicate cells.length false) ∧
      (∀ earlier since, beats = earlier ++ since → (∀ b ∈ since, b.reset = false) →
        ∀ i < cells.length, i < (entered (lastClock earlier) since).length →
          (cells.tags.map ctx.readBool)[i]? = (entered (lastClock earlier) since).reverse[i]?) := by
  have hnames : (cells.tags.map Tag.name).Nodup := hmade.ordered.nodup_names
  have hbits := (h.shows hrange hnames hpos).bits
  have hstart := h.length_start
  have hlength (earlier : List Beat) :
      (earlier.foldl Register.step ⟨start, false⟩).bits.length = cells.length := by
    rw [← hstart]
    apply Register.length_foldl
    rwa [hstart]
  refine ⟨?_, hbits, ?_, ?_⟩
  · intro enabled
    rw [execute_direct hrange]
    rfl
  · rintro earlier now later rfl hreset hclock hheld
    rw [hbits, List.foldl_append, List.foldl_cons]
    refine Register.foldl_of_held ?_ hclock hheld
    rw [Register.step_of_reset hreset, hlength]
  · rintro earlier since rfl hrunning i hi hentered
    rw [hbits, List.foldl_append, Register.foldl_of_running (by rwa [hlength]) hrunning, hlength,
      Register.foldl_clock, List.getElem?_take_of_lt hi, List.getElem?_append_left (by simpa)]

theorem LeftAlone.write {t : Tag} (h : ∀ u ∈ cells.tags, t.name ≠ u.name) (v : Value) :
    LeftAlone id cells ctx (ctx.write t v) :=
  ⟨fun u hu => ScanContext.tag?_write_of_ne (h u hu) v, rfl⟩

end Shift

namespace Sample

def stages : BlockRange := (Block.all ⟨"S", .bool, 1, 3, none, none, false, .bool false⟩).reverse

def clockBit : Tag := .ofType .bool "Clock"

def clearBit : Tag := .ofType .bool "Clear"

def conveyor : Shift := ⟨.direct stages, .bit clockBit, some (.bit clearBit)⟩

/-- The clock is on from the start. -/
def clocked : ScanContext := .start (.ofTags (.ofEntries [("Clock", .bool true)])) ∅

def firstShift : ScanContext := (conveyor.execute 3 true clocked).context

/-- The clock goes off and comes again. -/
def clockOff : ScanContext := firstShift.write clockBit (.bool false)

def betweenShifts : ScanContext := (conveyor.execute 3 true clockOff).context

def clockAgain : ScanContext := betweenShifts.write clockBit (.bool true)

def lastShift : ScanContext := (conveyor.execute 3 false clockAgain).context

theorem run_conveyor : conveyor.Run 3 stages [false, false, false]
    [⟨true, true, false⟩, ⟨true, false, false⟩, ⟨false, true, false⟩] lastShift := by
  have hclock : ∀ u ∈ stages.tags, clockBit.name ≠ u.name := by decide
  have hstart : conveyor.Run 3 stages [false, false, false] [] clocked := .start rfl rfl
  have hfirst : conveyor.Run 3 stages [false, false, false] [⟨true, true, false⟩] clockOff :=
    .next true hstart (.write hclock _)
  have hbetween : conveyor.Run 3 stages [false, false, false]
      [⟨true, true, false⟩, ⟨true, false, false⟩] clockAgain :=
    .next true hfirst (.write hclock _)
  exact .next false hbetween ⟨fun _ _ => rfl, rfl⟩

end Sample

theorem Shift.Run.holds_register_sample :
    Sample.conveyor.Run 3 Sample.stages [false, false, false]
      [⟨true, true, false⟩, ⟨true, false, false⟩, ⟨false, true, false⟩] Sample.lastShift ∧
    Sample.stages.tags.map Sample.lastShift.readBool = [false, true, false] :=
  ⟨Sample.run_conveyor,
    (holds_register rfl (.reverse (.all _)) (by decide) Sample.run_conveyor).2.1⟩

end LadderLogic
