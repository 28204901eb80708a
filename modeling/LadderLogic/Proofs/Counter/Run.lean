import LadderLogic.Proofs.Machine.Counter
import LadderLogic.Proofs.Scan.Lookup
import LadderLogic.Proofs.TagType.Laws

/-!
Counters over a run of executions. A count is a fold over what the executions found: it is set to
zero by a reset, and else goes up and down by one and stays in the domain of its tag. So nothing is
lost or invented while the domain is not left, and the flag always tells the count that is stored.
-/

set_option autoImplicit false

namespace LadderLogic

namespace Counter

/-- What one execution finds: whether it resets, whether it counts up, and whether it counts down. -/
structure Levels where
  reset : Bool
  up : Bool
  down : Bool

def Levels.delta (l : Levels) : Int := (if l.up then 1 else 0) - (if l.down then 1 else 0)

/-- The count after an execution, for a tag with the domain from `low` to `high`. -/
def Levels.step (low high count : Int) (l : Levels) : Int :=
  if l.reset then 0 else Integer.clamp low high (count + l.delta)

/-- The count after some executions. -/
def tally (low high start : Int) (levels : List Levels) : Int :=
  levels.foldl (Levels.step low high) start

/-- No execution takes the count out of the domain, so that none is clamped. -/
def Unclamped (low high start : Int) (levels : List Levels) : Prop :=
  ∀ before l after, levels = before ++ l :: after →
    low ≤ tally low high start before + l.delta ∧ tally low high start before + l.delta ≤ high

variable {low high start : Int} {l : Levels} {levels : List Levels}

theorem Levels.natAbs_delta_le (l : Levels) : l.delta.natAbs ≤ 1 := by
  unfold delta
  split_ifs <;> decide

theorem Levels.step_of_reset (h : l.reset = true) (count : Int) : l.step low high count = 0 :=
  if_pos h

theorem Levels.step_of_running (h : l.reset = false) (count : Int) :
    l.step low high count = Integer.clamp low high (count + l.delta) :=
  if_neg (by simp [h])

theorem Levels.step_mem (hlow : low ≤ 0) (hhigh : 0 ≤ high) (l : Levels) (count : Int) :
    low ≤ l.step low high count ∧ l.step low high count ≤ high := by
  unfold step
  split_ifs
  · exact ⟨hlow, hhigh⟩
  · exact Integer.clamp_mem (hlow.trans hhigh) _

theorem tally_append (low high start : Int) (earlier later : List Levels) :
    tally low high start (earlier ++ later) =
      tally low high (tally low high start earlier) later :=
  List.foldl_append

theorem unclamped_nil (low high start : Int) : Unclamped low high start [] := by
  intro before l after h
  exact absurd h (by simp)

theorem unclamped_cons :
    Unclamped low high start (l :: levels) ↔
      (low ≤ start + l.delta ∧ start + l.delta ≤ high) ∧
        Unclamped low high (l.step low high start) levels := by
  constructor
  · intro h
    refine ⟨h [] l levels rfl, ?_⟩
    rintro before m after rfl
    exact h (l :: before) m after rfl
  · rintro ⟨hhead, htail⟩ before m after h
    cases before with
    | nil =>
      cases h
      exact hhead
    | cons l before =>
      cases h
      exact htail before m after rfl

/-- While nothing is reset and nothing is clamped, every execution counts. -/
theorem tally_of_unclamped (hrunning : ∀ l ∈ levels, l.reset = false)
    (h : Unclamped low high start levels) :
    tally low high start levels = start + levels.countP Levels.up - levels.countP Levels.down := by
  induction levels generalizing start with
  | nil => simp [tally]
  | cons l levels ih =>
    obtain ⟨hl, hrest⟩ := List.forall_mem_cons.mp hrunning
    obtain ⟨⟨hlow, hhigh⟩, htail⟩ := unclamped_cons.mp h
    have hstep : l.step low high start = start + l.delta := by
      rw [Levels.step_of_running hl, Integer.clamp_of_mem hlow hhigh]
    calc tally low high start (l :: levels)
        = tally low high (l.step low high start) levels := rfl
      _ = l.step low high start + levels.countP Levels.up - levels.countP Levels.down :=
        ih hrest htail
      _ = start + (l :: levels).countP Levels.up - (l :: levels).countP Levels.down := by
        rw [hstep, List.countP_cons, List.countP_cons, Levels.delta]
        split_ifs <;> push_cast <;> omega

end Counter

/-- The two counters, which both write a flag and a count. -/
inductive LevelCounter where
  | up (counter : CountUp)
  | down (counter : CountDown)

namespace LevelCounter

def done : LevelCounter → Tag
  | up counter => counter.done
  | down counter => counter.done

def accumulator : LevelCounter → Tag
  | up counter => counter.accumulator
  | down counter => counter.accumulator

def preset : LevelCounter → Expression
  | up counter => counter.preset
  | down counter => counter.preset

def execute : LevelCounter → Bool → ScanContext → Outcome
  | up counter => counter.execute
  | down counter => counter.execute

/-- What an execution finds in the context that it starts from. -/
def levels (counter : LevelCounter) (enabled : Bool) (ctx : ScanContext) : Counter.Levels :=
  match counter with
  | up counter =>
    ⟨Condition.optionHolds ctx counter.reset, enabled, Condition.optionHolds ctx counter.down⟩
  | down counter => ⟨Condition.optionHolds ctx counter.reset, false, enabled⟩

/-- An execution without reset up to the point where the count is stored. The preset is read here. -/
def counted (counter : LevelCounter) (enabled : Bool) (ctx : ScanContext) : ScanContext :=
  match counter with
  | up counter => (Counter.move counter.accumulator (counter.delta enabled ctx) ctx).context
  | down counter => (counter.moved enabled ctx).context

/-- Whether a count has come to the preset. -/
def Reached : LevelCounter → Int → Int → Prop
  | up _, preset, count => preset ≤ count
  | down _, preset, count => count ≤ -preset

/-- An execution without reset from the point on where the count is stored: the flag is set. -/
def finish : LevelCounter → ScanContext → Outcome
  | up counter => counter.finish
  | down counter => counter.finish

/-- What one execution does, from a context to its outcome. A reset goes before all else. The preset
is an integer of 64 bits, and the least of these has no negative. -/
structure Obeys (counter : LevelCounter) (low high : Int) (enabled : Bool)
    (ctx : ScanContext) (o : Outcome) : Prop where
  count : o.context.readInt counter.accumulator =
    (counter.levels enabled ctx).step low high (ctx.readInt counter.accumulator)
  reset : (counter.levels enabled ctx).reset = true →
    o.exit = .proceed ∧ o.context.readBool counter.done = false
  done : (counter.levels enabled ctx).reset = false →
    ∀ preset, (counter.preset.preset (counter.counted enabled ctx)).1 = some preset →
      Integer.Fits preset → Integer.least < preset →
      o.exit = .proceed ∧
        (o.context.readBool counter.done = true ↔
          counter.Reached preset (o.context.readInt counter.accumulator))
  fault : (counter.levels enabled ctx).reset = false →
    (counter.preset.preset (counter.counted enabled ctx)).1 = none → o.exit = .proceed

/-- From one context to the next nothing has changed what the counter writes. -/
structure LeftAlone (counter : LevelCounter) (ctx next : ScanContext) : Prop where
  done : next.tag? counter.done.name = ctx.tag? counter.done.name
  count : next.tag? counter.accumulator.name = ctx.tag? counter.accumulator.name

/-- Executions one after the other, and the context in which they end. The first one finds the count
of the start, and in between only the counter changes what it writes; its conditions, its preset and
all else may change as they like, also behind an execution that has overflowed. -/
inductive Run (counter : LevelCounter) (start : Int) : List Counter.Levels → ScanContext → Prop
  | start {ctx : ScanContext} : ctx.readInt counter.accumulator = start → Run counter start [] ctx
  | next {levels : List Counter.Levels} {ctx next : ScanContext} (enabled : Bool) :
    Run counter start levels ctx → LeftAlone counter (counter.execute enabled ctx).context next →
    Run counter start (levels ++ [counter.levels enabled ctx]) next

variable {counter : LevelCounter} {low high : Int} {ctx : ScanContext}

theorem execute_of_reset {enabled : Bool} (h : (counter.levels enabled ctx).reset = true) :
    counter.execute enabled ctx =
      (Counter.clear counter.done counter.accumulator ctx).proceed := by
  cases counter <;> exact if_pos h

end LevelCounter

namespace Counter

variable {done accumulator : Tag} {low high : Int} {ctx : ScanContext}

/-- The domain of a counter lies in that of DINT, so clamping twice is clamping once. -/
theorem storeCopy_clamp (htype : accumulator.type ∈ [.int, .dint])
    (hbounds : accumulator.type.bounds? = some (low, high)) (i : Int) :
    accumulator.type.storeCopy (.int (Integer.clamp least greatest i)) =
      some (.int (Integer.clamp low high i)) := by
  simp only [List.mem_cons, List.not_mem_nil, or_false] at htype
  rcases htype with hint | hdint
  · rw [hint] at hbounds ⊢
    cases hbounds
    simp only [TagType.storeCopy, TagType.bounds?, TagType.copyInteger?, Option.map_some,
      Integer.clamp, least, greatest]
    congr 2
    split_ifs <;> omega
  · rw [hdint] at hbounds ⊢
    cases hbounds
    simp only [TagType.storeCopy, TagType.bounds?, TagType.copyInteger?, Option.map_some,
      Integer.clamp, least, greatest]
    congr 2
    split_ifs <;> omega

theorem holds_iff_of_bounds (htype : accumulator.type ∈ [.int, .dint])
    (hbounds : accumulator.type.bounds? = some (low, high)) (i : Int) :
    accumulator.type.Holds (.int i) ↔ low ≤ i ∧ i ≤ high := by
  simp only [List.mem_cons, List.not_mem_nil, or_false] at htype
  rcases htype with htype | htype <;> rw [htype] at hbounds ⊢ <;> cases hbounds <;> rfl

theorem zero_mem_of_bounds (htype : accumulator.type ∈ [.int, .dint])
    (hbounds : accumulator.type.bounds? = some (low, high)) : low ≤ 0 ∧ 0 ≤ high := by
  rw [← holds_iff_of_bounds htype hbounds]
  exact TagType.holds_counter_zero htype

theorem readInt_store (htype : accumulator.type ∈ [.int, .dint])
    (hbounds : accumulator.type.bounds? = some (low, high)) (count : Int) (ctx : ScanContext) :
    (store accumulator count ctx).readInt accumulator = Integer.clamp low high count := by
  unfold store
  rw [storeCopy_clamp htype hbounds]
  exact ScanContext.readInt_of_tag? (ScanContext.tag?_write_self _ _ _)

/-- A count in its domain moves by one without an overflow, and the stored one is clamped. -/
theorem move_eq (htype : accumulator.type ∈ [.int, .dint])
    (hbounds : accumulator.type.bounds? = some (low, high))
    (hcount : low ≤ ctx.readInt accumulator ∧ ctx.readInt accumulator ≤ high) {delta : Int}
    (hdelta : delta.natAbs ≤ 1) :
    (move accumulator delta ctx).exit = .proceed ∧
      (move accumulator delta ctx).context.readInt accumulator =
        Integer.clamp low high (ctx.readInt accumulator + delta) := by
  have hholds := (holds_iff_of_bounds htype hbounds _).mpr hcount
  rw [move_of_fits (TagType.fits_add_of_counter htype hholds hdelta)]
  exact ⟨rfl, readInt_store htype hbounds _ ctx⟩

/-- What is neither a fault nor changed where there is a preset stays as it is. -/
theorem tag?_onPreset {preset : Expression} {next : Int → ScanContext → Outcome} {name : String}
    (hfault : ∀ f : Fault, f.tagName ≠ name)
    (hnext : ∀ i, (next i ctx).context.tag? name = ctx.tag? name) :
    (onPreset preset ctx next).context.tag? name = ctx.tag? name := by
  unfold onPreset
  rcases preset.preset_cases ctx with ⟨i, hpreset⟩ | hpreset | ⟨f, hpreset⟩ <;> rw [hpreset]
  · exact hnext i
  · rfl
  · exact ScanContext.tag?_raise_of_ne (hfault f) ctx

theorem exit_onPreset_of_none {preset : Expression} (h : (preset.preset ctx).1 = none)
    (next : Int → ScanContext → Outcome) : (onPreset preset ctx next).exit = .proceed := by
  unfold onPreset
  rcases preset.preset_cases ctx with ⟨i, hpreset⟩ | hpreset | ⟨f, hpreset⟩
  · rw [hpreset] at h
    cases h
  · rw [hpreset]
    rfl
  · rw [hpreset]
    rfl

theorem readInt_clear (hnames : done.name ≠ accumulator.name) (ctx : ScanContext) :
    (clear done accumulator ctx).readInt accumulator = 0 :=
  ScanContext.readInt_of_tag?
    ((ScanContext.tag?_write_of_ne hnames _).trans (ScanContext.tag?_write_self _ _ _))

end Counter

namespace LevelCounter

variable {counter : LevelCounter} {low high : Int} {ctx : ScanContext}

/-- The counting itself does not overflow, and the stored count is the step of the fold, also where
a disabled counter stores nothing. -/
theorem counted_eq (htype : counter.accumulator.type ∈ [.int, .dint])
    (hbounds : counter.accumulator.type.bounds? = some (low, high))
    (hcount : low ≤ ctx.readInt counter.accumulator ∧ ctx.readInt counter.accumulator ≤ high)
    {enabled : Bool} (hrunning : (counter.levels enabled ctx).reset = false) :
    counter.execute enabled ctx = counter.finish (counter.counted enabled ctx) ∧
      (counter.counted enabled ctx).readInt counter.accumulator =
        Integer.clamp low high
          (ctx.readInt counter.accumulator + (counter.levels enabled ctx).delta) := by
  have hrunning : ¬(counter.levels enabled ctx).reset = true := by simp [hrunning]
  have hmoved := Counter.move_eq htype hbounds hcount
    (Counter.Levels.natAbs_delta_le (counter.levels enabled ctx))
  cases counter with
  | up counter =>
    obtain ⟨hexit, hread⟩ := hmoved
    exact ⟨(if_neg hrunning).trans (Outcome.andThen_of_proceed hexit counter.finish), hread⟩
  | down counter =>
    cases enabled with
    | true =>
      obtain ⟨hexit, hread⟩ := hmoved
      exact ⟨(if_neg hrunning).trans (Outcome.andThen_of_proceed hexit counter.finish), hread⟩
    | false =>
      have hstill : Integer.clamp low high (ctx.readInt counter.accumulator + 0) =
          ctx.readInt counter.accumulator := by
        rw [add_zero]
        exact Integer.clamp_of_mem hcount.1 hcount.2
      exact ⟨if_neg hrunning, hstill.symm⟩

/-- The flag is not the count, and neither is a fault that the preset raises. -/
theorem readInt_finish (hnames : counter.done.name ≠ counter.accumulator.name)
    (hfault : ∀ f : Fault, f.tagName ≠ counter.accumulator.name) (ctx : ScanContext) :
    (counter.finish ctx).context.readInt counter.accumulator =
      ctx.readInt counter.accumulator := by
  apply ScanContext.readInt_congr
  cases counter with
  | up counter =>
    exact Counter.tag?_onPreset hfault fun _ => ScanContext.tag?_write_of_ne hnames _
  | down counter =>
    refine Counter.tag?_onPreset hfault fun preset => ?_
    unfold ScanContext.onWord
    cases Integer.checked (-preset) with
    | none => rfl
    | some bound => exact ScanContext.tag?_write_of_ne hnames _

/-- Only the least integer has no negative, and with any other preset the flag tells whether the
count has come to it. -/
theorem readBool_finish {preset : Int} (h : (counter.preset.preset ctx).1 = some preset)
    (hfits : Integer.Fits preset) (hleast : Integer.least < preset) :
    (counter.finish ctx).exit = .proceed ∧
      ((counter.finish ctx).context.readBool counter.done = true ↔
        counter.Reached preset (ctx.readInt counter.accumulator)) := by
  cases counter with
  | up counter =>
    have hfinish : counter.finish ctx = (ctx.write counter.done
        (.bool (preset ≤ ctx.readInt counter.accumulator))).proceed := Counter.onPreset_of_some h _
    refine ⟨congrArg Outcome.exit hfinish, ?_⟩
    change (counter.finish ctx).context.readBool counter.done = true ↔ _
    rw [hfinish]
    exact ctx.readBool_write_decide counter.done _
  | down counter =>
    have hneg : Integer.Fits (-preset) := (Integer.neg_fits_iff hfits).mpr hleast.ne'
    have hfinish : counter.finish ctx = (ctx.write counter.done
        (.bool (ctx.readInt counter.accumulator ≤ -preset))).proceed :=
      (Counter.onPreset_of_some h _).trans (ctx.onWord_of_fits hneg _)
    refine ⟨congrArg Outcome.exit hfinish, ?_⟩
    change (counter.finish ctx).context.readBool counter.done = true ↔ _
    rw [hfinish]
    exact ctx.readBool_write_decide counter.done _

/-- Without a preset the flag stays as it is, and nothing is negated. -/
theorem exit_finish (h : (counter.preset.preset ctx).1 = none) :
    (counter.finish ctx).exit = .proceed := by
  cases counter with
  | up counter => exact Counter.exit_onPreset_of_none h _
  | down counter => exact Counter.exit_onPreset_of_none h _

theorem execute_obeys (hnames : counter.done.name ≠ counter.accumulator.name)
    (hfault : ∀ f : Fault, f.tagName ≠ counter.accumulator.name)
    (htype : counter.accumulator.type ∈ [.int, .dint])
    (hbounds : counter.accumulator.type.bounds? = some (low, high))
    (hcount : low ≤ ctx.readInt counter.accumulator ∧ ctx.readInt counter.accumulator ≤ high)
    (enabled : Bool) : counter.Obeys low high enabled ctx (counter.execute enabled ctx) := by
  by_cases hreset : (counter.levels enabled ctx).reset = true
  · have hnot : ¬(counter.levels enabled ctx).reset = false := by simp [hreset]
    rw [execute_of_reset hreset]
    refine ⟨?_, fun _ => ⟨rfl, ScanContext.readBool_write _ _ false⟩,
      fun h => absurd h hnot, fun h => absurd h hnot⟩
    rw [Counter.Levels.step_of_reset hreset]
    exact Counter.readInt_clear hnames ctx
  · have hrunning : (counter.levels enabled ctx).reset = false := Bool.eq_false_of_not_eq_true hreset
    obtain ⟨hexecute, hstored⟩ := counted_eq htype hbounds hcount hrunning
    rw [hexecute]
    refine ⟨?_, fun hset => absurd hset hreset, fun _ preset hpreset hfits hleast => ?_,
      fun _ hpreset => exit_finish hpreset⟩
    · rw [readInt_finish hnames hfault, hstored, Counter.Levels.step_of_running hrunning]
    · rw [readInt_finish hnames hfault]
      exact readBool_finish hpreset hfits hleast

/-- Before each execution of a run the count is in its domain, and it is the one of the fold. -/
theorem Run.readInt_eq (hnames : counter.done.name ≠ counter.accumulator.name)
    (hfault : ∀ f : Fault, f.tagName ≠ counter.accumulator.name)
    (htype : counter.accumulator.type ∈ [.int, .dint])
    (hbounds : counter.accumulator.type.bounds? = some (low, high)) {start : Int}
    (hstart : low ≤ start ∧ start ≤ high) {levels : List Counter.Levels}
    (h : counter.Run start levels ctx) :
    (low ≤ ctx.readInt counter.accumulator ∧ ctx.readInt counter.accumulator ≤ high) ∧
      ctx.readInt counter.accumulator = Counter.tally low high start levels := by
  induction h with
  | start hread => exact ⟨hread ▸ hstart, hread⟩
  | @next levels ctx next enabled _ hleft ih =>
    obtain ⟨hcount, htally⟩ := ih
    have hobeys := execute_obeys hnames hfault htype hbounds hcount enabled
    have hzero := Counter.zero_mem_of_bounds htype hbounds
    rw [ScanContext.readInt_congr hleft.count, hobeys.count]
    refine ⟨Counter.Levels.step_mem hzero.1 hzero.2 _ _, ?_⟩
    rw [Counter.tally_append, htally]
    rfl

/-- The count is the one of the fold, and where nothing has been clamped since the last reset it is
the number of executions since then that counted up less that of those that counted down. The next
execution makes the step of the fold, and its flag tells the count. -/
theorem Run.tallies (hnames : counter.done.name ≠ counter.accumulator.name)
    (hfault : ∀ f : Fault, f.tagName ≠ counter.accumulator.name)
    (htype : counter.accumulator.type ∈ [.int, .dint])
    (hbounds : counter.accumulator.type.bounds? = some (low, high)) {start : Int}
    (hstart : low ≤ start ∧ start ≤ high) {levels : List Counter.Levels}
    (h : counter.Run start levels ctx) (enabled : Bool) :
    ctx.readInt counter.accumulator = Counter.tally low high start levels ∧
      (∀ earlier now since, levels = earlier ++ now :: since → now.reset = true →
        (∀ l ∈ since, l.reset = false) → Counter.Unclamped low high 0 since →
        ctx.readInt counter.accumulator =
          since.countP Counter.Levels.up - since.countP Counter.Levels.down) ∧
      counter.Obeys low high enabled ctx (counter.execute enabled ctx) := by
  obtain ⟨hcount, htally⟩ := h.readInt_eq hnames hfault htype hbounds hstart
  refine ⟨htally, ?_, execute_obeys hnames hfault htype hbounds hcount enabled⟩
  rintro earlier now since rfl hreset hrunning hunclamped
  calc ctx.readInt counter.accumulator
      = Counter.tally low high (Counter.tally low high start earlier) (now :: since) := by
        rw [htally, Counter.tally_append]
    _ = Counter.tally low high 0 since :=
        congrArg (Counter.tally low high · since) (Counter.Levels.step_of_reset hreset _)
    _ = since.countP Counter.Levels.up - since.countP Counter.Levels.down := by
        rw [Counter.tally_of_unclamped hrunning hunclamped, zero_add]

end LevelCounter

namespace Sample

def clearParts : Tag := .ofType .bool "Clear"

def partCounter : CountUp :=
  ⟨.ofType .bool "Done", .ofType .int "Parts", .literal (.int 2), some (.bit (.ofType .bool "Back")),
    some (.bit clearParts)⟩

def sevenParts : ScanContext :=
  .start (.ofTags (.ofEntries [("Parts", .int 7), ("Clear", .bool true)])) ∅

/-- The reset goes off after the first execution. -/
def cleared : ScanContext :=
  (partCounter.execute true sevenParts).context.write clearParts (.bool false)

def onePart : ScanContext := (partCounter.execute true cleared).context

theorem run_partCounter :
    (LevelCounter.up partCounter).Run 7 [⟨true, true, false⟩, ⟨false, true, false⟩] onePart := by
  have hdone : clearParts.name ≠ partCounter.done.name := by decide
  have hparts : clearParts.name ≠ partCounter.accumulator.name := by decide
  have hstart : (LevelCounter.up partCounter).Run 7 [] sevenParts := .start rfl
  have hcleared : (LevelCounter.up partCounter).Run 7 [⟨true, true, false⟩] cleared :=
    .next true hstart
      ⟨ScanContext.tag?_write_of_ne hdone _, ScanContext.tag?_write_of_ne hparts _⟩
  exact .next true hcleared ⟨rfl, rfl⟩

/-- Flag and count under the name of the first cell of a block of bits. -/
def sharedCounter : CountUp :=
  ⟨.ofType .bool "C1", .ofType .int "C1", .literal (.int 50), none, none⟩

def nothingCounted : ScanContext := .start .empty ∅

/-- The count under the name of the fault that the preset raises. -/
def faultyCounter : CountUp :=
  ⟨.ofType .bool "Done", .ofType .int "system.fault.division_error",
    .binary .div (.literal (.int 1)) (.literal (.int 0)), none, none⟩

def fiveFaults : ScanContext :=
  .start (.ofTags (.ofEntries [("system.fault.division_error", .int 5)])) ∅

end Sample

/-- One part has been counted since the reset, and the next one makes two. -/
theorem LevelCounter.Run.tallies_sample :
    (LevelCounter.up Sample.partCounter).Run 7 [⟨true, true, false⟩, ⟨false, true, false⟩]
        Sample.onePart ∧
      Sample.onePart.readInt Sample.partCounter.accumulator = 1 ∧
      (Sample.partCounter.execute true Sample.onePart).context.readInt
        Sample.partCounter.accumulator = 2 ∧
      (Sample.partCounter.execute true Sample.onePart).context.readBool
        Sample.partCounter.done = true := by
  have hnames : (LevelCounter.up Sample.partCounter).done.name ≠
      (LevelCounter.up Sample.partCounter).accumulator.name := by decide
  have hfault : ∀ f : Fault, f.tagName ≠ (LevelCounter.up Sample.partCounter).accumulator.name := by
    intro f
    cases f <;> decide
  have hrun := Sample.run_partCounter
  obtain ⟨-, hsince, hobeys⟩ := tallies hnames hfault (by decide) rfl (by decide) hrun true
  have hone : Sample.onePart.readInt (LevelCounter.up Sample.partCounter).accumulator = 1 :=
    hsince [] ⟨true, true, false⟩ [⟨false, true, false⟩] rfl rfl (by decide)
      (Counter.unclamped_cons.mpr ⟨by decide, Counter.unclamped_nil _ _ _⟩)
  have hcount := hobeys.count
  rw [hone] at hcount
  have htwo : (Sample.partCounter.execute true Sample.onePart).context.readInt
      Sample.partCounter.accumulator = 2 := hcount.trans (by decide +kernel)
  have hdone := hobeys.done (by decide +kernel) 2 rfl (by decide) (by decide)
  exact ⟨hrun, hone, htwo, hdone.2.mpr htwo.ge⟩

/-- Where flag and count share a name the flag overwrites the count, and a fault of the preset does
so if the count has its name. -/
theorem LevelCounter.exists_lost_count :
    (CountUp.make Sample.sharedCounter.done Sample.sharedCounter.accumulator
          Sample.sharedCounter.preset = .ok Sample.sharedCounter ∧
        (LevelCounter.up Sample.sharedCounter).Run 0 [] Sample.nothingCounted ∧
        ((LevelCounter.up Sample.sharedCounter).levels true Sample.nothingCounted).step
          (-32768) 32767 0 = 1 ∧
        (Sample.sharedCounter.execute true Sample.nothingCounted).context.readInt
          Sample.sharedCounter.accumulator = 0) ∧
      (CountUp.make Sample.faultyCounter.done Sample.faultyCounter.accumulator
          Sample.faultyCounter.preset = .ok Sample.faultyCounter ∧
        (LevelCounter.up Sample.faultyCounter).Run 5 [] Sample.fiveFaults ∧
        ((LevelCounter.up Sample.faultyCounter).levels true Sample.fiveFaults).step
          (-32768) 32767 5 = 6 ∧
        (Sample.faultyCounter.execute true Sample.fiveFaults).context.readInt
          Sample.faultyCounter.accumulator = 1) :=
  ⟨⟨rfl, .start rfl, by decide +kernel, by decide +kernel⟩,
    ⟨rfl, .start (by decide +kernel), by decide +kernel, by decide +kernel⟩⟩

end LadderLogic
