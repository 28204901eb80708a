import LadderLogic.Proofs.Drum.Move

/-!
Both kinds of drums as one state machine. They differ in what makes a step due, an event or a time;
the step, the completion and the outputs follow one rule.
-/

set_option autoImplicit false

namespace LadderLogic

/-- A drum of either kind. -/
inductive Drum where
  | event (drum : EventDrum)
  | time (drum : TimeDrum)

namespace Drum

def core : Drum → DrumCore
  | event drum => drum.core
  | time drum => drum.core

def operation : Drum → Operation
  | event drum => .eventDrum drum
  | time drum => .timeDrum drum

def accumulator? : Drum → Option Tag
  | event _ => none
  | time drum => some drum.accumulator

/-- All tags that a drum writes, faults apart. -/
def tags (drum : Drum) : List Tag :=
  drum.core.outputs ++ drum.core.step :: drum.core.completion :: drum.accumulator?.toList

def execute (drum : Drum) (id : InstructionId) (enabled : Bool) (ctx : ScanContext) :
    ScanContext :=
  match drum with
  | event drum => drum.execute id enabled ctx
  | time drum => drum.execute id enabled ctx

/-- A look at the event or at the time of the current step. -/
def watch (drum : Drum) (id : InstructionId) (ctx : ScanContext) : DrumMove × ScanContext :=
  match drum with
  | event drum => drum.watch id ctx
  | time drum => drum.watch id ctx

/-- Whether the event or the time of the current step would advance the drum now. -/
def due (drum : Drum) (id : InstructionId) (ctx : ScanContext) : Bool :=
  (drum.watch id (drum.core.begin id true ctx).2).1 == .advance

/-- The move of an execution, `none` if it is the reset. The conditions come first; a drum that they
leave alone advances when its step is due, unless it is completed. -/
def move? (drum : Drum) (id : InstructionId) (enabled : Bool) (ctx : ScanContext) :
    Option DrumMove :=
  match drum.core.request id enabled ctx with
  | some .stay =>
    some (if enabled && !ctx.readBool drum.core.completion && drum.due id ctx then .advance
      else .stay)
  | asked => asked

/-- What is done behind a move: a time drum starts its time anew. -/
def settle (drum : Drum) (id : InstructionId) (move : DrumMove) (ctx : ScanContext) :
    ScanContext :=
  match drum with
  | event _ => ctx
  | time drum => if move = .stay then ctx else drum.clearTimer id ctx

/-- The move that follows what the conditions have asked for, and where it is made. -/
def next (drum : Drum) (id : InstructionId) (enabled : Bool) (asked : DrumMove)
    (ctx : ScanContext) : DrumMove × ScanContext :=
  let mid := (drum.core.begin id enabled ctx).2
  if drum.core.isWaiting enabled asked mid then drum.watch id mid else (asked, mid)

/-- The tags of step and completion belong to the drum alone, and its accumulator is neither of
them nor an output. -/
structure Apart (drum : Drum) : Prop where
  core : drum.core.Apart
  accumulator : ∀ a ∈ drum.accumulator?, ∀ t, drum.core.Targets t → t.name ≠ a.name

/-- What a drum may do before it moves, faults apart: count, and keep what it keeps. -/
def Looks (drum : Drum) (id : InstructionId) : Change → Prop :=
  Permit (· ∈ drum.accumulator?) (fun key => DrumCore.Keeps id key ∨ key = DrumCore.fracKey id)
    False False

variable {drum : Drum} {id : InstructionId} {enabled : Bool} {ctx mid : ScanContext}

theorem execute_of_resets (h : drum.core.resets ctx = true) (enabled : Bool) :
    drum.execute id enabled ctx =
      drum.settle id (.jumpTo 1) (drum.core.restart id (drum.core.afterEdges id ctx)) := by
  have hbegin : drum.core.begin id enabled ctx =
      (none, drum.core.restart id (drum.core.afterEdges id ctx)) :=
    DrumCore.begin_of_resets h enabled
  cases drum with
  | event drum =>
    change EventDrum.execute drum id enabled ctx = _
    unfold EventDrum.execute
    rw [show drum.core.begin id enabled ctx = _ from hbegin]
    rfl
  | time drum =>
    change TimeDrum.execute drum id enabled ctx = _
    unfold TimeDrum.execute
    rw [show drum.core.begin id enabled ctx = _ from hbegin]
    rfl

theorem execute_of_request {asked : DrumMove}
    (h : drum.core.request id enabled ctx = some asked) :
    drum.execute id enabled ctx =
      drum.settle id (drum.next id enabled asked ctx).1
        (drum.core.finish id enabled (drum.next id enabled asked ctx).1
          (drum.next id enabled asked ctx).2) := by
  have hbegin : drum.core.begin id enabled ctx = (some asked, (drum.core.begin id enabled ctx).2) :=
    Prod.ext ((DrumCore.begin_fst drum.core id enabled ctx).trans h) rfl
  cases drum with
  | event drum =>
    change EventDrum.execute drum id enabled ctx = _
    unfold EventDrum.execute
    rw [show drum.core.begin id enabled ctx = _ from hbegin]
    rfl
  | time drum =>
    change TimeDrum.execute drum id enabled ctx = _
    unfold TimeDrum.execute
    rw [show drum.core.begin id enabled ctx = _ from hbegin]
    rfl

theorem watch_cases (drum : Drum) (id : InstructionId) (mid : ScanContext) :
    (drum.watch id mid).1 = .stay ∨ (drum.watch id mid).1 = .advance := by
  cases drum with
  | event drum =>
    simp only [watch, EventDrum.watch]
    split_ifs <;> simp
  | time drum =>
    simp only [watch, TimeDrum.watch]
    generalize drum.preset (drum.core.currentStep mid) mid = result
    obtain ⟨_ | preset, last⟩ := result
    · exact .inl rfl
    · simp only
      split_ifs <;> simp

theorem watch_looks (h : ctx.Becomes (drum.Looks id) mid) :
    ctx.Becomes (drum.Looks id) (drum.watch id mid).2 := by
  cases drum with
  | event drum =>
    dsimp only [watch, EventDrum.watch]
    split
    · exact h
    · exact h.setMemory (.inl (.inl rfl)) False.elim
  | time drum =>
    have hcount := Timer.count_becomes h (.inr rfl) (isCarryKey_drumFracKey id) False.elim
      ⟨rfl, False.elim⟩ drum.unit
    dsimp only [watch, TimeDrum.watch, TimeDrum.preset, Expression.preset]
    cases drum.presets[(drum.core.currentStep mid - 1).toNat]? with
    | none => exact h
    | some p =>
      dsimp only
      cases p.evaluate mid with
      | error fault => exact h.raise _
      | ok v =>
        dsimp only
        cases v.toInt? with
        | none => exact h
        | some i => exact hcount

theorem next_looks (h : drum.core.resets ctx = false) (enabled : Bool) (asked : DrumMove) :
    ctx.Becomes (drum.Looks id) (drum.next id enabled asked ctx).2 := by
  have hbegin : ctx.Becomes (drum.Looks id) (drum.core.begin id enabled ctx).2 :=
    DrumCore.begin_keeps (fun key hkey => .inl (.inr hkey)) h enabled
  unfold next
  dsimp only
  split_ifs
  · exact watch_looks hbegin
  · exact hbegin

theorem Apart.tag?_eq (h : drum.Apart) (hmid : ctx.Becomes (drum.Looks id) mid) {t : Tag}
    (ht : t = drum.core.step ∨ t = drum.core.completion) : mid.tag? t.name = ctx.tag? t.name := by
  refine hmid.tag?_eq (fun f => ?_) fun a ha => (h.accumulator a ha t (.inr ht)).symm
  rcases ht with rfl | rfl
  · exact (h.core.faults f).1
  · exact (h.core.faults f).2

theorem resets_of_request {asked : Option DrumMove}
    (h : drum.core.request id enabled ctx = asked) : drum.core.resets ctx = asked.isNone := by
  subst h
  obtain ⟨hresets, hasked⟩ | ⟨_, hresets, _, hasked⟩ | ⟨hresets, _, _, hasked⟩ |
    ⟨hresets, _, _, hasked⟩ := drum.core.request_cases id enabled ctx <;>
    rw [hresets, hasked] <;> rfl

/-- The move that is made is the one that was announced. -/
theorem move?_of_request (h : drum.Apart) {asked : DrumMove}
    (hasked : drum.core.request id enabled ctx = some asked) :
    drum.move? id enabled ctx = some (drum.next id enabled asked ctx).1 := by
  have hbegin : ctx.Becomes (drum.Looks id) (drum.core.begin id enabled ctx).2 :=
    DrumCore.begin_keeps (fun key hkey => .inl (.inr hkey)) (resets_of_request hasked) enabled
  have hcompletion : (drum.core.begin id enabled ctx).2.readBool drum.core.completion =
      ctx.readBool drum.core.completion :=
    ScanContext.readBool_congr (h.tag?_eq hbegin (.inr rfl))
  unfold move? next DrumCore.isWaiting
  dsimp only
  rw [hasked, hcompletion]
  cases asked with
  | advance => simp
  | jumpTo target => simp
  | stay =>
    cases enabled with
    | false => simp
    | true =>
      cases ctx.readBool drum.core.completion with
      | true => simp
      | false =>
        unfold due
        rcases drum.watch_cases id (drum.core.begin id true ctx).2 with hmove | hmove <;>
          simp [hmove]

theorem inside_next {asked : DrumMove} (hasked : drum.core.request id enabled ctx = some asked) :
    drum.core.Inside (drum.next id enabled asked ctx).1 := by
  unfold next
  dsimp only
  split_ifs
  · rcases drum.watch_cases id (drum.core.begin id enabled ctx).2 with hmove | hmove <;>
      rw [hmove]
    · exact DrumCore.inside_stay
    · exact DrumCore.inside_advance
  · rintro target rfl
    obtain ⟨_, h⟩ | ⟨step, _, hjump, h⟩ | ⟨_, _, _, h⟩ | ⟨_, _, _, h⟩ :=
      drum.core.request_cases id enabled ctx <;> rw [hasked] at h <;> cases h
    exact DrumCore.isStep_of_jump? hjump

theorem settle_tag? (h : drum.Apart) (move : DrumMove) {t : Tag} (ht : drum.core.Targets t) :
    (drum.settle id move ctx).tag? t.name = ctx.tag? t.name := by
  cases drum with
  | event drum => rfl
  | time drum =>
    dsimp only [settle]
    split
    · rfl
    · exact ScanContext.tag?_write_of_ne (h.accumulator _ rfl t ht).symm _

/-- Every execution is its move, made from the step at which it found the drum. -/
theorem execute_lands (hchecked : drum.core.Checked) (h : drum.Apart) (id : InstructionId)
    (enabled : Bool) (ctx : ScanContext) :
    drum.core.Lands (enabled || drum.core.resets ctx)
      ((drum.move? id enabled ctx).getD (.jumpTo 1)) ctx (drum.execute id enabled ctx) := by
  cases hasked : drum.core.request id enabled ctx with
  | none =>
    have hresets : drum.core.resets ctx = true := resets_of_request hasked
    have hmove : drum.move? id enabled ctx = none := by
      unfold move?
      rw [hasked]
    have htags := (DrumCore.afterEdges_sameView drum.core id ctx).tags
    rw [hresets, hmove, execute_of_resets hresets, Bool.or_true]
    exact (DrumCore.restart_lands hchecked h.core _).of_agree (fun t _ => congrFun htags t.name)
      nofun fun t ht => settle_tag? h _ ht
  | some asked =>
    have hresets : drum.core.resets ctx = false := resets_of_request hasked
    rw [hresets, move?_of_request h hasked, execute_of_request hasked, Bool.or_false]
    refine (DrumCore.finish_lands hchecked h.core enabled (inside_next hasked) _).of_agree
      (fun t ht => h.tag?_eq (next_looks hresets enabled asked) ht) (fun hoff t _ => ?_)
      fun t ht => settle_tag? h _ ht
    subst hoff
    exact congrFun (DrumCore.begin_tag?_of_disabled hresets) t.name

/-- The drum advances: it is enabled, no reset and no jump comes first, and either the jog rises or
the step is due and the drum not yet completed. -/
structure Advances (drum : Drum) (id : InstructionId) (enabled : Bool) (ctx : ScanContext) :
    Prop where
  ungated : enabled = true
  resets : drum.core.resets ctx = false
  jumps : drum.core.jump? id enabled ctx = none
  cause : drum.core.jogs id enabled ctx = true ∨
    ctx.readBool drum.core.completion = false ∧ drum.due id ctx = true

theorem move?_cases (drum : Drum) (id : InstructionId) (enabled : Bool) (ctx : ScanContext) :
    drum.core.resets ctx = true ∧ drum.move? id enabled ctx = none ∨
    (∃ step, drum.core.resets ctx = false ∧ drum.core.jump? id enabled ctx = some step ∧
      drum.move? id enabled ctx = some (.jumpTo step)) ∨
    drum.Advances id enabled ctx ∧ drum.move? id enabled ctx = some .advance ∨
    drum.core.resets ctx = false ∧ drum.core.jump? id enabled ctx = none ∧
      ¬ drum.Advances id enabled ctx ∧ drum.move? id enabled ctx = some .stay := by
  unfold move?
  obtain ⟨hresets, hasked⟩ | ⟨step, hresets, hjump, hasked⟩ | ⟨hresets, hjump, hjogs, hasked⟩ |
    ⟨hresets, hjump, hjogs, hasked⟩ := drum.core.request_cases id enabled ctx <;> rw [hasked]
  · exact .inl ⟨hresets, rfl⟩
  · exact .inr (.inl ⟨step, hresets, hjump, rfl⟩)
  · have hungated : enabled = true := by
      unfold DrumCore.jogs at hjogs
      exact (Bool.and_eq_true_iff.mp hjogs).1
    exact .inr (.inr (.inl ⟨⟨hungated, hresets, hjump, .inl hjogs⟩, rfl⟩))
  · refine .inr (.inr ?_)
    dsimp only
    split_ifs with hdue
    · simp only [Bool.and_eq_true, Bool.not_eq_true'] at hdue
      exact .inl ⟨⟨hdue.1.1, hresets, hjump, .inr ⟨hdue.1.2, hdue.2⟩⟩, rfl⟩
    · refine .inr ⟨hresets, hjump, fun h => hdue ?_, rfl⟩
      rcases h.cause with hcause | ⟨hoff, hcause⟩
      · rw [hjogs] at hcause
        cases hcause
      · rw [h.ungated, hoff, hcause]
        rfl

/-- What one execution does to step, completion and outputs. -/
structure Turns (drum : Drum) (id : InstructionId) (enabled : Bool) (ctx next : ScanContext) :
    Prop where
  step : next.tag? drum.core.step.name = some (.int (drum.core.currentStep next))
  isStep : drum.core.isStep (drum.core.currentStep next) = true
  changes : drum.core.currentStep next = drum.core.currentStep ctx ∨
    drum.core.resets ctx = true ∧ drum.core.currentStep next = 1 ∨
    drum.core.resets ctx = false ∧
      drum.core.jump? id enabled ctx = some (drum.core.currentStep next) ∨
    drum.Advances id enabled ctx ∧
      drum.core.currentStep next = drum.core.currentStep ctx + 1
  completes : ctx.readBool drum.core.completion = false →
    next.readBool drum.core.completion = true →
      drum.Advances id enabled ctx ∧ drum.core.currentStep ctx = drum.core.steps
  clears : ctx.readBool drum.core.completion = true →
    next.readBool drum.core.completion = false →
      drum.core.resets ctx = true ∨ (drum.core.jump? id enabled ctx).isSome = true
  drives : enabled = true ∨ drum.core.resets ctx = true →
    ∃ row, drum.core.pattern[(drum.core.currentStep next - 1).toNat]? = some row ∧
      drum.core.outputs.map (fun t => next.tag? t.name) = row.map fun b => some (.bool b)
  holds : enabled = false → drum.core.resets ctx = false →
    ∀ t ∈ drum.core.outputs, next.tag? t.name = ctx.tag? t.name

theorem inside_move? (hpos : 0 < drum.core.steps) (id : InstructionId) (enabled : Bool)
    (ctx : ScanContext) : drum.core.Inside ((drum.move? id enabled ctx).getD (.jumpTo 1)) := by
  obtain ⟨_, hmove⟩ | ⟨step, _, hjump, hmove⟩ | ⟨_, hmove⟩ | ⟨_, _, _, hmove⟩ :=
    drum.move?_cases id enabled ctx <;> rw [hmove]
  · rintro _ ⟨⟩
    rw [DrumCore.isStep_iff]
    omega
  · rintro _ ⟨⟩
    exact DrumCore.isStep_of_jump? hjump
  · exact DrumCore.inside_advance
  · exact DrumCore.inside_stay

theorem apart_of_nodup (hnames : (drum.tags.map Tag.name).Nodup)
    (hfaults : ∀ f : Fault,
      f.tagName ≠ drum.core.step.name ∧ f.tagName ≠ drum.core.completion.name) :
    drum.Apart := by
  unfold tags at hnames
  simp only [List.map_append, List.map_cons, List.nodup_append, List.nodup_cons, List.mem_cons,
    List.mem_map, not_or, not_exists, not_and] at hnames
  obtain ⟨-, ⟨⟨hcompletion, hstep⟩, hflag, -⟩, houtputs⟩ := hnames
  have houtput : ∀ t ∈ drum.core.outputs, ∀ name, name = drum.core.step.name ∨
      name = drum.core.completion.name ∨
      (∃ a, a ∈ drum.accumulator?.toList ∧ a.name = name) → t.name ≠ name :=
    fun t ht name hname => houtputs t.name ⟨t, ht, rfl⟩ name hname
  refine ⟨⟨fun heq => hcompletion heq.symm, fun t ht =>
    ⟨houtput t ht _ (.inl rfl), houtput t ht _ (.inr (.inl rfl))⟩, hfaults⟩, ?_⟩
  intro a ha t ht
  have hmem : a ∈ drum.accumulator?.toList := Option.mem_toList.mpr ha
  rcases ht with ht | rfl | rfl
  · exact houtput t ht _ (.inr (.inr ⟨a, hmem, rfl⟩))
  · exact fun heq => hstep a hmem heq.symm
  · exact fun heq => hflag a hmem heq.symm

section Landed

variable {driven : Bool} {next : ScanContext}

theorem changes_of_lands (hpos : 0 < drum.core.steps)
    (h : drum.core.Lands driven ((drum.move? id enabled ctx).getD (.jumpTo 1)) ctx next) :
    drum.core.currentStep next = drum.core.currentStep ctx ∨
    drum.core.resets ctx = true ∧ drum.core.currentStep next = 1 ∨
    drum.core.resets ctx = false ∧
      drum.core.jump? id enabled ctx = some (drum.core.currentStep next) ∨
    drum.Advances id enabled ctx ∧
      drum.core.currentStep next = drum.core.currentStep ctx + 1 := by
  have hcurrent := h.currentStep_eq hpos (inside_move? hpos id enabled ctx)
  obtain ⟨hresets, hmove⟩ | ⟨step, hresets, hjump, hmove⟩ | ⟨hadvances, hmove⟩ |
    ⟨-, -, -, hmove⟩ :=
    drum.move?_cases id enabled ctx <;> rw [hmove] at hcurrent
  · exact .inr (.inl ⟨hresets, hcurrent⟩)
  · exact .inr (.inr (.inl ⟨hresets, hjump.trans (congrArg some hcurrent.symm)⟩))
  · dsimp only [Option.getD_some, DrumCore.landing] at hcurrent
    split_ifs at hcurrent
    · exact .inr (.inr (.inr ⟨hadvances, hcurrent⟩))
    · exact .inl hcurrent
  · exact .inl hcurrent

theorem completes_of_lands (hpos : 0 < drum.core.steps)
    (h : drum.core.Lands driven ((drum.move? id enabled ctx).getD (.jumpTo 1)) ctx next)
    (hbefore : ctx.readBool drum.core.completion = false)
    (hafter : next.readBool drum.core.completion = true) :
    drum.Advances id enabled ctx ∧ drum.core.currentStep ctx = drum.core.steps := by
  have hflag := h.readBool_completion
  rw [hbefore, hafter] at hflag
  obtain ⟨-, hmove⟩ | ⟨step, -, -, hmove⟩ | ⟨hadvances, hmove⟩ |
    ⟨-, -, -, hmove⟩ :=
    drum.move?_cases id enabled ctx <;> rw [hmove] at hflag
  · cases hflag
  · cases hflag
  · refine ⟨hadvances, ?_⟩
    have hstep := (DrumCore.isStep_iff _).mp (DrumCore.isStep_currentStep hpos ctx)
    dsimp only [Option.getD_some, DrumCore.flag?] at hflag
    split_ifs at hflag
    · cases hflag
    · omega
  · cases hflag

theorem clears_of_lands
    (h : drum.core.Lands driven ((drum.move? id enabled ctx).getD (.jumpTo 1)) ctx next)
    (hbefore : ctx.readBool drum.core.completion = true)
    (hafter : next.readBool drum.core.completion = false) :
    drum.core.resets ctx = true ∨ (drum.core.jump? id enabled ctx).isSome = true := by
  have hflag := h.readBool_completion
  rw [hbefore, hafter] at hflag
  obtain ⟨hresets, -⟩ | ⟨step, -, hjump, -⟩ | ⟨-, hmove⟩ | ⟨-, -, -, hmove⟩ :=
    drum.move?_cases id enabled ctx
  · exact .inl hresets
  · exact .inr (Option.isSome_iff_exists.mpr ⟨step, hjump⟩)
  · rw [hmove] at hflag
    dsimp only [Option.getD_some, DrumCore.flag?] at hflag
    split_ifs at hflag <;> cases hflag
  · rw [hmove] at hflag
    cases hflag

end Landed

/-- In every context one execution leaves a step in the step tag, changes step and completion only
for a cause, and shows the row of the step that results unless it is disabled. -/
theorem execute_turns (hchecked : drum.operation.Checked) (hnames : (drum.tags.map Tag.name).Nodup)
    (hfaults : ∀ f : Fault,
      f.tagName ≠ drum.core.step.name ∧ f.tagName ≠ drum.core.completion.name)
    (id : InstructionId) (enabled : Bool) (ctx : ScanContext) :
    drum.Turns id enabled ctx (drum.execute id enabled ctx) := by
  have hcore : drum.core.Checked := by
    cases drum with
    | event drum => exact hchecked.1
    | time drum => exact hchecked.1
  have hpos := (DrumCore.types_of_checked hcore).2.2.2
  have hlands := execute_lands hcore (apart_of_nodup hnames hfaults) id enabled ctx
  have hin := inside_move? hpos id enabled ctx
  have hcurrent := hlands.currentStep_eq hpos hin
  have hafter : drum.core.isStep (drum.core.currentStep (drum.execute id enabled ctx)) = true := by
    rw [hcurrent]
    exact DrumCore.isStep_landing (DrumCore.isStep_currentStep hpos ctx) hin
  have houtputs : (drum.core.outputs.map Tag.name).Nodup := by
    unfold tags at hnames
    rw [List.map_append] at hnames
    exact (List.nodup_append.mp hnames).1
  refine ⟨?_, hafter, changes_of_lands hpos hlands, completes_of_lands hpos hlands,
    clears_of_lands hlands, fun hcause => ⟨_, DrumCore.pattern_row hafter, ?_⟩,
    fun hoff hresets => hlands.untouched (Bool.or_eq_false_iff.mpr ⟨hoff, hresets⟩)⟩
  · rw [hcurrent]
    exact hlands.step
  · rw [hcurrent]
    exact hlands.outputs (Bool.or_eq_true_iff.mpr hcause) houtputs

end Drum

/-! A jump to a step that does not exist raises the fault of values out of range. -/

namespace Sample

def position : Tag := .ofType .int "Step"

def finished : Tag := .ofType .bool "Done"

def valve : Tag := .ofType .bool "Valve"

def faultFlag : Tag := Fault.outOfRange.tag

/-- An INT tag under the name of the fault. -/
def faultPosition : Tag := .ofType .int faultFlag.name

/-- Two steps, with a jump that leads nowhere. -/
def press (output step completion : Tag) : EventDrum :=
  ⟨⟨[output], [[true], [false]], step, completion, none,
      some (.bit (.ofType .bool "Go"), .literal (.int 9)), none⟩,
    [.bit (.ofType .bool "First"), .bit (.ofType .bool "Second")]⟩

def station : Drum := .event (press valve position finished)

/-- The completion is the flag of a fault. -/
def faultCompleted : Drum := .event (press valve position faultFlag)

/-- The step has the name of a fault. -/
def faultStepped : Drum := .event (press valve faultPosition finished)

/-- The jump condition is on. -/
def going : ScanContext := .start (.ofTags (.ofEntries [("Go", .bool true)])) ∅

def goingInSecond : ScanContext := going.write faultPosition (.int 2)

end Sample

theorem Drum.execute_turns_sample : Sample.station.operation.Checked ∧
    Sample.station.Turns 3 true Sample.going (Sample.station.execute 3 true Sample.going) := by
  have hchecked : Sample.station.operation.Checked := ⟨rfl, rfl⟩
  have hnames : (Sample.station.tags.map Tag.name).Nodup := by decide
  refine ⟨hchecked, execute_turns hchecked hnames (fun f => ?_) 3 true Sample.going⟩
  cases f <;> decide

/-- Where the completion is the flag of a fault, the fault completes the drum in its first step;
where the step has its name, the fault takes the drum from the second step to the first. -/
theorem Drum.exists_turn_by_fault :
    (Sample.faultCompleted.operation.Checked ∧ (Sample.faultCompleted.tags.map Tag.name).Nodup ∧
      ¬ Sample.faultCompleted.Turns 3 true Sample.going
        (Sample.faultCompleted.execute 3 true Sample.going)) ∧
    (Sample.faultStepped.operation.Checked ∧ (Sample.faultStepped.tags.map Tag.name).Nodup ∧
      ¬ Sample.faultStepped.Turns 3 true Sample.goingInSecond
        (Sample.faultStepped.execute 3 true Sample.goingInSecond)) := by
  refine ⟨⟨⟨rfl, rfl⟩, by decide, fun h => ?_⟩, ⟨⟨rfl, rfl⟩, by decide, fun h => ?_⟩⟩
  · obtain ⟨-, hlast⟩ := h.completes rfl rfl
    revert hlast
    decide
  · rcases h.changes with hstep | ⟨hresets, -⟩ | ⟨-, hjump⟩ | ⟨-, hstep⟩
    · revert hstep
      decide
    · cases hresets
    · cases hjump
    · revert hstep
      decide

end LadderLogic
