import LadderLogic.Proofs.Drum.Turn

/-!
Event drums over a run of executions. The flag that a drum keeps in memory stands for a fact of the
history: since the last move the event of the current step has been seen off. So an event that has
been on since before the step began advances nothing.
-/

set_option autoImplicit false

namespace LadderLogic

/-- One execution: whether it is enabled, and the context from which it starts. -/
structure Turn where
  enabled : Bool
  context : ScanContext

namespace DrumCore

/-- The step has become the next one or, in the last step, the drum has been completed. -/
def Advanced (drum : DrumCore) (ctx next : ScanContext) : Prop :=
  drum.currentStep ctx < drum.steps ∧
      next.tag? drum.step.name = some (.int (drum.currentStep ctx + 1)) ∨
    drum.currentStep ctx = drum.steps ∧ ctx.readBool drum.completion = false ∧
      next.readBool drum.completion = true

instance (drum : DrumCore) (ctx next : ScanContext) : Decidable (drum.Advanced ctx next) :=
  inferInstanceAs (Decidable (_ ∨ _))

section Advanced

variable {drum : DrumCore} {driven : Bool} {ctx next : ScanContext}

theorem advanced_of_lands (hpos : 0 < drum.steps) (h : drum.Lands driven .advance ctx next)
    (hoff : ctx.readBool drum.completion = false) : drum.Advanced ctx next := by
  obtain ⟨-, hhigh⟩ := (isStep_iff _).mp (isStep_currentStep hpos ctx)
  have hstep := h.step
  have hflag := h.readBool_completion
  dsimp only [landing, flag?] at hstep hflag
  by_cases hless : drum.currentStep ctx < drum.steps
  · rw [if_pos hless] at hstep
    exact .inl ⟨hless, hstep⟩
  · rw [if_neg hless] at hflag
    exact .inr ⟨by omega, hoff, hflag⟩

theorem not_advanced_of_restart (hpos : 0 < drum.steps)
    (h : drum.Lands driven (.jumpTo 1) ctx next) : ¬ drum.Advanced ctx next := by
  obtain ⟨hlow, -⟩ := (isStep_iff _).mp (isStep_currentStep hpos ctx)
  rintro (⟨-, hnext⟩ | ⟨-, -, hon⟩)
  · have hstep := Option.some.inj (h.step.symm.trans hnext)
    simp only [landing, Value.int.injEq] at hstep
    omega
  · cases h.readBool_completion.symm.trans hon

theorem not_advanced_of_lands (h : drum.Lands driven .stay ctx next) :
    ¬ drum.Advanced ctx next := by
  rintro (⟨-, hnext⟩ | ⟨-, hoff, hon⟩)
  · have hstep := Option.some.inj (h.step.symm.trans hnext)
    simp only [landing, Value.int.injEq] at hstep
    omega
  · have hflag := h.readBool_completion
    rw [hoff, hon] at hflag
    cases hflag

end Advanced

/-- From one context to the next nothing has changed what the drum keeps. -/
structure LeftAlone (drum : DrumCore) (id : InstructionId) (ctx next : ScanContext) : Prop where
  step : next.tag? drum.step.name = ctx.tag? drum.step.name
  completion : next.tag? drum.completion.name = ctx.tag? drum.completion.name
  keeps : ∀ key, Keeps id key → next.memory? key = ctx.memory? key

namespace LeftAlone

variable {drum : DrumCore} {id : InstructionId} {ctx next : ScanContext}

theorem currentStep (h : drum.LeftAlone id ctx next) :
    drum.currentStep next = drum.currentStep ctx :=
  currentStep_congr h.step

theorem readBool (h : drum.LeftAlone id ctx next) :
    next.readBool drum.completion = ctx.readBool drum.completion :=
  ScanContext.readBool_congr h.completion

theorem armed (h : drum.LeftAlone id ctx next) :
    next.memoryBool (armedKey id) = ctx.memoryBool (armedKey id) :=
  ScanContext.memoryBool_congr (h.keeps _ (.inl rfl))

theorem write {t : Tag} (hstep : t.name ≠ drum.step.name)
    (hcompletion : t.name ≠ drum.completion.name) (v : Value) :
    drum.LeftAlone id ctx (ctx.write t v) :=
  ⟨ScanContext.tag?_write_of_ne hstep v, ScanContext.tag?_write_of_ne hcompletion v,
    fun _ _ => rfl⟩

theorem trans {last : ScanContext} (h : drum.LeftAlone id ctx next)
    (k : drum.LeftAlone id next last) : drum.LeftAlone id ctx last :=
  ⟨k.step.trans h.step, k.completion.trans h.completion,
    fun key hkey => (k.keeps key hkey).trans (h.keeps key hkey)⟩

end LeftAlone

end DrumCore

namespace EventDrum

def after (drum : EventDrum) (id : InstructionId) (t : Turn) : ScanContext :=
  drum.execute id t.enabled t.context

/-- Executions one after the other, the last one apart. The first is not armed, and in between only
the drum changes what it keeps. -/
inductive Run (drum : EventDrum) (id : InstructionId) : List Turn → Turn → Prop
  | start (t : Turn) : t.context.memoryBool (DrumCore.armedKey id) = false → Run drum id [] t
  | next {earlier : List Turn} {last : Turn} (t : Turn) : Run drum id earlier last →
    drum.core.LeftAlone id (drum.after id last) t.context → Run drum id (earlier ++ [last]) t

/-- Whether the event of a step is on where an enabled drum looks at it, which is after the fault of
a jump that was refused. -/
def sees (drum : EventDrum) (id : InstructionId) (step : Int) (ctx : ScanContext) : Bool :=
  drum.event step (drum.core.begin id true ctx).2

/-- A reset, an accepted jump, a jog or an advance. -/
def Moves (drum : EventDrum) (id : InstructionId) (t : Turn) : Prop :=
  drum.core.resets t.context = true ∨
    (drum.core.jump? id t.enabled t.context).isSome = true ∨
    drum.core.jogs id t.enabled t.context = true ∨
    drum.core.Advanced t.context (drum.after id t)

instance (drum : EventDrum) (id : InstructionId) (t : Turn) : Decidable (drum.Moves id t) :=
  inferInstanceAs (Decidable (_ ∨ _))

/-- Since the last move there was an enabled execution at which the event of the step was off. -/
def SeenOff (drum : EventDrum) (id : InstructionId) (step : Int) (earlier : List Turn) : Prop :=
  ∃ before m later, earlier = before ++ m :: later ∧ (∀ k ∈ m :: later, ¬ drum.Moves id k) ∧
    m.enabled = true ∧ drum.sees id step m.context = false

/-- What events do in an execution after others. While neither reset nor jump nor jog takes it, an
enabled drum advances on an event that is on and has been seen off, and else stays where it is. A
disabled drum never advances. -/
structure Waits (drum : EventDrum) (id : InstructionId) (earlier : List Turn) (now : Turn) :
    Prop where
  advances : now.enabled = true → now.context.readBool drum.core.completion = false →
    drum.core.resets now.context = false → drum.core.jump? id now.enabled now.context = none →
    drum.core.jogs id now.enabled now.context = false →
      (drum.core.Advanced now.context (drum.after id now) ↔
        drum.sees id (drum.core.currentStep now.context) now.context = true ∧
          drum.SeenOff id (drum.core.currentStep now.context) earlier)
  stays : drum.core.resets now.context = false →
    drum.core.jump? id now.enabled now.context = none →
    drum.core.jogs id now.enabled now.context = false →
    ¬ drum.core.Advanced now.context (drum.after id now) →
      (drum.after id now).tag? drum.core.step.name =
          some (.int (drum.core.currentStep now.context)) ∧
        (drum.after id now).tag? drum.core.completion.name =
          now.context.tag? drum.core.completion.name
  disabled : now.enabled = false → ¬ drum.core.Advanced now.context (drum.after id now)

variable {drum : EventDrum} {id : InstructionId} {enabled : Bool} {ctx : ScanContext}

theorem not_seenOff_nil (step : Int) : ¬ drum.SeenOff id step [] := by
  rintro ⟨before, m, later, heq, -⟩
  simp at heq

/-- A move forgets what was seen; otherwise the last execution has seen the event off, or an earlier
one has. -/
theorem seenOff_snoc {step : Int} {earlier : List Turn} {last : Turn} :
    drum.SeenOff id step (earlier ++ [last]) ↔ ¬ drum.Moves id last ∧
      (last.enabled = true ∧ drum.sees id step last.context = false ∨
        drum.SeenOff id step earlier) := by
  constructor
  · rintro ⟨before, m, later, heq, hstill, hoff⟩
    rcases List.eq_nil_or_concat later with rfl | ⟨init, k, rfl⟩
    · obtain ⟨-, hlast⟩ := List.append_inj' heq rfl
      obtain rfl := List.singleton_inj.mp hlast
      exact ⟨hstill last List.mem_cons_self, .inl hoff⟩
    · rw [List.concat_eq_append] at heq hstill
      rw [← List.cons_append, ← List.append_assoc] at heq
      obtain ⟨hearlier, hlast⟩ := List.append_inj' heq rfl
      obtain rfl := List.singleton_inj.mp hlast
      have hsplit : ∀ j ∈ m :: init, ¬ drum.Moves id j := fun j hj =>
        hstill j (List.mem_append_left [last] hj)
      exact ⟨hstill last (by simp), .inr ⟨before, m, init, hearlier, hsplit, hoff⟩⟩
  · rintro ⟨hlast, hoff | ⟨before, m, later, rfl, hstill, hoff⟩⟩
    · exact ⟨earlier, last, [], rfl, by simpa using hlast, hoff⟩
    · refine ⟨before, m, later ++ [last], by simp, ?_, hoff⟩
      intro k hk
      rw [← List.cons_append] at hk
      rcases List.mem_append.mp hk with hk | hk
      · exact hstill k hk
      · rw [List.mem_singleton.mp hk]
        exact hlast

theorem apart_event (h : drum.core.Apart) : (Drum.event drum).Apart := ⟨h, nofun⟩

/-- What the conditions of a drum have done to the context in which it looks at its step. -/
theorem begin_reads (hapart : drum.core.Apart) (hresets : drum.core.resets ctx = false)
    (id : InstructionId) (enabled : Bool) :
    drum.core.currentStep (drum.core.begin id enabled ctx).2 = drum.core.currentStep ctx ∧
      (drum.core.begin id enabled ctx).2.readBool drum.core.completion =
        ctx.readBool drum.core.completion ∧
      (drum.core.begin id enabled ctx).2.memoryBool (DrumCore.armedKey id) =
        ctx.memoryBool (DrumCore.armedKey id) := by
  have hbegin : ctx.Becomes (Permit (fun _ => False) (DrumCore.IsEdgeKey id) False
      False)
      (drum.core.begin id enabled ctx).2 :=
    DrumCore.begin_keeps (fun _ hkey => hkey) hresets enabled
  have hstep := hbegin.tag?_eq (fun f => (hapart.faults f).1) nofun
  have hcompletion := hbegin.tag?_eq (fun f => (hapart.faults f).2) nofun
  exact ⟨DrumCore.currentStep_congr hstep, ScanContext.readBool_congr hcompletion,
    ScanContext.memoryBool_congr (hbegin.memory?_eq (DrumCore.not_isEdgeKey_armedKey id))⟩

/-- A drum whose jump does not rise looks at its event in the context from which it starts. -/
theorem sees_eq_event (hresets : drum.core.resets ctx = false)
    (hjump : DrumCore.rises (drum.core.jump.map Prod.fst) (DrumCore.jumpKey id) ctx = false)
    (step : Int) : drum.sees id step ctx = drum.event step ctx := by
  have hbegin : (drum.core.begin id true ctx).2 = drum.core.afterEdges id ctx := by
    rw [DrumCore.begin_eq, hresets, hjump]
    rfl
  unfold sees event
  rw [hbegin]
  exact Condition.optionHolds_congr (DrumCore.afterEdges_sameView drum.core id ctx) _

/-- A step is due when its event is on and the drum armed. -/
theorem due_eq (hapart : drum.core.Apart) (hresets : drum.core.resets ctx = false)
    (id : InstructionId) :
    (Drum.event drum).due id ctx =
      (drum.sees id (drum.core.currentStep ctx) ctx &&
        ctx.memoryBool (DrumCore.armedKey id)) := by
  obtain ⟨hstep, -, harmed⟩ := begin_reads hapart hresets id true
  have hwatch : drum.watch id (drum.core.begin id true ctx).2 =
      if drum.sees id (drum.core.currentStep ctx) ctx then
        (if ctx.memoryBool (DrumCore.armedKey id) then .advance else .stay,
          (drum.core.begin id true ctx).2)
      else (.stay,
        (drum.core.begin id true ctx).2.setMemory (DrumCore.armedKey id) (.bool true)) := by
    unfold watch sees
    rw [hstep, harmed]
  change ((drum.watch id (drum.core.begin id true ctx).2).1 == .advance) = _
  rw [hwatch]
  cases drum.sees id (drum.core.currentStep ctx) ctx <;>
    cases ctx.memoryBool (DrumCore.armedKey id) <;> rfl

theorem execute_of_resets (h : drum.core.resets ctx = true) (id : InstructionId) (enabled : Bool) :
    drum.execute id enabled ctx = drum.core.restart id (drum.core.afterEdges id ctx) :=
  Drum.execute_of_resets (show (Drum.event drum).core.resets ctx = true from h) enabled

/-- A look at an event that is off arms the drum. -/
theorem watch_armed (id : InstructionId) (mid : ScanContext) :
    (drum.watch id mid).2.memoryBool (DrumCore.armedKey id) =
      (mid.memoryBool (DrumCore.armedKey id) ||
        !drum.event (drum.core.currentStep mid) mid) := by
  unfold watch
  cases drum.event (drum.core.currentStep mid) mid with
  | true => exact (Bool.or_false _).symm
  | false =>
    exact (ScanContext.memoryBool_setMemory mid _ true _).trans
      ((if_pos rfl).trans (Bool.or_true _).symm)

/-- A reset, like every other move, leaves the drum disarmed. -/
theorem armed_of_move (hapart : drum.core.Apart)
    (h : (Drum.event drum).move? id enabled ctx ≠ some .stay) :
    (drum.execute id enabled ctx).memoryBool (DrumCore.armedKey id) = false := by
  cases hasked : (Drum.event drum).core.request id enabled ctx with
  | none =>
    rw [execute_of_resets (Drum.resets_of_request hasked)]
    exact DrumCore.restart_armed drum.core id _
  | some asked =>
    have hmove := Drum.move?_of_request (apart_event hapart) hasked
    have hexecute := Drum.execute_of_request hasked
    change drum.execute id enabled ctx = drum.core.finish id enabled _ _ at hexecute
    rw [hexecute, DrumCore.finish_armed, if_neg]
    intro hstay
    exact h (hmove.trans (congrArg some hstay))

/-- Without a move the drum stays armed, or is armed by the look at an event that is off. -/
theorem armed_of_stay (hapart : drum.core.Apart)
    (h : (Drum.event drum).move? id enabled ctx = some .stay) :
    (drum.execute id enabled ctx).memoryBool (DrumCore.armedKey id) =
      (ctx.memoryBool (DrumCore.armedKey id) ||
        enabled && !ctx.readBool drum.core.completion &&
          !drum.sees id (drum.core.currentStep ctx) ctx) := by
  cases hasked : (Drum.event drum).core.request id enabled ctx with
  | none =>
    unfold Drum.move? at h
    rw [hasked] at h
    cases h
  | some asked =>
    have hresets : drum.core.resets ctx = false := Drum.resets_of_request hasked
    have hmove := Drum.move?_of_request (apart_event hapart) hasked
    have hexecute := Drum.execute_of_request hasked
    change drum.execute id enabled ctx = drum.core.finish id enabled _ _ at hexecute
    rw [hexecute, DrumCore.finish_armed, if_pos (Option.some.inj (hmove.symm.trans h))]
    obtain ⟨hstep, hcompletion, harmed⟩ := begin_reads hapart hresets id enabled
    have hstay : asked = .stay := by
      by_contra hother
      have hidle : (Drum.event drum).core.isWaiting enabled asked
          ((Drum.event drum).core.begin id enabled ctx).2 = false := by
        simp [DrumCore.isWaiting, hother]
      have hnext := Option.some.inj (hmove.symm.trans h)
      unfold Drum.next at hnext
      simp only [hidle, Bool.false_eq_true, if_false] at hnext
      exact hother hnext
    subst hstay
    have hwait : (Drum.event drum).core.isWaiting enabled .stay
        ((Drum.event drum).core.begin id enabled ctx).2 =
        (enabled && !ctx.readBool drum.core.completion) := by
      simp only [DrumCore.isWaiting, Drum.core, decide_true, Bool.and_true, hcompletion]
    unfold Drum.next
    dsimp only
    rw [hwait]
    cases enabled with
    | false => exact harmed.trans (Bool.or_false _).symm
    | true =>
      cases ctx.readBool drum.core.completion with
      | true => exact harmed.trans (Bool.or_false _).symm
      | false =>
        refine (watch_armed id (drum.core.begin id true ctx).2).trans ?_
        rw [harmed, hstep]
        rfl

theorem lands (hchecked : drum.core.Checked) (hapart : drum.core.Apart) (id : InstructionId)
    (t : Turn) :
    drum.core.Lands (t.enabled || drum.core.resets t.context)
      (((Drum.event drum).move? id t.enabled t.context).getD (.jumpTo 1)) t.context
      (drum.after id t) :=
  Drum.execute_lands (show (Drum.event drum).core.Checked from hchecked) (apart_event hapart) id
    t.enabled t.context

/-- An execution moves the drum exactly if its move is not to stay. -/
theorem moves_iff (hchecked : drum.core.Checked) (hapart : drum.core.Apart) (id : InstructionId)
    (t : Turn) :
    drum.Moves id t ↔ (Drum.event drum).move? id t.enabled t.context ≠ some .stay := by
  have hpos := (DrumCore.types_of_checked hchecked).2.2.2
  have hlands := lands hchecked hapart id t
  obtain ⟨hresets, hmove⟩ | ⟨step, -, hjump, hmove⟩ | ⟨hadvances, hmove⟩ |
    ⟨hresets, hjump, hstill, hmove⟩ := (Drum.event drum).move?_cases id t.enabled t.context <;>
    rw [hmove] at hlands ⊢
  · exact iff_of_true (.inl hresets) nofun
  · exact iff_of_true (.inr (.inl (Option.isSome_iff_exists.mpr ⟨step, hjump⟩))) nofun
  · refine iff_of_true ?_ nofun
    rcases hadvances.cause with hjogs | ⟨hoff, -⟩
    · exact .inr (.inr (.inl hjogs))
    · exact .inr (.inr (.inr (DrumCore.advanced_of_lands hpos hlands hoff)))
  · refine iff_of_false ?_ (fun h => h rfl)
    rintro (h | h | h | h)
    · exact Bool.false_ne_true (hresets.symm.trans h)
    · rw [show drum.core.jump? id t.enabled t.context = none from hjump] at h
      cases h
    · exact hstill ⟨(Bool.and_eq_true_iff.mp h).1, hresets, hjump, .inl h⟩
    · exact DrumCore.not_advanced_of_lands hlands h

/-- While a drum is not completed its flag says whether the event of its step has been seen off. -/
theorem Run.armed_iff (hchecked : drum.core.Checked) (hapart : drum.core.Apart)
    {earlier : List Turn} {now : Turn} (h : drum.Run id earlier now)
    (hoff : now.context.readBool drum.core.completion = false) :
    now.context.memoryBool (DrumCore.armedKey id) = true ↔
      drum.SeenOff id (drum.core.currentStep now.context) earlier := by
  induction h with
  | start t harmed =>
    rw [harmed]
    exact iff_of_false Bool.false_ne_true (not_seenOff_nil _)
  | @next earlier last t _ halone ih =>
    have hmoves := moves_iff hchecked hapart id last
    rw [halone.armed, halone.currentStep, seenOff_snoc]
    by_cases hmove : (Drum.event drum).move? id last.enabled last.context = some .stay
    · have hlands := lands hchecked hapart id last
      rw [hmove] at hlands
      have hpos := (DrumCore.types_of_checked hchecked).2.2.2
      have hcurrent := hlands.currentStep_eq hpos DrumCore.inside_stay
      have hbefore : last.context.readBool drum.core.completion = false :=
        hlands.readBool_completion.symm.trans (halone.readBool.symm.trans hoff)
      change drum.core.currentStep (drum.after id last) = drum.core.currentStep last.context
        at hcurrent
      have harmed := armed_of_stay hapart hmove
      change (drum.after id last).memoryBool _ = _ at harmed
      rw [hcurrent, harmed, hbefore, Bool.or_eq_true, ih hbefore]
      simp only [hmoves, hmove, ne_eq, not_true_eq_false, not_false_eq_true, true_and,
        Bool.not_false, Bool.and_true, Bool.and_eq_true, Bool.not_eq_true']
      exact or_comm
    · have harmed := armed_of_move hapart hmove
      change (drum.after id last).memoryBool _ = _ at harmed
      rw [harmed]
      exact iff_of_false Bool.false_ne_true fun h => h.1 (hmoves.mpr hmove)

/-- A step that is due has an event that is on and has been seen off. -/
theorem Run.due_iff (hchecked : drum.core.Checked) (hapart : drum.core.Apart)
    {earlier : List Turn} {now : Turn} (h : drum.Run id earlier now)
    (hresets : drum.core.resets now.context = false)
    (hoff : now.context.readBool drum.core.completion = false) :
    (Drum.event drum).due id now.context = true ↔
      drum.sees id (drum.core.currentStep now.context) now.context = true ∧
        drum.SeenOff id (drum.core.currentStep now.context) earlier := by
  rw [due_eq hapart hresets, Bool.and_eq_true, h.armed_iff hchecked hapart hoff]

/-- The law of events along every run of executions. -/
theorem Run.waits (hchecked : (Operation.eventDrum drum).Checked) (hapart : drum.core.Apart)
    {earlier : List Turn} {now : Turn} (h : drum.Run id earlier now) :
    drum.Waits id earlier now := by
  have hpos := (DrumCore.types_of_checked hchecked.1).2.2.2
  have hlands := lands hchecked.1 hapart id now
  obtain ⟨hreset, hmove⟩ | ⟨step, -, hjump, -⟩ | ⟨hadvances, hmove⟩ | ⟨-, -, hstill, hmove⟩ :=
    (Drum.event drum).move?_cases id now.enabled now.context
  case inl =>
    rw [hmove] at hlands
    have hreset : drum.core.resets now.context = true := hreset
    exact ⟨by simp [hreset], by simp [hreset],
      fun _ => DrumCore.not_advanced_of_restart hpos hlands⟩
  case inr.inl =>
    have hjump : drum.core.jump? id now.enabled now.context = some step := hjump
    refine ⟨by simp [hjump], by simp [hjump], fun hdisabled => ?_⟩
    rw [hdisabled] at hjump
    cases hjump
  case inr.inr.inl =>
    rw [hmove] at hlands
    have hadvanced : drum.core.jogs id now.enabled now.context = false →
        (now.context.readBool drum.core.completion = false ∧
            (Drum.event drum).due id now.context = true) ∧
          drum.core.Advanced now.context (drum.after id now) := by
      intro hjogs
      rcases hadvances.cause with hcause | hdue
      · exact absurd (hjogs.symm.trans hcause) Bool.false_ne_true
      · exact ⟨hdue, DrumCore.advanced_of_lands hpos hlands hdue.1⟩
    refine ⟨fun _ hoff hresets _ hjogs => ?_, fun _ _ hjogs hnot => ?_, fun hdisabled => ?_⟩
    · obtain ⟨hdue, hadvanced⟩ := hadvanced hjogs
      exact iff_of_true hadvanced ((h.due_iff hchecked.1 hapart hresets hoff).mp hdue.2)
    · exact absurd (hadvanced hjogs).2 hnot
    · exact absurd (hdisabled.symm.trans hadvances.ungated) Bool.false_ne_true
  case inr.inr.inr =>
    rw [hmove] at hlands
    have hnot := DrumCore.not_advanced_of_lands hlands
    refine ⟨fun henabled hoff hresets hjump hjogs => ?_,
      fun _ _ _ _ => ⟨hlands.step, hlands.completion⟩, fun _ => hnot⟩
    refine iff_of_false hnot fun hseen => hstill ⟨henabled, hresets, hjump, .inr ⟨hoff, ?_⟩⟩
    exact (h.due_iff hchecked.1 hapart hresets hoff).mpr hseen

end EventDrum

/-! A part comes after the first execution of a drum, and its event goes on. -/

namespace Sample

def firstPart : Tag := .ofType .bool "First"

def secondPart : Tag := .ofType .bool "Second"

def goAhead : Tag := .ofType .bool "Go"

def pressing : EventDrum := press valve position finished

/-- An INT tag under the name of the first cell of a block of bits. -/
def cellStep : Tag := .ofType .int "C1"

/-- The step has the name of an output. -/
def drivenStep : EventDrum := press (.ofType .bool "C1") cellStep finished

/-- One step, which has the name of the completion. -/
def completingStep : EventDrum :=
  ⟨⟨[valve], [[true]], cellStep, .ofType .bool "C1", none, none, none⟩, [.bit firstPart]⟩

def faultCompleting : EventDrum := press valve position faultFlag

def faultStepping : EventDrum := press valve faultPosition finished

/-- An enabled execution with some tags written. -/
def firstTurn (tags : List (String × Value)) : Turn := ⟨true, .start (.ofTags (.ofEntries tags)) ∅⟩

def arrival (drum : EventDrum) : Turn :=
  ⟨true, (drum.after 3 (firstTurn [])).write firstPart (.bool true)⟩

def inSecond : Turn := firstTurn [(faultPosition.name, .int 2)]

/-- The second part comes together with a jump that is refused. -/
def refusal : Turn :=
  ⟨true, ((faultStepping.after 3 inSecond).write goAhead (.bool true)).write secondPart
    (.bool true)⟩

theorem run_arrival {drum : EventDrum} (hstep : firstPart.name ≠ drum.core.step.name)
    (hcompletion : firstPart.name ≠ drum.core.completion.name) :
    drum.Run 3 [firstTurn []] (arrival drum) :=
  .next _ (.start _ rfl) (.write hstep hcompletion _)

end Sample

theorem EventDrum.Run.waits_sample :
    Sample.pressing.Run 3 [Sample.firstTurn []] (Sample.arrival Sample.pressing) ∧
      Sample.pressing.Waits 3 [Sample.firstTurn []] (Sample.arrival Sample.pressing) ∧
      (Sample.pressing.after 3 (Sample.arrival Sample.pressing)).tag? "Step" = some (.int 2) := by
  have hrun : Sample.pressing.Run 3 [Sample.firstTurn []] (Sample.arrival Sample.pressing) :=
    Sample.run_arrival (by decide) (by decide)
  have hchecked : (Operation.eventDrum Sample.pressing).Checked := ⟨rfl, rfl⟩
  have hapart : Sample.pressing.core.Apart :=
    ⟨by decide, by decide, fun f => by cases f <;> decide⟩
  exact ⟨hrun, Run.waits hchecked hapart hrun, rfl⟩

/-- An accepted drum, whose completion is no output, does not follow the law of events. -/
structure EventDrum.Breaks (drum : EventDrum) (id : InstructionId) (earlier : List Turn)
    (now : Turn) : Prop where
  checked : (Operation.eventDrum drum).Checked
  outputs : ∀ t ∈ drum.core.outputs, t.name ≠ drum.core.completion.name
  run : drum.Run id earlier now
  breaks : ¬ drum.Waits id earlier now

/-- The law fails for a step that an output overwrites, for a step that is the completion, for a
completion that a fault sets, and for a step that a fault overwrites. -/
theorem EventDrum.exists_run_by_shared_name :
    Sample.drivenStep.Breaks 3 [Sample.firstTurn []] (Sample.arrival Sample.drivenStep) ∧
    Sample.completingStep.Breaks 3 [] (Sample.firstTurn []) ∧
    Sample.faultCompleting.Breaks 3 [] (Sample.firstTurn [("Go", .bool true), ("Step", .int 2)]) ∧
    Sample.faultStepping.Breaks 3 [Sample.inSecond] Sample.refusal := by
  have harrival : Sample.drivenStep.Run 3 [Sample.firstTurn []]
      (Sample.arrival Sample.drivenStep) := Sample.run_arrival (by decide) (by decide)
  have hrefusal : Sample.faultStepping.Run 3 [Sample.inSecond] Sample.refusal :=
    .next _ (.start _ rfl) ((DrumCore.LeftAlone.write (by decide) (by decide) _).trans
      (.write (by decide) (by decide) _))
  refine ⟨⟨⟨rfl, rfl⟩, by decide, harrival, fun h => ?_⟩,
    ⟨⟨rfl, rfl⟩, by decide, .start _ rfl, fun h => ?_⟩,
    ⟨⟨rfl, rfl⟩, by decide, .start _ rfl, fun h => ?_⟩,
    ⟨⟨rfl, rfl⟩, by decide, hrefusal, fun h => ?_⟩⟩
  -- The event has been seen off and is on, but the output hides the step that follows.
  · have hadvances := h.advances rfl rfl rfl rfl rfl
    refine absurd (hadvances.mpr ⟨rfl, [], _, [], rfl, ?_, rfl, rfl⟩) (by decide)
    simp only [List.forall_mem_singleton]
    decide
  -- The event is off, and the drum is completed all the same.
  · have hadvances := h.advances rfl rfl rfl rfl rfl
    exact absurd (hadvances.mp (by decide)).1 (by decide)
  · have hadvances := h.advances rfl rfl rfl rfl rfl
    exact absurd (hadvances.mp (by decide)).1 (by decide)
  -- The event of the second step has been seen off and is on, but the drum looks at the first.
  · have hadvances := h.advances rfl rfl rfl rfl rfl
    refine absurd (hadvances.mpr ⟨rfl, [], _, [], rfl, ?_, rfl, rfl⟩) (by decide)
    simp only [List.forall_mem_singleton]
    decide

end LadderLogic
