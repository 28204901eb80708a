import LadderLogic.Proofs.Machine.Counter
import LadderLogic.Proofs.Machine.Drum
import LadderLogic.Proofs.Machine.Store
import LadderLogic.Proofs.Machine.Words
import LadderLogic.Proofs.Scan.Words

/-!
Operations in guarded steps. A checked operation whose numbers are words does on a machine what it
does in a scan, whatever the state holds, so a counter that overflows is the one accident of an
operation. It overflows for one of two causes: its accumulator holds a value outside its type, or it
counts down against the least integer.
-/

set_option autoImplicit false

namespace LadderLogic

open Machine

section Operands

mutual

/-- The expressions that a condition evaluates. -/
def Condition.operands : Condition → List Expression
  | compare _ _ right => [right]
  | compareIndirect _ _ pointer right => [pointer, right]
  | compareExpressions _ left right => [left, right]
  | all cs => operandsOfAll cs
  | any cs => operandsOfAll cs
  | bit _ | normallyClosed _ | nonzero _ | compareText _ _ _ | risingEdge _ | fallingEdge _ => []

def Condition.operandsOfAll : List Condition → List Expression
  | [] => []
  | c :: cs => c.operands ++ operandsOfAll cs

end

def TagRef.operands : TagRef → List Expression
  | direct _ => []
  | indirect _ pointer => [pointer]

def RangeRef.operands : RangeRef → List Expression
  | direct _ => []
  | indirect _ first last _ => [first, last]

def CoilTarget.operands : CoilTarget → List Expression
  | tag _ => []
  | range r => r.operands

def CopySource.operands : CopySource → List Expression
  | value e => [e]
  | range r => r.operands

def CopyTarget.operands : CopyTarget → List Expression
  | tag t => t.operands
  | range r => r.operands

def SearchPattern.operands : SearchPattern → List Expression
  | number _ value => [value]
  | text _ _ => []

def Bindings.operands (b : Bindings) : List Expression :=
  b.inputs.map Prod.snd ++ b.outputs.flatMap fun output => output.2.operands

def DrumCore.operands (drum : DrumCore) : List Expression := drum.jump.toList.map Prod.snd

/-- The expressions that an operation evaluates itself; its conditions have their own. -/
def Operation.operands : Operation → List Expression
  | out op => op.target.operands
  | latch op => op.target.operands
  | reset op => op.target.operands
  | copy op => op.source.operands ++ op.target.operands
  | blockCopy op => op.source.operands ++ op.target.operands
  | fill op => op.value :: op.target.operands
  | calculate op => op.expression :: op.target.operands
  | onDelay op => [op.preset]
  | offDelay op => [op.preset]
  | countUp op => [op.preset]
  | countDown op => [op.preset]
  | shift op => op.range.operands
  | eventDrum op => op.core.operands
  | timeDrum op => op.core.operands ++ op.presets
  | search op => op.range.operands ++ op.pattern.operands
  | packBits op => op.bits.operands ++ op.target.operands
  | packWords op => op.words.operands ++ op.target.operands
  | unpackToBits op => op.source.operands ++ op.bits.operands
  | unpackToWords op => op.source.operands ++ op.words.operands
  | packText op => op.source.operands ++ op.target.operands
  | callSubroutine _ => []
  | leaveSubroutine => []
  | runFunction op => op.bindings.operands
  | runEnabledFunction op => op.bindings.operands

def Instruction.operands : Instruction → List Expression
  | single _ _ op => op.operands
  | loop _ _ head _ => [head.count]

/-- An instruction of the program or a condition in one of its rungs evaluates the expression. -/
def Program.HasOperand (p : Program) (e : Expression) : Prop :=
  (∃ i ∈ p.instructions, e ∈ i.operands) ∨
    ∃ r ∈ p.allRungs, ∃ c, r.HasCondition c ∧ e ∈ c.operands

end Operands

namespace Operation

/-- An operation in guarded steps. Coils drive cells and a FILL gives a value to each of its cells,
timers saturate, text is read under checks of its own, and a RETURN and host functions calculate
nothing: none of these has a guard. What a CALL runs has its own. -/
def executeGuarded (op : Operation) (subroutines : Subroutines) (id : InstructionId)
    (enabled : Bool) (ctx : ScanContext) : Machine Outcome :=
  match op with
  | copy op => op.executeGuarded ctx
  | blockCopy op => op.executeGuarded ctx
  | calculate op => ScanContext.proceed <$> op.executeGuarded ctx
  | countUp op => ScanContext.proceed <$> op.executeGuarded enabled ctx
  | countDown op => ScanContext.proceed <$> op.executeGuarded enabled ctx
  | shift op => op.executeGuarded id enabled ctx
  | eventDrum op => ScanContext.proceed <$> op.executeGuarded id enabled ctx
  | timeDrum op => ScanContext.proceed <$> op.executeGuarded id enabled ctx
  | search op => op.executeGuarded ctx
  | packBits op => op.executeGuarded ctx
  | packWords op => op.executeGuarded ctx
  | unpackToBits op => op.executeGuarded ctx
  | unpackToWords op => op.executeGuarded ctx
  | callSubroutine name => (subroutines name ctx).onMachine
  | out op => return op.execute enabled ctx
  | latch op => return op.execute ctx
  | reset op => return op.execute ctx
  | fill op => return op.execute ctx
  | onDelay op => return (op.execute enabled ctx).proceed
  | offDelay op => return (op.execute enabled ctx).proceed
  | packText op => return op.execute ctx
  | leaveSubroutine => return ctx.leave
  | runFunction op => return (op.execute ctx).proceed
  | runEnabledFunction op => return (op.execute enabled ctx).proceed

/-- Counters overflow themselves, and a CALL overflows with what it runs. -/
def mayOverflow : Operation → Bool
  | countUp _ | countDown _ | callSubroutine _ => true
  | _ => false

section Guarded

variable {op : Operation} {enabled : Bool} {ctx : ScanContext} {exact : Int}

theorem mayOverflow_of_overflows (h : op.Overflows enabled ctx exact) : op.mayOverflow = true := by
  cases op with
  | countUp op => rfl
  | countDown op => rfl
  | _ => exact h.elim

theorem onMachine_of_safe (h : op.mayOverflow = false) (subroutines : Subroutines)
    (id : InstructionId) :
    (op.execute subroutines id enabled ctx).onMachine =
      .ok (op.execute subroutines id enabled ctx) := by
  have hcall : ∀ name, op ≠ .callSubroutine name := by
    rintro name rfl
    cases h
  refine Outcome.onMachine_of_ne fun exact hexit => ?_
  have hoverflows := (op.exit_eq_overflow_iff hcall subroutines id enabled ctx exact).mp hexit
  exact Bool.false_ne_true (h.symm.trans (mayOverflow_of_overflows hoverflows))

end Guarded

end Operation

section Lengths

theorem EventDrum.length_of_make {core : DrumCore} {events : List Condition} {drum : EventDrum}
    (h : make core events = .ok drum) : events.length = core.steps := by
  unfold make at h
  split at h
  · assumption
  · cases h

theorem TimeDrum.length_of_make {core : DrumCore} {presets : List Expression} {unit : TimeUnit}
    {accumulator : Tag} {drum : TimeDrum} (h : make core presets unit accumulator = .ok drum) :
    presets.length = core.steps := by
  by_contra hlength
  unfold make at h
  dsimp only at h
  rw [if_pos hlength] at h
  cases h

end Lengths

namespace Operation

/-- On a machine a checked operation does what it does in a scan, in every context. -/
theorem executeGuarded_eq {op : Operation} (hchecked : op.Checked) (hwords : op.InWords)
    (subroutines : Subroutines) (id : InstructionId) (enabled : Bool) (ctx : ScanContext) :
    op.executeGuarded subroutines id enabled ctx =
      (op.execute subroutines id enabled ctx).onMachine := by
  cases op with
  | countUp op => exact op.executeGuarded_eq enabled ctx
  | countDown op => exact op.executeGuarded_eq enabled ctx
  | callSubroutine name => rfl
  | eventDrum op =>
    have hsteps : op.core.Countable :=
      ⟨(DrumCore.types_of_checked hchecked.1).2.2.2, hwords.reports _ rfl⟩
    rw [onMachine_of_safe rfl, executeGuarded,
      op.executeGuarded_eq hsteps (EventDrum.length_of_make hchecked.2)]
    rfl
  | timeDrum op =>
    have hsteps : op.core.Countable :=
      ⟨(DrumCore.types_of_checked hchecked.1).2.2.2, hwords.reports _ rfl⟩
    rw [onMachine_of_safe rfl, executeGuarded,
      op.executeGuarded_eq hsteps (TimeDrum.length_of_make hchecked.2)]
    rfl
  | search op =>
    have htext : ∀ cmp text, op.pattern = .text cmp text → text.toList ≠ [] :=
      fun _ _ => Search.text_ne_nil_of_make hchecked
    rw [onMachine_of_safe rfl]
    exact Search.executeGuarded_eq htext ctx
  | calculate op =>
    rw [onMachine_of_safe rfl, executeGuarded, op.executeGuarded_eq ctx]
    rfl
  | copy op =>
    rw [onMachine_of_safe rfl]
    exact op.executeGuarded_eq ctx
  | blockCopy op =>
    rw [onMachine_of_safe rfl]
    exact op.executeGuarded_eq ctx
  | shift op =>
    rw [onMachine_of_safe rfl]
    exact op.executeGuarded_eq _ enabled ctx
  | packBits op =>
    rw [onMachine_of_safe rfl]
    exact op.executeGuarded_eq ctx
  | packWords op =>
    rw [onMachine_of_safe rfl]
    exact op.executeGuarded_eq ctx
  | unpackToBits op =>
    rw [onMachine_of_safe rfl]
    exact op.executeGuarded_eq ctx
  | unpackToWords op =>
    rw [onMachine_of_safe rfl]
    exact op.executeGuarded_eq ctx
  | out _ | latch _ | reset _ | fill _ | onDelay _ | offDelay _ | packText _ | leaveSubroutine
  | runFunction _ | runEnabledFunction _ =>
    rw [onMachine_of_safe rfl]
    rfl

end Operation

/-! Why a counter overflows. -/

section Causes

variable {enabled : Bool} {ctx : ScanContext} {exact : Int}

/-- The accumulator counts outside the domain of its type. -/
def Counter.Astray (accumulator : Tag) (ctx : ScanContext) : Prop :=
  ¬accumulator.type.Holds (.int (ctx.readInt accumulator))

/-- The counter runs against a preset that has no negative. -/
def CountDown.NegatesLeast (counter : CountDown) (enabled : Bool) (ctx : ScanContext) : Prop :=
  counter.preset? enabled ctx = some Integer.least

/-- What makes an operation overflow with the exact result. -/
def Operation.OverflowCause (op : Operation) (enabled : Bool) (ctx : ScanContext)
    (exact : Int) : Prop :=
  match op with
  | countUp op => Counter.Astray op.accumulator ctx
  | countDown op =>
    Counter.Astray op.accumulator ctx ∨ op.NegatesLeast enabled ctx ∧ exact = -Integer.least
  | _ => False

theorem CountDown.preset_fits {counter : CountDown} (hwords : (Operation.countDown counter).InWords)
    (hpreset : counter.preset.InWords) (hctx : ctx.InWords) {i : Int}
    (h : counter.preset? enabled ctx = some i) : Integer.Fits i := by
  have hmoved := hctx.becomes hwords (counter.moved_becomes 0 enabled ctx)
  unfold preset? at h
  split at h
  case h_1 mid hmid =>
    rw [hmid] at hmoved
    exact hpreset.preset_fits hmoved h
  case h_2 => cases h

theorem CountDown.cause_of_overflows {counter : CountDown}
    (htype : counter.accumulator.type ∈ [.int, .dint])
    (hfits : ∀ i, counter.preset? enabled ctx = some i → Integer.Fits i)
    (h : counter.Overflows enabled ctx exact) :
    Counter.Astray counter.accumulator ctx ∨
      counter.NegatesLeast enabled ctx ∧ exact = -Integer.least := by
  obtain ⟨-, houtside, ⟨-, rfl⟩ | ⟨preset, hpreset, rfl⟩⟩ := h
  · have hdelta : (-1 : Int).natAbs ≤ 1 := by decide
    exact .inl fun hholds => houtside (TagType.fits_add_of_counter htype hholds hdelta)
  · have hleast : preset = Integer.least := by
      by_contra hne
      exact houtside ((Integer.neg_fits_iff (hfits preset hpreset)).mpr hne)
    subst hleast
    exact .inr ⟨hpreset, rfl⟩

/-- A checked operation on words overflows only for one of the causes. -/
theorem Operation.cause_of_overflows {op : Operation} (hchecked : op.Checked) (hwords : op.InWords)
    (hoperands : ∀ e ∈ op.operands, e.InWords) (hctx : ctx.InWords)
    (h : op.Overflows enabled ctx exact) : op.OverflowCause enabled ctx exact := by
  cases op with
  | countUp op =>
    obtain ⟨_, hcheck, _⟩ := bind_eq_ok.mp hchecked
    exact CountUp.not_holds_of_overflows (Counter.types_of_check hcheck).2 h
  | countDown op =>
    obtain ⟨_, hcheck, _⟩ := bind_eq_ok.mp hchecked
    refine CountDown.cause_of_overflows (Counter.types_of_check hcheck).2 (fun i hi => ?_) h
    exact CountDown.preset_fits hwords (hoperands _ (List.mem_singleton_self _)) hctx hi
  | _ => exact h.elim

/-- In a context that respects the types an accumulator is in the domain of its type, so the one
cause that is left is the least integer as a preset. -/
theorem Operation.negatesLeast_of_sound {op : Operation} (hsound : op.Sound ctx)
    (h : op.OverflowCause enabled ctx exact) :
    ∃ counter, op = .countDown counter ∧ counter.NegatesLeast enabled ctx ∧
      exact = -Integer.least := by
  cases op with
  | countUp counter =>
    exact absurd (hsound.covered.holds_readInt (counter.mayTally ctx).count hsound) h
  | countDown counter =>
    rcases h with hastray | ⟨hleast, rfl⟩
    · exact absurd (hsound.covered.holds_readInt (counter.mayTally ctx).count hsound) hastray
    · exact ⟨counter, rfl, hleast, rfl⟩
  | _ => exact h.elim

end Causes

end LadderLogic
