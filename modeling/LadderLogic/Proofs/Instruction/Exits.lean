import LadderLogic.Proofs.Except
import LadderLogic.Proofs.Scan.Moments

/-!
How operations end. Data problems raise faults and let the flow go on, so the one error that an
operation meets by itself is a range whose bounds come in the wrong order. Besides, a counter
overflows if its count or its negated preset is no word.
-/

set_option autoImplicit false

namespace LadderLogic

/-- The bounds of a range were in the wrong order. -/
def LadderError.IsInverted (e : LadderError) : Prop :=
  ∃ block first last, e = .invalidRange block first last ∧ last < first

/-- The flow goes on, has failed for bounds in the wrong order, or overflows with one of the exact
results. -/
def Exit.IsPlain (overflows : Int → Prop) : Exit → Prop
  | .proceed => True
  | .leave => False
  | .fail (.error e) => e.IsInverted
  | .fail (.overflow exact) => overflows exact

theorem Exit.IsPlain.mono {overflows others : Int → Prop} {exit : Exit}
    (h : exit.IsPlain overflows) (hmono : ∀ exact, overflows exact → others exact) :
    exit.IsPlain others := by
  cases exit with
  | proceed => trivial
  | leave => exact h.elim
  | fail failure =>
    cases failure with
    | error e => exact h
    | overflow exact => exact hmono exact h

namespace Outcome

theorem andThen_of_proceed {o : Outcome} (h : o.exit = .proceed) (next : ScanContext → Outcome) :
    o.andThen next = next o.context := by
  obtain ⟨ctx, exit⟩ := o
  cases h
  rfl

theorem andThen_of_ne_proceed {o : Outcome} (h : o.exit ≠ .proceed)
    (next : ScanContext → Outcome) : o.andThen next = o := by
  obtain ⟨ctx, exit⟩ := o
  cases exit with
  | proceed => exact absurd rfl h
  | leave => rfl
  | fail e => rfl

end Outcome

theorem RangeRef.isInverted_of_resolve {r : RangeRef} {ctx : ScanContext} {e : LadderError}
    (h : r.resolve ctx = .error e) : e.IsInverted := by
  unfold resolve at h
  cases r with
  | direct range => cases h
  | indirect b first last reversed =>
    dsimp only at h
    split at h
    case h_1 i j hi hj =>
      unfold between at h
      split_ifs at h with hinverted
      cases h
      exact ⟨b.name, i, j, rfl, hinverted⟩
    case h_2 => cases h

section Plain

variable {overflows : Int → Prop}

theorem RangeRef.onCells_exit (r : RangeRef) (ctx : ScanContext) (next : BlockRange → ScanContext) :
    (r.onCells ctx next).exit.IsPlain overflows := by
  unfold onCells
  split
  case h_1 e he => exact isInverted_of_resolve he
  case h_2 => trivial
  case h_3 => trivial

theorem CoilTarget.drive_exit (target : CoilTarget) (value : Tag → Value) (ctx : ScanContext) :
    (target.drive value ctx).exit.IsPlain overflows := by
  cases target with
  | tag t => trivial
  | range r => exact r.onCells_exit ctx _

theorem ScanContext.perform_exit (ctx : ScanContext) {staged : Except LadderError Staged}
    (h : ∀ e, staged = .error e → e.IsInverted) :
    (ctx.perform staged).exit.IsPlain overflows := by
  cases staged with
  | ok staged => trivial
  | error e => exact h e rfl

theorem ScanContext.onWord_exit (ctx : ScanContext) {exact : Int} {next : Int → Outcome}
    (hnext : Integer.Fits exact → (next exact).exit.IsPlain overflows)
    (hexact : ¬Integer.Fits exact → overflows exact) :
    (ctx.onWord exact next).exit.IsPlain overflows := by
  unfold onWord Integer.checked
  split_ifs with hfits
  · exact hnext hfits
  · exact hexact hfits

end Plain

theorem SingleCopy.isInverted_of_stage {copy : SingleCopy} {ctx : ScanContext} {e : LadderError}
    (h : copy.stage ctx = .error e) : e.IsInverted := by
  unfold stage at h
  rcases bind_eq_error.mp h with h | ⟨value, hvalue, h⟩
  · unfold sourceValue at h
    split at h
    case h_1 => cases h
    case h_2 r hr => exact RangeRef.isInverted_of_resolve (map_eq_error.mp h)
  · split at h
    case h_1 => cases h
    case h_2 =>
      split at h
      case h_1 =>
        split at h
        case h_1 => cases h
        case h_2 => cases h
      case h_2 =>
        rcases bind_eq_error.mp h with h | ⟨cells, hcells, h⟩
        · exact RangeRef.isInverted_of_resolve h
        · cases cells with
          | some cells => cases h
          | none => cases h

theorem BlockCopy.isInverted_of_stage {copy : BlockCopy} {ctx : ScanContext} {e : LadderError}
    (h : copy.stage ctx = .error e) : e.IsInverted := by
  unfold stage at h
  rcases bind_eq_error.mp h with h | ⟨source, hsource, h⟩
  · exact RangeRef.isInverted_of_resolve h
  · cases source with
    | none => cases h
    | some source =>
      rcases bind_eq_error.mp h with h | ⟨target, htarget, h⟩
      · exact RangeRef.isInverted_of_resolve h
      · cases target with
        | none => cases h
        | some target => cases h

theorem Fill.isInverted_of_stage {fill : Fill} {ctx : ScanContext} {e : LadderError}
    (h : fill.stage ctx = .error e) : e.IsInverted := by
  unfold stage at h
  split at h
  case h_1 => cases h
  case h_2 => exact RangeRef.isInverted_of_resolve (map_eq_error.mp h)

/-! What overflows, in plain arithmetic. -/

/-- The counter is not reset, and its next count is no word. -/
structure CountUp.Overflows (counter : CountUp) (enabled : Bool) (ctx : ScanContext)
    (exact : Int) : Prop where
  running : Condition.optionHolds ctx counter.reset = false
  outside : ¬Integer.Fits exact
  count : exact = ctx.readInt counter.accumulator + counter.delta enabled ctx

/-- The preset of the counter, if the count is a word. -/
def CountDown.preset? (counter : CountDown) (enabled : Bool) (ctx : ScanContext) : Option Int :=
  match counter.moved enabled ctx with
  | ⟨mid, .proceed⟩ => (counter.preset.preset mid).1
  | _ => none

/-- The counter is not reset, and its next count or its negated preset is no word. -/
structure CountDown.Overflows (counter : CountDown) (enabled : Bool) (ctx : ScanContext)
    (exact : Int) : Prop where
  running : Condition.optionHolds ctx counter.reset = false
  outside : ¬Integer.Fits exact
  operand : (enabled = true ∧ exact = ctx.readInt counter.accumulator - 1) ∨
    ∃ preset, counter.preset? enabled ctx = some preset ∧ exact = -preset

/-- The operation meets an exact result that is no word. -/
def Operation.Overflows (op : Operation) (enabled : Bool) (ctx : ScanContext) (exact : Int) : Prop :=
  match op with
  | countUp op => op.Overflows enabled ctx exact
  | countDown op => op.Overflows enabled ctx exact
  | _ => False

/-- An operation that runs at the moment overflows. -/
def Moment.Overflows : Moment → Int → Prop
  | operate _ op enabled ctx, exact => op.Overflows enabled ctx exact
  | rung _ _, _ => False
  | reach _ _ _, _ => False

section Counters

variable {overflows : Int → Prop} {enabled : Bool} {ctx : ScanContext} {exact : Int}

theorem ScanContext.onWord_of_fits (ctx : ScanContext) (h : Integer.Fits exact)
    (next : Int → Outcome) : ctx.onWord exact next = next exact := by
  unfold onWord Integer.checked
  rw [if_pos h]

theorem ScanContext.onWord_of_not_fits (h : ¬Integer.Fits exact) (next : Int → Outcome) :
    ctx.onWord exact next = ctx.fail (.overflow exact) := by
  unfold onWord Integer.checked
  rw [if_neg h]

theorem Outcome.andThen_exit {o : Outcome} {next : ScanContext → Outcome}
    (h : o.exit.IsPlain overflows)
    (hnext : ∀ mid, o = mid.proceed → (next mid).exit.IsPlain overflows) :
    (o.andThen next).exit.IsPlain overflows := by
  obtain ⟨last, exit⟩ := o
  cases exit with
  | proceed => exact hnext last rfl
  | leave => exact h.elim
  | fail failure => exact h

theorem Counter.onPreset_exit {preset : Expression} {next : Int → ScanContext → Outcome}
    (hnext : ∀ i mid, (preset.preset ctx).1 = some i → (next i mid).exit.IsPlain overflows) :
    (onPreset preset ctx next).exit.IsPlain overflows := by
  unfold onPreset
  generalize preset.preset ctx = result at hnext
  obtain ⟨value, mid⟩ := result
  cases value with
  | none => trivial
  | some i => exact hnext i mid rfl

theorem CountUp.execute_exit (counter : CountUp) (enabled : Bool) (ctx : ScanContext) :
    (counter.execute enabled ctx).exit.IsPlain (counter.Overflows enabled ctx) := by
  unfold execute
  split_ifs with hreset
  · trivial
  · refine Outcome.andThen_exit (ctx.onWord_exit (fun _ => trivial) fun hfits => ?_) fun mid _ => ?_
    · exact ⟨Bool.eq_false_of_not_eq_true hreset, hfits, rfl⟩
    · exact Counter.onPreset_exit fun _ _ _ => trivial

theorem CountUp.exit_of_overflows {counter : CountUp} (h : counter.Overflows enabled ctx exact) :
    (counter.execute enabled ctx).exit = .fail (.overflow exact) := by
  obtain ⟨hrunning, houtside, rfl⟩ := h
  unfold execute Counter.move
  rw [hrunning, ScanContext.onWord_of_not_fits houtside]
  rfl

theorem CountDown.execute_exit (counter : CountDown) (enabled : Bool) (ctx : ScanContext) :
    (counter.execute enabled ctx).exit.IsPlain (counter.Overflows enabled ctx) := by
  unfold execute
  split_ifs with hreset
  · trivial
  have hrunning := Bool.eq_false_of_not_eq_true hreset
  refine Outcome.andThen_exit ?_ fun mid hmoved => ?_
  · unfold moved
    split_ifs with henabled
    · refine ctx.onWord_exit (fun _ => trivial) fun hfits => ⟨hrunning, hfits, .inl ⟨henabled, ?_⟩⟩
      exact (Int.sub_eq_add_neg).symm
    · trivial
  · refine Counter.onPreset_exit fun preset last hpreset => ?_
    refine last.onWord_exit (fun _ => trivial) fun hfits => ⟨hrunning, hfits, .inr ⟨preset, ?_, rfl⟩⟩
    unfold preset?
    rw [hmoved]
    exact hpreset

theorem CountDown.exit_of_overflows {counter : CountDown}
    (h : counter.Overflows enabled ctx exact) :
    (counter.execute enabled ctx).exit = .fail (.overflow exact) := by
  obtain ⟨hrunning, houtside, hoperand⟩ := h
  unfold execute
  rw [hrunning]
  rcases hoperand with ⟨rfl, rfl⟩ | ⟨preset, hpreset, rfl⟩
  · unfold moved Counter.move
    rw [Int.sub_eq_add_neg] at houtside ⊢
    simp only [Bool.false_eq_true, if_false, if_true, ScanContext.onWord_of_not_fits houtside]
    rfl
  · unfold preset? at hpreset
    split at hpreset
    case h_1 mid hmoved =>
      rw [hmoved]
      change (counter.finish mid).exit = _
      unfold finish Counter.onPreset
      generalize counter.preset.preset mid = result at hpreset
      obtain ⟨value, last⟩ := result
      obtain rfl : value = some preset := hpreset
      change (last.onWord (-preset) _).exit = _
      rw [ScanContext.onWord_of_not_fits houtside]
      rfl
    case h_2 => cases hpreset

end Counters

/-- An operation that is neither a CALL nor a RETURN goes on, has met inverted bounds, or
overflows. -/
theorem Operation.execute_exit (op : Operation) (hcall : ∀ name, op ≠ .callSubroutine name)
    (hleave : op ≠ .leaveSubroutine) (subroutines : Subroutines) (id : InstructionId)
    (enabled : Bool) (ctx : ScanContext) :
    (op.execute subroutines id enabled ctx).exit.IsPlain (op.Overflows enabled ctx) := by
  cases op with
  | out op => exact op.target.drive_exit _ ctx
  | latch op => exact op.target.drive_exit _ ctx
  | reset op => exact op.target.drive_exit _ ctx
  | copy op => exact ctx.perform_exit fun _ => SingleCopy.isInverted_of_stage
  | blockCopy op => exact ctx.perform_exit fun _ => BlockCopy.isInverted_of_stage
  | fill op => exact ctx.perform_exit fun _ => Fill.isInverted_of_stage
  | countUp op => exact op.execute_exit enabled ctx
  | countDown op => exact op.execute_exit enabled ctx
  | shift op => exact op.range.onCells_exit _ _
  | search op => exact op.range.onCells_exit ctx _
  | packBits op => exact op.bits.onCells_exit ctx _
  | packWords op => exact op.words.onCells_exit ctx _
  | unpackToBits op => exact op.bits.onCells_exit ctx _
  | unpackToWords op => exact op.words.onCells_exit ctx _
  | packText op => exact op.source.onCells_exit ctx _
  | callSubroutine name => exact absurd rfl (hcall name)
  | leaveSubroutine => exact absurd rfl hleave
  | calculate _ | onDelay _ | offDelay _ | eventDrum _ | timeDrum _ | runFunction _
  | runEnabledFunction _ => trivial

/-- An operation that is no CALL fails by an overflow exactly if it meets one. -/
theorem Operation.exit_eq_overflow_iff (op : Operation)
    (hcall : ∀ name, op ≠ .callSubroutine name) (subroutines : Subroutines) (id : InstructionId)
    (enabled : Bool) (ctx : ScanContext) (exact : Int) :
    (op.execute subroutines id enabled ctx).exit = .fail (.overflow exact) ↔
      op.Overflows enabled ctx exact := by
  constructor
  · intro hexit
    by_cases hleave : op = .leaveSubroutine
    · subst hleave
      cases hexit
    · have hplain := op.execute_exit hcall hleave subroutines id enabled ctx
      rwa [hexit] at hplain
  · intro h
    cases op with
    | countUp op => exact CountUp.exit_of_overflows h
    | countDown op => exact CountDown.exit_of_overflows h
    | _ => exact h.elim

end LadderLogic
