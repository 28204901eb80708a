import LadderLogic.Proofs.Effect.Timer
import LadderLogic.Proofs.Instruction.Exits
import LadderLogic.Proofs.Machine.Outcome

/-!
Counters in guarded steps. A counter moves by at most one, so an accumulator in the domain of its
type is never at the edge of the words. A counter that counts down also negates its preset, and the
least integer has no negative: that is the one accident of a counter whose accumulator is in its
domain.
-/

set_option autoImplicit false

namespace LadderLogic

open Machine

theorem Integer.neg_fits_iff {i : Int} (h : Fits i) : Fits (-i) ↔ i ≠ least := by
  obtain ⟨hlow, hhigh⟩ := h
  unfold least at hlow ⊢
  unfold greatest at hhigh
  unfold Fits least greatest
  omega

/-- A preset that has a value raises no fault. -/
theorem Expression.preset_eq_of_some {e : Expression} {ctx : ScanContext} {i : Int}
    (h : (e.preset ctx).1 = some i) : e.preset ctx = (some i, ctx) := by
  unfold preset at h ⊢
  cases hv : e.evaluate ctx with
  | error fault =>
    rw [hv] at h
    cases h
  | ok v =>
    rw [hv] at h
    exact congrArg (·, ctx) h

theorem ScanContext.readBool_write (ctx : ScanContext) (t : Tag) (b : Bool) :
    (ctx.write t (.bool b)).readBool t = b := by
  unfold readBool read getTag write
  rw [tag?_setTag, if_pos rfl]
  rfl

theorem ScanContext.readBool_write_decide (ctx : ScanContext) (t : Tag) (holds : Prop)
    [Decidable holds] : (ctx.write t (.bool (decide holds))).readBool t = true ↔ holds := by
  rw [readBool_write, decide_eq_true_iff]

/-- One more or one less than the count of an accumulator is a word. -/
theorem TagType.fits_add_of_counter {t : TagType} (ht : t ∈ [.int, .dint]) {count delta : Int}
    (h : t.Holds (.int count)) (hdelta : delta.natAbs ≤ 1) : Integer.Fits (count + delta) := by
  refine Integer.fits_of_small ?_
  simp only [List.mem_cons, List.not_mem_nil, or_false] at ht
  rcases ht with rfl | rfl <;> simp only [Holds] at h <;> omega

namespace Counter

variable {ctx : ScanContext}

theorem onPreset_of_some {preset : Expression} {i : Int} (h : (preset.preset ctx).1 = some i)
    (next : Int → ScanContext → Outcome) : onPreset preset ctx next = next i ctx := by
  unfold onPreset
  rw [Expression.preset_eq_of_some h]

theorem move_of_fits {accumulator : Tag} {delta : Int}
    (h : Integer.Fits (ctx.readInt accumulator + delta)) :
    move accumulator delta ctx =
      (store accumulator (ctx.readInt accumulator + delta) ctx).proceed :=
  ctx.onWord_of_fits h _

def moveGuarded (accumulator : Tag) (delta : Int) (ctx : ScanContext) : Machine ScanContext := do
  let count ← word (ctx.readInt accumulator + delta)
  return store accumulator count ctx

def onPresetGuarded (preset : Expression) (ctx : ScanContext)
    (next : Int → ScanContext → Machine ScanContext) : Machine ScanContext :=
  match preset.preset ctx with
  | (none, ctx) => return ctx
  | (some preset, ctx) => next preset ctx

theorem moveGuarded_eq (accumulator : Tag) (delta : Int) (ctx : ScanContext) :
    ScanContext.proceed <$> moveGuarded accumulator delta ctx =
      (move accumulator delta ctx).onMachine :=
  ScanContext.onWord_onMachine fun _ => rfl

theorem onPresetGuarded_eq {guarded : Int → ScanContext → Machine ScanContext}
    {next : Int → ScanContext → Outcome}
    (h : ∀ i mid, ScanContext.proceed <$> guarded i mid = (next i mid).onMachine)
    (preset : Expression) (ctx : ScanContext) :
    ScanContext.proceed <$> onPresetGuarded preset ctx guarded =
      (onPreset preset ctx next).onMachine := by
  unfold onPresetGuarded onPreset
  generalize preset.preset ctx = result
  obtain ⟨value, mid⟩ := result
  cases value with
  | none => rfl
  | some i => exact h i mid

end Counter

namespace CountUp

def finishGuarded (counter : CountUp) (ctx : ScanContext) : Machine ScanContext :=
  Counter.onPresetGuarded counter.preset ctx fun preset ctx =>
    return ctx.write counter.done (.bool (preset ≤ ctx.readInt counter.accumulator))

def executeGuarded (counter : CountUp) (enabled : Bool) (ctx : ScanContext) :
    Machine ScanContext := do
  if Condition.optionHolds ctx counter.reset then
    return Counter.clear counter.done counter.accumulator ctx
  let ctx ← Counter.moveGuarded counter.accumulator (counter.delta enabled ctx) ctx
  counter.finishGuarded ctx

theorem natAbs_delta_le (counter : CountUp) (enabled : Bool) (ctx : ScanContext) :
    (counter.delta enabled ctx).natAbs ≤ 1 := by
  unfold delta
  split_ifs <;> decide

theorem executeGuarded_eq (counter : CountUp) (enabled : Bool) (ctx : ScanContext) :
    ScanContext.proceed <$> counter.executeGuarded enabled ctx =
      (counter.execute enabled ctx).onMachine := by
  unfold executeGuarded execute
  by_cases hreset : Condition.optionHolds ctx counter.reset = true
  · rw [if_pos hreset, if_pos hreset]
    rfl
  · rw [if_neg hreset, if_neg hreset]
    refine Outcome.onMachine_andThen (Counter.moveGuarded_eq _ _ ctx) fun mid => ?_
    exact Counter.onPresetGuarded_eq (fun _ _ => rfl) counter.preset mid

/-- A count that overflows was not in the domain of its accumulator. -/
theorem not_holds_of_overflows {counter : CountUp} {enabled : Bool} {ctx : ScanContext}
    {exact : Int} (htype : counter.accumulator.type ∈ [.int, .dint])
    (h : counter.Overflows enabled ctx exact) :
    ¬counter.accumulator.type.Holds (.int (ctx.readInt counter.accumulator)) := by
  intro hholds
  refine h.outside ?_
  rw [h.count]
  exact TagType.fits_add_of_counter htype hholds (counter.natAbs_delta_le enabled ctx)

end CountUp

namespace CountDown

def movedGuarded (counter : CountDown) (enabled : Bool) (ctx : ScanContext) :
    Machine ScanContext :=
  if enabled then Counter.moveGuarded counter.accumulator (-1) ctx else return ctx

def finishGuarded (counter : CountDown) (ctx : ScanContext) : Machine ScanContext :=
  Counter.onPresetGuarded counter.preset ctx fun preset ctx => do
    let bound ← word (-preset)
    return ctx.write counter.done (.bool (ctx.readInt counter.accumulator ≤ bound))

def executeGuarded (counter : CountDown) (enabled : Bool) (ctx : ScanContext) :
    Machine ScanContext := do
  if Condition.optionHolds ctx counter.reset then
    return Counter.clear counter.done counter.accumulator ctx
  let ctx ← counter.movedGuarded enabled ctx
  counter.finishGuarded ctx

theorem movedGuarded_eq (counter : CountDown) (enabled : Bool) (ctx : ScanContext) :
    ScanContext.proceed <$> counter.movedGuarded enabled ctx =
      (counter.moved enabled ctx).onMachine := by
  cases enabled with
  | true => exact Counter.moveGuarded_eq counter.accumulator (-1) ctx
  | false => rfl

theorem executeGuarded_eq (counter : CountDown) (enabled : Bool) (ctx : ScanContext) :
    ScanContext.proceed <$> counter.executeGuarded enabled ctx =
      (counter.execute enabled ctx).onMachine := by
  unfold executeGuarded execute
  by_cases hreset : Condition.optionHolds ctx counter.reset = true
  · rw [if_pos hreset, if_pos hreset]
    rfl
  · rw [if_neg hreset, if_neg hreset]
    refine Outcome.onMachine_andThen (counter.movedGuarded_eq enabled ctx) fun mid => ?_
    refine Counter.onPresetGuarded_eq (fun preset last => ?_) counter.preset mid
    exact ScanContext.onWord_onMachine fun _ => rfl

end CountDown

end LadderLogic
