import LadderLogic.Proofs.Scan.Change

/-!
Instructions as their checked constructors let them through, and what the checks say about the types
of their tags.
-/

set_option autoImplicit false

namespace LadderLogic

def DrumCore.Checked (drum : DrumCore) : Prop :=
  DrumCore.make drum.outputs drum.pattern drum.step drum.completion =
    .ok { drum with reset := none, jump := none, jog := none }

namespace Operation

/-- The checked constructor lets the operation through. -/
def Checked : Operation → Prop
  | out op => Out.make op.target = .ok op
  | latch op => Latch.make op.target = .ok op
  | reset op => Reset.make op.target = .ok op
  | copy op => SingleCopy.make op.source op.target op.conversion = .ok op
  | blockCopy op => BlockCopy.make op.source op.target op.conversion = .ok op
  | fill op => Fill.make op.value op.target = .ok op
  | calculate op => Calc.make op.expression op.target = .ok { op with hex := false }
  | onDelay op =>
    OnDelay.make op.done op.accumulator op.preset op.unit = .ok { op with reset := none }
  | offDelay op => OffDelay.make op.done op.accumulator op.preset op.unit = .ok op
  | countUp op =>
    CountUp.make op.done op.accumulator op.preset = .ok { op with down := none, reset := none }
  | countDown op => CountDown.make op.done op.accumulator op.preset = .ok { op with reset := none }
  | shift op => Shift.make op.range op.clock = .ok { op with reset := none }
  | eventDrum op => op.core.Checked ∧ EventDrum.make op.core op.events = .ok op
  | timeDrum op => op.core.Checked ∧ TimeDrum.make op.core op.presets op.unit op.accumulator = .ok op
  | search op =>
    Search.make op.range op.pattern op.result op.found = .ok { op with continuous := false }
  | packBits op => PackBits.make op.bits op.target = .ok op
  | packWords op => PackWords.make op.words op.target = .ok op
  | unpackToBits op => UnpackToBits.make op.source op.bits = .ok op
  | unpackToWords op => UnpackToWords.make op.source op.words = .ok op
  | packText op => PackText.make op.source op.target = .ok op
  | callSubroutine _ | leaveSubroutine | runFunction _ | runEnabledFunction _ => True

/-- The numbers that a search or a drum reports are in the domain of the tag that receives them. -/
def ReportsFit : Operation → Prop
  | search op => ∀ a, op.range.HasAddress a → op.result.type.Holds (.int a)
  | eventDrum op => op.core.step.type.Holds (.int op.core.steps)
  | timeDrum op => op.core.step.type.Holds (.int op.core.steps)
  | _ => True

/-- The numbers that a search or a drum reports. -/
def Reports : Operation → Int → Prop
  | search op, i => op.range.HasAddress i
  | eventDrum op, i => i = op.core.steps
  | timeDrum op, i => i = op.core.steps
  | _, _ => False

/-- The defaults of the tags that an operation writes and the numbers that it reports are words. -/
structure InWords (op : Operation) : Prop where
  initials : ∀ t, op.Targets t → t.initial.Fits
  reports : ∀ i, op.Reports i → Integer.Fits i

/-- The expression whose value a CALC stores. -/
def calculated? : Operation → Option Expression
  | calculate op => some op.expression
  | _ => none

/-- A checked operation whose numbers fit. -/
structure WellFormed (op : Operation) : Prop where
  checked : op.Checked
  reports : op.ReportsFit
  literals : ∀ e, op.calculated? = some e → e.LiteralsFit

end Operation

/-- The types cover the tags that an operation writes and the operands it calculates with. What is
only compared, copied or counted against may hold anything. -/
structure Typing.Covers (Γ : Typing) (op : Operation) : Prop where
  targets : ∀ t, op.Targets t → Γ.Has t
  operands : ∀ e, op.calculated? = some e → ∀ t, e.Mentions t → Γ.Has t

/-- A well-formed operation in a context that respects its types. -/
def Operation.Sound (op : Operation) (ctx : ScanContext) : Prop :=
  op.WellFormed ∧ ∃ Γ : Typing, Γ.Covers op ∧ Γ.TypesContext ctx

theorem Operation.Sound.covered {op : Operation} {ctx : ScanContext} (h : op.Sound ctx) :
    Covered op.Targets ctx := by
  obtain ⟨-, Γ, hcover, htypes⟩ := h
  exact ⟨Γ, hcover.targets, htypes⟩

theorem TagType.mem_of_expect {t : TagType} {allowed : List TagType} {expected name : String}
    {u : Unit} (h : t.expect allowed expected name = .ok u) : t ∈ allowed := by
  unfold expect at h
  split at h
  · assumption
  · cases h

theorem Tag.type_of_expectBool {t : Tag} {u : Unit} (h : t.expectBool = .ok u) :
    t.type = .bool :=
  List.mem_singleton.mp (TagType.mem_of_expect h)

theorem Tag.type_of_expectCounter {t : Tag} {u : Unit} (h : t.expectCounter = .ok u) :
    t.type ∈ [.int, .dint] :=
  TagType.mem_of_expect h

theorem RangeRef.type_of_expectBool {r : RangeRef} {u : Unit}
    (h : r.expect [.bool] "BOOL" = .ok u) : r.type = .bool :=
  List.mem_singleton.mp (TagType.mem_of_expect h)

theorem CoilTarget.type_of_expectBool {target : CoilTarget} {u : Unit}
    (h : target.expectBool = .ok u) {t : Tag} (ht : target.HasCell t) : t.type = .bool := by
  cases target with
  | tag v =>
    obtain rfl := ht
    exact Tag.type_of_expectBool h
  | range r => exact (RangeRef.type_eq_of_hasCell ht).trans (RangeRef.type_of_expectBool h)

/-- A copy into a range writes text. -/
theorem SingleCopy.type_of_make {source : CopySource} {target : RangeRef}
    {conversion : Option Conversion} {copy : SingleCopy}
    (h : make source (.range target) conversion = .ok copy) : target.type = .char := by
  unfold make at h
  split at h
  case isFalse => cases h
  case isTrue hvalid =>
    unfold isValid at hvalid
    split at hvalid <;> simp_all [CopyTarget.type]

theorem Calc.isNumeric_of_make {expression : Expression} {target : TagRef} {c : Calc}
    (h : make expression target = .ok c) : target.type.isNumeric = true := by
  obtain ⟨_, hexpect, _⟩ := bind_eq_ok.mp h
  have hmem := TagType.mem_of_expect hexpect
  revert hmem
  cases target.type <;> decide

/-- Timers and counters check a tag that is switched and one that counts, one after the other. -/
theorem Tag.types_of_expects {counter switch : Tag} {rest : Except LadderError Unit} {u : Unit}
    (h : (switch.expectBool >>= fun _ => counter.expectCounter >>= fun _ => rest) = .ok u) :
    switch.type = .bool ∧ counter.type ∈ [.int, .dint] := by
  obtain ⟨_, hswitch, h⟩ := bind_eq_ok.mp h
  obtain ⟨_, hcounter, _⟩ := bind_eq_ok.mp h
  exact ⟨type_of_expectBool hswitch, type_of_expectCounter hcounter⟩

theorem Timer.types_of_check {done accumulator : Tag} {preset : Expression} {u : Unit}
    (h : check done accumulator preset = .ok u) :
    done.type = .bool ∧ accumulator.type ∈ [.int, .dint] :=
  Tag.types_of_expects h

theorem Counter.types_of_check {done accumulator : Tag} {preset : Expression} {u : Unit}
    (h : check done accumulator preset = .ok u) :
    done.type = .bool ∧ accumulator.type ∈ [.int, .dint] :=
  Tag.types_of_expects h

/-- What the checks of a drum say: BOOL outputs and completion, a step that counts, and at least one
step. -/
theorem DrumCore.types_of_checked {drum : DrumCore} (h : drum.Checked) :
    (∀ t ∈ drum.outputs, t.type = .bool) ∧ drum.step.type ∈ [.int, .dint] ∧
      drum.completion.type = .bool ∧ 0 < drum.steps := by
  unfold Checked make at h
  split at h
  case isTrue => cases h
  case isFalse hempty =>
    obtain ⟨_, houtputs, h⟩ := bind_eq_ok.mp h
    obtain ⟨_, _, h⟩ := bind_eq_ok.mp h
    obtain ⟨_, hstep, h⟩ := bind_eq_ok.mp h
    obtain ⟨_, hcompletion, _⟩ := bind_eq_ok.mp h
    refine ⟨fun t ht => Tag.type_of_expectBool (eq_ok_of_forM houtputs t ht),
      Tag.type_of_expectCounter hstep, Tag.type_of_expectBool hcompletion, ?_⟩
    exact List.length_pos_of_ne_nil (by simpa using hempty)

theorem TimeDrum.type_of_make {core : DrumCore} {presets : List Expression} {unit : TimeUnit}
    {accumulator : Tag} {drum : TimeDrum} (h : make core presets unit accumulator = .ok drum) :
    accumulator.type ∈ [.int, .dint] := by
  unfold make at h
  dsimp only at h
  by_cases hlen : presets.length ≠ core.steps
  · rw [if_pos hlen] at h
    cases h
  · rw [if_neg hlen] at h
    split at h
    case isTrue => cases h
    case isFalse =>
      obtain ⟨_, hacc, _⟩ := bind_eq_ok.mp h
      exact Tag.type_of_expectCounter hacc

theorem Search.types_of_make {range : RangeRef} {pattern : SearchPattern} {result found : Tag}
    {search : Search} (h : make range pattern result found = .ok search) :
    result.type ∈ [.int, .dint] ∧ found.type = .bool := by
  obtain ⟨_, hresult, h⟩ := bind_eq_ok.mp h
  obtain ⟨_, hfound, _⟩ := bind_eq_ok.mp h
  exact ⟨Tag.type_of_expectCounter hresult, Tag.type_of_expectBool hfound⟩

end LadderLogic
