import LadderLogic.Proofs.Effect.Operation
import LadderLogic.Proofs.Lockstep.Context

/-!
Operations in contexts that are alike. They do the same on both sides: they drive the same cells,
stage the same writes, and raise the same faults.
-/

set_option autoImplicit false

namespace LadderLogic

section Cells

variable {targets : Tag → Prop} {a b c d : ScanContext}

theorem RangeRef.onCells_inStep {r : RangeRef} {next other : BlockRange → ScanContext}
    (h : a.InStep (Touch.Plain targets) b c d)
    (hnext : ∀ cells, (∀ u ∈ cells.tags, r.HasCell u) →
      a.InStep (Touch.Plain targets) b (next cells) (other cells)) :
    Outcome.InStep (Touch.Plain targets) a b (r.onCells c next) (r.onCells d other) := by
  unfold onCells
  rw [h.alike.cellsOf r]
  cases hcells : r.resolve d with
  | error e => exact h.fail (.error e)
  | ok resolved =>
    cases resolved with
    | none => exact (h.raise .addressError).proceed
    | some cells => exact (hnext cells (hasCell_of_resolve hcells)).proceed

theorem CoilTarget.drive_inStep (target : CoilTarget) (value : Tag → Value) (h : a.Alike b) :
    Outcome.InStep (Touch.Plain target.HasCell) a b (target.drive value a)
      (target.drive value b) := by
  have hstart : a.InStep (Touch.Plain target.HasCell) b a b := .start h
  cases target with
  | tag t => exact (hstart.write rfl (value t)).proceed
  | range r =>
    refine RangeRef.onCells_inStep hstart fun cells hcells => hstart.writeAll fun w hw => ?_
    obtain ⟨u, hu, rfl⟩ := List.mem_map.mp hw
    exact hcells u hu

theorem Pack.onPair_inStep {range : RangeRef} {ref : TagRef}
    {next other : BlockRange → Tag → ScanContext} (h : a.InStep (Touch.Plain targets) b c d)
    (hnext : ∀ cells t, (∀ u ∈ cells.tags, range.HasCell u) → ref.HasCell t →
      a.InStep (Touch.Plain targets) b (next cells t) (other cells t)) :
    Outcome.InStep (Touch.Plain targets) a b (onPair range ref c next)
      (onPair range ref d other) := by
  refine RangeRef.onCells_inStep h fun cells hcells => ?_
  rw [h.alike.tagOf ref]
  cases ht : ref.resolve d with
  | none => exact h.raise .addressError
  | some t => exact hnext cells t hcells (TagRef.hasCell_of_resolve ht)

theorem Pack.writePattern_inStep (h : a.InStep (Touch.Plain targets) b c d) {t : Tag}
    (ht : targets t) (bits : Nat) :
    a.InStep (Touch.Plain targets) b (writePattern c t bits) (writePattern d t bits) := by
  unfold writePattern
  cases t.type.valueOf bits with
  | none => exact h.raise .outOfRange
  | some v => exact h.write ht v

/-- Equal stages end in the same writes or in the same fault. -/
theorem ScanContext.perform_inStep {result : Except LadderError Staged} (h : a.Alike b)
    (hwrites : ∀ writes, result = .ok (.ok writes) → ∀ w ∈ writes, targets w.1) :
    Outcome.InStep (Touch.Plain targets) a b (a.perform result) (b.perform result) := by
  have hstart : a.InStep (Touch.Plain targets) b a b := .start h
  cases result with
  | error e => exact hstart.fail (.error e)
  | ok staged =>
    cases staged with
    | error fault => exact (hstart.raise fault).proceed
    | ok writes => exact (hstart.writeAll (hwrites writes rfl)).proceed

end Cells

section Operations

variable {a b : ScanContext}

theorem Shift.inStep (shift : Shift) (id : InstructionId) (enabled : Bool) (h : a.Alike b) :
    Outcome.InStep (Touch.Plain shift.range.HasCell) a b (shift.execute id enabled a)
      (shift.execute id enabled b) := by
  have hclock : a.InStep (Touch.Plain shift.range.HasCell) b
      (a.setMemory (clockKey id) (.bool (shift.clock.holds b)))
      (b.setMemory (clockKey id) (.bool (shift.clock.holds b))) :=
    ScanContext.InStep.setMemory (.start h) _ _
  unfold execute
  dsimp only
  rw [h.holds, h.memoryBool]
  refine RangeRef.onCells_inStep hclock fun cells hcells => ?_
  unfold apply
  rw [hclock.alike.optionHolds, hclock.alike.readBool]
  split_ifs
  · refine hclock.writeAll fun w hw => ?_
    obtain ⟨u, hu, rfl⟩ := List.mem_map.mp hw
    exact hcells u hu
  · exact hclock.writeAll fun w hw => hcells w.1 (List.of_mem_zip hw).1
  · exact hclock

theorem Search.inStep (search : Search) (h : a.Alike b) :
    Outcome.InStep (Touch.Plain (Operation.search search).Targets) a b (search.execute a)
      (search.execute b) := by
  have hstart : a.InStep (Touch.Plain (Operation.search search).Targets) b a b := .start h
  have hreport : ∀ found, a.InStep (Touch.Plain (Operation.search search).Targets) b
      (search.report found a) (search.report found b) :=
    fun found => (hstart.write (.inl rfl) _).write (.inr rfl) _
  have hhit : ∀ block addresses, search.hit block addresses a = search.hit block addresses b := by
    intro block addresses
    unfold hit
    simp only [h.evaluate, h.read]
  refine RangeRef.onCells_inStep hstart fun cells _ => ?_
  have hremaining : search.remaining? cells a = search.remaining? cells b := by
    unfold remaining?
    simp only [h.readInt]
  unfold run
  rw [hremaining]
  cases search.remaining? cells b with
  | none => exact hreport none
  | some addresses =>
    dsimp only
    rw [hhit]
    cases search.hit cells.block addresses b with
    | ok found => exact hreport found
    | error fault => exact hstart.raise fault

theorem SingleCopy.inStep (copy : SingleCopy) (h : a.Alike b) :
    Outcome.InStep (Touch.Plain copy.target.HasCell) a b (copy.execute a) (copy.execute b) := by
  have hstage : copy.stage a = copy.stage b := by
    unfold stage sourceValue
    simp only [h.evaluate, h.cellsOf, h.textOf, h.tagOf]
  unfold execute
  rw [hstage]
  exact ScanContext.perform_inStep h fun writes hwrites w hw => (stage_spec hwrites w hw).1

theorem BlockCopy.inStep (copy : BlockCopy) (h : a.Alike b) :
    Outcome.InStep (Touch.Plain copy.target.HasCell) a b (copy.execute a) (copy.execute b) := by
  have hstage : copy.stage a = copy.stage b := by
    unfold stage stageCells
    simp only [h.cellsOf, h.read]
  unfold execute
  rw [hstage]
  exact ScanContext.perform_inStep h fun writes hwrites w hw => (stage_spec hwrites w hw).1

theorem Fill.inStep (fill : Fill) (h : a.Alike b) :
    Outcome.InStep (Touch.Plain fill.target.HasCell) a b (fill.execute a) (fill.execute b) := by
  have hstage : fill.stage a = fill.stage b := by
    unfold stage
    simp only [h.evaluate, h.cellsOf]
  unfold execute
  rw [hstage]
  exact ScanContext.perform_inStep h fun writes hwrites w hw => (stage_spec hwrites w hw).1

theorem Calc.inStep (c : Calc) (h : a.Alike b) :
    a.InStep (Touch.Plain c.target.HasCell) b (c.execute a) (c.execute b) := by
  have hstart : a.InStep (Touch.Plain c.target.HasCell) b a b := .start h
  unfold execute
  rw [h.evaluate, h.tagOf]
  split
  case h_1 => exact hstart.raise .addressError
  case h_2 =>
    cases ht : c.target.resolve b with
    | none => exact hstart.raise .addressError
    | some t =>
      have hcell := TagRef.hasCell_of_resolve ht
      dsimp only
      split
      case h_1 v _ => exact hstart.write hcell v
      case h_2 => exact (hstart.raise .divisionError).write hcell _

theorem PackBits.inStep (pack : PackBits) (h : a.Alike b) :
    Outcome.InStep (Touch.Plain pack.target.HasCell) a b (pack.execute a) (pack.execute b) := by
  have hstart : a.InStep (Touch.Plain pack.target.HasCell) b a b := .start h
  refine Pack.onPair_inStep hstart fun cells t _ ht => ?_
  rw [h.readBool]
  split_ifs
  · exact hstart.raise .outOfRange
  · exact Pack.writePattern_inStep hstart ht _

theorem PackWords.inStep (pack : PackWords) (h : a.Alike b) :
    Outcome.InStep (Touch.Plain pack.target.HasCell) a b (pack.execute a) (pack.execute b) := by
  have hstart : a.InStep (Touch.Plain pack.target.HasCell) b a b := .start h
  refine Pack.onPair_inStep hstart fun cells t _ ht => ?_
  unfold Pack.readWord
  simp only [h.read]
  split
  case h_1 => exact Pack.writePattern_inStep hstart ht _
  case h_2 => exact hstart.raise .outOfRange

theorem UnpackToBits.inStep (unpack : UnpackToBits) (h : a.Alike b) :
    Outcome.InStep (Touch.Plain unpack.bits.HasCell) a b (unpack.execute a) (unpack.execute b) := by
  have hstart : a.InStep (Touch.Plain unpack.bits.HasCell) b a b := .start h
  refine Pack.onPair_inStep hstart fun cells t hcells _ => ?_
  rw [h.read]
  split_ifs
  · exact hstart.raise .outOfRange
  · cases t.type.patternOf (b.read t) with
    | none => exact hstart.raise .outOfRange
    | some pattern => exact hstart.writeAll fun w hw => hcells w.1 (List.of_mem_zip hw).1

theorem UnpackToWords.inStep (unpack : UnpackToWords) (h : a.Alike b) :
    Outcome.InStep (Touch.Plain unpack.words.HasCell) a b (unpack.execute a)
      (unpack.execute b) := by
  have hstart : a.InStep (Touch.Plain unpack.words.HasCell) b a b := .start h
  refine Pack.onPair_inStep hstart fun cells t hcells _ => ?_
  rw [h.read]
  split
  case h_2 => exact hstart.raise .outOfRange
  case h_1 low high htags =>
    rw [htags] at hcells
    cases t.type.patternOf (b.read t) with
    | none => exact hstart.raise .outOfRange
    | some pattern =>
      exact Pack.writePattern_inStep
        (Pack.writePattern_inStep hstart (hcells low (by simp)) _) (hcells high (by simp)) _

theorem PackText.inStep (pack : PackText) (h : a.Alike b) :
    Outcome.InStep (Touch.Plain pack.target.HasCell) a b (pack.execute a) (pack.execute b) := by
  have hstart : a.InStep (Touch.Plain pack.target.HasCell) b a b := .start h
  refine Pack.onPair_inStep hstart fun cells t _ ht => ?_
  rw [h.textOf]
  split
  case h_1 v _ => exact hstart.write ht v
  case h_2 => exact hstart.raise .outOfRange

theorem Bindings.call_inStep (bindings : Bindings) (function : ValueMap → ValueMap)
    (h : a.Alike b) :
    a.InStep (Touch.Plain fun u => ∃ o ∈ bindings.outputs, o.2.HasCell u) b
      (bindings.call function a) (bindings.call function b) := by
  have hstart : a.InStep (Touch.Plain fun u => ∃ o ∈ bindings.outputs, o.2.HasCell u) b a b :=
    .start h
  have hgather : bindings.gather a = bindings.gather b := by
    unfold gather
    simp only [h.evaluate]
  have hstage : ∀ results, bindings.stage a results = bindings.stage b results := by
    intro results
    unfold stage stageOutput
    simp only [h.tagOf]
  unfold call
  rw [hgather]
  cases bindings.gather b with
  | error e => exact hstart.raise _
  | ok inputs =>
    dsimp only
    rw [hstage]
    cases hwrites : bindings.stage b (function inputs) with
    | error fault => exact hstart.raise fault
    | ok writes => exact hstart.writeAll fun w hw => (stage_spec hwrites w hw).1

end Operations

end LadderLogic
