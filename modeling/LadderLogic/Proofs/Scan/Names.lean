import LadderLogic.Proofs.Except
import LadderLogic.Program

/-!
What a program names: for each instruction the tags it can write and the memory keys it keeps. Where
a cell is chosen during the scan, these are all the cells of its block.
-/

set_option autoImplicit false

namespace LadderLogic

namespace TagRef

/-- The cells that a reference can mean. -/
def HasCell : TagRef → Tag → Prop
  | direct t, u => u = t
  | indirect b _, u => ∃ a, b.contains a = true ∧ u = b.cell a

theorem type_eq_of_hasCell {r : TagRef} {u : Tag} (h : r.HasCell u) : u.type = r.type := by
  cases r with
  | direct t =>
    obtain rfl := h
    rfl
  | indirect b pointer =>
    obtain ⟨a, -, rfl⟩ := h
    rfl

end TagRef

/-- A pointer that leads somewhere leads to a cell of the block. -/
theorem Block.pointed_cell {b : Block} {pointer : Except EvalFault Value} {t : Tag}
    (h : b.pointed pointer = some t) : ∃ a, b.contains a = true ∧ t = b.cell a := by
  unfold pointed at h
  split at h
  case h_2 => cases h
  case h_1 v =>
    obtain ⟨a, ha, rfl⟩ := Option.map_eq_some_iff.mp h
    obtain ⟨i, -, hi⟩ := Option.bind_eq_some_iff.mp ha
    unfold resolvePointer at hi
    split at hi <;> cases hi
    exact ⟨_, ‹_›, rfl⟩

theorem TagRef.hasCell_of_resolve {r : TagRef} {ctx : ScanContext} {u : Tag}
    (h : r.resolve ctx = some u) : r.HasCell u := by
  cases r with
  | direct t =>
    cases h
    rfl
  | indirect b pointer => exact Block.pointed_cell h

namespace RangeRef

/-- The addresses that a range can take in. -/
def HasAddress : RangeRef → Int → Prop
  | direct r, a => a ∈ r.addresses
  | indirect b _ _ _, a => b.contains a = true

def HasCell (r : RangeRef) (u : Tag) : Prop := ∃ a, r.HasAddress a ∧ u = r.block.cell a

theorem type_eq_of_hasCell {r : RangeRef} {u : Tag} (h : r.HasCell u) : u.type = r.type := by
  obtain ⟨a, -, rfl⟩ := h
  rfl

theorem contains_of_mem_addressesBetween {b : Block} {low high a : Int}
    (h : a ∈ b.addressesBetween low high) : b.contains a = true :=
  (List.mem_filter.mp h).2

/-- Run-time bounds never lead outside the windows of the block. -/
theorem contains_of_between {b : Block} {first last : Int} {reversed : Bool} {cells : BlockRange}
    (h : between b first last reversed = .ok (some cells)) :
    cells.block = b ∧ ∀ a ∈ cells.addresses, b.contains a = true := by
  unfold between at h
  split_ifs at h with hle hin hreversed <;> cases h <;> refine ⟨rfl, fun a ha => ?_⟩
  · rw [List.mem_reverse] at ha
    exact contains_of_mem_addressesBetween ha
  · exact contains_of_mem_addressesBetween ha

theorem hasAddress_of_resolve {r : RangeRef} {ctx : ScanContext} {cells : BlockRange}
    (h : r.resolve ctx = .ok (some cells)) :
    cells.block = r.block ∧ ∀ a ∈ cells.addresses, r.HasAddress a := by
  cases r with
  | direct range =>
    cases h
    exact ⟨rfl, fun a ha => ha⟩
  | indirect b first last reversed =>
    simp only [resolve] at h
    split at h
    case h_1 => exact contains_of_between h
    case h_2 => cases h

theorem hasCell_of_resolve {r : RangeRef} {ctx : ScanContext} {cells : BlockRange}
    (h : r.resolve ctx = .ok (some cells)) : ∀ u ∈ cells.tags, r.HasCell u := by
  obtain ⟨hblock, hmem⟩ := hasAddress_of_resolve h
  intro u hu
  obtain ⟨a, ha, rfl⟩ := List.mem_map.mp hu
  exact ⟨a, hmem a ha, by rw [hblock]⟩

end RangeRef

def CoilTarget.HasCell : CoilTarget → Tag → Prop
  | tag t, u => u = t
  | range r, u => r.HasCell u

def CopyTarget.HasCell : CopyTarget → Tag → Prop
  | tag t, u => t.HasCell u
  | range r, u => r.HasCell u

def DrumCore.Targets (drum : DrumCore) (u : Tag) : Prop :=
  u ∈ drum.outputs ∨ u = drum.step ∨ u = drum.completion

def DrumCore.Keeps (id : InstructionId) (key : String) : Prop :=
  key = armedKey id ∨ key = jumpKey id ∨ key = jogKey id

namespace Operation

/-- The tags that an operation can write, faults apart. -/
def Targets : Operation → Tag → Prop
  | out op, u => op.target.HasCell u
  | latch op, u => op.target.HasCell u
  | reset op, u => op.target.HasCell u
  | copy op, u => op.target.HasCell u
  | blockCopy op, u => op.target.HasCell u
  | fill op, u => op.target.HasCell u
  | calculate op, u => op.target.HasCell u
  | onDelay op, u => u = op.done ∨ u = op.accumulator
  | offDelay op, u => u = op.done ∨ u = op.accumulator
  | countUp op, u => u = op.done ∨ u = op.accumulator
  | countDown op, u => u = op.done ∨ u = op.accumulator
  | shift op, u => op.range.HasCell u
  | eventDrum op, u => op.core.Targets u
  | timeDrum op, u => op.core.Targets u ∨ u = op.accumulator
  | search op, u => u = op.result ∨ u = op.found
  | packBits op, u => op.target.HasCell u
  | packWords op, u => op.target.HasCell u
  | unpackToBits op, u => op.bits.HasCell u
  | unpackToWords op, u => op.words.HasCell u
  | packText op, u => op.target.HasCell u
  | callSubroutine _, _ => False
  | leaveSubroutine, _ => False
  | runFunction op, u => ∃ o ∈ op.bindings.outputs, o.2.HasCell u
  | runEnabledFunction op, u => ∃ o ∈ op.bindings.outputs, o.2.HasCell u

/-- The memory keys that an operation keeps under the handle `id`. -/
def Keeps (id : InstructionId) : Operation → String → Prop
  | onDelay op, key => key = LadderLogic.fracKey op.accumulator.name
  | offDelay op, key => key = LadderLogic.fracKey op.accumulator.name
  | shift _, key => key = Shift.clockKey id
  | eventDrum _, key => DrumCore.Keeps id key
  | timeDrum _, key => DrumCore.Keeps id key ∨ key = DrumCore.fracKey id
  | _, _ => False

end Operation

namespace Instruction

/-- The tags that an instruction can write itself; those inside a loop write their own. -/
def Targets : Instruction → Tag → Prop
  | single _ _ op, u => op.Targets u
  | loop _ _ head _, u => u = head.index

def Keeps : Instruction → String → Prop
  | single id _ op, key => op.Keeps id key
  | loop _ _ _ _, _ => False

end Instruction

end LadderLogic
