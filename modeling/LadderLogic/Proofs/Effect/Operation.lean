import LadderLogic.Proofs.Effect.Copy
import LadderLogic.Proofs.Effect.Drum
import LadderLogic.Proofs.Effect.Store

/-!
Every operation changes only what it names, and a sound one changes it within its types. A CALL is
left out: it runs other instructions.
-/

set_option autoImplicit false

namespace LadderLogic

theorem Operation.effect (op : Operation) (hcall : ∀ name, op ≠ .callSubroutine name)
    (subroutines : Subroutines) (id : InstructionId) (enabled : Bool) (ctx : ScanContext) :
    op.Effect id ctx (op.execute subroutines id enabled ctx).context := by
  cases op with
  | out op => exact op.effect id enabled ctx
  | latch op => exact op.effect id ctx
  | reset op => exact op.effect id ctx
  | copy op => exact op.effect id ctx
  | blockCopy op => exact op.effect id ctx
  | fill op => exact op.effect id ctx
  | calculate op => exact op.effect id ctx
  | onDelay op => exact op.effect id enabled ctx
  | offDelay op => exact op.effect id enabled ctx
  | countUp op => exact op.effect id enabled ctx
  | countDown op => exact op.effect id enabled ctx
  | shift op => exact op.effect id enabled ctx
  | eventDrum op => exact op.effect id enabled ctx
  | timeDrum op => exact op.effect id enabled ctx
  | search op => exact op.effect id ctx
  | packBits op => exact op.effect id ctx
  | packWords op => exact op.effect id ctx
  | unpackToBits op => exact op.effect id ctx
  | unpackToWords op => exact op.effect id ctx
  | packText op => exact op.effect id ctx
  | callSubroutine name => exact absurd rfl (hcall name)
  | leaveSubroutine => exact .refl
  | runFunction op => exact op.effect id ctx
  | runEnabledFunction op => exact op.effect id enabled ctx

namespace Instruction

def Sound : Instruction → ScanContext → Prop
  | single _ _ op, ctx => op.Sound ctx
  | loop _ _ _ _, _ => True

def InWords : Instruction → Prop
  | single _ _ op => op.InWords
  | loop _ _ _ _ => True

/-- A context comes from another by changes that the instruction names. -/
def Effect (i : Instruction) (ctx : ScanContext) : ScanContext → Prop :=
  ctx.Becomes (Permit i.Targets i.Keeps (i.Sound ctx) i.InWords)

variable {id : InstructionId} {oneshot : Bool} {head : ForHead} {body : List Instruction}

theorem passes_effect (limit : Nat) (ctx : ScanContext) :
    (loop id oneshot head body).Effect ctx (head.passes limit ctx).2 := by
  unfold ForHead.passes
  split
  case h_1 => exact .raise .refl _
  case h_2 =>
    dsimp only
    split
    · exact (ScanContext.Becomes.report .refl _).raise _
    · exact .refl

theorem writeIndex_effect (pass : Nat) (ctx : ScanContext) :
    (loop id oneshot head body).Effect ctx (head.writeIndex pass ctx) := by
  unfold ForHead.writeIndex
  split
  case h_1 v hv => exact .store .refl rfl (TagType.storeCopy_holds hv)
  case h_2 => exact .refl

end Instruction

end LadderLogic
