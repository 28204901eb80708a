import LadderLogic.Program.Scan
import LadderLogic.Proofs.Expression.Integers
import LadderLogic.Proofs.Instruction.Carry
import LadderLogic.Proofs.TagType.Domain

/-!
Types of tag names, and the states and contexts that respect them. The fractions that timers carry
over belong to the same invariant, because accumulators depend on them.
-/

set_option autoImplicit false

namespace LadderLogic

/-- An assignment of types to tag names, which knows the reserved tags. -/
structure Typing where
  type? : String → Option TagType
  fault : ∀ f : Fault, type? f.tagName = some .bool
  alwaysOn : type? SystemTag.alwaysOnName = some .bool
  firstScan : type? SystemTag.firstScanName = some .bool
  scanCounter : type? SystemTag.scanCounterName = some .dint

/-- The memory keys of carried fractions. -/
def IsCarryKey (key : String) : Prop :=
  (∃ rest, key = "_frac:" ++ rest) ∨ ∃ rest, key = "_drum_frac:" ++ rest

/-- A finite number that is not negative. -/
def Value.IsCarry : Value → Prop
  | .real x => Binary.isFinite x = true ∧ 0.0 ≤ x
  | .int i => Integer.Fits i ∧ 0 ≤ i
  | _ => False

namespace Typing

/-- The tag has the type of its name, and a default in its domain. -/
def Has (Γ : Typing) (t : Tag) : Prop := Γ.type? t.name = some t.type ∧ t.type.Holds t.initial

/-- Values by name that respect the types. -/
def Types (Γ : Typing) (lookup : String → Option Value) : Prop :=
  ∀ (name : String) (v : Value) (t : TagType),
    lookup name = some v → Γ.type? name = some t → t.Holds v

end Typing

/-- Every carried fraction in a memory is a number and not negative. -/
def Carries (lookup : String → Option Value) : Prop :=
  ∀ (key : String) (v : Value), IsCarryKey key → lookup key = some v → v.IsCarry

namespace Typing

/-- A committed state that respects the types. -/
structure TypesState (Γ : Typing) (s : SystemState) : Prop where
  tags : Γ.Types s.tag?
  carries : Carries s.memory?

/-- A running scan that respects the types. -/
structure TypesContext (Γ : Typing) (ctx : ScanContext) : Prop where
  tags : Γ.Types ctx.tag?
  carries : Carries ctx.memory?

variable {Γ : Typing} {ctx : ScanContext}

/-- Every tag reads as an element of its domain. -/
theorem holds_read (h : Γ.TypesContext ctx) {t : Tag} (ht : Γ.Has t) : t.type.Holds (ctx.read t) := by
  unfold ScanContext.read ScanContext.getTag
  cases hv : ctx.tag? t.name with
  | none => exact ht.2
  | some v => exact h.tags t.name v t.type hv ht.1

theorem fits_of_holds {t : TagType} {v : Value} (h : t.Holds v) : v.Fits := by
  cases v with
  | int i =>
    cases t <;> simp only [TagType.Holds] at h <;>
      exact Integer.fits_of_small (by omega)
  | _ => trivial

theorem nonNeg_memoryReal (h : Carries ctx.memory?) {key : String} (hkey : IsCarryKey key) :
    Binary.NonNeg (Binary.unpacked (ctx.memoryReal key)) := by
  unfold ScanContext.memoryReal
  cases hv : ctx.memory? key with
  | none => exact Binary.nonNeg_zero
  | some v =>
    have hcarry := h key v hkey hv
    cases v with
    | real x => exact (Binary.zero_le_iff x).mp hcarry.2
    | int i => exact Binary.nonNeg_ofInt hcarry.2
    | bool b => exact hcarry.elim
    | text s => exact hcarry.elim

end Typing

theorem TagType.initial_fits (t : TagType) : t.initial.Fits := by
  cases t <;> trivial

/-- Whatever a cell takes over from a calculation is in the words. -/
theorem TagType.storeCalc_fits {t : TagType} {v w : Value} {hex : Bool}
    (h : t.storeCalc v hex = some w) : w.Fits := by
  have hsigned : ∀ i, Integer.Fits (Integer.residue 16 true i) := fun i =>
    Integer.fits_of_small (by have := Integer.residue_int_mem i; omega)
  have hlong : ∀ i, Integer.Fits (Integer.residue 32 true i) := fun i =>
    Integer.fits_of_small (by have := Integer.residue_dint_mem i; omega)
  have hword : ∀ i, Integer.Fits (Integer.residue 16 false i) := fun i =>
    Integer.fits_of_small (by have := Integer.residue_word_mem i; omega)
  unfold storeCalc at h
  cases hi : calcInteger? v with
  | none => simp [hi] at h
  | some i =>
    simp only [hi] at h
    cases hex with
    | true =>
      cases h
      cases t with
      | int => exact hsigned _
      | dint | word | char => exact hword i
      | bool | real => trivial
    | false =>
      cases t with
      | int => cases h; exact hsigned i
      | dint => cases h; exact hlong i
      | word => cases h; exact hword i
      | bool => cases h; trivial
      | char => cases h
      | real =>
        cases v with
        | real x =>
          simp only [Bool.false_eq_true, if_false, calcReal?] at h
          split at h <;> cases h
          trivial
        | bool b => cases h; trivial
        | int j => cases h; trivial
        | text s => cases h

theorem ScanContext.tag?_setTag (ctx : ScanContext) (name : String) (v : Value) (other : String) :
    (ctx.setTag name v).tag? other = if other = name then some v else ctx.tag? other := by
  unfold tag? setTag
  rw [Std.ExtTreeMap.getElem?_insert]
  split_ifs <;> simp_all

theorem ScanContext.memory?_setMemory (ctx : ScanContext) (key : String) (v : Value)
    (other : String) :
    (ctx.setMemory key v).memory? other = if other = key then some v else ctx.memory? other := by
  unfold memory? setMemory
  rw [Std.ExtTreeMap.getElem?_insert]
  split_ifs <;> simp_all

end LadderLogic
