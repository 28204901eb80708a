import LadderLogic.Proofs.Effect.Coil
import LadderLogic.Proofs.Text.Ascii

/-!
What calculations, packing and host functions do to a context.
-/

set_option autoImplicit false

namespace LadderLogic

/-- What a CALC evaluates to, over typed cells and literals in range, is in range. -/
theorem Operation.Sound.fits_calculated {c : Calc} {ctx : ScanContext}
    (hs : (Operation.calculate c).Sound ctx) {v : Value}
    (h : c.expression.evaluate ctx = .ok v) : v.Fits := by
  obtain ⟨hwell, Γ, hcover, htypes⟩ := hs
  refine Expression.evaluate_fits (hwell.literals c.expression rfl) (fun t ht => ?_) h
  exact Typing.fits_of_holds (Typing.holds_read htypes (hcover.operands c.expression rfl t ht))

theorem Calc.zero_holds {t : TagType} (ht : t.isNumeric = true) (hex : Bool) :
    t.Holds (zero t hex) := by
  unfold zero
  cases h : t.storeCalc (.int 0) hex with
  | some v => exact TagType.storeCalc_holds ht (fun i hi => by cases hi; decide) h
  | none => cases t <;> trivial

theorem Calc.zero_fits (t : TagType) (hex : Bool) : (zero t hex).Fits := by
  unfold zero
  cases h : t.storeCalc (.int 0) hex with
  | some v => exact TagType.storeCalc_fits h
  | none => exact t.initial_fits

theorem Calc.effect (c : Calc) (id : InstructionId) (ctx : ScanContext) :
    (Operation.calculate c).Effect id ctx (c.execute ctx) := by
  unfold execute
  split
  case h_1 => exact .raise .refl .addressError
  case h_2 =>
    split
    case h_1 => exact .raise .refl .addressError
    case h_2 tag htag =>
      have hcell := TagRef.hasCell_of_resolve htag
      have hnumeric : (Operation.calculate c).Sound ctx → tag.type.isNumeric = true := by
        intro hs
        rw [TagRef.type_eq_of_hasCell hcell]
        exact isNumeric_of_make hs.1.checked
      split
      case h_1 w hw =>
        obtain ⟨v, hv, hstore⟩ := Option.bind_eq_some_iff.mp hw
        refine .write .refl hcell (fun hs => ?_) fun _ => TagType.storeCalc_fits hstore
        refine TagType.storeCalc_holds (hnumeric hs) (fun i hi => ?_) hstore
        subst hi
        cases heval : c.expression.evaluate ctx with
        | error e =>
          rw [heval] at hv
          cases hv
        | ok u =>
          rw [heval] at hv
          cases hv
          exact hs.fits_calculated heval
      case h_2 =>
        exact (ScanContext.Becomes.raise .refl .divisionError).write hcell
          (fun hs => zero_holds (hnumeric hs) c.hex) fun _ => zero_fits tag.type c.hex

section Pack

variable {targets : Tag → Prop} {keeps : String → Prop} {sound words : Prop} {ctx mid : ScanContext}

theorem Pack.onPair_becomes {range : RangeRef} {ref : TagRef} {next : BlockRange → Tag → ScanContext}
    (h : ∀ cells t, range.resolve ctx = .ok (some cells) → ref.resolve ctx = some t →
      ctx.Becomes (Permit targets keeps sound words) (next cells t)) :
    ctx.Becomes (Permit targets keeps sound words) (onPair range ref ctx next).context := by
  apply RangeRef.onCells_becomes .refl
  intro cells hcells
  split
  case h_1 t ht => exact h cells t hcells ht
  case h_2 => exact .raise .refl .addressError

theorem Pack.writePattern_becomes (h : ctx.Becomes (Permit targets keeps sound words) mid) {t : Tag}
    (ht : targets t) (bits : Nat) :
    ctx.Becomes (Permit targets keeps sound words) (writePattern mid t bits) := by
  unfold writePattern
  split
  case h_1 v hv => exact h.store ht (TagType.valueOf_holds hv)
  case h_2 => exact h.raise .outOfRange

end Pack

theorem PackBits.effect (pack : PackBits) (id : InstructionId) (ctx : ScanContext) :
    (Operation.packBits pack).Effect id ctx (pack.execute ctx).context := by
  apply Pack.onPair_becomes
  intro cells t _ ht
  split
  · exact .raise .refl .outOfRange
  · exact Pack.writePattern_becomes .refl (TagRef.hasCell_of_resolve ht) _

theorem PackWords.effect (pack : PackWords) (id : InstructionId) (ctx : ScanContext) :
    (Operation.packWords pack).Effect id ctx (pack.execute ctx).context := by
  apply Pack.onPair_becomes
  intro cells t _ ht
  split
  · exact Pack.writePattern_becomes .refl (TagRef.hasCell_of_resolve ht) _
  · exact .raise .refl .outOfRange

theorem UnpackToBits.effect (unpack : UnpackToBits) (id : InstructionId) (ctx : ScanContext) :
    (Operation.unpackToBits unpack).Effect id ctx (unpack.execute ctx).context := by
  apply Pack.onPair_becomes
  intro cells t hcells _
  split
  case isTrue => exact .raise .refl .outOfRange
  case isFalse =>
    split
    case h_2 => exact .raise .refl .outOfRange
    case h_1 =>
      refine .driveAll .refl (fun u hu => ?_) _
      have hcell := RangeRef.hasCell_of_resolve hcells u hu
      refine ⟨hcell, ?_⟩
      intro hs
      obtain ⟨_, _, h⟩ := bind_eq_ok.mp hs.1.checked
      obtain ⟨_, hexpect, _⟩ := bind_eq_ok.mp h
      exact (RangeRef.type_eq_of_hasCell hcell).trans (RangeRef.type_of_expectBool hexpect)

theorem UnpackToWords.effect (unpack : UnpackToWords) (id : InstructionId) (ctx : ScanContext) :
    (Operation.unpackToWords unpack).Effect id ctx (unpack.execute ctx).context := by
  apply Pack.onPair_becomes
  intro cells t hcells _
  have hmem := RangeRef.hasCell_of_resolve hcells
  split
  case h_2 => exact .raise .refl .outOfRange
  case h_1 low high htags =>
    split
    case h_2 => exact .raise .refl .outOfRange
    case h_1 =>
      rw [htags] at hmem
      exact Pack.writePattern_becomes
        (Pack.writePattern_becomes .refl (hmem low (by simp)) _) (hmem high (by simp)) _

theorem PackText.effect (pack : PackText) (id : InstructionId) (ctx : ScanContext) :
    (Operation.packText pack).Effect id ctx (pack.execute ctx).context := by
  apply Pack.onPair_becomes
  intro cells t _ ht
  split
  case h_1 v hv => exact .store .refl (TagRef.hasCell_of_resolve ht) (read?_holds hv)
  case h_2 => exact .raise .refl .outOfRange

/-- Every output of a host function goes to its tag under the copy law, whatever the function
returns. -/
theorem Bindings.stage_spec {b : Bindings} {ctx : ScanContext} {results : ValueMap}
    {writes : List (Tag × Value)} (h : b.stage ctx results = .ok writes) :
    ∀ w ∈ writes, (∃ o ∈ b.outputs, o.2.HasCell w.1) ∧ w.1.type.Holds w.2 := by
  intro w hw
  obtain ⟨staged, hstaged, rfl⟩ := map_eq_ok.mp h
  obtain ⟨result, hresult, hsome⟩ := List.mem_filterMap.mp hw
  obtain ⟨o, ho, hstage⟩ := mem_of_mapM_eq_ok hstaged result hresult
  obtain rfl : result = some w := hsome
  unfold stageOutput at hstage
  split at hstage
  case h_1 => cases hstage
  case h_2 value _ =>
    split at hstage
    case h_1 => cases hstage
    case h_2 t ht =>
      split at hstage
      case h_2 => cases hstage
      case h_1 stored hstored =>
        cases hstage
        exact ⟨⟨o, ho, TagRef.hasCell_of_resolve ht⟩, TagType.storeCopy_holds hstored⟩

theorem Bindings.call_becomes {keeps : String → Prop} {sound words : Prop} {ctx : ScanContext}
    (b : Bindings) (function : ValueMap → ValueMap) :
    ctx.Becomes (Permit (fun u => ∃ o ∈ b.outputs, o.2.HasCell u) keeps sound words)
      (b.call function ctx) := by
  unfold call
  split
  case h_1 => exact .raise .refl _
  case h_2 inputs _ =>
    split
    case h_2 => exact .raise .refl _
    case h_1 writes hwrites =>
      refine .writeAll .refl fun w hw => ?_
      obtain ⟨hcell, hv⟩ := stage_spec hwrites w hw
      exact ⟨hcell, fun _ => hv, fun _ => Typing.fits_of_holds hv⟩

theorem RunFunction.effect (run : RunFunction) (id : InstructionId) (ctx : ScanContext) :
    (Operation.runFunction run).Effect id ctx (run.execute ctx) :=
  Bindings.call_becomes run.bindings run.function

theorem RunEnabledFunction.effect (run : RunEnabledFunction) (id : InstructionId) (enabled : Bool)
    (ctx : ScanContext) :
    (Operation.runEnabledFunction run).Effect id ctx (run.execute enabled ctx) :=
  Bindings.call_becomes run.bindings (run.function enabled)

end LadderLogic
