import LadderLogic.Proofs.Effect.Coil
import LadderLogic.Proofs.Text.Ascii

/-!
What copies and fills do to a context.
-/

set_option autoImplicit false

namespace LadderLogic

section Staged

variable {targets : Tag → Prop} {keeps : String → Prop} {sound words : Prop} {ctx : ScanContext}

/-- Staged writes are all made, or none is and a fault is raised. -/
theorem ScanContext.perform_becomes {result : Except LadderError Staged}
    (h : ∀ writes, result = .ok (.ok writes) →
      ∀ w ∈ writes, targets w.1 ∧ (sound → w.1.type.Holds w.2) ∧ (words → w.2.Fits)) :
    ctx.Becomes (Permit targets keeps sound words) (ctx.perform result).context := by
  cases result with
  | error e => exact .refl
  | ok staged =>
    cases staged with
    | error fault => exact .raise .refl fault
    | ok writes => exact .writeAll .refl (h writes rfl)

theorem Tag.store_spec {t : Tag} {v : Value} {w : Tag × Value} (h : t.store v = .ok w) :
    w.1 = t ∧ t.type.Holds w.2 := by
  unfold store at h
  split at h
  case h_1 stored hstored =>
    cases h
    exact ⟨rfl, TagType.storeCopy_holds hstored⟩
  case h_2 => cases h

theorem Tag.storeExact_spec {t : Tag} {i : Int} {w : Tag × Value} (h : t.storeExact i = .ok w) :
    w.1 = t ∧ t.type.Holds w.2 := by
  unfold storeExact at h
  split at h
  case h_1 =>
    split at h
    · cases h
    · exact store_spec h
  case h_2 => exact store_spec h

theorem Tag.storeConverted_spec {t : Tag} {conversion : Option Conversion} {v : Value}
    {w : Tag × Value} (h : t.storeConverted conversion v = .ok w) :
    w.1 = t ∧ t.type.Holds w.2 := by
  cases conversion with
  | none => exact store_spec h
  | some c =>
    cases c with
    | asText suppressZero => cases h
    | asValue | asAscii =>
      obtain ⟨i, -, hi⟩ := bind_eq_ok.mp h
      exact storeExact_spec hi
    | asBinary =>
      obtain ⟨x, -, hx⟩ := bind_eq_ok.mp h
      exact store_spec hx

end Staged

/-- What a FILL stages goes to cells of its target, within their types. -/
theorem Fill.stage_spec {fill : Fill} {ctx : ScanContext} {writes : List (Tag × Value)}
    (h : fill.stage ctx = .ok (.ok writes)) :
    ∀ w ∈ writes, fill.target.HasCell w.1 ∧ w.1.type.Holds w.2 := by
  intro w hw
  unfold stage at h
  split at h
  case h_1 => cases h
  case h_2 value =>
    obtain ⟨cells, hcells, hstaged⟩ := map_eq_ok.mp h
    cases cells with
    | none => cases hstaged
    | some cells =>
      obtain ⟨t, ht, hstore⟩ := mem_of_mapM_eq_ok hstaged w hw
      obtain ⟨htag, hv⟩ := Tag.store_spec hstore
      rw [htag]
      exact ⟨RangeRef.hasCell_of_resolve hcells t ht, hv⟩

theorem Fill.effect (fill : Fill) (id : InstructionId) (ctx : ScanContext) :
    (Operation.fill fill).Effect id ctx (fill.execute ctx).context := by
  apply ScanContext.perform_becomes
  intro writes hwrites w hw
  obtain ⟨hcell, hv⟩ := stage_spec hwrites w hw
  exact ⟨hcell, fun _ => hv, fun _ => Typing.fits_of_holds hv⟩

/-- What a block copy stages goes to cells of its target, within their types. -/
theorem BlockCopy.stage_spec {copy : BlockCopy} {ctx : ScanContext} {writes : List (Tag × Value)}
    (h : copy.stage ctx = .ok (.ok writes)) :
    ∀ w ∈ writes, copy.target.HasCell w.1 ∧ w.1.type.Holds w.2 := by
  intro w hw
  obtain ⟨source, -, h⟩ := bind_eq_ok.mp h
  cases source with
  | none => cases h
  | some source =>
    obtain ⟨target, htarget, h⟩ := bind_eq_ok.mp h
    cases target with
    | none => cases h
    | some target =>
      have hstaged : copy.stageCells ctx source target = .ok writes := Except.ok.inj h
      unfold stageCells at hstaged
      split at hstaged
      case isFalse => cases hstaged
      case isTrue =>
        obtain ⟨⟨src, dst⟩, hmem, hstore⟩ := mem_of_mapM_eq_ok hstaged w hw
        obtain ⟨htag, hv⟩ := Tag.storeConverted_spec hstore
        rw [htag]
        exact ⟨RangeRef.hasCell_of_resolve htarget dst (List.of_mem_zip hmem).2, hv⟩

theorem BlockCopy.effect (copy : BlockCopy) (id : InstructionId) (ctx : ScanContext) :
    (Operation.blockCopy copy).Effect id ctx (copy.execute ctx).context := by
  apply ScanContext.perform_becomes
  intro writes hwrites w hw
  obtain ⟨hcell, hv⟩ := stage_spec hwrites w hw
  exact ⟨hcell, fun _ => hv, fun _ => Typing.fits_of_holds hv⟩

namespace SingleCopy

/-- Text is spread over cells one ASCII character each, or a blank. -/
theorem fillCells_spec {tags : List Tag} {cs : List Char} (h : IsAscii cs) :
    ∀ w ∈ fillCells tags cs, w.1 ∈ tags ∧ TagType.char.Holds w.2 := by
  induction tags generalizing cs with
  | nil => simp [fillCells]
  | cons t ts ih =>
    cases cs with
    | nil =>
      intro w hw
      rcases List.mem_cons.mp hw with rfl | hw
      · exact ⟨List.mem_cons_self, rfl⟩
      · obtain ⟨hmem, hv⟩ := ih h w hw
        exact ⟨List.mem_cons_of_mem t hmem, hv⟩
    | cons c cs =>
      obtain ⟨hc, hcs⟩ := (isAscii_cons c cs).mp h
      intro w hw
      rcases List.mem_cons.mp hw with rfl | hw
      · exact ⟨List.mem_cons_self, isCharText_singleton hc⟩
      · obtain ⟨hmem, hv⟩ := ih hcs w hw
        exact ⟨List.mem_cons_of_mem t hmem, hv⟩

theorem spreadText_spec {copy : SingleCopy} {cells : BlockRange} {value : Value}
    {writes : List (Tag × Value)} (h : copy.spreadText cells value = .ok writes) :
    ∀ w ∈ writes, w.1 ∈ cells.tags ∧ TagType.char.Holds w.2 := by
  unfold spreadText at h
  split at h
  case h_1 =>
    split at h
    case h_1 => cases h
    case h_2 cs hrender =>
      split at h
      case isTrue => cases h
      case isFalse =>
        cases h
        intro w hw
        obtain ⟨hmem, hv⟩ := fillCells_spec (Conversion.isAscii_render? hrender) w hw
        exact ⟨List.mem_of_mem_take hmem, hv⟩
  case h_2 =>
    split at h
    case h_2 => cases h
    case h_1 text =>
      split at h
      case isFalse => cases h
      case isTrue hascii =>
        cases h
        exact fillCells_spec fun c hc => of_decide_eq_true (List.all_eq_true.mp hascii.1 c hc)

theorem convertScalar_spec {copy : SingleCopy} {t : Tag} {value : Value} {w : Tag × Value}
    (h : copy.convertScalar t value = .ok w) : w.1 = t ∧ t.type.Holds w.2 := by
  unfold convertScalar at h
  split at h
  case h_1 =>
    split at h
    case h_1 => exact Tag.storeExact_spec h
    case h_2 => cases h
  case h_2 => exact Tag.storeConverted_spec h

/-- What a copy stages are words that go to cells of its target. Only a checked copy into a range is
known to write text into CHAR cells. -/
theorem stage_spec {copy : SingleCopy} {ctx : ScanContext} {writes : List (Tag × Value)}
    (h : copy.stage ctx = .ok (.ok writes)) :
    ∀ w ∈ writes, copy.target.HasCell w.1 ∧
      (make copy.source copy.target copy.conversion = .ok copy → w.1.type.Holds w.2) ∧
      w.2.Fits := by
  intro w hw
  obtain ⟨value, -, h⟩ := bind_eq_ok.mp h
  cases value with
  | error fault => cases h
  | ok value =>
    cases htarget : copy.target with
    | tag target =>
      rw [htarget] at h
      dsimp only at h
      cases hresolve : target.resolve ctx with
      | none =>
        rw [hresolve] at h
        cases h
      | some t =>
        rw [hresolve] at h
        obtain ⟨stored, hstored, rfl⟩ := map_eq_ok.mp (Except.ok.inj h)
        obtain rfl := List.mem_singleton.mp hw
        obtain ⟨htag, hv⟩ := convertScalar_spec hstored
        rw [htag]
        exact ⟨TagRef.hasCell_of_resolve hresolve, fun _ => hv, Typing.fits_of_holds hv⟩
    | range target =>
      rw [htarget] at h
      obtain ⟨cells, hcells, h⟩ := bind_eq_ok.mp h
      cases cells with
      | none => cases h
      | some cells =>
        obtain ⟨hmem, hv⟩ := spreadText_spec (Except.ok.inj h) w hw
        have hcell := RangeRef.hasCell_of_resolve hcells w.1 hmem
        refine ⟨hcell, fun hmake => ?_, Typing.fits_of_holds hv⟩
        rw [RangeRef.type_eq_of_hasCell hcell, type_of_make hmake]
        exact hv

theorem effect (copy : SingleCopy) (id : InstructionId) (ctx : ScanContext) :
    (Operation.copy copy).Effect id ctx (copy.execute ctx).context := by
  apply ScanContext.perform_becomes
  intro writes hwrites w hw
  obtain ⟨hcell, hv, hfits⟩ := stage_spec hwrites w hw
  exact ⟨hcell, fun hs => hv hs.1.checked, fun _ => hfits⟩

end SingleCopy

end LadderLogic
