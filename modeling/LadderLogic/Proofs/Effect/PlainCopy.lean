import LadderLogic.Proofs.Condition.Comparison
import LadderLogic.Proofs.Effect.Transaction

/-!
What the checks of operands are good for. Accepted comparisons compare, and copies without a
conversion into cells that are not CHAR never meet a value that the cell cannot take over.
-/

set_option autoImplicit false

namespace LadderLogic

theorem TagType.exists_storeCopy {t : TagType} {v : Value} (ht : t ≠ .char)
    (hv : v.isNumeric = true) : ∃ w, t.storeCopy v = some w := by
  cases t with
  | char => exact absurd rfl ht
  | bool => exact ⟨_, if_pos hv⟩
  | _ =>
    cases v with
    | text s => cases hv
    | _ => exact ⟨_, rfl⟩

theorem Tag.exists_store {t : Tag} {v : Value} (ht : t.type ≠ .char) (hv : v.isNumeric = true) :
    ∃ w, t.store v = .ok w := by
  obtain ⟨w, hw⟩ := TagType.exists_storeCopy ht hv
  exact ⟨(t, w), by simp [store, hw]⟩

theorem EvalFault.fault_ne_outOfRange (f : EvalFault) : f.fault ≠ .outOfRange := by
  cases f <;> exact nofun

namespace Outcome

/-- No fault is raised, or one that is not `out_of_range`. -/
def StaysInRange (ctx : ScanContext) (o : Outcome) : Prop :=
  o.context.notices = ctx.notices ∨ ∃ f, f ≠ .outOfRange ∧ o.context = ctx.raise f

/-- What is due has no cell against which `out_of_range` stands. -/
def InRange (due : Except LadderError (List Pending)) : Prop :=
  ∀ pending, due = .ok pending → .error .outOfRange ∉ pending

variable {ctx : ScanContext}

theorem inRange_ok {pending : List Pending} (h : .error .outOfRange ∉ pending) :
    InRange (.ok pending) := by
  intro p hp
  cases hp
  exact h

theorem inRange_fault {f : Fault} (h : f ≠ .outOfRange) : InRange (.ok [.error f]) :=
  inRange_ok (by simpa using h.symm)

theorem inRange_rangeDue {r : RangeRef} {cells : BlockRange → List Pending}
    (h : ∀ range, r.resolve ctx = .ok (some range) → .error .outOfRange ∉ cells range) :
    InRange (r.due ctx cells) := by
  unfold RangeRef.due
  cases hr : r.resolve ctx with
  | error e => exact nofun
  | ok found =>
    cases found with
    | none => exact inRange_fault (f := .addressError) nofun
    | some range => exact inRange_ok (h range hr)

theorem InRange.settleDue {due : Except LadderError (List Pending)} (h : InRange due) :
    (ctx.settleDue due).StaysInRange ctx := by
  cases due with
  | error e => exact .inl rfl
  | ok pending =>
    obtain ⟨verdict, hends⟩ := settle_endsAs ctx pending
    unfold StaysInRange ScanContext.settleDue
    cases verdict with
    | refused e => exact .inl (by rw [hends.context])
    | performed writes => exact .inl (by rw [hends.context])
    | faulted f =>
      obtain ⟨p, hp, hmem⟩ := hends.cause
      refine .inr ⟨f, ?_, hends.context⟩
      rintro rfl
      exact h p hp hmem

end Outcome

variable {ctx : ScanContext}

open Outcome

namespace SingleCopy

theorem isValid_of_make {source : CopySource} {target : CopyTarget} {conversion : Option Conversion}
    {op : SingleCopy} (h : make source target conversion = .ok op) :
    isValid source target conversion = true := by
  unfold make at h
  split at h
  · assumption
  · cases h

/-- Without a conversion only a number can be copied into a cell that is not CHAR. -/
theorem plain_of_isValid {source : CopySource} {target : CopyTarget}
    (h : isValid source target none = true) (htarget : target.type ≠ .char) :
    ∃ e t, source = .value e ∧ target = .tag t ∧ e.isNumeric = true := by
  have htype : (target.type == .char) = false := beq_false_of_ne htarget
  cases source with
  | range r => simp [isValid] at h
  | value e =>
    cases target with
    | range r => simp [isValid, htype] at h
    | tag t => exact ⟨e, t, rfl, rfl, by simpa [isValid, htype] using h⟩

theorem inRange_due {e : Expression} {target : TagRef} (hnumeric : e.isNumeric = true)
    (htarget : target.type ≠ .char) (hsource : e.InDomain ctx) :
    InRange (due ⟨.value e, .tag target, none⟩ ctx) := by
  unfold due sourceValue
  dsimp only
  cases hv : e.evaluate ctx with
  | error f => exact inRange_fault f.fault_ne_outOfRange
  | ok v =>
    dsimp only [Except.mapError]
    cases ht : target.resolve ctx with
    | none => exact inRange_fault (f := .addressError) nofun
    | some t =>
      have htype : t.type ≠ .char :=
        TagRef.type_eq_of_hasCell (TagRef.hasCell_of_resolve ht) ▸ htarget
      obtain ⟨w, hw⟩ := Tag.exists_store htype (hsource.isNumeric hnumeric hv)
      apply inRange_ok
      simp [convertScalar, Tag.storeConverted, hw]

end SingleCopy

namespace BlockCopy

theorem isValid_of_make {source target : RangeRef} {conversion : Option Conversion}
    {op : BlockCopy} (h : make source target conversion = .ok op) :
    isValid source.type target.type conversion = true := by
  unfold make at h
  split at h
  case isTrue => cases h
  case isFalse hvalid => simpa using hvalid

theorem inRange_due {source target : RangeRef} (hnumeric : source.type ≠ .char)
    (htarget : target.type ≠ .char) (hsource : ∀ t, source.HasCell t → t.type.Holds (ctx.read t)) :
    InRange (due ⟨source, target, none⟩ ctx) := by
  unfold due
  dsimp only
  cases hcells : source.resolve ctx with
  | error e => exact nofun
  | ok found =>
    cases found with
    | none => exact inRange_fault (f := .addressError) nofun
    | some cells =>
      apply inRange_rangeDue
      intro range hrange hmem
      split_ifs at hmem
      · obtain ⟨⟨src, dst⟩, hpair, heq⟩ := List.mem_map.mp hmem
        obtain ⟨hsrc, hdst⟩ := List.of_mem_zip hpair
        have hsrc := RangeRef.hasCell_of_resolve hcells src hsrc
        have hdst := RangeRef.hasCell_of_resolve hrange dst hdst
        have hvalue := TagType.isNumeric_of_holds (hsource src hsrc)
          (RangeRef.type_eq_of_hasCell hsrc ▸ hnumeric)
        obtain ⟨w, hw⟩ := Tag.exists_store (RangeRef.type_eq_of_hasCell hdst ▸ htarget) hvalue
        cases hw.symm.trans heq
      · simp at hmem

end BlockCopy

namespace Fill

theorem isNumeric_of_make {value : Expression} {target : RangeRef} {op : Fill}
    (h : make value target = .ok op) (htarget : target.type ≠ .char) : value.isNumeric = true := by
  unfold make at h
  rw [if_neg htarget] at h
  split at h
  · assumption
  · cases h

theorem inRange_due {value : Expression} {target : RangeRef} (hnumeric : value.isNumeric = true)
    (htarget : target.type ≠ .char) (hsource : value.InDomain ctx) :
    InRange (due ⟨value, target⟩ ctx) := by
  unfold due
  dsimp only
  cases hv : value.evaluate ctx with
  | error f => exact inRange_fault f.fault_ne_outOfRange
  | ok v =>
    apply inRange_rangeDue
    intro range hrange hmem
    obtain ⟨t, ht, heq⟩ := List.mem_map.mp hmem
    have htype := RangeRef.type_eq_of_hasCell (RangeRef.hasCell_of_resolve hrange t ht)
    obtain ⟨w, hw⟩ := Tag.exists_store (htype ▸ htarget) (hsource.isNumeric hnumeric hv)
    cases hw.symm.trans heq

end Fill

namespace Operation

/-- A COPY, BLOCKCOPY or FILL without a conversion into cells that are not CHAR. -/
def IsPlainCopy : Operation → Prop
  | copy op => op.conversion = none ∧ op.target.type ≠ .char
  | blockCopy op => op.conversion = none ∧ op.target.type ≠ .char
  | fill op => op.target.type ≠ .char
  | _ => False

/-- The cells that such a copy takes its values from hold values of their types. -/
def SourceInDomain (ctx : ScanContext) : Operation → Prop
  | copy op => ∀ e, op.source = .value e → e.InDomain ctx
  | blockCopy op => ∀ t, op.source.HasCell t → t.type.Holds (ctx.read t)
  | fill op => op.value.InDomain ctx
  | _ => True

theorem IsPlainCopy.isTransaction {op : Operation} (h : op.IsPlainCopy) : op.IsTransaction := by
  cases op <;> trivial

theorem inRange_due {op : Operation} (hchecked : op.Checked) (hplain : op.IsPlainCopy)
    (hsource : op.SourceInDomain ctx) (enabled : Bool) : InRange (op.due enabled ctx) := by
  cases op with
  | copy op =>
    obtain ⟨source, target, conversion⟩ := op
    obtain ⟨rfl, htarget⟩ := hplain
    obtain ⟨e, t, rfl, rfl, hnumeric⟩ :=
      SingleCopy.plain_of_isValid (SingleCopy.isValid_of_make hchecked) htarget
    exact SingleCopy.inRange_due hnumeric htarget (hsource e rfl)
  | blockCopy op =>
    obtain ⟨source, target, conversion⟩ := op
    obtain ⟨rfl, htarget⟩ := hplain
    have hvalid := BlockCopy.isValid_of_make hchecked
    have hnumeric : source.type ≠ .char := by
      simpa [BlockCopy.isValid, beq_false_of_ne htarget] using hvalid
    exact BlockCopy.inRange_due hnumeric htarget hsource
  | fill op => exact Fill.inRange_due (Fill.isNumeric_of_make hchecked hplain) hplain hsource
  | _ => exact hplain.elim

/-- A plain copy may find no source or no target, but no value that the target refuses. -/
theorem staysInRange {op : Operation} (hchecked : op.Checked) (hplain : op.IsPlainCopy)
    (hsource : op.SourceInDomain ctx) (subroutines : Subroutines) (id : InstructionId)
    (enabled : Bool) : (op.execute subroutines id enabled ctx).StaysInRange ctx := by
  rw [execute_eq_settleDue hplain.isTransaction hchecked]
  exact (inRange_due hchecked hplain hsource enabled).settleDue

end Operation

namespace ScanContext

/-- What the checks that are made on operands when a program is written promise for a context. -/
structure ChecksOperands (ctx : ScanContext) : Prop where
  /-- An operand that counts as numeric has a fault or a value that is no text. -/
  numeric : ∀ e : Expression, e.InDomain ctx → e.isNumeric = true →
    ∀ v, e.evaluate ctx = .ok v → v.isNumeric = true
  /-- An operand of type CHAR points nowhere or has a text for a value. -/
  text : ∀ e : Expression, e.InDomain ctx → e.staticType? = some .char →
    e.evaluate ctx = .error .address ∨ ∃ s, e.evaluate ctx = .ok (.text s)
  comparisons : ∀ op left right c, left.InDomain ctx → right.InDomain ctx →
    Condition.Accepts op left right c → Condition.Decides ctx op left right c
  copies : ∀ op : Operation, op.Checked → op.IsPlainCopy → op.SourceInDomain ctx →
    ∀ subroutines id enabled, (op.execute subroutines id enabled ctx).StaysInRange ctx

/-- Every context in which the operands hold values of their types can rely on the checks. -/
theorem checksOperands (ctx : ScanContext) : ctx.ChecksOperands where
  numeric _ h hnumeric _ hv := h.isNumeric hnumeric hv
  text _ h htype := h.text htype
  comparisons _ _ _ _ hl hr h := h.decides hl hr
  copies _ hchecked hplain hsource subroutines id enabled :=
    Operation.staysInRange hchecked hplain hsource subroutines id enabled

end ScanContext

/-! An integer is compared with a real, and copied over a block. -/

namespace Sample

def pieces : Tag := .ofType .int "Pieces"

def weight : Tag := .ofType .real "Weight"

def weighed : ScanContext :=
  .start { SystemState.empty with
    tags := .ofEntries [("Pieces", .int 7), ("Weight", .real 7.5)] } ∅

def refill : Operation := .fill ⟨.tag pieces, .direct digits.all⟩

end Sample

theorem ScanContext.checksOperands_sample :
    Condition.Decides Sample.weighed .lt (.tag Sample.pieces) (.tag Sample.weight)
        (.compare .lt Sample.pieces (.tag Sample.weight)) ∧
      (Sample.refill.execute (fun _ ctx => ctx.proceed) 0 true Sample.weighed).StaysInRange
        Sample.weighed := by
  have hpieces : (Expression.tag Sample.pieces).InDomain Sample.weighed := by
    refine ⟨trivial, ?_⟩
    rintro t rfl
    exact (by decide : TagType.int.Holds (.int 7))
  have hweight : (Expression.tag Sample.weight).InDomain Sample.weighed := by
    refine ⟨trivial, ?_⟩
    rintro t rfl
    exact (by decide +kernel : TagType.real.Holds (.real 7.5))
  have hplain : Sample.refill.IsPlainCopy := by
    unfold Sample.refill Operation.IsPlainCopy
    decide
  have h := Sample.weighed.checksOperands
  exact ⟨h.comparisons _ _ _ _ hpieces hweight (.tag rfl),
    h.copies Sample.refill rfl hplain hpieces _ _ _⟩

end LadderLogic
