import LadderLogic.Condition
import LadderLogic.Proofs.Binary.Order
import LadderLogic.Proofs.Expression.Operands

/-!
A comparison that was accepted compares. Its operands, if they have values, have an order or are two
texts that are compared for equality, so that it is never false for want of an answer, and the
complementary operator gives the opposite one.
-/

set_option autoImplicit false

namespace LadderLogic

open Binary

/-- A numeric value that is finite reads as a real that is a number. -/
theorem Value.exists_toReal? {v : Value} (hnumeric : v.isNumeric = true) (hfinite : v.Finite) :
    ∃ x, v.toReal? = some x ∧ datum x ≠ .nan := by
  cases v with
  | bool b =>
    refine ⟨_, rfl, ?_⟩
    cases b <;> decide +kernel
  | int i => exact ⟨_, rfl, datum_ofInt_ne_nan i⟩
  | real x => exact ⟨x, rfl, datum_ne_nan_of_isFinite hfinite⟩
  | text s => cases hnumeric

namespace Comparison

/-- The operator that holds of exactly the orders of which this one does not. -/
def negate : Comparison → Comparison
  | eq => ne
  | ne => eq
  | lt => ge
  | le => gt
  | gt => le
  | ge => lt

@[simp] theorem holds_negate (op : Comparison) (o : Ordering) :
    op.negate.holds o = !op.holds o := by
  cases op <;> cases o <;> rfl

@[simp] theorem isEquality_negate (op : Comparison) : op.negate.isEquality = op.isEquality := by
  cases op <;> rfl

/-- On any two values either both operators have an answer, and then opposite ones, or none. -/
theorem apply_negate (op : Comparison) (v w : Value) :
    op.negate.apply v w = (op.apply v w).map (!·) := by
  have hmap : (compareValue? v w).map op.negate.holds =
      ((compareValue? v w).map op.holds).map (!·) := by
    cases compareValue? v w <;> simp
  unfold apply
  split
  · rw [isEquality_negate]
    split
    · exact hmap
    · rfl
  · exact hmap

theorem exists_compareValue? {v w : Value} (hv : v.isNumeric = true) (hw : w.isNumeric = true)
    (hvf : v.Finite) (hwf : w.Finite) : ∃ o, compareValue? v w = some o := by
  obtain ⟨x, hx, hxn⟩ := Value.exists_toReal? hv hvf
  obtain ⟨y, hy, hyn⟩ := Value.exists_toReal? hw hwf
  obtain ⟨o, ho⟩ := exists_compareReal? hxn hyn
  cases v with
  | text s => cases hv
  | real r =>
    cases hx
    cases w with
    | text s => cases hw
    | _ => exact ⟨o, by simp [compareValue?, hy, ho]⟩
  | _ =>
    cases w with
    | text s => cases hw
    | real r =>
      cases hy
      exact ⟨o, by simp [compareValue?, hx, ho]⟩
    | _ => exact ⟨_, rfl⟩

/-- Finite numbers and truth values have an order, whatever their variants. -/
theorem exists_apply_of_isNumeric (op : Comparison) {v w : Value} (hv : v.isNumeric = true)
    (hw : w.isNumeric = true) (hvf : v.Finite) (hwf : w.Finite) : ∃ b, op.apply v w = some b := by
  obtain ⟨o, ho⟩ := exists_compareValue? hv hw hvf hwf
  refine ⟨op.holds o, ?_⟩
  unfold apply
  split
  · cases hv
  · rw [ho]
    rfl

theorem exists_apply_text {op : Comparison} (hop : op.isEquality = true) (s t : String) :
    ∃ b, op.apply (.text s) (.text t) = some b :=
  ⟨op.holds (compare s t), by simp [apply, hop, compareValue?]⟩

end Comparison

namespace Condition

variable {op : Comparison} {left right : Expression} {c : Condition} {ctx : ScanContext}

/-- The comparison of two operands was accepted by one of the checks: of a tag, of a cell that a
pointer chooses, or of two expressions. -/
inductive Accepts (op : Comparison) : Expression → Expression → Condition → Prop
  | tag {t : Tag} {right : Expression} {c : Condition} (h : ofCompare op t right = .ok c) :
    Accepts op (.tag t) right c
  | indirect {b : Block} {pointer right : Expression} {c : Condition}
    (h : ofCompareIndirect op b pointer right = .ok c) : Accepts op (.indirect b pointer) right c
  | expressions {left right : Expression} {c : Condition}
    (h : ofCompareExpressions op left right = .ok c) : Accepts op left right c

/-- What the check of a cell lets through: numbers with numbers, text with text for equality. -/
theorem checkComparison_eq_ok_iff {type : TagType} {name : String} {u : Unit} :
    checkComparison op type name right = .ok u ↔
      type ≠ .char ∧ right.isNumeric = true ∨
        type = .char ∧ op.isEquality = true ∧ right.isText = true := by
  unfold checkComparison
  split_ifs <;> simp_all

/-- A condition behind a check is made exactly if the check lets its operands through. -/
theorem checked_eq_ok_iff {check : Except LadderError Unit} {made : Condition} :
    (do check; return made) = .ok c ↔ check = .ok () ∧ c = made := by
  rw [bind_eq_ok]
  constructor
  · rintro ⟨⟨⟩, hcheck, h⟩
    cases h
    exact ⟨hcheck, rfl⟩
  · rintro ⟨hcheck, rfl⟩
    exact ⟨(), hcheck, rfl⟩

theorem ofCompare_eq_ok_iff {t : Tag} :
    ofCompare op t right = .ok c ↔
      checkComparison op t.type t.name right = .ok () ∧ c = .compare op t right :=
  checked_eq_ok_iff

theorem ofCompareIndirect_eq_ok_iff {b : Block} {pointer : Expression} :
    ofCompareIndirect op b pointer right = .ok c ↔
      checkComparison op b.type b.name right = .ok () ∧
        c = .compareIndirect op b pointer right :=
  checked_eq_ok_iff

theorem ofCompareExpressions_eq_ok_iff :
    ofCompareExpressions op left right = .ok c ↔
      (left.isNumeric = true ∧ right.isNumeric = true) ∧
        c = .compareExpressions op left right := by
  unfold ofCompareExpressions
  rw [← Bool.and_eq_true]
  split_ifs with h
  · exact ⟨fun hc => ⟨h, (Except.ok.inj hc).symm⟩, fun hc => congrArg Except.ok hc.2.symm⟩
  · exact ⟨nofun, fun hc => absurd hc.1 h⟩

namespace Accepts

/-- Whichever check it was, both operands are numeric, or both are text and the operator is an
equality. -/
theorem operands (h : Accepts op left right c) :
    (left.isNumeric = true ∧ right.isNumeric = true) ∨
      (op.isEquality = true ∧ left.staticType? = some .char ∧ right.staticType? = some .char) := by
  cases h with
  | tag h =>
    rcases checkComparison_eq_ok_iff.mp (ofCompare_eq_ok_iff.mp h).1 with ⟨htype, hright⟩ | h
    · exact .inl ⟨by simpa [Expression.isNumeric] using htype, hright⟩
    · exact .inr ⟨h.2.1, congrArg some h.1, by simpa [Expression.isText] using h.2.2⟩
  | indirect h =>
    rcases checkComparison_eq_ok_iff.mp (ofCompareIndirect_eq_ok_iff.mp h).1 with
      ⟨htype, hright⟩ | h
    · exact .inl ⟨by simpa [Expression.isNumeric] using htype, hright⟩
    · exact .inr ⟨h.2.1, congrArg some h.1, by simpa [Expression.isText] using h.2.2⟩
  | expressions h => exact .inl (ofCompareExpressions_eq_ok_iff.mp h).1

/-- However it was written, the condition evaluates the left operand, then the right one. -/
theorem holds_eq (h : Accepts op left right c) (ctx : ScanContext) :
    c.holds ctx =
      match left.evaluate ctx with
      | .ok v => compareWith ctx op v right
      | .error _ => false := by
  cases h with
  | tag h =>
    obtain ⟨-, rfl⟩ := ofCompare_eq_ok_iff.mp h
    rfl
  | @indirect b pointer _ _ h =>
    obtain ⟨-, rfl⟩ := ofCompareIndirect_eq_ok_iff.mp h
    simp only [Condition.holds, Expression.evaluate]
    cases b.pointed (pointer.evaluate ctx) <;> rfl
  | expressions h =>
    obtain ⟨-, rfl⟩ := ofCompareExpressions_eq_ok_iff.mp h
    rfl

/-- The complementary comparison of the same operands is accepted too. -/
theorem exists_negate (h : Accepts op left right c) : ∃ n, Accepts op.negate left right n := by
  cases h with
  | tag h =>
    refine ⟨_, .tag (ofCompare_eq_ok_iff.mpr ⟨?_, rfl⟩)⟩
    have hcheck := checkComparison_eq_ok_iff.mp (ofCompare_eq_ok_iff.mp h).1
    exact checkComparison_eq_ok_iff.mpr (op.isEquality_negate ▸ hcheck)
  | indirect h =>
    refine ⟨_, .indirect (ofCompareIndirect_eq_ok_iff.mpr ⟨?_, rfl⟩)⟩
    have hcheck := checkComparison_eq_ok_iff.mp (ofCompareIndirect_eq_ok_iff.mp h).1
    exact checkComparison_eq_ok_iff.mpr (op.isEquality_negate ▸ hcheck)
  | expressions h =>
    exact ⟨_, .expressions
      (ofCompareExpressions_eq_ok_iff.mpr ⟨(ofCompareExpressions_eq_ok_iff.mp h).1, rfl⟩)⟩

/-- The operator has an answer for the values of the operands. -/
theorem exists_apply (h : Accepts op left right c) (hl : left.InDomain ctx)
    (hr : right.InDomain ctx) {v w : Value} (hv : left.evaluate ctx = .ok v)
    (hw : right.evaluate ctx = .ok w) : ∃ b, op.apply v w = some b := by
  rcases h.operands with ⟨hleft, hright⟩ | ⟨hop, hleft, hright⟩
  · exact op.exists_apply_of_isNumeric (hl.isNumeric hleft hv) (hr.isNumeric hright hw)
      (hl.finite hv) (hr.finite hw)
  · obtain ⟨s, hs⟩ := (hl.text hleft).resolve_left (by simp [hv])
    obtain ⟨t, ht⟩ := (hr.text hright).resolve_left (by simp [hw])
    cases hv.symm.trans hs
    cases hw.symm.trans ht
    exact Comparison.exists_apply_text hop s t

theorem holds_of_apply (h : Accepts op left right c) {v w : Value} {b : Bool}
    (hv : left.evaluate ctx = .ok v) (hw : right.evaluate ctx = .ok w)
    (hb : op.apply v w = some b) : c.holds ctx = b := by
  simp [h.holds_eq, hv, compareWith, hw, hb]

theorem holds_of_fault (h : Accepts op left right c) {f : EvalFault}
    (hfault : left.evaluate ctx = .error f ∨ right.evaluate ctx = .error f) :
    c.holds ctx = false := by
  rw [h.holds_eq]
  rcases hfault with hfault | hfault
  · rw [hfault]
  · unfold compareWith
    rw [hfault]
    split <;> rfl

end Accepts

/-- What an accepted comparison means in one context. -/
structure Decides (ctx : ScanContext) (op : Comparison) (left right : Expression) (c : Condition) :
    Prop where
  /-- The operator has an answer for any values of the operands, and the condition gives it. -/
  answers : ∀ v w, left.evaluate ctx = .ok v → right.evaluate ctx = .ok w →
    ∃ b, op.apply v w = some b ∧ c.holds ctx = b
  /-- The complementary comparison can be written too, and says the opposite. -/
  negation : (∃ n, Accepts op.negate left right n) ∧
    ∀ v w n, left.evaluate ctx = .ok v → right.evaluate ctx = .ok w →
      Accepts op.negate left right n → n.holds ctx = !c.holds ctx
  /-- With an operand that has no value no comparison of the two holds. -/
  fault : ∀ f, left.evaluate ctx = .error f ∨ right.evaluate ctx = .error f →
    ∀ other d, Accepts other left right d → d.holds ctx = false

theorem Accepts.decides (h : Accepts op left right c) (hl : left.InDomain ctx)
    (hr : right.InDomain ctx) : Decides ctx op left right c where
  answers v w hv hw := by
    obtain ⟨b, hb⟩ := h.exists_apply hl hr hv hw
    exact ⟨b, hb, h.holds_of_apply hv hw hb⟩
  negation := by
    refine ⟨h.exists_negate, fun v w n hv hw hn => ?_⟩
    obtain ⟨b, hb⟩ := h.exists_apply hl hr hv hw
    have hnegate : op.negate.apply v w = some !b := by rw [op.apply_negate, hb, Option.map_some]
    rw [h.holds_of_apply hv hw hb, hn.holds_of_apply hv hw hnegate]
  fault f hfault _ _ hd := hd.holds_of_fault hfault

end Condition

end LadderLogic
