import LadderLogic.Proofs.Expression.Finite

/-!
What is known of an operand from its syntax. An expression that counts as numeric has no text for a
value, and one of static type CHAR has nothing else.
-/

set_option autoImplicit false

namespace LadderLogic

namespace TagType

variable {t : TagType} {v : Value}

theorem finite_of_holds (h : t.Holds v) : v.Finite := by
  cases v with
  | real x =>
    cases t with
    | real => exact h
    | _ => exact h.elim
  | _ => trivial

theorem isNumeric_of_holds (h : t.Holds v) (ht : t ≠ .char) : v.isNumeric = true := by
  cases v with
  | text s =>
    cases t with
    | char => exact absurd rfl ht
    | _ => exact h.elim
  | _ => rfl

theorem exists_text_of_holds (h : char.Holds v) : ∃ s, v = .text s := by
  cases v with
  | text s => exact ⟨s, rfl⟩
  | _ => exact h.elim

end TagType

theorem Number.toValue_isNumeric {a : Number} {v : Value} (h : a.toValue = .ok v) :
    v.isNumeric = true := by
  cases a with
  | int i =>
    cases h
    rfl
  | real x =>
    simp only [toValue] at h
    split at h <;> cases h
    rfl

namespace Expression

variable {ctx : ScanContext} {e : Expression}

/-- What every check takes for granted: the reals written in the expression are finite, and each
cell that it can read holds a value of its type. -/
structure InDomain (ctx : ScanContext) (e : Expression) : Prop where
  literals : e.LiteralsFinite
  cells : ∀ t, e.Mentions t → t.type.Holds (ctx.read t)

theorem InDomain.finite (h : e.InDomain ctx) {v : Value} (hv : e.evaluate ctx = .ok v) :
    v.Finite :=
  evaluate_finite h.literals (fun t ht => TagType.finite_of_holds (h.cells t ht)) hv

/-- Numeric leaves hold no text, and operators compute none. -/
theorem InDomain.isNumeric (h : e.InDomain ctx) (hnumeric : e.isNumeric = true) {v : Value}
    (hv : e.evaluate ctx = .ok v) : v.isNumeric = true := by
  rcases leaf?_or_computed? hv with hleaf | ⟨r, hr⟩
  · cases e with
    | literal w =>
      cases hleaf
      exact hnumeric
    | tag t =>
      cases hleaf
      have htype : t.type ≠ .char := by simpa [Expression.isNumeric] using hnumeric
      exact TagType.isNumeric_of_holds (h.cells t rfl) htype
    | indirect b pointer =>
      obtain ⟨t, ht, rfl⟩ := Option.map_eq_some_iff.mp hleaf
      obtain ⟨a, ha, rfl⟩ := Block.pointed_cell ht
      have htype : b.type ≠ .char := by simpa [Expression.isNumeric] using hnumeric
      exact TagType.isNumeric_of_holds (h.cells _ (.inl ⟨a, ha, rfl⟩)) htype
    | _ => cases hleaf
  · rw [evaluate_of_computed? hr, bind_eq_ok] at hv
    obtain ⟨a, -, ha⟩ := hv
    exact Number.toValue_isNumeric ha

/-- Only a pointer can keep an operand of type CHAR from being text. -/
theorem InDomain.text (h : e.InDomain ctx) (htype : e.staticType? = some .char) :
    e.evaluate ctx = .error .address ∨ ∃ s, e.evaluate ctx = .ok (.text s) := by
  cases e with
  | literal w =>
    cases w with
    | text s => exact .inr ⟨s, rfl⟩
    | _ => cases htype
  | tag t =>
    have hholds := h.cells t rfl
    rw [Option.some.inj htype] at hholds
    obtain ⟨s, hs⟩ := TagType.exists_text_of_holds hholds
    exact .inr ⟨s, congrArg Except.ok hs⟩
  | indirect b pointer =>
    simp only [evaluate]
    split
    case h_1 t ht =>
      obtain ⟨a, ha, rfl⟩ := Block.pointed_cell ht
      have hholds := h.cells _ (.inl ⟨a, ha, rfl⟩)
      rw [show (b.cell a).type = .char from Option.some.inj htype] at hholds
      obtain ⟨s, hs⟩ := TagType.exists_text_of_holds hholds
      exact .inr ⟨s, congrArg Except.ok hs⟩
    case h_2 => exact .inl rfl
  | _ => cases htype

end Expression

end LadderLogic
