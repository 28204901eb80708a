import LadderLogic.Instruction.Pack
import LadderLogic.Proofs.Binary.Range

/-!
Every way by which a value enters a cell ends in the domain of the cell: the copy law, the
calculation law, and raw bits.
-/

set_option autoImplicit false

namespace LadderLogic

open Binary

namespace Integer

theorem clamp_mem {low high : Int} (h : low ≤ high) (i : Int) :
    low ≤ clamp low high i ∧ clamp low high i ≤ high := by
  unfold clamp
  split_ifs <;> omega

theorem le_clamp {low high i b : Int} (h : b ≤ i) (hb : b ≤ high) : b ≤ clamp low high i := by
  unfold clamp
  split_ifs <;> omega

theorem residue_int_mem (i : Int) : -32768 ≤ residue 16 true i ∧ residue 16 true i ≤ 32767 := by
  have hlow := Int.le_bmod (x := i) (m := 65536) (by decide)
  have hhigh := Int.bmod_lt (x := i) (m := 65536) (by decide)
  change -32768 ≤ i.bmod 65536 ∧ i.bmod 65536 ≤ 32767
  omega

theorem residue_dint_mem (i : Int) :
    -2147483648 ≤ residue 32 true i ∧ residue 32 true i ≤ 2147483647 := by
  have hlow := Int.le_bmod (x := i) (m := 4294967296) (by decide)
  have hhigh := Int.bmod_lt (x := i) (m := 4294967296) (by decide)
  change -2147483648 ≤ i.bmod 4294967296 ∧ i.bmod 4294967296 ≤ 2147483647
  omega

theorem residue_word_mem (i : Int) : 0 ≤ residue 16 false i ∧ residue 16 false i ≤ 65535 := by
  change 0 ≤ i % 65536 ∧ i % 65536 ≤ 65535
  omega

theorem natAbs_le_of_fits {i : Int} (h : Fits i) : i.natAbs ≤ 2 ^ 63 := by
  obtain ⟨hlow, hhigh⟩ := h
  unfold least at hlow
  unfold greatest at hhigh
  omega

end Integer

namespace TagType

/-- An integer clamped into the bounds of an integral type belongs to it. -/
theorem holds_clamp {t : TagType} {low high : Int} (ht : t.isInteger)
    (hb : t.bounds? = some (low, high)) (i : Int) :
    t.Holds (.int (Integer.clamp low high i)) := by
  cases t <;> simp only [isInteger, Bool.false_eq_true] at ht <;>
    simp only [bounds?, Option.some.injEq, Prod.mk.injEq] at hb <;>
    obtain ⟨rfl, rfl⟩ := hb <;> exact Integer.clamp_mem (by decide) i

/-- The copy law stores elements of the domain. -/
theorem storeCopy_holds {t : TagType} {v w : Value} (h : t.storeCopy v = some w) : t.Holds w := by
  cases t with
  | bool =>
    simp only [storeCopy] at h
    split at h <;> cases h
    trivial
  | int | dint | word =>
    simp only [storeCopy, bounds?, Option.map_eq_some_iff] at h
    obtain ⟨i, -, rfl⟩ := h
    exact holds_clamp rfl rfl i
  | real =>
    simp only [storeCopy, Option.map_eq_some_iff] at h
    obtain ⟨x, -, rfl⟩ := h
    change isFinite _ = true
    split
    case isTrue hx => exact clampSingle_isFinite hx
    case isFalse => decide +kernel
  | char =>
    cases v with
    | text s =>
      simp only [storeCopy] at h
      split at h <;> cases h
      assumption
    | _ => cases h

/-- A cell takes over every unsigned 16-bit integer. -/
theorem storeWord_holds {t : TagType} (ht : t.isNumeric) {i : Int} (h : 0 ≤ i ∧ i ≤ 65535) :
    t.Holds (t.storeWord i) := by
  cases t with
  | bool | char => simp only [isNumeric, Bool.false_eq_true] at ht
  | int => exact Integer.residue_int_mem i
  | dint =>
    change -2147483648 ≤ i ∧ i ≤ 2147483647
    omega
  | word => exact h
  | real =>
    have habs : i.natAbs ≤ 2 ^ 63 := by omega
    exact ofInt_isFinite habs

theorem calcReal?_holds {v w : Value} (hv : ∀ i, v = .int i → Integer.Fits i)
    (h : calcReal? v = some w) : TagType.real.Holds w := by
  cases v with
  | bool b =>
    simp only [calcReal?, Value.toReal?, Option.map_some, Option.some.injEq] at h
    subst h
    cases b <;> (change isFinite _ = true; decide +kernel)
  | int i =>
    simp only [calcReal?, Value.toReal?, Option.map_some, Option.some.injEq] at h
    subst h
    exact toSingle_ofInt_isFinite (Integer.natAbs_le_of_fits (hv i rfl))
  | real x =>
    simp only [calcReal?] at h
    split at h <;> cases h
    assumption
  | text s => simp [calcReal?, Value.toReal?] at h

/-- The calculation law stores elements of the domain of a numeric cell. -/
theorem storeCalc_holds {t : TagType} (ht : t.isNumeric) {v w : Value} {hex : Bool}
    (hv : ∀ i, v = .int i → Integer.Fits i) (h : t.storeCalc v hex = some w) : t.Holds w := by
  unfold storeCalc at h
  cases hi : calcInteger? v with
  | none => simp [hi] at h
  | some i =>
    simp only [hi] at h
    split at h
    case isTrue =>
      cases h
      exact storeWord_holds ht (Integer.residue_word_mem i)
    case isFalse =>
      cases t with
      | bool | char => simp only [isNumeric, Bool.false_eq_true] at ht
      | int =>
        cases h
        exact Integer.residue_int_mem i
      | dint =>
        cases h
        exact Integer.residue_dint_mem i
      | word =>
        cases h
        exact Integer.residue_word_mem i
      | real => exact calcReal?_holds hv h

/-- Raw bits that a type can hold give an element of its domain. -/
theorem valueOf_holds {t : TagType} {bits : Nat} {w : Value} (h : t.valueOf bits = some w) :
    t.Holds w := by
  cases t with
  | bool =>
    cases h
    trivial
  | int =>
    cases h
    exact Integer.residue_int_mem bits
  | dint =>
    cases h
    exact Integer.residue_dint_mem bits
  | word =>
    cases h
    exact Integer.residue_word_mem bits
  | real =>
    simp only [valueOf] at h
    split at h
    case h_1 hd =>
      cases h
      exact isFinite_ofSingleWord hd
    case h_2 => cases h
  | char => cases h

/-- What the types of accumulators, steps and search results hold. -/
theorem holds_counter_zero {t : TagType} (h : t ∈ [.int, .dint]) : t.Holds (.int 0) := by
  simp only [List.mem_cons, List.not_mem_nil, or_false] at h
  rcases h with rfl | rfl <;> decide

end TagType

end LadderLogic
