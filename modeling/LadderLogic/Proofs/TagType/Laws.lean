import LadderLogic.Proofs.Expression.Integers
import LadderLogic.Proofs.TagType.Domain

/-!
The two store laws as projections of the integers onto the domain of an integral type. A copy takes
the nearest element. A calculation takes the only element that agrees modulo the width of the cell,
so that it makes no difference whether operands are stored before they are added, subtracted or
multiplied.
-/

set_option autoImplicit false

namespace LadderLogic

namespace Integer

variable {low high m i j : Int} {f : Int → Int}

/-- An element of `low..high` that no other one is nearer to `i` than. -/
structure IsNearest (low high i c : Int) : Prop where
  low_le : low ≤ c
  le_high : c ≤ high
  near : ∀ d, low ≤ d → d ≤ high → |i - c| ≤ |i - d|

theorem isNearest_clamp (h : low ≤ high) (i : Int) : IsNearest low high i (clamp low high i) := by
  obtain ⟨hlow, hhigh⟩ := clamp_mem h i
  refine ⟨hlow, hhigh, ?_⟩
  intro d hd hd'
  simp only [Int.abs_eq_natAbs, clamp]
  split_ifs <;> omega

theorem IsNearest.eq_clamp {c : Int} (h : IsNearest low high i c) : c = clamp low high i := by
  have hle : low ≤ high := h.low_le.trans h.le_high
  have hmem := clamp_mem hle i
  have hnear := h.near _ hmem.1 hmem.2
  have hlow := h.low_le
  have hhigh := h.le_high
  simp only [Int.abs_eq_natAbs, clamp] at hnear ⊢
  split_ifs at hnear ⊢ <;> omega

theorem isNearest_iff (h : low ≤ high) {c : Int} :
    IsNearest low high i c ↔ c = clamp low high i := by
  constructor
  · intro hc
    exact hc.eq_clamp
  · rintro rfl
    exact isNearest_clamp h i

theorem clamp_monotone (h : low ≤ high) : Monotone (clamp low high) := by
  intro i j hij
  unfold clamp
  split_ifs <;> omega

theorem clamp_of_mem (hlow : low ≤ i) (hhigh : i ≤ high) : clamp low high i = i := by
  unfold clamp
  rw [if_neg (not_lt.mpr hlow), if_neg (not_lt.mpr hhigh)]

/-- `f` takes every integer to an element of `low..high` that agrees with it modulo `m`. -/
structure Projects (low high m : Int) (f : Int → Int) : Prop where
  low_le : ∀ i, low ≤ f i
  le_high : ∀ i, f i ≤ high
  modEq : ∀ i, f i ≡ i [ZMOD m]

/-- In a range that is no longer than the modulus, residues are equal if they agree. -/
theorem eq_of_modEq (hlength : high - low < m) (hi : low ≤ i ∧ i ≤ high)
    (hj : low ≤ j ∧ j ≤ high) (h : i ≡ j [ZMOD m]) : i = j := by
  have hdvd : m ∣ j - i := h.dvd
  have habs : |j - i| < m := by
    rw [abs_lt]
    constructor <;> omega
  have hzero := Int.eq_zero_of_abs_lt_dvd hdvd habs
  omega

namespace Projects

variable (h : Projects low high m f) (hlength : high - low < m)
include h

theorem mem (i : Int) : low ≤ f i ∧ f i ≤ high := ⟨h.low_le i, h.le_high i⟩

include hlength

/-- The projection is settled by its range and its modulus. -/
theorem eq_iff (i r : Int) : r = f i ↔ low ≤ r ∧ r ≤ high ∧ r ≡ i [ZMOD m] := by
  constructor
  · rintro rfl
    exact ⟨h.low_le i, h.le_high i, h.modEq i⟩
  · rintro ⟨hlow, hhigh, hmod⟩
    exact eq_of_modEq hlength ⟨hlow, hhigh⟩ (h.mem i) (hmod.trans (h.modEq i).symm)

theorem self (hlow : low ≤ i) (hhigh : i ≤ high) : f i = i :=
  ((h.eq_iff hlength i i).mpr ⟨hlow, hhigh, rfl⟩).symm

theorem congr (hij : i ≡ j [ZMOD m]) : f i = f j := by
  rw [h.eq_iff hlength]
  exact ⟨h.low_le i, h.le_high i, (h.modEq i).trans hij⟩

theorem add (i j : Int) : f (f i + f j) = f (i + j) :=
  h.congr hlength ((h.modEq i).add (h.modEq j))

theorem sub (i j : Int) : f (f i - f j) = f (i - j) :=
  h.congr hlength ((h.modEq i).sub (h.modEq j))

theorem mul (i j : Int) : f (f i * f j) = f (i * j) :=
  h.congr hlength ((h.modEq i).mul (h.modEq j))

end Projects

theorem residue_modEq (bits : ℕ) (isSigned : Bool) (i : Int) :
    residue bits isSigned i ≡ i [ZMOD 2 ^ bits] := by
  have hm : ((1 <<< bits : ℕ) : Int) = 2 ^ bits := by
    rw [Nat.one_shiftLeft]
    push_cast
    rfl
  rw [← hm]
  cases isSigned with
  | true => exact Int.bmod_emod
  | false => exact Int.mod_modEq i _

theorem projects_int : Projects (-32768) 32767 (2 ^ 16) (residue 16 true) where
  low_le i := (residue_int_mem i).1
  le_high i := (residue_int_mem i).2
  modEq := residue_modEq 16 true

theorem projects_dint : Projects (-2147483648) 2147483647 (2 ^ 32) (residue 32 true) where
  low_le i := (residue_dint_mem i).1
  le_high i := (residue_dint_mem i).2
  modEq := residue_modEq 32 true

theorem projects_word : Projects 0 65535 (2 ^ 16) (residue 16 false) where
  low_le i := (residue_word_mem i).1
  le_high i := (residue_word_mem i).2
  modEq := residue_modEq 16 false

/-- Operands of 32 bits do not leave the 64-bit range. -/
theorem fits_of_operands (hi : i.natAbs ≤ 2147483648) (hj : j.natAbs ≤ 2147483648) :
    Fits (i + j) ∧ Fits (i - j) ∧ Fits (i * j) := by
  have hmul : (i * j).natAbs ≤ 2147483648 * 2147483648 := by
    rw [Int.natAbs_mul]
    exact Nat.mul_le_mul hi hj
  refine ⟨fits_of_small (by omega), fits_of_small (by omega), ?_⟩
  unfold Fits least greatest
  omega

end Integer

namespace TagType

open Integer

variable {t : TagType} {low high : Int} {width : ℕ} {copied wrapped hex : Int → Int}

/-- What a type with the domain `low..high` stores of an integer: `copied` under the copy law,
`wrapped` under the calculation law, and `hex` under the calculation law in hexadecimal mode. -/
structure StoreLaws (t : TagType) (low high : Int) (width : ℕ) (copied wrapped hex : Int → Int) :
    Prop where
  storeCopy : ∀ i, t.storeCopy (.int i) = some (.int (copied i))
  storeCalc : ∀ i, t.storeCalc (.int i) false = some (.int (wrapped i))
  storeHex : ∀ i, t.storeCalc (.int i) true = some (.int (hex i))
  nearest : ∀ i c, c = copied i ↔ IsNearest low high i c
  monotone : Monotone copied
  residue : ∀ i r, r = wrapped i ↔ low ≤ r ∧ r ≤ high ∧ r ≡ i [ZMOD 2 ^ width]
  hexResidue : ∀ i, hex i ≡ i [ZMOD 2 ^ 16]
  hexUnsigned : t ≠ .int → ∀ i, 0 ≤ hex i ∧ hex i ≤ 65535
  hexSigned : t = .int → ∀ i, low ≤ hex i ∧ hex i ≤ high
  self : ∀ i, low ≤ i → i ≤ high → copied i = i ∧ wrapped i = i
  again : ∀ i, copied (copied i) = copied i ∧ wrapped (wrapped i) = wrapped i
  add : ∀ i j, wrapped (wrapped i + wrapped j) = wrapped (i + j)
  sub : ∀ i j, wrapped (wrapped i - wrapped j) = wrapped (i - j)
  mul : ∀ i j, wrapped (wrapped i * wrapped j) = wrapped (i * j)
  /-- What is computed from stored operands is exact. -/
  fits : ∀ i j, Fits (wrapped i + wrapped j) ∧ Fits (wrapped i - wrapped j) ∧
    Fits (wrapped i * wrapped j)

/-- Clamping and a projection modulo the number of elements of the domain keep the laws. -/
theorem StoreLaws.of_projects (hlow : -2147483648 ≤ low) (hhigh : high ≤ 2147483647)
    (hle : low ≤ high) (hlength : high - low < 2 ^ width)
    (storeCopy : ∀ i, t.storeCopy (.int i) = some (.int (clamp low high i)))
    (storeCalc : ∀ i, t.storeCalc (.int i) false = some (.int (wrapped i)))
    (storeHex : ∀ i, t.storeCalc (.int i) true = some (.int (hex i)))
    (hwrapped : Projects low high (2 ^ width) wrapped)
    (hexResidue : ∀ i, hex i ≡ i [ZMOD 2 ^ 16])
    (hexUnsigned : t ≠ .int → ∀ i, 0 ≤ hex i ∧ hex i ≤ 65535)
    (hexSigned : t = .int → ∀ i, low ≤ hex i ∧ hex i ≤ high) :
    StoreLaws t low high width (clamp low high) wrapped hex where
  storeCopy := storeCopy
  storeCalc := storeCalc
  storeHex := storeHex
  nearest i c := (isNearest_iff hle).symm
  monotone := clamp_monotone hle
  residue := hwrapped.eq_iff hlength
  hexResidue := hexResidue
  hexUnsigned := hexUnsigned
  hexSigned := hexSigned
  self i hi hi' := ⟨clamp_of_mem hi hi', hwrapped.self hlength hi hi'⟩
  again i := by
    have hmem := clamp_mem hle i
    have hstored := hwrapped.mem i
    exact ⟨clamp_of_mem hmem.1 hmem.2, hwrapped.self hlength hstored.1 hstored.2⟩
  add := hwrapped.add hlength
  sub := hwrapped.sub hlength
  mul := hwrapped.mul hlength
  fits i j := by
    have hi := hwrapped.mem i
    have hj := hwrapped.mem j
    apply fits_of_operands <;> omega

theorem storeLaws_int : StoreLaws .int (-32768) 32767 16 (clamp (-32768) 32767)
    (Integer.residue 16 true) (fun i => Integer.residue 16 true (Integer.residue 16 false i)) := by
  apply StoreLaws.of_projects (by decide) (by decide) (by decide) (by decide) (fun _ => rfl)
    (fun _ => rfl) (fun _ => rfl) projects_int
  · intro i
    exact (projects_int.modEq _).trans (projects_word.modEq i)
  · intro h
    exact absurd rfl h
  · intro _ i
    exact projects_int.mem _

theorem storeLaws_dint : StoreLaws .dint (-2147483648) 2147483647 32
    (clamp (-2147483648) 2147483647) (Integer.residue 32 true) (Integer.residue 16 false) := by
  apply StoreLaws.of_projects (by decide) (by decide) (by decide) (by decide) (fun _ => rfl)
    (fun _ => rfl) (fun _ => rfl) projects_dint projects_word.modEq
  · intro _ i
    exact projects_word.mem i
  · intro h
    cases h

theorem storeLaws_word : StoreLaws .word 0 65535 16 (clamp 0 65535) (Integer.residue 16 false)
    (Integer.residue 16 false) := by
  apply StoreLaws.of_projects (by decide) (by decide) (by decide) (by decide) (fun _ => rfl)
    (fun _ => rfl) (fun _ => rfl) projects_word projects_word.modEq
  · intro _ i
    exact projects_word.mem i
  · intro h
    cases h

/-- A copy stores the nearest element of the domain, a calculation the one that agrees modulo the
width, for each of the integral types. -/
theorem exists_storeLaws (ht : t.isInteger = true) (hbounds : t.bounds? = some (low, high))
    (hwidth : t.bitWidth? = some width) :
    ∃ copied wrapped hex, StoreLaws t low high width copied wrapped hex := by
  cases t with
  | bool | real | char => cases ht
  | int =>
    cases hbounds
    cases hwidth
    exact ⟨_, _, _, storeLaws_int⟩
  | dint =>
    cases hbounds
    cases hwidth
    exact ⟨_, _, _, storeLaws_dint⟩
  | word =>
    cases hbounds
    cases hwidth
    exact ⟨_, _, _, storeLaws_word⟩

/-- In an INT cell 60000 is copied as the greatest element and calculated as -5536. -/
theorem exists_storeLaws_sample :
    TagType.int.isInteger = true ∧ TagType.int.bounds? = some (-32768, 32767) ∧
      TagType.int.bitWidth? = some 16 ∧
      ∃ copied wrapped hex, StoreLaws .int (-32768) 32767 16 copied wrapped hex ∧
        copied 60000 = 32767 ∧ wrapped 60000 = -5536 ∧
        wrapped (-5536 * -5536) = wrapped (60000 * 60000) := by
  obtain ⟨copied, wrapped, hex, h⟩ := exists_storeLaws (t := .int) rfl rfl rfl
  have hcopied : 32767 = copied 60000 :=
    (h.nearest 60000 32767).mpr (isNearest_clamp (by decide) 60000)
  have hwrapped : -5536 = wrapped 60000 := (h.residue 60000 (-5536)).mpr (by decide)
  refine ⟨rfl, rfl, rfl, copied, wrapped, hex, h, hcopied.symm, hwrapped.symm, ?_⟩
  rw [hwrapped]
  exact h.mul 60000 60000

end TagType

end LadderLogic
