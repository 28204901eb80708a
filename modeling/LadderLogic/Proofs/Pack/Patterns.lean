import LadderLogic.Proofs.Binary.Exact
import LadderLogic.Proofs.Effect.Transaction

/-!
Bit patterns of values. Every pattern of the width of a type stands for one value of it, with the
exception of the infinite and undefined reals, and a value can be had back from its pattern: an
integer as it is, a REAL in single precision.
-/

set_option autoImplicit false

namespace LadderLogic

open Binary

namespace Integer

variable {bits : Nat}

theorem residue_unsigned (bits : Nat) (i : Int) : residue bits false i = i % (2 ^ bits : Nat) := by
  rw [residue, if_neg Bool.false_ne_true, Nat.one_shiftLeft]

theorem residue_signed (bits : Nat) (i : Int) : residue bits true i = i.bmod (2 ^ bits) := by
  rw [residue, if_pos rfl, Nat.one_shiftLeft]

/-- The word of a residue, signed or not, is the word that it was taken of. -/
theorem toNat_residue {word : Nat} (h : word < 2 ^ bits) (isSigned : Bool) :
    (residue bits false (residue bits isSigned word)).toNat = word := by
  have hword : (word : Int) % (2 ^ bits : Nat) = word :=
    Int.emod_eq_of_lt (Int.natCast_nonneg word) (Int.ofNat_lt.mpr h)
  cases isSigned with
  | false => rw [residue_unsigned, residue_unsigned, Int.emod_emod, hword, Int.toNat_natCast]
  | true => rw [residue_unsigned, residue_signed, Int.bmod_emod, hword, Int.toNat_natCast]

/-- A residue is had back from its word. -/
theorem residue_toNat {isSigned : Bool} {i : Int} (h : residue bits isSigned i = i) :
    residue bits isSigned ((residue bits false i).toNat : Int) = i := by
  have hpos : ((2 ^ bits : Nat) : Int) ≠ 0 := by exact_mod_cast (Nat.two_pow_pos bits).ne'
  rw [Int.toNat_of_nonneg (residue_unsigned bits i ▸ Int.emod_nonneg i hpos), residue_unsigned]
  cases isSigned with
  | false => rw [residue_unsigned, Int.emod_emod, ← residue_unsigned, h]
  | true => rw [residue_signed, Int.emod_bmod, ← residue_signed, h]

theorem toNat_residue_lt (bits : Nat) (i : Int) : (residue bits false i).toNat < 2 ^ bits := by
  have hpos : (0 : Int) < (2 ^ bits : Nat) := by exact_mod_cast Nat.two_pow_pos bits
  have hlt := Int.emod_lt_of_pos i hpos
  rw [residue_unsigned]
  omega

end Integer

namespace TagType

/-- Bits that stand for a value of the type. -/
def IsPattern : TagType → Nat → Prop
  | real, bits => ∃ negative m e, single.decode bits = .finite negative m e
  | _, _ => True

/-- What a value keeps in the bits of a type: a REAL has single precision. -/
def rounded : TagType → Value → Value
  | real, .real x => .real (toSingle x)
  | _, v => v

theorem rounded_of_narrow {t : TagType} (h : t ∈ narrow) (v : Value) : t.rounded v = v := by
  rcases List.mem_pair.mp h with rfl | rfl <;> rfl

theorem packable_of_narrow {t : TagType} (h : t ∈ narrow) : t ∈ packable := by
  rcases List.mem_pair.mp h with rfl | rfl <;> decide

theorem packable_of_wide {t : TagType} (h : t ∈ wide) : t ∈ packable := by
  rcases List.mem_pair.mp h with rfl | rfl <;> decide

theorem width_of_narrow {t : TagType} (h : t ∈ narrow) : t.width = 16 := by
  rcases List.mem_pair.mp h with rfl | rfl <;> rfl

theorem width_of_wide {t : TagType} (h : t ∈ wide) : t.width = 32 := by
  rcases List.mem_pair.mp h with rfl | rfl <;> rfl

theorem isPattern_of_narrow {t : TagType} (h : t ∈ narrow) (bits : Nat) : t.IsPattern bits := by
  rcases List.mem_pair.mp h with rfl | rfl <;> trivial

/-- The value of a pattern has that pattern. -/
theorem valueOf_pattern {t : TagType} (ht : t ∈ packable) {bits : Nat}
    (hbits : bits < 2 ^ t.width) (hpattern : t.IsPattern bits) :
    ∃ v, t.valueOf bits = some v ∧ t.patternOf v = some bits := by
  simp only [packable, List.mem_cons, List.not_mem_nil, or_false] at ht
  rcases ht with rfl | rfl | rfl | rfl
  · exact ⟨_, rfl, congrArg some (Integer.toNat_residue hbits true)⟩
  · exact ⟨_, rfl, congrArg some (Integer.toNat_residue hbits true)⟩
  · exact ⟨_, rfl, congrArg some (Integer.toNat_residue hbits false)⟩
  · obtain ⟨negative, m, e, hfinite⟩ := hpattern
    refine ⟨.real (ofSingleWord bits), ?_, congrArg some (singleWord_ofSingleWord hbits hfinite)⟩
    simp only [valueOf, hfinite]

/-- The words of an integral type are the residues that belong to it. -/
theorem residue_of_holds {t : TagType} {i : Int} (h : t.Holds (.int i)) :
    ∃ isSigned, Integer.residue t.width isSigned i = i ∧
      ∀ bits, t.valueOf bits = some (.int (Integer.residue t.width isSigned bits)) := by
  cases t with
  | int | dint =>
    refine ⟨true, ?_, fun _ => rfl⟩
    obtain ⟨hlow, hhigh⟩ := h
    rw [Integer.residue_signed]
    exact Int.bmod_eq_of_le (by simp [width, bitWidth?]; omega) (by simp [width, bitWidth?]; omega)
  | word =>
    refine ⟨false, ?_, fun _ => rfl⟩
    obtain ⟨hlow, hhigh⟩ := h
    rw [Integer.residue_unsigned]
    exact Int.emod_eq_of_lt hlow (by simp [width, bitWidth?]; omega)
  | bool | real | char => exact h.elim

/-- A value of the type has a pattern, and that gives it back in the precision of the type, if it
does not get too large there. -/
theorem patternOf_holds {t : TagType} (ht : t ∈ packable) {v : Value} (hv : t.Holds v) :
    ∃ bits, t.patternOf v = some bits ∧ bits < 2 ^ t.width ∧
      (t.Holds (t.rounded v) → t.valueOf bits = some (t.rounded v)) := by
  cases v with
  | int i =>
    obtain ⟨isSigned, hresidue, hvalue⟩ := residue_of_holds hv
    refine ⟨(Integer.residue t.width false i).toNat, ?_, Integer.toNat_residue_lt _ i, fun _ => ?_⟩
    · cases t <;> first | rfl | exact hv.elim
    · rw [hvalue, Integer.residue_toNat hresidue]
      cases t <;> rfl
  | real x =>
    obtain rfl : t = real := by cases t <;> first | rfl | exact hv.elim
    refine ⟨singleWord x, rfl, singleWord_lt x, fun hrounded => ?_⟩
    obtain ⟨negative, m, e, hfinite⟩ := decode_of_isFinite_ofSingleWord hrounded
    simp only [valueOf, hfinite]
    rfl
  | bool b =>
    cases t <;> first | exact hv.elim | simp [packable] at ht
  | text s =>
    cases t <;> first | exact hv.elim | simp [packable] at ht

/-- Bits without a value are those of a REAL that is infinite or undefined. -/
theorem valueOf_of_not_isPattern {t : TagType} {bits : Nat} (h : ¬t.IsPattern bits) :
    t.valueOf bits = none := by
  cases t with
  | real =>
    simp only [valueOf]
    split
    case h_1 hfinite => exact (h ⟨_, _, _, hfinite⟩).elim
    case h_2 => rfl
  | _ => exact (h trivial).elim

end TagType

namespace Pack

theorem ofBits_lt (bits : List Bool) : ofBits bits < 2 ^ bits.length := by
  induction bits with
  | nil => decide
  | cons b bits ih =>
    rw [ofBits, List.length_cons, pow_succ]
    cases b <;> simp <;> omega

/-- A bit of the number is a bit of the list, and behind the list there is none. -/
theorem testBit_ofBits (bits : List Bool) (j : Nat) :
    (ofBits bits).testBit j = true ↔ bits[j]? = some true := by
  induction bits generalizing j with
  | nil => simp [ofBits]
  | cons b bits ih =>
    have hhalf : ofBits (b :: bits) / 2 = ofBits bits := by
      rw [ofBits]
      split_ifs <;> omega
    cases j with
    | zero =>
      rw [Nat.testBit_zero, ofBits]
      cases b <;> simp
    | succ j => rw [Nat.testBit_succ, hhalf, ih, List.getElem?_cons_succ]

theorem ofBits_toBits {count n : Nat} (h : n < 2 ^ count) : ofBits (toBits count n) = n := by
  induction count generalizing n with
  | zero =>
    rw [pow_zero, Nat.lt_one_iff] at h
    rw [toBits, ofBits, h]
  | succ count ih =>
    rw [pow_succ] at h
    rw [toBits, ofBits, ih (by omega)]
    by_cases hlow : n % 2 = 1
    · rw [if_pos (beq_iff_eq.mpr hlow)]
      omega
    · rw [if_neg (by simpa using hlow)]
      omega

theorem length_toBits (count n : Nat) : (toBits count n).length = count := by
  rw [toBits_eq, List.length_map, List.length_range]

end Pack

end LadderLogic
