import Mathlib
import LadderLogic.Value

/-!
The two readings of a real agree: the datum of its word, and its unpacked form, on which arithmetic
and order are defined. Packing a canonical form and unpacking it again gives it back.
-/

set_option autoImplicit false

namespace LadderLogic.Binary

open Float.Model (UnpackedFloat)
open Float.Model.UnpackedFloat

abbrev binary64 : Float.Model.Format := Float.Model.Format.binary64

def unpacked (x : Float) : UnpackedFloat := x.toModel.unpack

def Datum.ofUnpacked : UnpackedFloat → Datum
  | .notANumber => .nan
  | .infinity s => .infinite (s == .negative)
  | .zero s => .finite (s == .negative) 0 (-1074)
  | .finite s m e _ => .finite (s == .negative) m e

variable (b : BitVec 64)

theorem unpackExponent_toNat :
    (@unpackExponent binary64 b).toNat = b.toNat / 2 ^ 52 % 2 ^ 11 := by
  simp [unpackExponent, BitVec.extractLsb, BitVec.extractLsb', Nat.shiftRight_eq_div_pow]

theorem unpackMantissa_toNat :
    (@unpackMantissa binary64 b).toNat = b.toNat % 2 ^ 52 := by
  simp [unpackMantissa, BitVec.extractLsb, BitVec.extractLsb']

theorem unpackSign_toNat : (@unpackSign binary64 b).toNat = b.toNat / 2 ^ 63 % 2 := by
  simp [unpackSign, BitVec.extractLsb, BitVec.extractLsb', Nat.shiftRight_eq_div_pow]

theorem unpackSign_negative :
    (Sign.ofBitVec (@unpackSign binary64 b) == Sign.negative) =
      decide (b.toNat / 2 ^ 63 % 2 = 1) := by
  have h := unpackSign_toNat b
  unfold Sign.ofBitVec
  split
  case isTrue hs =>
    rw [hs] at h
    have hb : b.toNat / 2 ^ 63 % 2 = 0 := h.symm
    rw [hb]
    rfl
  case isFalse hs =>
    have hne : (@unpackSign binary64 b).toNat ≠ 0 := fun h0 =>
      hs (BitVec.eq_of_toNat_eq h0)
    have hb : b.toNat / 2 ^ 63 % 2 = 1 := by omega
    rw [hb]
    rfl

theorem one_append_toNat (m : BitVec 52) : (1#1 ++ m).toNat = 2 ^ 52 + m.toNat := by
  have h := m.isLt
  rw [BitVec.toNat_append, ← Nat.shiftLeft_add_eq_or_of_lt h]
  rfl

theorem double_infinity : double.infinity = 2047 * 2 ^ 52 := by decide

theorem double_signBit : double.signBit = 2 ^ 63 := by decide

theorem double_fractionBits : double.fractionBits = 52 := by decide

theorem double_minExponent : double.minExponent = -1074 := by decide

theorem decode_toNat : double.decode b.toNat = .ofUnpacked (unpack binary64 b) := by
  have he := unpackExponent_toNat b
  have hm := unpackMantissa_toNat b
  have hs := unpackSign_negative b
  have hb := b.isLt
  have hexp : (@unpackExponent binary64 b = -1#_) ↔ b.toNat / 2 ^ 52 % 2 ^ 11 = 2047 := by
    rw [← BitVec.toNat_inj, he]; rfl
  have hexp0 : (@unpackExponent binary64 b = 0#_) ↔ b.toNat / 2 ^ 52 % 2 ^ 11 = 0 := by
    rw [← BitVec.toNat_inj, he]; rfl
  have hman0 : (@unpackMantissa binary64 b = 0#_) ↔ b.toNat % 2 ^ 52 = 0 := by
    rw [← BitVec.toNat_inj, hm]; rfl
  have hmag : b.toNat % 2 ^ 63 = b.toNat / 2 ^ 52 % 2 ^ 11 * 2 ^ 52 + b.toNat % 2 ^ 52 := by omega
  unfold Format.decode Format.decodeMagnitude unpack
  simp only [hexp, hexp0, hman0, double_infinity, double_signBit, double_fractionBits,
    double_minExponent, Nat.shiftRight_eq_div_pow, Nat.one_shiftLeft]
  by_cases htop : b.toNat / 2 ^ 52 % 2 ^ 11 = 2047
  · rw [if_pos htop]
    by_cases hzero : b.toNat % 2 ^ 52 = 0
    · rw [if_pos hzero, if_neg (by omega), if_pos (by omega), ← hs]
      rfl
    · rw [if_neg hzero, if_pos (by omega)]
      rfl
  · rw [if_neg htop, if_neg (by omega), if_neg (by omega)]
    by_cases hlow : b.toNat / 2 ^ 52 % 2 ^ 11 = 0
    · rw [if_pos (by omega), if_pos hlow, ← hs]
      split
      case isTrue hzero =>
        have hf : b.toNat % 2 ^ 63 % 2 ^ 52 = 0 := by omega
        rw [hf]
        rfl
      case isFalse hzero =>
        have hf : b.toNat % 2 ^ 63 % 2 ^ 52 = b.toNat % 2 ^ 52 := by omega
        rw [hf]
        simp only [Datum.ofUnpacked, hm, he, hlow]
        rfl
    · rw [if_neg (by omega), if_neg hlow, ← hs]
      have hf : b.toNat % 2 ^ 63 % 2 ^ 52 = b.toNat % 2 ^ 52 := by omega
      have hx : b.toNat % 2 ^ 63 / 2 ^ 52 = b.toNat / 2 ^ 52 % 2 ^ 11 := by omega
      rw [hf, hx]
      simp only [Datum.ofUnpacked, one_append_toNat, hm, he, Datum.finite.injEq, true_and]
      refine ⟨by omega, ?_⟩
      change _ = ((b.toNat / 2 ^ 52 % 2 ^ 11 : Nat) : Int) - (1023 + 52 : Nat)
      omega

@[simp] theorem ofBitVec_toBitVec (s : Sign) : Sign.ofBitVec s.toBitVec = s := by
  cases s <;> rfl

@[simp] theorem unpackSign_packComponents (s : Sign) (e : BitVec 11) (m : BitVec 52) :
    unpackSign (packComponents binary64 s e m) = s.toBitVec := by
  ext i hi
  obtain rfl : i = 0 := by omega
  have h : (s.toBitVec ++ e ++ m).getLsbD 63 = s.toBitVec[0] := by
    rw [BitVec.getLsbD_append, if_neg (by decide), BitVec.getLsbD_append, if_neg (by decide)]
    rfl
  simp only [unpackSign, packComponents, BitVec.getElem_cast, BitVec.getElem_extract]
  exact h

/-- Unpacking what was put together from its fields. -/
theorem unpack_packComponents (s : Sign) (e : BitVec 11) (m : BitVec 52) :
    unpack binary64 (packComponents binary64 s e m) =
      if e = -1#_ then (if m = 0#_ then .infinity s else .notANumber)
      else if e = 0#_ then
        if h : m = 0#_ then .zero s
        else .finite s m.toNat (-1074) (by
          rcases Nat.eq_zero_or_pos m.toNat with h0 | h0
          · exact absurd (BitVec.eq_of_toNat_eq h0) h
          · exact h0)
      else .finite s (1#1 ++ m).toNat (e.toNat - 1075) (by rw [one_append_toNat]; omega) := by
  unfold unpack
  simp only [unpackExponent_packComponents, unpackMantissa_packComponents,
    unpackSign_packComponents, ofBitVec_toBitVec]
  by_cases he : e = 0#_
  · subst he
    rfl
  · simp only [he, if_false]
    rfl

theorem unpack_pack_normal (s : Sign) {m : Nat} {e : Int} (hm : 0 < m) (lo : 2 ^ 52 ≤ m)
    (hi : m < 2 ^ 53) (least : -1074 ≤ e) (top : e ≤ 971) :
    unpack binary64 (pack binary64 (.finite s m e hm)) = .finite s m e hm := by
  have hlog : m.log2 = 52 := (Nat.log2_eq_iff hm.ne').mpr ⟨lo, hi⟩
  have hbias : (e + binary64.exponentBias + binary64.mantissaBitsWithoutImplicit).toNat =
      (e + 1075).toNat := by
    change (e + (1023 : Nat) + (52 : Nat)).toNat = _
    omega
  have hexp : (BitVec.ofNat 11 (e + 1075).toNat).toNat = (e + 1075).toNat := by
    rw [BitVec.toNat_ofNat, Nat.mod_eq_of_lt (by omega)]
  have hman : (BitVec.ofNat 52 m).toNat = m - 2 ^ 52 := by
    rw [BitVec.toNat_ofNat]
    omega
  simp only [pack, hbias, hlog]
  rw [if_neg (by omega), if_pos (show 52 + 1 = binary64.mantissaBits from rfl), unpack_packComponents,
    if_neg, if_neg]
  · simp only [one_append_toNat, hman, hexp, UnpackedFloat.finite.injEq, true_and]
    omega
  · rw [← BitVec.toNat_inj, hexp]
    change (e + 1075).toNat ≠ 0
    omega
  · rw [← BitVec.toNat_inj, hexp]
    change (e + 1075).toNat ≠ 2047
    omega

theorem unpack_pack_subnormal (s : Sign) {m : Nat} (hm : 0 < m) (hi : m < 2 ^ 52) :
    unpack binary64 (pack binary64 (.finite s m (-1074) hm)) = .finite s m (-1074) hm := by
  have hlog : m.log2 < 52 := (Nat.log2_lt hm.ne').mpr hi
  have hman : (BitVec.ofNat 52 m).toNat = m := by
    rw [BitVec.toNat_ofNat, Nat.mod_eq_of_lt hi]
  have hne : BitVec.ofNat 52 m ≠ 0#52 := by
    rw [ne_eq, ← BitVec.toNat_inj, hman]
    exact hm.ne'
  have hsub : ¬ m.log2 + 1 = binary64.mantissaBits := by
    change ¬ m.log2 + 1 = 53
    omega
  simp only [pack]
  rw [if_neg (by decide), if_neg hsub, unpack_packComponents, if_neg (by decide), if_pos rfl,
    dif_neg hne]
  simp only [hman]

/-- The canonical forms: what unpacking a word gives. -/
def Canonical : UnpackedFloat → Prop
  | .finite _ m e _ => m < 2 ^ 53 ∧ -1074 ≤ e ∧ e ≤ 971 ∧ (2 ^ 52 ≤ m ∨ e = -1074)
  | _ => True

theorem canonical_unpack : Canonical (unpack binary64 b) := by
  have hexp := unpackExponent_toNat b
  have hman := unpackMantissa_toNat b
  unfold unpack
  dsimp only
  split
  · split <;> trivial
  · rename_i htop
    have htop' : b.toNat / 2 ^ 52 % 2 ^ 11 ≠ 2047 := by
      rw [← hexp]
      exact fun h => htop (BitVec.eq_of_toNat_eq h)
    split
    · rename_i hlow
      have hlow' : b.toNat / 2 ^ 52 % 2 ^ 11 = 0 := by
        rw [← hexp, hlow]
        rfl
      split
      · trivial
      · simp only [Canonical, hman, hexp, hlow']
        refine ⟨by omega, ?_, ?_, .inr rfl⟩ <;> decide
    · rename_i hlow
      have hlow' : b.toNat / 2 ^ 52 % 2 ^ 11 ≠ 0 := by
        rw [← hexp]
        exact fun h => hlow (BitVec.eq_of_toNat_eq h)
      simp only [Canonical, one_append_toNat, hman, hexp]
      change _ ∧ -1074 ≤ ((b.toNat / 2 ^ 52 % 2 ^ 11 : Nat) : Int) - (1023 + 52 : Nat) ∧
        ((b.toNat / 2 ^ 52 % 2 ^ 11 : Nat) : Int) - (1023 + 52 : Nat) ≤ 971 ∧ _
      exact ⟨by omega, by omega, by omega, .inl (by omega)⟩

theorem unpack_pack {f : UnpackedFloat} (h : Canonical f) :
    unpack binary64 (pack binary64 f) = f := by
  cases f with
  | infinity s => cases s <;> rfl
  | notANumber => rfl
  | zero s => cases s <;> rfl
  | finite s m e hm =>
    obtain ⟨hi, least, top, lo⟩ := h
    by_cases hn : 2 ^ 52 ≤ m
    · exact unpack_pack_normal s hm hn hi least top
    · obtain rfl := lo.resolve_left hn
      exact unpack_pack_subnormal s hm (by omega)

theorem unpacked_canonical (x : Float) : Canonical (unpacked x) := canonical_unpack _

theorem unpacked_add (x y : Float) : unpacked (x + y) =
    unpack binary64 (pack binary64 (UnpackedFloat.add binary64 (unpacked x) (unpacked y))) := rfl

theorem unpacked_sub (x y : Float) : unpacked (x - y) =
    unpack binary64 (pack binary64 (UnpackedFloat.sub binary64 (unpacked x) (unpacked y))) := rfl

theorem datum_eq (x : Float) : datum x = .ofUnpacked (unpacked x) :=
  decode_toNat x.toModel.toBits.toBitVec

/-- A word denotes what its real denotes. -/
theorem datum_ofWord {word : Nat} (h : word < 2 ^ 64) : datum (ofWord word) = double.decode word := by
  have hw : (UInt64.ofNat word).toBitVec.toNat = word := Nat.mod_eq_of_lt h
  have hu : unpacked (ofWord word) = unpack binary64 (UInt64.ofNat word).toBitVec := by
    change unpack binary64 (pack binary64 (unpack binary64 (UInt64.ofNat word).toBitVec)) = _
    exact unpack_pack (canonical_unpack _)
  rw [datum_eq, hu, ← decode_toNat, hw]

theorem isFinite_iff (x : Float) : isFinite x = (unpacked x).isFinite := by
  unfold isFinite
  rw [datum_eq]
  cases unpacked x <;> rfl

theorem le_iff (x y : Float) : x ≤ y ↔ (unpacked x).le (unpacked y) = true := by
  change decide (x.toModel ≤ y.toModel) = true ↔ _
  rw [decide_eq_true_iff]
  rfl

theorem lt_iff (x y : Float) : x < y ↔ (unpacked x).lt (unpacked y) = true := by
  change decide (x.toModel < y.toModel) = true ↔ _
  rw [decide_eq_true_iff]
  rfl

end LadderLogic.Binary
