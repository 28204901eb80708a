import LadderLogic.Comparison
import LadderLogic.Proofs.Binary.Range

/-!
The order of reals. It is that of their unpacked forms, and everything has a place in it except
what is no number. Integers have one, however large they are.
-/

set_option autoImplicit false

namespace LadderLogic.Binary

open Float.Model (UnpackedFloat)
open Float.Model.UnpackedFloat

theorem compare_swap (f g : UnpackedFloat) : f.compare g = (g.compare f).map Ordering.swap := by
  cases f with
  | notANumber => cases g <;> rfl
  | infinity s =>
    cases g with
    | infinity t => cases s <;> cases t <;> rfl
    | _ => cases s <;> rfl
  | zero s =>
    cases g with
    | infinity t | finite t n k hn => cases t <;> rfl
    | _ => rfl
  | finite s m e hm =>
    cases g with
    | notANumber => rfl
    | infinity t => cases t <;> rfl
    | zero t => cases s <;> rfl
    | finite t n k hn =>
      -- Of two numbers of one sign the exponents decide first, then the significands.
      have hlex : (compare e k).then (compare m n) = ((compare k e).then (compare n m)).swap := by
        rw [Ordering.swap_then, ← Std.OrientedOrd.eq_swap, ← Std.OrientedOrd.eq_swap]
      cases s <;> cases t
      case positive.positive => exact congrArg some hlex
      case negative.negative => exact congrArg (fun o => some o.swap) hlex
      all_goals rfl

theorem exists_compare {f g : UnpackedFloat} (hf : f ≠ .notANumber) (hg : g ≠ .notANumber) :
    ∃ o, f.compare g = some o := by
  cases f with
  | notANumber => exact absurd rfl hf
  | infinity s =>
    cases g with
    | notANumber => exact absurd rfl hg
    | infinity t => exact ⟨_, rfl⟩
    | _ => cases s <;> exact ⟨_, rfl⟩
  | zero s =>
    cases g with
    | notANumber => exact absurd rfl hg
    | zero t => exact ⟨_, rfl⟩
    | infinity t | finite t n k hn => cases t <;> exact ⟨_, rfl⟩
  | finite s m e hm =>
    cases g with
    | notANumber => exact absurd rfl hg
    | infinity t => cases t <;> exact ⟨_, rfl⟩
    | zero t => cases s <;> exact ⟨_, rfl⟩
    | finite t n k hn => cases s <;> cases t <;> exact ⟨_, rfl⟩

theorem lt_iff_compare (x y : Float) :
    x < y ↔ (unpacked x).compare (unpacked y) = some .lt := by
  rw [lt_iff]
  exact beq_iff_eq

theorem beq_iff_compare (x y : Float) :
    (x == y) = true ↔ (unpacked x).compare (unpacked y) = some .eq := by
  change (unpacked x).beq (unpacked y) = true ↔ _
  exact beq_iff_eq

/-- The three tests of a comparison, one after the other, find the order of the unpacked forms. -/
theorem compareReal?_eq (x y : Float) :
    Comparison.compareReal? x y = (unpacked x).compare (unpacked y) := by
  unfold Comparison.compareReal?
  simp only [lt_iff_compare, beq_iff_compare]
  rw [compare_swap (unpacked y) (unpacked x)]
  generalize (unpacked x).compare (unpacked y) = order
  rcases order with _ | _ | _ | _ <;> rfl

theorem datum_eq_nan_iff (x : Float) : datum x = .nan ↔ unpacked x = .notANumber := by
  rw [datum_eq]
  cases unpacked x <;> simp [Datum.ofUnpacked]

theorem datum_ne_nan_of_isFinite {x : Float} (h : isFinite x = true) : datum x ≠ .nan := by
  intro hnan
  simp [isFinite, hnan] at h

theorem exists_compareReal? {x y : Float} (hx : datum x ≠ .nan) (hy : datum y ≠ .nan) :
    ∃ o, Comparison.compareReal? x y = some o := by
  rw [compareReal?_eq]
  exact exists_compare (mt (datum_eq_nan_iff x).mpr hx) (mt (datum_eq_nan_iff y).mpr hy)

/-- A magnitude up to that of infinity is one of a number or of infinity. -/
theorem decodeMagnitude_ne_nan (negative : Bool) {magnitude : Nat}
    (h : magnitude ≤ double.infinity) : double.decodeMagnitude negative magnitude ≠ .nan := by
  rcases h.lt_or_eq with hlt | rfl
  · obtain ⟨m, e, hdecode, -, -⟩ := Format.decodeMagnitude_of_le Format.double_regular negative
      (Format.minExponent_le_maxExponent Format.double_regular) le_rfl
      ((Format.lt_infinity_iff Format.double_regular).mp hlt)
    rw [hdecode]
    exact nofun
  · rw [Format.decodeMagnitude_infinity]
    exact nofun

theorem datum_ofInt_ne_nan (i : Int) : datum (ofInt i) ≠ .nan := by
  have hle : double.encodeMagnitude i.natAbs 1 ≤ double.infinity :=
    Format.encodeMagnitude_le_infinity
  have hlt : double.encode (decide (i < 0)) i.natAbs 1 < 2 ^ 64 :=
    double_signBit_two ▸ Format.word_lt _ hle
  rw [ofInt, datum_ofWord hlt, Format.encode, Format.decode_word _ hle]
  exact decodeMagnitude_ne_nan _ hle

end LadderLogic.Binary
