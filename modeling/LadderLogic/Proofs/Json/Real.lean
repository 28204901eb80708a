import LadderLogic.Proofs.Decimal.Shortest
import LadderLogic.Proofs.Json.Numeral

/-!
Reals as numbers in JSON. A format that keeps the point writes every finite real as a numeral with a
fraction or an exponent, so that it is never taken for an integer.
-/

set_option autoImplicit false

namespace LadderLogic

namespace Decimal

theorem IsDigits.append {ds es : List Char} (hds : IsDigits ds) (hes : ∀ c ∈ es, c.isDigit = true) :
    IsDigits (ds ++ es) where
  ne_nil := by simp [hds.ne_nil]
  all := by
    intro c hc
    rcases List.mem_append.mp hc with hc | hc
    · exact hds.all c hc
    · exact hes c hc

theorem isDigit_of_mem_zeros {count : Nat} {c : Char} (h : c ∈ List.replicate count '0') :
    c.isDigit = true := by
  rw [List.eq_of_mem_replicate h]
  rfl

theorem isDigits_zero : IsDigits ['0'] := ⟨by simp, by simp⟩

theorem digits_ne_zero_cons {n : Nat} (h : n ≠ 0) (ds : List Char) : digits n ≠ '0' :: ds := by
  intro heq
  obtain rfl := Json.Numeral.leading_digits n ds heq
  apply h
  rw [← value_digits n, heq]
  rfl

end Decimal

namespace Json

open Decimal

/-- A numeral with this sign that has a fraction or an exponent is written so. -/
def SpellsReal (negative : Bool) (cs : List Char) : Prop :=
  ∃ n : Numeral, n.WellFormed ∧ n.negative = negative ∧ n.text = cs ∧
    (n.fraction.isSome || n.exponent.isSome) = true

theorem SpellsReal.minus {cs : List Char} (h : SpellsReal false cs) :
    SpellsReal true ('-' :: cs) := by
  obtain ⟨n, hformed, hsign, rfl, hreal⟩ := h
  refine ⟨{ n with negative := true }, ⟨hformed.whole, hformed.leading, hformed.fraction,
    hformed.exponent⟩, rfl, ?_, hreal⟩
  simp [Numeral.text, hsign]

theorem spellsReal_fraction {whole fraction : List Char} (hwhole : IsDigits whole)
    (hleading : ∀ ds, whole = '0' :: ds → ds = []) (hfraction : IsDigits fraction) :
    SpellsReal false (whole ++ '.' :: fraction) := by
  refine ⟨⟨false, whole, some fraction, none⟩, ⟨hwhole, hleading, ?_, nofun⟩, rfl, ?_, rfl⟩
  · rintro ds ⟨⟩
    exact hfraction
  · simp [Numeral.text, Numeral.fractionText, Numeral.exponentText]

end Json

namespace Decimal.Layout

open Json

variable {layout : Layout} {ds : List Char}

theorem spellsReal_positionalText (hkeep : layout.keepPoint = true) (hds : IsDigits ds)
    (hleading : ∀ rest, ds ≠ '0' :: rest) (point : Int) :
    SpellsReal false (layout.positionalText ds point) := by
  unfold positionalText
  split_ifs with hlow hlong
  · have hfraction : IsDigits (List.replicate (-point).toNat '0' ++ ds) := by
      refine ⟨by simp [hds.ne_nil], ?_⟩
      intro c hc
      rcases List.mem_append.mp hc with hc | hc
      · exact isDigit_of_mem_zeros hc
      · exact hds.all c hc
    exact spellsReal_fraction isDigits_zero (by simp) hfraction
  · obtain ⟨d, rest, rfl⟩ := List.exists_cons_of_ne_nil hds.ne_nil
    refine spellsReal_fraction (hds.append fun c hc => isDigit_of_mem_zeros hc) ?_ isDigits_zero
    intro tail heq
    exact absurd (by rw [(List.cons.inj heq).1]) (hleading rest)
  · have hdrop : IsDigits (ds.drop point.toNat) :=
      ⟨by simpa using hlong, fun c hc => hds.all c (List.mem_of_mem_drop hc)⟩
    obtain ⟨d, rest, rfl⟩ := List.exists_cons_of_ne_nil hds.ne_nil
    obtain ⟨count, hcount⟩ := Nat.exists_eq_add_one_of_ne_zero (show point.toNat ≠ 0 by omega)
    have htake : IsDigits ((d :: rest).take point.toNat) :=
      ⟨by simp [hcount], fun c hc => hds.all c (List.mem_of_mem_take hc)⟩
    refine spellsReal_fraction htake ?_ hdrop
    intro tail heq
    rw [hcount, List.take_succ_cons] at heq
    exact absurd (by rw [(List.cons.inj heq).1]) (hleading rest)

theorem spellsReal_exponentText (hds : IsDigits ds) (place : Int) :
    SpellsReal false (exponentText ds place) := by
  obtain ⟨d, rest, rfl⟩ := List.exists_cons_of_ne_nil hds.ne_nil
  have hd : IsDigits [d] :=
    ⟨by simp, fun c hc => hds.all c (List.mem_singleton.mp hc ▸ List.mem_cons_self)⟩
  have hplace := isDigits_digits place.natAbs
  unfold exponentText
  cases rest with
  | nil =>
    refine ⟨⟨false, [d], none, some (decide (place < 0), digits place.natAbs)⟩,
      ⟨hd, by simp, nofun, ?_⟩, rfl, ?_, rfl⟩
    · rintro _ ⟨⟩
      exact hplace
    · simp [Numeral.text, Numeral.fractionText, Numeral.exponentText]
  | cons c rest =>
    refine ⟨⟨false, [d], some (c :: rest), some (decide (place < 0), digits place.natAbs)⟩,
      ⟨hd, by simp, ?_, ?_⟩, rfl, ?_, rfl⟩
    · rintro _ ⟨⟩
      exact ⟨by simp, fun x hx => hds.all x (List.mem_cons_of_mem d hx)⟩
    · rintro _ ⟨⟩
      exact hplace
    · simp [Numeral.text, Numeral.fractionText, Numeral.exponentText]

theorem spellsReal_scaledText (hkeep : layout.keepPoint = true) {s : Scaled} (hs : s.digits ≠ 0) :
    SpellsReal false (layout.scaledText s) := by
  have hds := isDigits_digits s.digits
  have hleading := digits_ne_zero_cons hs
  unfold scaledText
  split
  · exact spellsReal_positionalText hkeep hds hleading _
  · dsimp only
    split_ifs
    · exact spellsReal_positionalText hkeep hds hleading _
    · exact spellsReal_exponentText hds _

/-- Every finite real of double precision is written with a point or an exponent. -/
theorem spellsReal_finiteText (hkeep : layout.keepPoint = true) (negative : Bool) {m : Nat}
    {e : Int} (hlt : m < 2 ^ 53) (hlow : -1074 ≤ e) (hhigh : e ≤ 971) :
    SpellsReal negative (layout.finiteText Binary.double negative m e) := by
  have hmagnitude : SpellsReal false
      (if m = 0 then '0' :: (if layout.keepPoint then ['.', '0'] else [])
        else layout.scaledText (shortest Binary.double layout.tie m e)) := by
    split_ifs with hm
    · exact spellsReal_fraction isDigits_zero (by simp) isDigits_zero
    · exact spellsReal_scaledText hkeep (digits_shortest_ne_zero _ _ hm hlt hlow hhigh)
  unfold finiteText
  dsimp only
  cases negative with
  | true => exact hmagnitude.minus
  | false => exact hmagnitude

end Decimal.Layout

end LadderLogic
