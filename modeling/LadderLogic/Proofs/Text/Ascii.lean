import LadderLogic.Proofs.TagType.Domain

/-!
Text between cells and numbers. Rendered numbers are ASCII, so that each of their characters fits a
CHAR cell, and text that is read as a number lies in the domain it is read for.
-/

set_option autoImplicit false

namespace LadderLogic

/-- A text of ASCII characters. -/
def IsAscii (cs : List Char) : Prop := ∀ c ∈ cs, c.toNat < 128

theorem isAscii_nil : IsAscii [] := by simp [IsAscii]

@[simp] theorem isAscii_cons (c : Char) (cs : List Char) :
    IsAscii (c :: cs) ↔ c.toNat < 128 ∧ IsAscii cs := by
  simp [IsAscii]

@[simp] theorem isAscii_append (cs ds : List Char) :
    IsAscii (cs ++ ds) ↔ IsAscii cs ∧ IsAscii ds := by
  simp only [IsAscii, List.mem_append]
  exact ⟨fun h => ⟨fun c hc => h c (.inl hc), fun c hc => h c (.inr hc)⟩,
    fun h c hc => hc.elim (h.1 c) (h.2 c)⟩

theorem isAscii_replicate (count : Nat) : IsAscii (List.replicate count '0') := by
  intro c hc
  rw [List.eq_of_mem_replicate hc]
  decide

theorem isAscii_signed (negative : Prop) [Decidable negative] {cs : List Char} (h : IsAscii cs) :
    IsAscii (if negative then '-' :: cs else cs) := by
  split_ifs
  · exact (isAscii_cons _ _).mpr ⟨by decide, h⟩
  · exact h

/-- A CHAR cell holds any single ASCII character. -/
theorem isCharText_singleton {c : Char} (h : c.toNat < 128) :
    isCharText (String.singleton c) = true := by
  unfold isCharText
  rw [String.toList_singleton]
  exact decide_eq_true h

namespace Decimal

theorem isAscii_digits (n : Nat) : IsAscii (digits n) := by
  intro c hc
  have hd := Nat.isDigit_of_mem_toDigits (by decide) (by decide) hc
  rw [Char.isDigit_iff_toNat] at hd
  have hnine : '9'.toNat = 57 := rfl
  omega

theorem isAscii_padLeft (width : Nat) {cs : List Char} (h : IsAscii cs) :
    IsAscii (padLeft width cs) :=
  (isAscii_append _ _).mpr ⟨isAscii_replicate _, h⟩

/-- Hexadecimal digits are the characters of numbers below sixteen. -/
theorem digitChar_of_mem_toDigits (n : Nat) :
    ∀ c ∈ Nat.toDigits 16 n, ∃ d < 16, c = Nat.digitChar d := by
  induction n using Nat.strong_induction_on with
  | _ n ih =>
    intro c hc
    by_cases hn : n < 16
    · rw [Nat.toDigits_of_lt_base hn, List.mem_singleton] at hc
      exact ⟨n, hn, hc⟩
    · have hsplit := Nat.toDigits_append_toDigits (b := 16) (n := n / 16) (d := n % 16) (by decide)
        (by omega) (by omega)
      rw [Nat.div_add_mod] at hsplit
      rw [← hsplit, List.mem_append] at hc
      rcases hc with hc | hc
      · exact ih (n / 16) (by omega) c hc
      · rw [Nat.toDigits_of_lt_base (by omega), List.mem_singleton] at hc
        exact ⟨n % 16, by omega, hc⟩

theorem isAscii_upperHex (n : Nat) : IsAscii (upperHex n) := by
  intro c hc
  obtain ⟨e, he, rfl⟩ := List.mem_map.mp hc
  obtain ⟨d, hd, rfl⟩ := digitChar_of_mem_toDigits n e he
  interval_cases d <;> decide

theorem hexValue?_lt {c : Char} {d : Nat} (h : hexValue? c = some d) : d < 16 := by
  unfold hexValue? at h
  split_ifs at h with hdigit hlower hupper <;> simp only [Option.some.injEq] at h <;> subst h
  · have hnine := (Char.isDigit_iff_toNat.mp hdigit).2
    change c.toNat ≤ 57 at hnine
    change c.toNat - 48 < 16
    omega
  · have hf : c.toNat ≤ 102 := hlower.2
    change c.toNat - 97 + 10 < 16
    omega
  · have hf : c.toNat ≤ 70 := hupper.2
    change c.toNat - 65 + 10 < 16
    omega

theorem hexFold_lt {cs : List Char} {start n : Nat}
    (h : cs.foldlM (fun n c => (hexValue? c).map (16 * n + ·)) start = some n) :
    n < (start + 1) * 16 ^ cs.length := by
  induction cs generalizing start with
  | nil =>
    simp only [List.foldlM_nil, Option.pure_def, Option.some.injEq] at h
    simp [h]
  | cons c cs ih =>
    simp only [List.foldlM_cons, Option.bind_eq_bind, Option.bind_eq_some_iff,
      Option.map_eq_some_iff] at h
    obtain ⟨next, ⟨d, hd, rfl⟩, hrest⟩ := h
    have hlt := hexValue?_lt hd
    calc n < (16 * start + d + 1) * 16 ^ cs.length := ih hrest
      _ ≤ (16 * (start + 1)) * 16 ^ cs.length := Nat.mul_le_mul_right _ (by omega)
      _ = (start + 1) * 16 ^ (c :: cs).length := by rw [List.length_cons, pow_succ]; ring

/-- Four hexadecimal digits make at most 16 bits. -/
theorem hexNumber?_le {cs : List Char} {n : Nat} (hlen : cs.length ≤ 4)
    (h : hexNumber? cs = some n) : n ≤ 65535 := by
  have hlt := hexFold_lt h
  have hpow : 16 ^ cs.length ≤ 16 ^ 4 := Nat.pow_le_pow_right (by decide) hlen
  omega

theorem isAscii_take {cs : List Char} (h : IsAscii cs) (count : Nat) : IsAscii (cs.take count) :=
  fun c hc => h c (List.mem_of_mem_take hc)

theorem isAscii_drop {cs : List Char} (h : IsAscii cs) (count : Nat) : IsAscii (cs.drop count) :=
  fun c hc => h c (List.mem_of_mem_drop hc)

namespace Layout

theorem isAscii_positionalText (layout : Layout) {ds : List Char} (h : IsAscii ds) (point : Int) :
    IsAscii (layout.positionalText ds point) := by
  unfold positionalText
  split_ifs with hlow hlen hpoint
  · simp only [isAscii_cons, isAscii_append]
    exact ⟨by decide, by decide, isAscii_replicate _, h⟩
  · simp only [isAscii_append, isAscii_cons]
    exact ⟨⟨h, isAscii_replicate _⟩, by decide, by decide, isAscii_nil⟩
  · simp only [isAscii_append]
    exact ⟨⟨h, isAscii_replicate _⟩, isAscii_nil⟩
  · simp only [isAscii_append, isAscii_cons]
    exact ⟨isAscii_take h _, by decide, isAscii_drop h _⟩

theorem isAscii_exponentText {ds : List Char} (h : IsAscii ds) (place : Int) :
    IsAscii (exponentText ds place) := by
  unfold exponentText
  simp only [isAscii_append, isAscii_cons]
  refine ⟨⟨isAscii_take h 1, ?_⟩, by decide, ?_, isAscii_digits _⟩
  · split_ifs
    · exact isAscii_nil
    · exact (isAscii_cons _ _).mpr ⟨by decide, isAscii_drop h 1⟩
  · split_ifs <;> decide

theorem isAscii_scaledText (layout : Layout) (s : Scaled) : IsAscii (layout.scaledText s) := by
  unfold scaledText
  have hds := isAscii_digits s.digits
  split
  · exact isAscii_positionalText layout hds _
  · dsimp only
    split_ifs
    · exact isAscii_positionalText layout hds _
    · exact isAscii_exponentText hds _

theorem isAscii_finiteText (layout : Layout) (f : Binary.Format) (negative : Bool) (mantissa : Nat)
    (exponent : Int) : IsAscii (layout.finiteText f negative mantissa exponent) := by
  have hmagnitude : IsAscii (if mantissa = 0 then '0' :: (if layout.keepPoint then ['.', '0'] else [])
      else layout.scaledText (shortest f layout.tie mantissa exponent)) := by
    split_ifs
    · simp [isAscii_nil]
    · simp [isAscii_nil]
    · exact isAscii_scaledText layout _
  exact isAscii_signed (negative = true) hmagnitude

end Layout

end Decimal

/-- Every real is written in ASCII. -/
theorem Value.isAscii_wordText (f : Binary.Format) (word : Nat) : IsAscii (wordText f word) := by
  unfold wordText
  split
  · simp [isAscii_nil]
  · split_ifs <;> simp [isAscii_nil]
  · exact Decimal.Layout.isAscii_finiteText _ _ _ _ _

namespace Conversion

theorem isAscii_renderDecimal (width : Nat) (suppressZero : Bool) (i : Int) :
    IsAscii (renderDecimal width suppressZero i) := by
  have hfilled : IsAscii (if suppressZero then Decimal.digits i.natAbs
      else Decimal.padLeft width (Decimal.digits i.natAbs)) := by
    split_ifs
    · exact Decimal.isAscii_digits _
    · exact Decimal.isAscii_padLeft _ (Decimal.isAscii_digits _)
  exact isAscii_signed (i < 0) hfilled

theorem isAscii_renderHex? {suppressZero : Bool} {i : Int} {cs : List Char}
    (h : renderHex? suppressZero i = some cs) : IsAscii cs := by
  unfold renderHex? at h
  split_ifs at h <;> simp only [Option.some.injEq] at h <;> subst h
  · exact Decimal.isAscii_upperHex _
  · exact Decimal.isAscii_padLeft _ (Decimal.isAscii_upperHex _)

/-- Whatever a number is rendered as, it is ASCII. -/
theorem isAscii_render? {v : Value} {source : Option TagType} {suppressZero : Bool}
    {cs : List Char} (h : render? v source suppressZero = some cs) : IsAscii cs := by
  unfold render? at h
  split at h
  case h_1 => cases h
  case h_2 =>
    split at h
    case h_2 => cases h
    case h_1 =>
      split at h <;> cases h
      exact Value.isAscii_wordText _ _
  case h_3 =>
    obtain ⟨i, -, hi⟩ := Option.bind_eq_some_iff.mp h
    exact isAscii_renderHex? hi
  all_goals
    obtain ⟨i, -, rfl⟩ := Option.map_eq_some_iff.mp h
    exact isAscii_renderDecimal _ _ _

end Conversion

/-- Text is read as a number of the domain it is read for. -/
theorem PackText.read?_holds {cs : List Char} {t : TagType} {v : Value} (h : read? cs t = some v) :
    t.Holds v := by
  cases t with
  | bool | char => cases h
  | int | dint =>
    simp only [read?, readInteger?] at h
    split at h
    case h_1 =>
      split_ifs at h with hmem
      cases h
      exact hmem
    case h_2 => cases h
  | word =>
    simp only [read?, readWord?] at h
    split_ifs at h with hlen
    obtain ⟨i, hi, rfl⟩ := Option.map_eq_some_iff.mp h
    obtain ⟨n, hn, hcast⟩ := Option.bind_eq_some_iff.mp hi
    obtain rfl : (n : Int) = i := Option.some.inj hcast
    have hle := Decimal.hexNumber?_le (by omega) hn
    change (0 : Int) ≤ n ∧ (n : Int) ≤ 65535
    omega
  | real =>
    simp only [read?, readReal?] at h
    split_ifs at h
    obtain ⟨w, -, hw⟩ := Option.bind_eq_some_iff.mp h
    exact TagType.valueOf_holds hw

end LadderLogic
